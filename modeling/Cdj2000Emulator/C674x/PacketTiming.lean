import Cdj2000Emulator.C674x.ArmEffects
import Cdj2000Emulator.C674x.Issuing
import Cdj2000Emulator.C674x.Multicycle

namespace Cdj2000Emulator.C674x.PacketTiming

open Library.Stateful State Transfer Decode Effects Operands ArmControl Arms C674x.Compact Dispatch Execute Issuing
open ArmEffects Multicycle

/-- The call of a packet function that an effect makes. -/
def askOf : Effect → Option Request
  | .nop count => some (.nop count)
  | .idle => some .idle
  | .protectedLoad => some .load
  | .multicycle cycles _ => some (.multi cycles)
  | _ => none

def requests (effects : List Effect) : List Request := effects.filterMap askOf

section Requests

variable {β : Type} {bus : Bus β} {a b : Issue} {effect : Effect} {l m : List Effect} {s s' : β}

theorem requests_cons : requests (effect :: l) = (askOf effect).toList ++ requests l := by
  unfold requests
  rw [List.filterMap_cons]
  cases askOf effect with
  | none => rfl
  | some r => rfl

theorem requests_append : requests (l ++ m) = requests l ++ requests m := List.filterMap_append

theorem ask_of_apply (h : a.apply effect = .ok b) :
    match askOf effect with
    | some r => r.ask a.timing = some b.timing
    | none => b.timing = a.timing := by
  have hretime {timing : Option Timing} {why : String} (h : a.retime timing why = .ok b) : timing = some b.timing := by
    cases timing with
    | none => cases h
    | some timing => cases h; rfl
  have hqueue {a b : Issue} {entry : Load} (h : a.queueResult entry = .ok b) : b.timing = a.timing := by
    unfold Issue.queueResult at h
    split_ifs at h
    cases h
    rfl
  cases effect with
  | nop count => exact hretime h
  | idle => exact hretime h
  | protectedLoad => exact hretime h
  | multicycle cycles why => exact hretime h
  | stop why => cases h
  | result => exact hqueue h
  | resultPair => exact hqueue h
  | compared latency bank dst value mask =>
    simp only [Issue.apply] at h
    split_ifs at h
    cases hq : a.queueResult ⟨a.out.cycles + latency, value, bank, dst, .scalar 0 false⟩ with
    | error why =>
      rw [hq] at h
      cases h
    | ok c =>
      rw [hq] at h
      cases h
      rw [← hqueue hq]
      cases mask with
      | none => rfl
      | some mask => rfl
  | branch target why =>
    simp only [Issue.apply] at h
    split at h
    · cases h
    · cases h
      rfl
  | _ =>
    simp only [Issue.apply] at h
    try split_ifs at h
    all_goals
      cases h
      rfl

/-- The packet's timing record is the result of the requests that its effects make. -/
theorem run_timing (h : a.run bus l s = (s', .ok b)) :
    (requests l).foldlM (fun t (r : Request) ↦ r.ask t) a.timing = some b.timing := by
  induction l generalizing a s with
  | nil =>
    cases h
    rfl
  | cons effect l ih =>
    obtain ⟨c, t, hfirst, hrest⟩ := (run_cons_ok bus).mp h
    have hask := ask_of_apply (perform_ok hfirst)
    rw [requests_cons]
    cases hkind : askOf effect with
    | none =>
      rw [hkind] at hask
      have hask : c.timing = a.timing := hask
      exact hask ▸ ih hrest
    | some r =>
      rw [hkind] at hask
      have hask : r.ask a.timing = some c.timing := hask
      change List.foldlM _ _ (r :: requests l) = _
      rw [List.foldlM_cons, hask]
      exact ih hrest

theorem requests_mild (h : Mild l) : requests l = [] := by
  refine List.filterMap_eq_nil_iff.mpr fun effect hmem ↦ ?_
  have hmild := h effect hmem
  cases effect with
  | nop => cases hmild
  | idle => cases hmild
  | protectedLoad => cases hmild
  | multicycle => cases hmild
  | _ => rfl

end Requests

section Words

variable {w m n p q : Word}

/-- A word that shows one pattern does not show another that differs where both masks look. -/
theorem pattern_ne (h : w &&& m = p) (hne : p &&& n ≠ q &&& m) : (w &&& n = q) ↔ False := by
  refine iff_false_intro fun hq ↦ hne ?_
  rw [← h, ← hq, BitVec.and_assoc, BitVec.and_assoc, BitVec.and_comm m n]

theorem decodeSimple_branch (cpu : Cpu) {header : Word} (h : w &&& 0x187f#32 = 0x006f#32) :
    decodeSimple cpu header w = .other := by
  unfold decodeSimple
  simp (disch := decide) only [pattern_ne h, and_false, false_and, if_false]

theorem decodeSimple_bnop (cpu : Cpu) {header : Word} (hbr : header &&& 0x8000#32 ≠ 0)
    (h : w &&& 0x3e#32 = 0x0a#32 ∨ w &&& 0x2e#32 = 0x2a#32) : decodeSimple cpu header w = .other := by
  unfold decodeSimple
  rcases h with h | h
  · simp (disch := decide) only [pattern_ne h, hbr, not_true, not_false_eq_true, ne_eq, false_and, if_false]
  · simp (disch := decide) only [pattern_ne h, hbr, not_true, not_false_eq_true, ne_eq, false_and, if_false]

end Words

section Generators

variable (u : Arithmetic) (cpu : Cpu) (packet : Packet)

def compactGenerators (header w : Word) : List Generator :=
  if w &&& 0x187f#32 = 0x006f#32 then [.branch (field w 13 3)]
  else if header &&& 0x8000#32 ≠ 0 ∧ (w &&& 0x3e#32 = 0x0a#32 ∨ w &&& 0x2e#32 = 0x2a#32) then
    [.branch (if w &&& 0xc000#32 = 0xc000#32 then 5 else field w 13 3)]
  else []

def armGenerators (w : Word) : ArmName → List Generator
  | .bnopDisp | .bnopReg => [.branch (field w 13 3)]
  | .addkpc => if field w 1 1 = 0 then [] else [.addkpc (field w 13 3)]
  | _ => []

def fullGenerators (insn : Instruction) (w : Word) : List Generator :=
  let uncond := uncondClassify w
  if interruptGateDecode insn ≠ .none then []
  else if field w 29 3 = 7 ∨ (field w 29 3 = 0 ∧ field w 28 1 = 1 ∧ uncond = .none) then []
  else if uncond = .unimplemented then []
  else if uncond ≠ .none ∧ uncond ≠ .armTable then []
  else
    match armLookup u w with
    | none => []
    | some arm => armGenerators w arm

def loweredWord (insn : Instruction) : Option Word :=
  if insn.compact then (expandMemory insn.header insn.word).or (expandScalar insn.header insn.word) else none

/-- What an instruction has for the packet's duration, whatever its predicate. -/
def generators (insn : Instruction) : List Generator :=
  if isSpmask insn then []
  else if nopCycles insn ≠ 0 then
    if nopCycles insn = 16 ∧ ¬insn.compact then [.idle]
    else if 9 < nopCycles insn then []
    else [.nop (nopCycles insn)]
  else
    let w := (loweredWord insn).getD insn.word
    let compact := insn.compact && (loweredWord insn).isNone
    (if protectedLoad insn then [.load] else []) ++
      if isCallp insn.header w compact then [.callp]
      else if compact then compactGenerators insn.header w
      else fullGenerators u insn w

def predicated (insn : Instruction) : List (Generator × Bool) :=
  (generators u insn).map fun g ↦ (g, enabled cpu ((loweredWord insn).getD insn.word))

theorem requests_compact (header pc w : Word) (e : Bool) :
    requests (compactEffects cpu header pc w) = (compactGenerators header w).filterMap (·.request e) := by
  unfold compactGenerators
  split_ifs with hbranch hbnop hn
  · unfold compactEffects
    rw [decodeSimple_branch cpu hbranch]
    simp only [hbranch, if_true]
    rfl
  · unfold compactEffects
    rw [decodeSimple_bnop cpu hbnop.1 hbnop.2]
    have hmvc : ¬w &&& 0xfc7f#32 = 0xd86f#32 := by
      rcases hbnop.2 with h | h
      · exact (pattern_ne h (by decide)).mp
      · exact (pattern_ne h (by decide)).mp
    simp only [hbranch, hmvc, hbnop, if_true, if_false, and_self, ne_eq, not_false_eq_true]
    unfold compactBnop
    rw [requests_cons, requests_mild (by simp [IsMild]), if_pos hn]
    rfl
  · unfold compactEffects
    rw [decodeSimple_bnop cpu hbnop.1 hbnop.2]
    have hmvc : ¬w &&& 0xfc7f#32 = 0xd86f#32 := by
      rcases hbnop.2 with h | h
      · exact (pattern_ne h (by decide)).mp
      · exact (pattern_ne h (by decide)).mp
    simp only [hbranch, hmvc, hbnop, if_true, if_false, and_self, ne_eq, not_false_eq_true]
    unfold compactBnop
    rw [requests_cons, requests_mild (by simp [IsMild]), if_neg hn]
    rfl
  · refine requests_mild ?_
    unfold compactEffects
    split
    · exact mild_nil
    · exact mild_stop
    · simp [IsMild]
    · simp only [hbranch, hbnop, if_false]
      simp [compactB15, compactDpp, IsMild]

theorem requests_arm (index : ℕ) (insn : Instruction) (w : Word) (name : ArmName) :
    requests (name.run u (decodeArm cpu packet index insn w)) =
      (armGenerators w name).filterMap (·.request (enabled cpu w)) := by
  cases name with
  | bnopDisp =>
    change requests (armBnopDisp _) = _
    unfold armBnopDisp
    rw [requests_cons, requests_mild (by simp [IsMild])]
    rfl
  | bnopReg =>
    change requests (armBnopReg _) = _
    unfold armBnopReg
    rw [requests_cons, requests_mild (by simp [IsMild])]
    rfl
  | addkpc =>
    change requests (armAddkpc _) = _
    unfold armAddkpc armGenerators
    have hargs : (decodeArm cpu packet index insn w).side = field w 1 1 ∧
      (decodeArm cpu packet index insn w).enabled = enabled cpu w ∧ (decodeArm cpu packet index insn w).w = w :=
      ⟨rfl, rfl, rfl⟩
    rw [hargs.1, hargs.2.2]
    split_ifs with hside
    · exact requests_mild mild_stop
    · rw [requests_append, requests_mild mild_commit, List.append_nil]
      unfold Arm.whenEnabled
      rw [hargs.2.1, Nat.add_comm]
      cases enabled cpu w with
      | false => rfl
      | true => rfl
  | bIrp =>
    change requests (armBIrp _) = _
    unfold armBIrp Arm.whenEnabled
    dsimp only
    split_ifs <;> rfl
  | _ => exact requests_mild (mild_arm u _ (by decide))

theorem requests_full (index : ℕ) (insn : Instruction) (w : Word) :
    requests (fullEffects u cpu packet index insn w) =
      (fullGenerators u insn w).filterMap (·.request (enabled cpu w)) := by
  unfold fullEffects fullGenerators
  dsimp only
  by_cases hgate : interruptGateDecode insn ≠ .none
  · rw [if_pos hgate, if_pos hgate]
    split_ifs
    · exact requests_mild mild_stop
    · rfl
    · rfl
  rw [if_neg hgate, if_neg hgate]
  split_ifs
  · exact requests_mild mild_stop
  · exact requests_mild mild_stop
  · exact requests_mild (by simp [IsMild])
  · cases harm : armLookup u w with
    | none => exact requests_mild mild_stop
    | some name => exact requests_arm u cpu packet index insn w name

theorem requests_instruction (index : ℕ) (insn : Instruction) :
    requests (instructionEffects u cpu packet index insn) =
      (predicated u cpu insn).filterMap fun x ↦ x.1.request x.2 := by
  unfold predicated
  rw [List.filterMap_map]
  unfold instructionEffects generators
  by_cases hspmask : isSpmask insn = true
  · rw [if_pos hspmask, if_pos hspmask]
    split_ifs
    · exact requests_mild mild_stop
    · rfl
  rw [if_neg hspmask, if_neg hspmask]
  by_cases hnop : nopCycles insn ≠ 0
  · rw [if_pos hnop, if_pos hnop]
    unfold nopEffects
    dsimp only
    split_ifs
    · rfl
    · exact requests_mild mild_stop
    · rfl
  rw [if_neg hnop, if_neg hnop]
  change requests (_ ++ if isCallp insn.header ((loweredWord insn).getD insn.word)
    (insn.compact && (loweredWord insn).isNone) = true then
      callpEffects packet _ _ ((loweredWord insn).getD insn.word) (insn.compact && (loweredWord insn).isNone)
    else if (insn.compact && (loweredWord insn).isNone) = true then
      compactEffects cpu insn.header insn.pc ((loweredWord insn).getD insn.word)
    else fullEffects u cpu packet index insn ((loweredWord insn).getD insn.word)) = _
  dsimp only
  rw [requests_append, List.filterMap_append]
  congr 1
  · split_ifs
    · rfl
    · rfl
  split_ifs
  · unfold callpEffects
    dsimp only
    rw [requests_append]
    refine (congrArg (_ ++ ·) (requests_mild ?_)).trans rfl
    simp [IsMild]
  · exact requests_compact cpu _ _ _ _
  · exact requests_full u cpu packet index insn _

def packetGenerators : List Generator := packet.instructions.flatMap (generators u)

def packetPredicated : List (Generator × Bool) := packet.instructions.flatMap (predicated u cpu)

theorem packetPredicated_fst : (packetPredicated u cpu packet).map (·.1) = packetGenerators u packet := by
  unfold packetPredicated packetGenerators predicated
  rw [List.map_flatMap]
  refine List.flatMap_congr fun insn _ ↦ ?_
  rw [List.map_map]
  exact List.map_id _

theorem requests_packet : requests (packetEffects u cpu packet) =
    (packetPredicated u cpu packet).filterMap fun x ↦ x.1.request x.2 := by
  have hslots (insns : List Instruction) (k : ℕ) :
      requests ((insns.zipIdx k).flatMap fun slot ↦ instructionEffects u cpu packet slot.2 slot.1) =
        (insns.flatMap (predicated u cpu)).filterMap fun x ↦ x.1.request x.2 := by
    induction insns generalizing k with
    | nil => rfl
    | cons insn insns ih =>
      rw [List.zipIdx_cons, List.flatMap_cons, List.flatMap_cons, requests_append, List.filterMap_append, ih,
        requests_instruction]
  exact hslots packet.instructions 0

end Generators

section Outcome

variable {β : Type} {bus : Bus β} {u : Arithmetic} {cpu : Cpu} {packet : Packet} {s s' : β}

/-- How the accounting of a packet ends: the packet issues with a duration, or one of the
packet functions refuses it. -/
inductive Outcome (bus : Bus β) (u : Arithmetic) (cpu : Cpu) (packet : Packet) (s : β) : Option ℕ → Prop
  | issued {s' : β} {a : Issue} : issuePacket u cpu packet bus s = (s', .ok a) →
      Outcome bus u cpu packet s (some a.timing.cycles)
  | refused {before after : List Effect} {effect : Effect} {r : Request} {s' : β} {a : Issue} :
      packetEffects u cpu packet = before ++ effect :: after →
      (Issue.start cpu).run bus before s = (s', .ok a) → askOf effect = some r → r.ask a.timing = none →
      Outcome bus u cpu packet s none

theorem Outcome.accounted {d : Option ℕ} (h : Outcome bus u cpu packet s d) :
    d = accounted (requests (packetEffects u cpu packet)) := by
  unfold Multicycle.accounted
  cases h with
  | issued hissue =>
    have htiming := run_timing ((issuePacket_ok bus u cpu packet).mp hissue)
    have htiming : (requests (packetEffects u cpu packet)).foldlM (fun t (r : Request) ↦ r.ask t) Timing.start = _ :=
        htiming
    rw [htiming]
    rfl
  | @refused before after effect r s' a hsplit hrun hask hnone =>
    have htiming := run_timing hrun
    have htiming : (requests before).foldlM (fun t (r : Request) ↦ r.ask t) Timing.start = _ := htiming
    rw [hsplit, requests_append, requests_cons, hask, List.foldlM_append, htiming]
    change none = Option.map _ (List.foldlM _ _ (r :: requests after))
    rw [List.foldlM_cons, hnone]
    rfl

/-- The generators of a packet that the code counts, and those it does not: BNOP and ADDKPC with
`n` zero, and ADDKPC under a false predicate. -/
def packetCounted (u : Arithmetic) (cpu : Cpu) (packet : Packet) : List Generator :=
    counted (packetPredicated u cpu packet)

def packetHidden (u : Arithmetic) (cpu : Cpu) (packet : Packet) : List Generator :=
    hidden (packetPredicated u cpu packet)

/-- A packet has the duration, or the refusal, that the header's rule gives its instructions in
any order and under any predicates, exactly when the code counts all its generators, or those
that it counts already break the rule, or the only generator is one that adds no cycle. -/
theorem outcome_follows_rule_iff {d : Option ℕ} (h : Outcome bus u cpu packet s d) :
    (∀ packet' : Packet, packet'.instructions.Perm packet.instructions → d = rule (packetGenerators u packet')) ↔
      packetHidden u cpu packet = [] ∨ ¬(packetCounted u cpu packet).Pairwise Generator.MayShare ∨
        ∃ g, packetHidden u cpu packet = [g] ∧ g.weight = 1 ∧ ∀ g' ∈ packetCounted u cpu packet,
          ¬g'.Generates := by
  have hrule (packet' : Packet) (hperm : packet'.instructions.Perm packet.instructions) :
      rule (packetGenerators u packet') = rule (packetGenerators u packet) := by
    refine rule_perm ?_
    exact hperm.flatMap_right _
  have hcounted : d = rule (packetCounted u cpu packet) := by
    rw [h.accounted, requests_packet]
    exact accounted_counted _
  have hiff := counted_rule_iff (packetPredicated u cpu packet)
  rw [packetPredicated_fst, ← packetCounted, ← packetHidden, ← hcounted] at hiff
  rw [← hiff]
  constructor
  · intro hall
    exact hall packet (List.Perm.refl _)
  · intro hsame packet' hperm
    rw [hsame, hrule packet' hperm]

theorem outcome_of_cycles {n : ℕ} (h : (issuePacket u cpu packet bus s).2.toOption.map (·.timing.cycles) = some n) :
    Outcome bus u cpu packet s (some n) := by
  rcases hrun : issuePacket u cpu packet bus s with ⟨s', r⟩
  rw [hrun] at h
  cases r with
  | error why => cases h
  | ok a =>
    obtain rfl := Option.some_inj.mp h
    exact .issued hrun

def noBus : Bus Unit := ⟨fun _ _ ↦ ((), none), fun _ _ _ _ _ ↦ ((), false), id⟩

/-- `[B0] ADDKPC .S2 label,B3,3` in parallel with `ADD .L1 A1,A2,A3`. -/
def addkpcAdd : Packet := ⟨[⟨0x21806163, 0, 0, false⟩, ⟨0x01882078, 4, 0, false⟩], 8, false⟩

/-- With B0 set the packet lasts four cycles in any order, as the rule says; without it, it lasts one and the rule is
broken. -/
theorem outcome_follows_rule_iff_addkpc :
    Outcome noBus default ((reset 0).setReg 1 0 1) addkpcAdd () (some 4) ∧
      (∀ packet' : Packet, packet'.instructions.Perm addkpcAdd.instructions →
        some 4 = rule (packetGenerators default packet')) ∧
      Outcome noBus default (reset 0) addkpcAdd () (some 1) ∧
      ¬∀ packet' : Packet, packet'.instructions.Perm addkpcAdd.instructions →
        some 1 = rule (packetGenerators default packet') := by
  have taken : Outcome noBus default ((reset 0).setReg 1 0 1) addkpcAdd () (some 4) := outcome_of_cycles rfl
  have annulled : Outcome noBus default (reset 0) addkpcAdd () (some 1) := outcome_of_cycles rfl
  have hidden : packetHidden default (reset 0) addkpcAdd = [.addkpc 3] := rfl
  have counted : packetCounted default (reset 0) addkpcAdd = [] := rfl
  refine ⟨taken, (outcome_follows_rule_iff taken).mpr (.inl rfl), annulled, fun follows ↦ ?_⟩
  rcases (outcome_follows_rule_iff annulled).mp follows with none | breaks | ⟨g, only, light, -⟩
  · rw [hidden] at none
    cases none
  · rw [counted] at breaks
    exact breaks .nil
  · rw [hidden, List.singleton_inj] at only
    subst only
    revert light
    decide

/-- `[B0] ADDKPC .S2 label,B3,3`. -/
def addkpcB0 : Packet := ⟨[⟨0x21806162, 0, 0, false⟩], 4, false⟩

/-- Its predicate decides whether the packet lasts four cycles, as the rule says, or one. -/
theorem annulled_addkpc_untimed :
    Outcome noBus default ((reset 0).setReg 1 0 1) addkpcB0 () (some 4) ∧
      Outcome noBus default (reset 0) addkpcB0 () (some 1) ∧ rule (packetGenerators default addkpcB0) = some 4 :=
  ⟨outcome_of_cycles rfl, outcome_of_cycles rfl, rfl⟩

end Outcome

end Cdj2000Emulator.C674x.PacketTiming
