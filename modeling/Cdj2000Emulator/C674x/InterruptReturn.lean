import Cdj2000Emulator.C674x.PacketTiming
import Cdj2000Emulator.C674x.TaskState

namespace Cdj2000Emulator.C674x.InterruptReturn

open Library.Stateful State Transfer Decode Effects Operands ArmControl C674x.Compact Dispatch Execute Interrupt
open Step Phases
  Issuing ArmEffects LoopFrame Boundary TaskState
open PacketTiming (pattern_ne)

/-- B IRP under a true predicate. -/
structure IsReturn (cpu : Cpu) (insn : Instruction) : Prop where
  full : insn.compact = false
  word : insn.word &&& 0x0ffffffe#32 = 0x001800e2#32
  enabled : enabled cpu insn.word = true

/-- The task state that B IRP puts back. -/
def restored (cpu : Cpu) : Word := (cpu.control 27 &&& 0x0000c6de#32) ||| ((cpu.control 1 >>> 1) &&& 1#32)

def taskConflict : Effect := .guardControls [1, 26, 27] "B IRP parallel task-state write conflict"

def returnEffects (cpu : Cpu) : List Effect :=
  [taskConflict, .branch (cpu.control 6) branchRefusal, .restoreTask (restored cpu)]

section Decoding

variable {u : Arithmetic} {cpu : Cpu} {packet : Packet} {insn : Instruction} {w m p : Word}

theorem field_of_pattern {low width : ℕ} (h : w &&& m = p) (hcovers : ∀ i < width, m.getLsbD (low + i) = true) :
    field w low width = field p low width := by
  unfold field
  refine Nat.eq_of_testBit_eq fun i ↦ ?_
  rw [Nat.testBit_mod_two_pow, Nat.testBit_mod_two_pow, Nat.testBit_shiftRight, Nat.testBit_shiftRight, ← h,
    BitVec.testBit_toNat, BitVec.testBit_toNat, BitVec.getLsbD_and]
  by_cases hi : i < width
  · rw [hcovers i hi, Bool.and_true]
  · simp [hi]

/-- The rows of the arm table before B IRP's, without CMPxxSP's, whose mask does not tell it apart. -/
def earlierArms : List ArmEntry :=
  memoryAndMultiplyArms ++ floatAndLogicalArms.eraseIdx 6 ++ fieldAndBranchArms.take 7

theorem armLookup_return (h : w &&& 0x0ffffffe#32 = 0x001800e2#32) (hcond : w >>> 28 ≠ 1#32) :
    armLookup u w = some .bIrp := by
  have hrows : earlierArms.Forall fun entry ↦ 0x001800e2#32 &&& entry.mask ≠ entry.pattern &&&
      0x0ffffffe#32 := by decide
  have hearlier (entry : ArmEntry) (hentry : entry ∈ earlierArms) : entry.claims u w = false := by
    have hne := (pattern_ne h (List.forall_iff_forall_mem.mp hrows entry hentry)).mp
    simp only [ArmEntry.claims, Bool.and_eq_false_iff, decide_eq_false_iff_not]
    exact .inl (.inr hne)
  have hcmpsp : matchCmpsp u w = false := by
    unfold matchCmpsp
    rw [field_of_pattern h (by decide)]
    decide
  have hfind : arms.find? (fun entry ↦ entry.claims u w) = some ⟨0x0ffffffe, 0x001800e2, always, .bIrp⟩ := by
    refine List.find?_eq_some_iff_append.mpr ⟨?_, memoryAndMultiplyArms ++ floatAndLogicalArms ++
      fieldAndBranchArms.take 7,
      fieldAndBranchArms.drop 8 ++ packedArms ++ bitAndDoubleArms ++ longArms, rfl, ?_⟩
    · simp [ArmEntry.claims, h, hcond, always]
    · intro entry hentry
      have hsplit : entry ∈ earlierArms ∨ entry = ⟨0x0000003c, 0x00000020, matchCmpsp, .cmpsp⟩ := by
        have hfloat : floatAndLogicalArms = floatAndLogicalArms.take 6 ++
          ⟨0x0000003c, 0x00000020, matchCmpsp, .cmpsp⟩ :: floatAndLogicalArms.drop 7 := rfl
        rw [hfloat] at hentry
        unfold earlierArms
        rw [List.eraseIdx_eq_take_drop_succ]
        simp only [List.mem_append, List.mem_cons] at hentry ⊢
        tauto
      rcases hsplit with hentry | rfl
      · simp [hearlier entry hentry]
      · simp [ArmEntry.claims, hcmpsp]
  unfold armLookup
  rw [hfind]
  rfl

theorem isSpmask_return (h : IsReturn cpu insn) : isSpmask insn = false := by
  simp (disch := decide) [isSpmask, spmaskDecode, spmaskrDecode, h.full, pattern_ne h.word]

theorem nopCycles_return (h : IsReturn cpu insn) : nopCycles insn = 0 := by
  simp (disch := decide) [nopCycles, h.full, pattern_ne h.word]

theorem protectedLoad_return (h : IsReturn cpu insn) : protectedLoad insn = false := by
  simp (disch := decide) [protectedLoad, h.full, pattern_ne h.word]

theorem gate_return (h : IsReturn cpu insn) : interruptGateDecode insn = .none := by
  simp (disch := decide) only [interruptGateDecode, h.full, pattern_ne h.word]
  simp

theorem uncond_return (h : IsReturn cpu insn) :
    uncondClassify insn.word = .none ∨ uncondClassify insn.word = .unimplemented := by
  unfold uncondClassify
  simp (disch := decide) only [pattern_ne h.word, false_and, if_false]
  split_ifs
  · exact .inl rfl
  · exact .inl rfl

/-- B IRP guards the task state, branches to IRP and restores TSR, unless its predicate is reserved. -/
theorem instruction_return (h : IsReturn cpu insn) (index : ℕ) :
    instructionEffects u cpu packet index insn = returnEffects cpu ∨
      ∃ why, instructionEffects u cpu packet index insn = stop why := by
  have hcallp : isCallp insn.header insn.word false = false := by
    simp (disch := decide) [isCallp, pattern_ne h.word]
  have heffects : instructionEffects u cpu packet index insn = fullEffects u cpu packet index insn insn.word := by
    unfold instructionEffects
    simp [isSpmask_return h, nopCycles_return h, protectedLoad_return h, h.full, hcallp]
  rw [heffects]
  unfold fullEffects
  dsimp only
  rw [if_neg (by simp [gate_return h])]
  by_cases hreserved : field insn.word 29 3 = 7 ∨
      (field insn.word 29 3 = 0 ∧ field insn.word 28 1 = 1 ∧ uncondClassify insn.word = .none)
  · rw [if_pos hreserved]
    exact .inr ⟨_, rfl⟩
  rw [if_neg hreserved]
  rcases uncond_return h with huncond | huncond
  · have hcond : insn.word >>> 28 ≠ 1#32 := by
      intro hone
      have hnat := congrArg BitVec.toNat hone
      refine hreserved (.inr ⟨?_, ?_, huncond⟩)
      · simp only [BitVec.toNat_ushiftRight, BitVec.toNat_ofNat, Nat.shiftRight_eq_div_pow, field] at hnat ⊢
        omega
      · simp only [BitVec.toNat_ushiftRight, BitVec.toNat_ofNat, Nat.shiftRight_eq_div_pow, field] at hnat ⊢
        omega
    rw [if_neg (by simp [huncond]), if_neg (by simp [huncond]), armLookup_return h.word hcond]
    left
    change armBIrp _ = _
    unfold armBIrp Arm.whenEnabled
    rw [if_pos (show (decodeArm cpu packet index insn insn.word).enabled = true from h.enabled)]
    rfl
  · rw [if_pos huncond]
    exact .inr ⟨_, rfl⟩

end Decoding

/-- An effect that reaches GIE and TSR by a claimed control write only. -/
def Calm : Effect → Prop
  | .dint _ | .rint _ | .restoreTask _ => False
  | _ => True

/-- The packet so far has restored the task state, and claims it. -/
structure Restored (task : Word) (a : Effects.Issue) : Prop where
  claimed : ∀ id ∈ [1, 26, 27], a.controls id = true
  tsr : a.out.control 26 = task
  gie : (a.out.control 1).getLsbD 0 = task.getLsbD 0

section Issue

variable {β : Type} {bus : Bus β} {task : Word} {a b : Effects.Issue} {effect : Effect}
  {l m : List Effect} {s s' : β}

theorem Restored.of_eq (h : Restored task a) (hcontrols : b.controls = a.controls)
    (htsr : b.out.control 26 = a.out.control 26) (hcsr : b.out.control 1 = a.out.control 1) : Restored task b :=
  ⟨hcontrols ▸ h.claimed, htsr.trans h.tsr, hcsr ▸ h.gie⟩

theorem Restored.claim (h : Restored task a) {id : ℕ} {out : Cpu} (htsr : out.control 26 = a.out.control 26)
    (hcsr : out.control 1 = a.out.control 1) : Restored task (Effects.Issue.claim { a with out := out } id) := by
  refine ⟨fun id' hid ↦ ?_, htsr.trans h.tsr, hcsr ▸ h.gie⟩
  by_cases heq : id' = id
  · rw [heq]
    exact Function.update_self id true a.controls
  · exact (Function.update_of_ne heq true a.controls).trans (h.claimed id' hid)

theorem queueResult_restored {entry : Load} (h : Restored task a) (hrun : a.queueResult entry = .ok b) :
    Restored task b := by
  unfold Effects.Issue.queueResult at hrun
  split_ifs at hrun
  cases hrun
  exact h.of_eq rfl rfl rfl

theorem retime_restored {timing : Option Timing} {why : String} (h : Restored task a)
    (hrun : a.retime timing why = .ok b) :
    Restored task b := by
  cases timing with
  | none => cases hrun
  | some timing =>
    cases hrun
    exact h.of_eq rfl rfl rfl

theorem mvcWrite_other {out : Cpu} {id : ℕ} {value : Word} (hcsr : id ≠ 1) (htsr : id ≠ 26) (hitsr : id ≠ 27) :
    (mvcWrite out id value).control 26 = out.control 26 ∧ (mvcWrite out id value).control 1 = out.control 1 := by
  unfold mvcWrite
  dsimp only
  split_ifs <;> simp_all [Cpu.setControl, Cpu.setReady, eq_comm]

theorem apply_restored (h : Restored task a) (hrun : a.apply effect = .ok b) (hcalm : Calm effect) :
    Restored task b := by
  cases effect with
  | stop why => cases hrun
  | result => exact queueResult_restored h hrun
  | resultPair => exact queueResult_restored h hrun
  | nop count => exact retime_restored h hrun
  | idle => exact retime_restored h hrun
  | protectedLoad => exact retime_restored h hrun
  | multicycle cycles why => exact retime_restored h hrun
  | dint | rint | restoreTask => cases hcalm
  | compared latency bank dst value mask =>
    simp only [Effects.Issue.apply] at hrun
    split_ifs at hrun
    cases hq : a.queueResult ⟨a.out.cycles + latency, value, bank, dst, .scalar 0 false⟩ with
    | error why =>
      rw [hq] at hrun
      cases hrun
    | ok c =>
      rw [hq] at hrun
      cases hrun
      have hc := queueResult_restored h hq
      cases mask with
      | none => exact hc
      | some mask => exact hc.of_eq rfl rfl rfl
  | branch target why =>
    simp only [Effects.Issue.apply] at hrun
    unfold queueBranch at hrun
    split_ifs at hrun
    · cases hrun
      exact h.of_eq rfl rfl rfl
    · cases hrun
      exact h.of_eq rfl rfl rfl
  | faucr mask =>
    simp only [Effects.Issue.apply] at hrun
    split_ifs at hrun
    cases hrun
    exact h.claim rfl rfl
  | setNmie =>
    cases hrun
    exact h.claim rfl rfl
  | mvc id value =>
    simp only [Effects.Issue.apply] at hrun
    split_ifs at hrun with hclaimed
    · cases hrun
      exact h.claim rfl rfl
    · cases hrun
      exact h.claim rfl rfl
    · cases hrun
      have hne {id' : ℕ} (hid : id' ∈ [1, 26, 27]) : id ≠ id' := by
        rintro rfl
        exact hclaimed (h.claimed id hid)
      have hother : (mvcWrite a.out id value).control 26 = a.out.control 26 ∧
          (mvcWrite a.out id value).control 1 = a.out.control 1 :=
        mvcWrite_other (hne (by simp)) (hne (by simp)) (hne (by simp))
      exact h.claim hother.1 hother.2
  | _ =>
    simp only [Effects.Issue.apply] at hrun
    try split_ifs at hrun
    all_goals
      cases hrun
      exact h.of_eq rfl rfl rfl

def KeepsTask (bus : Bus β) (task : Word) (l : List Effect) : Prop :=
  ∀ (a b : Effects.Issue) (s s' : β), a.run bus l s = (s', .ok b) → Restored task a → Restored task b

theorem keepsTask_calm (h : ∀ effect ∈ l, Calm effect) : KeepsTask bus task l := by
  intro a b s s' hrun ha
  induction l generalizing a s with
  | nil =>
    cases hrun
    exact ha
  | cons effect l ih =>
    obtain ⟨c, t, hfirst, hrest⟩ := (run_cons_ok bus).mp hrun
    have hc := apply_restored ha (perform_ok hfirst) (h effect List.mem_cons_self)
    exact ih (fun e he ↦ h e (List.mem_cons_of_mem effect he)) _ _ hrest hc

theorem KeepsTask.append (h : KeepsTask bus task l) (k : KeepsTask bus task m) : KeepsTask bus task (l ++ m) := by
  intro a b s s' hrun ha
  rw [run_append] at hrun
  obtain ⟨c, t, hfirst, hrest⟩ := Machine.bind_ok.mp hrun
  exact k _ _ _ _ hrest (h _ _ _ _ hfirst ha)

/-- A second B IRP finds the task state claimed. -/
theorem keepsTask_conflict : KeepsTask bus task (taskConflict :: l) := by
  intro a b s s' hrun ha
  obtain ⟨c, t, hfirst, -⟩ := (run_cons_ok bus).mp hrun
  have hguard : a.apply taskConflict = .ok c := perform_ok hfirst
  have hclaimed := ha.claimed 1 (by simp)
  simp [taskConflict, Effects.Issue.apply, hclaimed] at hguard

theorem keepsTask_ite {c : Prop} [Decidable c] (h : c → KeepsTask bus task l) (k : ¬c → KeepsTask bus task m) :
    KeepsTask bus task (if c then l else m) := by
  split_ifs with hc
  · exact h hc
  · exact k hc

end Issue

section Packet

variable {β : Type} {bus : Bus β} {u : Arithmetic} {cpu : Cpu} {packet : Packet} {task : Word}
  {insn other : Instruction}

theorem calm_of_mild {effects : List Effect} (h : Mild effects) : ∀ effect ∈ effects, Calm effect := by
  intro effect hmem
  have hmild := h effect hmem
  cases effect with
  | dint | rint | restoreTask => cases hmild
  | _ => trivial

theorem keepsTask_mild {effects : List Effect} (h : Mild effects) : KeepsTask bus task effects :=
  keepsTask_calm (calm_of_mild h)

theorem keepsTask_cons {effect : Effect} {l : List Effect} (h : Calm effect) (k : KeepsTask bus task l) :
    KeepsTask bus task (effect :: l) := by
  have hone : KeepsTask bus task [effect] := keepsTask_calm (by simpa using h)
  exact hone.append k

theorem keepsTask_arm (x : Arm) (name : ArmName) : KeepsTask bus task (name.run u x) := by
  by_cases hname : name ∈ special
  case neg => exact keepsTask_mild (mild_arm u x hname)
  simp only [special, List.mem_cons, List.not_mem_nil, or_false] at hname
  rcases hname with rfl | rfl | rfl | rfl
  · exact keepsTask_cons trivial (keepsTask_mild (mild_whenEnabled (by simp [IsMild])))
  · exact keepsTask_cons trivial (keepsTask_mild (mild_whenEnabled (by simp [IsMild])))
  · refine keepsTask_ite (fun _ ↦ keepsTask_mild mild_stop) fun _ ↦
      KeepsTask.append ?_ (keepsTask_mild mild_commit)
    exact keepsTask_ite (fun _ ↦ keepsTask_cons trivial (keepsTask_mild mild_nil)) fun _ ↦ keepsTask_mild mild_nil
  · exact keepsTask_ite (fun _ ↦ keepsTask_conflict) fun _ ↦ keepsTask_mild mild_nil

theorem keepsTask_compact (header pc w : Word) : KeepsTask bus task (compactEffects cpu header pc w) := by
  unfold compactEffects
  split
  · exact keepsTask_mild mild_nil
  · exact keepsTask_mild mild_stop
  · exact keepsTask_mild (by simp [IsMild])
  · refine keepsTask_ite (fun _ ↦ keepsTask_cons trivial (keepsTask_mild (by simp [IsMild]))) fun _ ↦
      keepsTask_ite (fun _ ↦ keepsTask_mild (by simp [IsMild])) fun _ ↦ keepsTask_ite (fun _ ↦ ?_) fun _ ↦
      keepsTask_mild (by simp [compactB15, compactDpp, IsMild])
    exact keepsTask_cons trivial (keepsTask_mild (by simp [IsMild]))

/-- DINT and RINT refuse a packet that holds B IRP. -/
theorem conflict_return (h : IsReturn cpu insn) (gate : InterruptGate) :
    interruptGateParallelConflict gate insn = true := by
  unfold interruptGateParallelConflict
  simp only [gate_return h, ne_eq, not_true, if_false, nopCycles_return h, h.full, h.word]
  split_ifs <;> simp_all

theorem keepsTask_full {index : ℕ} {w : Word} (h : IsReturn cpu insn)
    (hmem : insn ∈ packet.instructions.eraseIdx index) :
    KeepsTask bus task (fullEffects u cpu packet index other w) := by
  unfold fullEffects
  refine keepsTask_ite (fun _ ↦ ?_) fun _ ↦ keepsTask_ite (fun _ ↦ keepsTask_mild mild_stop) fun _ ↦
    keepsTask_ite (fun _ ↦ keepsTask_mild mild_stop) fun _ ↦
      keepsTask_ite (fun _ ↦ keepsTask_mild (by simp [IsMild])) fun _ ↦ ?_
  · rw [if_pos (List.any_eq_true.mpr ⟨insn, hmem, conflict_return h _⟩)]
    exact keepsTask_mild mild_stop
  · cases armLookup u w with
    | none => exact keepsTask_mild mild_stop
    | some name => exact keepsTask_arm _ name

theorem keepsTask_instruction {index : ℕ} (h : IsReturn cpu insn)
    (hmem : insn ∈ packet.instructions.eraseIdx index) :
    KeepsTask bus task (instructionEffects u cpu packet index other) := by
  unfold instructionEffects
  refine keepsTask_ite (fun _ ↦ keepsTask_ite (fun _ ↦ keepsTask_mild mild_stop) fun _ ↦
    keepsTask_mild mild_nil) fun _ ↦
    keepsTask_ite (fun _ ↦ ?_) fun _ ↦ KeepsTask.append ?_ (keepsTask_ite (fun _ ↦ ?_) fun _ ↦
      keepsTask_ite (fun _ ↦ keepsTask_compact _ _ _) fun _ ↦ keepsTask_full h hmem)
  · exact keepsTask_ite (fun _ ↦ keepsTask_cons trivial (keepsTask_mild mild_nil)) fun _ ↦
      keepsTask_ite (fun _ ↦ keepsTask_mild mild_stop) fun _ ↦ keepsTask_cons trivial (keepsTask_mild mild_nil)
  · exact keepsTask_ite (fun _ ↦ keepsTask_cons trivial (keepsTask_mild mild_nil)) fun _ ↦ keepsTask_mild mild_nil
  · exact keepsTask_cons trivial (keepsTask_cons trivial (keepsTask_mild (by simp [IsMild])))

theorem slots_split (hmem : insn ∈ packet.instructions) : ∃ before index after,
    packet.instructions.zipIdx = before ++ (insn, index) :: after ∧
      ∀ slot ∈ after, insn ∈ packet.instructions.eraseIdx slot.2 := by
  obtain ⟨i, hi, rfl⟩ := List.getElem_of_mem hmem
  have hlength : i < packet.instructions.zipIdx.length := by rwa [List.length_zipIdx]
  refine ⟨packet.instructions.zipIdx.take i, i, packet.instructions.zipIdx.drop (i + 1), ?_, ?_⟩
  · have hslot : packet.instructions.zipIdx[i] = (packet.instructions[i], i) := by simp
    rw [← hslot, List.getElem_cons_drop, List.take_append_drop]
  · intro slot hslot
    obtain ⟨j, hj, rfl⟩ := List.getElem_of_mem hslot
    rw [List.mem_eraseIdx_iff_getElem]
    refine ⟨i, hi, ?_, rfl⟩
    simp only [List.getElem_drop, List.getElem_zipIdx]
    omega

theorem keepsTask_slots (h : IsReturn cpu insn) {slots : List (Instruction × ℕ)}
    (hslots : ∀ slot ∈ slots, insn ∈ packet.instructions.eraseIdx slot.2) :
    KeepsTask bus task (slots.flatMap fun slot ↦ instructionEffects u cpu packet slot.2 slot.1) := by
  induction slots with
  | nil => exact keepsTask_mild mild_nil
  | cons slot slots ih =>
    rw [List.flatMap_cons]
    have hnow : KeepsTask bus task (instructionEffects u cpu packet slot.2 slot.1) :=
      keepsTask_instruction h (hslots slot List.mem_cons_self)
    exact hnow.append (ih fun slot' hslot ↦ hslots slot' (List.mem_cons_of_mem slot hslot))

/-- A packet with B IRP leaves the saved task state in TSR and GIE, and the branch to IRP in flight. -/
theorem packet_restored {a : Effects.Issue} {s s' : β} (hord : Ordered cpu.pipeline)
    (hmem : insn ∈ packet.instructions)
    (h : IsReturn cpu insn) (hrun : (Effects.Issue.start cpu).run bus (packetEffects u cpu packet) s = (s', .ok a)) :
    Restored (restored cpu) a ∧ ⟨cpu.cycles + 6, cpu.control 6⟩ ∈ a.out.pipeline.branches := by
  obtain ⟨before, index, after, hslots, hafter⟩ := slots_split hmem
  unfold packetEffects at hrun
  rw [hslots, List.flatMap_append, List.flatMap_cons, run_append] at hrun
  obtain ⟨b, s₁, hbefore, hrest⟩ := Machine.bind_ok.mp hrun
  rw [run_append] at hrest
  obtain ⟨c, s₂, hnow, hrest⟩ := Machine.bind_ok.mp hrest
  have hb := run_extends hbefore
  have hordb := hb.ordered hord
  have hslot : instructionEffects u cpu packet index insn = returnEffects cpu ∨
      ∃ why, instructionEffects u cpu packet index insn = stop why := instruction_return h index
  rcases hslot with heffects | ⟨why, heffects⟩
  case inr =>
    rw [heffects] at hnow
    obtain ⟨d, t, hstop, -⟩ := (run_cons_ok bus).mp hnow
    cases perform_ok hstop
  rw [heffects] at hnow
  have hordc := (run_extends hnow).ordered hordb
  obtain ⟨d, t, hguard, hnow⟩ := (run_cons_ok bus).mp hnow
  obtain ⟨e, t', hbranch, hnow⟩ := (run_cons_ok bus).mp hnow
  obtain ⟨f, t'', hrestore, hnow⟩ := (run_cons_ok bus).mp hnow
  cases hnow
  have hguard : b.apply taskConflict = .ok d := perform_ok hguard
  have hbranch : d.apply (.branch (cpu.control 6) branchRefusal) = .ok e := perform_ok hbranch
  have hrestore : e.apply (.restoreTask (restored cpu)) = .ok c := perform_ok hrestore
  obtain rfl : b = d := by
    simp only [taskConflict, Effects.Issue.apply] at hguard
    split_ifs at hguard
    cases hguard
    rfl
  have hqueued : ⟨cpu.cycles + 6, cpu.control 6⟩ ∈ e.out.pipeline.branches := by
    simp only [Effects.Issue.apply] at hbranch
    split at hbranch
    · cases hbranch
    · next out hqueue =>
      cases hbranch
      rw [(queueBranch_branches (Nat.succ_pos _) hordb.queue hqueue).1,
        ← show b.out.cycles = cpu.cycles from hb.cycles]
      exact List.mem_append_right _ (List.mem_singleton_self _)
  cases hrestore
  have hrestored : Restored (restored cpu) (((((e.setControl 26 (restored cpu)).setControl 1
      ((e.out.control 1 &&& ~~~1#32) ||| (restored cpu &&& 1#32))).claim 1).claim 26).claim 27) := by
    refine ⟨?_, rfl, ?_⟩
    · simp [Effects.Issue.claim, Function.update_apply]
    · simp [Effects.Issue.claim, Effects.Issue.setControl, Cpu.setControl]
  refine ⟨keepsTask_slots h hafter _ _ _ _ hrest hrestored, ?_⟩
  obtain ⟨new, hbranches, -⟩ := (run_extends hrest).branches hordc
  rw [hbranches]
  exact List.mem_append_left _ hqueued

end Packet

/-- An interrupt that is taken outside a loop: the saved state has no loop to return to. -/
structure Taken (functional : Bool) (cpu : Cpu) (pending : Word) (entered : Cpu) : Prop where
  call : interrupt functional cpu pending = (entered, true)
  outside : cpu.loopActive = false
  before : cpu.control 26 &&& BitVec.twoPow 32 9 = 0#32
  after : entered.control 26 &&& BitVec.twoPow 32 9 ≠ 0#32
  direct : entered.control 27 &&& tsrSplx = 0#32

/-- The task state that an interrupt outside a loop saves, with GIE. -/
def savedTask (cpu : Cpu) : Word := (cpu.control 26 &&& 0x06de#32) ||| (cpu.control 1 &&& 1#32)

section Entry

variable {functional : Bool} {cpu out done entered : Cpu} {pending : Word}

theorem interruptPipeDown_control (hdown : interruptPipeDown functional out = some done) :
    done.control = out.control := by
  cases functional with
  | false =>
    cases hdown
    rfl
  | true =>
    simp only [interruptPipeDown, Bool.not_true, Bool.false_eq_true, if_false, Option.ite_none_left_eq_some,
      Option.some.injEq] at hdown
    rw [← hdown.2]

theorem vector_saved (selected : ℕ) (interruptedLoop : Bool) (hpc : out.pc = cpu.pc)
    (htsr : out.control 26 = cpu.control 26)
    (hcsr : out.control 1 = cpu.control 1)
    (hdirect : (vector out selected interruptedLoop).control 27 &&& tsrSplx = 0#32) :
    (vector out selected interruptedLoop).control 27 = savedTask cpu ∧
      (vector out selected interruptedLoop).control 6 = cpu.pc ∧
      ((vector out selected interruptedLoop).control 1).getLsbD 1 = (cpu.control 1).getLsbD 0 := by
  cases interruptedLoop with
  | true =>
    have hsplx := congrArg (fun w : Word ↦ w.getLsbD 14) hdirect
    simp [vector, Cpu.setControl, Cpu.loopClearInterruptPhase, Cpu.loopSetInterruptPhase, tsrSplx] at hsplx
  | false =>
    refine ⟨?_, hpc, ?_⟩
    · change ((out.control 26 &&& 0x0000c6de#32 ||| out.control 1 &&& 1#32) &&&
        ~~~(BitVec.twoPow 32 15)) &&& ~~~tsrSplx = _
      rw [htsr, hcsr, BitVec.and_assoc, BitVec.and_or_distrib_right, BitVec.and_assoc, BitVec.and_assoc]
      rfl
    · simp [vector, Cpu.setControl, Cpu.loopClearInterruptPhase, Cpu.loopSetInterruptPhase, hcsr, tsrSplx]

/-- An interrupt outside a loop saves the task state, the annulled packet's address and GIE. -/
theorem Taken.saved (h : Taken functional cpu pending entered) : entered.control 27 = savedTask cpu ∧
    entered.control 6 = cpu.pc ∧ (entered.control 1).getLsbD 1 = (cpu.control 1).getLsbD 0 := by
  obtain ⟨hcall, houtside, hbefore, hafter, hdirect⟩ := h
  have huntaken {out : Cpu} (heq : (out, true) = (entered, true)) (htsr : out.control 26 = cpu.control 26) : False := by
    cases heq
    rw [htsr] at hafter
    exact hafter hbefore
  unfold interrupt at hcall
  by_cases hstopped : cpu.fault.isSome = true
  · rw [if_pos hstopped] at hcall
    cases hcall
  rw [if_neg hstopped] at hcall
  by_cases hinvalid : pending &&& ~~~maskable ≠ 0
  · rw [if_pos hinvalid] at hcall
    cases hcall
  rw [if_neg hinvalid] at hcall
  extract_lets out at hcall
  by_cases hmasked : out.control 1 &&& 1#32 = 0 ∨ out.control 4 &&& 2#32 = 0 ∨ eligible out = 0
  · rw [if_pos hmasked] at hcall
    refine (huntaken hcall ?_).elim
    split_ifs
    · rfl
    · rfl
  rw [if_neg hmasked] at hcall
  by_cases hbranching : out.branchDue ≠ 0 ∨ out.branchQueue ≠ []
  · rw [if_pos hbranching] at hcall
    exact (huntaken hcall rfl).elim
  rw [if_neg hbranching, if_neg (show ¬out.loopActive = true from Bool.not_eq_true _ ▸ houtside)] at hcall
  unfold enter at hcall
  split_ifs at hcall
  · cases hcall
  · extract_lets selected interruptedLoop cleared taken vectored at hcall
    cases hdown : interruptPipeDown functional vectored with
    | none =>
      rw [hdown] at hcall
      cases hcall
    | some done =>
      rw [hdown] at hcall
      cases hcall
      have hcontrol := interruptPipeDown_control hdown
      have hcleared : cleared.pc = cpu.pc ∧ cleared.control 26 = cpu.control 26 ∧
          cleared.control 1 = cpu.control 1 := by
        simp only [cleared]
        split_ifs
        · exact ⟨rfl, rfl, rfl⟩
        · exact ⟨rfl, rfl, rfl⟩
      rw [hcontrol] at hdirect ⊢
      exact vector_saved taken interruptedLoop hcleared.1 hcleared.2.1 hcleared.2.2 hdirect

end Entry

section Return

variable {β : Type} {u : Arithmetic} {bus : Bus β} {functional : Bool} {entry pending : Word}
  {cpu later entered : Cpu} {s : β}

def Returns (u : Arithmetic) (bus : Bus β) (functional : Bool) (s : β) (cpu : Cpu) : Prop :=
  (step u bus functional s cpu).accepted = true ∧
    ∃ t p insn, prepare bus functional cpu s = (t, .ok p) ∧ insn ∈ p.packet.instructions ∧ IsReturn p.cpu insn

/-- Accepted steps and interrupt requests, whatever happens on the bus between them. -/
inductive Runs (u : Arithmetic) (bus : Bus β) (functional : Bool) (cpu : Cpu) : Cpu → Prop
  | refl : Runs u bus functional cpu cpu
  | interrupt {mid : Cpu} (pending : Word) : Runs u bus functional cpu mid →
      Runs u bus functional cpu (interrupt functional mid pending).1
  | step {mid : Cpu} (s : β) : Runs u bus functional cpu mid → (step u bus functional s mid).accepted = true →
      Runs u bus functional cpu (step u bus functional s mid).cpu

theorem Runs.reachable {last : Cpu} (h : Runs u bus functional cpu last) (hcpu : Reachable u bus functional entry cpu) :
    Reachable u bus functional entry last := by
  induction h with
  | refl => exact hcpu
  | interrupt pending _ ih => exact .interrupt pending ih
  | step s _ _ ih => exact .step s ih

theorem Runs.redirected {last : Cpu} {b : Branch} (h : Runs u bus functional cpu last) (hcpu : Settled cpu.pipeline)
    (hbranch : b ∈ cpu.pipeline.branches ∨ (cpu.cycles = b.due ∧ cpu.pc = b.target)) :
    (Settled last.pipeline ∧ b ∈ last.pipeline.branches) ∨
      ∃ mid, Runs u bus functional cpu mid ∧ Runs u bus functional mid last ∧ mid.cycles = b.due ∧
        mid.pc = b.target := by
  induction h with
  | refl =>
    rcases hbranch with hmem | hdone
    · exact .inl ⟨hcpu, hmem⟩
    · exact .inr ⟨cpu, .refl, .refl, hdone⟩
  | @interrupt mid pending hrun ih =>
    rcases ih with ⟨hmid, hmem⟩ | ⟨back, hback, hon, hdone⟩
    · have hkept : (Interrupt.interrupt functional mid pending).1.pipeline = mid.pipeline := interrupt_pipeline pending
      exact .inl ⟨hkept ▸ hmid, hkept ▸ hmem⟩
    · exact .inr ⟨back, hback, .interrupt pending hon, hdone⟩
  | @step mid s hrun haccepted ih =>
    rcases ih with ⟨hmid, hmem⟩ | ⟨back, hback, hon, hdone⟩
    · obtain ⟨a, -, hprefix, hbranches⟩ := redirects_of_settled hmid haccepted
      have hmem := hprefix.subset hmem
      rcases hbranches with hsame | ⟨first, hfirst, hdue, htarget⟩
      · exact .inl ⟨settled_of_step hmid, hsame ▸ hmem⟩
      · rw [hfirst] at hmem
        rcases List.mem_cons.mp hmem with rfl | hmem
        · exact .inr ⟨_, .step s hrun haccepted, .refl, hdue, htarget⟩
        · exact .inl ⟨settled_of_step hmid, hmem⟩
    · exact .inr ⟨back, hback, .step s hon haccepted, hdone⟩

/-- What B IRP does at the end of a service routine: GIE and the saved task state are back after
its packet, and when its delay slots have passed fetch continues at the annulled packet. SPLX is
as saved unless the return stands in a loop of its own. -/
structure Resumes (u : Arithmetic) (bus : Bus β) (functional : Bool) (cpu later out : Cpu) : Prop where
  gie : (out.control 1).getLsbD 0 = (cpu.control 1).getLsbD 0
  task : out.control 26 &&& ~~~tsrSplx = cpu.control 26 &&& 0x06df#32
  direct : later.loopActive = false → out.loopActive = false → out.control 26 = cpu.control 26 &&& 0x06df#32
  continues : ∀ last, Runs u bus functional out last → later.cycles + 6 ≤ last.cycles →
    ∃ mid, Runs u bus functional out mid ∧ Runs u bus functional mid last ∧
      mid.cycles = later.cycles + 6 ∧ mid.pc = cpu.pc

theorem mvcWrite_active {id : ℕ} {value : Word} : (mvcWrite cpu id value).loopActive = cpu.loopActive := by
  have hite {c : Prop} [Decidable c] {a b : Cpu} (ha : a.loopActive = cpu.loopActive)
      (hb : b.loopActive = cpu.loopActive) :
      (if c then a else b).loopActive = cpu.loopActive := by
    split_ifs
    · exact ha
    · exact hb
  unfold mvcWrite
  exact hite rfl (hite rfl (hite rfl (hite rfl (hite rfl (hite (hite rfl rfl)
    (hite rfl (hite rfl (hite rfl (hite rfl (hite rfl rfl))))))))))

theorem apply_active {a b : Effects.Issue} {effect : Effect} (h : a.apply effect = .ok b) :
    b.out.loopActive = a.out.loopActive := by
  have hqueue {a b : Effects.Issue} {entry : Load} (h : a.queueResult entry = .ok b) :
      b.out.loopActive = a.out.loopActive := by
    unfold Effects.Issue.queueResult at h
    split_ifs at h
    cases h
    rfl
  have hretime {timing : Option Timing} {why : String} (h : a.retime timing why = .ok b) :
      b.out.loopActive = a.out.loopActive := by
    cases timing with
    | none => cases h
    | some timing =>
      cases h
      rfl
  cases effect with
  | stop why => cases h
  | result => exact hqueue h
  | resultPair => exact hqueue h
  | nop count => exact hretime h
  | idle => exact hretime h
  | protectedLoad => exact hretime h
  | multicycle cycles why => exact hretime h
  | compared latency bank dst value mask =>
    simp only [Effects.Issue.apply] at h
    split_ifs at h
    cases hq : a.queueResult ⟨a.out.cycles + latency, value, bank, dst, .scalar 0 false⟩ with
    | error why =>
      rw [hq] at h
      cases h
    | ok c =>
      rw [hq] at h
      cases h
      rw [← hqueue hq]
      cases mask with
      | none => rfl
      | some mask => rfl
  | branch target why =>
    simp only [Effects.Issue.apply] at h
    unfold queueBranch at h
    split_ifs at h
    · cases h
      rfl
    · cases h
      rfl
  | mvc id value =>
    simp only [Effects.Issue.apply] at h
    split_ifs at h
    · cases h
      rfl
    · cases h
      rfl
    · cases h
      exact mvcWrite_active
  | _ =>
    simp only [Effects.Issue.apply] at h
    try split_ifs at h
    all_goals
      cases h
      rfl

theorem run_active {a b : Effects.Issue} {effects : List Effect} {s' : β} (h : a.run bus effects s = (s', .ok b)) :
    b.out.loopActive = a.out.loopActive := by
  induction effects generalizing a s with
  | nil =>
    cases h
    rfl
  | cons effect effects ih =>
    obtain ⟨c, t, hfirst, hrest⟩ := (run_cons_ok bus).mp h
    exact (ih hrest).trans (apply_active (perform_ok hfirst))

/-- A step that begins and ends outside a loop changes only SPLX after its packet. -/
structure PhaseDirect (p : Phase) : Prop where
  before : p.cpu.loopActive = false
  after : ∀ done out, p.finish done = .ok out → out.loopActive = false →
    out.control 26 = done.control 26 ∨ out.control 26 = done.control 26 &&& ~~~tsrSplx

theorem activate_direct {start : Start} {done : Cpu} (h : (activate cpu start done).loopActive = false) :
    (activate cpu start done).control 26 = done.control 26 ∨
      (activate cpu start done).control 26 = done.control 26 &&& ~~~tsrSplx := by
  have hcount {out : Cpu} {c : Prop} [Decidable c] (value : Word) :
      (if c then out.setControl 13 value else out).control 26 = out.control 26 ∧
        (if c then out.setControl 13 value else out).loopActive = out.loopActive := by
    split_ifs
    · exact ⟨rfl, rfl⟩
    · exact ⟨rfl, rfl⟩
  by_cases hredirected : cpu.branchDue ≠ 0 ∧ cpu.branchDue ≤ done.cycles
  · unfold activate
    extract_lets active idled marked tagged
    rw [(hcount _).1]
    change marked.control 26 = _ ∨ marked.control 26 = _
    simp only [marked]
    rw [if_neg (not_not.mpr hredirected)]
    split_ifs
    · exact .inl rfl
    · exact .inr rfl
  · have hactive : (activate cpu start done).loopActive = true := by
      unfold activate
      extract_lets active idled marked tagged
      rw [(hcount _).2]
      change marked.loopActive = true
      simp only [marked]
      rw [if_pos hredirected]
      rfl
    rw [hactive] at h
    cases h

theorem prepare_active (start : Start) (loop : LoopBuffer.Model.Loop) :
    (start.prepare cpu loop).loopActive = cpu.loopActive := by
  unfold Start.prepare
  dsimp only
  split_ifs <;> rfl

theorem delayedIterations_control {start : Start} {pc : Word} {done out : Cpu}
    (h : delayedIterations pc start done = .ok out) :
    out.control = done.control := by
  unfold delayedIterations at h
  dsimp only at h
  split_ifs at h
  · cases h
    rfl
  · cases h
    rfl

theorem setupPhase_direct (packet : Packet) (start : Start) (h : cpu.loopActive = false) :
    Machine.Always PhaseDirect (fun _ ↦ True) (setupPhase cpu packet start : Exec β Phase) := by
  unfold setupPhase
  dsimp only
  cases start.refusal cpu with
  | some why => exact Machine.always_fail trivial
  | none =>
    dsimp only
    cases LoopBuffer.Model.init start.ii (cpu.control 13).toNat with
    | none => exact Machine.always_fail trivial
    | some loop =>
      refine (always_any _).bind fun _ _ ↦ ?_
      cases setupConflict packet.instructions.tail with
      | some e => exact Machine.always_fail trivial
      | none =>
        refine Machine.always_pure ⟨(prepare_active start loop).trans h, fun done out hout hactive ↦ ?_⟩
        change (delayedIterations cpu.pc start done).map (activate cpu start) = .ok out at hout
        cases hdelayed : delayedIterations cpu.pc start done with
        | error e =>
          rw [hdelayed] at hout
          cases hout
        | ok counted =>
          rw [hdelayed] at hout
          cases hout
          rw [← delayedIterations_control hdelayed]
          exact activate_direct hactive

theorem prepare_direct (h : cpu.loopActive = false) :
    Machine.Always PhaseDirect (fun _ ↦ True) (prepare bus functional cpu) := by
  have hplain {out : Cpu} {packet : Packet} (h : out.loopActive = false) : PhaseDirect ⟨out, packet, .ok⟩ := by
    refine ⟨h, fun done out hout _ ↦ ?_⟩
    cases hout
    exact .inl rfl
  unfold prepare
  rw [if_neg (by simp [h])]
  refine Machine.always_ite (fun _ ↦ Machine.always_pure (hplain ?_)) fun _ ↦ ?_
  · unfold LoopStep.idleTick
    split_ifs
    · exact h
    · exact h
  · refine (always_any _).bind fun packet _ ↦ ?_
    split
    · exact Machine.always_pure (hplain h)
    · exact Machine.always_fail trivial
    · exact setupPhase_direct packet _ h

/-- A bit moved to the bottom, under a mask of one. -/
theorem shifted_bit {a b : Word} {i : ℕ} (h : a.getLsbD i = b.getLsbD 0) : (a >>> i) &&& 1#32 = b &&& 1#32 := by
  refine BitVec.eq_of_getLsbD_eq fun j hj ↦ ?_
  rw [BitVec.getLsbD_and, BitVec.getLsbD_and, BitVec.getLsbD_ushiftRight]
  cases j with
  | zero => rw [Nat.add_zero, h]
  | succ j => simp

theorem restored_saved (h : Aliased cpu.control) (hitsr : later.control 27 = savedTask cpu)
    (hpgie : (later.control 1).getLsbD 1 = (cpu.control 1).getLsbD 0) :
    restored later = cpu.control 26 &&& 0x06df#32 := by
  unfold restored savedTask at *
  rw [hitsr, shifted_bit (hpgie.trans h.gie.symm), BitVec.and_or_distrib_right, BitVec.and_assoc, BitVec.and_assoc]
  change (cpu.control 26 &&& 0x06de#32 ||| cpu.control 1 &&& 0#32) ||| cpu.control 26 &&& 1#32 = _
  rw [BitVec.and_zero, BitVec.or_zero, ← BitVec.and_or_distrib_left]
  rfl

theorem resumes_of_return (h : Aliased cpu.control) (hlater : Settled later.pipeline)
    (hitsr : later.control 27 = savedTask cpu)
    (hirp : later.control 6 = cpu.pc) (hpgie : (later.control 1).getLsbD 1 = (cpu.control 1).getLsbD 0)
    (hreturn : Returns u bus functional s later) :
    Resumes u bus functional cpu later (step u bus functional s later).cpu := by
  obtain ⟨haccepted, t, p, insn, hprepare, hmem, hinsn⟩ := hreturn
  have hsettled : Settled (step u bus functional s later).cpu.pipeline := settled_of_step hlater
  obtain ⟨hrunning, p', trace, done, s₁, s₂, hprepare', hexecute, hfinish⟩ := step_accepted haccepted
  obtain ⟨rfl, rfl⟩ : t = s₁ ∧ p = p' := by
    rw [hprepare] at hprepare'
    cases hprepare'
    exact ⟨rfl, rfl⟩
  obtain ⟨hbefore, hafter⟩ := (prepared_kept (Kept.refl later)).ok_of_run hprepare
  have hframe := ((prepare_framed hrunning).ok_of_run hprepare).before.pipeline
  obtain ⟨a, s₃, hissue, hlate⟩ := execute_late hexecute
  obtain ⟨hrestored, hbranch⟩ := packet_restored (hframe.symm ▸ hlater.ordered) hmem hinsn hissue
  have hkept := (hafter done).ok_of_eq hfinish
  have hsaved : restored p.cpu = cpu.control 26 &&& 0x06df#32 := by
    have hsame : restored p.cpu = restored later := by
      unfold restored
      rw [hbefore.controls 27 (by decide) (by decide), hbefore.controls 1 (by decide) (by decide)]
    exact hsame.trans (restored_saved h hitsr hpgie)
  have hmasked (w : Word) : (w &&& 0x06df#32) &&& ~~~tsrSplx = w &&& 0x06df#32 := by
    rw [BitVec.and_assoc]
    rfl
  refine ⟨?_, ?_, ?_, ?_⟩
  · rw [hkept.controls 1 (by decide) (by decide), hlate.gie, hrestored.gie, hsaved, ← h.gie]
    simp
  · rw [hkept.tsr, hlate.tsr, hrestored.tsr, hsaved, hmasked]
  · intro houtside hactive
    have hdirect := (prepare_direct houtside).ok_of_run hprepare
    have hissued : a.out.loopActive = false := (run_active hissue).trans hdirect.before
    have hdone : done.control 26 = cpu.control 26 &&& 0x06df#32 := by
      rw [(hlate.direct hissued).2, hrestored.tsr, hsaved]
    rcases hdirect.after done _ hfinish hactive with hsame | hcleared
    · exact hsame.trans hdone
    · rw [hcleared, hdone, hmasked]
  · intro last hruns hdue
    obtain ⟨a', hissued, -, hbranches⟩ := redirects_of_settled hlater haccepted
    obtain rfl : a = a' := by
      have hran := (issuePacket_ok bus u p.cpu p.packet).mpr hissue
      have hissued' : issued u bus functional s later = some a := by
        simp only [issued, Machine.bind_apply, hprepare, hran]
      exact Option.some_inj.mp (hissued'.symm.trans hissued)
    have hcycles : p.cpu.cycles = later.cycles := congrArg Pipeline.cycles hframe
    rw [hcycles, hbefore.controls 6 (by decide) (by decide), hirp] at hbranch
    have hin : ⟨later.cycles + 6, cpu.pc⟩ ∈ (step u bus functional s later).cpu.pipeline.branches ∨
        ((step u bus functional s later).cpu.cycles = later.cycles + 6 ∧
          (step u bus functional s later).cpu.pc = cpu.pc) := by
      rcases hbranches with hsame | ⟨first, hfirst, hnow, htarget⟩
      · exact .inl (hsame ▸ hbranch)
      · rw [hfirst] at hbranch
        rcases List.mem_cons.mp hbranch with rfl | hbranch
        · exact .inr ⟨hnow, htarget⟩
        · exact .inl hbranch
    rcases hruns.redirected hsettled hin with ⟨hlast, hpending⟩ | hmid
    · have hbefore := (hlast.ordered.inFlight _ hpending).1
      exact absurd hbefore (Nat.not_lt.mpr hdue)
    · exact hmid

/-- CSR shows GIE and PGIE as TSR and ITSR do in every reachable state; and B IRP, at the end of a
service routine that has left ITSR, PGIE and IRP alone, resumes what the interrupt annulled. -/
theorem aliased_and_resumed (h : Reachable u bus functional entry cpu) : Aliased cpu.control ∧
    ∀ pending entered later s, Taken functional cpu pending entered → Reachable u bus functional entry later →
      later.control 27 = entered.control 27 → later.control 6 = entered.control 6 →
      (later.control 1).getLsbD 1 = (entered.control 1).getLsbD 1 → Returns u bus functional s later →
      Resumes u bus functional cpu later (step u bus functional s later).cpu := by
  have haliased := (sound_of_reachable h).aliased
  refine ⟨haliased, fun pending entered later s htaken hlater hitsr hirp hpgie hreturn ↦ ?_⟩
  obtain ⟨hsaved, haddress, hgie⟩ := htaken.saved
  exact resumes_of_return haliased (settled_of_reachable hlater) (hitsr.trans hsaved) (hirp.trans haddress)
    (hpgie.trans hgie) hreturn

end Return

/-- A program that enables INT4 and runs on NOPs, with `B IRP` at its vector. -/
def serviceRoutine : List Word :=
  [0x0200012a, 0x069003a2, 0x0280092a, 0x021403a2, 0x030000aa, 0x009803a2]

def serviceBus : Bus Unit where
  read _ address := ((), some (if address = 0x700080#32 then 0x001800e2 else serviceRoutine.getD (address.toNat / 4) 0))
  write _ _ _ _ _ := ((), true)
  tick := id

def serviceAfter : ℕ → Cpu
  | 0 => reset 0
  | n + 1 => (step default serviceBus false () (serviceAfter n)).cpu

def serviceEntered : Cpu := (interrupt false (serviceAfter 8) 0x10).1

def serviceLater : ℕ → Cpu
  | 0 => serviceEntered
  | n + 1 => (step default serviceBus false () (serviceLater n)).cpu

theorem serviceAfter_reachable (n : ℕ) : Reachable default serviceBus false 0 (serviceAfter n) := by
  induction n with
  | zero => exact .reset
  | succ n ih => exact .step () ih

theorem serviceLater_reachable (n : ℕ) : Reachable default serviceBus false 0 (serviceLater n) := by
  induction n with
  | zero => exact .interrupt 0x10 (serviceAfter_reachable 8)
  | succ n ih => exact .step () ih

theorem service_taken : Taken false (serviceAfter 8) 0x10 serviceEntered :=
  ⟨Prod.ext rfl (by decide +kernel), by decide +kernel, by decide +kernel, by decide +kernel, by decide +kernel⟩

def returnPacket : Packet := ⟨[⟨0x001800e2, 0x700080, 0, false⟩], 0x700084, false⟩

/-- The step after the nine cycles of the entry executes the B IRP. -/
theorem service_returns : Returns default serviceBus false () (serviceLater 9) := by
  have hstate : (serviceLater 9).loopActive = false ∧ (serviceLater 9).idleCycles = 0 ∧
      (serviceLater 9).fault = none ∧
      (serviceLater 9).pc = 0x700080 := by decide +kernel
  have hprepare : prepare serviceBus false (serviceLater 9) () = ((), .ok ⟨serviceLater 9, returnPacket, .ok⟩) := by
    generalize serviceLater 9 = cpu at hstate ⊢
    obtain ⟨hactive, hidle, hrunning, hpc⟩ := hstate
    unfold prepare directPhase Fetch.fetch
    simp only [hactive, hidle, hrunning, hpc]
    rfl
  exact ⟨by decide +kernel, (), _, _, hprepare, List.mem_singleton_self _, rfl, by decide, by decide +kernel⟩

theorem aliased_and_resumed_service : Aliased (serviceAfter 8).control ∧
    Resumes default serviceBus false (serviceAfter 8) (serviceLater 9) (serviceLater 10) := by
  obtain ⟨haliased, hresumes⟩ := aliased_and_resumed (serviceAfter_reachable 8)
  exact ⟨haliased, hresumes 0x10 serviceEntered (serviceLater 9) () service_taken (serviceLater_reachable 9)
    (by decide +kernel) (by decide +kernel) (by decide +kernel) service_returns⟩

end Cdj2000Emulator.C674x.InterruptReturn
