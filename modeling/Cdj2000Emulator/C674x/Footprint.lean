import Cdj2000Emulator.C674x.Execute

namespace Cdj2000Emulator.C674x.Footprint

open State Transfer Decode Effects Operands ArmControl Arms C674x.Compact Dispatch Execute

def storeQueueFull : String := "store queue full"

/-- An effect that queues no memory transfer and whose refusal is not the store queue's. -/
@[grind] def IsPlain : Effect → Prop
  | .store .. | .load .. | .loadWord .. => False
  | .stop why | .branch _ why | .noBranch why | .multicycle _ why | .guardControls _ why
  | .probe _ _ _ why | .check _ _ _ _ why => why ≠ storeQueueFull
  | _ => True

/-- Effects of an instruction that is no memory access. -/
def Plain (effects : List Effect) : Prop := ∀ effect ∈ effects, IsPlain effect

section Plain

variable {c : Prop} [Decidable c] {effect : Effect} {l m : List Effect}

@[simp] theorem plain_nil : Plain [] := by
  intro effect h
  cases h

@[simp] theorem plain_cons : Plain (effect :: l) ↔ IsPlain effect ∧ Plain l := List.forall_mem_cons

@[simp] theorem plain_append : Plain (l ++ m) ↔ Plain l ∧ Plain m := List.forall_mem_append

@[simp] theorem plain_ite : Plain (if c then l else m) ↔ (c → Plain l) ∧ (¬c → Plain m) := by
  split_ifs with h
  · simp [h]
  · simp [h]

@[simp] theorem isPlain_ite {effect' : Effect} :
    IsPlain (if c then effect else effect') ↔ (c → IsPlain effect) ∧ (¬c → IsPlain effect') := by
  split_ifs with h
  · simp [h]
  · simp [h]

@[simp] theorem plain_whenEnabled {x : Arm} (h : Plain l) : Plain (x.whenEnabled l) := by
  simp [Arm.whenEnabled, h]

@[simp] theorem plain_commit {x : Arm} {value : Word} : Plain (x.commit value) :=
  plain_whenEnabled (by simp [IsPlain])

@[simp] theorem plain_delayed {x : Arm} {latency : Latency} {value : Long} {status : Word}
    {multiplier : Bool} : Plain (x.delayed latency value status multiplier) :=
  plain_whenEnabled (by simp [IsPlain])

@[simp] theorem plain_delayedPair {x : Arm} {latency : Latency} {pair : Bool} {value : Long} :
    Plain (x.delayedPair latency pair value) :=
  plain_whenEnabled (by cases pair <;> simp [IsPlain])

@[simp] theorem plain_warn {x : Arm} {status : Word} : Plain (warn x status) :=
  plain_whenEnabled (by simp [IsPlain])

@[simp] theorem plain_dpQueuePair {x : Arm} {first second : Latency} {result : Flagged Long}
    {multiplier : Bool} : Plain (dpQueuePair x first second result multiplier) := by
  simp [dpQueuePair, IsPlain]

@[simp] theorem plain_pairGuard {x : Arm} {pair : Bool} (h : Plain l) :
    Plain (pairGuard x pair l) := by
  simp [pairGuard, stop, h, IsPlain, storeQueueFull]

@[simp] theorem plain_stop {why : String} : Plain (stop why) ↔ why ≠ storeQueueFull := by
  simp [stop, IsPlain]

end Plain

theorem bposConflict_why : ∀ (others : List Instruction) (why : String),
    bposConflict others = some why → why ≠ storeQueueFull
  | [], why, h => by cases h
  | other :: rest, why, h => by
    unfold bposConflict at h
    split_ifs at h
    · cases h
      simp [storeQueueFull]
    · cases h
      simp [storeQueueFull]
    · exact bposConflict_why rest why h

theorem plain_arm (u : Arithmetic) (x : Arm) {name : ArmName} (h : name ≠ .scalarMemory) :
    Plain (name.run u x) := by
  cases name with
  | scalarMemory => exact absurd rfl h
  | dAdda =>
    simp only [ArmName.run, armDAdda, plain_ite, plain_stop, storeQueueFull]
    refine ⟨by simp, fun _ ↦ plain_whenEnabled ?_⟩
    split
    · simp [widthRefusal, storeQueueFull, apply_ite]
    · exact plain_commit
  | smpy16 =>
    refine plain_pairGuard (plain_whenEnabled ?_)
    simp only [plain_append, plain_cons, isPlain_ite, plain_ite]
    simp [IsPlain]
  | bpos =>
    simp only [ArmName.run, armBpos]
    split
    next why conflict =>
      have := bposConflict_why _ why conflict
      simpa [storeQueueFull]
    next => simp [branchRefusal, IsPlain, storeQueueFull]
  | _ =>
    simp [ArmName.run, armSatLong, armSatScalar, armAddk, armMvkS, armMvkh, armDAddsub,
      armDAddsubCross, armMvkD, armMvkL, armLLongAddsub, armMpy32, armMpy16,
      armMpyHalf32, armMvd, armIntsp, armSpint, armAbssp, armCmpsp, armAddsubsp, armMpysp,
      armPack, armAndn, armAndImm, armAndReg, armAddImm, armAddReg, armSubImm, armSubReg,
      armSubReverse, armCmp, armOrImm, armOrReg, armXorImm, armXorReg, armBitfield, armShiftS,
      armMvcRead, armMvcWrite, armBIrp, armBDisp, armBdec, armBnopDisp, armBnopReg, armBReg,
      armAddkpc, armCmpy, armDotp, armPacked16, armPacked16M, armPacked8, armPackbitsDual,
      armPackbitsUnpack, armPackbitsM, armPackbitsLmbd, armPackbitsNorm, armPackbitsMergebyte,
      armApprox, armTwoCycleDp, armCmpdp, armAddsubdp, armMpydp, armDpConvert, armIntdp,
      armMpyi, armMpy2Gmpy4, armGmpyWord, armDmv, armRpack2, armSat40, armSubc, armAbs,
      armCmpLong, armShiftLong, armBNrp, branchRefusal, IsPlain, storeQueueFull]

def Guards : Effect → Effect → Prop
  | .check address value size width _, .store address' value' size' width' =>
    address' = address ∧ value' = value ∧ size' = size ∧ width' = width
  | .probe address size width _, .load address' size' width' .. =>
    address' = address ∧ size' = size ∧ width' = width
  | .probe address size width _, .loadWord address' .. => address' = address ∧ size = 4 ∧ width = 0
  | _, _ => False

def Access (effects : List Effect) : Prop :=
  ∃ before guard between transfer after, effects = before ++ guard :: between ++ transfer :: after ∧
    Guards guard transfer ∧ Plain (before ++ guard :: between ++ after)

/-- What the effects of an instruction can do to the memory queues. -/
def Modest (effects : List Effect) : Prop := Plain effects ∨ Access effects

section Modest

variable {c : Prop} [Decidable c] {effect : Effect} {l m : List Effect}

theorem modest_access {guard transfer : Effect} {m after : List Effect}
    (h : Guards guard transfer) (plain : Plain (guard :: m ++ after)) :
    Modest (guard :: m ++ transfer :: after) :=
  .inr ⟨[], guard, m, transfer, after, rfl, h, plain⟩

theorem modest_append (h : Plain l) (k : Modest m) : Modest (l ++ m) := by
  rcases k with k | ⟨before, guard, between, transfer, after, rfl, guards, plain⟩
  · exact .inl (plain_append.mpr ⟨h, k⟩)
  · refine .inr ⟨l ++ before, guard, between, transfer, after, by simp, guards, ?_⟩
    simp only [List.append_assoc] at plain ⊢
    exact plain_append.mpr ⟨h, plain⟩

theorem modest_cons (h : IsPlain effect) (k : Modest l) : Modest (effect :: l) :=
  modest_append (l := [effect]) (by simpa using h) k

theorem modest_ite (h : c → Modest l) (k : ¬c → Modest m) : Modest (if c then l else m) := by
  split_ifs with hc
  · exact h hc
  · exact k hc

theorem modest_whenEnabled {x : Arm} (h : Modest l) : Modest (x.whenEnabled l) :=
  modest_ite (fun _ ↦ h) fun _ ↦ .inl plain_nil

theorem modest_stop {why : String} (h : why ≠ storeQueueFull) : Modest (stop why) :=
  .inl (plain_stop.mpr h)

end Modest

theorem modest_scalarMemory (x : Arm) : Modest (armScalarMemory x) := by
  unfold armScalarMemory
  refine modest_ite (fun _ ↦ modest_stop (by simp [storeQueueFull])) fun _ ↦ ?_
  refine modest_ite (fun _ ↦ modest_stop (by simp [storeQueueFull])) fun _ ↦ ?_
  refine modest_ite (fun _ ↦ modest_stop (by simp [storeQueueFull])) fun _ ↦ ?_
  refine modest_whenEnabled (modest_cons trivial ?_)
  split
  next =>
    unfold widthRefusal
    exact modest_stop (by split_ifs <;> simp [storeQueueFull])
  next width _ =>
    refine modest_ite (fun _ ↦ modest_stop (by simp [storeQueueFull])) fun _ ↦ ?_
    refine modest_ite (fun _ ↦ modest_stop (by simp [storeQueueFull])) fun _ ↦ ?_
    refine modest_ite (fun _ ↦ ?_) fun _ ↦ ?_
    · exact modest_access (m := []) ⟨rfl, rfl, rfl, rfl⟩ (by simp [IsPlain, storeQueueFull])
    · exact modest_access (m := []) ⟨rfl, rfl, rfl⟩ (by simp [IsPlain, storeQueueFull])

def Harmless (simple : Simple) : Prop := simple ≠ .reserved storeQueueFull

theorem harmless_ite {c : Prop} [Decidable c] {a b : Simple} (h : Harmless a) (k : Harmless b) :
    Harmless (if c then a else b) := by
  split_ifs
  · exact h
  · exact k

theorem harmless_value {side dst : ℕ} {value : Word} : Harmless (.value side dst value) := by
  simp [Harmless]

theorem harmless_reserved {why : String} (h : why ≠ storeQueueFull) : Harmless (.reserved why) := by
  simpa [Harmless] using h

theorem harmless_decodeSimple (cpu : Cpu) (header w : Word) :
    Harmless (decodeSimple cpu header w) := by
  unfold decodeSimple
  repeat' apply harmless_ite
  all_goals first
    | exact harmless_value
    | exact harmless_reserved (by simp [storeQueueFull])
    | simp [Harmless]

theorem modest_compactB15 (cpu : Cpu) (header w : Word) : Modest (compactB15 cpu header w) := by
  refine modest_cons trivial (modest_ite (fun _ ↦ ?_) fun _ ↦ modest_ite (fun _ ↦ ?_) fun _ ↦ ?_)
  · exact modest_stop (by simp [storeQueueFull])
  · exact modest_access (m := []) ⟨rfl, rfl, rfl⟩ (by simp [IsPlain, storeQueueFull])
  · exact modest_access (m := []) ⟨rfl, rfl, rfl, rfl⟩ (by simp [IsPlain, storeQueueFull])

theorem modest_compactDpp (cpu : Cpu) (w : Word) : Modest (compactDpp cpu w) := by
  refine modest_cons trivial (modest_ite (fun _ ↦ ?_) fun _ ↦ modest_ite (fun _ ↦ ?_) fun _ ↦ ?_)
  · exact modest_stop (by simp [storeQueueFull])
  · exact modest_access (m := [_]) ⟨rfl, rfl, rfl⟩ (by simp [IsPlain, storeQueueFull])
  · exact modest_access (m := [_]) ⟨rfl, rfl, rfl, rfl⟩
      (by simp [IsPlain, storeQueueFull])

theorem modest_compactEffects (cpu : Cpu) (header pc w : Word) :
    Modest (compactEffects cpu header pc w) := by
  unfold compactEffects
  split
  next => exact .inl plain_nil
  next why h =>
    have harmless := harmless_decodeSimple cpu header w
    rw [h] at harmless
    exact modest_stop fun full ↦ harmless (congrArg _ full)
  next => exact .inl (by simp [IsPlain])
  next =>
    refine modest_ite (fun _ ↦ .inl ?_) fun _ ↦ ?_
    · simp [IsPlain, branchRefusal, storeQueueFull]
    refine modest_ite (fun _ ↦ .inl (by simp [IsPlain])) fun _ ↦ ?_
    refine modest_ite (fun _ ↦ .inl ?_) fun _ ↦ ?_
    · simp [compactBnop, IsPlain, branchRefusal, storeQueueFull]
    refine modest_ite (fun _ ↦ modest_compactB15 cpu header w) fun _ ↦ ?_
    refine modest_ite (fun _ ↦ modest_compactDpp cpu w) fun _ ↦ ?_
    exact .inl (by simp [IsPlain, storeQueueFull])

theorem modest_fullEffects (u : Arithmetic) (cpu : Cpu) (packet : Packet) (index : ℕ)
    (insn : Instruction) (w : Word) : Modest (fullEffects u cpu packet index insn w) := by
  unfold fullEffects
  refine modest_ite (fun _ ↦ .inl (by simp [IsPlain, storeQueueFull])) fun _ ↦ ?_
  refine modest_ite (fun _ ↦ modest_stop (by simp [storeQueueFull])) fun _ ↦ ?_
  refine modest_ite (fun _ ↦ modest_stop (by simp [storeQueueFull])) fun _ ↦ ?_
  refine modest_ite (fun _ ↦ .inl (by simp [IsPlain])) fun _ ↦ ?_
  split
  next => exact modest_stop (by simp [storeQueueFull])
  next name _ =>
    by_cases h : name = .scalarMemory
    · subst h
      exact modest_scalarMemory _
    · exact .inl (plain_arm u _ h)

/-- Every instruction queues at most one memory transfer, and checks it first. -/
theorem modest_instruction (u : Arithmetic) (cpu : Cpu) (packet : Packet) (index : ℕ)
    (insn : Instruction) : Modest (instructionEffects u cpu packet index insn) := by
  unfold instructionEffects
  refine modest_ite (fun _ ↦ .inl (by simp [storeQueueFull])) fun _ ↦ ?_
  refine modest_ite (fun _ ↦ .inl ?_) fun _ ↦ ?_
  · simp [nopEffects, IsPlain, storeQueueFull]
  refine modest_append (by simp [IsPlain]) ?_
  refine modest_ite (fun _ ↦ .inl ?_) fun _ ↦ ?_
  · simp [callpEffects, IsPlain, storeQueueFull]
  · exact modest_ite (fun _ ↦ modest_compactEffects _ _ _ _) fun _ ↦
      modest_fullEffects _ _ _ _ _ _

end Cdj2000Emulator.C674x.Footprint
