import Cdj2000Emulator.C674x.Execute

namespace Cdj2000Emulator.C674x.ArmEffects

open State Transfer Decode Effects Operands ArmControl Arms C674x.Compact Dispatch Execute

/-- An effect that leaves alone the packet's duration, the interrupt gate and the task state. -/
@[grind] def IsMild : Effect → Prop
  | .nop _ | .idle | .protectedLoad | .multicycle .. | .dint _ | .rint _ | .restoreTask _ => False
  | _ => True

def Mild (effects : List Effect) : Prop := ∀ effect ∈ effects, IsMild effect

section Mild

variable {c : Prop} [Decidable c] {effect : Effect} {l m : List Effect} {x : Arm}

@[simp] theorem mild_nil : Mild [] := by
  intro effect h
  cases h

@[simp] theorem mild_cons : Mild (effect :: l) ↔ IsMild effect ∧ Mild l := List.forall_mem_cons

@[simp] theorem mild_append : Mild (l ++ m) ↔ Mild l ∧ Mild m := List.forall_mem_append

@[simp] theorem mild_ite : Mild (if c then l else m) ↔ (c → Mild l) ∧ (¬c → Mild m) := by
  split_ifs with h
  · simp [h]
  · simp [h]

@[simp] theorem isMild_ite {effect' : Effect} :
    IsMild (if c then effect else effect') ↔ (c → IsMild effect) ∧ (¬c → IsMild effect') := by
  split_ifs with h
  · simp [h]
  · simp [h]

@[simp] theorem mild_whenEnabled (h : Mild l) : Mild (x.whenEnabled l) := by
  simp [Arm.whenEnabled, h]

@[simp] theorem mild_commit {value : Word} : Mild (x.commit value) :=
  mild_whenEnabled (by simp [IsMild])

@[simp] theorem mild_delayed {latency : Latency} {value : Long} {status : Word} {multiplier : Bool} :
    Mild (x.delayed latency value status multiplier) :=
  mild_whenEnabled (by simp [IsMild])

@[simp] theorem mild_delayedPair {latency : Latency} {pair : Bool} {value : Long} :
    Mild (x.delayedPair latency pair value) :=
  mild_whenEnabled (by cases pair <;> simp [IsMild])

@[simp] theorem mild_warn {status : Word} : Mild (warn x status) :=
  mild_whenEnabled (by simp [IsMild])

@[simp] theorem mild_dpQueuePair {first second : Latency} {result : Flagged Long} {multiplier : Bool} :
    Mild (dpQueuePair x first second result multiplier) := by
  simp [dpQueuePair, IsMild]

@[simp] theorem mild_stop {why : String} : Mild (stop why) := by
  simp [stop, IsMild]

@[simp] theorem mild_pairGuard {pair : Bool} (h : Mild l) : Mild (pairGuard x pair l) := by
  simp [pairGuard, h]

end Mild

/-- The arms that ask for cycles, and the interrupt return. -/
def special : List ArmName := [.bnopDisp, .bnopReg, .addkpc, .bIrp]

theorem mild_arm (u : Arithmetic) (x : Arm) {name : ArmName} (h : name ∉ special) : Mild (name.run u x) := by
  cases name with
  | bnopDisp => exact absurd (by decide) h
  | bnopReg => exact absurd (by decide) h
  | addkpc => exact absurd (by decide) h
  | bIrp => exact absurd (by decide) h
  | scalarMemory =>
    simp only [ArmName.run, armScalarMemory, mild_ite, mild_stop]
    refine ⟨fun _ ↦ trivial, fun _ ↦ ⟨fun _ ↦ trivial,
      fun _ ↦ ⟨fun _ ↦ trivial, fun _ ↦ mild_whenEnabled ?_⟩⟩⟩
    rw [mild_cons]
    refine ⟨trivial, ?_⟩
    split
    · simp [widthRefusal]
    · simp [IsMild]
  | dAdda =>
    simp only [ArmName.run, armDAdda, mild_ite, mild_stop]
    refine ⟨fun _ ↦ trivial, fun _ ↦ mild_whenEnabled ?_⟩
    split
    · simp [widthRefusal]
    · exact mild_commit
  | smpy16 =>
    refine mild_pairGuard (mild_whenEnabled ?_)
    simp only [mild_append, mild_cons, isMild_ite, mild_ite]
    simp [IsMild]
  | bpos =>
    simp only [ArmName.run, armBpos]
    split
    · exact mild_stop
    · simp [IsMild]
  | _ =>
    simp [ArmName.run, armSatLong, armSatScalar, armAddk, armMvkS, armMvkh, armDAddsub,
      armDAddsubCross, armMvkD, armMvkL, armLLongAddsub, armMpy32, armMpy16,
      armMpyHalf32, armMvd, armIntsp, armSpint, armAbssp, armCmpsp, armAddsubsp, armMpysp,
      armPack, armAndn, armAndImm, armAndReg, armAddImm, armAddReg, armSubImm, armSubReg,
      armSubReverse, armCmp, armOrImm, armOrReg, armXorImm, armXorReg, armBitfield, armShiftS,
      armMvcRead, armMvcWrite, armBDisp, armBdec, armBReg,
      armCmpy, armDotp, armPacked16, armPacked16M, armPacked8, armPackbitsDual,
      armPackbitsUnpack, armPackbitsM, armPackbitsLmbd, armPackbitsNorm, armPackbitsMergebyte,
      armApprox, armTwoCycleDp, armCmpdp, armAddsubdp, armMpydp, armDpConvert, armIntdp,
      armMpyi, armMpy2Gmpy4, armGmpyWord, armDmv, armRpack2, armSat40, armSubc, armAbs,
      armCmpLong, armShiftLong, armBNrp, IsMild]

end Cdj2000Emulator.C674x.ArmEffects
