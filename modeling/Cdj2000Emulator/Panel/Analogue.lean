import Cdj2000Emulator.Library.Ramp
import Cdj2000Emulator.Panel.Input
import Mathlib.Data.Fin.VecNotation

namespace Cdj2000Emulator.Panel.Analogue

open Function Library.Bytes Library.Ramp

/-- `CDJ_INPUT_ANALOG_FIELDS`. -/
abbrev fieldMax : ℕ := 8

/-- `cdj_input_analog`: the first payload byte of a field and its width. -/
def places : Fin fieldMax → Fin payloadMax × ℕ :=
  ![(2, 1), (3, 1), (4, 2), (6, 2), (8, 2), (10, 2), (12, 2), (14, 1)]

/-- The `int32_t` of a number, which wraps. -/
def int32 (x : ℤ) : ℤ := x.bmod (2 ^ 32)

/-- `cdj_input_analog_driven`, `cdj_input_analog_value` and `cdj_input_analog_target` of a field. -/
structure Field where
  driven : Bool
  value : ℤ
  target : ℤ
  deriving DecidableEq

structure Dials where
  fields : Fin fieldMax → Field
  step : ℤ

def Dials.initial : Dials := ⟨fun _ ↦ ⟨false, 0, 0⟩, 1⟩

/-- The numbers of a line, `none` where the word is missing or is no number. -/
inductive Line where
  | analog (field value : Option ℤ)
  | rotary (field delta : Option ℤ)
  | step (n : Option ℤ)
  | clear
  | other

theorem toNat_lt {n : ℤ} (h : 0 ≤ n ∧ n < fieldMax) : n.toNat < fieldMax := by
  omega

def fieldOf (first : Option ℤ) : Option (Fin fieldMax) :=
  match first with
  | some n => if h : 0 ≤ n ∧ n < fieldMax then some ⟨n.toNat, toNat_lt h⟩ else none
  | none => none

/-- `cdj_input_command`, as far as the analogue fields go. -/
def Dials.command (s : Dials) : Line → Dials × Option String
  | .analog field value =>
    match fieldOf field, value with
    | some f, some second =>
      ({ s with fields := update s.fields f ⟨true, int32 second, int32 second⟩ }, some "ok analog")
    | _, _ => (s, some "err <field 0..7> <value>")
  | .rotary field delta =>
    match fieldOf field, delta with
    | some f, some second =>
      let target := int32 ((s.fields f).target + int32 second)
      ({ s with fields := update s.fields f ⟨true, (s.fields f).value, target⟩ }, some "ok analog")
    | _, _ => (s, some "err <field 0..7> <value>")
  | .step n =>
    match n with
    | some first =>
      if first < 1 ∨ 4096 < first then (s, some "err step <1..4096>")
      else ({ s with step := int32 first }, some "ok step")
    | none => (s, some "err step <1..4096>")
  | .clear => ({ s with fields := fun _ ↦ ⟨false, 0, 0⟩ }, some "ok clear")
  | .other => (s, none)

def Field.run (step : ℤ) (x : Field) : Field :=
  if x.driven ∧ x.value ≠ x.target then
    let delta := int32 (x.target - x.value)
    let delta := if step < delta then step else if delta < -step then -step else delta
    { x with value := int32 (x.value + delta) }
  else x

def store (payload : Payload) (f : Fin fieldMax) (value : ℤ) : Payload :=
  let (byte, width) := places f
  if width = 1 then update payload byte (BitVec.ofInt 8 value)
  else update (update payload byte (BitVec.ofInt 8 (value / 256))) (byte + 1) (BitVec.ofInt 8 value)

def Dials.runAnalog (s : Dials) (payload : Payload) : Dials × Payload :=
  let fields := fun f ↦ (s.fields f).run s.step
  ({ s with fields },
    (List.finRange fieldMax).foldl
      (fun payload f ↦ if (s.fields f).driven then store payload f (fields f).value else payload) payload)

variable {s : Dials} {f : Fin fieldMax} {x : Field}

/-- An `int32_t` can hold the number. -/
def InRange (n : ℤ) : Prop := -2 ^ 31 ≤ n ∧ n < 2 ^ 31

/-- A relative move's new target, and its distance from the value, fit an `int32_t`. -/
def Meets (s : Dials) : Line → Prop
  | .rotary field delta => ∀ f second, fieldOf field = some f → delta = some second →
      InRange ((s.fields f).target + int32 second) ∧ InRange ((s.fields f).target + int32 second - (s.fields f).value)
  | _ => True

/-- What lines and frames lead to where every line meets the condition. -/
inductive Reached : Dials → Prop
  | initial : Reached .initial
  | line {s : Dials} (l : Line) : Reached s → Meets s l → Reached (s.command l).1
  | frame {s : Dials} (payload : Payload) : Reached s → Reached (s.runAnalog payload).1

theorem int32_of_inRange {n : ℤ} (h : InRange n) : int32 n = n := by
  obtain ⟨low, high⟩ := h
  exact Int.bmod_eq_of_le (by omega) (by omega)

theorem inRange_int32 (n : ℤ) : InRange (int32 n) := by
  have low := Int.le_bmod (x := n) (m := 2 ^ 32) (by decide)
  have high := Int.bmod_lt (x := n) (m := 2 ^ 32) (by decide)
  exact ⟨by rw [int32]; omega, by rw [int32]; omega⟩

theorem inRange_zero : InRange 0 := ⟨by decide, by decide⟩

/-- A field that cannot overflow on its way to the target. -/
structure Sound (x : Field) : Prop where
  value : InRange x.value
  target : InRange x.target
  distance : InRange (x.target - x.value)
  still : x.driven = false → x.value = x.target

/-- A value that the ramp passes through can be held, and so can what is left. -/
theorem Sound.between (h : Sound x) {value : ℤ} (low : min x.value x.target ≤ value)
    (high : value ≤ max x.value x.target) : InRange value ∧ InRange (x.target - value) := by
  obtain ⟨value_low, value_high⟩ := h.value
  obtain ⟨target_low, target_high⟩ := h.target
  obtain ⟨distance_low, distance_high⟩ := h.distance
  refine ⟨⟨?_, ?_⟩, ?_, ?_⟩ <;> omega

theorem approach_between {step : ℤ} (target value : ℤ) (positive : 0 < step) :
    min value target ≤ approach step target value ∧ approach step target value ≤ max value target :=
  iterate_between (k := 1) positive

/-- A frame moves a field towards its target. -/
theorem Sound.run (h : Sound x) {step : ℤ} (positive : 0 < step) :
    x.run step = { x with value := approach step x.target x.value } := by
  rw [Field.run]
  by_cases moves : x.driven ∧ x.value ≠ x.target
  · have moved : InRange (approach step x.target x.value) := by
      obtain ⟨low, high⟩ := approach_between x.target x.value positive
      exact (h.between low high).1
    rw [if_pos moves]
    simp only [int32_of_inRange h.distance, clamp_eq positive]
    exact congrArg (fun value ↦ { x with value }) (int32_of_inRange moved)
  · have arrived : x.value = x.target := by
      by_contra apart
      have driven : ¬x.driven = true := fun driven ↦ moves ⟨driven, apart⟩
      exact apart (h.still (Bool.eq_false_iff.mpr driven))
    have stays : approach step x.target x.value = x.value := by
      rw [arrived]
      exact iterate_reaches (k := 1) positive (by simpa using positive.le)
    rw [if_neg moves, stays]

theorem Sound.approach (h : Sound x) {step : ℤ} (positive : 0 < step) :
    Sound { x with value := approach step x.target x.value } := by
  obtain ⟨low, high⟩ := approach_between x.target x.value positive
  obtain ⟨held, left⟩ := h.between low high
  refine ⟨held, h.target, left, fun idle ↦ ?_⟩
  have arrived := h.still idle
  simp only [arrived] at low high ⊢
  omega

/-- What every line and frame keeps. -/
structure Steady (s : Dials) : Prop where
  step : 0 < s.step
  fields : ∀ f, Sound (s.fields f)

theorem sound_still : Sound ⟨false, 0, 0⟩ := ⟨inRange_zero, inRange_zero, inRange_zero, fun _ ↦ rfl⟩

theorem Steady.set (h : Steady s) (sound : Sound x) : Steady { s with fields := update s.fields f x } := by
  refine ⟨h.step, fun g ↦ ?_⟩
  by_cases same : g = f
  · subst same
    simpa using sound
  · simpa [same] using h.fields g

theorem Steady.line (h : Steady s) (l : Line) (meets : Meets s l) : Steady (s.command l).1 := by
  cases l with
  | analog field value =>
    cases valid : fieldOf field with
    | none => simpa only [Dials.command, valid] using h
    | some f =>
      cases value with
      | none => simpa only [Dials.command, valid] using h
      | some second =>
        have level : InRange (int32 second - int32 second) := by
          rw [Int.sub_self]
          exact inRange_zero
        have sound : Sound ⟨true, int32 second, int32 second⟩ :=
            ⟨inRange_int32 _, inRange_int32 _, level, fun _ ↦ rfl⟩
        simpa only [Dials.command, valid] using h.set sound
  | rotary field delta =>
    cases valid : fieldOf field with
    | none => simpa only [Dials.command, valid] using h
    | some f =>
      cases delta with
      | none => simpa only [Dials.command, valid] using h
      | some second =>
        obtain ⟨target, distance⟩ := meets f second valid rfl
        have sound : Sound ⟨true, (s.fields f).value, (s.fields f).target + int32 second⟩ :=
          ⟨(h.fields f).value, target, distance, fun idle ↦ nomatch idle⟩
        simpa only [Dials.command, valid, int32_of_inRange target] using h.set sound
  | step n =>
    cases n with
    | none => exact h
    | some n =>
      simp only [Dials.command]
      split_ifs with outside
      · exact h
      · have inside : InRange n := ⟨by omega, by omega⟩
        have positive : 0 < n := by omega
        rw [int32_of_inRange inside]
        exact ⟨positive, h.fields⟩
  | clear => exact ⟨h.step, fun _ ↦ sound_still⟩
  | other => exact h

theorem Steady.frame (h : Steady s) (payload : Payload) : Steady (s.runAnalog payload).1 := by
  refine ⟨h.step, fun f ↦ ?_⟩
  have run : (s.runAnalog payload).1.fields f = (s.fields f).run s.step := rfl
  rw [run, (h.fields f).run h.step]
  exact (h.fields f).approach h.step

theorem Reached.steady (h : Reached s) : Steady s := by
  induction h with
  | initial => exact ⟨by decide, fun _ ↦ sound_still⟩
  | line l _ meets ih => exact ih.line l meets
  | frame payload _ ih => exact ih.frame payload

def Dials.frames (s : Dials) (payloads : List Payload) : Dials :=
  payloads.foldl (fun s payload ↦ (s.runAnalog payload).1) s

theorem Steady.frames (h : Steady s) (payloads : List Payload) (f : Fin fieldMax) :
    (s.frames payloads).fields f =
      { s.fields f with value := (approach s.step (s.fields f).target)^[payloads.length] (s.fields f).value } := by
  induction payloads generalizing s with
  | nil => rfl
  | cons payload payloads ih =>
    have run : (s.runAnalog payload).1.fields f =
        { s.fields f with value := approach s.step (s.fields f).target (s.fields f).value } := (h.fields f).run h.step
    have rest := ih (h.frame payload)
    rw [run] at rest
    exact rest

theorem fieldOf_val (f : Fin fieldMax) : fieldOf (some ((f : ℕ) : ℤ)) = some f := by
  rw [fieldOf]
  exact dif_pos ⟨Int.natCast_nonneg f, Int.ofNat_lt.mpr f.isLt⟩

/-- Where no relative move goes out of range nothing overflows, a frame moves a value by its step or by what is left,
and the frames lead to the target and never past it. -/
theorem ramps_in_range (h : Reached s) (f : Fin fieldMax) :
    let x := s.fields f
    InRange x.value ∧ InRange x.target ∧ InRange (x.target - x.value) ∧
      (∀ delta, Meets s (.rotary (some (f : ℕ)) (some delta)) →
        ((s.command (.rotary (some (f : ℕ)) (some delta))).1.fields f).target = x.target + int32 delta) ∧
      (∀ payload, (s.runAnalog payload).1.fields f =
        { x with value := x.value + (x.target - x.value).sign * min s.step |x.target - x.value| }) ∧
      (∀ payloads, min x.value x.target ≤ ((s.frames payloads).fields f).value ∧
        ((s.frames payloads).fields f).value ≤ max x.value x.target) ∧
      ∃ enough, ∀ payloads : List Payload, enough ≤ payloads.length →
        ((s.frames payloads).fields f).value = x.target := by
  have steady := h.steady
  have sound := steady.fields f
  refine ⟨sound.value, sound.target, sound.distance, fun delta meets ↦ ?_, fun payload ↦ sound.run steady.step,
    fun payloads ↦ ?_, |(s.fields f).target - (s.fields f).value|.toNat, fun payloads enough ↦ ?_⟩
  · obtain ⟨target, -⟩ := meets f delta (fieldOf_val f) rfl
    simp only [Dials.command, fieldOf_val, update_self, int32_of_inRange target]
  · rw [steady.frames payloads f]
    exact iterate_between steady.step
  · rw [steady.frames payloads f]
    refine iterate_reaches steady.step ?_
    have reached : |(s.fields f).target - (s.fields f).value| ≤ payloads.length := by omega
    exact reached.trans (le_mul_of_one_le_right (Int.natCast_nonneg _) steady.step)

/-- A field turned by one from 10, after the first frame. -/
theorem ramps_in_range_turned :
    let s := (((Dials.initial.command (.analog (some 7) (some 10))).1.command (.rotary (some 7) (some 1))).1.runAnalog
      fun _ ↦ 0).1
    let x := s.fields 7
    InRange x.value ∧ InRange x.target ∧ InRange (x.target - x.value) ∧
      (∀ delta, Meets s (.rotary (some (7 : Fin fieldMax).val) (some delta)) →
        ((s.command (.rotary (some (7 : Fin fieldMax).val) (some delta))).1.fields 7).target =
          x.target + int32 delta) ∧
      (∀ payload, (s.runAnalog payload).1.fields 7 =
        { x with value := x.value + (x.target - x.value).sign * min s.step |x.target - x.value| }) ∧
      (∀ payloads, min x.value x.target ≤ ((s.frames payloads).fields 7).value ∧
        ((s.frames payloads).fields 7).value ≤ max x.value x.target) ∧
      ∃ enough, ∀ payloads : List Payload, enough ≤ payloads.length →
        ((s.frames payloads).fields 7).value = x.target := by
  have turned : Meets (Dials.initial.command (.analog (some 7) (some 10))).1 (.rotary (some 7) (some 1)) := by
    intro f second valid amount
    obtain rfl : 7 = f := Option.some.inj valid
    obtain rfl : 1 = second := Option.some.inj amount
    exact ⟨⟨by decide, by decide⟩, by decide, by decide⟩
  exact ramps_in_range (.frame _ (.line _ (.line (.analog (some 7) (some 10)) .initial trivial) turned)) 7

/-- A field at the top of the range turned by one: the target wraps, and a frame carries the value to the bottom. -/
theorem ramp_overflows :
    let s := ((Dials.initial.command (.analog (some 7) (some 2147483647))).1.command (.rotary (some 7) (some 1))).1
    (s.fields 7).value = 2147483647 ∧ (s.fields 7).target = -2147483648 ∧
      ¬InRange ((s.fields 7).target - (s.fields 7).value) ∧
      ((s.runAnalog fun _ ↦ 0).1.fields 7).value = -2147483648 ∧
      ((s.runAnalog fun _ ↦ 0).1.fields 7).value ≠ (s.fields 7).value +
        ((s.fields 7).target - (s.fields 7).value).sign * min s.step |(s.fields 7).target - (s.fields 7).value| := by
  refine ⟨by decide, by decide, fun inside ↦ absurd inside.1 (by decide), by decide, by decide⟩

end Cdj2000Emulator.Panel.Analogue
