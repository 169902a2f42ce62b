import Mathlib.Algebra.Order.BigOperators.Group.List
import Mathlib.Data.Rat.Floor
import Mathlib.Tactic.FieldSimp
import Mathlib.Tactic.Linarith

namespace Cdj2000Emulator.Library.SampledRate

/-- A stretch of time and the rate that is in force when it is accounted for. -/
structure Interval where
  elapsed : ℤ
  rate : ℤ
  deriving DecidableEq

variable (unit : ℤ)

def counted (l : List Interval) : ℤ := (l.map fun i ↦ i.elapsed * i.rate / unit).sum

/-- The integral of the rate, in units of `unit`. -/
def integral (l : List Interval) : ℚ := (l.map fun i ↦ (i.elapsed * i.rate : ℚ) / unit).sum

variable {unit}

@[simp]
theorem counted_nil : counted unit [] = 0 := rfl

@[simp]
theorem counted_cons (i : Interval) (l : List Interval) :
    counted unit (i :: l) = i.elapsed * i.rate / unit + counted unit l := rfl

theorem counted_append (l l' : List Interval) :
    counted unit (l ++ l') = counted unit l + counted unit l' := by
  unfold counted
  rw [List.map_append, List.sum_append]

@[simp]
theorem integral_nil : integral unit [] = 0 := rfl

@[simp]
theorem integral_cons (i : Interval) (l : List Interval) :
    integral unit (i :: l) = (i.elapsed * i.rate : ℚ) / unit + integral unit l := by
  unfold integral
  rw [List.map_cons, List.sum_cons]

theorem integral_append (l l' : List Interval) :
    integral unit (l ++ l') = integral unit l + integral unit l' := by
  unfold integral
  rw [List.map_append, List.sum_append]

theorem interval_rounded (h : 0 < unit) (x : ℤ) :
    ((x / unit : ℤ) : ℚ) ≤ x / unit ∧ (x : ℚ) / unit < (x / unit : ℤ) + 1 := by
  have hu : (0 : ℚ) < unit := by exact_mod_cast h
  have hmul : x / unit * unit + x % unit = x := by
    have := Int.mul_ediv_add_emod x unit
    linarith
  have h0 := Int.emod_nonneg x h.ne'
  have h1 := Int.emod_lt_of_pos x h
  have hmul' : (x : ℚ) = (x / unit : ℤ) * unit + (x % unit : ℤ) := by exact_mod_cast hmul.symm
  constructor
  · rw [le_div_iff₀ hu, hmul']
    have : (0 : ℚ) ≤ (x % unit : ℤ) := by exact_mod_cast h0
    linarith
  · rw [div_lt_iff₀ hu, hmul']
    have : ((x % unit : ℤ) : ℚ) < unit := by exact_mod_cast h1
    linarith

theorem counted_near_integral {u : ℤ} (h : 0 < u) (l : List Interval) :
    (counted u l : ℚ) ≤ integral u l ∧ integral u l ≤ counted u l + l.length ∧
      (l ≠ [] → integral u l < counted u l + l.length) := by
  induction l with
  | nil => simp
  | cons i l ih =>
    obtain ⟨h0, h1, -⟩ := ih
    obtain ⟨h2, h3⟩ := interval_rounded h (i.elapsed * i.rate)
    rw [counted_cons, integral_cons, List.length_cons]
    push_cast at h2 h3 ⊢
    exact ⟨by linarith, by linarith, fun _ ↦ by linarith⟩

/-- Accounting for an interval in two parts at one rate changes nothing of the integral. -/
theorem integral_split (unit : ℤ) (a b : List Interval) (e₁ e₂ r : ℤ) :
    integral unit (a ++ ⟨e₁, r⟩ :: ⟨e₂, r⟩ :: b) = integral unit (a ++ ⟨e₁ + e₂, r⟩ :: b) := by
  simp only [integral_append, integral_cons]
  push_cast
  ring

end Cdj2000Emulator.Library.SampledRate
