import Mathlib.Algebra.Order.Ring.Nat
import Mathlib.Logic.Function.Iterate
import Mathlib.Tactic.Ring

namespace Cdj2000Emulator.Library

/-- An up-counter behind a prescaler: `rate + 1` clocks make a count, and the clock after
the count has reached `period` goes on to what follows. -/
structure PeriodCounter where
  lap : ℕ
  rate : ℕ
  count : ℕ
  period : ℕ

namespace PeriodCounter

def fresh (rate period : ℕ) : PeriodCounter := ⟨0, rate, 0, period⟩

def step (next : Option (ℕ × ℕ)) (c : PeriodCounter) : PeriodCounter :=
  if c.lap ≠ c.rate then { c with lap := c.lap + 1 }
  else if c.period = 0 then { c with lap := 0 }
  else if c.count ≠ c.period then { c with lap := 0, count := c.count + 1 }
  else next.elim { c with lap := 0 } fun (rate, period) ↦ fresh rate period

def Matches (c : PeriodCounter) : Prop := c.lap = c.rate ∧ c.period ≠ 0 ∧ c.count + 1 = c.period

structure InRange (c : PeriodCounter) : Prop where
  lap : c.lap ≤ c.rate
  count : c.count ≤ c.period

variable {next : Option (ℕ × ℕ)} {c : PeriodCounter} {rate period : ℕ}

theorem inRange_fresh : (fresh rate period).InRange := ⟨Nat.zero_le _, Nat.zero_le _⟩

theorem InRange.step (h : c.InRange) (next : Option (ℕ × ℕ)) : (c.step next).InRange := by
  obtain ⟨hlap, hcount⟩ := h
  unfold PeriodCounter.step
  split_ifs with hrate hzero hdone
  · exact ⟨by simp only; omega, hcount⟩
  · exact ⟨Nat.zero_le _, hcount⟩
  · exact ⟨Nat.zero_le _, by simp only; omega⟩
  · cases next with
    | none => exact ⟨Nat.zero_le _, hcount⟩
    | some setting => exact inRange_fresh

theorem InRange.iterate (h : c.InRange) (n : ℕ) : ((PeriodCounter.step next)^[n] c).InRange := by
  induction n with
  | zero => exact h
  | succ n ih =>
    rw [Function.iterate_succ_apply']
    exact ih.step next

/-- The counter before clock `n + 1` of a period: it has counted the whole laps. -/
theorem iterate_fresh (hperiod : period ≠ 0) (n : ℕ) (hn : n < (period + 1) * (rate + 1)) :
    (step next)^[n] (fresh rate period) = ⟨n % (rate + 1), rate, n / (rate + 1), period⟩ := by
  induction n with
  | zero => simp [fresh]
  | succ n ih =>
    have hcount : n / (rate + 1) ≤ period := by
      have : n / (rate + 1) < period + 1 := Nat.div_lt_of_lt_mul (by rw [Nat.mul_comm]; omega)
      omega
    have hlap : n % (rate + 1) < rate + 1 := Nat.mod_lt n (Nat.succ_pos rate)
    have hn' := Nat.div_add_mod n (rate + 1)
    rw [Function.iterate_succ_apply', ih (by omega)]
    by_cases hwhole : n % (rate + 1) = rate
    · have hsucc : n + 1 = (n / (rate + 1) + 1) * (rate + 1) := by
        calc n + 1 = (rate + 1) * (n / (rate + 1)) + (rate + 1) := by omega
          _ = (n / (rate + 1) + 1) * (rate + 1) := by ring
      have hmore : n / (rate + 1) ≠ period := by
        intro heq
        rw [hsucc, heq] at hn
        exact lt_irrefl _ hn
      rw [hsucc, Nat.mul_mod_left, Nat.mul_div_cancel _ (Nat.succ_pos rate)]
      simp [step, hwhole, hperiod, hmore]
    · have hsucc : n + 1 = (rate + 1) * (n / (rate + 1)) + (n % (rate + 1) + 1) := by omega
      have hmod : (n + 1) % (rate + 1) = n % (rate + 1) + 1 := by
        rw [hsucc, Nat.mul_add_mod, Nat.mod_eq_of_lt (by omega)]
      have hdiv : (n + 1) / (rate + 1) = n / (rate + 1) := by
        have hshort : n % (rate + 1) + 1 < rate + 1 := by omega
        rw [hsucc, Nat.mul_add_div (Nat.zero_lt_succ rate : 0 < rate + 1), Nat.div_eq_of_lt hshort, Nat.add_zero]
      rw [hmod, hdiv]
      simp [step, hwhole]

theorem matches_first (hperiod : period ≠ 0) {n : ℕ} (hn : n < (period + 1) * (rate + 1)) :
    ((step next)^[n] (fresh rate period)).Matches ↔ n + 1 = period * (rate + 1) := by
  rw [iterate_fresh hperiod n hn]
  have hn' := Nat.div_add_mod n (rate + 1)
  have hlap : n % (rate + 1) < rate + 1 := Nat.mod_lt n (Nat.succ_pos rate)
  constructor
  · rintro ⟨hrate, -, hcount⟩
    simp only at hrate hcount
    calc n + 1 = (rate + 1) * (n / (rate + 1)) + (rate + 1) := by omega
      _ = (n / (rate + 1) + 1) * (rate + 1) := by ring
      _ = period * (rate + 1) := by rw [hcount]
  · intro hend
    obtain ⟨k, rfl⟩ := Nat.exists_eq_succ_of_ne_zero hperiod
    have hn'' : n = (rate + 1) * k + rate := by
      rw [Nat.succ_mul, Nat.mul_comm k] at hend
      omega
    have hmod : n % (rate + 1) = rate := by rw [hn'', Nat.mul_add_mod, Nat.mod_eq_of_lt (Nat.lt_succ_self rate)]
    have hdiv : n / (rate + 1) = k := by
      rw [hn'', Nat.mul_add_div (Nat.zero_lt_succ rate : 0 < rate + 1),
        Nat.div_eq_of_lt (Nat.lt_succ_self rate), Nat.add_zero]
    exact ⟨hmod, hperiod, by simp only [hdiv]⟩

theorem step_idle (h : c.period = 0) : (c.step next).period = 0 := by
  unfold step
  split_ifs
  · exact h
  · exact h

theorem iterate_idle (n : ℕ) : ((step next)^[n] (fresh rate 0)).period = 0 := by
  induction n with
  | zero => rfl
  | succ n ih =>
    rw [Function.iterate_succ_apply']
    exact step_idle ih

/-- A period of zero is never reached. -/
theorem not_matches_zero (n : ℕ) : ¬((step next)^[n] (fresh rate 0)).Matches :=
  fun h ↦ h.2.1 (iterate_idle n)

/-- The end of a period, at the clock after its last lap. -/
theorem iterate_period (hperiod : period ≠ 0) :
    (step next)^[(period + 1) * (rate + 1)] (fresh rate period) =
      next.elim ⟨0, rate, period, period⟩ fun (rate, period) ↦ fresh rate period := by
  have hlast : (period + 1) * (rate + 1) = (rate + 1) * period + rate + 1 := by ring
  rw [hlast, Function.iterate_succ_apply', iterate_fresh hperiod _ (by omega)]
  have hmod : ((rate + 1) * period + rate) % (rate + 1) = rate := by
    rw [Nat.mul_add_mod, Nat.mod_eq_of_lt (Nat.lt_succ_self rate)]
  have hdiv : ((rate + 1) * period + rate) / (rate + 1) = period := by
    rw [Nat.mul_add_div (Nat.zero_lt_succ rate : 0 < rate + 1), Nat.div_eq_of_lt (Nat.lt_succ_self rate), Nat.add_zero]
  rw [hmod, hdiv]
  cases next with
  | none => simp [step, hperiod]
  | some setting => simp [step, hperiod]

theorem step_done (c : PeriodCounter) (h : c.count = c.period) : (c.step none).count = (c.step none).period := by
  unfold step
  split_ifs with hlap hzero hcount
  · exact h
  · exact h
  · exact absurd h hcount
  · exact h

theorem not_matches_done (h : c.count = c.period) (n : ℕ) : ¬((step none)^[n] c).Matches := by
  have hdone : ((step none)^[n] c).count = ((step none)^[n] c).period := by
    induction n with
    | zero => exact h
    | succ n ih =>
      rw [Function.iterate_succ_apply']
      exact step_done _ ih
  intro hmatch
  have := hmatch.2.2
  omega

theorem matches_once_iff (n : ℕ) :
    ((step none)^[n] (fresh rate period)).Matches ↔ period ≠ 0 ∧ n + 1 = period * (rate + 1) := by
  by_cases hperiod : period = 0
  · subst hperiod
    exact iff_of_false (not_matches_zero n) fun h ↦ h.1 rfl
  · by_cases hn : n < (period + 1) * (rate + 1)
    · rw [matches_first hperiod hn]
      exact (and_iff_right hperiod).symm
    · obtain ⟨m, rfl⟩ := Nat.exists_eq_add_of_le (Nat.le_of_not_lt hn)
      refine iff_of_false ?_ ?_
      · rw [Nat.add_comm, Function.iterate_add_apply, iterate_period hperiod]
        exact not_matches_done rfl m
      · rintro ⟨-, hend⟩
        have hlonger : period * (rate + 1) ≤ (period + 1) * (rate + 1) :=
          Nat.mul_le_mul_right _ (Nat.le_succ period)
        omega

/-- The clocks of the matches of a counter that restarts at the same setting. -/
theorem matches_again_iff (n : ℕ) :
    ((step (some (rate, period)))^[n] (fresh rate period)).Matches ↔
      period ≠ 0 ∧ ∃ j, n + 1 = period * (rate + 1) + j * ((period + 1) * (rate + 1)) := by
  by_cases hperiod : period = 0
  · subst hperiod
    exact iff_of_false (not_matches_zero n) fun h ↦ h.1 rfl
  simp only [ne_eq, hperiod, not_false_eq_true, true_and]
  have hshort : period * (rate + 1) + (rate + 1) = (period + 1) * (rate + 1) := by ring
  induction n using Nat.strong_induction_on with
  | _ n ih =>
    by_cases hn : n < (period + 1) * (rate + 1)
    · rw [matches_first hperiod hn]
      constructor
      · intro h
        exact ⟨0, by rw [h]; ring⟩
      · rintro ⟨j, hj⟩
        cases j with
        | zero => rw [hj]; ring
        | succ j =>
          rw [Nat.succ_mul j] at hj
          have hpositive : 0 < period * (rate + 1) := Nat.mul_pos (Nat.pos_of_ne_zero hperiod) (Nat.succ_pos rate)
          omega
    · obtain ⟨m, rfl⟩ := Nat.exists_eq_add_of_le (Nat.le_of_not_lt hn)
      rw [Nat.add_comm _ m, Function.iterate_add_apply, iterate_period hperiod]
      have hpositive : 0 < (period + 1) * (rate + 1) := Nat.mul_pos (Nat.succ_pos period) (Nat.succ_pos rate)
      have hrest := ih m (by omega)
      simp only [Option.elim_some]
      refine hrest.trans ?_
      constructor
      · rintro ⟨j, hj⟩
        refine ⟨j + 1, ?_⟩
        rw [Nat.succ_mul j]
        omega
      · rintro ⟨j, hj⟩
        cases j with
        | zero => omega
        | succ j =>
          rw [Nat.succ_mul j] at hj
          exact ⟨j, by omega⟩

/-- The first period runs at its own setting, every later one at the setting it restarts at. -/
theorem matches_reload_iff {rate' period' : ℕ} (n : ℕ) :
    ((step (some (rate', period')))^[n] (fresh rate period)).Matches ↔ period ≠ 0 ∧
      (n + 1 = period * (rate + 1) ∨ period' ≠ 0 ∧ ∃ j, n + 1 = (period + 1) * (rate + 1) +
        (period' * (rate' + 1) + j * ((period' + 1) * (rate' + 1)))) := by
  by_cases hperiod : period = 0
  · subst hperiod
    exact iff_of_false (not_matches_zero n) fun h ↦ h.1 rfl
  simp only [ne_eq, hperiod, not_false_eq_true, true_and]
  have hshort : period * (rate + 1) + (rate + 1) = (period + 1) * (rate + 1) := by ring
  by_cases hn : n < (period + 1) * (rate + 1)
  · rw [matches_first hperiod hn, or_iff_left]
    rintro ⟨hagain, j, hj⟩
    have hpositive : 0 < period' * (rate' + 1) := Nat.mul_pos (Nat.pos_of_ne_zero hagain) (Nat.succ_pos rate')
    omega
  · obtain ⟨m, rfl⟩ := Nat.exists_eq_add_of_le (Nat.le_of_not_lt hn)
    rw [Nat.add_comm _ m, Function.iterate_add_apply, iterate_period hperiod]
    simp only [Option.elim_some]
    rw [matches_again_iff, or_iff_right (by omega)]
    refine and_congr_right fun _ ↦ exists_congr fun j ↦ ?_
    constructor
    · intro hj
      omega
    · intro hj
      omega

end PeriodCounter

end Cdj2000Emulator.Library
