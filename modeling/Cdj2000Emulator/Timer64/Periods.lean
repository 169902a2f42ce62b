import Cdj2000Emulator.Library.PeriodCounter
import Cdj2000Emulator.Timer64.Model
import Mathlib.Tactic.IntervalCases

namespace Cdj2000Emulator.Timer64.Periods

open Library Model

/-- What sets the periods of a half: its count is taken every `rate + 1` clocks, and a
reload puts `reload` and `reloadRate` in the place of `period` and `rate`. -/
structure Setting where
  enamode : ℕ
  period : ℕ
  rate : ℕ
  reload : ℕ
  reloadRate : ℕ

/-- A half that started from zero counters matches in its clock `n`. -/
def Setting.Due (x : Setting) (n : ℕ) : Prop :=
  x.period ≠ 0 ∧
    if x.enamode = 1 then n = x.period * (x.rate + 1)
    else if x.enamode = 2 then
      ∃ j, n = x.period * (x.rate + 1) + j * ((x.period + 1) * (x.rate + 1))
    else n = x.period * (x.rate + 1) ∨ x.reload ≠ 0 ∧ ∃ j, n = (x.period + 1) * (x.rate + 1) +
      (x.reload * (x.reloadRate + 1) + j * ((x.reload + 1) * (x.reloadRate + 1)))

/-- What follows a period, as the counter of the library has it. -/
def Setting.next (x : Setting) : Option (ℕ × ℕ) :=
  if x.enamode = 1 then none
  else if x.enamode = 3 then some (x.reloadRate, x.reload)
  else some (x.rate, x.period)

theorem matches_iff_due {x : Setting} (hsome : x.enamode ≠ 0) (hmode : x.enamode < 4) (n : ℕ) :
    ((PeriodCounter.step x.next)^[n] (.fresh x.rate x.period)).Matches ↔ x.Due (n + 1) := by
  unfold Setting.next Setting.Due
  by_cases hone : x.enamode = 1
  · simp only [hone, if_true]
    exact PeriodCounter.matches_once_iff n
  by_cases htwo : x.enamode = 2
  · simp only [htwo, Nat.reduceEqDiff, if_false, if_true]
    exact PeriodCounter.matches_again_iff n
  · have hthree : x.enamode = 3 := by omega
    simp only [hthree, Nat.reduceEqDiff, if_false, if_true]
    exact PeriodCounter.matches_reload_iff n

end Cdj2000Emulator.Timer64.Periods

namespace Cdj2000Emulator.Timer64.Model

open Library Periods

def Timer.counting (s : Timer) : Half → Bool
  | .half12 => s.mode ≠ 2 && s.tgcr.getLsbD 0 && (s.mode = 1 || s.tgcr.getLsbD 1) &&
      s.inputClockKnown .half12 && s.enamode12 ≠ 0
  | .half34 => s.mode = 1 && s.counts34

def Timer.setting (s : Timer) : Half → Setting
  | .half12 =>
    if s.mode = 1 then ⟨s.enamode12, s.prd12.toNat, 0, s.rel12.toNat, 0⟩
    else if s.mode = 3 then
      ⟨s.enamode12, s.prd12.toNat, s.prd34.toNat, s.rel12.toNat, s.rel34.toNat⟩
    else ⟨s.enamode12, (join s.prd34 s.prd12).toNat, 0, (join s.rel34 s.rel12).toNat, 0⟩
  | .half34 => ⟨s.enamode34, s.prd34.toNat, s.psc34, s.rel34.toNat, s.psc34⟩

def Timer.counter (s : Timer) : Half → PeriodCounter
  | .half12 =>
    if s.mode = 1 then ⟨0, 0, s.tim12.toNat, s.prd12.toNat⟩
    else if s.mode = 3 then ⟨s.tim34.toNat, s.prd34.toNat, s.tim12.toNat, s.prd12.toNat⟩
    else ⟨0, 0, (join s.tim34 s.tim12).toNat, (join s.prd34 s.prd12).toNat⟩
  | .half34 => ⟨s.tddr34, s.psc34, s.tim34.toNat, s.prd34.toNat⟩

def Half.output : Half → ℕ
  | .half12 => outTint12
  | .half34 => outTint34

/-- The bit of INTCTLSTAT that a match of the half sets. -/
def Half.status : Half → ℕ
  | .half12 => 1
  | .half34 => 17

def Timer.matched (s : Timer) (half : Half) : Bool :=
  (s.tgcr.getLsbD 0 || s.tgcr.getLsbD 1) && s.tickOne.2.getLsbD half.output

/-- A match is due in clock `n` of a timer that starts in this state. -/
def Timer.Due (s : Timer) (half : Half) (n : ℕ) : Prop :=
  s.counting half = true ∧ (s.setting half).Due n

def Timer.enabled (s : Timer) (half : Half) : Bool := s.intctlstat.getLsbD (half.status - 1)

/-- All counters are zero, TDDR34 too where it counts. -/
structure Timer.Zeroed (s : Timer) : Prop where
  tim12 : s.tim12 = 0
  tim34 : s.tim34 = 0
  tddr34 : s.mode = 1 → s.tddr34 = 0

end Cdj2000Emulator.Timer64.Model

namespace Cdj2000Emulator.Timer64.Periods

open Library Model

section Advance

variable {counter period reload : Long} {enamode rate reloadRate : ℕ}

def reloaded (counter period : Long) (enamode rate reloadRate : ℕ) : ℕ :=
  if enamode = 3 ∧ period ≠ 0 ∧ counter = period then reloadRate else rate

theorem toNat_succ (hle : counter.toNat ≤ period.toNat) (hne : counter ≠ period) :
    (counter + 1#64).toNat = counter.toNat + 1 := by
  have hlt := period.isLt
  have hcount : counter.toNat ≠ period.toNat := fun h ↦ hne (BitVec.eq_of_toNat_eq h)
  rw [BitVec.toNat_add, BitVec.toNat_ofNat]
  omega

/-- `advance` is the clock of the counter that ends a lap. -/
theorem advance_step (reload : Long) (rate reloadRate : ℕ) (hmode : enamode ≠ 0)
    (hle : counter.toNat ≤ period.toNat) :
    PeriodCounter.step (Setting.next ⟨enamode, period.toNat, rate, reload.toNat, reloadRate⟩)
        ⟨rate, rate, counter.toNat, period.toNat⟩ =
      ⟨0, reloaded counter period enamode rate reloadRate, (advance counter period reload enamode).1.toNat,
        (advance counter period reload enamode).2.1.toNat⟩ := by
  unfold advance PeriodCounter.step Setting.next reloaded
  by_cases hzero : period = 0#64
  · simp [hzero]
  have hpositive : period.toNat ≠ 0 := fun h ↦ hzero (BitVec.eq_of_toNat_eq (by rw [h]; rfl))
  by_cases hdone : counter = period
  · subst hdone
    by_cases hone : enamode = 1
    · simp [hone, hpositive, hzero]
    · by_cases hthree : enamode = 3
      · simp [hthree, hpositive, hzero, PeriodCounter.fresh]
      · simp [hone, hthree, hpositive, hzero, hmode, PeriodCounter.fresh]
  · have hcount : counter.toNat ≠ period.toNat := fun h ↦ hdone (BitVec.eq_of_toNat_eq h)
    have hsucc := toNat_succ hle hdone
    simp [hmode, hpositive, hzero, hcount, hdone, hsucc]

theorem advance_fires (reload : Long) (rate : ℕ) (hmode : enamode ≠ 0) (hle : counter.toNat ≤ period.toNat) :
    (advance counter period reload enamode).2.2 = true ↔
      PeriodCounter.Matches ⟨rate, rate, counter.toNat, period.toNat⟩ := by
  unfold advance PeriodCounter.Matches
  by_cases hzero : period = 0#64
  · simp [hzero]
  have hpositive : period.toNat ≠ 0 := fun h ↦ hzero (BitVec.eq_of_toNat_eq (by rw [h]; rfl))
  by_cases hdone : counter = period
  · subst hdone
    simp [hzero, hmode, apply_ite]
  · have hcount : counter.toNat ≠ period.toNat := fun h ↦ hdone (BitVec.eq_of_toNat_eq h)
    have hsucc := toNat_succ hle hdone
    have hlast : counter + 1#64 = period ↔ counter.toNat + 1 = period.toNat := by
      rw [← hsucc]
      exact BitVec.toNat_inj.symm
    simp [hmode, hzero, hdone, hpositive, hlast]

theorem advance_period (counter period reload : Long) (enamode : ℕ) :
    (advance counter period reload enamode).2.1 = period ∨
    (advance counter period reload enamode).2.1 = reload := by
  unfold advance
  split_ifs
  · exact .inl rfl
  · exact .inl rfl
  · exact .inr rfl
  · exact .inl rfl
  · exact .inl rfl

theorem advance_le (reload : Long) (hmode : enamode ≠ 0) (hle : counter.toNat ≤ period.toNat) :
    (advance counter period reload enamode).1.toNat ≤ (advance counter period reload enamode).2.1.toNat := by
  have hrange : (PeriodCounter.mk 0 0 counter.toNat period.toNat).InRange := ⟨Nat.le_refl 0, hle⟩
  have hstep := hrange.step (Setting.next ⟨enamode, period.toNat, 0, reload.toNat, 0⟩)
  rw [advance_step reload 0 0 hmode hle] at hstep
  exact hstep.count

theorem advance_next (counter period reload : Long) (enamode rate reloadRate : ℕ) :
    Setting.next ⟨enamode, (advance counter period reload enamode).2.1.toNat,
      reloaded counter period enamode rate reloadRate, reload.toNat, reloadRate⟩ =
    Setting.next ⟨enamode, period.toNat, rate, reload.toNat, reloadRate⟩ := by
  unfold Setting.next
  by_cases hone : enamode = 1
  · simp [hone]
  by_cases hthree : enamode = 3
  · simp [hthree]
  · have hperiod : (advance counter period reload enamode).2.1 = period := by
      unfold advance
      split_ifs <;> rfl
    have hrate : reloaded counter period enamode rate reloadRate = rate := if_neg fun h ↦ hthree h.1
    simp only [hone, hthree, if_false, hperiod, hrate]

end Advance

section Words

theorem toNat_wide (w : Word) : (wide w).toNat = w.toNat := by
  unfold wide
  exact BitVec.toNat_setWidth_of_le (by decide)

theorem toNat_low {x : Long} (h : x.toNat < 2 ^ 32) : (low x).toNat = x.toNat := by
  unfold low
  rw [BitVec.toNat_setWidth, Nat.mod_eq_of_lt h]

theorem join_high_low (x : Long) : join (high x) (low x) = x := by
  refine BitVec.eq_of_getLsbD_eq fun i hi ↦ ?_
  unfold join high low wide
  by_cases hlow : i < 32
  · simp [hlow, hi]
  · have hhigh : i - 32 < 32 := by omega
    have hback : 32 + (i - 32) = i := by omega
    simp [hlow, hi, hhigh, hback]

theorem field_eq (w : Word) (l k : ℕ) : field w l k = (w.extractLsb' l k).toNat :=
  (BitVec.extractLsb'_toNat l k w).symm

/-- The fields below TDDR34 are those of the low twelve bits. -/
theorem field_congr {v w : Word} {l k : ℕ} (h : v.setWidth 12 = w.setWidth 12) (hlow : l + k ≤ 12) :
    field v l k = field w l k := by
  rw [field_eq, field_eq]
  refine congrArg _ (BitVec.eq_of_getLsbD_eq fun i hi ↦ ?_)
  have hbit := congrArg (BitVec.getLsbD · (l + i)) h
  have hinside : l + i < 12 := by omega
  simpa [hi, hinside] using hbit

theorem bit_congr {v w : Word} {i : ℕ} (h : v.setWidth 12 = w.setWidth 12) (hlow : i < 12) :
    v.getLsbD i = w.getLsbD i := by
  have hbit := congrArg (BitVec.getLsbD · i) h
  simpa [hlow] using hbit

theorem lower_cleared (w : Word) : (w &&& ~~~0xf000#32).setWidth 12 = w.setWidth 12 := by
  refine BitVec.eq_of_getLsbD_eq fun i hi ↦ ?_
  interval_cases i <;> simp

theorem lower_counted (w : Word) (n : ℕ) :
    ((w &&& ~~~0xf000#32) ||| BitVec.ofNat 32 n <<< 12).setWidth 12 = w.setWidth 12 := by
  refine BitVec.eq_of_getLsbD_eq fun i hi ↦ ?_
  interval_cases i <;> simp

theorem count_cleared (w : Word) : field (w &&& ~~~0xf000#32) 12 4 = 0 := by
  rw [field_eq]
  have hzero : (w &&& ~~~0xf000#32).extractLsb' 12 4 = 0#4 := by
    refine BitVec.eq_of_getLsbD_eq fun i hi ↦ ?_
    interval_cases i <;> simp
  rw [hzero]
  rfl

theorem count_counted (w : Word) {n : ℕ} (hn : n < 16) :
    field ((w &&& ~~~0xf000#32) ||| BitVec.ofNat 32 n <<< 12) 12 4 = n := by
  rw [field_eq]
  have hwide : BitVec.ofNat 32 n = (BitVec.ofNat 4 n).setWidth 32 := by
    refine BitVec.eq_of_toNat_eq ?_
    rw [BitVec.toNat_setWidth, BitVec.toNat_ofNat, BitVec.toNat_ofNat, Nat.mod_eq_of_lt hn]
  have hcount (x : BitVec 4) : ((w &&& ~~~0xf000#32) ||| x.setWidth 32 <<< 12).extractLsb' 12 4 = x := by
    refine BitVec.eq_of_getLsbD_eq fun i hi ↦ ?_
    interval_cases i <;> simp
  rw [hwide, hcount, BitVec.toNat_ofNat, Nat.mod_eq_of_lt hn]

end Words

/-- What no tick changes of a timer: its mode, its enables and its reload registers. -/
structure Kept (s t : Timer) : Prop where
  tcr : t.tcr = s.tcr
  rel12 : t.rel12 = s.rel12
  rel34 : t.rel34 = s.rel34
  tgcr : t.tgcr.setWidth 12 = s.tgcr.setWidth 12

theorem Kept.refl (s : Timer) : Kept s s := ⟨rfl, rfl, rfl, rfl⟩

theorem Kept.trans {s t r : Timer} (h : Kept s t) (k : Kept t r) : Kept s r :=
  ⟨k.tcr.trans h.tcr, k.rel12.trans h.rel12, k.rel34.trans h.rel34, k.tgcr.trans h.tgcr⟩

section Kept

variable {s t : Timer}

theorem Kept.mode (h : Kept s t) : t.mode = s.mode := field_congr h.tgcr (by decide)

theorem Kept.psc34 (h : Kept s t) : t.psc34 = s.psc34 := field_congr h.tgcr (by decide)

theorem Kept.enamode12 (h : Kept s t) : t.enamode12 = s.enamode12 := by
  unfold Timer.enamode12
  rw [h.tcr]

theorem Kept.enamode34 (h : Kept s t) : t.enamode34 = s.enamode34 := by
  unfold Timer.enamode34
  rw [h.tcr]

theorem Kept.inputClockKnown (h : Kept s t) (half : Half) :
    t.inputClockKnown half = s.inputClockKnown half := by
  unfold Timer.inputClockKnown Timer.inputHz
  rw [h.tcr, h.mode, h.psc34]

theorem Kept.counting (h : Kept s t) (half : Half) : t.counting half = s.counting half := by
  cases half with
  | half12 =>
    unfold Timer.counting
    simp only [h.mode, h.inputClockKnown, h.enamode12, bit_congr h.tgcr (show 0 < 12 by decide),
      bit_congr h.tgcr (show 1 < 12 by decide)]
  | half34 =>
    unfold Timer.counting Timer.counts34
    simp only [h.mode, h.inputClockKnown, h.enamode34, bit_congr h.tgcr (show 1 < 12 by decide)]

theorem kept_advance12 (s : Timer) : Kept s s.advance12.1 := ⟨rfl, rfl, rfl, rfl⟩

theorem kept_dual12 (s : Timer) : Kept s s.tickDual12.1 := by
  unfold Timer.tickDual12
  split_ifs
  · exact kept_advance12 s
  · exact .refl s

theorem kept_dual34 (s : Timer) : Kept s s.tickDual34.1 := by
  unfold Timer.tickDual34
  split_ifs
  · exact ⟨rfl, rfl, rfl, lower_cleared _⟩
  · exact ⟨rfl, rfl, rfl, lower_counted _ _⟩
  · exact .refl s

theorem kept_chained (s : Timer) : Kept s s.tickChained.1 := by
  unfold Timer.tickChained
  simp only
  split_ifs
  · exact ⟨rfl, rfl, rfl, rfl⟩
  · exact ⟨rfl, rfl, rfl, rfl⟩
  · exact ⟨rfl, rfl, rfl, rfl⟩

theorem kept_tickOne (s : Timer) : Kept s s.tickOne.1 := by
  unfold Timer.tickOne
  split_ifs
  · exact .refl s
  · exact (kept_dual12 s).trans (kept_dual34 _)
  · exact .refl s
  · exact kept_chained s
  · exact ⟨rfl, rfl, rfl, rfl⟩

end Kept

section Outputs

theorem compareMatches_bit {s : Timer} {k : ℕ} (h : s.compareMatches.getLsbD k = true) : 2 ≤ k ∧ k < 10 := by
  have hfold (l : List ℕ) (hl : ∀ n ∈ l, n < 8) : ∀ fired : Word,
      (fired.getLsbD k = true → 2 ≤ k ∧ k < 10) →
      (l.foldl (fun fired n ↦ if s.compare n ≠ 0 ∧ s.compare n = s.tim12 then
        fired ||| BitVec.twoPow 32 (outCmp0 + n) else fired) fired).getLsbD k = true → 2 ≤ k ∧ k < 10 := by
    induction l with
    | nil => exact fun _ hfired ↦ hfired
    | cons n l ih =>
      rw [List.forall_mem_cons] at hl
      intro fired hfired
      rw [List.foldl_cons]
      refine ih hl.2 _ ?_
      split_ifs with hmatch
      · intro hbit
        rw [BitVec.getLsbD_or, Bool.or_eq_true] at hbit
        rcases hbit with hbit | hbit
        · exact hfired hbit
        · rw [BitVec.getLsbD_twoPow, Bool.and_eq_true, decide_eq_true_iff, decide_eq_true_iff] at hbit
          have := hl.1
          unfold outCmp0 at hbit
          omega
      · exact hfired
  unfold Timer.compareMatches at h
  split_ifs at h with hoff
  · simp at h
  · exact hfold _ (fun n hn ↦ List.mem_range.mp hn) 0 (by simp) h

theorem raise_bit (fired : Bool) (output k : ℕ) (hk : k < 32) :
    (raise fired output).getLsbD k = (fired && decide (k = output)) := by
  unfold raise
  cases fired with
  | false => simp
  | true => simp [hk, eq_comm]

theorem raise_self (fired : Bool) {output : ℕ} (h : output < 32) :
    (raise fired output).getLsbD output = fired := by
  rw [raise_bit fired output output h, decide_eq_true rfl, Bool.and_true]

end Outputs

section Words

variable {c p r : Word} {enamode : ℕ} (rate reloadRate : ℕ)

/-- The counter words of a half of 32 bits after a clock. -/
theorem advance_words (r : Word) (hmode : enamode ≠ 0) (hle : c.toNat ≤ p.toNat) :
    (low (advance (wide c) (wide p) (wide r) enamode).1).toNat =
        (advance (wide c) (wide p) (wide r) enamode).1.toNat ∧
      (low (advance (wide c) (wide p) (wide r) enamode).2.1).toNat =
        (advance (wide c) (wide p) (wide r) enamode).2.1.toNat := by
  have hperiod : (advance (wide c) (wide p) (wide r) enamode).2.1.toNat < 2 ^ 32 := by
    rcases advance_period (wide c) (wide p) (wide r) enamode with h | h
    · rw [h, toNat_wide]
      exact p.isLt
    · rw [h, toNat_wide]
      exact r.isLt
  have hcounter := advance_le (wide r) hmode (by rwa [toNat_wide, toNat_wide] : (wide c).toNat ≤ (wide p).toNat)
  exact ⟨toNat_low (hcounter.trans_lt hperiod), toNat_low hperiod⟩

theorem words_step (r : Word) (hmode : enamode ≠ 0) (hle : c.toNat ≤ p.toNat) :
    PeriodCounter.step (Setting.next ⟨enamode, p.toNat, rate, r.toNat, reloadRate⟩)
        ⟨rate, rate, c.toNat, p.toNat⟩ =
      ⟨0, reloaded (wide c) (wide p) enamode rate reloadRate,
        (low (advance (wide c) (wide p) (wide r) enamode).1).toNat,
        (low (advance (wide c) (wide p) (wide r) enamode).2.1).toNat⟩ := by
  obtain ⟨hcounter, hperiod⟩ := advance_words r hmode hle
  have hwide : (wide c).toNat ≤ (wide p).toNat := by rwa [toNat_wide, toNat_wide]
  have hstep := advance_step (wide r) rate reloadRate hmode hwide
  rw [toNat_wide, toNat_wide, toNat_wide] at hstep
  rw [hstep, hcounter, hperiod]

theorem words_next (r : Word) (hmode : enamode ≠ 0) (hle : c.toNat ≤ p.toNat) :
    Setting.next ⟨enamode, (low (advance (wide c) (wide p) (wide r) enamode).2.1).toNat,
        reloaded (wide c) (wide p) enamode rate reloadRate, r.toNat, reloadRate⟩ =
      Setting.next ⟨enamode, p.toNat, rate, r.toNat, reloadRate⟩ := by
  obtain ⟨-, hperiod⟩ := advance_words r hmode hle
  have hnext := advance_next (wide c) (wide p) (wide r) enamode rate reloadRate
  rw [toNat_wide, toNat_wide] at hnext
  rw [hperiod, hnext]

theorem words_fires (r : Word) (hmode : enamode ≠ 0) (hle : c.toNat ≤ p.toNat) :
    (advance (wide c) (wide p) (wide r) enamode).2.2 = true ↔
      PeriodCounter.Matches ⟨rate, rate, c.toNat, p.toNat⟩ := by
  have hwide : (wide c).toNat ≤ (wide p).toNat := by rwa [toNat_wide, toNat_wide]
  have hfires := advance_fires (wide r) rate hmode hwide
  rwa [toNat_wide, toNat_wide] at hfires

end Words

/-- A tick is a clock of the half's counter, and raises its output exactly when it matches. -/
structure Counts (s : Timer) (half : Half) (t : Timer) (fired : Word) : Prop where
  counter : t.counter half = (s.counter half).step (s.setting half).next
  next : (t.setting half).next = (s.setting half).next
  output : fired.getLsbD half.output = true ↔ (s.counter half).Matches

section Halves

variable {s : Timer}

theorem counting12_iff : s.counting .half12 = true ↔ s.mode ≠ 2 ∧ s.tgcr.getLsbD 0 = true ∧
    (s.mode = 1 ∨ s.tgcr.getLsbD 1 = true) ∧ s.inputClockKnown .half12 = true ∧ s.enamode12 ≠ 0 := by
  unfold Timer.counting
  simp only [Bool.and_eq_true, Bool.or_eq_true, decide_eq_true_iff, ne_eq, and_assoc]

theorem counting34_iff : s.counting .half34 = true ↔ s.mode = 1 ∧ s.counts34 = true := by
  unfold Timer.counting
  rw [Bool.and_eq_true, decide_eq_true_iff]

theorem counter12_dual (hmode : s.mode = 1) :
    s.counter .half12 = ⟨0, 0, s.tim12.toNat, s.prd12.toNat⟩ := if_pos hmode

theorem setting12_dual (hmode : s.mode = 1) :
    s.setting .half12 = ⟨s.enamode12, s.prd12.toNat, 0, s.rel12.toNat, 0⟩ := if_pos hmode

theorem reloaded_self (counter period : Long) (enamode rate : ℕ) :
    reloaded counter period enamode rate rate = rate := ite_self _

theorem dual12_output (fired : Bool) (t : Timer) (c : Prop) [Decidable c] :
    (raise fired outTint12 ||| if c then t.compareMatches else 0).getLsbD outTint12 = fired := by
  have hapart : (if c then t.compareMatches else 0).getLsbD outTint12 = false := by
    split_ifs with h
    · rw [Bool.eq_false_iff]
      intro hbit
      exact absurd (compareMatches_bit hbit).1 (by decide)
    · rfl
  rw [BitVec.getLsbD_or, hapart, Bool.or_false, raise_self _ (by decide)]

theorem counts_dual12 (hmode : s.mode = 1) (hruns : s.counting .half12 = true)
    (hrange : (s.counter .half12).InRange) : Counts s .half12 s.tickDual12.1 s.tickDual12.2 := by
  have hkept := kept_dual12 s
  have hsame := hkept.mode.trans hmode
  obtain ⟨-, hbit, -, hknown, hon⟩ := counting12_iff.mp hruns
  rw [counter12_dual hmode] at hrange
  have hle : s.tim12.toNat ≤ s.prd12.toNat := hrange.count
  have hstep := words_step 0 0 s.rel12 hon hle
  have hnext := words_next 0 0 s.rel12 hon hle
  rw [reloaded_self] at hstep hnext
  have hticks : s.tickDual12 = (s.advance12.1, raise s.advance12.2 outTint12 |||
      if s.advance12.1.tim12 ≠ s.tim12 then s.advance12.1.compareMatches else 0) :=
    if_pos ⟨hbit, hknown⟩
  refine ⟨?_, ?_, ?_⟩
  · rw [counter12_dual hmode, setting12_dual hmode, counter12_dual hsame, hstep, hticks]
    rfl
  · rw [setting12_dual hmode, setting12_dual hsame, hkept.enamode12, hkept.rel12, hticks]
    exact hnext
  · rw [counter12_dual hmode, hticks]
    have hout := dual12_output s.advance12.2 s.advance12.1 (s.advance12.1.tim12 ≠ s.tim12)
    exact (Bool.eq_iff_iff.mp hout).trans (words_fires 0 s.rel12 hon hle)

theorem dual34_fired (s : Timer) : s.tickDual34.2 =
    if s.counts34 then
      if s.tddr34 = s.psc34 then
        raise (advance (wide s.tim34) (wide s.prd34) (wide s.rel34) s.enamode34).2.2 outTint34
      else 0
    else 0 := by
  unfold Timer.tickDual34
  split_ifs
  · rfl
  · rfl
  · rfl

theorem dual12_frame (s : Timer) : s.tickDual12.1.counter .half34 = s.counter .half34 ∧
    s.tickDual12.1.setting .half34 = s.setting .half34 ∧ s.tickDual12.1.tickDual34.2 = s.tickDual34.2 := by
  have hcases : s.tickDual12.1 = s.advance12.1 ∨ s.tickDual12.1 = s := by
    unfold Timer.tickDual12
    split_ifs
    · exact .inl rfl
    · exact .inr rfl
  rw [dual34_fired, dual34_fired]
  rcases hcases with h | h
  · rw [h]
    exact ⟨rfl, rfl, rfl⟩
  · rw [h]
    exact ⟨rfl, rfl, rfl⟩

theorem dual34_frame (hmode : s.mode = 1) : s.tickDual34.1.counter .half12 = s.counter .half12 ∧
    s.tickDual34.1.setting .half12 = s.setting .half12 := by
  have hkept := kept_dual34 s
  have hsame := hkept.mode.trans hmode
  have hwords : s.tickDual34.1.tim12 = s.tim12 ∧ s.tickDual34.1.prd12 = s.prd12 := by
    unfold Timer.tickDual34
    split_ifs
    · exact ⟨rfl, rfl⟩
    · exact ⟨rfl, rfl⟩
    · exact ⟨rfl, rfl⟩
  rw [counter12_dual hmode, counter12_dual hsame, setting12_dual hmode, setting12_dual hsame,
    hwords.1, hwords.2, hkept.enamode12, hkept.rel12]
  exact ⟨rfl, rfl⟩

/-- The 3:4 half of dual unchained mode: TDDR34 makes the laps. -/
theorem counts_dual34 (hruns : s.counting .half34 = true) (hrange : (s.counter .half34).InRange) :
    Counts s .half34 s.tickDual34.1 s.tickDual34.2 := by
  have hkept := kept_dual34 s
  obtain ⟨hmode, hcounts⟩ := counting34_iff.mp hruns
  have hon : s.enamode34 ≠ 0 := by
    simp only [Timer.counts34, Bool.and_eq_true, decide_eq_true_iff, ne_eq] at hcounts
    exact hcounts.1.2
  have hlap : s.tddr34 ≤ s.psc34 := hrange.lap
  have hle : s.tim34.toNat ≤ s.prd34.toNat := hrange.count
  have hpsc : s.psc34 < 16 := Nat.mod_lt _ (by decide)
  by_cases hend : s.tddr34 = s.psc34
  · have hticks : s.tickDual34 = ({ s with tgcr := s.tgcr &&& ~~~0xf000#32 }.advance34.1,
        raise { s with tgcr := s.tgcr &&& ~~~0xf000#32 }.advance34.2 outTint34) := by
      unfold Timer.tickDual34
      rw [if_pos hcounts, if_pos hend]
    have hstep := words_step s.psc34 s.psc34 s.rel34 hon hle
    have hnext := words_next s.psc34 s.psc34 s.rel34 hon hle
    rw [reloaded_self] at hstep hnext
    have hcounter : s.counter .half34 = ⟨s.psc34, s.psc34, s.tim34.toNat, s.prd34.toNat⟩ := by
      unfold Timer.counter
      rw [hend]
    refine ⟨?_, ?_, ?_⟩
    · rw [hcounter, show s.setting .half34 = ⟨s.enamode34, s.prd34.toNat, s.psc34, s.rel34.toNat,
        s.psc34⟩ from rfl,
        hstep]
      have hcleared : s.tickDual34.1.tddr34 = 0 := by
        rw [hticks]
        exact count_cleared s.tgcr
      unfold Timer.counter
      rw [hcleared, hkept.psc34, hticks]
      rfl
    · unfold Timer.setting
      rw [hkept.enamode34, hkept.psc34, hkept.rel34, hticks]
      exact hnext
    · rw [hcounter, hticks]
      have hout := raise_self { s with tgcr := s.tgcr &&& ~~~0xf000#32 }.advance34.2 (show outTint34 < 32 by decide)
      exact (Bool.eq_iff_iff.mp hout).trans (words_fires s.psc34 s.rel34 hon hle)
  · have hticks : s.tickDual34 = ({ s with
        tgcr := (s.tgcr &&& ~~~0xf000#32) ||| BitVec.ofNat 32 (s.tddr34 + 1) <<< 12 }, 0) := by
      unfold Timer.tickDual34
      rw [if_pos hcounts, if_neg hend]
    have hcounted : s.tickDual34.1.tddr34 = s.tddr34 + 1 := by
      rw [hticks]
      exact count_counted s.tgcr (by omega)
    refine ⟨?_, ?_, ?_⟩
    · have hstep : (s.counter .half34).step (s.setting .half34).next =
          { s.counter .half34 with lap := s.tddr34 + 1 } := if_pos hend
      rw [hstep]
      unfold Timer.counter
      rw [hcounted, hkept.psc34, hticks]
    · unfold Timer.setting
      rw [hkept.enamode34, hkept.psc34, hkept.rel34, hticks]
    · rw [hticks]
      exact iff_of_false (by simp) fun h ↦ hend h.1

theorem wide_inj {v w : Word} : wide v = wide w ↔ v = w := by
  constructor
  · intro h
    have hnat := congrArg BitVec.toNat h
    rw [toNat_wide, toNat_wide] at hnat
    exact BitVec.eq_of_toNat_eq hnat
  · exact congrArg wide

theorem counter12_chained (hmode : s.mode = 3) :
    s.counter .half12 = ⟨s.tim34.toNat, s.prd34.toNat, s.tim12.toNat, s.prd12.toNat⟩ := by
  unfold Timer.counter
  rw [hmode]
  rfl

theorem setting12_chained (hmode : s.mode = 3) :
    s.setting .half12 = ⟨s.enamode12, s.prd12.toNat, s.prd34.toNat, s.rel12.toNat, s.rel34.toNat⟩ := by
  unfold Timer.setting
  rw [hmode]
  rfl

/-- Chained mode: TIM34 makes the laps, and a restart reloads both period registers. -/
theorem counts_chained (hmode : s.mode = 3) (hon : s.enamode12 ≠ 0) (hrange : (s.counter .half12).InRange) :
    Counts s .half12 s.tickChained.1 s.tickChained.2 := by
  have hkept := kept_chained s
  have hsame := hkept.mode.trans hmode
  rw [counter12_chained hmode] at hrange
  have hlap : s.tim34.toNat ≤ s.prd34.toNat := hrange.lap
  have hle : s.tim12.toNat ≤ s.prd12.toNat := hrange.count
  by_cases hend : s.tim34 = s.prd34
  · have hstep := words_step s.prd34.toNat s.rel34.toNat s.rel12 hon hle
    have hnext := words_next s.prd34.toNat s.rel34.toNat s.rel12 hon hle
    have hprd34 : s.tickChained.1.prd34.toNat =
        reloaded (wide s.tim12) (wide s.prd12) s.enamode12 s.prd34.toNat s.rel34.toNat := by
      have hzero : wide s.prd12 ≠ 0 ↔ s.prd12 ≠ 0 := (wide_inj (w := 0)).not
      unfold Timer.tickChained reloaded
      rw [if_pos hend]
      simp only [wide_inj, hzero]
      split_ifs
      · rfl
      · rfl
    have hwords : s.tickChained.1.tim34 = 0 ∧ s.tickChained.1.tim12 = { s with tim34 := 0 }.advance12.1.tim12 ∧
        s.tickChained.1.prd12 = { s with tim34 := 0 }.advance12.1.prd12 ∧
        s.tickChained.2 = raise { s with tim34 := 0 }.advance12.2 outTint12 := by
      unfold Timer.tickChained
      rw [if_pos hend]
      dsimp only
      split_ifs
      · exact ⟨rfl, rfl, rfl, rfl⟩
      · exact ⟨rfl, rfl, rfl, rfl⟩
    obtain ⟨htim34, htim12, hprd12, hfired⟩ := hwords
    have hfull : s.counter .half12 = ⟨s.prd34.toNat, s.prd34.toNat, s.tim12.toNat, s.prd12.toNat⟩ := by
      rw [counter12_chained hmode, hend]
    refine ⟨?_, ?_, ?_⟩
    · rw [hfull, setting12_chained hmode, hstep, counter12_chained hsame, htim34, hprd34, htim12, hprd12]
      rfl
    · rw [setting12_chained hmode, setting12_chained hsame, hkept.enamode12, hkept.rel12, hkept.rel34, hprd34,
        hprd12]
      exact hnext
    · rw [hfull, hfired]
      have hout := raise_self { s with tim34 := 0 }.advance12.2 (show outTint12 < 32 by decide)
      exact (Bool.eq_iff_iff.mp hout).trans (words_fires s.prd34.toNat s.rel12 hon hle)
  · have hne : s.tim34.toNat ≠ s.prd34.toNat := fun h ↦ hend (BitVec.eq_of_toNat_eq h)
    have hticks : s.tickChained = ({ s with tim34 := s.tim34 + 1 }, 0) := if_neg hend
    have hsucc : (s.tim34 + 1).toNat = s.tim34.toNat + 1 := by
      have hlt := s.prd34.isLt
      rw [BitVec.toNat_add]
      change (s.tim34.toNat + 1) % 2 ^ 32 = _
      omega
    refine ⟨?_, ?_, ?_⟩
    · rw [counter12_chained hmode, setting12_chained hmode, counter12_chained hsame, hticks]
      have hstep : PeriodCounter.step
          (Setting.next ⟨s.enamode12, s.prd12.toNat, s.prd34.toNat, s.rel12.toNat, s.rel34.toNat⟩)
          ⟨s.tim34.toNat, s.prd34.toNat, s.tim12.toNat, s.prd12.toNat⟩ =
          ⟨s.tim34.toNat + 1, s.prd34.toNat, s.tim12.toNat, s.prd12.toNat⟩ := if_pos hne
      rw [hstep, hsucc]
    · rw [setting12_chained hmode, setting12_chained hsame, hticks]
      rfl
    · rw [counter12_chained hmode, hticks]
      exact iff_of_false (by simp) fun h ↦ hne h.1

theorem counter12_wide (hmode : s.mode = 0) : s.counter .half12 =
    ⟨0, 0, (join s.tim34 s.tim12).toNat, (join s.prd34 s.prd12).toNat⟩ := by
  unfold Timer.counter
  rw [hmode]
  rfl

theorem setting12_wide (hmode : s.mode = 0) : s.setting .half12 =
    ⟨s.enamode12, (join s.prd34 s.prd12).toNat, 0, (join s.rel34 s.rel12).toNat, 0⟩ := by
  unfold Timer.setting
  rw [hmode]
  rfl

theorem counts_wide (hmode : s.mode = 0) (hon : s.enamode12 ≠ 0) (hrange : (s.counter .half12).InRange) :
    Counts s .half12 s.tickWide.1 s.tickWide.2 := by
  have hkept : Kept s s.tickWide.1 := ⟨rfl, rfl, rfl, rfl⟩
  have hsame := hkept.mode.trans hmode
  rw [counter12_wide hmode] at hrange
  have hle : (join s.tim34 s.tim12).toNat ≤ (join s.prd34 s.prd12).toNat := hrange.count
  have hstep := advance_step (join s.rel34 s.rel12) 0 0 hon hle
  have hnext := advance_next (join s.tim34 s.tim12) (join s.prd34 s.prd12) (join s.rel34 s.rel12) s.enamode12 0 0
  rw [reloaded_self] at hstep hnext
  have hcounter := join_high_low
    (advance (join s.tim34 s.tim12) (join s.prd34 s.prd12) (join s.rel34 s.rel12) s.enamode12).1
  have hperiod := join_high_low
    (advance (join s.tim34 s.tim12) (join s.prd34 s.prd12) (join s.rel34 s.rel12) s.enamode12).2.1
  refine ⟨?_, ?_, ?_⟩
  · rw [counter12_wide hmode, setting12_wide hmode, counter12_wide hsame, hstep, ← hcounter, ← hperiod]
    rfl
  · rw [setting12_wide hmode, setting12_wide hsame, ← hnext, ← hperiod]
    rfl
  · rw [counter12_wide hmode]
    have hout := raise_self
      (advance (join s.tim34 s.tim12) (join s.prd34 s.prd12) (join s.rel34 s.rel12) s.enamode12).2.2
      (show outTint12 < 32 by decide)
    exact (Bool.eq_iff_iff.mp hout).trans (advance_fires (join s.rel34 s.rel12) 0 hon hle)

theorem raise_apart (fired : Bool) {output k : ℕ} (hk : k < 32) (hne : k ≠ output) :
    (raise fired output).getLsbD k = false := by
  rw [raise_bit fired output k hk, decide_eq_false hne, Bool.and_false]

/-- The halves raise different outputs. -/
theorem dual34_quiet (s : Timer) : s.tickDual34.2.getLsbD outTint12 = false := by
  rw [dual34_fired]
  split_ifs
  · exact raise_apart _ (by decide) (by decide)
  · exact BitVec.getLsbD_zero
  · exact BitVec.getLsbD_zero

theorem dual12_quiet (s : Timer) : s.tickDual12.2.getLsbD outTint34 = false := by
  unfold Timer.tickDual12
  split_ifs
  · rw [Bool.eq_false_iff]
    intro hbit
    rw [BitVec.getLsbD_or, raise_apart _ (by decide) (by decide), Bool.false_or] at hbit
    split_ifs at hbit
    · exact absurd (compareMatches_bit hbit).1 (by decide)
    · exact absurd hbit (by decide)
  · exact BitVec.getLsbD_zero

theorem dual12_idle (hmode : s.mode = 1) (hruns : s.counting .half12 = false) :
    s.tickDual12.2.getLsbD outTint12 = false := by
  unfold Timer.tickDual12
  split_ifs with h
  · have hoff : s.enamode12 = 0 := by
      by_contra hon
      exact Bool.eq_false_iff.mp hruns (counting12_iff.mpr ⟨by omega, h.1, .inl hmode, h.2, hon⟩)
    have hfires : s.advance12.2 = false := by
      unfold Timer.advance12 advance
      rw [hoff]
      rfl
    exact (dual12_output s.advance12.2 s.advance12.1 _).trans hfires
  · exact BitVec.getLsbD_zero

theorem counts_tickOne {half : Half} (hruns : s.counting half = true) (hrange : (s.counter half).InRange) :
    Counts s half s.tickOne.1 s.tickOne.2 := by
  cases half with
  | half12 =>
    obtain ⟨hwatchdog, hbit, hother, hknown, hon⟩ := counting12_iff.mp hruns
    by_cases hdual : s.mode = 1
    · have hticks : s.tickOne = (s.tickDual12.1.tickDual34.1, s.tickDual12.2 ||| s.tickDual12.1.tickDual34.2) := by
        unfold Timer.tickOne
        rw [if_neg hwatchdog, if_pos hdual]
      have hfirst := counts_dual12 hdual hruns hrange
      have hframe := dual34_frame ((kept_dual12 s).mode.trans hdual)
      have hquiet := dual34_quiet s.tickDual12.1
      rw [hticks]
      refine ⟨hframe.1.trans hfirst.counter, (congrArg Setting.next hframe.2).trans hfirst.next, ?_⟩
      change (s.tickDual12.2 ||| s.tickDual12.1.tickDual34.2).getLsbD outTint12 = true ↔ _
      rw [BitVec.getLsbD_or, hquiet, Bool.or_false]
      exact hfirst.output
    · have hboth := hother.resolve_left hdual
      have hfree : ¬(¬(s.tgcr.getLsbD 0 = true ∧ s.tgcr.getLsbD 1 = true) ∨
          ¬s.inputClockKnown .half12 = true ∨ s.enamode12 = 0) := by
        rintro (h | h | h)
        · exact h ⟨hbit, hboth⟩
        · exact h hknown
        · exact hon h
      by_cases hchained : s.mode = 3
      · have hticks : s.tickOne = s.tickChained := by
          unfold Timer.tickOne
          rw [if_neg hwatchdog, if_neg hdual, if_neg hfree, if_pos hchained]
        rw [hticks]
        exact counts_chained hchained hon hrange
      · have hticks : s.tickOne = s.tickWide := by
          unfold Timer.tickOne
          rw [if_neg hwatchdog, if_neg hdual, if_neg hfree, if_neg hchained]
        have hwide : s.mode = 0 := by
          have hlt : s.mode < 4 := Nat.mod_lt _ (by decide)
          omega
        rw [hticks]
        exact counts_wide hwide hon hrange
  | half34 =>
    have hdual := (counting34_iff.mp hruns).1
    have hticks : s.tickOne = (s.tickDual12.1.tickDual34.1, s.tickDual12.2 ||| s.tickDual12.1.tickDual34.2) := by
      unfold Timer.tickOne
      rw [if_neg (by omega), if_pos hdual]
    obtain ⟨hcounter, hsetting, hfired⟩ := dual12_frame s
    have hafter := counts_dual34 (((kept_dual12 s).counting .half34).trans hruns) (by rwa [hcounter])
    have hquiet := dual12_quiet s
    rw [hticks]
    refine ⟨?_, ?_, ?_⟩
    · rw [← hcounter, ← hsetting]
      exact hafter.counter
    · rw [← hsetting]
      exact hafter.next
    · change (s.tickDual12.2 ||| s.tickDual12.1.tickDual34.2).getLsbD outTint34 = true ↔ _
      rw [BitVec.getLsbD_or, hquiet, Bool.false_or, ← hcounter]
      exact hafter.output

theorem idle_tickOne {half : Half} (hruns : s.counting half = false) :
    s.tickOne.2.getLsbD half.output = false := by
  unfold Timer.tickOne
  split_ifs with hwatchdog hdual hheld hchained
  · exact BitVec.getLsbD_zero
  · change (s.tickDual12.2 ||| s.tickDual12.1.tickDual34.2).getLsbD half.output = false
    rw [BitVec.getLsbD_or, Bool.or_eq_false_iff]
    cases half with
    | half12 => exact ⟨dual12_idle hdual hruns, dual34_quiet _⟩
    | half34 =>
      refine ⟨dual12_quiet s, ?_⟩
      have hoff : s.counts34 = false := by
        rw [Bool.eq_false_iff] at hruns ⊢
        exact fun hon ↦ hruns (counting34_iff.mpr ⟨hdual, hon⟩)
      rw [(dual12_frame s).2.2, dual34_fired, hoff]
      exact BitVec.getLsbD_zero
  · exact BitVec.getLsbD_zero
  · cases half with
    | half12 =>
      simp only [not_or, not_not] at hheld
      exact absurd (counting12_iff.mpr ⟨hwatchdog, hheld.1.1, .inr hheld.1.2, hheld.2⟩) (Bool.eq_false_iff.mp hruns)
    | half34 =>
      unfold Timer.tickChained
      split_ifs
      · exact raise_apart _ (by decide) (by decide)
      · exact BitVec.getLsbD_zero
  · cases half with
    | half12 =>
      simp only [not_or, not_not] at hheld
      exact absurd (counting12_iff.mpr ⟨hwatchdog, hheld.1.1, .inr hheld.1.2, hheld.2⟩) (Bool.eq_false_iff.mp hruns)
    | half34 => exact raise_apart _ (by decide) (by decide)

end Halves

section Ticks

variable {s : Timer}

theorem latch_frame (s : Timer) (fired : Word) (output status : ℕ) :
    ∃ w, (latch s fired output status).1 = { s with intctlstat := w } := by
  unfold latch
  split_ifs
  · exact ⟨_, rfl⟩
  · exact ⟨_, rfl⟩

theorem latch_status (s : Timer) (fired : Word) (output : ℕ) {status : ℕ} (hstatus : status < 32) (k : ℕ) :
    (latch s fired output status).1.intctlstat.getLsbD k =
      (s.intctlstat.getLsbD k || (decide (k = status) && fired.getLsbD output)) := by
  unfold latch
  split_ifs with hfired
  · simp only [BitVec.getLsbD_or, BitVec.getLsbD_twoPow, hfired, hstatus, decide_true, Bool.true_and, Bool.and_true,
      eq_comm (a := k)]
  · rw [Bool.not_eq_true] at hfired
    rw [hfired, Bool.and_false, Bool.or_false]

theorem latch_output (s : Timer) (fired : Word) {output status k : ℕ} (hk : k < 32) (hstatus : 0 < status) :
    (latch s fired output status).2.getLsbD k =
      (fired.getLsbD k && (!decide (k = output) || s.intctlstat.getLsbD (status - 1))) := by
  have hbelow : status - 1 ≠ status := by omega
  unfold latch
  split_ifs with hfired
  · have henable : (s.intctlstat ||| BitVec.twoPow 32 status).getLsbD (status - 1) =
      s.intctlstat.getLsbD (status - 1) := by
      rw [BitVec.getLsbD_or, BitVec.getLsbD_twoPow, decide_eq_false hbelow.symm, Bool.and_false, Bool.or_false]
    simp only [henable]
    cases s.intctlstat.getLsbD (status - 1) with
    | false =>
      rw [if_neg (by simp), BitVec.getLsbD_and, BitVec.getLsbD_not, BitVec.getLsbD_twoPow]
      by_cases hsame : k = output
      · subst hsame
        simp [hk]
      · simp [hk, hsame, Ne.symm hsame]
    | true => simp
  · rw [Bool.not_eq_true] at hfired
    by_cases hsame : k = output
    · subst hsame
      simp [hfired]
    · simp [hsame]

theorem tickOne_intctlstat (s : Timer) : s.tickOne.1.intctlstat = s.intctlstat := by
  have hdual12 : s.tickDual12.1.intctlstat = s.intctlstat := by
    unfold Timer.tickDual12
    split_ifs <;> rfl
  have hdual34 (t : Timer) : t.tickDual34.1.intctlstat = t.intctlstat := by
    unfold Timer.tickDual34
    split_ifs <;> rfl
  unfold Timer.tickOne
  split_ifs
  · rfl
  · exact (hdual34 _).trans hdual12
  · rfl
  · unfold Timer.tickChained
    dsimp only
    split_ifs <;> rfl
  · rfl

/-- The two period matches of a tick, latched in turn. -/
def latches (t : Timer) (fired : Word) : Timer × Word :=
  latch (latch t fired outTint12 1).1 (latch t fired outTint12 1).2 outTint34 17

theorem latches_half (t : Timer) (fired : Word) (half : Half) :
    (latches t fired).2.getLsbD half.output = (fired.getLsbD half.output && t.enabled half) ∧
      (latches t fired).1.intctlstat.getLsbD half.status =
        (t.intctlstat.getLsbD half.status || fired.getLsbD half.output) ∧
      (latches t fired).1.enabled half = t.enabled half := by
  have hone : 1 < 32 := by decide
  have hseventeen : 17 < 32 := by decide
  have hzero : 0 < 32 := by decide
  unfold latches Timer.enabled
  cases half with
  | half12 =>
    refine ⟨?_, ?_, ?_⟩
    · rw [latch_output _ _ (by exact hzero) (by decide), latch_output _ _ (by exact hzero) (by decide)]
      simp [Half.output, Half.status, outTint12, outTint34]
    · rw [latch_status _ _ _ hseventeen, latch_status _ _ _ hone]
      simp [Half.output, Half.status]
    · rw [latch_status _ _ _ hseventeen, latch_status _ _ _ hone]
      simp [Half.status]
  | half34 =>
    refine ⟨?_, ?_, ?_⟩
    · rw [latch_output _ _ (by exact hone) (by decide), latch_output _ _ (by exact hone) (by decide),
        latch_status _ _ _ hone]
      simp [Half.output, Half.status, outTint12, outTint34]
    · rw [latch_status _ _ _ hseventeen, latch_status _ _ _ hone, latch_output _ _ (by exact hone) (by decide)]
      simp [Half.output, Half.status, outTint12, outTint34]
    · rw [latch_status _ _ _ hseventeen, latch_status _ _ _ hone]
      simp [Half.status]

theorem tick_released (h : (s.tgcr.getLsbD 0 || s.tgcr.getLsbD 1) = true) :
    s.tick = latches s.tickOne.1 s.tickOne.2 := by
  have hfree : ¬(¬s.tgcr.getLsbD 0 = true ∧ ¬s.tgcr.getLsbD 1 = true) := by
    rw [Bool.or_eq_true] at h
    tauto
  unfold Timer.tick
  rw [if_neg hfree]
  rfl

theorem tick_held (h : (s.tgcr.getLsbD 0 || s.tgcr.getLsbD 1) = false) : s.tick = (s, 0) := by
  rw [Bool.or_eq_false_iff] at h
  unfold Timer.tick
  rw [if_pos (by simp only [h.1, h.2, Bool.false_eq_true, not_false_eq_true, and_self])]

theorem tick_half (s : Timer) (half : Half) :
    s.tick.2.getLsbD half.output = (s.matched half && s.enabled half) ∧
      s.tick.1.intctlstat.getLsbD half.status = (s.intctlstat.getLsbD half.status || s.matched half) ∧
      s.tick.1.enabled half = s.enabled half := by
  cases hrelease : s.tgcr.getLsbD 0 || s.tgcr.getLsbD 1 with
  | false =>
    unfold Timer.matched
    rw [tick_held hrelease, hrelease, Bool.false_and, Bool.false_and, Bool.or_false]
    exact ⟨BitVec.getLsbD_zero, rfl, rfl⟩
  | true =>
    have hkept := tickOne_intctlstat s
    have hboth := latches_half s.tickOne.1 s.tickOne.2 half
    unfold Timer.enabled at hboth ⊢
    unfold Timer.matched
    rw [hkept] at hboth
    rw [tick_released hrelease, hrelease, Bool.true_and]
    exact hboth

theorem tick_frame (h : (s.tgcr.getLsbD 0 || s.tgcr.getLsbD 1) = true) :
    ∃ w, s.tick.1 = { s.tickOne.1 with intctlstat := w } := by
  obtain ⟨v, hv⟩ := latch_frame s.tickOne.1 s.tickOne.2 outTint12 1
  obtain ⟨w, hw⟩ := latch_frame (latch s.tickOne.1 s.tickOne.2 outTint12 1).1
    (latch s.tickOne.1 s.tickOne.2 outTint12 1).2 outTint34 17
  rw [tick_released h]
  exact ⟨w, hw.trans (by rw [hv])⟩

theorem kept_tick (s : Timer) : Kept s s.tick.1 := by
  cases hrelease : s.tgcr.getLsbD 0 || s.tgcr.getLsbD 1 with
  | false =>
    rw [tick_held hrelease]
    exact .refl s
  | true =>
    obtain ⟨w, hw⟩ := tick_frame hrelease
    rw [hw]
    exact (kept_tickOne s).trans ⟨rfl, rfl, rfl, rfl⟩

theorem released_of_counting {half : Half} (hruns : s.counting half = true) :
    (s.tgcr.getLsbD 0 || s.tgcr.getLsbD 1) = true := by
  cases half with
  | half12 => rw [(counting12_iff.mp hruns).2.1, Bool.true_or]
  | half34 =>
    have hcounts := (counting34_iff.mp hruns).2
    unfold Timer.counts34 at hcounts
    rw [Bool.and_eq_true, Bool.and_eq_true] at hcounts
    rw [hcounts.1.1, Bool.or_true]

theorem counts_tick {half : Half} (hruns : s.counting half = true) (hrange : (s.counter half).InRange) :
    s.tick.1.counter half = (s.counter half).step (s.setting half).next ∧
      (s.tick.1.setting half).next = (s.setting half).next ∧
      (s.matched half = true ↔ (s.counter half).Matches) := by
  have hrelease := released_of_counting hruns
  obtain ⟨hcounter, hnext, houtput⟩ := counts_tickOne hruns hrange
  obtain ⟨w, hw⟩ := tick_frame hrelease
  have hsame : s.tick.1.counter half = s.tickOne.1.counter half ∧
      s.tick.1.setting half = s.tickOne.1.setting half := by
    rw [hw]
    cases half with
    | half12 => exact ⟨rfl, rfl⟩
    | half34 => exact ⟨rfl, rfl⟩
  refine ⟨hsame.1.trans hcounter, (congrArg Setting.next hsame.2).trans hnext, ?_⟩
  unfold Timer.matched
  rw [hrelease, Bool.true_and]
  exact houtput

theorem matched_of_idle {half : Half} (hruns : s.counting half = false) : s.matched half = false := by
  unfold Timer.matched
  rw [idle_tickOne hruns, Bool.and_false]

/-- The timer after `n` ticks. -/
def after (s : Timer) (n : ℕ) : Timer := (fun s : Timer ↦ s.tick.1)^[n] s

theorem after_succ (s : Timer) (n : ℕ) : after s (n + 1) = (after s n).tick.1 :=
  Function.iterate_succ_apply' _ n s

theorem kept_after (s : Timer) (n : ℕ) : Kept s (after s n) := by
  induction n with
  | zero => exact .refl s
  | succ n ih =>
    rw [after_succ]
    exact ih.trans (kept_tick _)

theorem counter_zeroed (zero : s.Zeroed) {half : Half} (hruns : s.counting half = true) :
    s.counter half = .fresh (s.setting half).rate (s.setting half).period := by
  obtain ⟨htim12, htim34, htddr34⟩ := zero
  cases half with
  | half12 =>
    by_cases hdual : s.mode = 1
    · rw [counter12_dual hdual, setting12_dual hdual, htim12]
      rfl
    by_cases hchained : s.mode = 3
    · rw [counter12_chained hchained, setting12_chained hchained, htim12, htim34]
      rfl
    · have hwide : s.mode = 0 := by
        have hlt : s.mode < 4 := Nat.mod_lt _ (by decide)
        have hwatchdog := (counting12_iff.mp hruns).1
        omega
      rw [counter12_wide hwide, setting12_wide hwide, htim12, htim34]
      rfl
  | half34 =>
    unfold Timer.counter
    rw [htddr34 (counting34_iff.mp hruns).1, htim34]
    rfl

theorem counter_after (zero : s.Zeroed) {half : Half} (hruns : s.counting half = true) (n : ℕ) :
    (after s n).counter half = (PeriodCounter.step (s.setting half).next)^[n]
        (.fresh (s.setting half).rate (s.setting half).period) ∧
      ((after s n).setting half).next = (s.setting half).next := by
  induction n with
  | zero => exact ⟨counter_zeroed zero hruns, rfl⟩
  | succ n ih =>
    obtain ⟨hcounter, hnext⟩ := ih
    have hstill := ((kept_after s n).counting half).trans hruns
    have hrange : ((after s n).counter half).InRange := by
      rw [hcounter]
      exact PeriodCounter.inRange_fresh.iterate n
    obtain ⟨hstep, hkeep, -⟩ := counts_tick hstill hrange
    rw [after_succ, hstep, hkeep, hnext, hcounter, Function.iterate_succ_apply']
    exact ⟨rfl, rfl⟩

theorem enamode_of_counting {half : Half} (hruns : s.counting half = true) :
    (s.setting half).enamode ≠ 0 ∧ (s.setting half).enamode < 4 := by
  cases half with
  | half12 =>
    have hmode : (s.setting .half12).enamode = s.enamode12 := by
      unfold Timer.setting
      dsimp only
      split_ifs <;> rfl
    rw [hmode]
    exact ⟨(counting12_iff.mp hruns).2.2.2.2, Nat.mod_lt _ (by decide)⟩
  | half34 =>
    have hcounts := (counting34_iff.mp hruns).2
    unfold Timer.counts34 at hcounts
    rw [Bool.and_eq_true, Bool.and_eq_true, decide_eq_true_iff] at hcounts
    exact ⟨hcounts.1.2, Nat.mod_lt _ (by decide)⟩

theorem matched_iff (zero : s.Zeroed) (half : Half) (n : ℕ) :
    (after s n).matched half = true ↔ s.Due half (n + 1) := by
  have hsame := (kept_after s n).counting half
  unfold Timer.Due
  cases hruns : s.counting half with
  | false =>
    rw [matched_of_idle (hsame.trans hruns)]
    exact iff_of_false (by decide) fun h ↦ absurd h.1 (by decide)
  | true =>
    obtain ⟨hcounter, -⟩ := counter_after zero hruns n
    obtain ⟨hon, hlt⟩ := enamode_of_counting hruns
    have hrange : ((after s n).counter half).InRange := by
      rw [hcounter]
      exact PeriodCounter.inRange_fresh.iterate n
    rw [(counts_tick (hsame.trans hruns) hrange).2.2, hcounter, matches_iff_due hon hlt]
    exact (and_iff_right rfl).symm

theorem enabled_after (s : Timer) (half : Half) (n : ℕ) : (after s n).enabled half = s.enabled half := by
  induction n with
  | zero => rfl
  | succ n ih =>
    rw [after_succ, (tick_half _ half).2.2]
    exact ih

/-- A status bit is set from the first match on. -/
theorem status_after (zero : s.Zeroed) (half : Half) (n : ℕ) :
    (after s n).intctlstat.getLsbD half.status = true ↔
      s.intctlstat.getLsbD half.status = true ∨ ∃ k, 0 < k ∧ k ≤ n ∧ s.Due half k := by
  induction n with
  | zero =>
    rw [or_iff_left (by rintro ⟨k, hk, hle, -⟩; omega)]
    rfl
  | succ n ih =>
    rw [after_succ, (tick_half _ half).2.1, Bool.or_eq_true, ih, matched_iff zero, or_assoc]
    refine or_congr_right ?_
    constructor
    · rintro (⟨k, hk, hle, hdue⟩ | hdue)
      · exact ⟨k, hk, hle.trans (Nat.le_succ n), hdue⟩
      · exact ⟨n + 1, Nat.succ_pos n, le_rfl, hdue⟩
    · rintro ⟨k, hk, hle, hdue⟩
      rcases Nat.le_succ_iff.mp hle with hle | rfl
      · exact .inl ⟨k, hk, hle, hdue⟩
      · exact .inr hdue

end Ticks

section Timers

variable {timers : Timers}

/-- Both timers after `n` calls of the tick. -/
def ticks (timers : Timers) (n : ℕ) : Timers := (fun timers ↦ (tick timers).1)^[n] timers

theorem ticks_apply (timers : Timers) (n : ℕ) (i : Fin 2) : ticks timers n i = after (timers i) n := by
  induction n with
  | zero => rfl
  | succ n ih =>
    have hsucc : ticks timers (n + 1) = (tick (ticks timers n)).1 := Function.iterate_succ_apply' _ n timers
    rw [hsucc, after_succ, ← ih]
    rfl

theorem tickOne_outputs {s : Timer} {k : ℕ} (hk : 10 ≤ k) : s.tickOne.2.getLsbD k = false := by
  by_cases hword : 32 ≤ k
  · exact BitVec.getLsbD_of_ge _ _ hword
  have hk32 : k < 32 := Nat.lt_of_not_le hword
  have htint12 : k ≠ outTint12 := by unfold outTint12; omega
  have htint34 : k ≠ outTint34 := by unfold outTint34; omega
  have hdual12 : s.tickDual12.2.getLsbD k = false := by
    unfold Timer.tickDual12
    split_ifs
    · rw [Bool.eq_false_iff]
      intro hbit
      rw [BitVec.getLsbD_or, raise_apart _ hk32 htint12, Bool.false_or] at hbit
      split_ifs at hbit
      · exact absurd (compareMatches_bit hbit).2 (Nat.not_lt.mpr hk)
      · exact absurd hbit (by simp)
    · exact BitVec.getLsbD_zero
  have hdual34 : s.tickDual34.2.getLsbD k = false := by
    rw [dual34_fired]
    split_ifs
    · exact raise_apart _ hk32 htint34
    · exact BitVec.getLsbD_zero
    · exact BitVec.getLsbD_zero
  unfold Timer.tickOne
  split_ifs
  · exact BitVec.getLsbD_zero
  · change (s.tickDual12.2 ||| s.tickDual12.1.tickDual34.2).getLsbD k = false
    rw [BitVec.getLsbD_or, hdual12, (dual12_frame s).2.2, hdual34, Bool.or_false]
  · exact BitVec.getLsbD_zero
  · unfold Timer.tickChained
    split_ifs
    · exact raise_apart _ hk32 htint12
    · exact BitVec.getLsbD_zero
  · exact raise_apart _ hk32 htint12

theorem tick_outputs {s : Timer} {k : ℕ} (hk : 10 ≤ k) (hword : k < 32) : s.tick.2.getLsbD k = false := by
  cases hrelease : s.tgcr.getLsbD 0 || s.tgcr.getLsbD 1 with
  | false =>
    rw [tick_held hrelease]
    exact BitVec.getLsbD_zero
  | true =>
    rw [tick_released hrelease]
    unfold latches
    rw [latch_output _ _ hword (by decide), latch_output _ _ hword (by decide), tickOne_outputs hk, Bool.false_and,
      Bool.false_and]

theorem tick_output (timers : Timers) (i : Fin 2) (half : Half) :
    (tick timers).2.getLsbD (outputs * i + half.output) = (timers i).tick.2.getLsbD half.output := by
  have hout : half.output < 10 := by
    cases half with
    | half12 => decide
    | half34 => decide
  unfold tick outputs
  rw [BitVec.getLsbD_or, BitVec.getLsbD_shiftLeft]
  match i with
  | 0 =>
    have hbelow : 10 * (0 : Fin 2).val + half.output = half.output := by simp
    rw [hbelow, decide_eq_true hout]
    simp
  | 1 =>
    have habove : 10 * (1 : Fin 2).val + half.output = 10 + half.output := rfl
    have hword : 10 + half.output < 32 := by omega
    rw [habove, tick_outputs (Nat.le_add_right 10 _) hword, decide_eq_true hword,
      decide_eq_false (Nat.not_lt.mpr (Nat.le_add_right 10 _)), Nat.add_sub_cancel_left]
    rfl

/-- From zero counters and without register accesses, a half matches in the clocks that its
setting says and in no other. Each match is reported if it is enabled, and sets its status bit. -/
theorem timer_periods (timers : Timers) (i : Fin 2) (half : Half) (zero : (timers i).Zeroed) (n : ℕ) :
    ((ticks timers n i).matched half = true ↔ (timers i).Due half (n + 1)) ∧
      ((tick (ticks timers n)).2.getLsbD (outputs * i + half.output) = true ↔
        (timers i).Due half (n + 1) ∧ (timers i).enabled half = true) ∧
      ((ticks timers n i).intctlstat.getLsbD half.status = true ↔
        (timers i).intctlstat.getLsbD half.status = true ∨ ∃ k, 0 < k ∧ k ≤ n ∧ (timers i).Due half k) := by
  have hmatched := matched_iff zero half n
  rw [ticks_apply]
  refine ⟨hmatched, ?_, status_after zero half n⟩
  rw [tick_output, ticks_apply, (tick_half _ half).1, Bool.and_eq_true, enabled_after, hmatched]

def chainedReload : Timers := fun _ ↦
  { Timer.zero with tgcr := 0xf, tcr := 0xc0, prd12 := 2, prd34 := 1, rel12 := 1, rel34 := 0 }

theorem timer_periods_chained : (ticks chainedReload 3 0).matched .half12 = true ∧
    (ticks chainedReload 6 0).matched .half12 = true ∧ (ticks chainedReload 8 0).matched .half12 = true := by
  have zero : (chainedReload 0).Zeroed := ⟨rfl, rfl, fun h ↦ absurd h (by decide)⟩
  have hruns : (chainedReload 0).counting .half12 = true := by decide
  refine ⟨(timer_periods chainedReload 0 .half12 zero 3).1.mpr ⟨hruns, by decide, .inl rfl⟩,
    (timer_periods chainedReload 0 .half12 zero 6).1.mpr ⟨hruns, by decide, .inr ⟨by decide, 0, rfl⟩⟩,
    (timer_periods chainedReload 0 .half12 zero 8).1.mpr ⟨hruns, by decide, .inr ⟨by decide, 1, rfl⟩⟩⟩

end Timers

end Cdj2000Emulator.Timer64.Periods
