import Mathlib.Algebra.Order.Ring.Int
import Mathlib.Tactic.Common
import Cdj2000Emulator.Dsp.Model

namespace Cdj2000Emulator.Dsp.Report

open Model

variable {now : ℤ}

theorem effectiveRate_range {rate : ℤ} (h : 0 ≤ rate) (valid : Bool) :
    0 ≤ effectiveRate rate valid ∧ effectiveRate rate valid ≤ 0x300000 := by
  unfold effectiveRate
  split_ifs <;> omega

theorem rateWord_nonneg (w : Window) : 0 ≤ rateWord w := by
  unfold rateWord
  omega

theorem int64_of_range {x : ℤ} (h : 0 ≤ x) (h' : x < 2 ^ 63) : int64 x = x := by
  rw [int64, Int.bmod_def]
  split_ifs <;> omega

/-- Where no time has passed, a report moves nothing. -/
theorem advance_now {rate : ℤ} {k : Deck} (hlast : k.posLastNs = now)
    (hrem : -scaleMs < k.posRemNs ∧ k.posRemNs < scaleMs) :
    (advance now rate k).posMs = k.posMs := by
  unfold advance
  dsimp only
  rw [hlast, Int.sub_self, Int.zero_mul, int64_of_range (by omega) (by omega)]
  have hzero : (0 / 2 ^ 20 + k.posRemNs).tdiv scaleMs = 0 := by
    rw [Int.zero_ediv, Int.zero_add]
    unfold scaleMs at hrem ⊢
    obtain h | h := Int.le_total 0 k.posRemNs
    · exact Int.tdiv_eq_zero_of_lt h hrem.2
    · rw [← Int.neg_neg k.posRemNs, Int.neg_tdiv, Int.tdiv_eq_zero_of_lt (by omega) (by omega)]
      rfl
  rw [hzero, Int.add_zero]

/-- A report leaves less than a millisecond to carry over. -/
theorem advance_remainder (rate : ℤ) (k : Deck) :
    -scaleMs < (advance now rate k).posRemNs ∧ (advance now rate k).posRemNs < scaleMs := by
  unfold advance scaleMs
  dsimp only
  generalize int64 _ / 2 ^ 20 + k.posRemNs = x
  have h1 := Int.tmod_lt_of_pos x (show (0 : ℤ) < 1000000 by decide)
  have h2 := Int.lt_tmod_of_pos x (show (0 : ℤ) < 1000000 by decide)
  exact ⟨h2, h1⟩

/-- The audio time from a deck's last report to `now`, with what was carried over. -/
def playedNs (now rate : ℤ) (k : Deck) : ℤ :=
  (now - k.posLastNs) * effectiveRate rate (k.rateValidSeen || decide
    (0x20000 ≤ rate ∧ rate ≤ 0x300000)) / 2 ^ 20 +
    k.posRemNs

/-- A report moves a playing deck forward by its audio time, no more than its clock can hold. -/
theorem advance_posMs {rate : ℤ} {k : Deck} (hrate : 0 ≤ rate)
    (helapsed : 0 ≤ now - k.posLastNs ∧ (now - k.posLastNs) * 0x300000 < 2 ^ 63)
    (hrem : 0 ≤ k.posRemNs ∧ k.posRemNs < scaleMs) :
    (advance now rate k).posMs = k.posMs + playedNs now rate k / scaleMs ∧
      0 ≤ playedNs now rate k ∧ playedNs now rate k < 2 ^ 24 * scaleMs := by
  unfold advance playedNs
  dsimp only
  generalize (k.rateValidSeen || decide (0x20000 ≤ rate ∧ rate ≤ 0x300000)) = valid
  obtain ⟨h0, h1⟩ := effectiveRate_range hrate valid
  have hproduct : 0 ≤ (now - k.posLastNs) * effectiveRate rate valid :=
    Int.mul_nonneg helapsed.1 h0
  have hbound : (now - k.posLastNs) * effectiveRate rate valid < 2 ^ 63 :=
    lt_of_le_of_lt (Int.mul_le_mul_of_nonneg_left h1 helapsed.1) helapsed.2
  rw [int64_of_range hproduct hbound]
  unfold scaleMs at hrem ⊢
  rw [Int.tdiv_eq_ediv_of_nonneg (by omega)]
  omega

theorem wrap_range {k : Deck} (h : 0 ≤ k.posMs) (hin : 0 ≤ k.loopInMs) :
    0 ≤ (wrap k).posMs ∧ (wrap k).posMs ≤ k.posMs := by
  unfold wrap
  by_cases hw : k.loopOn ∧ k.loopInMs < k.loopOutMs ∧ k.loopOutMs ≤ k.posMs
  · rw [if_pos hw]
    have hdiff : 0 ≤ k.posMs - k.loopInMs := by omega
    have h1 := Int.tmod_nonneg (k.loopOutMs - k.loopInMs) hdiff
    have h2 := Int.tmod_eq_emod_of_nonneg (b := k.loopOutMs - k.loopInMs) hdiff
    have h3 := Int.emod_lt_of_pos (k.posMs - k.loopInMs)
      (show 0 < k.loopOutMs - k.loopInMs by omega)
    dsimp only
    omega
  · rw [if_neg hw]
    omega

/-- A loop turns back to before its end. -/
theorem wrap_lt {k : Deck}
    (hw : k.loopOn ∧ k.loopInMs < k.loopOutMs ∧ k.loopOutMs ≤ k.posMs) :
    (wrap k).posMs < k.posMs := by
  unfold wrap
  rw [if_pos hw]
  have hdiff : 0 ≤ k.posMs - k.loopInMs := by omega
  have h2 := Int.tmod_eq_emod_of_nonneg (b := k.loopOutMs - k.loopInMs) hdiff
  have h3 := Int.emod_lt_of_pos (k.posMs - k.loopInMs)
    (show 0 < k.loopOutMs - k.loopInMs by omega)
  dsimp only
  omega

end Cdj2000Emulator.Dsp.Report
