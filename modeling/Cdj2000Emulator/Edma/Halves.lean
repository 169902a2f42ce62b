import Cdj2000Emulator.Edma.Model
import Mathlib.Tactic.IntervalCases

namespace Cdj2000Emulator.Edma.Halves

open Model

theorem low_toNat (w : Word) : (w &&& 0xffff#32).toNat = w.toNat % 2 ^ 16 := by
  have hmask : (0xffff#32).toNat = 2 ^ 16 - 1 := rfl
  rw [BitVec.toNat_and, hmask, Nat.and_two_pow_sub_one_eq_mod]

theorem high_toNat (w : Word) : (w >>> 16).toNat = w.toNat / 2 ^ 16 := by
  rw [BitVec.toNat_ushiftRight, Nat.shiftRight_eq_div_pow]

theorem testBit_high (i : ℕ) :
    Nat.testBit 0xffff0000 i = (decide (16 ≤ i) && decide (i < 32)) := by
  by_cases hi : i < 32
  · interval_cases i <;> decide
  · have hlt : 0xffff0000 < 2 ^ i :=
      Nat.lt_of_lt_of_le (by decide) (Nat.pow_le_pow_right (by decide) (Nat.le_of_not_lt hi))
    simp [Nat.testBit_lt_two_pow hlt, hi]

theorem high_half_toNat (w : Word) : (w &&& 0xffff0000#32).toNat = w.toNat / 2 ^ 16 * 2 ^ 16 := by
  have hmask : (0xffff0000#32).toNat = 0xffff0000 := rfl
  rw [BitVec.toNat_and, hmask]
  apply Nat.eq_of_testBit_eq
  intro i
  rw [Nat.testBit_and, testBit_high, Nat.testBit_mul_two_pow, Nat.testBit_div_two_pow]
  by_cases hlow : 16 ≤ i
  · rw [Nat.sub_add_cancel hlow]
    by_cases hi : i < 32
    · simp [hlow, hi]
    · have : w.toNat.testBit i = false := Nat.testBit_lt_two_pow
        (w.isLt.trans_le (Nat.pow_le_pow_right (by decide) (Nat.le_of_not_lt hi)))
      simp [this]
  · simp [hlow]

/-- A word from the low half of `lo` and the 16-bit value `hi`. -/
def pack (lo : Word) (hi : ℕ) : Word := (lo &&& 0xffff#32) ||| (BitVec.ofNat 32 hi <<< 16)

theorem pack_toNat (lo : Word) {hi : ℕ} (hhi : hi < 2 ^ 16) :
    (pack lo hi).toNat = hi * 2 ^ 16 + lo.toNat % 2 ^ 16 := by
  have hshift : (BitVec.ofNat 32 hi <<< 16).toNat = 2 ^ 16 * hi := by
    rw [BitVec.toNat_shiftLeft, BitVec.toNat_ofNat, Nat.shiftLeft_eq]
    omega
  rw [pack, BitVec.toNat_or, low_toNat, hshift, Nat.or_comm,
    ← Nat.two_pow_add_eq_or_of_lt (Nat.mod_lt _ (by decide)), Nat.mul_comm]

theorem low_pack (lo : Word) {hi : ℕ} (hhi : hi < 2 ^ 16) :
    (pack lo hi &&& 0xffff#32).toNat = lo.toNat % 2 ^ 16 := by
  rw [low_toNat, pack_toNat lo hhi]
  omega

theorem high_pack (lo : Word) {hi : ℕ} (hhi : hi < 2 ^ 16) : (pack lo hi >>> 16).toNat = hi := by
  rw [high_toNat, pack_toNat lo hhi]
  omega

theorem pack_high (w : Word) : pack w (w >>> 16).toNat = w := by
  have hw := w.isLt
  apply BitVec.eq_of_toNat_eq
  rw [pack_toNat w (by rw [high_toNat]; omega), high_toNat]
  omega

/-- The low half of one word under the high half of another. -/
theorem pack_other (lo w : Word) : (lo &&& 0xffff#32) ||| (w &&& 0xffff0000#32) = pack lo (w >>> 16).toNat := by
  have hw := w.isLt
  have hhigh : w &&& 0xffff0000#32 = BitVec.ofNat 32 (w >>> 16).toNat <<< 16 := by
    apply BitVec.eq_of_toNat_eq
    rw [high_half_toNat, BitVec.toNat_shiftLeft, BitVec.toNat_ofNat, Nat.shiftLeft_eq, high_toNat]
    omega
  rw [hhigh, pack]

theorem pack_repack (lo : Word) {hi : ℕ} (hhi : hi < 2 ^ 16) {n : ℕ} (hn : n < 2 ^ 16) :
    pack (pack lo hi) n = pack lo n := by
  apply BitVec.eq_of_toNat_eq
  rw [pack_toNat _ hn, pack_toNat _ hn, pack_toNat _ hhi]
  omega

theorem ofNat_low {w : Word} (h : w &&& 0xffff0000#32 = 0) : BitVec.ofNat 32 (w &&& 0xffff#32).toNat = w := by
  have hw := w.isLt
  have hzero : w.toNat / 2 ^ 16 * 2 ^ 16 = 0 := by rw [← high_half_toNat, h]; rfl
  apply BitVec.eq_of_toNat_eq
  rw [BitVec.toNat_ofNat, low_toNat]
  omega

theorem low_ofNat {n : ℕ} (hn : n < 2 ^ 16) : (BitVec.ofNat 32 n &&& 0xffff#32).toNat = n := by
  rw [low_toNat, BitVec.toNat_ofNat]
  omega

theorem high_half_ofNat {n : ℕ} (hn : n < 2 ^ 16) : BitVec.ofNat 32 n &&& 0xffff0000#32 = 0 := by
  apply BitVec.eq_of_toNat_eq
  rw [high_half_toNat, BitVec.toNat_ofNat]
  change _ = 0
  omega

section Counts

variable (p : ParamSet)

theorem bcnt_lt : bcnt p < 2 ^ 16 := by
  have hw := (p 2).isLt
  rw [bcnt, high_toNat]
  omega

theorem ccnt_lt : ccnt p < 2 ^ 16 := by
  rw [ccnt, low_toNat]
  omega

end Counts

end Cdj2000Emulator.Edma.Halves
