import Cdj2000Emulator.Library.Rounding
import Mathlib.Data.Nat.Bitwise
import Mathlib.Data.Nat.Cast.Field

namespace Cdj2000Emulator.Library.Sticky

open Rounding

/-- `q` lies to every multiple of `d` as `s` does. -/
def Agree (d q : ℤ) (s : ℚ) : Prop := ∀ k : ℤ, d ∣ k → (q < k ↔ s < k) ∧ (k < q ↔ (k : ℚ) < s)

section Agree

variable {d d' q a k : ℤ} {s : ℚ}

theorem Agree.refl (d q : ℤ) : Agree d q q := fun k _ ↦ ⟨by norm_cast, by norm_cast⟩

theorem Agree.mono (h : Agree d q s) (hd : d ∣ d') : Agree d' q s := fun k hk ↦ h k (hd.trans hk)

theorem Agree.add (h : Agree d q s) (ha : d ∣ a) : Agree d (a + q) (a + s) := by
  intro k hk
  obtain ⟨hlt, hgt⟩ := h (k - a) (dvd_sub hk ha)
  push_cast at hlt hgt
  constructor
  · rw [← lt_sub_iff_add_lt', hlt, lt_sub_iff_add_lt']
  · rw [← sub_lt_iff_lt_add', hgt, sub_lt_iff_lt_add']

theorem Agree.neg (h : Agree d q s) : Agree d (-q) (-s) := by
  intro k hk
  obtain ⟨hlt, hgt⟩ := h (-k) (dvd_neg.mpr hk)
  push_cast at hlt hgt
  constructor
  · rw [neg_lt, hgt, neg_lt]
  · rw [lt_neg, hlt, lt_neg]

theorem Agree.sub (h : Agree d q s) (ha : d ∣ a) : Agree d (a - q) (a - s) := by
  rw [sub_eq_add_neg, sub_eq_add_neg]
  exact h.neg.add ha

/-- Twice the number, to twice the multiples. -/
theorem Agree.double (h : Agree d q s) : Agree (d * 2) (q * 2) (s * 2) := by
  rintro - ⟨k, rfl⟩
  obtain ⟨hlt, hgt⟩ := h (d * k) (dvd_mul_right d k)
  push_cast at hlt hgt ⊢
  constructor
  · rw [mul_right_comm, mul_lt_mul_iff_of_pos_right two_pos, hlt, mul_right_comm (d : ℚ),
      mul_lt_mul_iff_of_pos_right two_pos]
  · rw [mul_right_comm, mul_lt_mul_iff_of_pos_right two_pos, hgt, mul_right_comm (d : ℚ),
      mul_lt_mul_iff_of_pos_right two_pos]

theorem Agree.doubles (h : Agree d q s) (c : ℕ) : Agree (d * 2 ^ c) (q * 2 ^ c) (s * 2 ^ c) := by
  induction c with
  | zero => simpa using h
  | succ c ih =>
    rw [pow_succ, pow_succ, ← mul_assoc, ← mul_assoc, ← mul_assoc]
    exact ih.double

theorem Agree.eq_iff (h : Agree d q s) (hk : d ∣ k) : q = k ↔ s = k := by
  obtain ⟨hlt, hgt⟩ := h k hk
  rw [eq_iff_le_not_lt, eq_iff_le_not_lt, hlt, ← not_lt, hgt, not_lt]

theorem Agree.le_iff (h : Agree d q s) (hk : d ∣ k) : k ≤ q ↔ (k : ℚ) ≤ s := by
  rw [← not_lt, (h k hk).1, not_lt]

end Agree

def jam (v c : ℕ) : ℕ := v / 2 ^ c ||| if v % 2 ^ c ≠ 0 then 1 else 0

theorem or_one (n : ℕ) : n ||| 1 = 2 * (n / 2) + 1 := by
  have hmod : (n ||| 1) % 2 = 1 := Nat.or_mod_two_eq_one.mpr (.inr rfl)
  have hdiv : (n ||| 1) / 2 = n / 2 ||| 1 / 2 := Nat.or_div_two
  rw [show 1 / 2 = 0 from rfl, Nat.or_zero] at hdiv
  omega

theorem jam_exact {v c : ℕ} (h : 2 ^ c ∣ v) : jam v c = v / 2 ^ c := by
  unfold jam
  rw [Nat.mod_eq_zero_of_dvd h, if_neg (not_not.mpr rfl), Nat.or_zero]

theorem jam_inexact {v c : ℕ} (h : v % 2 ^ c ≠ 0) : jam v c = 2 * (v / 2 ^ c / 2) + 1 := by
  unfold jam
  rw [if_pos h, or_one]

theorem le_jam (v c : ℕ) : v / 2 ^ c ≤ jam v c := Nat.left_le_or

theorem jam_lt {v c m : ℕ} (hm : m ≠ 0) (h : v / 2 ^ c < 2 ^ m) : jam v c < 2 ^ m := by
  refine Nat.or_lt_two_pow h ?_
  have hone : 1 < 2 ^ m := Nat.one_lt_two_pow hm
  split_ifs
  · exact hone
  · omega

/-- Between two whole numbers, the odd one stands for what is between them. -/
theorem agree_odd {f : ℤ} {s : ℚ} (hlow : (f : ℚ) < s) (hhigh : s < f + 1) : Agree 2 (2 * (f / 2) + 1) s := by
  rintro - ⟨k, rfl⟩
  have hbelow : s < (2 * k : ℤ) ↔ f + 1 ≤ 2 * k := by
    refine ⟨fun h ↦ ?_, fun h ↦ hhigh.trans_le (by exact_mod_cast h)⟩
    exact Int.add_one_le_of_lt (Int.cast_lt.mp (hlow.trans h))
  have habove : ((2 * k : ℤ) : ℚ) < s ↔ 2 * k ≤ f := by
    refine ⟨fun h ↦ ?_, fun h ↦ lt_of_le_of_lt (by exact_mod_cast h) hlow⟩
    have hlt : 2 * k < f + 1 := by exact_mod_cast h.trans hhigh
    omega
  rw [hbelow, habove]
  constructor
  · omega
  · omega

theorem agree_jam (v c : ℕ) : Agree 2 (jam v c : ℕ) (v / 2 ^ c) := by
  have hpos : (0 : ℚ) < 2 ^ c := by positivity
  have hsplit : (v : ℚ) = (v / 2 ^ c : ℕ) * 2 ^ c + (v % 2 ^ c : ℕ) := by
    exact_mod_cast (Nat.div_add_mod' v (2 ^ c)).symm
  by_cases hexact : v % 2 ^ c = 0
  · rw [jam_exact (Nat.dvd_of_mod_eq_zero hexact)]
    have hvalue : (v : ℚ) / 2 ^ c = ((v / 2 ^ c : ℕ) : ℤ) := by
      rw [div_eq_iff hpos.ne', hsplit, hexact, Int.cast_natCast, Nat.cast_zero, add_zero]
    rw [hvalue]
    exact .refl 2 _
  · have hodd : ((jam v c : ℕ) : ℤ) = 2 * (((v / 2 ^ c : ℕ) : ℤ) / 2) + 1 := by
      rw [jam_inexact hexact]
      push_cast
      rfl
    rw [hodd]
    refine agree_odd ?_ ?_
    · rw [lt_div_iff₀ hpos, hsplit, Int.cast_natCast]
      have hrem : (0 : ℚ) < (v % 2 ^ c : ℕ) := by exact_mod_cast Nat.pos_of_ne_zero hexact
      exact lt_add_of_pos_right _ hrem
    · rw [div_lt_iff₀ hpos, hsplit, Int.cast_natCast, add_mul, one_mul]
      have hrem : ((v % 2 ^ c : ℕ) : ℚ) < 2 ^ c := by exact_mod_cast Nat.mod_lt v (by positivity)
      exact add_lt_add_right hrem _

/-- One more bit lost of a number that stands for another. -/
theorem Agree.jam_one {q : ℕ} {s : ℚ} (h : Agree 4 q s) : Agree 2 (jam q 1 : ℕ) (s / 2) := by
  rintro - ⟨k, rfl⟩
  obtain ⟨hlt, hgt⟩ := agree_jam q 1 (2 * k) (dvd_mul_right 2 k)
  obtain ⟨hlt', hgt'⟩ := h (4 * k) (dvd_mul_right 4 k)
  have hdouble : ((2 * k : ℤ) : ℚ) * 2 = (4 * k : ℤ) := by
    push_cast
    ring
  rw [pow_one, div_lt_iff₀ two_pos, hdouble] at hlt
  rw [pow_one, lt_div_iff₀ two_pos, hdouble] at hgt
  constructor
  · rw [hlt, div_lt_iff₀ two_pos, hdouble, ← hlt']
    exact_mod_cast Iff.rfl
  · rw [hgt, lt_div_iff₀ two_pos, hdouble, ← hgt']
    exact_mod_cast Iff.rfl

/-- The whole part `n` of `t`, and the remainder `rem` that says where beside the half `t` is. -/
structure Split (n rem half : ℕ) (t : ℚ) : Prop where
  low : (n : ℚ) ≤ t
  high : t < n + 1
  above : half < rem ↔ (n : ℚ) + 1 / 2 < t
  tie : rem = half ↔ t = n + 1 / 2
  exact : rem = 0 ↔ t = n

theorem Agree.split {q half : ℕ} {s : ℚ} (hpos : 0 < half) (h : Agree half q s) :
    Split (q / (2 * half)) (q % (2 * half)) half (s / (2 * half)) := by
  have hmod := Nat.div_add_mod q (2 * half)
  have hrem := Nat.mod_lt q (show 0 < 2 * half by omega)
  set n := q / (2 * half)
  set rem := q % (2 * half)
  have hscale : (0 : ℚ) < 2 * half := by positivity
  have hat (i : ℕ) : (((n * 2 + i) * half : ℕ) : ℚ) / (2 * half) = n + i / 2 := by
    have hne : (half : ℚ) ≠ 0 := by positivity
    push_cast
    field_simp
  have hmultiple (i : ℕ) : (half : ℤ) ∣ ((n * 2 + i) * half : ℕ) := by
    push_cast
    exact dvd_mul_left _ _
  have hle (i : ℕ) : (n : ℚ) + i / 2 ≤ s / (2 * half) ↔ (n * 2 + i) * half ≤ q := by
    rw [← hat, div_le_div_iff_of_pos_right hscale]
    exact_mod_cast (h.le_iff (hmultiple i)).symm
  have heq (i : ℕ) : s / (2 * half) = n + i / 2 ↔ q = (n * 2 + i) * half := by
    rw [← hat, div_left_inj' hscale.ne']
    exact_mod_cast (h.eq_iff (hmultiple i)).symm
  have hlow := hle 0
  have hhigh := hle 2
  have hhalf := hle 1
  have hexact := heq 0
  have htie := heq 1
  have hgrid (i : ℕ) : (n * 2 + i) * half = 2 * half * n + i * half := by ring
  rw [hgrid] at hlow hhigh hhalf hexact htie
  norm_num at hlow hhigh hhalf hexact htie
  refine ⟨hlow.mpr (by omega), ?_, ?_, ?_, ?_⟩
  · rw [← not_le, hhigh]
    omega
  · rw [lt_iff_le_and_ne (a := (n : ℚ) + 1 / 2), hhalf, ne_comm, Ne, htie]
    omega
  · rw [htie]
    omega
  · rw [hexact]
    omega

theorem split_shift (v : ℕ) {shift : ℕ} (h : 1 ≤ shift) :
    Split (v / 2 ^ shift) (v % 2 ^ shift) (2 ^ (shift - 1)) (v / 2 ^ shift) := by
  have hdouble : 2 * 2 ^ (shift - 1) = 2 ^ shift := by rw [← pow_succ', Nat.sub_add_cancel h]
  have hcast : (2 : ℚ) * (2 ^ (shift - 1) : ℕ) = 2 ^ shift := by exact_mod_cast hdouble
  have hsplit := (Agree.refl ((2 ^ (shift - 1) : ℕ) : ℤ) (v : ℤ)).split (Nat.two_pow_pos _)
  rwa [hdouble, hcast, Int.cast_natCast] at hsplit

end Cdj2000Emulator.Library.Sticky
