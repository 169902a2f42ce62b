import Mathlib.Algebra.Order.Field.Power
import Mathlib.Algebra.Order.Ring.Rat
import Mathlib.Tactic.FieldSimp
import Mathlib.Tactic.Linarith
import Mathlib.Tactic.Positivity
import Mathlib.Tactic.Push
import Mathlib.Tactic.Ring

namespace Cdj2000Emulator.Library.Rounding

/-- The directions in which a number is rounded. -/
inductive Mode
  | nearestEven
  | towardZero
  | upward
  | downward
  deriving DecidableEq

/-- A number of at most `p` significant bits, of any exponent. -/
def Precise (p : ℕ) (x : ℚ) : Prop := ∃ m e : ℤ, |m| < 2 ^ p ∧ x = m * 2 ^ e

/-- Written with `p` significant bits, it ends in a zero. -/
def EndsEven (p : ℕ) (x : ℚ) : Prop := ∃ m e : ℤ, 2 ^ (p - 1) ≤ |m| ∧ |m| < 2 ^ p ∧
    Even m ∧ x = m * 2 ^ e

/-- `r` is `x` rounded to one of the numbers `S`, on a tie to an `even` one. -/
def RoundedTo (S even : ℚ → Prop) (mode : Mode) (x r : ℚ) : Prop :=
  S r ∧
    match mode with
    | .nearestEven => (∀ y, S y → |x - r| ≤ |x - y|) ∧ ∀ y, S y → |x - y| = |x - r| → y ≠ r → even r
    | .towardZero => 0 ≤ r * x ∧ |r| ≤ |x| ∧ ∀ y, S y → |y| ≤ |x| → |y| ≤ |r|
    | .upward => x ≤ r ∧ ∀ y, S y → x ≤ y → r ≤ y
    | .downward => r ≤ x ∧ ∀ y, S y → y ≤ x → y ≤ r

/-- `r` is `x` rounded to `p` significant bits. -/
def Rounded (p : ℕ) : Mode → ℚ → ℚ → Prop := RoundedTo (Precise p) (EndsEven p)

/-- `k` is `x` rounded to a whole number. -/
def RoundedInteger (mode : Mode) (x : ℚ) (k : ℤ) : Prop :=
  RoundedTo (fun y ↦ ∃ m : ℤ, y = m) (fun y ↦ ∃ m : ℤ, Even m ∧ y = m) mode x k

section Precise

variable {p n : ℕ} {e : ℤ} {x y : ℚ}

theorem Precise.neg (h : Precise p x) : Precise p (-x) := by
  obtain ⟨m, e, hm, rfl⟩ := h
  exact ⟨-m, e, by rwa [abs_neg], by push_cast; ring⟩

theorem EndsEven.neg (h : EndsEven p x) : EndsEven p (-x) := by
  obtain ⟨m, e, hlow, hm, heven, rfl⟩ := h
  exact ⟨-m, e, by rwa [abs_neg], by rwa [abs_neg], heven.neg, by push_cast; ring⟩

theorem precise_nat (h : n < 2 ^ p) (e : ℤ) : Precise p (n * 2 ^ e) := by
  refine ⟨n, e, ?_, by push_cast; ring⟩
  rw [abs_of_nonneg (Int.natCast_nonneg n)]
  exact_mod_cast h

/-- A number that just exceeds `p` bits is a power of two. -/
theorem precise_carry (hp : 1 ≤ p) (h : n ≤ 2 ^ p) (e : ℤ) : Precise p (n * 2 ^ e) := by
  rcases h.lt_or_eq with hlt | rfl
  · exact precise_nat hlt e
  · refine ⟨2 ^ (p - 1), e + 1, ?_, ?_⟩
    · rw [abs_of_pos (by positivity)]
      exact pow_lt_pow_right₀ (by norm_num) (by omega)
    · obtain ⟨k, rfl⟩ := Nat.exists_eq_add_of_le' hp
      rw [Nat.add_sub_cancel, zpow_add_one₀ (by norm_num)]
      push_cast
      ring

theorem endsEven_carry (hp : 2 ≤ p) (hlow : 2 ^ (p - 1) ≤ n) (h : n ≤ 2 ^ p) (heven : Even n) (e : ℤ) :
    EndsEven p (n * 2 ^ e) := by
  rcases h.lt_or_eq with hlt | rfl
  · refine ⟨n, e, ?_, ?_, by exact_mod_cast heven, by push_cast; ring⟩
    · rw [abs_of_nonneg (Int.natCast_nonneg n)]
      exact_mod_cast hlow
    · rw [abs_of_nonneg (Int.natCast_nonneg n)]
      exact_mod_cast hlt
  · obtain ⟨k, rfl⟩ := Nat.exists_eq_add_of_le' hp
    refine ⟨2 ^ (k + 1), e + 1, ?_, ?_, ?_, ?_⟩
    · rw [abs_of_pos (by positivity)]
      exact le_rfl
    · rw [abs_of_pos (by positivity)]
      exact pow_lt_pow_right₀ (by norm_num) (by omega)
    · exact ⟨2 ^ k, by ring⟩
    · rw [zpow_add_one₀ (by norm_num)]
      push_cast
      ring

theorem outside_of_precise (h : Precise p y) (hlow : 2 ^ (p - 1) ≤ n) (hp : 1 ≤ p) (e : ℤ) :
    |y| ≤ n * 2 ^ e ∨ ((n : ℚ) + 1) * 2 ^ e ≤ |y| := by
  obtain ⟨m, f, hm, rfl⟩ := h
  have hf : (0 : ℚ) < 2 ^ f := by positivity
  have habs : |(m : ℚ) * 2 ^ f| = m.natAbs * 2 ^ f := by
    rw [abs_mul, abs_of_pos hf, ← Int.cast_abs, Int.abs_eq_natAbs, Int.cast_natCast]
  rw [habs]
  rcases le_total e f with hle | hle
  · obtain ⟨k, rfl⟩ := Int.le.dest hle
    have hgrid : (m.natAbs : ℚ) * 2 ^ (e + k) = (m.natAbs * 2 ^ k : ℕ) * 2 ^ e := by
      rw [zpow_add₀ (by norm_num), zpow_natCast]
      push_cast
      ring
    have he : (0 : ℚ) < 2 ^ e := by positivity
    rw [hgrid]
    rcases le_or_gt (m.natAbs * 2 ^ k) n with hsmall | hlarge
    · exact .inl (mul_le_mul_of_nonneg_right (by exact_mod_cast hsmall) he.le)
    · exact .inr (mul_le_mul_of_nonneg_right (by exact_mod_cast hlarge) he.le)
  · obtain ⟨k, rfl⟩ := Int.le.dest hle
    have hgrid : (n : ℚ) * 2 ^ (f + k) = (n * 2 ^ k : ℕ) * 2 ^ f := by
      rw [zpow_add₀ (by norm_num), zpow_natCast]
      push_cast
      ring
    cases k with
    | zero =>
      rw [hgrid]
      have hfew : m.natAbs ≤ n * 2 ^ 0 ∨ n + 1 ≤ m.natAbs := by omega
      rcases hfew with hsmall | hlarge
      · exact .inl (mul_le_mul_of_nonneg_right (by exact_mod_cast hsmall) hf.le)
      · refine .inr ?_
        rw [Int.natCast_zero, add_zero]
        exact mul_le_mul_of_nonneg_right (by exact_mod_cast hlarge) hf.le
    | succ k =>
      have hfew : m.natAbs ≤ n * 2 ^ (k + 1) := by
        have hbits : m.natAbs < 2 ^ p := by
          rw [Int.abs_eq_natAbs] at hm
          exact_mod_cast hm
        have hstep : 2 ^ p = 2 ^ (p - 1) * 2 := by
          rw [← pow_succ, Nat.sub_add_cancel hp]
        have hgrow : 2 ^ (p - 1) * 2 ≤ n * 2 ^ (k + 1) := by
          refine Nat.mul_le_mul hlow ?_
          rw [pow_succ]
          exact Nat.le_mul_of_pos_left 2 (Nat.two_pow_pos k)
        omega
      rw [hgrid]
      exact .inl (mul_le_mul_of_nonneg_right (by exact_mod_cast hfew) hf.le)

end Precise

/-- The direction for the number's negative. -/
def Mode.flip : Mode → Mode
  | .nearestEven => .nearestEven
  | .towardZero => .towardZero
  | .upward => .downward
  | .downward => .upward

def signed (negative : Bool) (x : ℚ) : ℚ := if negative then -x else x

/-- Whether the magnitude `t`, whose whole part is `n`, is rounded up to `n + 1`. -/
def Decides (mode : Mode) (negative : Bool) (n : ℕ) (t : ℚ) (up : Bool) : Prop :=
  match mode with
  | .nearestEven => up = true ↔ (n : ℚ) + 1 / 2 < t ∨ (t = n + 1 / 2 ∧ ¬Even n)
  | .towardZero => up = false
  | .upward => up = true ↔ negative = false ∧ t ≠ n
  | .downward => up = true ↔ negative = true ∧ t ≠ n

section Rounded

variable {S even : ℚ → Prop} {p n : ℕ} {e : ℤ} {x r t : ℚ} {mode : Mode} {up : Bool}

theorem RoundedTo.neg (hS : ∀ y, S y → S (-y)) (heven : ∀ y, even y → even (-y))
    (h : RoundedTo S even mode x r) :
    RoundedTo S even mode.flip (-x) (-r) := by
  obtain ⟨hr, h⟩ := h
  refine ⟨hS r hr, ?_⟩
  have hflip (y : ℚ) : |-x - y| = |x - -y| := by
    rw [← abs_neg, neg_sub, sub_neg_eq_add, sub_neg_eq_add, add_comm]
  cases mode with
  | nearestEven =>
    obtain ⟨hnear, htie⟩ := h
    refine ⟨fun y hy ↦ ?_, fun y hy heq hne ↦ ?_⟩
    · rw [hflip, hflip, neg_neg]
      exact hnear _ (hS y hy)
    · rw [hflip, hflip, neg_neg] at heq
      exact heven r (htie _ (hS y hy) heq fun h ↦ hne (neg_eq_iff_eq_neg.mp h))
  | towardZero =>
    obtain ⟨hsign, hle, hbest⟩ := h
    refine ⟨by rwa [neg_mul_neg], by rwa [abs_neg, abs_neg], fun y hy hyx ↦ ?_⟩
    rw [abs_neg] at hyx ⊢
    exact hbest y hy hyx
  | upward =>
    obtain ⟨hle, hbest⟩ := h
    refine ⟨neg_le_neg hle, fun y hy hyx ↦ ?_⟩
    exact le_neg_of_le_neg (hbest _ (hS y hy) (le_neg_of_le_neg hyx))
  | downward =>
    obtain ⟨hle, hbest⟩ := h
    refine ⟨neg_le_neg hle, fun y hy hyx ↦ ?_⟩
    exact neg_le_of_neg_le (hbest _ (hS y hy) (neg_le_of_neg_le hyx))

theorem roundedTo_self (h : S x) : RoundedTo S even mode x x := by
  refine ⟨h, ?_⟩
  cases mode with
  | nearestEven =>
    rw [sub_self, abs_zero]
    refine ⟨fun y _ ↦ abs_nonneg _, fun y _ heq hne ↦ ?_⟩
    exact absurd (sub_eq_zero.mp (abs_eq_zero.mp heq)).symm hne
  | towardZero => exact ⟨mul_self_nonneg x, le_rfl, fun _ _ h ↦ h⟩
  | upward => exact ⟨le_rfl, fun _ _ h ↦ h⟩
  | downward => exact ⟨le_rfl, fun _ _ h ↦ h⟩

theorem RoundedTo.eq_of_mem (h : RoundedTo S even mode x r) (hx : S x) : r = x := by
  obtain ⟨-, h⟩ := h
  cases mode with
  | nearestEven =>
    have hclose := h.1 x hx
    rw [sub_self, abs_zero] at hclose
    exact (sub_eq_zero.mp (abs_nonpos_iff.mp hclose)).symm
  | towardZero =>
    obtain ⟨hsign, hle, hbest⟩ := h
    rcases abs_eq_abs.mp (le_antisymm hle (hbest x hx le_rfl)) with heq | hopposite
    · exact heq
    · rw [hopposite, neg_mul, neg_nonneg] at hsign
      have hzero : x = 0 := mul_self_eq_zero.mp (le_antisymm hsign (mul_self_nonneg x))
      rw [hopposite, hzero, neg_zero]
  | upward => exact le_antisymm (h.2 x hx le_rfl) h.1
  | downward => exact le_antisymm h.1 (h.2 x hx le_rfl)

theorem Decides.flip {negative : Bool} (h : Decides mode negative n t up) : Decides mode.flip (!negative) n t up := by
  cases mode with
  | nearestEven => exact h
  | towardZero => exact h
  | upward => simpa [Decides, Mode.flip] using h
  | downward => simpa [Decides, Mode.flip] using h

theorem decides_whole {negative : Bool} (h : t = n) : Decides mode negative n t false := by
  cases mode with
  | nearestEven =>
    refine iff_of_false Bool.false_ne_true ?_
    rintro (hfar | ⟨htie, -⟩)
    · linarith
    · linarith
  | towardZero => rfl
  | upward => exact iff_of_false Bool.false_ne_true fun hne ↦ hne.2 h
  | downward => exact iff_of_false Bool.false_ne_true fun hne ↦ hne.2 h

theorem exists_decides (mode : Mode) (negative : Bool) (n : ℕ) (t : ℚ) : ∃ up, Decides mode negative n t up := by
  cases mode with
  | nearestEven =>
    by_cases hup : (n : ℚ) + 1 / 2 < t ∨ (t = n + 1 / 2 ∧ ¬Even n)
    · exact ⟨true, iff_of_true rfl hup⟩
    · exact ⟨false, iff_of_false Bool.false_ne_true hup⟩
  | towardZero => exact ⟨false, rfl⟩
  | upward =>
    by_cases hup : negative = false ∧ t ≠ n
    · exact ⟨true, iff_of_true rfl hup⟩
    · exact ⟨false, iff_of_false Bool.false_ne_true hup⟩
  | downward =>
    by_cases hup : negative = true ∧ t ≠ n
    · exact ⟨true, iff_of_true rfl hup⟩
    · exact ⟨false, iff_of_false Bool.false_ne_true hup⟩

/-- Rounding leaves what is whole, and nothing else. -/
theorem rounds_iff {negative : Bool} (ht : t < n + 1) (h : Decides mode negative n t up) :
    ((n + up.toNat : ℕ) : ℚ) = t ↔ t = n := by
  refine ⟨fun heq ↦ ?_, fun heq ↦ ?_⟩
  · cases up with
    | false => exact heq.symm
    | true => exact absurd heq (by push_cast [Bool.toNat_true]; exact ht.ne')
  · have hup : up = false := by
      cases mode with
      | nearestEven =>
        refine Bool.eq_false_iff.mpr fun htrue ↦ ?_
        rcases h.mp htrue with hfar | ⟨htie, -⟩
        · linarith
        · linarith
      | towardZero => exact h
      | upward => exact Bool.eq_false_iff.mpr fun htrue ↦ (h.mp htrue).2 heq
      | downward => exact Bool.eq_false_iff.mpr fun htrue ↦ (h.mp htrue).2 heq
    rw [hup, heq]
    rfl

/-- Two neighbours among the numbers `S`, with no other magnitude between them. -/
structure Neighbours (S even : ℚ → Prop) (n : ℕ) (e : ℤ) : Prop where
  low : S (n * 2 ^ e)
  high : S ((n + 1 : ℕ) * 2 ^ e)
  outside : ∀ y, S y → |y| ≤ n * 2 ^ e ∨ ((n : ℚ) + 1) * 2 ^ e ≤ |y|
  evenLow : Even n → even (n * 2 ^ e)
  evenHigh : ¬Even n → even ((n + 1 : ℕ) * 2 ^ e)

/-- A number of the full precision and the next. -/
theorem neighbours_precise (hp : 2 ≤ p) (hlow : 2 ^ (p - 1) ≤ n) (hhigh : n < 2 ^ p) (e : ℤ) :
    Neighbours (Precise p) (EndsEven p) n e where
  low := precise_nat hhigh e
  high := precise_carry (by omega) hhigh e
  outside y hy := outside_of_precise hy hlow (by omega) e
  evenLow := fun heven ↦ endsEven_carry hp hlow hhigh.le heven e
  evenHigh := fun hodd ↦ endsEven_carry hp (hlow.trans (Nat.le_succ n)) hhigh (Nat.even_add_one.mpr hodd) e

theorem neighbours_integer (n : ℕ) :
    Neighbours (fun y ↦ ∃ m : ℤ, y = m) (fun y ↦ ∃ m : ℤ, Even m ∧ y = m) n 0 where
  low := ⟨n, by simp⟩
  high := ⟨(n + 1 : ℕ), by simp⟩
  outside := by
    rintro y ⟨m, rfl⟩
    rw [zpow_zero, mul_one, mul_one, ← Int.cast_abs]
    have hcases : |m| ≤ n ∨ (n : ℤ) + 1 ≤ |m| := by omega
    rcases hcases with hsmall | hlarge
    · exact .inl (by exact_mod_cast hsmall)
    · exact .inr (by exact_mod_cast hlarge)
  evenLow := fun heven ↦ ⟨n, by exact_mod_cast heven, by simp⟩
  evenHigh := fun hodd ↦ ⟨(n + 1 : ℕ), by exact_mod_cast Nat.even_add_one.mpr hodd, by simp⟩

theorem rounded_magnitude (hnear : Neighbours S even n e) (hn : (n : ℚ) ≤ t) (ht : t < n + 1)
    (h : Decides mode false n t up) : RoundedTo S even mode (t * 2 ^ e) ((n + up.toNat : ℕ) * 2 ^ e) := by
  have he : (0 : ℚ) < 2 ^ e := by positivity
  have hout {y : ℚ} (hy : S y) : |y| ≤ n * 2 ^ e ∨ ((n : ℚ) + 1) * 2 ^ e ≤ |y| := hnear.outside y hy
  have hbelow : (n : ℚ) * 2 ^ e ≤ t * 2 ^ e := mul_le_mul_of_nonneg_right hn he.le
  have habove : t * 2 ^ e < ((n : ℚ) + 1) * 2 ^ e := mul_lt_mul_of_pos_right ht he
  have hzero : (0 : ℚ) ≤ n * 2 ^ e := by positivity
  have hmember : S ((n + up.toNat : ℕ) * 2 ^ e) := by
    cases up with
    | false => exact hnear.low
    | true => exact hnear.high
  refine ⟨hmember, ?_⟩
  cases mode with
  | towardZero =>
    obtain rfl : up = false := h
    simp only [Bool.toNat_false, add_zero]
    refine ⟨mul_nonneg hzero (hzero.trans hbelow), ?_, fun y hy hyx ↦ ?_⟩
    · rwa [abs_of_nonneg hzero, abs_of_nonneg (hzero.trans hbelow)]
    · rw [abs_of_nonneg (hzero.trans hbelow)] at hyx
      rw [abs_of_nonneg hzero]
      exact (hout hy).resolve_right (not_le.mpr (hyx.trans_lt habove))
  | downward =>
    obtain rfl : up = false := by simpa [Decides] using h
    simp only [Bool.toNat_false, add_zero]
    refine ⟨hbelow, fun y hy hyx ↦ ?_⟩
    rcases hout hy with hsmall | hlarge
    · exact (le_abs_self y).trans hsmall
    · rcases le_or_gt y 0 with hneg | hpos
      · exact hneg.trans hzero
      · rw [abs_of_pos hpos] at hlarge
        exact absurd (hyx.trans_lt habove) (not_lt.mpr hlarge)
  | upward =>
    have hup : up = true ↔ t ≠ n := by simpa [Decides] using h
    cases up with
    | false =>
      have ht : t = n := by simpa using hup
      simp only [Bool.toNat_false, add_zero, ht]
      exact ⟨le_rfl, fun _ _ hyx ↦ hyx⟩
    | true =>
      have hlt : (n : ℚ) * 2 ^ e < t * 2 ^ e := mul_lt_mul_of_pos_right (lt_of_le_of_ne hn (hup.mp rfl).symm) he
      simp only [Bool.toNat_true, Nat.cast_add, Nat.cast_one]
      refine ⟨habove.le, fun y hy hyx ↦ ?_⟩
      have hpos : 0 < y := hzero.trans_lt (hlt.trans_le hyx)
      have hy := hout hy
      rw [abs_of_pos hpos] at hy
      exact hy.resolve_left (not_le.mpr (hlt.trans_le hyx))
  | nearestEven =>
    have hside {y : ℚ} (hy : S y) : y ≤ n * 2 ^ e ∨ (n : ℚ) * 2 ^ e + 2 ^ e ≤ y := by
      rcases hout hy with hsmall | hlarge
      · exact .inl ((le_abs_self y).trans hsmall)
      · rcases le_or_gt y 0 with hneg | hpos
        · exact .inl (hneg.trans hzero)
        · rw [abs_of_pos hpos, add_mul, one_mul] at hlarge
          exact .inr hlarge
    rw [add_mul, one_mul] at habove
    have hcast : ((n + 1 : ℕ) : ℚ) * 2 ^ e = n * 2 ^ e + 2 ^ e := by
      push_cast
      ring
    have hhalf : (t = n + 1 / 2 ↔ 2 * (t * 2 ^ e) = 2 * (n * 2 ^ e) + 2 ^ e) ∧
        ((n : ℚ) + 1 / 2 < t ↔ 2 * ((n : ℚ) * 2 ^ e) + 2 ^ e < 2 * (t * 2 ^ e)) := by
      have hscale : 2 * (t * 2 ^ e) - (2 * (n * 2 ^ e) + 2 ^ e) = 2 * ((t - (n + 1 / 2)) * 2 ^ e) := by ring
      constructor
      · rw [← sub_eq_zero, ← sub_eq_zero (a := 2 * (t * 2 ^ e)), hscale, mul_eq_zero, mul_eq_zero]
        simp [he.ne']
      · rw [← sub_pos, ← sub_pos (b := 2 * ((n : ℚ) * 2 ^ e) + 2 ^ e), hscale,
          mul_pos_iff_of_pos_left (by norm_num),
          mul_pos_iff_of_pos_right he]
    have hup : up = true ↔ 2 * ((n : ℚ) * 2 ^ e) + 2 ^ e < 2 * (t * 2 ^ e) ∨
        (2 * (t * 2 ^ e) = 2 * (n * 2 ^ e) + 2 ^ e ∧ ¬Even n) := by
      rw [← hhalf.1, ← hhalf.2]
      exact h
    generalize t * 2 ^ e = x at *
    cases up with
    | false =>
      have hclose : 2 * x ≤ 2 * ((n : ℚ) * 2 ^ e) + 2 ^ e := by
        by_contra hfar
        exact Bool.false_ne_true (hup.mpr (.inl (not_le.mp hfar)))
      simp only [Bool.toNat_false, add_zero]
      rw [abs_of_nonneg (sub_nonneg.mpr hbelow)]
      refine ⟨fun y hy ↦ ?_, fun y hy heq hne ↦ ?_⟩
      · rcases hside hy with hsmall | hlarge
        · rw [abs_of_nonneg (by linarith)]
          linarith
        · rw [abs_of_nonpos (by linarith)]
          linarith
      · rcases hside hy with hsmall | hlarge
        · rw [abs_of_nonneg (by linarith)] at heq
          exact absurd (by linarith) hne
        · rw [abs_of_nonpos (by linarith)] at heq
          have htie : 2 * x = 2 * ((n : ℚ) * 2 ^ e) + 2 ^ e := by linarith
          have heven : Even n := by
            by_contra hodd
            exact Bool.false_ne_true (hup.mpr (.inr ⟨htie, hodd⟩))
          exact hnear.evenLow heven
    | true =>
      have hclose : 2 * ((n : ℚ) * 2 ^ e) + 2 ^ e ≤ 2 * x := by
        rcases hup.mp rfl with hfar | ⟨htie, -⟩
        · exact hfar.le
        · exact htie.ge
      rw [Bool.toNat_true]
      rw [hcast, abs_of_nonpos (by linarith)]
      refine ⟨fun y hy ↦ ?_, fun y hy heq hne ↦ ?_⟩
      · rcases hside hy with hsmall | hlarge
        · rw [abs_of_nonneg (by linarith)]
          linarith
        · rw [abs_of_nonpos (by linarith)]
          linarith
      · rcases hside hy with hsmall | hlarge
        · rw [abs_of_nonneg (by linarith)] at heq
          have htie : 2 * x = 2 * ((n : ℚ) * 2 ^ e) + 2 ^ e := by linarith
          rcases hup.mp rfl with hfar | ⟨-, hodd⟩
          · exact absurd htie hfar.ne'
          · rw [← hcast]
            exact hnear.evenHigh hodd
        · rw [abs_of_nonpos (by linarith)] at heq
          exact absurd (by linarith) hne

theorem roundedTo_of_decides (hS : ∀ y, S y → S (-y)) (heven : ∀ y, even y → even (-y)) {negative : Bool}
    (hnear : Neighbours S even n e) (hn : (n : ℚ) ≤ t) (ht : t < n + 1) (h : Decides mode negative n t up) :
    RoundedTo S even mode (signed negative (t * 2 ^ e)) (signed negative ((n + up.toNat : ℕ) * 2 ^ e)) := by
  cases negative with
  | false => exact rounded_magnitude hnear hn ht h
  | true =>
    have hflip : mode.flip.flip = mode := by cases mode <;> rfl
    have hmagnitude : RoundedTo S even mode.flip (t * 2 ^ e) ((n + up.toNat : ℕ) * 2 ^ e) :=
      rounded_magnitude hnear hn ht h.flip
    have hneg := hmagnitude.neg hS heven
    rw [hflip] at hneg
    exact hneg

theorem rounded_of_decides {negative : Bool} (hp : 2 ≤ p) (hlow : 2 ^ (p - 1) ≤ n) (hhigh : n < 2 ^ p)
    (hn : (n : ℚ) ≤ t)
    (ht : t < n + 1) (h : Decides mode negative n t up) :
    Rounded p mode (signed negative (t * 2 ^ e)) (signed negative ((n + up.toNat : ℕ) * 2 ^ e)) :=
  roundedTo_of_decides (fun _ hy ↦ hy.neg) (fun _ hy ↦ hy.neg) (neighbours_precise hp hlow hhigh e) hn ht h

theorem roundedInteger_of_decides {negative : Bool} (hn : (n : ℚ) ≤ t) (ht : t < n + 1)
    (h : Decides mode negative n t up) :
    RoundedInteger mode (signed negative t) (if negative then -(n + up.toNat : ℕ) else (n + up.toNat : ℕ)) := by
  have hneg (y : ℚ) : (∃ m : ℤ, y = m) → ∃ m : ℤ, -y = m := by
    rintro ⟨m, rfl⟩
    exact ⟨-m, by simp⟩
  have heven (y : ℚ) : (∃ m : ℤ, Even m ∧ y = m) → ∃ m : ℤ, Even m ∧ -y = m := by
    rintro ⟨m, hm, rfl⟩
    exact ⟨-m, hm.neg, by simp⟩
  have hrounded := roundedTo_of_decides hneg heven (neighbours_integer n) hn ht h
  rw [zpow_zero, mul_one, mul_one] at hrounded
  cases negative with
  | false => simpa [RoundedInteger, signed] using hrounded
  | true => simpa [RoundedInteger, signed] using hrounded

end Rounded

end Cdj2000Emulator.Library.Rounding
