import Cdj2000Emulator.FloatingPoint.Format

namespace Cdj2000Emulator.FloatingPoint

open Library.Rounding Library.Sticky C674x.State C674x.Operands

/-- The layouts with room for the bits that a sum keeps below its mantissa. -/
structure Format.Roomy (F : Format) : Prop where
  exponent : 4 ≤ F.exponentBits
  fraction : 1 ≤ F.fractionBits

theorem single_roomy : single.Roomy := ⟨by decide, by decide⟩

theorem double_roomy : double.Roomy := ⟨by decide, by decide⟩

theorem zero_ne_allOnes {F : Format} (hF : F.Roomy) : (0#F.exponentBits) ≠ BitVec.allOnes F.exponentBits := by
  intro heq
  have hbits := congrArg BitVec.toNat heq
  have hexponent := hF.exponent
  have hpow : 2 ^ 4 ≤ 2 ^ F.exponentBits := Nat.pow_le_pow_right (by norm_num) hexponent
  rw [BitVec.toNat_ofNat, Nat.zero_mod, BitVec.toNat_allOnes] at hbits
  omega

theorem testBit_top {v i : ℕ} (h : v < 2 ^ (i + 1)) : v.testBit i = decide (2 ^ i ≤ v) := by
  rw [Nat.testBit_eq_decide_div_mod_eq]
  have hquotient : v / 2 ^ i < 2 := Nat.div_lt_of_lt_mul (by rwa [pow_succ] at h)
  have hone : v / 2 ^ i = 1 ↔ 2 ^ i ≤ v := by
    constructor
    · intro h
      by_contra hsmall
      rw [Nat.div_eq_of_lt (not_le.mp hsmall)] at h
      cases h
    · intro h
      have hpos := Nat.div_pos h (Nat.two_pow_pos i)
      omega
  rw [Nat.mod_eq_of_lt hquotient, decide_eq_decide]
  exact hone

section Modes

variable {n rem half rmode : ℕ} {t : ℚ} {negative : Bool}

theorem increments_decides (h : Split n rem half t) :
    Decides (modeOf rmode) negative n t (increments rmode negative n rem half) := by
  have hodd : n % 2 = 1 ↔ ¬Even n := Nat.not_even_iff.symm
  match rmode with
  | 0 => simp [modeOf, Decides, increments, h.above, h.tie, hodd]
  | 1 => simp [modeOf, Decides, increments]
  | 2 => simp [modeOf, Decides, increments, ← h.exact]
  | 3 => simp [modeOf, Decides, increments, ← h.exact]
  | rmode + 4 => simp [modeOf, Decides, increments]

theorem overflows_eq (rmode : ℕ) (negative : Bool) : overflows rmode negative =
    Mode.outward (modeOf rmode) negative := by
  match rmode with
  | 0 => rfl
  | 1 => rfl
  | 2 => simp [overflows, modeOf, Mode.outward]
  | 3 => simp [overflows, modeOf, Mode.outward]
  | rmode + 4 => simp [overflows, modeOf, Mode.outward]

theorem underflows_eq (rmode : ℕ) (negative : Bool) : underflows rmode negative =
    Mode.away (modeOf rmode) negative := by
  match rmode with
  | 0 => rfl
  | 1 => rfl
  | 2 => simp [underflows, modeOf, Mode.away]
  | 3 => simp [underflows, modeOf, Mode.away]
  | rmode + 4 => simp [underflows, modeOf, Mode.away]

theorem abs_signed {x : ℚ} (h : 0 ≤ x) : |signed negative x| = x := by
  cases negative with
  | false => exact abs_of_nonneg h
  | true => exact (abs_neg x).trans (abs_of_nonneg h)

theorem signed_neg_iff {x : ℚ} (h : 0 < x) : decide (signed negative x < 0) = negative := by
  cases negative with
  | false => simpa [signed] using h.le
  | true => simpa [signed] using h

theorem signed_inj {x y : ℚ} : signed negative x = signed negative y ↔ x = y := by
  cases negative with
  | false => exact Iff.rfl
  | true => exact neg_inj

end Modes

section Normal

variable {F : Format} {negative : Bool} {m : ℕ} {E : ℤ}

/-- The magnitude of a mantissa at a biased exponent. -/
def Format.scaled (F : Format) (m : ℚ) (E : ℤ) : ℚ := m * 2 ^ (E - F.bias - F.fractionBits)

theorem scaled_pos {q : ℚ} (h : 0 < q) : 0 < F.scaled q E := mul_pos h (by positivity)

theorem scaled_inj {a b : ℚ} : F.scaled a E = F.scaled b E ↔ a = b := mul_left_inj' (by positivity)

theorem significand_range (n : Number F) : F.hidden ≤ n.significand ∧ n.significand < 2 * F.hidden := by
  have hlt : n.fraction.toNat < F.hidden := n.fraction.isLt
  unfold Number.significand
  omega

theorem le_scaled (h : F.hidden ≤ m) : (2 : ℚ) ^ (E - F.bias) ≤ F.scaled m E := by
  have hpower : (2 : ℚ) ^ (E - F.bias) = F.hidden * 2 ^ (E - F.bias - F.fractionBits) := by
    rw [Format.hidden, Nat.cast_pow, Nat.cast_ofNat, ← zpow_natCast, ← zpow_add₀ (by norm_num)]
    congr 1
    ring
  rw [hpower]
  exact mul_le_mul_of_nonneg_right (by exact_mod_cast h) (by positivity)

theorem scaled_lt {q : ℚ} (h : q < 2 * F.hidden) : F.scaled q E < (2 : ℚ) ^ (E - F.bias + 1) := by
  have hpower : (2 : ℚ) ^ (E - F.bias + 1) = 2 * F.hidden * 2 ^ (E - F.bias - F.fractionBits) := by
    rw [Format.hidden, Nat.cast_pow, Nat.cast_ofNat, ← zpow_natCast, mul_assoc, ← zpow_add₀ (by norm_num),
      zpow_add_one₀ (by norm_num), mul_comm]
    congr 2
    ring
  rw [hpower]
  exact mul_lt_mul_of_pos_right h (by positivity)

theorem normal_value (hlow : F.hidden ≤ m) (hhigh : m < 2 * F.hidden) (hE : 1 ≤ E) (htop : E < F.top) :
    (F.normal negative m E).value = signed negative (F.scaled m E) := by
  have hrange : E.toNat < 2 ^ F.exponentBits := by
    unfold Format.top at htop
    omega
  have hexponent : (BitVec.ofNat F.exponentBits E.toNat).toNat = E.toNat := by
    rw [BitVec.toNat_ofNat, Nat.mod_eq_of_lt hrange]
  have hfraction : (BitVec.ofNat F.fractionBits m).toNat = m - F.hidden := by
    rw [BitVec.toNat_ofNat]
    change m % F.hidden = _
    rw [Nat.mod_eq_sub_mod hlow, Nat.mod_eq_of_lt (by omega)]
  have hnonzero : BitVec.ofNat F.exponentBits E.toNat ≠ 0#F.exponentBits := by
    intro h
    have hzero := congrArg BitVec.toNat h
    rw [hexponent, BitVec.toNat_ofNat, Nat.zero_mod] at hzero
    omega
  unfold Number.value Format.normal Number.significand
  dsimp only
  rw [if_neg hnonzero, hexponent, hfraction, Nat.add_sub_cancel' hlow, Int.toNat_of_nonneg (by omega)]
  rfl

theorem normal_hidden (negative : Bool) (m : ℕ) (E : ℤ) :
    F.normal negative (F.hidden + m) E = F.normal negative m E := by
  unfold Format.normal
  congr 1
  apply BitVec.eq_of_toNat_eq
  rw [BitVec.toNat_ofNat, BitVec.toNat_ofNat]
  exact Nat.add_mod_left _ _

theorem carry_spec (E : ℤ) (up : Bool) (hlow : F.hidden ≤ m) (hhigh : m < 2 * F.hidden) :
    F.hidden ≤ (F.carry m E up).1 ∧ (F.carry m E up).1 < 2 * F.hidden ∧
      F.scaled (F.carry m E up).1 (F.carry m E up).2 = F.scaled (m + up.toNat : ℕ) E ∧ E ≤ (F.carry m E up).2 ∧
      (F.carry m E up).2 ≤ E + 1 := by
  have hpower : 2 ^ (F.fractionBits + 1) = 2 * F.hidden := by
    rw [pow_succ, mul_comm]
    rfl
  unfold Format.carry
  rw [hpower]
  cases up with
  | false => exact ⟨hlow, hhigh, rfl, le_rfl, (Int.lt_succ E).le⟩
  | true =>
    rw [if_pos rfl]
    split_ifs with hfull
    · have hhalf : (m + 1) / 2 = F.hidden := by omega
      refine ⟨hhalf.ge, by omega, ?_, by omega, le_rfl⟩
      change F.scaled ((m + 1) / 2 : ℕ) (E + 1) = F.scaled (m + 1 : ℕ) E
      rw [hhalf, hfull]
      unfold Format.scaled
      rw [show E + 1 - (F.bias : ℤ) - F.fractionBits = E - F.bias - F.fractionBits +
        1 by ring, zpow_add_one₀ (by norm_num)]
      push_cast
      ring
    · exact ⟨by omega, by omega, rfl, le_rfl, (Int.lt_succ E).le⟩

end Normal

section Numbers

variable {F : Format} {n : Number F}

theorem value_of_zero (h : n.exponent = 0#F.exponentBits) : n.value = 0 := if_pos h

theorem value_of_ne (h : n.exponent ≠ 0#F.exponentBits) :
    n.value = signed n.negative (F.scaled n.significand n.exponent.toNat) := if_neg h

theorem value_eq_zero_iff : n.value = 0 ↔ n.exponent = 0#F.exponentBits := by
  refine ⟨fun h ↦ ?_, value_of_zero⟩
  by_contra hne
  rw [value_of_ne hne] at h
  have hpos : (0 : ℚ) < n.significand := by
    have hhidden : 0 < F.hidden := Nat.two_pow_pos _
    exact_mod_cast hhidden.trans_le (Nat.le_add_right _ _)
  have habs := congrArg abs h
  rw [abs_signed (scaled_pos hpos).le, abs_zero] at habs
  exact (scaled_pos hpos).ne' habs

theorem zero_or_denormal_eq : (n.zero || n.denormal) = decide (n.value = 0) := by
  have hvalue : decide (n.value = 0) = decide (n.exponent = 0#F.exponentBits) := decide_eq_decide.mpr value_eq_zero_iff
  rw [hvalue]
  unfold Number.zero Number.denormal
  by_cases hexponent : n.exponent = 0#F.exponentBits
  · by_cases hfraction : n.fraction = 0#F.fractionBits
    · simp [hexponent, hfraction]
    · simp [hexponent, hfraction]
  · simp [hexponent]

theorem finite_exponent {n : Number F} (hnan : !n.nan) (hinfinite : !n.infinite) :
    n.exponent ≠ BitVec.allOnes F.exponentBits := by
  intro h
  unfold Number.nan at hnan
  unfold Number.infinite at hinfinite
  rw [decide_eq_true h, Bool.true_and] at hnan hinfinite
  simp at hnan hinfinite
  exact hinfinite hnan

theorem exponent_pos (h : n.exponent ≠ 0#F.exponentBits) : 1 ≤ n.exponent.toNat := by
  rw [Nat.one_le_iff_ne_zero]
  exact fun hzero ↦ h (BitVec.eq_of_toNat_eq hzero)

/-- The magnitude of a finite number that is not zero. -/
theorem finite_range (hfinite : n.exponent ≠ BitVec.allOnes F.exponentBits)
    (hzero : n.exponent ≠ 0#F.exponentBits) :
    F.least ≤ |n.value| ∧ |n.value| < F.beyond := by
  obtain ⟨hlow, hhigh⟩ := significand_range n
  have hpos : 0 < F.scaled n.significand n.exponent.toNat :=
    scaled_pos (by exact_mod_cast (Nat.two_pow_pos F.fractionBits).trans_le hlow)
  have hbelow := exponent_pos hzero
  have habove : n.exponent.toNat < F.top := by
    have hlt := n.exponent.isLt
    have hne : n.exponent.toNat ≠ 2 ^ F.exponentBits - 1 := by
      rw [← BitVec.toNat_allOnes]
      exact fun h ↦ hfinite (BitVec.eq_of_toNat_eq h)
    unfold Format.top
    omega
  rw [value_of_ne hzero, abs_signed hpos.le]
  constructor
  · refine (zpow_le_zpow_right₀ (by norm_num) ?_).trans (le_scaled hlow)
    omega
  · refine (scaled_lt (by exact_mod_cast hhigh)).trans_le (zpow_le_zpow_right₀ (by norm_num) ?_)
    omega

theorem precise_signed {p : ℕ} {x : ℚ} {negative : Bool} (h : Precise p x) : Precise p (signed negative x) := by
  cases negative with
  | false => exact h
  | true => exact h.neg

/-- A finite number that is not zero, as it is. -/
theorem delivers_self {status : Word} (mode : Mode) (hfinite : n.exponent ≠ BitVec.allOnes F.exponentBits)
    (hzero : n.exponent ≠ 0#F.exponentBits) :
    Rounded F.precision mode n.value n.value ∧ Delivers F mode n.value n.value status ⟨n, status⟩ := by
  obtain ⟨hlow, hhigh⟩ := finite_range hfinite hzero
  refine ⟨roundedTo_self ?_, ?_⟩
  · rw [value_of_ne hzero]
    refine precise_signed (precise_nat ((significand_range n).2.trans_eq ?_) _)
    unfold Format.precision Format.hidden
    ring
  · have hself : Delivers F mode n.value n.value status ⟨n, status ||| flag (n.value ≠ n.value) inex⟩ :=
      .normal hlow hhigh rfl
    simpa [flag] using hself

end Numbers

def sourceWarnings {L R : Format} (left : Number L) (right : Number R) : Word :=
  flag left.nan nan1 ||| flag right.nan nan2 ||| flag left.denormal den1 ||| flag right.denormal den2

section Deliver

variable {F : Format} {negative : Bool} {status : Word} {rmode m rem half : ℕ} {E : ℤ} {t : ℚ}

/-- The mantissa that rounding gives, with the value it stands for. -/
theorem rounded_carry (negative : Bool) (rmode : ℕ) (E : ℤ) (hF : F.Roomy) (hsplit : Split m rem half t)
    (hlow : F.hidden ≤ m) (hhigh : m < 2 * F.hidden) :
    Rounded F.precision (modeOf rmode) (signed negative (F.scaled t E))
      (signed negative (F.scaled (m + (increments rmode negative m rem half).toNat : ℕ) E)) := by
  have hfraction := hF.fraction
  refine rounded_of_decides ?_ ?_ ?_ hsplit.low hsplit.high (increments_decides hsplit)
  · unfold Format.precision
    omega
  · exact hlow
  · refine hhigh.trans_eq ?_
    unfold Format.precision Format.hidden
    ring

/-- Rounding changes what has a remainder. -/
theorem carry_eq_iff (negative : Bool) (rmode : ℕ) (E : ℤ) (hsplit : Split m rem half t) :
    signed negative (F.scaled (m + (increments rmode negative m rem half).toNat : ℕ) E) ≠ signed negative
      (F.scaled t E) ↔
      rem ≠ 0 := by
  rw [Ne, signed_inj, scaled_inj, not_iff_not, hsplit.exact]
  exact rounds_iff hsplit.high (increments_decides hsplit)

theorem overflowed_delivers {x r : ℚ} (hx : decide (x < 0) = negative) (hlarge : F.beyond ≤ |r|) :
    Delivers F (modeOf rmode) x r status (F.overflowed rmode negative status) := by
  unfold Format.overflowed
  dsimp only
  rw [overflows_eq, ← hx]
  exact .overflow hlarge

theorem underflowed_delivers {x r : ℚ} (hx : decide (x < 0) = negative) (hsmall : |r| < F.least) :
    Delivers F (modeOf rmode) x r status (F.underflowed rmode negative status) := by
  unfold Format.underflowed
  rw [underflows_eq, ← hx]
  exact .underflow hsmall

theorem deliver_delivers (hF : F.Roomy) (hsplit : Split m rem half t) (hlow : F.hidden ≤ m)
    (hhigh : m < 2 * F.hidden) :
    ∃ r, Rounded F.precision (modeOf rmode) (signed negative (F.scaled t E)) r ∧
      Delivers F (modeOf rmode) (signed negative (F.scaled t E)) r status
        (F.deliver rmode negative status m rem half E) := by
  refine ⟨_, rounded_carry negative rmode E hF hsplit hlow hhigh, ?_⟩
  have hhidden : 0 < F.hidden := Nat.two_pow_pos _
  have hchanged := carry_eq_iff (F := F) negative rmode E hsplit
  have ht : 0 < t := by
    have hm : (0 : ℚ) < m := by exact_mod_cast hhidden.trans_le hlow
    exact hm.trans_le hsplit.low
  have hnegative : decide (signed negative (F.scaled t E) < 0) = negative := signed_neg_iff (scaled_pos ht)
  obtain ⟨hlow', hhigh', hvalue, -⟩ := carry_spec E (increments rmode negative m rem half) hlow hhigh
  rw [← hvalue] at hchanged ⊢
  unfold Format.deliver
  generalize F.carry m E (increments rmode negative m rem half) = carried at *
  obtain ⟨m', E'⟩ := carried
  dsimp only at *
  have hpos : 0 < F.scaled m' E' := scaled_pos (by exact_mod_cast hhidden.trans_le hlow')
  have hfrom := le_scaled (E := E') hlow'
  have hto : F.scaled m' E' < 2 ^ (E' - F.bias + 1) := scaled_lt (by exact_mod_cast hhigh')
  have habs : |signed negative (F.scaled m' E')| = F.scaled m' E' := abs_signed hpos.le
  split_ifs with hlarge hsmall
  · refine overflowed_delivers hnegative ?_
    rw [habs]
    refine (zpow_le_zpow_right₀ (by norm_num) ?_).trans hfrom
    omega
  · refine underflowed_delivers hnegative ?_
    rw [habs]
    refine hto.trans_le (zpow_le_zpow_right₀ (by norm_num) ?_)
    omega
  · have hflag : decide (rem ≠ 0) = decide (signed negative (F.scaled m' E') ≠ signed negative (F.scaled t E)) :=
      decide_eq_decide.mpr hchanged.symm
    rw [hflag]
    refine .normal ?_ ?_ (normal_value hlow' hhigh' (by omega) (by omega))
    · rw [habs]
      refine (zpow_le_zpow_right₀ (by norm_num) ?_).trans hfrom
      omega
    · rw [habs]
      refine hto.trans_le (zpow_le_zpow_right₀ (by norm_num) ?_)
      omega

end Deliver

end Cdj2000Emulator.FloatingPoint
