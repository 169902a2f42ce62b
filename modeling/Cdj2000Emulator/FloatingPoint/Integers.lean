import Cdj2000Emulator.FloatingPoint.Deliver
import Mathlib.Data.Rat.Floor

namespace Cdj2000Emulator.FloatingPoint

open Library.Rounding Library.Sticky C674x.State C674x.Operands

/-- The loop that looks for the top bit, from bit `msb` down. -/
def topBit (magnitude : ℕ) : ℕ → ℕ
  | 0 => 0
  | msb + 1 => if magnitude.testBit (msb + 1) then msb + 1 else topBit magnitude msb

def signOf (source : Word) (signedSource : Bool) : Bool × ℕ :=
  let negative := signedSource && source.msb
  (negative, (if negative then 0 - source else source).toNat)

/-- `cdj_c674x_integer_to_sp`, with `inexact`. -/
def integerToSp (source : Word) (signedSource : Bool) (rmode : ℕ) : Word × Bool :=
  let (negative, magnitude) := signOf source signedSource
  if magnitude = 0 then (0, false)
  else
    let msb := topBit magnitude 31
    let exponent : ℤ := msb + 127
    if msb ≤ 23 then ((single.normal negative (magnitude <<< (23 - msb)) exponent).pack, false)
    else
      let shift := msb - 23
      let remainder := magnitude % 2 ^ shift
      let mantissa := magnitude >>> shift
      let (m, e) := single.carry mantissa exponent (increments rmode negative mantissa remainder (2 ^ (shift - 1)))
      ((single.normal negative m e).pack, remainder ≠ 0)

def integerToDp (source2 : Word) (signedSource : Bool) : Long :=
  let (negative, magnitude) := signOf source2 signedSource
  if magnitude = 0 then 0
  else
    let msb := topBit magnitude 31
    (double.normal negative (magnitude <<< (52 - msb)) (msb + 1023)).pack

/-- The whole part of a magnitude, its remainder and what is half of a unit. -/
structure Parts where
  magnitude : ℕ
  remainder : ℕ
  halfway : ℕ

def spParts (significand : ℕ) (power : ℤ) : Parts :=
  if 23 ≤ power then ⟨significand <<< (power - 23).toNat, 0, 0⟩
  else if 0 ≤ power then
    let shift := (23 - power).toNat
    ⟨significand >>> shift, significand % 2 ^ shift, 2 ^ (shift - 1)⟩
  else ⟨0, significand, if power = -1 then 2 ^ 23 else 2 ^ 64 - 1⟩

/-- The parts of a double-precision number. -/
def dpParts (significand : ℕ) (power : ℤ) : Parts :=
  if 0 ≤ power then
    let shift := (52 - power).toNat
    ⟨significand >>> shift, significand % 2 ^ shift, 2 ^ (shift - 1)⟩
  else ⟨0, significand, if power = -1 then 2 ^ 52 else 2 ^ 64 - 1⟩

/-- `cdj_c674x_sp_to_integer` and `cdj_c674x_dp_to_integer`, with their way to part a significand. -/
def toInteger {F : Format} (parts : ℕ → ℤ → Parts) (n : Number F) (rmode : ℕ) : Flagged Word :=
  let saturated : Word := if n.negative then 0x80000000 else 0x7fffffff
  if n.exponent = BitVec.allOnes F.exponentBits then
    if n.fraction ≠ 0#F.fractionBits then ⟨saturated, inval ||| nan2⟩ else ⟨saturated, inex ||| overflow⟩
  else if n.exponent = 0#F.exponentBits then
    if n.fraction ≠ 0#F.fractionBits then ⟨0, inex ||| den2⟩ else ⟨0, 0⟩
  else
    let power : ℤ := n.exponent.toNat - F.bias
    if 31 < power then ⟨saturated, inex ||| overflow⟩
    else
      let p := parts n.significand power
      let increment := p.remainder ≠ 0 && increments rmode n.negative p.magnitude p.remainder p.halfway
      let magnitude := p.magnitude + increment.toNat
      if (!n.negative && 0x7fffffff < magnitude) || (n.negative && 0x80000000 < magnitude) then
        ⟨saturated, inex ||| overflow⟩
      else ⟨if n.negative then 0 - BitVec.ofNat 32 magnitude else BitVec.ofNat 32 magnitude,
        flag (p.remainder ≠ 0) inex⟩

def spToInteger (source : Word) (rmode : ℕ) : Flagged Word := toInteger spParts (sp source) rmode

def dpToInteger (source2 : Long) (rmode : ℕ) : Flagged Word := toInteger dpParts (dp source2) rmode

theorem topBit_spec {magnitude n : ℕ} (hpos : magnitude ≠ 0) (h : magnitude < 2 ^ (n + 1)) :
    2 ^ topBit magnitude n ≤ magnitude ∧ magnitude < 2 ^ (topBit magnitude n + 1) ∧ topBit magnitude n ≤ n := by
  induction n with
  | zero => exact ⟨Nat.one_le_iff_ne_zero.mpr hpos, h, le_rfl⟩
  | succ n ih =>
    unfold topBit
    rw [testBit_top h]
    by_cases htop : 2 ^ (n + 1) ≤ magnitude
    · rw [if_pos (decide_eq_true htop)]
      exact ⟨htop, h, le_rfl⟩
    · rw [if_neg (by simpa using htop)]
      obtain ⟨hlow, hhigh, hle⟩ := ih (not_le.mp htop)
      exact ⟨hlow, hhigh, hle.trans (Nat.le_succ n)⟩

def integerOf (source : Word) (signedSource : Bool) : ℤ := if signedSource then source.toInt else source.toNat

theorem signOf_spec (source : Word) (signedSource : Bool) :
    (integerOf source signedSource : ℚ) = signed (signOf source signedSource).1 (signOf source signedSource).2 ∧
      (signOf source signedSource).2 < 2 ^ 32 := by
  refine ⟨?_, (if signedSource && source.msb then 0 - source else source).isLt⟩
  have hlt := source.isLt
  unfold integerOf signOf
  cases signedSource with
  | false => rfl
  | true =>
    dsimp only
    rw [Bool.true_and, if_pos rfl, BitVec.toInt_eq_msb_cond]
    cases hmsb : source.msb with
    | false => rfl
    | true =>
      have hlarge := BitVec.msb_eq_true_iff_two_mul_ge.mp hmsb
      have hneg : (0 - source).toNat = 2 ^ 32 - source.toNat := by
        have hzero : (0 : Word).toNat = 0 := rfl
        rw [BitVec.toNat_sub, hzero]
        omega
      simp only [if_true, hneg]
      unfold signed
      push_cast [Nat.cast_sub hlt.le]
      simp

theorem normal_rounds {F : Format} {m : ℕ} (negative : Bool) (E : ℤ) (mode : Mode) (hhigh : m < 2 * F.hidden) :
    Rounded F.precision mode (signed negative (F.scaled m E)) (signed negative (F.scaled m E)) := by
  refine roundedTo_self (precise_signed (precise_nat (hhigh.trans_eq ?_) _))
  unfold Format.precision Format.hidden
  ring

theorem scaled_shift {F : Format} {magnitude msb : ℕ} (h : msb ≤ F.fractionBits) :
    F.scaled (magnitude * 2 ^ (F.fractionBits - msb) : ℕ) (msb + F.bias) = magnitude := by
  unfold Format.scaled
  rw [Nat.cast_mul, Nat.cast_pow, Nat.cast_ofNat, mul_assoc, ← zpow_natCast,
    ← zpow_add₀ (by norm_num), Nat.cast_sub h]
  ring_nf
  simp

/-- What an integer has to be as a number: exact, and rounded once. -/
structure Represents {F : Format} (k : ℤ) (mode : Mode) (n : Number F) (inexact : Bool) : Prop where
  rounded : Rounded F.precision mode k n.value
  inexact : inexact = decide (n.value ≠ k)
  finite : n.exponent ≠ BitVec.allOnes F.exponentBits
  normal : n.denormal = false

theorem normal_kinds {F : Format} (negative : Bool) {m : ℕ} {E : ℤ} (hE : 1 ≤ E) (htop : E < F.top) :
    (F.normal negative m E).exponent ≠ BitVec.allOnes F.exponentBits ∧
    (F.normal negative m E).denormal = false := by
  have hexponent : (F.normal negative m E).exponent.toNat = E.toNat := by
    change E.toNat % 2 ^ F.exponentBits = _
    rw [Nat.mod_eq_of_lt]
    unfold Format.top at htop
    omega
  refine ⟨fun h ↦ ?_, ?_⟩
  · rw [h, BitVec.toNat_allOnes] at hexponent
    unfold Format.top at htop
    omega
  · unfold Number.denormal
    have hne : (F.normal negative m E).exponent ≠ 0#F.exponentBits := by
      intro h
      rw [h, BitVec.toNat_ofNat, Nat.zero_mod] at hexponent
      omega
    rw [decide_eq_false hne, Bool.false_and]

theorem represents_zero {F : Format} (hF : F.Roomy) (mode : Mode) :
    Represents (F := F) 0 mode (F.zero false) false := by
  have hvalue : (F.zero false).value = 0 := value_of_zero rfl
  refine ⟨?_, ?_, zero_ne_allOnes hF, ?_⟩
  · rw [hvalue, Int.cast_zero]
    exact roundedTo_self ⟨0, 0, by positivity, by simp⟩
  · rw [hvalue, Int.cast_zero]
    simp
  · simp [Number.denormal, Format.zero]

/-- An integer that needs no rounding. -/
theorem represents_shifted {F : Format} {k : ℤ} {negative : Bool} {magnitude msb : ℕ} (mode : Mode)
    (hk : (k : ℚ) = signed negative magnitude) (hlow : 2 ^ msb ≤ magnitude) (hhigh : magnitude < 2 ^ (msb + 1))
    (hle : msb ≤ F.fractionBits) (hE : (1 : ℤ) ≤ msb + F.bias) (htop : (msb + F.bias : ℤ) < F.top) :
    Represents k mode (F.normal negative (magnitude <<< (F.fractionBits - msb)) (msb + F.bias)) false := by
  obtain ⟨hfinite, hnormal⟩ := normal_kinds (m := magnitude <<< (F.fractionBits - msb)) negative hE htop
  have hsplit : 2 ^ msb * 2 ^ (F.fractionBits - msb) = F.hidden := by
    rw [← pow_add, Nat.add_sub_cancel' hle]
    rfl
  have hfrom : F.hidden ≤ magnitude * 2 ^ (F.fractionBits - msb) := by
    rw [← hsplit]
    exact Nat.mul_le_mul_right _ hlow
  have hto : magnitude * 2 ^ (F.fractionBits - msb) < 2 * F.hidden := by
    rw [← hsplit, ← mul_assoc, ← pow_succ']
    exact Nat.mul_lt_mul_of_pos_right hhigh (Nat.two_pow_pos _)
  have hscaled : F.scaled (magnitude * 2 ^ (F.fractionBits - msb) : ℕ) (msb + F.bias) = magnitude := scaled_shift hle
  have hexact : (F.normal negative (magnitude <<< (F.fractionBits - msb)) (msb + F.bias)).value = k := by
    rw [Nat.shiftLeft_eq, normal_value hfrom hto hE htop, hk, signed_inj, hscaled]
  refine ⟨?_, ?_, hfinite, hnormal⟩
  · have hrounds := normal_rounds negative (msb + F.bias) mode hto
    rw [hexact, hk]
    rwa [hscaled] at hrounds
  · rw [hexact]
    simp

theorem integerOf_zero {source : Word} {signedSource : Bool} (h : (signOf source signedSource).2 = 0) :
    integerOf source signedSource = 0 := by
  have hvalue := (signOf_spec source signedSource).1
  rw [h] at hvalue
  have hcast : (integerOf source signedSource : ℚ) = 0 := by
    rw [hvalue]
    cases (signOf source signedSource).1 with
    | false => rfl
    | true => exact neg_zero
  exact_mod_cast hcast

theorem integerToDp_represents (source2 : Word) (signedSource : Bool) (mode : Mode) :
    Represents (integerOf source2 signedSource) mode (dp (integerToDp source2 signedSource)) false := by
  obtain ⟨hvalue, hlt⟩ := signOf_spec source2 signedSource
  have hk : (signOf source2 signedSource).2 = 0 → integerOf source2 signedSource = 0 := integerOf_zero
  unfold integerToDp
  generalize signOf source2 signedSource = given at hvalue hlt hk ⊢
  obtain ⟨negative, magnitude⟩ := given
  dsimp only at hvalue hlt hk ⊢
  split_ifs with hzero
  · rw [hk hzero]
    exact represents_zero double_roomy _
  · obtain ⟨hlow, hhigh, hle⟩ := topBit_spec (n := 31) hzero hlt
    rw [dp, Number.unpack_pack]
    exact represents_shifted mode hvalue hlow hhigh (by change _ ≤ 52; omega)
      (by change (1 : ℤ) ≤ _ + 1023; omega)
      (by change _ + (1023 : ℤ) < 2047; omega)

theorem integerToSp_represents (source : Word) (signedSource : Bool) (rmode : ℕ) :
    Represents (integerOf source signedSource) (modeOf rmode) (sp (integerToSp source signedSource rmode).1)
      (integerToSp source signedSource rmode).2 := by
  obtain ⟨hvalue, hlt⟩ := signOf_spec source signedSource
  have hk : (signOf source signedSource).2 = 0 → integerOf source signedSource = 0 := integerOf_zero
  unfold integerToSp
  generalize signOf source signedSource = given at hvalue hlt hk ⊢
  obtain ⟨negative, magnitude⟩ := given
  dsimp only at hvalue hlt hk ⊢
  split_ifs with hzero hsmall
  · rw [hk hzero]
    exact represents_zero single_roomy _
  · obtain ⟨hlow, hhigh, hle⟩ := topBit_spec (n := 31) hzero hlt
    rw [sp, Number.unpack_pack]
    exact represents_shifted (modeOf rmode) hvalue hlow hhigh hsmall (by change (1 : ℤ) ≤ _ + 127; omega)
      (by change _ + (127 : ℤ) < 255; omega)
  · obtain ⟨hlow, hhigh, hle⟩ := topBit_spec (n := 31) hzero hlt
    generalize topBit magnitude 31 = msb at *
    obtain ⟨shift, rfl⟩ : ∃ shift, msb = 23 + shift := Nat.exists_eq_add_of_le (by omega)
    have hshift : 23 + shift - 23 = shift := by omega
    rw [hshift, Nat.shiftRight_eq_div_pow]
    have hsplit := split_shift magnitude (show 1 ≤ shift by omega)
    have hfrom : single.hidden ≤ magnitude / 2 ^ shift := by
      rw [Nat.le_div_iff_mul_le (Nat.two_pow_pos _)]
      change 2 ^ 23 * 2 ^ shift ≤ _
      rwa [← pow_add]
    have hto : magnitude / 2 ^ shift < 2 * single.hidden := by
      refine Nat.div_lt_of_lt_mul (hhigh.trans_eq ?_)
      change _ = 2 ^ shift * (2 * 2 ^ 23)
      ring
    have hx : (integerOf source signedSource : ℚ) =
        signed negative (single.scaled (magnitude / 2 ^ shift) ((23 + shift : ℕ) + 127)) := by
      rw [hvalue, signed_inj]
      unfold Format.scaled
      change (magnitude : ℚ) = magnitude / 2 ^ shift * 2 ^
        (((23 + shift : ℕ) : ℤ) + 127 - (127 : ℤ) - (23 : ℤ))
      rw [show (((23 + shift : ℕ) : ℤ) + 127 - (127 : ℤ) - (23 : ℤ)) = shift by push_cast; ring, zpow_natCast]
      field_simp
    have hrounds := rounded_carry negative rmode ((23 + shift : ℕ) + 127) single_roomy hsplit hfrom hto
    have hchanged := carry_eq_iff (F := single) negative rmode ((23 + shift : ℕ) + 127) hsplit
    obtain ⟨hlow', hhigh', hcarried, hgrows⟩ := carry_spec ((23 + shift : ℕ) + 127)
      (increments rmode negative (magnitude / 2 ^ shift) (magnitude % 2 ^ shift) (2 ^ (shift - 1))) hfrom hto
    rw [← hx, ← hcarried] at hrounds hchanged
    generalize single.carry (magnitude / 2 ^ shift) ((23 + shift : ℕ) + 127) _ = carried at *
    obtain ⟨m, e⟩ := carried
    dsimp only at *
    have hE : 1 ≤ e := by omega
    have htop : e < single.top := by
      change e < (255 : ℤ)
      omega
    obtain ⟨hfinite, hnormal⟩ := normal_kinds (F := single) negative (m := m) hE htop
    rw [← normal_value hlow' hhigh' hE htop] at hrounds hchanged
    rw [sp, Number.unpack_pack]
    exact ⟨hrounds, decide_eq_decide.mpr hchanged.symm, hfinite, hnormal⟩

def Parts.Exact (p : Parts) (t : ℚ) : Prop :=
  (p.remainder = 0 ∧ t = p.magnitude) ∨ Split p.magnitude p.remainder p.halfway t

section Parts

variable {p : Parts} {t : ℚ}

theorem Parts.Exact.decides (rmode : ℕ) (negative : Bool) (h : p.Exact t) :
    Decides (modeOf rmode) negative p.magnitude t
      (p.remainder ≠ 0 && increments rmode negative p.magnitude p.remainder p.halfway) := by
  by_cases hzero : p.remainder = 0
  · have hwhole : t = p.magnitude := by
      rcases h with ⟨-, hwhole⟩ | hsplit
      · exact hwhole
      · exact hsplit.exact.mp hzero
    rw [decide_eq_false (not_not.mpr hzero), Bool.false_and]
    exact decides_whole hwhole
  · rw [decide_eq_true hzero, Bool.true_and]
    exact increments_decides (h.resolve_left fun hwhole ↦ hzero hwhole.1)

theorem Parts.Exact.range (h : p.Exact t) : (p.magnitude : ℚ) ≤ t ∧ t < p.magnitude + 1 := by
  rcases h with ⟨-, hwhole⟩ | hsplit
  · exact ⟨hwhole.ge, by rw [hwhole]; exact lt_add_one _⟩
  · exact ⟨hsplit.low, hsplit.high⟩

theorem Parts.Exact.remainder (h : p.Exact t) : p.remainder = 0 ↔ t = p.magnitude := by
  rcases h with ⟨hzero, hwhole⟩ | hsplit
  · exact iff_of_true hzero hwhole
  · exact hsplit.exact

theorem shifted_exact {f significand : ℕ} {power : ℤ} (hhigh : power < f) :
    Parts.Exact ⟨significand >>> (f - power).toNat, significand % 2 ^ (f - power).toNat,
      2 ^ ((f - power).toNat - 1)⟩
      (significand * 2 ^ (power - f)) := by
  refine .inr ?_
  have hsplit := split_shift significand (show 1 ≤ (f - power).toNat by omega)
  have hvalue : (significand : ℚ) * 2 ^ (power - f) = significand / 2 ^ (f - power).toNat := by
    rw [← zpow_natCast, Int.toNat_of_nonneg (by omega), div_eq_mul_inv, ← zpow_neg, neg_sub]
  rw [hvalue]
  change Split (significand >>> _) _ _ _
  rw [Nat.shiftRight_eq_div_pow]
  exact hsplit

/-- A magnitude below one. -/
theorem small_exact {f significand : ℕ} {power : ℤ} (hlow : 2 ^ f ≤ significand)
    (hhigh : significand < 2 * 2 ^ f) (hf : f < 63)
    (hpower : power < 0) :
    Parts.Exact ⟨0, significand, if power = -1 then 2 ^ f else 2 ^ 64 - 1⟩ (significand * 2 ^ (power - f)) := by
  refine .inr ?_
  have hdouble : 2 * 2 ^ f = 2 ^ (f + 1) := (pow_succ' 2 f).symm
  by_cases hone : power = -1
  · have hsplit := split_shift significand (show 1 ≤ f + 1 by omega)
    rw [Nat.div_eq_of_lt (hdouble ▸ hhigh), Nat.mod_eq_of_lt (hdouble ▸ hhigh), Nat.add_sub_cancel] at hsplit
    have hvalue : (significand : ℚ) * 2 ^ (power - f) = significand / 2 ^ (f + 1) := by
      rw [hone, show (-1 - (f : ℤ)) = -((f + 1 : ℕ) : ℤ) by push_cast; ring, zpow_neg,
        zpow_natCast, div_eq_mul_inv]
    rw [hvalue, if_pos hone]
    exact hsplit
  · rw [if_neg hone]
    have hpos : (0 : ℚ) < significand := by exact_mod_cast (Nat.two_pow_pos f).trans_le hlow
    have ht : 0 < (significand : ℚ) * 2 ^ (power - f) := mul_pos hpos (by positivity)
    have hhalf : (significand : ℚ) * 2 ^ (power - f) < 1 / 2 := by
      calc (significand : ℚ) * 2 ^ (power - f) < 2 ^ (f + 1) * 2 ^ (power - f) :=
            mul_lt_mul_of_pos_right (by exact_mod_cast hdouble ▸ hhigh) (by positivity)
        _ = 2 ^ (power + 1) := by
            rw [← zpow_natCast, ← zpow_add₀ (by norm_num)]
            congr 1
            push_cast
            ring
        _ ≤ 2 ^ (-1 : ℤ) := zpow_le_zpow_right₀ (by norm_num) (by omega)
        _ = 1 / 2 := by norm_num
    have hfew : significand < 2 ^ 64 - 1 := by
      have hpow : 2 ^ (f + 1) ≤ 2 ^ 63 := Nat.pow_le_pow_right (by norm_num) (by omega)
      omega
    generalize (significand : ℚ) * 2 ^ (power - f) = t at ht hhalf
    rw [Nat.cast_pos] at hpos
    refine ⟨?_, ?_, iff_of_false ?_ ?_, iff_of_false ?_ ?_, iff_of_false ?_ ?_⟩
    · simpa using ht.le
    · rw [Nat.cast_zero]
      linarith
    · exact not_lt.mpr hfew.le
    · rw [Nat.cast_zero]
      linarith
    · exact hfew.ne
    · rw [Nat.cast_zero]
      exact (by linarith : t < 0 + 1 / 2).ne
    · exact hpos.ne'
    · rw [Nat.cast_zero]
      exact ht.ne'

theorem spParts_exact {significand : ℕ} {power : ℤ} (hlow : 2 ^ 23 ≤ significand)
    (hhigh : significand < 2 * 2 ^ 23) :
    (spParts significand power).Exact (significand * 2 ^ (power - 23)) := by
  unfold spParts
  by_cases hlarge : 23 ≤ power
  · rw [if_pos hlarge]
    refine .inl ⟨rfl, ?_⟩
    obtain ⟨c, hc⟩ := Int.eq_ofNat_of_zero_le (show 0 ≤ power - 23 by omega)
    rw [hc, zpow_natCast, Int.toNat_natCast, Nat.shiftLeft_eq]
    push_cast
    rfl
  rw [if_neg hlarge]
  by_cases hpos : 0 ≤ power
  · rw [if_pos hpos]
    exact shifted_exact (f := 23) (by omega)
  · rw [if_neg hpos]
    exact small_exact (f := 23) hlow hhigh (by norm_num) (by omega)

theorem dpParts_exact {significand : ℕ} {power : ℤ} (hlow : 2 ^ 52 ≤ significand)
    (hhigh : significand < 2 * 2 ^ 52)
    (hpower : power ≤ 31) : (dpParts significand power).Exact (significand * 2 ^ (power - 52)) := by
  unfold dpParts
  by_cases hpos : 0 ≤ power
  · rw [if_pos hpos]
    exact shifted_exact (f := 52) (by omega)
  · rw [if_neg hpos]
    exact small_exact (f := 52) hlow hhigh (by norm_num) (by omega)

end Parts

/-- What a number has to be as an integer: exact, rounded once, and saturated. -/
structure Converts {F : Format} (n : Number F) (mode : Mode) (saturated : Word) (out : Flagged Word) : Prop where
  nan : n.nan → out = ⟨saturated, inval ||| nan2⟩
  infinite : n.infinite → out = ⟨saturated, inex ||| overflow⟩
  zero : n.value = 0 → out = ⟨0, flag n.denormal (inex ||| den2)⟩
  rounded : !n.nan → !n.infinite → n.value ≠ 0 → ∃ k : ℤ, RoundedInteger mode n.value k ∧
    out = if -2 ^ 31 ≤ k ∧ k < 2 ^ 31 then ⟨BitVec.ofInt 32 k, flag ((k : ℚ) ≠ n.value) inex⟩
      else ⟨saturated, inex ||| overflow⟩

theorem exists_rounded (mode : Mode) (negative : Bool) {t : ℚ} (ht : 0 ≤ t) :
    ∃ k : ℤ, RoundedInteger mode (signed negative t) k ∧ (⌊t⌋₊ : ℤ) ≤ |k| := by
  obtain ⟨up, hup⟩ := exists_decides mode negative ⌊t⌋₊ t
  refine ⟨_, roundedInteger_of_decides (Nat.floor_le ht) (Nat.lt_floor_add_one t) hup, ?_⟩
  have hle : (⌊t⌋₊ : ℤ) ≤ (⌊t⌋₊ + up.toNat : ℕ) := by exact_mod_cast Nat.le_add_right _ _
  cases negative with
  | false => exact hle.trans (le_abs_self _)
  | true => exact hle.trans ((le_abs_self _).trans_eq (abs_neg _).symm)

theorem deliver_integer (negative : Bool) (magnitude : ℕ) (saturated status : Word) :
    (if (!negative && decide (0x7fffffff < magnitude)) || (negative && decide (0x80000000 < magnitude)) then
        (⟨saturated, inex ||| overflow⟩ : Flagged Word)
      else ⟨if negative then 0 - BitVec.ofNat 32 magnitude else BitVec.ofNat 32 magnitude, status⟩) =
      if -2 ^ 31 ≤ (if negative then -(magnitude : ℤ) else magnitude) ∧
          (if negative then -(magnitude : ℤ) else magnitude) < 2 ^ 31 then
        ⟨BitVec.ofInt 32 (if negative then -(magnitude : ℤ) else magnitude), status⟩
      else ⟨saturated, inex ||| overflow⟩ := by
  cases negative with
  | false =>
    simp only [Bool.not_false, Bool.true_and, Bool.false_and, Bool.or_false, Bool.false_eq_true, if_false,
      decide_eq_true_eq]
    by_cases hlarge : 0x7fffffff < magnitude
    · rw [if_pos hlarge, if_neg (by omega)]
    · rw [if_neg hlarge, if_pos (by omega), BitVec.ofInt_natCast]
  | true =>
    simp only [Bool.not_true, Bool.false_and, Bool.true_and, Bool.false_or, if_true, decide_eq_true_eq]
    by_cases hlarge : 0x80000000 < magnitude
    · rw [if_pos hlarge, if_neg (by omega)]
    · rw [if_neg hlarge, if_pos (by omega), BitVec.ofInt_neg, BitVec.ofInt_natCast]
      exact congrArg (Flagged.mk · status) (BitVec.zero_sub _)

theorem toInteger_converts {F : Format} (hF : F.Roomy) {parts : ℕ → ℤ → Parts}
    (hparts : ∀ significand power, F.hidden ≤ significand → significand < 2 * F.hidden → power ≤ 31 →
      (parts significand power).Exact (significand * 2 ^ (power - F.fractionBits))) (n : Number F) (rmode : ℕ) :
    Converts n (modeOf rmode) (if n.negative then 0x80000000 else 0x7fffffff) (toInteger parts n rmode) := by
  unfold toInteger
  dsimp only
  constructor
  · intro h
    rw [Number.nan, Bool.and_eq_true] at h
    rw [if_pos (of_decide_eq_true h.1), if_pos (of_decide_eq_true h.2)]
  · intro h
    rw [Number.infinite, Bool.and_eq_true] at h
    rw [if_pos (of_decide_eq_true h.1), if_neg (not_not.mpr (of_decide_eq_true h.2))]
  · intro h
    have hzero := value_eq_zero_iff.mp h
    rw [if_neg (hzero ▸ zero_ne_allOnes hF), if_pos hzero]
    unfold Number.denormal
    rw [decide_eq_true hzero, Bool.true_and]
    by_cases hfraction : n.fraction ≠ 0#F.fractionBits
    · rw [if_pos hfraction, decide_eq_true hfraction]
      rfl
    · rw [if_neg hfraction, decide_eq_false hfraction]
      rfl
  · intro hnan hinfinite hvalue
    have hfinite := finite_exponent hnan hinfinite
    have hnonzero : n.exponent ≠ 0#F.exponentBits := fun h ↦ hvalue (value_of_zero h)
    obtain ⟨hlow, hhigh⟩ := significand_range n
    rw [if_neg hfinite, if_neg hnonzero, value_of_ne hnonzero]
    have hscaled : F.scaled n.significand n.exponent.toNat =
        n.significand * 2 ^ ((n.exponent.toNat - F.bias : ℤ) - F.fractionBits) := rfl
    rw [hscaled]
    generalize (n.exponent.toNat - F.bias : ℤ) = power
    by_cases hlarge : 31 < power
    · rw [if_pos hlarge]
      have hfar : (2 ^ 32 : ℚ) ≤ n.significand * 2 ^ (power - F.fractionBits) := by
        calc (2 ^ 32 : ℚ) ≤ 2 ^ power := by
              rw [← zpow_natCast]
              exact zpow_le_zpow_right₀ (by norm_num) (by push_cast; omega)
          _ = F.hidden * 2 ^ (power - F.fractionBits) := by
              rw [Format.hidden, Nat.cast_pow, Nat.cast_ofNat, ← zpow_natCast, ← zpow_add₀ (by norm_num)]
              congr 1
              ring
          _ ≤ n.significand * 2 ^ (power - F.fractionBits) :=
              mul_le_mul_of_nonneg_right (by exact_mod_cast hlow) (by positivity)
      obtain ⟨k, hk, hle⟩ := exists_rounded (modeOf rmode) n.negative
          ((by positivity : (0 : ℚ) ≤ 2 ^ 32).trans hfar)
      have hfloor : 2 ^ 32 ≤ ⌊(n.significand : ℚ) * 2 ^ (power - F.fractionBits)⌋₊ := by
        refine Nat.le_floor ?_
        exact_mod_cast hfar
      refine ⟨k, hk, ?_⟩
      have hout : ¬(-2 ^ 31 ≤ k ∧ k < 2 ^ 31) := by
        intro hrange
        have habs : |k| ≤ 2 ^ 31 := abs_le.mpr ⟨hrange.1, hrange.2.le⟩
        omega
      rw [if_neg hout]
    · rw [if_neg hlarge]
      have hexact := hparts n.significand power hlow hhigh (not_lt.mp hlarge)
      generalize parts n.significand power = p at hexact ⊢
      generalize (n.significand : ℚ) * 2 ^ (power - F.fractionBits) = t at hexact ⊢
      have hup := hexact.decides rmode n.negative
      have hrounded := roundedInteger_of_decides hexact.range.1 hexact.range.2 hup
      have hchanged := rounds_iff hexact.range.2 hup
      generalize (decide (p.remainder ≠ 0) && increments rmode n.negative p.magnitude p.remainder p.halfway) = up at *
      refine ⟨_, hrounded, ?_⟩
      have hflag : decide (p.remainder ≠ 0) =
          decide (((if n.negative then -((p.magnitude + up.toNat : ℕ) : ℤ)
            else (p.magnitude + up.toNat : ℕ) : ℤ) : ℚ) ≠
            signed n.negative t) := by
        have hinj : signed n.negative (p.magnitude + up.toNat : ℕ) = signed n.negative t ↔ _ := signed_inj
        rw [decide_eq_decide, not_iff_not, hexact.remainder, ← hchanged, ← hinj]
        cases n.negative with
        | false => rfl
        | true => simp [signed]
      rw [hflag]
      exact deliver_integer _ _ _ _

theorem spToInteger_converts (source : Word) (rmode : ℕ) :
    Converts (sp source) (modeOf rmode) (if (sp source).negative then 0x80000000 else 0x7fffffff)
      (spToInteger source rmode) :=
  toInteger_converts single_roomy (fun _ _ hlow hhigh _ ↦ spParts_exact hlow hhigh) _ _

theorem dpToInteger_converts (source2 : Long) (rmode : ℕ) :
    Converts (dp source2) (modeOf rmode) (if (dp source2).negative then 0x80000000 else 0x7fffffff)
      (dpToInteger source2 rmode) :=
  toInteger_converts double_roomy (fun _ _ hlow hhigh hpower ↦ dpParts_exact hlow hhigh hpower) _ _

/-- A signed or unsigned word as a number of either format. -/
theorem integers_represented :
    (∀ source signedSource rmode, Represents (integerOf source signedSource) (modeOf rmode)
      (sp (integerToSp source signedSource rmode).1) (integerToSp source signedSource rmode).2) ∧
    ∀ source2 signedSource mode, Represents (integerOf source2 signedSource) mode
      (dp (integerToDp source2 signedSource)) false :=
  ⟨integerToSp_represents, integerToDp_represents⟩

/-- A number of either format as a signed word. -/
theorem integers_converted :
    (∀ source rmode, Converts (sp source) (modeOf rmode) (if (sp source).negative then 0x80000000 else 0x7fffffff)
      (spToInteger source rmode)) ∧
    ∀ source2 rmode, Converts (dp source2) (modeOf rmode) (if (dp source2).negative then 0x80000000 else 0x7fffffff)
      (dpToInteger source2 rmode) :=
  ⟨spToInteger_converts, dpToInteger_converts⟩

end Cdj2000Emulator.FloatingPoint
