import Cdj2000Emulator.FloatingPoint.Multiply

namespace Cdj2000Emulator.FloatingPoint

open Library.Rounding Library.Sticky C674x.State C674x.Operands

def widen (n : Number single) : Number double :=
  double.normal n.negative (n.fraction.toNat <<< 29) (n.exponent.toNat - 127 + 1023)

def toDouble (n : Number single) : Flagged (Number double) :=
  if n.nan then ⟨double.nanOut false, nan2 ||| flag n.signalling inval⟩
  else if n.infinite then ⟨double.infinity n.negative, info⟩
  else if n.denormal then ⟨double.zero n.negative, inex ||| den2⟩
  else if n.zero then ⟨double.zero n.negative, 0⟩
  else ⟨widen n, 0⟩

def spToDp (source2 : Word) : Flagged Long := packed (toDouble (sp source2))

/-- `cdj_c674x_sp_operand_to_dp`: a denormal number stays one, whatever its magnitude, and a NaN
keeps its quiet bit. -/
def spOperandToDp (source : Word) : Long :=
  let n := sp source
  Number.pack <|
    if n.exponent = 0#8 then (⟨n.negative, 0#11, if n.fraction ≠ 0#23 then 1#52 else 0#52⟩ : Number double)
    else if n.exponent = 255#8 then ⟨n.negative, BitVec.allOnes _, BitVec.ofNat _ (n.fraction.toNat <<< 29)⟩
    else widen n

def toSingle (n : Number double) (rmode : ℕ) : Flagged (Number single) :=
  if n.nan then ⟨single.nanOut false, nan2 ||| flag n.signalling inval⟩
  else if n.infinite then ⟨single.infinity n.negative, info⟩
  else if n.denormal then ⟨single.zero n.negative, inex ||| den2⟩
  else if n.zero then ⟨single.zero n.negative, 0⟩
  else single.deliver rmode n.negative 0 (n.significand >>> 29) (n.significand % 2 ^ 29) (2 ^ 28)
    (n.exponent.toNat - 1023 + 127)

def dpToSp (source2 : Long) (rmode : ℕ) : Flagged Word := packed (toSingle (dp source2) rmode)

section Formats

/-- What an operand has to be in another format for an operation on it. -/
structure Stands {L R : Format} (n : Number L) (m : Number R) : Prop where
  negative : n.negative = m.negative
  nan : n.nan = m.nan
  signalling : n.signalling = m.signalling
  infinite : n.infinite = m.infinite
  denormal : n.denormal = m.denormal
  value : !n.nan → !n.infinite → n.value = m.value
  zero : n.value = 0 ↔ m.value = 0

theorem widen_eq (n : Number single) :
    widen n = double.normal n.negative (n.significand * 2 ^ 29) (n.exponent.toNat - 127 + 1023) := by
  have hsignificand : n.significand * 2 ^ 29 = double.hidden + n.fraction.toNat * 2 ^ 29 := by
    unfold Number.significand
    rw [add_mul]
    rfl
  rw [hsignificand, normal_hidden, ← Nat.shiftLeft_eq]
  rfl

theorem widen_value {n : Number single} (hzero : n.exponent ≠ 0#(single.exponentBits)) :
    (widen n).value = n.value := by
  obtain ⟨hlow, hhigh⟩ := significand_range n
  have hexponent : n.exponent.toNat < 256 := n.exponent.isLt
  have hhidden : double.hidden = single.hidden * 2 ^ 29 := rfl
  rw [widen_eq, normal_value (by omega) (by omega) (by omega) (by change _ < (2047 : ℤ); omega),
    value_of_ne hzero, signed_inj]
  unfold Format.scaled
  have hbias : (n.exponent.toNat - 127 + 1023 - double.bias - double.fractionBits : ℤ) + 29 =
      n.exponent.toNat - single.bias - single.fractionBits := by
    change (n.exponent.toNat - 127 + 1023 - (1023 : ℤ) - (52 : ℤ)) + 29 =
      n.exponent.toNat - (127 : ℤ) - (23 : ℤ)
    ring
  rw [← hbias, zpow_add₀ (by norm_num)]
  push_cast
  ring

theorem widen_exponent {n : Number single} (hzero : n.exponent ≠ 0#8) (htop : n.exponent ≠ 255#8) :
    (widen n).exponent ≠ 0#11 ∧ (widen n).exponent ≠ BitVec.allOnes _ := by
  have hlt : n.exponent.toNat < 256 := n.exponent.isLt
  have hpos : n.exponent.toNat ≠ 0 := fun h ↦ hzero (BitVec.eq_of_toNat_eq h)
  have hfew : n.exponent.toNat ≠ 255 := fun h ↦ htop (BitVec.eq_of_toNat_eq h)
  have hexponent : (widen n).exponent.toNat = n.exponent.toNat + 896 := by
    change (n.exponent.toNat - 127 + 1023 : ℤ).toNat % 2 ^ 11 = _
    omega
  refine ⟨fun h ↦ ?_, fun h ↦ ?_⟩
  · rw [h] at hexponent
    change 0 = _ at hexponent
    omega
  · rw [h] at hexponent
    change 2047 = _ at hexponent
    omega

theorem lengthen_fraction (fraction : BitVec 23) :
    (BitVec.ofNat 52 (fraction.toNat <<< 29) = 0#52 ↔ fraction = 0#23) ∧
      (BitVec.ofNat 52 (fraction.toNat <<< 29)).msb = fraction.msb := by
  have hlt := fraction.isLt
  have hvalue : (BitVec.ofNat 52 (fraction.toNat <<< 29)).toNat = fraction.toNat * 2 ^ 29 := by
    rw [BitVec.toNat_ofNat, Nat.shiftLeft_eq, Nat.mod_eq_of_lt (by omega)]
  refine ⟨?_, ?_⟩
  · rw [← BitVec.toNat_inj, ← BitVec.toNat_inj, hvalue]
    simp
  · rw [BitVec.msb_eq_decide, BitVec.msb_eq_decide, hvalue, decide_eq_decide]
    omega

theorem Stands.finite {L R : Format} {n : Number L} {m : Number R} (hsign : n.negative = m.negative)
    (hn : n.exponent ≠ BitVec.allOnes _) (hm : m.exponent ≠ BitVec.allOnes _) (hdenormal : n.denormal = m.denormal)
    (hvalue : n.value = m.value) : Stands n m where
  negative := hsign
  nan := by simp [Number.nan, hn, hm]
  signalling := by simp [Number.signalling, Number.nan, hn, hm]
  infinite := by simp [Number.infinite, hn, hm]
  denormal := hdenormal
  value _ _ := hvalue
  zero := by rw [hvalue]

theorem Stands.special {L R : Format} {n : Number L} {m : Number R} (hsign : n.negative = m.negative)
    (hn : n.exponent = BitVec.allOnes _) (hm : m.exponent = BitVec.allOnes _)
    (hfraction : n.fraction = 0#_ ↔ m.fraction = 0#_)
    (hquiet : n.fraction.msb = m.fraction.msb) (hnormal : n.exponent ≠ 0#_) (hnormal' : m.exponent ≠ 0#_) :
    Stands n m where
  negative := hsign
  nan := by simp [Number.nan, hn, hm, hfraction]
  signalling := by simp [Number.signalling, Number.nan, hn, hm, hfraction, hquiet]
  infinite := by simp [Number.infinite, hn, hm, hfraction]
  denormal := by
    unfold Number.denormal
    rw [decide_eq_false hnormal, decide_eq_false hnormal', Bool.false_and, Bool.false_and]
  value hnan hinfinite := absurd hn (finite_exponent hnan hinfinite)
  zero := by
    rw [value_eq_zero_iff, value_eq_zero_iff]
    exact iff_of_false hnormal hnormal'

theorem spOperandToDp_stands (source : Word) : Stands (sp source) (dp (spOperandToDp source)) := by
  unfold spOperandToDp
  generalize sp source = n
  rw [dp, Number.unpack_pack]
  obtain ⟨hlong, hmsb⟩ := lengthen_fraction n.fraction
  have hnonzero : (BitVec.allOnes 11) ≠ 0#11 := by decide
  split_ifs with hzero hfraction htop
  · refine .finite rfl (by rw [hzero]; decide) hnonzero.symm ?_ ?_
    · simpa [Number.denormal, hzero] using hfraction
    · rw [value_of_zero hzero, value_of_zero rfl]
  · refine .finite rfl (by rw [hzero]; decide) hnonzero.symm ?_ ?_
    · simpa [Number.denormal, hzero] using hfraction
    · rw [value_of_zero hzero, value_of_zero rfl]
  · refine .special rfl ?_ rfl hlong.symm hmsb.symm hzero hnonzero
    rw [htop]
    rfl
  · obtain ⟨hnormal, hfinite⟩ := widen_exponent hzero htop
    refine .finite rfl htop hfinite ?_ (widen_value hzero).symm
    unfold Number.denormal
    rw [decide_eq_false hzero, decide_eq_false hnormal, Bool.false_and, Bool.false_and]

theorem stands_self {F : Format} (n : Number F) : Stands n n := ⟨rfl, rfl, rfl, rfl, rfl, fun _ _ ↦ rfl, Iff.rfl⟩

theorem Multiplies.of_stands {L R F : Format} {left : Number L} {right : Number R}
    {left' right' : Number F} {mode : Mode}
    {out : Flagged (Number F)} (hl : Stands left left') (hr : Stands right right')
    (h : Multiplies left' right' mode out) :
    Multiplies left right mode out := by
  obtain ⟨hnan, hinvalid, hinfinite, hzero, hrounded⟩ := h
  have hwarnings : sourceWarnings left right = sourceWarnings left' right' := by
    unfold sourceWarnings
    rw [hl.nan, hr.nan, hl.denormal, hr.denormal]
  have hproduct : left.value * right.value = 0 ↔ left'.value * right'.value = 0 := by
    rw [mul_eq_zero, mul_eq_zero, hl.zero, hr.zero]
  rw [← hl.nan, ← hr.nan, ← hl.negative, ← hr.negative, ← hwarnings, ← hl.signalling,
    ← hr.signalling] at hnan
  rw [← hl.nan, ← hr.nan, ← hl.infinite, ← hr.infinite, ← hl.negative, ← hr.negative, ← hwarnings]
    at hinvalid hinfinite
  rw [← hl.nan, ← hr.nan, ← hl.infinite, ← hr.infinite] at hzero hrounded
  rw [← hl.negative, ← hr.negative, ← hwarnings, ← hl.denormal, ← hr.denormal] at hzero
  refine ⟨hnan, ?_, ?_, ?_, ?_⟩
  · simpa only [hl.zero, hr.zero] using hinvalid
  · simpa only [ne_eq, hl.zero, hr.zero] using hinfinite
  · simpa only [ne_eq, hproduct, hl.zero, hr.zero] using hzero
  · intro h1 h2 h1' h2'
    have hfinite := hrounded h1 h2 h1' h2'
    rw [← hl.value h1 h1', ← hr.value h2 h2', ← hwarnings] at hfinite
    exact hfinite

theorem multiplySpDp_multiplies (left : Word) (right : Long) (rmode : ℕ) :
    Multiplies (sp left) (dp right) (modeOf rmode) (unpacked double (multiplyDp (spOperandToDp left) right rmode)) :=
  (multiplyDp_multiplies _ _ _).of_stands (spOperandToDp_stands left) (stands_self _)

/-- `MPYSP2DP` rounds nothing: a product of two single-precision numbers is a double-precision one. -/
theorem multiplySp2Dp_exact (left right : Word) (rmode : ℕ) (hl : !(sp left).nan) (hr : !(sp right).nan)
    (hl' : !(sp left).infinite) (hr' : !(sp right).infinite) :
    (unpacked double (multiplyDp (spOperandToDp left) (spOperandToDp right) rmode)).value.value =
      (sp left).value * (sp right).value := by
  have hsp2dp : Multiplies (sp left) (sp right) (modeOf rmode)
      (unpacked double (multiplyDp (spOperandToDp left) (spOperandToDp right) rmode)) :=
    (multiplyDp_multiplies _ _ _).of_stands (spOperandToDp_stands left) (spOperandToDp_stands right)
  by_cases hzero : (sp left).value * (sp right).value = 0
  · rw [hsp2dp.zero hl hr hl' hr' hzero, hzero]
    exact value_of_zero rfl
  have hleft : (sp left).exponent ≠ 0#(single.exponentBits) := fun h ↦ hzero (by rw [value_of_zero h, zero_mul])
  have hright : (sp right).exponent ≠ 0#(single.exponentBits) := fun h ↦ hzero (by rw [value_of_zero h, mul_zero])
  obtain ⟨r, hr, hdelivers⟩ := hsp2dp.rounded hl hr hl' hr' hzero
  have hexact : r = (sp left).value * (sp right).value := by
    refine RoundedTo.eq_of_mem hr ?_
    rw [value_of_ne hleft, value_of_ne hright, signed_mul]
    refine precise_signed ?_
    have hfew : (sp left).significand * (sp right).significand < 2 ^ double.precision :=
      (Nat.mul_lt_mul'' (significand_range (sp left)).2 (significand_range (sp right)).2).trans (by decide)
    have hproduct := precise_nat hfew ((sp left).exponent.toNat - single.bias - single.fractionBits +
      ((sp right).exponent.toNat - single.bias - single.fractionBits))
    rw [zpow_add₀ (by norm_num)] at hproduct
    unfold Format.scaled
    rw [mul_mul_mul_comm]
    exact_mod_cast hproduct
  have hl := finite_range (finite_exponent hl hl') hleft
  have hr' := finite_range (finite_exponent ‹_› hr') hright
  have hlow : double.least ≤ |r| := by
    rw [hexact, abs_mul]
    calc double.least ≤ single.least * single.least := by
          unfold Format.least
          rw [← zpow_add₀ (by norm_num)]
          exact zpow_le_zpow_right₀ (by norm_num) (by decide)
      _ ≤ _ := mul_le_mul hl.1 hr'.1 (by unfold Format.least; positivity) (abs_nonneg _)
  have hhigh : |r| < double.beyond := by
    rw [hexact, abs_mul]
    calc _ ≤ single.beyond * single.beyond :=
          mul_le_mul hl.2.le hr'.2.le (abs_nonneg _) (by unfold Format.beyond; positivity)
      _ < double.beyond := by
          unfold Format.beyond
          rw [← zpow_add₀ (by norm_num)]
          exact zpow_lt_zpow_right₀ (by norm_num) (by decide)
  generalize unpacked double (multiplyDp (spOperandToDp left) (spOperandToDp right) rmode) = out at hdelivers ⊢
  cases hdelivers with
  | overflow large => exact absurd hhigh (not_lt.mpr large)
  | underflow small => exact absurd hlow (not_le.mpr small)
  | normal low high eq => exact eq.trans hexact

/-- What a number has to be in the other format: exact, and rounded once. -/
structure Narrows {L F : Format} (n : Number L) (mode : Mode) (out : Flagged (Number F)) : Prop where
  nan : n.nan → out = ⟨F.nanOut false, nan2 ||| flag n.signalling inval⟩
  infinite : n.infinite → out = ⟨F.infinity n.negative, info⟩
  zero : n.value = 0 → out = ⟨F.zero n.negative, flag n.denormal (inex ||| den2)⟩
  rounded : !n.nan → !n.infinite → n.value ≠ 0 →
    ∃ r, Rounded F.precision mode n.value r ∧ Delivers F mode n.value r 0 out

section Kinds

variable {F : Format} {n : Number F}

theorem kinds_of_value (hF : F.Roomy) (h : n.value = 0) : n.nan = false ∧ n.infinite = false ∧
    n.zero = !n.denormal := by
  have hzero := value_eq_zero_iff.mp h
  have hne : (0#F.exponentBits) ≠ BitVec.allOnes F.exponentBits := zero_ne_allOnes hF
  unfold Number.nan Number.infinite Number.zero Number.denormal
  rw [hzero]
  simp [hne]

theorem kinds_of_finite (hnan : !n.nan) (hinfinite : !n.infinite) (hvalue : n.value ≠ 0) :
    n.nan = false ∧ n.infinite = false ∧ n.denormal = false ∧ n.zero = false := by
  have hzero : n.exponent ≠ 0#F.exponentBits := fun h ↦ hvalue (value_of_zero h)
  rw [Bool.not_eq_true'] at hnan hinfinite
  refine ⟨hnan, hinfinite, ?_, ?_⟩
  · unfold Number.denormal
    rw [decide_eq_false hzero, Bool.false_and]
  · unfold Number.zero
    rw [decide_eq_false hzero, Bool.false_and]

end Kinds

theorem dpToSp_narrows (source2 : Long) (rmode : ℕ) :
    Narrows (dp source2) (modeOf rmode) (unpacked single (dpToSp source2 rmode)) := by
  unfold dpToSp
  rw [unpacked_packed]
  generalize dp source2 = n
  unfold toSingle
  constructor
  · intro h
    rw [if_pos h]
  · intro h
    have hnan : n.nan = false := by
      unfold Number.nan
      unfold Number.infinite at h
      rw [Bool.and_eq_true] at h
      rw [decide_eq_false (not_not.mpr (of_decide_eq_true h.2)), Bool.and_false]
    rw [hnan, if_neg Bool.false_ne_true, if_pos h]
  · intro h
    obtain ⟨hnan, hinfinite, hzero⟩ := kinds_of_value double_roomy h
    rw [hnan, hinfinite, hzero, if_neg Bool.false_ne_true, if_neg Bool.false_ne_true]
    cases n.denormal with
    | false => rfl
    | true => rfl
  · intro hnan hinfinite hvalue
    obtain ⟨hnan, hinfinite, hdenormal, hzero⟩ := kinds_of_finite hnan hinfinite hvalue
    rw [hnan, hinfinite, hdenormal, hzero]
    simp only [Bool.false_eq_true, if_false]
    have hnonzero : n.exponent ≠ 0#(double.exponentBits) := fun h ↦ hvalue (value_of_zero h)
    obtain ⟨hlow, hhigh⟩ := significand_range n
    have hhidden : double.hidden = single.hidden * 2 ^ 29 := rfl
    have hsplit := split_shift n.significand (show 1 ≤ 29 by norm_num)
    have hx : n.value = signed n.negative (single.scaled (n.significand / 2 ^ 29) (n.exponent.toNat - 1023 + 127)) := by
      rw [value_of_ne hnonzero, signed_inj]
      unfold Format.scaled
      have hbias : (n.exponent.toNat - 1023 + 127 - single.bias - single.fractionBits : ℤ) =
          n.exponent.toNat - double.bias - double.fractionBits + 29 := by
        change n.exponent.toNat - 1023 + 127 - (127 : ℤ) - (23 : ℤ) =
          n.exponent.toNat - (1023 : ℤ) - (52 : ℤ) + 29
        ring
      rw [hbias, zpow_add₀ (by norm_num)]
      norm_num
      ring
    rw [hx, Nat.shiftRight_eq_div_pow]
    exact deliver_delivers single_roomy hsplit (by omega) (by omega)

theorem deliver_exact {n : Number single} {rmode : ℕ} (hlow : 1 ≤ n.exponent.toNat)
    (hhigh : n.exponent.toNat < 255) :
    single.deliver rmode n.negative 0 n.significand 0 (2 ^ 28) n.exponent.toNat = ⟨n, 0⟩ := by
  have hincrement : increments rmode n.negative n.significand 0 (2 ^ 28) = false := by
    simp [increments]
  have htop : single.top = 255 := rfl
  have hnormal : single.normal n.negative n.significand n.exponent.toNat = n := by
    unfold Number.significand
    rw [normal_hidden]
    unfold Format.normal
    rw [Int.toNat_natCast, BitVec.ofNat_toNat, BitVec.ofNat_toNat, BitVec.setWidth_eq, BitVec.setWidth_eq]
  unfold Format.deliver Format.carry
  rw [hincrement]
  simp only [Bool.false_eq_true, if_false]
  rw [if_neg (by omega), if_neg (by omega), hnormal]
  rfl

theorem toSingle_widen {n : Number single} (hzero : n.exponent ≠ 0#8) (htop : n.exponent ≠ 255#8) (rmode : ℕ) :
    toSingle (widen n) rmode = ⟨n, 0⟩ := by
  obtain ⟨hnormal, hfinite⟩ := widen_exponent hzero htop
  have hlt : n.exponent.toNat < 256 := n.exponent.isLt
  have hpos : n.exponent.toNat ≠ 0 := fun h ↦ hzero (BitVec.eq_of_toNat_eq h)
  have hfew : n.exponent.toNat ≠ 255 := fun h ↦ htop (BitVec.eq_of_toNat_eq h)
  have hexponent : ((widen n).exponent.toNat : ℤ) - 1023 + 127 = n.exponent.toNat := by
    change (((n.exponent.toNat - 127 + 1023 : ℤ).toNat % 2 ^ 11 : ℕ) : ℤ) - 1023 + 127 = _
    omega
  have hsignificand : (widen n).significand = n.significand * 2 ^ 29 := by
    have hfraction : n.fraction.toNat < 2 ^ 23 := n.fraction.isLt
    have hvalue : (widen n).fraction.toNat = n.fraction.toNat * 2 ^ 29 := by
      change (n.fraction.toNat <<< 29) % 2 ^ 52 = _
      rw [Nat.shiftLeft_eq, Nat.mod_eq_of_lt (by omega)]
    unfold Number.significand
    rw [hvalue, add_mul]
    rfl
  have hkinds : (widen n).nan = false ∧ (widen n).infinite = false ∧ (widen n).denormal = false ∧
      (widen n).zero = false := by
    unfold Number.nan Number.infinite Number.denormal Number.zero
    rw [decide_eq_false hnormal, decide_eq_false hfinite]
    exact ⟨Bool.false_and _, Bool.false_and _, Bool.false_and _, Bool.false_and _⟩
  unfold toSingle
  rw [hkinds.1, hkinds.2.1, hkinds.2.2.1, hkinds.2.2.2, hsignificand, hexponent, Nat.shiftRight_eq_div_pow,
    Nat.mul_div_cancel _ (by norm_num), Nat.mul_mod_left]
  exact deliver_exact (by omega) (by omega)

/-- There and back, a number is what it was, in every rounding mode. -/
theorem toSingle_toDouble (n : Number single) (rmode : ℕ) :
    (toSingle (toDouble n).value rmode).value =
      if n.nan then single.nanOut false else if n.denormal then single.zero n.negative else n := by
  obtain ⟨negative, exponent, fraction⟩ := n
  by_cases htop : exponent = 255#8
  · by_cases hfraction : fraction = 0#23
    · rw [htop, hfraction]
      cases negative with
      | false => rfl
      | true => rfl
    · have hnan : (⟨negative, exponent, fraction⟩ : Number single).nan = true := by
        rw [htop]
        simp [Number.nan, hfraction]
      unfold toDouble
      rw [hnan]
      rfl
  · by_cases hzero : exponent = 0#8
    · by_cases hfraction : fraction = 0#23
      · rw [hzero, hfraction]
        cases negative with
        | false => rfl
        | true => rfl
      · have hdenormal : (⟨negative, exponent, fraction⟩ : Number single).denormal = true := by
          rw [hzero]
          simp [Number.denormal, hfraction]
        have hkinds := kinds_of_value single_roomy (value_of_zero (n := ⟨negative, exponent, fraction⟩) hzero)
        unfold toDouble
        rw [hdenormal, hkinds.1, hkinds.2.1]
        cases negative with
        | false => rfl
        | true => rfl
    · have hkinds : (⟨negative, exponent, fraction⟩ : Number single).nan = false ∧
          (⟨negative, exponent, fraction⟩ : Number single).infinite = false ∧
          (⟨negative, exponent, fraction⟩ : Number single).denormal = false ∧
          (⟨negative, exponent, fraction⟩ : Number single).zero = false := by
        have hfinite : exponent ≠ BitVec.allOnes 8 := htop
        unfold Number.nan Number.infinite Number.denormal Number.zero
        dsimp only
        rw [decide_eq_false hzero, decide_eq_false hfinite]
        exact ⟨Bool.false_and _, Bool.false_and _, Bool.false_and _, Bool.false_and _⟩
      unfold toDouble
      rw [hkinds.1, hkinds.2.1, hkinds.2.2.1, hkinds.2.2.2]
      simp only [Bool.false_eq_true, if_false]
      rw [toSingle_widen hzero htop]

theorem dpToSp_spToDp (source : Word) (rmode : ℕ) :
    sp (dpToSp (spToDp source).value rmode).value =
      if (sp source).nan then single.nanOut false
      else if (sp source).denormal then single.zero (sp source).negative
      else sp source := by
  unfold dpToSp spToDp packed
  rw [dp, Number.unpack_pack, sp, Number.unpack_pack, toSingle_toDouble]

theorem spToDp_value (source2 : Word) (hnan : !(sp source2).nan) (hinfinite : !(sp source2).infinite) :
    (dp (spToDp source2).value).value = (sp source2).value := by
  unfold spToDp packed
  rw [dp, Number.unpack_pack]
  generalize sp source2 = n at *
  rw [Bool.not_eq_true'] at hnan hinfinite
  unfold toDouble
  rw [hnan, hinfinite]
  simp only [Bool.false_eq_true, if_false]
  by_cases hzero : n.value = 0
  · have hkinds := kinds_of_value single_roomy hzero
    rw [hkinds.2.2]
    cases n.denormal with
    | false => exact (value_of_zero rfl).trans hzero.symm
    | true => exact (value_of_zero rfl).trans hzero.symm
  · obtain ⟨-, -, hdenormal, hnotZero⟩ := kinds_of_finite (by rw [hnan]; rfl) (by rw [hinfinite]; rfl) hzero
    rw [hdenormal, hnotZero]
    exact widen_value fun h ↦ hzero (value_of_zero h)

theorem mixed_products :
    (∀ left right rmode, Multiplies (sp left) (dp right) (modeOf rmode)
      (unpacked double (multiplyDp (spOperandToDp left) right rmode))) ∧
    ∀ left right rmode, Multiplies (sp left) (sp right) (modeOf rmode)
        (unpacked double (multiplyDp (spOperandToDp left) (spOperandToDp right) rmode)) ∧
      (!(sp left).nan → !(sp right).nan → !(sp left).infinite → !(sp right).infinite →
        (unpacked double (multiplyDp (spOperandToDp left) (spOperandToDp right) rmode)).value.value =
          (sp left).value * (sp right).value) :=
  ⟨multiplySpDp_multiplies, fun left right rmode ↦
    ⟨(multiplyDp_multiplies _ _ _).of_stands (spOperandToDp_stands left) (spOperandToDp_stands right),
      multiplySp2Dp_exact left right rmode⟩⟩

/-- Between the formats: down a number is rounded once, up it keeps its value, and up and down again it
is what it was. -/
theorem formats_converted :
    (∀ source2 rmode, Narrows (dp source2) (modeOf rmode) (unpacked single (dpToSp source2 rmode))) ∧
    (∀ source2, !(sp source2).nan → !(sp source2).infinite → (dp (spToDp source2).value).value =
    (sp source2).value) ∧
    ∀ source rmode, sp (dpToSp (spToDp source).value rmode).value =
      if (sp source).nan then single.nanOut false
      else if (sp source).denormal then single.zero (sp source).negative
      else sp source :=
  ⟨dpToSp_narrows, spToDp_value, dpToSp_spToDp⟩

end Formats

end Cdj2000Emulator.FloatingPoint
