import Cdj2000Emulator.FloatingPoint.Deliver

namespace Cdj2000Emulator.FloatingPoint

open Library.Rounding Library.Sticky C674x.State C674x.Operands

/-- What a product is asked for: its top bit, and a quotient and a remainder by a power of two. -/
structure Product where
  top : Bool
  mantissa : ℕ → ℕ
  remainder : ℕ → ℕ

def product (a b : ℕ) : Product where
  top := (a * b).testBit 47
  mantissa shift := (a * b) >>> shift
  remainder shift := a * b % 2 ^ shift

/-- `multiply64`: the high and the low word of a product, from its halves. -/
def multiply64 (a b : BitVec 64) : BitVec 64 × BitVec 64 :=
  let al := a &&& 0xffffffff#64
  let ah := a >>> 32
  let bl := b &&& 0xffffffff#64
  let bh := b >>> 32
  let ll := al * bl
  let lh := al * bh
  let hl := ah * bl
  let hh := ah * bh
  let middle := (ll >>> 32) + (lh &&& 0xffffffff#64) + (hl &&& 0xffffffff#64)
  (hh + (lh >>> 32) + (hl >>> 32) + (middle >>> 32), (ll &&& 0xffffffff#64) ||| middle <<< 32)

def product64 (a b : ℕ) : Product :=
  let (high, low) := multiply64 (BitVec.ofNat 64 a) (BitVec.ofNat 64 b)
  { top := high.getLsbD 41
    mantissa := fun shift ↦ (high <<< (64 - shift) ||| low >>> shift).toNat
    remainder := fun shift ↦ (low &&& ((1#64 <<< shift) - 1#64)).toNat }

/-- `cdj_c674x_multiply_sp` and `cdj_c674x_multiply_dp`, with their way to multiply significands. -/
def multiply (F : Format) (times : ℕ → ℕ → Product) (left right : Number F)
    (rmode : ℕ) : Flagged (Number F) :=
  let sign := left.negative != right.negative
  let status := flag left.nan nan1 ||| flag right.nan nan2 ||| flag left.denormal den1 ||| flag right.denormal den2
  if left.nan || right.nan then ⟨F.nanOut sign, status ||| flag (left.signalling || right.signalling) inval⟩
  else if (left.infinite && (right.zero || right.denormal)) || (right.infinite && (left.zero || left.denormal)) then
    ⟨F.nanOut sign, status ||| inval⟩
  else if left.infinite || right.infinite then ⟨F.infinity sign, status ||| info⟩
  else if left.zero || right.zero || left.denormal || right.denormal then
    ⟨F.zero sign, status ||| flag ((left.denormal && !right.zero && !right.denormal) ||
      (right.denormal && !left.zero && !left.denormal)) inex⟩
  else
    let p := times left.significand right.significand
    let msb := if p.top then 2 * F.fractionBits + 1 else 2 * F.fractionBits
    let shift := msb - F.fractionBits
    F.deliver rmode sign status (p.mantissa shift) (p.remainder shift) (2 ^ (shift - 1))
      (left.exponent.toNat + right.exponent.toNat - F.bias + msb - 2 * F.fractionBits)

def multiplySp (left right : Word) (rmode : ℕ) : Flagged Word :=
    packed (multiply single product (sp left) (sp right) rmode)

def multiplyDp (left right : Long) (rmode : ℕ) : Flagged Long :=
    packed (multiply double product64 (dp left) (dp right) rmode)

/-- A product of at most `2 * f + 2` bits as it is. -/
structure Product.Exact (p : Product) (f v : ℕ) : Prop where
  top : p.top = decide (2 ^ (2 * f + 1) ≤ v)
  mantissa : ∀ shift, shift = f ∨ shift = f + 1 → p.mantissa shift = v / 2 ^ shift
  remainder : ∀ shift, shift = f ∨ shift = f + 1 → p.remainder shift = v % 2 ^ shift

theorem product_exact {a b : ℕ} (h : a * b < 2 ^ 48) : (product a b).Exact 23 (a * b) where
  top := testBit_top h
  mantissa _ _ := Nat.shiftRight_eq_div_pow _ _
  remainder _ _ := rfl

theorem toNat_low (a : BitVec 64) : (a &&& 0xffffffff#64).toNat = a.toNat % 2 ^ 32 := by
  rw [BitVec.toNat_and]
  exact Nat.and_two_pow_sub_one_eq_mod _ 32

theorem toNat_high (a : BitVec 64) : (a >>> 32).toNat = a.toNat / 2 ^ 32 := by
  rw [BitVec.toNat_ushiftRight, Nat.shiftRight_eq_div_pow]

/-- The two words are the whole product. -/
theorem multiply64_exact (a b : BitVec 64) :
    (multiply64 a b).1.toNat * 2 ^ 64 + (multiply64 a b).2.toNat = a.toNat * b.toNat := by
  unfold multiply64
  dsimp only
  have hal := toNat_low a
  have hah := toNat_high a
  have hbl := toNat_low b
  have hbh := toNat_high b
  have ha := Nat.div_add_mod a.toNat (2 ^ 32)
  have hb := Nat.div_add_mod b.toNat (2 ^ 32)
  have halt := a.isLt
  have hblt := b.isLt
  generalize a &&& 0xffffffff#64 = al at *
  generalize a >>> 32 = ah at *
  generalize b &&& 0xffffffff#64 = bl at *
  generalize b >>> 32 = bh at *
  have hwide {x y : BitVec 64} (hx : x.toNat < 2 ^ 32) (hy : y.toNat < 2 ^ 32) :
      (x * y).toNat = x.toNat * y.toNat ∧ x.toNat * y.toNat ≤ (2 ^ 32 - 1) * (2 ^ 32 - 1) := by
    have hle : x.toNat * y.toNat ≤ (2 ^ 32 - 1) * (2 ^ 32 - 1) := Nat.mul_le_mul (by omega) (by omega)
    refine ⟨?_, hle⟩
    rw [BitVec.toNat_mul, Nat.mod_eq_of_lt (hle.trans_lt (by norm_num))]
  obtain ⟨hll, hllLe⟩ := hwide (x := al) (y := bl) (by omega) (by omega)
  obtain ⟨hlh, hlhLe⟩ := hwide (x := al) (y := bh) (by omega) (by omega)
  obtain ⟨hhl, hhlLe⟩ := hwide (x := ah) (y := bl) (by omega) (by omega)
  obtain ⟨hhh, hhhLe⟩ := hwide (x := ah) (y := bh) (by omega) (by omega)
  have hproduct : a.toNat * b.toNat = (ah * bh).toNat * 2 ^ 64 + (al * bh).toNat * 2 ^ 32 + (ah * bl).toNat * 2 ^ 32 +
      (al * bl).toNat := by
    rw [hll, hlh, hhl, hhh, hal, hah, hbl, hbh]
    conv_lhs => rw [← ha, ← hb]
    ring
  have hllow := toNat_low (al * bl)
  have hllhigh := toNat_high (al * bl)
  have hlhlow := toNat_low (al * bh)
  have hlhhigh := toNat_high (al * bh)
  have hhllow := toNat_low (ah * bl)
  have hhlhigh := toNat_high (ah * bl)
  rw [← hll] at hllLe
  rw [← hlh] at hlhLe
  rw [← hhl] at hhlLe
  rw [← hhh] at hhhLe
  rw [hproduct]
  clear hproduct hll hlh hhl hhh ha hb hal hah hbl hbh hwide
  generalize al * bl = ll at *
  generalize al * bh = lh at *
  generalize ah * bl = hl at *
  generalize ah * bh = hh at *
  have hmiddle : ((ll >>> 32) + (lh &&& 0xffffffff#64) + (hl &&& 0xffffffff#64)).toNat =
      ll.toNat / 2 ^ 32 + lh.toNat % 2 ^ 32 + hl.toNat % 2 ^ 32 := by
    rw [BitVec.toNat_add, BitVec.toNat_add, hllhigh, hlhlow, hhllow]
    omega
  generalize (ll >>> 32) + (lh &&& 0xffffffff#64) + (hl &&& 0xffffffff#64) = middle at *
  have hmiddleHigh := toNat_high middle
  have hhigh : (hh + (lh >>> 32) + (hl >>> 32) + (middle >>> 32)).toNat =
      hh.toNat + lh.toNat / 2 ^ 32 + hl.toNat / 2 ^ 32 + middle.toNat / 2 ^ 32 := by
    rw [BitVec.toNat_add, BitVec.toNat_add, BitVec.toNat_add, hlhhigh, hhlhigh, hmiddleHigh]
    omega
  have hlow : ((ll &&& 0xffffffff#64) ||| middle <<< 32).toNat =
      ll.toNat % 2 ^ 32 + middle.toNat % 2 ^ 32 * 2 ^ 32 := by
    have hshift : (middle <<< 32).toNat = middle.toNat % 2 ^ 32 * 2 ^ 32 := by
      rw [BitVec.toNat_shiftLeft, Nat.shiftLeft_eq]
      omega
    rw [BitVec.toNat_or, hllow, hshift, Nat.or_comm, add_comm, mul_comm]
    exact (Nat.two_pow_add_eq_or_of_lt (Nat.mod_lt _ (by norm_num)) _).symm
  rw [hhigh, hlow, hmiddle]
  omega

theorem product64_exact {a b : ℕ} (ha : a < 2 ^ 53) (hb : b < 2 ^ 53) : (product64 a b).Exact 52 (a * b) := by
  have hwhole := multiply64_exact (BitVec.ofNat 64 a) (BitVec.ofNat 64 b)
  rw [BitVec.toNat_ofNat, BitVec.toNat_ofNat, Nat.mod_eq_of_lt (ha.trans (by norm_num)),
    Nat.mod_eq_of_lt (hb.trans (by norm_num))] at hwhole
  have hsmall : a * b < 2 ^ 106 := by
    have := Nat.mul_lt_mul'' ha hb
    omega
  unfold product64
  generalize multiply64 (BitVec.ofNat 64 a) (BitVec.ofNat 64 b) = words at hwhole ⊢
  obtain ⟨high, low⟩ := words
  dsimp only at hwhole ⊢
  rw [← hwhole] at hsmall ⊢
  have hlow := low.isLt
  have hhigh : high.toNat < 2 ^ 42 := by omega
  refine ⟨?_, ?_, ?_⟩
  · change high.toNat.testBit 41 = _
    rw [testBit_top (by omega), decide_eq_decide]
    omega
  · rintro shift (rfl | rfl)
    · have hfits : high.toNat * 2 ^ 12 < 2 ^ 64 := by
        clear hsmall
        omega
      have hrest : low.toNat / 2 ^ 52 < 2 ^ 12 := by omega
      change (high <<< (12 : ℕ) ||| low >>> (52 : ℕ)).toNat = _
      simp only [BitVec.toNat_or, BitVec.toNat_shiftLeft, BitVec.toNat_ushiftRight, Nat.shiftLeft_eq,
        Nat.shiftRight_eq_div_pow]
      rw [Nat.mod_eq_of_lt hfits, mul_comm, ← Nat.two_pow_add_eq_or_of_lt hrest]
      omega
    · have hfits : high.toNat * 2 ^ 11 < 2 ^ 64 := by
        clear hsmall
        omega
      have hrest : low.toNat / 2 ^ 53 < 2 ^ 11 := by omega
      change (high <<< (11 : ℕ) ||| low >>> (53 : ℕ)).toNat = _
      simp only [BitVec.toNat_or, BitVec.toNat_shiftLeft, BitVec.toNat_ushiftRight, Nat.shiftLeft_eq,
        Nat.shiftRight_eq_div_pow]
      rw [Nat.mod_eq_of_lt hfits, mul_comm, ← Nat.two_pow_add_eq_or_of_lt hrest]
      omega
  · have hmask (shift : ℕ) (h : shift ≤ 64) (hvalue : ((1#64 <<< shift) - 1#64).toNat = 2 ^ shift - 1) :
        (low &&& ((1#64 <<< shift) - 1#64)).toNat = (high.toNat * 2 ^ 64 + low.toNat) % 2 ^ shift := by
      have hdvd : 2 ^ shift ∣ high.toNat * 2 ^ 64 := (Nat.pow_dvd_pow 2 h).mul_left _
      rw [BitVec.toNat_and, hvalue, Nat.and_two_pow_sub_one_eq_mod, Nat.add_mod, Nat.mod_eq_zero_of_dvd hdvd, zero_add,
        Nat.mod_mod]
    rintro shift (rfl | rfl)
    · exact hmask 52 (by norm_num) (by simp)
    · exact hmask 53 (by norm_num) (by simp)

/-- What a product has to be: exact, and rounded once. -/
structure Multiplies {L R F : Format} (left : Number L) (right : Number R) (mode : Mode)
    (out : Flagged (Number F)) : Prop where
  nan : left.nan || right.nan → out = ⟨F.nanOut (left.negative != right.negative),
    sourceWarnings left right ||| flag (left.signalling || right.signalling) inval⟩
  invalid : !left.nan → !right.nan → (left.infinite && right.value = 0) || (right.infinite && left.value = 0) →
    out = ⟨F.nanOut (left.negative != right.negative), sourceWarnings left right ||| inval⟩
  infinite : !left.nan → !right.nan → left.value ≠ 0 → right.value ≠ 0 → left.infinite || right.infinite →
    out = ⟨F.infinity (left.negative != right.negative), sourceWarnings left right ||| info⟩
  zero : !left.nan → !right.nan → !left.infinite → !right.infinite → left.value * right.value = 0 →
    out = ⟨F.zero (left.negative != right.negative), sourceWarnings left right |||
      flag ((left.denormal && right.value ≠ 0) || (right.denormal && left.value ≠ 0)) inex⟩
  rounded : !left.nan → !right.nan → !left.infinite → !right.infinite → left.value * right.value ≠ 0 →
    ∃ r, Rounded F.precision mode (left.value * right.value) r ∧
      Delivers F mode (left.value * right.value) r (sourceWarnings left right) out

section Multiply

variable {F : Format} {times : ℕ → ℕ → Product}

theorem signed_mul (a b : Bool) (x y : ℚ) : signed a x * signed b y = signed (a != b) (x * y) := by
  cases a <;> cases b <;> simp [signed]

def Faithful (F : Format) (times : ℕ → ℕ → Product) : Prop :=
  ∀ a b, F.hidden ≤ a → a < 2 * F.hidden → F.hidden ≤ b → b < 2 * F.hidden →
    (times a b).Exact F.fractionBits (a * b)

theorem product_faithful : Faithful single product := by
  intro a b _ ha _ hb
  refine product_exact ?_
  have := Nat.mul_lt_mul'' ha hb
  change a * b < 2 * 2 ^ 23 * (2 * 2 ^ 23) at this
  omega

theorem product64_faithful : Faithful double product64 := fun _ _ _ ha _ hb ↦ product64_exact ha hb

theorem finite_rounds (hF : F.Roomy) (htimes : Faithful F times) (left right : Number F) (rmode : ℕ) (status : Word)
    (hleft : left.exponent ≠ 0#F.exponentBits) (hright : right.exponent ≠ 0#F.exponentBits) :
    let p := times left.significand right.significand
    let msb := if p.top then 2 * F.fractionBits + 1 else 2 * F.fractionBits
    let shift := msb - F.fractionBits
    ∃ r, Rounded F.precision (modeOf rmode) (left.value * right.value) r ∧
      Delivers F (modeOf rmode) (left.value * right.value) r status
        (F.deliver rmode (left.negative != right.negative) status (p.mantissa shift) (p.remainder shift)
          (2 ^ (shift - 1))
          (left.exponent.toNat + right.exponent.toNat - F.bias + msb - 2 * F.fractionBits)) := by
  have hl := significand_range left
  have hr := significand_range right
  have hexact := htimes _ _ hl.1 hl.2 hr.1 hr.2
  have hfraction := hF.fraction
  set v := left.significand * right.significand
  have hpower (i : ℕ) : 2 ^ (F.fractionBits + i) = 2 ^ i * F.hidden := by
    rw [pow_add, mul_comm]
    rfl
  have hsquare : 2 ^ (2 * F.fractionBits + 1) = 2 * (F.hidden * F.hidden) := by
    rw [show 2 * F.fractionBits + 1 = F.fractionBits + (F.fractionBits + 1) by ring, hpower, pow_succ]
    change F.hidden * 2 * F.hidden = _
    ring
  have hlow : F.hidden * F.hidden ≤ v := Nat.mul_le_mul hl.1 hr.1
  have hhigh : v < 4 * (F.hidden * F.hidden) := by
    have := Nat.mul_lt_mul'' hl.2 hr.2
    calc v < 2 * F.hidden * (2 * F.hidden) := this
      _ = 4 * (F.hidden * F.hidden) := by ring
  intro p msb shift
  obtain ⟨carry, hmsb, hmantissa⟩ : ∃ carry, msb = 2 * F.fractionBits + carry ∧ carry ≤ 1 ∧
      F.hidden ≤ v / 2 ^ (F.fractionBits + carry) ∧ v / 2 ^ (F.fractionBits + carry) < 2 * F.hidden := by
    by_cases hlarge : 2 ^ (2 * F.fractionBits + 1) ≤ v
    · refine ⟨1, if_pos (by rw [hexact.top]; exact decide_eq_true hlarge), le_rfl, ?_, ?_⟩
      · rw [Nat.le_div_iff_mul_le (by positivity), hpower]
        calc F.hidden * (2 ^ 1 * F.hidden) = 2 * (F.hidden * F.hidden) := by ring
          _ ≤ v := hsquare ▸ hlarge
      · refine Nat.div_lt_of_lt_mul ?_
        rw [hpower]
        calc v < 4 * (F.hidden * F.hidden) := hhigh
          _ = 2 ^ 1 * F.hidden * (2 * F.hidden) := by ring
    · refine ⟨0, if_neg (by rw [hexact.top]; simpa using hlarge), Nat.zero_le 1, ?_, ?_⟩
      · rw [Nat.le_div_iff_mul_le (by positivity), hpower]
        calc F.hidden * (2 ^ 0 * F.hidden) = F.hidden * F.hidden := by ring
          _ ≤ v := hlow
      · refine Nat.div_lt_of_lt_mul ?_
        rw [hpower]
        calc v < 2 * (F.hidden * F.hidden) := hsquare ▸ not_le.mp hlarge
          _ = 2 ^ 0 * F.hidden * (2 * F.hidden) := by ring
  obtain ⟨hcarry, hmLow, hmHigh⟩ := hmantissa
  have hshift : shift = F.fractionBits + carry := by omega
  have hcases : shift = F.fractionBits ∨ shift = F.fractionBits + 1 := by omega
  have hsplit := split_shift v (show 1 ≤ shift by omega)
  have hx : left.value * right.value = signed (left.negative != right.negative)
      (F.scaled (v / 2 ^ shift) (left.exponent.toNat + right.exponent.toNat - F.bias + msb - 2 * F.fractionBits)) := by
    rw [value_of_ne hleft, value_of_ne hright, signed_mul, signed_inj]
    unfold Format.scaled
    rw [hmsb, hshift]
    push_cast
    rw [mul_mul_mul_comm, ← zpow_add₀ (by norm_num), div_mul_eq_mul_div, eq_div_iff (by positivity), mul_assoc,
      ← zpow_natCast, ← zpow_add₀ (by norm_num)]
    congr 2
    · exact (Nat.cast_mul _ _).symm
    · push_cast
      ring
  rw [hx]
  rw [hexact.mantissa shift hcases, hexact.remainder shift hcases]
  exact deliver_delivers hF hsplit (hshift ▸ hmLow) (hshift ▸ hmHigh)

theorem multiply_multiplies (hF : F.Roomy) (htimes : Faithful F times) (left right : Number F) (rmode : ℕ) :
    Multiplies left right (modeOf rmode) (multiply F times left right rmode) := by
  have hl := zero_or_denormal_eq (n := left)
  have hr := zero_or_denormal_eq (n := right)
  have hinvalid : ((left.infinite && (right.zero || right.denormal)) ||
      (right.infinite && (left.zero || left.denormal))) =
      ((left.infinite && right.value = 0) || (right.infinite && left.value = 0)) := by
    rw [hl, hr]
  have hzero : (left.zero || right.zero || left.denormal || right.denormal) =
      decide (left.value * right.value = 0) := by
    rw [decide_eq_decide.mpr mul_eq_zero, Bool.decide_or, ← hl, ← hr]
    ac_rfl
  have hinex : ((left.denormal && !right.zero && !right.denormal) || (right.denormal && !left.zero && !left.denormal)) =
      ((left.denormal && right.value ≠ 0) || (right.denormal && left.value ≠ 0)) := by
    rw [decide_not, decide_not, ← hl, ← hr, Bool.not_or, Bool.not_or, Bool.and_assoc, Bool.and_assoc]
  have hnumber (h : !left.nan) (h' : !right.nan) : ¬(left.nan || right.nan) := by
    rw [Bool.not_eq_true'] at h h'
    rw [h, h']
    exact Bool.false_ne_true
  unfold multiply
  dsimp only
  rw [hinvalid, hzero, hinex]
  constructor
  · exact fun h ↦ if_pos h
  · intro hln hrn h
    rw [if_neg (hnumber hln hrn), if_pos h]
    rfl
  · intro hln hrn hlz hrz h
    have hvalid : ¬((left.infinite && right.value = 0) || (right.infinite && left.value = 0)) := by
      simp [hlz, hrz]
    rw [if_neg (hnumber hln hrn), if_neg hvalid, if_pos h]
    rfl
  · intro hln hrn hli hri h
    rw [Bool.not_eq_true'] at hli hri
    rw [if_neg (hnumber hln hrn), hli, hri, if_neg (by simp), if_neg (by simp), if_pos (decide_eq_true h)]
    rfl
  · intro hln hrn hli hri h
    rw [Bool.not_eq_true'] at hli hri
    rw [if_neg (hnumber hln hrn), hli, hri, if_neg (by simp), if_neg (by simp), if_neg (by simpa using h)]
    have hleft : left.exponent ≠ 0#F.exponentBits := fun hexponent ↦ h (by rw [value_of_zero hexponent, zero_mul])
    have hright : right.exponent ≠ 0#F.exponentBits := fun hexponent ↦ h (by rw [value_of_zero hexponent, mul_zero])
    exact finite_rounds hF htimes left right rmode _ hleft hright

theorem multiplySp_multiplies (left right : Word) (rmode : ℕ) :
    Multiplies (sp left) (sp right) (modeOf rmode) (unpacked single (multiplySp left right rmode)) := by
  unfold multiplySp
  rw [unpacked_packed]
  exact multiply_multiplies single_roomy product_faithful _ _ _

theorem multiplyDp_multiplies (left right : Long) (rmode : ℕ) :
    Multiplies (dp left) (dp right) (modeOf rmode) (unpacked double (multiplyDp left right rmode)) := by
  unfold multiplyDp
  rw [unpacked_packed]
  exact multiply_multiplies double_roomy product64_faithful _ _ _

theorem products_rounded :
    (∀ left right rmode, Multiplies (sp left) (sp right) (modeOf rmode)
    (unpacked single (multiplySp left right rmode))) ∧
    ∀ left right rmode, Multiplies (dp left) (dp right) (modeOf rmode)
      (unpacked double (multiplyDp left right rmode)) :=
  ⟨multiplySp_multiplies, multiplyDp_multiplies⟩

end Multiply

end Cdj2000Emulator.FloatingPoint
