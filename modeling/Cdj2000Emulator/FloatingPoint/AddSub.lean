import Cdj2000Emulator.FloatingPoint.Deliver

namespace Cdj2000Emulator.FloatingPoint

open Library.Rounding Library.Sticky C674x.State C674x.Operands

/-- `right_shift_jam32` and `right_shift_jam64`. -/
def rightShiftJam (bits value count : ℕ) : ℕ :=
  if count = 0 then value
  else if count < bits then value >>> count ||| if (value <<< (bits - count)) % 2 ^ bits ≠ 0 then 1 else 0
  else if value ≠ 0 then 1 else 0

section Sum

variable {F : Format}

def align (left right : Number F) : ℕ × ℕ × ℤ :=
  let lsig := left.significand <<< 3
  let rsig := right.significand <<< 3
  let le := left.exponent.toNat
  let re := right.exponent.toNat
  if re < le then (lsig, rightShiftJam F.width rsig (le - re), le)
  else if le < re then (rightShiftJam F.width lsig (re - le), rsig, re)
  else (lsig, rsig, le)

/-- The loop that shifts a difference up. -/
def normalise (F : Format) : ℕ → ℕ → ℤ → ℕ × ℤ
  | 0, significand, exponent => (significand, exponent)
  | fuel + 1, significand, exponent =>
    if significand.testBit (F.fractionBits + 3) then (significand, exponent)
    else normalise F fuel (significand <<< 1) (exponent - 1)

def roundSum (F : Format) (rmode : ℕ) (negative : Bool) (status : Word) (significand : ℕ) (exponent : ℤ) :
    Flagged (Number F) :=
  if exponent ≤ 0 then F.underflowed rmode negative status
  else
    let mantissa := significand >>> 3
    let remainder := significand % 8
    let (m, e) := F.carry mantissa exponent (increments rmode negative mantissa remainder 4)
    if F.top ≤ e then F.overflowed rmode negative status
    else ⟨F.normal negative m e, status ||| flag (remainder ≠ 0) inex⟩

def sum (left right : Number F) (rmode : ℕ) (status : Word) : Flagged (Number F) :=
  let lzero : Bool := left.exponent = 0#F.exponentBits
  let rzero : Bool := right.exponent = 0#F.exponentBits
  if lzero && rzero then
    ⟨F.zero (if left.negative = right.negative then left.negative else rmode = 3), status⟩
  else if lzero then ⟨right, status⟩
  else if rzero then ⟨left, status⟩
  else
    let (lsig, rsig, exponent) := align left right
    if left.negative = right.negative then
      let significand := lsig + rsig
      if significand.testBit (F.fractionBits + 4) then
        roundSum F rmode left.negative status (rightShiftJam F.width significand 1) (exponent + 1)
      else roundSum F rmode left.negative status significand exponent
    else if lsig = rsig then ⟨F.zero (rmode = 3), status⟩
    else
      let (sign, difference) := if rsig < lsig then (left.negative, lsig - rsig) else (right.negative, rsig - lsig)
      let (significand, exponent) := normalise F (F.fractionBits + 3) difference exponent
      roundSum F rmode sign status significand exponent

end Sum

/-- `cdj_c674x_add_sub_sp` and `cdj_c674x_add_sub_dp`. -/
def addSub (F : Format) (source1 source2 : Number F) (operation rmode : ℕ) : Flagged (Number F) :=
  let status := flag source1.nan nan1 ||| flag source2.nan nan2 ||| flag source1.denormal den1 |||
    flag source2.denormal den2
  if source1.nan || source2.nan then ⟨F.nanOut false,
    status ||| flag (source1.signalling || source2.signalling) inval⟩
  else
    let status := status ||| flag (source1.denormal && !source2.infinite) inex
    let status := status ||| flag (source2.denormal && !source1.infinite) inex
    let left := if operation = 2 then source2 else source1
    let right := if operation = 2 then source1 else source2
    let right := if operation ≠ 0 then right.negate else right
    let left := left.flush
    let right := right.flush
    if left.infinite || right.infinite then
      if left.infinite && right.infinite && left.negative != right.negative then ⟨F.nanOut false, status ||| inval⟩
      else ⟨{ (if left.infinite then left else right) with fraction := 0 }, status ||| info⟩
    else sum left right rmode status

def addSubSp (source1 source2 : Word) (operation rmode : ℕ) : Flagged Word :=
  packed (addSub single (sp source1) (sp source2) operation rmode)

def addSubDp (source1 source2 : Long) (operation rmode : ℕ) : Flagged Long :=
  packed (addSub double (dp source1) (dp source2) operation rmode)

theorem rightShiftJam_eq {bits value : ℕ} (h : value < 2 ^ bits) (count : ℕ) :
    rightShiftJam bits value count = jam value count := by
  unfold jam
  rcases Nat.eq_zero_or_pos count with rfl | hpos
  · rw [pow_zero, Nat.div_one, Nat.mod_one, if_neg (not_not.mpr rfl), Nat.or_zero]
    rfl
  unfold rightShiftJam
  rw [if_neg hpos.ne']
  by_cases hshort : count < bits
  · have hlost : value * 2 ^ (bits - count) % 2 ^ bits = value % 2 ^ count * 2 ^ (bits - count) := by
      rw [← Nat.mul_mod_mul_right, ← pow_add, Nat.add_sub_cancel' hshort.le]
    have hiff : value * 2 ^ (bits - count) % 2 ^ bits ≠ 0 ↔ value % 2 ^ count ≠ 0 := by
      rw [hlost, Nat.mul_ne_zero_iff]
      exact and_iff_left (Nat.two_pow_pos _).ne'
    rw [if_pos hshort, Nat.shiftRight_eq_div_pow, Nat.shiftLeft_eq]
    simp only [hiff]
  · have hsmall : value < 2 ^ count := h.trans_le (Nat.pow_le_pow_right (by norm_num) (not_lt.mp hshort))
    rw [if_neg hshort, Nat.div_eq_of_lt hsmall, Nat.mod_eq_of_lt hsmall, Nat.zero_or]

section Align

variable {F : Format} {left right : Number F} {lsig rsig q k : ℕ} {E : ℤ} {s : ℚ}

/-- Two significands at one exponent, and what they stand for. -/
structure Aligned (left right : Number F) (lsig rsig : ℕ) (E : ℤ) (sl sr : ℚ) : Prop where
  leftValue : F.scaled left.significand left.exponent.toNat = F.scaled (sl / 8) E
  rightValue : F.scaled right.significand right.exponent.toNat = F.scaled (sr / 8) E
  sum : Agree 2 (lsig + rsig : ℤ) (sl + sr)
  difference : Agree 2 (lsig - rsig : ℤ) (sl - sr)
  close : (lsig = sl ∧ rsig = sr) ∨ lsig + 4 * F.hidden ≤ rsig ∨ rsig + 4 * F.hidden ≤ lsig
  leftRange : lsig < 16 * F.hidden
  rightRange : rsig < 16 * F.hidden
  large : 8 * F.hidden ≤ lsig ∨ 8 * F.hidden ≤ rsig
  exponent : E = left.exponent.toNat ∨ E = right.exponent.toNat

theorem Aligned.swap {sl sr : ℚ} (h : Aligned left right lsig rsig E sl sr) :
    Aligned right left rsig lsig E sr sl where
  leftValue := h.rightValue
  rightValue := h.leftValue
  sum := by
    rw [add_comm, add_comm sr]
    exact h.sum
  difference := by
    rw [← neg_sub, ← neg_sub sl]
    exact h.difference.neg
  close := by
    rcases h.close with ⟨hl, hr⟩ | hfar | hfar
    · exact .inl ⟨hr, hl⟩
    · exact .inr (.inr hfar)
    · exact .inr (.inl hfar)
  leftRange := h.rightRange
  rightRange := h.leftRange
  large := h.large.symm
  exponent := h.exponent.symm

theorem aligned_same (h : left.exponent.toNat = right.exponent.toNat) :
    Aligned left right (left.significand * 8) (right.significand * 8) left.exponent.toNat (left.significand * 8)
      (right.significand * 8) := by
  have hl := significand_range left
  have hr := significand_range right
  refine ⟨?_, ?_, ?_, ?_, .inl ⟨by push_cast; rfl, by push_cast; rfl⟩, by omega, by omega,
    .inl (by omega), .inl rfl⟩
  · rw [mul_div_cancel_right₀ _ (by norm_num)]
  · rw [mul_div_cancel_right₀ _ (by norm_num), h]
  · exact_mod_cast Agree.refl 2 (left.significand * 8 + right.significand * 8 : ℤ)
  · exact_mod_cast Agree.refl 2 (left.significand * 8 - right.significand * 8 : ℤ)

/-- The smaller number is shifted down, what falls out is kept in its last bit. -/
theorem aligned_far (hF : F.Roomy) (h : right.exponent.toNat < left.exponent.toNat) :
    Aligned left right (left.significand * 8) (jam (right.significand * 8) (left.exponent.toNat - right.exponent.toNat))
      left.exponent.toNat (left.significand * 8)
      ((right.significand * 8 : ℕ) / 2 ^ (left.exponent.toNat - right.exponent.toNat)) := by
  have hl := significand_range left
  have hr := significand_range right
  have hfraction := hF.fraction
  obtain ⟨d, hd⟩ : ∃ d, left.exponent.toNat = right.exponent.toNat + d + 1 :=
    ⟨left.exponent.toNat - right.exponent.toNat - 1, by omega⟩
  have hshift : left.exponent.toNat - right.exponent.toNat = d + 1 := by omega
  rw [hshift]
  have hjam := agree_jam (right.significand * 8) (d + 1)
  have heven : (2 : ℤ) ∣ (left.significand * 8 : ℕ) := ⟨left.significand * 4, by push_cast; ring⟩
  have hhalf : right.significand * 8 / 2 ^ (d + 1) < 8 * F.hidden := by
    refine Nat.div_lt_of_lt_mul ?_
    have hpow : 2 ≤ 2 ^ (d + 1) := Nat.le_self_pow (by omega) 2
    calc right.significand * 8 < 2 * (8 * F.hidden) := by omega
      _ ≤ 2 ^ (d + 1) * (8 * F.hidden) := Nat.mul_le_mul_right _ hpow
  have hpower (i : ℕ) : 2 ^ (F.fractionBits + i) = 2 ^ i * F.hidden := by
    rw [pow_add, mul_comm]
    rfl
  have hrange : jam (right.significand * 8) (d + 1) < 8 * F.hidden := by
    have hlt : jam (right.significand * 8) (d + 1) < 2 ^ (F.fractionBits + 3) :=
      jam_lt (by omega) (by rw [hpower]; exact hhalf)
    rwa [hpower] at hlt
  refine ⟨?_, ?_, ?_, ?_, ?_, by omega, by omega, .inl (by omega), .inl rfl⟩
  · rw [mul_div_cancel_right₀ _ (by norm_num)]
  · unfold Format.scaled
    rw [hd]
    push_cast
    rw [show (right.exponent.toNat + d + 1 - F.bias - F.fractionBits : ℤ) =
      right.exponent.toNat - F.bias - F.fractionBits + (d + 1 : ℕ) by push_cast; ring,
        zpow_add₀ (by norm_num), zpow_natCast]
    field_simp
  · have hsum := hjam.add heven
    push_cast at hsum ⊢
    exact hsum
  · have hdifference := hjam.sub heven
    push_cast at hdifference ⊢
    exact hdifference
  · rcases Nat.lt_or_ge d 3 with hnear | hfar
    · have hdvd : 2 ^ (d + 1) ∣ right.significand * 8 :=
        (Nat.pow_dvd_pow 2 (show d + 1 ≤ 3 by omega)).trans (Dvd.intro_left _ rfl)
      refine .inl ⟨by push_cast; rfl, ?_⟩
      rw [jam_exact hdvd, Nat.cast_div hdvd (by positivity)]
      push_cast
      rfl
    · refine .inr (.inr ?_)
      have hsmall : right.significand * 8 / 2 ^ (d + 1) < F.hidden := by
        refine Nat.div_lt_of_lt_mul ?_
        have hpow : 2 ^ 4 ≤ 2 ^ (d + 1) := Nat.pow_le_pow_right (by norm_num) (by omega)
        calc right.significand * 8 < 2 ^ 4 * F.hidden := by omega
          _ ≤ 2 ^ (d + 1) * F.hidden := Nat.mul_le_mul_right _ hpow
      have hlt : jam (right.significand * 8) (d + 1) < F.hidden := jam_lt (by omega) hsmall
      omega

theorem align_spec (hF : F.Roomy) (left right : Number F) :
    ∃ sl sr, Aligned left right (align left right).1 (align left right).2.1 (align left right).2.2 sl sr := by
  have hroom : 2 ^ (F.fractionBits + 4) ≤ 2 ^ F.width := by
    refine Nat.pow_le_pow_right (by norm_num) ?_
    have := hF.exponent
    unfold Format.width
    omega
  have hfits (n : Number F) : n.significand * 8 < 2 ^ F.width := by
    have hn := significand_range n
    have hpower : 2 ^ (F.fractionBits + 4) = 16 * F.hidden := by
      rw [pow_add, mul_comm]
      rfl
    omega
  unfold align
  dsimp only
  rw [Nat.shiftLeft_eq, Nat.shiftLeft_eq, show 2 ^ 3 = 8 from rfl]
  split_ifs with hlarge hsmall
  · rw [rightShiftJam_eq (hfits right)]
    exact ⟨_, _, aligned_far hF hlarge⟩
  · rw [rightShiftJam_eq (hfits left)]
    exact ⟨_, _, (aligned_far hF hsmall).swap⟩
  · exact ⟨_, _, aligned_same (by omega)⟩

end Align

section RoundSum

variable {F : Format} {negative : Bool} {status : Word} {rmode q : ℕ} {E : ℤ} {s x : ℚ}

/-- The unit of the least normal numbers. -/
def Format.unit (F : Format) : ℚ := 2 ^ (1 - F.bias - F.fractionBits : ℤ)

theorem exists_multiple (n : Number F) : ∃ k : ℤ, n.value = k * F.unit := by
  unfold Number.value
  split_ifs with hzero
  · exact ⟨0, by simp⟩
  · have hexponent : 1 ≤ n.exponent.toNat := by
      rw [Nat.one_le_iff_ne_zero]
      exact fun h ↦ hzero (BitVec.eq_of_toNat_eq h)
    obtain ⟨e, he⟩ := Nat.exists_eq_add_of_le hexponent
    have hscale : (n.significand : ℚ) * 2 ^ (n.exponent.toNat - F.bias - F.fractionBits : ℤ) =
        (n.significand * 2 ^ e : ℕ) * F.unit := by
      unfold Format.unit
      rw [he, show ((1 + e : ℕ) - F.bias - F.fractionBits : ℤ) =
        e + (1 - F.bias - F.fractionBits) by push_cast; ring,
        zpow_add₀ (by norm_num), zpow_natCast]
      push_cast
      ring
    rw [hscale]
    cases n.negative with
    | false => exact ⟨(n.significand * 2 ^ e : ℕ), by simp [signed]⟩
    | true => exact ⟨-(n.significand * 2 ^ e : ℕ), by simp [signed]⟩

theorem least_eq (F : Format) : F.least = F.hidden * F.unit := by
  unfold Format.least Format.unit Format.hidden
  rw [Nat.cast_pow, Nat.cast_ofNat, ← zpow_natCast, ← zpow_add₀ (by norm_num)]
  congr 1
  ring

/-- What is too small for a normal number is exact. -/
theorem precise_of_small {k : ℤ} (hx : x = k * F.unit) (h : |x| < F.least) : Precise F.precision x := by
  have hunit : 0 < F.unit := by
    unfold Format.unit
    positivity
  refine ⟨k, _, ?_, hx⟩
  rw [hx, abs_mul, abs_of_pos hunit, least_eq, mul_lt_mul_iff_of_pos_right hunit, ← Int.cast_abs] at h
  have hk : |k| < (F.hidden : ℤ) := by exact_mod_cast h
  refine hk.trans ?_
  unfold Format.hidden Format.precision
  exact_mod_cast Nat.pow_lt_pow_right (by norm_num) (Nat.lt_succ_self _)

theorem roundSum_pos (hE : 0 < E) :
    roundSum F rmode negative status q E = F.deliver rmode negative status (q / 8) (q % 8) 4 E := by
  have hcarry : E ≤ (F.carry (q / 8) E (increments rmode negative (q / 8) (q % 8) 4)).2 := by
    unfold Format.carry
    split_ifs
    · exact (Int.lt_succ E).le
    · exact le_rfl
    · exact le_rfl
  unfold roundSum Format.deliver
  rw [if_neg (not_le.mpr hE), Nat.shiftRight_eq_div_pow, show 2 ^ 3 = 8 from rfl]
  dsimp only
  generalize F.carry (q / 8) E (increments rmode negative (q / 8) (q % 8) 4) = carried at hcarry ⊢
  have hpos : ¬carried.2 ≤ 0 := by omega
  rw [if_neg hpos]

/-- A sum's significand, as exact as its rounding needs it. -/
structure Ready (F : Format) (q : ℕ) (s : ℚ) : Prop where
  low : 8 * F.hidden ≤ q
  high : q < 16 * F.hidden
  agree : Agree 4 q s

theorem Ready.range (h : Ready F q s) : (8 : ℚ) * F.hidden ≤ s ∧ s < 16 * F.hidden := by
  have hlow := h.agree.le_iff (k := 8 * F.hidden) ⟨2 * F.hidden, by ring⟩
  have hhigh := (h.agree (16 * F.hidden) ⟨4 * F.hidden, by ring⟩).1
  push_cast at hlow hhigh
  exact ⟨hlow.mp (by exact_mod_cast h.low), hhigh.mp (by exact_mod_cast h.high)⟩

theorem roundSum_delivers (hF : F.Roomy) (h : Ready F q s) (hx : x = signed negative (F.scaled (s / 8) E))
    (hexact : ∃ k : ℤ, x = k * F.unit) :
    ∃ r, Rounded F.precision (modeOf rmode) x r ∧ Delivers F (modeOf rmode) x r status
      (roundSum F rmode negative status q E) := by
  obtain ⟨hlow, hhigh⟩ := h.range
  have hhidden : (0 : ℚ) < F.hidden := by exact_mod_cast Nat.two_pow_pos _
  rcases lt_or_ge 0 E with hpos | hsmall
  · rw [roundSum_pos hpos, hx]
    have hsplit : Split (q / 8) (q % 8) 4 (s / 8) := by
      have hquarter := h.agree.split (show 0 < 4 by norm_num)
      norm_num at hquarter
      exact hquarter
    have hqlow := h.low
    have hqhigh := h.high
    exact deliver_delivers hF hsplit (by omega) (by omega)
  · have hscaled : 0 < F.scaled (s / 8) E := scaled_pos (by linarith)
    have hleast : |x| < F.least := by
      rw [hx, abs_signed hscaled.le]
      refine (scaled_lt (by linarith)).trans_le (zpow_le_zpow_right₀ (by norm_num) ?_)
      omega
    obtain ⟨k, hk⟩ := hexact
    refine ⟨x, roundedTo_self (precise_of_small hk hleast), ?_⟩
    unfold roundSum
    rw [if_pos hsmall]
    refine underflowed_delivers ?_ hleast
    rw [hx]
    exact signed_neg_iff hscaled

end RoundSum

section Sum

variable {F : Format} {left right : Number F} {rmode : ℕ} {status : Word} {lsig rsig d n : ℕ}
  {E : ℤ} {sl sr s : ℚ}

theorem normalise_spec (E : ℤ) (hlow : 8 * F.hidden ≤ d * 2 ^ n) (hhigh : d < 16 * F.hidden) :
    ∃ k : ℕ, normalise F n d E = (d * 2 ^ k, E - k) ∧ 8 * F.hidden ≤ d * 2 ^ k ∧
      d * 2 ^ k < 16 * F.hidden := by
  have hpower (i : ℕ) : 2 ^ (F.fractionBits + i) = 2 ^ i * F.hidden := by
    rw [pow_add, mul_comm]
    rfl
  induction n generalizing d E with
  | zero => exact ⟨0, by simp [normalise], by simpa using hlow, by simpa using hhigh⟩
  | succ n ih =>
    unfold normalise
    rw [testBit_top (by rw [add_assoc, hpower]; exact hhigh), hpower]
    by_cases hdone : 2 ^ 3 * F.hidden ≤ d
    · rw [if_pos (decide_eq_true hdone)]
      exact ⟨0, by simp, by simpa using hdone, by simpa using hhigh⟩
    · rw [if_neg (by simpa using hdone)]
      obtain ⟨k, hk, hklow, hkhigh⟩ := ih (d := d <<< 1) (E - 1)
        (by rw [Nat.shiftLeft_eq, mul_assoc, ← pow_add, add_comm]; exact hlow)
        (by rw [Nat.shiftLeft_eq]; omega)
      have hshift : d <<< 1 * 2 ^ k = d * 2 ^ (k + 1) := by
        rw [Nat.shiftLeft_eq, mul_assoc, ← pow_add, add_comm]
      rw [hshift] at hk hklow hkhigh
      refine ⟨k + 1, ?_, hklow, hkhigh⟩
      rw [hk]
      push_cast
      congr 1
      ring

theorem scaled_double (q : ℚ) (E : ℤ) (k : ℕ) : F.scaled (q * 2 ^ k) (E - k) = F.scaled q E := by
  unfold Format.scaled
  rw [mul_assoc, ← zpow_natCast, ← zpow_add₀ (by norm_num)]
  congr 2
  ring

theorem difference_ready (h : Aligned left right lsig rsig E sl sr) (hless : rsig < lsig) :
    ∃ k : ℕ, normalise F (F.fractionBits + 3) (lsig - rsig) E = ((lsig - rsig) * 2 ^ k, E - k) ∧
      Ready F ((lsig - rsig) * 2 ^ k) ((sl - sr) * 2 ^ k) := by
  have hpower : 8 * F.hidden = 2 ^ (F.fractionBits + 3) := by
    rw [pow_add, mul_comm]
    rfl
  have hrange := h.leftRange
  obtain ⟨k, hk, hlow, hhigh⟩ := normalise_spec (F := F) (d := lsig - rsig) (n := F.fractionBits + 3) E
    (by rw [hpower]; exact Nat.le_mul_of_pos_left _ (by omega)) (by omega)
  refine ⟨k, hk, hlow, hhigh, ?_⟩
  have hcast : (((lsig - rsig) * 2 ^ k : ℕ) : ℤ) = (lsig - rsig : ℤ) * 2 ^ k := by
    rw [Nat.cast_mul, Nat.cast_sub hless.le]
    push_cast
    rfl
  rw [hcast]
  rcases h.close with ⟨hl, hr⟩ | hfar | hfar
  · have hunit : Agree 1 ((lsig - rsig : ℤ) * 2 ^ k) ((sl - sr) * 2 ^ k) := by
      rw [← hl, ← hr]
      exact_mod_cast Agree.refl 1 ((lsig - rsig : ℤ) * 2 ^ k)
    exact hunit.mono (one_dvd 4)
  · omega
  · have hshort : k ≤ 1 := by
      by_contra hlong
      have hpow : 2 ^ 2 ≤ 2 ^ k := Nat.pow_le_pow_right (by norm_num) (by omega)
      have hgrow := Nat.mul_le_mul (show 4 * F.hidden ≤ lsig - rsig by omega) hpow
      omega
    refine (h.difference.doubles k).mono ?_
    have hcases : k = 0 ∨ k = 1 := by omega
    rcases hcases with rfl | rfl
    · exact ⟨2, by norm_num⟩
    · exact ⟨1, by norm_num⟩

theorem sum_ready (h : Aligned left right lsig rsig E sl sr) :
    if (lsig + rsig).testBit (F.fractionBits + 4) then Ready F (jam (lsig + rsig) 1) ((sl + sr) / 2)
    else Ready F (lsig + rsig) (sl + sr) := by
  have hpower (i : ℕ) : 2 ^ (F.fractionBits + i) = 2 ^ i * F.hidden := by
    rw [pow_add, mul_comm]
    rfl
  have hl := h.leftRange
  have hr := h.rightRange
  have hlarge : 8 * F.hidden ≤ lsig + rsig := by
    rcases h.large with hlarge | hlarge
    · omega
    · omega
  have hagree : Agree 4 (lsig + rsig : ℕ) (sl + sr) := by
    rw [Nat.cast_add]
    exact h.sum.mono ⟨2, by norm_num⟩
  rw [testBit_top (by rw [add_assoc, hpower]; omega), hpower]
  split_ifs with htop
  · have htop := of_decide_eq_true htop
    refine ⟨?_, ?_, hagree.jam_one.mono ⟨2, by norm_num⟩⟩
    · refine le_trans ?_ (le_jam _ 1)
      omega
    · have hlt : jam (lsig + rsig) 1 < 2 ^ (F.fractionBits + 4) := jam_lt (by omega) (by rw [hpower]; omega)
      rwa [hpower] at hlt
  · have htop : ¬2 ^ 4 * F.hidden ≤ lsig + rsig := by simpa using htop
    exact ⟨hlarge, by omega, hagree⟩

theorem scaled_add (a b : ℚ) (E : ℤ) : F.scaled a E + F.scaled b E = F.scaled (a + b) E := (add_mul a b _).symm

theorem scaled_sub (a b : ℚ) (E : ℤ) : F.scaled a E - F.scaled b E = F.scaled (a - b) E := (sub_mul a b _).symm

theorem signed_add_same (negative : Bool) (a b : ℚ) : signed negative a + signed negative b =
    signed negative (a + b) := by
  cases negative with
  | false => rfl
  | true => exact (neg_add a b).symm

theorem signed_add_opposite (negative : Bool) (a b : ℚ) :
    signed negative a + signed (!negative) b = signed negative (a - b) := by
  cases negative with
  | false => exact (sub_eq_add_neg a b).symm
  | true => exact (neg_add_eq_sub a b).trans (neg_sub a b).symm

/-- What the sum of two finite numbers has to be: exact, and rounded once. -/
structure Sums (left right : Number F) (mode : Mode) (status : Word) (out : Flagged (Number F)) : Prop where
  zero : left.value + right.value = 0 →
    out = ⟨F.zero (if left.negative = right.negative then left.negative else mode = .downward), status⟩
  rounded : left.value + right.value ≠ 0 → ∃ r, Rounded F.precision mode (left.value + right.value) r ∧
    Delivers F mode (left.value + right.value) r status out

theorem modeOf_downward (rmode : ℕ) : decide (modeOf rmode = .downward) = decide (rmode = 3) := by
  match rmode with
  | 0 => rfl
  | 1 => rfl
  | 2 => rfl
  | 3 => rfl
  | rmode + 4 => simp [modeOf]

theorem sums_of_ready {negative : Bool} {q : ℕ} (hF : F.Roomy) (h : Ready F q s)
    (hx : left.value + right.value = signed negative (F.scaled (s / 8) E)) :
    Sums left right (modeOf rmode) status (roundSum F rmode negative status q E) := by
  have hpos : 0 < F.scaled (s / 8) E := by
    have hhidden : (0 : ℚ) < F.hidden := by exact_mod_cast Nat.two_pow_pos _
    have hlow := h.range.1
    exact scaled_pos (by linarith)
  obtain ⟨k, hk⟩ := exists_multiple left
  obtain ⟨l, hl⟩ := exists_multiple right
  refine ⟨fun hzero ↦ ?_, fun _ ↦ roundSum_delivers hF h hx ⟨k + l, by rw [hk, hl]; push_cast; ring⟩⟩
  have habs : |left.value + right.value| = F.scaled (s / 8) E := by rw [hx, abs_signed hpos.le]
  rw [hzero, abs_zero] at habs
  exact absurd habs hpos.ne

/-- Two normal numbers of one sign. -/
theorem same_sums (rmode : ℕ) (status : Word) (hF : F.Roomy) (h : Aligned left right lsig rsig E sl sr)
    (hleft : left.exponent ≠ 0#F.exponentBits)
    (hright : right.exponent ≠ 0#F.exponentBits) (hsign : left.negative = right.negative) :
    Sums left right (modeOf rmode) status
      (if (lsig + rsig).testBit (F.fractionBits + 4) then
        roundSum F rmode left.negative status (rightShiftJam F.width (lsig + rsig) 1) (E + 1)
      else roundSum F rmode left.negative status (lsig + rsig) E) := by
  have hx : left.value + right.value = signed left.negative (F.scaled ((sl + sr) / 8) E) := by
    rw [value_of_ne hleft, value_of_ne hright, ← hsign, signed_add_same, h.leftValue, h.rightValue,
      scaled_add, add_div]
  have hready := sum_ready h
  have hfits : lsig + rsig < 2 ^ F.width := by
    have hl := h.leftRange
    have hr := h.rightRange
    have hpower : 2 ^ (F.fractionBits + 5) = 32 * F.hidden := by
      rw [pow_add, mul_comm]
      rfl
    have hroom : 2 ^ (F.fractionBits + 5) ≤ 2 ^ F.width := by
      refine Nat.pow_le_pow_right (by norm_num) ?_
      have := hF.exponent
      unfold Format.width
      omega
    omega
  rw [rightShiftJam_eq hfits]
  split_ifs at hready ⊢
  · refine sums_of_ready hF hready ?_
    have hdouble := scaled_double (F := F) ((sl + sr) / 2 / 8) (E + 1) 1
    rw [Nat.cast_one, add_sub_cancel_right] at hdouble
    rw [hx, ← hdouble]
    congr 2
    ring
  · exact sums_of_ready hF hready hx

theorem opposite_sums (rmode : ℕ) (status : Word) (hF : F.Roomy) (h : Aligned left right lsig rsig E sl sr)
    (hleft : left.exponent ≠ 0#F.exponentBits)
    (hright : right.exponent ≠ 0#F.exponentBits) (hsign : right.negative = !left.negative) (hless : rsig < lsig) :
    let (significand, exponent) := normalise F (F.fractionBits + 3) (lsig - rsig) E
    Sums left right (modeOf rmode) status (roundSum F rmode left.negative status significand exponent) := by
  obtain ⟨k, hk, hready⟩ := difference_ready h hless
  rw [hk]
  refine sums_of_ready hF hready ?_
  rw [value_of_ne hleft, value_of_ne hright, hsign, signed_add_opposite, h.leftValue, h.rightValue,
    scaled_sub, ← sub_div,
    mul_div_right_comm, scaled_double]

theorem Sums.swap {mode : Mode} {out : Flagged (Number F)} (h : Sums left right mode status out)
    (hsign : left.negative ≠ right.negative) : Sums right left mode status out := by
  obtain ⟨hzero, hrounded⟩ := h
  rw [add_comm, if_neg hsign] at hzero
  rw [add_comm] at hrounded
  exact ⟨fun hx ↦ by rw [if_neg hsign.symm]; exact hzero hx, hrounded⟩

theorem sum_sums (rmode : ℕ) (status : Word) (hF : F.Roomy) (hl : left.exponent ≠ BitVec.allOnes F.exponentBits)
    (hr : right.exponent ≠ BitVec.allOnes F.exponentBits) :
    Sums left right (modeOf rmode) status (sum left right rmode status) := by
  unfold sum
  dsimp only
  by_cases hleft : left.exponent = 0#F.exponentBits
  · by_cases hright : right.exponent = 0#F.exponentBits
    · rw [if_pos (by simp [hleft, hright])]
      refine ⟨fun _ ↦ ?_, fun hx ↦ absurd ?_ hx⟩
      · rw [modeOf_downward]
      · rw [value_of_zero hleft, value_of_zero hright, add_zero]
    · rw [if_neg (by simp [hright]), if_pos (decide_eq_true hleft)]
      refine ⟨fun hx ↦ absurd ?_ hright, fun _ ↦ ?_⟩
      · rwa [value_of_zero hleft, zero_add, value_eq_zero_iff] at hx
      · rw [value_of_zero hleft, zero_add]
        exact ⟨_, delivers_self _ hr hright⟩
  · by_cases hright : right.exponent = 0#F.exponentBits
    · rw [if_neg (by simp [hleft]), if_neg (by simpa using hleft), if_pos (decide_eq_true hright)]
      refine ⟨fun hx ↦ absurd ?_ hleft, fun _ ↦ ?_⟩
      · rwa [value_of_zero hright, add_zero, value_eq_zero_iff] at hx
      · rw [value_of_zero hright, add_zero]
        exact ⟨_, delivers_self _ hl hleft⟩
    · rw [if_neg (by simp [hleft]), if_neg (by simpa using hleft), if_neg (by simpa using hright)]
      obtain ⟨sl, sr, h⟩ := align_spec hF left right
      generalize align left right = aligned at h ⊢
      obtain ⟨lsig, rsig, E⟩ := aligned
      have hopposite {a b : Bool} (h : a ≠ b) : b = !a := (Bool.eq_not.mpr h.symm)
      dsimp only at h ⊢
      split_ifs with hsign htop hsame hless
      · have hsums := same_sums rmode status hF h hleft hright hsign
        rwa [if_pos htop] at hsums
      · have hsums := same_sums rmode status hF h hleft hright hsign
        rwa [if_neg htop] at hsums
      · refine ⟨fun _ ↦ by rw [if_neg hsign, modeOf_downward], fun hx ↦ absurd ?_ hx⟩
        have hcancel : sl - sr = (0 : ℤ) := by
          refine (h.difference.eq_iff (dvd_zero 2)).mp ?_
          rw [hsame, sub_self]
        rw [value_of_ne hleft, value_of_ne hright, hopposite hsign, signed_add_opposite, h.leftValue, h.rightValue,
          scaled_sub, ← sub_div, hcancel, Int.cast_zero, zero_div]
        unfold Format.scaled signed
        simp
      · exact opposite_sums rmode status hF h hleft hright (hopposite hsign) hless
      · have hsums := opposite_sums rmode status hF h.swap hright hleft (hopposite (Ne.symm hsign))
          (by omega)
        exact hsums.swap (Ne.symm hsign)

end Sum

section AddSub

variable {F : Format}

def addends (source1 source2 : Number F) (operation : ℕ) : Number F × Number F :=
  if operation = 0 then (source1, source2)
  else if operation = 2 then (source2, source1.negate)
  else (source1, source2.negate)

def total (operation : ℕ) (a b : ℚ) : ℚ := if operation = 0 then a + b else if operation = 2 then b - a else a - b

def sumWarnings (source1 source2 : Number F) : Word :=
  sourceWarnings source1 source2 ||| flag (source1.denormal && !source2.infinite) inex |||
    flag (source2.denormal && !source1.infinite) inex

/-- What a sum or a difference has to be: exact, and rounded once. -/
structure Adds (source1 source2 : Number F) (operation : ℕ) (mode : Mode) (out : Flagged (Number F)) : Prop where
  nan : source1.nan || source2.nan →
    out = ⟨F.nanOut false, sourceWarnings source1 source2 ||| flag (source1.signalling || source2.signalling) inval⟩
  opposite : !source1.nan → !source2.nan → source1.infinite && source2.infinite →
    (addends source1 source2 operation).1.negative ≠ (addends source1 source2 operation).2.negative →
    out = ⟨F.nanOut false, sumWarnings source1 source2 ||| inval⟩
  infinite : !source1.nan → !source2.nan → source1.infinite || source2.infinite →
    (source1.infinite && source2.infinite →
      (addends source1 source2 operation).1.negative = (addends source1 source2 operation).2.negative) →
    out = ⟨F.infinity (if (addends source1 source2 operation).1.infinite then
      (addends source1 source2 operation).1.negative
      else (addends source1 source2 operation).2.negative), sumWarnings source1 source2 ||| info⟩
  zero : !source1.nan → !source2.nan → !source1.infinite → !source2.infinite →
    total operation source1.value source2.value = 0 →
    out = ⟨F.zero (if (addends source1 source2 operation).1.negative =
      (addends source1 source2 operation).2.negative then
      (addends source1 source2 operation).1.negative else mode = .downward), sumWarnings source1 source2⟩
  rounded : !source1.nan → !source2.nan → !source1.infinite → !source2.infinite →
    total operation source1.value source2.value ≠ 0 →
    ∃ r, Rounded F.precision mode (total operation source1.value source2.value) r ∧
      Delivers F mode (total operation source1.value source2.value) r (sumWarnings source1 source2) out

theorem negate_value (n : Number F) : n.negate.value = -n.value := by
  unfold Number.value Number.negate
  split_ifs
  · exact neg_zero.symm
  · cases n.negative with
    | false => rfl
    | true => exact (neg_neg _).symm

theorem addends_total (source1 source2 : Number F) (operation : ℕ) :
    (addends source1 source2 operation).1.value + (addends source1 source2 operation).2.value =
      total operation source1.value source2.value := by
  unfold addends total
  split_ifs
  · rfl
  · rw [negate_value]
    exact (sub_eq_add_neg _ _).symm
  · rw [negate_value]
    exact (sub_eq_add_neg _ _).symm

theorem flush_value (n : Number F) : n.flush.value = n.value := by
  unfold Number.flush
  split_ifs with h
  · have hzero : n.exponent = 0#F.exponentBits := of_decide_eq_true (Bool.and_eq_true_iff.mp h).1
    rw [value_of_zero hzero]
    exact value_of_zero rfl
  · rfl

theorem flush_negative (n : Number F) : n.flush.negative = n.negative := by
  unfold Number.flush
  split_ifs
  · rfl
  · rfl

theorem flush_exponent (n : Number F) : n.flush.exponent = n.exponent := by
  unfold Number.flush
  split_ifs with h
  · exact (of_decide_eq_true (Bool.and_eq_true_iff.mp h).1).symm
  · rfl

theorem flush_infinite (hF : F.Roomy) (n : Number F) : n.flush.infinite = n.infinite := by
  unfold Number.flush
  split_ifs with h
  · have hne : (0#F.exponentBits) ≠ BitVec.allOnes F.exponentBits := zero_ne_allOnes hF
    have hzero : n.exponent = 0#F.exponentBits := of_decide_eq_true (Bool.and_eq_true_iff.mp h).1
    unfold Number.infinite
    rw [hzero]
    simp [hne]
  · rfl

theorem addends_eq (source1 source2 : Number F) (operation : ℕ) :
    (if operation = 2 then source2 else source1) = (addends source1 source2 operation).1 ∧
      (if operation ≠ 0 then (if operation = 2 then source1 else source2).negate
        else if operation = 2 then source1 else source2) = (addends source1 source2 operation).2 := by
  unfold addends
  by_cases hadd : operation = 0
  · rw [hadd]
    exact ⟨rfl, rfl⟩
  · by_cases hreverse : operation = 2
    · rw [hreverse]
      exact ⟨rfl, rfl⟩
    · rw [if_neg hadd, if_neg hreverse, if_neg hreverse, if_neg hreverse, if_pos hadd]
      exact ⟨rfl, rfl⟩

theorem addends_infinite (source1 source2 : Number F) (operation : ℕ) :
    (((addends source1 source2 operation).1.infinite || (addends source1 source2 operation).2.infinite) =
      (source1.infinite || source2.infinite)) ∧
    (((addends source1 source2 operation).1.infinite && (addends source1 source2 operation).2.infinite) =
      (source1.infinite && source2.infinite)) := by
  unfold addends
  split_ifs
  · exact ⟨rfl, rfl⟩
  · exact ⟨Bool.or_comm _ _, Bool.and_comm _ _⟩
  · exact ⟨rfl, rfl⟩

theorem infinity_of_infinite {n : Number F} (h : n.infinite) : { n with fraction := 0 } = F.infinity n.negative := by
  have hexponent : n.exponent = BitVec.allOnes F.exponentBits := of_decide_eq_true (Bool.and_eq_true_iff.mp h).1
  unfold Format.infinity
  rw [hexponent]

theorem addends_finite {source1 source2 : Number F} (h1 : source1.exponent ≠ BitVec.allOnes F.exponentBits)
    (h2 : source2.exponent ≠ BitVec.allOnes F.exponentBits) (operation : ℕ) :
    (addends source1 source2 operation).1.flush.exponent ≠ BitVec.allOnes F.exponentBits ∧
      (addends source1 source2 operation).2.flush.exponent ≠ BitVec.allOnes F.exponentBits := by
  rw [flush_exponent, flush_exponent]
  unfold addends
  split_ifs
  · exact ⟨h1, h2⟩
  · exact ⟨h2, h1⟩
  · exact ⟨h1, h2⟩

theorem addSub_adds (hF : F.Roomy) (source1 source2 : Number F) (operation rmode : ℕ) :
    Adds source1 source2 operation (modeOf rmode) (addSub F source1 source2 operation rmode) := by
  obtain ⟨hleft, hright⟩ := addends_eq source1 source2 operation
  obtain ⟨heither, hboth⟩ := addends_infinite source1 source2 operation
  have htotal := addends_total source1 source2 operation
  have hnumber (h : !source1.nan) (h' : !source2.nan) : ¬(source1.nan || source2.nan) := by
    rw [Bool.not_eq_true'] at h h'
    rw [h, h']
    exact Bool.false_ne_true
  unfold addSub
  dsimp only
  rw [hleft, hright, flush_infinite hF, flush_infinite hF, flush_negative, flush_negative]
  have hfinite (h1 : !source1.nan) (h2 : !source2.nan) (h1' : !source1.infinite) (h2' : !source2.infinite) :=
    addends_finite (finite_exponent h1 h1') (finite_exponent h2 h2') operation
  have hsums (h1 : !source1.nan) (h2 : !source2.nan) (h1' : !source1.infinite) (h2' : !source2.infinite)
      (status : Word) :=
    sum_sums rmode status hF (hfinite h1 h2 h1' h2').1 (hfinite h1 h2 h1' h2').2
  obtain ⟨left, right, hadd⟩ : ∃ left right, addends source1 source2 operation = (left, right) := ⟨_, _, rfl⟩
  rw [hadd] at heither hboth htotal hsums ⊢
  dsimp only at heither hboth htotal hsums ⊢
  have hfew (h1' : !source1.infinite) (h2' : !source2.infinite) : ¬(left.infinite || right.infinite) := by
    rw [Bool.not_eq_true'] at h1' h2'
    rw [heither, h1', h2']
    exact Bool.false_ne_true
  constructor
  · exact fun h ↦ if_pos h
  · intro h1 h2 h hsign
    rw [hadd] at hsign
    rw [← hboth] at h
    have hany : left.infinite || right.infinite := by
      rw [(Bool.and_eq_true_iff.mp h).1, Bool.true_or]
    rw [if_neg (hnumber h1 h2), if_pos hany, if_pos]
    · rfl
    · rw [h, Bool.true_and]
      exact bne_iff_ne.mpr hsign
  · intro h1 h2 h hsign
    rw [← heither] at h
    rw [← hboth, hadd] at hsign
    rw [hadd]
    have hsame : ¬(left.infinite && right.infinite && left.negative != right.negative) := by
      intro hopposite
      obtain ⟨hinfinite, hne⟩ := Bool.and_eq_true_iff.mp hopposite
      exact bne_iff_ne.mp hne (hsign hinfinite)
    rw [if_neg (hnumber h1 h2), if_pos h, if_neg hsame]
    have hflush (n : Number F) (hn : n.infinite) : { n.flush with fraction := 0 } = F.infinity n.negative := by
      rw [infinity_of_infinite (n := n.flush) (by rw [flush_infinite hF]; exact hn), flush_negative]
    by_cases hleft : left.infinite
    · rw [if_pos hleft, if_pos hleft, hflush left hleft]
      rfl
    · rw [if_neg hleft, if_neg hleft]
      rw [Bool.not_eq_true] at hleft
      rw [hleft, Bool.false_or] at h
      rw [hflush right h]
      rfl
  · intro h1 h2 h1' h2' hx
    have hzero := (hsums h1 h2 h1' h2' (sumWarnings source1 source2)).zero
    rw [flush_value, flush_value, flush_negative, flush_negative, htotal] at hzero
    rw [if_neg (hnumber h1 h2), if_neg (hfew h1' h2'), hadd]
    exact hzero hx
  · intro h1 h2 h1' h2' hx
    have hrounded := (hsums h1 h2 h1' h2' (sumWarnings source1 source2)).rounded
    rw [flush_value, flush_value, htotal] at hrounded
    rw [if_neg (hnumber h1 h2), if_neg (hfew h1' h2')]
    exact hrounded hx

theorem addSubSp_adds (source1 source2 : Word) (operation rmode : ℕ) :
    Adds (sp source1) (sp source2) operation (modeOf rmode)
      (unpacked single (addSubSp source1 source2 operation rmode)) := by
  unfold addSubSp
  rw [unpacked_packed]
  exact addSub_adds single_roomy _ _ _ _

theorem addSubDp_adds (source1 source2 : Long) (operation rmode : ℕ) :
    Adds (dp source1) (dp source2) operation (modeOf rmode)
      (unpacked double (addSubDp source1 source2 operation rmode)) := by
  unfold addSubDp
  rw [unpacked_packed]
  exact addSub_adds double_roomy _ _ _ _

theorem sums_rounded :
    (∀ source1 source2 operation rmode, Adds (sp source1) (sp source2) operation (modeOf rmode)
      (unpacked single (addSubSp source1 source2 operation rmode))) ∧
    ∀ source1 source2 operation rmode, Adds (dp source1) (dp source2) operation (modeOf rmode)
      (unpacked double (addSubDp source1 source2 operation rmode)) :=
  ⟨addSubSp_adds, addSubDp_adds⟩

end AddSub

end Cdj2000Emulator.FloatingPoint
