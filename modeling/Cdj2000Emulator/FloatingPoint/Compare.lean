import Cdj2000Emulator.FloatingPoint.AddSub
import Mathlib.Order.WithBot

namespace Cdj2000Emulator.FloatingPoint

open Library.Rounding C674x.State C674x.Operands

def unord : Word := 0x200

/-- `cdj_c674x_compare_sp` and `cdj_c674x_compare_dp`: the relation is equal, greater, or less. -/
def compare (F : Format) (left right : BitVec F.width) (relation : ℕ) : Flagged Bool :=
  let l : Number F := .unpack left
  let r : Number F := .unpack right
  let status := flag l.nan nan1 ||| flag r.nan nan2 ||| flag l.denormal den1 ||| flag r.denormal den2
  if l.nan || r.nan then ⟨false, status ||| unord ||| flag (relation ≠ 0) inval⟩
  else
    let left := l.flush.pack
    let right := r.flush.pack
    let bothZero := left <<< 1 = 0 ∧ right <<< 1 = 0
    let equal : Bool := bothZero ∨ left = right
    let less : Bool :=
      if equal then false
      else if (left ^^^ right).msb then left.msb
      else if left.msb then right < left else left < right
    ⟨if relation = 0 then equal else if relation = 1 then !equal && !less else less, status⟩

def compareSp (left right : Word) (relation : ℕ) : Flagged Word :=
  let out := compare single left right relation
  ⟨if out.value then 1 else 0, out.status⟩

def compareDp (left right : Long) (relation : ℕ) : Flagged Long :=
  let out := compare double left right relation
  ⟨if out.value then 1 else 0, out.status⟩

section Order

variable {F : Format} {a b : Number F}

def Number.extended (n : Number F) : WithBot (WithTop ℚ) :=
  if n.infinite then (if n.negative then ⊥ else ((⊤ : WithTop ℚ) : WithBot (WithTop ℚ)))
  else ((n.value : WithTop ℚ) : WithBot (WithTop ℚ))

/-- The bits below the sign as one number. -/
def Number.rank (n : Number F) : ℕ := n.exponent.toNat * F.hidden + n.fraction.toNat

theorem rank_lt (n : Number F) : n.rank < 2 ^ (F.exponentBits + F.fractionBits) := by
  have hexponent := n.exponent.isLt
  have hfraction : n.fraction.toNat < F.hidden := n.fraction.isLt
  have hle := Nat.mul_le_mul_right F.hidden (Nat.succ_le_of_lt hexponent)
  rw [pow_add]
  unfold Number.rank
  change _ < 2 ^ F.exponentBits * F.hidden
  rw [Nat.succ_mul] at hle
  omega

theorem pack_toNat (n : Number F) :
    n.pack.toNat = n.negative.toNat * 2 ^ (F.exponentBits + F.fractionBits) + n.rank := by
  unfold Number.pack Number.rank
  rw [BitVec.toNat_append, BitVec.toNat_append, BitVec.toNat_ofBool, ← Nat.shiftLeft_add_eq_or_of_lt n.exponent.isLt,
    ← Nat.shiftLeft_add_eq_or_of_lt n.fraction.isLt, Nat.shiftLeft_eq, Nat.shiftLeft_eq, add_mul,
      mul_assoc, ← pow_add,
    add_assoc]
  rfl

def Flat (n : Number F) : Prop := n.exponent = 0#F.exponentBits → n.fraction = 0#F.fractionBits

theorem flush_flat (n : Number F) : Flat n.flush := by
  intro h
  unfold Number.flush at h ⊢
  split_ifs at h ⊢ with hdenormal
  · rfl
  · by_contra hfraction
    exact hdenormal (by simp [Number.denormal, h, hfraction])

theorem rank_zero (ha : Flat a) : a.rank = 0 ↔ a.value = 0 := by
  rw [value_eq_zero_iff]
  have hhidden : 0 < F.hidden := Nat.two_pow_pos _
  constructor
  · intro h
    unfold Number.rank at h
    have hzero : a.exponent.toNat * F.hidden = 0 := by omega
    exact BitVec.eq_of_toNat_eq ((Nat.mul_eq_zero.mp hzero).resolve_right hhidden.ne')
  · intro h
    unfold Number.rank
    rw [ha h, h]
    simp

/-- The magnitude grows with the bits. -/
theorem abs_lt_of_rank (hb : Flat b) (h : a.rank < b.rank) : |a.value| < |b.value| := by
  have hb0 : b.exponent ≠ 0#F.exponentBits := by
    intro hzero
    have := (rank_zero hb).mpr (value_of_zero hzero)
    omega
  have hpos (n : Number F) : 0 < F.scaled n.significand n.exponent.toNat :=
    scaled_pos (by exact_mod_cast (Nat.two_pow_pos F.fractionBits).trans_le (significand_range n).1)
  rw [value_of_ne hb0, abs_signed (hpos b).le]
  by_cases ha0 : a.exponent = 0#F.exponentBits
  · rw [value_of_zero ha0, abs_zero]
    exact hpos b
  · rw [value_of_ne ha0, abs_signed (hpos a).le]
    have hfa : a.fraction.toNat < F.hidden := a.fraction.isLt
    have hfb : b.fraction.toNat < F.hidden := b.fraction.isLt
    rcases lt_trichotomy a.exponent.toNat b.exponent.toNat with hless | heq | hmore
    · refine (scaled_lt (by exact_mod_cast (significand_range a).2)).trans_le
        (le_trans ?_ (le_scaled (significand_range b).1))
      exact zpow_le_zpow_right₀ (by norm_num) (by omega)
    · unfold Number.rank at h
      rw [heq] at h ⊢
      refine mul_lt_mul_of_pos_right ?_ (by positivity)
      unfold Number.significand
      exact_mod_cast (show F.hidden + a.fraction.toNat < F.hidden + b.fraction.toNat by omega)
    · have hmul := Nat.mul_le_mul_right F.hidden (Nat.succ_le_of_lt hmore)
      rw [Nat.succ_mul] at hmul
      unfold Number.rank at h
      omega

theorem abs_eq_of_rank (h : a.rank = b.rank) : |a.value| = |b.value| := by
  have hpart (n : Number F) : n.rank / F.hidden = n.exponent.toNat ∧ n.rank % F.hidden = n.fraction.toNat := by
    have hfraction : n.fraction.toNat < F.hidden := n.fraction.isLt
    unfold Number.rank
    rw [mul_comm]
    have hpos : 0 < F.hidden := Nat.two_pow_pos _
    exact ⟨by rw [Nat.mul_add_div hpos, Nat.div_eq_of_lt hfraction, add_zero],
      by rw [Nat.mul_add_mod, Nat.mod_eq_of_lt hfraction]⟩
  have hexponent : a.exponent = b.exponent := BitVec.eq_of_toNat_eq (by rw [← (hpart a).1, ← (hpart b).1, h])
  have hfraction : a.fraction = b.fraction := BitVec.eq_of_toNat_eq (by rw [← (hpart a).2, ← (hpart b).2, h])
  have habs (negative : Bool) (x : ℚ) : |signed negative x| = |x| := by
    cases negative with
    | false => rfl
    | true => exact abs_neg x
  unfold Number.value Number.significand
  rw [hexponent, hfraction]
  split_ifs
  · rfl
  · rw [habs, habs]

theorem rank_lt_iff (ha : Flat a) (hb : Flat b) : a.rank < b.rank ↔ |a.value| < |b.value| := by
  refine ⟨abs_lt_of_rank hb, fun h ↦ ?_⟩
  by_contra hnot
  rcases (not_lt.mp hnot).lt_or_eq with hmore | heq
  · exact lt_asymm h (abs_lt_of_rank ha hmore)
  · exact h.ne' (abs_eq_of_rank heq)

theorem rank_eq_iff (ha : Flat a) (hb : Flat b) : a.rank = b.rank ↔ |a.value| = |b.value| := by
  refine ⟨abs_eq_of_rank, fun h ↦ ?_⟩
  by_contra hne
  rcases Nat.lt_or_gt_of_ne hne with hless | hmore
  · exact (abs_lt_of_rank hb hless).ne h
  · exact (abs_lt_of_rank ha hmore).ne' h

theorem value_signed (n : Number F) : n.value = signed n.negative |n.value| := by
  by_cases hzero : n.exponent = 0#F.exponentBits
  · rw [value_of_zero hzero, abs_zero]
    cases n.negative with
    | false => rfl
    | true => exact neg_zero.symm
  · have hpos : 0 < F.scaled n.significand n.exponent.toNat :=
      scaled_pos (by exact_mod_cast (Nat.two_pow_pos F.fractionBits).trans_le (significand_range n).1)
    rw [value_of_ne hzero, abs_signed hpos.le]

theorem signed_order {x y : ℚ} (hx : 0 ≤ x) (hy : 0 ≤ y) (s t : Bool) :
    ((x = 0 ∧ y = 0) ∨ (s = t ∧ x = y) ↔ signed s x = signed t y) ∧
      (¬signed s x = signed t y →
        ((if s != t then s = true else if s = true then y < x else x < y) ↔ signed s x < signed t y)) := by
  cases s with
  | false =>
    cases t with
    | false =>
      simp only [signed, bne_self_eq_false, Bool.false_eq_true, if_false, true_and]
      exact ⟨⟨fun h ↦ h.elim (fun h ↦ h.1.trans h.2.symm) id, .inr⟩, fun _ ↦ trivial⟩
    | true =>
      simp only [signed, Bool.false_bne, if_true, Bool.false_eq_true, if_false, false_and, or_false]
      refine ⟨⟨fun h ↦ by rw [h.1, h.2, neg_zero], fun h ↦ ⟨by linarith, by linarith⟩⟩, fun _ ↦ ?_⟩
      exact iff_of_false not_false (by linarith)
  | true =>
    cases t with
    | false =>
      simp only [signed, Bool.true_bne, Bool.not_false, if_true, Bool.false_eq_true, if_false, Bool.true_eq_false,
        false_and, or_false]
      refine ⟨⟨fun h ↦ by rw [h.1, h.2, neg_zero], fun h ↦ ⟨by linarith, by linarith⟩⟩, fun hne ↦ ?_⟩
      exact iff_of_true trivial (lt_of_le_of_ne (by linarith) hne)
    | true =>
      simp only [signed, bne_self_eq_false, Bool.false_eq_true, if_false, if_true, true_and, neg_inj, neg_lt_neg_iff]
      exact ⟨⟨fun h ↦ h.elim (fun h ↦ h.1.trans h.2.symm) id, .inr⟩, fun _ ↦ trivial⟩

theorem pack_zero (n : Number F) : n.pack <<< 1 = 0 ↔ n.rank = 0 := by
  have hrank := rank_lt n
  have hpower : 2 ^ F.width = 2 * 2 ^ (F.exponentBits + F.fractionBits) := by
    rw [← pow_succ']
    congr 1
    unfold Format.width
    ring
  have hvalue : (n.pack <<< 1).toNat = 2 * n.rank := by
    rw [BitVec.toNat_shiftLeft, Nat.shiftLeft_eq, pack_toNat, hpower, pow_one]
    rw [show (n.negative.toNat * 2 ^ (F.exponentBits + F.fractionBits) + n.rank) * 2 =
      2 * n.rank + n.negative.toNat * (2 * 2 ^ (F.exponentBits + F.fractionBits)) by ring, Nat.add_mul_mod_self_right]
    exact Nat.mod_eq_of_lt (by omega)
  rw [← BitVec.toNat_inj, hvalue]
  simp

theorem pack_eq_iff : a.pack = b.pack ↔ a.negative = b.negative ∧ a.rank = b.rank := by
  have ha := rank_lt a
  have hb := rank_lt b
  rw [← BitVec.toNat_inj, pack_toNat, pack_toNat]
  cases a.negative with
  | false =>
    cases b.negative with
    | false => simp
    | true =>
      simp
      omega
  | true =>
    cases b.negative with
    | false =>
      simp
      omega
    | true => simp

theorem pack_msb (n : Number F) : n.pack.msb = n.negative := by
  have hrank := rank_lt n
  have hwidth : F.width - 1 = F.exponentBits + F.fractionBits := by
    unfold Format.width
    omega
  rw [BitVec.msb_eq_decide, pack_toNat, hwidth]
  cases n.negative with
  | false => simpa using hrank
  | true => simp

theorem pack_lt_iff (h : a.negative = b.negative) : a.pack < b.pack ↔ a.rank < b.rank := by
  rw [BitVec.lt_def, pack_toNat, pack_toNat, h]
  omega

theorem flush_order (l r : Number F) (left right : BitVec F.width) (hl : l.flush.pack = left)
    (hr : r.flush.pack = right) :
    ((left <<< 1 = 0 ∧ right <<< 1 = 0) ∨ left = right ↔ l.value = r.value) ∧
      (¬l.value = r.value →
        ((if (left ^^^ right).msb then left.msb else if left.msb then decide (right < left)
          else decide (left < right)) =
          decide (l.value < r.value))) := by
  subst hl hr
  rw [← flush_value l, ← flush_value r]
  have hfl := flush_flat l
  have hfr := flush_flat r
  generalize l.flush = a at *
  generalize r.flush = b at *
  obtain ⟨hequal, hless⟩ := signed_order (abs_nonneg a.value) (abs_nonneg b.value) a.negative b.negative
  rw [← value_signed, ← value_signed] at hequal hless
  rw [pack_zero, pack_zero, pack_eq_iff, rank_zero hfl, rank_zero hfr, rank_eq_iff hfl hfr, BitVec.msb_xor,
    pack_msb, pack_msb]
  rw [abs_eq_zero, abs_eq_zero] at hequal
  refine ⟨hequal, fun hne ↦ ?_⟩
  specialize hless hne
  by_cases hsign : a.negative = b.negative
  · have hlt : a.pack < b.pack ↔ |a.value| < |b.value| := (pack_lt_iff hsign).trans (rank_lt_iff hfl hfr)
    have hgt : b.pack < a.pack ↔ |b.value| < |a.value| := (pack_lt_iff hsign.symm).trans (rank_lt_iff hfr hfl)
    rw [if_neg (by rw [hsign, bne_self_eq_false]; exact Bool.false_ne_true)] at hless
    rw [if_neg (by rw [hsign, Bool.xor_self]; exact Bool.false_ne_true)]
    split_ifs at hless ⊢ with hnegative
    · exact decide_eq_decide.mpr (hgt.trans hless)
    · exact decide_eq_decide.mpr (hlt.trans hless)
  · rw [if_pos (bne_iff_ne.mpr hsign)] at hless
    rw [if_pos (by rwa [← Bool.bne_eq_xor, bne_iff_ne])]
    exact (Bool.decide_coe a.negative).symm.trans (decide_eq_decide.mpr hless)

theorem infinite_value (hF : F.Roomy) {n : Number F} (h : n.infinite) : n.value = signed n.negative F.beyond := by
  rw [Number.infinite, Bool.and_eq_true] at h
  have hexponent : n.exponent = BitVec.allOnes F.exponentBits := of_decide_eq_true h.1
  have hfraction : n.fraction = 0#F.fractionBits := of_decide_eq_true h.2
  rw [value_of_ne (hexponent ▸ (zero_ne_allOnes hF).symm), signed_inj]
  unfold Number.significand Format.scaled Format.beyond
  rw [hexponent, hfraction, BitVec.toNat_allOnes, BitVec.toNat_ofNat, Nat.zero_mod, add_zero,
    Format.hidden, Nat.cast_pow,
    Nat.cast_ofNat, ← zpow_natCast, ← zpow_add₀ (by norm_num)]
  congr 1
  unfold Format.top
  ring

theorem finite_value {n : Number F} (hnan : !n.nan) (h : n.infinite = false) :
    -F.beyond < n.value ∧ n.value < F.beyond := by
  by_cases hzero : n.exponent = 0#F.exponentBits
  · have hpos : 0 < F.beyond := by
      unfold Format.beyond
      positivity
    rw [value_of_zero hzero]
    exact ⟨neg_lt_zero.mpr hpos, hpos⟩
  · exact abs_lt.mp (finite_range (finite_exponent hnan (by rw [h]; rfl)) hzero).2

theorem extended_order (hF : F.Roomy) {l r : Number F} (hl : !l.nan) (hr : !r.nan) :
    (l.extended = r.extended ↔ l.value = r.value) ∧ (l.extended < r.extended ↔ l.value < r.value) := by
  have hpos : 0 < F.beyond := by
    unfold Format.beyond
    positivity
  unfold Number.extended
  cases hil : l.infinite with
  | true =>
    have hlv := infinite_value hF hil
    cases hir : r.infinite with
    | true =>
      have hrv := infinite_value hF hir
      rw [hlv, hrv]
      cases l.negative with
      | true => cases r.negative with
        | true => simp [signed]
        | false =>
          simp only [signed, if_true, Bool.false_eq_true, if_false]
          exact ⟨iff_of_false (WithBot.bot_ne_coe) (by linarith), iff_of_true (WithBot.bot_lt_coe _) (by linarith)⟩
      | false => cases r.negative with
        | true =>
          simp only [signed, if_true, Bool.false_eq_true, if_false]
          exact ⟨iff_of_false (WithBot.coe_ne_bot) (by linarith), iff_of_false not_lt_bot (by linarith)⟩
        | false => simp [signed]
    | false =>
      obtain ⟨hlow, hhigh⟩ := finite_value hr hir
      rw [hlv]
      cases l.negative with
      | true => simp [signed, hlow, hlow.ne]
      | false => simp [signed, hhigh.le, hhigh.ne']
  | false =>
    obtain ⟨hlow, hhigh⟩ := finite_value hl hil
    cases hir : r.infinite with
    | true =>
      have hrv := infinite_value hF hir
      rw [hrv]
      cases r.negative with
      | true => simp [signed, hlow.le, hlow.ne']
      | false =>
        refine ⟨iff_of_false ?_ hhigh.ne, iff_of_true (WithBot.coe_lt_coe.mpr (WithTop.coe_lt_top _)) hhigh⟩
        exact fun h ↦ WithTop.coe_ne_top (WithBot.coe_inj.mp h)
    | false => simp

/-- What a comparison has to be: the relation in the order of the numbers, and of a NaN none. -/
structure Compares (l r : Number F) (relation : ℕ) (out : Flagged Bool) : Prop where
  unordered : l.nan || r.nan → out = ⟨false, sourceWarnings l r ||| unord ||| flag (relation ≠ 0) inval⟩
  ordered : !l.nan → !r.nan → out = ⟨if relation = 0 then l.extended = r.extended
    else if relation = 1 then r.extended < l.extended else l.extended < r.extended, sourceWarnings l r⟩

theorem compare_compares (hF : F.Roomy) (left right : BitVec F.width) (relation : ℕ) :
    Compares (.unpack left) (.unpack right) relation (compare F left right relation) := by
  obtain ⟨l, hunpackLeft⟩ : ∃ l : Number F, Number.unpack left = l := ⟨_, rfl⟩
  obtain ⟨r, hunpackRight⟩ : ∃ r : Number F, Number.unpack right = r := ⟨_, rfl⟩
  unfold compare
  rw [hunpackLeft, hunpackRight]
  dsimp only
  refine ⟨fun h ↦ if_pos h, fun hl hr ↦ ?_⟩
  obtain ⟨heq, hlt⟩ := extended_order hF hl hr
  obtain ⟨-, hgt⟩ := extended_order hF hr hl
  obtain ⟨hequal, hless⟩ := flush_order l r _ _ rfl rfl
  have hnumber : ¬(l.nan || r.nan) := by
    rw [Bool.not_eq_true'] at hl hr
    rw [hl, hr]
    exact Bool.false_ne_true
  rw [if_neg hnumber]
  refine congrArg (Flagged.mk · _) ?_
  rw [decide_eq_decide.mpr hequal, decide_eq_decide.mpr heq, decide_eq_decide.mpr hlt, decide_eq_decide.mpr hgt]
  by_cases hvalue : l.value = r.value
  · rw [decide_eq_true hvalue, decide_eq_false hvalue.not_lt, decide_eq_false hvalue.not_gt]
    rfl
  · rw [decide_eq_false hvalue]
    simp only [Bool.false_eq_true, if_false]
    rw [hless hvalue]
    rcases lt_or_gt_of_ne hvalue with hbelow | habove
    · rw [decide_eq_true hbelow, decide_eq_false hbelow.not_gt]
      rfl
    · rw [decide_eq_true habove, decide_eq_false habove.not_gt]
      rfl

theorem comparisons_ordered :
    (∀ left right relation, ∃ out, Compares (sp left) (sp right) relation out ∧
      compareSp left right relation = ⟨if out.value then 1 else 0, out.status⟩) ∧
    ∀ left right relation, ∃ out, Compares (dp left) (dp right) relation out ∧
      compareDp left right relation = ⟨if out.value then 1 else 0, out.status⟩ :=
  ⟨fun _ _ _ ↦ ⟨_, compare_compares single_roomy _ _ _, rfl⟩,
    fun _ _ _ ↦ ⟨_, compare_compares double_roomy _ _ _, rfl⟩⟩

end Order

end Cdj2000Emulator.FloatingPoint
