import Mathlib

namespace Cdj2000Emulator.Library.CyclicCode

open Polynomial

variable {w : ℕ}

/-- The polynomial whose coefficients are the bits of a register. -/
noncomputable def ofRegister (r : BitVec w) : (ZMod 2)[X] :=
  ∑ i ∈ Finset.range w, if r.getLsbD i then X ^ i else 0

/-- The divisor, its leading coefficient left out of the register. -/
noncomputable def generator (g : BitVec w) : (ZMod 2)[X] := X ^ w + ofRegister g

noncomputable def ofBit (b : Bool) : (ZMod 2)[X] := if b then 1 else 0

noncomputable def message (bits : List Bool) : (ZMod 2)[X] :=
  bits.foldl (fun m b ↦ X * m + ofBit b) 0

theorem ofRegister_zero : ofRegister (0 : BitVec w) = 0 := by
  simp [ofRegister]

theorem ofRegister_xor (a b : BitVec w) : ofRegister (a ^^^ b) = ofRegister a + ofRegister b := by
  rw [ofRegister, ofRegister, ofRegister, ← Finset.sum_add_distrib]
  refine Finset.sum_congr rfl fun i _ ↦ ?_
  rw [BitVec.getLsbD_xor]
  cases a.getLsbD i <;> cases b.getLsbD i <;> simp [CharTwo.add_self_eq_zero]

theorem degree_ofRegister_lt (r : BitVec w) : (ofRegister r).degree < w := by
  refine (Polynomial.degree_sum_le _ _).trans_lt ((Finset.sup_lt_iff (WithBot.bot_lt_coe w)).mpr fun i hi ↦ ?_)
  split_ifs
  · exact (degree_X_pow_le i).trans_lt (Nat.cast_lt.mpr (Finset.mem_range.mp hi))
  · rw [degree_zero]
    exact WithBot.bot_lt_coe w

theorem coeff_ofRegister (r : BitVec w) (i : ℕ) :
    (ofRegister r).coeff i = if r.getLsbD i then 1 else 0 := by
  rw [ofRegister, finsetSum_coeff]
  by_cases inside : i < w
  · rw [Finset.sum_eq_single_of_mem i (Finset.mem_range.mpr inside)]
    · split_ifs <;> simp
    · intro j _ apart
      split_ifs
      · rw [coeff_X_pow, if_neg (Ne.symm apart)]
      · rw [coeff_zero]
  · rw [BitVec.getLsbD_of_ge r i (not_lt.mp inside), Finset.sum_eq_zero]
    · rfl
    · intro j hj
      split_ifs
      · rw [coeff_X_pow, if_neg (by have := Finset.mem_range.mp hj; omega)]
      · rw [coeff_zero]

theorem ofRegister_injective : Function.Injective (ofRegister : BitVec w → (ZMod 2)[X]) := by
  intro a b same
  refine BitVec.eq_of_getLsbD_eq fun i _ ↦ ?_
  have := congrArg (Polynomial.coeff · i) same
  simp only [coeff_ofRegister] at this
  cases ha : a.getLsbD i <;> cases hb : b.getLsbD i <;> simp_all

theorem monic_generator (g : BitVec w) : (generator g).Monic :=
  monic_X_pow_add (degree_ofRegister_lt g)

theorem degree_generator (g : BitVec w) : (generator g).degree = w :=
  (degree_add_eq_left_of_degree_lt (by rw [degree_X_pow]; exact degree_ofRegister_lt g)).trans (degree_X_pow w)

theorem eq_remainder {g r : BitVec w} {p : (ZMod 2)[X]} (h : generator g ∣ p - ofRegister r) :
    ofRegister r = p %ₘ generator g := by
  have small : (ofRegister r).degree < (generator g).degree := by
    rw [degree_generator]
    exact degree_ofRegister_lt r
  rw [modByMonic_eq_of_dvd_sub (monic_generator g) h, (modByMonic_eq_self_iff (monic_generator g)).mpr small]

/-- The register moved up, the divisor taken off when a bit falls out. -/
def reduce (g r : BitVec w) : BitVec w := if r.msb then (r <<< 1) ^^^ g else r <<< 1

def below (g r : BitVec w) (b : Bool) : BitVec w := reduce g r ^^^ (BitVec.ofBool b).setWidth w

def above (g r : BitVec w) (b : Bool) : BitVec w := if r.msb != b then (r <<< 1) ^^^ g else r <<< 1

/-- The cyclic redundancy check of a message. -/
def checksum (g : BitVec w) (bits : List Bool) : BitVec w := bits.foldl (above g) 0

/-- The first `n` bits of a word, from the top. -/
def topBits (n : ℕ) (t : BitVec w) : List Bool := (List.range n).map t.getMsbD

theorem topBits_succ (n : ℕ) (t : BitVec w) : topBits (n + 1) t = t.msb :: topBits n (t <<< 1) := by
  rw [topBits, List.range_succ_eq_map, List.map_cons, List.map_map]
  refine congrArg₂ List.cons rfl (List.map_congr_left fun i hi ↦ ?_)
  rw [Function.comp_apply, BitVec.getMsbD_shiftLeft, Nat.succ_eq_add_one]

theorem topBits_zero (n : ℕ) : topBits n (0#w) = List.replicate n false := by
  induction n with
  | zero => rfl
  | succ n ih => rw [topBits_succ, BitVec.msb_zero, BitVec.zero_shiftLeft, ih, List.replicate_succ]

theorem reduce_xor (g r t : BitVec w) : reduce g (r ^^^ t) = above g r t.msb ^^^ (t <<< 1) := by
  unfold reduce above
  rw [BitVec.msb_xor, BitVec.shiftLeft_xor_distrib, bne]
  cases r.msb <;> cases t.msb <;> simp [BitVec.xor_assoc, BitVec.xor_comm (t <<< 1)]

/-- Bits that are put over the register fall out one after the other. -/
theorem reduce_iterate_xor (g r t : BitVec w) (n : ℕ) :
    (reduce g)^[n] (r ^^^ t) = (topBits n t).foldl (above g) r ^^^ (t <<< n) := by
  induction n generalizing r t with
  | zero => rw [BitVec.shiftLeft_zero]; rfl
  | succ n ih =>
    rw [Function.iterate_succ_apply, reduce_xor, ih, topBits_succ, List.foldl_cons,
      ← BitVec.shiftLeft_add, Nat.add_comm]

theorem X_mul_ofRegister (r : BitVec w) :
    X * ofRegister r = ofRegister (r <<< 1) + if r.msb then X ^ w else 0 := by
  cases w with
  | zero => simp [ofRegister, BitVec.msb]
  | succ n =>
    have moved : ∀ i ∈ Finset.range n,
        (if (r <<< 1).getLsbD (i + 1) then X ^ (i + 1) else 0 : (ZMod 2)[X]) =
          X * if r.getLsbD i then X ^ i else 0 := by
      intro i hi
      have inside : i + 1 < n + 1 := by have := Finset.mem_range.mp hi; omega
      rw [BitVec.getLsbD_shiftLeft, decide_eq_true inside]
      simp [pow_succ']
    rw [ofRegister, ofRegister, Finset.sum_range_succ, Finset.sum_range_succ', Finset.sum_congr rfl moved,
      ← Finset.mul_sum, mul_add, BitVec.msb_eq_getLsbD_last]
    simp [pow_succ']

theorem X_mul_ofRegister_reduce (g r : BitVec w) :
    X * ofRegister r = ofRegister (reduce g r) + if r.msb then generator g else 0 := by
  rw [X_mul_ofRegister, reduce, generator]
  cases r.msb
  · rfl
  · simp only [↓reduceIte]
    rw [ofRegister_xor, add_comm (X ^ w), add_assoc, ← add_assoc (ofRegister g), CharTwo.add_self_eq_zero,
      zero_add]

theorem ofRegister_bit (pos : 0 < w) (b : Bool) :
    ofRegister ((BitVec.ofBool b).setWidth w) = ofBit b := by
  refine Polynomial.ext fun i ↦ ?_
  rw [coeff_ofRegister, BitVec.getLsbD_setWidth, BitVec.getLsbD_ofBool, ofBit]
  cases b
  · simp
  · by_cases first : i = 0
    · subst first
      simp [pos]
    · simp [first, coeff_one]

theorem ofRegister_below (pos : 0 < w) (g r : BitVec w) (b : Bool) {m : (ZMod 2)[X]}
    (h : generator g ∣ m - ofRegister r) :
    generator g ∣ X * m + ofBit b - ofRegister (below g r b) := by
  have split : X * m + ofBit b - ofRegister (below g r b) =
      X * (m - ofRegister r) + if r.msb then generator g else 0 := by
    rw [below, ofRegister_xor, ofRegister_bit pos, mul_sub, X_mul_ofRegister_reduce g]
    ring
  rw [split]
  refine dvd_add (h.mul_left X) ?_
  split_ifs
  · exact dvd_rfl
  · exact dvd_zero _

theorem ofRegister_above (g r : BitVec w) (b : Bool) {m : (ZMod 2)[X]}
    (h : generator g ∣ m * X ^ w - ofRegister r) :
    generator g ∣ (X * m + ofBit b) * X ^ w - ofRegister (above g r b) := by
  have held : X * ofRegister r + ofBit b * X ^ w =
      ofRegister (above g r b) + if r.msb != b then generator g else 0 := by
    have divisors : ofRegister g + ofRegister g = 0 := CharTwo.add_self_eq_zero _
    have leading : (X ^ w + X ^ w : (ZMod 2)[X]) = 0 := CharTwo.add_self_eq_zero _
    rw [X_mul_ofRegister, above, ofBit, generator]
    cases r.msb <;> cases b <;>
      simp only [bne_self_eq_false, Bool.false_bne, Bool.true_bne, Bool.not_false, Bool.false_eq_true, ↓reduceIte,
        ofRegister_xor]
    · ring
    · linear_combination -divisors
    · linear_combination -divisors
    · linear_combination leading
  have split : (X * m + ofBit b) * X ^ w - ofRegister (above g r b) =
      X * (m * X ^ w - ofRegister r) + if r.msb != b then generator g else 0 := by
    linear_combination held
  rw [split]
  refine dvd_add (h.mul_left X) ?_
  split_ifs
  · exact dvd_rfl
  · exact dvd_zero _

theorem message_append_zeros (bits : List Bool) (n : ℕ) :
    message (bits ++ List.replicate n false) = message bits * X ^ n := by
  induction n with
  | zero => rw [List.replicate_zero, List.append_nil, pow_zero, mul_one]
  | succ n ih =>
    rw [List.replicate_succ', ← List.append_assoc, message, List.foldl_append, ← message, ih]
    simp only [List.foldl_cons, List.foldl_nil, ofBit, Bool.false_eq_true, ↓reduceIte, add_zero]
    ring

theorem remainder_below (pos : 0 < w) (g : BitVec w) (bits : List Bool) :
    generator g ∣ message bits - ofRegister (bits.foldl (below g) 0) := by
  induction bits using List.reverseRecOn with
  | nil =>
    rw [message, List.foldl_nil, List.foldl_nil, ofRegister_zero, sub_zero]
    exact dvd_zero _
  | append_singleton bits b ih =>
    rw [message, List.foldl_append, List.foldl_append, ← message]
    exact ofRegister_below pos g _ b ih

theorem remainder_above (g : BitVec w) (bits : List Bool) :
    generator g ∣ message bits * X ^ w - ofRegister (checksum g bits) := by
  induction bits using List.reverseRecOn with
  | nil =>
    rw [message, checksum, List.foldl_nil, List.foldl_nil, ofRegister_zero, zero_mul, sub_zero]
    exact dvd_zero _
  | append_singleton bits b ih =>
    rw [message, checksum, List.foldl_append, List.foldl_append, ← message, ← checksum]
    exact ofRegister_above g _ b ih

theorem ofRegister_checksum (g : BitVec w) (bits : List Bool) :
    ofRegister (checksum g bits) = (message bits * X ^ w) %ₘ generator g :=
  eq_remainder (remainder_above g bits)

theorem below_flushed (pos : 0 < w) (g : BitVec w) (bits : List Bool) :
    (bits ++ List.replicate w false).foldl (below g) 0 = checksum g bits := by
  apply ofRegister_injective
  rw [ofRegister_checksum, ← message_append_zeros]
  exact eq_remainder (remainder_below pos g _)

end Cdj2000Emulator.Library.CyclicCode
