import Mathlib.Data.List.Range
import Cdj2000Emulator.Sh7764Eth.Model

namespace Cdj2000Emulator.Sh7764Eth.Descriptors

open Library.Bytes Library.Store Model

variable {ram ram' : ℕ → Byte} {base n c i : ℕ}

section Words

theorem wordAt_congr {a : ℕ} (h : ∀ x, a ≤ x → x < a + 4 → ram x = ram' x) :
    wordAt ram a = wordAt ram' a := by
  rw [wordAt, wordAt, read_congr h]

theorem descRead_congr {a : ℕ} (h : ∀ x, a ≤ x → x < a + 12 → ram x = ram' x) :
    descRead ram a = descRead ram' a := by
  unfold descRead
  rw [wordAt_congr fun x _ _ ↦ h x (by omega) (by omega),
    wordAt_congr fun x _ _ ↦ h x (by omega) (by omega),
    wordAt_congr fun x _ _ ↦ h x (by omega) (by omega)]

@[simp] theorem length_wordBytes (w : Word) : (wordBytes w).length = 4 := length_little 4 _

theorem wordAt_write (a : ℕ) (w : Word) : wordAt (write ram a (wordBytes w)) a = w := by
  have hlength : (wordBytes w).length = 4 := length_wordBytes w
  have hread : read (write ram a (wordBytes w)) a 4 = wordBytes w := by
    rw [← hlength]
    exact read_write
  rw [wordAt, hread, wordBytes, value_little (by have := w.isLt; omega), BitVec.ofNat_toNat,
    BitVec.setWidth_eq]

end Words

section Bits

variable (d : Descriptor)

theorem and_twoPow_ne_zero {k : ℕ} (hk : k < 32) (w : Word) :
    (w &&& BitVec.twoPow 32 k != 0) = w.getLsbD k := by
  rw [BitVec.and_twoPow]
  cases hbit : w.getLsbD k with
  | false => rfl
  | true =>
    have hne : BitVec.twoPow 32 k ≠ 0 := by
      intro h
      have := congrArg (fun v : Word ↦ v.getLsbD k) h
      simp [hk] at this
    rw [if_pos rfl]
    exact bne_iff_ne.mpr hne

theorem active_eq : d.active = d.status.getLsbD 31 :=
  and_twoPow_ne_zero (show 31 < 32 by decide) d.status

theorem ends_eq : d.ends = d.status.getLsbD 30 :=
  and_twoPow_ne_zero (show 30 < 32 by decide) d.status

theorem first_eq : d.first = d.status.getLsbD 29 :=
  and_twoPow_ne_zero (show 29 < 32 by decide) d.status

theorem last_eq : d.last = d.status.getLsbD 28 :=
  and_twoPow_ne_zero (show 28 < 32 by decide) d.status

end Bits

/-- Where a descriptor of the ring is. -/
def slotAddress (base i : ℕ) : ℕ := base + 16 * i

def slotAt (ram : ℕ → Byte) (base i : ℕ) : Slot :=
  (BitVec.ofNat 32 (slotAddress base i), descRead ram (slotAddress base i))

/-- The descriptors in the order of the ring from the `c`-th. -/
def slotsFrom (ram : ℕ → Byte) (base n c : ℕ) : List Slot :=
  (List.range' c (n - c) ++ List.range' 0 c).map (slotAt ram base)

/-- A ring of `n` descriptors in the guest's memory: its last, and no other, ends it. -/
structure Ring (ram : ℕ → Byte) (base n : ℕ) : Prop where
  inhabited : 0 < n
  aligned : base % 16 = 0
  low : 0x04000000 ≤ base
  high : base + 16 * n ≤ 0x0c000000
  ends : ∀ i < n, (descRead ram (slotAddress base i)).ends ↔ i + 1 = n

/-- The descriptors lie one behind the other, from the address of the first to the address
behind the last. -/
def Follows (ram : ℕ → Byte) (base : Word) : Word → List Slot → Word → Prop
  | a, [], b => a = b
  | a, (a', d) :: slots, b =>
    a' = a ∧ a &&& 15 = 0 ∧ ramRange a.toNat 12 ∧ descRead ram a.toNat = d ∧
      Follows ram base (nextDesc a d base) slots b

theorem Follows.append {base a b z : Word} {xs ys : List Slot} (h : Follows ram base a xs b)
    (h' : Follows ram base b ys z) : Follows ram base a (xs ++ ys) z := by
  induction xs generalizing a with
  | nil =>
    obtain rfl : a = b := h
    exact h'
  | cons x xs ih =>
    obtain ⟨h1, h2, h3, h4, h5⟩ := h
    exact ⟨h1, h2, h3, h4, ih h5⟩

theorem Follows.split {base a z : Word} {xs ys : List Slot}
    (h : Follows ram base a (xs ++ ys) z) :
    ∃ b, Follows ram base a xs b ∧ Follows ram base b ys z := by
  induction xs generalizing a with
  | nil => exact ⟨a, rfl, h⟩
  | cons x xs ih =>
    obtain ⟨h1, h2, h3, h4, h5⟩ := h
    obtain ⟨b, hxs, hys⟩ := ih h5
    exact ⟨b, ⟨h1, h2, h3, h4, hxs⟩, hys⟩

theorem Follows.congr {base a b : Word} {xs : List Slot} (h : Follows ram base a xs b)
    (hsame : ∀ x ∈ xs, descRead ram' x.1.toNat = descRead ram x.1.toNat) :
    Follows ram' base a xs b := by
  induction xs generalizing a with
  | nil => exact h
  | cons x xs ih =>
    obtain ⟨rfl, h2, h3, h4, h5⟩ := h
    refine ⟨rfl, h2, h3, ?_, ih h5 fun y hy ↦ hsame y (.tail x hy)⟩
    rw [hsame x List.mem_cons_self, h4]

theorem Follows.rest {base a b z : Word} {xs ys : List Slot} (h : Follows ram base a xs b)
    (h' : Follows ram base a (xs ++ ys) z) : Follows ram base b ys z := by
  induction xs generalizing a with
  | nil =>
    obtain rfl : a = b := h
    exact h'
  | cons x xs ih =>
    obtain ⟨-, -, -, -, h5⟩ := h
    obtain ⟨-, -, -, -, h5'⟩ := h'
    exact ih h5 h5'

namespace Ring

variable (h : Ring ram base n)
include h

theorem toNat_slotAddress (hi : i < n) :
    (BitVec.ofNat 32 (slotAddress base i) : Word).toNat = slotAddress base i := by
  have := h.high
  rw [BitVec.toNat_ofNat, slotAddress, Nat.mod_eq_of_lt (by omega)]

theorem slot_aligned (hi : i < n) :
    (BitVec.ofNat 32 (slotAddress base i) : Word) &&& 15 = 0 := by
  have := h.aligned
  have hmod : slotAddress base i % 16 = 0 := by
    unfold slotAddress
    omega
  apply BitVec.eq_of_toNat_eq
  have hand : ((15 : Word)).toNat = 2 ^ 4 - 1 := rfl
  rw [BitVec.toNat_and, h.toNat_slotAddress hi, hand, Nat.and_two_pow_sub_one_eq_mod, hmod]
  rfl

theorem slot_range (hi : i < n) : ramRange (slotAddress base i) 12 := by
  have h1 := h.low
  have h2 := h.high
  unfold ramRange slotAddress
  simp only [Bool.and_eq_true, decide_eq_true_eq]
  omega

theorem slot_next (hi : i < n) :
    nextDesc (BitVec.ofNat 32 (slotAddress base i)) (descRead ram (slotAddress base i))
        (BitVec.ofNat 32 base) =
      BitVec.ofNat 32 (slotAddress base (if i + 1 = n then 0 else i + 1)) := by
  unfold nextDesc
  by_cases hlast : i + 1 = n
  · rw [if_pos ((h.ends i hi).mpr hlast), if_pos hlast]
    rfl
  · rw [if_neg (fun hends ↦ hlast ((h.ends i hi).mp hends)), if_neg hlast]
    apply BitVec.eq_of_toNat_eq
    rw [BitVec.toNat_add, h.toNat_slotAddress hi, h.toNat_slotAddress (by omega)]
    have := h.high
    unfold slotAddress
    change (base + 16 * i + 16) % 2 ^ 32 = _
    omega

theorem follows_range' {m : ℕ} (hi : i < n) (hm : i + m ≤ n) :
    Follows ram (BitVec.ofNat 32 base) (BitVec.ofNat 32 (slotAddress base i))
      ((List.range' i m).map (slotAt ram base))
      (BitVec.ofNat 32 (slotAddress base (if i + m = n then 0 else i + m))) := by
  induction m generalizing i with
  | zero =>
    change _ = _
    rw [if_neg (by omega)]
    rfl
  | succ m ih =>
    rw [List.range'_succ, List.map_cons]
    refine ⟨rfl, h.slot_aligned hi, ?_, ?_, ?_⟩
    · rw [h.toNat_slotAddress hi]
      exact h.slot_range hi
    · rw [h.toNat_slotAddress hi]
    · rw [h.slot_next hi]
      by_cases hlast : i + 1 = n
      · obtain rfl : m = 0 := by omega
        rw [if_pos hlast]
        rfl
      · have hrest := ih (i := i + 1) (by omega) (by omega)
        rw [if_neg hlast]
        rwa [Nat.add_right_comm, Nat.add_assoc] at hrest

/-- All of the ring from one descriptor leads back to it. -/
theorem follows (hc : c < n) :
    Follows ram (BitVec.ofNat 32 base) (BitVec.ofNat 32 (slotAddress base c))
      (slotsFrom ram base n c) (BitVec.ofNat 32 (slotAddress base c)) := by
  rw [slotsFrom, List.map_append]
  have hfront := h.follows_range' hc (m := n - c) (by omega)
  rw [if_pos (by omega)] at hfront
  refine hfront.append ?_
  have hback := h.follows_range' h.inhabited (m := c) (by omega)
  rwa [if_neg (by omega), Nat.zero_add] at hback

end Ring

section Order

theorem length_slotsFrom (hc : c ≤ n) : (slotsFrom ram base n c).length = n := by
  simp only [slotsFrom, List.length_map, List.length_append, List.length_range']
  omega

theorem getElem_slotsFrom (hc : c < n) (hi : i < (slotsFrom ram base n c).length) :
    (slotsFrom ram base n c)[i] = slotAt ram base ((c + i) % n) := by
  have hi' : i < n := by rwa [length_slotsFrom hc.le] at hi
  refine (List.getElem_map _).trans (congrArg _ ?_)
  by_cases hfront : i < n - c
  · rw [List.getElem_append_left (by simpa using hfront), List.getElem_range',
      Nat.mod_eq_of_lt (by omega), Nat.one_mul]
  · rw [List.getElem_append_right (by simpa using hfront), List.getElem_range',
      List.length_range', Nat.mod_eq_sub_mod (by omega), Nat.mod_eq_of_lt (by omega)]
    omega

theorem mem_slotsFrom (hc : c < n) {x : Slot} (h : x ∈ slotsFrom ram base n c) :
    ∃ i < n, x = slotAt ram base i := by
  obtain ⟨i, hi, rfl⟩ := List.getElem_of_mem h
  exact ⟨_, Nat.mod_lt _ (by omega), getElem_slotsFrom hc hi⟩

/-- Different places in the order are different descriptors of the ring. -/
theorem pairwise_slotsFrom (hc : c < n) {R : Slot → Slot → Prop}
    (h : ∀ i < n, ∀ j < n, i ≠ j → R (slotAt ram base i) (slotAt ram base j)) :
    (slotsFrom ram base n c).Pairwise R := by
  refine List.pairwise_map.mpr (List.pairwise_append.mpr ⟨?_, ?_, ?_⟩)
  · refine (List.nodup_range' 1 (by decide)).imp_of_mem fun {i j} hi hj hne ↦ ?_
    have hi' := List.mem_range'_1.mp hi
    have hj' := List.mem_range'_1.mp hj
    exact h i (by omega) j (by omega) hne
  · refine (List.nodup_range' 1 (by decide)).imp_of_mem fun {i j} hi hj hne ↦ ?_
    have hi' := List.mem_range'_1.mp hi
    have hj' := List.mem_range'_1.mp hj
    exact h i (by omega) j (by omega) hne
  · intro i hi j hj
    have hi' := List.mem_range'_1.mp hi
    have hj' := List.mem_range'_1.mp hj
    exact h i (by omega) j (by omega) (by omega)

/-- Where the first of the descriptors lead. -/
theorem Ring.cursor (h : Ring ram base n) (hc : c < n) {used rest : List Slot} {b : Word}
    (hsplit : slotsFrom ram base n c = used ++ rest)
    (hfollows : Follows ram (BitVec.ofNat 32 base) (BitVec.ofNat 32 (slotAddress base c)) used b) :
    b = BitVec.ofNat 32 (slotAddress base ((c + used.length) % n)) := by
  have hwhole := h.follows hc
  rw [hsplit] at hwhole
  have hrest := hfollows.rest hwhole
  have hlength := congrArg List.length hsplit
  rw [length_slotsFrom hc.le, List.length_append] at hlength
  cases rest with
  | nil =>
    obtain rfl : b = _ := hrest
    have hn : used.length = n := by simpa using hlength.symm
    rw [hn, Nat.add_mod_right, Nat.mod_eq_of_lt hc]
  | cons x rest =>
    have hi : used.length < (slotsFrom ram base n c).length := by
      rw [hsplit, List.length_append, List.length_cons]
      omega
    have hx : (slotsFrom ram base n c)[used.length] = x := by
      simp [hsplit]
    rw [getElem_slotsFrom hc hi] at hx
    rw [← hrest.1, ← hx]
    rfl

end Order

end Cdj2000Emulator.Sh7764Eth.Descriptors
