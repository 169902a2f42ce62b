import Mathlib.Data.BitVec
import Mathlib.Data.List.Sort
import Mathlib.Tactic.Common

namespace Cdj2000Emulator.Library.BitMask

variable {w i n : ℕ} {x y : BitVec w}

theorem getLsbD_foldl (l : List ℕ) (mask : BitVec w) (hi : i < w) :
    (l.foldl (fun mask n ↦ mask ||| BitVec.twoPow w n) mask).getLsbD i =
      (mask.getLsbD i || decide (i ∈ l)) := by
  induction l generalizing mask with
  | nil => simp
  | cons n l ih =>
    rw [List.foldl_cons, ih, BitVec.getLsbD_or, BitVec.getLsbD_twoPow, Bool.or_assoc]
    congr 1
    by_cases h : i = n
    · subst h
      simp [hi]
    · simp [h, Ne.symm h]

theorem and_eq_zero_iff : x &&& y = 0 ↔ ∀ i, x.getLsbD i = true → y.getLsbD i = false := by
  constructor
  · intro h i hx
    have hand := congrArg (BitVec.getLsbD · i) h
    simpa [hx] using hand
  · intro h
    apply BitVec.eq_of_getLsbD_eq
    intro i _
    have hi := h i
    rw [BitVec.getLsbD_and]
    cases hx : x.getLsbD i with
    | false => simp
    | true => simp [hi hx]

theorem getLsbD_clear (hi : i < w) :
    (x &&& ~~~BitVec.twoPow w n).getLsbD i = (x.getLsbD i && decide (i ≠ n)) := by
  rw [BitVec.getLsbD_and, BitVec.getLsbD_not, BitVec.getLsbD_twoPow]
  by_cases h : i = n
  · subst h
    simp [hi]
  · simp [h, hi, Ne.symm h]

theorem filter_above {l : List ℕ} (h : l.Pairwise (· < ·)) {k : ℕ} (hk : k < l.length) :
    l.filter (l[k] + 1 ≤ ·) = l.drop (k + 1) := by
  induction l generalizing k with
  | nil => exact absurd hk (Nat.not_lt_zero k)
  | cons a l ih =>
    obtain ⟨ha, hl⟩ := List.pairwise_cons.mp h
    cases k with
    | zero =>
      rw [List.getElem_cons_zero, List.drop_one, List.tail_cons, List.filter_cons_of_neg (by simp),
        List.filter_eq_self]
      intro b hb
      exact decide_eq_true (ha b hb)
    | succ k =>
      have hk' : k < l.length := Nat.lt_of_succ_lt_succ hk
      have hbelow : ¬(l[k] + 1 ≤ a) := by
        have := ha l[k] (List.getElem_mem hk')
        omega
      rw [List.getElem_cons_succ, List.drop_succ_cons, List.filter_cons_of_neg (by simpa using hbelow),
        ih hl hk']

end Cdj2000Emulator.Library.BitMask
