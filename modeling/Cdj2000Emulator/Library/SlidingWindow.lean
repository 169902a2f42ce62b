import Mathlib.Data.List.Basic
import Mathlib.Data.Nat.Notation
import Mathlib.Logic.Function.Basic
import Mathlib.Tactic.Common

namespace Cdj2000Emulator.Library.SlidingWindow

open Function

variable {α : Type}

/-- The ring of `n` cells holds the last `n` elements of a text that was written from the cell
`start` on; `next` is the cell to be written next. -/
structure Holds (n start : ℕ) (text : List α) (cells : ℕ → α) (next : ℕ) : Prop where
  next : next = (start + text.length) % n
  last : ∀ (i : ℕ) (hi : i < text.length), text.length ≤ i + n →
    cells ((start + i) % n) = text[i]

variable {n start next : ℕ} {text : List α} {cells : ℕ → α}

theorem Holds.push (hn : 0 < n) (h : Holds n start text cells next) (a : α) :
    Holds n start (text ++ [a]) (update cells next a) ((next + 1) % n) := by
  refine ⟨?_, fun i hi hlast ↦ ?_⟩
  · rw [h.next, List.length_append, List.length_singleton, Nat.mod_add_mod, Nat.add_assoc]
  · rw [List.length_append, List.length_singleton] at hi hlast
    by_cases hnew : i = text.length
    · subst hnew
      rw [← h.next, update_self]
      simp
    · have hold : i < text.length := by omega
      have hne : (start + i) % n ≠ next := by
        intro heq
        rw [h.next] at heq
        have hmod : (start + i) % n = (start + i + (text.length - i)) % n := by
          rw [heq]
          congr 1
          omega
        have hdvd : n ∣ text.length - i := by
          have := Nat.dvd_of_mod_eq_zero (Nat.sub_mod_eq_zero_of_mod_eq hmod.symm)
          rwa [Nat.add_sub_cancel_left] at this
        have := Nat.le_of_dvd (by omega) hdvd
        omega
      rw [update_of_ne hne, h.last i hold (by omega), List.getElem_append_left hold]

/-- What lies at most `n` back can be copied to the end. -/
theorem Holds.copy (hn : 0 < n) {p q : ℕ} (hp : p < text.length)
    (h : Holds n start (text.take p) cells next) (hq : q < p) (hnear : p ≤ q + n)
    (hsame : text[q]? = text[p]?) :
    Holds n start (text.take (p + 1)) (update cells next (cells ((start + q) % n)))
      ((next + 1) % n) ∧ text[p]? = some (cells ((start + q) % n)) := by
  have hlength : (text.take p).length = p := by
    rw [List.length_take]
    omega
  have hcell : cells ((start + q) % n) = text[q] := by
    rw [h.last q (by omega) (by omega), List.getElem_take]
  have helem : text[p] = text[q] := by
    rw [List.getElem?_eq_getElem (by omega), List.getElem?_eq_getElem hp, Option.some.injEq] at hsame
    exact hsame.symm
  refine ⟨?_, ?_⟩
  · rw [List.take_add_one, List.getElem?_eq_getElem hp, helem, ← hcell]
    exact h.push hn _
  · rw [List.getElem?_eq_getElem hp, helem, hcell]

/-- A ring full of one element holds a text of it. -/
theorem holds_replicate (start : ℕ) (a : α) :
    Holds n start (List.replicate n a) (fun _ ↦ a) (start % n) := by
  refine ⟨?_, fun i hi _ ↦ ?_⟩
  · rw [List.length_replicate, Nat.add_mod_right]
  · rw [List.getElem_replicate]

end Cdj2000Emulator.Library.SlidingWindow
