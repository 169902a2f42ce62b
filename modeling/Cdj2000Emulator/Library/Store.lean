import Mathlib.Data.List.Basic
import Mathlib.Data.Nat.Notation
import Mathlib.Tactic.Common

namespace Cdj2000Emulator.Library.Store

variable {β : Type}

/-- The `n` cells of a memory from an address. -/
def read (mem : ℕ → β) (a n : ℕ) : List β := (List.range n).map fun i ↦ mem (a + i)

/-- The memory with a list laid over it from an address. -/
def write (mem : ℕ → β) (a : ℕ) (l : List β) : ℕ → β := fun i ↦
  if a ≤ i then l[i - a]?.getD (mem i) else mem i

variable {mem mem' : ℕ → β} {a b n m i : ℕ} {l k : List β}

@[simp] theorem length_read : (read mem a n).length = n := by simp [read]

theorem read_congr (h : ∀ i, a ≤ i → i < a + n → mem i = mem' i) : read mem a n = read mem' a n := by
  refine List.map_congr_left fun i hi ↦ ?_
  have hlt := List.mem_range.mp hi
  exact h (a + i) (by omega) (by omega)

theorem write_outside (h : i < a ∨ a + l.length ≤ i) : write mem a l i = mem i := by
  unfold write
  rcases h with h | h
  · rw [if_neg (by omega)]
  · rw [if_pos (by omega), List.getElem?_eq_none (by omega)]
    rfl

theorem read_write : read (write mem a l) a l.length = l := by
  refine List.ext_getElem (by simp) fun i hi hj ↦ ?_
  simp [read, write, List.getElem?_eq_getElem hj]

theorem read_write_apart (h : a + n ≤ b ∨ b + l.length ≤ a) :
    read (write mem b l) a n = read mem a n :=
  read_congr fun _ _ _ ↦ write_outside (by omega)

theorem write_append : write mem a (l ++ k) = write (write mem a l) (a + l.length) k := by
  funext i
  unfold write
  by_cases h : a ≤ i
  · by_cases h' : a + l.length ≤ i
    · have hnone : l[i - a]? = none := List.getElem?_eq_none (by omega)
      rw [if_pos h, if_pos h', if_pos h, List.getElem?_append_right (by omega), hnone, Nat.sub_sub]
      rfl
    · rw [if_pos h, if_neg h', if_pos h, List.getElem?_append_left (by omega)]
  · rw [if_neg h, if_neg (by omega), if_neg h]

end Cdj2000Emulator.Library.Store
