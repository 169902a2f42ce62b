import Mathlib.Data.List.Basic
import Mathlib.Data.Nat.Notation
import Mathlib.Logic.Function.Basic
import Mathlib.Tactic.Common

namespace Cdj2000Emulator.Library

open Function

/-- A queue in an array: `len` elements from `head` on, round the end. -/
structure RingQueue (α : Type) where
  slots : ℕ → α
  head : ℕ
  len : ℕ

namespace RingQueue

variable {α : Type} {n : ℕ} {q : RingQueue α} {a : α}

/-- What waits, the first first, in an array of `n`. -/
def contents (n : ℕ) (q : RingQueue α) : List α :=
  (List.range q.len).map fun i ↦ q.slots ((q.head + i) % n)

def push (n : ℕ) (a : α) (q : RingQueue α) : RingQueue α :=
  { q with slots := update q.slots ((q.head + q.len) % n) a, len := q.len + 1 }

def front (q : RingQueue α) : α := q.slots q.head

def pop (n : ℕ) (q : RingQueue α) : RingQueue α :=
  { q with head := (q.head + 1) % n, len := q.len - 1 }

/-- Nothing waits; the slots keep what they held. -/
def clear (q : RingQueue α) : RingQueue α := { q with head := 0, len := 0 }

@[simp] theorem length_contents : (q.contents n).length = q.len := by
  rw [contents, List.length_map, List.length_range]

theorem contents_push (h : q.len < n) : (q.push n a).contents n = q.contents n ++ [a] := by
  have hkept : ∀ i ∈ List.range q.len,
      update q.slots ((q.head + q.len) % n) a ((q.head + i) % n) = q.slots ((q.head + i) % n) := by
    intro i hi
    rw [List.mem_range] at hi
    refine update_of_ne (fun heq ↦ ?_) _ _
    have hmod : (q.head + i + (q.len - i)) % n = (q.head + i) % n := by
      rw [heq]
      congr 1
      omega
    have hdvd := Nat.dvd_of_mod_eq_zero (Nat.sub_mod_eq_zero_of_mod_eq hmod)
    rw [Nat.add_sub_cancel_left] at hdvd
    have := Nat.le_of_dvd (by omega) hdvd
    omega
  rw [contents, contents, push, List.range_succ, List.map_append, List.map_congr_left hkept,
    List.map_singleton]
  dsimp only
  rw [update_self]

theorem contents_pop (hhead : q.head < n) (h : 0 < q.len) :
    q.contents n = q.front :: (q.pop n).contents n := by
  obtain ⟨len, hlen⟩ := Nat.exists_eq_succ_of_ne_zero (Nat.ne_of_gt h)
  rw [contents, contents, pop, front, hlen, Nat.succ_eq_add_one, List.range_succ_eq_map,
    List.map_cons, List.map_map, Nat.add_zero, Nat.mod_eq_of_lt hhead, Nat.add_sub_cancel]
  refine congrArg (q.slots q.head :: ·) (List.map_congr_left fun i _ ↦ ?_)
  simp only [comp_apply, Nat.succ_eq_add_one]
  rw [Nat.mod_add_mod]
  congr 2
  omega

theorem head_pop_lt (hn : 0 < n) : (q.pop n).head < n := Nat.mod_lt _ hn

end RingQueue

end Cdj2000Emulator.Library
