import Mathlib.Data.List.Basic

namespace Cdj2000Emulator.Library.Portions

variable {α : Type*} {cap : ℕ → ℕ} {n i : ℕ} {l p : List α} {ps : List (List α)}

/-- A list cut into portions, the one with number `n` of `cap n` items, down to a last one that may be short. -/
inductive Portioned (cap : ℕ → ℕ) : ℕ → List α → List (List α) → Prop
  | last {n : ℕ} {l : List α} : l.length ≤ cap n → Portioned cap n l [l]
  | more {n : ℕ} {l : List α} {ps : List (List α)} :
      cap n < l.length → Portioned cap (n + 1) (l.drop (cap n)) ps → Portioned cap n l (l.take (cap n) :: ps)

theorem Portioned.ne_nil (h : Portioned cap n l ps) : ps ≠ [] := by
  cases h <;> exact List.cons_ne_nil _ _

theorem Portioned.flatten (h : Portioned cap n l ps) : ps.flatten = l := by
  induction h with
  | last => simp
  | more _ _ ih => rw [List.flatten_cons, ih, List.take_append_drop]

theorem Portioned.mem (h : Portioned cap n l ps) {x : α} (hp : p ∈ ps) (hx : x ∈ p) : x ∈ l := by
  rw [← h.flatten]
  exact List.mem_flatten_of_mem hp hx

theorem Portioned.starts (h : Portioned cap n l ps) (later : 0 < i) (hi : i < ps.length) :
    (ps.take i).flatten.length < l.length := by
  induction h generalizing i with
  | last => simp at hi; omega
  | @more n l ps longer _ ih =>
    obtain ⟨i, rfl⟩ := Nat.exists_eq_add_of_lt later
    simp only [Nat.zero_add, List.take_succ_cons, List.flatten_cons, List.length_append, List.length_take] at *
    rcases Nat.eq_zero_or_pos i with rfl | hi'
    · simp
      omega
    · have := ih hi' (by simpa using hi)
      rw [List.length_drop] at this
      omega

end Cdj2000Emulator.Library.Portions
