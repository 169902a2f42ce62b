import Mathlib.Algebra.Group.Basic
import Mathlib.Data.List.Range

namespace Cdj2000Emulator.Library.Strided

variable {α σ : Type} [AddMonoid α]

/-- A loop whose pointer advances by a constant step. -/
def walk (body : α → σ → σ) (step : α) : ℕ → α → σ → σ
  | 0, _, s => s
  | n + 1, x, s => walk body step n (x + step) (body x s)

theorem walk_eq_foldl (body : α → σ → σ) (step : α) (n : ℕ) (x : α) (s : σ) :
    walk body step n x s = (List.range n).foldl (fun s i ↦ body (x + i • step) s) s := by
  induction n generalizing x s with
  | zero => rfl
  | succ n ih =>
    rw [walk, ih, List.range_succ_eq_map, List.foldl_cons, List.foldl_map, zero_nsmul, add_zero]
    simp only [Nat.succ_eq_add_one, succ_nsmul', add_assoc]

def grid (rows cols : ℕ) : List (ℕ × ℕ) :=
  (List.range rows).flatMap fun r ↦ (List.range cols).map fun c ↦ (r, c)

theorem grid_succ (rows cols : ℕ) :
    grid (rows + 1) cols = grid rows cols ++ (List.range cols).map fun c ↦ (rows, c) := by
  simp only [grid, List.range_succ, List.flatMap_append, List.flatMap_singleton]

theorem grid_eq_map (rows : ℕ) {cols : ℕ} (hcols : 0 < cols) :
    grid rows cols = (List.range (cols * rows)).map fun k ↦ (k / cols, k % cols) := by
  induction rows with
  | zero => rfl
  | succ rows ih =>
    rw [grid_succ, ih, Nat.mul_succ, List.range_add, List.map_append, List.map_map]
    congr 1
    apply List.map_congr_left
    intro c hc
    have hlt := List.mem_range.mp hc
    simp only [Function.comp_apply, Nat.mul_add_div hcols, Nat.div_eq_of_lt hlt, Nat.add_zero,
      Nat.mul_add_mod, Nat.mod_eq_of_lt hlt]

/-- The pointer to row `r`, column `c`. -/
def point (base rowStride step : α) (r c : ℕ) : α := base + r • rowStride + c • step

@[simp] theorem point_zero (base rowStride step : α) : point base rowStride step 0 0 = base := by
  simp only [point, zero_nsmul, add_zero]

theorem point_add (base rowStride step : α) (r c i : ℕ) :
    point base rowStride step r c + i • step = point base rowStride step r (c + i) := by
  simp only [point, add_nsmul, add_assoc]

/-- From the last column of a row the skip leads to the next row's start. -/
theorem point_skip (base step skip : α) (r c : ℕ) :
    point base (c • step + skip) step r c + skip = point base (c • step + skip) step (r + 1) 0 := by
  simp only [point, succ_nsmul, zero_nsmul, add_zero, add_assoc]

end Cdj2000Emulator.Library.Strided
