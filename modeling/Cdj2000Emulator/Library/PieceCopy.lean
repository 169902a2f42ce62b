import Mathlib.Algebra.Order.Ring.Int
import Mathlib.Data.Int.Basic
import Mathlib.Logic.Nontrivial.Basic
import Mathlib.Tactic.Push

namespace Cdj2000Emulator.Library.PieceCopy

variable {β : Type*}

/-- `n` places are read, and then written. -/
def move (src dst : ℤ) (n : ℕ) (m : ℤ → β) : ℤ → β := fun a ↦
  if dst ≤ a ∧ a < dst + n then m (src + (a - dst)) else m a

/-- A copy upwards in pieces of `c` places. -/
def pieces (c : ℕ) (src dst : ℤ) (n : ℕ) (m : ℤ → β) : ℤ → β :=
  if 0 < c ∧ 0 < n then
    pieces c (src + (min c n : ℕ)) (dst + (min c n : ℕ)) (n - min c n) (move src dst (min c n) m)
  else m
termination_by n

variable {c u k n x : ℕ} {src dst d : ℤ} {m m₀ m' : ℤ → β}

theorem move_of_mem {a : ℤ} (h : dst ≤ a) (h' : a < dst + n) : move src dst n m a = m (src + (a - dst)) :=
  if_pos ⟨h, h'⟩

theorem move_of_not_mem {a : ℤ} (h : ¬ (dst ≤ a ∧ a < dst + n)) : move src dst n m a = m a := if_neg h

theorem pieces_zero : pieces c src dst 0 m = m := by
  rw [pieces, if_neg fun h ↦ Nat.lt_irrefl 0 h.2]

theorem pieces_of_pos (hc : 0 < c) (hn : 0 < n) : pieces c src dst n m =
    pieces c (src + (min c n : ℕ)) (dst + (min c n : ℕ)) (n - min c n) (move src dst (min c n) m) := by
  rw [pieces, if_pos ⟨hc, hn⟩]

/-- At this offset a copy over the distance `d` reads what it has written. -/
def Again (c : ℕ) (d : ℤ) (x : ℕ) : Prop := d ≤ x ∧ ((x % c : ℕ) : ℤ) < d

instance : Decidable (Again c d x) := inferInstanceAs (Decidable (_ ∧ _))

/-- The first `n` places have been copied. -/
structure Copied (c : ℕ) (src dst : ℤ) (n : ℕ) (m₀ m : ℤ → β) : Prop where
  inside : ∀ x < n, m (dst + x) = if Again c (dst - src) x then m (src + x) else m₀ (src + x)
  outside : ∀ a, ¬ (dst ≤ a ∧ a < dst + n) → m a = m₀ a

namespace Copied

theorem zero : Copied c src dst 0 m m where
  inside _ h := absurd h (Nat.not_lt_zero _)
  outside _ _ := rfl

theorem move (h : Copied c src dst k m₀ m) (hk : c ∣ k) (hn : n ≤ c) :
    Copied c src dst (k + n) m₀ (move (src + k) (dst + k) n m) where
  inside x hx := by
    by_cases old : x < k
    · rw [move_of_not_mem (by omega), h.inside x old]
      split_ifs with again
      · rw [move_of_not_mem]
        have := again.1
        have := again.2
        omega
      · rfl
    · obtain ⟨i, rfl⟩ := Nat.exists_eq_add_of_le (Nat.le_of_not_lt old)
      have place : (k + i) % c = i := by
        rw [Nat.add_mod, Nat.mod_eq_zero_of_dvd hk, Nat.zero_add, Nat.mod_mod]
        exact Nat.mod_eq_of_lt (by omega)
      rw [move_of_mem (by omega) (by omega)]
      have same : src + (k : ℤ) + (dst + ((k + i : ℕ) : ℤ) - (dst + k)) = src + ((k + i : ℕ) : ℤ) := by omega
      rw [same]
      split_ifs with again
      · obtain ⟨low, high⟩ := again
        rw [place] at high
        rw [move_of_not_mem (by omega)]
      · have fresh : ¬ (dst - src ≤ ((k + i : ℕ) : ℤ) ∧ (i : ℤ) < dst - src) :=
          fun h ↦ again ⟨h.1, by rw [place]; exact h.2⟩
        exact h.outside _ (by omega)
  outside a ha := by
    rw [move_of_not_mem (by omega)]
    exact h.outside a (by omega)

theorem pieces_from (hc : 0 < c) (h : Copied c src dst k m₀ m) (hk : c ∣ k) :
    Copied c src dst (k + n) m₀ (pieces c (src + k) (dst + k) n m) := by
  induction n using Nat.strong_induction_on generalizing k m with
  | h n ih =>
    by_cases hn : 0 < n
    · rw [pieces_of_pos hc hn]
      have piece := h.move hk (Nat.min_le_left c n)
      by_cases last : n ≤ c
      · rw [Nat.min_eq_right last, Nat.sub_self, pieces_zero]
        rwa [Nat.min_eq_right last] at piece
      · have full : min c n = c := Nat.min_eq_left (by omega)
        rw [full] at piece ⊢
        have rest := ih (n - c) (by omega) piece (Nat.dvd_add hk (Nat.dvd_refl c))
        rw [Nat.add_assoc, Nat.add_sub_cancel' (by omega), Nat.cast_add, ← Int.add_assoc, ← Int.add_assoc] at rest
        exact rest
    · obtain rfl : n = 0 := Nat.eq_zero_of_not_pos hn
      rwa [pieces_zero]

theorem pieces (hc : 0 < c) : Copied c src dst n m (pieces c src dst n m) := by
  have start : Copied c src dst 0 m m := zero
  have whole := start.pieces_from (n := n) hc (Nat.dvd_zero c)
  rwa [Nat.zero_add, Nat.cast_zero, Int.add_zero, Int.add_zero] at whole

/-- What stands at an offset has come from no higher one. -/
theorem origin (h : Copied c src dst n m₀ m) (hx : x < n) : ∃ y ≤ x, m (dst + x) = m₀ (src + y) := by
  induction x using Nat.strong_induction_on with
  | h x ih =>
    rw [h.inside x hx]
    split_ifs with again
    · obtain ⟨low, high⟩ := again
      have back : src + (x : ℤ) = dst + ((x - (dst - src).toNat : ℕ) : ℤ) := by omega
      obtain ⟨y, hy, hm⟩ := ih (x - (dst - src).toNat) (by omega) (by omega)
      exact ⟨y, by omega, by rw [back, hm]⟩
    · exact ⟨x, le_refl x, rfl⟩

/-- Copies that read the same offsets again leave the same. -/
theorem unique (h : Copied c src dst n m₀ m) (h' : Copied u src dst n m₀ m')
    (same : ∀ x < n, Again c (dst - src) x ↔ Again u (dst - src) x) : m = m' := by
  have inside : ∀ x < n, m (dst + x) = m' (dst + x) := by
    intro x hx
    induction x using Nat.strong_induction_on with
    | h x ih =>
      rw [h.inside x hx, h'.inside x hx]
      by_cases again : Again u (dst - src) x
      · rw [if_pos again, if_pos ((same x hx).mpr again)]
        obtain ⟨low, high⟩ := again
        have back : src + (x : ℤ) = dst + ((x - (dst - src).toNat : ℕ) : ℤ) := by omega
        rw [back]
        exact ih _ (by omega) (by omega)
      · rw [if_neg again, if_neg fun k ↦ again ((same x hx).mp k)]
  funext a
  by_cases ha : dst ≤ a ∧ a < dst + n
  · have place : a = dst + ((a - dst).toNat : ℤ) := by omega
    rw [place]
    exact inside _ (by omega)
  · rw [h.outside a ha, h'.outside a ha]

end Copied

/-- Larger pieces copy like smaller ones unless the target starts inside the first large piece, above its start. -/
theorem pieces_eq_iff [Nontrivial β] (hu : 0 < u) (huc : u < c) (hdvd : u ∣ c) :
    (∀ m : ℤ → β, pieces c src dst n m = pieces u src dst n m) ↔
      dst ≤ src ∨ src + c ≤ dst ∨ (n : ℤ) ≤ max (dst - src) u := by
  constructor
  · intro same
    by_contra h
    push Not at h
    obtain ⟨above, below, long⟩ := h
    obtain ⟨x, hx⟩ : ∃ x : ℕ, (x : ℤ) = max (dst - src) u := ⟨(max (dst - src) (u : ℤ)).toNat, by omega⟩
    have again : Again u (dst - src) x := by
      refine ⟨by omega, ?_⟩
      rcases lt_or_ge (dst - src) u with small | large
      · obtain rfl : x = u := by omega
        rw [Nat.mod_self]
        omega
      · have := Nat.mod_lt x hu
        omega
    have fresh : ¬ Again c (dst - src) x := by
      rintro ⟨-, low⟩
      rw [Nat.mod_eq_of_lt (by omega)] at low
      omega
    obtain ⟨b, b', distinct⟩ := exists_pair_ne β
    obtain ⟨m, hm⟩ : ∃ m : ℤ → β, ∀ a, m a = if a = src + x then b else b' := ⟨_, fun _ ↦ rfl⟩
    have small : Copied u src dst n m (pieces u src dst n m) := .pieces hu
    have large : Copied c src dst n m (pieces c src dst n m) := .pieces (by omega)
    have equal := congrFun (same m) (dst + x)
    rw [large.inside x (by omega), if_neg fresh, hm, if_pos rfl, small.inside x (by omega), if_pos again] at equal
    have back : src + (x : ℤ) = dst + ((x - (dst - src).toNat : ℕ) : ℤ) := by omega
    obtain ⟨y, hy, found⟩ := small.origin (x := x - (dst - src).toNat) (by omega)
    rw [back, found, hm, if_neg (by omega)] at equal
    exact distinct equal
  · intro h m
    refine (Copied.pieces (by omega)).unique (Copied.pieces hu) fun x hx ↦ ?_
    have inner : x % u ≤ x % c := by
      rw [← Nat.mod_mod_of_dvd x hdvd]
      exact Nat.mod_le _ _
    have outer := Nat.mod_lt x (Nat.lt_trans hu huc)
    refine ⟨fun again ↦ ⟨again.1, by have := again.2; omega⟩, fun again ↦ ⟨again.1, ?_⟩⟩
    obtain ⟨low, high⟩ := again
    rcases h with below | far | short
    · omega
    · omega
    · rcases lt_or_ge (dst - src) u with small | large
      · rw [Nat.mod_eq_of_lt (by omega)] at high
        omega
      · omega

end Cdj2000Emulator.Library.PieceCopy
