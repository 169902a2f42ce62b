import Mathlib.Data.Nat.Notation
import Mathlib.Logic.Function.Iterate
import Mathlib.Tactic.Common

namespace Cdj2000Emulator.Library

open Function

/-- A machine that stays in a phase until its time is up, and then goes on to the next. -/
structure Countdown (σ : Type) where
  left : σ → ℕ
  spend : ℕ → σ → σ
  next : σ → σ

namespace Countdown

variable {σ : Type} (m : Countdown σ)

/-- What time does to a machine that waits while `left` is not zero: one unit. -/
def tick (s : σ) : σ :=
  if m.left s = 0 then s else if 1 < m.left s then m.spend 1 s else m.next s

/-- `n` units at once, over `fuel` phases at most. -/
def elapse : ℕ → ℕ → σ → σ
  | 0, _, s => s
  | fuel + 1, n, s =>
    if n = 0 ∨ m.left s = 0 then s
    else if n < m.left s then m.spend n s
    else elapse fuel (n - m.left s) (m.next s)

/-- Spending time leaves the phase as it is. -/
structure Steady (P : σ → Prop) : Prop where
  left_spend : ∀ s n, n < m.left s → m.left (m.spend n s) = m.left s - n
  spend_spend : ∀ s a b, m.spend b (m.spend a s) = m.spend (a + b) s
  next_spend : ∀ s n, n < m.left s → m.next (m.spend n s) = m.next s
  keeps_spend : ∀ s n, P s → n < m.left s → P (m.spend n s)
  keeps_next : ∀ s, P s → m.left s ≠ 0 → P (m.next s)

variable {m} {P : σ → Prop}

theorem Steady.tick (h : m.Steady P) {s : σ} (hs : P s) : P (m.tick s) := by
  rw [Countdown.tick]
  split_ifs with hzero hmore
  · exact hs
  · exact h.keeps_spend s 1 hs hmore
  · exact h.keeps_next s hs hzero

theorem tick_iterate_idle {s : σ} (hs : m.left s = 0) (n : ℕ) : m.tick^[n] s = s :=
  iterate_fixed (show m.tick s = s from if_pos hs) n

theorem Steady.iterate_spend (h : m.Steady P) {s : σ} {n : ℕ} (hn : n + 1 < m.left s) :
    m.tick^[n + 1] s = m.spend (n + 1) s := by
  induction n with
  | zero =>
    rw [iterate_one, Countdown.tick, if_neg (by omega), if_pos hn]
  | succ n ih =>
    have hleft := h.left_spend s (n + 1) (by omega)
    rw [iterate_succ_apply', ih (by omega), Countdown.tick, hleft, if_neg (by omega),
      if_pos (by omega), h.spend_spend]

theorem Steady.iterate_next (h : m.Steady P) {s : σ} (hs : m.left s ≠ 0) :
    m.tick^[m.left s] s = m.next s := by
  obtain ⟨n, hn⟩ := Nat.exists_eq_succ_of_ne_zero hs
  cases n with
  | zero => rw [hn, iterate_one, Countdown.tick, if_neg hs, if_neg (by omega)]
  | succ n =>
    have hleft := h.left_spend s (n + 1) (by omega)
    rw [hn, iterate_succ_apply', h.iterate_spend (by omega), Countdown.tick, hleft, if_neg (by omega),
      if_neg (by omega), h.next_spend s (n + 1) (by omega)]

/-- Time at once is the same time unit by unit. -/
theorem Steady.elapse_eq (h : m.Steady P) {fuel n : ℕ} {s : σ} (hfuel : n ≤ fuel) :
    m.elapse fuel n s = m.tick^[n] s := by
  induction fuel generalizing n s with
  | zero =>
    rw [Nat.le_zero.mp hfuel]
    rfl
  | succ fuel ih =>
    rw [elapse]
    split_ifs with hdone hless
    · rcases hdone with rfl | hidle
      · rfl
      · exact (tick_iterate_idle hidle n).symm
    · obtain ⟨k, rfl⟩ := Nat.exists_eq_succ_of_ne_zero fun hzero ↦ hdone (Or.inl hzero)
      exact (h.iterate_spend hless).symm
    · have hsplit : n = n - m.left s + m.left s := by omega
      have hpos : m.left s ≠ 0 := fun hzero ↦ hdone (Or.inr hzero)
      rw [ih (by omega), hsplit, iterate_add_apply, h.iterate_next hpos, Nat.add_sub_cancel]

theorem Steady.keeps (h : m.Steady P) {s : σ} (hs : P s) (n : ℕ) : P (m.elapse n n s) := by
  rw [h.elapse_eq (Nat.le_refl _)]
  induction n with
  | zero => exact hs
  | succ n ih =>
    rw [iterate_succ_apply']
    exact h.tick ih

end Countdown

end Cdj2000Emulator.Library
