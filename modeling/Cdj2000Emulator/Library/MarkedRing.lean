import Mathlib.Data.List.Basic
import Mathlib.Data.Nat.ModEq

namespace Cdj2000Emulator.Library

open Function

/-- A ring with a mark on every entry that has not been taken. An arrival replaces the oldest when all are marked. -/
structure MarkedRing (α : Type) where
  entry : ℕ → α
  fresh : ℕ → Bool
  put : ℕ
  get : ℕ

namespace MarkedRing

variable {α : Type} {n i j : ℕ} {r : MarkedRing α} {q : List α} {a : α} {f : α → α}

/-- The first marked entry from where the next one is taken. -/
def oldest (n : ℕ) (r : MarkedRing α) : Option ℕ :=
  ((List.range n).find? fun step ↦ r.fresh ((r.get % n + step) % n)).map fun step ↦ (r.get % n + step) % n

def newest (n : ℕ) (r : MarkedRing α) : ℕ := (r.put + n - 1) % n

def unread (n : ℕ) (r : MarkedRing α) : Bool := (List.range n).any r.fresh

/-- An arrival changes the entry it is put into by `f`. -/
def push (n : ℕ) (f : α → α) (r : MarkedRing α) : MarkedRing α :=
  let put := r.put % n
  { entry := update r.entry put (f (r.entry put))
    fresh := update r.fresh put true
    put := (put + 1) % n
    get := if r.fresh put && r.get % n == put then (put + 1) % n else r.get }

def take (n : ℕ) (i : ℕ) (r : MarkedRing α) : MarkedRing α :=
  { r with fresh := update r.fresh i false, get := (i + 1) % n }

def clear (r : MarkedRing α) : MarkedRing α := { r with fresh := fun _ ↦ false, put := 0, get := 0 }

/-- The ring of `n` entries holds a queue: its marked entries, from where the next one is taken. -/
structure Holds (n : ℕ) (r : MarkedRing α) (q : List α) : Prop where
  size : q.length ≤ n
  get : r.get < n
  put : r.put = (r.get + q.length) % n
  fresh : ∀ j < n, r.fresh ((r.get + j) % n) = decide (j < q.length)
  entry : ∀ j a, q[j]? = some a → r.entry ((r.get + j) % n) = a

theorem holds_nil (hn : 0 < n) (hfresh : ∀ i, r.fresh i = false) (hput : r.put = 0) (hget : r.get = 0) :
    Holds n r [] where
  size := Nat.zero_le n
  get := hget ▸ hn
  put := by rw [hput, hget, List.length_nil, Nat.zero_mod]
  fresh _ _ := hfresh _
  entry _ _ h := absurd h (by simp)

theorem holds_clear (hn : 0 < n) : Holds n r.clear [] := holds_nil hn (fun _ ↦ rfl) rfl rfl

theorem step_injective (hi : i < n) (hj : j < n) {g : ℕ} (h : (g + i) % n = (g + j) % n) : i = j := by
  have hcancel : i % n = j % n := Nat.ModEq.add_left_cancel' g h
  rwa [Nat.mod_eq_of_lt hi, Nat.mod_eq_of_lt hj] at hcancel

theorem step_succ {g : ℕ} : ((g + 1) % n + j) % n = (g + (j + 1)) % n := by
  rw [Nat.mod_add_mod]
  congr 1
  omega

namespace Holds

variable (h : Holds n r q)

include h

theorem pos : 0 < n := Nat.lt_of_le_of_lt (Nat.zero_le _) h.get

theorem put_lt : r.put < n := by
  rw [h.put]
  exact Nat.mod_lt _ h.pos

theorem fresh_put : r.fresh r.put = decide (q.length = n) := by
  rw [h.put]
  by_cases hfull : q.length = n
  · have hn := h.pos
    rw [hfull, Nat.add_mod_right, ← Nat.add_zero r.get, h.fresh 0 hn, hfull, decide_eq_decide]
    exact iff_of_true hn rfl
  · have hlt : q.length < n := Nat.lt_of_le_of_ne h.size hfull
    rw [h.fresh _ hlt, decide_eq_decide]
    exact iff_of_false (Nat.lt_irrefl _) hfull

theorem unread_eq : r.unread n = decide (q ≠ []) := by
  rw [Bool.eq_iff_iff, unread, List.any_eq_true, decide_eq_true_eq]
  constructor
  · rintro ⟨i, hi, hfresh⟩ rfl
    have hat : (r.get + (i + n - r.get) % n) % n = i := by
      rw [Nat.add_mod_mod, Nat.add_sub_of_le (by have := h.get; omega), Nat.add_mod_right,
        Nat.mod_eq_of_lt (List.mem_range.mp hi)]
    have hnone := h.fresh _ (Nat.mod_lt (i + n - r.get) h.pos)
    rw [hat, hfresh] at hnone
    cases hnone
  · intro hne
    have hfirst := h.fresh 0 h.pos
    rw [Nat.add_zero, Nat.mod_eq_of_lt h.get] at hfirst
    exact ⟨r.get, List.mem_range.mpr h.get, hfirst.trans (decide_eq_true (List.length_pos_of_ne_nil hne))⟩

theorem push_of_full (hfull : q.length = n) (f : α → α) :
    Holds n (r.push n f) (q.tail ++ [f (r.entry r.put)]) := by
  have hn := h.pos
  have hput : r.put % n = r.put := Nat.mod_eq_of_lt h.put_lt
  have hget : r.get % n = r.get := Nat.mod_eq_of_lt h.get
  have hsame : r.put = r.get := by rw [h.put, hfull, Nat.add_mod_right, hget]
  have hmoved : (r.push n f).get = (r.get + 1) % n := by
    rw [MarkedRing.push, hput, h.fresh_put, hget, hsame, decide_eq_true hfull]
    exact if_pos (beq_self_eq_true _)
  have htail : q.tail.length = n - 1 := by rw [List.length_tail, hfull]
  have hlen : (q.tail ++ [f (r.entry r.put)]).length = n := by
    rw [List.length_append, htail, List.length_singleton, Nat.sub_add_cancel hn]
  have hat {j : ℕ} (hj : j < n) (heq : (r.get + (j + 1)) % n = r.put) : j + 1 = n := by
    by_contra hne
    have hzero := step_injective (show j + 1 < n by omega) hn (g := r.get) (by rw [heq, hsame, Nat.add_zero, hget])
    omega
  refine ⟨hlen.le, ?_, ?_, ?_, ?_⟩
  · rw [hmoved]
    exact Nat.mod_lt _ hn
  · rw [hmoved, hlen, Nat.add_mod_right, Nat.mod_mod]
    change (r.put % n + 1) % n = _
    rw [hput, hsame]
  · intro j hj
    rw [hmoved, step_succ, hlen, decide_eq_true hj]
    change update r.fresh (r.put % n) true _ = _
    rw [hput, update_apply]
    split_ifs with heq
    · rfl
    · have hlt : j + 1 < n := by
        refine Nat.lt_of_le_of_ne hj fun hend ↦ heq ?_
        rw [hend, Nat.add_mod_right, hget, hsame]
      rw [h.fresh _ hlt, hfull]
      exact decide_eq_true hlt
  · intro j a hja
    rw [hmoved, step_succ]
    change update r.entry (r.put % n) (f (r.entry (r.put % n))) _ = _
    rw [hput]
    have hj : j < n := by
      rw [← hlen]
      exact (List.getElem?_eq_some_iff.mp hja).1
    by_cases heq : (r.get + (j + 1)) % n = r.put
    · rw [heq, update_self]
      rw [List.getElem?_append_right (by have := hat hj heq; omega), htail,
        show j - (n - 1) = 0 by have := hat hj heq; omega] at hja
      exact Option.some.inj hja
    · have hlt : j < n - 1 := by
        by_contra hlast
        refine heq ?_
        rw [show j + 1 = n by omega, Nat.add_mod_right, hget, hsame]
      rw [List.getElem?_append_left (by rwa [htail]), List.getElem?_tail] at hja
      rw [update_of_ne heq]
      exact h.entry _ _ hja

theorem push_of_room (hroom : q.length < n) (f : α → α) :
    Holds n (r.push n f) (q ++ [f (r.entry r.put)]) := by
  have hput : r.put % n = r.put := Nat.mod_eq_of_lt h.put_lt
  have hkept : (r.push n f).get = r.get := by
    rw [MarkedRing.push, hput, h.fresh_put, decide_eq_false (Nat.ne_of_lt hroom)]
    rfl
  have hlen : (q ++ [f (r.entry r.put)]).length = q.length + 1 := List.length_append
  have hat {j : ℕ} (hj : j < n) : (r.get + j) % n = r.put ↔ j = q.length := by
    rw [h.put]
    exact ⟨step_injective hj hroom, fun heq ↦ by rw [heq]⟩
  refine ⟨?_, ?_, ?_, ?_, ?_⟩
  · rw [hlen]
    exact hroom
  · rw [hkept]
    exact h.get
  · rw [hkept, hlen]
    change (r.put % n + 1) % n = _
    rw [hput, h.put, Nat.mod_add_mod, Nat.add_assoc]
  · intro j hj
    rw [hkept, hlen]
    change update r.fresh (r.put % n) true _ = _
    rw [hput, update_apply]
    split_ifs with heq
    · rw [(hat hj).mp heq, decide_eq_true (Nat.lt_succ_self _)]
    · have hne := mt (hat hj).mpr heq
      rw [h.fresh j hj, decide_eq_decide]
      omega
  · intro j a hja
    rw [hkept]
    change update r.entry (r.put % n) (f (r.entry (r.put % n))) _ = _
    rw [hput]
    have hj := (List.getElem?_eq_some_iff.mp hja).1
    rw [hlen] at hj
    by_cases heq : j = q.length
    · subst heq
      rw [(hat hroom).mpr rfl, update_self]
      rw [List.getElem?_concat_length] at hja
      exact Option.some.inj hja
    · rw [List.getElem?_append_left (by omega)] at hja
      rw [update_of_ne (mt (hat (by omega)).mp heq)]
      exact h.entry j a hja

theorem push (f : α → α) :
    Holds n (r.push n f) ((if q.length = n then q.tail else q) ++ [f (r.entry r.put)]) := by
  split_ifs with hfull
  · exact h.push_of_full hfull f
  · exact h.push_of_room (Nat.lt_of_le_of_ne h.size hfull) f

/-- When all are marked, the entry that an arrival replaces is the oldest. -/
theorem entry_put (hfull : q.length = n) : q = r.entry r.put :: q.tail := by
  have hsame : r.put = (r.get + 0) % n := by rw [h.put, hfull, Nat.add_mod_right, Nat.add_zero]
  cases q with
  | nil => exact absurd hfull (Nat.ne_of_lt h.pos)
  | cons a rest => rw [hsame, h.entry 0 a rfl, List.tail_cons]

theorem entry_newest_push (f : α → α) : (r.push n f).entry ((r.push n f).newest n) = f (r.entry r.put) := by
  have hput : r.put % n = r.put := Nat.mod_eq_of_lt h.put_lt
  have hnewest : (r.push n f).newest n = r.put := by
    change ((r.put % n + 1) % n + n - 1) % n = _
    rw [hput]
    have hn := h.pos
    have hlt := h.put_lt
    by_cases hend : r.put + 1 = n
    · rw [hend, Nat.mod_self, Nat.zero_add, Nat.mod_eq_of_lt (by omega)]
      omega
    · rw [Nat.mod_eq_of_lt (show r.put + 1 < n by omega), show r.put + 1 + n - 1 = r.put + n by omega,
        Nat.add_mod_right, hput]
  rw [hnewest]
  change update r.entry (r.put % n) (f (r.entry (r.put % n))) r.put = _
  rw [hput, update_self]

theorem oldest_nil (hq : q = []) : r.oldest n = none := by
  subst hq
  have hget : r.get % n = r.get := Nat.mod_eq_of_lt h.get
  rw [oldest, List.find?_eq_none.mpr, Option.map_none]
  intro j hj
  rw [hget, h.fresh j (List.mem_range.mp hj)]
  exact Bool.false_ne_true

theorem oldest_cons {rest : List α} (hq : q = a :: rest) :
    r.oldest n = some r.get ∧ r.entry r.get = a ∧ Holds n (r.take n r.get) rest := by
  subst hq
  have hn := h.pos
  have hget : r.get % n = r.get := Nat.mod_eq_of_lt h.get
  have hfirst : r.fresh r.get = true := by
    have hzero := h.fresh 0 hn
    rw [Nat.add_zero, hget] at hzero
    exact hzero.trans (decide_eq_true (Nat.zero_lt_succ _))
  have hsize : rest.length + 1 ≤ n := h.size
  refine ⟨?_, ?_, ?_, ?_, ?_, ?_, ?_⟩
  · obtain ⟨m, rfl⟩ := Nat.exists_eq_succ_of_ne_zero (Nat.ne_of_gt hn)
    rw [oldest, List.range_succ_eq_map, List.find?_cons_of_pos (by rw [Nat.add_zero, Nat.mod_mod, hget, hfirst]),
      Option.map_some, Nat.add_zero, Nat.mod_mod, hget]
  · have hentry := h.entry 0 a rfl
    rwa [Nat.add_zero, hget] at hentry
  · omega
  · exact Nat.mod_lt _ hn
  · change r.put = ((r.get + 1) % n + rest.length) % n
    rw [h.put, step_succ]
    rfl
  · intro j hj
    change update r.fresh r.get false (((r.get + 1) % n + j) % n) = _
    rw [step_succ, update_apply]
    split_ifs with heq
    · have hend : j + 1 = n := by
        by_contra hne
        have hzero := step_injective (show j + 1 < n by omega) hn (g := r.get) (by rw [heq, Nat.add_zero, hget])
        omega
      exact (decide_eq_false (by omega)).symm
    · have hlt : j + 1 < n := by
        refine Nat.lt_of_le_of_ne hj fun hend ↦ heq ?_
        rw [hend, Nat.add_mod_right, hget]
      rw [h.fresh _ hlt, decide_eq_decide, List.length_cons]
      omega
  · intro j a' hja
    change r.entry (((r.get + 1) % n + j) % n) = a'
    rw [step_succ]
    exact h.entry _ _ hja

/-- Taking the newest entry again, when none is marked, leaves the ring as it was. -/
theorem take_newest (hq : q = []) : Holds n (r.take n (r.newest n)) [] := by
  subst hq
  have hn := h.pos
  have hput : r.put = r.get := h.put.trans (Nat.mod_eq_of_lt h.get)
  have hlt := h.get
  have hsame : (r.take n (r.newest n)).get = r.get := by
    change ((r.put + n - 1) % n + 1) % n = r.get
    rw [Nat.mod_add_mod, hput, show r.get + n - 1 + 1 = r.get + n by omega, Nat.add_mod_right, Nat.mod_eq_of_lt hlt]
  refine ⟨Nat.zero_le n, ?_, ?_, ?_, fun _ _ hja ↦ absurd hja (by simp)⟩
  · rw [hsame]
    exact hlt
  · rw [hsame]
    exact h.put
  · intro j hj
    rw [hsame]
    change update r.fresh _ false _ = _
    rw [update_apply, h.fresh j hj]
    split_ifs <;> rfl

end Holds

end MarkedRing

end Cdj2000Emulator.Library
