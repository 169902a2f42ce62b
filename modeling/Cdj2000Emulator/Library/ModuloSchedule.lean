import Mathlib.Data.List.Sort
import Mathlib.Data.Int.ModEq
import Mathlib.Data.Finset.Range
import Mathlib.Data.Finset.Card

namespace Cdj2000Emulator.Library.ModuloSchedule

variable {α : Type}

/-- Iteration `k` of a modulo-scheduled loop runs `k` intervals after the
origin, so an origin is launched at `cycle` when one of `n` iterations hits it. -/
def Launched (ii n origin cycle : ℕ) : Prop := ∃ k < n, cycle = origin + k * ii

theorem launched_iff {ii : ℕ} (hii : 0 < ii) (n origin cycle : ℕ) :
    Launched ii n origin cycle ↔
      origin ≤ cycle ∧ origin % ii = cycle % ii ∧ (cycle - origin) / ii < n := by
  constructor
  · rintro ⟨k, hk, rfl⟩
    refine ⟨Nat.le_add_right _ _, by simp, ?_⟩
    rwa [Nat.add_sub_cancel_left, Nat.mul_div_cancel _ hii]
  · rintro ⟨hle, hmod, hk⟩
    have hdvd : ii ∣ cycle - origin := (Nat.modEq_iff_dvd' hle).mp hmod
    refine ⟨(cycle - origin) / ii, hk, ?_⟩
    rw [Nat.div_mul_cancel hdvd]
    omega

instance (ii n origin cycle : ℕ) : Decidable (Launched ii n origin cycle) :=
  inferInstanceAs (Decidable (∃ k < n, cycle = origin + k * ii))

theorem Launched.le {ii n origin cycle : ℕ} (h : Launched ii n origin cycle) :
    origin ≤ cycle := by
  obtain ⟨k, -, rfl⟩ := h
  exact Nat.le_add_right _ _

/-- Everything that the first `bound` origins of a body launch at `cycle`, in
ascending origin order. -/
def slot (ii n bound : ℕ) (body : ℕ → List α) (cycle : ℕ) : List α :=
  (List.range bound).flatMap fun origin ↦
    if Launched ii n origin cycle then body origin else []

/-- The origins a counted loop visits when it starts at the cycle's residue and
advances by the interval. -/
def congruent (ii bound cycle : ℕ) : List ℕ :=
  List.range' (cycle % ii) ((bound - cycle % ii + (ii - 1)) / ii) ii

theorem mem_congruent {ii : ℕ} (hii : 0 < ii) (bound cycle origin : ℕ) :
    origin ∈ congruent ii bound cycle ↔ origin < bound ∧ origin % ii = cycle % ii := by
  have hr := Nat.mod_lt cycle hii
  have hcount (i : ℕ) : i < (bound - cycle % ii + (ii - 1)) / ii ↔
      cycle % ii + ii * i < bound := by
    rw [Nat.lt_div_iff_mul_lt hii, Nat.mul_comm i]
    omega
  simp only [congruent, List.mem_range', hcount]
  constructor
  · rintro ⟨i, hi, rfl⟩
    exact ⟨hi, by simp⟩
  · rintro ⟨hlt, hmod⟩
    refine ⟨origin / ii, ?_, ?_⟩ <;> rw [← hmod, Nat.mod_add_div]
    exact hlt

theorem congruent_eq_filter {ii : ℕ} (hii : 0 < ii) (bound cycle : ℕ) :
    congruent ii bound cycle = (List.range bound).filter (· % ii = cycle % ii) := by
  have hs : (congruent ii bound cycle).Pairwise (· < ·) :=
    List.pairwise_lt_range' ii hii
  have ht : ((List.range bound).filter (· % ii = cycle % ii)).Pairwise (· < ·) :=
    List.pairwise_lt_range.filter _
  refine hs.eq_of_mem_iff ht (fun origin ↦ ?_)
  simp [mem_congruent hii]

theorem flatMap_filter (p : ℕ → Bool) (f : ℕ → List α) (l : List ℕ) :
    (l.filter p).flatMap f = l.flatMap fun x ↦ if p x then f x else [] := by
  induction l with
  | nil => rfl
  | cons x l ih =>
    cases hp : p x <;> simp [hp, ih]

theorem congruent_flatMap {ii : ℕ} (hii : 0 < ii) (n bound : ℕ) (body : ℕ → List α)
    {cycle : ℕ} (hb : bound ≤ cycle + 1) :
    ((congruent ii bound cycle).flatMap fun origin ↦
      if (cycle - origin) / ii < n then body origin else []) =
      slot ii n bound body cycle := by
  rw [congruent_eq_filter hii, flatMap_filter, slot]
  refine List.flatMap_congr fun origin ho ↦ ?_
  have hle : origin ≤ cycle := by
    have := List.mem_range.mp ho
    omega
  simp only [launched_iff hii, hle, true_and, decide_eq_true_eq]
  by_cases h : origin % ii = cycle % ii <;> simp [h]

theorem slot_append (ii n bound extra : ℕ) (body : ℕ → List α) (cycle : ℕ)
    (h : ∀ origin, bound ≤ origin → origin ≤ cycle → body origin = []) :
    slot ii n (bound + extra) body cycle = slot ii n bound body cycle := by
  induction extra with
  | zero => rfl
  | succ extra ih =>
    rw [slot, ← Nat.add_assoc, List.range_succ, List.flatMap_append, ← slot, ih]
    simp only [List.flatMap_singleton, List.append_right_eq_self, ite_eq_right_iff]
    exact fun hl ↦ h _ (Nat.le_add_right _ _) hl.le

theorem slot_eq_of_le {ii n bound bound' : ℕ} {body : ℕ → List α} {cycle : ℕ}
    (hb : bound ≤ bound')
    (h : ∀ origin, bound ≤ origin → origin ≤ cycle → body origin = []) :
    slot ii n bound' body cycle = slot ii n bound body cycle := by
  obtain ⟨extra, rfl⟩ := Nat.exists_eq_add_of_le hb
  exact slot_append ii n bound extra body cycle h

theorem slot_congr {ii n bound : ℕ} {body body' : ℕ → List α} {cycle : ℕ}
    (h : ∀ origin < bound, origin ≤ cycle → body origin = body' origin) :
    slot ii n bound body cycle = slot ii n bound body' cycle := by
  refine List.flatMap_congr fun origin ho ↦ ?_
  by_cases hl : Launched ii n origin cycle
  · simp [hl, h origin (List.mem_range.mp ho) hl.le]
  · simp [hl]

theorem card_launched {ii : ℕ} (hii : 0 < ii) (n origin bound : ℕ)
    (hb : ∀ k < n, origin + k * ii < bound) :
    ((Finset.range bound).filter (Launched ii n origin)).card = n := by
  have himage : (Finset.range bound).filter (Launched ii n origin) =
      (Finset.range n).image fun k ↦ origin + k * ii := by
    ext cycle
    simp only [Finset.mem_filter, Finset.mem_range, Finset.mem_image, Launched]
    constructor
    · rintro ⟨-, k, hk, rfl⟩
      exact ⟨k, hk, rfl⟩
    · rintro ⟨k, hk, rfl⟩
      exact ⟨hb k hk, k, hk, rfl⟩
  rw [himage, Finset.card_image_of_injective, Finset.card_range]
  intro k l hkl
  have : k * ii = l * ii := by simpa using hkl
  exact Nat.eq_of_mul_eq_mul_right hii this

end Cdj2000Emulator.Library.ModuloSchedule
