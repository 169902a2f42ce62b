import Mathlib.Data.List.Basic

namespace Cdj2000Emulator.Library.Renaming

variable {α : Type*} [DecidableEq α] {l rest : List (α × α)} {a b c v w : α}

/-- The entries applied one after another, each to what the ones before it have made. -/
def stepwise (l : List (α × α)) (v : α) : α := l.foldl (fun v entry ↦ if v = entry.1 then entry.2 else v) v

/-- The image under the map that the entries list. -/
def atOnce : List (α × α) → α → α
  | [], v => v
  | (a, b) :: rest, v => if v = a then b else atOnce rest v

/-- Some of the entries, in their order, form a chain from one name to another. -/
inductive Leads : List (α × α) → α → α → Prop
  | last {a b : α} {rest : List (α × α)} : Leads ((a, b) :: rest) a b
  | step {a b c : α} {rest : List (α × α)} : Leads rest b c → Leads ((a, b) :: rest) a c
  | skip {a c : α} {entry : α × α} {rest : List (α × α)} : Leads rest a c → Leads (entry :: rest) a c

def Settled : List (α × α) → α → Prop
  | [], _ => True
  | (a, w) :: later, v => if v = a then w ∈ later.map Prod.fst → Leads later w w else Settled later v

@[simp] theorem stepwise_nil : stepwise [] v = v := rfl

theorem stepwise_cons : stepwise ((a, b) :: rest) v = stepwise rest (if v = a then b else v) := rfl

theorem stepwise_concat : stepwise (l ++ [(a, b)]) v = if stepwise l v = a then b else stepwise l v := by
  rw [stepwise, List.foldl_append]
  rfl

theorem atOnce_append_of_mem (h : v ∈ l.map Prod.fst) : atOnce (l ++ rest) v = atOnce l v := by
  induction l with
  | nil => cases h
  | cons entry l ih =>
    rw [List.cons_append, atOnce, atOnce]
    by_cases first : v = entry.1
    · rw [if_pos first, if_pos first]
    · rw [List.map_cons, List.mem_cons, or_iff_right first] at h
      rw [if_neg first, if_neg first, ih h]

theorem stepwise_of_notMem (h : v ∉ l.map Prod.fst) : stepwise l v = v := by
  induction l with
  | nil => rfl
  | cons entry l ih =>
    rw [List.map_cons, List.mem_cons, not_or] at h
    rw [stepwise_cons, if_neg h.1, ih h.2]

theorem atOnce_of_notMem (h : v ∉ l.map Prod.fst) : atOnce l v = v := by
  induction l with
  | nil => rfl
  | cons entry l ih =>
    rw [List.map_cons, List.mem_cons, not_or] at h
    rw [atOnce, if_neg h.1, ih h.2]

theorem atOnce_append (h : v ∉ l.map Prod.fst) : atOnce (l ++ rest) v = atOnce rest v := by
  induction l with
  | nil => rfl
  | cons entry l ih =>
    rw [List.map_cons, List.mem_cons, not_or] at h
    rw [List.cons_append, atOnce, if_neg h.1, ih h.2]

omit [DecidableEq α] in
theorem Leads.mem (h : Leads l a c) : a ∈ l.map Prod.fst := by
  induction h with
  | last => exact List.mem_cons_self
  | step => exact List.mem_cons_self
  | skip _ ih => exact List.mem_cons_of_mem _ ih

omit [DecidableEq α] in
theorem leads_cons_of_ne (h : v ≠ a) : Leads ((a, b) :: l) v c ↔ Leads l v c := by
  refine ⟨fun leads ↦ ?_, .skip⟩
  cases leads with
  | last => exact absurd rfl h
  | step => exact absurd rfl h
  | skip leads => exact leads

omit [DecidableEq α] in
theorem leads_cons_self (h : v ∉ l.map Prod.fst) : Leads ((v, b) :: l) v c ↔ b = c ∨ Leads l b c := by
  constructor
  · intro leads
    cases leads with
    | last => exact .inl rfl
    | step leads => exact .inr leads
    | skip leads => exact absurd leads.mem h
  · rintro (rfl | leads)
    · exact .last
    · exact .step leads

/-- Entries that do not rename `w` end at it from where they lead to it. -/
theorem stepwise_eq_iff (distinct : (l.map Prod.fst).Nodup) (h : w ∉ l.map Prod.fst) :
    stepwise l v = w ↔ v = w ∨ Leads l v w := by
  induction l generalizing v with
  | nil =>
    rw [stepwise_nil]
    exact ⟨.inl, fun | .inl same => same | .inr leads => nomatch leads⟩
  | cons entry l ih =>
    obtain ⟨a, b⟩ := entry
    rw [List.map_cons, List.nodup_cons] at distinct
    rw [List.map_cons, List.mem_cons, not_or] at h
    rw [stepwise_cons, ih distinct.2 h.2]
    by_cases first : v = a
    · subst first
      have apart : v ≠ w := Ne.symm h.1
      rw [if_pos rfl, leads_cons_self distinct.1, or_iff_right apart]
    · rw [if_neg first, leads_cons_of_ne first]

theorem stepwise_self_iff (distinct : (l.map Prod.fst).Nodup) :
    stepwise l w = w ↔ (w ∈ l.map Prod.fst → Leads l w w) := by
  induction l with
  | nil => exact ⟨fun _ mem ↦ absurd mem List.not_mem_nil, fun _ ↦ rfl⟩
  | cons entry l ih =>
    obtain ⟨a, b⟩ := entry
    rw [List.map_cons, List.nodup_cons] at distinct
    rw [stepwise_cons, List.map_cons, List.mem_cons]
    by_cases first : w = a
    · subst first
      rw [if_pos rfl, leads_cons_self distinct.1, stepwise_eq_iff distinct.2 distinct.1]
      exact ⟨fun ends _ ↦ ends, fun ends ↦ ends (.inl rfl)⟩
    · rw [if_neg first, ih distinct.2, leads_cons_of_ne first]
      exact imp_congr_left (or_iff_right first).symm

theorem stepwise_eq_atOnce_iff (distinct : (l.map Prod.fst).Nodup) : stepwise l v = atOnce l v ↔ Settled l v := by
  induction l with
  | nil => exact ⟨fun _ ↦ trivial, fun _ ↦ rfl⟩
  | cons entry l ih =>
    obtain ⟨a, b⟩ := entry
    rw [List.map_cons, List.nodup_cons] at distinct
    rw [stepwise_cons, atOnce, Settled]
    by_cases first : v = a
    · rw [if_pos first, if_pos first, if_pos first, stepwise_self_iff distinct.2]
    · rw [if_neg first, if_neg first, if_neg first, ih distinct.2]

/-- A name that the entries end up renaming has an image of its own under the map. -/
theorem atOnce_ne_of_stepwise_ne (distinct : (l.map Prod.fst).Nodup) (h : stepwise l v ≠ v) : atOnce l v ≠ v := by
  induction l with
  | nil => exact absurd rfl h
  | cons entry l ih =>
    obtain ⟨a, b⟩ := entry
    rw [List.map_cons, List.nodup_cons] at distinct
    rw [stepwise_cons] at h
    rw [atOnce]
    by_cases first : v = a
    · subst first
      rw [if_pos rfl] at h ⊢
      rintro rfl
      exact h (stepwise_of_notMem distinct.1)
    · rw [if_neg first] at h ⊢
      exact ih distinct.2 h

end Cdj2000Emulator.Library.Renaming
