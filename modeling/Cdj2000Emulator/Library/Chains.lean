import Mathlib.Data.List.Nodup
import Mathlib.Data.Nat.Notation
import Mathlib.Logic.Function.Basic
import Mathlib.Tactic.Common

namespace Cdj2000Emulator.Library.Chains

open Function

/-- A chain through a table of successors: inside until it ends. -/
inductive Linked (inside ends : ℕ → Prop) (next : ℕ → ℕ) : ℕ → List ℕ → Prop
  | nil {c : ℕ} (hend : ends c) : Linked inside ends next c []
  | cons {c : ℕ} {l : List ℕ} (hin : inside c) (hgo : ¬ends c) (h : Linked inside ends next (next c) l) :
    Linked inside ends next c (c :: l)

namespace Linked

variable {inside ends : ℕ → Prop} {next next' : ℕ → ℕ} {c d : ℕ} {l l' : List ℕ}

theorem unique (h : Linked inside ends next c l) (h' : Linked inside ends next c l') : l = l' := by
  induction h generalizing l' with
  | nil hend =>
    cases h' with
    | nil => rfl
    | cons _ hgo _ => exact absurd hend hgo
  | cons _ hgo _ ih =>
    cases h' with
    | nil hend => exact absurd hend hgo
    | cons _ _ hrest => rw [ih hrest]

theorem inside_of_mem (h : Linked inside ends next c l) (hd : d ∈ l) : inside d ∧ ¬ends d := by
  induction h with
  | nil => cases hd
  | cons hin hgo _ ih =>
    rcases List.mem_cons.mp hd with rfl | hrest
    · exact ⟨hin, hgo⟩
    · exact ih hrest

theorem head_mem (h : Linked inside ends next c l) (hc : ¬ends c) : c ∈ l := by
  cases h with
  | nil hend => exact absurd hend hc
  | cons => exact List.mem_cons_self

theorem congr (h : Linked inside ends next c l) (hnext : ∀ d ∈ l, next' d = next d) :
    Linked inside ends next' c l := by
  induction h with
  | nil hend => exact .nil hend
  | cons hin hgo _ ih =>
    refine .cons hin hgo ?_
    rw [hnext _ List.mem_cons_self]
    exact ih fun d hd ↦ hnext d (List.mem_cons_of_mem _ hd)

/-- From each of its elements a chain goes on to its end. -/
theorem suffix (h : Linked inside ends next c l) (hd : d ∈ l) :
    ∃ before rest, l = before ++ d :: rest ∧ Linked inside ends next d (d :: rest) := by
  induction h with
  | nil => cases hd
  | cons hin hgo hrest ih =>
    rcases List.mem_cons.mp hd with rfl | hmem
    · exact ⟨[], _, rfl, .cons hin hgo hrest⟩
    · obtain ⟨before, rest, hsplit, hlinked⟩ := ih hmem
      exact ⟨_ :: before, rest, by rw [hsplit, List.cons_append], hlinked⟩

/-- A chain that ends comes to no element twice. -/
theorem nodup (h : Linked inside ends next c l) : l.Nodup := by
  induction h with
  | nil => exact List.nodup_nil
  | @cons c l hin hgo hrest ih =>
    refine List.nodup_cons.mpr ⟨fun hmem ↦ ?_, ih⟩
    obtain ⟨before, rest, hsplit, hlinked⟩ := hrest.suffix hmem
    have hsame := hlinked.unique (.cons hin hgo hrest)
    have hlength : l.length = before.length + (rest.length + 1) := by
      rw [hsplit, List.length_append, List.length_cons]
    rw [List.cons.injEq] at hsame
    rw [← hsame.2] at hlength
    omega

theorem next_of_mem (h : Linked inside ends next c l) (hd : d ∈ l) : next d ∈ l ∨ ends (next d) := by
  induction h with
  | nil => cases hd
  | cons hin hgo hrest ih =>
    rcases List.mem_cons.mp hd with rfl | hmem
    · cases hrest with
      | nil hend => exact Or.inr hend
      | cons => exact Or.inl (List.mem_cons_of_mem _ List.mem_cons_self)
    · rcases ih hmem with hnext | hend
      · exact Or.inl (List.mem_cons_of_mem _ hnext)
      · exact Or.inr hend

/-- A chain whose last element is led on to another chain. -/
theorem append (h : Linked inside ends next c l) (hl : l ≠ []) (h' : Linked inside ends next d l')
    (hapart : ∀ e ∈ l, e ∉ l') :
    Linked inside ends (update next (l.getLast hl) d) c (l ++ l') := by
  induction h with
  | nil => exact absurd rfl hl
  | @cons c l hin hgo hrest ih =>
    by_cases hne : l = []
    · subst hne
      refine .cons hin hgo ?_
      rw [List.getLast_singleton, update_self]
      refine h'.congr fun e he ↦ update_of_ne ?_ _ _
      rintro rfl
      exact hapart e List.mem_cons_self he
    · have hother : c ≠ l.getLast hne := by
        intro heq
        have hnodup := (Linked.cons hin hgo hrest).nodup
        rw [List.nodup_cons] at hnodup
        exact hnodup.1 (by rw [heq]; exact List.getLast_mem hne)
      rw [List.getLast_cons hne, List.cons_append]
      refine .cons hin hgo ?_
      rw [update_of_ne hother]
      exact ih hne fun e he ↦ hapart e (List.mem_cons_of_mem _ he)

/-- A table in which each element of a list leads to the next one makes it a chain. -/
theorem of_links (hin : ∀ d ∈ c :: l, inside d ∧ ¬ends d)
    (hnext : ∀ (i : ℕ) (a b : ℕ), (c :: l)[i]? = some a → (c :: l)[i + 1]? = some b → next a = b)
    (hlast : ends (next ((c :: l).getLast (List.cons_ne_nil c l)))) :
    Linked inside ends next c (c :: l) := by
  induction l generalizing c with
  | nil => exact .cons (hin c List.mem_cons_self).1 (hin c List.mem_cons_self).2 (.nil hlast)
  | cons a l ih =>
    have hca : next c = a := hnext 0 c a rfl rfl
    refine .cons (hin c List.mem_cons_self).1 (hin c List.mem_cons_self).2 ?_
    rw [hca]
    refine ih (fun d hd ↦ hin d (List.mem_cons_of_mem _ hd)) (fun i x y hx hy ↦ hnext (i + 1) x y hx hy) ?_
    rw [List.getLast_cons (List.cons_ne_nil a l)] at hlast
    exact hlast

end Linked

end Cdj2000Emulator.Library.Chains
