import Mathlib.Data.List.Basic
import Mathlib.Tactic.Common

namespace Cdj2000Emulator.Library.Since

variable {α β : Type} {p : α → Bool} {l : List α} {a : α}

/-- What follows the last element with a property; the whole list where there is none. -/
def since (p : α → Bool) (l : List α) : List α := (l.reverse.takeWhile fun a ↦ !p a).reverse

theorem since_snoc_of_pos (h : p a = true) : since p (l ++ [a]) = [] := by
  rw [since, List.reverse_append, List.reverse_singleton, List.singleton_append,
    List.takeWhile_cons_of_neg (by simp [h])]
  rfl

theorem since_snoc_of_neg (h : p a = false) : since p (l ++ [a]) = since p l ++ [a] := by
  rw [since, List.reverse_append, List.reverse_singleton, List.singleton_append,
    List.takeWhile_cons_of_pos (by simp [h]), List.reverse_cons]
  rfl

/-- What is collected of the elements since the last with a property. -/
theorem flatMap_since_snoc {f : α → List β} :
    (since p (l ++ [a])).flatMap f = if p a then [] else (since p l).flatMap f ++ f a := by
  cases h : p a with
  | true => rw [since_snoc_of_pos h]; rfl
  | false =>
    rw [since_snoc_of_neg h, List.flatMap_append, List.flatMap_singleton]
    rfl

theorem any_since_snoc {q : α → Bool} :
    (since p (l ++ [a])).any q = if p a then false else (since p l).any q || q a := by
  cases h : p a with
  | true => rw [since_snoc_of_pos h]; rfl
  | false =>
    rw [since_snoc_of_neg h, List.any_append]
    simp

/-- A moment of a list is a moment before its last element, or that element. -/
theorem exists_split_snoc {q : List α → α → Prop} :
    (∃ before b rest, l ++ [a] = before ++ b :: rest ∧ q before b) ↔
    (∃ before b rest, l = before ++ b :: rest ∧ q before b) ∨ q l a := by
  constructor
  · rintro ⟨before, b, rest, hsplit, h⟩
    rcases rest.eq_nil_or_concat with rfl | ⟨rest, last, rfl⟩
    · obtain ⟨rfl, rfl⟩ : l = before ∧ a = b := by simpa using hsplit
      exact .inr h
    · rw [List.concat_eq_append, ← List.cons_append, ← List.append_assoc] at hsplit
      obtain ⟨rfl, -⟩ := List.append_inj' hsplit rfl
      exact .inl ⟨before, b, rest, rfl, h⟩
  · rintro (⟨before, b, rest, rfl, h⟩ | h)
    · exact ⟨before, b, rest ++ [a], by simp, h⟩
    · exact ⟨l, a, [], rfl, h⟩

section Lasts

variable {σ ε : Type} {step : σ → ε → σ} {s : σ} {P : σ → Prop} {before during : List ε} {e : ε}

/-- A condition holds in every state of a stretch of a run. -/
def Lasts (step : σ → ε → σ) (s : σ) (P : σ → Prop) (before during : List ε) : Prop :=
  ∀ k ≤ during.length, P ((before ++ during.take k).foldl step s)

theorem lasts_nil (h : P (before.foldl step s)) : Lasts step s P before [] := by
  intro k _
  rwa [List.take_nil, List.append_nil]

theorem Lasts.last (h : Lasts step s P before during) : P ((before ++ during).foldl step s) := by
  have hlast := h during.length (Nat.le_refl _)
  rwa [List.take_length] at hlast

theorem Lasts.first (h : Lasts step s P before during) : P (before.foldl step s) := by
  have hfirst := h 0 (Nat.zero_le _)
  rwa [List.take_zero, List.append_nil] at hfirst

theorem Lasts.init (h : Lasts step s P before (during ++ [e])) : Lasts step s P before during := by
  intro k hk
  have hkept := h k (by rw [List.length_append]; exact Nat.le_add_right_of_le hk)
  rwa [List.take_append_of_le_length hk] at hkept

theorem Lasts.snoc (h : Lasts step s P before during) (he : P ((before ++ during ++ [e]).foldl step s)) :
    Lasts step s P before (during ++ [e]) := by
  intro k hk
  rcases Nat.lt_or_ge during.length k with hlt | hle
  · have hwhole : (during ++ [e]).length ≤ k := by
      rw [List.length_append, List.length_singleton]
      exact hlt
    rwa [List.take_of_length_le hwhole, ← List.append_assoc]
  · rw [List.take_append_of_le_length hle]
    exact h k hle

end Lasts

end Cdj2000Emulator.Library.Since
