import Mathlib.Data.List.Basic

namespace Cdj2000Emulator.Library.Traces

variable {σ τ ε ω : Type} {step : σ → ε → σ → Prop} {next : τ → ω → τ → Prop}

/-- The states that a sequence of labelled steps leads to. -/
inductive Path (step : σ → ε → σ → Prop) : σ → List ε → σ → Prop
  | nil {s : σ} : Path step s [] s
  | cons {s t u : σ} {e : ε} {es : List ε} : step s e t → Path step t es u → Path step s (e :: es) u

namespace Path

variable {s t u : σ} {e : ε} {es fs : List ε}

theorem single (h : step s e t) : Path step s [e] t := .cons h .nil

theorem append (h : Path step s es t) (h' : Path step t fs u) : Path step s (es ++ fs) u := by
  induction h with
  | nil => exact h'
  | cons hs _ ih => exact .cons hs (ih h')

theorem snoc (h : Path step s es t) (h' : step t e u) : Path step s (es ++ [e]) u := h.append (single h')

theorem split (h : Path step s (es ++ fs) u) : ∃ t, Path step s es t ∧ Path step t fs u := by
  induction es generalizing s with
  | nil => exact ⟨s, .nil, h⟩
  | cons e es ih =>
    cases h with
    | cons hs h =>
      obtain ⟨t, hleft, hright⟩ := ih h
      exact ⟨t, .cons hs hleft, hright⟩

theorem of_single (h : Path step s [e] t) : step s e t := by
  cases h with
  | cons hs h =>
    cases h with
    | nil => exact hs

theorem last (h : Path step s es t) (hne : es ≠ []) :
    ∃ before e r, es = before ++ [e] ∧ Path step s before r ∧ step r e t := by
  obtain ⟨before, e, rfl⟩ := (List.eq_nil_or_concat es).resolve_left hne
  rw [List.concat_eq_append] at h ⊢
  obtain ⟨r, hbefore, hlast⟩ := h.split
  exact ⟨before, e, r, rfl, hbefore, hlast.of_single⟩

theorem keeps {P : σ → Prop} (hstep : ∀ s e t, P s → step s e t → P t) (h : Path step s es t)
    (hs : P s) : P t := by
  induction h with
  | nil => exact hs
  | cons he _ ih => exact ih (hstep _ _ _ hs he)

theorem simulate {R : σ → τ → Prop} {out : ε → List ω}
    (hstep : ∀ s e t w, R s w → step s e t → ∃ w', Path next w (out e) w' ∧ R t w')
    (h : Path step s es t) {w : τ} (hw : R s w) : ∃ w', Path next w (es.flatMap out) w' ∧ R t w' := by
  induction h generalizing w with
  | nil => exact ⟨w, .nil, hw⟩
  | cons he _ ih =>
    obtain ⟨v, hfirst, hv⟩ := hstep _ _ _ w hw he
    obtain ⟨w', hrest, hw'⟩ := ih hv
    exact ⟨w', List.flatMap_cons ▸ hfirst.append hrest, hw'⟩

end Path

end Cdj2000Emulator.Library.Traces
