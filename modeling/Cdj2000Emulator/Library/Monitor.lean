import Mathlib.Logic.Basic

namespace Cdj2000Emulator.Library.Monitor

variable {ε ω σ κ : Type}

/-- An observer follows a history event by event and refuses what it does not allow. -/
structure Observer (ε ω : Type) where
  start : ω
  step : ω → ε → Option ω

namespace Observer

variable (m : Observer ε ω)

def run (w : ω) (events : List ε) : Option ω := events.foldlM m.step w

def Accepts (events : List ε) : Prop := (m.run m.start events).isSome

theorem run_append (w : ω) (before after : List ε) :
    m.run w (before ++ after) = (m.run w before).bind fun w' ↦ m.run w' after :=
  List.foldlM_append

variable {m}

theorem run_nil {w : ω} : m.run w [] = some w := rfl

theorem run_cons {w w' : ω} {e : ε} {events : List ε} (h : m.step w e = some w') :
    m.run w (e :: events) = m.run w' events := by
  unfold run
  rw [List.foldlM_cons, h]
  rfl

theorem run_singleton {w w' : ω} {e : ε} (h : m.step w e = some w') : m.run w [e] = some w' :=
  run_cons h

theorem run_append_of {w w' : ω} {before after : List ε} (h : m.run w before = some w') :
    m.run w (before ++ after) = m.run w' after := by
  rw [run_append, h]
  rfl

theorem run_induction {P : List ε → ω → Prop}
    (snoc : ∀ history w e w', P history w → m.step w e = some w' → P (history ++ [e]) w')
    {before events : List ε} {w w' : ω} (init : P before w) (h : m.run w events = some w') :
    P (before ++ events) w' := by
  induction events generalizing before w with
  | nil =>
    rw [run_nil, Option.some_inj] at h
    rwa [List.append_nil, ← h]
  | cons e events ih =>
    obtain ⟨v, hv, hrest⟩ := Option.bind_eq_some_iff.mp (show (m.step w e).bind (m.run · events) = some w' from h)
    rw [List.append_cons]
    exact ih (snoc _ _ _ _ init hv) hrest

theorem accepts_of_simulation {call : σ → κ → σ × List ε} {R : σ → ω → Prop} {s₀ : σ}
    (init : R s₀ m.start)
    (step : ∀ s w c, R s w → ∃ w', m.run w (call s c).2 = some w' ∧ R (call s c).1 w')
    (calls : List κ) :
    m.Accepts (calls.foldl (fun (p : σ × List ε) c ↦ ((call p.1 c).1, p.2 ++ (call p.1 c).2))
      (s₀, [])).2 := by
  have related : ∀ (calls : List κ) (p : σ × List ε), (∃ w, m.run m.start p.2 = some w ∧ R p.1 w) →
      ∃ w, m.run m.start (calls.foldl (fun (p : σ × List ε) c ↦
        ((call p.1 c).1, p.2 ++ (call p.1 c).2)) p).2 = some w := by
    intro calls
    induction calls with
    | nil =>
      rintro p ⟨w, h, -⟩
      exact ⟨w, h⟩
    | cons c calls ih =>
      rintro p ⟨w, h, r⟩
      obtain ⟨w', h', r'⟩ := step p.1 w c r
      exact ih _ ⟨w', (run_append_of h).trans h', r'⟩
  obtain ⟨w, h⟩ := related calls (s₀, []) ⟨m.start, rfl, init⟩
  unfold Accepts
  rw [h]
  rfl

section Throughout

variable (step : σ → κ → σ) (events : σ → κ → List ε)

/-- Every step of a run meets a condition on the state it is taken in. -/
def Throughout (P : σ → κ → Prop) : σ → List κ → Prop
  | _, [] => True
  | s, c :: calls => P s c ∧ Throughout P (step s c) calls

instance instDecidableThroughout {P : σ → κ → Prop} [∀ s c, Decidable (P s c)] :
    (s : σ) → (calls : List κ) → Decidable (Throughout step P s calls)
  | _, [] => .isTrue trivial
  | s, c :: calls =>
    have : Decidable (Throughout step P (step s c) calls) := instDecidableThroughout (step s c) calls
    inferInstanceAs (Decidable (P s c ∧ Throughout step P (step s c) calls))

def history : σ → List κ → List ε
  | _, [] => []
  | s, c :: calls => events s c ++ history (step s c) calls

variable {step events}

theorem run_history {P : σ → κ → Prop} {view : σ → ω}
    (h : ∀ s c, P s c → m.run (view s) (events s c) = some (view (step s c)))
    (s : σ) (calls : List κ) (met : Throughout step P s calls) :
    m.run (view s) (history step events s calls) = some (view (calls.foldl step s)) := by
  induction calls generalizing s with
  | nil => rfl
  | cons c calls ih =>
    obtain ⟨hc, hcalls⟩ := met
    rw [history, run_append_of (h s c hc), ih _ hcalls]
    rfl

theorem throughout_append {P : σ → κ → Prop} (s : σ) (before after : List κ) :
    Throughout step P s (before ++ after) ↔
      Throughout step P s before ∧ Throughout step P (before.foldl step s) after := by
  induction before generalizing s with
  | nil => exact ⟨fun h ↦ ⟨trivial, h⟩, And.right⟩
  | cons c before ih =>
    rw [List.cons_append, Throughout, Throughout, ih, and_assoc]
    rfl

theorem throughout_of_invariant {P Q : σ → κ → Prop} {I : σ → Prop}
    (h : ∀ s c, I s → P s c → Q s c ∧ I (step s c)) (s : σ) (calls : List κ)
    (init : I s) (met : Throughout step P s calls) : Throughout step Q s calls := by
  induction calls generalizing s with
  | nil => exact trivial
  | cons c calls ih =>
    obtain ⟨hc, hcalls⟩ := met
    obtain ⟨hq, hi⟩ := h s c init hc
    exact ⟨hq, ih _ hi hcalls⟩

/-- A property of the states is followed alike beside a run that carries more. -/
theorem throughout_map {τ : Type} {next : τ → κ → τ} {f : τ → σ} (h : ∀ x c, f (next x c) = step (f x) c)
    (P : σ → κ → Prop) (x : τ) (calls : List κ) :
    Throughout next (fun x c ↦ P (f x) c) x calls ↔ Throughout step P (f x) calls := by
  induction calls generalizing x with
  | nil => rfl
  | cons c calls ih =>
    rw [Throughout, Throughout, ih, h]

end Throughout

end Observer

end Cdj2000Emulator.Library.Monitor
