import Mathlib.Data.Nat.Basic

namespace Cdj2000Emulator.Library.Worklist

variable {ι σ τ : Type}

/-- A first-in first-out queue. `tail` counts every item ever accepted, so that
a limit on it bounds the whole life of the queue. -/
structure Queue (ι : Type) where
  items : List ι
  tail : ℕ

def Queue.empty : Queue ι := ⟨[], 0⟩

def Queue.push (limit : ℕ) (q : Queue ι) (x : ι) : Option (Queue ι) :=
  if limit ≤ q.tail then none else some ⟨q.items ++ [x], q.tail + 1⟩

def Queue.pushAll (limit : ℕ) : Queue ι → List ι → Option (Queue ι)
  | q, [] => some q
  | q, x :: xs => (q.push limit x).bind fun q ↦ q.pushAll limit xs

theorem Queue.items_push {limit : ℕ} {q q' : Queue ι} {x : ι} (h : q.push limit x = some q') :
    q'.items = q.items ++ [x] := by
  simp only [push, Option.ite_none_left_eq_some, Option.some.injEq] at h
  rw [← h.2]

theorem Queue.items_pushAll {limit : ℕ} {q q' : Queue ι} {xs : List ι}
    (h : q.pushAll limit xs = some q') : q'.items = q.items ++ xs := by
  induction xs generalizing q with
  | nil =>
    cases h
    exact (List.append_nil _).symm
  | cons x xs ih =>
    obtain ⟨mid, hpush, hrest⟩ := Option.bind_eq_some_iff.mp h
    rw [ih hrest, items_push hpush, List.append_assoc, List.singleton_append]

def Queue.budget (limit : ℕ) (q : Queue ι) : ℕ := q.items.length + (limit - q.tail)

/-- Serves the oldest item until none is left or a step refuses one. A step sees
the queue without its item and may push further items. -/
@[grind] def drain (step : σ → Queue ι → ι → Bool × σ × Queue ι) : ℕ → σ → Queue ι → Bool × σ
  | _, s, ⟨[], _⟩ => (true, s)
  | 0, s, ⟨_ :: _, _⟩ => (false, s)
  | fuel + 1, s, ⟨x :: items, tail⟩ =>
    match step s ⟨items, tail⟩ x with
    | (true, s', q') => drain step fuel s' q'
    | (false, s', _) => (false, s')

section Rules

variable {step : σ → Queue ι → ι → Bool × σ × Queue ι}

@[simp] theorem drain_nil (fuel : ℕ) (s : σ) (tail : ℕ) :
    drain step fuel s ⟨[], tail⟩ = (true, s) := by
  cases fuel <;> rfl

theorem drain_one {s s' : σ} {q : Queue ι} {x : ι} {tail : ℕ} (fuel : ℕ)
    (h : step s ⟨[], tail⟩ x = (true, s', q)) (hq : q.items = []) :
    drain step (fuel + 1) s ⟨[x], tail⟩ = (true, s') := by
  obtain ⟨items, tail'⟩ := q
  subst hq
  rw [drain, h]
  exact drain_nil _ _ _

/-- The invariant rule: what every accepted step preserves holds, with nothing
left to serve, once the drain succeeds. -/
theorem drain_invariant (Inv : σ → List ι → Prop)
    (hstep : ∀ s q x s' q', Inv s (x :: q.items) → step s q x = (true, s', q') →
      Inv s' q'.items)
    {fuel : ℕ} {s s' : σ} {q : Queue ι} (hs : Inv s q.items)
    (h : drain step fuel s q = (true, s')) : Inv s' [] := by
  induction fuel generalizing s q with
  | zero =>
    obtain ⟨items, tail⟩ := q
    cases items with
    | nil =>
      simp only [drain, Prod.mk.injEq, true_and] at h
      exact h ▸ hs
    | cons x items => simp [drain] at h
  | succ fuel ih =>
    obtain ⟨items, tail⟩ := q
    cases items with
    | nil =>
      simp only [drain, Prod.mk.injEq, true_and] at h
      exact h ▸ hs
    | cons x items =>
      simp only [drain] at h
      split at h
      · rename_i mid q' hx
        exact ih (hstep _ ⟨items, tail⟩ _ _ _ hs hx) h
      · simp at h

/-- The simulation rule: two steps that agree on acceptance and on what they
push, from related states, drain in lockstep. -/
theorem drain_simulation {step' : τ → Queue ι → ι → Bool × τ × Queue ι}
    (R : σ → τ → Prop)
    (hstep : ∀ s t q x, R s t → (step s q x).1 = (step' t q x).1 ∧
      ((step s q x).1 = true → (step s q x).2.2 = (step' t q x).2.2) ∧
      R (step s q x).2.1 (step' t q x).2.1)
    (fuel : ℕ) {s : σ} {t : τ} (q : Queue ι) (h : R s t) :
    (drain step fuel s q).1 = (drain step' fuel t q).1 ∧
      R (drain step fuel s q).2 (drain step' fuel t q).2 := by
  induction fuel generalizing s t q with
  | zero => obtain ⟨_ | ⟨x, items⟩, tail⟩ := q <;> exact ⟨rfl, h⟩
  | succ fuel ih =>
    obtain ⟨_ | ⟨x, items⟩, tail⟩ := q
    · exact ⟨rfl, h⟩
    · obtain ⟨hok, hqueue, hrel⟩ := hstep s t ⟨items, tail⟩ x h
      simp only [drain]
      generalize step s ⟨items, tail⟩ x = r at hok hqueue hrel
      generalize step' t ⟨items, tail⟩ x = r' at hok hqueue hrel
      obtain ⟨ok, s', q'⟩ := r
      obtain ⟨ok', t', q''⟩ := r'
      simp only at hok hqueue hrel
      subst hok
      cases ok with
      | false => exact ⟨rfl, hrel⟩
      | true =>
        obtain rfl := hqueue rfl
        exact ih q' hrel

theorem drain_frame {α : Type} (view : σ → α)
    (hstep : ∀ s q x, view (step s q x).2.1 = view s) (fuel : ℕ) (s : σ) (q : Queue ι) :
    view (drain step fuel s q).2 = view s := by
  induction fuel generalizing s q with
  | zero => obtain ⟨_ | ⟨x, items⟩, tail⟩ := q <;> rfl
  | succ fuel ih =>
    obtain ⟨_ | ⟨x, items⟩, tail⟩ := q
    · rfl
    · have hx := hstep s ⟨items, tail⟩ x
      simp only [drain]
      split
      · rename_i s' q' heq
        rw [ih, ← hx, heq]
      · rename_i s' q' heq
        rw [← hx, heq]

/-- A step that also keeps a ghost record, written from the state it starts in. -/
def withGhost {γ : Type} (step : σ → Queue ι → ι → Bool × σ × Queue ι) (ghost : σ → ι → γ → γ) :
    σ × γ → Queue ι → ι → Bool × (σ × γ) × Queue ι :=
  fun s q x ↦ ((step s.1 q x).1, ((step s.1 q x).2.1, ghost s.1 x s.2), (step s.1 q x).2.2)

/-- The ghost rule: a record changes nothing of the drain it is kept of. -/
theorem drain_withGhost {γ : Type} (f : σ → Queue ι → ι → Bool × σ × Queue ι)
    (ghost : σ → ι → γ → γ) (fuel : ℕ) (s : σ × γ) (q : Queue ι) :
    (drain (withGhost f ghost) fuel s q).1 = (drain f fuel s.1 q).1 ∧
      (drain (withGhost f ghost) fuel s q).2.1 = (drain f fuel s.1 q).2 := by
  refine drain_simulation (fun (t : σ × γ) s ↦ t.1 = s) (fun t s q x h ↦ ?_) fuel q rfl
  subst h
  exact ⟨rfl, fun _ ↦ rfl, rfl⟩

end Rules

end Cdj2000Emulator.Library.Worklist
