import Mathlib.Data.List.Basic

namespace Cdj2000Emulator.Library.GuardedLoop

variable {α β ρ : Type}

/-- What a pass of a loop comes to. -/
inductive Turn (α ρ : Type) where
  | go (a : α)
  | leave (a : α) (why : ρ)

def Turn.map (f : α → β) : Turn α ρ → Turn β ρ
  | .go a => .go (f a)
  | .leave a why => .leave (f a) why

def Turn.state : Turn α ρ → α
  | .go a => a
  | .leave a _ => a

/-- The states in which passes are made, the last state and why the loop ends there. -/
structure Finish (α ρ : Type) where
  visited : List α
  last : α
  why : ρ

def Finish.map (f : α → β) (r : Finish α ρ) : Finish β ρ := ⟨r.visited.map f, f r.last, r.why⟩

def Finish.after (r : Finish α ρ) (a : α) : Finish α ρ := { r with visited := a :: r.visited }

/-- At most `n` passes, each behind a check that may end the loop. -/
def loop (check : α → Option ρ) (body : α → Turn α ρ) (spent : ρ) : ℕ → α → Finish α ρ
  | 0, a => ⟨[], a, spent⟩
  | n + 1, a =>
    match check a with
    | some why => ⟨[], a, why⟩
    | none =>
      match body a with
      | .leave b why => ⟨[a], b, why⟩
      | .go b => (loop check body spent n b).after a

section Loop

variable {check : α → Option ρ} {body : α → Turn α ρ} {spent why : ρ} {n : ℕ} {a b : α}

theorem loop_checked (h : check a = some why) : loop check body spent (n + 1) a = ⟨[], a, why⟩ := by
  simp only [loop, h]

theorem loop_leave (h : check a = none) (hbody : body a = .leave b why) :
    loop check body spent (n + 1) a = ⟨[a], b, why⟩ := by
  simp only [loop, h, hbody]

theorem loop_go (h : check a = none) (hbody : body a = .go b) :
    loop check body spent (n + 1) a = (loop check body spent n b).after a := by
  simp only [loop, h, hbody]

theorem visited_length_le : (loop check body spent n a).visited.length ≤ n := by
  induction n generalizing a with
  | zero => exact Nat.le_refl 0
  | succ n ih =>
    cases hcheck : check a with
    | some why =>
      rw [loop_checked hcheck]
      exact Nat.zero_le _
    | none =>
      cases hbody : body a with
      | leave b why =>
        rw [loop_leave hcheck hbody]
        exact Nat.le_add_left 1 n
      | go b =>
        rw [loop_go hcheck hbody]
        exact Nat.succ_le_succ ih

/-- What every pass keeps, the loop keeps. -/
theorem loop_rel {R : α → α → Prop} (refl : ∀ a, R a a) (trans : ∀ {a b c}, R a b → R b c → R a c)
    (step : ∀ a, R a (body a).state) : R a (loop check body spent n a).last := by
  induction n generalizing a with
  | zero => exact refl a
  | succ n ih =>
    cases hcheck : check a with
    | some why =>
      rw [loop_checked hcheck]
      exact refl a
    | none =>
      have hstep := step a
      cases hbody : body a with
      | leave b why =>
        rw [hbody] at hstep
        rw [loop_leave hcheck hbody]
        exact hstep
      | go b =>
        rw [hbody] at hstep
        rw [loop_go hcheck hbody]
        exact trans hstep ih

theorem visited_rel {P : α → Prop} (first : P a) (next : ∀ {a b}, P a → body a = .go b → P b) :
    ∀ x ∈ (loop check body spent n a).visited, P x := by
  induction n generalizing a with
  | zero =>
    intro x hx
    cases hx
  | succ n ih =>
    cases hcheck : check a with
    | some why =>
      rw [loop_checked hcheck]
      intro x hx
      cases hx
    | none =>
      cases hbody : body a with
      | leave b why =>
        rw [loop_leave hcheck hbody]
        intro x hx
        exact List.mem_singleton.mp hx ▸ first
      | go b =>
        rw [loop_go hcheck hbody]
        intro x hx
        rcases List.mem_cons.mp hx with rfl | hx
        · exact first
        · exact ih (next first hbody) x hx

theorem last_cases : (loop check body spent n a).visited = [] ∧ (loop check body spent n a).last = a ∨
    ∃ x ∈ (loop check body spent n a).visited, (loop check body spent n a).last = (body x).state := by
  induction n generalizing a with
  | zero => exact .inl ⟨rfl, rfl⟩
  | succ n ih =>
    cases hcheck : check a with
    | some why =>
      rw [loop_checked hcheck]
      exact .inl ⟨rfl, rfl⟩
    | none =>
      cases hbody : body a with
      | leave b why =>
        rw [loop_leave hcheck hbody]
        exact .inr ⟨a, List.mem_singleton_self a, (congrArg Turn.state hbody).symm⟩
      | go b =>
        rw [loop_go hcheck hbody]
        rcases ih (a := b) with ⟨hnone, hlast⟩ | ⟨x, hx, hlast⟩
        · exact .inr ⟨a, List.mem_cons_self, hlast.trans (congrArg Turn.state hbody).symm⟩
        · exact .inr ⟨x, List.mem_cons_of_mem a hx, hlast⟩

theorem loop_suffix {front rest : List α} {x : α}
    (h : (loop check body spent n a).visited = front ++ x :: rest) :
    ∃ m, check x = none ∧ loop check body spent (m + 1) x =
      ⟨x :: rest, (loop check body spent n a).last, (loop check body spent n a).why⟩ := by
  induction n generalizing a front with
  | zero => cases front <;> cases h
  | succ n ih =>
    cases hcheck : check a with
    | some why =>
      rw [loop_checked hcheck] at h
      cases front <;> cases h
    | none =>
      cases hbody : body a with
      | leave b why =>
        rw [loop_leave hcheck hbody] at h ⊢
        cases front with
        | nil =>
          cases h
          exact ⟨0, hcheck, loop_leave hcheck hbody⟩
        | cons y front =>
          have hnil := (List.cons.inj h).2
          cases front <;> cases hnil
      | go b =>
        rw [loop_go hcheck hbody] at h ⊢
        cases front with
        | nil =>
          cases h
          exact ⟨n, hcheck, loop_go hcheck hbody⟩
        | cons y front => exact ih (List.cons.inj h).2

/-- What a pass adds at most one to. -/
theorem visited_le {f : α → ℕ} (step : ∀ {a b}, body a = .go b → f b ≤ f a + 1)
    {front rest : List α} {x : α}
    (h : (loop check body spent n a).visited = front ++ x :: rest) : f x ≤ f a + front.length := by
  induction n generalizing a front with
  | zero => cases front <;> cases h
  | succ n ih =>
    cases hcheck : check a with
    | some why =>
      rw [loop_checked hcheck] at h
      cases front <;> cases h
    | none =>
      cases hbody : body a with
      | leave b why =>
        rw [loop_leave hcheck hbody] at h
        cases front with
        | nil => exact (List.cons.inj h).1 ▸ Nat.le_refl _
        | cons y front =>
          have hnil := (List.cons.inj h).2
          cases front <;> cases hnil
      | go b =>
        rw [loop_go hcheck hbody] at h
        cases front with
        | nil => exact (List.cons.inj h).1 ▸ Nat.le_refl _
        | cons y front =>
          have hlater := ih (List.cons.inj h).2
          have hnow := step hbody
          rw [List.length_cons]
          omega

/-- A visited state is the first one, or a pass goes on to it. -/
theorem entered {front rest : List α} {x : α} (h : (loop check body spent n a).visited = front ++ x :: rest) :
    front = [] ∧ x = a ∨ ∃ y ∈ front, body y = .go x := by
  induction n generalizing a front with
  | zero => cases front <;> cases h
  | succ n ih =>
    cases hcheck : check a with
    | some why =>
      rw [loop_checked hcheck] at h
      cases front <;> cases h
    | none =>
      cases hbody : body a with
      | leave b why =>
        rw [loop_leave hcheck hbody] at h
        cases front with
        | nil => exact .inl ⟨rfl, (List.cons.inj h).1.symm⟩
        | cons y front =>
          have hnil := (List.cons.inj h).2
          cases front <;> cases hnil
      | go b =>
        rw [loop_go hcheck hbody] at h
        cases front with
        | nil => exact .inl ⟨rfl, (List.cons.inj h).1.symm⟩
        | cons y front =>
          obtain ⟨rfl, hrest⟩ := List.cons.inj h
          rcases ih hrest with ⟨rfl, rfl⟩ | ⟨y, hy, hgo⟩
          · exact .inr ⟨a, List.mem_singleton_self a, hbody⟩
          · exact .inr ⟨y, List.mem_cons_of_mem a hy, hgo⟩

end Loop

section Simulation

variable {check : α → Option ρ} {check' : β → Option ρ} {body : α → Turn α ρ} {body' : β → Turn β ρ}
  {spent why' : ρ}
  {f : α → β} {n : ℕ} {a : α}

/-- Where the second check lets every pass through, it makes no difference. -/
theorem loop_clear (hbody : ∀ a, body' (f a) = (body a).map f) (free : check (loop check body spent n a).last = none)
    (clear : ∀ x ∈ (loop check body spent n a).visited, check' (f x) = none) :
    loop check' body' spent n (f a) = (loop check body spent n a).map f := by
  induction n generalizing a with
  | zero => rfl
  | succ n ih =>
    have hsame := hbody a
    cases hcheck : check a with
    | some why =>
      rw [loop_checked hcheck] at free
      rw [hcheck] at free
      cases free
    | none =>
      cases hturn : body a with
      | leave b why =>
        rw [hturn] at hsame
        rw [loop_leave hcheck hturn] at clear ⊢
        exact loop_leave (clear a List.mem_cons_self) hsame
      | go b =>
        rw [hturn] at hsame
        rw [loop_go hcheck hturn] at free clear ⊢
        rw [loop_go (clear a List.mem_cons_self) hsame, ih free fun x hx ↦ clear x (List.mem_cons_of_mem a hx)]
        rfl

theorem loop_first (hbody : ∀ a, body' (f a) = (body a).map f) {front rest : List α} {x : α}
    (h : (loop check body spent n a).visited = front ++ x :: rest) (clear : ∀ y ∈ front, check' (f y) = none)
    (refused : check' (f x) = some why') : loop check' body' spent n (f a) = ⟨front.map f, f x, why'⟩ := by
  induction n generalizing a front with
  | zero => cases front <;> cases h
  | succ n ih =>
    have hsame := hbody a
    cases hcheck : check a with
    | some why =>
      rw [loop_checked hcheck] at h
      cases front <;> cases h
    | none =>
      cases hturn : body a with
      | leave b why =>
        rw [loop_leave hcheck hturn] at h
        cases front with
        | nil =>
          cases h
          exact loop_checked refused
        | cons y front =>
          have hnil := (List.cons.inj h).2
          cases front <;> cases hnil
      | go b =>
        rw [hturn] at hsame
        rw [loop_go hcheck hturn] at h
        cases front with
        | nil =>
          cases h
          exact loop_checked refused
        | cons y front =>
          obtain ⟨rfl, hrest⟩ := List.cons.inj h
          rw [loop_go (clear a List.mem_cons_self) hsame,
            ih hrest fun x hx ↦ clear x (List.mem_cons_of_mem a hx)]
          rfl

end Simulation

end Cdj2000Emulator.Library.GuardedLoop
