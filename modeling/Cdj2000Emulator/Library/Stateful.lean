import Mathlib.Logic.Basic
import Mathlib.Tactic.SplitIfs

namespace Cdj2000Emulator.Library.Stateful

/-- The result satisfies `P`, or the failure satisfies `E`. -/
def Yields {ε α : Type} (P : α → Prop) (E : ε → Prop) : Except ε α → Prop
  | .ok a => P a
  | .error e => E e

section Yields

variable {ε α β : Type} {P : α → Prop} {Q : β → Prop} {E : ε → Prop} {x y : Except ε α}

theorem Yields.ok_of_eq (h : Yields P E x) {a : α} (eq : x = .ok a) : P a := by
  rwa [eq] at h

theorem Yields.error_of_eq (h : Yields P E x) {e : ε} (eq : x = .error e) : E e := by
  rwa [eq] at h

theorem yields_ite {c : Prop} [Decidable c] (h : c → Yields P E x) (k : ¬c → Yields P E y) :
    Yields P E (if c then x else y) := by
  split_ifs with hc
  · exact h hc
  · exact k hc

theorem Yields.mono {Q : α → Prop} (h : Yields P E x) (weaker : ∀ a, P a → Q a) : Yields Q E x := by
  cases x with
  | ok a => exact weaker a h
  | error e => exact h

theorem Yields.mono_error {F : ε → Prop} (h : Yields P E x) (weaker : ∀ e, E e → F e) : Yields P F x := by
  cases x with
  | ok a => exact h
  | error e => exact weaker e h

theorem Yields.bind {f : α → Except ε β} (h : Yields P E x) (k : ∀ a, P a → Yields Q E (f a)) :
    Yields Q E (x >>= f) := by
  cases x with
  | ok a => exact k a h
  | error e => exact h

end Yields

/-- A computation over a state that outlives a failure. -/
def Machine (σ ε α : Type) := σ → σ × Except ε α

namespace Machine

variable {σ ε ε' α β γ τ : Type}

instance : Monad (Machine σ ε) where
  pure a := fun s ↦ (s, .ok a)
  bind x f := fun s ↦
    match x s with
    | (s, .ok a) => f a s
    | (s, .error e) => (s, .error e)

def fail (e : ε) : Machine σ ε α := fun s ↦ (s, .error e)

/-- Fail unless the condition holds. -/
def require (c : Prop) [Decidable c] (e : ε) : Machine σ ε Unit :=
  if c then pure () else fail e

def ofExcept (x : Except ε α) : Machine σ ε α := fun s ↦ (s, x)

def get : Machine σ ε σ := fun s ↦ (s, .ok s)

def modify (f : σ → σ) : Machine σ ε Unit := fun s ↦ (f s, .ok ())

/-- Run, naming the failure anew. -/
def mapError (g : ε → ε') (x : Machine σ ε α) : Machine σ ε' α := fun s ↦
  match x s with
  | (s, .ok a) => (s, .ok a)
  | (s, .error e) => (s, .error (g e))

def orFail (x : Machine σ ε α) (e : ε') : Machine σ ε' α := x.mapError fun _ ↦ e

variable {x : Machine σ ε α} {f : α → Machine σ ε β} {s s' : σ} {a : α} {b : β} {e e₁ : ε}

@[simp] theorem pure_apply : (pure a : Machine σ ε α) s = (s, .ok a) := rfl

@[simp] theorem fail_apply : (fail e : Machine σ ε α) s = (s, .error e) := rfl

@[simp] theorem modify_apply (g : σ → σ) : (modify g : Machine σ ε Unit) s = (g s, .ok ()) := rfl

@[simp] theorem ofExcept_apply (y : Except ε α) : (ofExcept y : Machine σ ε α) s = (s, y) := rfl

theorem bind_apply : (x >>= f) s =
    match x s with
    | (s, .ok a) => f a s
    | (s, .error e) => (s, .error e) := rfl

theorem bind_ok : (x >>= f) s = (s', .ok b) ↔
    ∃ a t, x s = (t, .ok a) ∧ f a t = (s', .ok b) := by
  rw [bind_apply]
  rcases x s with ⟨t, e | a⟩
  · simp
  · simp only [Prod.mk.injEq, Except.ok.injEq]
    exact ⟨fun h ↦ ⟨a, t, ⟨rfl, rfl⟩, h⟩, fun ⟨_, _, ⟨ht, ha⟩, h⟩ ↦ ht ▸ ha ▸ h⟩

theorem bind_error : (x >>= f) s = (s', .error e) ↔
    x s = (s', .error e) ∨ ∃ a t, x s = (t, .ok a) ∧ f a t = (s', .error e) := by
  rw [bind_apply]
  rcases x s with ⟨t, e | a⟩
  · simp
  · simp only [Prod.mk.injEq, reduceCtorEq, and_false, false_or, Except.ok.injEq]
    exact ⟨fun h ↦ ⟨a, t, ⟨rfl, rfl⟩, h⟩, fun ⟨_, _, ⟨ht, ha⟩, h⟩ ↦ ht ▸ ha ▸ h⟩

theorem eq_of_isOk (h : (x s).2.isOk = true) : ∃ a, x s = ((x s).1, .ok a) := by
  rcases hx : x s with ⟨t, e | a⟩
  · rw [hx] at h
    cases h
  · exact ⟨a, rfl⟩

theorem require_ok {c : Prop} [Decidable c] {u : Unit} :
    (require c e : Machine σ ε Unit) s = (s', .ok u) ↔ c ∧ s' = s := by
  unfold require
  split_ifs with h
  · simp [h, eq_comm]
  · simp [h]

theorem mapError_ok {g : ε → ε'} : x.mapError g s = (s', .ok a) ↔ x s = (s', .ok a) := by
  unfold mapError
  rcases x s with ⟨t, e₁ | a₁⟩
  · simp
  · simp

theorem map_id (x : Machine σ ε α) : id <$> x = x := by
  funext s
  change (match x s with
    | (s, .ok a) => (s, .ok a)
    | (s, .error e) => (s, .error e)) = x s
  split
  next h => exact h.symm
  next h => exact h.symm

theorem bind_assoc (x : Machine σ ε α) (f : α → Machine σ ε β) (g : β → Machine σ ε γ) :
    x >>= f >>= g = x >>= fun a ↦ f a >>= g := by
  funext s
  simp only [bind_apply]
  rcases x s with ⟨t, e | a⟩
  · rfl
  · rfl

instance : LawfulMonad (Machine σ ε) := .mk' _ map_id (fun _ _ ↦ rfl) bind_assoc

/-- Success or failure, the observation `view` of the state is as before. -/
def Keeps (view : σ → τ) (x : Machine σ ε α) : Prop := ∀ s, view (x s).1 = view s

section Keeps

variable {view : σ → τ}

theorem keeps_pure : Keeps view (pure a : Machine σ ε α) := fun _ ↦ rfl

theorem keeps_fail : Keeps view (fail e : Machine σ ε α) := fun _ ↦ rfl

theorem keeps_get {g : σ → Machine σ ε β} (h : ∀ s, Keeps view (g s)) : Keeps view (get >>= g) :=
  fun s ↦ h s s

theorem keeps_require {c : Prop} [Decidable c] :
    Keeps view (require c e : Machine σ ε Unit) := by
  unfold require
  split_ifs
  · exact keeps_pure
  · exact keeps_fail

theorem Keeps.mapError {g : ε → ε'} (hx : Keeps view x) : Keeps view (x.mapError g) := by
  intro s
  have first := hx s
  unfold Machine.mapError
  rcases h : x s with ⟨t, e₁ | a⟩
  · rwa [h] at first
  · rwa [h] at first

theorem Keeps.bind (hx : Keeps view x) (hf : ∀ a, Keeps view (f a)) : Keeps view (x >>= f) := by
  intro s
  rw [bind_apply]
  have first := hx s
  rcases h : x s with ⟨t, e | a⟩
  · simpa only [h] using first
  · rw [h] at first
    exact (hf a t).trans first

theorem Keeps.foldlM {g : β → γ → Machine σ ε β} (hg : ∀ b c, Keeps view (g b c)) :
    ∀ (l : List γ) (b : β), Keeps view (l.foldlM g b)
  | [], _ => keeps_pure
  | c :: l, b => (hg b c).bind fun b ↦ Keeps.foldlM hg l b

theorem keeps_forM {f : γ → Machine σ ε PUnit} (hf : ∀ c, Keeps view (f c)) :
    ∀ l : List γ, Keeps view (l.forM f)
  | [] => keeps_pure
  | c :: l => (hf c).bind fun _ ↦ keeps_forM hf l

theorem Keeps.eq_of_run (hx : Keeps view x) {y : Except ε α} (run : x s = (s', y)) :
    view s' = view s := by
  have := hx s
  rwa [run] at this

end Keeps

/-- Success or failure, the states before and after are related. -/
def Relates (R : σ → σ → Prop) (x : Machine σ ε α) : Prop := ∀ s, R s (x s).1

section Relates

variable {R : σ → σ → Prop}

theorem relates_pure (refl : ∀ s, R s s) : Relates R (pure a : Machine σ ε α) := fun s ↦ refl s

theorem relates_fail (refl : ∀ s, R s s) : Relates R (fail e : Machine σ ε α) := fun s ↦ refl s

theorem relates_get {f : σ → Machine σ ε β} (h : ∀ s, Relates R (f s)) :
    Relates R (get >>= f) := fun s ↦ h s s

theorem relates_require (refl : ∀ s, R s s) {c : Prop} [Decidable c] :
    Relates R (require c e : Machine σ ε Unit) := by
  unfold require
  split_ifs
  · exact relates_pure refl
  · exact relates_fail refl

theorem Relates.bind (trans : ∀ s t u, R s t → R t u → R s u) (hx : Relates R x)
    (hf : ∀ a, Relates R (f a)) : Relates R (x >>= f) := by
  intro s
  rw [bind_apply]
  have first := hx s
  rcases h : x s with ⟨t, e | a⟩
  · simpa only [h] using first
  · rw [h] at first
    exact trans _ _ _ first (hf a t)

theorem relates_forM (refl : ∀ s, R s s) (trans : ∀ s t u, R s t → R t u → R s u)
    {f : γ → Machine σ ε PUnit} (h : ∀ c, Relates R (f c)) (l : List γ) :
    Relates R (l.forM f) := by
  induction l with
  | nil => exact relates_pure refl
  | cons c l ih => exact (h c).bind trans fun _ ↦ ih

end Relates

/-- Whatever the state, the result satisfies `P` or the failure satisfies `E`. -/
def Always (P : α → Prop) (E : ε → Prop) (x : Machine σ ε α) : Prop := ∀ s, Yields P E (x s).2

section Always

variable {P : α → Prop} {Q : β → Prop} {E : ε → Prop}

theorem Always.ok_of_run (hx : Always P E x) (run : x s = (s', .ok a)) : P a := by
  have := hx s
  rwa [run] at this

theorem Always.error_of_run (hx : Always P E x) (run : x s = (s', .error e)) : E e := by
  have := hx s
  rwa [run] at this

theorem always_pure (h : P a) : Always P E (pure a : Machine σ ε α) := fun _ ↦ h

theorem always_fail (h : E e) : Always P E (fail e : Machine σ ε α) := fun _ ↦ h

theorem always_modify (g : σ → σ) : Always (fun _ ↦ True) E (modify g : Machine σ ε Unit) :=
  fun _ ↦ trivial

theorem always_ofExcept {y : Except ε α} (h : Yields P E y) :
    Always P E (ofExcept y : Machine σ ε α) := fun _ ↦ h

theorem always_require {c : Prop} [Decidable c] (h : ¬c → E e) :
    Always (fun _ ↦ c) E (require c e : Machine σ ε Unit) := by
  unfold require
  split_ifs with hc
  · exact fun _ ↦ hc
  · exact always_fail (h hc)

theorem Always.mono {Q : α → Prop} (hx : Always P E x) (weaker : ∀ a, P a → Q a) : Always Q E x :=
  fun s ↦ (hx s).mono weaker

theorem always_ite {c : Prop} [Decidable c] {y : Machine σ ε α} (h : c → Always P E x)
    (k : ¬c → Always P E y) : Always P E (if c then x else y) := by
  split_ifs with hc
  · exact h hc
  · exact k hc

theorem Always.bind (hx : Always P E x) (hf : ∀ a, P a → Always Q E (f a)) :
    Always Q E (x >>= f) := by
  intro s
  have first := hx s
  rw [bind_apply]
  rcases h : x s with ⟨t, e | a⟩
  · rwa [h] at first
  · rw [h] at first
    exact hf a first t

theorem Always.mapError {E' : ε' → Prop} {g : ε → ε'} (hx : Always P E x)
    (hg : ∀ e, E e → E' (g e)) : Always P E' (x.mapError g) := by
  intro s
  have first := hx s
  unfold Machine.mapError
  rcases h : x s with ⟨t, e | a⟩
  · rw [h] at first
    exact hg e first
  · rwa [h] at first

theorem always_orFail {E : ε' → Prop} {e : ε'} (h : E e) :
    Always (fun _ ↦ True) E (x.orFail e) := by
  intro s
  unfold orFail Machine.mapError
  rcases x s with ⟨t, e₁ | a⟩
  · exact h
  · exact trivial

theorem Always.foldlM {g : β → γ → Machine σ ε β} (hg : ∀ b c, Q b → Always Q E (g b c)) :
    ∀ (l : List γ) (b : β), Q b → Always Q E (l.foldlM g b)
  | [], _, h => always_pure h
  | c :: l, b, h => (hg b c h).bind fun b hb ↦ Always.foldlM hg l b hb

end Always

/-- From a state in `P`, success ends with `Q` and failure in `F`. -/
structure Triple (P : σ → Prop) (x : Machine σ ε α) (Q : α → σ → Prop) (F : σ → Prop) : Prop where
  yields : ∀ s, P s → Yields (Q · (x s).1) (fun _ ↦ F (x s).1) (x s).2

section Triple

variable {P P' : σ → Prop} {Q Q' : α → σ → Prop} {R : β → σ → Prop} {F F' : σ → Prop}

theorem triple_iff : Triple P x Q F ↔
    (∀ s s' a, P s → x s = (s', .ok a) → Q a s') ∧ ∀ s s' e, P s → x s = (s', .error e) → F s' := by
  constructor
  · intro h
    refine ⟨fun s s' a hs run ↦ ?_, fun s s' e hs run ↦ ?_⟩
    · simpa only [run, Yields] using h.yields s hs
    · simpa only [run, Yields] using h.yields s hs
  · rintro ⟨ok, error⟩
    refine ⟨fun s hs ↦ ?_⟩
    rcases run : x s with ⟨s', e | a⟩
    · exact error s s' e hs run
    · exact ok s s' a hs run

theorem Triple.conseq (h : Triple P x Q F) (hP : ∀ s, P' s → P s) (hQ : ∀ a s, Q a s → Q' a s)
    (hF : ∀ s, F s → F' s) : Triple P' x Q' F' := by
  rw [triple_iff] at h ⊢
  exact ⟨fun s s' a hs run ↦ hQ a s' (h.1 s s' a (hP s hs) run),
    fun s s' e hs run ↦ hF s' (h.2 s s' e (hP s hs) run)⟩

/-- What the run keeps may stand beside what it does. -/
theorem Triple.frame {R : σ → Prop} (h : Triple P x Q F) (keeps : ∀ s, R s → R (x s).1) :
    Triple (fun s ↦ P s ∧ R s) x (fun a s ↦ Q a s ∧ R s) fun s ↦ F s ∧ R s := by
  rw [triple_iff] at h ⊢
  refine ⟨fun s s' a hs run ↦ ⟨h.1 s s' a hs.1 run, ?_⟩, fun s s' e hs run ↦ ⟨h.2 s s' e hs.1 run, ?_⟩⟩
  · simpa only [run] using keeps s hs.2
  · simpa only [run] using keeps s hs.2

theorem Triple.and (h : Triple P x Q F) (k : Triple P' x Q' F') :
    Triple (fun s ↦ P s ∧ P' s) x (fun a s ↦ Q a s ∧ Q' a s) fun s ↦ F s ∧ F' s := by
  rw [triple_iff] at h k ⊢
  exact ⟨fun s s' a hs run ↦ ⟨h.1 s s' a hs.1 run, k.1 s s' a hs.2 run⟩,
    fun s s' e hs run ↦ ⟨h.2 s s' e hs.1 run, k.2 s s' e hs.2 run⟩⟩

theorem triple_of_forall (h : ∀ s, P s → Triple (· = s) x Q F) : Triple P x Q F :=
  ⟨fun s hs ↦ (h s hs).yields s rfl⟩

theorem Triple.state (h : Triple P x (fun _ ↦ F) F) {s : σ} (hs : P s) : F (x s).1 := by
  rw [triple_iff] at h
  rcases run : x s with ⟨s', e | a⟩
  · exact h.2 s s' e hs run
  · exact h.1 s s' a hs run

theorem triple_pure (h : ∀ s, P s → Q a s) : Triple P (pure a : Machine σ ε α) Q F :=
  ⟨h⟩

theorem triple_fail (h : ∀ s, P s → F s) : Triple P (fail e : Machine σ ε α) Q F :=
  ⟨h⟩

theorem triple_modify {g : σ → σ} {Q : Unit → σ → Prop} (h : ∀ s, P s → Q () (g s)) :
    Triple P (modify g : Machine σ ε Unit) Q F :=
  ⟨h⟩

theorem triple_require {c : Prop} [Decidable c] {Q : Unit → σ → Prop}
    (h : ∀ s, P s → c → Q () s) (k : ∀ s, P s → ¬c → F s) :
    Triple P (require c e : Machine σ ε Unit) Q F := by
  unfold require
  split_ifs with hc
  · exact triple_pure fun s hs ↦ h s hs hc
  · exact triple_fail fun s hs ↦ k s hs hc

theorem Triple.bind (hx : Triple P x Q F) (hf : ∀ a, Triple (Q a) (f a) R F) :
    Triple P (x >>= f) R F := by
  rw [triple_iff] at hx ⊢
  refine ⟨fun s s' b hs run ↦ ?_, fun s s' e hs run ↦ ?_⟩
  · obtain ⟨a, t, first, last⟩ := bind_ok.mp run
    exact (triple_iff.mp (hf a)).1 t s' b (hx.1 s t a hs first) last
  · rcases bind_error.mp run with first | ⟨a, t, first, last⟩
    · exact hx.2 s s' e hs first
    · exact (triple_iff.mp (hf a)).2 t s' e (hx.1 s t a hs first) last

/-- What follows a look at the state is shown from that state. -/
theorem triple_get {f : σ → Machine σ ε β}
    (h : ∀ s, P s → Triple (· = s) (f s) R F) : Triple P (get >>= f) R F :=
  ⟨fun s hs ↦ (h s hs).yields s rfl⟩

/-- What the relation carries over holds whichever way the run ends. -/
theorem Relates.triple {S : σ → σ → Prop} (h : Relates S x) (carry : ∀ s t, P s → S s t → F t) :
    Triple P x (fun _ ↦ F) F := by
  rw [triple_iff]
  refine ⟨fun s s' a hs run ↦ carry s s' hs ?_, fun s s' e hs run ↦ carry s s' hs ?_⟩
  · simpa only [run] using h s
  · simpa only [run] using h s

theorem triple_ite {c : Prop} [Decidable c] {y : Machine σ ε α} (h : c → Triple P x Q F)
    (k : ¬c → Triple P y Q F) : Triple P (if c then x else y) Q F := by
  split_ifs with hc
  · exact h hc
  · exact k hc

/-- A loop keeps what each of its rounds keeps; `P` is about the rounds to come. -/
theorem triple_forM {f : γ → Machine σ ε PUnit} {P : List γ → σ → Prop} (l : List γ)
    (h : ∀ c l, Triple (P (c :: l)) (f c) (fun _ ↦ P l) F) :
    Triple (P l) (l.forM f) (fun _ ↦ P []) F := by
  induction l with
  | nil => exact triple_pure fun s hs ↦ hs
  | cons c l ih =>
    change Triple (P (c :: l)) (f c >>= fun _ ↦ l.forM f) _ _
    exact (h c l).bind fun _ ↦ ih

end Triple

end Machine

end Cdj2000Emulator.Library.Stateful
