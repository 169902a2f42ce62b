import Mathlib.Algebra.Group.Nat.Defs
import Mathlib.Tactic.SplitIfs

namespace Cdj2000Emulator.Board

structure Scheduler where
  activationId : ℕ
  sliceId : ℕ
  remaining : ℕ
  sliceSteps : ℕ
  pending : ℕ
  rearm : ℕ
  mode : ℕ
  reserved : ℕ

namespace Scheduler

def legacy : ℕ := 0

def deferredV1 : ℕ := 1

def activationLength : ℕ := 1000000

def sliceLength : ℕ := 4096

def uint64Max : ℕ := 2 ^ 64 - 1

variable {s t : Scheduler} {executed : ℕ} {hint fault : Bool}

def Idle (s : Scheduler) : Prop :=
  s.activationId = 0 ∧ s.sliceId = 0 ∧ s.remaining = 0 ∧ s.sliceSteps = 0 ∧ s.pending = 0 ∧ s.rearm = 0

def reset : Scheduler :=
  { activationId := 0, sliceId := 0, remaining := 0, sliceSteps := sliceLength, pending := 0, rearm := 0,
    mode := deferredV1, reserved := 0 }

def InStep (s : Scheduler) : Prop :=
  (s.activationId = 0 → s.sliceId = 0 ∧ s.remaining = 0 ∧ s.pending = 0 ∧ s.rearm = 0) ∧
  (s.activationId ≠ 0 → (s.sliceId = 0 → s.remaining = activationLength) ∧
    (s.remaining ≠ 0 → (activationLength - s.remaining) % s.sliceSteps = 0))

def Deferred (s : Scheduler) : Prop :=
  s.mode = deferredV1 ∧ s.sliceSteps = sliceLength ∧ s.remaining ≤ activationLength ∧
    s.pending = (if s.remaining = 0 then 0 else 1) ∧ (s.rearm ≠ 0 → s.pending ≠ 0) ∧ s.InStep

def Valid (s : Scheduler) : Prop :=
  s.reserved = 0 ∧ s.pending ≤ 1 ∧ s.rearm ≤ 1 ∧ if s.mode = legacy then s.Idle else s.Deferred

instance (s : Scheduler) : Decidable s.Idle := inferInstanceAs (Decidable (_ ∧ _))

instance (s : Scheduler) : Decidable s.InStep := inferInstanceAs (Decidable ((_ → _) ∧ (_ → _)))

instance (s : Scheduler) : Decidable s.Deferred := inferInstanceAs (Decidable (_ ∧ _))

instance (s : Scheduler) : Decidable s.Valid :=
  inferInstanceAs (Decidable (_ ∧ _ ∧ _ ∧ if s.mode = legacy then s.Idle else s.Deferred))

def request (s : Scheduler) : Scheduler × Bool :=
  if ¬s.Valid ∨ s.mode ≠ deferredV1 then (s, false)
  else if s.pending ≠ 0 then ({ s with rearm := 1 }, true)
  else if s.activationId = uint64Max then (s, false)
  else ({ s with activationId := s.activationId + 1, remaining := activationLength, pending := 1 }, true)

def quota (s : Scheduler) : ℕ := if s.remaining < s.sliceSteps then s.remaining else s.sliceSteps

/-- `cdj_dsp_scheduler_begin`. -/
def beginSlice (s : Scheduler) : Scheduler × ℕ :=
  if ¬s.Valid ∨ s.mode ≠ deferredV1 ∨ s.pending = 0 ∨ s.sliceId = uint64Max then (s, 0)
  else ({ s with sliceId := s.sliceId + 1 }, s.quota)

def finish (s : Scheduler) (executed : ℕ) (stop : Bool) : Option Scheduler :=
  if stop then some { s with remaining := 0, pending := 0, rearm := 0 }
  else if s.remaining - executed ≠ 0 then some { s with remaining := s.remaining - executed }
  else if s.rearm = 0 then some { s with remaining := 0, pending := 0 }
  else if s.activationId = uint64Max then none
  else some { s with activationId := s.activationId + 1, remaining := activationLength, rearm := 0 }

/-- `cdj_dsp_scheduler_end`. -/
def endSlice (s : Scheduler) (executed : ℕ) (hint fault : Bool) : Scheduler × Bool :=
  if ¬s.Valid ∨ s.mode ≠ deferredV1 ∨ s.pending = 0 then (s, false)
  else if s.quota < executed ∨ hint = false ∧ fault = false ∧ executed ≠ s.quota then (s, false)
  else
    match s.finish executed (hint || fault) with
    | none => (s, false)
    | some next => if next.Valid then (next, true) else (s, false)

/-- Validity in the mode that slices are given in. -/
structure Live (s : Scheduler) : Prop where
  reserved : s.reserved = 0
  rearm_le : s.rearm ≤ 1
  deferred : s.Deferred

theorem Live.mode (h : s.Live) : s.mode = deferredV1 := h.deferred.1

theorem Live.pending_eq (h : s.Live) : s.pending = if s.remaining = 0 then 0 else 1 := h.deferred.2.2.2.1

theorem Live.pending_iff (h : s.Live) : s.pending ≠ 0 ↔ s.remaining ≠ 0 := by
  rw [h.pending_eq]
  split_ifs with hzero
  · exact ⟨fun hne ↦ absurd rfl hne, fun hne ↦ absurd hzero hne⟩
  · exact ⟨fun _ ↦ hzero, fun _ ↦ Nat.one_ne_zero⟩

theorem Live.valid (h : s.Live) : s.Valid := by
  refine ⟨h.reserved, ?_, h.rearm_le, ?_⟩
  · rw [h.pending_eq]
    split_ifs <;> omega
  · rw [if_neg (by rw [h.mode]; decide)]
    exact h.deferred

theorem Live.accepted (h : s.Live) : ¬(¬s.Valid ∨ s.mode ≠ deferredV1) := by
  rintro (hvalid | hmode)
  · exact hvalid h.valid
  · exact hmode h.mode

theorem Live.begun (h : s.Live) (hpending : s.pending ≠ 0) : s.activationId ≠ 0 ∧
    (s.sliceId = 0 → s.remaining = activationLength) ∧ (activationLength - s.remaining) % sliceLength = 0 := by
  obtain ⟨-, hsteps, -, -, -, hfirst, hlater⟩ := h.deferred
  have hid : s.activationId ≠ 0 := fun hzero ↦ hpending (hfirst hzero).2.2.1
  have hslices := (hlater hid).2 (h.pending_iff.mp hpending)
  rw [hsteps] at hslices
  exact ⟨hid, (hlater hid).1, hslices⟩

theorem reset_live : reset.Live := ⟨rfl, Nat.zero_le 1, by decide⟩

theorem request_eq (h : s.Live) (hid : s.activationId < uint64Max) : s.request =
    (if s.pending ≠ 0 then { s with rearm := 1 }
      else { s with activationId := s.activationId + 1, remaining := activationLength, pending := 1 }, true) := by
  rw [request, if_neg h.accepted]
  split_ifs with hpending hlast
  · rfl
  · omega
  · rfl

theorem request_live (h : s.Live) (hid : s.activationId < uint64Max) : s.request.1.Live := by
  obtain ⟨hmode, hsteps, hle, hpending, hrearm, hin⟩ := h.deferred
  rw [request_eq h hid]
  split_ifs with hbusy
  · refine ⟨h.reserved, Nat.le_refl 1, hmode, hsteps, hle, hpending, fun _ ↦ hbusy, ?_, hin.2⟩
    intro hzero
    exact absurd hzero (h.begun hbusy).1
  · have hidle : s.rearm = 0 := Decidable.byContradiction fun hne ↦ hbusy (hrearm hne)
    refine ⟨h.reserved, h.rearm_le, hmode, hsteps, Nat.le_refl _, rfl, fun hne ↦ absurd hidle hne, ?_, ?_⟩
    · intro hzero
      exact absurd hzero (Nat.succ_ne_zero s.activationId)
    · intro _
      refine ⟨fun _ ↦ rfl, fun _ ↦ ?_⟩
      rw [Nat.sub_self, Nat.zero_mod]

theorem beginSlice_eq (h : s.Live) (hpending : s.pending ≠ 0) (hid : s.sliceId < uint64Max) :
    s.beginSlice = ({ s with sliceId := s.sliceId + 1 }, s.quota) := by
  rw [beginSlice, if_neg]
  rintro (hvalid | hmode | hzero | hlast)
  · exact hvalid h.valid
  · exact hmode h.mode
  · exact hpending hzero
  · omega

theorem beginSlice_live (h : s.Live) (hpending : s.pending ≠ 0) (hid : s.sliceId < uint64Max) :
    s.beginSlice.1.Live := by
  obtain ⟨hmode, hsteps, hle, heq, hrearm, hin⟩ := h.deferred
  have hbegun := h.begun hpending
  rw [beginSlice_eq h hpending hid]
  refine ⟨h.reserved, h.rearm_le, hmode, hsteps, hle, heq, hrearm, ?_, ?_⟩
  · intro hzero
    exact absurd hzero hbegun.1
  · intro hne
    refine ⟨fun hzero ↦ absurd hzero (Nat.succ_ne_zero s.sliceId), (hin.2 hne).2⟩

theorem Live.quota_pos (h : s.Live) (hpending : s.pending ≠ 0) : 0 < s.quota := by
  have hremaining := h.pending_iff.mp hpending
  have hsteps := h.deferred.2.1
  rw [quota]
  split_ifs
  · omega
  · rw [hsteps]
    decide

theorem quota_le (s : Scheduler) : s.quota ≤ s.remaining := by
  rw [quota]
  split_ifs <;> omega

/-- A full slice leaves a whole number of slices behind it, unless it is the last one. -/
theorem Live.slice_end (h : s.Live) (hpending : s.pending ≠ 0) (hmore : s.remaining - s.quota ≠ 0) :
    (activationLength - (s.remaining - s.quota)) % sliceLength = 0 := by
  have hslices := (h.begun hpending).2.2
  have hle := h.deferred.2.2.1
  have hsteps := h.deferred.2.1
  have hfull : s.quota = sliceLength := by
    rw [quota] at hmore ⊢
    split_ifs at hmore ⊢ with hlast
    · omega
    · exact hsteps
  rw [hfull] at hmore ⊢
  have hsum : activationLength - (s.remaining - sliceLength) = (activationLength - s.remaining) + sliceLength := by
    omega
  rw [hsum, Nat.add_mod_right, hslices]

theorem finish_eq (s : Scheduler) (hid : s.activationId < uint64Max) : s.finish s.quota false = some
    (if s.remaining - s.quota ≠ 0 then { s with remaining := s.remaining - s.quota }
      else if s.rearm = 0 then { s with remaining := 0, pending := 0 }
      else { s with activationId := s.activationId + 1, remaining := activationLength, rearm := 0 }) := by
  rw [finish, if_neg Bool.false_ne_true]
  split_ifs
  · rfl
  · rfl
  · omega
  · rfl

/-- After a full slice the activation goes on, ends, or is followed by the one that was asked for. -/
theorem finish_live {next : Scheduler} (h : s.Live) (hpending : s.pending ≠ 0) (hslice : s.sliceId ≠ 0)
    (hid : s.activationId < uint64Max) (hnext : s.finish s.quota false = some next) : next.Live := by
  obtain ⟨hmode, hsteps, hle, heq, hrearm, hin⟩ := h.deferred
  have hbegun := h.begun hpending
  rw [if_neg (h.pending_iff.mp hpending)] at heq
  rw [finish_eq s hid, Option.some_inj] at hnext
  subst hnext
  split_ifs with hmore hasked
  · refine ⟨h.reserved, h.rearm_le, hmode, hsteps, Nat.le_trans (Nat.sub_le _ _) hle, ?_, hrearm, ?_, ?_⟩
    · rw [if_neg hmore]
      exact heq
    · intro hzero
      exact absurd hzero hbegun.1
    · intro _
      refine ⟨fun hzero ↦ absurd hzero hslice, fun _ ↦ ?_⟩
      rw [hsteps]
      exact h.slice_end hpending hmore
  · refine ⟨h.reserved, h.rearm_le, hmode, hsteps, Nat.zero_le _, rfl, fun hne ↦ absurd hasked hne, ?_, ?_⟩
    · intro hzero
      exact absurd hzero hbegun.1
    · intro _
      exact ⟨fun hzero ↦ absurd hzero hslice, fun hne ↦ absurd rfl hne⟩
  · refine ⟨h.reserved, Nat.zero_le 1, hmode, hsteps, Nat.le_refl _, ?_, fun hne ↦ absurd rfl hne, ?_, ?_⟩
    · rw [if_neg (show activationLength ≠ 0 by decide)]
      exact heq
    · intro hzero
      exact absurd hzero (Nat.succ_ne_zero s.activationId)
    · intro _
      refine ⟨fun _ ↦ rfl, fun _ ↦ ?_⟩
      rw [Nat.sub_self, Nat.zero_mod]

theorem endSlice_eq {next : Scheduler} (h : s.Live) (hpending : s.pending ≠ 0)
    (hnext : s.finish s.quota false = some next) (hvalid : next.Valid) :
    s.endSlice s.quota false false = (next, true) := by
  rw [endSlice, if_neg, if_neg]
  · rw [Bool.or_self, hnext]
    exact if_pos hvalid
  · rintro (hlt | ⟨-, -, hne⟩)
    · exact Nat.lt_irrefl _ hlt
    · exact hne rfl
  · rintro (hvalid | hmode | hzero)
    · exact hvalid h.valid
    · exact hmode h.mode
    · exact hpending hzero

theorem endSlice_rejected (s : Scheduler) (executed : ℕ) (hint fault : Bool)
    (h : (s.endSlice executed hint fault).2 = false) : (s.endSlice executed hint fault).1 = s := by
  rw [endSlice] at h ⊢
  split_ifs at h ⊢
  · rfl
  · rfl
  · cases hnext : s.finish executed (hint || fault) with
    | none => rfl
    | some next =>
      rw [hnext] at h
      dsimp only at h ⊢
      split_ifs at h ⊢
      rfl

end Scheduler

open Scheduler

/-- A scheduler in use: the slice that is being executed and the steps executed so far. -/
structure Play where
  scheduler : Scheduler
  slice : Option ℕ
  steps : ℕ

inductive Call
  | request
  | beginSlice
  | endSlice

namespace Play

variable {p q r : Play} {c : Call}

def start : Play := { scheduler := reset, slice := none, steps := 0 }

/-- The steps of the slice that is being executed. -/
def inSlice (p : Play) : ℕ := p.slice.getD 0

/-- A call, and whether it is accepted. A slice is executed in full, and then ended. -/
def call (p : Play) : Call → Play × Bool
  | .request => ({ p with scheduler := p.scheduler.request.1 }, p.scheduler.request.2)
  | .beginSlice =>
    ({ p with scheduler := p.scheduler.beginSlice.1, slice := some p.scheduler.beginSlice.2 },
      p.scheduler.beginSlice.2 != 0)
  | .endSlice =>
    ({ scheduler := (p.scheduler.endSlice p.inSlice false false).1, slice := none, steps := p.steps + p.inSlice },
      (p.scheduler.endSlice p.inSlice false false).2)

def Allowed (p : Play) : Call → Prop
  | .request => p.scheduler.activationId < uint64Max
  | .beginSlice => p.slice = none ∧ p.scheduler.pending ≠ 0 ∧ p.scheduler.sliceId < uint64Max
  | .endSlice => p.slice ≠ none ∧ p.scheduler.activationId < uint64Max

instance (p : Play) : DecidablePred p.Allowed
  | .request => inferInstanceAs (Decidable (_ < _))
  | .beginSlice => inferInstanceAs (Decidable (_ ∧ _))
  | .endSlice => inferInstanceAs (Decidable (_ ∧ _))

/-- The plays that calls lead to. -/
inductive Reaches (p : Play) : Play → Prop
  | refl : Reaches p p
  | call {q : Play} {c : Call} : Reaches p q → q.Allowed c → Reaches p (q.call c).1

/-- A slice in execution is the full quota of a pending scheduler. -/
structure Steady (p : Play) : Prop where
  live : p.scheduler.Live
  slice : ∀ n, p.slice = some n →
    p.scheduler.pending ≠ 0 ∧ p.scheduler.sliceId ≠ 0 ∧ n = p.scheduler.quota

def due (p : Play) : ℕ :=
  p.steps + p.scheduler.remaining + if p.scheduler.rearm = 0 then 0 else activationLength

theorem start_steady : start.Steady :=
  ⟨reset_live, fun _ h ↦ absurd h (Option.some_ne_none _).symm⟩

theorem request_steady (h : p.Steady) (hid : p.Allowed .request) :
    (p.call .request).2 = true ∧ (p.call .request).1.Steady := by
  have heq := request_eq h.live hid
  refine ⟨congrArg Prod.snd heq, request_live h.live hid, ?_⟩
  intro n hn
  obtain ⟨hpending, hslice, hquota⟩ := h.slice n hn
  rw [if_pos hpending] at heq
  rw [call, heq]
  exact ⟨hpending, hslice, hquota⟩

theorem beginSlice_steady (h : p.Steady) (hbegin : p.Allowed .beginSlice) :
    (p.call .beginSlice).2 = true ∧ (p.call .beginSlice).1.Steady := by
  obtain ⟨-, hpending, hid⟩ := hbegin
  have heq := beginSlice_eq h.live hpending hid
  constructor
  · rw [call, heq]
    exact bne_iff_ne.mpr (Nat.ne_of_gt (h.live.quota_pos hpending))
  · refine ⟨beginSlice_live h.live hpending hid, ?_⟩
    intro n hn
    rw [call, heq] at hn ⊢
    exact ⟨hpending, Nat.succ_ne_zero _, (Option.some.inj hn).symm⟩

theorem endSlice_next (h : p.Steady) (hend : p.Allowed .endSlice) : p.inSlice = p.scheduler.quota ∧
    ∃ next, p.scheduler.finish p.scheduler.quota false = some next ∧ next.Live ∧
      p.call .endSlice = ({ scheduler := next, slice := none, steps := p.steps + p.scheduler.quota }, true) := by
  obtain ⟨hsome, hid⟩ := hend
  obtain ⟨n, hn⟩ := Option.ne_none_iff_exists'.mp hsome
  obtain ⟨hpending, hslice, hquota⟩ := h.slice n hn
  have hin : p.inSlice = p.scheduler.quota := by rw [inSlice, hn, Option.getD_some, hquota]
  have hnext := finish_eq p.scheduler hid
  have hlive := finish_live h.live hpending hslice hid hnext
  refine ⟨hin, _, hnext, hlive, ?_⟩
  rw [call, hin, endSlice_eq h.live hpending hnext hlive.valid]

theorem call_steady (h : p.Steady) (hc : p.Allowed c) : (p.call c).2 = true ∧ (p.call c).1.Steady := by
  cases c with
  | request => exact request_steady h hc
  | beginSlice => exact beginSlice_steady h hc
  | endSlice =>
    obtain ⟨-, next, -, hlive, heq⟩ := endSlice_next h hc
    rw [heq]
    exact ⟨rfl, hlive, fun _ hn ↦ absurd hn (Option.some_ne_none _).symm⟩

theorem request_due (h : p.Steady) (hid : p.Allowed .request) :
    p.steps + p.inSlice + activationLength ≤ (p.call .request).1.due := by
  have heq := request_eq h.live hid
  rw [due, call, heq]
  cases hn : p.slice with
  | none =>
    have hin : p.inSlice = 0 := by rw [inSlice, hn, Option.getD_none]
    rw [hin]
    by_cases hpending : p.scheduler.pending = 0
    · rw [if_neg (not_not_intro hpending)]
      dsimp only
      omega
    · rw [if_pos hpending]
      dsimp only
      rw [if_neg Nat.one_ne_zero]
      omega
  | some n =>
    obtain ⟨hpending, -, hquota⟩ := h.slice n hn
    have hin : p.inSlice = p.scheduler.quota := by rw [inSlice, hn, Option.getD_some, hquota]
    have hle := quota_le p.scheduler
    rw [hin, if_pos hpending]
    dsimp only
    rw [if_neg Nat.one_ne_zero]
    omega

theorem call_due (h : p.Steady) (hc : p.Allowed c) : p.due ≤ (p.call c).1.due := by
  cases c with
  | request =>
    have heq := request_eq h.live hc
    have hidle := h.live.pending_iff
    rw [due, due, call, heq]
    dsimp only
    split_ifs with hrearm hpending <;> simp_all
  | beginSlice =>
    have heq := beginSlice_eq h.live hc.2.1 hc.2.2
    have hsame : (p.call .beginSlice).1.due = p.due := by rw [due, due, call, heq]
    exact Nat.le_of_eq hsame.symm
  | endSlice =>
    obtain ⟨-, next, hnext, -, heq⟩ := endSlice_next h hc
    have hle := quota_le p.scheduler
    rw [heq, due, due]
    rw [finish_eq p.scheduler hc.2, Option.some_inj] at hnext
    subst hnext
    dsimp only
    split_ifs <;> simp_all <;> omega

theorem Reaches.steady (h : Reaches p q) (hp : p.Steady) : q.Steady := by
  induction h with
  | refl => exact hp
  | call _ hc ih => exact (call_steady ih hc).2

theorem Reaches.due_le (h : Reaches p q) (hp : p.Steady) : p.due ≤ q.due := by
  induction h with
  | refl => exact Nat.le_refl _
  | call hreach hc ih => exact Nat.le_trans ih (call_due (hreach.steady hp) hc)

theorem Steady.due_idle (h : p.Steady) (hpending : p.scheduler.pending = 0) : p.due = p.steps := by
  have hrearm : p.scheduler.rearm = 0 :=
    Decidable.byContradiction fun hne ↦ h.live.deferred.2.2.2.2.1 hne hpending
  have hremaining : p.scheduler.remaining = 0 :=
    Decidable.byContradiction fun hne ↦ h.live.pending_iff.mpr hne hpending
  rw [due, hrearm, hremaining, if_pos rfl, Nat.add_zero]

/-- Deferred scheduling grants full activations. -/
theorem activations_granted (h : Reaches start p) :
    p.scheduler.Valid ∧ (∀ c, p.Allowed c → (p.call c).2 = true) ∧
    (p.Allowed .request → ∀ q, Reaches (p.call .request).1 q → q.scheduler.pending = 0 →
      p.steps + p.inSlice + 1000000 ≤ q.steps) ∧
    ∀ (s : Scheduler) (executed : ℕ) (hint fault : Bool),
      (s.endSlice executed hint fault).2 = false → (s.endSlice executed hint fault).1 = s := by
  have hsteady := h.steady start_steady
  refine ⟨hsteady.live.valid, fun c hc ↦ (call_steady hsteady hc).1, ?_, endSlice_rejected⟩
  intro hc q hreach hidle
  have hnext := (call_steady hsteady hc).2
  calc p.steps + p.inSlice + 1000000
      ≤ (p.call .request).1.due := request_due hsteady hc
    _ ≤ q.due := hreach.due_le hnext
    _ = q.steps := (hreach.steady hnext).due_idle hidle

/-- The second request of this play comes in the first slice. -/
theorem activations_granted_rearm :
    ∃ p : Play, p.inSlice = 4096 ∧ p.scheduler.Valid ∧
      ∀ q, Reaches (p.call .request).1 q → q.scheduler.pending = 0 → 1004096 ≤ q.steps := by
  have hone : Reaches start (start.call .request).1 := .call .refl (by decide)
  have htwo : Reaches start ((start.call .request).1.call .beginSlice).1 := .call hone (by decide)
  have h := activations_granted htwo
  exact ⟨_, by decide, h.1, fun q hq hidle ↦ h.2.2.1 (by decide) q hq hidle⟩

end Play

end Cdj2000Emulator.Board
