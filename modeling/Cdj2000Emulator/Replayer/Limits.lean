import Cdj2000Emulator.Replayer.Passes

namespace Cdj2000Emulator.Replayer

open Library.GuardedLoop C674x.State Transcript
open Board (Scheduler)

def ReplayLimits.after (limits : ReplayLimits) (steps : ℕ) : ReplayLimits :=
  { limits with stepsRemaining := limits.stepsRemaining - steps }

namespace Replay

variable {σ : Type} {setup : Setup} {devices : Devices σ} {given : ReplayLimits} {s t : Replay σ}
  {event : RecordedEvent}

def under (given : ReplayLimits) (s : Replay σ) : Replay σ := { s with limits := given.after s.steps }

def Spent (given : ReplayLimits) (s : Replay σ) : Prop := (s.under given).limited.isSome ∧ s.globals.cpu.fault = none

theorem pass_under (s : Replay σ) : (s.under given).pass setup devices = (s.pass setup devices).map (under given) := by
  have hcount (g : Globals σ) : (s.under given).count g = (s.count g).under given := by
    unfold count under ReplayLimits.after
    rw [Nat.sub_sub]
  unfold pass
  have hglobals : (s.under given).globals = s.globals := rfl
  rw [hglobals]
  cases s.globals.attempt setup devices with
  | refused g why => rfl
  | counted g why =>
    cases why with
    | none => exact congrArg Turn.go (hcount g)
    | some why => exact congrArg (Turn.leave · why) (hcount g)

def Handled.map (f : Replay σ → Replay σ) : Handled σ → Handled σ
  | .mismatch => .mismatch
  | .unsupported => .unsupported
  | .fault s => .fault (f s)
  | .taken s quota trigger => .taken (f s) quota trigger

theorem handle_under (s : Replay σ) (event : RecordedEvent) :
    (s.under given).handle devices event = (s.handle devices event).map (under given) := by
  unfold handle
  split
  · unfold dspSchedule
    simp only [apply_ite (Handled.map (under given))]
    rfl
  · unfold dspSliceBegin
    simp only [apply_ite (Handled.map (under given))]
    rfl
  · unfold dspSliceEnd
    simp only [apply_ite (Handled.map (under given))]
    rfl
  · unfold bootPhaseEvent
    simp only [apply_ite (Handled.map (under given))]
    rfl
  · unfold hostControlWrite
    simp only [apply_ite (Handled.map (under given))]
    rfl
  · unfold hostAddressWrite
    simp only [apply_ite (Handled.map (under given))]
    rfl
  · unfold hostDataWrite
    simp only [apply_ite (Handled.map (under given))]
    rfl
  · unfold hostDataWrite
    simp only [apply_ite (Handled.map (under given))]
    rfl
  · have hsame : (s.under given).globals = s.globals := rfl
    unfold hostDataRead
    rw [hsame]
    dsimp only
    cases devices.hostMemory s.globals.devices s.globals.hpiAddress with
    | none => rfl
    | some value =>
      simp only [apply_ite (Handled.map (under given))]
      rfl
  · have hsame : (s.under given).globals = s.globals := rfl
    unfold dspHpicWrite
    rw [hsame]
    dsimp only
    cases s.globals.hpicEvents with
    | nil => rfl
    | cons actual rest =>
      simp only [apply_ite (Handled.map (under given))]
      rfl
  · unfold dspStop
    simp only [apply_ite (Handled.map (under given))]
    rfl
  · rfl
  · rfl
  · rfl
  · rfl

/-- A replay that no limit stops. -/
structure Free (s : Replay σ) : Prop where
  packets : s.limits.packetLimit = 0
  cycles : s.limits.cycleLimit = 0
  steps : s.limits.stepsRemaining ≠ 0

theorem Free.limited (h : s.Free) : s.limited = none := by
  unfold Replay.limited limitReached
  rw [if_neg h.steps, if_neg fun hpackets ↦ hpackets.1 h.packets, if_neg fun hcycles ↦ hcycles.1 h.cycles]

theorem steps_lt (h : (s.under given).limited = none) : s.steps < given.stepsRemaining := by
  by_contra hspent
  unfold limited limitReached at h
  have hzero : (s.under given).limits.stepsRemaining = 0 := Nat.sub_eq_zero_of_le (Nat.le_of_not_lt hspent)
  rw [if_pos hzero] at h
  cases h

theorem check_eq (hbreak : setup.breakpoint = 0) : s.check setup = s.limited.map .limit := by
  unfold check
  cases s.limited with
  | none => exact if_neg fun h ↦ h.1 hbreak
  | some limit => rfl

theorem Follows.free (h : Follows s t) (k : t.Free) : s.Free := by
  have hlimits := h.limits
  refine ⟨?_, ?_, fun hzero ↦ k.steps ?_⟩
  · exact (congrArg ReplayLimits.packetLimit hlimits).symm.trans k.packets
  · exact (congrArg ReplayLimits.cycleLimit hlimits).symm.trans k.cycles
  · rw [hlimits, hzero]
    exact Nat.zero_sub _

variable {quota : ℕ}

theorem run_check (hbreak : setup.breakpoint = 0) (hfree : (s.runQuota setup devices quota).last.Free) :
    check setup (s.runQuota setup devices quota).last = none := by
  rw [check_eq hbreak, hfree.limited]
  rfl

theorem run_clear (hbreak : setup.breakpoint = 0) (hfree : (s.runQuota setup devices quota).last.Free)
    (clear : ∀ x ∈ (s.runQuota setup devices quota).visited, (x.under given).limited = none) :
    (s.under given).runQuota setup devices quota = (s.runQuota setup devices quota).map (under given) := by
  refine loop_clear pass_under (run_check hbreak hfree) fun x hx ↦ ?_
  rw [check_eq hbreak, clear x hx]
  rfl

/-- A run that the limits cut off before one of its passes. -/
structure Cut (given : ReplayLimits) (visited front : List (Replay σ)) (x : Replay σ)
    (rest : List (Replay σ)) : Prop where
  visited : visited = front ++ x :: rest
  clear : ∀ y ∈ front, (y.under given).limited = none
  spent : x.Spent given

theorem run_cut (hbreak : setup.breakpoint = 0) {front rest : List (Replay σ)} {x : Replay σ}
    (hcut : Cut given (s.runQuota setup devices quota).visited front x rest) :
    ∃ why, (s.under given).runQuota setup devices quota = ⟨front.map (under given), x.under given, why⟩ := by
  obtain ⟨limit, hlimit⟩ := Option.isSome_iff_exists.mp hcut.spent.1
  refine ⟨.limit limit, loop_first pass_under hcut.visited (fun y hy ↦ ?_) ?_⟩
  · rw [check_eq hbreak, hcut.clear y hy]
    rfl
  · rw [check_eq hbreak, hlimit]
    rfl

theorem run_cases (setup : Setup) (devices : Devices σ) (quota : ℕ) (given : ReplayLimits)
    (hfault : s.globals.cpu.fault = none) :
    (∀ x ∈ (s.runQuota setup devices quota).visited, (x.under given).limited = none) ∨
      ∃ front x rest, Cut given (s.runQuota setup devices quota).visited front x rest := by
  cases hfind : (s.runQuota setup devices quota).visited.find? fun x ↦ (x.under given).limited.isSome with
  | none =>
    refine .inl fun x hx ↦ ?_
    have hnone := List.find?_eq_none.mp hfind x hx
    simpa using hnone
  | some x =>
    obtain ⟨hlimit, front, rest, hvisited, hclear⟩ := List.find?_eq_some_iff_append.mp hfind
    refine .inr ⟨front, x, rest, hvisited, fun y hy ↦ ?_, hlimit, ?_⟩
    · simpa using hclear y hy
    · exact visited_running quota hfault x (hvisited ▸ List.mem_append_right front List.mem_cons_self)

theorem executed_eq (hfree : (s.runQuota setup devices quota).last.Free)
    (clear : ∀ x ∈ (s.runQuota setup devices quota).visited, (x.under given).limited = none) :
    (s.under given).limits.stepsRemaining - ((s.runQuota setup devices quota).last.under given).limits.stepsRemaining =
      s.limits.stepsRemaining - (s.runQuota setup devices quota).last.limits.stepsRemaining := by
  have hfollows := run_follows setup devices s quota
  have hsteps := hfollows.steps
  have hleft : (s.runQuota setup devices quota).last.limits.stepsRemaining =
      s.limits.stepsRemaining - ((s.runQuota setup devices quota).last.steps - s.steps) :=
    congrArg ReplayLimits.stepsRemaining hfollows.limits
  have hpositive := hfree.steps
  change given.stepsRemaining - s.steps - (given.stepsRemaining - (s.runQuota setup devices quota).last.steps) = _
  have hwithin : (s.runQuota setup devices quota).last.steps = s.steps ∨
      (s.runQuota setup devices quota).last.steps ≤ given.stepsRemaining := by
    have hcases : (s.runQuota setup devices quota).visited = [] ∧ (s.runQuota setup devices quota).last = s ∨
        ∃ x ∈ (s.runQuota setup devices quota).visited,
          (s.runQuota setup devices quota).last = (x.pass setup devices).state := last_cases
    rcases hcases with ⟨-, hlast⟩ | ⟨x, hx, hlast⟩
    · exact .inl (congrArg steps hlast)
    · refine .inr ?_
      have hmore := steps_lt (clear x hx)
      have hnext := pass_steps setup devices x
      have hsame : (s.runQuota setup devices quota).last.steps = (x.pass setup devices).state.steps :=
        congrArg steps hlast
      omega
  omega

theorem cut_steps {front rest : List (Replay σ)} {x : Replay σ}
    (hcut : Cut given (s.runQuota setup devices quota).visited front x rest) :
    (s.under given).limits.stepsRemaining - (x.under given).limits.stepsRemaining < quota := by
  have hfew : (s.runQuota setup devices quota).visited.length ≤ quota := visited_length_le
  rw [hcut.visited, List.length_append, List.length_cons] at hfew
  have hx : x.steps ≤ s.steps + front.length := by
    refine visited_le (f := steps) (fun {a b} hgo ↦ ?_) hcut.visited
    have hpass := pass_steps setup devices a
    rw [hgo] at hpass
    exact hpass
  change given.stepsRemaining - s.steps - (given.stepsRemaining - x.steps) < quota
  omega

def Outcome.map (f : Replay σ → Replay σ) : Outcome σ → Outcome σ
  | .next s => .next (f s)
  | .leave s => .leave (f s)
  | .exhausted s => .exhausted (f s)
  | .error s => .error (f s)

def Moment.under (given : ReplayLimits) (m : Moment σ) : Moment σ := ⟨m.act, m.state.under given⟩

theorem passes_map (visited : List (Replay σ)) :
    passes (visited.map (Replay.under given)) = (passes visited).map (Moment.under given) := by
  unfold passes
  rw [List.map_map, List.map_map]
  rfl

/-- Where a run was cut off at `x`, the limited replay goes on without the rest of it. -/
structure Behind (given : ReplayLimits) (x v l : Replay σ) : Prop where
  locals : l = { v with globals := x.globals, limits := given.after x.steps, steps := x.steps, reason := l.reason }
  pending : v.stopPending = true
  legacy : v.deferred = false
  sequence : v.globals.eventSequence = x.globals.eventSequence

/-- What the limited replay does beside the free one. -/
inductive Beside (given : ReplayLimits) (free bound : Outcome σ × List (Moment σ)) : Prop
  | same (eq : bound = (free.1.map (under given), free.2.map (Moment.under given)))
      (clear : ∀ m ∈ free.2, m.act = .pass ∧ (m.state.under given).limited = none)
  | stopped {visited front rest : List (Replay σ)} {x l : Replay σ} (log : free.2 = passes visited)
      (cut : Cut given visited front x rest) (deferred : x.deferred = true)
      (eq : bound = (.exhausted l, passes (front.map (under given)))) (globals : l.globals = x.globals)
      (steps : l.steps = x.steps)
  | behind {visited front rest : List (Replay σ)} {x v l : Replay σ} (log : free.2 = passes visited)
      (cut : Cut given visited front x rest) (deferred : x.deferred = false) (passed : Passed x v rest)
      (next : free.1 = .next v) (eq : bound = (.next l, passes (front.map (under given)))) (locals : Behind given x v l)

theorem clear_passes {visited : List (Replay σ)} (h : ∀ x ∈ visited, (x.under given).limited = none) :
    ∀ m ∈ passes visited, m.act = .pass ∧ (m.state.under given).limited = none := by
  intro m hm
  obtain ⟨x, hx, rfl⟩ := List.mem_map.mp hm
  exact ⟨rfl, h x hx⟩

theorem runTrigger_beside (given : ReplayLimits) (hbreak : setup.breakpoint = 0) (hfault : s.globals.cpu.fault = none)
    (hlegacy : s.deferred = false) (hfree : (s.runBudget setup devices).last.Free) :
    Beside given (s.runTrigger setup devices) ((s.under given).runTrigger setup devices) := by
  rcases run_cases setup devices cooperativeBudget given hfault with
    hclear | ⟨front, x, rest, hcut⟩
  · refine .same ?_ (clear_passes hclear)
    unfold runTrigger runBudget
    rw [run_clear hbreak hfree hclear]
    exact Prod.ext rfl (passes_map _)
  · obtain ⟨why, hrun⟩ := run_cut hbreak hcut
    have hx : x ∈ (s.runQuota setup devices cooperativeBudget).visited :=
      hcut.visited ▸ List.mem_append_right front List.mem_cons_self
    have hran := visited_ran x hx
    have hlast := run_ran setup devices s cooperativeBudget
    have hdeferred {t : Replay σ} (h : Ran s t) : t.deferred = false := by
      rw [h.locals]
      exact hlegacy
    have hbehind := hdeferred hlast
    refine .behind (v := { (s.runBudget setup devices).last with
        reason := (s.runBudget setup devices).why, stopPending := true })
      (l := { x.under given with reason := why, stopPending := true }) rfl hcut (hdeferred hran) ?_ rfl ?_ ?_
    · cases run_passed hfault hcut.visited with
      | counted counters steps => exact .counted counters steps
      | refused ended counters steps fault => exact .refused ended counters steps fault
    · unfold runTrigger runBudget
      rw [hrun]
    · refine ⟨?_, rfl, hbehind, hlast.sequence.trans hran.sequence.symm⟩
      unfold runBudget
      rw [hlast.locals, hran.locals]
      rfl

theorem slice_log : (s.slice setup devices quota).2 = passes (s.runQuota setup devices quota).visited := by
  unfold slice
  dsimp only
  generalize (if (s.runQuota setup devices quota).why = .phaseBudgetExhausted then Reason.deferredSliceBoundary
    else (s.runQuota setup devices quota).why) = reason
  split_ifs
  · rfl
  · rfl

theorem slice_beside (hbreak : setup.breakpoint = 0) (hfault : s.globals.cpu.fault = none)
    (hdeferred : s.deferred = true)
    (hspent : ¬s.Spent given) (hfree : (s.runQuota setup devices quota).last.Free) :
    Beside given (s.slice setup devices quota) ((s.under given).slice setup devices quota) := by
  rcases run_cases setup devices quota given hfault with
    hclear | ⟨front, x, rest, hcut⟩
  · refine .same ?_ ?_
    · unfold slice
      rw [run_clear hbreak hfree hclear]
      dsimp only [Finish.map]
      rw [executed_eq hfree hclear, passes_map]
      generalize (if (s.runQuota setup devices quota).why = .phaseBudgetExhausted then Reason.deferredSliceBoundary
        else (s.runQuota setup devices quota).why) = reason
      split_ifs with hbound hstop hstop
      · rfl
      · exact absurd hbound hstop
      · exact absurd hstop hbound
      · rfl
    · rw [slice_log]
      exact clear_passes hclear
  · obtain ⟨why, hrun⟩ := run_cut hbreak hcut
    have hx : x ∈ (s.runQuota setup devices quota).visited :=
      hcut.visited ▸ List.mem_append_right front List.mem_cons_self
    have hran := visited_ran x hx
    have hhint : x.globals.hpi.hint = false := by
      rcases entered hcut.visited with ⟨-, rfl⟩ | ⟨y, hy, hgo⟩
      · exact absurd hcut.spent hspent
      · have hrunning := visited_running quota hfault y (hcut.visited ▸ List.mem_append_left _ hy)
        exact (pass_go hrunning hgo).hint
    have hfew := cut_steps hcut
    refine .stopped (l := { x.under given with
        reason := if why = .phaseBudgetExhausted then .deferredSliceBoundary else why
        sliceExecuted := (s.under given).limits.stepsRemaining - (x.under given).limits.stepsRemaining
        stopPending := true
        sliceEndPending := true }) slice_log hcut ?_ ?_ rfl rfl
    · rw [hran.locals]
      exact hdeferred
    · unfold slice
      rw [hrun]
      dsimp only
      refine if_pos ⟨hfew.ne, ?_, hcut.spent.2⟩
      change (!x.globals.hpi.hint) = true
      rw [hhint]
      rfl

/-- What handling an event leaves alone. -/
structure Untouched (s t : Replay σ) : Prop where
  cpu : t.globals.cpu = s.globals.cpu
  limits : t.limits = s.limits
  steps : t.steps = s.steps
  deferred : t.deferred = s.deferred

/-- The states that handling an event can come to, with what it starts. -/
def Handled.All (P : Replay σ → ℕ → Bool → Prop) : Handled σ → Prop
  | .mismatch => True
  | .unsupported => True
  | .fault t => P t 0 false
  | .taken t quota trigger => P t quota trigger

theorem all_ite {P : Replay σ → ℕ → Bool → Prop} {c : Prop} [Decidable c] {a b : Handled σ}
    (h : c → a.All P)
    (k : ¬c → b.All P) : (if c then a else b).All P := by
  split_ifs with hc
  · exact h hc
  · exact k hc

def Starts (s : Replay σ) (event : RecordedEvent) (quota : ℕ) (trigger : Bool) : Prop :=
  (quota ≠ 0 → event.kind = some .dspSliceBegin ∧ s.deferred = true ∧ s.globals.cpu.fault = none) ∧
    (trigger = true → event.kind = some .bootPhase ∨ event.kind = some .hostControlWrite)

theorem starts_nothing : Starts s event 0 false := ⟨fun h ↦ absurd rfl h, fun h ↦ by cases h⟩

theorem handle_all (devices : Devices σ) (s : Replay σ) (event : RecordedEvent) :
    (s.handle devices event).All fun t quota trigger ↦ Untouched s t ∧ Starts s event quota trigger := by
  have hquiet {t : Replay σ} (h : Untouched s t) : Untouched s t ∧ Starts s event 0 false := ⟨h, starts_nothing⟩
  unfold handle
  split
  · exact all_ite (fun _ ↦ trivial) fun _ ↦ hquiet ⟨rfl, rfl, rfl, rfl⟩
  · next hkind =>
    refine all_ite (fun _ ↦ trivial) fun hready ↦ all_ite (fun _ ↦ trivial) fun _ ↦
      ⟨⟨rfl, rfl, rfl, rfl⟩, fun _ ↦ ⟨hkind, ?_, ?_⟩, fun h ↦ by cases h⟩
    · simp only [not_or] at hready
      simpa using hready.1
    · simp only [not_or] at hready
      simpa using hready.2.2.2.2.1
  · exact all_ite (fun _ ↦ trivial) fun _ ↦ all_ite (fun _ ↦ trivial) fun _ ↦ hquiet ⟨rfl, rfl, rfl, rfl⟩
  · next hkind =>
    exact all_ite (fun _ ↦ trivial) fun _ ↦ ⟨⟨rfl, rfl, rfl, rfl⟩, fun h ↦ absurd rfl h,
      fun _ ↦ .inl hkind⟩
  · next hkind =>
    exact all_ite (fun _ ↦ trivial) fun _ ↦ ⟨⟨rfl, rfl, rfl, rfl⟩, fun h ↦ absurd rfl h,
      fun _ ↦ .inr hkind⟩
  · exact all_ite (fun _ ↦ trivial) fun _ ↦ hquiet ⟨rfl, rfl, rfl, rfl⟩
  · exact all_ite (fun _ ↦ trivial) fun _ ↦ hquiet ⟨rfl, rfl, rfl, rfl⟩
  · exact all_ite (fun _ ↦ trivial) fun _ ↦ hquiet ⟨rfl, rfl, rfl, rfl⟩
  · unfold hostDataRead
    dsimp only
    cases devices.hostMemory s.globals.devices s.globals.hpiAddress with
    | none => trivial
    | some value => exact all_ite (fun _ ↦ trivial) fun _ ↦ hquiet ⟨rfl, rfl, rfl, rfl⟩
  · unfold dspHpicWrite
    dsimp only
    cases s.globals.hpicEvents with
    | nil => trivial
    | cons actual rest => exact all_ite (fun _ ↦ trivial) fun _ ↦ hquiet ⟨rfl, rfl, rfl, rfl⟩
  · exact all_ite (fun _ ↦ trivial) fun _ ↦
      all_ite (fun _ ↦ hquiet ⟨rfl, rfl, rfl, rfl⟩) fun _ ↦ hquiet ⟨rfl, rfl, rfl, rfl⟩
  · trivial
  · trivial
  · trivial
  · trivial

/-- What a recorded stop that is matched leaves. -/
structure Stopped (s : Replay σ) (event : RecordedEvent) (t : Replay σ) : Prop where
  packets : event.packets = s.globals.cpu.packets
  cycles : event.cycles = s.globals.cpu.cycles
  globals : t.globals = { s.globals with eventSequence := event.sequence }
  pending : t.stopPending = false
  limits : t.limits = s.limits
  steps : t.steps = s.steps
  expected : t.expected = s.expected

theorem dspStop_all (s : Replay σ) (event : RecordedEvent) :
    (s.dspStop event).All fun t quota trigger ↦ Stopped s event t ∧ quota = 0 ∧ trigger = false := by
  refine all_ite (fun _ ↦ trivial) fun hmatch ↦ ?_
  simp only [not_or, not_not] at hmatch
  obtain ⟨-, -, -, -, -, -, -, hpackets, hcycles, -⟩ := hmatch
  exact all_ite (fun _ ↦ ⟨⟨hpackets, hcycles, rfl, rfl, rfl, rfl, rfl⟩, rfl, rfl⟩)
    fun _ ↦ ⟨⟨hpackets, hcycles, rfl, rfl, rfl, rfl, rfl⟩, rfl, rfl⟩

theorem fault_of_dspStop {quota : ℕ} {trigger : Bool} (h : s.dspStop event = .taken t quota trigger) :
    s.globals.cpu.fault = none := by
  unfold dspStop at h
  dsimp only at h
  generalize (if s.globals.cpu.fault.isSome then s.globals.cpu.faultPc else s.globals.cpu.pc) = pc at h
  split_ifs at h with hmatch hfault
  simpa using hfault

/-- The loop over the lines goes on, or is left at a stop. -/
def Outcome.Good : Outcome σ → Prop
  | .next _ => True
  | .leave _ => True
  | .exhausted _ => False
  | .error _ => False

theorem mismatch_free (h : s.limited = none) : ¬(s.mismatch event).Good := by
  unfold mismatch
  rw [if_neg]
  · exact id
  · rintro ⟨hlimited, -⟩
    rw [h] at hlimited
    cases hlimited

theorem Untouched.spent (h : Untouched s t) : t.Spent given ↔ s.Spent given := by
  have hlimited : (t.under given).limited = (s.under given).limited := by
    unfold limited under
    dsimp only
    rw [h.steps, h.cpu]
  unfold Spent
  rw [hlimited, h.cpu]

theorem Untouched.free (h : Untouched s t) : t.Free ↔ s.Free := by
  constructor
  · rintro ⟨hp, hc, hs⟩
    exact ⟨h.limits ▸ hp, h.limits ▸ hc, h.limits ▸ hs⟩
  · rintro ⟨hp, hc, hs⟩
    exact ⟨h.limits.symm ▸ hp, h.limits.symm ▸ hc, h.limits.symm ▸ hs⟩

theorem beside_quiet (given : ReplayLimits) (o : Outcome σ) : Beside given (o, []) (o.map (under given), []) := by
  refine .same rfl fun m hm ↦ ?_
  cases hm

theorem slice_free (hgood : (s.slice setup devices quota).1.Good)
    (hnext : ∀ t, (s.slice setup devices quota).1 = .next t → t.Free) :
    (s.runQuota setup devices quota).last.Free := by
  unfold slice at hgood hnext
  dsimp only at hgood hnext
  generalize (if (s.runQuota setup devices quota).why = .phaseBudgetExhausted then Reason.deferredSliceBoundary
    else (s.runQuota setup devices quota).why) = reason at hgood hnext
  split_ifs at hgood hnext
  · exact hgood.elim
  · obtain ⟨hp, hc, hs⟩ := hnext _ rfl
    exact ⟨hp, hc, hs⟩

theorem trigger_beside (hbreak : setup.breakpoint = 0) (hspent : ¬s.Spent given) (hlimited : s.limited = none)
    (hgood : (s.trigger setup devices event).1.Good)
    (hnext : ∀ t, (s.trigger setup devices event).1 = .next t → t.Free) :
    Beside given (s.trigger setup devices event) ((s.under given).trigger setup devices event) := by
  unfold trigger at hgood hnext ⊢
  have hsame : (s.under given).globals = s.globals := rfl
  rw [hsame]
  dsimp only at hgood hnext ⊢
  by_cases hidle : s.deferred ∧ (!s.globals.dspStarted ∨ s.globals.dspHalted)
  · rw [if_pos hidle, if_pos (show (s.under given).deferred ∧
      (!s.globals.dspStarted ∨ s.globals.dspHalted) from hidle)]
    exact beside_quiet given (.next s)
  rw [if_neg hidle] at hgood hnext ⊢
  rw [if_neg (show ¬((s.under given).deferred ∧ (!s.globals.dspStarted ∨ s.globals.dspHalted)) from hidle)]
  by_cases hbusy : s.stopPending ∨ s.globals.cpu.fault.isSome
  · rw [if_pos hbusy] at hgood
    exact absurd hgood (mismatch_free hlimited)
  rw [if_neg hbusy] at hgood hnext ⊢
  rw [if_neg (show ¬((s.under given).stopPending ∨ s.globals.cpu.fault.isSome) from hbusy)]
  have hfault : s.globals.cpu.fault = none := by
    simpa using (not_or.mp hbusy).2
  by_cases hdeferred : s.deferred = true
  · rw [if_pos hdeferred] at hgood hnext ⊢
    rw [if_pos (show (s.under given).deferred = true from hdeferred)]
    rcases hrequest : s.globals.scheduler.request with ⟨scheduler, _ | _⟩
    · rw [hrequest] at hgood
      exact absurd hgood (mismatch_free hlimited)
    · exact beside_quiet given (.next { s with globals := { s.globals with scheduler }, schedulePending := true })
  rw [if_neg hdeferred] at hgood hnext ⊢
  rw [if_neg (show ¬(s.under given).deferred = true from hdeferred)]
  rw [hlimited] at hgood hnext ⊢
  have hopen : (s.under given).limited = none := by
    cases hbound : (s.under given).limited with
    | none => rfl
    | some limit => exact absurd ⟨by rw [hbound]; rfl, hfault⟩ hspent
  rw [hopen]
  have hfree : (s.runBudget setup devices).last.Free := by
    obtain ⟨hp, hc, hs⟩ := hnext _ rfl
    exact ⟨hp, hc, hs⟩
  exact runTrigger_beside given hbreak hfault (Bool.eq_false_iff.mpr hdeferred) hfree

theorem carryOn_beside (hbreak : setup.breakpoint = 0) {quota : ℕ} {trigger : Bool}
    (hslice : quota ≠ 0 → s.deferred = true ∧ s.globals.cpu.fault = none) (hspent : ¬s.Spent given)
    (hlimited : s.limited = none)
    (hgood : (s.carryOn setup devices event quota trigger).1.Good)
    (hnext : ∀ t, (s.carryOn setup devices event quota trigger).1 = .next t → t.Free) :
    Beside given (s.carryOn setup devices event quota trigger)
      ((s.under given).carryOn setup devices event quota trigger) := by
  unfold carryOn at hgood hnext ⊢
  dsimp only at hgood hnext ⊢
  by_cases hshown : event.bootPhase ≠ s.globals.bootPhase ∨ event.hint ≠ s.globals.hpi.hint ∨
      event.dspint ≠ s.globals.hpi.dspint
  · rw [if_pos hshown] at hgood
    exact absurd hgood (mismatch_free hlimited)
  rw [if_neg hshown] at hgood hnext ⊢
  rw [if_neg (show ¬(event.bootPhase ≠ (s.under given).globals.bootPhase ∨
    event.hint ≠ (s.under given).globals.hpi.hint ∨
      event.dspint ≠ (s.under given).globals.hpi.dspint) from hshown)]
  by_cases hstops : setup.connectedStopLimit ≠ 0 ∧ setup.connectedStopLimit ≤ s.verifiedStops ∧
    event.kind = some .dspStop
  · rw [if_pos hstops, if_pos (show setup.connectedStopLimit ≠ 0 ∧
      setup.connectedStopLimit ≤ (s.under given).verifiedStops ∧
      event.kind = some .dspStop from hstops)]
    exact beside_quiet given (.leave s)
  rw [if_neg hstops] at hgood hnext ⊢
  rw [if_neg (show ¬(setup.connectedStopLimit ≠ 0 ∧ setup.connectedStopLimit ≤ (s.under given).verifiedStops ∧
    event.kind = some .dspStop) from hstops)]
  by_cases hquota : quota ≠ 0
  · obtain ⟨hdeferred, hfault⟩ := hslice hquota
    rw [if_pos hquota] at hgood hnext ⊢
    rw [if_pos hquota]
    exact slice_beside hbreak hfault hdeferred hspent (slice_free hgood hnext)
  rw [if_neg hquota] at hgood hnext ⊢
  rw [if_neg hquota]
  by_cases htrigger : trigger = true
  · rw [if_pos htrigger] at hgood hnext ⊢
    rw [if_pos htrigger]
    exact trigger_beside hbreak hspent hlimited hgood hnext
  · rw [if_neg htrigger, if_neg htrigger]
    exact beside_quiet given (.next s)

end Replay

end Cdj2000Emulator.Replayer
