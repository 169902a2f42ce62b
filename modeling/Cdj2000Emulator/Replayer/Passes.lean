import Cdj2000Emulator.C674x.Counters
import Cdj2000Emulator.Replayer.ExternalEvents

namespace Cdj2000Emulator.Replayer

open Library.GuardedLoop C674x.State C674x.Transfer C674x.Operands C674x.Interrupt C674x.Step C674x.Counters Transcript

variable {σ : Type} {setup : Setup} {devices : Devices σ}

/-- The counters after a step that is counted. -/
structure Advances (a b : Cpu) : Prop where
  packets : a.packets ≤ b.packets
  cycles : a.cycles < b.cycles

/-- The counters do not move. -/
structure Stays (a b : Cpu) : Prop where
  packets : b.packets = a.packets
  cycles : b.cycles = a.cycles

section Attempt

variable {g g' : Globals σ} {why : Option Reason} {reason : Reason}

theorem functionalAudioTick_stays (setup : Setup) (devices : Devices σ) (g : Globals σ) :
    Stays g.cpu (g.functionalAudioTick setup devices).1.cpu ∧
    ((g.functionalAudioTick setup devices).2 = true → (g.functionalAudioTick setup devices).1.cpu.fault =
    g.cpu.fault) := by
  unfold Globals.functionalAudioTick
  split_ifs
  · exact ⟨⟨rfl, rfl⟩, fun _ ↦ rfl⟩
  · rcases devices.advanceFunctionalMcaspSlots g.devices with ⟨state, _ | _⟩
    · refine ⟨⟨rfl, rfl⟩, fun h ↦ ?_⟩
      cases h
    · exact ⟨⟨rfl, rfl⟩, fun _ ↦ rfl⟩

theorem afterStep_stays (setup : Setup) (devices : Devices σ) (g : Globals σ) :
    Stays g.cpu (g.afterStep setup devices).1.cpu ∧
    ((g.afterStep setup devices).2 = none →
      (g.afterStep setup devices).1.cpu.fault = g.cpu.fault ∧ (g.afterStep setup devices).1.hpi.hint = false) := by
  unfold Globals.afterStep
  split_ifs with hspi
  · refine ⟨⟨rfl, rfl⟩, fun h ↦ ?_⟩
    cases h
  · have htick := functionalAudioTick_stays setup devices { g with devices := devices.pscTick g.devices }
    rcases hrun : { g with devices := devices.pscTick g.devices }.functionalAudioTick setup devices with ⟨t, _ | _⟩
    · rw [hrun] at htick ⊢
      refine ⟨htick.1, fun h ↦ ?_⟩
      cases h
    · rw [hrun] at htick ⊢
      refine ⟨htick.1, fun h ↦ ⟨htick.2 rfl, ?_⟩⟩
      cases hhint : t.hpi.hint with
      | false => rfl
      | true => simp [hhint] at h

theorem attempt_counted (h : g.attempt setup devices = .counted g' why) (hfault : g.cpu.fault = none) :
    Advances g.cpu g'.cpu ∧ (why = none → g'.cpu.fault = none ∧ g'.hpi.hint = false) := by
  unfold Globals.attempt at h
  dsimp only at h
  generalize devices.cpuPending (devices.deliverEdmaNotifications g.devices) = pending at h
  have hanswer : Answers (tally g.cpu) (interrupt setup.functionalTiming g.cpu pending) :=
      interrupt_answers hfault pending
  have hcycles : (interrupt setup.functionalTiming g.cpu pending).1.cycles = g.cpu.cycles :=
    congrArg Pipeline.cycles (C674x.Boundary.interrupt_pipeline pending)
  rcases hrun : interrupt setup.functionalTiming g.cpu pending with ⟨cpu, _ | _⟩
  · rw [hrun] at h
    cases h
  · rw [hrun] at h hanswer hcycles
    dsimp only at h
    split_ifs at h with haccepted
    cases h
    obtain ⟨hpackets, hrunning, hlater⟩ := step_counts haccepted
    obtain ⟨hstays, hgoes⟩ := afterStep_stays setup devices { g with
      toHardware := (step setup.arithmetic (devices.bus g.bootPhase cpu) setup.functionalTiming
        { g.toHardware with devices := devices.deliverEdmaNotifications g.devices } cpu).bus
      cpu := (step setup.arithmetic (devices.bus g.bootPhase cpu) setup.functionalTiming
        { g.toHardware with devices := devices.deliverEdmaNotifications g.devices } cpu).cpu }
    have hbefore : cpu.packets = g.cpu.packets := hanswer.packets
    have hcyclesBefore : cpu.cycles = g.cpu.cycles := hcycles
    refine ⟨⟨?_, ?_⟩, fun hnone ↦ ?_⟩
    · rw [hstays.packets]
      exact hbefore ▸ hpackets ▸ Nat.le_succ cpu.packets
    · rw [hstays.cycles]
      exact hcyclesBefore ▸ hlater
    · obtain ⟨hfree, hhint⟩ := hgoes hnone
      exact ⟨hfree.trans hrunning, hhint⟩

theorem attempt_refused (h : g.attempt setup devices = .refused g' reason) (hfault : g.cpu.fault = none) :
    Stays g.cpu g'.cpu ∧ g'.cpu.fault.isSome := by
  unfold Globals.attempt at h
  dsimp only at h
  generalize devices.cpuPending (devices.deliverEdmaNotifications g.devices) = pending at h
  have hanswer : Answers (tally g.cpu) (interrupt setup.functionalTiming g.cpu pending) :=
      interrupt_answers hfault pending
  have hcycles : (interrupt setup.functionalTiming g.cpu pending).1.cycles = g.cpu.cycles :=
    congrArg Pipeline.cycles (C674x.Boundary.interrupt_pipeline pending)
  rcases hrun : interrupt setup.functionalTiming g.cpu pending with ⟨cpu, _ | _⟩
  · rw [hrun] at h hanswer hcycles
    cases h
    exact ⟨⟨hanswer.packets, hcycles⟩, hanswer.refused rfl⟩
  · rw [hrun] at h hanswer hcycles
    dsimp only at h
    split_ifs at h with haccepted
    cases h
    obtain ⟨hpackets, hsame, hstopped⟩ := step_refused (Bool.eq_false_iff.mpr haccepted)
    exact ⟨⟨hpackets.trans hanswer.packets, hsame.trans hcycles⟩, hstopped⟩

end Attempt

namespace Replay

variable {s t : Replay σ}

/-- What the steps between two states leave: the limits count them, and the mode stays. -/
structure Follows (s t : Replay σ) : Prop where
  steps : s.steps ≤ t.steps
  limits : t.limits = { s.limits with stepsRemaining := s.limits.stepsRemaining - (t.steps - s.steps) }
  deferred : t.deferred = s.deferred

theorem Follows.refl (s : Replay σ) : Follows s s := by
  refine ⟨Nat.le_refl _, ?_, rfl⟩
  rw [Nat.sub_self, Nat.sub_zero]

theorem Follows.trans {a b c : Replay σ} (h : Follows a b) (k : Follows b c) : Follows a c := by
  refine ⟨h.steps.trans k.steps, ?_, k.deferred.trans h.deferred⟩
  have hsteps := h.steps
  have hlater := k.steps
  have hsum : c.steps - a.steps = (b.steps - a.steps) + (c.steps - b.steps) := by omega
  rw [k.limits, h.limits, hsum, Nat.sub_add_eq]

/-- A change of what neither counts nor is the mode. -/
theorem Follows.of_eq (hsteps : t.steps = s.steps) (hlimits : t.limits = s.limits)
    (hdeferred : t.deferred = s.deferred) :
    Follows s t := by
  refine ⟨hsteps.ge, ?_, hdeferred⟩
  rw [hsteps, Nat.sub_self, Nat.sub_zero, hlimits]

theorem pass_follows : Follows s (s.pass setup devices).state := by
  have hcount (g : Globals σ) : Follows s (s.count g) := by
    refine ⟨Nat.le_succ _, ?_, rfl⟩
    simp only [count, Nat.add_sub_cancel_left]
  unfold pass
  cases s.globals.attempt setup devices with
  | refused g why => exact .of_eq rfl rfl rfl
  | counted g why =>
    cases why with
    | none => exact hcount g
    | some why => exact hcount g

theorem pass_steps (setup : Setup) (devices : Devices σ) (s : Replay σ) :
    (s.pass setup devices).state.steps ≤ s.steps + 1 := by
  unfold pass
  cases s.globals.attempt setup devices with
  | refused g why => exact Nat.le_succ _
  | counted g why =>
    cases why with
    | none => exact Nat.le_refl _
    | some why => exact Nat.le_refl _

/-- What a run leaves of the state it began in. -/
structure Ran (s t : Replay σ) : Prop where
  locals : t = { s with globals := t.globals, limits := t.limits, steps := t.steps }
  sequence : t.globals.eventSequence = s.globals.eventSequence

theorem Ran.refl (s : Replay σ) : Ran s s := ⟨rfl, rfl⟩

theorem Ran.trans {a b c : Replay σ} (h : Ran a b) (k : Ran b c) : Ran a c := by
  refine ⟨?_, k.sequence.trans h.sequence⟩
  rw [k.locals, h.locals]

theorem afterStep_sequence (g : Globals σ) : (g.afterStep setup devices).1.eventSequence = g.eventSequence := by
  unfold Globals.afterStep
  split_ifs
  · rfl
  · have htick (g : Globals σ) : (g.functionalAudioTick setup devices).1.eventSequence = g.eventSequence := by
      unfold Globals.functionalAudioTick
      split_ifs
      · rfl
      · rcases devices.advanceFunctionalMcaspSlots g.devices with ⟨state, _ | _⟩
        · rfl
        · rfl
    have hticked := htick { g with devices := devices.pscTick g.devices }
    rcases hrun : { g with devices := devices.pscTick g.devices }.functionalAudioTick setup devices with ⟨t, _ | _⟩
    · rw [hrun] at hticked ⊢
      exact hticked
    · rw [hrun] at hticked ⊢
      exact hticked

def attempted : Attempt σ → Globals σ
  | .refused g _ => g
  | .counted g _ => g

theorem attempt_sequence (setup : Setup) (devices : Devices σ) (g : Globals σ) :
    (attempted (g.attempt setup devices)).eventSequence = g.eventSequence := by
  unfold Globals.attempt
  dsimp only
  rcases interrupt setup.functionalTiming g.cpu
      (devices.cpuPending (devices.deliverEdmaNotifications g.devices)) with ⟨cpu, _ | _⟩
  · rfl
  · dsimp only
    split_ifs
    · exact afterStep_sequence _
    · rfl

theorem pass_ran (setup : Setup) (devices : Devices σ) (s : Replay σ) : Ran s (s.pass setup devices).state := by
  have hsequence := attempt_sequence setup devices s.globals
  unfold pass
  cases hattempt : s.globals.attempt setup devices with
  | refused g why =>
    rw [hattempt] at hsequence
    exact ⟨rfl, hsequence⟩
  | counted g why =>
    rw [hattempt] at hsequence
    cases why with
    | none => exact ⟨rfl, hsequence⟩
    | some why => exact ⟨rfl, hsequence⟩

/-- A pass that another one may follow. -/
structure Goes (s t : Replay σ) : Prop where
  counters : Advances s.globals.cpu t.globals.cpu
  steps : t.steps = s.steps + 1
  fault : t.globals.cpu.fault = none
  hint : t.globals.hpi.hint = false

/-- A pass that leaves its run, counted or refused. -/
inductive Leaves (s t : Replay σ) : Prop
  | counted (counters : Advances s.globals.cpu t.globals.cpu) (steps : t.steps = s.steps + 1)
  | refused (counters : Stays s.globals.cpu t.globals.cpu) (steps : t.steps = s.steps)
      (fault : t.globals.cpu.fault.isSome)

theorem pass_go (h : s.globals.cpu.fault = none) (hgo : s.pass setup devices = .go t) : Goes s t := by
  unfold pass at hgo
  cases hattempt : s.globals.attempt setup devices with
  | refused g why =>
    rw [hattempt] at hgo
    cases hgo
  | counted g why =>
    rw [hattempt] at hgo
    cases why with
    | none =>
      cases hgo
      obtain ⟨hadvances, hnone⟩ := attempt_counted hattempt h
      obtain ⟨hfault, hhint⟩ := hnone rfl
      exact ⟨hadvances, rfl, hfault, hhint⟩
    | some why => cases hgo

theorem pass_leave {why : Reason} (h : s.globals.cpu.fault = none) (hleave : s.pass setup devices = .leave t why) :
    Leaves s t := by
  unfold pass at hleave
  cases hattempt : s.globals.attempt setup devices with
  | refused g why =>
    rw [hattempt] at hleave
    cases hleave
    obtain ⟨hstays, hfault⟩ := attempt_refused hattempt h
    exact .refused hstays rfl hfault
  | counted g why =>
    rw [hattempt] at hleave
    cases why with
    | none => cases hleave
    | some why =>
      cases hleave
      exact .counted (attempt_counted hattempt h).1 rfl

variable {quota : ℕ}

theorem run_follows (setup : Setup) (devices : Devices σ) (s : Replay σ)
    (quota : ℕ) : Follows s (s.runQuota setup devices quota).last :=
  loop_rel Follows.refl Follows.trans fun _ ↦ pass_follows

theorem run_ran (setup : Setup) (devices : Devices σ) (s : Replay σ)
    (quota : ℕ) : Ran s (s.runQuota setup devices quota).last :=
  loop_rel Ran.refl Ran.trans fun _ ↦ pass_ran setup devices _

theorem visited_ran : ∀ x ∈ (s.runQuota setup devices quota).visited, Ran s x := by
  refine visited_rel (Ran.refl s) fun {a b} ha hgo ↦ ha.trans ?_
  have hpass := pass_ran setup devices a
  rw [hgo] at hpass
  exact hpass

theorem visited_running (quota : ℕ) (h : s.globals.cpu.fault = none) :
    ∀ x ∈ (s.runQuota setup devices quota).visited, x.globals.cpu.fault = none :=
  visited_rel h fun ha hgo ↦ (pass_go ha hgo).fault

theorem run_counters (setup : Setup) (devices : Devices σ) (quota : ℕ) (h : s.globals.cpu.fault = none) :
    s.globals.cpu.packets ≤ (s.runQuota setup devices quota).last.globals.cpu.packets ∧
      s.globals.cpu.cycles ≤ (s.runQuota setup devices quota).last.globals.cpu.cycles := by
  unfold runQuota
  induction quota generalizing s with
  | zero => exact ⟨Nat.le_refl _, Nat.le_refl _⟩
  | succ quota ih =>
    cases hcheck : s.check setup with
    | some why =>
      rw [loop_checked hcheck]
      exact ⟨Nat.le_refl _, Nat.le_refl _⟩
    | none =>
      cases hbody : s.pass setup devices with
      | leave t why =>
        rw [loop_leave hcheck hbody]
        cases pass_leave h hbody with
        | counted counters => exact ⟨counters.packets, counters.cycles.le⟩
        | refused counters => exact ⟨counters.packets.ge, counters.cycles.ge⟩
      | go t =>
        rw [loop_go hcheck hbody]
        have hgoes := pass_go h hbody
        obtain ⟨hpackets, hcycles⟩ := ih hgoes.fault
        exact ⟨hgoes.counters.packets.trans hpackets, hgoes.counters.cycles.le.trans hcycles⟩

/-- What becomes of a run from one of its passes on: a step is counted, or this pass is refused and the last. -/
inductive Passed (s last : Replay σ) (rest : List (Replay σ)) : Prop
  | counted (counters : Advances s.globals.cpu last.globals.cpu) (steps : s.steps < last.steps)
  | refused (ended : rest = []) (counters : Stays s.globals.cpu last.globals.cpu) (steps : last.steps = s.steps)
      (fault : last.globals.cpu.fault.isSome)

theorem run_passed {front rest : List (Replay σ)} {x : Replay σ} (h : s.globals.cpu.fault = none)
    (hvisited : (s.runQuota setup devices quota).visited = front ++ x :: rest) :
    Passed x (s.runQuota setup devices quota).last rest := by
  have hx : x.globals.cpu.fault = none :=
    visited_running quota h x (hvisited ▸ List.mem_append_right front List.mem_cons_self)
  obtain ⟨m, hcheck, hsuffix⟩ := loop_suffix hvisited
  cases hbody : x.pass setup devices with
  | leave t why =>
    obtain ⟨hrest, hlast⟩ : [] = rest ∧ t = (s.runQuota setup devices quota).last := by
      rw [loop_leave hcheck hbody] at hsuffix
      injection hsuffix with hvisits hlast
      exact ⟨(List.cons.inj hvisits).2, hlast⟩
    rw [← hlast]
    cases pass_leave hx hbody with
    | counted counters steps => exact .counted counters (by omega)
    | refused counters steps fault => exact .refused hrest.symm counters steps fault
  | go t =>
    have hlast : (t.runQuota setup devices m).last = (s.runQuota setup devices quota).last := by
      rw [loop_go hcheck hbody] at hsuffix
      injection hsuffix
    have hgoes := pass_go hx hbody
    obtain ⟨hpackets, hcycles⟩ := run_counters setup devices m hgoes.fault
    have hsteps := (run_follows setup devices t m).steps
    rw [hlast] at hpackets hcycles hsteps
    refine .counted ⟨hgoes.counters.packets.trans hpackets, hgoes.counters.cycles.trans_le hcycles⟩ ?_
    have := hgoes.steps
    omega

end Replay

end Cdj2000Emulator.Replayer
