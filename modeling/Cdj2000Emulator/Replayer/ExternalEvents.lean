import Cdj2000Emulator.C674x.Step
import Cdj2000Emulator.Library.GuardedLoop
import Cdj2000Emulator.Transcript.NxsHpi
import Mathlib.Algebra.Group.Nat.Defs

namespace Cdj2000Emulator.Replayer

open Library.GuardedLoop C674x.State C674x.Transfer C674x.Operands C674x.Interrupt C674x.Step Transcript
open Board (Scheduler)

structure PendingHpicEvent where
  packets : ℕ
  cycles : ℕ
  address : ℕ
  value : ℕ
  size : ℕ
  bootPhase : ℕ
  hint : Bool
  dspint : Bool
  deriving DecidableEq

/-- What the bus of the DSP acts on; the memories and the devices but HPI are in `σ`. -/
structure Hardware (σ : Type) where
  devices : σ
  hpi : C6747Hpi
  hpicEvents : List PendingHpicEvent
  hpicOverflow : Bool

/-- The stop reasons of a checkpoint that are told apart. -/
inductive StopReason
  | dspStartBoundary
  | bootPhaseBoundary
  | other
  deriving DecidableEq

/-- The globals, `checkpoint_state` among them. -/
structure Globals (σ : Type) extends Hardware σ where
  cpu : Cpu
  bootPhase : ℕ
  hpiAddress : Word
  words : ℕ
  eventSequence : ℕ
  scheduler : Scheduler
  dspStarted : Bool
  dspHalted : Bool
  stopReason : StopReason

/-- What the replayer calls of its devices. -/
structure Devices (σ : Type) where
  /-- `read_bus`, `write_bus` and `cycle_tick`, at a boot phase and beside the CPU as the step found it. -/
  bus : ℕ → Cpu → Bus (Hardware σ)
  deliverEdmaNotifications : σ → σ
  /-- `cdj_c6747_intc_cpu_pending`. -/
  cpuPending : σ → Word
  /-- The fault of `spi_transfer`. -/
  spiFault : σ → Bool
  pscTick : σ → σ
  advanceFunctionalMcaspSlots : σ → σ × Bool
  /-- `cdj_c6747_intc_deliver_event`. -/
  deliverEvent : ℕ → σ → σ
  /-- `cdj_c6747_gpio_set_input`. -/
  setInput : ℕ → ℕ → Bool → σ → σ
  /-- The word at `host_memory` of an address. -/
  hostMemory : σ → Word → Option Word
  storeHostMemory : σ → Word → Word → σ

structure Setup where
  arithmetic : Arithmetic
  functionalTiming : Bool
  functionalAudio : Bool
  connectedStopLimit : ℕ
  breakpoint : ℕ

structure ReplayLimits where
  stepsRemaining : ℕ
  initialPackets : ℕ
  initialCycles : ℕ
  packetLimit : ℕ
  cycleLimit : ℕ

inductive Limit
  | step
  | packet
  | cycle
  deriving DecidableEq

def counterDelta (value initial : ℕ) : ℕ := if initial ≤ value then value - initial else 0

def limitReached (limits : ReplayLimits) (cpu : Cpu) : Option Limit :=
  if limits.stepsRemaining = 0 then some .step
  else if limits.packetLimit ≠ 0 ∧ limits.packetLimit ≤ counterDelta cpu.packets limits.initialPackets then
    some .packet
  else if limits.cycleLimit ≠ 0 ∧ limits.cycleLimit ≤ counterDelta cpu.cycles limits.initialCycles then
    some .cycle
  else none

/-- What `*reason` can be. -/
inductive Reason
  | eventEof
  | phaseBudgetExhausted
  | deferredSliceBoundary
  | limit (limit : Limit)
  | breakpoint
  | interruptStopped
  | cpuStopped
  | fault (why : String)
  | hintYield
  deriving DecidableEq

section Pass

variable {σ : Type} (setup : Setup) (devices : Devices σ)

/-- A pass of the loop: refused before it is counted, or counted, with a reason where the loop is left. -/
inductive Attempt (σ : Type)
  | refused (g : Globals σ) (why : Reason)
  | counted (g : Globals σ) (why : Option Reason)

/-- A fault of the board: its word is set only by some. -/
def Globals.faulted {σ : Type} (g : Globals σ) (why : String) : Globals σ :=
  { g with cpu := { g.cpu with fault := some why, faultPc := g.cpu.pc } }

def functionalAudioPacketInterval : ℕ := 1024

def Globals.functionalAudioTick {σ : Type} (setup : Setup) (devices : Devices σ) (g : Globals σ) :
    Globals σ × Bool :=
  if !setup.functionalAudio ∨ g.cpu.packets % functionalAudioPacketInterval ≠ 0 then (g, true)
  else
    let (state, advanced) := devices.advanceFunctionalMcaspSlots g.devices
    let g := { g with devices := state }
    if advanced then (g, true)
    else
      let g := g.faulted "unsupported functional McASP transmit slot"
      ({ g with cpu := { g.cpu with faultWord := 0 } }, false)

def Globals.afterStep {σ : Type} (setup : Setup) (devices : Devices σ) (g : Globals σ) :
    Globals σ × Option Reason :=
  if devices.spiFault g.devices then
    (g.faulted "unsupported SPI transfer clock or state", some (.fault "unsupported SPI transfer clock or state"))
  else
    match { g with devices := devices.pscTick g.devices }.functionalAudioTick setup devices with
    | (g, false) => (g, some (.fault (g.cpu.fault.getD "")))
    | (g, true) => (g, if g.hpi.hint then some .hintYield else none)

/-- One pass of the loop of `run_quota` behind its checks. -/
def Globals.attempt {σ : Type} (setup : Setup) (devices : Devices σ) (g : Globals σ) : Attempt σ :=
  let g := { g with devices := devices.deliverEdmaNotifications g.devices }
  match interrupt setup.functionalTiming g.cpu (devices.cpuPending g.devices) with
  | (cpu, false) => .refused { g with cpu } ((cpu.fault.map Reason.fault).getD .interruptStopped)
  | (cpu, true) =>
    let done := step setup.arithmetic (devices.bus g.bootPhase cpu) setup.functionalTiming g.toHardware cpu
    let g := { g with toHardware := done.bus, cpu := done.cpu }
    if done.accepted then
      let (g, why) := g.afterStep setup devices
      .counted g why
    else .refused g ((done.cpu.fault.map Reason.fault).getD .cpuStopped)

end Pass

structure RecordedEvent where
  sequence : ℕ
  kind : Option Kind
  offset : ℕ
  address : ℕ
  value : ℕ
  size : ℕ
  bootPhase : ℕ
  hint : Bool
  dspint : Bool
  packets : ℕ
  cycles : ℕ

/-- The globals, the limits and the locals; `steps` counts the steps made so far. -/
structure Replay (σ : Type) where
  globals : Globals σ
  limits : ReplayLimits
  steps : ℕ
  expected : ℕ
  deferred : Bool
  stopPending : Bool
  faultMatched : Bool
  schedulePending : Bool
  sliceEndPending : Bool
  sliceExecuted : ℕ
  verifiedStops : ℕ
  reason : Reason

namespace Replay

variable {σ : Type} (setup : Setup) (devices : Devices σ) (s : Replay σ) (event : RecordedEvent)

/-- `limit_reached`, now. -/
def limited : Option Limit := limitReached s.limits s.globals.cpu

def check : Option Reason :=
  match s.limited with
  | some limit => some (.limit limit)
  | none => if setup.breakpoint ≠ 0 ∧ s.globals.cpu.pc.toNat = setup.breakpoint then some .breakpoint else none

def count (g : Globals σ) : Replay σ :=
  { s with
    globals := g
    limits := { s.limits with stepsRemaining := s.limits.stepsRemaining - 1 }
    steps := s.steps + 1 }

def pass : Turn (Replay σ) Reason :=
  match s.globals.attempt setup devices with
  | .refused g why => .leave { s with globals := g } why
  | .counted g none => .go (s.count g)
  | .counted g (some why) => .leave (s.count g) why

/-- `run_quota`, with the states it makes passes in. -/
def runQuota (quota : ℕ) : Finish (Replay σ) Reason :=
  loop (check setup) (pass setup devices) .phaseBudgetExhausted quota s

def cooperativeBudget : ℕ := 1000000

def runBudget : Finish (Replay σ) Reason := s.runQuota setup devices cooperativeBudget

/-- What handling an event comes to: `fault` is the stop at the matched fault, `taken` goes on, with the quota of
a slice or with a trigger. -/
inductive Handled (σ : Type)
  | mismatch
  | unsupported
  | fault (s : Replay σ)
  | taken (s : Replay σ) (quota : ℕ) (trigger : Bool)

def dspSchedule : Handled σ :=
  let scheduler := s.globals.scheduler
  if !s.deferred ∨ !s.schedulePending ∨ event.offset ≠ scheduler.activationId ∨
    event.address ≠ scheduler.sliceId ∨
      event.value ≠ scheduler.remaining ∨ event.size ≠ scheduler.pending ||| scheduler.rearm <<< 1 ∨
      event.packets ≠ s.globals.cpu.packets ∨ event.cycles ≠ s.globals.cpu.cycles then .mismatch
  else .taken { s with schedulePending := false } 0 false

def dspSliceBegin : Handled σ :=
  let g := s.globals
  if !s.deferred ∨ !g.dspStarted ∨ g.dspHalted ∨ s.stopPending ∨ g.cpu.fault.isSome ∨ g.hpicEvents ≠ [] ∨
      g.hpicOverflow then .mismatch
  else
    let (scheduler, quota) := g.scheduler.beginSlice
    if quota = 0 ∨ event.offset ≠ scheduler.activationId ∨ event.address ≠ scheduler.sliceId ∨
        event.value ≠ scheduler.remaining ∨ event.size ≠ quota ∨ event.packets ≠ g.cpu.packets ∨
        event.cycles ≠ g.cpu.cycles then .mismatch
    else .taken { s with globals := { g with scheduler } } quota false

def dspSliceEnd : Handled σ :=
  let g := s.globals
  if !s.deferred ∨ !s.sliceEndPending ∨ g.hpicEvents ≠ [] ∨ g.hpicOverflow then .mismatch
  else
    let (scheduler, ended) := g.scheduler.endSlice s.sliceExecuted g.hpi.hint g.cpu.fault.isSome
    if !ended ∨ event.offset ≠ scheduler.activationId ∨ event.address ≠ scheduler.sliceId ∨
        event.value ≠ scheduler.remaining ∨ event.size ≠ s.sliceExecuted ∨ event.packets ≠ g.cpu.packets ∨
        event.cycles ≠ g.cpu.cycles then .mismatch
    else .taken { s with globals := { g with scheduler }, sliceEndPending := false } 0 false

/-- The event `boot_phase`. -/
def bootPhaseEvent : Handled σ :=
  let g := s.globals
  if event.offset ≠ 0 ∨ event.address ≠ 0 ∨ event.size ≠ 0 ∨ 7 < event.value then .mismatch
  else
    let state := devices.setInput 4 5 (event.value.testBit 0) g.devices
    let state := devices.setInput 4 2 (event.value.testBit 1) state
    let state := devices.setInput 4 3 (event.value.testBit 2) state
    .taken { s with globals := { g with devices := state, bootPhase := event.value } } 0 (event.value ≠ g.bootPhase)

def hostControlWrite : Handled σ :=
  let g := s.globals
  if event.offset ≠ 0 ∨ event.size ≠ 4 ∨ event.address ≠ g.hpiAddress.toNat ∨
    2 ^ 32 ≤ event.value then .mismatch
  else
    let hpi := g.hpi.hostWrite (BitVec.ofNat 32 event.value)
    let rising : Bool := !g.hpi.dspint && hpi.dspint
    let state := if rising then devices.deliverEvent 34 g.devices else g.devices
    .taken { s with globals := { g with devices := state, hpi } } 0 ((g.hpi.hint && !hpi.hint) || rising)

def hostAddressWrite : Handled σ :=
  let g := s.globals
  if event.offset ≠ 0x40000 ∨ event.size ≠ 4 ∨ event.address ≠ g.hpiAddress.toNat ∨
    2 ^ 32 ≤ event.value then .mismatch
  else .taken { s with globals := { g with hpiAddress := BitVec.ofNat 32 event.value } } 0 false

def hostDataWrite (autoincrement : Bool) : Handled σ :=
  let g := s.globals
  if event.offset ≠ (if autoincrement then 0x80000 else 0xc0000) ∨ event.address ≠ g.hpiAddress.toNat ∨
      event.size ≠ 4 ∨ 2 ^ 32 ≤ event.value ∨ g.hpiAddress.toNat % 4 ≠ 0 ∨
      (devices.hostMemory g.devices g.hpiAddress).isNone then .mismatch
  else
    let state := devices.storeHostMemory g.devices g.hpiAddress (BitVec.ofNat 32 event.value)
    .taken { s with
      globals := { g with
        devices := state
        words := g.words + 1
        hpiAddress := if autoincrement then g.hpiAddress + 4 else g.hpiAddress } } 0 false

def hostDataRead : Handled σ :=
  let g := s.globals
  match devices.hostMemory g.devices g.hpiAddress with
  | none => .mismatch
  | some value =>
    if (event.offset ≠ 0x80000 ∧ event.offset ≠ 0xc0000) ∨ event.address ≠ g.hpiAddress.toNat ∨
      event.size ≠ 4 ∨
        2 ^ 32 ≤ event.value ∨ g.hpiAddress.toNat % 4 ≠ 0 ∨ event.value ≠ value.toNat then .mismatch
    else
      .taken { s with
        globals := { g with
          hpiAddress := if event.offset = 0x80000 then g.hpiAddress + 4 else g.hpiAddress } } 0 false

def dspHpicWrite : Handled σ :=
  let g := s.globals
  match g.hpicEvents with
  | [] => .mismatch
  | actual :: rest =>
    if g.hpicOverflow ∨ event.offset ≠ 0 ∨ event.address ≠ actual.address ∨ event.value ≠ actual.value ∨
        event.size ≠ actual.size ∨ event.bootPhase ≠ actual.bootPhase ∨ event.hint ≠ actual.hint ∨
        event.dspint ≠ actual.dspint ∨ event.packets ≠ actual.packets ∨
          event.cycles ≠ actual.cycles then .mismatch
    else .taken { s with globals := { g with hpicEvents := rest } } 0 false

def dspStop : Handled σ :=
  let g := s.globals
  let pc := if g.cpu.fault.isSome then g.cpu.faultPc else g.cpu.pc
  if event.offset ≠ 0 ∨ event.size ≠ 0 ∨ !s.stopPending ∨ g.hpicEvents ≠ [] ∨ g.hpicOverflow ∨
      event.address ≠ pc.toNat ∨ event.value ≠ g.cpu.faultWord.toNat ∨ event.packets ≠ g.cpu.packets ∨
      event.cycles ≠ g.cpu.cycles ∨ event.hint ≠ g.hpi.hint ∨ event.dspint ≠ g.hpi.dspint then .mismatch
  else
    let s := { s with
      globals := { g with eventSequence := event.sequence }
      stopPending := false
      verifiedStops := s.verifiedStops + 1 }
    if g.cpu.fault.isSome then .fault { s with faultMatched := true } else .taken s 0 false

def handle : Handled σ :=
  match event.kind with
  | some .dspSchedule => s.dspSchedule event
  | some .dspSliceBegin => s.dspSliceBegin event
  | some .dspSliceEnd => s.dspSliceEnd event
  | some .bootPhase => s.bootPhaseEvent devices event
  | some .hostControlWrite => s.hostControlWrite devices event
  | some .hostAddressWrite => s.hostAddressWrite event
  | some .hostDataAutoincrementWrite => s.hostDataWrite devices event true
  | some .hostDataFixedWrite => s.hostDataWrite devices event false
  | some .hostDataRead => s.hostDataRead devices event
  | some .dspHpicWrite => s.dspHpicWrite event
  | some .dspStop => s.dspStop event
  | some .dspStart | some .romHpiReady | some .resetAssert => .unsupported
  | none => .mismatch

/-- What the log keeps: a pass of the loop, or an event that was handled. -/
inductive Act
  | pass
  | event (event : RecordedEvent)

/-- An act and the state it was made in. -/
structure Moment (σ : Type) where
  act : Act
  state : Replay σ

def passes (visited : List (Replay σ)) : List (Moment σ) := visited.map (⟨.pass, ·⟩)

/-- What a line of the transcript leads to. -/
inductive Outcome (σ : Type)
  | next (s : Replay σ)
  | leave (s : Replay σ)
  | exhausted (s : Replay σ)
  | error (s : Replay σ)

/-- The code at `mismatch`. -/
def mismatch : Outcome σ :=
  let cpu := s.globals.cpu
  if s.limited.isSome ∧ s.stopPending ∧ cpu.fault = none ∧ event.kind = some .dspStop ∧
    cpu.packets ≤ event.packets ∧
      cpu.cycles ≤ event.cycles ∧ (cpu.packets < event.packets ∨ cpu.cycles < event.cycles) then .exhausted s
  else .error s

/-- The slice that `dsp_slice_begin` begins. -/
def slice (quota : ℕ) : Outcome σ × List (Moment σ) :=
  let run := s.runQuota setup devices quota
  let done : Replay σ := { run.last with
    reason := if run.why = .phaseBudgetExhausted then .deferredSliceBoundary else run.why
    sliceExecuted := s.limits.stepsRemaining - run.last.limits.stepsRemaining
    stopPending := true
    sliceEndPending := true }
  if done.sliceExecuted ≠ quota ∧ !done.globals.hpi.hint ∧ done.globals.cpu.fault = none then
    (.exhausted done, passes run.visited)
  else (.next done, passes run.visited)

def runTrigger : Outcome σ × List (Moment σ) :=
  let run := s.runBudget setup devices
  (.next { run.last with reason := run.why, stopPending := true }, passes run.visited)

def trigger : Outcome σ × List (Moment σ) :=
  let g := s.globals
  if s.deferred ∧ (!g.dspStarted ∨ g.dspHalted) then (.next s, [])
  else if s.stopPending ∨ g.cpu.fault.isSome then (s.mismatch event, [])
  else if s.deferred then
    match g.scheduler.request with
    | (scheduler, true) => (.next { s with globals := { g with scheduler }, schedulePending := true }, [])
    | (_, false) => (s.mismatch event, [])
  else if s.limited.isSome then (.exhausted s, [])
  else s.runTrigger setup devices

def carryOn (quota : ℕ) (triggered : Bool) : Outcome σ × List (Moment σ) :=
  let g := s.globals
  if event.bootPhase ≠ g.bootPhase ∨ event.hint ≠ g.hpi.hint ∨ event.dspint ≠ g.hpi.dspint then
    (s.mismatch event, [])
  else if setup.connectedStopLimit ≠ 0 ∧ setup.connectedStopLimit ≤ s.verifiedStops ∧
    event.kind = some .dspStop then
    (.leave s, [])
  else if quota ≠ 0 then s.slice setup devices quota
  else if triggered then s.trigger setup devices event
  else (.next s, [])

def OutOfBudget : Prop :=
  s.limited.isSome ∧ s.globals.cpu.fault = none ∧
    ((event.kind ≠ some .dspStop ∧
      ¬(s.deferred ∧ (event.kind = some .dspSliceEnd ∨ event.kind = some .dspHpicWrite))) ∨ !s.stopPending)

instance : Decidable (s.OutOfBudget event) := inferInstanceAs (Decidable (_ ∧ _ ∧ _))

/-- Whether another type of event has to come first. -/
def OutOfTurn : Prop :=
  (s.schedulePending ∧ event.kind ≠ some .dspSchedule) ∨
    (s.deferred ∧ s.stopPending ∧ event.kind ≠ some .dspHpicWrite ∧
      event.kind ≠ some (if s.sliceEndPending then .dspSliceEnd else .dspStop))

instance : Decidable (s.OutOfTurn event) := inferInstanceAs (Decidable (_ ∨ _))

def respond : Outcome σ × List (Moment σ) :=
  if s.OutOfBudget event then (.exhausted s, [])
  else if s.OutOfTurn event then (s.mismatch event, [])
  else
    match s.handle devices event with
    | .mismatch => (s.mismatch event, [])
    | .unsupported => (.error s, [])
    | .fault done => (.leave done, [⟨.event event, s⟩])
    | .taken done quota triggered =>
      let (outcome, log) := done.carryOn setup devices event quota triggered
      (outcome, ⟨.event event, s⟩ :: log)

/-- One line of the transcript, `none` where it is too long or `parse_event` refuses it. -/
def line (event : Option RecordedEvent) : Outcome σ × List (Moment σ) :=
  match event with
  | none => (.error s, [])
  | some event =>
    let s := { s with expected := s.expected + 1 }
    if event.sequence ≠ s.expected then (.error s, [])
    else if event.sequence ≤ s.globals.eventSequence then (.next s, [])
    else s.respond setup devices event

end Replay

inductive EventReplayResult
  | error
  | complete
  | budgetExhausted
  deriving DecidableEq

/-- What a replay returns and leaves, and what it did. -/
structure Replayed (σ : Type) where
  result : EventReplayResult
  last : Replay σ
  log : List (Replay.Moment σ)

def Replayed.after {σ : Type} (r : Replayed σ) (log : List (Replay.Moment σ)) : Replayed σ :=
    { r with log := log ++ r.log }

namespace Replay

variable {σ : Type} (setup : Setup) (devices : Devices σ) (s : Replay σ)

/-- The check behind the loop over the lines. -/
def AtBoundary : Prop :=
  s.verifiedStops ≠ 0 ∧ !s.stopPending ∧ s.globals.hpicEvents = [] ∧ !s.schedulePending ∧
    !s.sliceEndPending ∧
    !s.globals.hpicOverflow ∧ (s.faultMatched ∨ s.globals.cpu.fault = none)

instance : Decidable s.AtBoundary := inferInstanceAs (Decidable (_ ∧ _))

def finish : Replayed σ := ⟨if s.AtBoundary then .complete else .error, s, []⟩

def lines : List (Option RecordedEvent) → Replay σ → Replayed σ
  | [], s => s.finish
  | event :: rest, s =>
    match s.line setup devices event with
    | (.next t, log) => (lines rest t).after log
    | (.leave t, log) => t.finish.after log
    | (.exhausted t, log) => ⟨.budgetExhausted, t, log⟩
    | (.error t, log) => ⟨.error, t, log⟩

def start (limits : ReplayLimits) (g : Globals σ) : Replay σ where
  globals := g
  limits := limits
  steps := 0
  expected := 0
  deferred := g.scheduler.mode = Scheduler.deferredV1
  stopPending := false
  faultMatched := false
  schedulePending := false
  sliceEndPending := false
  sliceExecuted := 0
  verifiedStops := 0
  reason := .eventEof

/-- A checkpoint taken at one of these boundaries precedes the run that its event triggers. -/
def AtTrigger (g : Globals σ) : Prop := g.stopReason = .dspStartBoundary ∨ g.stopReason = .bootPhaseBoundary

instance (g : Globals σ) : Decidable (AtTrigger g) := inferInstanceAs (Decidable (_ ∨ _))

end Replay

open Replay in
def replayExternalEvents {σ : Type} (setup : Setup) (devices : Devices σ) (limits : ReplayLimits)
    (events : List (Option RecordedEvent)) (g : Globals σ) : Replayed σ :=
  let s := start limits g
  if s.deferred then
    if g.dspStarted ∧ !g.dspHalted ∧ AtTrigger g then
      match g.scheduler.request with
      | (scheduler, true) =>
        lines setup devices events { s with globals := { g with scheduler }, schedulePending := true }
      | (_, false) => ⟨.error, s, []⟩
    else lines setup devices events s
  else if AtTrigger g then
    match s.runTrigger setup devices with
    | (.next t, log) => (lines setup devices events t).after log
    | (_, log) => ⟨.error, s, log⟩
  else lines setup devices events s

/-- A restored checkpoint as `main` replays it: the fault latch is cleared, and the limits count from here. -/
def Globals.restored {σ : Type} (g : Globals σ) : Globals σ :=
  { g with cpu := { g.cpu with fault := none, faultPc := 0, faultWord := 0 } }

def replay {σ : Type} (setup : Setup) (devices : Devices σ) (steps packetLimit cycleLimit : ℕ)
    (events : List (Option RecordedEvent)) (g : Globals σ) : Replayed σ :=
  replayExternalEvents setup devices ⟨steps, g.cpu.packets, g.cpu.cycles, packetLimit, cycleLimit⟩ events g.restored

end Cdj2000Emulator.Replayer
