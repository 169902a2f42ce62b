import Cdj2000Emulator.Library.Bytes
import Cdj2000Emulator.Library.RingQueue
import Mathlib.Data.BitVec
import Mathlib.Data.Fintype.Pi

namespace Cdj2000Emulator.Panel

open Function Library Library.Bytes

/-- `CDJ_INPUT_PAYLOAD_MAX`, the payload that the caller passes whole. -/
abbrev payloadMax : ℕ := 22

instance : NeZero payloadMax := ⟨by decide⟩

def minFrames : ℕ := 2

/-- `CDJ_INPUT_QUEUE`. -/
def queueMax : ℕ := 32

/-- `CDJ_INPUT_ACKS`. -/
def ackMax : ℕ := 32

abbrev Payload := Fin payloadMax → Byte

structure Press where
  byte : Fin payloadMax
  mask : Byte
  holdNs : ℤ
  id : ℕ
  deriving DecidableEq

structure Ack where
  id : ℕ
  firstFrame : ℕ
  lastFrame : ℕ
  downNs : ℤ
  upNs : ℤ
  down : Bool
  done : Bool
  deriving DecidableEq

inductive Phase where
  | idle
  | down
  | up
  deriving DecidableEq

/-- The variables of the channel; the analogue fields, the lid and the door are left out. -/
structure Input where
  acks : ℕ → Ack
  nextId : ℕ
  queue : RingQueue Press
  phase : Phase
  active : Press
  phaseSince : ℤ
  phaseFrames : ℕ
  held : Payload
  levelMask : Payload
  levelValue : Payload
  holdNs : ℤ
  gapNs : ℤ
  frames : ℕ
  commands : ℕ

namespace Input

def noPress : Press := ⟨0, 0, 0, 0⟩

def noAck : Ack := ⟨0, 0, 0, 0, 0, false, false⟩

def initial : Input where
  acks := fun _ ↦ noAck
  nextId := 1
  queue := ⟨fun _ ↦ noPress, 0, 0⟩
  phase := .idle
  active := noPress
  phaseSince := 0
  phaseFrames := 0
  held := 0
  levelMask := 0
  levelValue := 0
  holdNs := 300 * 1000000
  gapNs := 300 * 1000000
  frames := 0
  commands := 0

def waiting (s : Input) : List Press := s.queue.contents queueMax

def ackSlot (s : Input) (id : ℕ) : Option Ack :=
  if (s.acks (id % ackMax)).id = id then some (s.acks (id % ackMax)) else none

def note (id : ℕ) (change : Ack → Ack) (s : Input) : Input :=
  match s.ackSlot id with
  | some ack => { s with acks := update s.acks (id % ackMax) (change ack) }
  | none => s

def clear (s : Input) : Input :=
  { s with held := 0, levelMask := 0, levelValue := 0, queue := s.queue.clear }

end Input

/-- The numbers of a line, `none` where the word is missing or is no number. -/
inductive Command where
  | clear
  | level (byte mask : Option ℤ) (value : Option Bool) (more : Bool)
  | hold (ms : Option ℤ)
  | gap (ms : Option ℤ)
  | down (byte mask : Option ℤ)
  | up (byte mask : Option ℤ)
  /-- `ms` is `none` without a third word, which then means the hold that is set. -/
  | press (byte mask : Option ℤ) (ms : Option (Option ℤ))
  | ack (id : Option ℤ) (more : Bool)
  /-- The verbs that leave presses, holds and levels alone. -/
  | other

inductive Reply where
  | ok
  | pressed (id : ℕ)
  | queued (id : ℕ)
  | down (id firstFrame : ℕ) (downNs : ℤ)
  | done (id firstFrame lastFrame : ℕ) (downNs upNs : ℤ)
  | err (text : String)
  deriving DecidableEq

/-- `unsigned`. -/
def unsignedMax : ℕ := 2 ^ 32

def nsPerMs : ℤ := 1000000

/-- A payload byte and a mask that is not zero, as `press` and `level` check them. -/
def keyOf (byte mask : Option ℤ) : Option (Fin payloadMax × Byte) :=
  match byte, mask with
  | some b, some m =>
    if h : 0 ≤ b ∧ b < payloadMax then
      if 0 ≤ m ∧ m ≤ 0xff ∧ m ≠ 0 then
        some (⟨b.toNat, by omega⟩, BitVec.ofNat 8 m.toNat)
      else none
    else none
  | _, _ => none

/-- A time in milliseconds, at most a minute. -/
def millis (ms : Option ℤ) : Option ℤ :=
  match ms with
  | some ms => if 0 ≤ ms ∧ ms ≤ 60000 then some ms else none
  | none => none

namespace Input

def enqueue (byte : Fin payloadMax) (mask : Byte) (holdNs : ℤ) (s : Input) : Input :=
  { s with
    queue := s.queue.push queueMax ⟨byte, mask, holdNs, s.nextId⟩
    acks := update s.acks (s.nextId % ackMax) { noAck with id := s.nextId }
    nextId := (s.nextId + 1) % unsignedMax }

/-- `press` of `cdj_input_command`. -/
def press (byte mask : Option ℤ) (ms : Option (Option ℤ)) (s : Input) : Input × Reply :=
  match keyOf byte mask with
  | none => (s, .err "err <byte 0..21> <mask hex 01..ff>")
  | some (byte, mask) =>
    let holdNs := match ms with
      | none => some s.holdNs
      | some ms => (millis ms).map (· * nsPerMs)
    match holdNs with
    | none => (s, .err "err press <byte> <mask> [ms 0..60000]")
    | some holdNs =>
      if queueMax ≤ s.queue.len then (s, .err "err queue full")
      else (enqueue byte mask holdNs s, .pressed s.nextId)

/-- `ack` of `cdj_input_command`. -/
def ask (id : Option ℤ) (more : Bool) (s : Input) : Reply :=
  match id with
  | none => .err "err ack <id>"
  | some id =>
    if id ≤ 0 ∨ more then .err "err ack <id>"
    else
      match s.ackSlot (id % unsignedMax).toNat with
      | none => .err "err ack: no such press (or too old)"
      | some ack =>
        if ack.done then .done ack.id ack.firstFrame ack.lastFrame ack.downNs ack.upNs
        else if ack.down then .down ack.id ack.firstFrame ack.downNs
        else .queued ack.id

/-- `cdj_input_command`, on a line that is not empty. -/
def command (c : Command) (s : Input) : Input × Reply :=
  let s := { s with commands := s.commands + 1 }
  match c with
  | .clear => (s.clear, .ok)
  | .level byte mask value more =>
    match keyOf byte mask, value, more with
    | some (byte, mask), some value, false =>
      ({ s with
        levelMask := update s.levelMask byte (s.levelMask byte ||| mask)
        levelValue := update s.levelValue byte
          (if value then s.levelValue byte ||| mask else s.levelValue byte &&& ~~~mask) }, .ok)
    | _, _, _ => (s, .err "err level <byte 0..21> <mask hex 01..ff> <0|1>")
  | .hold ms =>
    match millis ms with
    | some ms => ({ s with holdNs := ms * nsPerMs }, .ok)
    | none => (s, .err "err <0..60000> ms")
  | .gap ms =>
    match millis ms with
    | some ms => ({ s with gapNs := ms * nsPerMs }, .ok)
    | none => (s, .err "err <0..60000> ms")
  | .down byte mask =>
    match keyOf byte mask with
    | some (byte, mask) => ({ s with held := update s.held byte (s.held byte ||| mask) }, .ok)
    | none => (s, .err "err <byte 0..21> <mask hex 01..ff>")
  | .up byte mask =>
    match keyOf byte mask with
    | some (byte, mask) => ({ s with held := update s.held byte (s.held byte &&& ~~~mask) }, .ok)
    | none => (s, .err "err <byte 0..21> <mask hex 01..ff>")
  | .press byte mask ms => press byte mask ms s
  | .ack id more => (s, ask id more s)
  | .other => (s, .ok)

/-- The first part of `cdj_input_run_press`: a press leaves the queue. -/
def start (now : ℤ) (s : Input) : Input :=
  if s.phase = .idle ∧ s.queue.len ≠ 0 then
    note s.queue.front.id (fun ack ↦ { ack with down := true, firstFrame := s.frames, downNs := now })
      { s with
        active := s.queue.front
        queue := s.queue.pop queueMax
        phase := .down
        phaseSince := now
        phaseFrames := 0 }
  else s

/-- The second part: the press that is down, or the pause after one. -/
def advance (payload : Payload) (now : ℤ) (s : Input) : Input × Payload :=
  match s.phase with
  | .down =>
    let payload := update payload s.active.byte (payload s.active.byte ||| s.active.mask)
    let s := { s with phaseFrames := (s.phaseFrames + 1) % unsignedMax }
    if minFrames ≤ s.phaseFrames ∧ s.active.holdNs ≤ now - s.phaseSince then
      (note s.active.id (fun ack ↦ { ack with done := true, lastFrame := s.frames, upNs := now })
        { s with phase := .up, phaseSince := now, phaseFrames := 0 }, payload)
    else (s, payload)
  | .up =>
    let s := { s with phaseFrames := (s.phaseFrames + 1) % unsignedMax }
    if minFrames ≤ s.phaseFrames ∧ s.gapNs ≤ now - s.phaseSince then ({ s with phase := .idle }, payload)
    else (s, payload)
  | .idle => (s, payload)

def runPress (payload : Payload) (now : ℤ) (s : Input) : Input × Payload :=
  (s.start now).advance payload now

/-- `cdj_input_apply` after the poll, the channel open. -/
def apply (payload : Payload) (now : ℤ) (s : Input) : Input × Payload :=
  let s := { s with frames := s.frames + 1 }
  let payload : Payload := fun i ↦ payload i ||| s.held i
  let (s, payload) := s.runPress payload now
  (s, fun i ↦ (payload i &&& ~~~s.levelMask i) ||| s.levelValue i)

end Input

end Cdj2000Emulator.Panel
