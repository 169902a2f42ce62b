import Cdj2000Emulator.Library.Bytes
import Cdj2000Emulator.Library.RingQueue

namespace Cdj2000Emulator.GuiLink

open Library Library.Bytes

abbrev Frame := List Byte

/-- What the environment sets for the receive half of the link to the GUI. -/
structure Config where
  /-- `cdj_link_rx_queue_enabled` -/
  queueing : Bool
  /-- `cdj_link_rx_handover_on_answer` -/
  handoverOnAnswer : Bool
  /-- `cdj_link_rx_gap_ns` -/
  gapNs : ℕ
  /-- `cdj_link_rx_one_shot` -/
  oneShot : Bool
  rxStatus : BitVec 32
  /-- `CDJ_REQ_KIND` -/
  reqKind : Option ℕ
  /-- `CDJ_REQ_NOCANCEL` -/
  noCancelMs : Option ℕ
  /-- `CDJ_REQ_CURSOR`; any cursor, when there is none. -/
  onlyCursor : Option ℕ
  /-- `CDJ_REQ_STATUS_FRESH` -/
  statusFresh : Bool

/-- `CdjLinkState` of the receive half. A timer is the time at which it expires, while it runs. -/
structure Link where
  control : BitVec 32
  buffer : BitVec 32
  length : BitVec 32
  r00 : BitVec 32
  r40 : BitVec 32
  r50 : BitVec 32
  status : BitVec 32
  enable : BitVec 32
  /-- The line of `cdj_intc2_set`. -/
  raised : Bool
  /-- The bytes staged so far; `rx_filled` is their number. -/
  rx : List Byte
  queue : RingQueue Frame
  rxPending : Bool
  rxDeliveredNs : ℤ
  rxWatchdog : Option ℤ
  rxGap : Option ℤ
  /-- `next_ms` of `cdj_link_clear_req_cancel`. -/
  nextMs : ℤ

/-- Why the next frame may take the place of the one that was delivered. -/
inductive Cause
  | acknowledged
  | rearmed
  | expired

/-- What happens to frames. -/
inductive Label
  | freed (now : ℤ) (cause : Cause)
  | received (data : List Byte)
  | arrived (frame : Frame)
  | dropped (frame : Frame)
  | delivered (now : ℤ) (buffer : BitVec 32) (frame copy : Frame)

section Requests

/-- The halfword at an offset, little-endian. -/
def halfword (frame : Frame) (i : ℕ) : ℕ := (frame.getD i 0).toNat ||| (frame.getD (i + 1) 0).toNat <<< 8

def putHalfword (frame : Frame) (i v : ℕ) : Frame :=
  (frame.set i (BitVec.ofNat 8 v)).set (i + 1) (BitVec.ofNat 8 (v >>> 8))

/-- The shift of `cdj_link_crc`. -/
def crcShift (state : BitVec 32) : BitVec 32 :=
  let state := state <<< 1
  if state &&& (1 <<< 24) ≠ 0 then state ^^^ 0x01102100 else state

def crc (data : List Byte) : BitVec 16 :=
  let state := data.foldl (fun state byte ↦ crcShift^[8] (state ||| byte.setWidth 32)) 0
  (crcShift^[16] state >>> 8).setWidth 16

def restamp (frame : Frame) : Frame := putHalfword frame 46 (crc (frame.take 46)).toNat

/-- The requests that `CDJ_REQ_CURSOR` selects. -/
def Config.selects (cfg : Config) (frame : Frame) : Bool := cfg.onlyCursor.all fun c ↦ halfword frame 4 == c

def forceReqKind (cfg : Config) (frame : Frame) : Frame :=
  match cfg.reqKind with
  | none => frame
  | some kind =>
    if frame.length ≠ 48 then frame
    else if halfword frame 2 &&& 0x3fff ≠ 1 then frame
    else if cfg.selects frame = false then frame
    else if halfword frame 8 = kind then frame
    else restamp (putHalfword frame 8 kind)

/-- `cdj_link_clear_req_cancel`, with the time before which it does nothing. -/
def clearReqCancel (cfg : Config) (now next : ℤ) (frame : Frame) : Frame × ℤ :=
  match cfg.noCancelMs with
  | none => (frame, next)
  | some period =>
    if frame.length ≠ 48 then (frame, next)
    else if halfword frame 2 &&& 0x3fff ≠ 1 ∨ halfword frame 2 &&& 0x8000 = 0 then (frame, next)
    else if cfg.selects frame = false then (frame, next)
    else if now.tdiv 1000000 < next then (frame, next)
    else (restamp (putHalfword frame 2 (halfword frame 2 &&& 0x7fff)), now.tdiv 1000000 + period)

/-- `cdj_link_status_fresh`. -/
def freshStatus (cfg : Config) (frame : Frame) : Frame :=
  if cfg.statusFresh = false ∨ frame.length ≠ 48 then frame
  else if halfword frame 2 &&& 0x3fff ≠ 0 ∨ halfword frame 2 &&& 0x8000 = 0 then frame
  else restamp (putHalfword (putHalfword frame 0 1) 2 (halfword frame 2 &&& 0x7fff))

/-- A frame as it goes into the guest's buffer. -/
def rewrite (cfg : Config) (now next : ℤ) (frame : Frame) : Frame × ℤ :=
  let (frame, next) := clearReqCancel cfg now next (forceReqKind cfg frame)
  (freshStatus cfg frame, next)

end Requests

namespace Link

def queueMax : ℕ := 64

def rxSize : ℕ := 512

def ctrlStart : BitVec 32 := 1

/-- `50 * SCALE_MS`. -/
def watchdogNs : ℤ := 50000000

variable (cfg : Config)

def frameLen (s : Link) : ℕ :=
  ((if s.length >>> 4 = 0 then s.r50 else s.length >>> 4) * 16).toNat

/-- `LINK_CTRL_START` is set. -/
def Armed (control : BitVec 32) : Prop := control &&& ctrlStart ≠ 0

instance (control : BitVec 32) : Decidable (Armed control) := inferInstanceAs (Decidable (_ ≠ _))

def canReceive (s : Link) : ℤ :=
  if ¬Armed s.control ∨ s.frameLen = 0 ∨ s.buffer = 0 then 0
  else (BitVec.ofNat 32 s.frameLen - BitVec.ofNat 32 s.rx.length).toInt

def write (now : ℤ) (frame : Frame) (s : Link) : Link × List Label :=
  let (copy, nextMs) := rewrite cfg now s.nextMs frame
  ({ s with
      control := if cfg.oneShot then s.control &&& ~~~ctrlStart else s.control
      status := s.status ||| cfg.rxStatus
      raised := true
      nextMs },
    [.delivered now s.buffer frame copy])

def deliver (now : ℤ) (frame : Frame) (s : Link) : Link × List Label :=
  let (s, out) := write cfg now frame s
  ({ s with rxPending := true, rxDeliveredNs := now, rxWatchdog := some (now + watchdogNs) }, out)

def rxRelease (now : ℤ) (s : Link) : Link × List Label :=
  if s.rxPending ∨ s.queue.len = 0 then (s, [])
  else if now < s.rxDeliveredNs + cfg.gapNs then
    ({ s with rxGap := some (s.rxGap.getD (s.rxDeliveredNs + cfg.gapNs)) }, [])
  else deliver cfg now s.queue.front { s with queue := s.queue.pop queueMax }

def rxNext (now : ℤ) (s : Link) : Link × List Label :=
  rxRelease cfg now { s with rxPending := false, rxWatchdog := none }

/-- `cdj_link_rx_gap_timer`, when the timer expires. -/
def rxGapTimer (now : ℤ) (s : Link) : Link × List Label := rxRelease cfg now { s with rxGap := none }

/-- `cdj_link_rx_watchdog`, when the timer expires. -/
def rxWatchdogTimer (now : ℤ) (s : Link) : Link × List Label :=
  if s.rxPending then rxNext cfg now { s with rxWatchdog := none } else ({ s with rxWatchdog := none }, [])

def rxAnswered (now : ℤ) (s : Link) : Link × List Label :=
  if s.rxPending then rxNext cfg now s else (s, [])

def enqueue (frame : Frame) (s : Link) : Link × List Label :=
  if s.queue.len = queueMax then
    ({ s with queue := (s.queue.pop queueMax).push queueMax frame }, [.dropped s.queue.front])
  else ({ s with queue := s.queue.push queueMax frame }, [])

/-- A complete frame in `cdj_link_receive`. -/
def arrive (now : ℤ) (frame : Frame) (s : Link) : Link × List Label :=
  if cfg.queueing ∧ frame.length ≤ rxSize then
    if s.rxPending ∨ s.queue.len ≠ 0 ∨ now < s.rxDeliveredNs + cfg.gapNs then
      let (s, lost) := enqueue frame s
      let (s, out) := rxRelease cfg now s
      (s, lost ++ out)
    else deliver cfg now frame s
  else write cfg now frame s

def receive (now : ℤ) (data : List Byte) (s : Link) : Link × List Label :=
  if data = [] ∨ s.frameLen = 0 then (s, [])
  else
    let data := data.take (rxSize - s.rx.length)
    let rx := s.rx ++ data
    if rx.length < s.frameLen then ({ s with rx }, [.received data])
    else
      let frame := rx.take s.frameLen
      let (s, out) := arrive cfg now frame { s with rx := [] }
      (s, .received data :: .arrived frame :: out)

/-- The status bits that are written are cleared. -/
def acknowledge (value : BitVec 32) (s : Link) : Link :=
  let status := s.status &&& ~~~(value &&& 0x1f)
  { s with status, raised := if status &&& 0x1c = 0 then false else s.raised }

inductive Reg
  | r00
  | buffer
  | length
  | control
  | r40
  | r50
  | status
  | enable

/-- `cdj_link_write`, on the receive half. -/
def writeReg (now : ℤ) (reg : Reg) (value : BitVec 32) (s : Link) : Link × List Label :=
  match reg with
  | .buffer => ({ s with buffer := value }, [])
  | .length => ({ s with length := value }, [])
  | .r00 => ({ s with r00 := value }, [])
  | .r40 => ({ s with r40 := value }, [])
  | .r50 => ({ s with r50 := value }, [])
  | .enable => ({ s with enable := value }, [])
  | .control =>
    if Armed value ∧ ¬Armed s.control ∧ s.rxPending ∧ cfg.handoverOnAnswer = false then
      rxNext cfg now { s with control := value }
    else ({ s with control := value }, [])
  | .status =>
    let s := s.acknowledge value
    if s.rxPending ∧ s.status &&& cfg.rxStatus = 0 ∧ cfg.handoverOnAnswer = false then rxNext cfg now s
    else (s, [])

end Link

end Cdj2000Emulator.GuiLink
