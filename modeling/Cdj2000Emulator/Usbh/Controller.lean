import Cdj2000Emulator.Usbh.Model

namespace Cdj2000Emulator.Usbh

open Function Library Library.Bytes

/-- How the device and the USB core end a packet. -/
structure Reply where
  status : Status
  /-- What the device sends for an IN token. -/
  bytes : List Byte
  /-- How much it takes of an OUT. -/
  length : ℕ

/-- What comes of a packet that is issued. -/
inductive Answer
  /-- `usb_find_device` knows no device at the address. -/
  | absent
  /-- `USB_RET_ASYNC`. -/
  | later
  | now (reply : Reply)

namespace State

def fail (nr : ℕ) (status : Status) (s : State) : State :=
  let p := s.pipe nr
  match status with
  | .nak => s
  | .stall => (s.act nr (p.setPid pidStall) []).pipeStatus rNrdysts nr
  | _ =>
    let p := { p with retries := p.retries + 1 }
    if p.retries < 3 then s.act nr p []
    else (s.act nr (p.setPid pidNak) []).pipeStatus rNrdysts nr

/-- `cdj_usbh_packet_finish`, of an IN packet with data. -/
def inFinish (now : ℤ) (nr : ℕ) (s : State) : State :=
  let p := s.pipe nr
  let actual := p.packet.actualLength
  let short : Bool := actual < s.maxp nr
  let counted : Bool := nr ≠ 0 && p.tre &&& trenb ≠ 0 && p.trn.toNat ≤ p.trnCount + 1
  let filled : Bool := nr = 0 && (s.rd rUsbleng).toNat ≤ p.inTotal + actual
  let last := short || counted || filled
  -- with SHTNAK the pipe goes to NAK by itself
  let nak : Bool := nr ≠ 0 && p.cfg &&& shtnak ≠ 0 && (short || counted)
  let q := if nak then (p.received last).setPid pidNak else p.received last
  ((s.act nr q [.received p.pktBuf last]).pipeStatus rBrdysts nr).dmaServiceAll now

/-- `cdj_usbh_packet_finish`, of an OUT packet. -/
def outFinish (now : ℤ) (nr : ℕ) (s : State) : State :=
  let actual := (s.pipe nr).packet.actualLength
  let p := (s.pipe nr).passed actual
  let entries := [Entry.sent (p.pktBuf.take actual)]
  if p.tx.length ≤ p.txPos then
    let s := (s.act nr p.txClear entries).pipeStatus rBempsts nr
    let s := if nr ≠ 0 then s.pipeStatus rBrdysts nr else s
    s.dmaServiceAll now
  else s.act nr p entries

def packetFinish (now : ℤ) (nr : ℕ) (s : State) : State :=
  let p := { s.pipe nr with inflight := false }
  match p.packet.pid, p.packet.status with
  | .setup, .success => (s.act nr { p with ctr := p.ctr &&& ~~~sureq } [.ended]).raise1 sack
  | .setup, _ => (s.act nr { p with ctr := p.ctr &&& ~~~sureq } [.ended]).raise1 sign
  | .input, .success => s.inFinish now nr
  | .output, .success => s.outFinish now nr
  | _, status => (s.act nr p [.ended]).fail nr status

/-- `cdj_usbh_packet_done`, with a read rate of `bps`. -/
def packetDone (bps : ℕ) (now : ℤ) (nr : ℕ) (s : State) : State :=
  let p := s.pipe nr
  let hold := Sdhi.State.mediaRateNs bps p.packet.actualLength
  if p.packet.pid = .input ∧ nr ≠ 0 ∧ p.packet.status = .success ∧ p.packet.actualLength ≠ 0 ∧ 0 < hold then
    s.act nr { p with held := true, heldUntil := now + hold } []
  else s.packetFinish now nr

/-- The packet in flight is over on the device's side. -/
def conclude (bps : ℕ) (now : ℤ) (nr : ℕ) (r : Reply) (s : State) : State :=
  let p := s.pipe nr
  let p :=
    match p.packet.pid with
    | .input =>
      let bytes := r.bytes.take p.packet.size
      { p with pktBuf := bytes, packet := { p.packet with status := r.status, actualLength := bytes.length } }
    | _ => { p with packet := { p.packet with status := r.status, actualLength := min r.length p.packet.size } }
  (s.act nr p []).packetDone bps now nr

/-- `cdj_usbh_issue`, of a packet with the given buffer. -/
def issue (bps : ℕ) (now : ℤ) (nr : ℕ) (pid : Token) (buffer : List Byte) (len : ℕ) (answer : Answer)
    (s : State) : State :=
  let p := { s.pipe nr with pktBuf := buffer }
  let issued := p.issued pid buffer len
  let absent := (s.act nr { p with inflight := false, packet := { p.packet with status := .error } } []).packetDone
    bps now nr
  if !s.attached then absent
  else
    match answer with
    | .absent => absent
    | .later =>
      if pid = .output ∧ len = 0 ∧ s.isBulk nr then (s.act nr issued []).packetDone bps now nr
      else s.act nr issued (issued.flying.toList.map .token)
    | .now r =>
      if pid = .output ∧ len = 0 ∧ s.isBulk nr then (s.act nr issued []).packetDone bps now nr
      else (s.act nr issued (issued.flying.toList.map .token)).conclude bps now nr r

def setup (bps : ℕ) (now : ℤ) (answer : Answer) (s : State) : State :=
  let s := { s with setupPending := false }
  let p := s.pipe 0
  if p.inflight then s
  else
    let bytes := (List.range 4).flatMap fun i ↦ little 2 (s.rd (rUsbreq + 2 * i)).toNat
    let p := { p with inTotal := 0, stopped := false }.rxClear
    (s.act 0 p [.rearmed, .readCleared]).issue bps now 0 .setup bytes 8 answer

/-- `cdj_usbh_release_held`, for one pipe. -/
def releasePipe (now : ℤ) (nr : ℕ) (s : State) : State :=
  let p := s.pipe nr
  if p.held ∧ p.heldUntil ≤ now then (s.act nr { p with held := false } []).packetFinish now nr else s

def releaseHeld (now : ℤ) (s : State) : State := (List.range nrPipes).foldl (fun s nr ↦ s.releasePipe now nr) s

def running (s : State) : Bool :=
  s.attached && s.rd rSyscfg &&& 0x0001 ≠ 0 && s.rd rSyscfg &&& 0x0040 ≠ 0 &&
    s.rd rSyscfg &&& 0x0400 ≠ 0 && s.rd rDvstctr &&& usbrst = 0

def runPipe (bps : ℕ) (now : ℤ) (answer : Answer) (nr : ℕ) (s : State) : State :=
  let p := s.pipe nr
  if p.inflight ∨ p.ctr &&& pidMask ≠ pidBuf then s
  else if s.transmits nr then
    if !p.txValid ∨ now < p.txHoldUntil then s
    else
      let len := min (min (p.tx.length - p.txPos) (s.maxp nr)) pktBufSize
      s.issue bps now nr .output ((p.tx.drop p.txPos).take len) len answer
  else if p.stopped ∨ p.rxAvail ≠ 0 ∨ p.rxZlp then s
  else s.issue bps now nr .input p.pktBuf (min (s.maxp nr) pktBufSize) answer

/-- `cdj_usbh_timer`, with the answers of the devices to what it issues. -/
def timer (bps : ℕ) (now : ℤ) (setupAnswer : Answer) (answers : ℕ → Answer) (s : State) : State :=
  if !s.running then s
  else
    let s := s.releaseHeld now
    let s := if s.setupPending then s.setup bps now setupAnswer else s
    let s := s.dmaServiceAll now
    (List.range nrPipes).foldl (fun s nr ↦ s.runPipe bps now (answers nr) nr) s

def attach (speed : Speed) (s : State) : State :=
  let s := { s with attached := true, active := some speed, resetDone := false }
  if s.rd rSyscfg &&& drpd ≠ 0 then s.raise1 (attch ||| bchg) else s

/-- `cdj_usbh_child_detach`, for one pipe: what is in flight is cancelled, what is held dropped. -/
def cancelPipe (nr : ℕ) (s : State) : State :=
  let p := s.pipe nr
  if p.inflight ∨ p.held then s.act nr { p with inflight := false, held := false } [.ended] else s

/-- `cdj_usbh_child_detach`: `theirs` are the pipes whose packet the device has. -/
def childDetach (theirs : ℕ → Bool) (s : State) : State :=
  (List.range nrPipes).foldl (fun s nr ↦ if theirs nr then s.cancelPipe nr else s) s

def detach (theirs : ℕ → Bool) (s : State) : State :=
  let s := { s.childDetach theirs with attached := false, active := none, resetDone := false }
  (s.wr rDvstctr (s.rd rDvstctr &&& ~~~0x0010)).raise1 (dtch ||| bchg)

def wakeup (s : State) : State :=
  if !s.attached ∨ s.rd rDvstctr &&& 0x0080 = 0 then s else s.raise1 bchg

def rhst (s : State) : Half :=
  if s.rd rDvstctr &&& usbrst ≠ 0 then 4
  else if !s.attached || !s.resetDone then 0
  else
    match s.active with
    | none => 0
    | some .low => 1
    | some .high => if s.rd rSyscfg &&& 0x0080 ≠ 0 then 3 else 2
    | some .full => 2

def pipectrRead (s : State) (nr : ℕ) : Half :=
  let p := s.pipe nr
  let value := p.ctr &&& if nr = 0 then pidMask ||| sqmon ||| sureq else pidMask ||| sqmon ||| 0x4000
  let value := value ||| if (if s.transmits nr then !p.txValid else p.rxAvail ≠ 0 || p.rxZlp) then 0x8000 else 0
  value ||| if p.inflight then 0x0020 else 0

/-- `cdj_usbh_pipectr_write`, the SETUP requests of DCPCTR. -/
def requestSetup (value : Half) (s : State) : State :=
  let request (s : State) (pending : Bool) (ctr : Half) : State :=
    { s.act 0 { s.pipe 0 with ctr := ctr } [] with setupPending := pending }
  let s := if value &&& sureq ≠ 0 then request s true ((s.pipe 0).ctr ||| sureq) else s
  if value &&& 0x0800 ≠ 0 then request s false ((s.pipe 0).ctr &&& ~~~sureq) else s

def pipectrWrite (nr : ℕ) (value : Half) (s : State) : State :=
  let s :=
    if nr = 0 then s.requestSetup value
    else if value &&& 0x0200 ≠ 0 then s.act nr (s.pipe nr).rxClear.txClear [.readCleared, .writeCleared]
    else s
  let pid := value &&& pidMask
  let ctr := ((s.pipe nr).ctr &&& ~~~(pidMask ||| sqmon)) ||| pid ||| (value &&& sqmon)
  -- BUF re-arms the pipe even if it already read BUF
  if pid = pidBuf then s.act nr { s.pipe nr with ctr := ctr, stopped := false, retries := 0 } [.rearmed]
  else s.act nr { s.pipe nr with ctr := ctr } []

def fifoRead (fifo size : ℕ) (s : State) : ℕ × State :=
  match s.fifoPipe fifo with
  | none => (0, s)
  | some nr =>
    if s.fifoWrites fifo nr then (0, s)
    else
      let p := s.pipe nr
      let bytes := p.unread.take size
      let p := { p with rxPos := p.rxPos + bytes.length }
      let p := if p.rxAvail = 0 then { p with rx := [], rxPos := 0 } else p
      (value bytes, s.act nr p [.taken bytes])

def fifoWrite (fifo value size : ℕ) (s : State) : State :=
  match s.fifoPipe fifo with
  | none => s
  | some nr =>
    if !s.fifoWrites fifo nr then s
    else
      let p := s.pipe nr
      let bytes := little size value
      s.act nr { p with tx := p.tx ++ bytes } [.queued bytes]

def fifoctrRead (s : State) (fifo : ℕ) : Half :=
  match s.fifoPipe fifo with
  | none => 0x2000
  | some nr =>
    if s.fifoWrites fifo nr then 0x2000 else 0x2000 ||| BitVec.ofNat 16 (min (s.pipe nr).rxAvail 0x0fff)

def fifoctrWrite (fifo : ℕ) (value : Half) (s : State) : State :=
  match s.fifoPipe fifo with
  | none => s
  | some nr =>
    if s.fifoWrites fifo nr then
      let s := if value &&& 0x4000 ≠ 0 then s.act nr (s.pipe nr).txClear [.writeCleared] else s
      if value &&& 0x8000 ≠ 0 then s.act nr { s.pipe nr with txValid := true } [.valid] else s
    else if value &&& 0x4000 ≠ 0 then s.act nr (s.pipe nr).rxClear [.readCleared]
    else s

def windowPipe (s : State) : Option ℕ :=
  let nr := (s.rd rPipesel &&& 0x000f).toNat
  if 1 ≤ nr ∧ nr < nrPipes then some nr else none

end State

def port (offset : ℕ) : Option ℕ :=
  if 0x14 ≤ offset ∧ offset < 0x18 then some 0
  else if 0x18 ≤ offset ∧ offset < 0x1c then some 1
  else if 0x1c ≤ offset ∧ offset < 0x20 then some 2
  else if 0x180 ≤ offset ∧ offset < 0x184 then some 1
  else if 0x1c0 ≤ offset ∧ offset < 0x1c4 then some 2
  else none

/-- The fields of a pipe behind PIPESEL. -/
inductive Field
  | cfg
  | buf
  | maxp
  | peri
  deriving DecidableEq

/-- The registers that the module treats apart, by name. -/
inductive Register
  | syscfg
  | syssts
  | dvstctr
  | fifoctr (fifo : ℕ)
  | enable (offset : ℕ)
  | intsts0
  | intsts1
  | pipeSts (offset : ℕ)
  | frmnum
  | ufrmnum
  | usbaddr
  | pipectr (nr : ℕ)
  | window (field : Field)
  | tre (nr : ℕ)
  | trn (nr : ℕ)
  | plain (offset : ℕ)
  deriving DecidableEq

def decode (offset : ℕ) : Register :=
  if offset = rSyscfg then .syscfg
  else if offset = 0x04 then .syssts
  else if offset = rDvstctr then .dvstctr
  else if offset = 0x22 then .fifoctr 0
  else if offset = 0x2a then .fifoctr 1
  else if offset = 0x2e then .fifoctr 2
  else if offset ∈ [rIntenb0, rIntenb1, rBrdyenb, rNrdyenb, rBempenb] then .enable offset
  else if offset = rIntsts0 then .intsts0
  else if offset = rIntsts1 then .intsts1
  else if offset ∈ [rBrdysts, rNrdysts, rBempsts] then .pipeSts offset
  else if offset = 0x4c then .frmnum
  else if offset = 0x4e then .ufrmnum
  else if offset = 0x50 then .usbaddr
  else if offset = 0x60 then .pipectr 0
  else if offset = 0x68 then .window .cfg
  else if offset = 0x6a then .window .buf
  else if offset = 0x6c then .window .maxp
  else if offset = 0x6e then .window .peri
  else if 0x70 ≤ offset ∧ offset < 0x82 then .pipectr (1 + (offset - 0x70) / 2)
  else if 0x90 ≤ offset ∧ offset < 0xa4 then
    if offset / 2 % 2 = 0 then .tre (1 + (offset - 0x90) / 4) else .trn (1 + (offset - 0x90) / 4)
  else .plain offset

def Field.get : Field → Pipe → Half
  | .cfg, p => p.cfg
  | .buf, p => p.buf
  | .maxp, p => p.maxp
  | .peri, p => p.peri

def Field.set (value : Half) : Field → Pipe → Pipe
  | .cfg, p => { p with cfg := value }
  | .buf, p => { p with buf := value }
  | .maxp, p => { p with maxp := value }
  | .peri, p => { p with peri := value }

namespace State

/-- `cdj_usbh_read`, of a register. -/
def readRegister (now : ℤ) (s : State) (offset : ℕ) : Half :=
  match decode offset with
  | .syssts =>
    0x0400 ||| if s.attached && s.rd rSyscfg &&& drpd ≠ 0 then (if s.active = some .low then 2 else 1) else 0
  | .dvstctr => (s.rd rDvstctr &&& ~~~0x0007) ||| s.rhst
  | .fifoctr fifo => s.fifoctrRead fifo
  | .intsts0 => s.intsts0
  | .frmnum => BitVec.ofInt 16 (now / 1000000) &&& 0x7ff
  | .ufrmnum => BitVec.ofInt 16 (now / 125000) &&& 7
  | .usbaddr => 0
  | .pipectr nr => s.pipectrRead nr
  | .window field => (s.windowPipe.map fun nr ↦ field.get (s.pipe nr)).getD 0
  | .tre nr => (s.pipe nr).tre
  | .trn nr => (s.pipe nr).trn
  | _ => s.rd offset

def read (now : ℤ) (offset size : ℕ) (s : State) : ℕ × State :=
  match port offset with
  | some fifo => s.fifoRead fifo size
  | none =>
    let value := (s.readRegister now (offset - offset % 2)).toNat
    (if size = 1 then (if offset % 2 = 1 then value / 256 else value % 256) else value, s)

/-- `cdj_usbh_write`, of a register. -/
def writeRegister (offset : ℕ) (v : Half) (s : State) : State :=
  match decode offset with
  | .syscfg =>
    let raised := v &&& drpd ≠ 0 ∧ s.rd rSyscfg &&& drpd = 0 ∧ s.attached
    let s := s.wr rSyscfg v
    if raised then s.raise1 (attch ||| bchg) else s
  | .dvstctr =>
    let ended := v &&& usbrst = 0 ∧ s.rd rDvstctr &&& usbrst ≠ 0
    let s := s.wr rDvstctr (v &&& 0x01f0)
    if ended then { s with resetDone := true } else s
  | .fifoctr fifo => s.fifoctrWrite fifo v
  | .enable offset => (s.wr offset v).updateIrq
  | .intsts0 => (s.wr rIntsts0 (s.rd rIntsts0 &&& v &&& 0xf800)).updateIrq
  | .intsts1 => (s.wr rIntsts1 (s.rd rIntsts1 &&& v &&& intsts1All)).updateIrq
  | .pipeSts offset => (s.wr offset (s.rd offset &&& v)).updateIrq
  | .pipectr nr => s.pipectrWrite nr v
  | .window field =>
    match s.windowPipe with
    | none => s
    | some nr => s.act nr (field.set v (s.pipe nr)) []
  | .syssts => s
  | .trn nr => s.act nr { s.pipe nr with trn := v } []
  | .tre nr =>
    let p := s.pipe nr
    let p := if v &&& 0x0100 ≠ 0 then { p with trnCount := 0 } else p
    s.act nr { p with tre := v &&& trenb } []
  | _ => s.wr offset v

def write (offset value size : ℕ) (s : State) : State :=
  match port offset with
  | some fifo => s.fifoWrite fifo value size
  | none =>
    let even := offset - offset % 2
    let v := BitVec.ofNat 16 value
    let old := s.rd even
    let merged := if offset % 2 = 1 then (old &&& 0x00ff) ||| (v <<< 8) else (old &&& 0xff00) ||| (v &&& 0xff)
    s.writeRegister even (if size = 1 then merged else v)

/-- `cdj_usbh_reset`, for one pipe. -/
def resetPipe (nr : ℕ) (s : State) : State :=
  let p := s.pipe nr
  let dropped := p.held
  let p :=
    { p with
      cfg := 0, buf := 0, maxp := 0, peri := 0, ctr := sqmon, tre := 0, trn := 0
      trnCount := 0, stopped := false, inTotal := 0, retries := 0
      held := false, inflight := p.inflight && !dropped }
  s.act nr p.rxClear.txClear
    ((if dropped then [.ended] else []) ++ [.rearmed, .readCleared, .writeCleared])

def reset (s : State) : State :=
  let s := (List.range nrPipes).foldl (fun s nr ↦ s.resetPipe nr) { s with reg := fun _ ↦ 0 }
  { s with
    dma := fun _ ↦ ⟨false, false, 0, 0, 0, 0⟩
    resetDone := false
    setupPending := false
    irqLevel := false }

end State

/-- A pipe before its first packet, after `cdj_usbh_realize` and `cdj_usbh_reset`. -/
def Pipe.initial : Pipe where
  cfg := 0
  buf := 0
  maxp := 0
  peri := 0
  ctr := sqmon
  tre := 0
  trn := 0
  trnCount := 0
  rx := []
  rxPos := 0
  rxZlp := false
  tx := []
  txPos := 0
  txValid := false
  txHoldUntil := 0
  stopped := false
  inTotal := 0
  retries := 0
  packet := ⟨.output, .success, 0, 0⟩
  inflight := false
  held := false
  heldUntil := 0
  pktBuf := []

def State.initial (memory : ℕ → Byte) : State where
  reg _ := 0
  pipe _ := .initial
  dma _ := ⟨false, false, 0, 0, 0, 0⟩
  irqLevel := false
  attached := false
  active := none
  resetDone := false
  setupPending := false
  memory := memory
  done := []
  log := []

/-- What reaches the module: the timer, the devices, the guest, the DMAC, the port and the
other masters of the memory. -/
inductive Event
  | timer (now : ℤ) (setupAnswer : Answer) (answers : ℕ → Answer)
  /-- `cdj_usbh_async_complete`. -/
  | complete (now : ℤ) (nr : ℕ) (reply : Reply)
  | read (now : ℤ) (offset size : ℕ)
  | write (offset value size : ℕ)
  | dmaStart (now : ℤ) (offset : ℕ) (toFifo : Bool) (memory nrBytes channel : ℕ)
  | attach (speed : Speed)
  | detach (theirs : ℕ → Bool)
  | childDetach (theirs : ℕ → Bool)
  | wakeup
  | reset
  | stored (memory : ℕ → Byte)

def State.step (bps : ℕ) (s : State) : Event → State
  | .timer now setupAnswer answers => s.timer bps now setupAnswer answers
  | .complete now nr reply =>
    if (s.pipe nr).inflight ∧ ¬(s.pipe nr).held then s.conclude bps now nr reply else s
  | .read now offset size => (s.read now offset size).2
  | .write offset value size => s.write offset value size
  | .dmaStart now offset toFifo memory nrBytes channel => s.dmaStart now offset toFifo memory nrBytes channel
  | .attach speed => s.attach speed
  | .detach theirs => s.detach theirs
  | .childDetach theirs => s.childDetach theirs
  | .wakeup => s.wakeup
  | .reset => s.reset
  | .stored memory => { s with memory := memory }

def State.run (bps : ℕ) (s : State) (events : List Event) : State := events.foldl (State.step bps) s

end Cdj2000Emulator.Usbh
