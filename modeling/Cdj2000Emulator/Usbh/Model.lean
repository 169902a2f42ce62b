import Cdj2000Emulator.Library.Store
import Cdj2000Emulator.Sdhi.Model
import Mathlib.Logic.Function.Basic

namespace Cdj2000Emulator.Usbh

open Function Library Library.Bytes

abbrev Half := BitVec 16

/-- `USB_TOKEN_SETUP`, `USB_TOKEN_IN` and `USB_TOKEN_OUT`. -/
inductive Token
  | setup
  | input
  | output
  deriving DecidableEq

/-- `USB_RET_SUCCESS`, `USB_RET_NAK`, `USB_RET_STALL` and the rest. -/
inductive Status
  | success
  | nak
  | stall
  | error
  deriving DecidableEq

/-- `USBPacket`: `size` is the room of its buffer. -/
structure Packet where
  pid : Token
  status : Status
  size : ℕ
  actualLength : ℕ

/-- `CdjUsbhPipe`; `pktBuf` is what the packet carries. -/
structure Pipe where
  cfg : Half
  buf : Half
  maxp : Half
  peri : Half
  ctr : Half
  tre : Half
  trn : Half
  trnCount : ℕ
  rx : List Byte
  rxPos : ℕ
  rxZlp : Bool
  tx : List Byte
  txPos : ℕ
  txValid : Bool
  txHoldUntil : ℤ
  stopped : Bool
  inTotal : ℕ
  retries : ℕ
  packet : Packet
  inflight : Bool
  held : Bool
  heldUntil : ℤ
  pktBuf : List Byte

structure Dma where
  active : Bool
  toFifo : Bool
  memory : ℕ
  remaining : ℕ
  moved : ℕ
  channel : ℕ

/-- A packet that the device has. -/
inductive Flight
  | setup
  | input
  | output (bytes : List Byte)
  deriving DecidableEq

/-- What can be seen of a pipe, from the bus and from the ports. -/
inductive Entry
  | token (flight : Flight)
  /-- The packet of an IN token reaches the buffer, perhaps the last that the pipe asks for. -/
  | received (bytes : List Byte) (last : Bool)
  | sent (bytes : List Byte)
  /-- A packet is over without data. -/
  | ended
  /-- Bytes go to a reader. -/
  | taken (bytes : List Byte)
  | queued (bytes : List Byte)
  /-- What is queued may go out. -/
  | valid
  | readCleared
  | writeCleared
  /-- The pipe may ask again. -/
  | rearmed
  deriving DecidableEq

inductive Speed
  | low
  | full
  | high
  deriving DecidableEq

/-- `CdjUsbhState`, with the memory that the DMA reaches, the completions reported to the DMAC
and what has been seen of the pipes. -/
structure State where
  reg : ℕ → Half
  pipe : ℕ → Pipe
  dma : ℕ → Dma
  irqLevel : Bool
  attached : Bool
  active : Option Speed
  resetDone : Bool
  setupPending : Bool
  memory : ℕ → Byte
  done : List (ℕ × ℕ)
  log : List (ℕ × Entry)

def nrPipes : ℕ := 10

def pktBufSize : ℕ := 1024

def microframeNs : ℤ := 125000

def rSyscfg : ℕ := 0x00

def rDvstctr : ℕ := 0x08

def rIntenb0 : ℕ := 0x30

def rIntenb1 : ℕ := 0x32

def rBrdyenb : ℕ := 0x36

def rNrdyenb : ℕ := 0x38

def rBempenb : ℕ := 0x3a

def rIntsts0 : ℕ := 0x40

def rIntsts1 : ℕ := 0x42

def rBrdysts : ℕ := 0x46

def rNrdysts : ℕ := 0x48

def rBempsts : ℕ := 0x4a

def rUsbreq : ℕ := 0x54

def rUsbleng : ℕ := 0x5a

def rDcpcfg : ℕ := 0x5c

def rDcpmaxp : ℕ := 0x5e

def rPipesel : ℕ := 0x64

def drpd : Half := 0x0020

def usbrst : Half := 0x0040

/-- `INTSTS1_ALL`: SACK, SIGN, EOFERR, ATTCH, DTCH and BCHG. -/
def intsts1All : Half := 0x5870

def sack : Half := 0x0010

def sign : Half := 0x0020

def attch : Half := 0x0800

def dtch : Half := 0x1000

def bchg : Half := 0x4000

/-- `PIPECFG_DIR`, which is `DCPCFG_DIR` too. -/
def dir : Half := 0x0010

def shtnak : Half := 0x0080

def sureq : Half := 0x4000

def sqmon : Half := 0x0040

/-- `PIPECTR_PID`. -/
def pidMask : Half := 0x0003

def pidNak : Half := 0

def pidBuf : Half := 1

def pidStall : Half := 3

def trenb : Half := 0x0200

namespace Pipe

variable (p : Pipe)

/-- The bytes of which `pipe_rx_avail` is the number. -/
def unread : List Byte := p.rx.drop p.rxPos

def rxAvail : ℕ := p.rx.length - p.rxPos

def rxClear : Pipe := { p with rx := [], rxPos := 0, rxZlp := false }

def txClear : Pipe := { p with tx := [], txPos := 0, txValid := false }

def setPid (pid : Half) : Pipe := { p with ctr := (p.ctr &&& ~~~pidMask) ||| (pid &&& pidMask) }

def received (last : Bool) : Pipe :=
  { p with
    inflight := false
    retries := 0
    rx := p.rx ++ p.pktBuf
    rxZlp := p.rxZlp || p.packet.actualLength = 0
    trnCount := p.trnCount + 1
    inTotal := p.inTotal + p.packet.actualLength
    stopped := p.stopped || last }

/-- An OUT packet took `n` bytes of the buffer. -/
def passed (n : ℕ) : Pipe := { p with inflight := false, retries := 0, txPos := p.txPos + n }

def issued (pid : Token) (buffer : List Byte) (len : ℕ) : Pipe :=
  { p with pktBuf := buffer, inflight := true, packet := ⟨pid, .success, len, 0⟩ }

def flying : Option Flight :=
  if p.inflight then
    some (match p.packet.pid with
      | .setup => .setup
      | .input => .input
      | .output => .output p.pktBuf)
  else none

end Pipe

namespace State

variable (s : State)

def rd (off : ℕ) : Half := s.reg off

def wr (off : ℕ) (value : Half) : State := { s with reg := update s.reg off value }

def act (nr : ℕ) (p : Pipe) (entries : List Entry) : State :=
  { s with pipe := update s.pipe nr p, log := s.log ++ entries.map fun e ↦ (nr, e) }

def summary (sts enb bit : Half) : Half := if sts &&& enb ≠ 0 then bit else 0

def intsts0 : Half :=
  (s.rd rIntsts0 &&& 0xf800)
    ||| summary (s.rd rBrdysts) (s.rd rBrdyenb) 0x0100
    ||| summary (s.rd rNrdysts) (s.rd rNrdyenb) 0x0200
    ||| summary (s.rd rBempsts) (s.rd rBempenb) 0x0400

/-- The level that `cdj_usbh_update_irq` computes. -/
def level : Bool :=
  s.intsts0 &&& s.rd rIntenb0 &&& 0xff00 != 0 || s.rd rIntsts1 &&& s.rd rIntenb1 &&& intsts1All != 0

def updateIrq : State := { s with irqLevel := s.level }

def raise1 (bits : Half) : State := (s.wr rIntsts1 (s.rd rIntsts1 ||| bits)).updateIrq

def pipeStatus (reg nr : ℕ) : State := (s.wr reg (s.rd reg ||| (1 <<< nr))).updateIrq

/-- `pipe_transmits`: host to device, as the driver configured it. -/
def transmits (nr : ℕ) : Bool :=
  if nr = 0 then s.rd rDcpcfg &&& dir ≠ 0 else (s.pipe nr).cfg &&& dir ≠ 0

def maxp (nr : ℕ) : ℕ :=
  let maxp := if nr = 0 then (s.rd rDcpmaxp &&& 0x007f).toNat else ((s.pipe nr).maxp &&& 0x07ff).toNat
  if maxp = 0 then 64 else maxp

def isBulk (nr : ℕ) : Bool := nr ≠ 0 && (s.pipe nr).cfg &&& 0xc000 = 0x4000

/-- The select register of a FIFO port. -/
def sel : ℕ → ℕ
  | 0 => 0x20
  | 1 => 0x28
  | _ => 0x2c

/-- `fifo_pipe`: the DCP is reached through the CFIFO only. -/
def fifoPipe (fifo : ℕ) : Option ℕ :=
  let nr := (s.rd (sel fifo) &&& 0x000f).toNat
  if fifo ≠ 0 ∧ nr = 0 then none else if nr < nrPipes then some nr else none

def fifoWrites (fifo nr : ℕ) : Bool :=
  if fifo = 0 ∧ nr = 0 then s.rd (sel 0) &&& 0x0020 ≠ 0 else s.transmits nr

def dmaFinish (fifo : ℕ) : State :=
  let dma := s.dma fifo
  { s with dma := update s.dma fifo { dma with active := false }, done := s.done ++ [(dma.channel, dma.moved)] }

/-- The DMA moves on by `n` bytes. -/
def dmaAdvance (fifo n : ℕ) : State :=
  let dma := s.dma fifo
  let dma := { dma with memory := dma.memory + n, remaining := dma.remaining - n, moved := dma.moved + n }
  { s with dma := update s.dma fifo dma }

/-- `cdj_usbh_dma_service`, from memory to the transmit buffer. -/
def dmaFill (now : ℤ) (fifo nr : ℕ) : State :=
  let p := s.pipe nr
  let dma := s.dma fifo
  if !p.txValid && dma.remaining ≠ 0 then
    let bytes := Store.read s.memory dma.memory dma.remaining
    (s.dmaAdvance fifo dma.remaining).act nr
      { p with tx := p.tx ++ bytes, txValid := true, txHoldUntil := now + microframeNs } [.queued bytes, .valid]
  else s

/-- `cdj_usbh_dma_service`, from the receive buffer to memory. -/
def dmaDrain (fifo nr : ℕ) : State :=
  let p := s.pipe nr
  let dma := s.dma fifo
  let n := min p.rxAvail dma.remaining
  if n ≠ 0 then
    let bytes := p.unread.take n
    let p := { p with rxPos := p.rxPos + n }
    let p := if p.rxAvail = 0 then p.rxClear else p
    ({ s with memory := Store.write s.memory dma.memory bytes }.dmaAdvance fifo n).act nr p [.taken bytes]
  else s

def dmaService (now : ℤ) (fifo : ℕ) : State :=
  if !(s.dma fifo).active || s.rd (sel fifo) &&& 0x1000 = 0 then s
  else
    match s.fifoPipe fifo with
    | none => s
    | some nr =>
      let s := if (s.dma fifo).toFifo then s.dmaFill now fifo nr else s.dmaDrain fifo nr
      if (s.dma fifo).remaining = 0 then s.dmaFinish fifo else s

def dmaServiceAll (now : ℤ) : State := (s.dmaService now 1).dmaService now 2

def dmaStart (now : ℤ) (offset : ℕ) (toFifo : Bool) (memory nrBytes channel : ℕ) : State :=
  let fifo := if offset = 0x1c0 then 2 else 1
  State.dmaService { s with dma := update s.dma fifo ⟨true, toFifo, memory, nrBytes, 0, channel⟩ } now fifo

end State

end Cdj2000Emulator.Usbh
