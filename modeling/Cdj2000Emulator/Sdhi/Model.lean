import Cdj2000Emulator.Library.Bytes

namespace Cdj2000Emulator.Sdhi

open Library.Bytes

variable {σ : Type}

/-- The card behind the SD bus. -/
structure Card (σ : Type) where
  /-- `sdbus_read_byte` -/
  readByte : σ → Byte × σ
  /-- `sdbus_write_byte` -/
  writeByte : Byte → σ → σ
  /-- `sdbus_do_command`, of a command with its argument -/
  command : BitVec 16 → BitVec 32 → σ → List Byte × σ

namespace Card

variable (card : Card σ)

def readBytes : ℕ → σ → List Byte × σ
  | 0, c => ([], c)
  | n + 1, c =>
    let (byte, c) := card.readByte c
    let (bytes, c) := readBytes n c
    (byte :: bytes, c)

def writeBytes (bytes : List Byte) (c : σ) : σ := bytes.foldl (fun c byte ↦ card.writeByte byte c) c

theorem length_readBytes {n : ℕ} {c : σ} : (card.readBytes n c).1.length = n := by
  induction n generalizing c with
  | zero => rfl
  | succ n ih => exact congrArg (· + 1) ih

theorem readBytes_add (n m : ℕ) (c : σ) : card.readBytes (n + m) c =
    ((card.readBytes n c).1 ++ (card.readBytes m (card.readBytes n c).2).1,
      (card.readBytes m (card.readBytes n c).2).2) := by
  induction n generalizing c with
  | zero => rw [Nat.zero_add]; rfl
  | succ n ih =>
    rw [Nat.succ_add, readBytes, readBytes]
    dsimp only
    rw [ih]
    rfl

theorem writeBytes_append (bytes more : List Byte) (c : σ) :
    card.writeBytes (bytes ++ more) c = card.writeBytes more (card.writeBytes bytes c) :=
  List.foldl_append

end Card

/-- `CdjSdhiState`. The data timer is the time at which it expires, while it runs. -/
structure State (σ : Type) where
  arg0 : BitVec 16
  arg1 : BitVec 16
  seccnt : BitVec 16
  sizereg : BitVec 16
  stop : BitVec 16
  info1 : BitVec 16
  info2 : BitVec 16
  info2Mask : BitVec 16
  rsp : ℕ → BitVec 16
  buf : ℕ → Byte
  bufLen : ℕ
  bufPos : ℕ
  blocksLeft : ℕ
  multi : Bool
  writing : Bool
  ejected : Bool
  irq : Bool
  dataTimer : Option ℤ
  card : σ

/-- What the guest and the card can tell of a data phase. -/
inductive Label
  /-- RXRDY or TXRQ is raised. -/
  | ready
  /-- Bytes go to the guest. -/
  | handed (bytes : List Byte)
  /-- Bytes go to the card. -/
  | stored (bytes : List Byte)
  /-- DATAEND is raised. -/
  | dataEnd
  /-- The automatic CMD12. -/
  | autoStop

namespace State

def cmdRespond : BitVec 16 := 1 <<< 0

def dataEndBit : BitVec 16 := 1 <<< 2

def infoCard : BitVec 16 := 1 <<< 5

def cmdTimeout : BitVec 16 := 1 <<< 6

def rxRdy : BitVec 16 := 1 <<< 8

def txRq : BitVec 16 := 1 <<< 9

def respMask : BitVec 16 := 0x0700

def respNone : BitVec 16 := 0x0300

def cmdData : BitVec 16 := 0x0800

def cmdRead : BitVec 16 := 0x1000

def cmdMulti : BitVec 16 := 0x2000

/-- `SDHI_STOP_SEC_ENABLE`. -/
def stopEnable : BitVec 16 := 1 <<< 8

def bufSize : ℕ := 512

def xferNs : ℤ := 20000

/-- `cdj_media_rate_ns`, at a rate in bytes a second; none when it is 0. -/
def mediaRateNs (bps bytes : ℕ) : ℤ := if bps = 0 then 0 else ((bytes * 1000000000 / bps : ℕ) : ℤ)

variable (card : Card σ) (bps : ℕ)

def blockNs (s : State σ) : ℤ := if s.writing then xferNs else max xferNs (mediaRateNs bps s.bufLen)

def updateIrq (s : State σ) : State σ := { s with irq := s.info2 &&& ~~~s.info2Mask &&& (rxRdy ||| txRq) ≠ 0 }

/-- The bytes of the buffer from `a` up to `b`. -/
def slice (s : State σ) (a b : ℕ) : List Byte := (List.range (b - a)).map fun i ↦ s.buf (a + i)

/-- Bytes laid into the buffer from `a` on. -/
def lay (a : ℕ) (bytes : List Byte) (buf : ℕ → Byte) : ℕ → Byte := fun i ↦
  if a ≤ i then bytes.getD (i - a) (buf i) else buf i

def fillBlock (s : State σ) : State σ × List Label :=
  let (bytes, c) := card.readBytes s.bufLen s.card
  (updateIrq { s with card := c, buf := lay 0 bytes s.buf, bufPos := 0, info2 := s.info2 ||| rxRdy }, [.ready])

/-- `cdj_sdhi_data_ready`, when the data timer expires. -/
def dataReady (s : State σ) : State σ × List Label :=
  let s := { s with dataTimer := none }
  if s.bufLen = 0 then (s, [])
  else if s.writing then (updateIrq { s with bufPos := 0, info2 := s.info2 ||| txRq }, [.ready])
  else fillBlock card s

def storeResponse (rsp : List Byte) (s : State σ) : State σ :=
  let byte i := rsp.getD i 0
  { s with
    rsp := fun i ↦
      if rsp.length = 4 then
        if i = 0 then byte 2 ++ byte 3 else if i = 1 then byte 0 ++ byte 1 else 0
      else if rsp.length = 16 then
        if i < 7 then byte (13 - 2 * i) ++ byte (14 - 2 * i) else if i = 7 then (byte 0).setWidth 16 else 0
      else 0 }

/-- The start of the data phase in `cdj_sdhi_command`. -/
def startData (now : ℤ) (cmd : BitVec 16) (s : State σ) : State σ :=
  let multi := cmd &&& cmdMulti ≠ 0
  let s := { s with
    bufLen := min (if s.sizereg = 0 then 512 else s.sizereg.toNat) bufSize
    multi
    blocksLeft := if multi ∧ s.seccnt ≠ 0 then s.seccnt.toNat else 1
    writing := cmd &&& cmdRead = 0 }
  { s with dataTimer := some (now + s.blockNs bps) }

def answer (cmd : BitVec 16) (s : State σ) : List Byte × σ :=
  if s.ejected then ([], s.card) else card.command (cmd &&& 0x3f) (s.arg1 ++ s.arg0) s.card

def Answered (cmd : BitVec 16) (s : State σ) : Prop :=
  cmd &&& respMask = respNone ∨ (s.answer card cmd).1.length = 4 ∨ (s.answer card cmd).1.length = 16

instance (cmd : BitVec 16) (s : State σ) : Decidable (s.Answered card cmd) := inferInstanceAs (Decidable (_ ∨ _))

def command (now : ℤ) (cmd : BitVec 16) (s : State σ) : State σ :=
  let t := { s with
    info1 := s.info1 &&& ~~~dataEndBit
    info2 := s.info2 &&& ~~~(cmdTimeout ||| rxRdy ||| txRq)
    bufLen := 0
    bufPos := 0
    blocksLeft := 0
    card := (s.answer card cmd).2 }
  if ¬s.Answered card cmd then
    updateIrq { t with info2 := t.info2 ||| cmdTimeout, info1 := t.info1 ||| cmdRespond }
  else
    let t := if cmd &&& respMask = respNone then t else storeResponse (s.answer card cmd).1 t
    let t := { t with info1 := t.info1 ||| cmdRespond }
    updateIrq (if cmd &&& cmdData ≠ 0 then startData bps now cmd t else t)

def dataEnd (s : State σ) : State σ × List Label :=
  let reported := if s.info1 &&& dataEndBit = 0 then [.dataEnd] else []
  let s := { s with blocksLeft := 0, info1 := s.info1 ||| dataEndBit }
  if s.multi ∧ s.stop &&& stopEnable ≠ 0 then
    ({ s with card := (card.command 12 0 s.card).2, multi := false }, reported ++ [.autoStop])
  else ({ s with multi := false }, reported)

def clearReady (s : State σ) : State σ := updateIrq { s with info2 := s.info2 &&& ~~~(rxRdy ||| txRq) }

def blockDone (now : ℤ) (s : State σ) : State σ × List Label :=
  let s := s.clearReady
  if 1 < s.blocksLeft then
    ({ s with blocksLeft := s.blocksLeft - 1, dataTimer := some (now + s.blockNs bps) }, [])
  else dataEnd card s

def flushBlock (now : ℤ) (s : State σ) : State σ × List Label :=
  let bytes := s.slice 0 s.bufLen
  let (s, out) := blockDone card bps now { s with card := card.writeBytes bytes s.card, bufPos := 0 }
  (s, .stored bytes :: out)

def take (now : ℤ) (n : ℕ) (s : State σ) : List Byte × State σ × List Label :=
  let pos := s.bufPos + min n (s.bufLen - s.bufPos)
  let bytes := s.slice s.bufPos pos
  let s := { s with bufPos := pos }
  (bytes, if s.bufLen ≤ s.bufPos then blockDone card bps now s else (s, []))

def handOver (taken : List Byte × State σ × List Label) : State σ × List Label :=
  (taken.2.1, .handed taken.1 :: taken.2.2)

def laid (bytes : List Byte) (s : State σ) : State σ :=
  { s with buf := lay s.bufPos bytes s.buf, bufPos := s.bufPos + bytes.length }

def put (now : ℤ) (bytes : List Byte) (s : State σ) : State σ × List Label :=
  let s := s.laid (bytes.take (s.bufLen - s.bufPos))
  if s.bufLen ≤ s.bufPos then flushBlock card bps now s else (s, [])

/-- `SDHI_DATA` in `cdj_sdhi_read_halfword`. -/
def readData (now : ℤ) (s : State σ) : BitVec 16 × State σ × List Label :=
  if s.bufLen ≤ s.bufPos + 1 then
    let bytes := s.slice s.bufPos s.bufLen
    let (t, out) := blockDone card bps now { s with bufPos := s.bufLen }
    ((bytes.headD 0).setWidth 16, t, .handed bytes :: out)
  else (s.buf (s.bufPos + 1) ++ s.buf s.bufPos, handOver (take card bps now 2 s))

/-- `SDHI_DATA` in `cdj_sdhi_write`. -/
def writeData (now : ℤ) (value : BitVec 16) (s : State σ) : State σ × List Label :=
  if s.writing = false ∨ s.bufLen ≤ s.bufPos then (s, [])
  else put card bps now [value.setWidth 8, (value >>> 8).setWidth 8] s

/-- `cdj_sdhi_dma_read` into a buffer: its result, the buffer after it, and what the host does. -/
def dmaRead (now : ℤ) (buffer : List Byte) (s : State σ) : Bool × List Byte × State σ × List Label :=
  if s.bufLen = 0 then (false, buffer, s, [])
  else
    let (bytes, s, out) := take card bps now buffer.length s
    (true, bytes ++ buffer.drop bytes.length, s, out)

/-- The read of `cdj_dmac_run`, with what `g_malloc` left in the buffer: all of it goes to the guest
when the host returns true. -/
def dmacRead (now : ℤ) (buffer : List Byte) (s : State σ) : State σ × List Label :=
  let (ok, buffer, s, out) := dmaRead card bps now buffer s
  (s, if ok then .handed buffer :: out else out)

def dmaWrite (now : ℤ) (bytes : List Byte) (s : State σ) : Bool × State σ × List Label :=
  if s.bufLen = 0 ∨ s.writing = false then (false, s, []) else (true, put card bps now bytes s)

/-- `cdj_sdhi_reset`, of a host with all else zero. -/
def reset (c : σ) : State σ where
  arg0 := 0
  arg1 := 0
  seccnt := 0
  sizereg := 512
  stop := 0
  info1 := 0
  info2 := 0
  info2Mask := 0xffff
  rsp _ := 0
  buf _ := 0
  bufLen := 0
  bufPos := 0
  blocksLeft := 0
  multi := false
  writing := false
  ejected := false
  irq := false
  dataTimer := none
  card := c

/-- The registers of `cdj_sdhi_write` that a data phase goes on under. -/
inductive Reg
  | arg0
  | arg1
  | seccnt
  | sizereg
  | info1
  | info2
  | info2Mask

/-- `cdj_sdhi_write` of a halfword. -/
def writeReg (reg : Reg) (value : BitVec 16) (s : State σ) : State σ :=
  match reg with
  | .arg0 => { s with arg0 := value }
  | .arg1 => { s with arg1 := value }
  | .seccnt => { s with seccnt := value }
  | .sizereg => { s with sizereg := value }
  | .info1 => { s with info1 := s.info1 &&& (value ||| infoCard) }
  | .info2 => updateIrq { s with info2 := s.info2 &&& value }
  | .info2Mask => updateIrq { s with info2Mask := value }

end State

end Cdj2000Emulator.Sdhi
