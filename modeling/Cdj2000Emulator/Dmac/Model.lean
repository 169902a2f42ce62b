import Mathlib.Data.List.FinRange
import Mathlib.Logic.Function.Basic

namespace Cdj2000Emulator.Dmac

abbrev Word := BitVec 32

abbrev Index := Fin 16

/-- The lines that completions go out on. -/
inductive Line
  | usbh
  | panelRx
  | panelTx
  | dma5
  | sdhi
  | dsp
  deriving DecidableEq

inductive Half
  | rx
  | tx
  deriving DecidableEq

/-- `CDJ_DMA_PLAIN` and the others. -/
inductive Role
  | plain
  | panel (half : Half)
  | dsp
  | usbh
  deriving DecidableEq

/-- The kinds of completion, each with a pending flag of its own. -/
inductive Kind
  | panel (half : Half)
  | sdhi
  | dsp
  | dma5
  | usbh
  deriving DecidableEq

structure Channel where
  sar : Word
  dar : Word
  tcr : Word
  chcr : Word
  role : Role
  armed : Bool

/-- `CdjDmacState`, with the level of each line. -/
structure State where
  dmaor : Word
  channel : Index → Channel
  pending : Kind → Bool
  panelIndex : Half → Index
  panelLine : Half → Option Line
  usbhChannel : Index
  panelPresent : Bool
  /-- The machine has the UHPI of the NXS board. -/
  nxs : Bool
  level : Line → Bool

def chcrDe : Word := 0x0001

def chcrTe : Word := 0x0002

def chcrIe : Word := 0x0004

def chcrTsWide : Word := 0x0008

def panelScifTdr : Word := 0xffe2000c

def panelScifRdr : Word := 0xffe20014

def sdhiDataPort : Word := 0xffe40030

def usbhBase : Word := 0x1e400000

def hpiBase : Word := 0x0c000000

def dma5Channel : Index := 5

/-- The firmware hands the DMAC P1 and P2 addresses: the top three bits are not part of the address. -/
def phys (address : Word) : Word := address &&& 0x1fffffff

def isWindow (address : Word) : Bool := 0x0c0c0000 ≤ address && address < 0x0c0d0000

def usbhPort (address : Word) : Bool := address &&& ~~~0xff == usbhBase + 0x100

/-- `channel_irq`: the completion vector of each channel. -/
def channelIrq (c : Index) : Option Line :=
  if c = 2 then some .usbh else if c = 3 then some .panelRx else if c = 4 then some .panelTx
  else if c = 5 then some .dma5 else none

namespace Channel

/-- `cdj_dmac_role`. -/
def roleOf (ch : Channel) : Role :=
  if ch.sar = panelScifRdr then .panel .rx
  else if ch.dar = panelScifTdr then .panel .tx
  else if isWindow (phys ch.sar) || isWindow (phys ch.dar) then .dsp
  else .plain

def complete (source destination : Word) (ch : Channel) : Channel :=
  { ch with sar := source, dar := destination, tcr := 0, chcr := ch.chcr &&& ~~~chcrDe ||| chcrTe }

/-- The completion asks for an interrupt. -/
def enabled (ch : Channel) : Bool := ch.chcr &&& chcrIe != 0

def sourceMode (ch : Channel) : Word := ch.chcr >>> 12 &&& 3

def destinationMode (ch : Channel) : Word := ch.chcr >>> 14 &&& 3

/-- The transfer size of a UHPI access. -/
def size (ch : Channel) : Word := ch.chcr >>> 3 &&& 3 ||| (ch.chcr >>> 18 &&& 4)

/-- The bytes of one transfer of a copy. -/
def unit (ch : Channel) : Word := if ch.chcr &&& chcrTsWide = 0 then 4 else 16

/-- An address after `total` bytes: fixed, incremented or decremented. -/
def advance (mode address total : Word) : Word :=
  if mode = 1 then address + total else if mode = 2 then address - total else address

end Channel

/-- The ways that `cdj_dmac_run` can go. -/
inductive Transfer
  | hpi
  /-- A UHPI transfer that is not supported. -/
  | refused
  | panel
  | usbh
  | sdhi
  /-- A copy; one end may be the window of the DSP. -/
  | copy (window : Bool)
  deriving DecidableEq

namespace State

def hpiPort (s : State) (address : Word) : Bool :=
  s.nxs && (address == hpiBase + 0x80000 || address == hpiBase + 0xc0000)

/-- Which way a start of the channel goes. -/
def transfer (s : State) (ch : Channel) : Transfer :=
  if s.hpiPort (phys ch.sar) || s.hpiPort (phys ch.dar) then
    if ch.size ≠ 2 ∨ 1 < ch.sourceMode ∨ 1 < ch.destinationMode ∨ ch.tcr = 0 then .refused else .hpi
  else if ch.roleOf = .panel .rx ∨ ch.roleOf = .panel .tx then .panel
  else if usbhPort (phys ch.sar) || usbhPort (phys ch.dar) then .usbh
  else if ch.sar = sdhiDataPort ∨ ch.dar = sdhiDataPort then .sdhi
  else .copy (ch.roleOf = .dsp)

def setChannel (c : Index) (ch : Channel) (s : State) : State :=
  { s with channel := Function.update s.channel c ch }

/-- `qemu_set_irq`, on a line that may not be connected. -/
def setIrq (line : Option Line) (up : Bool) (s : State) : State :=
  match line with
  | some l => { s with level := Function.update s.level l up }
  | none => s

def setPending (k : Kind) (up : Bool) (s : State) : State := { s with pending := Function.update s.pending k up }

def lineOf (s : State) : Kind → Option Line
  | .panel half => s.panelLine half
  | .sdhi => some .sdhi
  | .dsp => some .dsp
  | .dma5 => some .dma5
  | .usbh => some .usbh

/-- A completion whose flag is up already changes nothing. -/
def raiseOnce (k : Kind) (s : State) : State :=
  if s.pending k then s else (s.setPending k true).setIrq (s.lineOf k) true

def panelRaise (half : Half) (c : Index) (s : State) : State :=
  if (s.channel c).enabled then
    { s.setPending (.panel half) true with
      panelIndex := Function.update s.panelIndex half c
      panelLine := Function.update s.panelLine half (channelIrq c) }.setIrq (channelIrq c) true
  else s

/-- Only the memory side of a panel transfer advances. -/
def panelComplete (half : Half) (c : Index) (s : State) : State :=
  let ch := s.channel c
  match half with
  | .tx => s.setChannel c ({ ch with armed := false }.complete (ch.sar + ch.tcr) ch.dar)
  | .rx => s.setChannel c ({ ch with armed := false }.complete ch.sar (ch.dar + ch.tcr))

/-- A turn of one of the loops of `cdj_dmac_panel_done`. A machine with no panel leaves the receive half armed. -/
def panelTurn (half : Half) (s : State) (c : Index) : State :=
  if !(s.channel c).armed || (s.channel c).role ≠ .panel half || (half = .rx && !s.panelPresent) then s
  else (s.panelComplete half c).panelRaise half c

/-- `cdj_dmac_panel_done`. Transmit first: the panel answers a poll. -/
def panelDone (s : State) : State :=
  (List.finRange 16).foldl (panelTurn .rx) ((List.finRange 16).foldl (panelTurn .tx) s)

def dspIrq (c : Index) (s : State) : State :=
  if !(s.channel c).enabled then s
  else if c = dma5Channel then s.raiseOnce .dma5
  else s.raiseOnce .dsp

def usbhDone (c : Index) (bytes : Word) (s : State) : State :=
  let ch := s.channel c
  let ch := if usbhPort (phys ch.dar) then ch.complete (phys ch.sar + bytes) ch.dar
    else ch.complete ch.sar (phys ch.dar + bytes)
  (s.setChannel c ch).raiseOnce .usbh

def usbhStart (c : Index) (s : State) : State :=
  { s.setChannel c { s.channel c with role := .usbh } with usbhChannel := c }

/-- `cdj_dmac_run`. The module may have the bytes at hand when a USB transfer starts, and then answers at once. -/
def run (c : Index) (answer : Option Word) (s : State) : State :=
  let ch := s.channel c
  let source := phys ch.sar
  let destination := phys ch.dar
  match s.transfer ch with
  | .hpi =>
    let ch := { ch with role := .dsp }.complete (if ch.sourceMode = 0 then source else source + 4 * ch.tcr)
      (if ch.destinationMode = 0 then destination else destination + 4 * ch.tcr)
    (s.setChannel c ch).dspIrq c
  | .refused => s
  | .panel => s.setChannel c { ch with role := ch.roleOf, armed := true }
  | .usbh =>
    match answer with
    | some bytes => (s.usbhStart c).usbhDone c bytes
    | none => s.usbhStart c
  | .sdhi =>
    let ch := { ch with role := ch.roleOf }
    let ch := if ch.dar = sdhiDataPort then ch.complete (source + 2 * ch.tcr) ch.dar
      else ch.complete ch.sar (destination + 2 * ch.tcr)
    (s.setChannel c ch).raiseOnce .sdhi
  | .copy window =>
    let total := ch.tcr * ch.unit
    let ch := { ch with role := ch.roleOf }.complete (Channel.advance ch.sourceMode source total)
      (Channel.advance ch.destinationMode destination total)
    let s := s.setChannel c ch
    if window then s.dspIrq c else s

def accepts (s : State) (c : Index) (value : Word) : Kind → Bool
  | .panel half => value &&& chcrTe == 0 && (s.channel c).role == .panel half
  | .sdhi => value &&& chcrTe == 0 && (s.channel c).sar == sdhiDataPort
  | .dsp => value &&& chcrTe == 0 && (s.channel c).role == .dsp && c != dma5Channel
  | .dma5 => c == dma5Channel && (value &&& chcrTe == 0 || value &&& chcrIe == 0)
  | .usbh => c == s.usbhChannel && (value &&& chcrTe == 0 || value &&& chcrIe == 0)

/-- One of the tests of a write of CHCR. -/
def release (c : Index) (value : Word) (s : State) (k : Kind) : State :=
  if s.pending k && s.accepts c value k then (s.setPending k false).setIrq (s.lineOf k) false else s

def kinds : List Kind := [.panel .rx, .panel .tx, .sdhi, .dsp, .dma5, .usbh]

def writeChcr (c : Index) (value : Word) (answer : Option Word) (s : State) : State :=
  let s := kinds.foldl (release c value) s
  let s := s.setChannel c { s.channel c with chcr := value }
  if value &&& chcrDe ≠ 0 ∧ s.dmaor &&& 1 ≠ 0 then s.run c answer else s

end State

/-- `cdj_dmac_channel_of`. DMAOR occupies the block that a seventh channel would have used. -/
def channelOf (offset : ℕ) : Option Index :=
  if h : offset / 16 < 16 then if offset / 16 = 6 then none else some ⟨offset / 16, h⟩ else none

namespace State

def write (offset : ℕ) (value : Word) (answer : Option Word) (s : State) : State :=
  if offset = 0x60 then { s with dmaor := value }
  else match channelOf offset with
    | none => s
    | some c =>
      match offset % 16 with
      | 0x0 => s.setChannel c { s.channel c with sar := value }
      | 0x4 => s.setChannel c { s.channel c with dar := value }
      | 0x8 => s.setChannel c { s.channel c with tcr := value }
      | 0xc => s.writeChcr c value answer
      | _ => s

def init (panelPresent nxs : Bool) : State where
  dmaor := 0
  channel _ := ⟨0, 0, 0, 0, .plain, false⟩
  pending _ := false
  panelIndex _ := 0
  panelLine _ := none
  usbhChannel := 0
  panelPresent := panelPresent
  nxs := nxs
  level _ := false

end State

/-- What happens to the controller. The answer is what the USB module says to a transfer that the write starts. -/
inductive Event
  | write (offset : ℕ) (value : Word) (answer : Option Word)
  | panelTimer
  | usbhDone (c : Index) (bytes : Word)

def State.step (s : State) : Event → State
  | .write offset value answer => s.write offset value answer
  | .panelTimer => s.panelDone
  | .usbhDone c bytes => s.usbhDone c bytes

end Cdj2000Emulator.Dmac
