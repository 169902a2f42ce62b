import Mathlib.Algebra.Group.Nat.Defs
import Mathlib.Logic.Function.Basic
import Mathlib.Tactic.Common
import Cdj2000Emulator.Library.Bytes
import Cdj2000Emulator.Library.Store

namespace Cdj2000Emulator.Sh7764Eth.Model

open Function Library.Bytes Library.Store

abbrev Word := BitVec 32

/-- What the adapter's callbacks work on: the guest's memory, and a network that takes frames or
does not. -/
structure Board where
  ram : ℕ → Byte
  takes : Bool
  sent : List (List Byte)

/-- `CdjSh7764Eth`, the registers by their offsets. -/
structure Eth where
  regs : ℕ → Word
  txCursor : Word
  rxCursor : Word
  link : Bool
  rawLmon : Bool
  error : Option String
  board : Board

/-- The logical words of a descriptor. -/
structure Descriptor where
  status : Word
  size : Word
  buffer : Word
  deriving DecidableEq

abbrev Slot := Word × Descriptor

namespace Descriptor

variable (d : Descriptor)

def active : Bool := d.status &&& 0x80000000 != 0

/-- `END`, the last of the ring. -/
def ends : Bool := d.status &&& 0x40000000 != 0

/-- `FP`, its upper half: the first of a frame. -/
def first : Bool := d.status &&& 0x20000000 != 0

/-- `FP`, its lower half: the last of a frame. -/
def last : Bool := d.status &&& 0x10000000 != 0

def length : ℕ := (d.size >>> 16).toNat

end Descriptor

def fe : Word := 0x08000000

def eci : Word := 0x00400000

def eesMask : Word := 0x47ff0f9f

def maxFrame : ℕ := 2048

def maxDesc : ℕ := 128

namespace Eth

variable (s : Eth)

def set (o : ℕ) (v : Word) : Eth := { s with regs := update s.regs o v }

/-- `R(s,o) |= v`. -/
def or (o : ℕ) (v : Word) : Eth := s.set o (s.regs o ||| v)

def count (o : ℕ) : Eth := s.set o ((s.regs o + 1) &&& 0xffff)

end Eth

section Access

def fail (s : Eth) (e : String) : Bool × Eth := (false, { s with error := s.error.or (some e) })

def ramRange (a n : ℕ) : Bool := 0x04000000 ≤ a && a < 0x0c000000 && n ≤ 0x0c000000 - a

/-- What `dma` and the adapter let through. -/
def dmaReaches (a : Word) (n : ℕ) : Bool :=
  a.toNat < 0x10000000 && n ≤ 0x10000000 - a.toNat && ramRange a.toNat n

def dmaFailure (s : Eth) : Bool × Eth :=
  fail (s.or 0x28 0x800000) "Ethernet DMA address/access failure"

/-- `dma`, to the device. -/
def dmaRead (s : Eth) (a : Word) (n : ℕ) : Option (List Byte) :=
  if dmaReaches a n then some (read s.board.ram a.toNat n) else none

/-- `dma`, to the memory. -/
def dmaWrite (s : Eth) (a : Word) (bytes : List Byte) : Option Eth :=
  if dmaReaches a bytes.length then
    some { s with board := { s.board with ram := write s.board.ram a.toNat bytes } }
  else none

/-- A little-endian word of memory. -/
def wordAt (ram : ℕ → Byte) (a : ℕ) : Word := BitVec.ofNat 32 (value (read ram a 4))

def wordBytes (w : Word) : List Byte := little 4 w.toNat

/-- `desc_read`, of memory. -/
def descRead (ram : ℕ → Byte) (a : ℕ) : Descriptor :=
  ⟨wordAt ram a, wordAt ram (a + 4), wordAt ram (a + 8)⟩

def descriptor (s : Eth) (a : Word) : Option Descriptor :=
  if a &&& 15 = 0 ∧ a.toNat ≤ 0x0ffffff0 ∧ ramRange a.toNat 12 then
    some (descRead s.board.ram a.toNat)
  else none

/-- `write_desc`, of the leading words. -/
def writeDesc (s : Eth) (a : Word) (words : List Word) : Bool × Eth :=
  if ramRange a.toNat (4 * words.length) then
    (true, { s with board := { s.board with
      ram := write s.board.ram a.toNat (words.flatMap wordBytes) } })
  else fail s "Ethernet descriptor write failure"

def nextDesc (a : Word) (d : Descriptor) (base : Word) : Word := if d.ends then base else a + 16

def mode (s : Eth) : Bool × Eth :=
  if s.regs 0 = 0x40 then (true, s) else fail s "Ethernet DMA requires DL16 and DE1"

end Access

section Transmit

def handBack : List Slot → Eth → Bool × Eth
  | [], s => (true, s)
  | (a, d) :: slots, s =>
    match writeDesc s a [d.status &&& ~~~(0x80000000 ||| fe)] with
    | (false, s) => (false, s)
    | (true, s) => handBack slots s

/-- A descriptor that does not go on the frame as `transmit` has it. -/
def Malformed (slots : List Slot) (frame : List Byte) (d : Descriptor) : Prop :=
  d.status &&& 0x03ffffff ≠ 0 ∨ d.size &&& 0xffff ≠ 0 ∨ d.length = 0 ∨
    maxFrame - frame.length < d.length ∨ d.length ≤ 16 ∧ d.buffer &&& 31 ≠ 0 ∨
    d.first ≠ slots.isEmpty

instance (slots : List Slot) (frame : List Byte) (d : Descriptor) :
    Decidable (Malformed slots frame d) :=
  inferInstanceAs (Decidable (_ ∨ _))

def sendFrame (slots : List Slot) (frame : List Byte) (s : Eth) : Bool × Eth :=
  if s.board.takes then
    let padded := frame ++ List.replicate (60 - frame.length) 0
    match handBack slots { s with board := { s.board with sent := s.board.sent ++ [padded] } } with
    | (false, s) => (false, s)
    | (true, s) => (true, s.or 0x28 0x00200000)
  else fail s "Ethernet backend send failure"

/-- The loop of `transmit`, with the work left, and the descriptors and bytes of the frame so
far. -/
def transmitLoop : ℕ → List Slot → List Byte → Eth → Bool × Eth
  | 0, _, _, s => fail s "Ethernet TX descriptor work bound exceeded"
  | work + 1, slots, frame, s =>
    let a := s.txCursor
    let s := s.set 0xd8 a
    match descriptor s a with
    | none => fail s "Ethernet descriptor read failure"
    | some d =>
      if ¬d.active then
        let s := s.set 8 0
        if slots = [] then (true, s)
        else fail (s.or 0x28 0x100000) "TX descriptor empty mid-frame"
      else if Malformed slots frame d then
        fail s "unsupported/malformed Ethernet TX descriptor"
      else
        match dmaRead s d.buffer d.length with
        | none => dmaFailure s
        | some bytes =>
          let s := s.set 0xd4 (d.buffer + BitVec.ofNat 32 d.length)
          let s := { s with txCursor := nextDesc a d (s.regs 0x18) }
          if d.last then
            match sendFrame (slots ++ [(a, d)]) (frame ++ bytes) s with
            | (false, s) => (false, s)
            | (true, s) => transmitLoop work [] [] s
          else transmitLoop work (slots ++ [(a, d)]) (frame ++ bytes) s

def transmit (s : Eth) : Bool × Eth :=
  if s.regs 0x100 &&& 0x20 = 0 ∨ ¬s.link then (true, s)
  else
    match mode s with
    | (false, s) => (false, s)
    | (true, s) => transmitLoop maxDesc [] [] s

end Transmit

section Registers

def validReg (o : ℕ) : Bool :=
  [0, 8, 0x10, 0x18, 0x20, 0x28, 0x30, 0x38, 0x40, 0x48, 0x50, 0x58, 0x64, 0x68, 0x6c, 0x70, 0x78,
    0x7c, 0xc8, 0xcc, 0xd4, 0xd8, 0x100, 0x108, 0x110, 0x118, 0x128, 0x140, 0x150, 0x154, 0x158,
    0x160, 0x164, 0x168, 0x16c, 0x1c0, 0x1c8, 0x1d0, 0x1d4, 0x1d8, 0x1dc, 0x1e4, 0x1e8, 0x1ec,
    0x1f0, 0x1f4, 0x1f8].contains o

def reset (s : Eth) : Eth :=
  let s := { s with regs := fun _ ↦ 0, txCursor := 0, rxCursor := 0, error := none }
  (((s.set 0x50 0x707).set 0x70 0x70007).set 0x150 0x14).set 0x128 (if s.rawLmon then 1 else 0)

def softReset (s : Eth) : Eth :=
  let reset := [0x18, 0x20, 0x40, 0x64, 0x68].foldl (fun t o ↦ t.set o (s.regs o)) (reset s)
  { reset with txCursor := reset.regs 0x18, rxCursor := reset.regs 0x20 }

/-- `cdj_sh7764_eth_write`. -/
def writeReg (s : Eth) (o : ℕ) (v : Word) : Bool × Eth :=
  if o = 0 ∧ v = 1 then (true, softReset s)
  else if s.error.isSome then (false, s)
  else if ¬validReg o then fail s "unsupported Ethernet register write"
  else
    let checked (bad : Bool) (e : String) : Bool × Eth :=
      if bad then fail s e else (true, s.set o v)
    match o with
    | 0 => checked ((v != 0 && v != 0x40) || s.regs 0x100 &&& 0x60 != 0)
        "unsupported/active EDMR mode change"
    | 8 =>
      if v &&& ~~~1 ≠ 0 then fail s "reserved DMA request bits"
      else if v ≠ 0 then transmit (s.set o v)
      else (true, s.set o v)
    | 0x10 => checked (v &&& ~~~1 != 0) "reserved DMA request bits"
    | 0x18 =>
      if v &&& 15 ≠ 0 ∨ 0x10000000 ≤ v.toNat ∨ s.regs 8 ≠ 0 then
        fail s "invalid/active descriptor base"
      else (true, { s.set o v with txCursor := v })
    | 0x20 =>
      if v &&& 15 ≠ 0 ∨ 0x10000000 ≤ v.toNat ∨ s.regs 0x10 ≠ 0 then
        fail s "invalid/active descriptor base"
      else (true, { s.set o v with rxCursor := v })
    | 0x28 => (true, s.set o (s.regs o &&& ~~~(v &&& ~~~eci)))
    | 0x110 => (true, s.set o (s.regs o &&& ~~~(v &&& 0x37)))
    | 0x30 => checked (v &&& ~~~eesMask != 0) "reserved EESIPR bits"
    | 0x118 => checked (v &&& ~~~0x37 != 0) "reserved ECSIPR bits"
    | 0x100 =>
      if v &&& ~~~0x63 ≠ 0 then fail s "unsupported EtherC mode"
      else if s.regs 8 ≠ 0 then transmit (s.set o v)
      else (true, s.set o v)
    | 0x38 => checked (v &&& ~~~0xf9f != 0) "reserved TRSCER bits"
    | 0x58 => checked (v &&& ~~~3 != 0) "reserved RMCR bits"
    | 0x50 => checked (v != 0x707) "unsupported FIFO configuration"
    | 0x70 => checked (v != 0x70007) "unsupported flow threshold"
    | 0x108 => checked (2048 < v.toNat) "invalid maximum frame length"
    | 0x1c0 => checked false ""
    | 0x1c8 => checked (v &&& 0xffff0000 != 0) "reserved MAC bits"
    | 0x150 => checked (255 < v.toNat) "invalid IPG"
    | 0xc8 | 0xcc | 0xd4 | 0xd8 | 0x128 => fail s "read-only Ethernet register"
    | _ => checked (v != 0) "unsupported Ethernet feature/counter write"

end Registers

section Receive

/-- The station's address. -/
def mac (s : Eth) : List Byte :=
  let high := s.regs 0x1c0
  let low := s.regs 0x1c8
  [(high >>> 24).setWidth 8, (high >>> 16).setWidth 8, (high >>> 8).setWidth 8, high.setWidth 8,
    (low >>> 8).setWidth 8, low.setWidth 8]

def broadcast (frame : List Byte) : Bool := frame.take 6 == List.replicate 6 255

def multi (frame : List Byte) : Bool := frame.headD 0 &&& 1 != 0 && !broadcast frame

/-- A frame for the station, or any in promiscuous mode. -/
def addressed (s : Eth) (frame : List Byte) : Bool :=
  s.regs 0x100 &&& 1 != 0 || broadcast frame || multi frame || mac s == frame.take 6

def tally (s : Eth) (frame : List Byte) : Word × Eth :=
  let (flags, s) := if multi frame then ((0x80 : Word), s.count 0x1f8) else (0, s)
  let (flags, s) := if frame.length < 60 then (flags ||| 4, s.count 0x1ec) else (flags, s)
  let limit := if s.regs 0x108 = 0 then 1518 else (s.regs 0x108).toNat
  if limit < frame.length + 4 then (flags ||| 8, s.count 0x1f0) else (flags, s)

/-- What comes of the look for room. -/
inductive Room
  | stop (result : Bool × Eth)
  | ready (slots : List Slot) (cursor : Word)

/-- The look for room for `n` bytes before anything is written, with the descriptors so far and
the room in them. -/
def gather (s : Eth) (n : ℕ) : ℕ → List Slot → ℕ → Word → Room
  | 0, slots, total, cursor =>
    if total < n then .stop (fail s "Ethernet RX descriptor work bound exceeded")
    else .ready slots cursor
  | work + 1, slots, total, cursor =>
    if n ≤ total then .ready slots cursor
    else
      match descriptor s cursor with
      | none => .stop (fail s "Ethernet descriptor read failure")
      | some d =>
        if ¬d.active then
          if slots ≠ [] then .stop (fail s "RX descriptor empty mid-frame is not modeled")
          else
            let s := (s.or 0x28 0x00020000).count 0x40
            .stop (true, if s.regs 0x58 &&& 2 = 0 then s.set 0x10 0 else s)
        else if d.length = 0 ∨ d.length % 32 ≠ 0 ∨ d.buffer &&& 31 ≠ 0 then
          .stop (fail s "invalid RX buffer alignment/length")
        else if cursor ∈ slots.map Prod.fst then .stop (fail s "RX ring too small for frame")
        else gather s n work (slots ++ [(cursor, d)]) (total + d.length)
          (nextDesc cursor d (s.regs 0x20))

def received (d : Descriptor) (first last : Bool) (status : Word) : Word :=
  let w := (d.status &&& 0x40000000) ||| (if first then 0x20000000 else 0) |||
    (if last then 0x10000000 else 0) ||| status
  if status = 0 then w else w ||| fe

/-- The loop that stores a frame of `n` bytes: what is left of it goes to the descriptors left. -/
def fill (n : ℕ) (flags : Word) : Bool → List Slot → List Byte → Eth → Bool × Eth
  | _, [], _, s => (true, s)
  | first, (a, d) :: slots, rest, s =>
    match dmaWrite s d.buffer (rest.take d.length) with
    | none => dmaFailure s
    | some s =>
      let size := BitVec.ofNat 32 d.length <<< 16 ||| if slots = [] then BitVec.ofNat 32 n else 0
      match writeDesc s a
        [received d first slots.isEmpty (flags &&& ~~~(s.regs 0x38)), size] with
      | (false, s) => (false, s)
      | (true, s) =>
        let s := s.set 0xc8 (d.buffer + BitVec.ofNat 32 (min rest.length d.length))
        fill n flags false slots (rest.drop d.length) (s.set 0xcc a)

/-- The registers after a stored frame, which may be the last until the driver asks for more. -/
def finish (flags cursor : Word) (s : Eth) : Eth :=
  let s := { s with rxCursor := cursor }
  let s := s.or 0x28 (0x00040000 ||| flags)
  if s.regs 0x58 &&& 1 = 0 then s.set 0x10 0 else s

/-- What is done with a frame for the station: the rest of `cdj_sh7764_eth_receive`. -/
def place (s : Eth) (frame : List Byte) : Bool × Eth :=
  let (flags, s) := tally s frame
  match gather s frame.length maxDesc [] 0 s.rxCursor with
  | .stop result => result
  | .ready slots cursor =>
    match fill frame.length flags true slots frame s with
    | (false, s) => (false, s)
    | (true, s) => (true, finish flags cursor s)

def receive (s : Eth) (frame : List Byte) : Bool × Eth :=
  if s.error.isSome then (false, s)
  else if ¬s.link ∨ s.regs 0x100 &&& 0x40 = 0 ∨ s.regs 0x10 = 0 then (true, s)
  else
    match mode s with
    | (false, s) => (false, s)
    | (true, s) =>
      if frame.length < 14 ∨ maxFrame < frame.length then
        fail s "unsupported Ethernet frame size"
      else if ¬addressed s frame then (true, s)
      else place s frame

end Receive

end Cdj2000Emulator.Sh7764Eth.Model
