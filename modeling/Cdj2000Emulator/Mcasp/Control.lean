import Mathlib.Data.Nat.Notation
import Mathlib.Logic.Function.Basic

namespace Cdj2000Emulator.Mcasp.Control

abbrev Word := BitVec 32

/-- One instance's share of `CdjC6747McaspControl`, whose arrays are indexed by instance. -/
structure Bank where
  undocumented04 : Word
  gblctl : Word
  amute : Word
  dlbctl : Word
  ditctl : Word
  xmask : Word
  xfmt : Word
  afsxctl : Word
  aclkxctl : Word
  ahclkxctl : Word
  xtdm : Word
  xintctl : Word
  xstat : Word
  xclkchk : Word
  dit : ℕ → Word
  srctl : ℕ → Word
  xrdy : Word
  xbuf : ℕ → Word
  xdmaNext : ℕ
  xbufSequence : ℕ → BitVec 64
  xbufWrites : BitVec 64
  axevtGeneration : BitVec 64
  xrsr : ℕ → Word
  xslot : Word
  xrsrSourceSequence : ℕ → BitVec 64
  txSlotBoundaries : BitVec 64

abbrev C6747McaspControl := ℕ → Bank

def serializerCount : ℕ → ℕ
  | 0 => 16
  | 1 => 12
  | _ => 4

/-- The instance and the register offset of an address. -/
def locate (address : Word) : Option (ℕ × ℕ) :=
  if address.toNat < 0x01d00000 ∨ 0x01d0c000 ≤ address.toNat ∨ address.toNat % 4 ≠ 0 then none
  else some ((address.toNat - 0x01d00000) / 0x4000, (address.toNat - 0x01d00000) % 0x4000)

def writeMapped (address : Word) (size : ℕ) : Bool := size = 4 ∧ (locate address).isSome

abbrev bit (i : ℕ) : Word := BitVec.twoPow 32 i

/-- `cdj_c6747_mcasp_control_reset`, for one instance. -/
def Bank.reset (count : ℕ) : Bank where
  undocumented04 := 0
  gblctl := 0
  amute := 0
  dlbctl := 0
  ditctl := 0
  xmask := 0
  xfmt := 0
  afsxctl := 0
  aclkxctl := 0x60
  ahclkxctl := 0x8000
  xtdm := 0
  xintctl := 0
  xstat := 0
  xclkchk := 0
  dit := fun _ ↦ 0
  srctl := fun _ ↦ 0
  xrdy := 0
  xbuf := fun _ ↦ 0
  xdmaNext := count
  xbufSequence := fun _ ↦ 0
  xbufWrites := 0
  axevtGeneration := 0
  xrsr := fun _ ↦ 0
  xslot := 0x17f
  xrsrSourceSequence := fun _ ↦ 0
  txSlotBoundaries := 0

def reset : C6747McaspControl := fun b ↦ .reset (serializerCount b)

namespace Bank

def transmits (s : Bank) (n : ℕ) : Bool := s.srctl n &&& 3#32 = 1

def activeTxMask (s : Bank) (count : ℕ) : Word :=
  ((List.range count).filter s.transmits).foldl (fun mask n ↦ mask ||| bit n) 0

/-- The first transmit serializer from `after` on, the count if there is none. -/
def nextTxSerializer (s : Bank) (count after : ℕ) : ℕ :=
  (((List.range count).filter fun n ↦ after ≤ n && s.transmits n).head?).getD count

/-- XDATA falls once no active serializer waits for a word. -/
def settleXdata (s : Bank) (count : ℕ) : Bank :=
  if s.xrdy &&& s.activeTxMask count = 0 then { s with xstat := s.xstat &&& ~~~0x20#32 } else s

def noteXbufWrite (s : Bank) (count serializer : ℕ) (value : Word) : Bank :=
  let writes := s.xbufWrites + 1
  { s with
    xbuf := Function.update s.xbuf serializer value
    xbufSequence := Function.update s.xbufSequence serializer writes
    xbufWrites := writes
    xrdy := s.xrdy &&& ~~~bit serializer }.settleXdata count

def legalXfmt (v : Word) : Bool :=
  let slotSize := ((v >>> 4) &&& 15#32).toNat
  v &&& ~~~0x3ffff#32 = 0 ∧ (v >>> 16).toNat ≠ 3 ∧ (v >>> 13) &&& 3#32 ≠ 3 ∧
    3 ≤ slotSize ∧ slotSize % 2 = 1

def legalAfsxctl (v : Word) : Bool :=
  let mode := (v >>> 7).toNat
  v &&& ~~~0xff93#32 = 0 ∧ (mode = 0 ∨ (2 ≤ mode ∧ mode ≤ 0x20) ∨ mode = 0x180)

def legalDlbctl (v : Word) : Bool :=
  let mode := (v >>> 2) &&& 3#32
  v &&& ~~~0x0f#32 = 0 ∧ (if v.getLsbD 0 then mode = 1 else mode = 0)

def legalSrctl (v : Word) : Bool :=
  v &&& ~~~0x0f#32 = 0 ∧ v &&& 3#32 ≠ 3 ∧ (v >>> 2) &&& 3#32 ≠ 1

def writeGblctl (s : Bank) (count o : ℕ) (v : Word) : Bank :=
  let mask : Word := if o = 0x60 then 0x1f else if o = 0xa0 then 0x1f00 else 0x1f1f
  let next := (s.gblctl &&& ~~~mask) ||| (v &&& mask)
  let rising := next &&& ~~~s.gblctl
  let s : Bank := { s with gblctl := next }
  let s : Bank := if next &&& 0x1000#32 = 0 then { s with xslot := 0x17f } else s
  let s : Bank :=
    if next &&& 0x400#32 = 0 then
      { s with xrdy := 0, xstat := s.xstat &&& ~~~0x20#32, xdmaNext := count }
    else if rising &&& 0x400#32 ≠ 0 then
      let s := { s with xrdy := s.activeTxMask count, xdmaNext := s.nextTxSerializer count 0 }
      if s.xrdy ≠ 0 then
        { s with
          xstat := s.xstat ||| 0x20#32
          axevtGeneration :=
            if s.axevtGeneration ≠ BitVec.allOnes 64 then s.axevtGeneration + 1
            else s.axevtGeneration }
      else s
    else s
  if rising &&& 0x800#32 ≠ 0 ∧ s.xrdy ≠ 0 then { s with xstat := s.xstat ||| 1#32 } else s

def writeDmaPort (s : Bank) (count : ℕ) (v : Word) : Option Bank :=
  if s.xfmt &&& 8#32 ≠ 0 then some s
  else if count ≤ s.xdmaNext then some { s with xstat := s.xstat ||| 0x80#32 }
  else if s.xbufWrites = BitVec.allOnes 64 then none
  else
    let written := s.noteXbufWrite count s.xdmaNext v
    some { written with xdmaNext := written.nextTxSerializer count (s.xdmaNext + 1) }

def writeXbuf (s : Bank) (count serializer : ℕ) (v : Word) : Option Bank :=
  if count ≤ serializer then none
  else if s.xfmt &&& 8#32 = 0 then some s
  else if s.xbufWrites = BitVec.allOnes 64 then none
  else some (s.noteXbufWrite count serializer v)

def writeSrctl (s : Bank) (count serializer : ℕ) (v : Word) : Option Bank :=
  if count ≤ serializer ∨ legalSrctl v = false then none
  else
    let s := { s with srctl := Function.update s.srctl serializer v }
    if v &&& 3#32 = 1 then some s
    else
      let s := { s with xrdy := s.xrdy &&& ~~~bit serializer }
      let s := if s.xdmaNext = serializer then
        { s with xdmaNext := s.nextTxSerializer count (serializer + 1) } else s
      some (s.settleXdata count)

/-- A write to one instance: what it leaves once committed, if it is accepted. -/
def write (s : Bank) (count o : ℕ) (v : Word) : Option Bank :=
  let checked (valid : Bool) (s' : Bank) : Option Bank := if valid then some s' else none
  if o = 0x04 then checked (v = 1) { s with undocumented04 := 1 }
  else if o = 0x2000 then s.writeDmaPort count v
  else if 0x200 ≤ o ∧ o < 0x240 then s.writeXbuf count ((o - 0x200) / 4) v
  else if 0x100 ≤ o ∧ o < 0x160 ∧ o % 4 = 0 then
    some { s with dit := Function.update s.dit ((o - 0x100) / 4) v }
  else if 0x180 ≤ o ∧ o < 0x1c0 ∧ o % 4 = 0 then s.writeSrctl count ((o - 0x180) / 4) v
  else match o with
    | 0x44 | 0x60 | 0xa0 => checked (v &&& ~~~0x1f1f#32 = 0) (s.writeGblctl count o v)
    | 0x48 => checked (v &&& ~~~0x1fef#32 = 0 ∧ v &&& 3#32 ≠ 3) { s with amute := v }
    | 0x4c => checked (legalDlbctl v) { s with dlbctl := v }
    | 0x50 =>
      checked (v &&& ~~~0x0d#32 = 0 ∧
        ((v ^^^ s.ditctl) &&& 1#32 = 0 ∨ s.gblctl &&& 0x800#32 = 0)) { s with ditctl := v }
    | 0xa4 => some { s with xmask := v }
    | 0xa8 => checked (legalXfmt v) { s with xfmt := v }
    | 0xac => checked (legalAfsxctl v) { s with afsxctl := v }
    | 0xb0 => checked (v &&& ~~~0xff#32 = 0) { s with aclkxctl := v }
    | 0xb4 => checked (v &&& ~~~0xcfff#32 = 0) { s with ahclkxctl := v }
    | 0xb8 => some { s with xtdm := v }
    | 0xbc => checked (v &&& ~~~0xbf#32 = 0) { s with xintctl := v }
    -- XSTAT is cleared by ones; its read-only bits ignore them
    | 0xc0 => checked (v &&& 0xffff0000#32 = 0) { s with xstat := s.xstat &&& ~~~(v &&& 0xf7#32) }
    | 0xc8 => checked (v &&& ~~~0x00ffff0f#32 = 0 ∧ (v &&& 0xf#32).toNat ≤ 8) { s with xclkchk := v }
    | 0xcc => checked (v = 0) s
    | _ => none

end Bank

def controlWrite (s : C6747McaspControl) (address : Word) (value : BitVec 64) (size : ℕ)
    (commit : Bool) : Bool × C6747McaspControl :=
  if size ≠ 4 ∨ 0x100000000 ≤ value.toNat then (false, s)
  else match locate address with
    | none => (false, s)
    | some (b, o) =>
      match (s b).write (serializerCount b) o (value.setWidth 32) with
      | none => (false, s)
      | some bank => (true, if commit then Function.update s b bank else s)

def axevtReady (s : C6747McaspControl) (inst : ℕ) : Bool :=
  inst < 3 ∧ (s inst).xstat &&& 0x20#32 ≠ 0

end Cdj2000Emulator.Mcasp.Control
