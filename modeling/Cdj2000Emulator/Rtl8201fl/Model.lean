import Mathlib.Algebra.Group.Nat.Defs
import Mathlib.Data.BitVec

namespace Cdj2000Emulator.Rtl8201fl

abbrev Half := BitVec 16
abbrev Word := BitVec 32

/-- `UINT64_MAX`, which is also `CDJ_PHY_NO_DEADLINE`. -/
def noDeadline : ℕ := 2 ^ 64 - 1

def resetNs : ℕ := 1000000

def negotiateNs : ℕ := 100000000

/-- The registers of `CdjRtl8201fl`, its virtual peer and its timer. -/
structure Registers where
  bmcr : Half
  anar : Half
  partner : Half
  anlpar : Half
  aner : Half
  page : Half
  ledConfig : Half
  ledControl : Half
  eeeConfig : Half
  mmdControl : Half
  mmdAddress : Half
  eeeAdvert : Half
  now : ℕ
  deadline : ℕ
  peer : Bool
  link : Bool
  latchLow : Bool
  resetPending : Bool
  cp : Bool
  deriving DecidableEq

namespace Registers

def down (r : Registers) : Registers := { r with link := false, latchLow := true, anlpar := 1, aner := 0 }

def arm (r : Registers) (delay : ℕ) : Option Registers :=
  if noDeadline - delay ≤ r.now then none else some { r with deadline := r.now + delay }

def negotiate (r : Registers) : Option Registers :=
  let r := { r.down with deadline := noDeadline }
  if r.peer ∧ r.bmcr &&& 0x0c00#16 = 0 then r.arm negotiateNs
  else some { r with bmcr := r.bmcr &&& ~~~0x0200#16 }

def finishReset (r : Registers) : Option Registers :=
  if r.resetPending then
    { r with
      resetPending := false, bmcr := 0x3100, anar := 0x01e1
      page := 0, ledConfig := 0, ledControl := 0x30
      eeeConfig := 0x3300, eeeAdvert := 2
      mmdControl := 0, mmdAddress := 0 }.negotiate
  else some r

def finishNegotiation (r : Registers) : Registers :=
  if r.deadline = noDeadline ∧ r.peer ∧ r.bmcr &&& 0x0c00#16 = 0 then
    let common := r.anar &&& r.partner &&& 0x1e0#16
    let r := if common ≠ 0 then
        let best : Half := if common &&& 0x100#16 ≠ 0 then 0x100 else if common &&& 0x80#16 ≠ 0 then 0x80
          else if common &&& 0x40#16 ≠ 0 then 0x40 else 0x20
        let bmcr := r.bmcr &&& ~~~0x2300#16
        let bmcr := if best &&& 0x180#16 ≠ 0 then bmcr ||| 0x2000#16 else bmcr
        let bmcr := if best &&& 0x140#16 ≠ 0 then bmcr ||| 0x0100#16 else bmcr
        { r with link := true, anlpar := r.partner ||| 0x4000#16, aner := 3, bmcr }
      else r
    { r with bmcr := r.bmcr &&& ~~~0x0200#16 }
  else r

def advance (r : Registers) (now : ℕ) : Option Registers :=
  if now < r.now ∨ now = noDeadline then none
  else if r.deadline ≠ noDeadline ∧ r.deadline ≤ now then
    match { r with now := r.deadline, deadline := noDeadline }.finishReset with
    | none => none
    | some r =>
      let r := if ¬r.resetPending ∧ r.deadline ≠ noDeadline ∧ r.deadline ≤ now then
        { r with deadline := noDeadline } else r
      some { r.finishNegotiation with now }
  else some { r with now }

def setPeer (r : Registers) (present : Bool) (advertisement : Half) (now : ℕ) : Option Registers :=
  if advertisement &&& ~~~0x0de1#16 ≠ 0 ∨ advertisement &&& 31#16 ≠ 1 then none
  else
    match r.advance now with
    | none => none
    | some r =>
      if r.peer ≠ present ∨ r.partner ≠ advertisement then
        let r := { r with peer := present, partner := advertisement }
        if r.resetPending then some r.down else r.negotiate
      else some r

/-- `cdj_rtl8201fl_read`: the value, and the bits that reading it clears. -/
def read (r : Registers) (reg : ℕ) : Option (Half × Registers) :=
  if reg = 31 then some (r.page, r)
  else if r.page = 7 then
    if reg = 17 then some (r.ledConfig, r) else if reg = 19 then some (r.ledControl, r) else none
  else if r.page = 4 then if reg ≠ 16 then none else some (r.eeeConfig, r)
  else
    match reg with
    | 0 => some (r.bmcr, r)
    | 1 =>
      some (0x7849#16 ||| (if r.link then 0x20 else 0) |||
        (if r.link ∧ (r.cp ∨ ¬r.latchLow) then 4 else 0), { r with latchLow := false })
    | 2 => some (if r.cp then 0x0000 else 0x001c, r)
    | 3 => some (if r.cp then 0x8201 else 0xc816, r)
    | 4 => some (r.anar, r)
    | 5 => some (r.anlpar, r)
    | 6 => some (r.aner, { r with aner := r.aner &&& ~~~2#16 })
    | 13 => some (0, r)
    | 14 =>
      if r.mmdControl &&& 0x4000#16 = 0 then some (r.mmdAddress, r)
      else if r.mmdControl = 0x4007 ∧ r.mmdAddress = 0x3c then some (r.eeeAdvert, r)
      else none
    | _ => none

def writeBmcr (r : Registers) (value : Half) : Option Registers :=
  if value &&& ~~~0xbf00#16 ≠ 0 then none
  else if value &&& 0x4000#16 ≠ 0 then none
  else if value &&& 0x8000#16 ≠ 0 then { r.down with bmcr := 0xb100, resetPending := true }.arm resetNs
  else if value &&& 0x1000#16 = 0 ∨ r.resetPending then none
  else
    let old := r.bmcr
    let r := { r with bmcr := value }
    if value &&& 0x0200#16 ≠ 0 ∨ (old ^^^ value) &&& 0x0c00#16 ≠ 0 then r.negotiate else some r

/-- The register half of `cdj_rtl8201fl_write`. -/
def write (r : Registers) (reg : ℕ) (value : Half) : Option Registers :=
  if reg = 31 then if value ≠ 0 ∧ value ≠ 4 ∧ value ≠ 7 then none else some { r with page := value }
  else if r.page = 7 then
    if reg = 17 ∧ value &&& ~~~0x0033#16 = 0 then some { r with ledConfig := value }
    else if reg = 19 ∧ value &&& ~~~0x0038#16 = 0 then some { r with ledControl := value }
    else none
  else if r.page = 4 then
    if reg ≠ 16 ∨ value &&& ~~~0x3300#16 ≠ 0 then none else some { r with eeeConfig := value }
  else if reg = 13 then
    if value ≠ 7 ∧ value ≠ 0x4007 then none else some { r with mmdControl := value }
  else if reg = 14 then
    if r.mmdControl = 7 ∧ value = 0x3c then some { r with mmdAddress := value }
    else if r.mmdControl = 0x4007 ∧ r.mmdAddress = 0x3c ∧ value &&& ~~~2#16 = 0 then
      some { r with eeeAdvert := value }
    else none
  else if reg = 4 then
    if value &&& ~~~0x0de1#16 ≠ 0 ∨ value &&& 31#16 ≠ 1 ∨ r.resetPending then none
    else some { r with anar := value }
  else if reg = 0 then r.writeBmcr value
  else none

end Registers

/-- The MDIO side of `CdjRtl8201fl`. -/
structure Serial where
  data : Half
  header : Word
  mdi : Bool
  preamble : ℕ
  bits : ℕ
  synchronized : Bool
  frame : Bool
  idleNeeded : Bool
  deriving DecidableEq

/-- `CdjRtl8201fl`. -/
structure Phy where
  regs : Registers
  serial : Serial
  pir : Word
  deriving DecidableEq

def reset (now : ℕ) : Phy where
  regs := {
    bmcr := 0x3100, anar := 0x01e1, partner := 0, anlpar := 1, aner := 0
    page := 0, ledConfig := 0, ledControl := 0x30, eeeConfig := 0x3300
    mmdControl := 0, mmdAddress := 0, eeeAdvert := 2
    now := now, deadline := noDeadline
    peer := false, link := false, latchLow := true, resetPending := false, cp := false }
  serial := {
    data := 0, header := 0, mdi := true, preamble := 0, bits := 0
    synchronized := false, frame := false, idleNeeded := false }
  pir := 0

/-- A register access that the MDIO side has made. -/
inductive Access
  | read (reg : ℕ) (value : Half)
  | write (reg : ℕ) (value : Half)
  deriving DecidableEq

namespace Phy

/-- `cdj_rtl8201fl_write`: a software reset also forgets the preamble. -/
def write (s : Phy) (reg : ℕ) (value : Half) : Option Phy :=
  match s.regs.write reg value with
  | none => none
  | some regs =>
    some (if reg = 0 ∧ value &&& 0x8000#16 ≠ 0 then
        { s with regs, serial := { s.serial with synchronized := false, preamble := 0 } }
      else { s with regs })

end Phy

namespace Serial

def op (σ : Serial) : ℕ := ((σ.header >>> 10) &&& 3#32).toNat
def addr (σ : Serial) : ℕ := ((σ.header >>> 5) &&& 31#32).toNat
def reg (σ : Serial) : ℕ := (σ.header &&& 31#32).toNat

/-- `++s->bits`, which ends the frame at 32. -/
def counted (σ : Serial) : Serial :=
  if σ.bits + 1 = 32 then { σ with bits := 32, frame := false, idleNeeded := true }
  else { σ with bits := σ.bits + 1 }

end Serial

def bitWord (bit : Bool) : Word := if bit then 1 else 0

namespace Phy

/-- `clock_bit` outside a frame: idle, preamble, and the start bit. -/
def clockIdle (σ : Serial) (drive bit : Bool) : Option Serial :=
  if σ.idleNeeded ∧ ¬bit then none
  else
    let σ := { σ with idleNeeded := false }
    if bit then some (if σ.preamble < 32 then { σ with preamble := σ.preamble + 1 } else σ)
    else if ¬drive ∨ (¬σ.synchronized ∧ σ.preamble < 32) then none
    else some { σ with synchronized := true, frame := true, bits := 1, header := 0, preamble := 0 }

/-- `clock_bit` in the header of a frame. -/
def clockHeader (σ : Serial) (drive bit : Bool) : Option Serial :=
  if ¬drive then none
  else
    let σ := { σ with header := (σ.header <<< 1) ||| bitWord bit, bits := σ.bits + 1 }
    if σ.bits = 2 ∧ σ.header ≠ 1 then none
    else if σ.bits = 4 ∧ σ.header &&& 3#32 ≠ 1 ∧ σ.header &&& 3#32 ≠ 2 then none
    else some σ

/-- `clock_bit`, and the register write that it made. -/
def clockBit (s : Phy) (drive bit : Bool) : Option (Phy × List Access) :=
  let σ := s.serial
  if ¬σ.frame then (clockIdle σ drive bit).map fun σ ↦ ({ s with serial := σ }, [])
  else if σ.bits < 14 then (clockHeader σ drive bit).map fun σ ↦ ({ s with serial := σ }, [])
  else if σ.op = 2 then if drive then none else some ({ s with serial := σ.counted }, [])
  else if ¬drive ∨ (σ.bits = 14 ∧ ¬bit) ∨ (σ.bits = 15 ∧ bit) then none
  else
    let σ := if 16 ≤ σ.bits then { σ with data := (σ.data <<< 1) ||| (bitWord bit).setWidth 16 } else σ
    let s := { s with serial := σ }
    if σ.bits = 31 ∧ σ.addr = 1 then
      match s.write σ.reg σ.data with
      | none => none
      | some s => some ({ s with serial := s.serial.counted }, [.write σ.reg σ.data])
    else some ({ s with serial := σ.counted }, [])

/-- `falling_edge`, and the register read that it made. -/
def fallingEdge (s : Phy) : Option (Phy × List Access) :=
  let σ := { s.serial with mdi := true }
  if ¬σ.frame ∨ σ.bits < 14 ∨ σ.op ≠ 2 then some ({ s with serial := σ }, [])
  else if σ.bits = 15 then
    if σ.addr = 1 then
      match s.regs.read σ.reg with
      | none => none
      | some (value, regs) =>
        some ({ s with regs, serial := { σ with mdi := false, data := value } }, [.read σ.reg value])
    else some ({ s with serial := { σ with mdi := true, data := 0xffff } }, [])
  else if 16 ≤ σ.bits then some ({ s with serial := { σ with mdi := σ.data.getLsbD (31 - σ.bits) } }, [])
  else some ({ s with serial := σ }, [])

def pirWrite (s : Phy) (value : Word) : Option (Phy × List Access) :=
  if value &&& ~~~15#32 ≠ 0 then none
  else
    let edge := if ¬s.pir.getLsbD 0 ∧ value.getLsbD 0 then
        s.clockBit (value.getLsbD 1) (if value.getLsbD 1 then value.getLsbD 2 else true)
      else if s.pir.getLsbD 0 ∧ ¬value.getLsbD 0 then s.fallingEdge
      else some (s, [])
    edge.map fun (s, accesses) ↦ ({ s with pir := value &&& 7#32 }, accesses)

def pirRead (s : Phy) : Word :=
  s.pir ||| bitWord (if s.pir.getLsbD 1 then s.pir.getLsbD 2 else s.serial.mdi) <<< 3

end Phy

end Cdj2000Emulator.Rtl8201fl
