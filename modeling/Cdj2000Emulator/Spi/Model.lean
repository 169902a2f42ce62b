import Mathlib.Algebra.Group.Nat.Defs
import Mathlib.Data.Nat.Notation
import Mathlib.Logic.Function.Basic
import Mathlib.Tactic.MkIffOfInductiveProp
import Mathlib.Tactic.SplitIfs

namespace Cdj2000Emulator.Spi

open Function

abbrev Word := BitVec 32

abbrev Half := BitVec 16

/-- `CdjC6747Spi`. -/
structure Registers where
  gcr0 : Word
  gcr1 : Word
  interruptEnable : Word
  interruptLevel : Word
  flags : Word
  pinFunction : Word
  pinDirection : Word
  pinInput : Word
  pinInputValid : Word
  pinOutput : Word
  dat0 : Word
  dat1 : Word
  receiveData : Word
  receiveStatus : Word
  delay : Word
  chipSelectDefault : Word
  format : ℕ → Word
  receiveEmpty : Bool
  receiveBufferFull : Bool
  receiveBufferData : Word

/-- `CdjWm8740`; the attenuations and the lock are bytes. -/
structure Wm8740 where
  program : ℕ → Half
  lastWord : Half
  transfers : BitVec 64
  activeAttenuation : ℕ → BitVec 8
  register4Unlocked : ℕ

/-- `CdjC6747SpiTransfer`, the flags as the bytes they are. -/
structure Transfer where
  clockPhase : Word
  halfTicksRemaining : ℕ
  activeControl : Word
  activeFormat : Word
  activeDelay : Word
  queuedControl : Word
  queuedFormat : Word
  queuedDelay : Word
  phase : ℕ
  queuedValid : ℕ
  txFull : ℕ
  previousCshold : ℕ
  fault : ℕ
  reserved : BitVec 24

/-- SPI1, its converter and its transfer. -/
structure Port where
  spi : Registers
  dac : Wm8740
  transfer : Transfer

section Bits

def pinMask : Word := 0x00000f01
def gcr1WriteMask : Word := 0x01010103
def interruptWriteMask : Word := 0x0101035f
def levelWriteMask : Word := 0x0000035f
def flagW1cMask : Word := 0x0000015f
def flagResetReserved : Word := 0x01000000
def dat1WriteMask : Word := 0x1701ffff
def formatWriteMask : Word := 0x3ff7ff1f
def rxStatusMask : Word := 0x5f000000
def rxOverrunStatus : Word := 0x40000000
def txFlag : Word := 0x200
def rxFlag : Word := 0x100
def overrunFlag : Word := 0x40
def strictPins : Word := 0x00000e01
def strictGcr1 : Word := 0x01000003
def strictFormat : Word := 0x00021810
def strictDelay : Word := 0x02020408

/-- The bit of SPIGCR1 that enables the master. -/
def enable : Word := 0x01000000

/-- `SPI_TRANSFER_IDLE` and so on. -/
def idle : ℕ := 0
def c2t : ℕ := 1
def shift : ℕ := 2
def t2c : ℕ := 3
def gap : ℕ := 4

end Bits

namespace Registers

def reset (s : Registers) : Registers where
  gcr0 := 0
  gcr1 := 0
  interruptEnable := 0
  interruptLevel := 0
  flags := 0
  pinFunction := 0
  pinDirection := 0
  pinInput := s.pinInput
  pinInputValid := s.pinInputValid
  pinOutput := 0
  dat0 := 0
  dat1 := 0
  receiveData := 0
  receiveStatus := 0
  delay := 0
  chipSelectDefault := 0xff
  format := fun _ ↦ 0
  receiveEmpty := true
  receiveBufferFull := false
  receiveBufferData := 0

def disable (s : Registers) : Registers :=
  { s with
    dat0 := 0
    dat1 := s.dat1 &&& 0xffff0000
    flags := 0
    receiveData := 0
    receiveStatus := 0
    receiveEmpty := true
    receiveBufferFull := false
    receiveBufferData := 0 }

def setPins (valid value : Word) (s : Registers) : Registers :=
  let valid := valid &&& pinMask
  { s with
    pinInput := (s.pinInput &&& ~~~valid) ||| (value &&& valid)
    pinInputValid := s.pinInputValid ||| valid }

def consumeReceive (s : Registers) : Registers :=
  if s.receiveBufferFull then
    { s with
      receiveData := s.receiveBufferData
      receiveBufferFull := false
      receiveEmpty := false
      flags := s.flags ||| rxFlag }
  else { s with receiveEmpty := true, flags := s.flags &&& ~~~rxFlag }

def readPins (s : Registers) : Option Word :=
  if s.pinInputValid &&& pinMask ≠ pinMask then none else some (s.pinInput &&& pinMask)

def interruptVector (s : Registers) : Word × Registers :=
  let pending := s.flags &&& s.interruptEnable &&& s.interruptLevel
  if pending &&& 0x1f ≠ 0 then (0x11 <<< 1, s)
  else if pending &&& overrunFlag ≠ 0 then (0x13 <<< 1, { s with flags := s.flags &&& ~~~overrunFlag })
  else if pending &&& rxFlag ≠ 0 then
    (0x12 <<< 1, consumeReceive { s with flags := s.flags &&& ~~~rxFlag })
  else if pending &&& txFlag ≠ 0 then (0x14 <<< 1, s)
  else (0, s)

/-- `cdj_c6747_spis_read` of SPI1. -/
def read (offset : ℕ) (s : Registers) : Option (Word × Registers) :=
  match offset with
  | 0x00 => some (s.gcr0, s)
  | 0x04 => some (s.gcr1, s)
  | 0x08 => some (s.interruptEnable, s)
  | 0x0c => some (s.interruptLevel, s)
  | 0x10 => some (s.flags ||| flagResetReserved, s)
  | 0x14 => some (s.pinFunction, s)
  | 0x18 => some (s.pinDirection, s)
  | 0x1c | 0x24 | 0x28 => s.readPins.map (·, s)
  | 0x20 => some (s.pinOutput, s)
  | 0x38 => some (s.dat0, s)
  | 0x3c => some (s.dat1, s)
  | 0x40 =>
    let value := (if s.receiveEmpty then 0x80000000 else 0) ||| (s.receiveStatus &&& rxStatusMask) |||
      (s.receiveData &&& 0xffff)
    let s := s.consumeReceive
    some (value, { s with receiveStatus := s.receiveStatus &&& rxOverrunStatus })
  | 0x44 => some (s.receiveData &&& 0xffff, s)
  | 0x48 => some (s.delay, s)
  | 0x4c => some (s.chipSelectDefault, s)
  | 0x50 | 0x54 | 0x58 | 0x5c => some (s.format ((offset - 0x50) / 4), s)
  | 0x64 => some s.interruptVector
  | _ => none

/-- `cdj_c6747_spis_write` of a word to SPI1 with `commit`; without it nothing changes. -/
def write (offset : ℕ) (word : Word) (s : Registers) : Option Registers :=
  match offset with
  | 0x00 => some (if word &&& 1 ≠ 0 then { s with gcr0 := 1 } else s.reset)
  | 0x04 =>
    if word &&& 3 = 1 ∨ word &&& 3 = 2 then none
    else
      let s := { s with gcr1 := word &&& gcr1WriteMask }
      some (if s.gcr1 &&& enable = 0 then s.disable else s)
  | 0x08 => some { s with interruptEnable := word &&& interruptWriteMask }
  | 0x0c => some { s with interruptLevel := word &&& levelWriteMask }
  | 0x10 =>
    let s := { s with flags := s.flags &&& ~~~(word &&& flagW1cMask) }
    some (if word &&& rxFlag ≠ 0 then s.consumeReceive else s)
  | 0x14 => some { s with pinFunction := word &&& pinMask }
  | 0x18 => some { s with pinDirection := word &&& pinMask }
  | 0x20 | 0x24 | 0x28 =>
    let outputs := ~~~s.pinFunction &&& s.pinDirection &&& pinMask
    let output :=
      if offset = 0x20 then (s.pinOutput &&& ~~~outputs) ||| (word &&& outputs)
      else if offset = 0x24 then s.pinOutput ||| (word &&& outputs)
      else s.pinOutput &&& ~~~(word &&& outputs)
    some { s with
      pinOutput := output
      pinInput := (s.pinInput &&& ~~~outputs) ||| (output &&& outputs)
      pinInputValid := s.pinInputValid ||| outputs }
  | 0x38 | 0x3c =>
    if s.gcr1 &&& enable ≠ 0 then none
    else
      let s := if offset = 0x38 then { s with dat0 := 0 }
        else { s with dat1 := word &&& (dat1WriteMask &&& 0xffff0000) }
      some { s with flags := s.flags &&& ~~~txFlag }
  | 0x48 => some { s with delay := word }
  | 0x4c => some { s with chipSelectDefault := word &&& 0xff }
  | 0x50 | 0x54 | 0x58 | 0x5c =>
    some { s with format := update s.format ((offset - 0x50) / 4) (word &&& formatWriteMask) }
  | _ => none

def receivePulledUpWord (s : Registers) : Registers :=
  if s.receiveEmpty then
    { s with
      receiveData := 0xffff
      receiveStatus := s.receiveStatus &&& rxOverrunStatus
      receiveEmpty := false
      flags := s.flags ||| rxFlag }
  else if ¬s.receiveBufferFull then { s with receiveBufferData := 0xffff, receiveBufferFull := true }
  else
    { s with
      flags := s.flags ||| overrunFlag
      receiveStatus := s.receiveStatus ||| rxOverrunStatus }

end Registers

namespace Wm8740

@[mk_iff]
structure Valid (dac : Wm8740) : Prop where
  program0 : dac.program 0 ≤ 0x1ff
  program1 : dac.program 1 ≤ 0x1ff
  program2 : dac.program 2 ≤ 0x1ff
  program3 : dac.program 3 &&& ~~~0x1df = 0
  program4 : dac.program 4 &&& ~~~0x70 = 0
  register4Unlocked : dac.register4Unlocked ≤ 1

instance (dac : Wm8740) : Decidable dac.Valid := decidable_of_iff' _ (valid_iff dac)

def address (word : Half) : ℕ := (word >>> 9 &&& 7).toNat

/-- `wm8740_write` without `commit`. -/
def Accepts (word : Half) : Prop := address word ≤ 3 ∨ address word = 6

instance (word : Half) : Decidable (Accepts word) :=
  inferInstanceAs (Decidable (address word ≤ 3 ∨ address word = 6))

/-- `wm8740_write` of a word that is accepted, with `commit`. -/
def latch (dac : Wm8740) (word : Half) : Wm8740 :=
  let data := word &&& 0x1ff
  let dac := { dac with lastWord := word, transfers := dac.transfers + 1 }
  if address word ≤ 1 then
    let dac := { dac with program := update dac.program (address word) data }
    if data &&& 0x100 ≠ 0 then
      { dac with
        activeAttenuation := update (update dac.activeAttenuation 0 ((dac.program 0).setWidth 8)) 1
          ((dac.program 1).setWidth 8) }
    else dac
  else if address word = 2 then
    let dac := { dac with program := update dac.program 2 data }
    if data &&& 0x1e0 = 0x1e0 then { dac with register4Unlocked := 1 } else dac
  else if address word = 3 then { dac with program := update dac.program 3 (data &&& 0x1df) }
  else if dac.register4Unlocked ≠ 0 then { dac with program := update dac.program 4 (data &&& 0x70) }
  else dac

end Wm8740

def WordValid (control : Word) : Prop :=
  control &&& 0xffff0000 = 0 ∧ Wm8740.Accepts (control.setWidth 16)

def TransferWordValid (control format delay : Word) : Prop :=
  WordValid control ∧ format = strictFormat ∧ delay = strictDelay

instance (control : Word) : Decidable (WordValid control) :=
  inferInstanceAs (Decidable (_ ∧ _))

instance (control format delay : Word) : Decidable (TransferWordValid control format delay) :=
  inferInstanceAs (Decidable (_ ∧ _))

namespace Transfer

/-- `cdj_c6747_spi_transfer_reset`. -/
def zero : Transfer := ⟨0, 0, 0, 0, 0, 0, 0, 0, idle, 0, 0, 0, 0, 0⟩

def Active (t : Transfer) : Prop := t.phase ≠ idle ∨ t.queuedValid ≠ 0 ∨ t.txFull ≠ 0

instance (t : Transfer) : Decidable t.Active := inferInstanceAs (Decidable (_ ∨ _))

/-- The word that is on the wires is not latched yet. -/
def Shifting (t : Transfer) : Prop := c2t ≤ t.phase ∧ t.phase ≤ t2c

instance (t : Transfer) : Decidable t.Shifting := inferInstanceAs (Decidable (_ ∧ _))

@[mk_iff]
structure Valid (t : Transfer) : Prop where
  phase : t.phase ≤ gap
  queuedValid : t.queuedValid ≤ 1
  txFull : t.txFull ≤ 1
  previousCshold : t.previousCshold ≤ 1
  fault : t.fault ≤ 1
  reserved : t.reserved = 0
  remaining : t.phase ≠ idle ↔ t.halfTicksRemaining ≠ 0
  active : t.Shifting ↔ TransferWordValid t.activeControl t.activeFormat t.activeDelay
  inactive : ¬t.Shifting → t.activeControl = 0 ∧ t.activeFormat = 0 ∧ t.activeDelay = 0
  queued : t.queuedValid ≠ 0 ↔ TransferWordValid t.queuedControl t.queuedFormat t.queuedDelay
  unqueued : t.queuedValid = 0 →
    t.queuedControl = 0 ∧ t.queuedFormat = 0 ∧ t.queuedDelay = 0 ∧ t.txFull = 0
  behind : t.queuedValid ≠ 0 → t.phase ≠ idle
  /-- TXBUF can only remain full before the active shift finishes. -/
  full : t.txFull ≠ 0 → t.phase < t2c

instance (t : Transfer) : Decidable t.Valid := decidable_of_iff' _ (valid_iff t)

def discard (t : Transfer) : Transfer := { zero with clockPhase := t.clockPhase }

end Transfer

def shiftHalfTicks (format : Word) : ℕ :=
  let bits := (format &&& 0x1f).toNat
  let prescale := (format >>> 8 &&& 0xff).toNat
  (2 * bits - 1) * (prescale + 1)

def c2tHalfTicks (delay : Word) : ℕ :=
  let c2t := (delay >>> 24).toNat
  if c2t ≠ 0 then 2 * (c2t + 2) else 0

def t2cHalfTicks (format delay : Word) : ℕ :=
  let t2c := (delay >>> 16 &&& 0xff).toNat
  let prescale := (format >>> 8 &&& 0xff).toNat
  (if t2c ≠ 0 then 2 * (t2c + 1) else 0) + prescale + 1

namespace Transfer

def start (control format delay : Word) (t : Transfer) : Transfer :=
  let t := { t with activeControl := control, activeFormat := format, activeDelay := delay }
  if c2tHalfTicks delay ≠ 0 then { t with phase := c2t, halfTicksRemaining := c2tHalfTicks delay }
  else { t with phase := shift, halfTicksRemaining := shiftHalfTicks format }

end Transfer

/-- `strict_wm8740_configuration`. -/
def StrictConfiguration (spi : Registers) (dac : Wm8740) (control : Word) : Prop :=
  dac.Valid ∧ spi.gcr1 = strictGcr1 ∧ spi.pinFunction = strictPins ∧ spi.interruptEnable = 0 ∧
    spi.interruptLevel = 0 ∧ spi.chipSelectDefault = 0xff ∧ spi.format 0 = strictFormat ∧
    spi.delay = strictDelay ∧ WordValid control

instance (spi : Registers) (dac : Wm8740) (control : Word) :
    Decidable (StrictConfiguration spi dac control) :=
  inferInstanceAs (Decidable (_ ∧ _))

def spi1Base : ℕ := 0x01e12000

def TimedMapped (address : ℕ) : Prop := spi1Base ≤ address ∧ address < spi1Base + 0x1000

instance (address : ℕ) : Decidable (TimedMapped address) := inferInstanceAs (Decidable (_ ∧ _))

namespace Port

/-- `CSHOLD` of a word. -/
def cshold (control : Word) : ℕ := (control >>> 28 &&& 1).toNat

/-- The word goes out, or waits behind the one that does. -/
def transmit (word : Word) (s : Port) : Port :=
  let spi := { s.spi with dat1 := word &&& dat1WriteMask, flags := s.spi.flags &&& ~~~txFlag }
  if ¬s.transfer.Active then
    { s with
      transfer := s.transfer.start word (spi.format 0) spi.delay
      spi := { spi with flags := spi.flags ||| txFlag } }
  else
    let transfer := { s.transfer with
      queuedControl := word
      queuedFormat := spi.format 0
      queuedDelay := spi.delay
      queuedValid := 1 }
    if transfer.phase = t2c ∨ transfer.phase = gap then
      { s with
        transfer := { transfer with txFull := 0 }
        spi := { spi with flags := spi.flags ||| txFlag } }
    else { s with transfer := { transfer with txFull := 1 }, spi := spi }

def Resets (offset : ℕ) (word : Word) : Prop := offset = 0 ∧ word &&& 1 = 0

def Disables (offset : ℕ) (word : Word) : Prop := offset = 4 ∧ word &&& enable = 0

instance (offset : ℕ) (word : Word) : Decidable (Resets offset word) :=
  inferInstanceAs (Decidable (_ ∧ _))

instance (offset : ℕ) (word : Word) : Decidable (Disables offset word) :=
  inferInstanceAs (Decidable (_ ∧ _))

def writeRegister (offset : ℕ) (word : Word) (commit : Bool) (s : Port) : Bool × Port :=
  match s.spi.write offset word with
  | none => (false, s)
  | some spi =>
    if ¬commit then (true, s)
    else
      let transfer := if Resets offset word ∨ Disables offset word then s.transfer.discard else s.transfer
      let transfer := if offset = 0x3c then { transfer with previousCshold := cshold word } else transfer
      (true, { s with spi := spi, transfer := transfer })

def writeWord (word : Word) (commit : Bool) (s : Port) : Bool × Port :=
  if ¬StrictConfiguration s.spi s.dac word ∨ s.transfer.previousCshold ≠ 0 ∨
      s.transfer.queuedValid ≠ 0 ∨ ¬Wm8740.Accepts (word.setWidth 16) then (false, s)
  else if ¬commit then (true, s)
  else (true, s.transmit word)

def writeTimed (address value size : ℕ) (commit : Bool) (s : Port) : Bool × Port :=
  if ¬TimedMapped address ∨ ¬s.transfer.Valid ∨ s.transfer.fault ≠ 0 ∨ size ≠ 4 ∨ 2 ^ 32 ≤ value ∨
      address % 4 ≠ 0 then (false, s)
  else
    let offset := address - spi1Base
    let word := BitVec.ofNat 32 value
    if s.transfer.Active ∧ ¬Resets offset word ∧ ¬Disables offset word ∧ offset ≠ 0x10 ∧
        offset ≠ 0x3c then (false, s)
    else if offset ≠ 0x3c ∨ s.spi.gcr1 &&& enable = 0 then s.writeRegister offset word commit
    else s.writeWord word commit

def readTimed (address : ℕ) (s : Port) : Option Word × Port :=
  if ¬TimedMapped address ∨ ¬s.transfer.Valid ∨ s.transfer.fault ≠ 0 ∨ address % 4 ≠ 0 then (none, s)
  else
    match s.spi.read (address - spi1Base) with
    | none => (none, s)
    | some (value, spi) =>
      (some (if address - spi1Base = 0x40 ∧ s.transfer.txFull ≠ 0 then value ||| 0x20000000 else value),
        { s with spi := spi })

def finishChipSelect (s : Port) : Bool × Port :=
  if ¬Wm8740.Accepts (s.transfer.activeControl.setWidth 16) then (false, s)
  else
    (true, {
      dac := s.dac.latch (s.transfer.activeControl.setWidth 16)
      transfer := { s.transfer with
        previousCshold := cshold s.transfer.activeControl
        activeControl := 0
        activeFormat := 0
        activeDelay := 0
        phase := gap
        halfTicksRemaining := 4 }
      spi := if s.transfer.queuedValid = 0 then { s.spi with flags := s.spi.flags ||| txFlag }
        else s.spi })

def finishGap (s : Port) : Port :=
  if s.transfer.queuedValid ≠ 0 then
    { s with
      transfer := { s.transfer with
        queuedControl := 0
        queuedFormat := 0
        queuedDelay := 0
        queuedValid := 0
        txFull := 0 }.start s.transfer.queuedControl s.transfer.queuedFormat s.transfer.queuedDelay
      spi := { s.spi with flags := s.spi.flags ||| txFlag } }
  else { s with transfer := { s.transfer with phase := idle, halfTicksRemaining := 0 } }

/-- The end of a phase, in the loop of `cdj_c6747_spi_wm8740_advance`. -/
def finishPhase (s : Port) : Bool × Port :=
  let s := { s with transfer := { s.transfer with halfTicksRemaining := 0 } }
  if s.transfer.phase = c2t then
    (true, { s with transfer := { s.transfer with
      phase := shift
      halfTicksRemaining := shiftHalfTicks s.transfer.activeFormat } })
  else if s.transfer.phase = shift then
    let spi := s.spi.receivePulledUpWord
    (true, { s with
      spi := if s.transfer.queuedValid ≠ 0 then { spi with flags := spi.flags ||| txFlag } else spi
      transfer := { s.transfer with
        txFull := if s.transfer.queuedValid ≠ 0 then 0 else s.transfer.txFull
        phase := t2c
        halfTicksRemaining := t2cHalfTicks s.transfer.activeFormat s.transfer.activeDelay } })
  else if s.transfer.phase = t2c then
    match s.finishChipSelect with
    | (true, s) => (true, s)
    | (false, s) => (false, { s with transfer := { s.transfer with fault := 1 } })
  else if s.transfer.phase = gap then (true, s.finishGap)
  else (false, { s with transfer := { s.transfer with fault := 1 } })

/-- The loop of `cdj_c6747_spi_wm8740_advance`, at most `fuel` times. -/
def loop : ℕ → ℕ → Port → Bool × Port
  | 0, _, s => (true, s)
  | fuel + 1, halfTicks, s =>
    if halfTicks = 0 ∨ s.transfer.phase = idle then (true, s)
    else if halfTicks < s.transfer.halfTicksRemaining then
      (true, { s with transfer := { s.transfer with
        halfTicksRemaining := s.transfer.halfTicksRemaining - halfTicks } })
    else
      match s.finishPhase with
      | (true, t) => loop fuel (halfTicks - s.transfer.halfTicksRemaining) t
      | (false, t) => (false, t)

def advance (halfTicks : ℕ) (s : Port) : Bool × Port :=
  if ¬s.dac.Valid ∨ ¬s.transfer.Valid ∨ s.transfer.fault ≠ 0 then
    (false, { s with transfer := { s.transfer with fault := 1 } })
  else loop halfTicks halfTicks s

end Port

end Cdj2000Emulator.Spi
