import Mathlib.Data.BitVec
import Mathlib.Logic.Function.Basic

namespace Cdj2000Emulator.Timer64.Model

abbrev Word := BitVec 32
abbrev Long := BitVec 64

structure Timer where
  emumgt : Word
  gpintgpen : Word
  gpdatgpdir : Word
  tim12 : Word
  tim34 : Word
  tim34Shadow : Word
  prd12 : Word
  prd34 : Word
  tcr : Word
  tgcr : Word
  wdtcr : Word
  rel12 : Word
  rel34 : Word
  cap12 : Word
  cap34 : Word
  intctlstat : Word
  compare : ℕ → Word
  tim34ShadowValid : Bool

abbrev Timers := Fin 2 → Timer

def Timer.zero : Timer where
  emumgt := 0
  gpintgpen := 0
  gpdatgpdir := 0
  tim12 := 0
  tim34 := 0
  tim34Shadow := 0
  prd12 := 0
  prd34 := 0
  tcr := 0
  tgcr := 0
  wdtcr := 0
  rel12 := 0
  rel34 := 0
  cap12 := 0
  cap34 := 0
  intctlstat := 0
  compare := fun _ ↦ 0
  tim34ShadowValid := false

def reset : Timers := fun _ ↦ Timer.zero

def timer0Base : ℕ := 0x01c20000
def timer1Base : ℕ := 0x01c21000

def decode (address : Word) : Option (Fin 2 × ℕ) :=
  if timer0Base ≤ address.toNat ∧ address.toNat < timer0Base + 0x1000 then
    some (0, address.toNat - timer0Base)
  else if timer1Base ≤ address.toNat ∧ address.toNat < timer1Base + 0x1000 then
    some (1, address.toNat - timer1Base)
  else none

/-- Which half of a timer a rate query is about. -/
inductive Half
  | half12
  | half34
  deriving DecidableEq

/-- `(w >> low) & (2^width - 1)`. -/
def field (w : Word) (low width : ℕ) : ℕ := (w.toNat >>> low) % 2 ^ width

/-- TIMMODE. -/
def Timer.mode (s : Timer) : ℕ := field s.tgcr 2 2

def Timer.enamode12 (s : Timer) : ℕ := field s.tcr 6 2
def Timer.enamode34 (s : Timer) : ℕ := field s.tcr 22 2

def Timer.tddr34 (s : Timer) : ℕ := field s.tgcr 12 4
def Timer.psc34 (s : Timer) : ℕ := field s.tgcr 8 4

def Timer.inputHz (s : Timer) (auxclkHz : ℕ) (half : Half) : Option (ℕ × ℕ) :=
  let dualUnchained : Bool := s.mode = 1
  if auxclkHz = 0 then none
  else if s.tcr.getLsbD 8 ∧ (half = .half12 ∨ ¬dualUnchained) then none
  else if half = .half12 then some (auxclkHz, 1)
  else if ¬dualUnchained then none
  else some (auxclkHz, s.psc34 + 1)

def Timer.inputClockKnown (s : Timer) (half : Half) : Bool :=
  if s.tcr.getLsbD 9 ∧ (half = .half12 ∨ s.mode ≠ 1) then false
  else (s.inputHz 1 half).isSome

/-- `advance`: the counter, its period, and whether they match in this clock. -/
def advance (counter period reload : Long) (enamode : ℕ) : Long × Long × Bool :=
  if enamode = 0 ∨ period = 0 then (counter, period, false)
  else if counter = period then
    if enamode = 1 then (counter, period, false)
    else (0, if enamode = 3 then reload else period, false)
  else (counter + 1, period, counter + 1 = period)

def outTint12 : ℕ := 0
def outTint34 : ℕ := 1
def outCmp0 : ℕ := 2
def outputs : ℕ := 10

def Timer.compareMatches (s : Timer) : Word :=
  if ¬s.tgcr.getLsbD 4 ∨ s.mode ≠ 1 then 0
  else (List.range 8).foldl (fun fired n ↦
    if s.compare n ≠ 0 ∧ s.compare n = s.tim12 then fired ||| BitVec.twoPow 32 (outCmp0 + n)
    else fired) 0

def wide (w : Word) : Long := w.setWidth 64
def low (x : Long) : Word := x.setWidth 32
def high (x : Long) : Word := (x >>> 32).setWidth 32
def join (high low : Word) : Long := (wide high <<< 32) ||| wide low

def raise (fired : Bool) (output : ℕ) : Word := if fired then BitVec.twoPow 32 output else 0

def Timer.advance12 (s : Timer) : Timer × Bool :=
  let (counter, period, fired) := advance (wide s.tim12) (wide s.prd12) (wide s.rel12) s.enamode12
  ({ s with tim12 := low counter, prd12 := low period }, fired)

def Timer.advance34 (s : Timer) : Timer × Bool :=
  let (counter, period, fired) := advance (wide s.tim34) (wide s.prd34) (wide s.rel34) s.enamode34
  ({ s with tim34 := low counter, prd34 := low period }, fired)

def Timer.tickDual12 (s : Timer) : Timer × Word :=
  if s.tgcr.getLsbD 0 ∧ s.inputClockKnown .half12 then
    let (t, fired) := s.advance12
    (t, raise fired outTint12 ||| if t.tim12 ≠ s.tim12 then t.compareMatches else 0)
  else (s, 0)

def Timer.counts34 (s : Timer) : Bool :=
  s.tgcr.getLsbD 1 && s.enamode34 ≠ 0 && s.inputClockKnown .half34

/-- The 3:4 half of dual unchained mode, behind its four-bit prescaler. -/
def Timer.tickDual34 (s : Timer) : Timer × Word :=
  if s.counts34 then
    if s.tddr34 = s.psc34 then
      let (t, fired) := { s with tgcr := s.tgcr &&& ~~~0xf000#32 }.advance34
      (t, raise fired outTint34)
    else
      ({ s with
        tgcr := (s.tgcr &&& ~~~0xf000#32) ||| BitVec.ofNat 32 (s.tddr34 + 1) <<< 12 }, 0)
  else (s, 0)

/-- Chained mode: the 3:4 counter prescales the 1:2 counter. -/
def Timer.tickChained (s : Timer) : Timer × Word :=
  if s.tim34 = s.prd34 then
    let reloadPrd34 := s.enamode12 = 3 ∧ s.prd12 ≠ 0 ∧ s.tim12 = s.prd12
    let (t, fired) := { s with tim34 := 0 }.advance12
    (if reloadPrd34 then { t with prd34 := t.rel34 } else t, raise fired outTint12)
  else ({ s with tim34 := s.tim34 + 1 }, 0)

/-- 64-bit general-purpose mode. -/
def Timer.tickWide (s : Timer) : Timer × Word :=
  let (counter, period, fired) :=
    advance (join s.tim34 s.tim12) (join s.prd34 s.prd12) (join s.rel34 s.rel12) s.enamode12
  ({ s with tim12 := low counter, tim34 := high counter, prd12 := low period, prd34 := high period },
    raise fired outTint12)

def Timer.tickOne (s : Timer) : Timer × Word :=
  if s.mode = 2 then (s, 0)
  else if s.mode = 1 then
    let (t, fired12) := s.tickDual12
    let (t, fired34) := t.tickDual34
    (t, fired12 ||| fired34)
  else if ¬(s.tgcr.getLsbD 0 ∧ s.tgcr.getLsbD 1) ∨ ¬s.inputClockKnown .half12 ∨ s.enamode12 = 0 then
    (s, 0)
  else if s.mode = 3 then s.tickChained
  else s.tickWide

def latch (s : Timer) (fired : Word) (output status : ℕ) : Timer × Word :=
  if fired.getLsbD output then
    let s := { s with intctlstat := s.intctlstat ||| BitVec.twoPow 32 status }
    (s, if s.intctlstat.getLsbD (status - 1) then fired
      else fired &&& ~~~(BitVec.twoPow 32 output))
  else (s, fired)

/-- One timer's share of `cdj_c6747_timers_tick`. -/
def Timer.tick (s : Timer) : Timer × Word :=
  if ¬s.tgcr.getLsbD 0 ∧ ¬s.tgcr.getLsbD 1 then (s, 0)
  else
    let (s, fired) := s.tickOne
    let (s, fired) := latch s fired outTint12 1
    latch s fired outTint34 17

def tick (timers : Timers) : Timers × Word :=
  (fun i ↦ (timers i).tick.1, (timers 0).tick.2 ||| (timers 1).tick.2 <<< outputs)

def Timer.readResetSelected (s : Timer) (bit : ℕ) : Bool :=
  s.tgcr.getLsbD 4 && s.mode = 1 && s.tcr.getLsbD bit

def Timer.readTim12 (s : Timer) : Timer × Word :=
  (if s.mode = 0 then { s with tim34Shadow := s.tim34, tim34ShadowValid := true }
    else if s.readResetSelected 10 then
      { s with
        cap12 := s.tim12
        prd12 := if s.enamode12 = 3 then s.rel12 else s.prd12
        tim12 := 0 }
    else s, s.tim12)

def Timer.readTim34 (s : Timer) : Timer × Word :=
  let value := if s.tim34ShadowValid then s.tim34Shadow else s.tim34
  let s := { s with tim34ShadowValid := false }
  (if s.readResetSelected 26 then
      { s with
        cap34 := s.tim34
        prd34 := if s.enamode34 = 3 then s.rel34 else s.prd34
        tim34 := 0 }
    else s, value)

def timerRevid : Word := 0x4472020c

/-- The registers that a read leaves alone. -/
def Timer.plainRead (s : Timer) (offset : ℕ) : Option Word :=
  if offset = 0x00 then some timerRevid
  else if offset = 0x04 then some s.emumgt
  else if offset = 0x08 then some s.gpintgpen
  else if offset = 0x0c then some s.gpdatgpdir
  else if offset = 0x18 then some s.prd12
  else if offset = 0x1c then some s.prd34
  else if offset = 0x20 then some s.tcr
  else if offset = 0x24 then some s.tgcr
  else if offset = 0x28 then some s.wdtcr
  else if offset = 0x34 then some s.rel12
  else if offset = 0x38 then some s.rel34
  else if offset = 0x3c then some s.cap12
  else if offset = 0x40 then some s.cap34
  else if offset = 0x44 then some s.intctlstat
  else if offset < 0x60 ∨ 0x7c < offset then none
  else some (s.compare ((offset - 0x60) / 4))

/-- `cdj_c6747_timers_read` at an offset. -/
def Timer.read (s : Timer) (offset : ℕ) : Timer × Option Word :=
  if offset % 4 ≠ 0 then (s, none)
  else if offset = 0x10 then (s.readTim12.1, some s.readTim12.2)
  else if offset = 0x14 then (s.readTim34.1, some s.readTim34.2)
  else (s, s.plainRead offset)

def read (timers : Timers) (address : Word) : Timers × Option Word :=
  match decode address with
  | none => (timers, none)
  | some (i, offset) =>
    let (s, value) := (timers i).read offset
    (Function.update timers i s, value)

def emumgtMask : Word := 3
def tcrWriteMask : Word := 0x04c03ffe
def tgcrWriteMask : Word := 0x0000ff1f
def gpintgpenWriteMask : Word := 0x00030033
def gpdatgpdirWriteMask : Word := 0x00030003
def intctlEnableMask : Word := 0x00050005
def intctlStatusMask : Word := 0x000a000a

def Timer.writeTgcr (s : Timer) (word : Word) : Timer :=
  let s := { s with tgcr := word &&& tgcrWriteMask }
  let s := if s.mode ≠ 0 then { s with tim34ShadowValid := false } else s
  let s := if s.tgcr.getLsbD 0 then s else { s with tim12 := 0 }
  if s.tgcr.getLsbD 1 then s else { s with tim34 := 0, tim34ShadowValid := false }

def Timer.writeWdtcr (s : Timer) (word : Word) : Timer :=
  let status := if word.getLsbD 15 then 0 else s.wdtcr &&& 0x8000#32
  { s with wdtcr := (word &&& 0xffff4000#32) ||| status }

def Timer.writeIntctlstat (s : Timer) (word : Word) : Timer :=
  let status := s.intctlstat &&& intctlStatusMask
  { s with
    intctlstat := (status &&& ~~~(word &&& intctlStatusMask)) ||| (word &&& intctlEnableMask) }

def Timer.writeRegister (s : Timer) (offset : ℕ) (word : Word) : Option Timer :=
  if offset = 0x04 then some { s with emumgt := word &&& emumgtMask }
  else if offset = 0x08 then some { s with gpintgpen := word &&& gpintgpenWriteMask }
  else if offset = 0x0c then some { s with gpdatgpdir := word &&& gpdatgpdirWriteMask }
  else if offset = 0x10 then some { s with tim12 := word }
  else if offset = 0x14 then some { s with tim34 := word, tim34ShadowValid := false }
  else if offset = 0x18 then some { s with prd12 := word }
  else if offset = 0x1c then some { s with prd34 := word }
  else if offset = 0x20 then some { s with tcr := word &&& tcrWriteMask }
  else if offset = 0x24 then some (s.writeTgcr word)
  else if offset = 0x28 then some (s.writeWdtcr word)
  else if offset = 0x34 then some { s with rel12 := word }
  else if offset = 0x38 then some { s with rel34 := word }
  else if offset = 0x3c then some { s with cap12 := word }
  else if offset = 0x40 then some { s with cap34 := word }
  else if offset = 0x44 then some (s.writeIntctlstat word)
  else if offset < 0x60 ∨ 0x7c < offset then none
  else some { s with compare := Function.update s.compare ((offset - 0x60) / 4) word }

def write (timers : Timers) (address : Word) (value : Long) (size : ℕ) (commit : Bool) :
    Timers × Bool :=
  match decode address with
  | none => (timers, false)
  | some (i, offset) =>
    if size ≠ 4 ∨ 0xffffffff#64 < value ∨ offset % 4 ≠ 0 ∨ offset = 0 then (timers, false)
    else
      match (timers i).writeRegister offset (low value) with
      | none => (timers, false)
      | some s => (if commit then Function.update timers i s else timers, true)

end Cdj2000Emulator.Timer64.Model
