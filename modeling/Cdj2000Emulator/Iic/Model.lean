import Mathlib.Data.Nat.Notation
import Mathlib.Tactic.SplitIfs

namespace Cdj2000Emulator.Iic.Model

abbrev Byte := BitVec 8

inductive Phase
  | idle
  | address
  | stop
  | wait
  | byte
  | waitStop
  | txReady
  deriving DecidableEq

/-- `CdjSh7764IicEndpoint`, over the state `σ` behind its `opaque` pointer. -/
structure Endpoint (σ : Type) where
  start : σ → (address7 : ℕ) → (read : Bool) → σ × Bool
  writeByte : σ → Byte → σ × Bool
  readByte : σ → σ × Option Byte
  stop : σ → σ

/-- `CdjSh7764Iic`. -/
structure Device (σ : Type) where
  control : Byte
  status : Byte
  clock : Byte
  slaveAddress : Byte
  masterAddress : Byte
  tx : Byte
  rx : Byte
  phase : Phase
  issuedAddress : Byte
  txShift : Byte
  endpoint : Option (Endpoint σ)
  selected : Bool
  stopAfterByte : Bool
  txPending : Bool

section Bits

def mie : Byte := 8
def fsb : Byte := 2
def esg : Byte := 1
def mdbs : Byte := 128
def mat : Byte := 1
def mdr : Byte := 2
def mdt : Byte := 4
def mde : Byte := 8
def mst : Byte := 16
def mnr : Byte := 64

end Bits

variable {σ : Type}

def reset : Device σ where
  control := 0
  status := 0
  clock := 0
  slaveAddress := 0
  masterAddress := 0
  tx := 0
  rx := 0
  phase := .idle
  issuedAddress := 0
  txShift := 0
  endpoint := none
  selected := false
  stopAfterByte := false
  txPending := false

namespace Device

variable (s : Device σ)

/-- `cdj_sh7764_iic_attach`; an `Endpoint` has all four of its functions. -/
def attach (endpoint : Option (Endpoint σ)) : Option (Device σ) :=
  if s.phase ≠ .idle then none else some { s with endpoint }

/-- The transfer is from the endpoint. -/
def reading : Bool := s.issuedAddress.getLsbD 0

def releaseByte : Device σ :=
  let flag := if s.reading then mdr else mde
  if s.phase = .waitStop ∧ s.status &&& mdr = 0 then { s with phase := .stop }
  else if s.phase = .txReady ∧ s.status &&& mde = 0 then
    { s with stopAfterByte := s.control &&& fsb ≠ 0, phase := .byte }
  else if s.phase = .wait ∧ s.control &&& esg = 0 ∧ s.status &&& flag = 0 then
    if ¬s.reading then
      if ¬s.txPending then
        -- an empty buffer does not resend the old data
        if s.control &&& fsb ≠ 0 then { s with phase := .stop } else s
      else
        { s with txShift := s.tx, txPending := false, status := s.status ||| mde, phase := .txReady }
    else { s with stopAfterByte := s.control &&& fsb ≠ 0, phase := .byte }
  else s

def writeControl (value : Byte) : Option (Device σ) :=
  let control := value &&& (mdbs ||| mie ||| fsb ||| esg)
  if value &&& 0x14 ≠ 0 then none
  else if control &&& (fsb ||| esg) ≠ 0 ∧ control &&& mie = 0 then none
  else if control &&& (fsb ||| esg) = fsb ||| esg then none
  else if s.phase ≠ .idle then
    if control &&& mie = 0 ∨ control &&& esg ≠ 0 then none
    else if (control ^^^ s.control) &&& mdbs ≠ 0 then none
    else if s.phase = .byte ∧ s.reading ∧ (control ^^^ s.control) &&& fsb ≠ 0 then none
    else
      let out := { s with control }
      -- a sent byte samples the final stop at its completion
      let out := if out.phase = .byte ∧ ¬out.reading then
          { out with stopAfterByte := control &&& fsb ≠ 0 } else out
      some out.releaseByte
  else if control &&& esg ≠ 0 then
    if control &&& mdbs = 0 ∧ (s.endpoint.isSome ∨ s.masterAddress.getLsbD 0) then none
    else some { s with issuedAddress := s.masterAddress, phase := .address, control }.releaseByte
  else some { s with control }.releaseByte

/-- `cdj_sh7764_iic_write`; `none` is the source's `false`, which leaves the device alone. -/
def write (offset size value : ℕ) : Option (Device σ) :=
  let byte := BitVec.ofNat 8 value
  if size ≠ 1 ∨ 255 < value then none
  else if offset = 0 ∨ offset = 8 ∨ offset = 0x10 ∨ offset = 0x14 then
    if value = 0 then some s else none
  else if offset = 4 then s.writeControl byte
  else if offset = 0xc then
    if byte &&& 0x80 ≠ 0 then none else some { s with status := s.status &&& byte }.releaseByte
  else if offset = 0x18 then if s.phase ≠ .idle then none else some { s with clock := byte }
  else if offset = 0x1c then if s.phase ≠ .idle then none else some { s with slaveAddress := byte }
  else if offset = 0x20 then if s.phase ≠ .idle then none else some { s with masterAddress := byte }
  else if offset = 0x24 then
    if s.phase ≠ .idle ∧ ¬((s.phase = .wait ∨ s.phase = .txReady) ∧ ¬s.reading ∧
        s.status &&& mde ≠ 0) then none
    else some { s with tx := byte, txPending := true }
  else none

end Device

/-- A call of the endpoint, with its answer. -/
inductive Call
  | start (address7 : ℕ) (read ack : Bool)
  | sent (value : Byte) (ack : Bool)
  | received (value : Byte)
  | unavailable
  | stop
  deriving DecidableEq

/-- What `cdj_sh7764_iic_advance` leaves: the endpoint's state, the device, its result and
the calls it made of the endpoint. -/
structure Advanced (σ : Type) where
  context : σ
  device : Device σ
  accepted : Bool
  calls : List Call

namespace Device

variable (s : Device σ)

def advanceAddress (context : σ) : Advanced σ :=
  let address7 := (s.issuedAddress >>> 1).toNat
  let (context, ack, calls) : σ × Bool × List Call := match s.endpoint with
    | none => (context, false, [])
    | some endpoint =>
      let (context, ack) := endpoint.start context address7 s.reading
      (context, ack, [.start address7 s.reading ack])
  let status := s.status ||| (mat ||| if s.reading then mdr else mde)
  let out := { s with selected := ack, status }
  let out := if ack then { out with phase := .wait }
    else { out with status := out.status ||| mnr, phase := .stop }
  ⟨context, out, true, calls⟩

/-- What follows a byte: the end of a received transfer waits for the receive flag. -/
def afterByte (ack : Bool) : Device σ :=
  if s.stopAfterByte ∧ s.reading then { s with phase := .waitStop }
  else { s with phase := if ¬ack ∨ s.stopAfterByte then .stop else .wait }.releaseByte

def advanceByte (context : σ) : Advanced σ :=
  match s.selected, s.endpoint with
  | true, some endpoint =>
    if s.reading then
      match endpoint.readByte context with
      | (context, none) => ⟨context, s, false, [.unavailable]⟩
      | (context, some value) =>
        let out := { s with rx := value, status := s.status ||| mdr }
        ⟨context, out.afterByte true, true, [.received value]⟩
    else
      let (context, ack) := endpoint.writeByte context s.txShift
      let out := { s with status := s.status ||| (mdt ||| if ack then 0 else mnr) }
      ⟨context, out.afterByte ack, true, [.sent s.txShift ack]⟩
  | _, _ => ⟨context, s, false, []⟩

def advanceStop (context : σ) : Advanced σ :=
  let out := { s with status := s.status ||| mst, selected := false, phase := .idle }
  match s.selected, s.endpoint with
  | true, some endpoint => ⟨endpoint.stop context, out, true, [.stop]⟩
  | _, _ => ⟨context, out, true, []⟩

def advance (context : σ) : Advanced σ :=
  match s.phase with
  | .idle | .wait | .waitStop | .txReady => ⟨context, s, true, []⟩
  | .address => s.advanceAddress context
  | .byte => s.advanceByte context
  | .stop => s.advanceStop context

end Device

end Cdj2000Emulator.Iic.Model
