import Cdj2000Emulator.Board.Memory
import Cdj2000Emulator.Edma.Simulation
import Cdj2000Emulator.Mcasp.Control

namespace Cdj2000Emulator.Board.Transaction

open Library.Bytes Mcasp.Control Edma.Simulation
open Memory hiding Word
open Library.Bytes.Block (put slice)
open Edma.Model (C6747Edma Bus takeIrqNotification)

/-- `CdjC6747Intc`, with the request word of `CdjC6747IntcDelivery`. -/
structure C6747Intc where
  eventFlag : ℕ → Word
  eventMask : ℕ → Word
  interruptMux : ℕ → Word
  cpuRequest : Word

namespace C6747Intc

def combinedActive (s : C6747Intc) (bank : ℕ) : Bool := s.eventFlag bank &&& ~~~s.eventMask bank ≠ 0

def selected (s : C6747Intc) (interrupt : ℕ) : ℕ :=
  let selector := interrupt - 4
  ((s.interruptMux (selector / 4) >>> (selector % 4 * 8)) &&& 0x7f#32).toNat

def requestSelectedEvent (s : C6747Intc) (event : ℕ) : C6747Intc :=
  { s with
    cpuRequest := ((List.range 16).filter fun i ↦ 4 ≤ i && s.selected i == event).foldl
      (fun request i ↦ request ||| bit i) s.cpuRequest }

/-- `cdj_c6747_intc_deliver_event`, for an event that exists. -/
def deliverEvent (s : C6747Intc) (event : ℕ) : C6747Intc :=
  if event < 4 ∨ 128 ≤ event then s
  else
    let bank := event / 32
    let latched := { s with
      eventFlag := Function.update s.eventFlag bank (s.eventFlag bank ||| bit (event % 32)) }
    let direct := latched.requestSelectedEvent event
    if !s.combinedActive bank && direct.combinedActive bank then direct.requestSelectedEvent bank
    else direct

end C6747Intc

/-- The part of `NxsHpi` that a register write of the EDMA or of a McASP reads and changes. -/
structure NxsHpi where
  edma : C6747Edma
  mcaspControl : C6747McaspControl
  cache : C6747Cache
  emifb : C6747Emifb
  intc : C6747Intc
  memories : Memories

/-- A bus of the EDMA with the McASP registers behind it. -/
structure Client (β : Type) extends Bus β where
  mcasp : β → C6747McaspControl
  setMcasp : C6747McaspControl → β → β

def word {n : ℕ} (bytes : Vector Byte n) : BitVec 64 := BitVec.ofNat 64 (value (Block.bytes bytes.get))

section Client

variable {β : Type} (client : Client β)

/-- The inner loop of `service_mcasp_axevt`: an event for each word the instance asks for,
until one leaves its buffers as they were. -/
def serveInstance (inst channel : ℕ) : ℕ → C6747Edma × β → Bool × (C6747Edma × β)
  | 0, m => (true, m)
  | rounds + 1, m =>
    if axevtReady (client.mcasp m.2) inst then
      match Edma.Model.event client.toBus m channel with
      | (false, m') => (false, m')
      | (true, m') =>
        if (client.mcasp m'.2 inst).xbufWrites = (client.mcasp m.2 inst).xbufWrites then (true, m')
        else serveInstance inst channel rounds m'
    else (true, m)

def serviceMcaspAxevt (m : C6747Edma × β) : Bool × (C6747Edma × β) :=
  match serveInstance client 1 3 16 m with
  | (false, m) => (false, m)
  | (true, m) => serveInstance client 2 5 16 m

def writeRegister (m : C6747Edma × β) (edmaAccess : Bool) (address : Word) (value : BitVec 64)
    (size : ℕ) : Bool × (C6747Edma × β) :=
  if edmaAccess then Edma.Model.write client.toBus m address value size true
  else
    let (ok, mcasp) := controlWrite (client.mcasp m.2) address value size true
    (ok, m.1, client.setMcasp mcasp m.2)

def writeAndService (m : C6747Edma × β) (edmaAccess : Bool) (address : Word) (value : BitVec 64)
    (size : ℕ) : Bool × (C6747Edma × β) :=
  match writeRegister client m edmaAccess address value size with
  | (false, m) => (false, m)
  | (true, m) => serviceMcaspAxevt client m

end Client

def registerSpan {n : ℕ} (mcasp : C6747McaspControl) (address : Word) (bytes : Vector Byte n)
    (commit : Bool) : Bool × C6747McaspControl :=
  if n = 4 then controlWrite mcasp address (word bytes) 4 commit else (false, mcasp)

structure EdmaBusContext where
  mcasp : C6747McaspControl
  writes : List EdmaStagedWrite

section Bus

variable (cache : C6747Cache) (emifb : C6747Emifb)

/-- `edma_read_bytes` and `edma_write_bytes`: memory is read under the staged writes and
written by staging one more. -/
def staged (memories : Memories) : Client EdmaBusContext where
  read := fun c address n ↦
    match dspMemorySpan cache emifb address n with
    | none => (none, c)
    | some (r, o) =>
      (some (Vector.ofFn (c.writes.foldl (EdmaStagedWrite.patch r o n) (slice (memories r) o n))), c)
  write := fun c address n bytes commit ↦
    match dspMemorySpan cache emifb address n with
    | some (r, o) => (true, if commit then { c with writes := c.writes ++ [⟨r, o, n, bytes.get⟩] } else c)
    | none =>
      let (ok, mcasp) := registerSpan c.mcasp address bytes commit
      (ok, { c with mcasp := mcasp })
  mcasp := EdmaBusContext.mcasp
  setMcasp := fun mcasp c ↦ { c with mcasp := mcasp }

/-- What a transfer changes when its bytes go to memory at once. -/
structure DirectContext where
  mcasp : C6747McaspControl
  memories : Memories

def direct : Client DirectContext where
  read := fun c address n ↦
    match dspMemorySpan cache emifb address n with
    | none => (none, c)
    | some (r, o) => (some (Vector.ofFn (slice (c.memories r) o n)), c)
  write := fun c address n bytes commit ↦
    match dspMemorySpan cache emifb address n with
    | some (r, o) =>
      (true, if commit then
        { c with memories := Function.update c.memories r (put o bytes.get (c.memories r)) } else c)
    | none =>
      let (ok, mcasp) := registerSpan c.mcasp address bytes commit
      (ok, { c with mcasp := mcasp })
  mcasp := DirectContext.mcasp
  setMcasp := fun mcasp c ↦ { c with mcasp := mcasp }

end Bus

/-- The window check of a register write. -/
def mapped (edmaAccess : Bool) (address : Word) (size : ℕ) : Bool :=
  if edmaAccess then Edma.Model.writeMapped address size else writeMapped address size

def deliverEdmaNotifications (s : NxsHpi) : NxsHpi :=
  match takeIrqNotification s.edma 1 with
  | (true, edma) => { s with edma := edma, intc := s.intc.deliverEvent 8 }
  | (false, edma) => { s with edma := edma }

def edmaMcaspTransaction (s : NxsHpi) (edmaAccess : Bool) (address : Word) (value : BitVec 64)
    (size : ℕ) (commit : Bool) : Bool × NxsHpi :=
  if mapped edmaAccess address size then
    match writeAndService (staged s.cache s.emifb s.memories) (s.edma, ⟨s.mcaspControl, []⟩)
        edmaAccess address value size with
    | (false, _) => (false, s)
    | (true, edma, c) =>
      (true, if commit then deliverEdmaNotifications { s with
          memories := EdmaStagedWrite.replay c.writes s.memories
          edma := edma
          mcaspControl := c.mcasp } else s)
  else (false, s)

def directWrite (s : NxsHpi) (edmaAccess : Bool) (address : Word) (value : BitVec 64) (size : ℕ) :
    Bool × (C6747Edma × DirectContext) :=
  writeAndService (direct s.cache s.emifb) (s.edma, ⟨s.mcaspControl, s.memories⟩)
    edmaAccess address value size

end Cdj2000Emulator.Board.Transaction
