import Cdj2000Emulator.C674x.Transfer

namespace Cdj2000Emulator.C674x.Effects

open Library.Stateful State Transfer

/-- `CdjC674xPacketTiming`; a packet lasts at least its issue cycle. -/
structure Timing where
  cycles : ℕ
  nop : ℕ
  idle : Bool
  protect : Bool
  positive : 1 ≤ cycles
  deriving DecidableEq

def Timing.start : Timing := ⟨1, 0, false, false, le_rfl⟩

/-- The packet lasts at least as long as each of its instructions. -/
def Timing.extend (p : Timing) (cycles : ℕ) : Timing :=
  { p with cycles := max p.cycles cycles, positive := p.positive.trans (le_max_left _ _) }

def Timing.generator (p : Timing) : Bool := 1 < p.cycles ∨ p.idle

def Timing.packetNop (p : Timing) (count : ℕ) : Option Timing :=
  if 1 < count then
    if p.idle ∨ (1 < p.cycles ∧ p.nop ≠ count) then none
    else some ({ p with nop := count }.extend count)
  else some (p.extend count)

def Timing.packetIdle (p : Timing) : Option Timing :=
  if p.generator then none else some { p with idle := true }

def Timing.packetProtectedLoad (p : Timing) : Option Timing :=
  if p.protect then some p
  else if p.generator then none
  else some { p with protect := true, cycles := 5, positive := by decide }

def Timing.packetMulticycle (p : Timing) (cycles : ℕ) : Option Timing :=
  if 1 < cycles ∧ p.generator then none
  else some (p.extend cycles)

/-- Cycles from issue to the writeback of a delayed result. -/
abbrev Latency := {n : ℕ // 0 < n ∧ n ≤ 10}

def e2 : Latency := ⟨2, by decide⟩
def e3 : Latency := ⟨3, by decide⟩
def e4 : Latency := ⟨4, by decide⟩
def e5 : Latency := ⟨5, by decide⟩
def e6 : Latency := ⟨6, by decide⟩
def e7 : Latency := ⟨7, by decide⟩
def e9 : Latency := ⟨9, by decide⟩
def e10 : Latency := ⟨10, by decide⟩

/-- What an instruction asks of the packet it issues in. An instruction reads the
committed CPU only, so it is known by the list of its effects; each effect makes the
source's checks against the packet so far. -/
inductive Effect
  | stop (why : String)
  | write (bank reg : ℕ) (value : Word)
  | writePair (bank reg : ℕ) (low high : Word)
  | reserve (n : ℕ)
  | result (latency : Latency) (bank dst : ℕ) (value : Long) (status : Word) (multiplier : Bool)
  | resultPair (latency : Latency) (bank dst : ℕ) (value : Long)
  | sat (latency : Latency) (mask : Word)
  | compared (latency : Latency) (bank dst : ℕ) (value : Long) (mask : Option Word)
  | memoryAccess (nonaligned : Bool)
  | probe (address : Word) (size width : ℕ) (why : String)
  | check (address : Word) (value : Long) (size width : ℕ) (why : String)
  | load (address : Word) (size width : ℕ) (signExtend : Bool) (bank dst : ℕ)
  | loadWord (address : Word) (bank dst : ℕ)
  | store (address : Word) (value : Long) (size width : ℕ)
  | branch (target : Word) (why : String)
  | noBranch (why : String)
  | nop (count : ℕ)
  | idle
  | protectedLoad
  | multicycle (cycles : ℕ) (why : String)
  | faucr (mask : Word)
  | bdec
  | guardControls (ids : List ℕ) (why : String)
  | restoreTask (restored : Word)
  | setNmie
  | mvc (id : ℕ) (value : Word)
  | dint (gie : Word)
  | rint (gie : Word)
  | snapshotTsch (value : Word)

/-- The packet in progress: the transactional copy and the conflict and accounting
state of `cdj_c674x_execute`. -/
structure Issue where
  out : Cpu
  written : ℕ → ℕ → Bool
  controls : ℕ → Bool
  memoryCount : ℕ
  nonalignedMemory : Bool
  bdecIssued : Bool
  timing : Timing

def Issue.start (cpu : Cpu) : Issue where
  out := cpu
  written := fun _ _ ↦ false
  controls := fun _ ↦ false
  memoryCount := 0
  nonalignedMemory := false
  bdecIssued := false
  timing := Timing.start

def Issue.markWritten (a : Issue) (bank reg : ℕ) : Issue :=
  { a with written := Function.update a.written bank (Function.update (a.written bank) reg true) }

def Issue.claim (a : Issue) (id : ℕ) : Issue :=
  { a with controls := Function.update a.controls id true }

def Issue.setReg (a : Issue) (bank reg : ℕ) (value : Word) : Issue :=
  { a.markWritten bank reg with out := a.out.setReg bank reg value }

def Issue.setControl (a : Issue) (id : ℕ) (value : Word) : Issue :=
  { a with out := a.out.setControl id value }

def Issue.appendLoad (a : Issue) (entry : Load) : Issue :=
  { a with out := { a.out with loads := a.out.loads ++ [entry] } }

def Issue.appendStore (a : Issue) (entry : Store) : Issue :=
  { a with out := { a.out with stores := a.out.stores ++ [entry] } }

/-- Install the packet timing, or reject the packet. -/
def Issue.retime (a : Issue) (timing : Option Timing) (why : String) : Except String Issue :=
  match timing with
  | none => .error why
  | some timing => .ok { a with timing }

def overlaps (loads : List Load) (entry : Load) : Bool :=
  loads.any fun old ↦ old.due = entry.due ∧ old.bank = entry.bank ∧
    old.dst < entry.dst + entry.registers ∧ entry.dst < old.dst + old.registers

def Issue.queueResult (a : Issue) (entry : Load) : Except String Issue :=
  if a.out.loads.length = 40 then .error "delayed-result queue full"
  else if overlaps a.out.loads entry then .error "parallel delayed-result write conflict"
  else .ok (a.appendLoad entry)

def queueBranch (out : Cpu) (due : ℕ) (target : Word) : Option Cpu :=
  if out.branchDue = 0 then some { out with branchDue := due, branchTarget := target }
  else if out.branchDue = due ∨ out.branchQueue.length = 5 ∨
      out.branchQueue.getLast?.map Branch.due = some due then none
  else some { out with branchQueue := out.branchQueue ++ [⟨due, target⟩] }

/-- The stored control registers of the commit step; IFR is written through the queue. -/
def mvcWrite (out : Cpu) (id : ℕ) (value : Word) : Cpu :=
  let control := out.control
  if id = 0 then (out.setControl 0 (value &&& 0x03ffffff#32)).setReady 0 (out.cycles + 2)
  else if id = 1 then
    ((out.setControl 1 ((control 1 &&& 0xffff0100#32) ||| (control 1 &&& value &&& 0x200#32) |||
      (value &&& 3#32))).setControl 26 ((control 26 &&& ~~~1#32) ||| (value &&& 1#32))).setControl
      27 ((control 27 &&& ~~~1#32) ||| ((value >>> 1) &&& 1#32))
  else if id = 24 then out.setControl 24 (value &&& 0x070000ff#32)
  else if id = 18 ∨ id = 19 ∨ id = 20 then out.setControl id (value &&& 0x07ff07ff#32)
  else if id = 21 then out.setControl 21 (value &&& 0x3f#32)
  else if id = 10 then
    if out.controlReady 16 = 0 then out.setReady 16 (out.cycles + 1) else out
  else if id = 4 then
    out.setControl 4 ((value &&& 0xfff0#32) ||| ((control 4 ||| value) &&& 2#32) ||| 1#32)
  else if id = 5 then out.setControl 5 (value &&& 0xfffffc00#32)
  else if id = 27 then
    (out.setControl 27 (value &&& 0x0000c6df#32)).setControl 1
      ((control 1 &&& ~~~2#32) ||| ((value &&& 1#32) <<< 1))
  else if id = 26 then
    (out.setControl 26 ((control 26 &&& ~~~3#32) ||| (value &&& 3#32))).setControl 1
      ((control 1 &&& ~~~1#32) ||| (value &&& 1#32))
  else if id = 13 ∨ id = 14 then (out.setControl id value).setReady id (out.cycles + 4)
  else out.setControl id value

/-- One effect against the packet so far; bus accesses are made by `run`. -/
def Issue.apply (a : Issue) : Effect → Except String Issue
  | .stop why => .error why
  | .write bank reg value =>
    if a.written bank reg then .error "parallel register write conflict"
    else .ok (a.setReg bank reg value)
  | .writePair bank reg low high =>
    if a.written bank reg ∨ a.written bank (reg + 1) then .error "parallel register write conflict"
    else .ok ((a.setReg bank reg low).setReg bank (reg + 1) high)
  | .reserve n =>
    if 40 < a.out.loads.length + n then .error "delayed-result queue full" else .ok a
  | .result latency bank dst value status multiplier =>
    a.queueResult ⟨a.out.cycles + latency, value, bank, dst, .scalar status multiplier⟩
  | .resultPair latency bank dst value =>
    a.queueResult ⟨a.out.cycles + latency, value, bank, dst, .pair⟩
  | .sat latency mask =>
    if a.out.loads.length = 40 then .error "delayed-status queue full"
    else .ok (a.appendLoad ⟨a.out.cycles + latency, 0, 0, 0, .sat mask⟩)
  | .compared latency bank dst value mask => do
    -- room for both entries is checked first
    if 40 < a.out.loads.length + 1 + mask.toList.length then .error "delayed-result queue full"
    else
      let due := a.out.cycles + latency
      let a ← a.queueResult ⟨due, value, bank, dst, .scalar 0 false⟩
      .ok (match mask with
        | some mask => a.appendLoad ⟨due, 0, 0, 0, .faucr mask⟩
        | none => a)
  | .memoryAccess nonaligned =>
    .ok { a with
      memoryCount := a.memoryCount + 1
      nonalignedMemory := a.nonalignedMemory || nonaligned }
  | .probe .. => .ok a
  | .check .. => .ok a
  | .load address size width signExtend bank dst =>
    let entry : Load :=
      ⟨a.out.cycles + 5, 0, bank, dst, .memory address size width signExtend⟩
    if a.out.loads.length = 40 then .error "load queue full"
    else if overlaps a.out.loads entry then .error "parallel load write conflict"
    else .ok (a.appendLoad entry)
  | .loadWord address bank dst =>
    -- this form compares first registers only
    if a.out.loads.length = 40 then .error "load queue full"
    else if a.out.loads.any fun old ↦
        old.due = a.out.cycles + 5 ∧ old.bank = bank ∧ old.dst = dst then
      .error "parallel load write conflict"
    else .ok (a.appendLoad ⟨a.out.cycles + 5, 0, bank, dst, .memory address 4 0 false⟩)
  | .store address value size width =>
    if a.out.stores.length = 24 then .error "store queue full"
    else .ok (a.appendStore ⟨a.out.cycles + 3, value, address, size, width⟩)
  | .branch target why =>
    match queueBranch a.out (a.out.cycles + 6) target with
    | none => .error why
    | some out => .ok { a with out }
  | .noBranch why => if a.out.branchDue ≠ 0 then .error why else .ok a
  | .nop count => a.retime (a.timing.packetNop count) "multiple multicycle instructions"
  | .idle => a.retime a.timing.packetIdle "multiple multicycle instructions"
  | .protectedLoad => a.retime a.timing.packetProtectedLoad "multiple multicycle instructions"
  | .multicycle cycles why => a.retime (a.timing.packetMulticycle cycles) why
  | .faucr mask =>
    if a.controls 19 then .error "parallel FAUCR status write conflict"
    else .ok ((a.setControl 19 (a.out.control 19 ||| mask)).claim 19)
  | .bdec =>
    if a.bdecIssued then .error "multiple BDEC instructions" else .ok { a with bdecIssued := true }
  | .guardControls ids why => if ids.any a.controls then .error why else .ok a
  | .restoreTask restored =>
    .ok (((((a.setControl 26 restored).setControl 1
      ((a.out.control 1 &&& ~~~1#32) ||| (restored &&& 1#32))).claim 1).claim 26).claim 27)
  | .setNmie => .ok ((a.setControl 4 (a.out.control 4 ||| 2#32)).claim 4)
  | .mvc id value =>
    if a.controls id then .error "parallel control write conflict"
    else if id = 2 ∨ id = 3 then
      if a.out.loads.length = 40 then .error "load queue full"
      else .ok ((a.appendLoad ⟨a.out.cycles + 2, 0, 0, 0,
        if id = 2 then .ifrSet (value &&& 0xfff0#32)
        else .ifrClear (value &&& 0xfff0#32)⟩).claim id)
    else .ok ({ a with out := mvcWrite a.out id value }.claim id)
  | .dint gie =>
    .ok ((a.setControl 26 ((a.out.control 26 &&& ~~~3#32) ||| (gie <<< 1))).setControl 1
      (a.out.control 1 &&& ~~~1#32))
  | .rint gie =>
    .ok ((a.setControl 26 ((a.out.control 26 &&& ~~~3#32) ||| gie)).setControl 1
      ((a.out.control 1 &&& ~~~1#32) ||| gie))
  | .snapshotTsch value => .ok (a.setControl 16 value)

def Issue.perform {β : Type} (bus : Bus β) (a : Issue) (effect : Effect) :
    Machine β String Issue :=
  match effect with
  | .probe address size width why => do
    let _ ← (readTransfer bus address size width).orFail why
    pure a
  | .check address value size width why => do
    (writeTransfer bus address value size width false).orFail why
    pure a
  | effect => Machine.ofExcept (a.apply effect)

def Issue.run {β : Type} (bus : Bus β) (a : Issue) (effects : List Effect) :
    Machine β String Issue :=
  effects.foldlM (Issue.perform bus) a

end Cdj2000Emulator.C674x.Effects
