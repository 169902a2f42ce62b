import Cdj2000Emulator.C674x.Dispatch
import Cdj2000Emulator.C674x.Compact

namespace Cdj2000Emulator.C674x.Execute

open Library.Stateful State Transfer Decode Effects Operands ArmControl C674x.Compact Dispatch

/-- A call on the bus that may record a fault. -/
abbrev Exec (β α : Type) := Machine β Fault α

section Issue

variable (u : Arithmetic) (cpu : Cpu) (packet : Packet)

def nopEffects (insn : Instruction) : List Effect :=
  let nop := nopCycles insn
  if nop = 16 ∧ ¬insn.compact then [.idle]
  else if 9 < nop then stop "reserved NOP count"
  else [.nop nop]

def excludesCallp (other : Instruction) : Bool :=
  let w := other.word
  (!other.compact && (w &&& 0x7c#32 = 0x10#32 ∨ w &&& 0x1ffe#32 = 0x162#32 ∨
    w &&& 0xffe#32 = 0x362#32 ∨ w &&& 0x1ffc#32 = 0x120#32)) || compactBranch other

def isCallp (header w : Word) (compact : Bool) : Bool :=
  if compact then header &&& 0x8000#32 ≠ 0 ∧ w &&& 0x3e#32 = 0x1a#32
  else w &&& 0xf000007c#32 = 0x10000010#32

def callpEffects (others : List Instruction) (pc w : Word) (compact : Bool) : List Effect :=
  let side := if compact then field w 0 1 else field w 1 1
  let offset := (if compact then sxField w 6 10 else sxField w 7 21) * 4
  let refusal := "CALLP with pending branch or multicycle instruction"
  [.noBranch refusal, .multicycle 6 refusal] ++
    if others.any excludesCallp then stop "CALLP with parallel control instruction"
    else [.write side 3 packet.nextPc,
      .branch (fetchRelative pc offset) "CALLP branch queue conflict"]

/-- Predicate `creg`/`z` of the conditional formats: its register is tested. -/
def enabled (w : Word) : Bool :=
  let creg := field w 29 3
  let bank := [0, 1, 1, 1, 0, 0, 0].getD creg 0
  let index := [0, 0, 1, 2, 1, 2, 0].getD creg 0
  creg = 0 || ((cpu.r bank index ≠ 0) != (field w 28 1 = 1))

def decodeArm (index : ℕ) (insn : Instruction) (w : Word) : Arm where
  cpu := cpu
  packet := packet
  index := index
  header := insn.header
  w := w
  pc := insn.pc
  side := field w 1 1
  dst := field w 23 5
  a := field w 13 5
  b := field w 18 5
  cross := (field w 1 1 + field w 12 1) % 2
  enabled := enabled cpu w
  longOffset := w &&& 0x0c#32 = 12#32
  scalarSatOp := w &&& 0xffc#32

/-- A 32-bit instruction, or the 32-bit form of a compact one. -/
def fullEffects (index : ℕ) (insn : Instruction) (w : Word) : List Effect :=
  let gate := interruptGateDecode insn
  let others := packet.instructions.eraseIdx index
  let uncond := uncondClassify w
  if gate ≠ .none then
    if others.any (interruptGateParallelConflict gate) then
      stop "DINT/RINT parallel instruction conflict"
    else if gate = .disable then [.dint (cpu.control 1 &&& 1#32)]
    else [.rint ((cpu.control 26 >>> 1) &&& 1#32)]
  else if field w 29 3 = 7 ∨ (field w 29 3 = 0 ∧ field w 28 1 = 1 ∧ uncond = .none) then
    stop "reserved predicate"
  else if uncond = .unimplemented then stop "instruction not implemented"
  else if uncond ≠ .none ∧ uncond ≠ .armTable then
    let adda := addaLong uncond w (cpu.r 1 14) (cpu.r 1 15)
    [.write adda.side adda.dst adda.result]
  else
    match armLookup u w with
    | none => stop "instruction not implemented"
    | some arm => arm.run u (decodeArm cpu packet index insn w)

/-- The body of the issue loop, for the instruction at `index`. -/
def instructionEffects (index : ℕ) (insn : Instruction) : List Effect :=
  if isSpmask insn then if index ≠ 0 then stop "SPMASK(R) must start packet" else []
  else if nopCycles insn ≠ 0 then nopEffects insn
  else
    let lowered := if insn.compact then
      (expandMemory insn.header insn.word).or (expandScalar insn.header insn.word) else none
    let w := lowered.getD insn.word
    let compact := insn.compact && lowered.isNone
    (if protectedLoad insn then [.protectedLoad] else []) ++
    if isCallp insn.header w compact then
      callpEffects packet (packet.instructions.eraseIdx index) insn.pc w compact
    else if compact then compactEffects cpu insn.header insn.pc w
    else fullEffects u cpu packet index insn w

def sharedSpmask : (seenSpmask seenNop : Bool) → List Instruction → Option Instruction
  | _, _, [] => none
  | seenSpmask, seenNop, insn :: rest =>
    let long := 1 < nopCycles insn ∧ nopCycles insn ≤ 9
    if (isSpmask insn ∧ seenNop) ∨ (long ∧ seenSpmask) then some insn
    else sharedSpmask (seenSpmask || isSpmask insn) (seenNop || long) rest

variable {β : Type} (bus : Bus β)

def issueInstruction (a : Issue) (slot : Instruction × ℕ) : Exec β Issue :=
  (a.run bus (instructionEffects u cpu packet slot.2 slot.1)).mapError fun why ↦
    ⟨slot.1.pc, slot.1.word, why⟩

def issuePacket : Exec β Issue :=
  packet.instructions.zipIdx.foldlM (issueInstruction u cpu packet bus) (Issue.start cpu)

end Issue

section Conflicts

/-- Whether a load samples in the cycle in which the store commits, and they share a byte. -/
def simultaneous (load : Load) (store : Store) : Bool :=
  match load.kind with
  | .memory address size width _ =>
    load.due = store.due + 2 ∧ (List.range size).any fun l ↦ (List.range store.size).any fun s ↦
      circularAddress address (address + BitVec.ofNat 32 l) width =
        circularAddress store.address (store.address + BitVec.ofNat 32 s) store.width
  | _ => false

def e1Conflict (a : Issue) (load : Load) : Option String :=
  if load.due ≠ a.out.cycles + 1 then none
  else if load.registers ≠ 0 ∧ (a.written load.bank load.dst ∨
      (load.registers = 2 ∧ a.written load.bank (load.dst + 1))) then
    some "delayed-result write conflict"
  else
    match load.kind with
    | .scalar status multiplier =>
      if status ≠ 0 ∧ a.controls (if multiplier then 20 else 18) then
        some "delayed FP-status write conflict"
      else none
    | .faucr _ => if a.controls 19 then some "delayed FP-status write conflict" else none
    | _ => none

def packetConflict (a : Issue) : Option String :=
  if a.nonalignedMemory ∧ 1 < a.memoryCount then
    some "parallel access with nonaligned memory instruction"
  else if a.out.loads.any fun load ↦ a.out.stores.any fun store ↦ simultaneous load store then
    some "simultaneous overlapping RAM accesses not implemented"
  else a.out.loads.findSome? (e1Conflict a)

end Conflicts

section Retire

variable {β : Type} (bus : Bus β) (pc : Word)

def retireStores (cycles : ℕ) : List Store → Exec β (List Store)
  | [] => pure []
  | store :: rest =>
    if cycles < store.due then do
      let kept ← retireStores cycles rest
      pure (store :: kept)
    else do
      (writeTransfer bus store.address store.value store.size store.width true).orFail
        (⟨pc, 0, "RAM store callback broke commit guarantee"⟩ : Fault)
      retireStores cycles rest

def sample (cycles : ℕ) (load : Load) : Exec β Load :=
  match load.kind with
  | .memory address size width signExtend =>
    if load.due = cycles + 2 then do
      let data ← (readTransfer bus address size width).orFail
        (⟨pc, 0, "RAM load mapping changed during execution"⟩ : Fault)
      pure { load with
        value := if signExtend then (sx (low data) (size * 8)).signExtend 64 else data }
    else pure load
  | _ => pure load

def writeBack (out : Cpu) (load : Load) : Cpu :=
  let out := out.setReg load.bank load.dst (low load.value)
  let out := if load.registers = 2 then out.setReg load.bank (load.dst + 1) (high load.value)
    else out
  match load.kind with
  | .scalar status multiplier =>
    let id := if multiplier then 20 else 18
    out.setControl id (out.control id ||| status)
  | _ => out

def isIfr (load : Load) : Bool :=
  match load.kind with
  | .ifrSet _ => true
  | .ifrClear _ => true
  | _ => false

/-- The union of the masks that `select` finds. -/
def maskUnion (select : Load → Option Word) (loads : List Load) : Word :=
  (loads.filterMap select).foldl (· ||| ·) 0

def applyIfr (out : Cpu) (due : List Load) : Cpu :=
  let sets := maskUnion (fun load ↦ match load.kind with | .ifrSet m => some m | _ => none) due
  let clears := maskUnion (fun load ↦ match load.kind with | .ifrClear m => some m | _ => none) due
  out.setControl 2 (((out.control 2 &&& ~~~clears) ||| sets) &&& 0xfff2#32)

/-- How a pass over the load queue ends: at its end, or at an IFR effect, which makes the
source start over. `written` lists the results written to registers. -/
inductive Sweep
  | done (out : Cpu) (kept written : List Load)
  | again (out : Cpu) (loads written : List Load)

/-- One pass over the queue; `kept` has been looked at and stays. -/
def sweep (cycles : ℕ) : (rest kept : List Load) → Cpu → (written : List Load) → Exec β Sweep
  | [], kept, out, written => pure (.done out kept written)
  | load :: rest, kept, out, written => do
    let load ← sample bus pc cycles load
    if cycles < load.due then sweep cycles rest (kept ++ [load]) out written
    else
      match load.kind with
      | .sat mask =>
        sweep cycles rest kept ((out.setControl 1 (out.control 1 ||| 0x200#32)).setControl 21
          (out.control 21 ||| (mask &&& 0x3f#32))) written
      | .faucr mask =>
        sweep cycles rest kept (out.setControl 19 (out.control 19 ||| mask)) written
      | .ifrSet _ | .ifrClear _ =>
        let due := (load :: rest).filter (·.due ≤ cycles)
        pure (.again (applyIfr out due)
          ((kept ++ load :: rest).filter fun l ↦ !(l.due ≤ cycles && isIfr l)) written)
      | _ => sweep cycles rest kept (writeBack out load) (written ++ [load])

/-- Retirement of the load queue. A pass that starts over has removed its IFR effects,
so there is at most one for each entry. -/
def retireLoads (cycles : ℕ) :
    (passes : ℕ) → List Load → Cpu → (written : List Load) → Exec β (Cpu × List Load × List Load)
  | 0, loads, out, written => pure (out, loads, written)
  | passes + 1, loads, out, written => do
    match ← sweep bus pc cycles loads [] out written with
    | .done out kept written => pure (out, kept, written)
    | .again out loads written => retireLoads cycles passes loads out written

def completeBranch (out : Cpu) : Except Fault Cpu :=
  let out := { out with pc := out.branchTarget }
  if out.loopActive ∧ out.context.retainedValid then
    .error ⟨out.pc, 0, "taken branch out of a nested loop with an interrupted loop pending"⟩
  else
    let out := if out.loopActive then (out.loopSetActive false).loopClearInterruptPhase else out
    let out := match out.branchQueue with
      | [] => { out with branchDue := 0 }
      | next :: rest =>
        { out with branchDue := next.due, branchTarget := next.target, branchQueue := rest }
    .ok { out with idleCycles := 0 }

def retireCycle (out : Cpu) (written : List Load) : Exec β (Cpu × List Load) := do
  let out := { out with cycles := out.cycles + 1 }
  Machine.modify bus.tick
  let stores ← retireStores bus pc out.cycles out.stores
  let out := { out with stores }
  let (out, loads, written) ←
    retireLoads bus pc out.cycles (out.loads.length + 1) out.loads out written
  pure ({ out with loads }, written)

def retireCycles : (cycles : ℕ) → Cpu → (written : List Load) → Exec β (Cpu × List Load)
  | 0, out, written => pure (out, written)
  | n + 1, out, written => do
    let (out, written) ← retireCycle bus pc out written
    if out.branchDue ≠ 0 ∧ out.cycles = out.branchDue then do
      let out ← Machine.ofExcept (completeBranch out)
      pure (out, written)
    else retireCycles n out written

end Retire

/-- What a packet puts in flight, and what is written to registers as it issues. -/
structure Trace where
  stores : List Store
  loads : List Load
  written : List Load

/-- The packet's duration and fetch address, after the conflict checks. -/
def settle (packet : Packet) (a : Issue) : ℕ × Cpu :=
  let pad := packet.singleCycle ∧ 1 < a.timing.cycles
  let out := if pad then { a.out with idleCycles := a.timing.cycles - 1 } else a.out
  let out := if a.timing.idle then { out with idleCycles := idleForever } else out
  (if pad then 1 else a.timing.cycles, { out with pc := packet.nextPc })

def execute {β : Type} (u : Arithmetic) (bus : Bus β) (cpu : Cpu) (packet : Packet) :
    Exec β (Cpu × Trace) :=
  match cpu.fault with
  | some why => Machine.fail ⟨cpu.faultPc, cpu.faultWord, why⟩
  | none => do
    Machine.require (packet.instructions.length ≤ 8)
      ⟨cpu.pc, 0, "execute packet exceeds eight instructions"⟩
    match sharedSpmask false false packet.instructions with
    | some insn => Machine.fail ⟨insn.pc, insn.word, "NOP n cannot share SPMASK(R) packet"⟩
    | none => do
      let a ← issuePacket u cpu packet bus
      match packetConflict a with
      | some why => Machine.fail ⟨cpu.pc, 0, why⟩
      | none => do
        let (cycles, out) := settle packet a
        let (out, written) ← retireCycles bus cpu.pc cycles out []
        pure ({ out with packets := out.packets + 1 },
          { stores := a.out.stores.drop cpu.stores.length
            loads := a.out.loads.drop cpu.loads.length
            written })

end Cdj2000Emulator.C674x.Execute
