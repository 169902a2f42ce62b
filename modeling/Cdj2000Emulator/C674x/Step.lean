import Cdj2000Emulator.C674x.LoopStep

namespace Cdj2000Emulator.C674x.Step

open Library.Stateful LoopBuffer.Model State Transfer Decode Operands Execute Fetch Interrupt
  LoopStep

/-- The loop-setup instructions that `cdj_c674x_step` recognises. -/
inductive Setup
  | sploop
  | sploopd
  | sploopw
  | sploopdReload
  deriving DecidableEq

def setupKind (insn : Instruction) : Option Setup :=
  let w := insn.word
  if insn.compact then
    if w &&& 0xbc7e#32 = 0x8c66#32 then some .sploopdReload
    else if w &&& 0xbc7f#32 = 0x0c66#32 then some .sploop
    else if w &&& 0xbc7f#32 = 0x0c67#32 then some .sploopd
    else none
  else if w &&& 0x007ffffe#32 = 0x3e000#32 then some .sploopw
  else if w &&& 0x007ffffc#32 = 0x38000#32 then some .sploop
  else if w &&& 0x007ffffc#32 = 0x3a000#32 then some .sploopd
  else none

/-- The decoded setup: its interval, its predicate field and how it starts. -/
structure Start where
  kind : Setup
  insn : Instruction
  ii : ℕ
  predicate : ℕ
  returning : Bool

def decodeStart (cpu : Cpu) (kind : Setup) (insn : Instruction) : Start where
  kind := kind
  insn := insn
  ii := if insn.compact then field insn.word 7 3 + field insn.word 14 1 * 8 + 1
    else field insn.word 23 5 + 1
  predicate := if insn.compact then 0 else field insn.word 29 3
  returning := cpu.control 26 &&& tsrSplx ≠ 0

namespace Start

variable (s : Start)

def whileLoop : Bool := s.kind = .sploopw

def delayedLoop : Bool := s.kind = .sploopd && !s.returning

def reloadSetup : Bool := s.kind = .sploop && !s.insn.compact && s.predicate ≠ 0

def refusal (cpu : Cpu) : Option String :=
  let predicateRefused := if s.whileLoop then s.predicate = 0 ∨ s.predicate = 7
    else if s.reloadSetup then s.predicate = 7 ∨ s.returning
    else ¬s.insn.compact ∧ s.insn.word >>> 28 ≠ 0
  if predicateRefused then some "unsupported loop predicate"
  else if ¬s.whileLoop ∧ ¬s.delayedLoop ∧ cpu.cycles < cpu.controlReady 13 then
    some "ILC not yet available"
  else if s.reloadSetup ∧ cpu.branchDue ≠ 0 then
    some "SPKERNELR setup with pending branch unsupported"
  else none

def predBank : ℕ := [0, 1, 1, 1, 0, 0, 0].getD s.predicate 0
def predReg : ℕ := [0, 0, 1, 2, 1, 2, 0].getD s.predicate 0
def predInvert : Bool := field s.insn.word 28 1 = 1

/-- The history that a setup leaves: SPLOOPW starts with three true samples, a reload with
the sample of its own cycle. -/
def history (cpu : Cpu) : Word :=
  let returned : Word := if s.returning then loopReturning else 0
  if s.whileLoop then returned ||| 7#32
  else if s.reloadSetup then
    if (cpu.r s.predBank s.predReg ≠ 0) != s.predInvert then 0x100 else 0
  else returned

def prepare (cpu : Cpu) (loop : Loop) : Cpu :=
  let out := { cpu with
    loop := { loop with predicateLoop := s.whileLoop, delayedCount := s.delayedLoop } }
  let out := out.loopSetSetup s.insn.pc s.returning
  let out := if s.reloadSetup then
      ((({ out with context := { out.context with immediateReload := true } }.setReady
        reloadPostEnd 0).setReady reloadOldStart 0).setReady reloadOldEnd 0).setReady
        reloadCurrentStart 0
    else out
  let out := if s.reloadSetup ∨ s.whileLoop then
      { out with
        loopPredBank := s.predBank, loopPredReg := s.predReg, loopPredInvert := s.predInvert }
    else out
  { out with loopPredHistory := s.history cpu }

end Start

def setupConflict : List Instruction → Option Fault
  | [] => none
  | other :: rest =>
    let v := other.word
    if (spmaskDecode other).isSome then
      some ⟨other.pc, v, "SPMASK cannot share loop setup packet"⟩
    else if protectedLoad other ∨ 1 < nopCycles other ∨ interruptGateDecode other ≠ .none ∨
        (¬other.compact ∧ (v &&& 0xffe#32 = 0x362#32 ∨ v &&& 0x7c#32 = 0x10#32 ∨
          v &&& 0x1ffc#32 = 0x120#32)) ∨ compactBranch other then
      some ⟨other.pc, v, "multicycle loop setup packet not implemented"⟩
    else setupConflict rest

variable {β : Type} (u : Arithmetic) (bus : Bus β) (functional : Bool)

def delayedIterations (pc : Word) (s : Start) (out : Cpu) : Except Fault Cpu :=
  let minimum := (4 + s.ii - 1) / s.ii
  if ¬s.delayedLoop then .ok out
  else if 0xffffffff - minimum < (out.control 13).toNat then
    .error ⟨pc, s.insn.word, "SPLOOPD iteration count overflow"⟩
  else .ok { out with loop := { out.loop with iterations := (out.control 13).toNat + minimum } }

def activate (cpu : Cpu) (s : Start) (out : Cpu) : Cpu :=
  let active := ¬(cpu.branchDue ≠ 0 ∧ cpu.branchDue ≤ out.cycles)
  let out := if active then out.loopSetActive true
    else
      let out := { out with loopActive := false }
      if s.returning then out else out.setControl 26 (out.control 26 &&& ~~~tsrSplx)
  let out := { out with
    loopWait := 0
    loopPackets := 0
    loopTags := if out.context.retainedValid then out.context.retainedTags else 0 }
  if ¬s.whileLoop ∧ ¬s.delayedLoop ∧ out.control 13 ≠ 0 then
    out.setControl 13 (out.control 13 - 1)
  else out

/-- The loop-setup half of `cdj_c674x_step`, after decoding. -/
def setupStep (cpu : Cpu) (packet : Packet) (s : Start) : Exec β (Cpu × Trace) := do
  let fault (why : String) : Fault := ⟨cpu.pc, s.insn.word, why⟩
  match s.refusal cpu with
  | some why => Machine.fail (fault why)
  | none =>
    match init s.ii (cpu.control 13).toNat with
    | none => Machine.fail (fault "invalid SPLOOP interval")
    | some loop => do
      Machine.require (¬(s.returning ∧ cpu.context.retainedValid ∧ s.ii ≠ cpu.context.retainedIi))
        (fault "SPLOOP interrupt-return interval mismatch")
      match setupConflict packet.instructions.tail with
      | some e => Machine.fail e
      | none => do
        -- the operations parallel with a returned setup are NOPs
        let rest := if s.returning then [] else packet.instructions.tail
        let (out, trace) ← execute u bus (s.prepare cpu loop) { packet with instructions := rest }
        let out ← Machine.ofExcept (delayedIterations cpu.pc s out)
        pure (activate cpu s out, trace)

/-- A cycle in which no packet is fetched. -/
def idleStep (cpu : Cpu) : Exec β (Cpu × Trace) :=
  execute u bus (idleTick cpu) ⟨[], cpu.pc, true⟩

/-- A cycle outside the loop buffer. -/
def directStep (cpu : Cpu) : Exec β (Cpu × Trace) := do
  let packet ← fetch bus cpu
  match packet.instructions.head?.bind fun first ↦ (setupKind first).map (·, first) with
  | none => execute u bus cpu packet
  | some (.sploopdReload, first) =>
    Machine.fail ⟨cpu.pc, first.word, "SPLOOPD reload not implemented"⟩
  | some (kind, first) => setupStep u bus cpu packet (decodeStart cpu kind first)

/-- The body of `cdj_c674x_step` on a CPU without a fault. -/
def stepBody (cpu : Cpu) : Exec β (Cpu × Trace) :=
  if cpu.loopActive then loopStep u bus functional cpu
  else if cpu.idleCycles ≠ 0 then idleStep u bus cpu
  else directStep u bus cpu

/-- What a call of `cdj_c674x_step` leaves: the bus, the CPU, its result, and for an
accepted step what it put in flight. -/
structure Outcome (β : Type) where
  bus : β
  cpu : Cpu
  accepted : Bool
  trace : Trace

def step (s : β) (cpu : Cpu) : Outcome β :=
  if cpu.fault.isSome then ⟨s, cpu, false, ⟨[], [], []⟩⟩
  else
    match stepBody u bus functional cpu s with
    | (s, .ok (out, trace)) => ⟨s, out, true, trace⟩
    | (s, .error e) => ⟨s, cpu.stop e, false, ⟨[], [], []⟩⟩

end Cdj2000Emulator.C674x.Step
