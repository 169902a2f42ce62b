import Cdj2000Emulator.LoopBuffer.Model
import Cdj2000Emulator.Library.Stateful

namespace Cdj2000Emulator.C674x.State

open LoopBuffer.Model

abbrev Word := BitVec 32
abbrev Long := BitVec 64

/-- `(w >> low) & (2^width - 1)`. -/
def field (w : Word) (low width : ℕ) : ℕ := (w.toNat >>> low) % 2 ^ width

/-- `CdjC674xStore`. `width` is the high byte of the source's `size`: the issue-time
circular address width, zero for linear. -/
structure Store where
  due : ℕ
  value : Long
  address : Word
  size : ℕ
  width : ℕ
  deriving DecidableEq

/-- What a `CdjC674xLoad` does when it matures: the sentinels of its `size` field,
each with the meaning it gives to `address` and `sign_extend`. -/
inductive Delayed
  | memory (address : Word) (size width : ℕ) (signExtend : Bool)
  | scalar (status : Word) (multiplier : Bool)
  | pair
  | ifrSet (mask : Word)
  | ifrClear (mask : Word)
  | sat (mask : Word)
  | faucr (mask : Word)
  deriving DecidableEq

structure Load where
  due : ℕ
  value : Long
  bank : ℕ
  dst : ℕ
  kind : Delayed
  deriving DecidableEq

/-- `queued_memory_load`. -/
def Load.isMemory (load : Load) : Bool :=
  match load.kind with
  | .memory .. => true
  | _ => false

def Load.registers (load : Load) : ℕ :=
  match load.kind with
  | .memory _ size _ _ => if size = 8 then 2 else 1
  | .scalar .. => 1
  | .pair => 2
  | _ => 0

structure Instruction where
  word : Word
  pc : Word
  header : Word
  compact : Bool
  deriving DecidableEq

structure Packet where
  instructions : List Instruction
  nextPc : Word
  singleCycle : Bool

/-- The software-loop bits that `control_ready[31]` carries. -/
structure LoopContext where
  setupPc : Word
  interrupt : ℕ
  retainedTags : ℕ
  retainedLength : ℕ
  retainedIi : ℕ
  retainedValid : Bool
  valid : Bool
  hasSpmask : Bool
  immediateReload : Bool
  armed : Bool
  draining : Bool

def LoopContext.zero : LoopContext where
  setupPc := 0
  interrupt := 0
  retainedTags := 0
  retainedLength := 0
  retainedIi := 0
  retainedValid := false
  valid := false
  hasSpmask := false
  immediateReload := false
  armed := false
  draining := false

structure Branch where
  due : ℕ
  target : Word
  deriving DecidableEq

/-- `CdjC674x`, its arrays as functions of the index and its queues as lists. -/
structure Cpu where
  r : ℕ → ℕ → Word
  control : ℕ → Word
  pc : Word
  cycles : ℕ
  packets : ℕ
  branchDue : ℕ
  controlReady : ℕ → ℕ
  context : LoopContext
  branchTarget : Word
  faultPc : Word
  faultWord : Word
  branchQueue : List Branch
  fault : Option String
  stores : List Store
  loads : List Load
  loopActive : Bool
  idleCycles : ℕ
  loopWait : ℕ
  loopTags : ℕ
  loopPackets : ℕ
  loopPredBank : ℕ
  loopPredReg : ℕ
  loopPredHistory : Word
  loopPredInvert : Bool
  loop : Loop
  loopInstructions : ℕ → Instruction

def idleForever : ℕ := 0xffffffff

def tsrSplx : Word := 0x4000

def reloadPostEnd : ℕ := 27
def reloadOldStart : ℕ := 28
def reloadOldEnd : ℕ := 29
def reloadCurrentStart : ℕ := 30

def reset (entry : Word) : Cpu where
  r := fun _ _ ↦ 0
  control := fun id ↦
    if id = 1 then 0x14000100
    else if id = 4 then 1
    else if id = 5 then 0x00700000
    else if id = 24 then 0x0700001d
    else 0
  pc := entry
  cycles := 0
  packets := 0
  branchDue := 0
  controlReady := fun _ ↦ 0
  context := LoopContext.zero
  branchTarget := 0
  faultPc := 0
  faultWord := 0
  branchQueue := []
  fault := none
  stores := []
  loads := []
  loopActive := false
  idleCycles := 0
  loopWait := 0
  loopTags := 0
  loopPackets := 0
  loopPredBank := 0
  loopPredReg := 0
  loopPredHistory := 0
  loopPredInvert := false
  loop := empty
  loopInstructions := fun _ ↦ ⟨0, 0, 0, false⟩

/-- The arguments of `stop`. -/
structure Fault where
  pc : Word
  word : Word
  why : String
  deriving DecidableEq

def Cpu.stop (cpu : Cpu) (e : Fault) : Cpu :=
  { cpu with fault := some e.why, faultPc := e.pc, faultWord := e.word }

def Cpu.setReg (cpu : Cpu) (bank reg : ℕ) (value : Word) : Cpu :=
  { cpu with r := Function.update cpu.r bank (Function.update (cpu.r bank) reg value) }

def Cpu.setControl (cpu : Cpu) (id : ℕ) (value : Word) : Cpu :=
  { cpu with control := Function.update cpu.control id value }

def Cpu.setReady (cpu : Cpu) (id : ℕ) (cycle : ℕ) : Cpu :=
  { cpu with controlReady := Function.update cpu.controlReady id cycle }

/-- The part of the CPU that issue and retirement schedule effects in. -/
structure Pipeline where
  cycles : ℕ
  branchDue : ℕ
  branchTarget : Word
  branchQueue : List Branch
  stores : List Store
  loads : List Load

def Cpu.pipeline (cpu : Cpu) : Pipeline where
  cycles := cpu.cycles
  branchDue := cpu.branchDue
  branchTarget := cpu.branchTarget
  branchQueue := cpu.branchQueue
  stores := cpu.stores
  loads := cpu.loads

/-- The taken branches in flight, oldest first. -/
def Pipeline.branches (p : Pipeline) : List Branch :=
  if p.branchDue = 0 then [] else ⟨p.branchDue, p.branchTarget⟩ :: p.branchQueue

section

variable (cpu : Cpu)

@[simp] theorem Cpu.stop_pipeline (e : Fault) : (cpu.stop e).pipeline = cpu.pipeline := rfl

@[simp] theorem Cpu.setReg_pipeline (bank reg : ℕ) (value : Word) :
    (cpu.setReg bank reg value).pipeline = cpu.pipeline := rfl

@[simp] theorem Cpu.setControl_pipeline (id : ℕ) (value : Word) :
    (cpu.setControl id value).pipeline = cpu.pipeline := rfl

@[simp] theorem Cpu.setReady_pipeline (id cycle : ℕ) :
    (cpu.setReady id cycle).pipeline = cpu.pipeline := rfl

end

def Cpu.loopSetActive (cpu : Cpu) (active : Bool) : Cpu :=
  { cpu.setControl 26 (if active then cpu.control 26 ||| tsrSplx
      else cpu.control 26 &&& ~~~tsrSplx) with loopActive := active }

def LoopContext.clearRetained (context : LoopContext) : LoopContext :=
  { context with
    retainedTags := 0, retainedLength := 0, retainedIi := 0, retainedValid := false }

def Cpu.loopClearRetained (cpu : Cpu) : Cpu := { cpu with context := cpu.context.clearRetained }

def Cpu.loopCaptureRetained (cpu : Cpu) : Option Cpu :=
  if 112 < cpu.loopTags ∨ 48 < cpu.loop.length ∨ cpu.loop.ii = 0 ∨ 16 < cpu.loop.ii then none
  else some { cpu with
    context := { cpu.context with
      retainedValid := true
      retainedTags := cpu.loopTags
      retainedLength := cpu.loop.length
      retainedIi := cpu.loop.ii } }

def Cpu.loopSetSetup (cpu : Cpu) (setupPc : Word) (preserveRetained : Bool) : Cpu :=
  { cpu with
    context := { (if preserveRetained then cpu.context else LoopContext.zero) with
      setupPc := setupPc
      valid := true
      interrupt := 0
      hasSpmask := false
      immediateReload := false
      armed := false
      draining := false } }

/-- `loop_set_interrupt_phase`, the phase given by its two bits. -/
def Cpu.loopSetInterruptPhase (cpu : Cpu) (interrupt : ℕ) (armed draining : Bool) : Cpu :=
  { cpu with context := { cpu.context with interrupt, armed, draining } }

def Cpu.loopClearInterruptPhase (cpu : Cpu) : Cpu := cpu.loopSetInterruptPhase 0 false false

section

variable (cpu : Cpu)

@[simp] theorem Cpu.loopSetActive_pipeline (active : Bool) :
    (cpu.loopSetActive active).pipeline = cpu.pipeline := rfl

@[simp] theorem Cpu.loopClearRetained_pipeline :
    cpu.loopClearRetained.pipeline = cpu.pipeline := rfl

@[simp] theorem Cpu.loopSetSetup_pipeline (setupPc : Word) (preserve : Bool) :
    (cpu.loopSetSetup setupPc preserve).pipeline = cpu.pipeline := rfl

@[simp] theorem Cpu.loopSetInterruptPhase_pipeline (interrupt : ℕ) (armed draining : Bool) :
    (cpu.loopSetInterruptPhase interrupt armed draining).pipeline = cpu.pipeline := rfl

@[simp] theorem Cpu.loopClearInterruptPhase_pipeline :
    cpu.loopClearInterruptPhase.pipeline = cpu.pipeline := rfl

theorem Cpu.loopCaptureRetained_pipeline {out : Cpu}
    (h : cpu.loopCaptureRetained = some out) : out.pipeline = cpu.pipeline := by
  simp only [loopCaptureRetained, Option.ite_none_left_eq_some, Option.some.injEq] at h
  rw [← h.2]
  rfl

end

end Cdj2000Emulator.C674x.State
