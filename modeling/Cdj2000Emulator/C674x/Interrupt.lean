import Cdj2000Emulator.C674x.Operands

namespace Cdj2000Emulator.C674x.Interrupt

open State Operands

def interruptPipeDown (functional : Bool) (cpu : Cpu) : Option Cpu :=
  if !functional then some { cpu with idleCycles := 9 }
  else
    let latest := (cpu.loads.map Load.due ++ cpu.stores.map Store.due).foldl max cpu.cycles
    let drain := latest - cpu.cycles
    if 0xffffffff ≤ drain then none
    else
      let idle := if cpu.idleCycles = idleForever then 0 else cpu.idleCycles
      some { cpu with idleCycles := max idle drain }

/-- The interrupt requests the CPU knows, INT4 to INT15. -/
def maskable : Word := 0x0000fff0

/-- The requests that are pending and individually enabled. -/
def eligible (cpu : Cpu) : Word := cpu.control 2 &&& cpu.control 4 &&& maskable

def loadingStages (cpu : Cpu) : ℕ := (cpu.loop.length + cpu.loop.ii - 1) / cpu.loop.ii

def armable (cpu : Cpu) : Bool :=
  let boundaryCycle := cpu.loop.cycle + 1
  let boundary := cpu.loop.sealed ∧ cpu.loop.ii ≠ 0 ∧ boundaryCycle % cpu.loop.ii = 0
  let opening := boundaryCycle < 4
  let terminating := if cpu.loop.predicateLoop then
      4 ≤ boundaryCycle ∧ cpu.loopPredHistory &&& 4#32 = 0
    else cpu.loop.iterations * cpu.loop.ii ≤ cpu.loop.cycle
  let enoughIlc := cpu.loop.predicateLoop ∨ loadingStages cpu ≤ (cpu.control 13).toNat
  boundary ∧ ¬opening ∧ ¬terminating ∧ enoughIlc

/-- `cdj_c674x_interrupt` on an active loop, with a request it may take. -/
def armLoop (cpu : Cpu) : Except Fault Cpu :=
  let fault (why : String) : Except Fault Cpu := .error ⟨cpu.pc, 0, why⟩
  if cpu.context.immediateReload then fault "SPKERNELR interrupt restart not implemented"
  else if cpu.context.armed ∨ cpu.context.draining then .ok cpu
  else if ¬armable cpu then .ok cpu
  else if ¬cpu.context.valid then fault "SPLOOP interrupt setup address unavailable"
  else
    match cpu.loopCaptureRetained with
    | none => fault "SPLOOP retained buffer state invalid"
    | some out => .ok (out.loopSetInterruptPhase (lowestBit (eligible cpu)) true false)

def vector (cpu : Cpu) (interrupt : ℕ) (interruptedLoop : Bool) : Cpu :=
  let saved := ((cpu.control 26 &&& 0x0000c6de#32) ||| (cpu.control 1 &&& 1#32)) &&&
    ~~~(BitVec.twoPow 32 15)
  let saved := if interruptedLoop then saved ||| tsrSplx else saved &&& ~~~tsrSplx
  let out := (cpu.setControl 27 saved).setControl 6
    (if interruptedLoop then cpu.context.setupPc else cpu.pc)
  let out := (out.setControl 2 (out.control 2 &&& ~~~(BitVec.twoPow 32 interrupt)))
    |>.loopClearInterruptPhase
  let out := out.setControl 1 ((out.control 1 &&& ~~~3#32) ||| ((saved &&& 1#32) <<< 1))
  let out := out.setControl 26 ((saved &&& 0x14#32) ||| 0x8200#32)
  { out with pc := (out.control 5 &&& 0xfffffc00#32) + BitVec.ofNat 32 (interrupt * 32) }

/-- `cdj_c674x_interrupt` outside a loop, with a request it may take. -/
def enter (functional : Bool) (cpu : Cpu) : Cpu × Bool :=
  if cpu.control 26 &&& BitVec.twoPow 32 9 ≠ 0 then
    (cpu.stop ⟨cpu.pc, 0, "nested maskable interrupt not implemented"⟩, false)
  else
    let selected := cpu.context.interrupt
    let interruptedLoop := cpu.context.draining ∧ 4 ≤ selected ∧ selected ≤ 15 ∧
      (eligible cpu).getLsbD selected
    -- loop code may have disabled the request while the epilog drained
    let out := if cpu.context.draining ∧ ¬interruptedLoop then
        cpu.loopClearInterruptPhase.loopClearRetained
      else cpu
    let interrupt := if interruptedLoop then selected else lowestBit (eligible cpu)
    let out := vector out interrupt interruptedLoop
    match interruptPipeDown functional out with
    | none => (out.stop ⟨out.pc, 0, "interrupt pipe-down interval overflow"⟩, false)
    | some out => (out, true)

def interrupt (functional : Bool) (cpu : Cpu) (pending : Word) : Cpu × Bool :=
  if cpu.fault.isSome then (cpu, false)
  else if pending &&& ~~~maskable ≠ 0 then
    (cpu.stop ⟨cpu.pc, 0, "invalid CPU interrupt request mask"⟩, false)
  else
    let cpu := cpu.setControl 2 ((cpu.control 2 ||| pending) &&& maskable)
    if cpu.control 1 &&& 1#32 = 0 ∨ cpu.control 4 &&& 2#32 = 0 ∨ eligible cpu = 0 then
      (if ¬cpu.loopActive ∧ cpu.context.draining then cpu.loopClearInterruptPhase else cpu, true)
    else if cpu.branchDue ≠ 0 ∨ cpu.branchQueue ≠ [] then (cpu, true)
    else if cpu.loopActive then
      match armLoop cpu with
      | .error e => (cpu.stop e, false)
      | .ok out => (out, true)
    else enter functional cpu

end Cdj2000Emulator.C674x.Interrupt
