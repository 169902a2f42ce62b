import Cdj2000Emulator.C674x.Step

namespace Cdj2000Emulator.C674x.Phases

open Library.Stateful LoopBuffer.Model State Transfer Execute Fetch LoopStep Step Operands

/-- What a step executes, and what it makes of the result. -/
structure Phase where
  cpu : Cpu
  packet : Packet
  finish : Cpu → Except Fault Cpu

variable {β : Type} (u : Arithmetic) (bus : Bus β) (functional : Bool) (cpu : Cpu)

def loopPhase : Exec β Phase := do
  let c ← loopCycle bus functional cpu
  let branchMatures := c.out.context.immediateReload ∧ cpu.branchDue ≠ 0 ∧
    cpu.branchDue = cpu.cycles + 1
  pure ⟨c.out, c.packet,
    afterExecute cpu.pc c c.out.context.armed c.out.context.draining branchMatures⟩

def setupPhase (packet : Packet) (s : Start) : Exec β Phase := do
  let fault (why : String) : Fault := ⟨cpu.pc, s.insn.word, why⟩
  match s.refusal cpu with
  | some why => Machine.fail (fault why)
  | none =>
    match init s.ii (cpu.control 13).toNat with
    | none => Machine.fail (fault "invalid SPLOOP interval")
    | some loop => do
      Machine.require (¬(s.returning ∧ cpu.context.retainedValid ∧ s.ii ≠ cpu.context.retainedIi))
        (fault "SPLOOP interrupt-return interval mismatch")
      match setupConflict packet.instructions.tail with
      | some e => Machine.fail e
      | none =>
        let rest := if s.returning then [] else packet.instructions.tail
        pure ⟨s.prepare cpu loop, { packet with instructions := rest },
          fun out ↦ (delayedIterations cpu.pc s out).map (activate cpu s)⟩

/-- A cycle outside the loop buffer, up to execution. -/
def directPhase : Exec β Phase := do
  let packet ← fetch bus cpu
  match packet.instructions.head?.bind fun first ↦ (setupKind first).map (·, first) with
  | none => pure ⟨cpu, packet, .ok⟩
  | some (.sploopdReload, first) =>
    Machine.fail ⟨cpu.pc, first.word, "SPLOOPD reload not implemented"⟩
  | some (kind, first) => setupPhase cpu packet (decodeStart cpu kind first)

def prepare : Exec β Phase :=
  if cpu.loopActive then loopPhase bus functional cpu
  else if cpu.idleCycles ≠ 0 then pure ⟨idleTick cpu, ⟨[], cpu.pc, true⟩, .ok⟩
  else directPhase bus cpu

def Phase.run (p : Phase) : Exec β (Cpu × Trace) := do
  let (out, trace) ← execute u bus p.cpu p.packet
  let out ← Machine.ofExcept (p.finish out)
  pure (out, trace)

variable {bus cpu}

theorem run_of_ok (packet : Packet) : Phase.run u bus ⟨cpu, packet, .ok⟩ = execute u bus cpu packet := by
  funext s
  unfold Phase.run
  rw [Machine.bind_apply]
  rcases execute u bus cpu packet s with ⟨t, e | ⟨out, trace⟩⟩
  · rfl
  · rfl

theorem setupStep_eq (packet : Packet) (s : Start) :
    setupStep u bus cpu packet s = (setupPhase cpu packet s : Exec β Phase) >>= Phase.run u bus := by
  unfold setupStep setupPhase
  cases s.refusal cpu with
  | some why => rfl
  | none =>
    cases init s.ii (cpu.control 13).toNat with
    | none => rfl
    | some loop =>
      dsimp only
      rw [Machine.bind_assoc]
      congr 1
      funext _
      cases setupConflict packet.instructions.tail with
      | some e => rfl
      | none =>
        funext t
        simp only [Phase.run, Machine.bind_apply, Machine.pure_apply]
        split
        next r t' result heq =>
          simp only [Machine.ofExcept_apply]
          cases delayedIterations cpu.pc s result.1 with
          | error e => rfl
          | ok out => rfl
        next => rfl

theorem stepBody_eq : stepBody u bus functional cpu = prepare bus functional cpu >>= Phase.run u bus := by
  unfold stepBody prepare
  split_ifs with active idle
  · unfold loopStep loopPhase
    rw [Machine.bind_assoc]
    rfl
  · exact (run_of_ok u _).symm
  · unfold directStep directPhase
    rw [Machine.bind_assoc]
    congr 1
    funext packet
    rcases packet.instructions.head?.bind _ with _ | ⟨kind, first⟩
    · exact (run_of_ok u packet).symm
    · cases kind with
      | sploopdReload => rfl
      | sploop | sploopd | sploopw => exact setupStep_eq u packet _

end Cdj2000Emulator.C674x.Phases
