import Cdj2000Emulator.C674x.Fetch
import Cdj2000Emulator.C674x.Interrupt

namespace Cdj2000Emulator.C674x.LoopStep

open Library.Stateful LoopBuffer.Model State Transfer Decode Operands Execute Fetch Interrupt

def loopReturning : Word := 8

def Cpu.returning (cpu : Cpu) : Bool := cpu.loopPredHistory &&& loopReturning ≠ 0

section Retained

variable (cpu : Cpu)

/-- `loop_retained_tag`: the one retained instruction equal to this one. -/
def loopRetainedTag (insn : Instruction) : Option Tag :=
  let limit := cpu.context.retainedTags
  if ¬cpu.context.retainedValid ∨ 112 < limit then none
  else
    match (List.range limit).filter fun i ↦ cpu.loopInstructions i = insn with
    | [tag] => some tag
    | _ => none

/-- `loop_retained_schedule_complete`: the reloaded rows hold each retained tag once. -/
def loopRetainedScheduleComplete : Bool :=
  let limit := cpu.context.retainedTags
  let tags := (List.range cpu.loop.length).flatMap cpu.loop.tags
  cpu.context.retainedValid ∧ limit ≤ 112 ∧ cpu.loop.length = cpu.context.retainedLength ∧
    cpu.loop.ii = cpu.context.retainedIi ∧ tags.all (· < limit) ∧ tags.Nodup ∧
    (List.range limit).all (tags.contains ·)

end Retained

section Loading

def isFullKernel (insn : Instruction) : Bool :=
  !insn.compact && insn.word &&& 0xf03ffffc#32 = 0x34000#32

def isCompactKernel (insn : Instruction) : Bool :=
  insn.compact && insn.word &&& 0x3c7e#32 = 0x1c66#32

def isKernelReload (insn : Instruction) : Bool :=
  !insn.compact && insn.word &&& ~~~1#32 = 0x36000#32

/-- SPKERNEL's fetch delay: its stage bits are reversed above `cbits` cycle bits. -/
def kernelDelay (loop : Loop) (insn : Instruction) : Except String ℕ :=
  let w := insn.word
  let code := if isKernelReload insn then 0
    else if isCompactKernel insn then field w 0 1 * 32 + field w 7 3 + field w 14 2 * 8
    else field w 22 6
  let cbits := ((List.range 33).find? fun b ↦ loop.ii ≤ 2 ^ b).getD 33
  let stage := ((List.range 6).filter (cbits ≤ ·)).foldl
    (fun stage j ↦ stage + code / 2 ^ j % 2 * 2 ^ (5 - j)) 0
  let cycle := code % 2 ^ cbits
  let delay := stage * loop.ii + cycle
  if loop.ii ≤ cycle then .error "invalid SPKERNEL cycle"
  else if loop.predicateLoop ∧ delay ≠ 0 then
    .error "SPLOOPW requires zero SPKERNEL fetch delay"
  else .ok delay

/-- The state of the loop over a fetched packet's instructions. -/
structure Loading where
  out : Cpu
  finish : Bool
  delay : ℕ
  protect : Bool
  tags : List Tag
  direct : List Instruction

/-- A returned loop executes an immediate BNOP as the NOPs it inserts. -/
def returnedNop (insn : Instruction) : Except String ℕ :=
  let w := insn.word
  if ¬insn.compact ∧ w &&& 0x1ffc#32 = 0x120#32 then
    if field w 29 3 = 7 ∨ (field w 29 3 = 0 ∧ w &&& BitVec.twoPow 32 28 ≠ 0) then
      .error "reserved predicate"
    else .ok (field w 13 3 + 1)
  else if insn.compact ∧ insn.header &&& 0x8000#32 ≠ 0 ∧
      (w &&& 0x3e#32 = 0x0a#32 ∨ w &&& 0x2e#32 = 0x2a#32) then
    .ok (if w &&& 0xc000#32 = 0xc000#32 then 6 else (w >>> 13).toNat + 1)
  else .ok (nopCycles insn)

def Loading.protectedWait (st : Loading) : Except String Loading :=
  if st.finish ∨ (st.out.loopWait ≠ 0 ∧ ¬st.protect) then
    .error "invalid protected loop load packet"
  else .ok { st with out := { st.out with loopWait := 4 }, protect := true }

def isLoopControl (insn : Instruction) : Bool :=
  let w := insn.word
  (!insn.compact && (w &&& 0x1ffe#32 = 0x162#32 ∨ w &&& 0x7c#32 = 0x10#32 ∨
    w &&& 0xffe#32 = 0x362#32 ∨ w &&& 0x1ffc#32 = 0x120#32)) || compactBranch insn

def isLoopMvc (insn : Instruction) : Bool :=
  if insn.compact then insn.word &&& 0xfc7f#32 = 0xd86f#32
  else insn.word &&& 0xffe#32 = 0x3a2#32

def Loading.store (st : Loading) (returning : Bool) (insn : Instruction) : Except String Loading :=
  if returning ∧ st.out.context.retainedValid then
    match loopRetainedTag st.out insn with
    | none => .error "SPLOOP retained instruction mismatch"
    | some tag => .ok { st with tags := st.tags ++ [tag] }
  else if st.out.loopTags = 112 then .error "loop instruction capacity exceeded"
  else .ok { st with
    tags := st.tags ++ [st.out.loopTags]
    out := { st.out with
      loopTags := st.out.loopTags + 1
      loopInstructions := Function.update st.out.loopInstructions st.out.loopTags insn } }

def Loading.body (st : Loading) (returning : Bool) (mask : Word) (insn : Instruction) :
    Except String Loading := do
  let unit := instructionUnit insn
  let spmasked := mask ≠ 0 ∧ unit &&& mask ≠ 0
  if mask ≠ 0 ∧ unit = 0 then .error "SPMASK unit not implemented"
  else if spmasked ∧ returning then
    if protectedLoad insn then st.protectedWait else .ok st
  else
    let st ← (if protectedLoad insn then st.protectedWait else .ok st : Except String Loading)
    let insn := if protectedLoad insn then
        { insn with header := insn.header &&& ~~~(BitVec.twoPow 32 20) } else insn
    if isLoopControl insn then .error "loop body control instruction not implemented"
    else if spmasked then .ok { st with direct := st.direct ++ [insn] }
    else if isLoopMvc insn then .error "unmasked loop MVC not permitted"
    else st.store returning insn

/-- One instruction of a packet that is loaded; `mask` is zero without an SPMASK. -/
def Loading.instruction (reload returning : Bool) (mask : Word) (st : Loading)
    (slot : Instruction × ℕ) : Except String Loading :=
  let (insn, i) := slot
  if spmaskrDecode insn then .error "SPMASKR reload not implemented"
  else if (spmaskDecode insn).isSome then
    if i ≠ 0 then .error "SPMASK must start packet" else .ok st
  else if isFullKernel insn ∨ isCompactKernel insn ∨ isKernelReload insn then
    if i ≠ 0 then .error "SPKERNEL must start packet"
    else if reload ≠ isKernelReload insn then .error "unsupported SPLOOP reload boundary"
    else do
      let delay ← kernelDelay st.out.loop insn
      .ok { st with finish := true, delay }
  else if st.finish ∧ interruptGateDecode insn ≠ .none then
    .error "DINT/RINT cannot share SPKERNEL packet"
  else do
    let n ← (if returning then returnedNop insn else .ok (nopCycles insn) : Except String ℕ)
    if n ≠ 0 then
      if 9 < n ∨ (1 < n ∧ (st.finish ∨ st.out.loopWait ≠ 0)) then
        .error "invalid loop NOP packet"
      else .ok (if 1 < n then { st with out := { st.out with loopWait := n - 1 } } else st)
    else st.body returning mask insn

def sealReload (loop : Loop) : Option Loop :=
  let stages := (loop.length + loop.ii - 1) / loop.ii
  let lastBoundary := loop.iterations * loop.ii
  if loop.iterations < stages ∨ lastBoundary < 4 then none
  else some { loop with endCycle := max loop.endCycle lastBoundary, postCycle := never }

/-- What a loop cycle issues besides the buffer: program-memory instructions, their mask,
and where fetch stands. -/
structure Source where
  out : Cpu
  mask : Word
  direct : List Instruction
  nextPc : Word

def finishLoading (functional : Bool) (pc : Word) (reload returning : Bool) (st : Loading) :
    Except Fault Cpu := do
  let loop ← ((st.out.loop.load functional st.tags st.finish st.delay).elim
    (.error ⟨pc, 0, "invalid loop buffer load"⟩) .ok : Except Fault Loop)
  let loop ← (if st.finish ∧ reload then
      (sealReload loop).elim
        (.error ⟨pc, 0, "SPKERNELR count ends before supported loading boundary"⟩) .ok
    else .ok loop : Except Fault Loop)
  let out := { st.out with loop }
  if st.finish ∧ returning then
    if out.context.retainedValid ∧ ¬loopRetainedScheduleComplete out then
      .error ⟨pc, 0, "SPLOOP retained schedule mismatch"⟩
    else
      .ok { out with
        loopPredHistory := out.loopPredHistory &&& ~~~loopReturning }.loopClearRetained
  else .ok out

variable {β : Type} (bus : Bus β) (functional : Bool)

def loadPacket (pc : Word) (out : Cpu) : Exec β Source := do
  let source ← fetch bus out
  let returning := Cpu.returning out
  let spmask := (source.instructions.head?).bind spmaskDecode
  let mask := spmask.getD 0
  let start : Loading :=
    { out := { out with
        loopPackets := out.loopPackets + 1
        context := { out.context with
          hasSpmask := out.context.hasSpmask || spmask.isSome } }
      finish := false, delay := 0, protect := false, tags := [], direct := [] }
  let st ← source.instructions.zipIdx.foldlM (fun st slot ↦
    (Machine.ofExcept (st.instruction out.context.immediateReload returning mask slot)).mapError
      fun why ↦ (⟨slot.1.pc, slot.1.word, why⟩ : Fault)) start
  let out ← Machine.ofExcept
    (finishLoading functional pc out.context.immediateReload returning st)
  pure ⟨out, mask, st.direct, source.nextPc⟩

/-- A loading cycle in which the body is not fetched. -/
def waitLoading (pc : Word) (out : Cpu) : Except Fault Cpu :=
  match out.loop.load functional [] false 0 with
  | none => .error ⟨pc, 0, "loop dynamic length exceeded"⟩
  | some loop => .ok { out with loop, loopWait := out.loopWait - 1 }

def postConflict : List Instruction → Option Fault
  | [] => none
  | insn :: rest =>
    if spmaskrDecode insn then some ⟨insn.pc, insn.word, "SPMASKR reload not implemented"⟩
    else if (spmaskDecode insn).isSome then some ⟨insn.pc, insn.word, "SPMASK must start packet"⟩
    else postConflict rest

def postPacket (source : Source) : Exec β Source := do
  let packet ← fetch bus source.out
  let spmask := (packet.instructions.head?).bind spmaskDecode
  let rest := if spmask.isSome then packet.instructions.tail else packet.instructions
  match postConflict rest with
  | some e => Machine.fail e
  | none =>
    pure { source with
      mask := spmask.getD source.mask
      direct := source.direct ++ rest
      nextPc := packet.nextPc }

/-- Count down an idle interval; the IDLE sentinel stays. -/
def idleTick (out : Cpu) : Cpu :=
  if out.idleCycles ≠ 0 ∧ out.idleCycles ≠ idleForever then
    { out with idleCycles := out.idleCycles - 1 }
  else out

end Loading

section Cycle

/-- What the schedule and the loop condition decide in a cycle, before it executes. -/
structure Cycle where
  out : Cpu
  packet : Packet
  scheduler : Issue
  endWhile : Bool
  reloadBoundary : Bool
  reloadTaken : Bool
  visibleRilc : Word

def issueLoop (cpu : Cpu) (source : Source) : Except Fault (Cpu × Packet × Issue) :=
  let out := source.out
  let mask := if Cpu.returning out then 0 else source.mask
  let unit (tag : Tag) : Word := instructionUnit (out.loopInstructions tag)
  let allow (tag : Tag) : Bool := unit tag &&& mask = 0
  let ready := out.controlReady
  let useReload := out.context.immediateReload ∧ out.loop.sealed
  let candidates := if useReload then
      out.loop.reloadCandidates (ready reloadCurrentStart) (ready reloadOldStart)
        (ready reloadOldEnd)
    else out.loop.candidates
  let issued := if useReload then
      out.loop.issueReload (ready reloadCurrentStart) (ready reloadOldStart)
        (ready reloadOldEnd) (ready reloadPostEnd) allow
    else out.loop.issueFiltered allow
  match issued with
  | none => .error ⟨cpu.pc, 0, "loop issue capacity exceeded"⟩
  | some (issue, loop) =>
    if mask ≠ 0 ∧ candidates.any (unit · = 0) then
      .error ⟨cpu.pc, 0, "buffered SPMASK unit not implemented"⟩
    else if 8 < issue.tags.length + source.direct.length then
      .error ⟨cpu.pc, 0, "loop/direct packet capacity exceeded"⟩
    else .ok ({ out with loop },
      ⟨issue.tags.map out.loopInstructions ++ source.direct, source.nextPc, true⟩, issue)

def sampleCondition (cpu out : Cpu) (packet : Packet) (scheduler : Issue) : Except Fault Cycle :=
  let loop := out.loop
  let fault (why : String) : Except Fault Cycle := .error ⟨cpu.pc, 0, why⟩
  let endWhile : Bool := loop.predicateLoop ∧ 4 ≤ loop.cycle ∧ loop.cycle % loop.ii = 0 ∧
    out.loopPredHistory &&& 4#32 = 0
  let condition : Bool :=
    (cpu.r out.loopPredBank out.loopPredReg ≠ 0) != out.loopPredInvert
  if endWhile ∧ ¬loop.sealed then fault "SPLOOPW termination during loading not implemented"
  else if out.context.immediateReload then
    let elapsed := loop.cycle - out.controlReady reloadCurrentStart
    let boundary : Bool := loop.sealed ∧ elapsed = loop.iterations * loop.ii
    let taken : Bool := boundary && cpu.loopPredHistory &&& 0x800#32 ≠ 0
    let history := (cpu.loopPredHistory &&& 0xff#32) |||
      (((cpu.loopPredHistory &&& 0xf00#32) <<< 1) &&& 0xf00#32) |||
      (if condition then 0x100#32 else 0)
    let visibleRilc := if taken then out.control 14 else 0
    if boundary ∧ never < loop.cycle + loop.length then
      fault "SPKERNELR post-body cycle overflow"
    else if taken ∧ (loop.cycle < out.controlReady reloadOldEnd ∨
        visibleRilc.toNat < (loop.length + loop.ii - 1) / loop.ii ∨
        out.cycles < out.controlReady 14 ∨
        never < visibleRilc.toNat * loop.ii + loop.cycle + loop.length) then
      fault "SPKERNELR reload count or overlap unsupported"
    else .ok ⟨{ out with loopPredHistory := history }, packet, scheduler, endWhile, boundary,
      taken, visibleRilc⟩
  else
    let history := (out.loopPredHistory &&& loopReturning) |||
      ((((out.loopPredHistory &&& 7#32) <<< 1) ||| (if condition then 1#32 else 0)) &&& 7#32)
    .ok ⟨{ out with loopPredHistory := history }, packet, scheduler, endWhile, false, false, 0⟩

def reloadUpdate (c : Cycle) (out : Cpu) : Cpu :=
  let loop := out.loop
  let start := out.controlReady reloadCurrentStart
  if (loop.cycle - start) % loop.ii ≠ 0 then out
  else if c.reloadBoundary then
    let out := { out with loop := { loop with postCycle := loop.cycle } }.setReady
      reloadPostEnd (loop.cycle + loop.length)
    if c.reloadTaken then
      let out := ((out.setReady reloadOldStart start).setReady reloadOldEnd
        loop.endCycle).setReady reloadCurrentStart loop.cycle
      let iterations := c.visibleRilc.toNat
      let endCycle := loop.cycle + (iterations - 1) * loop.ii + loop.length
      { out.setControl 13 (c.visibleRilc - 1) with
        loop := { out.loop with
          iterations
          endCycle := max endCycle (loop.cycle + iterations * loop.ii) } }
    else out
  else if out.control 13 ≠ 0 then out.setControl 13 (out.control 13 - 1)
  else out

def ilcUpdate (c : Cycle) (armed draining : Bool) (out : Cpu) : Cpu :=
  let loop := out.loop
  let launched := 1 + loop.cycle / loop.ii
  if out.context.immediateReload then reloadUpdate c out
  else if loop.delayedCount then
    if ¬c.scheduler.postFetch ∧ ¬armed ∧ ¬draining ∧ 4 ≤ loop.cycle ∧
        loop.cycle % loop.ii = 0 ∧ out.control 13 ≠ 0 then
      out.setControl 13 (out.control 13 - 1)
    else out
  else if ¬loop.predicateLoop ∧ ¬armed ∧ ¬draining then
    out.setControl 13 (BitVec.ofNat 32 (loop.iterations - launched))
  else out

def startDrain (pc : Word) (out : Cpu) : Except Fault Cpu :=
  match out.loop.interruptDrain with
  | none => .error ⟨pc, 0, "SPLOOP interrupt drain schedule invalid"⟩
  | some loop =>
    .ok ({ out with loop }.loopSetInterruptPhase out.context.interrupt false true)

def endLoop (c : Cycle) (draining : Bool) (out : Cpu) : Cpu :=
  let out := if c.endWhile then
      let out := out.loopSetActive false
      if draining then out.loopClearInterruptPhase.loopClearRetained else out
    else out
  if c.scheduler.drained ∧
      (if out.context.immediateReload then ¬c.reloadTaken else c.scheduler.postFetch) ∧
      (¬draining ∨ (out.loads = [] ∧ out.stores = [])) then
    out.loopSetActive false
  else out

/-- A taken branch that completes in a reloaded loop leaves the buffer issuing. -/
def keepReloading (out : Cpu) : Cpu :=
  let out := out.loopSetActive true
  if out.loop.cycle < out.controlReady reloadPostEnd then
    out.setReady reloadPostEnd out.loop.cycle
  else out

def afterExecute (pc : Word) (c : Cycle) (armed draining branchMatures : Bool) (out : Cpu) :
    Except Fault Cpu := do
  let out := if branchMatures then keepReloading out else out
  let out := ilcUpdate c armed draining out
  let out ← (if armed then startDrain pc out else .ok out : Except Fault Cpu)
  .ok (endLoop c draining out)

end Cycle

variable {β : Type} (u : Arithmetic) (bus : Bus β) (functional : Bool)

def loopSource (cpu : Cpu) : Exec β Source := do
  let out := cpu.setControl 26 (cpu.control 26 ||| tsrSplx)
  let reload := out.context.immediateReload
  let post := out.loop.sealed ∧ out.loop.postCycle ≤ out.loop.cycle ∧
    (¬reload ∨ out.loop.cycle < out.controlReady reloadPostEnd)
  let source ← (if out.loop.sealed then pure ⟨out, 0, [], cpu.pc⟩
    else if out.loopWait = 0 then loadPacket bus functional cpu.pc out
    else do
      let out ← Machine.ofExcept (waitLoading functional cpu.pc out)
      pure ⟨out, 0, [], cpu.pc⟩ : Exec β Source)
  if post ∧ ¬source.out.context.draining ∧ source.out.idleCycles = 0 then postPacket bus source
  else pure { source with out := idleTick source.out }

def loopCycle (cpu : Cpu) : Exec β Cycle := do
  let source ← loopSource bus functional cpu
  let (out, packet, scheduler) ← Machine.ofExcept (issueLoop cpu source)
  Machine.ofExcept (sampleCondition cpu out packet scheduler)

def loopStep (cpu : Cpu) : Exec β (Cpu × Trace) := do
  let c ← loopCycle bus functional cpu
  let armed := c.out.context.armed
  let draining := c.out.context.draining
  let branchMatures := c.out.context.immediateReload ∧ cpu.branchDue ≠ 0 ∧
    cpu.branchDue = cpu.cycles + 1
  let (out, trace) ← execute u bus c.out c.packet
  let out ← Machine.ofExcept (afterExecute cpu.pc c armed draining branchMatures out)
  pure (out, trace)

end Cdj2000Emulator.C674x.LoopStep
