import Cdj2000Emulator.Board.Memory
import Cdj2000Emulator.Board.Scheduler

namespace Cdj2000Emulator.Transcript

open Library.Bytes Board Board.Memory

structure C6747Hpi where
  hpirst : Bool
  hwob : Bool
  dualHpia : Bool
  hpiasel : Bool
  dspint : Bool
  hint : Bool

namespace C6747Hpi

def reset : C6747Hpi :=
  { hpirst := true, hwob := false, dualHpia := false, hpiasel := false, dspint := false, hint := false }

def romBootReady (s : C6747Hpi) : C6747Hpi := { s with hpirst := false, hint := true, dspint := false }

/-- `cdj_c6747_hpi_host_write`. Either halfword carries the transaction. -/
def hostWrite (value : Word) (s : C6747Hpi) : C6747Hpi :=
  let v := value ||| value >>> 16
  let reset := v.getLsbD 7
  { hpirst := reset
    hwob := v.getLsbD 0
    dualHpia := v.getLsbD 9
    hpiasel := v.getLsbD 11
    hint := !reset && !v.getLsbD 2 && s.hint
    dspint := !reset && (v.getLsbD 1 || s.dspint) }

/-- `cdj_c6747_hpi_cpu_write` of HPIC. -/
def cpuWrite (value : Word) (s : C6747Hpi) : C6747Hpi :=
  let reset := value.getLsbD 7
  { s with
    hpirst := reset
    dspint := !reset && !value.getLsbD 1 && s.dspint
    hint := !reset && (value.getLsbD 2 || s.hint) }

end C6747Hpi

/-- The types of event in the transcript. -/
inductive Kind
  | resetAssert
  | romHpiReady
  | bootPhase
  | dspStart
  | dspStop
  | dspHpicWrite
  | dspSchedule
  | dspSliceBegin
  | dspSliceEnd
  | hostControlWrite
  | hostAddressWrite
  | hostDataAutoincrementWrite
  | hostDataFixedWrite
  | hostDataRead
  deriving DecidableEq

/-- One line of the transcript. -/
structure Record where
  sequence : ℕ
  kind : Kind
  offset : ℕ
  address : ℕ
  value : ℕ
  size : ℕ
  bootPhase : ℕ
  hint : Bool
  dspint : Bool

abbrev L2 := Block Region.l2.size

/-- What the tools read of the checkpoint at the DSP start boundary. -/
structure Checkpoint where
  hpiAddress : ℕ
  bootPhase : ℕ
  words : ℕ
  eventSequence : ℕ
  l2 : L2

/-- The transport of the board, with its transcript and the first checkpoint at a DSP start. -/
structure NxsHpi where
  memories : Memories
  address : Word
  hpi : C6747Hpi
  resetReleased : Bool
  dspStarted : Bool
  dspHalted : Bool
  scheduler : Scheduler
  bootPhase : ℕ
  words : ℕ
  eventSequence : ℕ
  cache : C6747Cache
  emifb : C6747Emifb
  log : List Record
  start : Option Checkpoint

/-- What the program of the DSP does to the transport. -/
inductive DspAct
  /-- A write of HPIC, where the pins are switched to the HPI. -/
  | hpic (value : Word)
  /-- Any other access. -/
  | other (memories : Memories) (cache : C6747Cache) (emifb : C6747Emifb)

/-- How the DSP runs when it gets time, and what it stops with. -/
structure Slice where
  acts : List DspAct
  steps : ℕ
  halted : Bool
  pc : ℕ
  word : ℕ

def l2Base : ℕ := 0x11800000
def sharedRamBase : ℕ := 0x80000000

def l2Offset (address : ℕ) : ℕ := address - l2Base

/-- `CDJ_C6747_HPIC`. -/
def hpicAddress : ℕ := 0x01e10030

def legacyScheduler : Scheduler := { Scheduler.reset with sliceSteps := 0, mode := Scheduler.legacy }

def hostMemory (cache : C6747Cache) (emifb : C6747Emifb) (address : Word) : Option (Region × ℕ) :=
  let a := address.toNat
  match if 0x11f00000 ≤ a then l1dSramSpan cache address 4 else none with
  | some offset => some (.l1d, offset)
  | none =>
    if l2Base ≤ a ∧ a ≤ l2Base + Region.l2.size - 4 then some (.l2, l2Offset a)
    else if sharedRamBase ≤ a ∧ a ≤ sharedRamBase + Region.sharedRam.size - 4 then
      some (.sharedRam, a - sharedRamBase)
    else (sdramOffset emifb address 4 Region.sdram.size).map fun offset ↦ (.sdram, offset)

namespace NxsHpi

/-- The line of `record_event`. -/
def event (kind : Kind) (offset address value size : ℕ) (s : NxsHpi) : Record where
  sequence := s.eventSequence + 1
  kind := kind
  offset := offset
  address := address
  value := value
  size := size
  bootPhase := s.bootPhase
  hint := s.hpi.hint
  dspint := s.hpi.dspint

def record (kind : Kind) (offset address value size : ℕ) (s : NxsHpi) : NxsHpi :=
  { s with
    eventSequence := s.eventSequence + 1
    log := s.log ++ [s.event kind offset address value size] }

/-- Where the data port leads, `valid_data`. -/
def validData (s : NxsHpi) : Option (Region × ℕ) :=
  if s.hpi.hwob && !s.hpi.hpirst && s.address &&& 3#32 == 0 then hostMemory s.cache s.emifb s.address else none

/-- `ldl_le_p` and `stl_le_p` of a memory. -/
def load (place : Region × ℕ) (s : NxsHpi) : ℕ :=
  value (Block.bytes (Block.slice (s.memories place.1) place.2 4))

def store (place : Region × ℕ) (word : Word) (s : NxsHpi) : Memories :=
  let bytes : Block 4 := fun i ↦ (little 4 word.toNat).getD i 0
  Function.update s.memories place.1 (Block.put place.2 bytes (s.memories place.1))

theorem store_at {place : Region × ℕ} {word : Word} {s : NxsHpi} : s.store place word place.1 =
    Block.put place.2 (fun i : Fin 4 ↦ (little 4 word.toNat).getD i 0) (s.memories place.1) :=
  Function.update_self place.1 _ s.memories

def resetLine (released : Bool) (s : NxsHpi) : NxsHpi :=
  if released = s.resetReleased then s
  else if released then { s with resetReleased := true, hpi := s.hpi.romBootReady }.record .romHpiReady 0 0 1 0
  else
    { s with
      resetReleased := false
      scheduler := if s.scheduler.mode = Scheduler.legacy then legacyScheduler
        else { Scheduler.reset with mode := s.scheduler.mode }
      hpi := .reset
      cache := ⟨7⟩
      memories := Function.update s.memories .l1d Block.zeros
      dspStarted := false
      dspHalted := false }.record .resetAssert 0 0 0 0

def act (s : NxsHpi) : DspAct → NxsHpi
  | .hpic value => { s with hpi := s.hpi.cpuWrite value }.record .dspHpicWrite 0 hpicAddress value.toNat 4
  | .other memories cache emifb => { s with memories, cache, emifb }

def report (slice : Slice) (s : NxsHpi) : NxsHpi := s.record .dspStop 0 slice.pc slice.word 0

def execute (slice : Slice) (s : NxsHpi) : NxsHpi :=
  if !s.dspStarted || s.dspHalted then s
  else
    let s := slice.acts.foldl act s
    let s := { s with dspHalted := slice.halted }
    if s.scheduler.mode = Scheduler.legacy then s.report slice
    else
      let (scheduler, fine) := s.scheduler.endSlice slice.steps s.hpi.hint s.dspHalted
      let s := { s with scheduler, dspHalted := s.dspHalted || !fine }
      (s.record .dspSliceEnd s.scheduler.activationId s.scheduler.sliceId s.scheduler.remaining
        slice.steps).report slice

def tick (slice : Slice) (s : NxsHpi) : NxsHpi :=
  if !s.dspStarted || s.dspHalted || s.scheduler.pending == 0 then s
  else
    let (scheduler, quota) := s.scheduler.beginSlice
    let s := { s with scheduler }
    if quota = 0 then { s with dspHalted := true }.report slice
    else
      (s.record .dspSliceBegin s.scheduler.activationId s.scheduler.sliceId s.scheduler.remaining
        quota).execute slice

def runDsp (slice : Slice) (s : NxsHpi) : NxsHpi :=
  if !s.dspStarted || s.dspHalted then s
  else if s.scheduler.mode = Scheduler.legacy then s.execute slice
  else
    let (scheduler, fine) := s.scheduler.request
    let s := { s with scheduler }
    if !fine then { s with dspHalted := true }.report slice
    else s.record .dspSchedule s.scheduler.activationId s.scheduler.sliceId s.scheduler.remaining
      (s.scheduler.pending ||| s.scheduler.rearm <<< 1)

/-- `cdj_nxs_hpi_boot_phase`. -/
def changePhase (phase : ℕ) (slice : Slice) (s : NxsHpi) : NxsHpi :=
  if 7 < phase then s
  else
    let t := { s with bootPhase := phase }.record .bootPhase 0 0 phase 0
    if phase = s.bootPhase then t else t.runDsp slice

def checkpoint (s : NxsHpi) : Checkpoint where
  hpiAddress := s.address.toNat
  bootPhase := s.bootPhase
  words := s.words
  eventSequence := s.eventSequence
  l2 := s.memories .l2

/-- `start_dsp`; the first start is kept. -/
def startDsp (slice : Slice) (s : NxsHpi) : NxsHpi :=
  let s := { s with dspStarted := true }.record .dspStart 0 (s.load (.l2, 0)) 0 0
  { s with start := s.start.or (some s.checkpoint) }.runDsp slice

def read (offset : ℕ) (s : NxsHpi) : NxsHpi :=
  if offset = 0x80000 ∨ offset = 0xc0000 then
    match s.validData with
    | some place =>
      { s with address := if offset = 0x80000 then s.address + 4 else s.address }.record .hostDataRead offset
        s.address.toNat (s.load place) 4
    | none => s
  else s

def writeControl (value : Word) (slice : Slice) (s : NxsHpi) : NxsHpi :=
  let t := { s with hpi := s.hpi.hostWrite value }.record .hostControlWrite 0 s.address.toNat value.toNat 4
  let rising := !s.hpi.dspint && t.hpi.dspint
  if rising && !t.dspStarted then t.startDsp slice
  else if s.hpi.hint && !t.hpi.hint then t.runDsp slice
  else if rising && t.dspStarted then t.runDsp slice
  else t

def writeData (offset : ℕ) (value : Word) (s : NxsHpi) : NxsHpi :=
  match s.validData with
  | some place =>
    { s with
      memories := s.store place value
      words := s.words + 1
      address := if offset = 0x80000 then s.address + 4 else s.address }.record
      (if offset = 0x80000 then .hostDataAutoincrementWrite
        else .hostDataFixedWrite) offset s.address.toNat value.toNat 4
  | none => s

def write (offset : ℕ) (value : Word) (slice : Slice) (s : NxsHpi) : NxsHpi :=
  if offset = 0 then s.writeControl value slice
  else if offset = 0x40000 then
    { s with address := value }.record .hostAddressWrite offset s.address.toNat value.toNat 4
  else if offset = 0x80000 ∨ offset = 0xc0000 then s.writeData offset value
  else s

/-- `cdj_nxs_hpi_init`, with the event transcript on. -/
def powerOn (deferred : Bool) : NxsHpi where
  memories _ := Block.zeros
  address := 0
  hpi := .reset
  resetReleased := false
  dspStarted := false
  dspHalted := false
  scheduler := if deferred then Scheduler.reset else legacyScheduler
  bootPhase := 0
  words := 0
  eventSequence := 0
  cache := ⟨7⟩
  emifb := ⟨0x00010620⟩
  log := []
  start := none

end NxsHpi

/-- What happens to the transport, with what the DSP does if it gets time for it. -/
inductive Input
  | resetLine (released : Bool)
  | bootPhase (phase : ℕ) (slice : Slice)
  | read (offset : ℕ)
  | write (offset : ℕ) (value : Word) (slice : Slice)
  | tick (slice : Slice)

def NxsHpi.handle (s : NxsHpi) : Input → NxsHpi
  | .resetLine released => s.resetLine released
  | .bootPhase phase slice => s.changePhase phase slice
  | .read offset => s.read offset
  | .write offset value slice => s.write offset value slice
  | .tick slice => s.tick slice

end Cdj2000Emulator.Transcript
