import Cdj2000Emulator.Checkpoint.Migration

namespace Cdj2000Emulator.Checkpoint.Inventory

open Library.Bytes
open Library.Bytes.Block (get put slice zeros bytes)
open Library.Bytes.Reader
open File (Header Snapshot Progress readHeader readPages readWithL1d writeWithL1d schemaMagic bit pages)

def base : ℕ := 0x11800000
def sharedRamBase : ℕ := 0x80000000
def sharedRamSize : ℕ := 0x20000
def sdramBase : ℕ := 0xc0000000
def l1dBase : ℕ := 0x00f00000
def l1dSize : ℕ := 0x8000

/-- `data[a:b]`. -/
def span (data : List Byte) (a b : ℕ) : List Byte := (data.drop a).take (b - a)

def checkpointMagic (schema : ℕ) : Option (List Byte) :=
  if 1 ≤ schema ∧ schema ≤ 12 then some (bytes (schemaMagic schema)) else none

inductive Mode
  | legacy
  | deferredV1
  deriving DecidableEq

/-- The fields of `SCHEDULER_STATE`. -/
structure SchedulerState where
  activation : ℕ
  sliceId : ℕ
  remaining : ℕ
  sliceSteps : ℕ
  pending : ℕ
  rearm : ℕ
  mode : ℕ
  reserved : ℕ

def unpackScheduler (data : List Byte) (o : ℕ) : SchedulerState where
  activation := value (span data o (o + 8))
  sliceId := value (span data (o + 8) (o + 16))
  remaining := value (span data (o + 16) (o + 20))
  sliceSteps := value (span data (o + 20) (o + 24))
  pending := value (span data (o + 24) (o + 25))
  rearm := value (span data (o + 25) (o + 26))
  mode := value (span data (o + 26) (o + 27))
  reserved := value (span data (o + 27) (o + 28))

namespace SchedulerState

variable (f : SchedulerState)

/-- None of the fields but the mode and the reserved byte is set. -/
def idle : Prop :=
  ¬(f.activation ≠ 0 ∨ f.sliceId ≠ 0 ∨ f.remaining ≠ 0 ∨ f.sliceSteps ≠ 0 ∨
    f.pending ≠ 0 ∨ f.rearm ≠ 0)

instance : Decidable f.idle := inferInstanceAs (Decidable (¬ _))

def deferredValid : Prop :=
  f.sliceSteps = 4096 ∧ f.remaining ≤ 1000000 ∧ f.pending = (if f.remaining ≠ 0 then 1 else 0) ∧
  (f.rearm = 0 ∨ f.pending ≠ 0) ∧
  (f.activation ≠ 0 ∨ ¬(f.sliceId ≠ 0 ∨ f.remaining ≠ 0 ∨ f.pending ≠ 0 ∨ f.rearm ≠ 0)) ∧
  (f.sliceId ≠ 0 ∨ f.activation = 0 ∨ f.remaining = 1000000) ∧
  (f.remaining = 0 ∨ (1000000 - f.remaining) % f.sliceSteps = 0)

instance : Decidable f.deferredValid := inferInstanceAs (Decidable (_ ∧ _))

end SchedulerState

def checkpointSchedulerMode (data : List Byte) (headerSize stateSize schema : ℕ) : Except String Mode :=
  if schema < 11 then .ok .legacy
  else if stateSize < 32 then .error "schema-11 checkpoint scheduler state is incomplete"
  else
    let fields := unpackScheduler data (headerSize + stateSize - 32)
    if fields.reserved ≠ 0 ∨ 1 < fields.pending ∨ 1 < fields.rearm then
      .error "schema-11 checkpoint scheduler state is invalid"
    else if fields.mode = 0 then
      if fields.idle then .ok .legacy else .error "schema-11 checkpoint scheduler state is invalid"
    else if fields.mode = 1 then
      if fields.deferredValid then .ok .deferredV1 else .error "schema-11 checkpoint scheduler state is invalid"
    else .error "schema-11 checkpoint scheduler state is invalid"

def fnv1a (data : List Byte) : ℕ :=
  data.foldl (fun value byte ↦ (value ^^^ byte.toNat) * 1099511628211 % 2 ^ 64) 14695981039346656037

/-- The loop state over the pages. -/
structure Placing where
  sdram : List Byte
  offset : ℕ
  count : ℕ

def placePages (bitmap payload : List Byte) (pageSize : ℕ) : List ℕ → Placing → Placing
  | [], m => m
  | page :: pages, m =>
    if (bitmap.getD (page / 8) 0).getLsbD (page % 8) then
      placePages bitmap payload pageSize pages {
        sdram := m.sdram.take (page * pageSize) ++ span payload m.offset (m.offset + pageSize) ++
          m.sdram.drop (page * pageSize + pageSize)
        offset := m.offset + pageSize
        count := m.count + 1 }
    else placePages bitmap payload pageSize pages m

/-- What is said of a checkpoint. -/
structure CheckpointInfo where
  schema : ℕ
  stateSize : ℕ
  componentSizes : List ℕ
  schedulerStateCaptured : Bool
  dspSchedulerMode : Mode
  sharedRamCaptured : Bool
  l1dCaptured : Bool
  presentSdramPages : ℕ

inductive Info
  | rawL2
  | checkpoint (info : CheckpointInfo)

abbrev Memories := List (ℕ × List Byte)

def structureFits (h : Header) (length : ℕ) : Bool :=
  checkpointMagic h.schema == some (bytes h.magic) && h.endian == 0x01020304 && h.headerSize == 96 &&
  h.stateSize != 0 && h.componentSize.all (· != 0) && h.l2Size == 0x40000 && h.sdramSize == 0x2000000 &&
  h.pageSize == 4096 && h.pageCount == h.sdramSize / h.pageSize && decide (h.presentPages ≤ h.pageCount) &&
  length == h.headerSize + h.payloadSize

/-- `read_input` once the header is unpacked. -/
def readCheckpoint (data : List Byte) (h : Header) : Except String (Memories × Info) :=
  if !structureFits h data.length then .error "checkpoint structure is incompatible or incomplete"
  else
    let payload := data.drop h.headerSize
    if fnv1a payload ≠ h.payloadChecksum then .error "checkpoint payload checksum does not match"
    else
      let l2Start := h.stateSize
      let sharedSize := if 2 ≤ h.schema then sharedRamSize else 0
      let sharedStart := l2Start + h.l2Size
      let l1dLength := if 12 ≤ h.schema then l1dSize else 0
      let l1dStart := sharedStart + sharedSize
      let bitmapSize := (h.pageCount + 7) / 8
      let bitmapStart := l1dStart + l1dLength
      let pagesStart := bitmapStart + bitmapSize
      if payload.length ≠ pagesStart + h.presentPages * h.pageSize then
        .error "checkpoint sparse memory layout is incomplete"
      else
        let l2 := if sharedSize ≠ 0 then span payload l2Start sharedStart else span payload l2Start bitmapStart
        let sharedRam := if sharedSize ≠ 0 then some (span payload sharedStart bitmapStart) else none
        let placed := placePages (span payload bitmapStart pagesStart) payload h.pageSize (List.range h.pageCount)
          ⟨List.replicate h.sdramSize 0, pagesStart, 0⟩
        if placed.count ≠ h.presentPages ∨ placed.offset ≠ payload.length then
          .error "checkpoint sparse page count does not match"
        else
          match checkpointSchedulerMode data h.headerSize h.stateSize h.schema with
          | .error message => .error message
          | .ok mode =>
            .ok ([(base, l2), (sdramBase, placed.sdram)] ++
              (sharedRam.map fun image ↦ (sharedRamBase, image)).toList ++
                (if l1dLength ≠ 0 then [(l1dBase, span payload l1dStart bitmapStart)] else []),
              .checkpoint {
                schema := h.schema
                stateSize := h.stateSize
                componentSizes := h.componentSize
                schedulerStateCaptured := decide (11 ≤ h.schema)
                dspSchedulerMode := mode
                sharedRamCaptured := sharedRam.isSome
                l1dCaptured := l1dLength != 0
                presentSdramPages := h.presentPages })

/-- `read_input`: raw L2, or a checkpoint with a whole header. -/
def readInput (data : List Byte) : Except String (Memories × Info) :=
  if data.length = 0x40000 ∧ ∀ schema ∈ List.range' 1 12, ¬ bytes (schemaMagic schema) <+: data then
    .ok ([(base, data)], .rawL2)
  else
    match readHeader data with
    | none => .error "input must be 256 KiB of L2 or a complete checkpoint"
    | some (h, _) => readCheckpoint data h

end Cdj2000Emulator.Checkpoint.Inventory
