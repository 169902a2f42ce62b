import Cdj2000Emulator.Checkpoint.Pages
import Mathlib.Tactic.IntervalCases

namespace Cdj2000Emulator.Checkpoint.RoundTrip

open Library.Bytes
open Library.Bytes.Block (get put slice zeros bytes)
open Library.Bytes.Reader
open Layout File Pages

/-- Every field of the header fits its width. -/
structure Fits (h : Header) : Prop where
  schema : h.schema < 256 ^ 4
  endian : h.endian < 256 ^ 4
  headerSize : h.headerSize < 256 ^ 4
  stateSize : h.stateSize < 256 ^ 4
  components : h.componentSize.length = 9
  componentSize : ∀ v ∈ h.componentSize, v < 256 ^ 4
  l2Size : h.l2Size < 256 ^ 4
  sdramSize : h.sdramSize < 256 ^ 4
  pageSize : h.pageSize < 256 ^ 4
  pageCount : h.pageCount < 256 ^ 4
  presentPages : h.presentPages < 256 ^ 4
  payloadSize : h.payloadSize < 256 ^ 8
  payloadChecksum : h.payloadChecksum < 256 ^ 8

theorem parses_readHeader {h : Header} (fits : Fits h) : Parses readHeader h.bytes h := by
  have components : Parses (numbers 4 9) (h.componentSize.flatMap (little 4)) h.componentSize := by
    have all := parses_numbers fits.componentSize
    rwa [fits.components] at all
  exact (parses_fread h.magic).bind <| (parses_number fits.schema).bind <|
    (parses_number fits.endian).bind <| (parses_number fits.headerSize).bind <|
    (parses_number fits.stateSize).bind <| components.bind <|
    (parses_number fits.l2Size).bind <| (parses_number fits.sdramSize).bind <|
    (parses_number fits.pageSize).bind <| (parses_number fits.pageCount).bind <|
    (parses_number fits.presentPages).bind <| (parses_number fits.payloadSize).bind <|
    (parses_number fits.payloadChecksum).last parses_pure

def hasSharedRam (k : ℕ) : Bool := k != 1

def hasL1d (k : ℕ) : Bool := k == 12

def partHash (k : ℕ) (s : Snapshot) : BitVec 64 :=
  let hash := checksum checksumStart (bytes (slice s.state 0 (stateSizeOf k)))
  let hash := checksum hash (bytes s.l2)
  let hash := if hasSharedRam k then checksum hash (bytes s.sharedRam) else hash
  let hash := if hasL1d k then checksum hash (bytes s.l1d) else hash
  checksum hash (bytes (found s.sdram).bitmap)

def payloadHash (k : ℕ) (s : Snapshot) : BitVec 64 :=
  hashPages (found s.sdram).bitmap s.sdram pages (partHash k s)

def headerOf (k : ℕ) (s : Snapshot) : Header where
  magic := schemaMagic k
  schema := k
  endian := checkpointEndian
  headerSize := headerSize
  stateSize := stateSizeOf k
  componentSize := expectedSizes k
  l2Size := l2Size
  sdramSize := sdramSize
  pageSize := pageSize
  pageCount := pageCount
  presentPages := (found s.sdram).present
  payloadSize := stateSizeOf k + l2Size + (if hasSharedRam k then sharedRamSize else 0) +
    (if hasL1d k then l1dSize else 0) + bitmapSize + (found s.sdram).present * pageSize
  payloadChecksum := (payloadHash k s).toNat

/-- A file of schema `k` with the state, cut to what the schema carries, and the memories. -/
def encode (k : ℕ) (s : Snapshot) : List Byte :=
  (headerOf k s).bytes ++ (bytes (slice s.state 0 (stateSizeOf k)) ++ (bytes s.l2 ++
    ((if hasSharedRam k then bytes s.sharedRam else []) ++ ((if hasL1d k then bytes s.l1d else []) ++
    (bytes (found s.sdram).bitmap ++ storedPages (found s.sdram).bitmap s.sdram pages)))))

/-- What such a file restores. -/
def decoded (k : ℕ) (s : Snapshot) : Snapshot where
  state := migrate (fun j ↦ decide (j = k)) (put 0 (slice s.state 0 (stateSizeOf k)) zeros)
  l2 := s.l2
  sharedRam := if hasSharedRam k then s.sharedRam else zeros
  l1d := if hasL1d k then s.l1d else zeros
  sdram := s.sdram

variable {k : ℕ} {s : Snapshot}

theorem stateSizeOf_le (h : k ≤ 12) : stateSizeOf k ≤ stateSize := by
  interval_cases k <;> decide

theorem tailOf_lt (h : k ≤ 12) : tailOf k < 256 ^ 4 := by
  interval_cases k <;> decide

theorem presentPages_le : (headerOf k s).presentPages ≤ 8192 := by
  have count : pageCount = 8192 := by decide
  change (found s.sdram).present ≤ 8192
  rw [← count]
  exact present_le

theorem fits_headerOf (h : k ≤ 12) : Fits (headerOf k s) where
  schema := lt_of_le_of_lt h (by decide)
  endian := show checkpointEndian < 256 ^ 4 by decide
  headerSize := show File.headerSize < 256 ^ 4 by decide
  stateSize := lt_of_le_of_lt (stateSizeOf_le h) (by decide)
  components := rfl
  componentSize := by
    intro v hv
    rcases List.mem_append.mp hv with fixed | tail
    · have small : ∀ w ∈ fixedSizes, w < 256 ^ 4 := by decide
      exact small v fixed
    · rw [List.mem_singleton.mp tail]
      exact tailOf_lt h
  l2Size := show File.l2Size < 256 ^ 4 by decide
  sdramSize := show File.sdramSize < 256 ^ 4 by decide
  pageSize := show File.pageSize < 256 ^ 4 by decide
  pageCount := show File.pageCount < 256 ^ 4 by decide
  presentPages := lt_of_le_of_lt presentPages_le (by decide)
  payloadSize := by
    have state := stateSizeOf_le h
    have pages : (found s.sdram).present ≤ 8192 := presentPages_le (k := k)
    have bitmap : bitmapSize = 1024 := by decide
    have small : (headerOf k s).payloadSize ≤ 40000000 := by
      unfold Layout.stateSize at state
      simp only [headerOf, File.l2Size, sharedRamSize, l1dSize, File.pageSize, bitmap]
      split_ifs <;> omega
    exact lt_of_le_of_lt small (by decide)
  payloadChecksum := by
    have width : 2 ^ 64 = 256 ^ 8 := by decide
    change (payloadHash k s).toNat < 256 ^ 8
    rw [← width]
    exact (payloadHash k s).isLt

theorem isSchema_headerOf (j : ℕ) : (headerOf k s).isSchema j = decide (j = k) := by
  by_cases h : j = k
  · simp [Header.isSchema, headerOf, h]
  · simp [Header.isSchema, headerOf, h, Ne.symm h]

theorem old_headerOf (j : ℕ) : (headerOf k s).old j = decide (j = k) := by
  rw [Header.old, isSchema_headerOf]
  by_cases h : j = k
  · simp [headerOf, h]
  · simp [h]

theorem current_headerOf : (headerOf k s).current = hasL1d k := by
  rw [Header.current, isSchema_headerOf, hasL1d, checkpointSchema, Bool.beq_eq_decide_eq]
  exact decide_eq_decide.mpr eq_comm

theorem sharedRam_headerOf : (!(headerOf k s).isSchema 1) = hasSharedRam k := by
  rw [isSchema_headerOf, hasSharedRam, bne, Bool.beq_eq_decide_eq, Bool.not_eq_eq_eq_not, Bool.not_not]
  exact decide_eq_decide.mpr eq_comm

theorem ok_headerOf (positive : 1 ≤ k) (h : k ≤ 12) : (headerOf k s).ok = true := by
  have payload : (headerOf k s).payloadSize = (headerOf k s).expectedPayload := by
    rw [Header.expectedPayload, isSchema_headerOf, current_headerOf]
    by_cases first : k = 1
    · simp [headerOf, hasSharedRam, first, Nat.add_right_comm]
    · simp [headerOf, hasSharedRam, first, Ne.symm first, Nat.add_right_comm]
  have known : (headerOf k s).anyOld = true ∨ k = 12 := by
    rcases Nat.lt_or_eq_of_le h with old | current
    · left
      rw [Header.anyOld, List.any_eq_true]
      exact ⟨k, List.mem_range'_1.mpr ⟨positive, by omega⟩, by simp [old_headerOf]⟩
    · exact Or.inr current
  have pages : (found s.sdram).present ≤ File.sdramSize / File.pageSize := present_le
  unfold Header.ok
  rw [current_headerOf, payload]
  generalize (headerOf k s).anyOld = anyOld at known ⊢
  rcases known with old | rfl
  · simp [old, headerOf, pages, pageCount]
  · simp [headerOf, pages, pageCount, stateSizeOf, hasL1d]

theorem readHash_decoded (h : k ≤ 12) :
    readHash ((headerOf k s).isSchema 1) (headerOf k s).current
      ((bytes (put 0 (slice s.state 0 (stateSizeOf k)) (zeros : Image))).take (stateSizeOf k))
      (bytes s.l2) (bytes (decoded k s).sharedRam) (bytes (decoded k s).l1d)
      (bytes (found s.sdram).bitmap) = partHash k s := by
  rw [readHash, Block.take_bytes_put (stateSizeOf_le h), sharedRam_headerOf, current_headerOf, partHash,
    decoded]
  dsimp only
  split_ifs <;> rfl

theorem pages_agree {m : Progress} (present : m.present = 0) (hash : m.hash = partHash k s) :
    (restored (found s.sdram).bitmap s.sdram pages m).present = (headerOf k s).presentPages ∧
    (restored (found s.sdram).bitmap s.sdram pages m).hash.toNat = (headerOf k s).payloadChecksum := by
  constructor
  · rw [restored_present, present, Nat.zero_add]
    exact present_found.symm
  · rw [restored_hash, hash]
    rfl

/-- Reading a file of any schema. -/
theorem load_encode (positive : 1 ≤ k) (h : k ≤ 12) (valid : stateValid (decoded k s).state = true) :
    Finishes load (encode k s) (decoded k s) := by
  have image : Parses (freadInto (headerOf k s).stateSize) (bytes (slice s.state 0 (stateSizeOf k)))
      (put 0 (slice s.state 0 (stateSizeOf k)) (zeros : Image)) := parses_freadInto _
  have shared : Parses (freadIf (!(headerOf k s).isSchema 1) sharedRamSize)
      (if hasSharedRam k then bytes s.sharedRam else []) (decoded k s).sharedRam := by
    rw [sharedRam_headerOf]
    exact parses_freadIf s.sharedRam
  have l1d : Parses (freadIf (headerOf k s).current l1dSize)
      (if hasL1d k then bytes s.l1d else []) (decoded k s).l1d := by
    rw [current_headerOf]
    exact parses_freadIf s.l1d
  have old : (headerOf k s).old = fun j ↦ decide (j = k) := funext old_headerOf
  refine (parses_readHeader (fits_headerOf h)).before ?_
  refine (parses_require (ok_headerOf positive h)).skipBefore ?_
  refine image.before ?_
  refine (parses_fread s.l2).before ?_
  refine shared.before ?_
  refine l1d.before ?_
  refine (parses_fread (found s.sdram).bitmap).before ?_
  refine (parses_readPages _ _).finishes.bind ?_
  refine (parses_require (pages_agree rfl (readHash_decoded h))).finishes.bind ?_
  refine finishes_eof.bind ?_
  rw [old]
  refine (parses_require valid).finishes.bind ?_
  rw [restored_found _ rfl]
  exact finishes_pure

theorem current_bytes : bytes (slice s.state 0 (stateSizeOf checkpointSchema)) = bytes s.state := by
  change bytes (slice s.state 0 stateSize) = bytes s.state
  rw [Block.slice_self]

theorem write_eq_encode (valid : stateValid s.state = true) :
    writeWithL1d s = .ok (encode checkpointSchema s) := by
  have shared : hasSharedRam checkpointSchema = true := by decide
  have l1d : hasL1d checkpointSchema = true := by decide
  have size : stateSizeOf checkpointSchema = stateSize := rfl
  rw [writeWithL1d, if_pos valid]
  simp only [encode, headerOf, payloadHash, partHash, current_bytes, shared, l1d, size, if_true,
    found]

theorem migrate_current (image : Image) : migrate (fun j ↦ decide (j = checkpointSchema)) image = image := by
  simp [migrate, when, checkpointSchema, List.range'_succ]

theorem decoded_current : decoded checkpointSchema s = s := by
  have whole : slice s.state 0 (stateSizeOf checkpointSchema) = s.state := Block.slice_self
  have state : (decoded checkpointSchema s).state = s.state := by
    rw [decoded, migrate_current]
    exact Block.put_whole.trans whole
  cases s
  simp_all [decoded, hasSharedRam, hasL1d, checkpointSchema]

theorem read_write (valid : stateValid s.state = true) :
    ∃ file, writeWithL1d s = .ok file ∧ readWithL1d file = .ok s := by
  have loaded := load_encode (k := checkpointSchema) (s := s) (by decide) (by decide)
    (by rwa [decoded_current])
  rw [decoded_current] at loaded
  exact ⟨encode checkpointSchema s, write_eq_encode valid, by rw [readWithL1d, loaded]⟩

/-- A prepared state that passes the check survives the file together with the four memories. -/
theorem checkpoint_round_trip (string : ℕ → List Byte) (reason : Option (List Byte)) (s : Snapshot)
    (valid : stateValid (prepare string reason s.state) = true) :
    ∃ file, writeWithL1d { s with state := prepare string reason s.state } = .ok file ∧
      readWithL1d file = .ok { s with state := prepare string reason s.state } :=
  read_write valid

def stopped : Snapshot where
  state := zeros |> put intc intcReset |> put syscfgPriority syscfgPriorityReset |> set32 cpuFault 0x1000
  l2 := zeros
  sharedRam := fun _ ↦ 1
  l1d := zeros
  sdram := setNumber 5000 1 7 zeros

theorem stopped_round_trip :
    ∃ file,
      writeWithL1d { stopped with
        state := prepare (fun _ ↦ [0x62, 0x61, 0x64]) (some [0x65]) stopped.state } = .ok file ∧
      readWithL1d file = .ok { stopped with
        state := prepare (fun _ ↦ [0x62, 0x61, 0x64]) (some [0x65]) stopped.state } :=
  checkpoint_round_trip _ _ stopped (by decide +kernel)

end Cdj2000Emulator.Checkpoint.RoundTrip
