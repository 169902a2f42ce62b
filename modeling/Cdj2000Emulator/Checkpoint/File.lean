import Cdj2000Emulator.Checkpoint.Layout

namespace Cdj2000Emulator.Checkpoint.File

open Library.Bytes
open Library.Bytes.Block (get put slice zeros bytes)
open Library.Bytes.Reader (fread freadInto freadIf require eof number numbers)
open Layout

def l2Size : ℕ := 0x40000
def sharedRamSize : ℕ := 0x20000
def l1dSize : ℕ := 0x8000
def sdramSize : ℕ := 0x02000000
def pageSize : ℕ := 4096
def pageCount : ℕ := sdramSize / pageSize
def bitmapSize : ℕ := (pageCount + 7) / 8
def headerSize : ℕ := 96
def checkpointEndian : ℕ := 0x01020304
def checkpointSchema : ℕ := 12

/-- What a checkpoint saves: the state and the four memories. -/
structure Snapshot where
  state : Image
  l2 : Block l2Size
  sharedRam : Block sharedRamSize
  l1d : Block l1dSize
  sdram : Block sdramSize

@[irreducible]
def checksum (hash : BitVec 64) (data : List Byte) : BitVec 64 :=
  data.foldl (fun hash b ↦ (hash ^^^ b.setWidth 64) * 1099511628211#64) hash

def checksumStart : BitVec 64 := 14695981039346656037

structure Header where
  magic : Block 8
  schema : ℕ
  endian : ℕ
  headerSize : ℕ
  stateSize : ℕ
  componentSize : List ℕ
  l2Size : ℕ
  sdramSize : ℕ
  pageSize : ℕ
  pageCount : ℕ
  presentPages : ℕ
  payloadSize : ℕ
  payloadChecksum : ℕ

def Header.bytes (h : Header) : List Byte :=
  Block.bytes h.magic ++ (little 4 h.schema ++ (little 4 h.endian ++ (little 4 h.headerSize ++
    (little 4 h.stateSize ++ (h.componentSize.flatMap (little 4) ++ (little 4 h.l2Size ++
    (little 4 h.sdramSize ++ (little 4 h.pageSize ++ (little 4 h.pageCount ++
    (little 4 h.presentPages ++ (little 8 h.payloadSize ++ little 8 h.payloadChecksum)))))))))))

def readHeader : Reader Header := do
  let magic ← fread 8
  let schema ← number 4
  let endian ← number 4
  let headerSize ← number 4
  let stateSize ← number 4
  let componentSize ← numbers 4 9
  let l2Size ← number 4
  let sdramSize ← number 4
  let pageSize ← number 4
  let pageCount ← number 4
  let presentPages ← number 4
  let payloadSize ← number 8
  let payloadChecksum ← number 8
  pure { magic, schema, endian, headerSize, stateSize, componentSize, l2Size, sdramSize, pageSize,
         pageCount, presentPages, payloadSize, payloadChecksum }

/-- "CDJDSP" and the digits of the schema, filled up with zeros. -/
def magicOf (digits : List Byte) : Block 8 := fun i ↦
  ([0x43, 0x44, 0x4a, 0x44, 0x53, 0x50] ++ digits).getD i 0

def schemaMagic : ℕ → Block 8
  | 10 => magicOf [0x31, 0x30]
  | 11 => magicOf [0x31, 0x31]
  | 12 => magicOf [0x31, 0x32]
  | k => magicOf [0x30 + BitVec.ofNat 8 k]

def fixedSizes : List ℕ :=
  [sizeofC674x, sizeofSyscfg, sizeofPsc, sizeofMcasp, sizeofGpio, sizeofI2c, sizeofPll, sizeofHpi]

def componentSizes (tail : ℕ) : List ℕ := fixedSizes ++ [tail]

def currentTail : ℕ :=
  sizeofEmifb + sizeofIntc + sizeofTimer * timerCount + sizeofSpi * spiCount + sizeofCache +
    sizeofMcaspControl + sizeofEdma + sizeofSyscfgPriority + sizeofIntcDelivery + sizeofWm8740 +
    sizeofSpiTransfer + sizeofScheduler

def schema7McaspControlSize : ℕ := 660

def schema10Tail : ℕ := currentTail - sizeofScheduler
def schema9Tail : ℕ := schema10Tail - sizeofSpiTransfer
def schema8Tail : ℕ := schema9Tail - sizeofWm8740
def schema6Tail : ℕ :=
  schema8Tail - sizeofMcaspControl - sizeofEdma - sizeofSyscfgPriority - sizeofIntcDelivery
def schema7Tail : ℕ := schema6Tail + schema7McaspControlSize
def schema5Tail : ℕ := schema6Tail - sizeofCache
def schema4Tail : ℕ := schema5Tail - sizeofSpi * spiCount
def schema3Tail : ℕ := sizeofEmifb + sizeofIntc
def legacyTail : ℕ := sizeofEmifb

def tailOf : ℕ → ℕ
  | 1 | 2 => legacyTail
  | 3 => schema3Tail
  | 4 => schema4Tail
  | 5 => schema5Tail
  | 6 => schema6Tail
  | 7 => schema7Tail
  | 8 => schema8Tail
  | 9 => schema9Tail
  | 10 => schema10Tail
  | _ => currentTail

def expectedSizes (k : ℕ) : List ℕ := componentSizes (tailOf k)

def aligned (n : ℕ) : ℕ := (n + 8 - 1) / 8 * 8

def stateSizeOf : ℕ → ℕ
  | 1 | 2 => aligned intc
  | 3 => aligned timers
  | 4 => aligned spis
  | 5 => aligned cache
  | 6 => aligned mcaspControl
  | 7 => aligned (mcaspControl + schema7McaspControlSize)
  | 8 => aligned wm8740
  | 9 => aligned spiTransfer
  | 10 => aligned scheduler
  | _ => stateSize

/-- The sizes that the source asserts for schemas 1 to 12. -/
example : (List.range' 1 12).map stateSizeOf =
    [8024, 8024, 8080, 8280, 8448, 9520, 10184, 15704, 15736, 15776, 15808, 15808] := by decide

namespace Header

variable (h : Header)

/-- `schema1` to `schema11` and, for 12, `current`. -/
def isSchema (k : ℕ) : Bool := Block.bytes h.magic == Block.bytes (schemaMagic k) && h.schema == k

/-- `old_schema3` to `old_schema11`; for 1 and 2, a disjunct of `legacy`. -/
def old (k : ℕ) : Bool :=
  h.isSchema k && h.stateSize == stateSizeOf k && h.componentSize == expectedSizes k

def anyOld : Bool := (List.range' 1 11).any h.old

def current : Bool := h.isSchema checkpointSchema

def expectedPayload : ℕ :=
  h.stateSize + File.l2Size + (if h.isSchema 1 then 0 else sharedRamSize) + bitmapSize +
    (if h.current then l1dSize else 0) + h.presentPages * File.pageSize

def ok : Bool :=
  (h.anyOld || h.current) && h.endian == checkpointEndian && h.headerSize == File.headerSize &&
  (h.anyOld || (h.stateSize == Layout.stateSize && h.componentSize == expectedSizes 12)) &&
  h.l2Size == File.l2Size && h.sdramSize == File.sdramSize && h.pageSize == File.pageSize &&
  h.pageCount == File.sdramSize / h.pageSize &&
  decide (h.presentPages ≤ h.pageCount) && h.payloadSize == h.expectedPayload

end Header

def pages : List ℕ := List.range pageCount

theorem mem_pages {p : ℕ} : p ∈ pages ↔ p < pageCount := List.mem_range

theorem length_pages : pages.length = pageCount := List.length_range

theorem nodup_pages : pages.Nodup := List.nodup_range

attribute [irreducible] pages

def page (sdram : Block sdramSize) (p : ℕ) : Block pageSize := slice sdram (p * pageSize) pageSize

def nonzero (data : Block pageSize) : Bool := (bytes data).any (· != 0)

def bit (bitmap : Block bitmapSize) (p : ℕ) : Bool := (get bitmap (p / 8)).getLsbD (p % 8)

def setBit (bitmap : Block bitmapSize) (p : ℕ) : Block bitmapSize := fun i ↦
  if i = p / 8 then bitmap i ||| BitVec.twoPow 8 (p % 8) else bitmap i

/-- The bitmap of the nonzero pages and their number. -/
structure Scan where
  bitmap : Block bitmapSize
  present : ℕ

/-- The writer's first loop over the pages. -/
def scan (sdram : Block sdramSize) : List ℕ → Scan → Scan
  | [], m => m
  | p :: ps, m =>
    if nonzero (page sdram p) then scan sdram ps ⟨setBit m.bitmap p, m.present + 1⟩
    else scan sdram ps m

def hashPages (bitmap : Block bitmapSize) (sdram : Block sdramSize) : List ℕ → BitVec 64 → BitVec 64
  | [], hash => hash
  | p :: ps, hash =>
    if bit bitmap p then hashPages bitmap sdram ps (checksum hash (bytes (page sdram p)))
    else hashPages bitmap sdram ps hash

def storedPages (bitmap : Block bitmapSize) (sdram : Block sdramSize) : List ℕ → List Byte
  | [] => []
  | p :: ps =>
    if bit bitmap p then bytes (page sdram p) ++ storedPages bitmap sdram ps
    else storedPages bitmap sdram ps

def writeWithL1d (s : Snapshot) : Except String (List Byte) :=
  if stateValid s.state then
    let found := scan s.sdram pages ⟨zeros, 0⟩
    let hash := checksum checksumStart (bytes s.state)
    let hash := checksum hash (bytes s.l2)
    let hash := checksum hash (bytes s.sharedRam)
    let hash := checksum hash (bytes s.l1d)
    let hash := checksum hash (bytes found.bitmap)
    let hash := hashPages found.bitmap s.sdram pages hash
    let header : Header := {
      magic := schemaMagic checkpointSchema, schema := checkpointSchema, endian := checkpointEndian
      headerSize := headerSize, stateSize := stateSize, componentSize := expectedSizes checkpointSchema
      l2Size := l2Size, sdramSize := sdramSize, pageSize := pageSize, pageCount := pageCount
      presentPages := found.present
      payloadSize := stateSize + l2Size + sharedRamSize + l1dSize + bitmapSize +
        found.present * pageSize
      payloadChecksum := hash.toNat }
    .ok (header.bytes ++ (bytes s.state ++ (bytes s.l2 ++ (bytes s.sharedRam ++ (bytes s.l1d ++
      (bytes found.bitmap ++ storedPages found.bitmap s.sdram pages))))))
  else .error "invalid checkpoint state or memory size"

/-- The loop state of the reader: SDRAM so far, running checksum, pages seen. -/
structure Progress where
  sdram : Block sdramSize
  hash : BitVec 64
  present : ℕ

def readPages (bitmap : Block bitmapSize) : List ℕ → Progress → Reader Progress
  | [], m => pure m
  | p :: ps, m =>
    if bit bitmap p then do
      let data ← fread pageSize
      readPages bitmap ps ⟨put (p * pageSize) data m.sdram, checksum m.hash (bytes data),
        m.present + 1⟩
    else readPages bitmap ps m

def when (c : Bool) (f : Image → Image) (s : Image) : Image := if c then f s else s

/-- Fill in what the schema of the file did not carry; `old k` says the file is of schema `k`. -/
def migrate (old : ℕ → Bool) (s : Image) : Image :=
  let legacy := old 1 || old 2
  let legacySchema := (List.range' 1 11).any old && !old 11
  (s |> when legacy (put intc intcReset)
    |> when (legacy || old 3) (put timers timersReset)
    |> when (legacy || old 3 || old 4) (put spis spisReset)
    |> when (legacy || old 3 || old 4 || old 5) (put cache cacheReset)
    |> when (legacySchema && !old 7 && !old 8 && !old 9 && !old 10) (fun s ↦
      s |> put mcaspControl mcaspControlReset |> put edma edmaReset
        |> put syscfgPriority syscfgPriorityReset |> put intcDelivery intcDeliveryReset)
    |> when (old 7) (fun s ↦
      s |> put mcaspControl
          (put 0 (slice s mcaspControl schema7McaspControlSize) mcaspControlReset)
        |> put edma edmaReset |> put syscfgPriority syscfgPriorityReset
        |> put intcDelivery intcDeliveryReset)
    |> when (old 8) (fun s ↦
      (List.range spiCount).foldl (fun s i ↦
        s |> clear (spis + sizeofSpi * i + 81) 1 |> clear (spis + sizeofSpi * i + 82) 2) s)
    |> when (legacySchema && !old 9 && !old 10) (put wm8740 wm8740Reset)
    |> when (legacySchema && !old 10) (put spiTransfer spiTransferReset)
    |> when legacySchema (clear scheduler sizeofScheduler))

def readHash (schema1 current : Bool) (state l2 sharedRam l1d bitmap : List Byte) : BitVec 64 :=
  let hash := checksum checksumStart state
  let hash := checksum hash l2
  let hash := if !schema1 then checksum hash sharedRam else hash
  let hash := if current then checksum hash l1d else hash
  checksum hash bitmap

def loadPayload (header : Header) : Reader Snapshot := do
  let image ← freadInto header.stateSize
  let l2 ← fread l2Size
  let sharedRam ← freadIf (!header.isSchema 1) sharedRamSize
  let l1d ← freadIf header.current l1dSize
  let bitmap ← fread bitmapSize
  let hash := readHash (header.isSchema 1) header.current ((bytes image).take header.stateSize)
    (bytes l2) (bytes sharedRam) (bytes l1d) (bytes bitmap)
  let progress ← readPages bitmap pages ⟨zeros, hash, 0⟩
  require (progress.present = header.presentPages ∧ progress.hash.toNat = header.payloadChecksum)
  eof
  let state := migrate header.old image
  require (stateValid state)
  pure { state, l2, sharedRam, l1d, sdram := progress.sdram }

def load : Reader Snapshot := do
  let header ← readHeader
  require header.ok
  loadPayload header

def readWithL1d (file : List Byte) : Except String Snapshot :=
  match load file with
  | some (s, _) => .ok s
  | none => .error "incompatible, corrupt, or incomplete checkpoint"

end Cdj2000Emulator.Checkpoint.File
