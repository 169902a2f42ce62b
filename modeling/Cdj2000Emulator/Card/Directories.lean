import Cdj2000Emulator.Card.Fat32

namespace Cdj2000Emulator.Card

open Function Library.Bytes Library.Stateful

/-- A live entry of a directory. -/
structure Entry where
  slot : ℕ
  firstSlot : ℕ
  short : List Byte
  name : Str
  shortText : Str
  attr : Byte
  cluster : ℕ
  size : ℕ

section Listing

/-- `bytes.decode("latin-1").rstrip()`. -/
def latinStrip (bytes : List Byte) : Str :=
  ((bytes.map BitVec.toNat).reverse.dropWhile fun c ↦
    (0x09 ≤ c && c ≤ 0x0d) || (0x1c ≤ c && c ≤ 0x20) || c = 0x85 || c = 0xa0).reverse

def longName (raw : List Byte) (parts : List (ℕ × List Byte)) : Option Str :=
  if parts ≠ [] ∧ ∀ p ∈ parts, p.2.getD 13 0 = lfnChecksum (raw.take 11) then
    some ((decodeUnits (pairs (parts.reverse.flatMap fun p ↦ lfnText p.2))).takeWhile (· ≠ 0))
  else none

def entryAt (slot : ℕ) (raw : List Byte) (parts : List (ℕ × List Byte)) : Entry :=
  let short := if raw.getD 0 0 = 0x05 then 0xe5 :: (raw.take 11).drop 1 else raw.take 11
  let stem := latinStrip (short.take 8)
  let ext := latinStrip (short.drop 8)
  let shortText := if ext = [] then stem else stem ++ 0x2e :: ext
  let long := ((longName raw parts).getD [])
  { slot := slot
    firstSlot := if long = [] then slot else (parts.head?.map (·.1)).getD slot
    short := short
    name := if long = [] then shortText else long
    shortText := shortText
    attr := raw.getD 11 0
    cluster := value ((raw.drop 20).take 2) <<< 16 ||| value ((raw.drop 26).take 2)
    size := value ((raw.drop 28).take 4) }

/-- The loop of `listing`, over the slots from one on. -/
def scanSlots : ℕ → List (ℕ × List Byte) → List (List Byte) → List Entry
  | _, _, [] => []
  | slot, parts, raw :: raws =>
    if raw.getD 0 0 = 0 then []
    else if raw.getD 0 0 = 0xe5 then scanSlots (slot + 1) [] raws
    else if raw.getD 11 0 = 0x0f then scanSlots (slot + 1) (parts ++ [(slot, raw)]) raws
    else entryAt slot raw parts :: scanSlots (slot + 1) [] raws

def slots (blob : List Byte) : List (List Byte) :=
  (List.range (blob.length / entrySize)).map fun i ↦ (blob.drop (i * entrySize)).take entrySize

end Listing

section Placing

/-- The loop of `add_entry` that looks for a run of free slots, over the first bytes of the slots from
one on: where the run starts, and whether it starts at the end marker. -/
def findRun (count need : ℕ) : ℕ → ℕ → List Byte → Option (ℕ × Bool)
  | _, _, [] => none
  | slot, run, first :: rest =>
    if first = 0 then (if need ≤ count - slot then some (slot, true) else none)
    else
      let run := if first = 0xe5 then run + 1 else 0
      if run = need then some (slot + 1 - need, false) else findRun count need (slot + 1) run rest

def splice (blob : List Byte) (i : ℕ) (part : List Byte) : List Byte :=
  blob.take i ++ part ++ blob.drop (i + part.length)

def shortEntry (short : List Byte) (attr : Byte) (cluster size : ℕ) : List Byte :=
  short ++ [attr] ++ List.replicate 8 (0 : Byte) ++ little 2 (cluster >>> 16) ++ List.replicate 4 (0 : Byte) ++
    little 2 (cluster &&& 0xffff) ++ little 4 size

/-- `struct.pack` of a cluster number and a size into an entry. -/
def packs (cluster size : ℕ) : Prop := cluster >>> 16 < 0x10000 ∧ size < 2 ^ 32

instance (cluster size : ℕ) : Decidable (packs cluster size) := inferInstanceAs (Decidable (_ ∧ _))

end Placing

namespace Layout

variable (v : Layout) (upper : Str → Str)

def listing (first : ℕ) : Machine Fat32 Raise (List ℕ × List Byte × List Entry) := do
  let chain ← v.chain first
  let blob ← v.readChain first none
  pure (chain, blob, scanSlots 0 [] (slots blob))

def find (entries : List Entry) (name : Str) : Option Entry :=
  entries.find? fun entry ↦ entry.short.getD 0 0 ≠ 0x2e ∧ entry.attr &&& 0x08 = 0 ∧
    (upper entry.name = upper name ∨ upper entry.shortText = upper name)

def newEntries (entries : List Entry) (name : Str) (attr : Byte) (cluster size : ℕ) :
    Except Raise (List (List Byte)) := do
  let short ← shortName upper name (entries.map Entry.short)
  let long ← if fits83 upper name then pure [] else lfnEntries name short
  if packs cluster size then pure (long ++ [shortEntry short attr cluster size])
  else .error .structError

/-- The directory's end marker is kept right after the new entries: what follows may be stale. -/
def endAfter (atEnd : Bool) (stop : ℕ) (blob : List Byte) : List Byte :=
  if atEnd ∧ stop < blob.length then blob.set stop 0 else blob

def addEntry (directory : ℕ) (name : Str) (attr : Byte) (cluster size : ℕ) :
    Machine Fat32 Raise Unit := do
  let (chain, blob, entries) ← v.listing directory
  let new ← Machine.ofExcept (newEntries upper entries name attr cluster size)
  let need := new.length
  let count := blob.length / entrySize
  let firsts := (slots blob).map (·.getD 0 0)
  match findRun count need 0 0 firsts with
  | some (start, atEnd) =>
    Machine.modify (v.writeChain chain
      (endAfter atEnd ((start + need) * entrySize) (splice blob (start * entrySize) new.flatten)))
  | none =>
    let start := firsts.findIdx (· = 0)
    let grow := (start + need + 1) * entrySize - blob.length
    let extra ← v.alloc ((grow + v.cluster - 1) / v.cluster)
    match chain.getLast?, extra.head? with
    | some last, some first =>
      Machine.modify (Fat32.set last first)
      let blob := blob ++ List.replicate (extra.length * v.cluster) 0
      Machine.modify (v.writeChain (chain ++ extra)
        (endAfter true ((start + need) * entrySize) (splice blob (start * entrySize) new.flatten)))
    | _, _ => Machine.fail .indexError

def setEntry (directory slot cluster size : ℕ) : Machine Fat32 Raise Unit := do
  let (chain, blob, _) ← v.listing directory
  Machine.require (packs cluster size) .structError
  let blob := splice blob (slot * entrySize + 20) (little 2 (cluster >>> 16))
  let blob := splice blob (slot * entrySize + 26) (little 2 (cluster &&& 0xffff))
  let blob := splice blob (slot * entrySize + 28) (little 4 size)
  Machine.modify (v.writeChain chain blob)

/-- The entry of a directory for itself or for its parent. -/
def dotEntry (dots target : ℕ) : List Byte :=
  shortEntry ((ljust 11 0x20 (List.replicate dots 0x2e)).map (BitVec.ofNat 8)) 0x10 target 0

def mkdir (parent : ℕ) (name : Str) : Machine Fat32 Raise ℕ := do
  let chain ← v.alloc 1
  match chain.head? with
  | none => Machine.fail .indexError
  | some cluster =>
    let dotdot := if parent = v.root then 0 else parent
    Machine.modify (v.writeChain [cluster] (dotEntry 1 cluster ++ dotEntry 2 dotdot))
    v.addEntry upper parent name 0x10 cluster 0
    pure cluster

/-- `walk`, from a directory on. -/
def walk (create : Bool) : List Str → ℕ → Machine Fat32 Raise ℕ
  | [], cluster => pure cluster
  | part :: parts, cluster => do
    let (_, _, entries) ← v.listing cluster
    match find upper entries part with
    | none =>
      if ¬create then Machine.fail (.noDirectory part)
      else do
        let cluster ← v.mkdir upper cluster part
        walk create parts cluster
    | some entry =>
      if entry.attr &&& 0x10 = 0 then Machine.fail (.notDirectory part)
      else walk create parts (if entry.cluster = 0 then v.root else entry.cluster)

end Layout

def components (path : Str) : List Str :=
  ((path.map fun c ↦ if c = 0x5c then 0x2f else c).splitOn 0x2f).filter (· ≠ [])

inductive Verb
  | created
  | replaced (before : ℕ)

namespace Layout

variable (v : Layout) (upper : Str → Str)

def get (path : Str) : Machine Fat32 Raise (List Byte) := do
  let parts := components path
  let directory ← v.walk upper false parts.dropLast v.root
  let (_, _, entries) ← v.listing directory
  match parts.getLast? with
  | none => Machine.fail .indexError
  | some name =>
    match find upper entries name with
    | none => Machine.fail (.noFile path)
    | some entry =>
      if entry.attr &&& 0x10 ≠ 0 then Machine.fail (.noFile path)
      else if entry.cluster = 0 then pure []
      else v.readChain entry.cluster (some entry.size)

def clustersFor (data : List Byte) : ℕ := (data.length + v.cluster - 1) / v.cluster

def store (data : List Byte) : Machine Fat32 Raise ℕ := do
  let chain ← v.alloc (v.clustersFor data)
  Machine.modify (v.writeChain chain data)
  pure (chain.headD 0)

def put (path : Str) (data : List Byte) : Machine Fat32 Raise Verb := do
  let parts := components path
  let directory ← v.walk upper true parts.dropLast v.root
  let (_, _, entries) ← v.listing directory
  match parts.getLast? with
  | none => Machine.fail .indexError
  | some name =>
    match find upper entries name with
    | some entry =>
      Machine.require (entry.attr &&& 0x10 = 0) (.isDirectory path)
      if entry.cluster = 0 then pure () else v.free entry.cluster
      let first ← v.store data
      v.setEntry directory entry.slot first data.length
      Machine.modify v.flush
      pure (.replaced entry.size)
    | none =>
      let first ← v.store data
      v.addEntry upper directory name 0x20 first data.length
      Machine.modify v.flush
      pure .created

end Layout

end Cdj2000Emulator.Card
