import Cdj2000Emulator.Card.Names
import Cdj2000Emulator.Library.Stateful
import Mathlib.Logic.Function.Basic

namespace Cdj2000Emulator.Card

open Function Library.Bytes Library.Stateful

abbrev Word := BitVec 32

/-- Where the parts of the volume lie, as the boot sector says. -/
structure Layout where
  /-- The bytes of a cluster. -/
  cluster : ℕ
  fatOffsets : List ℕ
  data : ℕ
  clusters : ℕ
  fsinfo : ℕ
  root : ℕ

/-- `Fat32`: the image, and the table that is kept in memory. -/
structure Fat32 where
  image : ℕ → Byte
  fat : ℕ → Word
  hint : ℕ

/-- `END`: this and above end a chain. -/
def endMark : ℕ := 0x0ffffff8

/-- `MASK`: the top four bits of an entry are reserved. -/
def mask : Word := 0x0fffffff

/-- `ENTRY`. -/
def entrySize : ℕ := 32

section Raw

/-- `read`. -/
def readAt (image : ℕ → Byte) (offset size : ℕ) : List Byte :=
  (List.range size).map fun i ↦ image (offset + i)

/-- `write`. -/
def writeAt (offset : ℕ) (data : List Byte) (image : ℕ → Byte) : ℕ → Byte := fun p ↦
  if offset ≤ p ∧ p < offset + data.length then data.getD (p - offset) 0 else image p

end Raw

namespace Fat32

def next (s : Fat32) (cluster : ℕ) : ℕ := (s.fat cluster &&& mask).toNat

def set (cluster value : ℕ) (s : Fat32) : Fat32 :=
  { s with fat := update s.fat cluster (s.fat cluster &&& ~~~mask ||| BitVec.ofNat 32 value) }

def write (offset : ℕ) (data : List Byte) (s : Fat32) : Fat32 :=
  { s with image := writeAt offset data s.image }

end Fat32

/-- The loop of `chain`, with the clusters that it may still take. -/
def follow (clusters : ℕ) (next : ℕ → ℕ) : ℕ → ℕ → Option (List ℕ)
  | fuel, cluster =>
    if 2 ≤ cluster ∧ cluster < endMark then
      match fuel with
      | 0 => none
      | fuel + 1 =>
        if clusters + 2 ≤ cluster then none
        else (follow clusters next fuel (next cluster)).map (cluster :: ·)
    else some []

namespace Layout

variable (v : Layout)

def offset (cluster : ℕ) : ℕ := v.data + (cluster - 2) * v.cluster

def after (cluster : ℕ) : ℕ := if cluster + 1 < v.clusters + 2 then cluster + 1 else 2

def chain (first : ℕ) : Machine Fat32 Raise (List ℕ) := fun s ↦
  match follow v.clusters s.next (v.clusters + 1) first with
  | some chain => (s, .ok chain)
  | none => (s, .error (.brokenChain first))

def contents (s : Fat32) (chain : List ℕ) : List Byte :=
  chain.flatMap fun cluster ↦ readAt s.image (v.offset cluster) v.cluster

def readChain (first : ℕ) (size : Option ℕ) : Machine Fat32 Raise (List Byte) := do
  let chain ← v.chain first
  let s ← Machine.get
  match size with
  | none => pure (v.contents s chain)
  | some size => pure ((v.contents s chain).take size)

def writeChain (chain : List ℕ) (data : List Byte) (s : Fat32) : Fat32 :=
  let data := ljust (chain.length * v.cluster) 0 data
  chain.zipIdx.foldl (fun s (cluster, i) ↦
    s.write (v.offset cluster) ((data.drop (i * v.cluster)).take v.cluster)) s

/-- The search of `alloc`, over as many clusters as are left. -/
def scan (s : Fat32) (count : ℕ) : ℕ → ℕ → List ℕ → List ℕ
  | 0, _, chain => chain
  | left + 1, cluster, chain =>
    if chain.length = count then chain
    else scan s count left (v.after cluster) (if s.next cluster = 0 then chain ++ [cluster] else chain)

def link (chain : List ℕ) (s : Fat32) : Fat32 :=
  (chain.zip (chain.drop 1)).foldl (fun s (a, b) ↦ s.set a b) s

def alloc (count : ℕ) : Machine Fat32 Raise (List ℕ) := fun s ↦
  let chain := v.scan s count v.clusters s.hint []
  if chain.length < count then (s, .error .full)
  else match chain.getLast? with
    | none => (s, .ok chain)
    | some last => ({ (link chain s).set last mask.toNat with hint := v.after last }, .ok chain)

def free (first : ℕ) : Machine Fat32 Raise Unit := do
  let chain ← v.chain first
  Machine.modify fun s ↦ chain.foldl (fun s cluster ↦ s.set cluster 0) s

def table (s : Fat32) : List Byte := (List.range (v.clusters + 2)).flatMap fun c ↦ little 4 (s.fat c).toNat

def freeCount (s : Fat32) : ℕ := ((List.range' 2 v.clusters).filter fun c ↦ s.next c = 0).length

/-- The sector is an FSInfo sector: `RRaA` and `rrAa` are in their places. -/
def IsInfo (info : List Byte) : Prop :=
  info.take 4 = [0x52, 0x52, 0x61, 0x41] ∧ (info.drop 484).take 4 = [0x72, 0x72, 0x41, 0x61]

instance (info : List Byte) : Decidable (IsInfo info) := inferInstanceAs (Decidable (_ ∧ _))

def flush (s : Fat32) : Fat32 :=
  let s := v.fatOffsets.foldl (fun t offset ↦ t.write offset (v.table s)) s
  let info := readAt s.image v.fsinfo 512
  if IsInfo info then
    s.write v.fsinfo (info.take 488 ++ little 4 (v.freeCount s) ++ little 4 s.hint ++ info.drop 496)
  else s

end Layout

end Cdj2000Emulator.Card
