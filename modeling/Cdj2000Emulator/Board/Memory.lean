import Cdj2000Emulator.Library.Bytes
import Mathlib.Logic.Function.Basic

namespace Cdj2000Emulator.Board.Memory

open Library.Bytes
open Library.Bytes.Block (put slice slice_put)

abbrev Word := BitVec 32

/-- The memories of the DSP board. -/
inductive Region
  | l1d
  | l2
  | sharedRam
  | sdram
  deriving DecidableEq

def Region.size : Region → ℕ
  | .l1d => 0x8000
  | .l2 => 0x40000
  | .sharedRam => 0x20000
  | .sdram => 0x02000000

abbrev Memories := (r : Region) → Block r.size

/-- The registers of `CdjC6747Cache` that decide where L1D is addressable. -/
structure C6747Cache where
  l1dcfg : Word

/-- The registers of `CdjC6747Emifb` that decide whether the SDRAM answers. -/
structure C6747Emifb where
  sdcfg : Word

def l1dSramBytes (mode : ℕ) : ℕ := [0x8000, 0x7000, 0x6000, 0x4000, 0, 0, 0, 0].getD mode 0

/-- Where the window of an address starts, local or global. -/
def l1dSramBase (a : ℕ) : Option ℕ :=
  if 0x00f00000 ≤ a ∧ a < 0x00f08000 then some 0x00f00000
  else if 0x11f00000 ≤ a ∧ a < 0x11f08000 then some 0x11f00000
  else none

def l1dSramSpan (cache : C6747Cache) (address : Word) (size : ℕ) : Option ℕ :=
  if size = 0 then none
  else (l1dSramBase address.toNat).bind fun base ↦
    let start := address.toNat - base
    let available := l1dSramBytes (cache.l1dcfg &&& 7#32).toNat
    if available < start ∨ available - start < size then none else some start

def sdramEnabled (s : C6747Emifb) : Bool := s.sdcfg.getLsbD 16

def sdramOffset (s : C6747Emifb) (address : Word) (size populatedSize : ℕ) : Option ℕ :=
  let a := address.toNat
  if !sdramEnabled s ∨ size = 0 ∨ populatedSize = 0 ∨ 0x20000000 < populatedSize ∨
      populatedSize &&& (populatedSize - 1) ≠ 0 ∨ a < 0xc0000000 ∨ 0xe0000000 ≤ a ∨
      0xe0000000 - a < size then none
  else
    let physical := (a - 0xc0000000) &&& (populatedSize - 1)
    if populatedSize - physical < size then none else some physical

/-- `dsp_memory_span`: the memory and the offset in it that a span of addresses stands for. -/
def dspMemorySpan (cache : C6747Cache) (emifb : C6747Emifb) (address : Word) (size : ℕ) :
    Option (Region × ℕ) :=
  let a := address.toNat
  let stop := a + size
  if size = 0 ∨ 0x100000000 < stop then none
  else match l1dSramSpan cache address size with
    | some offset => some (.l1d, offset)
    | none =>
      if 0x11800000 ≤ a ∧ stop ≤ 0x11800000 + Region.l2.size then some (.l2, a - 0x11800000)
      else if 0x00800000 ≤ a ∧ stop ≤ 0x00800000 + Region.l2.size then
        some (.l2, a - 0x00800000)
      else if 0x80000000 ≤ a ∧ stop ≤ 0x80000000 + Region.sharedRam.size then
        some (.sharedRam, a - 0x80000000)
      else (sdramOffset emifb address size Region.sdram.size).map fun offset ↦ (.sdram, offset)

theorem l1dSramBytes_le (mode : ℕ) : l1dSramBytes mode ≤ Region.l1d.size := by
  unfold l1dSramBytes
  match mode with
  | 0 | 1 | 2 | 3 | 4 | 5 | 6 | 7 => decide
  | _ + 8 => exact Nat.zero_le _

theorem l1dSramSpan_inside {cache : C6747Cache} {address : Word} {size offset : ℕ}
    (h : l1dSramSpan cache address size = some offset) : offset + size ≤ Region.l1d.size := by
  unfold l1dSramSpan at h
  split_ifs at h with empty
  obtain ⟨base, hbase, h⟩ := Option.bind_eq_some_iff.mp h
  have room := l1dSramBytes_le (cache.l1dcfg &&& 7#32).toNat
  dsimp only at h
  split_ifs at h with outside
  have found : address.toNat - base = offset := Option.some.inj h
  omega

theorem sdramOffset_inside {s : C6747Emifb} {address : Word} {size populatedSize offset : ℕ}
    (h : sdramOffset s address size populatedSize = some offset) : offset + size ≤ populatedSize := by
  unfold sdramOffset at h
  dsimp only at h
  split_ifs at h with refused short
  have found : (address.toNat - 0xc0000000) &&& (populatedSize - 1) = offset := Option.some.inj h
  omega

theorem dspMemorySpan_inside {cache : C6747Cache} {emifb : C6747Emifb} {address : Word} {size : ℕ}
    {r : Region} {offset : ℕ} (h : dspMemorySpan cache emifb address size = some (r, offset)) :
    offset + size ≤ r.size := by
  unfold dspMemorySpan at h
  dsimp only at h
  rw [Option.ite_none_left_eq_some] at h
  obtain ⟨present, h⟩ := h
  split at h
  · rename_i o hspan
    obtain ⟨rfl, rfl⟩ := Prod.mk.inj (Option.some.inj h)
    exact l1dSramSpan_inside hspan
  · split_ifs at h with global localAlias shared
    · obtain ⟨rfl, rfl⟩ := Prod.mk.inj (Option.some.inj h)
      omega
    · obtain ⟨rfl, rfl⟩ := Prod.mk.inj (Option.some.inj h)
      omega
    · obtain ⟨rfl, rfl⟩ := Prod.mk.inj (Option.some.inj h)
      omega
    · obtain ⟨o, hoffset, h⟩ := Option.map_eq_some_iff.mp h
      obtain ⟨rfl, rfl⟩ := Prod.mk.inj h
      exact sdramOffset_inside hoffset

/-- `EdmaStagedWrite`: a copy of the bytes and the place they are meant for. -/
structure EdmaStagedWrite where
  region : Region
  target : ℕ
  size : ℕ
  bytes : Block size

namespace EdmaStagedWrite

/-- The `memcpy` of one staged write. -/
def perform (w : EdmaStagedWrite) (memory : Memories) : Memories :=
  Function.update memory w.region (put w.target w.bytes (memory w.region))

def patch (r : Region) (o n : ℕ) (bytes : Block n) (w : EdmaStagedWrite) : Block n :=
  if w.region = r ∧ w.target < o + n ∧ o < w.target + w.size then
    let start := max w.target o
    let stop := min (w.target + w.size) (o + n)
    put (start - o) (slice w.bytes (start - w.target) (stop - start)) bytes
  else bytes

def replay (ws : List EdmaStagedWrite) (memory : Memories) : Memories :=
  ws.foldl (fun memory w ↦ w.perform memory) memory

theorem slice_perform (w : EdmaStagedWrite) (memory : Memories) {r : Region} {o n : ℕ}
    (inside : o + n ≤ r.size) :
    slice (w.perform memory r) o n = patch r o n (slice (memory r) o n) w := by
  unfold perform patch
  by_cases same : w.region = r
  · subst same
    rw [Function.update_self, slice_put inside]
    simp only [true_and]
  · rw [Function.update_of_ne (Ne.symm same), if_neg fun h ↦ same h.1]

theorem slice_replay (ws : List EdmaStagedWrite) (memory : Memories) {r : Region} {o n : ℕ}
    (inside : o + n ≤ r.size) :
    slice (replay ws memory r) o n = ws.foldl (patch r o n) (slice (memory r) o n) := by
  induction ws generalizing memory with
  | nil => rfl
  | cons w ws ih =>
    rw [replay, List.foldl_cons, List.foldl_cons, ← slice_perform w memory inside]
    exact ih (w.perform memory)

theorem replay_append (ws : List EdmaStagedWrite) (w : EdmaStagedWrite) (memory : Memories) :
    replay (ws ++ [w]) memory = w.perform (replay ws memory) := by
  rw [replay, replay, List.foldl_append]
  rfl

end EdmaStagedWrite

end Cdj2000Emulator.Board.Memory
