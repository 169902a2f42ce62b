import Cdj2000Emulator.Library.Traces
import Mathlib.Algebra.Group.Nat.Defs
import Mathlib.Logic.Function.Basic

namespace Cdj2000Emulator.SimCore

open Function

abbrev Addr := BitVec 32

abbrev Byte := BitVec 8

/-- The maps of the core, `nr_maps` of them. -/
inductive Map
  | read
  | write
  | exec
deriving DecidableEq

/-- What is behind a mapping: a device, or one of the buffers. -/
inductive Backing
  | device (d : ℕ)
  | memory (buffer : ℕ)

structure Mapping where
  level : Int
  base : Addr
  bound : Addr
  /-- One less than the modulo, or all ones without one. -/
  mask : BitVec 32
  modulo : ∃ j, mask.toNat + 1 = 2 ^ j
  backing : Backing

namespace Mapping

def covers (m : Mapping) (addr : Addr) : Bool := decide (m.base ≤ addr) && decide (addr ≤ m.bound)

/-- `sim_core_translate`, from the start of the buffer. -/
def offset (m : Mapping) (addr : Addr) : ℕ := ((addr - m.base) &&& m.mask).toNat

end Mapping

def Ordered (l : List Mapping) : Prop :=
  l.Pairwise fun m m' ↦ m.level ≤ m'.level ∧ (m.level = m'.level → m.bound < m'.base ∨ m'.bound < m.base)

/-- `sim_core_find_mapping` for one byte. -/
def find (l : List Mapping) (addr : Addr) : Option Mapping := l.find? (·.covers addr)

/-- A load, a store or a fetch, or a call of `sim_core_read_buffer` or `sim_core_write_buffer`. -/
structure Transfer where
  map : Map
  addr : Addr
  /-- The bytes from here on: one that is written, or `none` for one that is read. -/
  data : List (Option Byte)

/-- The bytes up to one are done. -/
def Transfer.advance (k : ℕ) (x : Transfer) : Transfer :=
  { x with addr := x.addr + BitVec.ofNat 32 k, data := x.data.drop k }

abbrev Memory := ℕ → ℕ → Byte

def touch (buffer offset : ℕ) (cell : Option Byte) (memory : Memory) : Byte × Memory :=
  match cell with
  | none => (memory buffer offset, memory)
  | some b => (b, update memory buffer (update (memory buffer) offset b))

/-- The core and the transfers under way, the innermost first: a device may start one while it serves another. -/
structure Host where
  maps : Map → List Mapping
  memory : Memory
  calls : List Transfer

/-- What is to be seen of the core. -/
inductive Act
  | begin (x : Transfer)
  /-- A byte of a buffer, with what is read or written. -/
  | byte (map : Map) (addr : Addr) (buffer offset : ℕ) (cell : Option Byte) (b : Byte)
  /-- A device takes over, for so many bytes; or it does not answer, which ends the transfer. -/
  | device (map : Map) (addr : Addr) (d : ℕ) (taken : Option ℕ)
  /-- Nothing is mapped, which ends the transfer. -/
  | refused (map : Map) (addr : Addr)
  | done
  /-- A mapping is attached or detached. -/
  | remap (maps : Map → List Mapping)

/-- The core, which looks up the mapping of every byte of memory. -/
inductive Plain : Host → Act → Host → Prop
  | begin {s : Host} (x : Transfer) : Plain s (.begin x) { s with calls := x :: s.calls }
  | byte {maps : Map → List Mapping} {memory : Memory} {x : Transfer} {calls : List Transfer} {cell : Option Byte}
      {data : List (Option Byte)} {m : Mapping} {buffer : ℕ} : x.data = cell :: data →
        find (maps x.map) x.addr = some m →
      m.backing = .memory buffer →
      Plain ⟨maps, memory, x :: calls⟩
        (.byte x.map x.addr buffer (m.offset x.addr) cell (touch buffer (m.offset x.addr) cell memory).1)
        ⟨maps, (touch buffer (m.offset x.addr) cell memory).2, x.advance 1 :: calls⟩
  | device {maps : Map → List Mapping} {memory : Memory} {x : Transfer} {calls : List Transfer}
      {m : Mapping} {d : ℕ}
      (k : ℕ) : x.data ≠ [] → find (maps x.map) x.addr = some m → m.backing = .device d →
      Plain ⟨maps, memory, x :: calls⟩ (.device x.map x.addr d (some k)) ⟨maps, memory, x.advance k :: calls⟩
  | deviceEnds {maps : Map → List Mapping} {memory : Memory} {x : Transfer} {calls : List Transfer} {m : Mapping}
      {d : ℕ} : x.data ≠ [] → find (maps x.map) x.addr = some m → m.backing = .device d →
      Plain ⟨maps, memory, x :: calls⟩ (.device x.map x.addr d none) ⟨maps, memory, calls⟩
  | refused {maps : Map → List Mapping} {memory : Memory} {x : Transfer} {calls : List Transfer} : x.data ≠ [] →
      find (maps x.map) x.addr = none → Plain ⟨maps, memory, x :: calls⟩ (.refused x.map x.addr)
        ⟨maps, memory, calls⟩
  | done {maps : Map → List Mapping} {memory : Memory} {x : Transfer} {calls : List Transfer} : x.data = [] →
      Plain ⟨maps, memory, x :: calls⟩ .done ⟨maps, memory, calls⟩
  | remap {s : Host} (maps : Map → List Mapping) : Plain s (.remap maps) { s with maps := maps }

def pageSize : ℕ := 4096

structure PageEntry where
  page : BitVec 32
  /-- A place in a buffer; the page is known not to be cacheable without one. -/
  host : Option (ℕ × ℕ)

structure Machine where
  host : Host
  /-- `sim_core_generation` -/
  generation : BitVec 32
  cache : Map → BitVec 12 → PageEntry
  cacheGeneration : BitVec 32

def pageOf (addr : Addr) : BitVec 32 := addr >>> 12

def startOf (page : BitVec 32) : Addr := page <<< 12

def inPage (addr : Addr) : ℕ := (addr &&& 0xfff).toNat

def pageHost (l : List Mapping) (start : Addr) : Option (ℕ × ℕ) :=
  match find l start with
  | none => none
  | some m =>
    match m.backing with
    | .device _ => none
    | .memory buffer =>
      if start + 0xfff ≤ m.bound ∧ m.mask &&& 0xfff = 0xfff ∧ m.base &&& 0xfff = 0 then
        some (buffer, m.offset start)
      else none

def move (map : Map) (buffer : ℕ) : Addr → ℕ → List (Option Byte) → Memory → List Act × Memory
  | _, _, [], memory => ([], memory)
  | addr, offset, cell :: data, memory =>
    let (b, memory) := touch buffer offset cell memory
    let (acts, memory) := move map buffer (addr + 1) (offset + 1) data memory
    (.byte map addr buffer offset cell b :: acts, memory)

/-- How many of `n` bytes a mapping serves at once. -/
def stretch (m : Mapping) (addr : Addr) (n : ℕ) : ℕ :=
  let left := (m.bound - addr).toNat
  let nr := if left < n - 1 then left + 1 else n
  if m.mask ≠ BitVec.allOnes 32 then
    let toWrap := m.mask.toNat + 1 - m.offset addr
    if toWrap < nr then toWrap else nr
  else nr

namespace Machine

variable (disabled : Bool)

def flush (s : Machine) : Machine := { s with cache := fun _ _ ↦ ⟨-1, none⟩, cacheGeneration := s.generation }

def setEntry (map : Map) (i : BitVec 12) (e : PageEntry) (s : Machine) : Machine :=
  { s with cache := update s.cache map (update (s.cache map) i e) }

def fill (map : Map) (addr : Addr) (s : Machine) : Machine × Option (ℕ × ℕ) :=
  if disabled then (s, none)
  else
    let s := if s.cacheGeneration ≠ s.generation then s.flush else s
    let host := pageHost (s.host.maps map) (startOf (pageOf addr))
    (s.setEntry map ((pageOf addr).setWidth 12) ⟨pageOf addr, host⟩, host.map fun h ↦ (h.1, h.2 + inPage addr))

def fastHost (map : Map) (addr : Addr) (n : ℕ) (s : Machine) : Machine × Option (ℕ × ℕ) :=
  if pageSize < inPage addr + n then (s, none)
  else if s.cacheGeneration ≠ s.generation then s.fill disabled map addr
  else
    let e := s.cache map ((pageOf addr).setWidth 12)
    if e.page = pageOf addr then (s, e.host.map fun h ↦ (h.1, h.2 + inPage addr)) else s.fill disabled map addr

def setHost (host : Host) (s : Machine) : Machine := { s with host := host }

/-- `__GET_MEM` and `__PUT_MEM`, past the MMU. -/
def guest (x : Transfer) (s : Machine) : Machine × List Act :=
  match s.fastHost disabled x.map x.addr x.data.length with
  | (s, some (buffer, offset)) =>
    let (acts, memory) := move x.map buffer x.addr offset x.data s.host.memory
    (s.setHost { s.host with memory := memory }, .begin x :: (acts ++ [.done]))
  | (s, none) => (s.setHost { s.host with calls := x :: s.host.calls }, [.begin x])

/-- The next round of the innermost `sim_core_read_buffer` or `sim_core_write_buffer`. -/
def turn (taken : Option ℕ) (s : Machine) : Machine × List Act :=
  match s.host with
  | ⟨_, _, []⟩ => (s, [])
  | ⟨maps, memory, x :: calls⟩ =>
    if x.data = [] then (s.setHost ⟨maps, memory, calls⟩, [.done])
    else
      match find (maps x.map) x.addr with
      | none => (s.setHost ⟨maps, memory, calls⟩, [.refused x.map x.addr])
      | some m =>
        match m.backing with
        | .device d =>
          match taken with
          | none => (s.setHost ⟨maps, memory, calls⟩, [.device x.map x.addr d none])
          | some k => (s.setHost ⟨maps, memory, x.advance k :: calls⟩, [.device x.map x.addr d (some k)])
        | .memory buffer =>
          let nr := stretch m x.addr x.data.length
          let (acts, memory) := move x.map buffer x.addr (m.offset x.addr) (x.data.take nr) memory
          (s.setHost ⟨maps, memory, x.advance nr :: calls⟩, acts)

/-- `sim_core_attach` and `sim_core_detach`. -/
def remap (maps : Map → List Mapping) (s : Machine) : Machine × List Act :=
  ({ s with host := { s.host with maps := maps }, generation := s.generation + 1 }, [.remap maps])

def start (maps : Map → List Mapping) (memory : Memory) : Machine where
  host := ⟨maps, memory, []⟩
  generation := 0
  cache _ _ := ⟨0, none⟩
  cacheGeneration := -1

end Machine

inductive Event
  /-- An attach or a detach, with the lists that it leaves. -/
  | remap (maps : Map → List Mapping)
  /-- A load, a store or a fetch of the guest. -/
  | guest (x : Transfer)
  /-- A buffer that the core is asked to read or write. -/
  | call (x : Transfer)
  /-- The loop of the core goes on; a device takes so many bytes, or none. -/
  | turn (taken : Option ℕ)

def Machine.handle (disabled : Bool) (s : Machine) : Event → Machine × List Act
  | .remap maps => s.remap maps
  | .guest x => s.guest disabled x
  | .call x => (s.setHost { s.host with calls := x :: s.host.calls }, [.begin x])
  | .turn taken => s.turn taken

def Step (disabled : Bool) (s : Machine) (x : Event × List Act) (t : Machine) : Prop :=
    s.handle disabled x.1 = (t, x.2)

end Cdj2000Emulator.SimCore
