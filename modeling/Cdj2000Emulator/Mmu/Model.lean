import Cdj2000Emulator.Library.Traces
import Mathlib.Algebra.Group.Nat.Defs
import Mathlib.Data.List.FinRange
import Mathlib.Logic.Function.Basic

namespace Cdj2000Emulator.Mmu

abbrev Addr := BitVec 32

/-- One CPLB. -/
structure Entry where
  addr : Addr
  data : BitVec 32

/-- `pages`, by the page size in bits 16 and 17 of a protection word. -/
def pageSize (data : BitVec 32) : Addr :=
  match (data >>> 16).toNat % 4 with
  | 0 => 0x400
  | 1 => 0x1000
  | 2 => 0x100000
  | _ => 0x400000

namespace Entry

def lo (e : Entry) : Addr := e.addr

/-- The end of the page, which wraps at the top. -/
def hi (e : Entry) : Addr := e.addr + pageSize e.data

def valid (e : Entry) : Bool := e.data.getLsbD 0

def covers (e : Entry) (addr : Addr) : Bool := e.valid && decide (e.lo ≤ addr) && decide (addr < e.hi)

end Entry

/-- The data or the instruction side of `struct bfin_mmu`. -/
structure Table where
  control : BitVec 32
  entry : Fin 16 → Entry

/-- `ENCPLB` -/
def Table.enabled (t : Table) : Bool := t.control.getLsbD 1

structure Access where
  addr : Addr
  write : Bool
  inst : Bool
  size : BitVec 32
  /-- The CEC's `IPEND`. -/
  ipend : BitVec 32
  dag1 : Bool

def mmrBase : Addr := 0xffc00000

def inL1 (addr : Addr) : Bool := addr &&& 0xff000000 == 0xff000000

def codeBank (addr : Addr) : Bool := addr &&& 0xfff00000 == 0xffa00000

namespace Access

/-- Any bit is pending but EMU and IRPTEN. -/
def supv (a : Access) : Bool := a.ipend &&& ~~~0x11 != 0

def aligned (a : Access) : Bool := a.addr &&& (a.size - 1) == 0

def RightBank (a : Access) : Prop := inL1 a.addr → a.inst = codeBank a.addr

end Access

/-- The page is written through the cache and not marked dirty: `CPLB_L1_CHBL` without `CPLB_WT` and `CPLB_DIRTY`. -/
def clean (data : BitVec 32) : Bool := data.getLsbD 12 && !data.getLsbD 14 && !data.getLsbD 7

/-- What a protection word grants, by `CPLB_SUPV_WR`, `CPLB_USER_WR` and `CPLB_USER_RD`. -/
def permits (data : BitVec 32) (a : Access) : Bool :=
  if a.write then (if a.supv then data.getLsbD 4 else data.getLsbD 3) && !clean data else a.supv || data.getLsbD 2

/-- The vector that a count of hits stands for. -/
inductive Excp
  | miss
  | violation
  | multipleHits
  | misaligned
deriving DecidableEq

/-- How an access ends. -/
inductive Outcome
  | granted
  /-- `VEC_CPLB_*` or `VEC_MISALI_*` of a table, with what is logged of the entries that were hit -/
  | raised (inst : Bool) (excp : Excp) (faults : BitVec 32)
  /-- A hardware error. -/
  | hardware
deriving DecidableEq

/-- The locals of `_mmu_check_addr` in the walk. -/
structure Walk where
  hits : ℕ
  faults : BitVec 32
  /-- `do_excp` -/
  refused : Bool
  lastHit : Option (Fin 16)

def visit (t : Table) (a : Access) (w : Walk) (i : Fin 16) : Walk :=
  if (t.entry i).covers a.addr then
    { hits := w.hits + 1
      faults := w.faults ||| 1#32 <<< i.val
      refused := w.refused || !permits (t.entry i).data a
      lastHit := some i }
  else w

def walk (t : Table) (a : Access) : Walk := (List.finRange 16).foldl (visit t a) ⟨0, 0, false, none⟩

/-- What GDB does with an access past the entries: the check of `_mmu_check_implicit_addr` with the hits so far, none
or one. -/
structure Implicit where
  settle : Access → ℕ → BitVec 32 → Outcome
  /-- With one hit nothing is against an aligned access below the MMRs that keeps to its L1 bank. -/
  passes : ∀ a faults, a.aligned = true → a.addr < mmrBase → a.RightBank → settle a 1 faults = .granted

variable (g : Implicit)

def excps (hits : ℕ) : Excp :=
  match hits with
  | 0 => .miss
  | 1 => .violation
  | _ => .multipleHits

def conclude (a : Access) (w : Walk) : Outcome :=
  if !w.refused && w.hits < 2 then g.settle a w.hits w.faults else .raised a.inst (excps w.hits) w.faults

/-- `_mmu_check_addr` without memo and fast window. -/
def checkPlain (t : Table) (a : Access) : Outcome :=
  if t.enabled then conclude g a (walk t a) else g.settle a 1 0

/-- `struct bfin_cplb_memo`, when it is valid. -/
structure Memo where
  lo : Addr
  hi : Addr
  data : BitVec 32
  mask : BitVec 32

structure Fast where
  lo : Addr
  hi : Addr
  /-- Bit `supervisor << 1 | write`. -/
  ok : BitVec 4

/-- By table: data, or instructions. -/
structure State where
  table : Bool → Table
  memo : Bool → Option Memo
  fast : Bool → Fast

def okBits (data : BitVec 32) : BitVec 4 :=
  let ok : BitVec 4 := 1 <<< 2
  let ok := if data.getLsbD 2 then ok ||| 1 <<< 0 else ok
  if clean data then ok
  else
    let ok := if data.getLsbD 3 then ok ||| 1 <<< 1 else ok
    if data.getLsbD 4 then ok ||| 1 <<< 3 else ok

def belowMmrs (hi : Addr) : Addr := if mmrBase < hi then mmrBase else hi

def publish (inst : Bool) (lo hi : Addr) (data : BitVec 32) (all : Bool) (f : Fast) : Fast :=
  if hi ≤ lo ∨ mmrBase ≤ lo then { f with lo := 0, hi := 0 }
  else if inL1 lo ∧ (0x100000 < belowMmrs hi - lo ∨ inst ≠ codeBank lo) then { f with lo := 0, hi := 0 }
  else ⟨lo, belowMmrs hi, if all then 0xf else okBits data⟩

namespace Memo

def ofEntry (t : Table) (i : Fin 16) : Memo := ⟨(t.entry i).lo, (t.entry i).hi, (t.entry i).data, 1#32 <<< i.val⟩

def answers (m : Memo) (a : Access) : Bool := decide (m.lo ≤ a.addr) && decide (a.addr < m.hi) && permits m.data a

end Memo

namespace State

def published (inst : Bool) (lo hi : Addr) (data : BitVec 32) (all : Bool) (s : State) : State :=
  { s with fast := Function.update s.fast inst (publish inst lo hi data all (s.fast inst)) }

/-- The walk has found one entry that grants the access. -/
def remember (inst : Bool) (i : Fin 16) (faults : BitVec 32) (s : State) : State :=
  let e := (s.table inst).entry i
  { s with memo := Function.update s.memo inst (some ⟨e.lo, e.hi, e.data,
    faults⟩) }.published inst e.lo e.hi e.data false

def fastOk (s : State) (a : Access) : Bool :=
  let f := s.fast a.inst
  decide (f.lo ≤ a.addr) && decide (a.addr < f.hi) && a.aligned && f.ok.getLsbD (2 * a.supv.toNat + a.write.toNat)

def memoHit (s : State) (a : Access) : Option Memo := (s.memo a.inst).filter (·.answers a)

def search (s : State) (a : Access) : State × Outcome :=
  let w := walk (s.table a.inst) a
  match w.lastHit with
  | some i =>
    if w.hits = 1 ∧ !w.refused then (s.remember a.inst i w.faults, conclude g a w) else (s, conclude g a w)
  | none => (s, conclude g a w)

def check (s : State) (a : Access) : State × Outcome :=
  if !(s.table a.inst).enabled then (s.published a.inst 0 0xff000000 0 true, g.settle a 1 0)
  else
    match s.memoHit a with
    | some m => (s, g.settle a 1 m.mask)
    | none => s.search g a

/-- A load, a store or a fetch, as far as the MMU lets it. -/
def access (s : State) (a : Access) : State × Outcome := if s.fastOk a then (s, .granted) else s.check g a

/-- `bfin_mmu_io_write_buffer`, which may leave any contents. -/
def write (table : Bool → Table) (s : State) : State where
  table := table
  memo _ := none
  fast inst := { s.fast inst with lo := 0, hi := 0 }

/-- Memo and window are empty before the first access. -/
def start (table : Bool → Table) : State where
  table := table
  memo _ := none
  fast _ := ⟨0, 0, 0⟩

end State

inductive Event
  /-- A write to a register of the MMU, with the registers after it. -/
  | write (table : Bool → Table)
  | access (a : Access)

def Step (s : State) (x : Event × Option Outcome) (t : State) : Prop :=
  match x.1 with
  | .write table => t = s.write table ∧ x.2 = none
  | .access a => t = (s.access g a).1 ∧ x.2 = some (s.access g a).2

/-- A step of the simulator without memo and window. -/
def PlainStep (table : Bool → Table) (x : Event × Option Outcome) (table' : Bool → Table) : Prop :=
  match x.1 with
  | .write table => table' = table ∧ x.2 = none
  | .access a => table' = table ∧ x.2 = some (checkPlain g (table a.inst) a)

end Cdj2000Emulator.Mmu
