import Cdj2000Emulator.Library.Stateful
import Cdj2000Emulator.Rtl8201fl.Model
import Mathlib.Data.List.Basic
import Mathlib.Tactic.IntervalCases

namespace Cdj2000Emulator.Rtl8201fl

open Library.Stateful

/-- A frame of the MDIO protocol: its PHY address, its register and what it writes. -/
inductive Frame
  | write (phy reg : BitVec 5) (value : Half)
  | read (phy reg : BitVec 5)

namespace Frame

def phy : Frame → BitVec 5
  | write phy _ _ => phy
  | read phy _ => phy

def reg : Frame → BitVec 5
  | write _ reg _ => reg
  | read _ reg => reg

def opcode : Frame → BitVec 2
  | write .. => 1
  | read .. => 2

/-- The first fourteen bits: start 01, opcode, PHY address and register. -/
def word (f : Frame) : BitVec 14 := 1#2 ++ f.opcode ++ f.phy ++ f.reg

/-- What the master puts on the line at bit `k`; from the turnaround on a read is not driven. -/
def line (f : Frame) (k : ℕ) : Option Bool :=
  if k < 14 then some (f.word.getLsbD (13 - k))
  else
    match f with
    | write _ _ value => if k = 14 then some true else if k = 15 then some false else some (value.getLsbD (31 - k))
    | read .. => none

def resets : Frame → Bool
  | write phy reg value => phy = 1 && reg = 0 && value &&& 0x8000#16 ≠ 0
  | read .. => false

end Frame

/-- A call from the guest or from the clock. -/
inductive Event
  | pir (value : Word)
  | advance (now : ℕ)

/-- What is done to the registers, in order. -/
inductive Entry
  | access (a : Access)
  | advance (now : ℕ)

/-- The PHY, what has been done to its registers, and what the master has sampled: before
and after the clock's rise in each bit. -/
structure Bench where
  phy : Phy
  log : List Entry
  seen : List (Bool × Bool)

def accesses (log : List Entry) : List Access :=
  log.filterMap fun e ↦ match e with
    | .access a => some a
    | .advance _ => none

namespace Bench

def call (b : Bench) : Event → Except Phy Bench
  | .pir value =>
    match b.phy.pirWrite value with
    | none => .error b.phy
    | some (phy, made) => .ok { b with phy, log := b.log ++ made.map .access }
  | .advance now =>
    .ok { b with
      phy := { b.phy with regs := (b.phy.regs.advance now).getD b.phy.regs }
      log := b.log ++ [.advance now] }

def calls (b : Bench) (events : List Event) : Except Phy Bench := events.foldlM call b

def sample (b : Bench) : Bool := b.phy.pirRead.getLsbD 3

end Bench

/-- The calls of one bit: MDC low, then MDC high. -/
structure Cell where
  low : List Event
  high : List Event

def Bench.cell (b : Bench) (c : Cell) : Except Phy Bench := do
  let b ← b.calls c.low
  let before := b.sample
  let b ← b.calls c.high
  .ok { b with seen := b.seen ++ [(before, b.sample)] }

def Bench.cells (b : Bench) (cells : List Cell) : Except Phy Bench := cells.foldlM Bench.cell b

def Level (level : Bool) (value : Word) : Prop := value &&& ~~~15#32 = 0 ∧ value.getLsbD 0 = level

def Drives (line : Option Bool) (value : Word) : Prop :=
  value.getLsbD 1 = line.isSome ∧ ∀ bit ∈ line, value.getLsbD 2 = bit

/-- The PIR writes among the calls. -/
def pirs (events : List Event) : List Word :=
  events.filterMap fun e ↦ match e with
    | .pir value => some value
    | .advance _ => none

/-- The cell carries a bit: data change only while MDC is low, and stand before it rises.
Levels may be written repeatedly, and time may advance between the calls. -/
structure Cell.Carries (c : Cell) (line : Option Bool) : Prop where
  low : ∀ value ∈ pirs c.low, Level false value
  ready : ∃ value, (pirs c.low).getLast? = some value ∧ Drives line value
  high : ∀ value ∈ pirs c.high, Level true value ∧ Drives line value
  rises : pirs c.high ≠ []

section Calls

variable {b : Bench} {events : List Event}

theorem accesses_append (log log' : List Entry) : accesses (log ++ log') = accesses log ++ accesses log' :=
  List.filterMap_append

theorem accesses_made (made : List Access) : accesses (made.map .access) = made := by
  unfold accesses
  rw [List.filterMap_map]
  exact List.filterMap_some

theorem level_kept (value : Word) : (value &&& 7#32).getLsbD 0 = value.getLsbD 0 := by simp

theorem drives_kept {line : Option Bool} {value : Word} (h : Drives line value) : Drives line (value &&& 7#32) := by
  obtain ⟨hdrive, hbit⟩ := h
  refine ⟨?_, fun bit hmem ↦ ?_⟩
  · rw [← hdrive]
    simp
  · rw [← hbit bit hmem]
    simp

/-- A PIR write that leaves MDC as it is. -/
theorem call_stays {level : Bool} {value : Word} (hlevel : Level level value) (hnow : b.phy.pir.getLsbD 0 = level) :
    b.call (.pir value) = .ok { b with phy := { b.phy with pir := value &&& 7#32 } } := by
  obtain ⟨hvalid, hlevel⟩ := hlevel
  have hwrite : b.phy.pirWrite value = some ({ b.phy with pir := value &&& 7#32 }, []) := by
    unfold Phy.pirWrite
    rw [if_neg (not_not.mpr hvalid), hnow, hlevel]
    cases level with
    | false => rfl
    | true => rfl
  simp only [Bench.call, hwrite, List.map_nil, List.append_nil]

theorem call_falls {value : Word} (hlevel : Level false value) (hnow : b.phy.pir.getLsbD 0 = true) :
    b.phy.pirWrite value = b.phy.fallingEdge.map fun x ↦ ({ x.1 with pir := value &&& 7#32 }, x.2) := by
  obtain ⟨hvalid, hlevel⟩ := hlevel
  unfold Phy.pirWrite
  rw [if_neg (not_not.mpr hvalid), hnow, hlevel]
  rfl

theorem call_rises {line : Option Bool} {value : Word} (hlevel : Level true value) (hdrives : Drives line value)
    (hnow : b.phy.pir.getLsbD 0 = false) :
    b.phy.pirWrite value = (b.phy.clockBit line.isSome (line.getD true)).map
      fun x ↦ ({ x.1 with pir := value &&& 7#32 }, x.2) := by
  obtain ⟨hvalid, hlevel⟩ := hlevel
  obtain ⟨hdrive, hbit⟩ := hdrives
  have hline : (if value.getLsbD 1 then value.getLsbD 2 else true) = line.getD true := by
    rw [hdrive]
    cases line with
    | none => rfl
    | some bit => exact hbit bit rfl
  unfold Phy.pirWrite
  rw [if_neg (not_not.mpr hvalid), hnow, hlevel, hline, hdrive]
  rfl

/-- The bench after calls that make no edge. -/
structure Steady (b b' : Bench) : Prop where
  serial : b'.phy.serial = b.phy.serial
  made : accesses b'.log = accesses b.log
  seen : b'.seen = b.seen

theorem Steady.refl (b : Bench) : Steady b b := ⟨rfl, rfl, rfl⟩

theorem Steady.trans {b c d : Bench} (h : Steady b c) (k : Steady c d) : Steady b d :=
  ⟨k.serial.trans h.serial, k.made.trans h.made, k.seen.trans h.seen⟩

theorem steady_advance (b : Bench) (now : ℕ) : ∃ b', b.call (.advance now) = .ok b' ∧ Steady b b' ∧
    b'.phy.pir = b.phy.pir := by
  refine ⟨_, rfl, ⟨rfl, ?_, rfl⟩, rfl⟩
  rw [accesses_append]
  exact List.append_nil _

theorem calls_stay {level : Bool} (hlevels : ∀ value ∈ pirs events, Level level value)
    (hnow : b.phy.pir.getLsbD 0 = level) :
    ∃ b', b.calls events = .ok b' ∧ Steady b b' ∧ b'.phy.pir.getLsbD 0 = level ∧
      b'.phy.pir = ((pirs events).getLast?.map (· &&& 7#32)).getD b.phy.pir := by
  induction events generalizing b with
  | nil => exact ⟨b, rfl, .refl b, hnow, rfl⟩
  | cons e events ih =>
    cases e with
    | advance now =>
      obtain ⟨c, hcall, hsteady, hpir⟩ := steady_advance b now
      obtain ⟨d, hrest, hsteady', hlevel, hlast⟩ := ih hlevels (by rwa [hpir])
      refine ⟨d, ?_, hsteady.trans hsteady', hlevel, by rw [hlast, hpir]; rfl⟩
      unfold Bench.calls
      rw [List.foldlM_cons, hcall]
      exact hrest
    | pir value =>
      have hmem : value ∈ pirs (.pir value :: events) := List.mem_cons_self
      have hlevel := hlevels value hmem
      have hcall := call_stays hlevel hnow
      obtain ⟨d, hrest, hsteady, hafter, hlast⟩ := ih (b := { b with phy := { b.phy with pir := value &&& 7#32 } })
        (fun v hv ↦ hlevels v (List.mem_cons_of_mem value hv)) ((level_kept value).trans hlevel.2)
      refine ⟨d, ?_, ⟨hsteady.serial, hsteady.made, hsteady.seen⟩, hafter, ?_⟩
      · unfold Bench.calls
        rw [List.foldlM_cons, hcall]
        exact hrest
      · rw [hlast]
        change _ = ((value :: pirs events).getLast?.map _).getD _
        rw [List.getLast?_cons]
        cases (pirs events).getLast? with
        | none => rfl
        | some last => rfl

def Edge (P : Serial → List Access → Prop) (E : Prop) : Option (Phy × List Access) → Prop
  | none => E
  | some (s, made) => P s.serial made

theorem Edge.map {P : Serial → List Access → Prop} {E : Prop} {x : Option (Phy × List Access)} (h : Edge P E x)
    (pir : Word) : Edge P E (x.map fun y ↦ ({ y.1 with pir }, y.2)) := by
  cases x with
  | none => exact h
  | some y => exact h

theorem call_edge {P : Serial → List Access → Prop} {E : Phy → Prop}
    {edge : Option (Phy × List Access)} {value : Word}
    (hwrite : b.phy.pirWrite value = edge.map fun x ↦ ({ x.1 with pir := value &&& 7#32 }, x.2))
    (hedge : Edge P (E b.phy) edge) :
    Yields (fun b' ↦ ∃ made, P b'.phy.serial made ∧ accesses b'.log = accesses b.log ++ made ∧
      b'.seen = b.seen ∧
      b'.phy.pir = value &&& 7#32) E (b.call (.pir value)) := by
  cases edge with
  | none =>
    simp only [Bench.call, hwrite, Option.map_none]
    exact hedge
  | some x =>
    obtain ⟨s, made⟩ := x
    simp only [Bench.call, hwrite, Option.map_some]
    exact ⟨made, hedge, by rw [accesses_append, accesses_made], rfl, rfl⟩

theorem calls_edge {level : Bool} {P : Serial → List Access → Prop} {E : Phy → Prop}
    (hlevels : ∀ value ∈ pirs events, Level level value) (hne : pirs events ≠ [])
    (hedge : ∀ c : Bench, c.phy.serial = b.phy.serial → c.phy.pir = b.phy.pir → ∀ value ∈ pirs events,
      Yields (fun c' ↦ ∃ made, P c'.phy.serial made ∧ accesses c'.log = accesses c.log ++ made ∧
        c'.seen = c.seen ∧
        c'.phy.pir = value &&& 7#32) E (c.call (.pir value))) :
    Yields (fun b' ↦ ∃ made, P b'.phy.serial made ∧ accesses b'.log = accesses b.log ++ made ∧
      b'.seen = b.seen ∧
      b'.phy.pir.getLsbD 0 = level ∧ ∃ value ∈ (pirs events).getLast?, b'.phy.pir = value &&& 7#32)
      E (b.calls events) := by
  induction events generalizing b with
  | nil => exact absurd rfl hne
  | cons e events ih =>
    unfold Bench.calls
    rw [List.foldlM_cons]
    cases e with
    | advance now =>
      obtain ⟨c, hcall, hsteady, hpir⟩ := steady_advance b now
      rw [hcall]
      have hrest := ih (b := c) hlevels hne fun d hserial hsame ↦
        hedge d (hserial.trans hsteady.serial) (hsame.trans hpir)
      refine hrest.mono fun d hd ↦ ?_
      rw [hsteady.made, hsteady.seen] at hd
      exact hd
    | pir value =>
      have hmem : value ∈ pirs (.pir value :: events) := List.mem_cons_self
      refine (hedge b rfl rfl value hmem).bind fun c hc ↦ ?_
      obtain ⟨made, hP, hmade, hseen, hpir⟩ := hc
      have hlevel : c.phy.pir.getLsbD 0 = level := by
        rw [hpir, level_kept]
        exact (hlevels value hmem).2
      obtain ⟨d, hrest, hsteady, hafter, hlast⟩ := @calls_stay c events level
        (fun v hv ↦ hlevels v (List.mem_cons_of_mem value hv)) hlevel
      unfold Bench.calls at hrest
      rw [hrest]
      refine ⟨made, ?_, hsteady.made.trans hmade, hsteady.seen.trans hseen, hafter, ?_⟩
      · rw [hsteady.serial]
        exact hP
      · change ∃ v ∈ (value :: pirs events).getLast?, _
        rw [List.getLast?_cons, hlast]
        refine ⟨_, rfl, ?_⟩
        cases (pirs events).getLast? with
        | none => exact hpir
        | some last => rfl

end Calls

section Cells

variable {b : Bench} {c : Cell} {line : Option Bool} {P : Serial → List Access → Prop} {E : Phy → Prop}

theorem low_yields (hcarries : c.Carries line) (hlow : b.phy.pir.getLsbD 0 = false → P b.phy.serial [])
    (hfall : ∀ s : Phy, s.serial = b.phy.serial → Edge P (E s) s.fallingEdge) :
    Yields (fun b' ↦ ∃ made, P b'.phy.serial made ∧ accesses b'.log = accesses b.log ++ made ∧
      b'.seen = b.seen ∧
      b'.phy.pir.getLsbD 0 = false ∧ ∃ value ∈ (pirs c.low).getLast?, b'.phy.pir = value &&& 7#32)
      E (b.calls c.low) := by
  have hne : pirs c.low ≠ [] := by
    intro hnil
    obtain ⟨value, hlast, -⟩ := hcarries.ready
    rw [hnil] at hlast
    cases hlast
  refine calls_edge hcarries.low hne fun d hserial hpir value hvalue ↦ ?_
  cases hlevel : b.phy.pir.getLsbD 0 with
  | false =>
    rw [call_stays (hcarries.low value hvalue) (by rwa [hpir])]
    refine ⟨[], ?_, (List.append_nil _).symm, rfl, rfl⟩
    rw [← hserial] at hlow
    exact hlow hlevel
  | true => exact call_edge (call_falls (hcarries.low value hvalue) (by rwa [hpir])) (hfall d.phy hserial)

theorem high_yields (hcarries : c.Carries line) (hlevel : b.phy.pir.getLsbD 0 = false)
    (hrise : ∀ s : Phy, s.serial = b.phy.serial → Edge P (E s) (s.clockBit line.isSome (line.getD true))) :
    Yields (fun b' ↦ ∃ made, P b'.phy.serial made ∧ accesses b'.log = accesses b.log ++ made ∧
      b'.seen = b.seen ∧
      b'.phy.pir.getLsbD 0 = true ∧ ∃ value ∈ (pirs c.high).getLast?, b'.phy.pir = value &&& 7#32)
      E (b.calls c.high) :=
  calls_edge (fun value hvalue ↦ (hcarries.high value hvalue).1) hcarries.rises fun d hserial hpir value hvalue ↦
    call_edge (call_rises (hcarries.high value hvalue).1 (hcarries.high value hvalue).2 (by rwa [hpir]))
      (hrise d.phy hserial)

theorem sample_eq {value : Word} (hdrives : Drives line value) (hpir : b.phy.pir = value &&& 7#32) :
    b.sample = line.getD b.phy.serial.mdi := by
  obtain ⟨hdrive, hbit⟩ := drives_kept hdrives
  rw [← hpir] at hdrive hbit
  have hvalue : b.sample = if b.phy.pir.getLsbD 1 then b.phy.pir.getLsbD 2 else b.phy.serial.mdi := by
    have hthird : b.phy.pir.getLsbD 3 = false := by
      rw [hpir]
      simp
    have hshift (bit : Bool) : (bitWord bit <<< 3).getLsbD 3 = bit := by
      cases bit with
      | false => rfl
      | true => rfl
    unfold Bench.sample Phy.pirRead
    rw [BitVec.getLsbD_or, hthird, hshift, Bool.false_or]
  rw [hvalue, hdrive]
  cases line with
  | none => rfl
  | some bit => exact hbit bit rfl

/-- One bit: what holds after MDC's fall, then after its rise, and what the master samples. -/
theorem cell_yields {Q : Serial → List Access → Bool → Prop} (hcarries : c.Carries line)
    (hlow : b.phy.pir.getLsbD 0 = false → P b.phy.serial [])
    (hfall : ∀ s : Phy, s.serial = b.phy.serial → Edge P (E s) s.fallingEdge)
    (hrise : ∀ (s : Phy) made, P s.serial made → Edge
      (fun σ made' ↦ σ.mdi = s.serial.mdi ∧ Q σ (made ++ made') (line.getD σ.mdi)) (E s)
      (s.clockBit line.isSome (line.getD true))) :
    Yields (fun b' ↦ ∃ made x, Q b'.phy.serial made x ∧ accesses b'.log = accesses b.log ++ made ∧
      b'.seen = b.seen ++ [(x, x)] ∧ b'.phy.pir.getLsbD 0 = true) E (b.cell c) := by
  refine (low_yields hcarries hlow hfall).bind fun d hd ↦ ?_
  obtain ⟨made, hP, hmade, hseen, hlevel, value, hvalue, hpir⟩ := hd
  obtain ⟨last, hlast, hready⟩ := hcarries.ready
  have hsame : last = value := Option.some_inj.mp (hlast.symm.trans hvalue)
  have hbefore : d.sample = line.getD d.phy.serial.mdi := sample_eq (hsame ▸ hready) hpir
  refine (high_yields hcarries hlevel fun s hserial ↦ hserial ▸ hrise s made (hserial ▸ hP)).bind fun e he ↦ ?_
  obtain ⟨made', ⟨hmdi, hQ⟩, hmade', hseen', hlevel', value', hvalue', hpir'⟩ := he
  have hafter : e.sample = line.getD e.phy.serial.mdi :=
    sample_eq (hcarries.high value' (List.mem_of_getLast? hvalue')).2 hpir'
  refine ⟨made ++ made', _, hQ, by rw [hmade', hmade, List.append_assoc], ?_, hlevel'⟩
  rw [hbefore, hafter, hseen', hseen, hmdi]

end Cells

end Cdj2000Emulator.Rtl8201fl
