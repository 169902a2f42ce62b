import Cdj2000Emulator.Dmac.Model
import Cdj2000Emulator.Library.PieceCopy

namespace Cdj2000Emulator.Dmac

open Library.PieceCopy

/-- What the bus reads, as bytes. -/
abbrev Memory := ℤ → BitVec 8

def dmaChunk : ℕ := 4096

/-- `source`, `destination` and the memory in the copy loop of `cdj_dmac_run`. -/
structure Copying where
  source : ℤ
  destination : ℤ
  memory : Memory

namespace Channel

/-- An end after a chunk: 0 = fixed, 1 = increment, 2 = decrement. -/
def moved (mode : Word) (address : ℤ) (chunk : ℕ) : ℤ :=
  if mode = 1 then address + chunk else if mode = 2 then address - chunk else address

variable (ch : Channel)

def copyTurn (chunk : ℕ) (t : Copying) : Copying where
  source := moved ch.sourceMode t.source chunk
  destination := moved ch.destinationMode t.destination chunk
  memory := move t.source t.destination chunk t.memory

/-- Incrementing copies are done in bulk, other address modes one transfer unit at a time. -/
def chunk (remaining : ℕ) : ℕ :=
  if ch.sourceMode ≠ 1 ∨ ch.destinationMode ≠ 1 then ch.unit.toNat
  else if remaining < dmaChunk then remaining else dmaChunk

variable {ch}

theorem unit_cases (ch : Channel) : ch.unit.toNat = 4 ∨ ch.unit.toNat = 16 := by
  unfold unit
  split_ifs
  · exact .inl rfl
  · exact .inr rfl

theorem unit_pos : 0 < ch.unit.toNat := by have := ch.unit_cases; omega

theorem chunk_pos {remaining : ℕ} (hr : remaining ≠ 0) : 0 < ch.chunk remaining := by
  unfold chunk
  split_ifs
  · exact unit_pos
  · omega
  · decide

variable (ch)

/-- The copy loop of `cdj_dmac_run`. -/
def copyLoop (remaining : ℕ) (t : Copying) : Copying :=
  if _h : remaining = 0 then t
  else copyLoop (remaining - ch.chunk remaining) (ch.copyTurn (ch.chunk remaining) t)
termination_by remaining
decreasing_by
  have : 0 < ch.chunk remaining := chunk_pos _h
  omega

def copyStart (m : Memory) : Copying := ⟨(phys ch.sar).toNat, (phys ch.dar).toNat, m⟩

def copyEnd (t : Copying) : Memory × Channel :=
  (t.memory, { ch with role := ch.roleOf }.complete (BitVec.ofInt 32 t.source) (BitVec.ofInt 32 t.destination))

/-- A copy as `cdj_dmac_run` does it. -/
def copy (m : Memory) : Memory × Channel :=
  ch.copyEnd (ch.copyLoop (ch.tcr.toNat * ch.unit.toNat) (ch.copyStart m))

def copyUnits (m : Memory) : Memory × Channel :=
  ch.copyEnd ((ch.copyTurn ch.unit.toNat)^[ch.tcr.toNat] (ch.copyStart m))

variable {ch} {n c u : ℕ} {t : Copying}

theorem copyLoop_zero : ch.copyLoop 0 t = t := by rw [copyLoop, dif_pos rfl]

theorem copyLoop_of_pos (h : n ≠ 0) : ch.copyLoop n t = ch.copyLoop (n - ch.chunk n)
    (ch.copyTurn (ch.chunk n) t) := by
  rw [copyLoop, dif_neg h]

theorem copyLoop_single (h : ch.sourceMode ≠ 1 ∨ ch.destinationMode ≠ 1) :
    ch.copyLoop (n * ch.unit.toNat) t = (ch.copyTurn ch.unit.toNat)^[n] t := by
  induction n generalizing t with
  | zero => rw [Nat.zero_mul, copyLoop_zero, Function.iterate_zero_apply]
  | succ n ih =>
    have single : ch.chunk ((n + 1) * ch.unit.toNat) = ch.unit.toNat := if_pos h
    have more : (n + 1) * ch.unit.toNat ≠ 0 := Nat.mul_ne_zero (Nat.succ_ne_zero n) (Nat.ne_of_gt unit_pos)
    rw [copyLoop_of_pos more, single, Nat.add_mul, Nat.one_mul, Nat.add_sub_cancel, ih, Function.iterate_succ_apply]

section Bulk

variable (hs : ch.sourceMode = 1) (hd : ch.destinationMode = 1)

include hs hd

theorem copyTurn_bulk :
    ch.copyTurn c t = ⟨t.source + c, t.destination + c, move t.source t.destination c t.memory⟩ := by
  unfold copyTurn moved
  rw [if_pos hs, if_pos hd]

theorem copyLoop_bulk : ch.copyLoop n t =
    ⟨t.source + n, t.destination + n, pieces dmaChunk t.source t.destination n t.memory⟩ := by
  induction n using Nat.strong_induction_on generalizing t with
  | h n ih =>
    by_cases hn : n = 0
    · subst hn
      rw [copyLoop_zero, pieces_zero, Nat.cast_zero, Int.add_zero, Int.add_zero]
    · have size : ch.chunk n = min dmaChunk n := by
        unfold chunk
        rw [if_neg (by rw [hs, hd]; decide)]
        split_ifs <;> omega
      have some : 0 < min dmaChunk n := Nat.lt_min.mpr ⟨by decide, Nat.pos_of_ne_zero hn⟩
      rw [copyLoop_of_pos hn, size, copyTurn_bulk hs hd, ih _ (by omega),
        pieces_of_pos (by decide) (Nat.pos_of_ne_zero hn)]
      have total (a : ℤ) : a + (min dmaChunk n : ℕ) + ((n - min dmaChunk n : ℕ) : ℤ) = a + n := by omega
      rw [total, total]

theorem copyTurns_bulk (hu : 0 < u) : (ch.copyTurn u)^[n] t =
    ⟨t.source + (n * u : ℕ), t.destination + (n * u : ℕ),
      pieces u t.source t.destination (n * u) t.memory⟩ := by
  induction n generalizing t with
  | zero =>
    rw [Function.iterate_zero_apply, Nat.zero_mul, pieces_zero, Nat.cast_zero, Int.add_zero, Int.add_zero]
  | succ n ih =>
    have first : min u ((n + 1) * u) = u := Nat.min_eq_left (Nat.le_mul_of_pos_left u (Nat.succ_pos n))
    have rest : (n + 1) * u - u = n * u := by rw [Nat.add_mul, Nat.one_mul, Nat.add_sub_cancel]
    have total (a : ℤ) : a + u + (n * u : ℕ) = a + ((n + 1) * u : ℕ) := by
      rw [Nat.add_mul, Nat.one_mul, Nat.cast_add]
      omega
    rw [Function.iterate_succ_apply, copyTurn_bulk hs hd, ih, pieces_of_pos hu (Nat.mul_pos (Nat.succ_pos n) hu), first,
      rest, total, total]

end Bulk

theorem moved_moved (mode : Word) (a : ℤ) (b c : ℕ) : moved mode (moved mode a b) c = moved mode a (b + c) := by
  unfold moved
  split_ifs <;> omega

theorem copyTurns_ends : ((ch.copyTurn u)^[n] t).source = moved ch.sourceMode t.source (n * u) ∧
    ((ch.copyTurn u)^[n] t).destination = moved ch.destinationMode t.destination (n * u) := by
  induction n generalizing t with
  | zero =>
    unfold moved
    rw [Function.iterate_zero_apply, Nat.zero_mul, Nat.cast_zero]
    split_ifs <;> omega
  | succ n ih =>
    obtain ⟨source, destination⟩ := ih (t := ch.copyTurn u t)
    rw [Function.iterate_succ_apply, source, destination]
    change moved _ (moved _ t.source u) (n * u) = _ ∧ moved _ (moved _ t.destination u) (n * u) = _
    rw [moved_moved, moved_moved, Nat.add_comm u, Nat.add_mul, Nat.one_mul]
    exact ⟨rfl, rfl⟩

theorem copyLoop_ends : (ch.copyLoop (n * ch.unit.toNat) t).source =
    moved ch.sourceMode t.source (n * ch.unit.toNat) ∧
    (ch.copyLoop (n * ch.unit.toNat) t).destination = moved ch.destinationMode t.destination (n * ch.unit.toNat) := by
  by_cases single : ch.sourceMode ≠ 1 ∨ ch.destinationMode ≠ 1
  · rw [copyLoop_single single]
    exact copyTurns_ends
  · obtain ⟨hs, hd⟩ := not_or.mp single
    rw [not_not] at hs hd
    rw [copyLoop_bulk hs hd, moved, if_pos hs, moved, if_pos hd]
    exact ⟨rfl, rfl⟩

theorem ofInt_moved (mode address count unit : Word) :
    BitVec.ofInt 32 (moved mode address.toNat (count.toNat * unit.toNat)) = advance mode address (count * unit) := by
  have total : BitVec.ofNat 32 (count.toNat * unit.toNat) = count * unit := by
    rw [BitVec.ofNat_mul, BitVec.ofNat_toNat, BitVec.ofNat_toNat, BitVec.setWidth_eq, BitVec.setWidth_eq]
  have start : BitVec.ofInt 32 (address.toNat : ℤ) = address := by
    rw [BitVec.ofInt_natCast, BitVec.ofNat_toNat, BitVec.setWidth_eq]
  unfold moved advance
  split_ifs
  · rw [BitVec.ofInt_add, start, BitVec.ofInt_natCast, total]
  · rw [Int.sub_eq_add_neg, BitVec.ofInt_add, BitVec.ofInt_neg, start, BitVec.ofInt_natCast, total,
      BitVec.sub_eq_add_neg]
  · exact start

/-- The channel after a transfer of `tcr` units. -/
def whole (ch : Channel) : Channel :=
  { ch with role := ch.roleOf }.complete (advance ch.sourceMode (phys ch.sar) (ch.tcr * ch.unit))
    (advance ch.destinationMode (phys ch.dar) (ch.tcr * ch.unit))

theorem copyEnd_registers
    (source : t.source = moved ch.sourceMode (phys ch.sar).toNat (ch.tcr.toNat * ch.unit.toNat))
    (destination : t.destination = moved ch.destinationMode (phys ch.dar).toNat (ch.tcr.toNat * ch.unit.toNat)) :
    (ch.copyEnd t).2 = ch.whole := by
  rw [copyEnd, source, destination, ofInt_moved, ofInt_moved]
  rfl

theorem copy_registers (m : Memory) : (ch.copy m).2 = ch.whole := by
  obtain ⟨source, destination⟩ := copyLoop_ends (n := ch.tcr.toNat) (t := ch.copyStart m)
  exact copyEnd_registers source destination

theorem copyUnits_registers (m : Memory) : (ch.copyUnits m).2 = ch.whole := by
  obtain ⟨source, destination⟩ := copyTurns_ends (u := ch.unit.toNat) (n := ch.tcr.toNat) (t := ch.copyStart m)
  exact copyEnd_registers source destination

end Channel

theorem State.run_copy {s : State} {c : Index} {window : Bool} (h : s.transfer (s.channel c) = .copy window)
    (answer : Option Word) (m : Memory) : s.run c answer =
      if window then (s.setChannel c ((s.channel c).copy m).2).dspIrq c
        else s.setChannel c ((s.channel c).copy m).2 := by
  unfold State.run
  dsimp only
  rw [h, Channel.copy_registers]
  rfl

namespace Channel

theorem copies_eq_iff (ch : Channel) : (∀ m, ch.copy m = ch.copyUnits m) ↔
    ch.sourceMode ≠ 1 ∨ ch.destinationMode ≠ 1 ∨ (phys ch.dar).toNat ≤ (phys ch.sar).toNat ∨
      (phys ch.sar).toNat + dmaChunk ≤ (phys ch.dar).toNat ∨
      ch.tcr.toNat * ch.unit.toNat ≤ max ((phys ch.dar).toNat - (phys ch.sar).toNat) ch.unit.toNat := by
  by_cases single : ch.sourceMode ≠ 1 ∨ ch.destinationMode ≠ 1
  · refine iff_of_true (fun m ↦ ?_) (single.elim .inl fun h ↦ .inr (.inl h))
    rw [copy, copyLoop_single single, copyUnits]
  · obtain ⟨hs, hd⟩ := not_or.mp single
    rw [not_not] at hs hd
    have small : ch.unit.toNat < dmaChunk ∧ ch.unit.toNat ∣ dmaChunk := by
      rcases ch.unit_cases with h | h <;> rw [h] <;> decide
    have : Nontrivial (BitVec 8) := ⟨0, 1, by decide⟩
    have memories : (∀ m, ch.copy m = ch.copyUnits m) ↔ ∀ m : Memory,
        pieces dmaChunk (phys ch.sar).toNat (phys ch.dar).toNat (ch.tcr.toNat * ch.unit.toNat) m =
          pieces ch.unit.toNat (phys ch.sar).toNat (phys ch.dar).toNat (ch.tcr.toNat * ch.unit.toNat) m := by
      refine forall_congr' fun m ↦ ?_
      rw [copy, copyUnits, copyLoop_bulk hs hd, copyTurns_bulk hs hd unit_pos]
      constructor
      · exact fun h ↦ congrArg Prod.fst h
      · intro h
        change ch.copyEnd ⟨_, _, pieces dmaChunk (phys ch.sar).toNat (phys ch.dar).toNat _ m⟩ = _
        rw [h]
        rfl
    rw [memories, pieces_eq_iff unit_pos small.1 small.2, or_iff_right (not_not.mpr hs), or_iff_right (not_not.mpr hd)]
    generalize ch.tcr.toNat * ch.unit.toNat = total
    omega

/-- The bulk copy leaves the memory and the registers of a copy unit by unit, whatever is in the memory, unless both
ends are incremented, the destination starts inside the first chunk above the source, and the copy goes on beyond.
SAR and DAR end behind the whole transfer in any case, and a start of the channel leaves them so. -/
theorem copy_eq_copyUnits_iff (ch : Channel) :
    ((∀ m, ch.copy m = ch.copyUnits m) ↔
      ch.sourceMode ≠ 1 ∨ ch.destinationMode ≠ 1 ∨ (phys ch.dar).toNat ≤ (phys ch.sar).toNat ∨
        (phys ch.sar).toNat + dmaChunk ≤ (phys ch.dar).toNat ∨
        ch.tcr.toNat * ch.unit.toNat ≤ max ((phys ch.dar).toNat - (phys ch.sar).toNat) ch.unit.toNat) ∧
    (∀ m, (ch.copy m).2 = ch.whole ∧ (ch.copyUnits m).2 = ch.whole) ∧
    ∀ (s : State) (c : Index) (window : Bool) (answer : Option Word) (m : Memory),
      s.transfer (s.channel c) = .copy window → s.channel c = ch →
        s.run c answer =
          if window then (s.setChannel c (ch.copy m).2).dspIrq c else s.setChannel c (ch.copy m).2 := by
  refine ⟨ch.copies_eq_iff, fun m ↦ ⟨copy_registers m, copyUnits_registers m⟩,
    fun s c window answer m h same ↦ ?_⟩
  subst same
  exact State.run_copy h answer m

/-- Two longwords in SDRAM, copied to four bytes above. -/
def shifted : Channel where
  sar := 0x04000000
  dar := 0x04000004
  tcr := 2
  chcr := 0x5001
  role := .plain
  armed := false

/-- Unit by unit the second longword is the first one again; in bulk it is the one that stood there. -/
theorem shifted_differs : (State.init true false).transfer shifted = .copy false ∧
    ∃ m, (shifted.copyUnits m).1 0x04000008 = 1 ∧ (shifted.copy m).1 0x04000008 = 0 :=
  ⟨rfl, fun a ↦ if a = 0x04000000 then 1 else 0, by decide +kernel, by decide +kernel⟩

end Channel

end Cdj2000Emulator.Dmac
