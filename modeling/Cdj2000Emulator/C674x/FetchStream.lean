import Cdj2000Emulator.C674x.Fetch
import Mathlib.Algebra.Group.Nat.Defs
import Mathlib.Data.List.Basic

namespace Cdj2000Emulator.C674x.FetchStream

open Library.Stateful State Transfer Execute Fetch

abbrev Image := Word → Option Word

/-- The place of an address in its fetch packet. -/
def position (a : Word) : ℕ := a.toNat % 32

def headerAddress (a : Word) : Word := (a &&& ~~~31#32) + 28

def mixed (header : Word) : Bool := header >>> 28 = 14#32

def halved (header : Word) (place : ℕ) : Bool := mixed header && header.getLsbD (21 + place / 4)

/-- An instruction of the image, its p-bit, and the distance to the next one. -/
structure Slot where
  insn : Instruction
  parallel : Bool
  reach : ℕ

def reach (header : Word) (place size : ℕ) : ℕ :=
  if mixed header ∧ (place + size) % 32 = 28 then size + 4 else size

def insnOf (a header word : Word) : Instruction :=
  if halved header (position a) then ⟨(word >>> ((a &&& 2#32).toNat * 8)) &&& 0xffff#32, a, header, true⟩
  else ⟨word, a, if mixed header then header else 0, false⟩

def parallelOf (a header word : Word) : Bool :=
  if halved header (position a) then header.getLsbD (position a / 2) else word.getLsbD 0

def sizeOf (a header : Word) : ℕ := if halved header (position a) then 2 else 4

def slotAt (image : Image) (a : Word) : Option Slot :=
  match image (headerAddress a) with
  | none => none
  | some header =>
    if position a % 2 = 1 ∨ mixed header ∧ 28 ≤ position a then none
    else if halved header (position a) ∨ position a % 4 = 0 then
      (image (a &&& ~~~3#32)).map fun word : Word ↦
        ⟨insnOf a header word, parallelOf a header word, reach header (position a) (sizeOf a header)⟩
    else none

def AtHeader (image : Image) (a : Word) : Prop :=
  position a = 28 ∧ ∃ header, image (headerAddress a) = some header ∧ mixed header

/-- The instructions that stand at the first `n` addresses from `a`, in address order. -/
def slotsIn (image : Image) (a : Word) (n : ℕ) : List Slot :=
  (List.range n).filterMap fun i ↦ slotAt image (a + BitVec.ofNat 32 i)

section Places

variable {image : Image} {a : Word} {header : Word} {slot : Slot} {m n k : ℕ}

theorem block_toNat (a : Word) : (a &&& ~~~31#32).toNat = a.toNat / 32 * 32 := by
  have hmask : ∀ i : Fin 32, (31#32).getLsbD i = decide (i.val < 5) := by decide
  have hshift : a &&& ~~~31#32 = (a >>> 5) <<< 5 := by
    refine BitVec.eq_of_getLsbD_eq fun i hi ↦ ?_
    rw [BitVec.getLsbD_and, BitVec.getLsbD_not, hmask ⟨i, hi⟩, BitVec.getLsbD_shiftLeft, BitVec.getLsbD_ushiftRight]
    by_cases hlow : i < 5
    · simp [hlow]
    · simp [hlow, hi, show 5 + (i - 5) = i by omega]
  have := a.isLt
  rw [hshift, BitVec.toNat_shiftLeft, BitVec.toNat_ushiftRight, Nat.shiftLeft_eq, Nat.shiftRight_eq_div_pow]
  omega

theorem headerAddress_toNat (a : Word) : (headerAddress a).toNat = a.toNat / 32 * 32 + 28 := by
  have := a.isLt
  unfold headerAddress
  rw [BitVec.toNat_add, block_toNat]
  simp only [BitVec.ofNat_eq_ofNat, BitVec.toNat_ofNat]
  omega

theorem position_add (h : position a + n < 32) :
    position (a + BitVec.ofNat 32 n) = position a + n ∧ headerAddress (a + BitVec.ofNat 32 n) = headerAddress a := by
  have := a.isLt
  unfold position at h ⊢
  have hsum : (a + BitVec.ofNat 32 n).toNat = a.toNat + n := by
    rw [BitVec.toNat_add, BitVec.toNat_ofNat]
    omega
  refine ⟨by omega, BitVec.eq_of_toNat_eq ?_⟩
  rw [headerAddress_toNat, headerAddress_toNat, hsum]
  omega

theorem position_wrap (h : position a + n = 32) : position (a + BitVec.ofNat 32 n) = 0 := by
  unfold position at h ⊢
  rw [BitVec.toNat_add, BitVec.toNat_ofNat]
  omega

theorem slotsIn_add (m n : ℕ) :
    slotsIn image a (m + n) = slotsIn image a m ++ slotsIn image (a + BitVec.ofNat 32 m) n := by
  unfold slotsIn
  rw [List.range_add, List.filterMap_append, List.filterMap_map]
  congr 2
  funext i
  rw [Function.comp_apply, BitVec.ofNat_add, BitVec.add_assoc]

/-- Nothing stands at these addresses. -/
theorem slotsIn_none (h : ∀ i < n, slotAt image (a + BitVec.ofNat 32 i) = none) : slotsIn image a n = [] := by
  unfold slotsIn
  rw [List.filterMap_eq_nil_iff]
  intro i hi
  exact h i (List.mem_range.mp hi)

theorem slotAt_inside (hheader : image (headerAddress a) = some header) (hn : position a + n < 32)
    (h : (position a + n) % 2 = 1 ∨ (mixed header ∧ 28 ≤ position a + n) ∨
      (halved header (position a) = false ∧ (position a + n) / 4 = position a / 4 ∧ (position a + n) % 4 ≠ 0)) :
    slotAt image (a + BitVec.ofNat 32 n) = none := by
  obtain ⟨hplace, hblock⟩ := position_add hn
  unfold slotAt
  rw [hblock, hheader, hplace]
  simp only
  rcases h with hodd | hlast | ⟨hfull, hsame, hunaligned⟩
  · exact if_pos (.inl hodd)
  · exact if_pos (.inr hlast)
  · have hfull : halved header (position a + n) = false := by
      unfold halved at hfull ⊢
      rwa [hsame]
    simp [hfull, hunaligned]

theorem slotAt_place (h : slotAt image a = some slot) :
    ∃ header size, image (headerAddress a) = some header ∧ slot.reach = reach header (position a) size ∧
      position a % 2 = 0 ∧ (mixed header → position a < 28) ∧
      (size = 2 ∧ mixed header ∨ size = 4 ∧ position a % 4 = 0 ∧ halved header (position a) = false) := by
  unfold slotAt at h
  split at h
  next => cases h
  next header hheader =>
    rw [ite_eq_iff] at h
    obtain ⟨-, h⟩ | ⟨hnone, h⟩ := h
    · cases h
    have hbelow : mixed header → position a < 28 := fun hmixed ↦ by
      simp only [hmixed, true_and] at hnone
      omega
    rw [ite_eq_iff] at h
    obtain ⟨hplace, h⟩ | ⟨-, h⟩ := h
    · obtain ⟨word, -, rfl⟩ := Option.map_eq_some_iff.mp h
      refine ⟨header, sizeOf a header, hheader, rfl, by omega, hbelow, ?_⟩
      unfold sizeOf
      cases hhalf : halved header (position a) with
      | true =>
        refine .inl ⟨rfl, ?_⟩
        unfold halved at hhalf
        exact (Bool.and_eq_true_iff.mp hhalf).1
      | false => exact .inr ⟨rfl, hplace.resolve_left (by simp [hhalf]), rfl⟩
    · cases h

theorem slotsIn_single (h : slotAt image a = some slot) (hn : 0 < n)
    (hrest : ∀ i < n, 0 < i → slotAt image (a + BitVec.ofNat 32 i) = none) : slotsIn image a n = [slot] := by
  obtain ⟨n, rfl⟩ : ∃ m, n = 1 + m := ⟨n - 1, by omega⟩
  rw [slotsIn_add, slotsIn_none (n := n)]
  · simp [slotsIn, h]
  · intro i hi
    have := hrest (1 + i) (by omega) (by omega)
    rwa [BitVec.ofNat_add, ← BitVec.add_assoc] at this

theorem slot_alone (h : slotAt image a = some slot) :
    slotsIn image a slot.reach = [slot] ∧ ¬AtHeader image (a + BitVec.ofNat 32 slot.reach) := by
  obtain ⟨header, size, hheader, hreach, heven, hbelow, hsize⟩ := slotAt_place h
  have hlt : position a < 32 := Nat.mod_lt _ (by omega)
  have hown : slotsIn image a size = [slot] := by
    refine slotsIn_single h (by omega) fun i hi hpos ↦ slotAt_inside hheader (by omega) ?_
    rcases hsize with ⟨rfl, -⟩ | ⟨rfl, haligned, hfull⟩
    · exact .inl (by omega)
    · by_cases hodd : (position a + i) % 2 = 1
      · exact .inl hodd
      · exact .inr (.inr ⟨hfull, by omega, by omega⟩)
  rw [hreach]
  unfold reach
  split_ifs with hskip
  · obtain ⟨hmixed, hend⟩ := hskip
    have := hbelow hmixed
    obtain ⟨hplace, hblock⟩ := position_add (a := a) (n := size) (by omega)
    refine ⟨?_, fun hat ↦ ?_⟩
    · rw [slotsIn_add, hown, slotsIn_none]
      · rfl
      · intro i hi
        refine slotAt_inside (show image (headerAddress _) = some header by rw [hblock, hheader]) (by omega)
          (.inr (.inl ⟨hmixed, ?_⟩))
        rw [hplace]
        omega
    · have hzero : position (a + BitVec.ofNat 32 (size + 4)) = 0 := position_wrap (by omega)
      have := hat.1
      omega
  · refine ⟨hown, fun hat ↦ ?_⟩
    obtain ⟨hplace, header', hheader', hmixed⟩ := hat
    by_cases hwrap : position a + size = 32
    · rw [position_wrap hwrap] at hplace
      omega
    · obtain ⟨hplace', hblock⟩ := position_add (a := a) (n := size) (by omega)
      rw [hblock, hheader] at hheader'
      cases hheader'
      exact hskip ⟨hmixed, by omega⟩

theorem header_alone (h : AtHeader image a) :
    slotsIn image a 4 = [] ∧ ¬AtHeader image (a + BitVec.ofNat 32 4) := by
  obtain ⟨hplace, header, hheader, hmixed⟩ := h
  refine ⟨slotsIn_none fun i hi ↦ ?_, fun hat ↦ ?_⟩
  · exact slotAt_inside hheader (by omega) (.inr (.inl ⟨hmixed, by omega⟩))
  · have hzero : position (a + BitVec.ofNat 32 4) = 0 := position_wrap (by omega)
    have := hat.1
    omega

/-- Instructions that stand one after the other, from `a` up to `b`. -/
inductive Stretch (image : Image) : Word → List Slot → Word → Prop
  | nil (a : Word) : Stretch image a [] a
  | cons {a b : Word} {slot : Slot} {slots : List Slot} : slotAt image a = some slot →
      Stretch image (a + BitVec.ofNat 32 slot.reach) slots b → Stretch image a (slot :: slots) b

theorem Stretch.enumerates {b : Word} {slots : List Slot} (h : Stretch image a slots b) :
    ∃ span, b = a + BitVec.ofNat 32 span ∧ slots = slotsIn image a span := by
  induction h with
  | nil a => exact ⟨0, (BitVec.add_zero a).symm, rfl⟩
  | @cons a b slot slots hslot hrest ih =>
    obtain ⟨span, hend, hslots⟩ := ih
    refine ⟨slot.reach + span, ?_, ?_⟩
    · rw [hend, BitVec.ofNat_add, BitVec.add_assoc]
    · rw [slotsIn_add, (slot_alone hslot).1, hslots]
      rfl

end Places

/-- Only the last instruction of an execute packet has a clear p-bit. -/
def Closed (slots : List Slot) : Prop :=
  ∃ front last, slots = front ++ [last] ∧ (∀ slot ∈ front, slot.parallel = true) ∧ last.parallel = false

/-- From `a` parallel instructions lead to where none stands, or fill the room there is. -/
def Stuck (image : Image) (room : ℕ) (a : Word) : Prop :=
  ∃ slots b, Stretch image a slots b ∧ (∀ slot ∈ slots, slot.parallel = true) ∧
    (slots.length ≤ room ∧ slotAt image b = none ∨ slots.length = room)

section Rounds

variable {β : Type} {bus : Bus β} {image : Image} {p : Progress} {s : β} {header : Word}

def Shows (bus : Bus β) (image : Image) : Prop := ∀ s a, bus.read s a = (s, image a)

def Held (image : Image) (p : Progress) : Prop := ∀ h ∈ p.header, image h.1 = some h.2

theorem field_position (a : Word) : field a 0 5 = position a := rfl

theorem even_iff (a : Word) : a &&& 1#32 = 0 ↔ position a % 2 = 0 := by
  rw [← BitVec.toNat_inj, BitVec.toNat_and]
  unfold position
  rw [show (1#32).toNat = 2 ^ 1 - 1 from rfl, Nat.and_two_pow_sub_one_eq_mod]
  simp only [BitVec.ofNat_eq_ofNat, BitVec.toNat_ofNat]
  omega

theorem aligned_iff (a : Word) : a &&& 3#32 = 0 ↔ position a % 4 = 0 := by
  rw [← BitVec.toNat_inj, BitVec.toNat_and]
  unfold position
  rw [show (3#32).toNat = 2 ^ 2 - 1 from rfl, Nat.and_two_pow_sub_one_eq_mod]
  simp only [BitVec.ofNat_eq_ofNat, BitVec.toNat_ofNat]
  omega

theorem fetchWord_eq (hbus : Shows bus image) (a : Word) :
    bus.fetchWord a s = match image a with
      | some word => (s, .ok word)
      | none => (s, .error ()) := by
  unfold Bus.fetchWord
  rw [hbus]
  cases image a with
  | none => rfl
  | some word => rfl

theorem orFail_eq (hbus : Shows bus image) (a : Word) (e : Fault) :
    (bus.fetchWord a).orFail e s = match image a with
      | some word => (s, .ok word)
      | none => (s, .error e) := by
  unfold Machine.orFail Machine.mapError
  rw [fetchWord_eq hbus]
  cases image a with
  | none => rfl
  | some word => rfl

theorem fetchHeader_eq (hbus : Shows bus image) (hheld : Held image p) :
    fetchHeader bus p s = match image (headerAddress p.next) with
      | some header => (s, .ok header)
      | none => (s, .error ⟨p.next, 0, "unmapped instruction fetch"⟩) := by
  have hread := orFail_eq (s := s) hbus (headerAddress p.next) (⟨p.next, 0, "unmapped instruction fetch"⟩ : Fault)
  unfold fetchHeader
  cases hin : p.header with
  | none => exact hread
  | some h =>
    obtain ⟨held, header⟩ := h
    simp only
    split_ifs with hsame
    · have hvalue : image held = some header := hheld _ hin
      change held = headerAddress p.next at hsame
      rw [← hsame, hvalue]
      rfl
    · exact hread

def taken (p : Progress) (header : Word) (insn : Instruction) (size : ℕ) : Progress where
  next :=
    let next := p.next + BitVec.ofNat 32 size
    if mixed header && position next = 28 then next + 4 else next
  header := some (headerAddress p.next, header)
  instructions := p.instructions ++ [insn]

theorem ite_run {c : Prop} [Decidable c] (x y : Exec β Progress) : (if c then x else y) s = if c then
    x s else y s := by
  split_ifs
  · rfl
  · rfl

theorem round_eq (hbus : Shows bus image) (hheld : Held image p) (heven : position p.next % 2 = 0)
    (hheader : image (headerAddress p.next) = some header) (rounds : ℕ) :
    fetchRounds bus (rounds + 1) p s =
      if mixed header ∧ position p.next = 28 then
        fetchRounds bus rounds { p with next := p.next + 4, header := some (headerAddress p.next, header) } s
      else if mixed header ∧ position p.next = 30 then
        (s, .error ⟨p.next, header, "instruction points into compact header"⟩)
      else if ¬(halved header (position p.next) ∨ position p.next % 4 = 0) then
        (s, .error ⟨p.next, 0, "unaligned full instruction fetch"⟩)
      else
        match image (p.next &&& ~~~3#32) with
        | none => (s, .error ⟨p.next, 0, "unmapped instruction fetch"⟩)
        | some word =>
          if p.instructions.length = 8 then (s, .error ⟨p.next, word, "execute packet exceeds eight instructions"⟩)
          else
            let p' := taken p header (insnOf p.next header word) (sizeOf p.next header)
            if parallelOf p.next header word then fetchRounds bus rounds p' s else (s, .ok p') := by
  rw [fetchRounds]
  simp only [Machine.bind_apply, Machine.require, (even_iff p.next).mpr heven, if_true, Machine.pure_apply,
    fetchHeader_eq hbus hheld, hheader]
  have hat (n : ℕ) : (decide (header >>> 28 = 14#32) && decide (field p.next 0 5 = n)) = true ↔
      mixed header ∧ position p.next = n := by
    rw [Bool.and_eq_true, decide_eq_true_eq, decide_eq_true_eq, field_position, mixed, decide_eq_true_eq]
  have hhalf : (decide (header >>> 28 = 14#32) && header.getLsbD (21 + field p.next 0 5 / 4)) =
      halved header (position p.next) := rfl
  by_cases hskip : mixed header ∧ position p.next = 28
  · rw [if_pos ((hat 28).mpr hskip), if_pos hskip]
    rfl
  rw [if_neg (hskip ∘ (hat 28).mp), if_neg hskip, Machine.bind_apply]
  by_cases hpast : mixed header ∧ position p.next = 30
  · rw [if_neg (not_not.mpr ((hat 30).mpr hpast)), if_pos hpast]
    rfl
  rw [if_pos (hpast ∘ (hat 30).mp), if_neg hpast, hhalf]
  simp only [Machine.pure_apply, Machine.bind_apply, aligned_iff]
  by_cases hplace : halved header (position p.next) ∨ position p.next % 4 = 0
  · simp only [hplace, if_true, Machine.pure_apply, not_true_eq_false, if_false, orFail_eq hbus]
    cases image (p.next &&& ~~~3#32) with
    | none => rfl
    | some word =>
      simp only
      by_cases hfull : p.instructions.length = 8
      · simp only [hfull, ne_eq, not_true_eq_false, if_false, if_true, Machine.fail_apply]
      · simp only [hfull, ne_eq, not_false_eq_true, if_true, if_false, Machine.pure_apply]
        unfold parallelOf sizeOf insnOf taken
        cases hhalved : halved header (position p.next) with
        | true =>
          have hmixed : decide (header >>> 28 = 14#32) = true := by
            unfold halved at hhalved
            exact (Bool.and_eq_true_iff.mp hhalved).1
          have hmixed' : mixed header = true := hmixed
          simp only [if_true, hmixed, hmixed']
          exact ite_run _ _
        | false =>
          simp only [Bool.false_eq_true, if_false]
          exact ite_run _ _
  · simp only [hplace, if_false, not_false_eq_true, if_true, Machine.fail_apply]

theorem round_header (hbus : Shows bus image) (hheld : Held image p) (hat : AtHeader image p.next) :
    ∃ p', (∀ rounds, fetchRounds bus (rounds + 1) p s = fetchRounds bus rounds p' s) ∧ Held image p' ∧
      p'.next = p.next + BitVec.ofNat 32 4 ∧ p'.instructions = p.instructions := by
  obtain ⟨hplace, header, hheader, hmixed⟩ := hat
  refine ⟨{ p with next := p.next + 4, header := some (headerAddress p.next, header) },
    fun rounds ↦ ?_, ?_, rfl, rfl⟩
  · rw [round_eq hbus hheld (by omega) hheader]
    exact if_pos ⟨hmixed, hplace⟩
  · rintro h hh
    cases hh
    exact hheader

theorem taken_next (insn : Instruction) (size : ℕ) :
    (taken p header insn size).next = p.next + BitVec.ofNat 32 (reach header (position p.next) size) := by
  have hplace : position (p.next + BitVec.ofNat 32 size) = (position p.next + size) % 32 := by
    unfold position
    rw [BitVec.toNat_add, BitVec.toNat_ofNat]
    omega
  unfold taken reach
  simp only [hplace, Bool.and_eq_true, decide_eq_true_eq]
  split_ifs
  · rw [BitVec.ofNat_add, BitVec.add_assoc]
    rfl
  · rfl

theorem round_slot (hbus : Shows bus image) (hheld : Held image p) (hat : ¬AtHeader image p.next) :
    (∃ e, (∀ rounds, fetchRounds bus (rounds + 1) p s = (s, .error e)) ∧
      (slotAt image p.next = none ∨ p.instructions.length = 8)) ∨
    ∃ slot p', slotAt image p.next = some slot ∧ p.instructions.length ≠ 8 ∧ Held image p' ∧
      p'.next = p.next + BitVec.ofNat 32 slot.reach ∧ p'.instructions = p.instructions ++ [slot.insn] ∧
      ∀ rounds, fetchRounds bus (rounds + 1) p s = if slot.parallel then fetchRounds bus rounds p' s
        else (s, .ok p') := by
  by_cases heven : position p.next % 2 = 0
  case neg =>
    refine .inl ⟨⟨p.next, 0, "unaligned instruction fetch"⟩, fun rounds ↦ ?_, .inl ?_⟩
    · rw [fetchRounds]
      simp only [Machine.bind_apply, Machine.require, (even_iff p.next).not.mpr heven, if_false, Machine.fail_apply]
    · unfold slotAt
      split
      next => rfl
      next => exact if_pos (.inl (by omega))
  unfold slotAt
  cases hheader : image (headerAddress p.next) with
  | none =>
    refine .inl ⟨⟨p.next, 0, "unmapped instruction fetch"⟩, fun rounds ↦ ?_, .inl rfl⟩
    rw [fetchRounds]
    simp only [Machine.bind_apply, Machine.require, (even_iff p.next).mpr heven, if_true, Machine.pure_apply,
      fetchHeader_eq hbus hheld, hheader]
  | some header =>
    have hround := round_eq (s := s) hbus hheld heven hheader
    have hskip : ¬(mixed header ∧ position p.next = 28) := fun h ↦ hat ⟨h.2, header, hheader, h.1⟩
    have hlt : position p.next < 32 := Nat.mod_lt _ (by omega)
    simp only [hskip, if_false] at hround ⊢
    by_cases hpast : mixed header ∧ position p.next = 30
    · refine .inl ⟨_, fun rounds ↦ (hround rounds).trans (if_pos hpast), .inl ?_⟩
      exact if_pos (.inr ⟨hpast.1, by omega⟩)
    have hstands : ¬(position p.next % 2 = 1 ∨ mixed header ∧ 28 ≤ position p.next) := by
      rintro (hodd | ⟨hmixed, hlast⟩)
      · omega
      · simp only [hmixed, true_and] at hskip hpast
        omega
    simp only [hpast, if_false] at hround
    rw [if_neg hstands]
    by_cases hplace : halved header (position p.next) ∨ position p.next % 4 = 0
    case neg =>
      refine .inl ⟨_, fun rounds ↦ (hround rounds).trans (if_pos hplace), .inl ?_⟩
      exact if_neg hplace
    simp only [hplace, not_true_eq_false, if_false] at hround
    rw [if_pos hplace]
    cases hword : image (p.next &&& ~~~3#32) with
    | none =>
      rw [hword] at hround
      exact .inl ⟨_, hround, .inl rfl⟩
    | some word =>
      simp only [hword] at hround
      by_cases hfull : p.instructions.length = 8
      · exact .inl ⟨_, fun rounds ↦ (hround rounds).trans (if_pos hfull), .inr hfull⟩
      · refine .inr ⟨_, taken p header (insnOf p.next header word) (sizeOf p.next header), rfl, hfull, ?_,
          taken_next _ _, rfl, fun rounds ↦ (hround rounds).trans (if_neg hfull)⟩
        rintro h hh
        cases hh
        exact hheader

/-- Enough rounds end the packet, or find where it cannot go on; further rounds are not begun. -/
theorem rounds_outcome (rounds : ℕ) (hbus : Shows bus image) (hheld : Held image p) (hat : ¬AtHeader image p.next)
    (hlength : p.instructions.length ≤ 8) (hrounds : 8 - p.instructions.length < rounds) :
    (∃ slots q, Stretch image p.next slots q.next ∧ Closed slots ∧ p.instructions.length + slots.length ≤ 8 ∧
      q.instructions = p.instructions ++ slots.map (·.insn) ∧ ¬AtHeader image q.next ∧
      ∀ more, fetchRounds bus (rounds + more) p s = (s, .ok q)) ∨
    ∃ e, Stuck image (8 - p.instructions.length) p.next ∧
      ∀ more, fetchRounds bus (rounds + more) p s = (s, .error e) := by
  induction rounds generalizing p with
  | zero => omega
  | succ rounds ih =>
    have hmore (more : ℕ) : rounds + 1 + more = rounds + more + 1 := by omega
    rcases round_slot hbus hheld hat with ⟨e, hround, hstop⟩ | ⟨slot, p', hslot, hroom, hheld',
      hnext, hinsns, hround⟩
    · refine .inr ⟨e, ⟨[], p.next, .nil _, fun _ h ↦ absurd h List.not_mem_nil, ?_⟩, fun more ↦ ?_⟩
      · rcases hstop with hnone | hfull
        · exact .inl ⟨Nat.zero_le _, hnone⟩
        · exact .inr (by rw [hfull]; rfl)
      · rw [hmore, hround]
    have hat' : ¬AtHeader image p'.next := by
      rw [hnext]
      exact (slot_alone hslot).2
    have hcount : p'.instructions.length = p.instructions.length + 1 := by
      rw [hinsns, List.length_append]
      rfl
    cases hparallel : slot.parallel with
    | false =>
      refine .inl ⟨[slot], p', .cons hslot ?_, ⟨[], slot, rfl, fun _ h ↦ absurd h List.not_mem_nil, hparallel⟩,
        ?_,
        hinsns, hat', fun more ↦ ?_⟩
      · rw [hnext]
        exact .nil _
      · change p.instructions.length + 1 ≤ 8
        omega
      · rw [hmore, hround, hparallel]
        rfl
    | true =>
      have hgo (more : ℕ) : fetchRounds bus (rounds + 1 + more) p s = fetchRounds bus (rounds + more) p' s := by
        rw [hmore, hround, hparallel]
        rfl
      rcases ih hheld' hat' (by omega) (by omega) with
        ⟨slots, q, hstretch, ⟨front, last, rfl, hfront, hlast⟩, hfits, hall, hend, hrun⟩ |
        ⟨e, ⟨slots, b, hstretch, hslots, hstop⟩, hrun⟩
      · rw [hnext] at hstretch
        refine .inl ⟨slot :: (front ++ [last]), q, .cons hslot hstretch,
          ⟨slot :: front, last, rfl, ?_, hlast⟩, ?_, ?_,
          hend, fun more ↦ (hgo more).trans (hrun more)⟩
        · intro x hx
          rcases List.mem_cons.mp hx with rfl | hx
          · exact hparallel
          · exact hfront x hx
        · rw [List.length_cons]
          omega
        · rw [hall, hinsns, List.append_assoc]
          rfl
      · rw [hnext] at hstretch
        refine .inr ⟨e, ⟨slot :: slots, b, .cons hslot hstretch, ?_, ?_⟩,
          fun more ↦ (hgo more).trans (hrun more)⟩
        · intro x hx
          rcases List.mem_cons.mp hx with rfl | hx
          · exact hparallel
          · exact hslots x hx
        · rw [List.length_cons]
          rcases hstop with ⟨hfits, hnone⟩ | hfull
          · exact .inl ⟨by omega, hnone⟩
          · exact .inr (by omega)

/-- Where the instructions from `pc` on begin: a header there is skipped. -/
def Begins (image : Image) (pc a : Word) : Prop :=
  ¬AtHeader image pc ∧ a = pc ∨ AtHeader image pc ∧ a = pc + BitVec.ofNat 32 4

theorem begin_outcome (hbus : Shows bus image) (pc : Word) (s : β) :
    ∃ a, Begins image pc a ∧
      ((∃ slots q, Stretch image a slots q.next ∧ Closed slots ∧ slots.length ≤ 8 ∧
        q.instructions = slots.map (·.insn) ∧ ∀ more, fetchRounds bus (10 + more) ⟨pc, none,
          []⟩ s = (s, .ok q)) ∨
      ∃ e, Stuck image 8 a ∧ ∀ more, fetchRounds bus (10 + more) ⟨pc, none, []⟩ s = (s, .error e)) := by
  have hheld : Held image ⟨pc, none, []⟩ := fun h hh ↦ absurd hh (Option.not_mem_none h)
  by_cases hat : AtHeader image pc
  · refine ⟨pc + BitVec.ofNat 32 4, .inr ⟨hat, rfl⟩, ?_⟩
    obtain ⟨p, hskip, hheld', hnext, hinsns⟩ := round_header (s := s) hbus hheld hat
    change p.instructions = [] at hinsns
    change p.next = pc + BitVec.ofNat 32 4 at hnext
    have hcount : p.instructions.length = 0 := by
      rw [hinsns]
      rfl
    have hround (more : ℕ) : fetchRounds bus (10 + more) ⟨pc, none, []⟩ s = fetchRounds bus (9 + more) p s := by
      rw [show 10 + more = 9 + more + 1 by omega, hskip]
    have hplain : ¬AtHeader image p.next := by
      rw [hnext]
      exact (header_alone hat).2
    rcases rounds_outcome (s := s) 9 hbus hheld' hplain (by omega) (by omega) with
      ⟨slots, q, hstretch, hclosed, hfits, hall, -, hrun⟩ | ⟨e, hstuck, hrun⟩
    · rw [hinsns, List.nil_append] at hall
      rw [hnext] at hstretch
      exact .inl ⟨slots, q, hstretch, hclosed, by omega, hall, fun more ↦ (hround more).trans (hrun more)⟩
    · rw [hcount, hnext] at hstuck
      exact .inr ⟨e, hstuck, fun more ↦ (hround more).trans (hrun more)⟩
  · refine ⟨pc, .inl ⟨hat, rfl⟩, ?_⟩
    rcases rounds_outcome (s := s) 10 hbus hheld hat (by simp) (by simp) with
      ⟨slots, q, hstretch, hclosed, hfits, hall, -, hrun⟩ | ⟨e, hstuck, hrun⟩
    · rw [List.length_nil, Nat.zero_add] at hfits
      exact .inl ⟨slots, q, hstretch, hclosed, hfits, hall, hrun⟩
    · exact .inr ⟨e, hstuck, hrun⟩

theorem Begins.enumerates {pc a b : Word} {slots : List Slot} (h : Begins image pc a)
    (hstretch : Stretch image a slots b) :
    ∃ span, b = pc + BitVec.ofNat 32 span ∧ slots = slotsIn image pc span := by
  obtain ⟨span, hend, hslots⟩ := hstretch.enumerates
  rcases h with ⟨-, rfl⟩ | ⟨hat, rfl⟩
  · exact ⟨span, hend, hslots⟩
  · refine ⟨4 + span, ?_, ?_⟩
    · rw [hend, BitVec.ofNat_add, BitVec.add_assoc]
    · rw [slotsIn_add, (header_alone hat).1, hslots]
      rfl

def Delivers (image : Image) (pc : Word) (packet : Packet) : Prop :=
  ∃ span, packet.nextPc = pc + BitVec.ofNat 32 span ∧ packet.instructions =
    (slotsIn image pc span).map (·.insn) ∧
    Closed (slotsIn image pc span) ∧ (slotsIn image pc span).length ≤ 8

theorem fetch_outcome (hbus : Shows bus image) {cpu : Cpu} (hfault : cpu.fault = none) (s : β) :
    (∃ packet, fetch bus cpu s = (s, .ok packet) ∧ Delivers image cpu.pc packet) ∨
    ∃ e a, fetch bus cpu s = (s, .error e) ∧ Begins image cpu.pc a ∧ Stuck image 8 a := by
  have hfetch : fetch bus cpu = fetchRounds bus 10 ⟨cpu.pc, none, []⟩ >>= fun p ↦
      (pure ⟨p.instructions, p.next, false⟩ : Exec β Packet) := by
    unfold fetch
    rw [hfault]
  obtain ⟨a, hbegins, ⟨slots, q, hstretch, hclosed, hfits, hall, hrun⟩ | ⟨e, hstuck, hrun⟩⟩ :=
    begin_outcome hbus cpu.pc s
  · refine .inl ⟨⟨q.instructions, q.next, false⟩, ?_, ?_⟩
    · rw [hfetch, Machine.bind_apply, hrun 0]
      rfl
    · obtain ⟨span, hend, rfl⟩ := hbegins.enumerates hstretch
      exact ⟨span, hend, hall, hclosed, hfits⟩
  · refine .inr ⟨e, a, ?_, hbegins, hstuck⟩
    rw [hfetch, Machine.bind_apply, hrun 0]

def fetches (bus : Bus β) : ℕ → Cpu → Exec β (List Packet)
  | 0, _ => pure []
  | n + 1, cpu => do
    let packet ← fetch bus cpu
    let packets ← fetches bus n { cpu with pc := packet.nextPc }
    pure (packet :: packets)

/-- The packets are the image's instructions in address order, cut after each clear p-bit. -/
inductive Enumerates (image : Image) : Word → List Packet → ℕ → Prop
  | nil (pc : Word) : Enumerates image pc [] 0
  | cons {pc : Word} {packet : Packet} {packets : List Packet} {span rest : ℕ} :
      packet.nextPc = pc + BitVec.ofNat 32 span → packet.instructions = (slotsIn image pc span).map (·.insn) →
      Closed (slotsIn image pc span) → (slotsIn image pc span).length ≤ 8 →
      Enumerates image packet.nextPc packets rest → Enumerates image pc (packet :: packets) (span + rest)

theorem Enumerates.instructions {pc : Word} {packets : List Packet} {span : ℕ}
    (h : Enumerates image pc packets span) :
    packets.flatMap (·.instructions) = (slotsIn image pc span).map (·.insn) := by
  induction h with
  | nil pc => rfl
  | cons hnext hinsns hclosed hfits hrest ih =>
    rw [List.flatMap_cons, ih, hinsns, hnext, ← List.map_append, ← slotsIn_add]

theorem fetches_outcome (hbus : Shows bus image) (n : ℕ) (cpu : Cpu) (hfault : cpu.fault = none) (s : β) :
    (∃ packets span, fetches bus n cpu s = (s, .ok packets) ∧ packets.length = n ∧
      Enumerates image cpu.pc packets span) ∨
    ∃ e packets span a, fetches bus n cpu s = (s, .error e) ∧ packets.length < n ∧
      Enumerates image cpu.pc packets span ∧ Begins image (cpu.pc + BitVec.ofNat 32 span) a ∧ Stuck image 8 a := by
  induction n generalizing cpu with
  | zero => exact .inl ⟨[], 0, rfl, rfl, .nil _⟩
  | succ n ih =>
    unfold fetches
    rw [Machine.bind_apply]
    rcases fetch_outcome hbus hfault s with ⟨packet, hfetch, span, hnext, hinsns, hclosed, hfits⟩ | ⟨e,
      a, hfetch, hstuck⟩
    · simp only [hfetch, Machine.bind_apply]
      rcases ih { cpu with pc := packet.nextPc } hfault with
        ⟨packets, rest, hrun, hlength, hrest⟩ | ⟨e, packets, rest, a, hrun, hlength, hrest, hstuck⟩
      · rw [hrun]
        exact .inl ⟨packet :: packets, span + rest, rfl, by rw [List.length_cons, hlength],
          .cons hnext hinsns hclosed hfits hrest⟩
      · rw [hrun]
        refine .inr ⟨e, packet :: packets, span + rest, a, rfl, by rw [List.length_cons]; omega,
          .cons hnext hinsns hclosed hfits hrest, ?_⟩
        rwa [BitVec.ofNat_add, ← BitVec.add_assoc, ← hnext]
    · refine .inr ⟨e, [], 0, a, by rw [hfetch], by rw [List.length_nil]; omega, .nil _, ?_⟩
      rwa [show cpu.pc + BitVec.ofNat 32 0 = cpu.pc from BitVec.add_zero _]

/-- Repeated fetches deliver exactly the instructions of the image in address order, in packets
that end at each clear p-bit and hold at most eight; they stop only where a packet would run
into no instruction or hold a ninth. The loop of a fetch ends within ten rounds. -/
theorem fetch_enumerates (hbus : Shows bus image) (cpu : Cpu) (hfault : cpu.fault = none) (n : ℕ) (s : β) :
    (match fetches bus n cpu s with
      | (s', .ok packets) => s' = s ∧ packets.length = n ∧ ∃ span, Enumerates image cpu.pc packets span ∧
          packets.flatMap (·.instructions) = (slotsIn image cpu.pc span).map (·.insn)
      | (s', .error _) => s' = s ∧ ∃ packets span a, packets.length < n ∧ Enumerates image cpu.pc packets span ∧
          Begins image (cpu.pc + BitVec.ofNat 32 span) a ∧ Stuck image 8 a) ∧
    ∀ pc more, fetchRounds bus (10 + more) ⟨pc, none, []⟩ s = fetchRounds bus 10 ⟨pc, none, []⟩ s := by
  refine ⟨?_, fun pc more ↦ ?_⟩
  · rcases fetches_outcome hbus n cpu hfault s with
      ⟨packets, span, hrun, hlength, hall⟩ | ⟨e, packets, span, a, hrun, hlength, hall, hstuck⟩
    · rw [hrun]
      exact ⟨rfl, hlength, span, hall, hall.instructions⟩
    · rw [hrun]
      exact ⟨rfl, packets, span, a, hlength, hall, hstuck⟩
  · obtain ⟨a, -, ⟨slots, q, -, -, -, -, hrun⟩ | ⟨e, -, hrun⟩⟩ := begin_outcome hbus pc s
    · rw [hrun, hrun 0]
    · rw [hrun, hrun 0]

def imageBus (image : Image) : Bus Unit := ⟨fun _ a ↦ ((), image a), fun _ _ _ _ _ ↦ ((), true), id⟩

def halfWords : Image := fun a ↦ if a = 28 then some 0xefe00000 else some 0

theorem fetch_enumerates_halfWords :
    (match fetches (imageBus halfWords) 15 (reset 0) () with
      | (s', .ok packets) => s' = () ∧ packets.length = 15 ∧ ∃ span, Enumerates halfWords 0 packets span ∧
          packets.flatMap (·.instructions) = (slotsIn halfWords 0 span).map (·.insn)
      | (s', .error _) => s' = () ∧ ∃ packets span a, packets.length < 15 ∧
          Enumerates halfWords 0 packets span ∧
          Begins halfWords (0 + BitVec.ofNat 32 span) a ∧ Stuck halfWords 8 a) ∧
    ∀ pc more, fetchRounds (imageBus halfWords) (10 + more) ⟨pc, none, []⟩ () =
      fetchRounds (imageBus halfWords) 10 ⟨pc, none, []⟩ () := by
  have hbus : Shows (imageBus halfWords) halfWords := fun _ _ ↦ rfl
  exact fetch_enumerates hbus (reset 0) rfl 15 ()

end Rounds

end Cdj2000Emulator.C674x.FetchStream
