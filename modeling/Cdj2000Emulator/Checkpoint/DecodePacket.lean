import Cdj2000Emulator.C674x.FetchStream
import Cdj2000Emulator.Checkpoint.Inventory

namespace Cdj2000Emulator.Checkpoint.DecodePacket

open Library.Stateful Inventory
open Library.Bytes (Byte value)
open C674x State Transfer Execute Fetch FetchStream

/-- A GNU format. -/
structure Format where
  name : String
  width : ℕ
  value : ℕ
  mask : ℕ

/-- A decoded instruction. -/
structure Row where
  pc : ℕ
  word : ℕ
  expanded : ℕ
  width : ℕ
  compact : Bool
  header : ℕ
  parallel : Bool
  nextPc : ℕ
  families : List String

def bitCount (mask : ℕ) : ℕ := (List.range (mask.log2 + 1)).countP mask.testBit

def families (formats : List Format) (width expanded : ℕ) : List String :=
  let found := (formats.filter fun f ↦ f.width = width ∧ expanded &&& f.mask = f.value).map fun f ↦
    (f.name, bitCount f.mask)
  let specificity := (found.map (·.2)).foldl max 0
  let names := ((found.filter (·.2 = specificity)).map (·.1)).mergeSort
  if names = [] then ["unclassified"] else names

/-- `decode_one`; an error has its text and the address named in it. -/
def decodeOne (data : List Byte) (base pc : ℕ) (formats : List Format) : Except (String × ℕ) Row :=
  let offset := pc - base
  if pc < base ∨ data.length < offset + 2 then .error ("instruction address is outside memory at", pc)
  else
    let headerOffset := offset / 32 * 32 + 28
    if data.length < headerOffset + 4 then .error ("instruction fetch packet is incomplete at", pc)
    else
      let header := value (span data headerOffset (headerOffset + 4))
      let mixed := header >>> 28 = 14
      let packetOffset := offset % 32
      if mixed ∧ packetOffset = 28 then .error ("instruction points at compact header at", pc)
      else if mixed ∧ packetOffset = 30 then .error ("instruction points into compact header at", pc)
      else
        let slot := packetOffset / 4
        let compact : Bool := mixed ∧ header.testBit (21 + slot)
        let width := if compact then 16 else 32
        let size := width / 8
        if pc % size ≠ 0 ∨ data.length < offset + size then
          .error ("instruction is unaligned or incomplete at", pc)
        else
          let word := value (span data offset (offset + size))
          let expanded :=
            if compact then
              word ||| ((header >>> 14) &&& 1) <<< 16 ||| ((header >>> 15) &&& 1) <<< 17 |||
                ((header >>> 16) &&& 7) <<< 18
            else word
          let nextPc := pc + size
          let nextPc := if mixed ∧ nextPc % 32 = 28 then nextPc + 4 else nextPc
          .ok {
            pc, word, expanded, width, compact, nextPc
            header := if mixed then header else 0
            parallel := if compact then header.testBit (packetOffset / 2) else word.testBit 0
            families := families formats width expanded }

/-- The image holds the address. -/
def Covers (pc : ℕ) (m : ℕ × List Byte) : Bool := m.1 ≤ pc ∧ pc < m.1 + m.2.length

/-- The loop of `decode_packet` with the rows that there is room for after the next one; `first` is the first row's
address. -/
def decodeFrom (memories : Memories) (formats : List Format) (first : ℕ) :
    ℕ → ℕ → Except (String × ℕ) (List Row)
  | left, pc =>
    match memories.filter (Covers pc) with
    | [(base, image)] =>
      match decodeOne image base pc formats with
      | .error e => .error e
      | .ok row =>
        if !row.parallel then .ok [row]
        else
          match left with
          | 0 => .error ("execute packet exceeds eight instructions at", first)
          | left + 1 => (decodeFrom memories formats first left row.nextPc).map (row :: ·)
    | _ => .error ("instruction address is not in exactly one memory at", pc)

def decodePacket (memories : Memories) (pc : ℕ) (formats : List Format) : Except (String × ℕ) (List Row) :=
  decodeFrom memories formats pc 7 pc

/-- Disjoint images of whole fetch packets below the top of the address space. -/
structure Images where
  memories : Memories
  whole : ∀ m ∈ memories, 32 ∣ m.1 ∧ 32 ∣ m.2.length
  below : ∀ m ∈ memories, m.1 + m.2.length < 2 ^ 32
  apart : memories.Pairwise fun m n ↦ m.1 + m.2.length ≤ n.1 ∨ n.1 + n.2.length ≤ m.1

def Images.word (images : Images) (a : Word) : Option Word :=
  (images.memories.find? (Covers a.toNat)).map fun m ↦
    BitVec.ofNat 32 (value (span m.2 (a.toNat - m.1) (a.toNat - m.1 + 4)))

def Maps {β : Type} (bus : Bus β) (images : Images) : Prop :=
  ∀ s a, a.toNat % 4 = 0 → bus.read s a = (s, images.word a)

/-- The instruction in a row. -/
structure Same (row : Row) (insn : Instruction) : Prop where
  pc : row.pc = insn.pc.toNat
  word : row.word = insn.word.toNat
  width : row.width = if insn.compact then 16 else 32
  compact : row.compact = insn.compact
  header : row.header = insn.header.toNat

variable {images : Images} {m : ℕ × List Byte} {data : List Byte} {a : Word} {pc offset : ℕ}
  {formats : List Format}

theorem covers_iff : Covers pc m = true ↔ m.1 ≤ pc ∧ pc < m.1 + m.2.length := decide_eq_true_iff

/-- At most one image holds an address. -/
theorem Images.filter_cases (images : Images) (pc : ℕ) :
    images.memories.filter (Covers pc) = [] ∨
      ∃ m ∈ images.memories, Covers pc m ∧ images.memories.filter (Covers pc) = [m] := by
  have apart := images.apart
  generalize images.memories = memories at apart
  induction memories with
  | nil => exact .inl rfl
  | cons m memories ih =>
    obtain ⟨first, rest⟩ := List.pairwise_cons.mp apart
    by_cases covers : Covers pc m
    · refine .inr ⟨m, List.mem_cons_self, covers, ?_⟩
      rw [List.filter_cons_of_pos covers, List.filter_eq_nil_iff.mpr]
      intro n mem again
      have := first n mem
      rw [covers_iff] at covers again
      omega
    · rw [List.filter_cons_of_neg covers]
      rcases ih rest with none | ⟨n, mem, one⟩
      · exact .inl none
      · exact .inr ⟨n, List.mem_cons_of_mem m mem, one⟩

/-- Images hold whole fetch packets. -/
theorem Images.covers_block (images : Images) (mem : m ∈ images.memories) {pc' : ℕ} (same : pc / 32 = pc' / 32) :
    Covers pc m = Covers pc' m := by
  obtain ⟨⟨b, base⟩, ⟨l, length⟩⟩ := images.whole m mem
  rw [Bool.eq_iff_iff, covers_iff, covers_iff]
  omega

theorem Images.word_eq (images : Images) (mem : m ∈ images.memories) (covers : Covers a.toNat m) :
    images.word a = some (BitVec.ofNat 32 (value (span m.2 (a.toNat - m.1) (a.toNat - m.1 + 4)))) := by
  rw [Images.word, ← List.head?_filter]
  rcases images.filter_cases a.toNat with none | ⟨n, -, -, one⟩
  · rw [List.filter_eq_nil_iff] at none
    exact absurd covers (none m mem)
  · have inside := List.mem_filter.mpr ⟨mem, covers⟩
    rw [one] at inside ⊢
    rw [List.mem_singleton.mp inside]
    rfl

theorem Images.word_none (empty : images.memories.filter (Covers a.toNat) = []) : images.word a = none := by
  rw [Images.word, ← List.head?_filter, empty]
  rfl

def Images.image (images : Images) : Image := fun a ↦ if a.toNat % 4 = 0 then images.word a else none

theorem drop_cons (h : offset < data.length) : data.drop offset = data.getD offset 0 :: data.drop (offset + 1) := by
  rw [List.drop_eq_getElem_cons h, List.getD_eq_getElem _ _ h]

theorem value_half (h : offset + 2 ≤ data.length) :
    value (span data offset (offset + 2)) = (data.getD offset 0).toNat + 256 * (data.getD (offset + 1) 0).toNat := by
  rw [span, Nat.add_sub_cancel_left, drop_cons (by omega), drop_cons (by omega)]
  simp [value]

theorem value_word (h : offset + 4 ≤ data.length) :
    value (span data offset (offset + 4)) =
      value (span data offset (offset + 2)) + 0x10000 * value (span data (offset + 2) (offset + 2 + 2)) := by
  rw [value_half (by omega), value_half (by omega), span, Nat.add_sub_cancel_left, drop_cons (by omega),
    drop_cons (by omega), drop_cons (by omega), drop_cons (by omega)]
  simp only [List.take_succ_cons, List.take_zero, value, List.foldr_cons, List.foldr_nil, Nat.add_assoc, Nat.reduceAdd]
  omega

theorem value_half_lt (h : offset + 2 ≤ data.length) : value (span data offset (offset + 2)) < 0x10000 := by
  have := (data.getD offset 0).isLt
  have := (data.getD (offset + 1) 0).isLt
  rw [value_half h]
  omega

theorem value_word_lt (h : offset + 4 ≤ data.length) : value (span data offset (offset + 4)) < 2 ^ 32 := by
  have low : value (span data offset (offset + 2)) < 0x10000 := value_half_lt (by omega)
  have high : value (span data (offset + 2) (offset + 2 + 2)) < 0x10000 := value_half_lt (by omega)
  rw [value_word h]
  omega

theorem word_toNat (a : Word) : (a &&& ~~~3#32).toNat = a.toNat / 4 * 4 := by
  have mask : ∀ i : Fin 32, (3#32).getLsbD i = decide (i.val < 2) := by decide
  have shift : a &&& ~~~3#32 = (a >>> 2) <<< 2 := by
    refine BitVec.eq_of_getLsbD_eq fun i hi ↦ ?_
    rw [BitVec.getLsbD_and, BitVec.getLsbD_not, mask ⟨i, hi⟩, BitVec.getLsbD_shiftLeft, BitVec.getLsbD_ushiftRight]
    by_cases low : i < 2
    · simp [low]
    · simp [low, hi, show 2 + (i - 2) = i by omega]
  have := a.isLt
  rw [shift, BitVec.toNat_shiftLeft, BitVec.toNat_ushiftRight, Nat.shiftLeft_eq, Nat.shiftRight_eq_div_pow]
  omega

def headerAt (data : List Byte) (offset : ℕ) : ℕ :=
  value (span data (offset / 32 * 32 + 28) (offset / 32 * 32 + 28 + 4))

/-- Where in its image an address lies. -/
structure Lies (images : Images) (m : ℕ × List Byte) (a : Word) (offset : ℕ) : Prop where
  mem : m ∈ images.memories
  address : a.toNat = m.1 + offset
  inside : offset < m.2.length
  block : offset / 32 * 32 + 32 ≤ m.2.length
  place : offset % 32 = position a

theorem lies (mem : m ∈ images.memories) (covers : Covers a.toNat m) : Lies images m a (a.toNat - m.1) := by
  obtain ⟨⟨b, base⟩, ⟨l, length⟩⟩ := images.whole m mem
  rw [covers_iff] at covers
  refine ⟨mem, by omega, by omega, by omega, ?_⟩
  rw [position]
  omega

theorem Lies.header (h : Lies images m a offset) :
    images.image (headerAddress a) = some (BitVec.ofNat 32 (headerAt m.2 offset)) := by
  obtain ⟨⟨b, base⟩, -⟩ := images.whole m h.mem
  obtain ⟨mem, address, -, block, -⟩ := h
  have at_header := headerAddress_toNat a
  have covers : Covers (headerAddress a).toNat m := by
    rw [covers_iff]
    omega
  have start : (headerAddress a).toNat - m.1 = offset / 32 * 32 + 28 := by omega
  rw [Images.image, if_pos (by omega), images.word_eq mem covers, start]
  rfl

theorem Lies.word (h : Lies images m a offset) :
    images.image (a &&& ~~~3#32) =
      some (BitVec.ofNat 32 (value (span m.2 (offset / 4 * 4) (offset / 4 * 4 + 4)))) := by
  obtain ⟨⟨b, base⟩, -⟩ := images.whole m h.mem
  obtain ⟨mem, address, -, block, -⟩ := h
  have at_word := word_toNat a
  have covers : Covers (a &&& ~~~3#32).toNat m := by
    rw [covers_iff]
    omega
  have start : (a &&& ~~~3#32).toNat - m.1 = offset / 4 * 4 := by omega
  rw [Images.image, if_pos (by omega), images.word_eq mem covers, start]

theorem Lies.headerAt_lt (h : Lies images m a offset) : headerAt m.2 offset < 2 ^ 32 := by
  have := h.block
  exact value_word_lt (by omega)

theorem mixed_ofNat {header : ℕ} (small : header < 2 ^ 32) :
    mixed (BitVec.ofNat 32 header) = decide (header >>> 28 = 14) := by
  rw [mixed, decide_eq_decide, ← BitVec.toNat_inj, BitVec.toNat_ushiftRight, BitVec.toNat_ofNat,
    Nat.mod_eq_of_lt small]
  rfl

theorem bit_ofNat {header i : ℕ} (inside : i < 32) : (BitVec.ofNat 32 header).getLsbD i = header.testBit i := by
  rw [BitVec.getLsbD_ofNat, decide_eq_true inside, Bool.true_and]

/-- The decoder and the fetch see the same instruction, or both none. -/
def Agree (image : Image) (a : Word) : Except (String × ℕ) Row → Prop
  | .ok row => ∃ slot, slotAt image a = some slot ∧ Same row slot.insn ∧ row.parallel = slot.parallel ∧
      row.nextPc = a.toNat + slot.reach
  | .error _ => slotAt image a = none

/-- The instruction that the fetch sees at an address of an image. -/
theorem Lies.slotAt_eq (h : Lies images m a offset) :
    slotAt images.image a =
      if position a % 2 = 1 ∨ headerAt m.2 offset >>> 28 = 14 ∧ 28 ≤ position a then none
      else if (headerAt m.2 offset >>> 28 = 14 ∧ (headerAt m.2 offset).testBit (21 + position a / 4)) ∨
          position a % 4 = 0 then
        let header := BitVec.ofNat 32 (headerAt m.2 offset)
        let word := BitVec.ofNat 32 (value (span m.2 (offset / 4 * 4) (offset / 4 * 4 + 4)))
        some ⟨insnOf a header word, parallelOf a header word, reach header (position a) (sizeOf a header)⟩
      else none := by
  have small := h.headerAt_lt
  have low : position a < 32 := Nat.mod_lt _ (by decide)
  rw [slotAt, h.header, h.word]
  simp only [mixed_ofNat small, halved, decide_eq_true_eq, Bool.and_eq_true, Option.map_some,
    bit_ofNat (show 21 + position a / 4 < 32 by omega)]

theorem decodeOne_odd {base : ℕ} (odd : pc % 2 = 1) : ∃ e, decodeOne data base pc formats = .error e := by
  have unaligned : ∀ compact : Bool, pc % ((if compact then 16 else 32) / 8) ≠ 0 := by
    intro compact
    cases compact
    · exact fun aligned : pc % 4 = 0 ↦ by omega
    · exact fun aligned : pc % 2 = 0 ↦ by omega
  rw [decodeOne]
  dsimp only
  simp only [if_pos (Or.inl (unaligned _))]
  split_ifs <;> exact ⟨_, rfl⟩

theorem half_of_word (h : offset / 4 * 4 + 4 ≤ data.length) (even : offset % 2 = 0)
    (same : a.toNat % 4 = offset % 4) :
    ((BitVec.ofNat 32 (value (span data (offset / 4 * 4) (offset / 4 * 4 + 4))) >>> ((a &&& 2#32).toNat * 8)) &&&
      0xffff#32).toNat = value (span data offset (offset + 2)) := by
  have select : (a &&& 2#32).toNat = if a.toNat / 2 % 2 = 1 then 2 else 0 := by
    have bit := BitVec.and_twoPow a 1
    rw [BitVec.getLsbD, Nat.testBit_eq_decide_div_mod_eq] at bit
    have two : BitVec.twoPow 32 1 = 2#32 := rfl
    rw [two] at bit
    rw [bit]
    simp only [decide_eq_true_eq, Nat.pow_one]
    split_ifs <;> rfl
  have mask : ∀ x : BitVec 32, (x &&& 0xffff#32).toNat = x.toNat % 0x10000 := by
    intro x
    rw [BitVec.toNat_and]
    exact Nat.and_two_pow_sub_one_eq_mod _ 16
  have low : value (span data (offset / 4 * 4) (offset / 4 * 4 + 2)) < 0x10000 := value_half_lt (by omega)
  have high : value (span data (offset / 4 * 4 + 2) (offset / 4 * 4 + 2 + 2)) < 0x10000 := value_half_lt (by omega)
  rw [mask, BitVec.toNat_ushiftRight, BitVec.toNat_ofNat, Nat.mod_eq_of_lt (value_word_lt h), value_word h, select]
  by_cases upper : offset % 4 = 2
  · have start : offset / 4 * 4 + 2 = offset := by omega
    rw [start] at low high ⊢
    have distance : 2 * 8 = 16 := rfl
    rw [if_pos (by omega), distance, Nat.shiftRight_eq_div_pow]
    omega
  · have start : offset / 4 * 4 = offset := by omega
    rw [start] at low ⊢
    rw [if_neg (by omega), Nat.zero_mul, Nat.shiftRight_zero]
    omega

theorem Lies.agree (formats : List Format) (h : Lies images m a offset) (plain : ¬AtHeader images.image a) :
    Agree images.image a (decodeOne m.2 m.1 a.toNat formats) := by
  have small := h.headerAt_lt
  have low : position a < 32 := Nat.mod_lt _ (by decide)
  obtain ⟨⟨b, base⟩, ⟨l, length⟩⟩ := images.whole m h.mem
  obtain ⟨mem, address, inside, block, place⟩ := id h
  have at_offset : a.toNat - m.1 = offset := by omega
  have not_header : ¬(headerAt m.2 offset >>> 28 = 14 ∧ position a = 28) := by
    rintro ⟨is_mixed, last⟩
    exact plain ⟨last, _, h.header, by rw [mixed_ofNat small, decide_eq_true is_mixed]⟩
  by_cases odd : position a % 2 = 1
  · have odd' : a.toNat % 2 = 1 := by omega
    obtain ⟨e, refused⟩ : ∃ e, decodeOne m.2 m.1 a.toNat formats = .error e := decodeOne_odd odd'
    rw [refused, Agree, h.slotAt_eq, if_pos (.inl odd)]
  have slot_eq := h.slotAt_eq
  have within : ¬(a.toNat < m.1 ∨ m.2.length < offset + 2) := by omega
  have complete : ¬m.2.length < offset / 32 * 32 + 28 + 4 := by omega
  have folded : value (span m.2 (offset / 32 * 32 + 28) (offset / 32 * 32 + 28 + 4)) = headerAt m.2 offset := rfl
  rw [decodeOne]
  dsimp only
  rw [at_offset, if_neg within, if_neg complete, place]
  simp only [folded]
  generalize headerAt m.2 offset = header at *
  rw [if_neg not_header]
  by_cases past : header >>> 28 = 14 ∧ position a = 30
  · rw [if_pos past, Agree, slot_eq, if_pos (.inr ⟨past.1, by omega⟩)]
  rw [if_neg past]
  by_cases halves : header >>> 28 = 14 ∧ header.testBit (21 + position a / 4)
  · have halved_eq : halved (BitVec.ofNat 32 header) (position a) = true := by
      rw [halved, mixed_ofNat small, bit_ofNat (by omega), decide_eq_true halves.1, halves.2]
      rfl
    have below : position a < 28 := by
      by_contra last
      exact past ⟨halves.1, by omega⟩
    have aligned : ¬(a.toNat % (16 / 8) ≠ 0 ∨ m.2.length < offset + 16 / 8) := by
      rintro (unaligned | short)
      · exact unaligned (show a.toNat % 2 = 0 by omega)
      · omega
    have slot : ¬(position a % 2 = 1 ∨ header >>> 28 = 14 ∧ 28 ≤ position a) := by omega
    rw [if_neg slot, if_pos (.inl halves)] at slot_eq
    simp only [decide_eq_true halves, if_true, if_neg aligned]
    refine ⟨_, slot_eq, ?_, ?_, ?_⟩
    · simp only [insnOf, halved_eq, if_true]
      refine ⟨rfl, (half_of_word (by omega) (by omega) (by omega)).symm, rfl, rfl, ?_⟩
      rw [if_pos halves.1, BitVec.toNat_ofNat, Nat.mod_eq_of_lt small]
    · simp only [parallelOf, halved_eq, if_true, bit_ofNat (show position a / 2 < 32 by omega)]
    · simp only [reach, FetchStream.sizeOf, halved_eq, if_true, mixed_ofNat small, decide_eq_true_eq]
      have next : (a.toNat + 16 / 8) % 32 = (position a + 2) % 32 := by omega
      rw [next]
      split_ifs <;> rfl
  · have halved_eq : halved (BitVec.ofNat 32 header) (position a) = false := by
      rw [halved, mixed_ofNat small, bit_ofNat (by omega)]
      exact Bool.eq_false_iff.mpr fun both ↦ halves (by simpa using both)
    simp only [decide_eq_false halves, Bool.false_eq_true, if_false]
    by_cases aligned : position a % 4 = 0
    · have fits : ¬(a.toNat % (32 / 8) ≠ 0 ∨ m.2.length < offset + 32 / 8) := by
        rintro (unaligned | short)
        · exact unaligned (show a.toNat % 4 = 0 by omega)
        · omega
      have slot : ¬(position a % 2 = 1 ∨ header >>> 28 = 14 ∧ 28 ≤ position a) := by omega
      have start : offset / 4 * 4 = offset := by omega
      rw [if_neg slot, if_pos (.inr aligned), start] at slot_eq
      have word : value (span m.2 offset (offset + 4)) < 2 ^ 32 := value_word_lt (by omega)
      rw [if_neg fits]
      refine ⟨_, slot_eq, ?_, ?_, ?_⟩
      · simp only [insnOf, halved_eq, Bool.false_eq_true, if_false]
        refine ⟨rfl, ?_, rfl, rfl, ?_⟩
        · exact (Nat.mod_eq_of_lt word).symm
        · rw [mixed_ofNat small]
          simp only [decide_eq_true_eq]
          split_ifs
          · exact (Nat.mod_eq_of_lt small).symm
          · rfl
      · simp only [parallelOf, halved_eq, Bool.false_eq_true, if_false, bit_ofNat (show 0 < 32 by decide)]
      · simp only [reach, FetchStream.sizeOf, halved_eq, Bool.false_eq_true, if_false, mixed_ofNat small,
          decide_eq_true_eq]
        have next : (a.toNat + 32 / 8) % 32 = (position a + 4) % 32 := by omega
        rw [next]
        split_ifs <;> rfl
    · have unaligned : a.toNat % (32 / 8) ≠ 0 := fun even : a.toNat % 4 = 0 ↦ by omega
      rw [if_pos (.inl unaligned), Agree, slot_eq]
      split_ifs with first second
      · rfl
      · exact absurd second (not_or.mpr ⟨halves, aligned⟩)
      · rfl

theorem slotAt_none (outside : images.memories.filter (Covers a.toNat) = []) : slotAt images.image a = none := by
  have header : images.image (headerAddress a) = none := by
    have at_header := headerAddress_toNat a
    rw [Images.image, if_pos (by omega)]
    refine images.word_none (List.filter_eq_nil_iff.mpr fun m mem covers ↦ ?_)
    rw [images.covers_block mem (show (headerAddress a).toNat / 32 = a.toNat / 32 by omega)] at covers
    exact List.filter_eq_nil_iff.mp outside m mem covers
  rw [slotAt, header]

variable {β : Type} {bus bus' : Bus β} {left : ℕ} {p : Progress} {s : β}

theorem fetchRounds_congr (same : ∀ s a, a.toNat % 4 = 0 → bus.read s a = bus'.read s a) (rounds : ℕ)
    (p : Progress) :
    fetchRounds bus rounds p = fetchRounds bus' rounds p := by
  have word : ∀ a, a.toNat % 4 = 0 → bus.fetchWord a = bus'.fetchWord a := by
    intro a aligned
    funext s
    rw [Bus.fetchWord, Bus.fetchWord, same s a aligned]
  have header : ∀ p, fetchHeader bus p = fetchHeader bus' p := by
    intro p
    have at_header := headerAddress_toNat p.next
    rw [fetchHeader, fetchHeader, ← headerAddress, word _ (by omega)]
  induction rounds generalizing p with
  | zero => rfl
  | succ rounds ih =>
    have at_word := word_toNat p.next
    simp only [fetchRounds, header, ih, word (p.next &&& ~~~3#32) (by omega)]

def aligned (bus : Bus β) : Bus β :=
  { bus with read := fun s a ↦ if a.toNat % 4 = 0 then bus.read s a else (s, none) }

theorem Maps.shows (h : Maps bus images) : Shows (aligned bus) images.image := by
  intro s a
  rw [aligned, Images.image]
  dsimp only
  split_ifs with whole
  · exact h s a whole
  · rfl

theorem fetch_aligned (bus : Bus β) (cpu : Cpu) : fetch (aligned bus) cpu = fetch bus cpu := by
  have same : ∀ s a, a.toNat % 4 = 0 → (aligned bus).read s a = bus.read s a := fun s a whole ↦ if_pos whole
  rw [fetch, fetch]
  simp only [fetchRounds_congr same]

/-- The rows that a packet's rounds add, and the address after them. -/
def Follows (p : Progress) (q : Progress) (rows : List Row) : Prop :=
  ∃ insns, q.instructions = p.instructions ++ insns ∧ List.Forall₂ Same rows insns ∧
    (rows.getLast?.map (·.nextPc)) = some q.next.toNat

theorem reach_le {slot : Slot} (h : slotAt images.image a = some slot) : position a + slot.reach ≤ 32 := by
  have low : position a < 32 := Nat.mod_lt _ (by decide)
  obtain ⟨header, size, -, reaches, even, below, sized⟩ := slotAt_place h
  rw [reaches, reach]
  split_ifs with skips
  · have := below skips.1
    omega
  · omega

theorem Lies.next {slot : Slot} (h : Lies images m a offset) (found : slotAt images.image a = some slot) :
    (a + BitVec.ofNat 32 slot.reach).toNat = a.toNat + slot.reach := by
  have short := reach_le found
  have below := images.below m h.mem
  obtain ⟨-, address, -, block, place⟩ := h
  rw [BitVec.toNat_add, BitVec.toNat_ofNat]
  omega

theorem decodeFrom_one (first left : ℕ) (found : images.memories.filter (Covers pc) = [m]) :
    decodeFrom images.memories formats first left pc =
      match decodeOne m.2 m.1 pc formats with
      | .error e => .error e
      | .ok row =>
        if !row.parallel then .ok [row]
        else
          match left with
          | 0 => .error ("execute packet exceeds eight instructions at", first)
          | left + 1 => (decodeFrom images.memories formats first left row.nextPc).map (row :: ·) := by
  rw [decodeFrom, found]

theorem decodeFrom_none (first left : ℕ) (outside : images.memories.filter (Covers pc) = []) :
    decodeFrom images.memories formats first left pc =
      .error ("instruction address is not in exactly one memory at", pc) := by
  rw [decodeFrom, outside]

theorem round_refused (shows : Shows bus images.image) (held : Held images.image p)
    (plain : ¬AtHeader images.image p.next) (rounds : ℕ)
    (stops : slotAt images.image p.next = none ∨ p.instructions.length = 8) :
    ∃ e, fetchRounds bus (rounds + 1) p s = (s, .error e) := by
  rcases round_slot (s := s) shows held plain with ⟨e, refused, -⟩ | ⟨slot, p', found, room, -⟩
  · exact ⟨e, refused rounds⟩
  · rcases stops with none | full
    · rw [none] at found
      cases found
    · exact absurd full room

/-- A row and the round that takes its instruction. -/
structure Takes (bus : Bus β) (images : Images) (formats : List Format) (first : ℕ) (s : β)
    (p : Progress) (row : Row)
    (p' : Progress) : Prop where
  insns : ∃ insn, p'.instructions = p.instructions ++ [insn] ∧ Same row insn
  next : row.nextPc = p'.next.toNat
  held : Held images.image p'
  plain : ¬AtHeader images.image p'.next
  decoded : ∀ left, decodeFrom images.memories formats first left p.next.toNat =
    if !row.parallel then .ok [row]
    else
      match left with
      | 0 => .error ("execute packet exceeds eight instructions at", first)
      | left + 1 => (decodeFrom images.memories formats first left row.nextPc).map (row :: ·)
  fetched : ∀ rounds, fetchRounds bus (rounds + 1) p s = if row.parallel then fetchRounds bus rounds p' s
    else (s, .ok p')

theorem round_agrees (formats : List Format) (first : ℕ) (shows : Shows bus images.image) (held : Held images.image p)
    (plain : ¬AtHeader images.image p.next) (room : p.instructions.length ≤ 7) :
    (∃ row p', Takes bus images formats first s p row p') ∨
    ∃ e e', (∀ left, decodeFrom images.memories formats first left p.next.toNat = .error e) ∧
      ∀ rounds, fetchRounds bus (rounds + 1) p s = (s, .error e') := by
  have refuse : slotAt images.image p.next = none →
      ∃ e', ∀ rounds, fetchRounds bus (rounds + 1) p s = (s, .error e') := by
    intro none
    rcases round_slot (s := s) shows held plain with ⟨e', refused, -⟩ | ⟨slot, p', found, -⟩
    · exact ⟨e', refused⟩
    · rw [none] at found
      cases found
  rcases images.filter_cases p.next.toNat with outside | ⟨m, mem, covers, found⟩
  · obtain ⟨e', refused⟩ := refuse (slotAt_none outside)
    exact .inr ⟨_, e', fun left ↦ decodeFrom_none first left outside, refused⟩
  · have at_image := lies mem covers
    have agree := at_image.agree formats plain
    cases decoded : decodeOne m.2 m.1 p.next.toNat formats with
    | error e =>
      rw [decoded] at agree
      obtain ⟨e', refused⟩ := refuse agree
      refine .inr ⟨e, e', fun left ↦ ?_, refused⟩
      rw [decodeFrom_one first left found, decoded]
    | ok row =>
      rw [decoded] at agree
      obtain ⟨slot, stands, same, parallel, nextPc⟩ := agree
      rcases round_slot (s := s) shows held plain with ⟨e', -, stops⟩ | ⟨slot', p', stands', -, held',
        next, insns, rounds⟩
      · rcases stops with none | full
        · rw [none] at stands
          cases stands
        · omega
      · rw [stands] at stands'
        obtain rfl := Option.some.inj stands'
        refine .inl ⟨row, p', ⟨slot.insn, insns, same⟩, ?_, held', ?_, fun left ↦ ?_, fun n ↦ ?_⟩
        · rw [next, at_image.next stands, nextPc]
        · rw [next]
          exact (slot_alone stands).2
        · rw [decodeFrom_one first left found, decoded]
        · rw [rounds, parallel]

theorem Takes.closes {row : Row} {p' : Progress} {first : ℕ} (takes : Takes bus images formats first s p row p')
    (last : row.parallel = false) (left rounds : ℕ) :
    ∃ rows q, decodeFrom images.memories formats first left p.next.toNat = .ok rows ∧
      fetchRounds bus (rounds + 1) p s = (s, .ok q) ∧ Follows p q rows := by
  obtain ⟨insn, insns, same⟩ := takes.insns
  refine ⟨[row], p', ?_, ?_, [insn], insns, .cons same .nil, congrArg some takes.next⟩
  · rw [takes.decoded, last]
    rfl
  · rw [takes.fetched, last]
    rfl

theorem rounds_agree (formats : List Format) (first rounds : ℕ) (shows : Shows bus images.image)
    (held : Held images.image p)
    (plain : ¬AtHeader images.image p.next) (room : p.instructions.length + left = 7) (enough : left + 1 < rounds) :
    (∃ rows q, decodeFrom images.memories formats first left p.next.toNat = .ok rows ∧
      fetchRounds bus rounds p s = (s, .ok q) ∧ Follows p q rows) ∨
    ∃ e e', decodeFrom images.memories formats first left p.next.toNat = .error e ∧
      fetchRounds bus rounds p s = (s, .error e') := by
  induction left generalizing p rounds with
  | zero =>
    obtain ⟨rounds, rfl⟩ : ∃ more, rounds = more + 1 + 1 := ⟨rounds - 2, by omega⟩
    rcases round_agrees (s := s) formats first shows held plain (by omega) with
      ⟨row, p', takes⟩ | ⟨e, e', refused, stopped⟩
    · obtain ⟨insn, insns, same⟩ := takes.insns
      cases parallel : row.parallel with
      | false => exact .inl (takes.closes parallel _ _)
      | true =>
        have full : p'.instructions.length = 8 := by
          rw [insns, List.length_append, List.length_singleton]
          omega
        obtain ⟨e', refused⟩ := round_refused (s := s) shows takes.held takes.plain rounds (.inr full)
        refine .inr ⟨("execute packet exceeds eight instructions at", first), e', ?_, ?_⟩
        · rw [takes.decoded, parallel]
          rfl
        · rw [takes.fetched, parallel]
          exact refused
    · exact .inr ⟨e, e', refused 0, stopped _⟩
  | succ left ih =>
    obtain ⟨rounds, rfl⟩ : ∃ more, rounds = more + 1 := ⟨rounds - 1, by omega⟩
    rcases round_agrees (s := s) formats first shows held plain (by omega) with
      ⟨row, p', takes⟩ | ⟨e, e', refused, stopped⟩
    · obtain ⟨insn, insns, same⟩ := takes.insns
      cases parallel : row.parallel with
      | false => exact .inl (takes.closes parallel _ _)
      | true =>
        have count : p'.instructions.length + left = 7 := by
          rw [insns, List.length_append, List.length_singleton]
          omega
        have decoded : decodeFrom images.memories formats first (left + 1) p.next.toNat =
            (decodeFrom images.memories formats first left p'.next.toNat).map (row :: ·) := by
          rw [takes.decoded, parallel, ← takes.next]
          rfl
        have fetched : fetchRounds bus (rounds + 1) p s = fetchRounds bus rounds p' s := by
          rw [takes.fetched, if_pos parallel]
        rcases ih rounds takes.held takes.plain count (by omega) with
          ⟨rows, q, more, goes, rest, all, each, last⟩ | ⟨e, e', refused, stopped⟩
        · refine .inl ⟨row :: rows, q, ?_, fetched.trans goes, insn :: rest, ?_, .cons same each, ?_⟩
          · rw [decoded, more]
            rfl
          · rw [all, insns, List.append_assoc, List.singleton_append]
          · obtain ⟨x, xs, rfl⟩ : ∃ x xs, rows = x :: xs := by
              cases rows with
              | nil => cases last
              | cons x xs => exact ⟨x, xs, rfl⟩
            rwa [List.getLast?_cons_cons]
        · refine .inr ⟨e, e', ?_, fetched.trans stopped⟩
          rw [decoded, refused]
          rfl
    · exact .inr ⟨e, e', refused _, stopped _⟩

/-- The tools' decoder takes a packet apart exactly where the core's fetch does, and as it does. -/
theorem decode_fetch (images : Images) (formats : List Format) {bus : Bus β} (maps : Maps bus images) {cpu : Cpu}
    (running : cpu.fault = none) (plain : ¬AtHeader images.image cpu.pc) (s : β) :
    (∃ rows packet, decodePacket images.memories cpu.pc.toNat formats = .ok rows ∧
      fetch bus cpu s = (s, .ok packet) ∧ List.Forall₂ Same rows packet.instructions ∧
      rows.getLast?.map (·.nextPc) = some packet.nextPc.toNat) ∨
    ∃ e e', decodePacket images.memories cpu.pc.toNat formats = .error e ∧ fetch bus cpu s = (s, .error e') := by
  have held : Held images.image ⟨cpu.pc, none, []⟩ := fun h mem ↦ absurd mem (Option.not_mem_none h)
  have fetches : fetch (aligned bus) cpu = fetchRounds (aligned bus) 10 ⟨cpu.pc, none, []⟩ >>= fun p ↦
      (pure ⟨p.instructions, p.next, false⟩ : Exec β Packet) := by
    rw [fetch, running]
  rw [← fetch_aligned, fetches, Machine.bind_apply]
  have room : (⟨cpu.pc, none, []⟩ : Progress).instructions.length + 7 = 7 := rfl
  rcases rounds_agree (s := s) formats cpu.pc.toNat 10 maps.shows held plain room (by decide) with
    ⟨rows, q, decoded, fetched, insns, all, same, last⟩ | ⟨e, e', refused, stopped⟩
  · refine .inl ⟨rows, ⟨q.instructions, q.next, false⟩, decoded, ?_, ?_, last⟩
    · rw [fetched]
      rfl
    · rw [List.nil_append] at all
      rwa [all]
  · refine .inr ⟨e, e', refused, ?_⟩
    rw [stopped]

/-- A fetch packet whose header makes its first word two half words that execute together. -/
def blank : Images where
  memories := [(0x11800000, List.replicate 28 0 ++ [0x01, 0x00, 0x20, 0xe0])]
  whole := fun m mem ↦ List.mem_singleton.mp mem ▸ ⟨by decide, by decide⟩
  below := fun m mem ↦ List.mem_singleton.mp mem ▸ by decide
  apart := List.pairwise_singleton _ _

/-- The packet of the two half words, which both decode. -/
theorem decode_fetch_blank :
    let bus : Bus Unit := ⟨fun s a ↦ (s, blank.word a), fun s _ _ _ _ ↦ (s, true), id⟩
    ∃ rows packet, decodePacket blank.memories (reset 0x11800000).pc.toNat [] = .ok rows ∧
      fetch bus (reset 0x11800000) () = ((), .ok packet) ∧ List.Forall₂ Same rows packet.instructions ∧
      rows.getLast?.map (·.nextPc) = some packet.nextPc.toNat ∧
      rows.map (fun r ↦ (r.compact, r.parallel)) = [(true, true), (true, false)] := by
  intro bus
  have decodes : (decodePacket blank.memories (reset 0x11800000).pc.toNat []).toOption.map
      (·.map fun r ↦ (r.compact, r.parallel)) = some [(true, true), (true, false)] := by decide +kernel
  have maps : Maps bus blank := fun _ _ _ ↦ rfl
  have running : (reset 0x11800000).fault = none := rfl
  have plain : ¬AtHeader blank.image (reset 0x11800000).pc := fun at_header ↦ absurd at_header.1 (by decide)
  rcases decode_fetch blank [] maps running plain () with
    ⟨rows, packet, decoded, fetched, same, next⟩ | ⟨e, e', refused, _⟩
  · rw [decoded] at decodes
    exact ⟨rows, packet, decoded, fetched, same, next, Option.some.inj decodes⟩
  · rw [refused] at decodes
    cases decodes

end Cdj2000Emulator.Checkpoint.DecodePacket
