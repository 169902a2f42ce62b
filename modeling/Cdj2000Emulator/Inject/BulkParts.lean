import Cdj2000Emulator.Checksum.Routines
import Cdj2000Emulator.Library.Portions

namespace Cdj2000Emulator.Inject.BulkParts

open Library.Bytes Library.Portions Checksum


def markerPartHalfwords : ℕ := 448
def markerFirstRecords : ℕ := 219
def markerNextRecords : ℕ := 222
def waveformFirstBytes : ℕ := 0x370
def waveformNextBytes : ℕ := 0x378

/-- `struct.pack` of little-endian halfwords, which refuses values that do not fit. -/
def packHalfwords (values : List ℕ) : Option (List Byte) :=
  if ∀ v ∈ values, v < 0x10000 then some (values.flatMap (little 2)) else none

/-- `field & 0xffff`. -/
def masked (field : ℤ) : ℕ := (field % 0x10000).toNat

/-- What `waveform_parts` and `marker_parts` differ in: the command, the halfwords after the announced length, the
items that fit in a part and the bytes of an item. -/
structure Splitter (α : Type) where
  command : ℕ
  fields : List ℕ
  firstItems : ℕ
  nextItems : ℕ
  unit : ℕ
  bytes : α → List Byte
  first_pos : 0 < firstItems
  next_pos : 0 < nextItems

def Splitter.capacity (s : Splitter α) (number : ℕ) : ℕ := if number = 1 then s.firstItems else s.nextItems

def Splitter.head (s : Splitter α) (total number : ℕ) : Option (List Byte) :=
  if number = 1 then packHalfwords ([s.command, 1, 0, total &&& 0xffff, total >>> 16] ++ s.fields)
  else packHalfwords [s.command, number &&& 0xffff, number >>> 16]

/-- The zeros after the data, refused where the data is too long already. -/
def padded (body : List Byte) : Option (List Byte) :=
  if body.length ≤ markerPartHalfwords * 2 - 2 then
    some (body ++ List.replicate (markerPartHalfwords * 2 - 2 - body.length) 0)
  else none

def Splitter.part (s : Splitter α) (total number : ℕ) (take : List α) : Option (List Byte) := do
  let head ← s.head total number
  let body ← padded (head ++ take.flatMap s.bytes)
  let crc ← packHalfwords [firmwareCrc body]
  return body ++ crc

theorem Splitter.capacity_pos (s : Splitter α) (number : ℕ) : 0 < s.capacity number := by
  rw [Splitter.capacity]
  split_ifs
  · exact s.first_pos
  · exact s.next_pos

/-- The loop of the two functions. -/
def Splitter.partsFrom (s : Splitter α) (items : List α) (index number : ℕ) : Option (List (List Byte)) :=
  let take := (items.drop index).take (s.capacity number)
  match s.part (items.length * s.unit) number take with
  | none => none
  | some part =>
    if items.length ≤ index + take.length then some [part]
    else (s.partsFrom items (index + take.length) (number + 1)).map (part :: ·)
termination_by items.length - index
decreasing_by
  have := s.capacity_pos number
  rw [List.length_take, List.length_drop] at *
  omega

def waveform (fields : ℤ × ℤ) : Splitter Byte where
  command := 0x20
  fields := [masked fields.1, masked fields.2]
  firstItems := waveformFirstBytes
  nextItems := waveformNextBytes
  unit := 1
  bytes := ([·])
  first_pos := by decide
  next_pos := by decide

def waveformParts (entries : List Byte) (fields : ℤ × ℤ) : Option (List (List Byte)) :=
  (waveform fields).partsFrom entries 0 1

def markerRecord (kind milliseconds : ℤ) : List Byte :=
  let t := (milliseconds % 0x1000000).toNat
  [BitVec.ofInt 8 kind, BitVec.ofNat 8 (t >>> 16), BitVec.ofNat 8 t, BitVec.ofNat 8 (t >>> 8)]

def marker (fields : ℤ × ℤ × ℤ) : Splitter (List Byte) where
  command := 0x21
  fields := [masked fields.1, masked fields.2.1, masked fields.2.2, 0]
  firstItems := markerFirstRecords
  nextItems := markerNextRecords
  unit := 4
  bytes := id
  first_pos := by decide
  next_pos := by decide

def markerParts (records : List (List Byte)) (fields : ℤ × ℤ × ℤ) : Option (List (List Byte)) :=
  (marker fields).partsFrom records 0 1

variable {s : Splitter α} {total number command start index n : ℕ} {take items : List α} {takes : List (List α)}
  {parts : List (List Byte)}

/-- The byte a part's data area begins at. -/
def Splitter.origin (s : Splitter α) (number : ℕ) : ℕ := if number = 1 then 10 + 2 * s.fields.length else 6

/-- The header fits its halfwords, and with all the items it leaves room for it fills the part. -/
structure Splitter.Fits (s : Splitter α) : Prop where
  command : s.command < 0x10000
  fields : ∀ f ∈ s.fields, f < 0x10000
  filled : ∀ number, s.origin number + s.capacity number * s.unit = 894

/-- What the receiver reads in a part whose data area begins at byte `start`. -/
structure IsPart (command start total number : ℕ) (data part : List Byte) : Prop where
  length : part.length = 896
  checked : value (part.drop 894) = firmwareCrc (part.take 894)
  commanded : value (part.take 2) = command
  numbered : value ((part.drop 2).take 4) = number
  announced : number = 1 → value ((part.drop 6).take 4) = total
  area : (part.take 894).drop start = data ++ List.replicate (894 - start - data.length) 0

theorem little_halves (v : ℕ) : little 2 (v &&& 0xffff) ++ little 2 (v >>> 16) = little 4 v := by
  have low : v &&& 0xffff = v % 0x10000 := Nat.and_two_pow_sub_one_eq_mod v 16
  have high : v >>> 16 = v / 0x10000 := Nat.shiftRight_eq_div_pow v 16
  rw [low, high]
  simp only [little, List.cons_append, List.nil_append, List.cons.injEq, and_true, ← BitVec.toNat_inj,
    BitVec.toNat_ofNat]
  omega

theorem length_halfwords (values : List ℕ) : (values.flatMap (little 2)).length = 2 * values.length := by
  induction values with
  | nil => rfl
  | cons v values ih =>
    rw [List.flatMap_cons, List.length_append, ih, length_little, List.length_cons]
    omega

theorem length_data {bytes : α → List Byte} {unit : ℕ} (h : ∀ x ∈ take, (bytes x).length = unit) :
    (take.flatMap bytes).length = take.length * unit := by
  induction take with
  | nil => rw [List.flatMap_nil, List.length_nil, List.length_nil, Nat.zero_mul]
  | cons x take ih =>
    rw [List.flatMap_cons, List.length_append, h x List.mem_cons_self, ih fun y hy ↦ h y (List.mem_cons_of_mem x hy),
      List.length_cons, Nat.add_mul, Nat.one_mul, Nat.add_comm]

theorem packHalfwords_eq {values : List ℕ} (h : ∀ v ∈ values, v < 0x10000) :
    packHalfwords values = some (values.flatMap (little 2)) := if_pos h

theorem packHalfwords_crc (data : List Byte) : packHalfwords [firmwareCrc data] =
    some (little 2 (firmwareCrc data)) := by
  have inside : firmwareCrc data < 0x10000 := by
    rw [firmwareCrc_eq]
    exact (xmodem data).isLt
  rw [packHalfwords_eq (by simpa using inside), List.flatMap_singleton]

theorem padded_eq {body : List Byte} (h : body.length ≤ 894) :
    padded body = some (body ++ List.replicate (894 - body.length) 0) := if_pos h

theorem Splitter.Fits.head (fits : s.Fits) (hn : number < 2 ^ 32) (ht : total < 2 ^ 32) :
    ∃ rest, s.head total number = some (little 2 s.command ++ little 4 number ++ rest) ∧
      6 + rest.length = s.origin number ∧ (number = 1 → ∃ more, rest = little 4 total ++ more) := by
  have low : ∀ v : ℕ, v &&& 0xffff < 0x10000 := fun v ↦ Nat.and_lt_two_pow v (show 0xffff < 2 ^ 16 by decide)
  have high : ∀ v : ℕ, v < 2 ^ 32 → v >>> 16 < 0x10000 := by
    intro v hv
    rw [Nat.shiftRight_eq_div_pow]
    omega
  by_cases first : number = 1
  · subst first
    have packs : ∀ v ∈ [s.command, 1, 0, total &&& 0xffff, total >>> 16] ++ s.fields, v < 0x10000 := by
      intro v hv
      rcases List.mem_append.mp hv with hv | hv
      · have := fits.command
        have := low total
        have := high total ht
        simp only [List.mem_cons, List.not_mem_nil, or_false] at hv
        omega
      · exact fits.fields v hv
    refine ⟨little 4 total ++ s.fields.flatMap (little 2), ?_, ?_, fun _ ↦ ⟨_, rfl⟩⟩
    · rw [Splitter.head, if_pos rfl, packHalfwords_eq packs, List.flatMap_append, ← little_halves total]
      rfl
    · rw [List.length_append, length_little, length_halfwords, Splitter.origin, if_pos rfl]
      omega
  · have packs : ∀ v ∈ [s.command, number &&& 0xffff, number >>> 16], v < 0x10000 := by
      intro v hv
      have := fits.command
      have := low number
      have := high number hn
      simp only [List.mem_cons, List.not_mem_nil, or_false] at hv
      omega
    refine ⟨[], ?_, ?_, fun one ↦ absurd one first⟩
    · rw [Splitter.head, if_neg first, packHalfwords_eq packs, ← little_halves number, List.append_nil]
      rfl
    · rw [Splitter.origin, if_neg first, List.length_nil]

theorem Splitter.Fits.part (fits : s.Fits) (hn : number < 2 ^ 32) (ht : total < 2 ^ 32)
    (short : take.length ≤ s.capacity number) (units : ∀ x ∈ take, (s.bytes x).length = s.unit) :
    ∃ part, s.part total number take = some part ∧
      IsPart s.command (s.origin number) total number (take.flatMap s.bytes) part := by
  obtain ⟨rest, packed, size, announces⟩ := fits.head hn ht
  have room := fits.filled number
  have length : (take.flatMap s.bytes).length = take.length * s.unit := length_data units
  have inside : take.length * s.unit ≤ s.capacity number * s.unit := Nat.mul_le_mul_right _ short
  set head := little 2 s.command ++ little 4 number ++ rest with head_def
  have headLength : head.length = s.origin number := by
    rw [head_def, List.length_append, List.length_append, length_little, length_little]
    omega
  set data := take.flatMap s.bytes with data_def
  set body := head ++ data ++ List.replicate (894 - (head ++ data).length) 0 with body_def
  have bodyLength : body.length = 894 := by
    rw [body_def, List.length_append, List.length_replicate, List.length_append]
    omega
  refine ⟨body ++ little 2 (firmwareCrc body), ?_, ?_⟩
  · have fit : (head ++ data).length ≤ 894 := by
      rw [List.length_append]
      omega
    rw [Splitter.part, packed, Option.bind_eq_bind, Option.bind_some, ← data_def, padded_eq fit, Option.bind_some,
      packHalfwords_crc]
    rfl
  have kept : (body ++ little 2 (firmwareCrc body)).take 894 = body := List.take_left' bodyLength
  have whole : body ++ little 2 (firmwareCrc body) = little 2 s.command ++ (little 4 number ++ (rest ++ (data ++
      List.replicate (894 - (head ++ data).length) 0 ++ little 2 (firmwareCrc body)))) := by
    rw [body_def, head_def]
    simp only [List.append_assoc]
  have sizes : ∀ k v : ℕ, (little k v).length = k := length_little
  have crc : firmwareCrc body < 256 ^ 2 := by
    rw [firmwareCrc_eq]
    exact (xmodem body).isLt
  constructor
  · rw [List.length_append, bodyLength, length_little]
  · rw [kept, List.drop_left' bodyLength, value_little crc]
  · rw [whole, List.take_left' (sizes 2 _), value_little fits.command]
  · rw [whole, List.drop_left' (sizes 2 _), List.take_left' (sizes 4 _), value_little hn]
  · intro one
    obtain ⟨more, rfl⟩ := announces one
    rw [whole, ← List.append_assoc (little 2 _), List.drop_left' (by rw [List.length_append, sizes, sizes]),
      List.append_assoc, List.take_left' (sizes 4 _), value_little ht]
  · rw [kept, body_def, List.append_assoc, List.drop_left' headLength, List.length_append, headLength,
      Nat.sub_sub]

/-- Parts that carry the items taken for them, numbered from `n`. -/
inductive Carry (s : Splitter α) (total : ℕ) : ℕ → List (List α) → List (List Byte) → Prop
  | nil {n : ℕ} : Carry s total n [] []
  | cons {n : ℕ} {take : List α} {takes : List (List α)} {part : List Byte} {parts : List (List Byte)} :
      IsPart s.command (s.origin n) total n (take.flatMap s.bytes) part → Carry s total (n + 1) takes parts →
      Carry s total n (take :: takes) (part :: parts)

theorem Splitter.Fits.partsFrom (fits : s.Fits) (units : ∀ x ∈ items, (s.bytes x).length = s.unit)
    (ht : items.length * s.unit < 2 ^ 32) (unit_pos : 0 < s.unit) (behind : n ≤ index + 1) (hn : 0 < n)
    (inside : index < items.length ∨ n = 1) :
    ∃ takes parts, s.partsFrom items index n = some parts ∧ Portioned s.capacity n (items.drop index) takes ∧
      Carry s (items.length * s.unit) n takes parts := by
  obtain ⟨left, measure⟩ : ∃ left, left = items.length - index := ⟨_, rfl⟩
  induction left using Nat.strong_induction_on generalizing index n with | _ left ih => ?_
  have bound : items.length ≤ items.length * s.unit := Nat.le_mul_of_pos_right _ unit_pos
  have units' : ∀ x ∈ (items.drop index).take (s.capacity n), (s.bytes x).length = s.unit := by
    intro x hx
    exact units x (List.mem_of_mem_drop (List.mem_of_mem_take hx))
  have number : n < 2 ^ 32 := by omega
  obtain ⟨part, built, reads⟩ := fits.part number ht (List.length_take_le _ _) units'
  have pos := s.capacity_pos n
  have taken : ((items.drop index).take (s.capacity n)).length = min (s.capacity n) (items.length - index) := by
    rw [List.length_take, List.length_drop]
  by_cases ends : items.length ≤ index + ((items.drop index).take (s.capacity n)).length
  · have all : (items.drop index).length ≤ s.capacity n := by
      rw [List.length_drop]
      omega
    refine ⟨[items.drop index], [part], ?_, .last all, ?_⟩
    · rw [Splitter.partsFrom, built]
      simp only [if_pos ends]
    · rw [List.take_of_length_le all] at reads
      exact .cons reads .nil
  · have next : index + ((items.drop index).take (s.capacity n)).length = index + s.capacity n := by omega
    obtain ⟨takes, parts, rest, portions, carry⟩ :=
      ih (left - s.capacity n) (by omega) (by omega : n + 1 ≤ index + s.capacity n + 1) (by omega) (by omega)
        (by omega)
    refine ⟨(items.drop index).take (s.capacity n) :: takes, part :: parts, ?_, ?_, .cons reads carry⟩
    · rw [Splitter.partsFrom, built]
      rw [next] at ends
      simp only [next, if_neg ends, rest, Option.map_some]
    · refine .more ?_ (by rwa [List.drop_drop])
      rw [List.length_drop]
      omega

/-- The data areas of parts numbered from `n`, those after the first part from byte 6. -/
def areas (first : ℕ) : ℕ → List (List Byte) → List (List Byte)
  | _, [] => []
  | n, part :: parts => (part.take 894).drop (if n = 1 then first else 6) :: areas first (n + 1) parts

def numbers (parts : List (List Byte)) : List ℕ := parts.map fun part ↦ value ((part.drop 2).take 4)

/-- What the receiver is owed for a content, the first data area beginning at byte `first`. -/
structure Delivers (command first : ℕ) (content : List Byte) (parts : List (List Byte)) : Prop where
  sized : ∀ part ∈ parts, part.length = 896
  checked : ∀ part ∈ parts, value (part.drop 894) = firmwareCrc (part.take 894)
  commanded : ∀ part ∈ parts, value (part.take 2) = command
  numbered : numbers parts = List.range' 1 parts.length
  announced : (parts.head?.map fun part ↦ value ((part.drop 6).take 4)) = some content.length
  joined : (areas first 1 parts).flatten.take content.length = content
  /-- Every part after the first begins inside the content, so the areas before it are full and it is not empty. -/
  needed : ∀ i, 0 < i → i < parts.length → ((areas first 1 parts).take i).flatten.length < content.length

theorem Carry.length (h : Carry s total n takes parts) : takes.length = parts.length := by
  induction h with
  | nil => rfl
  | cons _ _ ih => rw [List.length_cons, List.length_cons, ih]

theorem Carry.mem (h : Carry s total n takes parts) {part : List Byte} (mem : part ∈ parts) :
    ∃ m data, IsPart s.command (s.origin m) total m data part := by
  induction h with
  | nil => cases mem
  | cons reads _ ih =>
    rcases List.mem_cons.mp mem with rfl | mem
    · exact ⟨_, _, reads⟩
    · exact ih mem

theorem Carry.numbered (h : Carry s total n takes parts) : numbers parts = List.range' n parts.length := by
  induction h with
  | nil => rfl
  | cons reads _ ih =>
    rw [List.length_cons, List.range'_succ, ← ih, numbers, List.map_cons, reads.numbered]
    rfl

theorem Splitter.Fits.areas (fits : s.Fits) (portions : Portioned s.capacity n items takes)
    (carry : Carry s total n takes parts) (units : ∀ x ∈ items, (s.bytes x).length = s.unit) :
    (∃ k, (areas (s.origin 1) n parts).flatten = items.flatMap s.bytes ++ List.replicate k 0) ∧
      ∀ i < takes.length, (areas (s.origin 1) n parts).take i = (takes.take i).map (·.flatMap s.bytes) := by
  have origin : ∀ m, (if m = 1 then s.origin 1 else 6) = s.origin m := by
    intro m
    simp only [Splitter.origin]
    split_ifs <;> rfl
  induction portions generalizing parts with
  | @last n items short =>
    obtain _ | ⟨reads, rest⟩ := carry
    cases rest
    refine ⟨⟨894 - s.origin n - (items.flatMap s.bytes).length, ?_⟩, ?_⟩
    · simp only [BulkParts.areas, origin, List.flatten_cons, List.flatten_nil, List.append_nil]
      exact reads.area
    · intro i hi
      obtain rfl : i = 0 := by simpa using hi
      rfl
  | @more n items takes longer portions ih =>
    obtain _ | ⟨reads, rest⟩ := carry
    obtain ⟨⟨k, joined⟩, firsts⟩ := ih rest fun x hx ↦ units x (List.mem_of_mem_drop hx)
    have full : ((items.take (s.capacity n)).flatMap s.bytes).length = 894 - s.origin n := by
      have := fits.filled n
      rw [length_data fun x hx ↦ units x (List.mem_of_mem_take hx), List.length_take_of_le longer.le]
      omega
    have area := reads.area
    rw [full, Nat.sub_self, List.replicate_zero, List.append_nil] at area
    refine ⟨⟨k, ?_⟩, ?_⟩
    · rw [BulkParts.areas, List.flatten_cons, origin, area, joined, ← List.append_assoc, ← List.flatMap_append,
        List.take_append_drop]
    · intro i hi
      cases i with
      | zero => rfl
      | succ i =>
        rw [BulkParts.areas, origin, area, List.take_succ_cons, firsts i (by simpa using hi), List.take_succ_cons,
          List.map_cons]

theorem Splitter.Fits.delivers (fits : s.Fits) (units : ∀ x ∈ items, (s.bytes x).length = s.unit)
    (ht : items.length * s.unit < 2 ^ 32) (unit_pos : 0 < s.unit) :
    ∃ parts, s.partsFrom items 0 1 = some parts ∧
      Delivers s.command (s.origin 1) (items.flatMap s.bytes) parts := by
  obtain ⟨takes, parts, built, portions, carry⟩ :=
    fits.partsFrom units ht unit_pos (Nat.le_add_left 1 0) Nat.one_pos (.inr rfl)
  rw [List.drop_zero] at portions
  obtain ⟨⟨k, joined⟩, firsts⟩ := fits.areas portions carry units
  refine ⟨parts, built, ?_⟩
  constructor
  · intro part mem
    obtain ⟨_, _, reads⟩ := carry.mem mem
    exact reads.length
  · intro part mem
    obtain ⟨_, _, reads⟩ := carry.mem mem
    exact reads.checked
  · intro part mem
    obtain ⟨_, _, reads⟩ := carry.mem mem
    exact reads.commanded
  · exact carry.numbered
  · cases carry with
    | nil => exact absurd rfl portions.ne_nil
    | cons reads _ => rw [List.head?_cons, Option.map_some, reads.announced rfl, length_data units]
  · rw [joined, List.take_left]
  · intro i later hi
    rw [← carry.length] at hi
    have shorter := portions.starts later hi
    have units' : ∀ x ∈ (takes.take i).flatten, (s.bytes x).length = s.unit := by
      intro x hx
      obtain ⟨take, mem, inside⟩ := List.mem_flatten.mp hx
      exact units x (portions.mem (List.mem_of_mem_take mem) inside)
    have flat : ((takes.take i).map (·.flatMap s.bytes)).flatten = (takes.take i).flatten.flatMap s.bytes := by
      rw [← List.flatMap_def, ← List.flatMap_id, List.flatMap_assoc]
      rfl
    rw [firsts i hi, flat, length_data units', length_data units]
    exact Nat.mul_lt_mul_of_pos_right shorter unit_pos

theorem masked_lt (field : ℤ) : masked field < 0x10000 := by
  rw [masked]
  omega

theorem waveform_fits (fields : ℤ × ℤ) : (waveform fields).Fits := by
  constructor
  · exact (by decide : 0x20 < 0x10000)
  · intro f hf
    simp only [waveform, List.mem_cons, List.not_mem_nil, or_false] at hf
    rcases hf with rfl | rfl <;> exact masked_lt _
  · intro number
    have first : 14 + waveformFirstBytes * 1 = 894 := by decide
    have next : 6 + waveformNextBytes * 1 = 894 := by decide
    rw [Splitter.origin, Splitter.capacity]
    split_ifs
    · exact first
    · exact next

theorem marker_fits (fields : ℤ × ℤ × ℤ) : (marker fields).Fits := by
  constructor
  · exact (by decide : 0x21 < 0x10000)
  · intro f hf
    simp only [marker, List.mem_cons, List.not_mem_nil, or_false] at hf
    rcases hf with rfl | rfl | rfl | rfl
    · exact masked_lt _
    · exact masked_lt _
    · exact masked_lt _
    · decide
  · intro number
    have first : 18 + markerFirstRecords * 4 = 894 := by decide
    have next : 6 + markerNextRecords * 4 = 894 := by decide
    rw [Splitter.origin, Splitter.capacity]
    split_ifs
    · exact first
    · exact next

theorem length_markerRecord (kind milliseconds : ℤ) : (markerRecord kind milliseconds).length = 4 := rfl

/-- The waveform and the marker records arrive whole, whatever the other header fields. -/
theorem bulk_delivered :
    (∀ (entries : List Byte) (fields : ℤ × ℤ), entries.length < 2 ^ 32 →
      ∃ parts, waveformParts entries fields = some parts ∧ Delivers 0x20 14 entries parts) ∧
    ∀ (records : List (List Byte)) (fields : ℤ × ℤ × ℤ), (∀ record ∈ records, record.length = 4) →
      records.flatten.length < 2 ^ 32 →
      ∃ parts, markerParts records fields = some parts ∧ Delivers 0x21 18 records.flatten parts := by
  constructor
  · intro entries fields small
    have units : ∀ x ∈ entries, ((waveform fields).bytes x).length = (waveform fields).unit := fun _ _ ↦ rfl
    obtain ⟨parts, built, delivers⟩ := (waveform_fits fields).delivers units
        (by rwa [← Nat.mul_one entries.length] at small)
      Nat.one_pos
    have content : entries.flatMap (waveform fields).bytes = entries := List.flatMap_singleton' entries
    rw [content] at delivers
    exact ⟨parts, built, delivers⟩
  · intro records fields units small
    have total : records.flatten.length = records.length * 4 := by
      rw [← List.flatMap_id]
      exact length_data units
    obtain ⟨parts, built, delivers⟩ := (marker_fits fields).delivers units (by rwa [total] at small)
      (by decide : 0 < 4)
    have content : records.flatMap (marker fields).bytes = records.flatten := List.flatMap_id
    rw [content] at delivers
    exact ⟨parts, built, delivers⟩

theorem length_areas_le (first n : ℕ) (parts : List (List Byte)) :
    (areas first n parts).flatten.length ≤ parts.length * 894 := by
  induction parts generalizing n with
  | nil => exact Nat.zero_le _
  | cons part parts ih =>
    have later := ih (n + 1)
    rw [areas, List.flatten_cons, List.length_append, List.length_drop, List.length_take, List.length_cons]
    omega

theorem Delivers.several {first : ℕ} {content : List Byte} (h : Delivers command first content parts)
    (long : 894 < content.length) : 1 < parts.length := by
  have whole := congrArg List.length h.joined
  have room := length_areas_le first 1 parts
  rw [List.length_take] at whole
  omega

/-- A waveform of 1000 entries and 300 records take two parts each, at least. -/
theorem bulk_delivered_short :
    (∃ parts, waveformParts (List.replicate 1000 0x85) (1, 0) = some parts ∧ 1 < parts.length ∧
      Delivers 0x20 14 (List.replicate 1000 0x85) parts) ∧
    ∃ parts, markerParts ((List.range 300).map fun i ↦ markerRecord 1 (500 * i)) (0, 0, 0) = some parts ∧
      1 < parts.length ∧ Delivers 0x21 18 ((List.range 300).map fun i ↦
        markerRecord 1 (500 * i)).flatten parts := by
  have four : ∀ record ∈ (List.range 300).map fun i ↦ markerRecord 1 (500 * i), record.length = 4 := by
    intro record mem
    obtain ⟨i, -, rfl⟩ := List.mem_map.mp mem
    exact length_markerRecord 1 (500 * i)
  have size : ((List.range 300).map fun i ↦ markerRecord 1 (500 * i)).flatten.length = 1200 := by decide +kernel
  have entries : (List.replicate 1000 (0x85 : Byte)).length = 1000 := List.length_replicate
  obtain ⟨waveform, built, delivers⟩ := bulk_delivered.1 (List.replicate 1000 0x85) (1, 0) (by rw [entries]; decide)
  obtain ⟨markers, built', delivers'⟩ := bulk_delivered.2 _ (0, 0, 0) four (by rw [size]; decide)
  exact ⟨⟨waveform, built, delivers.several (by rw [entries]; decide), delivers⟩,
    ⟨markers, built', delivers'.several (by rw [size]; decide), delivers'⟩⟩

end Cdj2000Emulator.Inject.BulkParts
