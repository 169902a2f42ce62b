import Cdj2000Emulator.Checkpoint.RoundTrip

namespace Cdj2000Emulator.Checkpoint.Migration

open Library.Bytes
open Library.Bytes.Block (get put slice zeros bytes)
open Library.Bytes.Reader
open Layout File Pages RoundTrip

/-- The parts that came with different schemas; the McASP control came in two halves, and the
receive buffer of an SPI lies in former padding. -/
inductive Part
  | base
  | intc
  | timers
  | spi (second : Bool)
  | receiveBuffer (second : Bool)
  | cache
  | mcaspControl
  | mcaspTransmit
  | edma
  | syscfgPriority
  | intcDelivery
  | wm8740
  | spiTransfer
  | scheduler
  deriving DecidableEq

namespace Part

def offset : Part → ℕ
  | base => 0
  | intc => Layout.intc
  | timers => Layout.timers
  | spi second => spis + sizeofSpi * second.toNat
  | receiveBuffer second => spis + sizeofSpi * second.toNat + 81
  | cache => Layout.cache
  | mcaspControl => Layout.mcaspControl
  | mcaspTransmit => Layout.mcaspControl + 660
  | edma => Layout.edma
  | syscfgPriority => Layout.syscfgPriority
  | intcDelivery => Layout.intcDelivery
  | wm8740 => Layout.wm8740
  | spiTransfer => Layout.spiTransfer
  | scheduler => Layout.scheduler

def size : Part → ℕ
  | base => Layout.intc
  | intc => sizeofIntc
  | timers => sizeofTimer * timerCount
  | spi _ => 81
  | receiveBuffer _ => 3
  | cache => sizeofCache
  | mcaspControl => 660
  | mcaspTransmit => 1252
  | edma => sizeofEdma
  | syscfgPriority => sizeofSyscfgPriority
  | intcDelivery => sizeofIntcDelivery
  | wm8740 => sizeofWm8740
  | spiTransfer => sizeofSpiTransfer
  | scheduler => sizeofScheduler

def since : Part → ℕ
  | base => 1
  | intc => 3
  | timers => 4
  | spi _ => 5
  | cache => 6
  | mcaspControl => 7
  | mcaspTransmit | edma | syscfgPriority | intcDelivery => 8
  | receiveBuffer _ | wm8740 => 9
  | spiTransfer => 10
  | scheduler => 11

def reset : (p : Part) → Block p.size
  | base => zeros
  | intc => intcReset
  | timers => timersReset
  | spi _ => slice spiReset 0 81
  | receiveBuffer _ => slice spiReset 81 3
  | cache => cacheReset
  | mcaspControl => slice mcaspControlReset 0 660
  | mcaspTransmit => slice mcaspControlReset 660 1252
  | edma => edmaReset
  | syscfgPriority => syscfgPriorityReset
  | intcDelivery => intcDeliveryReset
  | wm8740 => wm8740Reset
  | spiTransfer => spiTransferReset
  | scheduler => schedulerReset

/-- What stands for the part in a file that lacks it: its reset value, but for the scheduler the
all-zero legacy mode. -/
def absent : (p : Part) → Block p.size
  | scheduler => zeros
  | p => reset p

def all : List Part :=
  [base, intc, timers, spi false, receiveBuffer false, spi true, receiveBuffer true, cache,
    mcaspControl, mcaspTransmit, edma, syscfgPriority, intcDelivery, wm8740, spiTransfer, scheduler]

variable (p : Part)

def isReceiveBuffer : Bool :=
  match p with
  | receiveBuffer _ => true
  | _ => false

def patch : Patch := ⟨p.offset, p.size, p.absent⟩

/-- The part as it stands in a state. -/
def of (s : Image) : Block p.size := slice s p.offset p.size

/-- The migration of a file of schema `k` overwrites the part. -/
def overwritten (k : ℕ) : Bool :=
  decide (k < p.since) && !(p.isReceiveBuffer && decide (5 ≤ k) && decide (k ≤ 7))

variable {p}

theorem mem_all : p ∈ all := by
  cases p with
  | spi second => cases second <;> simp [all]
  | receiveBuffer second => cases second <;> simp [all]
  | _ => simp [all]

theorem room : p.offset + p.size ≤ stateSize := by
  have fits : ∀ q ∈ all, q.offset + q.size ≤ stateSize := by decide +kernel
  exact fits p mem_all

theorem nodup_all : all.Nodup := by decide +kernel

theorem apart {q : Part} (h : p ≠ q) : Patch.Apart p.patch q.patch := by
  have disjoint : ∀ p ∈ all, ∀ q ∈ all, p ≠ q →
      p.offset + p.size ≤ q.offset ∨ q.offset + q.size ≤ p.offset := by decide +kernel
  exact disjoint p mem_all q mem_all h

end Part

theorem parts_cover {i : ℕ} (h : i < stateSize) : ∃ p : Part, p.offset ≤ i ∧ i < p.offset + p.size := by
  by_contra none
  push Not at none
  have bound : i < 15808 := h
  have base : 0 ≤ i → 8020 ≤ i := none .base
  have intc : 8020 ≤ i → 8080 ≤ i := none .intc
  have timers : 8080 ≤ i → 8280 ≤ i := none .timers
  have spi0 : 8280 ≤ i → 8361 ≤ i := none (.spi false)
  have receiveBuffer0 : 8361 ≤ i → 8364 ≤ i := none (.receiveBuffer false)
  have spi1 : 8364 ≤ i → 8445 ≤ i := none (.spi true)
  have receiveBuffer1 : 8445 ≤ i → 8448 ≤ i := none (.receiveBuffer true)
  have cache : 8448 ≤ i → 9520 ≤ i := none .cache
  have mcaspControl : 9520 ≤ i → 10180 ≤ i := none .mcaspControl
  have mcaspTransmit : 10180 ≤ i → 11432 ≤ i := none .mcaspTransmit
  have edma : 11432 ≤ i → 15688 ≤ i := none .edma
  have syscfgPriority : 15688 ≤ i → 15700 ≤ i := none .syscfgPriority
  have intcDelivery : 15700 ≤ i → 15704 ≤ i := none .intcDelivery
  have wm8740 : 15704 ≤ i → 15736 ≤ i := none .wm8740
  have spiTransfer : 15736 ≤ i → 15776 ≤ i := none .spiTransfer
  have scheduler : 15776 ≤ i → 15808 ≤ i := none .scheduler
  omega

/-- The state of a file of schema `k`, brought up to date. -/
def upgrade (k : ℕ) (s : Image) : Image := migrate (fun j ↦ decide (j = k)) s

variable {k : ℕ} {s : Image} {p : Part}

theorem spisReset_parts : slice spisReset 0 84 = spiReset ∧ slice spisReset 84 84 = spiReset := by
  constructor
  · rw [spisReset, Block.slice_put_disjoint (by decide), Block.slice_put_inside (by decide) (by decide)
      (by decide), Nat.sub_zero]
    exact Block.slice_self
  · rw [spisReset, Block.slice_put_inside (by decide) (by decide) (by decide)]
    exact Block.slice_self

theorem put_spi (second : Bool) : put (Part.spi second).offset spiReset s =
    put (Part.receiveBuffer second).offset (Part.receiveBuffer second).absent
      (put (Part.spi second).offset (Part.spi second).absent s) :=
  Block.put_split (a := 81) (k := 3) rfl

theorem put_spis : put spis spisReset s =
    put (Part.receiveBuffer true).offset (Part.receiveBuffer true).absent
      (put (Part.spi true).offset (Part.spi true).absent
        (put (Part.receiveBuffer false).offset (Part.receiveBuffer false).absent
          (put (Part.spi false).offset (Part.spi false).absent s))) := by
  have halves : put spis spisReset s = put (spis + 84) (slice spisReset 84 84)
      (put spis (slice spisReset 0 84) s) := Block.put_split rfl
  rw [halves, spisReset_parts.1, spisReset_parts.2, ← put_spi, ← put_spi]
  rfl

theorem put_mcaspControl : put mcaspControl mcaspControlReset s =
    put Part.mcaspTransmit.offset Part.mcaspTransmit.absent
      (put Part.mcaspControl.offset Part.mcaspControl.absent s) :=
  Block.put_split (a := 660) (k := 1252) rfl

theorem put_upgraded : put mcaspControl (put 0 (slice s mcaspControl schema7McaspControlSize)
    mcaspControlReset) s = put Part.mcaspTransmit.offset Part.mcaspTransmit.absent s :=
  Block.put_kept (a := 660) (k := 1252) rfl

theorem clear_receiveBuffer (second : Bool) :
    clear (spis + sizeofSpi * second.toNat + 82) 2
      (clear (spis + sizeofSpi * second.toNat + 81) 1 s) =
      put (Part.receiveBuffer second).offset (Part.receiveBuffer second).absent s := by
  have blank : (Part.receiveBuffer second).absent = zeros := by
    change slice spiReset 81 3 = zeros
    rw [spiReset, setNumber, Block.slice_put_disjoint (by decide), set32, setNumber,
      Block.slice_put_disjoint (by decide), Block.slice_zeros]
  have halves : put (spis + sizeofSpi * second.toNat + 81) (zeros : Block 3) s =
      put (spis + sizeofSpi * second.toNat + 81 + 1) (slice zeros 1 2)
        (put (spis + sizeofSpi * second.toNat + 81) (slice zeros 0 1) s) := Block.put_split rfl
  rw [Block.slice_zeros, Block.slice_zeros] at halves
  rw [blank]
  exact halves.symm

theorem clear_receiveBuffers :
    (List.range spiCount).foldl (fun s i ↦
      clear (spis + sizeofSpi * i + 82) 2 (clear (spis + sizeofSpi * i + 81) 1 s)) s =
    put (Part.receiveBuffer true).offset (Part.receiveBuffer true).absent
      (put (Part.receiveBuffer false).offset (Part.receiveBuffer false).absent s) := by
  rw [← clear_receiveBuffer, ← clear_receiveBuffer]
  rfl

/-- The migration lays the absent parts over the state, in the order of the parts. -/
theorem upgrade_eq (lower : 1 ≤ k) (upper : k ≤ 11) :
    upgrade k s = Patch.overlay ((Part.all.filter (·.overwritten k)).map Part.patch) s := by
  interval_cases k
  all_goals
    simp [upgrade, migrate, when, Part.all, Part.overwritten, Part.isReceiveBuffer, Part.since,
      Part.patch]
  all_goals first
    | simp only [put_spis, put_mcaspControl, put_upgraded, clear_receiveBuffers]; rfl
    | rfl

/-- What the migration does to a part. -/
theorem of_upgrade (lower : 1 ≤ k) (upper : k ≤ 11) :
    p.of (upgrade k s) = if p.overwritten k then p.absent else p.of s := by
  rw [upgrade_eq lower upper]
  split_ifs with laid
  · have apart : ((Part.all.filter (·.overwritten k)).map Part.patch).Pairwise Patch.Apart := by
      rw [List.pairwise_map]
      exact (Part.nodup_all.sublist List.filter_sublist).imp Part.apart
    have mem : p.patch ∈ (Part.all.filter (·.overwritten k)).map Part.patch :=
      List.mem_map_of_mem (List.mem_filter.mpr ⟨Part.mem_all, laid⟩)
    exact Patch.slice_overlay_mem apart mem Part.room
  · refine Patch.slice_overlay_apart (p := p.patch) fun q hq ↦ ?_
    obtain ⟨r, hr, rfl⟩ := List.mem_map.mp hq
    have different : p ≠ r := by
      rintro rfl
      exact laid (List.mem_filter.mp hr).2
    exact Part.apart different

def schemaOf (file : List Byte) : ℕ := value (bytes (window file 8 4))

theorem advances_readHeader : Advances readHeader headerSize := by
  have size : headerSize = 8 + (4 + (4 + (4 + (4 + (9 * 4 + (4 + (4 + (4 + (4 + (4 + (8 + (8 + 0))))))))))))
    := by decide
  rw [size]
  exact (advances_fread 8).bind fun _ ↦ (advances_number 4).bind fun _ ↦
    (advances_number 4).bind fun _ ↦ (advances_number 4).bind fun _ ↦ (advances_number 4).bind fun _ ↦
    (advances_numbers 4 9).bind fun _ ↦ (advances_number 4).bind fun _ ↦
    (advances_number 4).bind fun _ ↦ (advances_number 4).bind fun _ ↦ (advances_number 4).bind fun _ ↦
    (advances_number 4).bind fun _ ↦ (advances_number 8).bind fun _ ↦ (advances_number 8).bind fun _ ↦
    advances_pure

theorem readHeader_schema {file rest : List Byte} {h : Header} (read : readHeader file = some (h, rest)) :
    h.schema = schemaOf file := by
  obtain ⟨magic, file₁, first, read⟩ := bind_eq_some.mp read
  obtain ⟨schema, file₂, second, read⟩ := bind_eq_some.mp read
  obtain ⟨-, -, rfl⟩ := fread_eq_some.mp first
  obtain ⟨b, word, rfl⟩ := map_eq_some.mp second
  obtain ⟨-, rfl, -⟩ := fread_eq_some.mp word
  have yields : h.schema = value (bytes (window (file.drop 8) 0 4)) := by
    repeat obtain ⟨_, _, -, read⟩ := bind_eq_some.mp read
    obtain ⟨rfl, -⟩ := pure_eq_some.mp read
    rfl
  rw [yields, window_drop]
  rfl

theorem accepted_flags {header : Header} (ok : header.ok = true) (upper : header.schema ≤ 11) :
    1 ≤ header.schema ∧ header.old = (fun j ↦ decide (j = header.schema)) ∧
    header.stateSize = stateSizeOf header.schema ∧
    (!header.isSchema 1) = hasSharedRam header.schema ∧ header.current = false := by
  have schema_of {j : ℕ} (h : header.isSchema j = true) : header.schema = j := by
    rw [Header.isSchema, Bool.and_eq_true] at h
    exact beq_iff_eq.mp h.2
  have notCurrent : header.current = false := by
    rw [← Bool.not_eq_true]
    intro current
    have twelve := schema_of current
    unfold checkpointSchema at twelve
    omega
  have known : header.anyOld = true := by
    simp only [Header.ok, notCurrent, Bool.or_false, Bool.and_eq_true] at ok
    exact ok.1.1.1.1.1.1.1.1.1
  obtain ⟨j, range, old⟩ := List.any_eq_true.mp known
  have parts := old
  rw [Header.old, Bool.and_eq_true, Bool.and_eq_true, beq_iff_eq] at parts
  obtain rfl := schema_of parts.1.1
  have only : header.old = fun j ↦ decide (j = header.schema) := by
    funext i
    by_cases same : i = header.schema
    · rw [same, old, decide_eq_true rfl]
    · rw [decide_eq_false same, ← Bool.not_eq_true, Header.old, Bool.and_eq_true, Bool.and_eq_true]
      exact fun h ↦ same (schema_of h.1.1).symm
  refine ⟨(List.mem_range'_1.mp range).1, only, parts.1.2, ?_, notCurrent⟩
  by_cases first : header.schema = 1
  · rw [first] at parts
    rw [parts.1.1, first]
    rfl
  · have other : header.isSchema 1 = false := by
      rw [← Bool.not_eq_true]
      exact fun h ↦ first (schema_of h)
    rw [other, hasSharedRam, Bool.not_false, bne_iff_ne.mpr first]

def storedBefore (bitmap : Block bitmapSize) : List ℕ → ℕ → ℕ
  | [], _ => 0
  | q :: ps, p => if q = p then 0 else (if bit bitmap q then pageSize else 0) + storedBefore bitmap ps p

theorem readPages_page {bitmap : Block bitmapSize} {ps : List ℕ} {m m' : Progress}
    {file rest : List Byte} {p : ℕ} (read : readPages bitmap ps m file = some (m', rest))
    (nodup : ps.Nodup) (range : ∀ q ∈ ps, q < pageCount) :
    page m'.sdram p =
      if p ∈ ps ∧ bit bitmap p then window file (storedBefore bitmap ps p) pageSize
      else page m.sdram p := by
  have room {q : ℕ} (h : q < pageCount) : q * pageSize + pageSize ≤ sdramSize := by
    have size : sdramSize = 8192 * pageSize := by decide
    have count : pageCount = 8192 := by decide
    rw [size, ← Nat.succ_mul]
    exact Nat.mul_le_mul_right _ (by omega)
  induction ps generalizing m file with
  | nil =>
    obtain ⟨rfl, -⟩ := pure_eq_some.mp read
    simp
  | cons q ps ih =>
    rw [List.nodup_cons] at nodup
    have later : ∀ r ∈ ps, r < pageCount := fun r hr ↦ range r (List.mem_cons_of_mem q hr)
    rw [readPages] at read
    split_ifs at read with hq
    · obtain ⟨data, middle, first, read⟩ := bind_eq_some.mp read
      obtain ⟨-, rfl, rfl⟩ := fread_eq_some.mp first
      rw [ih read nodup.2 later, storedBefore]
      by_cases same : q = p
      · subst same
        have copied : page (put (q * pageSize) (window file 0 pageSize) m.sdram) q =
            window file 0 pageSize := by
          rw [page, Block.slice_put_inside le_rfl le_rfl (room (range q (by simp))), Nat.sub_self,
            Block.slice_self]
        simp [nodup.1, hq, copied]
      · have kept : page (put (q * pageSize) (window file 0 pageSize) m.sdram) p = page m.sdram p := by
          refine Block.slice_put_disjoint ?_
          rcases Nat.lt_or_gt_of_ne same with before | after
          · exact Or.inr (by rw [← Nat.succ_mul]; exact Nat.mul_le_mul_right _ before)
          · exact Or.inl (by rw [← Nat.succ_mul]; exact Nat.mul_le_mul_right _ after)
        simp [same, Ne.symm same, hq, kept, window_drop]
    · rw [ih read nodup.2 later, storedBefore]
      by_cases same : q = p
      · subst same
        simp [hq]
      · simp [same, Ne.symm same, hq]

def sharedRamAt (k : ℕ) : ℕ := headerSize + stateSizeOf k + l2Size
def bitmapAt (k : ℕ) : ℕ := sharedRamAt k + if hasSharedRam k then sharedRamSize else 0
def pagesAt (k : ℕ) : ℕ := bitmapAt k + bitmapSize

/-- The memories of a file of schema `k` as its bytes give them; what the schema lacks is zero. -/
structure RestoresMemories (k : ℕ) (file : List Byte) (s : Snapshot) : Prop where
  l2 : s.l2 = window file (headerSize + stateSizeOf k) l2Size
  sharedRam : s.sharedRam = if hasSharedRam k then window file (sharedRamAt k) sharedRamSize else zeros
  l1d : s.l1d = zeros
  sdram : ∀ p < pageCount, page s.sdram p =
    if bit (window file (bitmapAt k) bitmapSize) p then
      window file (pagesAt k + storedBefore (window file (bitmapAt k) bitmapSize) pages p) pageSize
    else zeros

theorem read_older {file : List Byte} {r : Snapshot} (read : readWithL1d file = .ok r)
    (upper : schemaOf file ≤ 11) :
    1 ≤ schemaOf file ∧ r.state = upgrade (schemaOf file)
      (put 0 (window file headerSize (stateSizeOf (schemaOf file))) zeros) ∧
    RestoresMemories (schemaOf file) file r := by
  have run : ∃ rest, load file = some (r, rest) := by
    rw [readWithL1d] at read
    split at read
    · next s rest h => exact ⟨rest, by rw [h, Except.ok.inj read]⟩
    · cases read
  obtain ⟨rest, run⟩ := run
  obtain ⟨header, middle, first, run⟩ := bind_eq_some.mp run
  obtain ⟨-, rfl⟩ := advances_readHeader _ _ _ first
  obtain ⟨u, middle, required, run⟩ := bind_eq_some.mp run
  obtain ⟨ok, rfl⟩ := require_eq_some.mp required
  rw [← readHeader_schema first] at upper ⊢
  obtain ⟨lower, old, size, shared, current⟩ := accepted_flags ok upper
  rw [loadPayload, old, size, shared, current] at run
  generalize header.schema = k at *
  obtain ⟨image, middle, step, run⟩ := bind_eq_some.mp run
  obtain ⟨-, rfl, rfl⟩ := freadInto_eq_some.mp step
  obtain ⟨l2, middle, step, run⟩ := bind_eq_some.mp run
  obtain ⟨-, rfl, rfl⟩ := fread_eq_some.mp step
  obtain ⟨sharedRam, middle, step, run⟩ := bind_eq_some.mp run
  obtain ⟨rfl, rfl⟩ := freadIf_eq_some step
  obtain ⟨l1d, middle, step, run⟩ := bind_eq_some.mp run
  obtain ⟨rfl, rfl⟩ := freadIf_eq_some step
  obtain ⟨bitmap, middle, step, run⟩ := bind_eq_some.mp run
  obtain ⟨-, rfl, rfl⟩ := fread_eq_some.mp step
  obtain ⟨progress, middle, pagesRead, run⟩ := bind_eq_some.mp run
  obtain ⟨_, middle, step, run⟩ := bind_eq_some.mp run
  obtain ⟨_, middle, step, run⟩ := bind_eq_some.mp run
  obtain ⟨_, middle, step, run⟩ := bind_eq_some.mp run
  obtain ⟨rfl, -⟩ := pure_eq_some.mp run
  simp only [window_drop, List.drop_drop, Bool.false_eq_true, if_false, Nat.add_zero] at pagesRead ⊢
  refine ⟨lower, rfl, rfl, rfl, rfl, fun p inside ↦ ?_⟩
  rw [readPages_page pagesRead nodup_pages fun q hq ↦ mem_pages.mp hq]
  simp only [mem_pages.mpr inside, true_and, window_drop]
  rw [page, Block.slice_zeros]
  rfl

theorem Part.stored {p : Part} (h : p.since ≤ k) (upper : k ≤ 11) : p.offset + p.size ≤ stateSizeOf k := by
  have fits : ∀ p ∈ Part.all, ∀ k ∈ List.range' 1 11, p.since ≤ k →
      p.offset + p.size ≤ stateSizeOf k := by decide +kernel
  have positive : ∀ p ∈ Part.all, 1 ≤ p.since := by decide +kernel
  have lower := positive p Part.mem_all
  exact fits p Part.mem_all k (List.mem_range'_1.mpr ⟨by omega, by omega⟩) h

theorem of_older {file : List Byte} {r : Snapshot} (read : readWithL1d file = .ok r)
    (upper : schemaOf file ≤ 11) : p.of r.state =
      if p.overwritten (schemaOf file) then p.absent
      else p.of (put 0 (window file headerSize (stateSizeOf (schemaOf file))) zeros : Image) := by
  obtain ⟨lower, state, -⟩ := read_older read upper
  rw [state, of_upgrade lower upper]

theorem receiveBuffer_from_padding {file : List Byte} {r : Snapshot} (read : readWithL1d file = .ok r)
    (lower : 5 ≤ schemaOf file) (upper : schemaOf file ≤ 7) (second : Bool) :
    (Part.receiveBuffer second).of r.state =
      window file (headerSize + (Part.receiveBuffer second).offset) (Part.receiveBuffer second).size := by
  have kept : (Part.receiveBuffer second).overwritten (schemaOf file) = false := by
    simp [Part.overwritten, Part.isReceiveBuffer, lower, upper]
  have stored : ∀ second : Bool, ∀ k ∈ List.range' 5 3,
      (Part.receiveBuffer second).offset + (Part.receiveBuffer second).size ≤ stateSizeOf k := by decide +kernel
  rw [of_older read (by omega), if_neg (by simp [kept]), Part.of,
    slice_put_window (stored second _ (List.mem_range'_1.mpr ⟨lower, by omega⟩))
      (stateSizeOf_le (by omega))]

/-- A part that the schema carried is as the bytes of the file give it, any other is initialized;
the receive buffers under schemas 5 to 7 are left out. -/
theorem older_restored (file : List Byte) (r : Snapshot) (read : readWithL1d file = .ok r)
    (upper : schemaOf file ≤ 11) :
    (∀ p : Part, ¬(p.isReceiveBuffer = true ∧ 5 ≤ schemaOf file ∧ schemaOf file ≤ 7) →
      p.of r.state = if p.since ≤ schemaOf file then window file (headerSize + p.offset) p.size
        else p.absent) ∧
    RestoresMemories (schemaOf file) file r := by
  refine ⟨fun p other ↦ ?_, (read_older read upper).2.2⟩
  rw [of_older read upper]
  by_cases carried : p.since ≤ schemaOf file
  · have kept : p.overwritten (schemaOf file) = false := by
      simp [Part.overwritten, Nat.not_lt.mpr carried]
    rw [if_neg (by simp [kept]), if_pos carried, Part.of,
      slice_put_window (Part.stored carried upper) (stateSizeOf_le (by omega))]
  · have laid : p.overwritten (schemaOf file) = true := by
      simp only [Part.overwritten, Bool.and_eq_true, decide_eq_true_eq, Bool.not_eq_true',
        Bool.and_eq_false_iff, decide_eq_false_iff_not]
      refine ⟨by omega, ?_⟩
      by_contra slip
      exact other (by simpa [and_assoc] using slip)
    rw [if_pos laid, if_neg carried]

def quiet : Snapshot where
  state := zeros |> put intc intcReset |> put syscfgPriority syscfgPriorityReset
  l2 := zeros
  sharedRam := fun _ ↦ 1
  l1d := zeros
  sdram := setNumber 5000 1 7 zeros

theorem read_quiet : readWithL1d (encode 10 quiet) = .ok (decoded 10 quiet) := by
  have valid : stateValid (decoded 10 quiet).state = true := by decide +kernel
  rw [readWithL1d, load_encode (by decide) (by decide) valid]

theorem schemaOf_quiet : schemaOf (encode 10 quiet) = 10 :=
  (readHeader_schema (parses_readHeader (fits_headerOf (by decide)) _)).symm

theorem older_restored_quiet :
    (∀ p : Part, ¬(p.isReceiveBuffer = true ∧ 5 ≤ schemaOf (encode 10 quiet) ∧
        schemaOf (encode 10 quiet) ≤ 7) →
      p.of (decoded 10 quiet).state = if p.since ≤ schemaOf (encode 10 quiet) then
        window (encode 10 quiet) (headerSize + p.offset) p.size else p.absent) ∧
    RestoresMemories (schemaOf (encode 10 quiet)) (encode 10 quiet) (decoded 10 quiet) :=
  older_restored _ _ read_quiet (by rw [schemaOf_quiet]; decide)

/-- A file of schema 10 does not leave the scheduler as its reset does. -/
theorem scheduler_not_reset :
    ¬∀ file r, readWithL1d file = .ok r → schemaOf file ≤ 11 → ∀ p : Part,
      p.of r.state = if p.since ≤ schemaOf file then window file (headerSize + p.offset) p.size
        else p.reset := by
  intro claim
  have upper : schemaOf (encode 10 quiet) ≤ 11 := by
    rw [schemaOf_quiet]
    decide
  have claimed := claim _ _ read_quiet upper .scheduler
  have found := of_older (p := .scheduler) read_quiet upper
  rw [schemaOf_quiet] at claimed found
  rw [if_neg (by decide)] at claimed
  rw [if_pos (by decide), claimed] at found
  have mode : Part.scheduler.reset ⟨26, by decide⟩ = 0 := by
    rw [found]
    rfl
  exact absurd mode (by decide +kernel)

end Cdj2000Emulator.Checkpoint.Migration
