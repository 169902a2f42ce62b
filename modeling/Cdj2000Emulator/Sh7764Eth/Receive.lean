import Cdj2000Emulator.Sh7764Eth.Descriptors
import Cdj2000Emulator.Library.Monitor
import Mathlib.Algebra.Order.Ring.Int

namespace Cdj2000Emulator.Sh7764Eth.Receive

open Library.Bytes Library.Store Library.Monitor Model Descriptors

variable {s : Eth} {frame : List Byte} {base n c : ℕ}

/-- A descriptor as the driver finds it after a frame of `n` bytes. -/
structure Handed (n : ℕ) (isFirst isLast : Bool) (d d' : Descriptor) : Prop where
  inactive : d'.active = false
  first : d'.first = isFirst
  last : d'.last = isLast
  ends : d'.ends = d.ends
  length : d'.length = d.length
  count : d'.size &&& 0xffff = if isLast then BitVec.ofNat 32 n else 0
  buffer : d'.buffer = d.buffer

section Handing

theorem getLsbD_small {status : Word} (h : status.toNat < 256) {k : ℕ} (hk : 8 ≤ k) :
    status.getLsbD k = false := by
  have hpow : (256 : ℕ) ≤ 2 ^ k := Nat.pow_le_pow_right (show 0 < 2 by decide) hk
  exact Nat.testBit_lt_two_pow (h.trans_le hpow)

theorem length_lt (d : Descriptor) : d.length < 65536 := by
  have h := d.size.isLt
  rw [Descriptor.length, BitVec.toNat_ushiftRight, Nat.shiftRight_eq_div_pow]
  omega

/-- The flags leave the upper bits of a received descriptor alone. -/
theorem received_getLsbD (d : Descriptor) (first last : Bool) {status : Word}
    (h : status.toNat < 256) {k : ℕ} (hk : 28 ≤ k) :
    (received d first last status).getLsbD k =
      ((d.status &&& 0x40000000).getLsbD k || (if first then (0x20000000 : Word) else 0).getLsbD k ||
        (if last then (0x10000000 : Word) else 0).getLsbD k) := by
  have hstatus := getLsbD_small h (show 8 ≤ k by omega)
  have hfe : fe.getLsbD k = false := by
    have htwo : fe = BitVec.twoPow 32 27 := by decide
    rw [htwo, BitVec.getLsbD_twoPow]
    simp only [Bool.and_eq_false_imp, decide_eq_true_eq, decide_eq_false_iff_not]
    omega
  unfold received
  by_cases h0 : status = 0
  · simp only [if_pos h0, BitVec.getLsbD_or, hstatus, Bool.or_false]
  · simp only [if_neg h0, BitVec.getLsbD_or, hstatus, hfe, Bool.or_false]

theorem size_parts {m n : ℕ} (hm : m < 65536) (hn : n < 65536) :
    (BitVec.ofNat 32 m <<< 16 ||| BitVec.ofNat 32 n : Word).toNat = m * 65536 + n := by
  have hm' : (BitVec.ofNat 32 m : Word).toNat = m := by
    rw [BitVec.toNat_ofNat, Nat.mod_eq_of_lt (by omega)]
  have hn' : (BitVec.ofNat 32 n : Word).toNat = n := by
    rw [BitVec.toNat_ofNat, Nat.mod_eq_of_lt (by omega)]
  have hshift : (m <<< 16) % 2 ^ 32 = 2 ^ 16 * m := by
    rw [Nat.shiftLeft_eq, Nat.mod_eq_of_lt (by omega), Nat.mul_comm]
  rw [BitVec.toNat_or, BitVec.toNat_shiftLeft, hm', hn', hshift, ← Nat.two_pow_add_eq_or_of_lt hn]
  omega

theorem handed_received {n : ℕ} (hn : n ≤ maxFrame) (first last : Bool) (d : Descriptor)
    {status : Word} (h : status.toNat < 256) :
    Handed n first last d ⟨received d first last status,
      BitVec.ofNat 32 d.length <<< 16 ||| (if last then BitVec.ofNat 32 n else 0), d.buffer⟩ := by
  have hn' : n ≤ 2048 := hn
  have hsize : (BitVec.ofNat 32 d.length <<< 16 ||| (if last then BitVec.ofNat 32 n else 0) :
      Word).toNat = d.length * 65536 + if last then n else 0 := by
    cases last with
    | false => exact size_parts (length_lt d) (show 0 < 65536 by decide)
    | true => exact size_parts (length_lt d) (show n < 65536 by omega)
  refine ⟨?_, ?_, ?_, ?_, ?_, ?_, rfl⟩
  · rw [active_eq, received_getLsbD d first last h (by decide)]
    cases first <;> cases last <;> simp
  · rw [first_eq, received_getLsbD d first last h (by decide)]
    cases first <;> cases last <;> simp
  · rw [last_eq, received_getLsbD d first last h (by decide)]
    cases first <;> cases last <;> simp
  · rw [ends_eq, ends_eq, received_getLsbD d first last h (by decide)]
    cases first <;> cases last <;> simp
  · rw [Descriptor.length, BitVec.toNat_ushiftRight, hsize, Nat.shiftRight_eq_div_pow]
    split_ifs <;> omega
  · apply BitVec.eq_of_toNat_eq
    have hmask : (0xffff : Word).toNat = 2 ^ 16 - 1 := rfl
    rw [BitVec.toNat_and, hsize, hmask, Nat.and_two_pow_sub_one_eq_mod]
    split_ifs
    · rw [BitVec.toNat_ofNat]
      omega
    · change (d.length * 65536 + 0) % 2 ^ 16 = 0
      omega

end Handing

/-- No descriptor, no buffer and nothing about the ring has changed. -/
structure Leaves (s s' : Eth) : Prop where
  board : s'.board = s.board
  rxCursor : s'.rxCursor = s.rxCursor
  register : s'.regs 0x20 = s.regs 0x20

/-- A descriptor that takes a part of a frame. -/
def usable (d : Descriptor) : Bool :=
  d.active && d.length != 0 && d.length % 32 == 0 && d.buffer &&& 31 == 0

def room : List Slot → ℕ
  | [] => 0
  | x :: slots => if usable x.2 then x.2.length + room slots else 0

def capacity (slots : List Slot) : ℕ := (slots.map fun x ↦ x.2.length).sum

section Gathering

variable {a z : Word}

theorem capacity_concat (slots : List Slot) (x : Slot) : capacity (slots ++ [x]) = capacity slots + x.2.length := by
  simp [capacity]

theorem usable_iff {d : Descriptor} : usable d ↔
    d.active ∧ ¬(d.length = 0 ∨ d.length % 32 ≠ 0 ∨ d.buffer &&& 31 ≠ 0) := by
  simp only [usable, Bool.and_eq_true, bne_iff_ne, beq_iff_eq, not_or, not_not, and_assoc]

theorem usable_length {d : Descriptor} (h : usable d) : 32 ≤ d.length := by
  obtain ⟨-, hsound⟩ := usable_iff.mp h
  omega

theorem descriptor_of_range (h : a &&& 15 = 0) (hr : ramRange a.toNat 12) :
    descriptor s a = some (descRead s.board.ram a.toNat) := by
  refine if_pos ⟨h, ?_, hr⟩
  simp only [ramRange, Bool.and_eq_true, decide_eq_true_eq] at hr
  omega

theorem gather_spec (work : ℕ) (used slots : List Slot) (total : ℕ)
    (hn : n ≤ total + 32 * work) (htotal : capacity used = total)
    (hneeded : used ≠ [] → capacity used.dropLast < n)
    (husable : ∀ x ∈ used, usable x.2) (hnodup : ((used ++ slots).map Prod.fst).Nodup)
    (hfollows : Follows s.board.ram (s.regs 0x20) a slots z)
    (hback : ∃ x, (used ++ slots).head? = some x ∧ x.1 = z ∧ descriptor s z = some x.2) :
    (n ≤ total + room slots → ∃ new rest b, slots = new ++ rest ∧
      gather s n work used total a = .ready (used ++ new) b ∧
        Follows s.board.ram (s.regs 0x20) a new b ∧ (∀ x ∈ new, usable x.2) ∧
        n ≤ capacity (used ++ new) ∧
        (used ++ new ≠ [] → capacity (used ++ new).dropLast < n)) ∧
    (total + room slots < n → ∃ result, gather s n work used total a = .stop result ∧
      Leaves s result.2) := by
  induction work generalizing used slots total a with
  | zero =>
    refine ⟨fun _ ↦ ⟨[], slots, a, rfl, ?_, rfl, nofun, ?_, ?_⟩, fun h ↦ by omega⟩
    · rw [gather, if_neg (by omega), List.append_nil]
    · rw [List.append_nil, htotal]
      omega
    · rwa [List.append_nil]
  | succ work ih =>
    by_cases hdone : n ≤ total
    · refine ⟨fun _ ↦ ⟨[], slots, a, rfl, ?_, rfl, nofun, ?_, ?_⟩, fun h ↦ by omega⟩
      · rw [gather, if_pos hdone, List.append_nil]
      · rwa [List.append_nil, htotal]
      · rwa [List.append_nil]
    · rw [gather, if_neg hdone]
      cases slots with
      | nil =>
        obtain rfl : a = z := hfollows
        obtain ⟨x, hx, rfl, hdesc⟩ := hback
        rw [List.append_nil] at hx
        have hmem : x ∈ used := List.mem_of_mem_head? hx
        obtain ⟨hactive, hsound⟩ := usable_iff.mp (husable x hmem)
        refine ⟨fun h ↦ absurd h (show ¬n ≤ total + 0 by omega), fun _ ↦ ?_⟩
        rw [hdesc]
        dsimp only
        rw [if_neg (not_not_intro hactive), if_neg hsound, if_pos (List.mem_map_of_mem hmem)]
        exact ⟨_, rfl, rfl, rfl, rfl⟩
      | cons x slots =>
        obtain ⟨a', d⟩ := x
        obtain ⟨rfl, haligned, hrange, hread, hrest⟩ := hfollows
        rw [descriptor_of_range haligned hrange, hread]
        dsimp only
        by_cases hd : usable d
        · obtain ⟨hactive, hsound⟩ := usable_iff.mp hd
          have hfresh : a' ∉ used.map Prod.fst := by
            rw [List.map_append, List.nodup_append] at hnodup
            intro hmem
            exact hnodup.2.2 a' hmem a' List.mem_cons_self rfl
          rw [if_neg (not_not_intro hactive), if_neg hsound, if_neg hfresh]
          have hlong := usable_length hd
          have hroom : room ((a', d) :: slots) = d.length + room slots := if_pos hd
          rw [List.append_cons] at hnodup hback
          obtain ⟨h1, h2⟩ := ih (used ++ [(a', d)]) slots (total + d.length) (by omega)
            (by rw [capacity_concat, htotal])
            (fun _ ↦ by rw [List.dropLast_concat, htotal]; omega)
            (fun y hy ↦ (List.mem_append.mp hy).elim (husable y) fun hy ↦ by
              rwa [List.mem_singleton.mp hy])
            hnodup hrest hback
          rw [hroom]
          refine ⟨fun h ↦ ?_, fun h ↦ h2 (by omega)⟩
          obtain ⟨new, rest, b, rfl, hgather, hnew, husable', henough, hneeded'⟩ := h1 (by omega)
          rw [List.append_assoc] at hgather henough hneeded'
          refine ⟨(a', d) :: new, rest, b, rfl, hgather, ?_, ?_, henough, hneeded'⟩
          · exact ⟨rfl, haligned, hrange, hread, hnew⟩
          · intro y hy
            rcases List.mem_cons.mp hy with rfl | hy
            · exact hd
            · exact husable' y hy
        · have hroom : room ((a', d) :: slots) = 0 := if_neg hd
          rw [hroom]
          refine ⟨fun h ↦ by omega, fun _ ↦ ?_⟩
          by_cases hactive : d.active
          · have hbad : d.length = 0 ∨ d.length % 32 ≠ 0 ∨ d.buffer &&& 31 ≠ 0 := by
              by_contra hsound
              exact hd (usable_iff.mpr ⟨hactive, hsound⟩)
            rw [if_neg (not_not_intro hactive), if_pos hbad]
            exact ⟨_, rfl, rfl, rfl, rfl⟩
          · rw [if_pos hactive]
            by_cases hfirst : used = []
            · rw [if_neg (not_not_intro hfirst)]
              refine ⟨_, rfl, ?_⟩
              dsimp only
              split_ifs <;> exact ⟨rfl, rfl, rfl⟩
            · rw [if_pos hfirst]
              exact ⟨_, rfl, rfl, rfl, rfl⟩

end Gathering

/-- The first `n` bytes in the buffers of the descriptors. -/
def contents (ram : ℕ → Byte) : List Slot → ℕ → List Byte
  | [], _ => []
  | x :: slots, n =>
    read ram x.2.buffer.toNat (min n x.2.length) ++ contents ram slots (n - x.2.length)

/-- A byte of the buffer of a descriptor, or of its words that are handed back. -/
def Touches (x : Slot) (i : ℕ) : Prop :=
  x.1.toNat ≤ i ∧ i < x.1.toNat + 8 ∨
    x.2.buffer.toNat ≤ i ∧ i < x.2.buffer.toNat + x.2.length

def Owns (x : Slot) (i : ℕ) : Prop :=
  x.1.toNat ≤ i ∧ i < x.1.toNat + 16 ∨
    x.2.buffer.toNat ≤ i ∧ i < x.2.buffer.toNat + x.2.length

/-- The descriptors between `low` and `high`, and their buffers elsewhere, all apart. -/
structure Laid (low high : ℕ) (slots : List Slot) : Prop where
  inside : ∀ x ∈ slots, low ≤ x.1.toNat ∧ x.1.toNat + 16 ≤ high ∧ ramRange x.1.toNat 12
  reaches : ∀ x ∈ slots, ramRange x.2.buffer.toNat x.2.length
  outside : ∀ x ∈ slots, x.2.buffer.toNat + x.2.length ≤ low ∨ high ≤ x.2.buffer.toNat
  apart : slots.Pairwise fun x y ↦
    (x.1.toNat + 16 ≤ y.1.toNat ∨ y.1.toNat + 16 ≤ x.1.toNat) ∧
      (x.2.buffer.toNat + x.2.length ≤ y.2.buffer.toNat ∨
        y.2.buffer.toNat + y.2.length ≤ x.2.buffer.toNat)

section Filling

variable {low high n : ℕ} {slots : List Slot} {x : Slot} {ram ram' : ℕ → Byte}

theorem Laid.tail (h : Laid low high (x :: slots)) : Laid low high slots :=
  ⟨fun y hy ↦ h.inside y (.tail x hy), fun y hy ↦ h.reaches y (.tail x hy),
    fun y hy ↦ h.outside y (.tail x hy), (List.pairwise_cons.mp h.apart).2⟩

theorem Touches.owns {i : ℕ} (h : Touches x i) : Owns x i := by
  unfold Touches at h
  unfold Owns
  omega

/-- No byte belongs to two descriptors. -/
theorem Laid.disjoint (h : Laid low high slots) :
    slots.Pairwise fun x y ↦ ∀ i, Owns x i → ¬Owns y i := by
  refine h.apart.imp_of_mem fun {x y} hx hy happart i hi ↦ ?_
  obtain ⟨hdesc, hbuffer⟩ := happart
  obtain ⟨hlow, hhigh, -⟩ := h.inside x hx
  obtain ⟨hlow', hhigh', -⟩ := h.inside y hy
  have houtside := h.outside x hx
  have houtside' := h.outside y hy
  unfold Owns at hi ⊢
  omega

theorem ramRange_mono {a n m : ℕ} (h : ramRange a n) (hm : m ≤ n) : ramRange a m := by
  simp only [ramRange, Bool.and_eq_true, decide_eq_true_eq] at h ⊢
  omega

theorem dmaReaches_of_range {a : Word} {n : ℕ} (h : ramRange a.toNat n) : dmaReaches a n := by
  unfold dmaReaches
  simp only [ramRange, Bool.and_eq_true, decide_eq_true_eq] at h ⊢
  omega

theorem contents_congr (h : ∀ y ∈ slots, ∀ i, y.2.buffer.toNat ≤ i →
    i < y.2.buffer.toNat + y.2.length → ram i = ram' i) :
    contents ram slots n = contents ram' slots n := by
  induction slots generalizing n with
  | nil => rfl
  | cons x slots ih =>
    have hhead : read ram x.2.buffer.toNat (min n x.2.length) =
        read ram' x.2.buffer.toNat (min n x.2.length) :=
      read_congr fun i hi hi' ↦ h x List.mem_cons_self i hi (by omega)
    rw [contents, contents, hhead, ih fun y hy ↦ h y (.tail x hy)]

def stored (ram : ℕ → Byte) (x : Slot) (bytes : List Byte) (status size : Word) : ℕ → Byte :=
  write (write ram x.2.buffer.toNat bytes) x.1.toNat ([status, size].flatMap wordBytes)

variable {bytes : List Byte} {status size : Word}

theorem length_words : ([status, size].flatMap wordBytes).length = 8 := by
  simp

theorem stored_untouched (hlength : bytes.length ≤ x.2.length) {i : ℕ} (h : ¬Touches x i) :
    stored ram x bytes status size i = ram i := by
  unfold Touches at h
  rw [stored, write_outside, write_outside]
  · omega
  · rw [length_words]
    omega

theorem read_stored (h : Laid low high (x :: slots)) (hlength : bytes.length ≤ x.2.length) :
    read (stored ram x bytes status size) x.2.buffer.toNat bytes.length = bytes := by
  obtain ⟨h1, h2, -⟩ := h.inside x List.mem_cons_self
  have h3 := h.outside x List.mem_cons_self
  rw [stored, read_write_apart, read_write]
  rw [length_words]
  omega

theorem descRead_stored (h : Laid low high (x :: slots)) (hlength : bytes.length ≤ x.2.length) :
    descRead (stored ram x bytes status size) x.1.toNat =
      ⟨status, size, (descRead ram x.1.toNat).buffer⟩ := by
  obtain ⟨h1, h2, -⟩ := h.inside x List.mem_cons_self
  have h3 := h.outside x List.mem_cons_self
  have hwords : [status, size].flatMap wordBytes = wordBytes status ++ wordBytes size := by simp
  have hstored : stored ram x bytes status size =
      write (write (write ram x.2.buffer.toNat bytes) x.1.toNat (wordBytes status))
        (x.1.toNat + 4) (wordBytes size) := by
    rw [stored, hwords, write_append, length_wordBytes]
  unfold descRead
  congr 1
  · rw [hstored, wordAt_congr fun i _ _ ↦ write_outside (by omega), wordAt_write]
  · rw [hstored, wordAt_write]
  · refine wordAt_congr fun i hi hi' ↦ stored_untouched hlength ?_
    unfold Touches
    omega

/-- What of a device a stored frame leaves. -/
structure Kept (s s' : Eth) : Prop where
  regs : ∀ o, o ≠ 0xc8 → o ≠ 0xcc → s'.regs o = s.regs o
  rxCursor : s'.rxCursor = s.rxCursor
  sent : s'.board.sent = s.board.sent
  takes : s'.board.takes = s.board.takes
  error : s'.error = s.error
  link : s'.link = s.link

theorem Kept.trans {s t u : Eth} (h : Kept s t) (h' : Kept t u) : Kept s u :=
  ⟨fun o h1 h2 ↦ (h'.regs o h1 h2).trans (h.regs o h1 h2), h'.rxCursor.trans h.rxCursor,
    h'.sent.trans h.sent, h'.takes.trans h.takes, h'.error.trans h.error, h'.link.trans h.link⟩

/-- A descriptor after its part of a frame of `n` bytes. -/
def handed (n : ℕ) (status : Word) (isFirst isLast : Bool) (d : Descriptor) : Descriptor :=
  ⟨received d isFirst isLast status,
    BitVec.ofNat 32 d.length <<< 16 ||| (if isLast then BitVec.ofNat 32 n else 0), d.buffer⟩

/-- One turn of the loop that stores a frame. -/
theorem fill_cons (h : Laid low high (x :: slots)) (flags : Word) (isFirst : Bool)
    (rest : List Byte) :
    ∃ t, fill n flags isFirst (x :: slots) rest s =
        fill n flags false slots (rest.drop x.2.length) t ∧ Kept s t ∧
      t.board.ram = stored s.board.ram x (rest.take x.2.length)
        (received x.2 isFirst slots.isEmpty (flags &&& ~~~(s.regs 0x38)))
        (BitVec.ofNat 32 x.2.length <<< 16 |||
          if slots.isEmpty then BitVec.ofNat 32 n else 0) := by
  obtain ⟨a, d⟩ := x
  have hlength : (rest.take d.length).length ≤ d.length := by
    rw [List.length_take]
    exact min_le_left _ _
  have hdma : dmaReaches d.buffer (rest.take d.length).length :=
    dmaReaches_of_range (ramRange_mono (h.reaches (a, d) List.mem_cons_self) hlength)
  have hrange : ∀ words : List Word, words.length = 2 → ramRange a.toNat (4 * words.length) := by
    intro words hwords
    rw [hwords]
    exact ramRange_mono (h.inside (a, d) List.mem_cons_self).2.2 (by decide)
  have hempty : (if slots = [] then BitVec.ofNat 32 n else (0 : Word)) =
      if slots.isEmpty then BitVec.ofNat 32 n else 0 := by
    cases slots <;> rfl
  rw [fill, dmaWrite, if_pos hdma, hempty]
  dsimp only
  rw [writeDesc, if_pos (hrange _ rfl)]
  refine ⟨_, rfl, ⟨fun o h1 h2 ↦ ?_, rfl, rfl, rfl, rfl, rfl⟩, rfl⟩
  exact (Function.update_of_ne h2 _ _).trans (Function.update_of_ne h1 _ _)

/-- A frame that fits is stored whole. -/
theorem fill_spec (h : Laid low high slots) (flags : Word) (isFirst : Bool) (rest : List Byte)
    (hfits : rest.length ≤ capacity slots)
    (hread : ∀ x ∈ slots, (descRead s.board.ram x.1.toNat).buffer = x.2.buffer) :
    ∃ s', fill n flags isFirst slots rest s = (true, s') ∧ Kept s s' ∧
      contents s'.board.ram slots rest.length = rest ∧
      (∀ (i : ℕ) (hi : i < slots.length), descRead s'.board.ram slots[i].1.toNat =
        handed n (flags &&& ~~~(s.regs 0x38)) (isFirst && i == 0) (i + 1 == slots.length)
          slots[i].2) ∧
      ∀ i, (∀ x ∈ slots, ¬Touches x i) → s'.board.ram i = s.board.ram i := by
  induction slots generalizing isFirst rest s with
  | nil =>
    have hnil : rest = [] := List.eq_nil_of_length_eq_zero (Nat.le_zero.mp hfits)
    exact ⟨s, rfl, ⟨fun _ _ _ ↦ rfl, rfl, rfl, rfl, rfl, rfl⟩, hnil.symm, nofun, fun _ _ ↦ rfl⟩
  | cons x slots ih =>
    obtain ⟨t, hfill, hkept, hram⟩ := fill_cons (s := s) (n := n) h flags isFirst rest
    have hlength : (rest.take x.2.length).length ≤ x.2.length := by
      rw [List.length_take]
      exact min_le_left _ _
    have hsame : ∀ i, ¬Touches x i → t.board.ram i = s.board.ram i := by
      intro i hi
      rw [hram]
      exact stored_untouched hlength hi
    have hdisjoint := (List.pairwise_cons.mp h.disjoint).1
    have hothers : ∀ y ∈ slots, (descRead t.board.ram y.1.toNat).buffer = y.2.buffer := by
      intro y hy
      rw [← hread y (.tail x hy)]
      refine congrArg Descriptor.buffer (descRead_congr fun i hi hi' ↦ hsame i fun htouch ↦ ?_)
      exact hdisjoint y hy i htouch.owns (.inl ⟨hi, by omega⟩)
    have hfits' : (rest.drop x.2.length).length ≤ capacity slots := by
      simp only [capacity, List.map_cons, List.sum_cons] at hfits
      rw [List.length_drop]
      unfold capacity
      omega
    obtain ⟨s', hs', hkept', hcontents, hdescs, hframe⟩ :=
      ih h.tail false (rest.drop x.2.length) hfits' hothers
    have hmine : ∀ i, Owns x i → s'.board.ram i = t.board.ram i := fun i hi ↦
      hframe i fun y hy htouch ↦ hdisjoint y hy i hi htouch.owns
    refine ⟨s', hfill.trans hs', hkept.trans hkept', ?_, ?_, ?_⟩
    · have hmin : min rest.length x.2.length = (rest.take x.2.length).length := by
        rw [List.length_take, Nat.min_comm]
      have hread' : read s'.board.ram x.2.buffer.toNat (rest.take x.2.length).length =
          rest.take x.2.length := by
        rw [read_congr fun i hi hi' ↦ hmine i (.inr ⟨hi, by omega⟩), hram]
        exact read_stored h hlength
      rw [contents, hmin, hread', ← List.length_drop, hcontents, List.take_append_drop]
    · intro i hi
      cases i with
      | zero =>
        have hdesc : descRead s'.board.ram x.1.toNat = descRead t.board.ram x.1.toNat :=
          descRead_congr fun i hi hi' ↦ hmine i (.inl ⟨hi, by omega⟩)
        change descRead s'.board.ram x.1.toNat = _
        rw [hdesc, hram, descRead_stored h hlength, hread x List.mem_cons_self]
        cases slots <;> simp [handed]
      | succ i =>
        have hi' : i < slots.length := Nat.lt_of_succ_lt_succ hi
        have := hdescs i hi'
        rw [hkept.regs 0x38 (by decide) (by decide)] at this
        simpa using this
    · intro i hi
      rw [hframe i fun y hy ↦ hi y (.tail x hy), hsame i (hi x List.mem_cons_self)]

end Filling

/-- The receive ring of the device, at one of its descriptors: the buffers are in the guest's
memory, apart from one another and from the descriptors. -/
structure RingReady (s : Eth) (base n : ℕ) : Prop where
  ring : Ring s.board.ram base n
  register : s.regs 0x20 = BitVec.ofNat 32 base
  cursor : ∃ c < n, s.rxCursor = BitVec.ofNat 32 (slotAddress base c)
  reaches : ∀ i < n, ramRange (descRead s.board.ram (slotAddress base i)).buffer.toNat
    (descRead s.board.ram (slotAddress base i)).length
  outside : ∀ i < n, (descRead s.board.ram (slotAddress base i)).buffer.toNat +
      (descRead s.board.ram (slotAddress base i)).length ≤ base ∨
    base + 16 * n ≤ (descRead s.board.ram (slotAddress base i)).buffer.toNat
  apart : ∀ i < n, ∀ j < n, i ≠ j →
    (descRead s.board.ram (slotAddress base i)).buffer.toNat +
        (descRead s.board.ram (slotAddress base i)).length ≤
      (descRead s.board.ram (slotAddress base j)).buffer.toNat ∨
    (descRead s.board.ram (slotAddress base j)).buffer.toNat +
        (descRead s.board.ram (slotAddress base j)).length ≤
      (descRead s.board.ram (slotAddress base i)).buffer.toNat

/-- The receiver is on, in the modelled mode, and the frame is for the station. -/
def Accepts (s : Eth) (frame : List Byte) : Prop :=
  s.error = none ∧ s.link = true ∧ s.regs 0x100 &&& 0x40 ≠ 0 ∧ s.regs 0x10 ≠ 0 ∧ s.regs 0 = 0x40 ∧
    14 ≤ frame.length ∧ frame.length ≤ maxFrame ∧ addressed s frame = true

instance (s : Eth) (frame : List Byte) : Decidable (Accepts s frame) := instDecidableAnd

/-- The whole frame is in the buffers of `used`, which come next in the ring; each of them is
handed back, and nothing else is written. -/
structure Stores (s s' : Eth) (frame : List Byte) (base n c : ℕ) (used : List Slot) : Prop where
  next : ∃ rest, slotsFrom s.board.ram base n c = used ++ rest
  active : ∀ x ∈ used, x.2.active = true
  enough : frame.length ≤ capacity used
  needed : capacity used.dropLast < frame.length
  bytes : contents s'.board.ram used frame.length = frame
  handed : ∀ (i : ℕ) (hi : i < used.length), Handed frame.length (i == 0)
    (i + 1 == used.length) used[i].2 (descRead s'.board.ram used[i].1.toNat)
  untouched : ∀ i, (∀ x ∈ used, ¬Touches x i) → s'.board.ram i = s.board.ram i
  cursor : s'.rxCursor = BitVec.ofNat 32 (slotAddress base ((c + used.length) % n))

section Storing

variable {used : List Slot}

theorem Laid.left {low high : ℕ} {xs ys : List Slot} (h : Laid low high (xs ++ ys)) :
    Laid low high xs :=
  ⟨fun x hx ↦ h.inside x (List.mem_append_left ys hx),
    fun x hx ↦ h.reaches x (List.mem_append_left ys hx),
    fun x hx ↦ h.outside x (List.mem_append_left ys hx), (List.pairwise_append.mp h.apart).1⟩

theorem RingReady.laid (h : RingReady s base n) (hc : c < n) :
    Laid base (base + 16 * n) (slotsFrom s.board.ram base n c) := by
  refine ⟨?_, ?_, ?_, ?_⟩
  · intro x hx
    obtain ⟨i, hi, rfl⟩ := mem_slotsFrom hc hx
    have haddress := h.ring.toNat_slotAddress hi
    have hrange := h.ring.slot_range hi
    rw [← haddress] at hrange
    refine ⟨?_, ?_, hrange⟩ <;> rw [slotAt, haddress, slotAddress] <;> omega
  · intro x hx
    obtain ⟨i, hi, rfl⟩ := mem_slotsFrom hc hx
    exact h.reaches i hi
  · intro x hx
    obtain ⟨i, hi, rfl⟩ := mem_slotsFrom hc hx
    exact h.outside i hi
  · refine pairwise_slotsFrom hc fun i hi j hj hne ↦ ⟨?_, h.apart i hi j hj hne⟩
    simp only [slotAt]
    rw [h.ring.toNat_slotAddress hi, h.ring.toNat_slotAddress hj, slotAddress, slotAddress]
    omega

theorem RingReady.nodup (h : RingReady s base n) (hc : c < n) :
    ((slotsFrom s.board.ram base n c).map Prod.fst).Nodup := by
  refine List.pairwise_map.mpr (pairwise_slotsFrom hc fun i hi j hj hne heq ↦ ?_)
  have hnat := congrArg BitVec.toNat heq
  simp only [slotAt] at hnat
  rw [h.ring.toNat_slotAddress hi, h.ring.toNat_slotAddress hj] at hnat
  unfold slotAddress at hnat
  omega

theorem RingReady.of_kept {s' : Eth} (h : RingReady s base n)
    (hkept : ∀ i < n, let d := descRead s.board.ram (slotAddress base i)
      let d' := descRead s'.board.ram (slotAddress base i)
      d'.ends = d.ends ∧ d'.length = d.length ∧ d'.buffer = d.buffer)
    (hregister : s'.regs 0x20 = s.regs 0x20)
    (hcursor : ∃ c < n, s'.rxCursor = BitVec.ofNat 32 (slotAddress base c)) :
    RingReady s' base n := by
  refine ⟨⟨h.ring.inhabited, h.ring.aligned, h.ring.low, h.ring.high, ?_⟩,
    hregister.trans h.register, hcursor, ?_, ?_, ?_⟩
  · intro i hi
    rw [(hkept i hi).1]
    exact h.ring.ends i hi
  · intro i hi
    rw [(hkept i hi).2.1, (hkept i hi).2.2]
    exact h.reaches i hi
  · intro i hi
    rw [(hkept i hi).2.1, (hkept i hi).2.2]
    exact h.outside i hi
  · intro i hi j hj hne
    rw [(hkept i hi).2.1, (hkept i hi).2.2, (hkept j hj).2.1, (hkept j hj).2.2]
    exact h.apart i hi j hj hne

theorem Leaves.trans {s t u : Eth} (h : Leaves s t) (h' : Leaves t u) : Leaves s u :=
  ⟨h'.board.trans h.board, h'.rxCursor.trans h.rxCursor, h'.register.trans h.register⟩

theorem Leaves.ready {s' : Eth} (h : Leaves s s') (hs : RingReady s base n) :
    RingReady s' base n := by
  refine hs.of_kept (fun i _ ↦ ?_) h.register ?_
  · rw [h.board]
    exact ⟨rfl, rfl, rfl⟩
  · rw [h.rxCursor]
    exact hs.cursor

theorem tally_spec (s : Eth) (frame : List Byte) :
    (tally s frame).1.toNat < 256 ∧ Leaves s (tally s frame).2 := by
  unfold tally
  dsimp only
  split_ifs <;> refine ⟨?_, rfl, rfl, rfl⟩ <;> dsimp only <;> decide

theorem Stores.ready {s' : Eth} (h : Stores s s' frame base n c used) (hs : RingReady s base n)
    (hc : c < n) (hregister : s'.regs 0x20 = s.regs 0x20) : RingReady s' base n := by
  refine hs.of_kept (fun i hi ↦ ?_) hregister ⟨_, Nat.mod_lt _ hs.ring.inhabited, h.cursor⟩
  obtain ⟨rest, hsplit⟩ := h.next
  have hmem : slotAt s.board.ram base i ∈ slotsFrom s.board.ram base n c := by
    refine List.mem_map_of_mem (List.mem_append.mpr ?_)
    rw [List.mem_range'_1, List.mem_range'_1]
    omega
  have haddress := hs.ring.toNat_slotAddress hi
  rw [hsplit, List.mem_append] at hmem
  rcases hmem with hmem | hmem
  · obtain ⟨j, hj, hget⟩ := List.getElem_of_mem hmem
    have hhanded := h.handed j hj
    rw [hget] at hhanded
    simp only [slotAt] at hhanded
    rw [haddress] at hhanded
    exact ⟨hhanded.ends, hhanded.length, hhanded.buffer⟩
  · have hlaid := hs.laid hc
    rw [hsplit] at hlaid
    have hdisjoint := (List.pairwise_append.mp hlaid.disjoint).2.2
    have hsame : descRead s'.board.ram (slotAddress base i) =
        descRead s.board.ram (slotAddress base i) := by
      refine descRead_congr fun a ha ha' ↦ h.untouched a fun x hx htouch ↦ ?_
      refine hdisjoint x hx _ hmem a htouch.owns (.inl ?_)
      simp only [slotAt]
      omega
    dsimp only
    rw [hsame]
    exact ⟨rfl, rfl, rfl⟩

theorem finish_fields (flags cursor : Word) (s : Eth) :
    (finish flags cursor s).board = s.board ∧ (finish flags cursor s).rxCursor = cursor ∧
      (finish flags cursor s).regs 0x20 = s.regs 0x20 := by
  unfold finish
  dsimp only
  split_ifs <;> exact ⟨rfl, rfl, rfl⟩

theorem head_slotsFrom {ram : ℕ → Byte} (hc : c < n) :
    (slotsFrom ram base n c).head? = some (slotAt ram base c) := by
  have hlength : 0 < (slotsFrom ram base n c).length := by
    rw [length_slotsFrom hc.le]
    omega
  rw [List.head?_eq_getElem?, List.getElem?_eq_getElem hlength, getElem_slotsFrom hc,
    Nat.add_zero, Nat.mod_eq_of_lt hc]

theorem place_spec (h : RingReady s base n) (hc : c < n)
    (hcursor : s.rxCursor = BitVec.ofNat 32 (slotAddress base c)) (hlow : 14 ≤ frame.length)
    (hhigh : frame.length ≤ maxFrame) :
    (frame.length ≤ room (slotsFrom s.board.ram base n c) → (place s frame).1 = true ∧
      (place s frame).2.regs 0x20 = s.regs 0x20 ∧
      ∃ used, Stores s (place s frame).2 frame base n c used) ∧
    (room (slotsFrom s.board.ram base n c) < frame.length → Leaves s (place s frame).2) := by
  obtain ⟨hflags, hleaves⟩ := tally_spec s frame
  unfold place
  generalize tally s frame = counted at hflags hleaves ⊢
  obtain ⟨flags, t⟩ := counted
  dsimp only at hflags hleaves ⊢
  have ht := hleaves.ready h
  rw [← hleaves.board]
  have hfollows := ht.ring.follows hc
  rw [← ht.register, ← hcursor, ← hleaves.rxCursor] at hfollows
  have hhead : ∃ x, ([] ++ slotsFrom t.board.ram base n c).head? = some x ∧ x.1 = t.rxCursor ∧
      descriptor t t.rxCursor = some x.2 := by
    refine ⟨_, head_slotsFrom hc, ?_, ?_⟩
    · rw [hleaves.rxCursor, hcursor]
      rfl
    · have haddress := ht.ring.toNat_slotAddress hc
      rw [hleaves.rxCursor, hcursor, descriptor_of_range (ht.ring.slot_aligned hc)
        (by rw [haddress]; exact ht.ring.slot_range hc), haddress]
      rfl
  obtain ⟨hready, hstop⟩ := gather_spec (s := t) (n := frame.length) maxDesc []
    (slotsFrom t.board.ram base n c) 0 (by unfold maxFrame maxDesc at *; omega) rfl (fun hne ↦ absurd rfl hne) nofun
    (ht.nodup hc) hfollows hhead
  rw [Nat.zero_add] at hready hstop
  refine ⟨fun hroom ↦ ?_, fun hroom ↦ ?_⟩
  · obtain ⟨used, rest, b, hsplit, hgather, hused, husable, henough, hneeded⟩ := hready hroom
    rw [List.nil_append] at hgather henough hneeded
    have hlaid := ht.laid hc
    rw [hsplit] at hlaid
    have hbuffers : ∀ x ∈ used, (descRead t.board.ram x.1.toNat).buffer = x.2.buffer := by
      intro x hx
      have hmem : x ∈ slotsFrom t.board.ram base n c := by
        rw [hsplit]
        exact List.mem_append_left rest hx
      obtain ⟨i, hi, rfl⟩ := mem_slotsFrom hc hmem
      simp only [slotAt]
      rw [ht.ring.toNat_slotAddress hi]
    obtain ⟨u, hfill, hkept, hcontents, hdescs, hframe⟩ := fill_spec (n := frame.length)
      hlaid.left flags true frame henough hbuffers
    rw [hleaves.rxCursor, hcursor, ht.register] at hused
    have hb := ht.ring.cursor hc hsplit hused
    rw [hgather]
    dsimp only
    rw [hfill]
    obtain ⟨hboard, hrx, hregister⟩ := finish_fields flags b u
    refine ⟨rfl, ?_, used, ⟨rest, ?_⟩, ?_, henough, ?_, ?_, ?_, ?_, ?_⟩
    · exact hregister.trans ((hkept.regs 0x20 (by decide) (by decide)).trans hleaves.register)
    · rw [← hleaves.board, hsplit]
    · exact fun x hx ↦ (usable_iff.mp (husable x hx)).1
    · refine hneeded fun hnil ↦ ?_
      rw [hnil] at henough
      change frame.length ≤ 0 at henough
      omega
    · dsimp only
      rw [hboard]
      exact hcontents
    · intro i hi
      dsimp only
      rw [hboard, hdescs i hi]
      refine handed_received hhigh _ _ _ (lt_of_le_of_lt ?_ hflags)
      rw [BitVec.toNat_and]
      exact Nat.and_le_left
    · intro i hi
      dsimp only
      rw [hboard, hframe i hi, hleaves.board]
    · exact hrx.trans hb
  · obtain ⟨result, hgather, hresult⟩ := hstop hroom
    rw [hgather]
    exact hleaves.trans hresult

end Storing

def Whole (base n : ℕ) (s : Eth) (frame : List Byte) : Prop :=
  ∃ c < n, s.rxCursor = BitVec.ofNat 32 (slotAddress base c) ∧
    if Accepts s frame ∧ frame.length ≤ room (slotsFrom s.board.ram base n c) then
      (receive s frame).1 = true ∧ ∃ used, Stores s (receive s frame).2 frame base n c used
    else (receive s frame).2.board = s.board

theorem receive_of_accepts (h : Accepts s frame) : receive s frame = place s frame := by
  obtain ⟨herror, hlink, henabled, hrequest, hmode, hlow, hhigh, haddressed⟩ := h
  have hon : ¬(¬s.link ∨ s.regs 0x100 &&& 0x40 = 0 ∨ s.regs 0x10 = 0) := by
    rintro (h | h | h)
    · exact h hlink
    · exact henabled h
    · exact hrequest h
  unfold receive mode
  rw [herror, if_neg (by simp), if_neg hon, if_pos hmode]
  dsimp only
  rw [if_neg (by omega), if_neg (not_not_intro haddressed)]

theorem receive_of_not_accepts (h : ¬Accepts s frame) : Leaves s (receive s frame).2 := by
  have hsame : Leaves s s := ⟨rfl, rfl, rfl⟩
  unfold receive
  by_cases herror : s.error.isSome
  · rwa [if_pos herror]
  · rw [if_neg herror]
    by_cases hoff : ¬s.link ∨ s.regs 0x100 &&& 0x40 = 0 ∨ s.regs 0x10 = 0
    · rwa [if_pos hoff]
    · rw [if_neg hoff]
      unfold mode
      by_cases hmode : s.regs 0 = 0x40
      · rw [if_pos hmode]
        dsimp only
        by_cases hsize : frame.length < 14 ∨ maxFrame < frame.length
        · rw [if_pos hsize]
          exact ⟨rfl, rfl, rfl⟩
        · rw [if_neg hsize]
          by_cases haddressed : addressed s frame
          · refine absurd ⟨?_, ?_, ?_, ?_, hmode, ?_, ?_, haddressed⟩ h
            · simpa using herror
            · by_contra hlink
              exact hoff (.inl hlink)
            · exact fun henabled ↦ hoff (.inr (.inl henabled))
            · exact fun hrequest ↦ hoff (.inr (.inr hrequest))
            · omega
            · omega
          · rwa [if_pos haddressed]
      · rw [if_neg hmode]
        exact ⟨rfl, rfl, rfl⟩

theorem receive_spec (h : RingReady s base n) (frame : List Byte) :
    Whole base n s frame ∧ RingReady (receive s frame).2 base n := by
  obtain ⟨c, hc, hcursor⟩ := h.cursor
  by_cases haccepts : Accepts s frame
  · have hreceive := receive_of_accepts haccepts
    have hplace := place_spec h hc hcursor haccepts.2.2.2.2.2.1 haccepts.2.2.2.2.2.2.1
    rw [← hreceive] at hplace
    by_cases hroom : frame.length ≤ room (slotsFrom s.board.ram base n c)
    · obtain ⟨htrue, hregister, used, hstores⟩ := hplace.1 hroom
      refine ⟨⟨c, hc, hcursor, ?_⟩, hstores.ready h hc hregister⟩
      rw [if_pos ⟨haccepts, hroom⟩]
      exact ⟨htrue, used, hstores⟩
    · have hleaves := hplace.2 (not_le.mp hroom)
      refine ⟨⟨c, hc, hcursor, ?_⟩, hleaves.ready h⟩
      rw [if_neg fun hboth ↦ hroom hboth.2]
      exact hleaves.board
  · have hleaves := receive_of_not_accepts haccepts
    refine ⟨⟨c, hc, hcursor, ?_⟩, hleaves.ready h⟩
    rw [if_neg fun hboth ↦ haccepts hboth.1]
    exact hleaves.board

/-- Of any sequence of frames, each is stored whole where it is for the station and the ring has
room for it, and otherwise changes nothing in the guest's memory. -/
theorem frames_whole (h : RingReady s base n) (frames : List (List Byte)) :
    Observer.Throughout (fun s frame ↦ (receive s frame).2) (Whole base n) s frames := by
  induction frames generalizing s with
  | nil => trivial
  | cons frame frames ih =>
    obtain ⟨hwhole, hready⟩ := receive_spec h frame
    exact ⟨hwhole, ih hready⟩

end Cdj2000Emulator.Sh7764Eth.Receive
