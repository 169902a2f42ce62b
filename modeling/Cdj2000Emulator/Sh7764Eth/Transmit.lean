import Cdj2000Emulator.Sh7764Eth.Receive

namespace Cdj2000Emulator.Sh7764Eth.Transmit

open Library.Bytes Library.Store Library.Monitor Model Descriptors Receive

variable {s t : Eth} {base n c : ℕ}

def payload (ram : ℕ → Byte) (frame : List Slot) : List Byte :=
  frame.flatMap fun x ↦ read ram x.2.buffer.toNat x.2.length

/-- A frame on the wire, 60 bytes at least. -/
def padded (bytes : List Byte) : List Byte := bytes ++ List.replicate (60 - bytes.length) 0

def handedBack (d : Descriptor) : Word := d.status &&& ~~~(0x80000000 ||| fe)

/-- A descriptor of a frame, as the device takes it. -/
structure Part (isFirst isLast : Bool) (d : Descriptor) : Prop where
  active : d.active = true
  first : d.first = isFirst
  last : d.last = isLast
  status : d.status &&& 0x03ffffff = 0
  size : d.size &&& 0xffff = 0
  length : d.length ≠ 0
  alignment : d.length ≤ 16 → d.buffer &&& 31 = 0

/-- A frame that is queued as the device takes it. -/
structure WellFormed (frame : List Slot) : Prop where
  parts : ∀ (i : ℕ) (hi : i < frame.length),
    Part (i == 0) (i + 1 == frame.length) frame[i].2
  inhabited : frame ≠ []
  short : capacity frame ≤ maxFrame

instance (isFirst isLast : Bool) (d : Descriptor) : Decidable (Part isFirst isLast d) :=
  decidable_of_iff (d.active = true ∧ d.first = isFirst ∧ d.last = isLast ∧
      d.status &&& 0x03ffffff = 0 ∧ d.size &&& 0xffff = 0 ∧ d.length ≠ 0 ∧
      (d.length ≤ 16 → d.buffer &&& 31 = 0))
    ⟨fun ⟨h1, h2, h3, h4, h5, h6, h7⟩ ↦ ⟨h1, h2, h3, h4, h5, h6, h7⟩,
      fun ⟨h1, h2, h3, h4, h5, h6, h7⟩ ↦ ⟨h1, h2, h3, h4, h5, h6, h7⟩⟩

instance (frame : List Slot) : Decidable (WellFormed frame) :=
  decidable_of_iff ((∀ (i : ℕ) (hi : i < frame.length),
      Part (i == 0) (i + 1 == frame.length) frame[i].2) ∧ frame ≠ [] ∧ capacity frame ≤ maxFrame)
    ⟨fun ⟨h1, h2, h3⟩ ↦ ⟨h1, h2, h3⟩, fun ⟨h1, h2, h3⟩ ↦ ⟨h1, h2, h3⟩⟩

/-- The transmitter is on, in the modelled mode, with a network to send to; the ring has `frames`
queued at its `c`-th descriptor, in the guest's memory and apart from the descriptors, and the
next descriptor is not queued. -/
structure Queued (s : Eth) (base n c : ℕ) (frames : List (List Slot)) : Prop where
  ring : Ring s.board.ram base n
  register : s.regs 0x18 = BitVec.ofNat 32 base
  within : c < n
  cursor : s.txCursor = BitVec.ofNat 32 (slotAddress base c)
  error : s.error = none
  link : s.link = true
  enabled : s.regs 0x100 &&& 0x20 ≠ 0
  mode : s.regs 0 = 0x40
  takes : s.board.takes = true
  next : ∃ rest, slotsFrom s.board.ram base n c = frames.flatten ++ rest ∧
    ∀ x ∈ rest.head?, x.2.active = false
  wellFormed : ∀ frame ∈ frames, WellFormed frame
  reaches : ∀ x ∈ frames.flatten, ramRange x.2.buffer.toNat x.2.length
  outside : ∀ x ∈ frames.flatten,
    x.2.buffer.toNat + x.2.length ≤ base ∨ base + 16 * n ≤ x.2.buffer.toNat

section HandingBack

def returned (ram : ℕ → Byte) (slots : List Slot) : ℕ → Byte :=
  slots.foldl (fun ram x ↦ write ram x.1.toNat (wordBytes (handedBack x.2))) ram

variable {ram : ℕ → Byte} {slots : List Slot} {x : Slot}

theorem handBack_eq (h : ∀ x ∈ slots, ramRange x.1.toNat 12) :
    handBack slots s = (true, { s with board := { s.board with
      ram := returned s.board.ram slots } }) := by
  induction slots generalizing s with
  | nil => rfl
  | cons x slots ih =>
    obtain ⟨a, d⟩ := x
    have hrange : ramRange a.toNat (4 * [d.status &&& ~~~(0x80000000 ||| fe)].length) :=
      ramRange_mono (h (a, d) List.mem_cons_self) (show 4 * 1 ≤ 12 by decide)
    rw [handBack, writeDesc, if_pos hrange]
    dsimp only
    rw [ih fun x hx ↦ h x (.tail (a, d) hx)]
    simp only [returned, List.foldl_cons, List.flatMap_singleton]
    rfl

theorem returned_outside {i : ℕ} (h : ∀ x ∈ slots, i < x.1.toNat ∨ x.1.toNat + 4 ≤ i) :
    returned ram slots i = ram i := by
  induction slots generalizing ram with
  | nil => rfl
  | cons x slots ih =>
    have hx := h x List.mem_cons_self
    refine (ih fun y hy ↦ h y (.tail x hy)).trans (write_outside ?_)
    rwa [length_wordBytes]

def Apart (slots : List Slot) : Prop :=
  slots.Pairwise fun x y ↦ x.1.toNat + 16 ≤ y.1.toNat ∨ y.1.toNat + 16 ≤ x.1.toNat

theorem descRead_returned_other {a : ℕ}
    (h : ∀ x ∈ slots, a + 16 ≤ x.1.toNat ∨ x.1.toNat + 16 ≤ a) :
    descRead (returned ram slots) a = descRead ram a := by
  refine descRead_congr fun i hi hi' ↦ returned_outside fun x hx ↦ ?_
  have := h x hx
  omega

theorem descRead_returned (happart : Apart slots) (hx : x ∈ slots)
    (hread : descRead ram x.1.toNat = x.2) :
    descRead (returned ram slots) x.1.toNat = { x.2 with status := handedBack x.2 } := by
  induction slots generalizing ram with
  | nil => cases hx
  | cons y slots ih =>
    obtain ⟨hy, happart'⟩ := List.pairwise_cons.mp happart
    change descRead (returned (write ram y.1.toNat (wordBytes (handedBack y.2))) slots) _ = _
    rcases List.mem_cons.mp hx with rfl | hmem
    · rw [descRead_returned_other fun z hz ↦ hy z hz]
      rw [← hread]
      unfold descRead
      congr 1
      · exact wordAt_write _ _
      · refine wordAt_congr fun i hi hi' ↦ write_outside ?_
        rw [length_wordBytes]
        omega
      · refine wordAt_congr fun i hi hi' ↦ write_outside ?_
        rw [length_wordBytes]
        omega
    · refine ih happart' hmem ?_
      rw [← hread]
      refine descRead_congr fun i hi hi' ↦ write_outside ?_
      have := hy x hmem
      rw [length_wordBytes]
      omega

theorem handedBack_inactive (d : Descriptor) :
    ({ d with status := handedBack d } : Descriptor).active = false := by
  rw [active_eq]
  simp [handedBack, fe]

end HandingBack

section Parts

variable {pre : List Slot} {bytes : List Byte} {d : Descriptor} {isLast : Bool}

/-- The device once it has read a descriptor of a frame. -/
def advance (t : Eth) (d : Descriptor) : Eth :=
  { (t.set 0xd8 t.txCursor).set 0xd4 (d.buffer + BitVec.ofNat 32 d.length) with
    txCursor := nextDesc t.txCursor d (t.regs 0x18) }

def complete (work : ℕ) (frame : List Slot) (bytes : List Byte) (t : Eth) : Bool × Eth :=
  match sendFrame frame bytes t with
  | (false, s) => (false, s)
  | (true, s) => transmitLoop work [] [] s

theorem Part.not_malformed (h : Part pre.isEmpty isLast d)
    (hfits : bytes.length + d.length ≤ maxFrame) : ¬Malformed pre bytes d := by
  rintro (hbad | hbad | hbad | hbad | hbad | hbad)
  · exact hbad h.status
  · exact hbad h.size
  · exact h.length hbad
  · omega
  · exact hbad.2 (h.alignment hbad.1)
  · exact hbad h.first

theorem transmitLoop_part (work : ℕ) (h : Part pre.isEmpty isLast d)
    (hdescriptor : descriptor t t.txCursor = some d)
    (hfits : bytes.length + d.length ≤ maxFrame)
    (hreaches : ramRange d.buffer.toNat d.length) :
    transmitLoop (work + 1) pre bytes t =
      if isLast then
        complete work (pre ++ [(t.txCursor, d)])
          (bytes ++ read t.board.ram d.buffer.toNat d.length) (advance t d)
      else
        transmitLoop work (pre ++ [(t.txCursor, d)])
          (bytes ++ read t.board.ram d.buffer.toNat d.length) (advance t d) := by
  have hdescriptor' : descriptor (t.set 0xd8 t.txCursor) t.txCursor = some d := hdescriptor
  have hread : dmaRead (t.set 0xd8 t.txCursor) d.buffer d.length =
      some (read t.board.ram d.buffer.toNat d.length) := if_pos (dmaReaches_of_range hreaches)
  rw [transmitLoop]
  dsimp only
  rw [hdescriptor']
  dsimp only
  rw [if_neg (not_not_intro h.active), if_neg (h.not_malformed hfits), hread, h.last]
  rfl

theorem payload_concat (ram : ℕ → Byte) (pre : List Slot) (x : Slot) :
    payload ram (pre ++ [x]) = payload ram pre ++ read ram x.2.buffer.toNat x.2.length := by
  simp [payload]

theorem length_payload (ram : ℕ → Byte) (frame : List Slot) :
    (payload ram frame).length = capacity frame := by
  simp [payload, capacity, List.length_flatMap]

theorem capacity_append (xs ys : List Slot) : capacity (xs ++ ys) = capacity xs + capacity ys := by
  simp [capacity]

theorem transmitLoop_frame (work : ℕ) (pre post : List Slot) {b : Word} (hpost : post ≠ [])
    (h : WellFormed (pre ++ post))
    (hfollows : Follows t.board.ram (t.regs 0x18) t.txCursor post b)
    (hreaches : ∀ x ∈ post, ramRange x.2.buffer.toNat x.2.length) :
    ∃ u, transmitLoop (work + post.length) pre (payload t.board.ram pre) t =
        complete work (pre ++ post) (payload t.board.ram (pre ++ post)) u ∧
      u.board = t.board ∧ u.txCursor = b ∧
      ∀ o, o ≠ 0xd8 → o ≠ 0xd4 → u.regs o = t.regs o := by
  induction post generalizing pre t with
  | nil => exact absurd rfl hpost
  | cons x post ih =>
    obtain ⟨a, d⟩ := x
    obtain ⟨rfl, haligned, hrange, hread, hrest⟩ := hfollows
    have hdescriptor : descriptor t t.txCursor = some d := by
      rw [descriptor_of_range haligned hrange, hread]
    have hpart : Part pre.isEmpty post.isEmpty d := by
      have hmem : pre.length < (pre ++ (t.txCursor, d) :: post).length := by simp
      have hget : (pre ++ (t.txCursor, d) :: post)[pre.length] = (t.txCursor, d) := by simp
      have hpart := h.parts pre.length hmem
      have hfirst : (pre.length == 0) = pre.isEmpty := by cases pre <;> rfl
      have hlast : (pre.length + 1 == (pre ++ (t.txCursor, d) :: post).length) = post.isEmpty := by
        cases post <;> simp
      rwa [hfirst, hlast, hget] at hpart
    have hfits : (payload t.board.ram pre).length + d.length ≤ maxFrame := by
      have hshort := h.short
      rw [List.append_cons, capacity_append, capacity_append] at hshort
      rw [length_payload]
      have hsingle : capacity [(t.txCursor, d)] = d.length := by simp [capacity]
      omega
    have hstep := transmitLoop_part (work + post.length) hpart hdescriptor hfits
      (hreaches _ List.mem_cons_self)
    rw [← payload_concat t.board.ram pre (t.txCursor, d)] at hstep
    have hregs : ∀ o, o ≠ 0xd8 → o ≠ 0xd4 → (advance t d).regs o = t.regs o := fun o h1 h2 ↦
      (Function.update_of_ne h2 _ _).trans (Function.update_of_ne h1 _ _)
    cases post with
    | nil =>
      obtain rfl : nextDesc t.txCursor d (t.regs 0x18) = b := hrest
      exact ⟨advance t d, hstep, rfl, rfl, hregs⟩
    | cons y post =>
      obtain ⟨u, hloop, hboard, hcursor, hregs'⟩ := ih (t := advance t d)
        (pre ++ [(t.txCursor, d)]) (List.cons_ne_nil y post) (by rwa [List.append_assoc]) hrest
        fun z hz ↦ hreaches z (.tail _ hz)
      rw [List.append_assoc] at hloop
      refine ⟨u, hstep.trans hloop, hboard, hcursor, fun o h1 h2 ↦ ?_⟩
      rw [hregs' o h1 h2, hregs o h1 h2]

end Parts

/-- Descriptors between `low` and `high`, apart, with their buffers elsewhere. -/
structure Placed (low high : ℕ) (slots : List Slot) : Prop where
  inside : ∀ x ∈ slots, low ≤ x.1.toNat ∧ x.1.toNat + 16 ≤ high ∧ ramRange x.1.toNat 12
  reaches : ∀ x ∈ slots, ramRange x.2.buffer.toNat x.2.length
  outside : ∀ x ∈ slots, x.2.buffer.toNat + x.2.length ≤ low ∨ high ≤ x.2.buffer.toNat
  apart : Apart slots

section Frames

variable {low high : ℕ} {xs ys : List Slot} {ram : ℕ → Byte}

theorem Placed.left (h : Placed low high (xs ++ ys)) : Placed low high xs :=
  ⟨fun x hx ↦ h.inside x (List.mem_append_left ys hx),
    fun x hx ↦ h.reaches x (List.mem_append_left ys hx),
    fun x hx ↦ h.outside x (List.mem_append_left ys hx), (List.pairwise_append.mp h.apart).1⟩

theorem Placed.right (h : Placed low high (xs ++ ys)) : Placed low high ys :=
  ⟨fun x hx ↦ h.inside x (List.mem_append_right xs hx),
    fun x hx ↦ h.reaches x (List.mem_append_right xs hx),
    fun x hx ↦ h.outside x (List.mem_append_right xs hx), (List.pairwise_append.mp h.apart).2.1⟩

/-- The descriptors further on stay as they are when the first ones are handed back. -/
theorem Placed.descRead_right (h : Placed low high (xs ++ ys)) {y : Slot} (hy : y ∈ ys) :
    descRead (returned ram xs) y.1.toNat = descRead ram y.1.toNat :=
  descRead_returned_other fun x hx ↦ ((List.pairwise_append.mp h.apart).2.2 x hx y hy).symm

/-- No buffer holds a descriptor. -/
theorem Placed.payload_right (h : Placed low high (xs ++ ys)) {frame : List Slot}
    (hframe : ∀ y ∈ frame, y ∈ ys) : payload (returned ram xs) frame = payload ram frame := by
  unfold payload
  refine List.flatMap_congr fun y hy ↦ read_congr fun i hi hi' ↦ returned_outside fun x hx ↦ ?_
  obtain ⟨hlow, hhigh, -⟩ := h.left.inside x hx
  have := h.right.outside y (hframe y hy)
  omega

theorem complete_eq (work : ℕ) (h : Placed low high xs) (htakes : t.board.takes = true)
    (bytes : List Byte) :
    ∃ u, complete work xs bytes t = transmitLoop work [] [] u ∧
      u.board = ⟨returned t.board.ram xs, true, t.board.sent ++ [padded bytes]⟩ ∧
      u.txCursor = t.txCursor ∧ ∀ o, o ≠ 0x28 → u.regs o = t.regs o := by
  unfold complete sendFrame
  rw [if_pos htakes]
  dsimp only
  rw [handBack_eq fun x hx ↦ (h.inside x hx).2.2]
  refine ⟨_, rfl, ?_, rfl, fun o ho ↦ Function.update_of_ne ho _ _⟩
  simp only [Eth.or, Eth.set]
  rw [htakes]
  rfl

theorem transmitLoop_frames (work : ℕ) (frames : List (List Slot)) {b : Word}
    (h : Placed low high frames.flatten) (hwf : ∀ frame ∈ frames, WellFormed frame)
    (hfollows : Follows t.board.ram (t.regs 0x18) t.txCursor frames.flatten b)
    (htakes : t.board.takes = true) :
    ∃ u, transmitLoop (work + frames.flatten.length) [] [] t = transmitLoop work [] [] u ∧
      u.board.ram = returned t.board.ram frames.flatten ∧
      u.board.sent = t.board.sent ++ frames.map (fun frame ↦ padded (payload t.board.ram frame)) ∧
      u.txCursor = b := by
  induction frames generalizing t with
  | nil => exact ⟨t, rfl, rfl, (List.append_nil _).symm, hfollows⟩
  | cons frame frames ih =>
    rw [List.flatten_cons] at h hfollows
    obtain ⟨m, hframe, hrest⟩ := hfollows.split
    have hwf' := hwf frame List.mem_cons_self
    obtain ⟨u, hloop, hboard, hcursor, hregs⟩ := transmitLoop_frame
      (work + frames.flatten.length) [] frame hwf'.inhabited hwf' hframe h.left.reaches
    obtain ⟨v, hcomplete, hboard', hcursor', hregs'⟩ := complete_eq
      (work + frames.flatten.length) h.left (by rw [hboard]; exact htakes)
      (payload t.board.ram frame)
    have hram : v.board.ram = returned t.board.ram frame := by rw [hboard', hboard]
    obtain ⟨w, hloop', hram', hsent, hcursor''⟩ := ih (t := v) h.right
      (fun g hg ↦ hwf g (.tail frame hg))
      (by
        rw [hram, hcursor', hcursor, hregs' 0x18 (by decide), hregs 0x18 (by decide) (by decide)]
        exact hrest.congr fun y hy ↦ h.descRead_right hy)
      (by rw [hboard'])
    refine ⟨w, ?_, ?_, ?_, hcursor''⟩
    · have hlength : work + (frame :: frames).flatten.length =
          work + frames.flatten.length + frame.length := by
        rw [List.flatten_cons, List.length_append]
        omega
      rw [hlength]
      exact (hloop.trans hcomplete).trans hloop'
    · rw [hram', hram, List.flatten_cons, returned, returned, returned, List.foldl_append]
    · have hsame : frames.map (fun g ↦ padded (payload v.board.ram g)) =
          frames.map (fun g ↦ padded (payload t.board.ram g)) := by
        refine List.map_congr_left fun g hg ↦ ?_
        rw [hram, h.payload_right fun y hy ↦ List.mem_flatten.mpr ⟨g, hg, hy⟩]
      rw [hsent, hsame, hboard', hboard, List.map_cons, List.append_assoc]
      rfl

end Frames

/-- Each frame is sent once, in the order of the ring, its descriptors are handed back, and
nothing else is written. -/
structure Sends (s s' : Eth) (base n c : ℕ) (frames : List (List Slot)) : Prop where
  sent : s'.board.sent =
    s.board.sent ++ frames.map fun frame ↦ padded (payload s.board.ram frame)
  handed : ∀ x ∈ frames.flatten,
    descRead s'.board.ram x.1.toNat = { x.2 with status := handedBack x.2 }
  untouched : ∀ i, (∀ x ∈ frames.flatten, i < x.1.toNat ∨ x.1.toNat + 4 ≤ i) →
    s'.board.ram i = s.board.ram i
  cursor : s'.txCursor = BitVec.ofNat 32 (slotAddress base ((c + frames.flatten.length) % n))

section Request

variable {frames : List (List Slot)}

theorem apart_slotsFrom {ram : ℕ → Byte} (h : Ring ram base n) (hc : c < n) :
    Apart (slotsFrom ram base n c) := by
  refine pairwise_slotsFrom hc fun i hi j hj hne ↦ ?_
  simp only [slotAt]
  rw [h.toNat_slotAddress hi, h.toNat_slotAddress hj, slotAddress, slotAddress]
  omega

theorem Queued.placed (h : Queued s base n c frames) :
    Placed base (base + 16 * n) frames.flatten := by
  obtain ⟨rest, hsplit, -⟩ := h.next
  have happart := apart_slotsFrom h.ring h.within
  rw [hsplit] at happart
  refine ⟨fun x hx ↦ ?_, h.reaches, h.outside, (List.pairwise_append.mp happart).1⟩
  have hmem : x ∈ slotsFrom s.board.ram base n c := by
    rw [hsplit]
    exact List.mem_append_left rest hx
  obtain ⟨i, hi, rfl⟩ := mem_slotsFrom h.within hmem
  have haddress := h.ring.toNat_slotAddress hi
  have hrange := h.ring.slot_range hi
  rw [← haddress] at hrange
  refine ⟨?_, ?_, hrange⟩ <;> rw [slotAt, haddress, slotAddress] <;> omega

theorem Queued.read (h : Queued s base n c frames) {x : Slot} (hx : x ∈ frames.flatten) :
    descRead s.board.ram x.1.toNat = x.2 := by
  obtain ⟨rest, hsplit, -⟩ := h.next
  have hmem : x ∈ slotsFrom s.board.ram base n c := by
    rw [hsplit]
    exact List.mem_append_left rest hx
  obtain ⟨i, hi, rfl⟩ := mem_slotsFrom h.within hmem
  simp only [slotAt]
  rw [h.ring.toNat_slotAddress hi]

theorem Queued.next_inactive (h : Queued s base n c frames) :
    (descRead (returned s.board.ram frames.flatten)
      (slotAddress base ((c + frames.flatten.length) % n))).active = false := by
  obtain ⟨rest, hsplit, hrest⟩ := h.next
  have hlength := congrArg List.length hsplit
  rw [length_slotsFrom h.within.le, List.length_append] at hlength
  cases rest with
  | nil =>
    rw [List.append_nil] at hsplit
    have hn : frames.flatten.length = n := by simpa using hlength.symm
    have hmem : slotAt s.board.ram base c ∈ frames.flatten := by
      rw [← hsplit]
      exact List.mem_of_mem_head? (head_slotsFrom h.within)
    have hread := descRead_returned h.placed.apart hmem (h.read hmem)
    simp only [slotAt] at hread
    rw [h.ring.toNat_slotAddress h.within] at hread
    rw [hn, Nat.add_mod_right, Nat.mod_eq_of_lt h.within, hread]
    exact handedBack_inactive _
  | cons x rest =>
    have hi : frames.flatten.length < (slotsFrom s.board.ram base n c).length := by
      rw [hsplit, List.length_append, List.length_cons]
      omega
    have hx : (slotsFrom s.board.ram base n c)[frames.flatten.length] = x := by
      simp [hsplit]
    rw [getElem_slotsFrom h.within hi] at hx
    have happart := apart_slotsFrom h.ring h.within
    rw [hsplit] at happart
    have hj : (c + frames.flatten.length) % n < n := Nat.mod_lt _ h.ring.inhabited
    have haddress : x.1.toNat = slotAddress base ((c + frames.flatten.length) % n) := by
      rw [← hx]
      exact h.ring.toNat_slotAddress hj
    rw [descRead_returned_other fun y hy ↦ ?_]
    · have hinactive := hrest x rfl
      rwa [← hx] at hinactive
    · rw [← haddress]
      exact ((List.pairwise_append.mp happart).2.2 y hy x List.mem_cons_self).symm

theorem Queued.request (h : Queued s base n c frames) :
    writeReg s 8 1 = transmitLoop maxDesc [] [] (s.set 8 1) := by
  have hmode : (s.set 8 1).regs 0 = 0x40 := h.mode
  have hon : ¬((s.set 8 1).regs 0x100 &&& 0x20 = 0 ∨ ¬(s.set 8 1).link) := by
    rintro (hoff | hoff)
    · exact h.enabled hoff
    · exact hoff h.link
  unfold writeReg
  rw [if_neg (by decide), h.error]
  change transmit (s.set 8 1) = _
  rw [transmit, if_neg hon, Model.mode, if_pos hmode]

theorem Queued.sends_first {more : List (List Slot)} (h : Queued s base n c (frames ++ more))
    (work : ℕ) (hwork : work + frames.flatten.length = maxDesc) :
    ∃ u, writeReg s 8 1 = transmitLoop work [] [] u ∧ Sends s u base n c frames ∧
      u.board.ram = returned s.board.ram frames.flatten := by
  obtain ⟨rest, hsplit, -⟩ := h.next
  rw [List.flatten_append, List.append_assoc] at hsplit
  have hplaced := h.placed
  rw [List.flatten_append] at hplaced
  have hfollows := h.ring.follows h.within
  rw [hsplit] at hfollows
  obtain ⟨b, hqueue, -⟩ := hfollows.split
  have hb := h.ring.cursor h.within hsplit hqueue
  rw [← h.register, ← h.cursor] at hqueue
  obtain ⟨u, hloop, hram, hsent, hcursor⟩ := transmitLoop_frames (t := s.set 8 1) work frames
    hplaced.left (fun frame hframe ↦ h.wellFormed frame (List.mem_append_left more hframe)) hqueue
    h.takes
  rw [hwork, ← h.request] at hloop
  refine ⟨u, hloop, ⟨hsent, fun x hx ↦ ?_, fun i hi ↦ ?_, hcursor.trans hb⟩, hram⟩
  · rw [hram]
    refine descRead_returned hplaced.left.apart hx (h.read ?_)
    rw [List.flatten_append]
    exact List.mem_append_left _ hx
  · rw [hram]
    exact returned_outside hi

theorem Queued.loop_end (h : Queued s base n c frames) {u : Eth} (hsends : Sends s u base n c frames)
    (hram : u.board.ram = returned s.board.ram frames.flatten) (work : ℕ) :
    transmitLoop (work + 1) [] [] u = (true, (u.set 0xd8 u.txCursor).set 8 0) := by
  have hj : (c + frames.flatten.length) % n < n := Nat.mod_lt _ h.ring.inhabited
  have haddress := h.ring.toNat_slotAddress hj
  have hdescriptor : descriptor (u.set 0xd8 u.txCursor) u.txCursor =
      some (descRead (returned s.board.ram frames.flatten)
        (slotAddress base ((c + frames.flatten.length) % n))) := by
    rw [hsends.cursor, descriptor_of_range (h.ring.slot_aligned hj)
      (by rw [haddress]; exact h.ring.slot_range hj), haddress]
    change some (descRead u.board.ram _) = _
    rw [hram]
  rw [transmitLoop]
  dsimp only
  rw [hdescriptor]
  dsimp only
  rw [if_pos (by rw [h.next_inactive]; decide), if_pos rfl]

theorem request_spec (h : Queued s base n c frames) (hbound : frames.flatten.length ≤ maxDesc) :
    Sends s (writeReg s 8 1).2 base n c frames ∧
      ((writeReg s 8 1).1 = true ↔ frames.flatten.length < maxDesc) := by
  have h' : Queued s base n c (frames ++ []) := by rwa [List.append_nil]
  obtain ⟨u, hloop, hsends, hram⟩ := h'.sends_first (maxDesc - frames.flatten.length) (by omega)
  rw [hloop]
  rcases hbound.lt_or_eq with hlt | heq
  · have hwork : maxDesc - frames.flatten.length = maxDesc - frames.flatten.length - 1 + 1 := by
      omega
    rw [hwork, h.loop_end hsends hram]
    exact ⟨⟨hsends.sent, hsends.handed, hsends.untouched, hsends.cursor⟩, fun _ ↦ hlt, fun _ ↦ rfl⟩
  · rw [heq, Nat.sub_self, transmitLoop]
    exact ⟨⟨hsends.sent, hsends.handed, hsends.untouched, hsends.cursor⟩, nofun,
      fun hlt ↦ absurd hlt (lt_irrefl _)⟩

theorem request_bounded {more : List (List Slot)} (h : Queued s base n c (frames ++ more))
    (hbound : frames.flatten.length = maxDesc) :
    (writeReg s 8 1).1 = false ∧ Sends s (writeReg s 8 1).2 base n c frames ∧
      ∀ x ∈ more.flatten, descRead (writeReg s 8 1).2.board.ram x.1.toNat = x.2 := by
  obtain ⟨u, hloop, hsends, hram⟩ := h.sends_first 0 (by omega)
  rw [hloop, transmitLoop]
  refine ⟨rfl, ⟨hsends.sent, hsends.handed, hsends.untouched, hsends.cursor⟩, fun x hx ↦ ?_⟩
  have hplaced := h.placed
  rw [List.flatten_append] at hplaced
  change descRead u.board.ram _ = _
  rw [hram, hplaced.descRead_right hx]
  refine h.read ?_
  rw [List.flatten_append]
  exact List.mem_append_right _ hx

end Request

end Cdj2000Emulator.Sh7764Eth.Transmit
