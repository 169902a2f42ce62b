import Cdj2000Emulator.Library.Traces
import Cdj2000Emulator.Sdhi.Model

namespace Cdj2000Emulator.Sdhi

open Library.Bytes Library.Traces State

variable {σ : Type}

inductive Event
  | dataReady
  | readData
  | writeData (value : BitVec 16)
  /-- A channel reads into a fresh buffer. -/
  | dmaRead (buffer : List Byte)
  | dmaWrite (bytes : List Byte)
  | writeReg (reg : Reg) (value : BitVec 16)

namespace State

/-- A block is in the buffer, or the card takes one: its timer has expired and it is not done. -/
def Staged (s : State σ) : Prop := s.dataTimer = none ∧ s.blocksLeft ≠ 0

/-- The end of a transfer has nothing more to report. -/
def Settled (s : State σ) : Prop :=
  s.blocksLeft = 0 ∧ s.info1 ||| dataEndBit = s.info1 ∧ s.info2 &&& ~~~(rxRdy ||| txRq) = s.info2 ∧
    ¬(s.multi = true ∧ s.stop &&& stopEnable ≠ 0)

instance (s : State σ) : Decidable s.Staged := inferInstanceAs (Decidable (_ ∧ _))

instance (s : State σ) : Decidable s.Settled := inferInstanceAs (Decidable (_ ∧ _))

end State

namespace Event

variable (card : Card σ) (bps : ℕ)

def handle (now : ℤ) (s : State σ) : Event → State σ × List Label
  | .dataReady => s.dataReady card
  | .readData => (s.readData card bps now).2
  | .writeData value => s.writeData card bps now value
  | .dmaRead buffer => s.dmacRead card bps now buffer
  | .dmaWrite bytes => (s.dmaWrite card bps now bytes).2
  | .writeReg reg value => (s.writeReg reg value, [])

def offered (s : State σ) : Event → List Byte
  | .writeData value =>
    if s.writing = true ∧ s.Staged then
      ([value.setWidth 8, (value >>> 8).setWidth 8] : List Byte).take (s.bufLen - s.bufPos)
    else []
  | .dmaWrite bytes => if s.writing = true ∧ s.Staged then bytes.take (s.bufLen - s.bufPos) else []
  | _ => []

def Allowed (now : ℤ) (s : State σ) : Event → Prop
  | .dataReady => ∃ t, s.dataTimer = some t ∧ t ≤ now
  | _ => True

/-- An access in the direction of the transfer while a block is staged, a DMA read to the end of the
block at most, or one that cannot reach the end of a block. -/
def Clean (s : State σ) : Event → Prop
  | .readData => s.writing = false ∧ s.Staged ∨ s.bufLen ≤ s.bufPos ∧ s.Settled
  | .writeData _ => s.writing = false ∨ s.Staged ∨ s.bufLen ≤ s.bufPos ∨ s.bufPos + 2 < s.bufLen
  | .dmaRead buffer =>
    s.bufLen = 0 ∨ s.writing = false ∧ s.Staged ∧ buffer.length ≤ s.bufLen - s.bufPos ∨
      buffer = [] ∧ (s.bufPos < s.bufLen ∨ s.Settled)
  | .dmaWrite bytes =>
    s.bufLen = 0 ∨ s.writing = false ∨ s.Staged ∨ s.bufPos + bytes.length < s.bufLen
  | _ => True

end Event

/-- The host in a run, with all that went over its buffer. -/
structure Play (σ : Type) where
  now : ℤ
  host : State σ
  /-- The guest's bytes, for the blocks that were staged. -/
  offered : List Byte
  handed : List Byte
  stored : List Byte
  readies : ℕ
  ends : ℕ
  stops : ℕ

namespace Play

def start (now : ℤ) (host : State σ) : Play σ :=
  { now, host, offered := [], handed := [], stored := [], readies := 0, ends := 0, stops := 0 }

def note (p : Play σ) : Label → Play σ
  | .ready => { p with readies := p.readies + 1 }
  | .handed bytes => { p with handed := p.handed ++ bytes }
  | .stored bytes => { p with stored := p.stored ++ bytes }
  | .dataEnd => { p with ends := p.ends + 1 }
  | .autoStop => { p with stops := p.stops + 1 }

def after (card : Card σ) (bps : ℕ) (now : ℤ) (e : Event) (p : Play σ) : Play σ :=
  let (host, out) := e.handle card bps now p.host
  out.foldl note { p with now, host, offered := p.offered ++ e.offered p.host }

end Play

/-- An event at a time that is no earlier, with an access that is clean. -/
inductive Step (card : Card σ) (bps : ℕ) : Play σ → Event → Play σ → Prop
  | event {p : Play σ} {now : ℤ} {e : Event} : p.now ≤ now → e.Allowed now p.host → e.Clean p.host →
      Step card bps p e (p.after card bps now e)

abbrev Run (card : Card σ) (bps : ℕ) : Play σ → List Event → Play σ → Prop := Path (Step card bps)

/-- A transfer of `n` blocks of `size` bytes that a command has started; `stop` when it ends with CMD12. -/
structure Transfer (σ : Type) where
  writing : Bool
  size : ℕ
  n : ℕ
  stop : Bool
  /-- The card after the command. -/
  card : σ

variable {card : Card σ} {bps : ℕ} {x : Transfer σ} {p q : Play σ} {s : State σ}

def inBuffer (s : State σ) : List Byte :=
  if s.Staged then if s.writing then s.slice 0 s.bufPos else s.slice s.bufPos s.bufLen else []

def cardAt (card : Card σ) (x : Transfer σ) (p : Play σ) : σ :=
  let c := if x.writing then card.writeBytes p.stored x.card else (card.readBytes (p.readies * x.size) x.card).2
  if p.stops = 0 then c else (card.command 12 0 c).2

/-- The two ways of a transfer, with `rest` bytes of a block in the buffer. -/
structure Moved (card : Card σ) (x : Transfer σ) (p : Play σ) (rest : List Byte) (left : ℕ) : Prop where
  read : x.writing = false →
    p.handed ++ rest = (card.readBytes (p.readies * x.size) x.card).1 ∧ p.stored = [] ∧ p.offered = []
  write : x.writing = true →
    p.stored ++ rest = p.offered ∧ p.stored.length + left * x.size = x.n * x.size ∧ p.handed = []

/-- A transfer that has been started. -/
structure Going (card : Card σ) (x : Transfer σ) (p : Play σ) : Prop where
  size : 0 < x.size
  bufLen : p.host.bufLen = x.size
  writing : p.host.writing = x.writing
  left : p.host.blocksLeft ≤ x.n
  timer : p.host.dataTimer ≠ none → p.host.blocksLeft ≠ 0
  pos : x.writing = true ∨ p.host.Staged → p.host.bufPos < x.size
  multi : p.host.blocksLeft ≠ 0 → (p.host.multi = true ∧ p.host.stop &&& stopEnable ≠ 0 ↔ x.stop = true)
  readies : p.readies + p.host.blocksLeft = x.n + if p.host.Staged then 1 else 0
  ends : p.ends = if p.host.blocksLeft = 0 then 1 else 0
  stops : p.stops = if p.host.blocksLeft = 0 ∧ x.stop = true then 1 else 0
  device : p.host.card = cardAt card x p
  quiet : p.host.blocksLeft ≠ 0 → p.host.info1 &&& dataEndBit = 0
  moved : Moved card x p (inBuffer p.host) p.host.blocksLeft

/-- A block that has just been moved. -/
structure Complete (card : Card σ) (x : Transfer σ) (p : Play σ) : Prop where
  size : 0 < x.size
  bufLen : p.host.bufLen = x.size
  writing : p.host.writing = x.writing
  left : p.host.blocksLeft ≤ x.n
  staged : p.host.Staged
  pos : x.writing = true → p.host.bufPos < x.size
  multi : p.host.multi = true ∧ p.host.stop &&& stopEnable ≠ 0 ↔ x.stop = true
  readies : p.readies + p.host.blocksLeft = x.n + 1
  ends : p.ends = 0
  stops : p.stops = 0
  device : p.host.card = cardAt card x p
  quiet : p.host.info1 &&& dataEndBit = 0
  moved : Moved card x p [] (p.host.blocksLeft - 1)

theorem inBuffer_eq_nil (h : ¬s.Staged) : inBuffer s = [] := if_neg h

theorem inBuffer_read (h : s.Staged) (hw : s.writing = false) : inBuffer s = s.slice s.bufPos s.bufLen := by
  rw [inBuffer, if_pos h, hw]
  rfl

theorem inBuffer_write (h : s.Staged) (hw : s.writing = true) : inBuffer s = s.slice 0 s.bufPos := by
  rw [inBuffer, if_pos h, if_pos hw]

theorem not_staged_of_timer (h : s.dataTimer ≠ none) : ¬s.Staged := fun hstaged ↦ h hstaged.1

theorem not_staged_of_over (h : s.blocksLeft = 0) : ¬s.Staged := fun hstaged ↦ hstaged.2 h

theorem Complete.more (h : Complete card x p) (hmore : p.host.blocksLeft - 1 ≠ 0) {t : State σ}
    (hbufLen : t.bufLen = p.host.bufLen) (hwriting : t.writing = p.host.writing) (hpos : t.bufPos = p.host.bufPos)
    (hmulti : t.multi = p.host.multi) (hstop : t.stop = p.host.stop) (hcard : t.card = p.host.card)
    (hinfo : t.info1 = p.host.info1) (hleft : t.blocksLeft = p.host.blocksLeft - 1) (htimer : t.dataTimer ≠ none) :
    Going card x { p with host := t } := by
  have hnone : ¬t.Staged := not_staged_of_timer htimer
  have hne : t.blocksLeft ≠ 0 := hleft ▸ hmore
  have hreadies := h.readies
  have hle := h.left
  refine ⟨h.size, hbufLen.trans h.bufLen, hwriting.trans h.writing, ?_, fun _ ↦ hne, ?_, fun _ ↦ ?_, ?_, ?_, ?_,
    hcard.trans h.device, fun _ ↦ ?_, ?_⟩
  · change t.blocksLeft ≤ x.n
    omega
  · rintro (hw | hstaged)
    · exact hpos ▸ h.pos hw
    · exact absurd hstaged hnone
  · rw [hmulti, hstop]
    exact h.multi
  · rw [if_neg hnone]
    change p.readies + t.blocksLeft = x.n
    omega
  · exact h.ends.trans (if_neg hne).symm
  · exact h.stops.trans (if_neg fun hzero ↦ hne hzero.1).symm
  · rw [hinfo]
    exact h.quiet
  · dsimp only
    rw [inBuffer_eq_nil hnone, hleft]
    exact ⟨h.moved.read, h.moved.write⟩

theorem Complete.over (h : Complete card x p) (hlast : p.host.blocksLeft = 1) {t : State σ}
    (hbufLen : t.bufLen = p.host.bufLen) (hwriting : t.writing = p.host.writing) (hpos : t.bufPos = p.host.bufPos)
    (hleft : t.blocksLeft = 0) (htimer : t.dataTimer = none)
    (hcard : t.card = if x.stop then (card.command 12 0 p.host.card).2 else p.host.card) :
    Going card x { p with host := t, ends := p.ends + 1, stops := p.stops + if x.stop then 1 else 0 } := by
  have hnone : ¬t.Staged := not_staged_of_over hleft
  have hreadies := h.readies
  refine ⟨h.size, hbufLen.trans h.bufLen, hwriting.trans h.writing, ?_, fun hne ↦ absurd htimer hne, ?_,
    fun hne ↦ absurd hleft hne, ?_, ?_, ?_, ?_, fun hne ↦ absurd hleft hne, ?_⟩
  · exact hleft.trans_le (Nat.zero_le _)
  · rintro (hw | hstaged)
    · exact hpos ▸ h.pos hw
    · exact absurd hstaged hnone
  · rw [if_neg hnone]
    change p.readies + t.blocksLeft = x.n
    omega
  · rw [if_pos hleft, h.ends]
  · rw [h.stops, Nat.zero_add]
    simp only [hleft, true_and]
  · change t.card = _
    rw [hcard, h.device, cardAt, cardAt, h.stops, if_pos rfl]
    cases x.stop <;> rfl
  · have hmoved := h.moved
    rw [hlast] at hmoved
    dsimp only
    rw [inBuffer_eq_nil hnone, hleft]
    exact ⟨hmoved.read, hmoved.write⟩

/-- `cdj_sdhi_block_done`: the next block is waited for, or the transfer ends. -/
theorem Complete.done (h : Complete card x p) (now : ℤ) :
    Going card x ((blockDone card bps now p.host).2.foldl Play.note
      { p with host := (blockDone card bps now p.host).1 }) := by
  obtain ⟨htimer, hleft⟩ := h.staged
  rw [blockDone]
  split_ifs with hmore
  · exact h.more (Nat.sub_ne_zero_of_lt hmore) rfl rfl rfl rfl rfl rfl rfl rfl (Option.some_ne_none _)
  · have hlast : p.host.blocksLeft = 1 := by
      change ¬1 < p.host.blocksLeft at hmore
      omega
    rw [State.dataEnd, if_pos (show p.host.clearReady.info1 &&& dataEndBit = 0 from h.quiet)]
    split_ifs with hstop
    · have hx : x.stop = true := h.multi.mp hstop
      have hover := h.over hlast (t := { p.host.clearReady with
        blocksLeft := 0, info1 := p.host.info1 ||| dataEndBit, card := (card.command 12 0 p.host.card).2,
        multi := false }) rfl rfl rfl rfl htimer (by rw [hx]; rfl)
      rw [hx] at hover
      exact hover
    · have hx : x.stop = false := Bool.eq_false_iff.mpr fun hx ↦ hstop (h.multi.mpr hx)
      have hover := h.over hlast (t := { p.host.clearReady with
        blocksLeft := 0, info1 := p.host.info1 ||| dataEndBit, multi := false }) rfl rfl rfl rfl htimer
          (by rw [hx]; rfl)
      rw [hx] at hover
      exact hover

section Buffer

variable {a b c : ℕ} {bytes : List Byte} {buf : ℕ → Byte}

theorem length_slice : (s.slice a b).length = b - a := by rw [slice, List.length_map, List.length_range]

theorem slice_self : s.slice a a = [] := by
  rw [slice, Nat.sub_self]
  rfl

theorem slice_append (hab : a ≤ b) (hbc : b ≤ c) : s.slice a b ++ s.slice b c = s.slice a c := by
  have hlen : c - a = b - a + (c - b) := by omega
  rw [slice, slice, slice, hlen, List.range_add, List.map_append, List.map_map]
  refine congrArg _ (List.map_congr_left fun i _ ↦ ?_)
  exact congrArg s.buf (show b + i = a + (b - a + i) by omega)

/-- The buffer up to what has been laid into it. -/
theorem slice_lay (s : State σ) (bytes : List Byte) (hab : a ≤ b) :
    ({ s with buf := lay b bytes s.buf } : State σ).slice a (b + bytes.length) = s.slice a b ++ bytes := by
  have hlen : b + bytes.length - a = b - a + bytes.length := by omega
  rw [slice, slice, hlen, List.range_add, List.map_append, List.map_map]
  congr 1
  · refine List.map_congr_left fun i hi ↦ ?_
    rw [List.mem_range] at hi
    exact if_neg (by omega)
  · refine List.ext_getElem (by rw [List.length_map, List.length_range]) fun i hi hi' ↦ ?_
    have hat : a + (b - a + i) = b + i := by omega
    rw [List.getElem_map, List.getElem_range, Function.comp_apply, hat]
    change lay b bytes s.buf (b + i) = bytes[i]
    rw [lay, if_pos (Nat.le_add_right b i), Nat.add_sub_cancel_left, List.getD_eq_getElem?_getD,
      List.getElem?_eq_getElem hi', Option.getD_some]

theorem slice_laid : (s.laid bytes).slice 0 (s.laid bytes).bufPos = s.slice 0 s.bufPos ++ bytes :=
  slice_lay s bytes (Nat.zero_le _)

theorem slice_zero_lay (s : State σ) (bytes : List Byte) :
    ({ s with buf := lay 0 bytes s.buf } : State σ).slice 0 bytes.length = bytes := by
  have h := slice_lay s bytes (Nat.zero_le 0)
  rwa [slice_self, List.nil_append, Nat.zero_add] at h

end Buffer

/-- What a transfer does not depend on may change. -/
theorem Going.same (h : Going card x p) {now : ℤ} {t : State σ} (hbufLen : t.bufLen = p.host.bufLen)
    (hwriting : t.writing = p.host.writing) (hbuffer : ¬p.host.Staged ∧ (x.writing = true → t.bufPos < x.size) ∨
      t.bufPos = p.host.bufPos ∧ t.buf = p.host.buf)
    (hinfo : p.host.info1 &&& dataEndBit = 0 → t.info1 &&& dataEndBit = 0)
    (hmulti : t.multi = p.host.multi ∨ p.host.blocksLeft = 0) (hstop : t.stop = p.host.stop)
    (hcard : t.card = p.host.card) (hleft : t.blocksLeft = p.host.blocksLeft)
    (htimer : t.dataTimer = p.host.dataTimer) :
    Going card x { p with now, host := t } := by
  have hstaged : t.Staged ↔ p.host.Staged := by rw [Staged, Staged, htimer, hleft]
  have hin : inBuffer t = inBuffer p.host := by
    obtain ⟨hnone, -⟩ | ⟨hpos, hbuf⟩ := hbuffer
    · rw [inBuffer_eq_nil hnone, inBuffer_eq_nil (mt hstaged.mp hnone)]
    · simp only [inBuffer, hstaged, hwriting, hpos, hbufLen, slice, hbuf]
  refine ⟨h.size, hbufLen.trans h.bufLen, hwriting.trans h.writing, hleft.trans_le h.left, ?_, ?_, ?_, ?_, ?_, ?_,
    hcard.trans h.device, fun hne ↦ hinfo (h.quiet (hleft ▸ hne)), ?_⟩
  · rw [htimer, hleft]
    exact h.timer
  · obtain ⟨hnone, hwrites⟩ | ⟨hpos, -⟩ := hbuffer
    · rintro (hw | hstage)
      · exact hwrites hw
      · exact absurd (hstaged.mp hstage) hnone
    · rw [hstaged, hpos]
      exact h.pos
  · intro hne
    obtain hmulti | hzero := hmulti
    · rw [hmulti, hstop]
      exact h.multi (hleft ▸ hne)
    · exact absurd (hleft.trans hzero) hne
  · simp only [hstaged, hleft]
    exact h.readies
  · rw [hleft]
    exact h.ends
  · rw [hleft]
    exact h.stops
  · rw [hin, hleft]
    exact ⟨h.moved.read, h.moved.write⟩

section Accesses

variable {n : ℕ} {bytes : List Byte} {now : ℤ}

/-- Bytes of a staged block go to the guest. -/
theorem Going.take (h : Going card x p) (hread : x.writing = false) (hstaged : p.host.Staged) :
    Going card x ((handOver (State.take card bps now n p.host)).2.foldl Play.note
      { p with now, host := (handOver (State.take card bps now n p.host)).1 }) := by
  have hpos := h.pos (.inr hstaged)
  have hbufLen := h.bufLen
  have hwriting := h.writing.trans hread
  have hin := inBuffer_read hstaged hwriting
  have hmoved := h.moved.read hread
  rw [handOver, State.take]
  generalize hend : p.host.bufPos + min n (p.host.bufLen - p.host.bufPos) = pos
  have hle : pos ≤ p.host.bufLen := by omega
  have hge : p.host.bufPos ≤ pos := by omega
  have hbytes : p.handed ++ p.host.slice p.host.bufPos pos ++ p.host.slice pos p.host.bufLen =
      (card.readBytes (p.readies * x.size) x.card).1 := by
    rw [List.append_assoc, slice_append hge hle, ← hin]
    exact hmoved.1
  dsimp only
  split_ifs with hfull
  · have hcomplete : Complete card x { p with
        now, host := { p.host with bufPos := pos }, handed := p.handed ++ p.host.slice p.host.bufPos pos } := by
      have hpos' : pos = p.host.bufLen := Nat.le_antisymm hle hfull
      have hreadies := h.readies
      have hends := h.ends
      have hstops := h.stops
      rw [if_pos hstaged] at hreadies
      rw [if_neg hstaged.2] at hends
      rw [if_neg fun hzero ↦ hstaged.2 hzero.1] at hstops
      refine ⟨h.size, hbufLen, h.writing, h.left, hstaged, ?_, h.multi hstaged.2, hreadies, hends, hstops, h.device,
        h.quiet hstaged.2, ?_⟩
      · intro hw
        rw [hread] at hw
        cases hw
      · refine ⟨fun _ ↦ ⟨?_, hmoved.2⟩, fun hw ↦ ?_⟩
        · rw [hpos', slice_self] at hbytes
          rw [hpos']
          exact hbytes
        · rw [hread] at hw
          cases hw
    exact hcomplete.done now
  · refine ⟨h.size, hbufLen, h.writing, h.left, h.timer, ?_, h.multi, h.readies, h.ends, h.stops,
      h.device, h.quiet, ?_⟩
    · intro _
      change pos < x.size
      change ¬p.host.bufLen ≤ pos at hfull
      omega
    · refine ⟨fun _ ↦ ⟨?_, hmoved.2⟩, fun hw ↦ ?_⟩
      · have hin' : inBuffer { p.host with bufPos := pos } = p.host.slice pos p.host.bufLen :=
          inBuffer_read hstaged hwriting
        change p.handed ++ p.host.slice p.host.bufPos pos ++ inBuffer { p.host with bufPos := pos } = _
        rw [hin']
        exact hbytes
      · rw [hread] at hw
        cases hw

/-- The guest's bytes fill a block, which goes to the card when it is whole. -/
theorem Going.put (h : Going card x p) (hw : x.writing = true) (hstaged : p.host.Staged) :
    Going card x ((State.put card bps now bytes p.host).2.foldl Play.note
      { p with
        now, host := (State.put card bps now bytes p.host).1,
        offered := p.offered ++ bytes.take (p.host.bufLen - p.host.bufPos) }) := by
  have hpos := h.pos (.inr hstaged)
  have hbufLen := h.bufLen
  have hwriting := h.writing.trans hw
  obtain ⟨hbytes, hwhole, hhanded⟩ := h.moved.write hw
  rw [inBuffer_write hstaged hwriting] at hbytes
  rw [State.put]
  generalize htake : bytes.take (p.host.bufLen - p.host.bufPos) = taken
  have hle : taken.length ≤ p.host.bufLen - p.host.bufPos := by
    rw [← htake, List.length_take]
    exact Nat.min_le_left _ _
  have hlaid : (p.host.laid taken).slice 0 (p.host.laid taken).bufPos = p.host.slice 0 p.host.bufPos ++ taken :=
    slice_laid
  split_ifs with hfull
  · have hend : (p.host.laid taken).bufPos = p.host.bufLen :=
      Nat.le_antisymm (show p.host.bufPos + taken.length ≤ p.host.bufLen by omega) hfull
    have hblock : (p.host.laid taken).slice 0 (p.host.laid taken).bufLen = p.host.slice 0 p.host.bufPos ++ taken := by
      rw [← hlaid, hend]
      rfl
    have hlen : (p.host.slice 0 p.host.bufPos ++ taken).length = x.size := by
      rw [← hblock, length_slice]
      exact hbufLen
    rw [flushBlock, hblock]
    have hmore : p.stored ++ (p.host.slice 0 p.host.bufPos ++ taken) = p.offered ++ taken := by
      rw [← List.append_assoc, hbytes]
    generalize p.host.slice 0 p.host.bufPos ++ taken = block at hlen hmore
    have hcomplete : Complete card x { p with
        now
        host := { p.host.laid taken with card := card.writeBytes block p.host.card, bufPos := 0 }
        stored := p.stored ++ block
        offered := p.offered ++ taken } := by
      have hreadies := h.readies
      have hends := h.ends
      have hstops := h.stops
      have hdevice := h.device
      rw [if_pos hstaged] at hreadies
      rw [if_neg hstaged.2] at hends
      rw [if_neg fun hzero ↦ hstaged.2 hzero.1] at hstops
      rw [cardAt, hw, hstops, if_pos rfl] at hdevice
      refine ⟨h.size, hbufLen, h.writing, h.left, hstaged, fun _ ↦ h.size, h.multi hstaged.2,
        hreadies, hends, hstops,
        ?_, h.quiet hstaged.2, ?_⟩
      · rw [cardAt, hw, hstops, if_pos rfl, hdevice]
        exact (card.writeBytes_append _ _ _).symm
      · refine ⟨fun hread ↦ ?_, fun _ ↦ ⟨(List.append_nil _).trans hmore, ?_, hhanded⟩⟩
        · rw [hw] at hread
          cases hread
        · obtain ⟨left, hleft⟩ := Nat.exists_eq_succ_of_ne_zero hstaged.2
          change (p.stored ++ block).length + (p.host.blocksLeft - 1) * x.size = x.n * x.size
          rw [← hwhole, List.length_append, hlen, hleft, Nat.succ_sub_one, Nat.succ_mul]
          omega
    exact hcomplete.done now
  · refine ⟨h.size, hbufLen, h.writing, h.left, h.timer, ?_, h.multi, h.readies, h.ends, h.stops,
      h.device, h.quiet, ?_⟩
    · intro _
      exact hbufLen ▸ Nat.lt_of_not_le hfull
    · refine ⟨fun hread ↦ ?_, fun _ ↦ ⟨?_, hwhole, hhanded⟩⟩
      · rw [hw] at hread
        cases hread
      · change p.stored ++ inBuffer (p.host.laid taken) = p.offered ++ taken
        rw [inBuffer_write (s := p.host.laid taken) hstaged hwriting, hlaid, ← List.append_assoc, hbytes]

theorem Going.staged (h : Going card x p) (htimer : p.host.dataTimer ≠ none) {t : State σ}
    (hbufLen : t.bufLen = p.host.bufLen) (hwriting : t.writing = p.host.writing) (hpos : t.bufPos = 0)
    (hmulti : t.multi = p.host.multi) (hstop : t.stop = p.host.stop) (hleft : t.blocksLeft = p.host.blocksLeft)
    (hnone : t.dataTimer = none)
    (hinfo : t.info1 = p.host.info1) (hcard : t.card = if x.writing then p.host.card
    else (card.readBytes x.size p.host.card).2)
    (hblock : x.writing = false → t.slice 0 x.size = (card.readBytes x.size p.host.card).1) :
    Going card x { p with now, host := t, readies := p.readies + 1 } := by
  have hne := h.timer htimer
  have hwaits := not_staged_of_timer htimer
  have hstaged : t.Staged := ⟨hnone, hleft ▸ hne⟩
  have hbuffer := inBuffer_eq_nil hwaits
  have hreadies := h.readies
  have hdevice := h.device
  rw [if_neg hwaits] at hreadies
  have hstops : p.stops = 0 := h.stops.trans (if_neg fun hzero ↦ hne hzero.1)
  rw [cardAt, hstops, if_pos rfl] at hdevice
  refine ⟨h.size, hbufLen.trans h.bufLen, hwriting.trans h.writing, hleft.trans_le h.left,
    fun hsome ↦ absurd hnone hsome,
    ?_, fun _ ↦ ?_, ?_, ?_, ?_, ?_, fun _ ↦ hinfo ▸ h.quiet hne, fun hread ↦
      ⟨?_, (h.moved.read hread).2⟩, fun hw ↦ ?_⟩
  · intro _
    exact hpos.trans_lt h.size
  · rw [hmulti, hstop]
    exact h.multi hne
  · rw [if_pos hstaged]
    change p.readies + 1 + t.blocksLeft = x.n + 1
    omega
  · rw [hleft]
    exact h.ends
  · rw [hleft]
    exact h.stops
  · rw [cardAt, hstops, if_pos rfl, hcard, hdevice]
    cases x.writing with
    | true => rfl
    | false =>
      rw [Nat.succ_mul, card.readBytes_add]
      rfl
  · have hread' := (h.moved.read hread).1
    rw [hbuffer, List.append_nil] at hread'
    rw [hread] at hdevice
    rw [inBuffer_read hstaged (hwriting.trans (h.writing.trans hread)), hpos, hbufLen, h.bufLen, hblock hread, hdevice,
      hread', Nat.succ_mul, card.readBytes_add]
    rfl
  · have hwrite := h.moved.write hw
    rw [hbuffer] at hwrite
    rw [inBuffer_write hstaged (hwriting.trans (h.writing.trans hw)), hpos, slice_self, hleft]
    exact hwrite

/-- `cdj_sdhi_data_ready` stages the block that is waited for. -/
theorem Going.dataReady (h : Going card x p) (htimer : p.host.dataTimer ≠ none) :
    Going card x ((State.dataReady card p.host).2.foldl Play.note
      { p with now, host := (State.dataReady card p.host).1 }) := by
  have hbufLen := h.bufLen
  have hsize := h.size
  rw [State.dataReady]
  split_ifs with hzero hw
  · change p.host.bufLen = 0 at hzero
    omega
  · have hx : x.writing = true := h.writing.symm.trans hw
    refine h.staged htimer rfl rfl rfl rfl rfl rfl rfl rfl ?_ ?_
    · rw [hx]
      rfl
    · intro hread
      rw [hx] at hread
      cases hread
  · have hx : x.writing = false := h.writing.symm.trans (Bool.eq_false_iff.mpr hw)
    rw [fillBlock]
    refine h.staged htimer rfl rfl rfl rfl rfl rfl rfl rfl ?_ ?_
    · rw [hx, ← hbufLen]
      rfl
    · intro _
      have hlaid := slice_zero_lay p.host (card.readBytes p.host.bufLen p.host.card).1
      rw [card.length_readBytes] at hlaid
      rw [← hbufLen]
      exact hlaid

end Accesses

end Cdj2000Emulator.Sdhi
