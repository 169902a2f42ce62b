import Cdj2000Emulator.Transcript.NxsHpi
import Mathlib.Data.Fintype.Basic

namespace Cdj2000Emulator.Transcript.EventReplay

open Library.Bytes Board.Memory

/-- The state that is rebuilt from the events. The address is not bounded. -/
structure State where
  address : ℕ
  bootPhase : ℕ
  hpirst : Bool
  hwob : Bool
  dualHpia : Bool
  hpiasel : Bool
  hint : Bool
  dspint : Bool

/-- Words that were written one behind the other. -/
structure Chunk where
  firstSequence : ℕ
  address : ℕ
  words : ℕ
  nextAddress : ℕ

/-- The variables of `replay`; the chunk that still grows is kept apart from the others. -/
structure Replay where
  state : State
  l2 : L2
  words : ℕ
  expectedSequence : ℕ
  hintAcks : ℕ
  dspHints : ℕ
  dspintEdges : ℕ
  chunks : List Chunk
  activeChunk : Option Chunk
  startVerified : Bool

structure Summary where
  events : ℕ
  uploadedWords : ℕ
  hintAcknowledgements : ℕ
  dspHintEdges : ℕ
  dspintEdges : ℕ
  chunks : List Chunk
  finalBootPhase : ℕ

def start : Replay where
  state :=
    { address := 0, bootPhase := 0, hpirst := true, hwob := false, dualHpia := false, hpiasel := false
      hint := false, dspint := false }
  l2 := Block.zeros
  words := 0
  expectedSequence := 0
  hintAcks := 0
  dspHints := 0
  dspintEdges := 0
  chunks := []
  activeChunk := none
  startVerified := false

def known : Kind → Bool
  | .dspSchedule | .dspSliceBegin | .dspSliceEnd => false
  | _ => true

/-- The events that say what HINT and DSPINT have become. -/
def controls : Kind → Bool
  | .resetAssert | .romHpiReady | .hostControlWrite | .dspHpicWrite => true
  | _ => false

def Kind.name : Kind → String
  | .resetAssert => "reset_assert"
  | .romHpiReady => "rom_hpi_ready"
  | .bootPhase => "boot_phase"
  | .dspStart => "dsp_start"
  | .dspStop => "dsp_stop"
  | .dspHpicWrite => "dsp_hpic_write"
  | .dspSchedule => "dsp_schedule"
  | .dspSliceBegin => "dsp_slice_begin"
  | .dspSliceEnd => "dsp_slice_end"
  | .hostControlWrite => "hpi_host_control_write"
  | .hostAddressWrite => "hpi_host_address_write"
  | .hostDataAutoincrementWrite => "hpi_host_data_autoincrement_write"
  | .hostDataFixedWrite => "hpi_host_data_fixed_write"
  | .hostDataRead => "hpi_host_data_read"

def InL2 (address : ℕ) : Prop := l2Base ≤ address ∧ address ≤ l2Base + Region.l2.size - 4

instance (address : ℕ) : Decidable (InL2 address) := inferInstanceAs (Decidable (_ ∧ _))

def hostControl (state : State) (value : ℕ) : State :=
  let value := (value ||| value >>> 16) &&& 0xffff
  let hpirst := value.testBit 7
  { state with
    hpirst
    hwob := value.testBit 0
    dualHpia := value.testBit 9
    hpiasel := value.testBit 11
    hint := !hpirst && !value.testBit 2 && state.hint
    dspint := !hpirst && (value.testBit 1 || state.dspint) }

def dspControl (state : State) (value : ℕ) : State :=
  let hpirst := value.testBit 7
  { state with
    hpirst
    dspint := !hpirst && !value.testBit 1 && state.dspint
    hint := !hpirst && (value.testBit 2 || state.hint) }

def validRead (state : State) : Bool :=
  state.hwob && !state.hpirst && decide (InL2 state.address) && state.address &&& 3 == 0

/-- The chunks that are closed, and the one that a word is added to. -/
def Replay.chunkFor (r : Replay) (address : ℕ) : List Chunk × Chunk :=
  match r.activeChunk with
  | some chunk =>
    if chunk.nextAddress = address then (r.chunks, chunk)
    else (r.chunks ++ [chunk], ⟨r.expectedSequence, address, 0, address⟩)
  | none => (r.chunks, ⟨r.expectedSequence, address, 0, address⟩)

def Replay.writeWord (r : Replay) (event : Record) : Replay :=
  let bytes : Block 4 := fun i ↦ (little 4 event.value).getD i 0
  let place := r.chunkFor event.address
  { r with
    l2 := Block.put (l2Offset event.address) bytes r.l2
    words := r.words + 1
    chunks := place.1
    activeChunk := some { place.2 with words := place.2.words + 1, nextAddress := event.address + 4 }
    state := { r.state with
      address := if event.kind = .hostDataAutoincrementWrite then r.state.address + 4 else r.state.address } }

/-- The start that was captured is the one the events lead to. -/
def Replay.Verified (r : Replay) (checkpoint : Checkpoint) : Prop :=
  r.state.address = checkpoint.hpiAddress ∧ r.state.bootPhase = checkpoint.bootPhase ∧
    r.words = checkpoint.words ∧ r.l2 = checkpoint.l2

instance (r : Replay) (checkpoint : Checkpoint) : Decidable (r.Verified checkpoint) :=
  inferInstanceAs (Decidable (_ ∧ _))

/-- What an event does, when its place in the order and its type are fine. -/
def apply (checkpoint : Checkpoint) (r : Replay) (event : Record) : Except String Replay :=
  match event.kind with
  | .resetAssert => .ok { r with state := { r.state with hpirst := true, hint := false, dspint := false } }
  | .romHpiReady => .ok { r with state := { r.state with hpirst := false, hint := true, dspint := false } }
  | .bootPhase =>
    if 7 < event.value then .error "invalid boot phase"
    else .ok { r with state := { r.state with bootPhase := event.value } }
  | .hostControlWrite =>
    let state := hostControl r.state event.value
    .ok { r with
      state
      hintAcks := r.hintAcks + (r.state.hint && !state.hint).toNat
      dspintEdges := r.dspintEdges + (!r.state.dspint && state.dspint).toNat }
  | .dspHpicWrite =>
    let state := dspControl r.state event.value
    .ok { r with state, dspHints := r.dspHints + (!r.state.hint && state.hint).toNat }
  | .hostAddressWrite =>
    .ok { r with
      state := { r.state with address := event.value &&& 0xffffffff }
      chunks := r.chunks ++ r.activeChunk.toList
      activeChunk := none }
  | .hostDataAutoincrementWrite | .hostDataFixedWrite =>
    if event.address ≠ r.state.address ∨ event.size ≠ 4 ∨ event.address &&& 3 ≠ 0 then
      .error s!"HPI data/address mismatch at event {r.expectedSequence}"
    else if ¬InL2 event.address then .error s!"HPI write outside L2 at event {r.expectedSequence}"
    else .ok (r.writeWord event)
  | .hostDataRead =>
    if event.address ≠ r.state.address then
      .error s!"HPI read/address mismatch at event {r.expectedSequence}"
    else if validRead r.state ∧ event.offset = 0x80000 then
      .ok { r with state := { r.state with address := r.state.address + 4 } }
    else .ok r
  | .dspStart =>
    if r.startVerified then .ok r
    else if event.sequence ≠ checkpoint.eventSequence then
      .error "DSP-start checkpoint/event sequence mismatch"
    else if ¬r.Verified checkpoint then
      .error "replayed initial HPI upload does not match DSP-start checkpoint"
    else .ok { r with startVerified := true }
  | _ => .ok r

/-- One event of the loop in `replay`. -/
def step (checkpoint : Checkpoint) (r : Replay) (event : Record) : Except String Replay := do
  let expected := r.expectedSequence + 1
  if event.sequence ≠ expected then throw s!"event sequence gap at {expected}"
  if !known event.kind then throw s!"unsupported event type: '{Kind.name event.kind}'"
  let r ← apply checkpoint { r with expectedSequence := expected } event
  if controls event.kind ∧ (r.state.hint ≠ event.hint ∨ r.state.dspint ≠ event.dspint) then
    throw s!"HPI control state mismatch at event {expected}"
  return r

/-- The loop of `replay`. -/
def feed (checkpoint : Checkpoint) (events : List Record) : Except String Replay :=
  events.foldlM (step checkpoint) start

def Replay.summary (r : Replay) : Summary where
  events := r.expectedSequence
  uploadedWords := r.words
  hintAcknowledgements := r.hintAcks
  dspHintEdges := r.dspHints
  dspintEdges := r.dspintEdges
  chunks := r.chunks ++ r.activeChunk.toList
  finalBootPhase := r.state.bootPhase

/-- What `replay` returns of the state it ends in. -/
def Replay.result (r : Replay) : Except String Summary :=
  if r.startVerified then .ok r.summary else .error "transcript never matched a DSP-start checkpoint"

def replay (checkpoint : Checkpoint) (events : List Record) : Except String Summary :=
  feed checkpoint events >>= Replay.result

variable {checkpoint : Checkpoint} {events : List Record} {event : Record} {r t : Replay}

/-- An accepted event is in order, of a known type, and it says what the lines have become. -/
theorem step_ok_iff : step checkpoint r event = .ok t ↔
    event.sequence = r.expectedSequence + 1 ∧ known event.kind ∧
      apply checkpoint { r with expectedSequence := r.expectedSequence + 1 } event = .ok t ∧
      (controls event.kind → t.state.hint = event.hint ∧ t.state.dspint = event.dspint) := by
  unfold step
  by_cases order : event.sequence = r.expectedSequence + 1
  · by_cases type : known event.kind = true
    · cases applied : apply checkpoint { r with expectedSequence := r.expectedSequence + 1 } event with
      | error message => simp [order, type, applied, bind, Except.bind]
      | ok u =>
        by_cases told : controls event.kind = true ∧ (u.state.hint ≠ event.hint ∨ u.state.dspint ≠ event.dspint)
        · have refused : ¬(u.state.hint = event.hint ∧ u.state.dspint = event.dspint) := by tauto
          simp only [order, type, applied, told, bind, Except.bind, throw, throwThe, MonadExceptOf.throw]
          simp only [ne_eq, not_true_eq_false, Bool.not_true, Bool.false_eq_true, reduceIte, true_and,
            Except.ok.injEq, reduceCtorEq, false_iff, not_and, forall_const]
          rintro rfl hint dspint
          exact refused ⟨hint, dspint⟩
        · have agreed : controls event.kind = true → u.state.hint = event.hint ∧
            u.state.dspint = event.dspint := by
            tauto
          simp [order, type, applied, told, bind, Except.bind, pure, Except.pure]
          rintro rfl
          exact agreed
    · simp [order, type, bind, Except.bind, throw, throwThe, MonadExceptOf.throw]
  · simp [order, bind, Except.bind, throw, throwThe, MonadExceptOf.throw]

theorem writeWord_l2 : (r.writeWord event).l2 =
    Block.put (l2Offset event.address) (fun i : Fin 4 ↦ (little 4 event.value).getD i 0) r.l2 := by
  simp only [Replay.writeWord]

theorem writeWord_state : (r.writeWord event).state =
    { r.state with
      address := if event.kind = .hostDataAutoincrementWrite then r.state.address + 4 else r.state.address } := by
  simp only [Replay.writeWord]

theorem writeWord_words : (r.writeWord event).words = r.words + 1 := by
  simp only [Replay.writeWord]

theorem writeWord_sequence : (r.writeWord event).expectedSequence = r.expectedSequence := by
  simp only [Replay.writeWord]

theorem writeWord_verified : (r.writeWord event).startVerified = r.startVerified := by
  simp only [Replay.writeWord]

theorem apply_write (write : event.kind = .hostDataAutoincrementWrite ∨ event.kind = .hostDataFixedWrite)
    (address : event.address = r.state.address) (size : event.size = 4) (aligned : event.address &&& 3 = 0)
    (inside : InL2 event.address) : apply checkpoint r event = .ok (r.writeWord event) := by
  have fine : ¬(event.address ≠ r.state.address ∨ event.size ≠ 4 ∨ event.address &&& 3 ≠ 0) := by
    rw [address, size, ← address, aligned]
    omega
  unfold apply
  rcases write with type | type
  all_goals
    rw [type]
    exact (if_neg fine).trans (if_neg (not_not.mpr inside))

theorem feed_append {later : List Record} :
    feed checkpoint (events ++ later) = feed checkpoint events >>= fun r ↦ later.foldlM (step checkpoint) r :=
  List.foldlM_append

theorem feed_snoc : feed checkpoint (events ++ [event]) = feed checkpoint events >>= fun r ↦
    step checkpoint r event := by
  rw [feed_append]
  simp only [List.foldlM_cons, List.foldlM_nil, bind_pure]

theorem feed_snoc_ok_iff : feed checkpoint (events ++ [event]) = .ok t ↔
    ∃ r, feed checkpoint events = .ok r ∧ step checkpoint r event = .ok t := by
  rw [feed_snoc]
  cases feed checkpoint events with
  | error message => simp [bind, Except.bind]
  | ok r => simp [bind, Except.bind]

theorem feed_of_replay {summary : Summary} (h : replay checkpoint events = .ok summary) :
    ∃ r, feed checkpoint events = .ok r := by
  unfold replay at h
  cases fed : feed checkpoint events with
  | error message =>
    rw [fed] at h
    cases h
  | ok r => exact ⟨r, rfl⟩

/-- Each event of a transcript that is accepted was accepted in its turn. -/
theorem step_of_mem (h : feed checkpoint events = .ok t) (he : event ∈ events) :
    ∃ u v, step checkpoint u event = .ok v := by
  induction events using List.reverseRecOn generalizing t with
  | nil => cases he
  | append_singleton events last ih =>
    obtain ⟨r, before, now⟩ := feed_snoc_ok_iff.mp h
    rcases List.mem_append.mp he with earlier | newest
    · exact ih before earlier
    · obtain rfl := List.mem_singleton.mp newest
      exact ⟨r, t, now⟩

theorem known_of_accepted (h : feed checkpoint events = .ok t) (he : event ∈ events) : known event.kind := by
  obtain ⟨u, v, accepted⟩ := step_of_mem h he
  exact (step_ok_iff.mp accepted).2.1

theorem inL2_of_accepted (h : feed checkpoint events = .ok t) (he : event ∈ events)
    (write : event.kind = .hostDataAutoincrementWrite ∨ event.kind = .hostDataFixedWrite) : InL2 event.address := by
  obtain ⟨u, v, accepted⟩ := step_of_mem h he
  have applied := (step_ok_iff.mp accepted).2.2.1
  by_contra outside
  unfold apply at applied
  rcases write with type | type
  all_goals
    rw [type] at applied
    dsimp only at applied
    split_ifs at applied

theorem verified_of_apply (h : apply checkpoint r event = .ok t) (ht : t.startVerified) :
    r.startVerified ∨ event.kind = .dspStart ∧ event.sequence = checkpoint.eventSequence ∧
      r.Verified checkpoint := by
  unfold apply at h
  cases type : event.kind with
  | dspStart =>
    simp only [type] at h
    split_ifs at h with verified order fits
    · exact .inl verified
    · exact .inr ⟨rfl, not_not.mp order, fits⟩
  | bootPhase =>
    simp only [type] at h
    split_ifs at h
    cases h
    exact .inl ht
  | hostDataAutoincrementWrite | hostDataFixedWrite =>
    simp only [type] at h
    split_ifs at h
    cases h
    exact .inl ht
  | hostDataRead =>
    simp only [type] at h
    split_ifs at h
    all_goals
      cases h
      exact .inl ht
  | _ =>
    simp only [type] at h
    cases h
    exact .inl ht

theorem l2_of_verified (h : feed checkpoint events = .ok t) (ht : t.startVerified) :
    ∃ before first after r, events = before ++ first :: after ∧ first.kind = .dspStart ∧
      first.sequence = checkpoint.eventSequence ∧ feed checkpoint before = .ok r ∧ r.l2 = checkpoint.l2 := by
  induction events using List.reverseRecOn generalizing t with
  | nil =>
    cases h
    cases ht
  | append_singleton events last ih =>
    obtain ⟨r, before, now⟩ := feed_snoc_ok_iff.mp h
    obtain ⟨-, -, applied, -⟩ := step_ok_iff.mp now
    rcases verified_of_apply applied ht with earlier | ⟨type, order, -, -, -, l2⟩
    · obtain ⟨front, first, after, u, rfl, hfirst⟩ := ih before earlier
      exact ⟨front, first, after ++ [last], u, by simp, hfirst⟩
    · exact ⟨events, last, [], r, rfl, type, order, before, l2⟩

end Cdj2000Emulator.Transcript.EventReplay
