import Cdj2000Emulator.Transcript.EventReplay

namespace Cdj2000Emulator.Transcript

open Library.Bytes Board Board.Memory EventReplay

/-- Both sides join the halfwords of a control value. -/
theorem testBit_halves (value : Word) {i : ℕ} (hi : i < 16) :
    ((value.toNat ||| value.toNat >>> 16) &&& 0xffff).testBit i = (value ||| value >>> 16).getLsbD i := by
  have low : Nat.testBit 0xffff i = true := by
    rw [show 0xffff = 2 ^ 16 - 1 from rfl, Nat.testBit_two_pow_sub_one]
    exact decide_eq_true hi
  rw [Nat.testBit_and, low, Bool.and_true, Nat.testBit_or, Nat.testBit_shiftRight, BitVec.getLsbD_or,
    BitVec.getLsbD_ushiftRight]
  rfl

/-- The lines and the halfword order of the replay are those of the emulator. -/
structure Agrees (hpi : C6747Hpi) (state : State) : Prop where
  hpirst : state.hpirst = hpi.hpirst
  hwob : hpi.hwob → state.hwob
  hint : state.hint = hpi.hint
  dspint : state.dspint = hpi.dspint

variable {hpi : C6747Hpi} {state : State}

theorem Agrees.hostControl (h : Agrees hpi state) (value : Word) :
    Agrees (hpi.hostWrite value) (EventReplay.hostControl state value.toNat) where
  hpirst := testBit_halves value (by omega)
  hwob hw := (testBit_halves value (by omega)).trans hw
  hint := by
    simp only [EventReplay.hostControl, C6747Hpi.hostWrite, testBit_halves value (i := 7) (by omega),
      testBit_halves value (i := 2) (by omega), h.hint]
  dspint := by
    simp only [EventReplay.hostControl, C6747Hpi.hostWrite, testBit_halves value (i := 7) (by omega),
      testBit_halves value (i := 1) (by omega), h.dspint]

theorem Agrees.dspControl (h : Agrees hpi state) (value : Word) :
    Agrees (hpi.cpuWrite value) (EventReplay.dspControl state value.toNat) where
  hpirst := rfl
  hwob := h.hwob
  hint := by
    simp only [EventReplay.dspControl, C6747Hpi.cpuWrite, h.hint]
    rfl
  dspint := by
    simp only [EventReplay.dspControl, C6747Hpi.cpuWrite, h.dspint]
    rfl

/-- What the replay knows of the emulator, in the legacy mode. -/
structure Matches (s : NxsHpi) (r : Replay) : Prop where
  legacy : s.scheduler.mode = Scheduler.legacy
  idle : s.scheduler.pending = 0
  started : s.dspStarted → s.start ≠ none
  sequence : r.expectedSequence = s.eventSequence
  address : r.state.address = s.address.toNat
  bootPhase : r.state.bootPhase = s.bootPhase
  lines : Agrees s.hpi r.state
  verified : r.startVerified = s.start.isSome
  words : s.start = none → r.words = s.words
  l2 : s.start = none → r.l2 = s.memories .l2

/-- The replay accepts what is written so far, and it follows the emulator. -/
def Tracks (checkpoint : Checkpoint) (s : NxsHpi) : Prop :=
  ∃ r, feed checkpoint s.log = .ok r ∧ Matches s r

variable {checkpoint : Checkpoint} {s u : NxsHpi} {r t : Replay} {kind : Kind} {offset address value size : ℕ}

/-- A line is accepted where its effect on the replay is known and leads to a state that fits. -/
theorem record_tracks (fed : feed checkpoint u.log = .ok r) (order : r.expectedSequence = u.eventSequence)
    (type : known kind)
    (applied : apply checkpoint { r with expectedSequence := u.eventSequence + 1 }
      (u.event kind offset address value size) = .ok t)
    (m : Matches (u.record kind offset address value size) t) :
    Tracks checkpoint (u.record kind offset address value size) := by
  refine ⟨t, feed_snoc_ok_iff.mpr ⟨r, fed, step_ok_iff.mpr ⟨congrArg (· + 1) order.symm, type, ?_,
    fun _ ↦ ?_⟩⟩, m⟩
  · rwa [order]
  · exact ⟨m.lines.hint, m.lines.dspint⟩

theorem resetLine_tracks (released : Bool) (h : Tracks checkpoint s) : Tracks checkpoint (s.resetLine released) := by
  obtain ⟨r, fed, m⟩ := h
  unfold NxsHpi.resetLine
  by_cases same : released = s.resetReleased
  · rw [if_pos same]
    exact ⟨r, fed, m⟩
  rw [if_neg same]
  by_cases up : released = true
  · rw [if_pos up]
    exact record_tracks fed m.sequence rfl rfl
      { m with
        sequence := rfl
        lines :=
          { hpirst := rfl
            hwob := m.lines.hwob
            hint := rfl
            dspint := rfl } }
  · rw [if_neg up, if_pos m.legacy]
    exact record_tracks fed m.sequence rfl rfl
      { m with
        legacy := rfl
        idle := rfl
        started := fun h ↦ nomatch h
        sequence := rfl
        lines :=
          { hpirst := rfl
            hwob := fun h ↦ nomatch h
            hint := rfl
            dspint := rfl }
        l2 := fun none ↦ (m.l2 none).trans (Function.update_of_ne
          (show Region.l2 ≠ .l1d by decide) Block.zeros _).symm }

/-- A start stands, so that what happens to L2 is of no account. -/
theorem act_tracks (act : DspAct) (running : s.start ≠ none) (h : Tracks checkpoint s) :
    Tracks checkpoint (s.act act) := by
  obtain ⟨r, fed, m⟩ := h
  cases act with
  | hpic value =>
    exact record_tracks fed m.sequence rfl rfl
      { m with
        sequence := rfl
        lines := m.lines.dspControl value }
  | other memories cache emifb => exact ⟨r, fed, { m with l2 := fun none ↦ absurd none running }⟩

theorem act_start (act : DspAct) : (s.act act).start = s.start := by
  cases act <;> rfl

theorem acts_tracks (acts : List DspAct) (running : s.start ≠ none) (h : Tracks checkpoint s) :
    Tracks checkpoint (acts.foldl NxsHpi.act s) := by
  induction acts generalizing s with
  | nil => exact h
  | cons act acts ih => exact ih (by rwa [act_start]) (act_tracks act running h)

theorem report_tracks (slice : Slice) (h : Tracks checkpoint s) : Tracks checkpoint (s.report slice) := by
  obtain ⟨r, fed, m⟩ := h
  exact record_tracks fed m.sequence rfl rfl { m with sequence := rfl }

theorem tracks_halted (halted : Bool) (h : Tracks checkpoint s) : Tracks checkpoint { s with dspHalted := halted } := by
  obtain ⟨r, fed, m⟩ := h
  exact ⟨r, fed, { m with }⟩

theorem acts_mode (acts : List DspAct) : (acts.foldl NxsHpi.act s).scheduler = s.scheduler := by
  induction acts generalizing s with
  | nil => rfl
  | cons act acts ih => exact ih.trans (by cases act <;> rfl)

theorem runDsp_tracks (slice : Slice) (h : Tracks checkpoint s) : Tracks checkpoint (s.runDsp slice) := by
  obtain ⟨r, fed, m⟩ := h
  unfold NxsHpi.runDsp NxsHpi.execute
  rw [if_pos m.legacy]
  split_ifs with stopped
  · exact ⟨r, fed, m⟩
  · have running : s.start ≠ none := m.started (by cases on : s.dspStarted <;> simp_all)
    have legacy : (slice.acts.foldl NxsHpi.act s).scheduler.mode = Scheduler.legacy := by rw [acts_mode, m.legacy]
    dsimp only
    rw [if_pos legacy]
    exact report_tracks slice (tracks_halted _ (acts_tracks slice.acts running ⟨r, fed, m⟩))

theorem tick_tracks (slice : Slice) (h : Tracks checkpoint s) : Tracks checkpoint (s.tick slice) := by
  obtain ⟨r, fed, m⟩ := h
  have idle : s.tick slice = s := by
    unfold NxsHpi.tick
    rw [if_pos (by simp [m.idle])]
  rw [idle]
  exact ⟨r, fed, m⟩

theorem changePhase_tracks (phase : ℕ) (slice : Slice) (h : Tracks checkpoint s) :
    Tracks checkpoint (s.changePhase phase slice) := by
  obtain ⟨r, fed, m⟩ := h
  unfold NxsHpi.changePhase
  by_cases wide : 7 < phase
  · rw [if_pos wide]
    exact ⟨r, fed, m⟩
  rw [if_neg wide]
  have told : Tracks checkpoint ({ s with bootPhase := phase }.record .bootPhase 0 0 phase 0) :=
    record_tracks fed m.sequence rfl (if_neg wide)
      { m with
        sequence := rfl
        bootPhase := rfl
        lines := ⟨m.lines.hpirst, m.lines.hwob, m.lines.hint, m.lines.dspint⟩ }
  dsimp only
  split_ifs with same
  · exact told
  · exact runDsp_tracks slice told

theorem acts_start (acts : List DspAct) : (acts.foldl NxsHpi.act s).start = s.start := by
  induction acts generalizing s with
  | nil => rfl
  | cons act acts ih => exact ih.trans (act_start act)

theorem execute_start (slice : Slice) : (s.execute slice).start = s.start := by
  unfold NxsHpi.execute
  split
  · rfl
  · dsimp only
    split
    · exact acts_start slice.acts
    · exact acts_start slice.acts

theorem runDsp_start (slice : Slice) : (s.runDsp slice).start = s.start := by
  unfold NxsHpi.runDsp
  split
  · rfl
  · split
    · exact execute_start slice
    · dsimp only
      split <;> rfl

theorem startDsp_tracks (slice : Slice) (captured : ∀ d, (s.startDsp slice).start = some d → d = checkpoint)
    (h : Tracks checkpoint s) : Tracks checkpoint (s.startDsp slice) := by
  obtain ⟨r, fed, m⟩ := h
  unfold NxsHpi.startDsp at captured ⊢
  refine runDsp_tracks slice ?_
  rw [runDsp_start] at captured
  let first := ({ s with dspStarted := true }.record .dspStart 0 (s.load (.l2, 0)) 0 0).checkpoint
  have told : Tracks checkpoint
      ({ s with dspStarted := true, start := s.start.or (some first) }.record .dspStart 0 (s.load (.l2, 0)) 0 0) := by
    cases before : s.start with
    | some d =>
      have verified : r.startVerified = true := by rw [m.verified, before]; rfl
      exact record_tracks fed m.sequence rfl (if_pos verified)
        { m with
          started := fun _ h ↦ nomatch h
          sequence := rfl
          verified := verified
          words := fun h ↦ nomatch h
          l2 := fun h ↦ nomatch h }
    | none =>
      have unverified : ¬r.startVerified = true := by rw [m.verified, before]; decide
      have same : first = checkpoint := captured first (by dsimp only [NxsHpi.record]; rw [before]; rfl)
      have order : s.eventSequence + 1 = checkpoint.eventSequence := congrArg Checkpoint.eventSequence same
      have fits : r.Verified checkpoint := by
        rw [← same]
        exact ⟨m.address, m.bootPhase, m.words before, m.l2 before⟩
      exact record_tracks fed m.sequence rfl
        ((if_neg unverified).trans ((if_neg (not_not.mpr order)).trans (if_neg (not_not.mpr fits))))
        { m with
          started := fun _ h ↦ nomatch h
          sequence := rfl
          verified := rfl
          words := fun h ↦ nomatch h
          l2 := fun h ↦ nomatch h }
  exact told

theorem validData_some {place : Region × ℕ} (h : s.validData = some place) :
    s.hpi.hwob = true ∧ s.hpi.hpirst = false ∧ s.address.toNat &&& 3 = 0 ∧
      hostMemory s.cache s.emifb s.address = some place := by
  unfold NxsHpi.validData at h
  split_ifs at h with valid
  simp only [Bool.and_eq_true, Bool.not_eq_true', beq_iff_eq] at valid
  exact ⟨valid.1.1, valid.1.2, congrArg BitVec.toNat valid.2, h⟩

theorem next_toNat {address : Word} (h : InL2 address.toNat) : (address + 4).toNat = address.toNat + 4 := by
  have room : address.toNat ≤ l2Base + Region.l2.size - 4 := h.2
  simp only [l2Base, Region.size] at room
  rw [BitVec.toNat_add]
  refine Nat.mod_eq_of_lt ?_
  change address.toNat + 4 < 2 ^ 32
  omega

theorem hostMemory_l2 {cache : C6747Cache} {emifb : C6747Emifb} {address : Word} (h : InL2 address.toNat) :
    hostMemory cache emifb address = some (.l2, l2Offset address.toNat) := by
  have below : ¬0x11f00000 ≤ address.toNat := by
    have room := h.2
    simp only [l2Base, Region.size] at room
    omega
  unfold hostMemory
  simp only [if_neg below]
  exact if_pos h

theorem read_tracks (offset : ℕ) (inside : offset = 0x80000 → s.validData ≠ none → InL2 s.address.toNat)
    (h : Tracks checkpoint s) : Tracks checkpoint (s.read offset) := by
  obtain ⟨r, fed, m⟩ := h
  unfold NxsHpi.read
  split
  · cases valid : s.validData with
    | none => exact ⟨r, fed, m⟩
    | some place =>
      obtain ⟨hwob, hpirst, aligned, -⟩ := validData_some valid
      by_cases auto : offset = 0x80000
      · have l2 := inside auto (by rw [valid]; exact Option.some_ne_none place)
        have ready : validRead r.state = true := by
          unfold validRead
          rw [m.lines.hwob hwob, m.lines.hpirst, hpirst, m.address, aligned, decide_eq_true l2]
          rfl
        have applied : validRead r.state = true ∧ offset = 0x80000 := ⟨ready, auto⟩
        exact record_tracks fed m.sequence rfl
          ((if_neg (not_not.mpr m.address.symm)).trans (if_pos applied))
          { m with
            sequence := rfl
            address := by
              refine (congrArg (· + 4) m.address).trans ?_
              exact (next_toNat l2).symm.trans (congrArg BitVec.toNat (if_pos auto)).symm
            lines := ⟨m.lines.hpirst, m.lines.hwob, m.lines.hint, m.lines.dspint⟩ }
      · have applied : ¬(validRead r.state = true ∧ offset = 0x80000) := fun h ↦ auto h.2
        exact record_tracks fed m.sequence rfl
          ((if_neg (not_not.mpr m.address.symm)).trans (if_neg applied))
          { m with
            sequence := rfl
            address := m.address.trans (congrArg BitVec.toNat (if_neg auto)).symm }
  · exact ⟨r, fed, m⟩

theorem writeControl_tracks (value : Word) (slice : Slice)
    (captured : ∀ d, (s.writeControl value slice).start = some d → d = checkpoint) (h : Tracks checkpoint s) :
    Tracks checkpoint (s.writeControl value slice) := by
  obtain ⟨r, fed, m⟩ := h
  have told : Tracks checkpoint
      ({ s with hpi := s.hpi.hostWrite value }.record .hostControlWrite 0 s.address.toNat value.toNat 4) :=
    record_tracks fed m.sequence rfl rfl
      { m with
        sequence := rfl
        lines := m.lines.hostControl value }
  unfold NxsHpi.writeControl at captured ⊢
  dsimp only at captured ⊢
  split at captured
  · rename_i first
    rw [if_pos first]
    exact startDsp_tracks slice captured told
  · rename_i later
    rw [if_neg later]
    split
    · exact runDsp_tracks slice told
    · split
      · exact runDsp_tracks slice told
      · exact told

theorem writeAddress_tracks (value : Word) (h : Tracks checkpoint s) :
    Tracks checkpoint ({ s with address := value }.record .hostAddressWrite offset s.address.toNat value.toNat 4) := by
  obtain ⟨r, fed, m⟩ := h
  have whole : value.toNat &&& 0xffffffff = value.toNat := by
    rw [show 0xffffffff = 2 ^ 32 - 1 from rfl, Nat.and_two_pow_sub_one_eq_mod]
    exact Nat.mod_eq_of_lt value.isLt
  exact record_tracks fed m.sequence rfl rfl
    { m with
      sequence := rfl
      address := whole
      lines := ⟨m.lines.hpirst, m.lines.hwob, m.lines.hint, m.lines.dspint⟩ }

theorem Matches.writeWord (m : Matches s r) (kind : Kind) {memories : Memories} {value next : Word}
    (stored : memories .l2 = Block.put (l2Offset s.address.toNat) (fun i : Fin 4 ↦ (little 4 value.toNat).getD i 0)
      (s.memories .l2))
    (moved : (if kind = .hostDataAutoincrementWrite then r.state.address + 4 else r.state.address) = next.toNat) :
    let u : NxsHpi := { s with memories, address := next, words := s.words + 1 }
    let seen : Replay := { r with expectedSequence := s.eventSequence + 1 }
    Matches (u.record kind offset s.address.toNat value.toNat 4)
      (seen.writeWord (u.event kind offset s.address.toNat value.toNat 4)) := by
  refine
    { legacy := m.legacy
      idle := m.idle
      started := m.started
      sequence := writeWord_sequence
      address := (congrArg State.address writeWord_state).trans moved
      bootPhase := (congrArg State.bootPhase writeWord_state).trans m.bootPhase
      lines := ?_
      verified := writeWord_verified.trans m.verified
      words := fun none ↦ writeWord_words.trans (congrArg (· + 1) (m.words none))
      l2 := fun none ↦ ?_ }
  · rw [writeWord_state]
    exact ⟨m.lines.hpirst, m.lines.hwob, m.lines.hint, m.lines.dspint⟩
  · rw [writeWord_l2]
    exact (congrArg _ (m.l2 none)).trans stored.symm

theorem writeData_tracks (value : Word) (inside : s.validData ≠ none → InL2 s.address.toNat)
    (h : Tracks checkpoint s) :
    Tracks checkpoint (s.writeData offset value) := by
  obtain ⟨r, fed, m⟩ := h
  unfold NxsHpi.writeData
  cases valid : s.validData with
  | none => exact ⟨r, fed, m⟩
  | some place =>
    obtain ⟨-, -, aligned, found⟩ := validData_some valid
    have l2 := inside (by rw [valid]; exact Option.some_ne_none place)
    obtain rfl : place = (.l2, l2Offset s.address.toNat) := by
      rw [hostMemory_l2 l2] at found
      exact (Option.some.inj found).symm
    by_cases auto : offset = 0x80000
    · simp only [if_pos auto]
      exact record_tracks fed m.sequence rfl (apply_write (.inl rfl) m.address.symm rfl aligned l2)
        (m.writeWord .hostDataAutoincrementWrite NxsHpi.store_at
          ((congrArg (· + 4) m.address).trans (next_toNat l2).symm))
    · simp only [if_neg auto]
      exact record_tracks fed m.sequence rfl (apply_write (.inr rfl) m.address.symm rfl aligned l2)
        (m.writeWord .hostDataFixedWrite NxsHpi.store_at m.address)

theorem handle_start (s : NxsHpi) (input : Input) : (s.handle input).start = s.start ∨
    ∃ d : Checkpoint, d.l2 = s.memories .l2 ∧ (s.handle input).start = s.start.or (some d) := by
  cases input with
  | resetLine released =>
    simp only [NxsHpi.handle, NxsHpi.resetLine]
    split
    · exact .inl rfl
    · split <;> exact .inl rfl
  | bootPhase phase slice =>
    simp only [NxsHpi.handle, NxsHpi.changePhase]
    split
    · exact .inl rfl
    · split
      · exact .inl rfl
      · exact .inl (runDsp_start slice)
  | read offset =>
    simp only [NxsHpi.handle, NxsHpi.read]
    split
    · split <;> exact .inl rfl
    · exact .inl rfl
  | write offset value slice =>
    simp only [NxsHpi.handle, NxsHpi.write, NxsHpi.writeControl, NxsHpi.startDsp, NxsHpi.writeData]
    split
    · split
      · rw [runDsp_start]
        exact .inr ⟨_, rfl, rfl⟩
      · split
        · exact .inl (runDsp_start slice)
        · split
          · exact .inl (runDsp_start slice)
          · exact .inl rfl
    · split
      · exact .inl rfl
      · split
        · split <;> exact .inl rfl
        · exact .inl rfl
  | tick slice =>
    simp only [NxsHpi.handle, NxsHpi.tick]
    split
    · exact .inl rfl
    · split
      · exact .inl rfl
      · exact .inl (execute_start slice)

theorem start_stays {d : Checkpoint} (input : Input) (h : s.start = some d) : (s.handle input).start = some d := by
  rcases handle_start s input with same | ⟨e, -, first⟩
  · rw [same, h]
  · rw [first, h, Option.some_or]

def Covered (s : NxsHpi) : Input → Prop
  | .read offset => offset = 0x80000 → s.validData ≠ none → InL2 s.address.toNat
  | .write offset _ _ => offset = 0x80000 ∨ offset = 0xc0000 → s.validData ≠ none → InL2 s.address.toNat
  | _ => True

theorem handle_tracks {input : Input} (covered : Covered s input)
    (captured : ∀ d, (s.handle input).start = some d → d = checkpoint) (h : Tracks checkpoint s) :
    Tracks checkpoint (s.handle input) := by
  cases input with
  | resetLine released => exact resetLine_tracks released h
  | bootPhase phase slice => exact changePhase_tracks phase slice h
  | read offset => exact read_tracks offset covered h
  | write offset value slice =>
    unfold NxsHpi.handle at captured ⊢
    dsimp only at captured ⊢
    unfold NxsHpi.write at captured ⊢
    by_cases control : offset = 0
    · rw [if_pos control] at captured ⊢
      exact writeControl_tracks value slice captured h
    rw [if_neg control]
    by_cases hpia : offset = 0x40000
    · rw [if_pos hpia]
      exact writeAddress_tracks value h
    rw [if_neg hpia]
    by_cases port : offset = 0x80000 ∨ offset = 0xc0000
    · rw [if_pos port]
      exact writeData_tracks value (covered port) h
    · rw [if_neg port]
      exact h
  | tick slice => exact tick_tracks slice h

def NxsHpi.run (s : NxsHpi) (inputs : List Input) : NxsHpi := inputs.foldl NxsHpi.handle s

def CoveredRun : NxsHpi → List Input → Prop
  | _, [] => True
  | s, input :: inputs => Covered s input ∧ CoveredRun (s.handle input) inputs

theorem run_start {d : Checkpoint} (inputs : List Input) (h : s.start = some d) : (s.run inputs).start = some d := by
  induction inputs generalizing s with
  | nil => exact h
  | cons input inputs ih => exact ih (start_stays input h)

theorem run_tracks {inputs : List Input} (covered : CoveredRun s inputs)
    (captured : (s.run inputs).start = some checkpoint) (h : Tracks checkpoint s) :
    Tracks checkpoint (s.run inputs) := by
  induction inputs generalizing s with
  | nil => exact h
  | cons input inputs ih =>
    refine ih covered.2 captured (handle_tracks covered.1 (fun d hd ↦ ?_) h)
    have kept : (s.run (input :: inputs)).start = some d := run_start inputs hd
    exact Option.some.inj (kept.symm.trans captured)

theorem powerOn_tracks : Tracks checkpoint (NxsHpi.powerOn false) :=
  ⟨start, rfl,
    { legacy := rfl
      idle := rfl
      started := fun h ↦ nomatch h
      sequence := rfl
      address := rfl
      bootPhase := rfl
      lines :=
        { hpirst := rfl
          hwob := fun h ↦ nomatch h
          hint := rfl
          dspint := rfl }
      verified := rfl
      words := fun _ ↦ rfl
      l2 := fun _ ↦ rfl }⟩

theorem l2_of_captured {input : Input} (before : s.start = none) (h : (s.handle input).start = some checkpoint) :
    checkpoint.l2 = s.memories .l2 := by
  rcases handle_start s input with same | ⟨d, l2, first⟩
  · rw [same, before] at h
    cases h
  · rw [first, before, Option.none_or] at h
    rw [← Option.some.inj h, l2]

theorem run_captures {inputs : List Input} (before : s.start = none)
    (captured : (s.run inputs).start = some checkpoint) :
    ∃ front input back, inputs = front ++ input :: back ∧ (s.run front).start = none ∧
      ((s.run front).handle input).start = some checkpoint ∧ checkpoint.l2 = (s.run front).memories .l2 := by
  induction inputs generalizing s with
  | nil => exact absurd (before.symm.trans captured) (Option.some_ne_none checkpoint).symm
  | cons input inputs ih =>
    cases now : (s.handle input).start with
    | none =>
      obtain ⟨front, first, back, rfl, earlier, starts, l2⟩ := ih now captured
      exact ⟨input :: front, first, back, rfl, earlier, starts, l2⟩
    | some d =>
      obtain rfl : d = checkpoint := Option.some.inj ((run_start inputs now).symm.trans captured)
      exact ⟨[], input, inputs, rfl, before, now, l2_of_captured before now⟩

/-- The replay accepts the transcript of a run in the legacy mode whose data accesses are covered. -/
theorem replay_accepts {inputs : List Input} (covered : CoveredRun (NxsHpi.powerOn false) inputs)
    (captured : ((NxsHpi.powerOn false).run inputs).start = some checkpoint) :
    ∃ r, feed checkpoint ((NxsHpi.powerOn false).run inputs).log = .ok r ∧
      replay checkpoint ((NxsHpi.powerOn false).run inputs).log = .ok r.summary ∧
      (∃ before first after u, ((NxsHpi.powerOn false).run inputs).log = before ++ first :: after ∧
        first.kind = .dspStart ∧ first.sequence = checkpoint.eventSequence ∧ feed checkpoint before = .ok u ∧
        ∃ front input back, inputs = front ++ input :: back ∧ ((NxsHpi.powerOn false).run front).start = none ∧
          (((NxsHpi.powerOn false).run front).handle input).start = some checkpoint ∧
          u.l2 = ((NxsHpi.powerOn false).run front).memories .l2) ∧
      r.state.address = ((NxsHpi.powerOn false).run inputs).address.toNat ∧
      r.state.bootPhase = ((NxsHpi.powerOn false).run inputs).bootPhase ∧
      r.state.hint = ((NxsHpi.powerOn false).run inputs).hpi.hint ∧
      r.state.dspint = ((NxsHpi.powerOn false).run inputs).hpi.dspint := by
  obtain ⟨r, fed, m⟩ := run_tracks covered captured powerOn_tracks
  have verified : r.startVerified = true := by rw [m.verified, captured]; rfl
  have accepted : replay checkpoint ((NxsHpi.powerOn false).run inputs).log = .ok r.summary := by
    unfold replay
    rw [fed]
    exact if_pos verified
  obtain ⟨before, first, after, u, hlog, type, order, rebuilt, same⟩ := l2_of_verified fed verified
  obtain ⟨front, input, back, split, none, starts, l2⟩ := run_captures rfl captured
  exact ⟨r, fed, accepted,
    ⟨before, first, after, u, hlog, type, order, rebuilt, front, input, back, split, none, starts, same.trans l2⟩,
    m.address, m.bootPhase, m.lines.hint, m.lines.dspint⟩

/-- A DSP that gets no time. -/
def idleSlice : Slice where
  acts := []
  steps := 0
  halted := false
  pc := 0
  word := 0

def upload (address : Word) : List Input :=
  [.resetLine true, .write 0 0x00010001 idleSlice, .write 0x40000 address idleSlice,
    .write 0x80000 0x12345678 idleSlice, .write 0 0x00030003 idleSlice]

theorem replay_accepts_upload : ∃ checkpoint r,
    ((NxsHpi.powerOn false).run (upload 0x11800000)).start = some checkpoint ∧
      replay checkpoint ((NxsHpi.powerOn false).run (upload 0x11800000)).log = .ok r := by
  have covered : CoveredRun (NxsHpi.powerOn false) (upload 0x11800000) := by
    refine ⟨trivial, fun port ↦ absurd port (by decide), fun port ↦ absurd port (by decide), fun _ _ ↦ ?_,
      fun port ↦ absurd port (by decide), trivial⟩
    decide +kernel
  have started : ((NxsHpi.powerOn false).run (upload 0x11800000)).start.isSome := by decide +kernel
  obtain ⟨checkpoint, captured⟩ := Option.isSome_iff_exists.mp started
  obtain ⟨r, -, accepted, -⟩ := replay_accepts covered captured
  exact ⟨checkpoint, r.summary, captured, accepted⟩

/-- A deferred run is refused, and so is a run that brings a word to the shared RAM. -/
theorem replay_refuses :
    (∃ checkpoint, ((NxsHpi.powerOn true).run (upload 0x11800000)).start = some checkpoint ∧
      ∀ r, replay checkpoint ((NxsHpi.powerOn true).run (upload 0x11800000)).log ≠ .ok r) ∧
    ∃ checkpoint, ((NxsHpi.powerOn false).run (upload 0x80000000)).start = some checkpoint ∧
      ∀ r, replay checkpoint ((NxsHpi.powerOn false).run (upload 0x80000000)).log ≠ .ok r := by
  constructor
  · have started : ((NxsHpi.powerOn true).run (upload 0x11800000)).start.isSome := by decide +kernel
    obtain ⟨checkpoint, captured⟩ := Option.isSome_iff_exists.mp started
    refine ⟨checkpoint, captured, fun summary accepted ↦ ?_⟩
    obtain ⟨r, fed⟩ := feed_of_replay accepted
    have scheduled : ((NxsHpi.powerOn true).run (upload 0x11800000)).log.any (!known ·.kind) := by decide +kernel
    obtain ⟨event, listed, unknown⟩ := List.any_eq_true.mp scheduled
    rw [known_of_accepted fed listed] at unknown
    cases unknown
  · have started : ((NxsHpi.powerOn false).run (upload 0x80000000)).start.isSome := by decide +kernel
    obtain ⟨checkpoint, captured⟩ := Option.isSome_iff_exists.mp started
    refine ⟨checkpoint, captured, fun summary accepted ↦ ?_⟩
    obtain ⟨r, fed⟩ := feed_of_replay accepted
    have written : ((NxsHpi.powerOn false).run (upload 0x80000000)).log.any fun event ↦
        event.kind = .hostDataAutoincrementWrite && !decide (InL2 event.address) := by decide +kernel
    obtain ⟨event, listed, outside⟩ := List.any_eq_true.mp written
    simp only [Bool.and_eq_true, decide_eq_true_eq, Bool.not_eq_true', decide_eq_false_iff_not] at outside
    exact outside.2 (inL2_of_accepted fed listed (.inl outside.1))

end Cdj2000Emulator.Transcript
