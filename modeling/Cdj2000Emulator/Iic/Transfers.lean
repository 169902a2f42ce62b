import Cdj2000Emulator.Iic.Model
import Cdj2000Emulator.Library.Monitor

namespace Cdj2000Emulator.Iic.Transfers

open Model Library.Monitor

/-- What happens on the bus and at the registers. -/
inductive Event
  | data (value : Byte)
  | control (value : Byte)
  | status (value : Byte)
  | load (value : Byte)
  | receive
  | call (call : Call)
  deriving DecidableEq

/-- What the firmware and the endpoint may rely on. -/
structure Wire where
  /-- the direction of the transfer that the endpoint has acknowledged -/
  transfer : Option Bool
  /-- the latest data-register write -/
  latest : Byte
  /-- the latest data-register write has not been loaded -/
  fresh : Bool
  /-- the byte that has been loaded and not sent -/
  shifter : Option Byte
  /-- the receive flag of the previous byte has not been cleared -/
  unread : Bool
  /-- the final-stop bit -/
  final : Bool
  /-- the byte being received is the last one -/
  last : Bool
  /-- only the stop may follow -/
  closing : Bool

namespace Wire

def start : Wire := ⟨none, 0, false, none, false, false, false, false⟩

def stepCall (w : Wire) : Call → Option Wire
  | .start _ read ack =>
    if w.transfer.isSome then none
    else some { w with transfer := if ack then some read else none }
  | .sent value _ =>
    if w.transfer ≠ some false ∨ w.shifter ≠ some value ∨ w.closing then none
    else some { w with shifter := none }
  | .received _ =>
    if w.transfer ≠ some true ∨ w.unread ∨ w.closing then none
    else some { w with unread := true, closing := w.last }
  | .unavailable => if w.transfer ≠ some true ∨ w.unread ∨ w.closing then none else some w
  | .stop =>
    if w.transfer.isNone then none else some { w with transfer := none, closing := false }

def step (w : Wire) : Event → Option Wire
  | .data value => some { w with latest := value, fresh := true }
  | .control value => some { w with final := value &&& fsb ≠ 0 }
  | .status value => some { w with unread := w.unread && value &&& mdr ≠ 0 }
  | .load value =>
    if !w.fresh ∨ value ≠ w.latest ∨ w.shifter.isSome then none
    else some { w with fresh := false, shifter := some value }
  | .receive => some { w with last := w.final }
  | .call call => w.stepCall call

end Wire

/-- Acknowledged starts and stops alternate around the bytes; a byte that is sent was
loaded from the latest data-register write, which is loaded once; nothing is received over
an unread byte, nor after the byte that was begun with the final-stop bit set. -/
def protocol : Observer Event Wire := ⟨Wire.start, Wire.step⟩

section History

variable {σ : Type}

def released (s t : Device σ) : List Event :=
  (if s.txPending ∧ ¬t.txPending then [.load t.txShift] else []) ++
    if s.phase ≠ .byte ∧ t.phase = .byte ∧ t.reading then [.receive] else []

def written (offset value : ℕ) : List Event :=
  let byte := BitVec.ofNat 8 value
  if offset = 4 then [.control byte]
  else if offset = 0xc then [.status byte]
  else if offset = 0x24 then [.data byte]
  else []

/-- A firmware write or the passing of an event's time. -/
inductive Action
  | write (offset size value : ℕ)
  | advance

def act (p : Device σ × σ) : Action → (Device σ × σ) × List Event
  | .write offset size value =>
    match p.1.write offset size value with
    | none => (p, [])
    | some s => ((s, p.2), written offset value ++ released p.1 s)
  | .advance =>
    let out := p.1.advance p.2
    ((out.device, out.context), out.calls.map .call ++ released p.1 out.device)

def history (endpoint : Endpoint σ) (context : σ) (actions : List Action) : List Event :=
  (actions.foldl (fun (p : (Device σ × σ) × List Event) action ↦
    ((act p.1 action).1, p.2 ++ (act p.1 action).2))
    (({ (reset : Device σ) with endpoint := some endpoint }, context), [])).2

end History

/-- How the observer's state follows the device's. -/
structure Tracks {σ : Type} (s : Device σ) (w : Wire) : Prop where
  attached : s.endpoint.isSome
  transfer : w.transfer = if s.selected then some s.reading else none
  waiting : s.phase = .idle ∨ s.phase = .address → s.selected = false
  active : s.phase = .wait ∨ s.phase = .byte ∨ s.phase = .waitStop ∨ s.phase = .txReady →
    s.selected = true
  fresh : w.fresh = s.txPending
  latest : s.txPending = true → w.latest = s.tx
  shifter : w.shifter = if s.phase = .txReady ∨ (s.phase = .byte ∧ s.reading = false) then
    some s.txShift else none
  receives : s.phase = .waitStop → s.reading = true
  sends : s.phase = .txReady → s.reading = false
  final : w.final = decide (s.control &&& fsb ≠ 0)
  unread : w.unread = true → s.status &&& mdr ≠ 0
  cleared : s.phase = .byte → s.reading = true → s.status &&& mdr = 0
  last : s.phase = .byte → s.reading = true → w.last = s.stopAfterByte
  closing : w.closing = true → s.selected = true ∧ (s.phase = .waitStop ∨ s.phase = .stop)

theorem keeps_mdr : ∀ status : Byte, ((status ||| mde) &&& mdr = 0) ↔ (status &&& mdr = 0) := by
  decide

section Release

variable {σ : Type} {s s₀ : Device σ} {w : Wire}

/-- What `release_byte` may do. -/
inductive Release (s : Device σ) : Device σ → Prop
  | ended (phase : s.phase = .waitStop) : Release s { s with phase := .stop }
  | shifted (phase : s.phase = .txReady) :
    Release s { s with stopAfterByte := decide (s.control &&& fsb ≠ 0), phase := .byte }
  | drained (phase : s.phase = .wait) : Release s { s with phase := .stop }
  | loaded (phase : s.phase = .wait) (sends : s.reading = false) (pending : s.txPending = true) :
    Release s { s with
      txShift := s.tx, txPending := false, status := s.status ||| mde, phase := .txReady }
  | begun (phase : s.phase = .wait) (receives : s.reading = true) (cleared : s.status &&& mdr = 0) :
    Release s { s with stopAfterByte := decide (s.control &&& fsb ≠ 0), phase := .byte }
  | held : Release s s

theorem release (s : Device σ) : Release s s.releaseByte := by
  unfold Device.releaseByte
  cases direction : s.reading with
  | false =>
    simp only [Bool.false_eq_true, not_false_eq_true, if_true, if_false]
    split_ifs with ended shifted held pending final
    · exact .ended ended.1
    · exact .shifted shifted.1
    · exact .loaded held.1 direction pending
    · exact .drained held.1
    · exact .held
    · exact .held
  | true =>
    simp only [not_true_eq_false, if_true, if_false]
    split_ifs with ended shifted held
    · exact .ended ended.1
    · exact .shifted shifted.1
    · exact .begun held.1 direction held.2.2
    · exact .held

/-- The device before a release: as the released one, and not holding a byte to receive. -/
structure Before (s₀ s : Device σ) : Prop where
  pending : s₀.txPending = s.txPending
  byte : s.phase = .byte → s₀.phase = .byte
  wait : s₀.phase = .byte → s.phase = .wait → s.reading = true → s.status &&& mdr ≠ 0

theorem released_quiet {t : Device σ} (pending : s₀.txPending = t.txPending)
    (byte : t.phase = .byte → s₀.phase = .byte ∨ t.reading = false) : released s₀ t = [] := by
  unfold released
  rw [if_neg (by simp [pending]), if_neg ?_]
  · rfl
  · rintro ⟨before, now, direction⟩
    rcases byte now with same | same
    · exact before same
    · rw [same] at direction
      cases direction

theorem run_quiet {t : Device σ} (pending : s₀.txPending = t.txPending)
    (byte : t.phase = .byte → s₀.phase = .byte ∨ t.reading = false) :
    protocol.run w (released s₀ t) = some w := by
  rw [released_quiet pending byte]
  rfl

/-- A stop leaves nothing to send or receive. -/
theorem Tracks.stopping (tracks : Tracks s w) (phase : s.phase = .waitStop ∨ s.phase = .wait) :
    Tracks { s with phase := .stop } w :=
  { tracks with
    waiting := by simp
    active := by simp
    shifter := by rcases phase with phase | phase <;> simpa [phase] using tracks.shifter
    receives := by simp
    sends := by simp
    cleared := by simp
    last := by simp
    closing := fun closing ↦ ⟨(tracks.closing closing).1, .inr rfl⟩ }

/-- What a release adds to the history is allowed. -/
theorem release_tracks (s₀ : Device σ) (tracks : Tracks s w) (before : Before s₀ s) :
    ∃ w', protocol.run w (released s₀ s.releaseByte) = some w' ∧ Tracks s.releaseByte w' := by
  have step := release s
  generalize s.releaseByte = t at step ⊢
  cases step with
  | ended phase =>
    exact ⟨w, run_quiet before.pending (by simp), tracks.stopping (.inl phase)⟩
  | shifted phase =>
    have sends := tracks.sends phase
    exact ⟨w, run_quiet before.pending (fun _ ↦ .inr sends), { tracks with
      waiting := by simp
      active := fun _ ↦ tracks.active (by simp [phase])
      shifter := by
        rw [if_pos (.inr ⟨rfl, sends⟩)]
        simpa [phase] using tracks.shifter
      receives := by simp
      sends := by simp
      cleared := fun _ receives ↦ absurd (sends.symm.trans receives) (by simp)
      last := fun _ receives ↦ absurd (sends.symm.trans receives) (by simp)
      closing := fun closing ↦ by simpa [phase] using tracks.closing closing }⟩
  | drained phase =>
    exact ⟨w, run_quiet before.pending (by simp), tracks.stopping (.inr phase)⟩
  | loaded phase sends pending =>
    have fresh : w.fresh = true := tracks.fresh.trans pending
    have idle : w.shifter = none := by simpa [phase] using tracks.shifter
    have event : released s₀ { s with
        txShift := s.tx, txPending := false, status := s.status ||| mde, phase := .txReady } =
        [.load s.tx] := by
      simp [released, before.pending, pending]
    have loads : protocol.step w (.load s.tx) =
        some { w with fresh := false, shifter := some s.tx } := by
      simp [protocol, Wire.step, fresh, idle, tracks.latest pending]
    rw [event, Observer.run_singleton loads]
    exact ⟨_, rfl, { tracks with
      waiting := by simp
      active := fun _ ↦ tracks.active (by simp [phase])
      fresh := rfl
      latest := by simp
      shifter := by simp
      receives := by simp
      sends := fun _ ↦ sends
      unread := fun unread ↦ mt (keeps_mdr _).mp (tracks.unread unread)
      cleared := by simp
      last := by simp
      closing := fun closing ↦ by simpa [phase] using tracks.closing closing }⟩
  | begun phase receives cleared =>
    have other : s₀.phase ≠ .byte := fun same ↦ before.wait same phase receives cleared
    have event : released s₀ { s with
        stopAfterByte := decide (s.control &&& fsb ≠ 0), phase := .byte } = [.receive] := by
      have : s.issuedAddress.getLsbD 0 = true := receives
      simp [released, before.pending, other, Device.reading, this]
    have receive : protocol.step w .receive = some { w with last := w.final } := rfl
    rw [event, Observer.run_singleton receive]
    exact ⟨_, rfl, { tracks with
      waiting := by simp
      active := fun _ ↦ tracks.active (by simp [phase])
      shifter := by
        rw [if_neg]
        · simpa [phase] using tracks.shifter
        · rintro (h | ⟨-, h⟩)
          · cases h
          · exact Bool.noConfusion (receives.symm.trans h)
      receives := by simp
      sends := by simp
      cleared := fun _ _ ↦ cleared
      last := fun _ _ ↦ tracks.final
      closing := fun closing ↦ by simpa [phase] using tracks.closing closing }⟩
  | held =>
    exact ⟨w, run_quiet before.pending (fun now ↦ .inl (before.byte now)), tracks⟩

end Release

section Writes

variable {σ : Type} {s s' : Device σ} {w : Wire}

theorem run_then {w₁ w₂ : Wire} {e : Event} {events : List Event} (first : protocol.step w e = some w₁)
    (rest : protocol.run w₁ events = some w₂) : protocol.run w (e :: events) = some w₂ :=
  (Observer.run_cons first).trans rest

theorem masked_fsb : ∀ value : Byte,
    (value &&& (mdbs ||| mie ||| fsb ||| esg)) &&& fsb = value &&& fsb := by
  decide

theorem final_tracks (value : Byte) (tracks : Tracks s w) :
    Tracks { s with control := value &&& (mdbs ||| mie ||| fsb ||| esg) }
      { w with final := decide (value &&& fsb ≠ 0) } :=
  { tracks with final := by rw [masked_fsb] }

theorem before_self {t : Device σ} (pending : s.txPending = t.txPending) (phase : t.phase = s.phase) :
    Before s t where
  pending := pending
  byte now := phase.symm.trans now
  wait before now := absurd (before.symm.trans (phase.symm.trans now)) (by simp)

theorem writeControl_tracks {value : Byte} (tracks : Tracks s w)
    (h : s.writeControl value = some s') :
    ∃ w', protocol.run w (.control value :: released s s') = some w' ∧ Tracks s' w' := by
  have accepted {t : Device σ} (followed : Tracks t { w with final := decide (value &&& fsb ≠ 0) })
      (before : Before s t) :
      ∃ w', protocol.run w (.control value :: released s t.releaseByte) = some w' ∧
        Tracks t.releaseByte w' := by
    obtain ⟨w', run, tracks'⟩ := release_tracks s followed before
    exact ⟨w', run_then rfl run, tracks'⟩
  have final := final_tracks value tracks
  unfold Device.writeControl at h
  simp only [Option.ite_none_left_eq_some] at h
  obtain ⟨-, -, -, h⟩ := h
  by_cases idle : s.phase = .idle
  · have stopped : s.selected = false := tracks.waiting (.inl idle)
    have empty : w.shifter = none := by simpa [idle] using tracks.shifter
    rw [if_neg (not_not.mpr idle)] at h
    by_cases starts : (value &&& (mdbs ||| mie ||| fsb ||| esg)) &&& esg = 0
    · rw [if_neg (not_not.mpr starts)] at h
      cases h
      exact accepted final (before_self rfl rfl)
    · rw [if_pos starts, Option.ite_none_left_eq_some] at h
      obtain ⟨-, h⟩ := h
      cases h
      exact accepted { final with
        transfer := by simpa [stopped] using tracks.transfer
        waiting := fun _ ↦ stopped
        active := by simp
        shifter := by simpa using empty
        receives := by simp
        sends := by simp
        cleared := by simp
        last := by simp
        closing := fun closing ↦ by simpa [idle] using tracks.closing closing }
        ⟨rfl, by simp, by simp⟩
  · rw [if_pos idle] at h
    simp only [Option.ite_none_left_eq_some] at h
    obtain ⟨-, -, -, h⟩ := h
    split_ifs at h with sends
    · cases h
      refine accepted { final with last := fun _ receives ↦ ?_ } (before_self rfl rfl)
      exact absurd receives sends.2
    · cases h
      exact accepted final (before_self rfl rfl)

theorem clears_mdr : ∀ status value : Byte, (status &&& value) &&& mdr ≠ 0 ↔
    status &&& mdr ≠ 0 ∧ value &&& mdr ≠ 0 := by
  intro status value
  have bit : ∀ v : Byte, v &&& mdr ≠ 0 ↔ v.getLsbD 1 = true := by decide
  simp only [bit, BitVec.getLsbD_and, Bool.and_eq_true]

theorem writeStatus_tracks {value : Byte} (tracks : Tracks s w) :
    ∃ w', protocol.run w (.status value ::
        released s { s with status := s.status &&& value }.releaseByte) = some w' ∧
      Tracks { s with status := s.status &&& value }.releaseByte w' := by
  have cleared : Tracks { s with status := s.status &&& value }
      { w with unread := w.unread && decide (value &&& mdr ≠ 0) } :=
    { tracks with
      unread := by
        intro unread
        rw [Bool.and_eq_true, decide_eq_true_iff] at unread
        exact (clears_mdr _ _).mpr ⟨tracks.unread unread.1, unread.2⟩
      cleared := by
        intro phase receives
        by_cases set : (s.status &&& value) &&& mdr = 0
        · exact set
        · exact absurd (tracks.cleared phase receives) ((clears_mdr _ _).mp set).1 }
  obtain ⟨w', run, tracks'⟩ := release_tracks _ cleared (before_self rfl rfl)
  exact ⟨w', run_then rfl run, tracks'⟩

theorem write_tracks {offset size value : ℕ} (tracks : Tracks s w)
    (h : s.write offset size value = some s') :
    ∃ w', protocol.run w (written offset value ++ released s s') = some w' ∧ Tracks s' w' := by
  have silent {t : Device σ} (same : Tracks t w) (pending : s.txPending = t.txPending)
      (phase : t.phase = s.phase) : ∃ w', protocol.run w ([] ++ released s t) = some w' ∧ Tracks t w' :=
    ⟨w, run_quiet pending fun now ↦ .inl (phase.symm.trans now), same⟩
  unfold Device.write at h
  simp only [Option.ite_none_left_eq_some] at h
  obtain ⟨-, h⟩ := h
  unfold written
  by_cases slave : offset = 0 ∨ offset = 8 ∨ offset = 0x10 ∨ offset = 0x14
  · rw [if_pos slave, Option.ite_none_right_eq_some] at h
    obtain ⟨-, h⟩ := h
    cases h
    rw [if_neg (by omega), if_neg (by omega), if_neg (by omega)]
    exact silent tracks rfl rfl
  rw [if_neg slave] at h
  by_cases control : offset = 4
  · rw [if_pos control] at h ⊢
    exact writeControl_tracks tracks h
  rw [if_neg control] at h ⊢
  by_cases status : offset = 0xc
  · rw [if_pos status, Option.ite_none_left_eq_some] at h
    obtain ⟨-, h⟩ := h
    cases h
    rw [if_pos status]
    exact writeStatus_tracks tracks
  rw [if_neg status] at h ⊢
  by_cases data : offset = 0x24
  · subst data
    simp only [Nat.reduceEqDiff, if_false, if_true, Option.ite_none_left_eq_some] at h
    obtain ⟨-, h⟩ := h
    cases h
    have quiet : released s { s with tx := BitVec.ofNat 8 value, txPending := true } = [] := by
      unfold released
      rw [if_neg (by simp), if_neg fun h ↦ h.1 h.2.1]
      rfl
    rw [quiet]
    exact ⟨{ w with latest := BitVec.ofNat 8 value, fresh := true }, rfl,
      { tracks with fresh := rfl, latest := fun _ ↦ rfl }⟩
  rw [if_neg data] at h ⊢
  split_ifs at h
  all_goals
    cases h
    exact silent { tracks with } rfl rfl

end Writes

section Advance

variable {σ : Type} {s : Device σ} {w : Wire} {context : σ}

theorem or_mdr : ∀ status flags : Byte, status &&& mdr ≠ 0 ∨ flags &&& mdr ≠ 0 →
    (status ||| flags) &&& mdr ≠ 0 := by
  intro status flags
  have bit : ∀ v : Byte, v &&& mdr ≠ 0 ↔ v.getLsbD 1 = true := by decide
  simp only [bit, BitVec.getLsbD_or, Bool.or_eq_true]
  exact id

/-- An advance that makes no call and leaves the phase. -/
theorem still_tracks (tracks : Tracks s w) :
    ∃ w', protocol.run w (([] : List Call).map .call ++ released s s) = some w' ∧ Tracks s w' :=
  ⟨w, run_quiet rfl fun now ↦ .inl now, tracks⟩

theorem advanceAddress_eq (context : σ) (attached : s.endpoint.isSome) :
    ∃ ack, (s.advanceAddress context).calls =
        [.start (s.issuedAddress >>> 1).toNat s.reading ack] ∧
      ∃ status, (s.status &&& mdr ≠ 0 → status &&& mdr ≠ 0) ∧
        (s.advanceAddress context).device =
          { s with selected := ack, status, phase := if ack then .wait else .stop } := by
  obtain ⟨endpoint, he⟩ := Option.isSome_iff_exists.mp attached
  refine ⟨(endpoint.start context (s.issuedAddress >>> 1).toNat s.reading).2, ?_, ?_⟩
  · simp [Device.advanceAddress, he]
  · cases ack : (endpoint.start context (s.issuedAddress >>> 1).toNat s.reading).2 with
    | true =>
      refine ⟨_, fun set ↦ or_mdr _ (mat ||| if s.reading then mdr else mde) (.inl set), ?_⟩
      simp only [Device.advanceAddress, he, ack, if_true]
    | false =>
      refine ⟨_, fun set ↦ or_mdr _ mnr (.inl (or_mdr _ (mat ||| if s.reading then mdr else mde)
        (.inl set))), ?_⟩
      simp only [Device.advanceAddress, he, ack, if_false, Bool.false_eq_true]

theorem advanceAddress_tracks (tracks : Tracks s w) (phase : s.phase = .address) :
    ∃ w', protocol.run w ((s.advanceAddress context).calls.map .call ++
        released s (s.advanceAddress context).device) = some w' ∧
      Tracks (s.advanceAddress context).device w' := by
  obtain ⟨ack, calls, status, keeps, device⟩ := advanceAddress_eq context tracks.attached
  have stopped := tracks.waiting (.inr phase)
  have idle : w.transfer = none := by simpa [stopped] using tracks.transfer
  have empty : w.shifter = none := by simpa [phase] using tracks.shifter
  rw [calls, device]
  refine ⟨{ w with transfer := if ack then some s.reading else none },
    run_then (by simp [protocol, Wire.step, Wire.stepCall, idle]) (run_quiet rfl ?_),
    { tracks with
      transfer := rfl
      waiting := ?_
      active := ?_
      shifter := ?_
      receives := ?_
      sends := ?_
      unread := fun unread ↦ keeps (tracks.unread unread)
      cleared := ?_
      last := ?_
      closing := fun closing ↦ by simpa [phase] using tracks.closing closing }⟩
  all_goals cases ack <;> simp [empty]

theorem advanceStop_eq (context : σ) (attached : s.endpoint.isSome) :
    (s.advanceStop context).calls = (if s.selected then [.stop] else []) ∧
      (s.advanceStop context).device =
        { s with status := s.status ||| mst, selected := false, phase := .idle } := by
  obtain ⟨endpoint, he⟩ := Option.isSome_iff_exists.mp attached
  cases selected : s.selected with
  | true => simp [Device.advanceStop, he, selected]
  | false => simp [Device.advanceStop, he, selected]

theorem advanceStop_tracks (tracks : Tracks s w) (phase : s.phase = .stop) :
    ∃ w', protocol.run w ((s.advanceStop context).calls.map .call ++
        released s (s.advanceStop context).device) = some w' ∧
      Tracks (s.advanceStop context).device w' := by
  obtain ⟨calls, device⟩ := advanceStop_eq context tracks.attached
  have empty : w.shifter = none := by simpa [phase] using tracks.shifter
  have idle {w' : Wire} (same : w' = { w with transfer := none, closing := false }) :
      Tracks { s with status := s.status ||| mst, selected := false, phase := .idle } w' := by
    subst same
    exact { tracks with
      transfer := rfl
      waiting := fun _ ↦ rfl
      active := by simp
      shifter := by simpa using empty
      receives := by simp
      sends := by simp
      unread := fun unread ↦ or_mdr _ _ (.inl (tracks.unread unread))
      cleared := by simp
      last := by simp
      closing := by simp }
  rw [calls, device]
  cases selected : s.selected with
  | true =>
    have transfer : w.transfer = some s.reading := by simpa [selected] using tracks.transfer
    exact ⟨_, run_then (by simp [protocol, Wire.step, Wire.stepCall, transfer])
      (run_quiet rfl (by simp)), idle rfl⟩
  | false =>
    have transfer : w.transfer = none := by simpa [selected] using tracks.transfer
    have closing : w.closing = false := by
      cases closing : w.closing with
      | false => rfl
      | true => simpa [selected] using (tracks.closing closing).1
    exact ⟨w, run_quiet rfl (by simp), idle (by rw [← transfer, ← closing])⟩

theorem rest_tracks (tracks : Tracks s w) (phase : s.phase = .byte) {next : Phase} {rx status : Byte}
    {unread closing : Bool} (resting : next = .wait ∨ next = .stop ∨ next = .waitStop)
    (flagged : unread = true → status &&& mdr ≠ 0)
    (closes : closing = true → next = .waitStop ∨ next = .stop)
    (receives : next = .waitStop → s.reading = true) :
    Tracks { s with rx, status, phase := next }
      { w with shifter := none, unread, closing } := by
  have selected := tracks.active (.inr (.inl phase))
  exact { tracks with
    waiting := by rcases resting with rfl | rfl | rfl <;> simp
    active := fun _ ↦ selected
    shifter := by rcases resting with rfl | rfl | rfl <;> simp
    receives := receives
    sends := by rcases resting with rfl | rfl | rfl <;> simp
    unread := flagged
    cleared := by rcases resting with rfl | rfl | rfl <;> simp
    last := by rcases resting with rfl | rfl | rfl <;> simp
    closing := fun h ↦ ⟨selected, closes h⟩ }

theorem received_tracks (tracks : Tracks s w) (phase : s.phase = .byte) (direction : s.reading = true)
    (value : Byte) :
    ∃ w', protocol.run w (.call (.received value) ::
        released s ({ s with rx := value, status := s.status ||| mdr }.afterByte true)) = some w' ∧
      Tracks ({ s with rx := value, status := s.status ||| mdr }.afterByte true) w' := by
  have selected := tracks.active (.inr (.inl phase))
  have transfer : w.transfer = some true := by simpa [selected, direction] using tracks.transfer
  have empty : w.shifter = none := by simpa [phase, direction] using tracks.shifter
  have last := tracks.last phase direction
  have set : (s.status ||| mdr) &&& mdr ≠ 0 := or_mdr _ _ (.inr (by decide))
  have unread : w.unread = false := by
    cases unread : w.unread with
    | false => rfl
    | true => exact absurd (tracks.cleared phase direction) (tracks.unread unread)
  have open' : w.closing = false := by
    cases closing : w.closing with
    | false => rfl
    | true => simpa [phase] using tracks.closing closing
  have step : protocol.step w (.call (.received value)) =
      some { w with shifter := none, unread := true, closing := s.stopAfterByte } := by
    simp [protocol, Wire.step, Wire.stepCall, transfer, unread, open', last, ← empty]
  have resting {next : Phase} (h : next = .wait ∨ next = .stop ∨ next = .waitStop)
      (closes : s.stopAfterByte = true → next = .waitStop ∨ next = .stop) :
      Tracks { s with rx := value, status := s.status ||| mdr, phase := next }
        { w with shifter := none, unread := true, closing := s.stopAfterByte } :=
    rest_tracks tracks phase h (fun _ ↦ set) closes fun _ ↦ direction
  unfold Device.afterByte
  by_cases stops : s.stopAfterByte = true
  · rw [if_pos ⟨stops, direction⟩]
    exact ⟨_, run_then step (run_quiet rfl (by simp)), resting (.inr (.inr rfl)) fun _ ↦ .inl rfl⟩
  · rw [if_neg fun h ↦ stops h.1, if_neg (by simp [stops])]
    obtain ⟨w', run, tracks'⟩ := release_tracks s (resting (.inl rfl) fun h ↦ absurd h stops)
      ⟨rfl, by simp, fun _ _ _ ↦ set⟩
    exact ⟨w', run_then step run, tracks'⟩

theorem sent_tracks (tracks : Tracks s w) (phase : s.phase = .byte) (direction : s.reading = false)
    (ack : Bool) {status : Byte} (keeps : s.status &&& mdr ≠ 0 → status &&& mdr ≠ 0) :
    ∃ w', protocol.run w (.call (.sent s.txShift ack) ::
        released s ({ s with status }.afterByte ack)) = some w' ∧
      Tracks ({ s with status }.afterByte ack) w' := by
  have selected := tracks.active (.inr (.inl phase))
  have transfer : w.transfer = some false := by simpa [selected, direction] using tracks.transfer
  have held : w.shifter = some s.txShift := by simpa [phase, direction] using tracks.shifter
  have open' : w.closing = false := by
    cases closing : w.closing with
    | false => rfl
    | true => simpa [phase] using tracks.closing closing
  have step : protocol.step w (.call (.sent s.txShift ack)) = some { w with shifter := none } := by
    simp [protocol, Wire.step, Wire.stepCall, transfer, held, open']
  have resting {next : Phase} (h : next = .wait ∨ next = .stop) :
      Tracks { s with status, phase := next } { w with shifter := none } :=
    rest_tracks tracks phase (h.imp_right .inl) (fun unread ↦ keeps (tracks.unread unread))
      (by simp [open']) (by rcases h with rfl | rfl <;> simp)
  unfold Device.afterByte
  rw [if_neg fun h ↦ absurd (direction.symm.trans h.2) (by simp)]
  have next : (if ¬ack ∨ s.stopAfterByte then Phase.stop else .wait) = .wait ∨
      (if ¬ack ∨ s.stopAfterByte then Phase.stop else .wait) = .stop := by
    split_ifs <;> simp
  obtain ⟨w', run, tracks'⟩ := release_tracks s (resting next)
    ⟨rfl, fun now ↦ next.elim (fun h ↦ absurd (h.symm.trans now) (by simp)) fun h ↦
        absurd (h.symm.trans now) (by simp),
      fun _ _ receives ↦ absurd (direction.symm.trans receives) (by simp)⟩
  exact ⟨w', run_then step run, tracks'⟩

theorem advanceByte_tracks (tracks : Tracks s w) (phase : s.phase = .byte) :
    ∃ w', protocol.run w ((s.advanceByte context).calls.map .call ++
        released s (s.advanceByte context).device) = some w' ∧
      Tracks (s.advanceByte context).device w' := by
  obtain ⟨endpoint, attached⟩ := Option.isSome_iff_exists.mp tracks.attached
  have selected := tracks.active (.inr (.inl phase))
  cases direction : s.reading with
  | true =>
    rcases answer : endpoint.readByte context with ⟨context', _ | value⟩
    · have out : s.advanceByte context = ⟨context', s, false, [.unavailable]⟩ := by
        simp only [Device.advanceByte, selected, attached, direction, if_true, answer]
      have transfer : w.transfer = some true := by simpa [selected, direction] using tracks.transfer
      have unread : w.unread = false := by
        cases unread : w.unread with
        | false => rfl
        | true => exact absurd (tracks.cleared phase direction) (tracks.unread unread)
      have open' : w.closing = false := by
        cases closing : w.closing with
        | false => rfl
        | true => simpa [phase] using tracks.closing closing
      rw [out]
      exact ⟨w, run_then (by simp [protocol, Wire.step, Wire.stepCall, transfer, unread, open'])
        (run_quiet rfl fun now ↦ .inl now), tracks⟩
    · have out : s.advanceByte context =
          ⟨context', { s with rx := value, status := s.status ||| mdr }.afterByte true, true,
            [.received value]⟩ := by
        simp only [Device.advanceByte, selected, attached, direction, if_true, answer]
      rw [out]
      exact received_tracks tracks phase direction value
  | false =>
    rcases answer : endpoint.writeByte context s.txShift with ⟨context', ack⟩
    have out : s.advanceByte context =
        ⟨context', { s with status := s.status ||| (mdt ||| if ack then 0 else mnr) }.afterByte ack,
          true, [.sent s.txShift ack]⟩ := by
      simp only [Device.advanceByte, selected, attached, direction, Bool.false_eq_true, if_false, answer]
    rw [out]
    exact sent_tracks tracks phase direction ack fun set ↦ or_mdr _ _ (.inl set)

theorem advance_tracks (tracks : Tracks s w) :
    ∃ w', protocol.run w ((s.advance context).calls.map .call ++
        released s (s.advance context).device) = some w' ∧
      Tracks (s.advance context).device w' := by
  unfold Device.advance
  cases phase : s.phase with
  | idle | wait | waitStop | txReady => exact still_tracks tracks
  | address => exact advanceAddress_tracks tracks phase
  | byte => exact advanceByte_tracks tracks phase
  | stop => exact advanceStop_tracks tracks phase

end Advance

section Runs

variable {σ : Type}

theorem reset_tracks (endpoint : Endpoint σ) :
    Tracks { (reset : Device σ) with endpoint := some endpoint } protocol.start where
  attached := rfl
  transfer := rfl
  waiting _ := rfl
  active := by simp [reset]
  fresh := rfl
  latest := by simp [reset]
  shifter := rfl
  receives := by simp [reset]
  sends := by simp [reset]
  final := by simp [protocol, Wire.start, reset]
  unread := by simp [protocol, Wire.start]
  cleared := by simp [reset]
  last := by simp [reset]
  closing := by simp [protocol, Wire.start]

theorem act_tracks (p : Device σ × σ) (w : Wire) (action : Action) (tracks : Tracks p.1 w) :
    ∃ w', protocol.run w (act p action).2 = some w' ∧ Tracks (act p action).1.1 w' := by
  cases action with
  | write offset size value =>
    simp only [act]
    cases h : p.1.write offset size value with
    | none => exact ⟨w, rfl, tracks⟩
    | some s => exact write_tracks tracks h
  | advance => exact advance_tracks tracks

/-- Whatever the firmware writes and however time passes, the transfers keep the protocol. -/
theorem history_accepted (endpoint : Endpoint σ) (context : σ) (actions : List Action) :
    protocol.Accepts (history endpoint context actions) :=
  Observer.accepts_of_simulation (R := fun p w ↦ Tracks p.1 w) (reset_tracks endpoint)
    act_tracks actions

end Runs

def listener : Endpoint Unit where
  start _ address7 _ := ((), decide (address7 = 0x10))
  writeByte _ _ := ((), true)
  readByte _ := ((), some 0)
  stop _ := ()

/-- A byte is written for address 0x11, which nobody answers; the transfer to 0x10 that
follows is given no byte of its own. -/
def unanswered : List Action :=
  [.write 0x20 1 0x22, .write 0x24 1 0x63, .write 4 1 0x89, .advance, .advance,
    .write 4 1 0x88, .write 0xc 1 0, .write 0x20 1 0x20, .write 4 1 0x89, .advance,
    .write 4 1 0x88, .write 0xc 1 0, .write 0xc 1 0, .advance]

/-- The endpoint is started twice with no stop between, and is sent the byte of the
transfer that was not acknowledged. -/
theorem history_unanswered :
    (history listener () unanswered).filterMap (fun e ↦ match e with | .call c => some c | _ => none) =
      [.start 0x11 false false, .start 0x10 false true, .sent 0x63 true] := by
  decide

end Cdj2000Emulator.Iic.Transfers
