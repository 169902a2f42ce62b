import Cdj2000Emulator.Usbh.History

namespace Cdj2000Emulator.Usbh

open Function Library.Bytes Library.Monitor

variable {s : State} {p q : Pipe} {w : Watch} {nr : ℕ} {bps : ℕ} {now : ℤ} {entries : List Entry}

namespace Pipe

variable (p)

def unsent : List Byte := p.tx.drop p.txPos

/-- The fields on which the order of the bytes rests. -/
def core : List Byte × ℕ × Bool × Bool × List Byte × ℕ × Bool × Packet × Bool × Bool × List Byte :=
  (p.rx, p.rxPos, p.rxZlp, p.stopped, p.tx, p.txPos, p.txValid, p.packet, p.inflight, p.held, p.pktBuf)

/-- What always holds of a pipe. -/
structure Sound : Prop where
  readRoom : p.rxPos ≤ p.rx.length
  writeRoom : p.txPos ≤ p.tx.length
  /-- The room is kept free for the packet that the pipe has asked for. -/
  awaits : p.flying = some .input → p.unread = [] ∧ p.rxZlp = false
  alone : p.rxZlp = true → p.unread = []
  held : p.held = true → p.inflight = true ∧ p.packet.pid = .input ∧ p.packet.status = .success ∧
    p.packet.actualLength = p.pktBuf.length
  sized : p.inflight = true → p.packet.pid = .output → p.packet.size = p.pktBuf.length

/-- The watch sees the pipe as it is. -/
structure Seen (w : Watch) : Prop where
  unread : w.unread = p.unread
  zeroLength : w.zeroLength = p.rxZlp
  stopped : w.stopped = p.stopped
  flying : w.flying = p.flying
  unsent : w.lost = false → w.unsent = p.unsent
  ready : w.lost = false → w.ready = p.txValid
  /-- What is out is still at the front of the buffer. -/
  offered : w.lost = false → ∀ bytes, p.flying = some (.output bytes) → bytes <+: p.unsent
  sound : p.Sound

variable {p}

theorem Sound.of_core (h : p.Sound) (hcore : q.core = p.core) : q.Sound := by
  simp only [core, Prod.mk.injEq] at hcore
  obtain ⟨h₁, h₂, h₃, h₄, h₅, h₆, h₇, h₈, h₉, h₁₀, h₁₁⟩ := hcore
  have hflying : q.flying = p.flying := by simp only [flying, h₈, h₉, h₁₁]
  have hunread : q.unread = p.unread := by simp only [unread, h₁, h₂]
  refine ⟨?_, ?_, ?_, ?_, ?_, ?_⟩
  · rw [h₁, h₂]
    exact h.readRoom
  · rw [h₅, h₆]
    exact h.writeRoom
  · rw [hflying, hunread, h₃]
    exact h.awaits
  · rw [hunread, h₃]
    exact h.alone
  · rw [h₈, h₉, h₁₀, h₁₁]
    exact h.held
  · rw [h₈, h₉, h₁₁]
    exact h.sized

theorem Seen.of_core (h : p.Seen w) (hcore : q.core = p.core) : q.Seen w := by
  have hsound := h.sound.of_core hcore
  simp only [core, Prod.mk.injEq] at hcore
  obtain ⟨h₁, h₂, h₃, h₄, h₅, h₆, h₇, h₈, h₉, h₁₀, h₁₁⟩ := hcore
  have hflying : q.flying = p.flying := by simp only [Pipe.flying, h₈, h₉, h₁₁]
  have hunread : q.unread = p.unread := by simp only [Pipe.unread, h₁, h₂]
  have hunsent : q.unsent = p.unsent := by simp only [Pipe.unsent, h₅, h₆]
  exact ⟨h.unread.trans hunread.symm, h.zeroLength.trans h₃.symm, h.stopped.trans h₄.symm,
    h.flying.trans hflying.symm, fun hlost ↦ (h.unsent hlost).trans hunsent.symm,
    fun hlost ↦ (h.ready hlost).trans h₇.symm, by rw [hflying, hunsent]; exact h.offered, hsound⟩

end Pipe

def Advances (p : Pipe) (entries : List Entry) (q : Pipe) : Prop :=
  ∀ w, p.Seen w → ∃ w', watcher.run w entries = some w' ∧ q.Seen w'

theorem advances_core (h : q.core = p.core) : Advances p [] q := fun w hw ↦ ⟨w, rfl, hw.of_core h⟩

theorem advances_single {e : Entry} (h : ∀ w, p.Seen w → ∃ w', w.observe e = some w' ∧ q.Seen w') :
    Advances p [e] q := by
  intro w hw
  obtain ⟨w', he, hq⟩ := h w hw
  exact ⟨w', Observer.run_singleton he, hq⟩

theorem Advances.trans {r : Pipe} {more : List Entry} (h : Advances p entries q) (h' : Advances q more r) :
    Advances p (entries ++ more) r := by
  intro w hw
  obtain ⟨v, hv, hq⟩ := h w hw
  obtain ⟨w', hw', hr⟩ := h' v hq
  exact ⟨w', (Observer.run_append_of hv).trans hw', hr⟩

theorem Advances.of_core {r : Pipe} (h : Advances p entries q) (hcore : r.core = q.core) : Advances p entries r := by
  have := h.trans (advances_core hcore)
  rwa [List.append_nil] at this

section Buffers

theorem advances_rxClear : Advances p [.readCleared] p.rxClear := advances_single fun _ h ↦
  ⟨_, rfl, { h with
    unread := rfl
    zeroLength := rfl
    sound := { h.sound with readRoom := le_rfl, awaits := fun _ ↦ ⟨rfl, rfl⟩, alone := nofun } }⟩

theorem transmitting_of_flying {bytes : List Byte} (h : w.flying = some (.output bytes)) : w.transmitting = true := by
  rw [Watch.transmitting, h]

theorem advances_txClear : Advances p [.writeCleared] p.txClear := by
  refine advances_single fun w h ↦ ⟨_, rfl, { h with
    unsent := fun _ ↦ rfl
    ready := fun _ ↦ rfl
    offered := fun hlost bytes hbytes ↦ ?_
    sound := { h.sound with writeRoom := le_rfl } }⟩
  have htransmitting := transmitting_of_flying (h.flying.trans hbytes)
  exact absurd htransmitting (by simpa using hlost)

theorem advances_queued (bytes : List Byte) : Advances p [.queued bytes] { p with tx := p.tx ++ bytes } := by
  have hunsent (h : p.Sound) : (p.tx ++ bytes).drop p.txPos = p.unsent ++ bytes :=
    List.drop_append_of_le_length h.writeRoom
  refine advances_single fun w h ↦ ⟨_, rfl, { h with
    unsent := fun hlost ↦ ?_
    offered := fun hlost out hout ↦ ?_
    sound := { h.sound with writeRoom := ?_ } }⟩
  · exact (congrArg (· ++ bytes) (h.unsent hlost)).trans (hunsent h.sound).symm
  · have hkept : out <+: p.unsent ++ bytes := (h.offered hlost out hout).trans (List.prefix_append _ _)
    rwa [← hunsent h.sound] at hkept
  · exact h.sound.writeRoom.trans (by simp)

theorem advances_valid : Advances p [.valid] { p with txValid := true } := advances_single fun _ h ↦
  ⟨_, rfl, { h with ready := fun _ ↦ rfl, sound := { h.sound with } }⟩

theorem advances_rearmed : Advances p [.rearmed] { p with stopped := false } := advances_single fun _ h ↦
  ⟨_, rfl, { h with stopped := rfl, sound := { h.sound with } }⟩

/-- Bytes are read out of the receive buffer. -/
theorem advances_taken {n : ℕ} (h : n ≤ p.rxAvail) :
    Advances p [.taken (p.unread.take n)] { p with rxPos := p.rxPos + n } := by
  have hlength : (p.unread.take n).length = n := by
    rw [List.length_take, Pipe.unread, List.length_drop]
    exact min_eq_left h
  have hdrop : p.unread.drop n = p.rx.drop (p.rxPos + n) := List.drop_drop
  refine advances_single fun w hw ↦ ⟨{ w with unread := w.unread.drop n }, ?_, { hw with
    unread := (congrArg (List.drop n) hw.unread).trans hdrop
    sound := { hw.sound with
      readRoom := ?_
      awaits := fun hflying ↦ ?_
      alone := fun hzero ↦ ?_ } }⟩
  · rw [Watch.observe, if_pos (hw.unread ▸ List.take_prefix _ _), hlength]
  · have hroom := hw.sound.readRoom
    unfold Pipe.rxAvail at h
    dsimp only
    omega
  · obtain ⟨hempty, hzero⟩ := hw.sound.awaits hflying
    exact ⟨hdrop.symm.trans (by rw [hempty, List.drop_nil]), hzero⟩
  · exact hdrop.symm.trans (by rw [hw.sound.alone hzero, List.drop_nil])

/-- A buffer that has been read to its end starts anew. -/
theorem advances_emptied (h : p.rxAvail = 0) : Advances p [] { p with rx := [], rxPos := 0 } := by
  have hunread : p.unread = [] := List.drop_of_length_le (Nat.sub_eq_zero_iff_le.mp h)
  exact fun w hw ↦ ⟨w, rfl, { hw with
    unread := hw.unread.trans hunread
    sound := { hw.sound with
      readRoom := le_rfl
      awaits := fun hflying ↦ ⟨rfl, (hw.sound.awaits hflying).2⟩
      alone := fun _ ↦ rfl } }⟩

/-- Bytes go to a reader, and a buffer that they empty starts anew. -/
theorem advances_read {n : ℕ} (h : n ≤ p.rxAvail) :
    Advances p [.taken (p.unread.take n)]
      (if ({ p with rxPos := p.rxPos + n } : Pipe).rxAvail = 0 then { p with rx := [], rxPos := 0 }
        else { p with rxPos := p.rxPos + n }) := by
  split_ifs with hempty
  · exact (advances_taken h).trans (advances_emptied hempty)
  · exact advances_taken h

/-- Nothing but a packet without data leaves the buffer empty and unread, so the DMA clears no more
than it has read. -/
theorem advances_drained {n : ℕ} (h : n ≤ p.rxAvail) (hn : n ≠ 0) :
    Advances p [.taken (p.unread.take n)]
      (if ({ p with rxPos := p.rxPos + n } : Pipe).rxAvail = 0 then ({ p with rxPos := p.rxPos + n } : Pipe).rxClear
        else { p with rxPos := p.rxPos + n }) := by
  intro w hw
  have hzero : p.rxZlp = false := by
    by_contra hzero
    have hempty := hw.sound.alone (by simpa using hzero)
    rw [Pipe.unread, List.drop_eq_nil_iff] at hempty
    unfold Pipe.rxAvail at h
    omega
  obtain ⟨w', hrun, hseen⟩ := advances_read h w hw
  refine ⟨w', hrun, ?_⟩
  split_ifs at hseen ⊢
  · exact hseen.of_core (by simp only [Pipe.core, Pipe.rxClear, hzero])
  · exact hseen

end Buffers

section Packets

theorem flying_eq_none (h : p.inflight = false) : p.flying = none := by rw [Pipe.flying, h]; rfl

/-- A packet is over, or never was, and nothing came of it. -/
theorem advances_ended : Advances p [.ended] { p with inflight := false, held := false } :=
  advances_single fun _ h ↦ ⟨_, rfl, { h with
    flying := rfl
    offered := nofun
    sound := { h.sound with awaits := nofun, held := nofun, sized := nofun } }⟩

/-- Without a packet in flight, what the last one was does not matter. -/
theorem advances_idle (hfree : p.inflight = false) (packet : Packet) (buffer : List Byte) :
    Advances p [] { p with packet := packet, pktBuf := buffer } := by
  have hflying : Pipe.flying { p with packet := packet, pktBuf := buffer } = none := flying_eq_none hfree
  refine fun w h ↦ ⟨w, rfl, { h with
    flying := (h.flying.trans (flying_eq_none hfree)).trans hflying.symm
    offered := fun _ _ hout ↦ nomatch hflying.symm.trans hout
    sound := { h.sound with
      awaits := fun hin ↦ nomatch hflying.symm.trans hin
      held := fun hheld ↦ ?_
      sized := fun hin ↦ nomatch hfree.symm.trans hin } }⟩
  exact nomatch hfree.symm.trans (h.sound.held hheld).1

theorem advances_answered (hheld : p.held = false) (status : Status) (n : ℕ) :
    Advances p [] { p with packet := { p.packet with status := status, actualLength := n } } := fun w h ↦
  ⟨w, rfl, { h with sound := { h.sound with held := fun h ↦ nomatch hheld.symm.trans h } }⟩

/-- The device has answered an IN token. -/
theorem advances_data (hheld : p.held = false) (hpid : p.packet.pid = .input) (status : Status) (bytes : List Byte) :
    Advances p [] { p with pktBuf := bytes, packet :=
      { p.packet with status := status, actualLength := bytes.length } } := by
  have hflying : Pipe.flying { p with pktBuf := bytes, packet :=
      { p.packet with status := status, actualLength := bytes.length } } =
      p.flying := by
    simp only [Pipe.flying, hpid]
  refine fun w h ↦ ⟨w, rfl, { h with
    flying := h.flying.trans hflying.symm
    offered := fun hlost out hout ↦ h.offered hlost out (hflying.symm.trans hout)
    sound := { h.sound with
      awaits := fun hin ↦ h.sound.awaits (hflying.symm.trans hin)
      held := fun h ↦ nomatch hheld.symm.trans h
      sized := fun _ hout ↦ ?_ } }⟩
  exact nomatch hpid.symm.trans hout

/-- The read rate keeps the packet back. -/
theorem advances_held (hin : p.inflight = true) (hpid : p.packet.pid = .input) (hstatus : p.packet.status = .success)
    (hlength : p.packet.actualLength = p.pktBuf.length) (until' : ℤ) :
    Advances p [] { p with held := true, heldUntil := until' } := fun w h ↦
  ⟨w, rfl, { h with sound := { h.sound with held := fun _ ↦ ⟨hin, hpid, hstatus, hlength⟩ } }⟩

theorem advances_released : Advances p [] { p with held := false } := fun w h ↦
  ⟨w, rfl, { h with sound := { h.sound with held := nofun } }⟩

theorem held_of_free (h : p.Sound) (hfree : p.inflight = false) : p.held = false := by
  by_contra hheld
  simp [(h.held (by simpa using hheld)).1] at hfree

theorem Pipe.Sound.awaits_of (h : p.Sound) (hin : p.inflight = true) (hpid : p.packet.pid = .input) :
    p.unread = [] ∧ p.rxZlp = false := h.awaits (by rw [Pipe.flying, hin, hpid]; rfl)

section Tokens

variable {buffer : List Byte} {len : ℕ}

theorem advances_setup (hfree : p.inflight = false) : Advances p [.token .setup] (p.issued .setup buffer len) :=
  advances_single fun w h ↦ ⟨{ w with flying := some .setup },
    if_pos (h.flying.trans (flying_eq_none hfree)), { h with
      flying := rfl
      offered := nofun
      sound := { h.sound with
        awaits := nofun
        held := fun hheld ↦ nomatch (held_of_free h.sound hfree).symm.trans hheld
        sized := nofun } }⟩

theorem advances_input (hfree : p.inflight = false) (hempty : p.unread = []) (hzero : p.rxZlp = false)
    (hgoing : p.stopped = false) : Advances p [.token .input] (p.issued .input buffer len) :=
  advances_single fun w h ↦ ⟨{ w with flying := some .input },
    if_pos ⟨h.flying.trans (flying_eq_none hfree), h.unread.trans hempty, h.zeroLength.trans hzero,
      h.stopped.trans hgoing⟩, { h with
      flying := rfl
      offered := nofun
      sound := { h.sound with
        awaits := fun _ ↦ ⟨hempty, hzero⟩
        held := fun hheld ↦ nomatch (held_of_free h.sound hfree).symm.trans hheld
        sized := nofun } }⟩

theorem advances_output (hfree : p.inflight = false) (hvalid : p.txValid = true) (hfront : buffer <+: p.unsent)
    (hlen : len = buffer.length) : Advances p [.token (.output buffer)] (p.issued .output buffer len) := by
  refine advances_single fun w h ↦ ?_
  have hready : w.lost = true ∨ w.ready = true ∧ buffer <+: w.unsent := by
    cases hlost : w.lost with
    | true => exact .inl rfl
    | false => exact .inr ⟨(h.ready hlost).trans hvalid, by rwa [h.unsent hlost]⟩
  exact ⟨{ w with flying := some (.output buffer) },
    if_pos ⟨h.flying.trans (flying_eq_none hfree), hready⟩, { h with
    flying := rfl
    offered := fun _ bytes hbytes ↦ by
      obtain rfl : buffer = bytes := by simpa [Pipe.flying, Pipe.issued] using hbytes
      exact hfront
    sound := { h.sound with
      awaits := nofun
      held := fun hheld ↦ nomatch (held_of_free h.sound hfree).symm.trans hheld
      sized := fun _ _ ↦ hlen } }⟩

end Tokens

/-- The packet of an IN token lands in the buffer, which is empty. -/
theorem advances_received {last : Bool} (hin : p.inflight = true) (hpid : p.packet.pid = .input)
    (hheld : p.held = false) (hlength : p.packet.actualLength = p.pktBuf.length) :
    Advances p [.received p.pktBuf last] (p.received last) := by
  refine advances_single fun w h ↦ ?_
  obtain ⟨hempty, hzero⟩ := h.sound.awaits_of hin hpid
  have hunread : (p.rx ++ p.pktBuf).drop p.rxPos = p.pktBuf := by
    rw [List.drop_append_of_le_length h.sound.readRoom, show p.rx.drop p.rxPos = [] from hempty, List.nil_append]
  have hflying : p.flying = some .input := by rw [Pipe.flying, hin, hpid]; rfl
  have hblank : (p.rxZlp || decide (p.packet.actualLength = 0)) = p.pktBuf.isEmpty := by
    rw [hzero, hlength, Bool.false_or, Bool.eq_iff_iff]
    simp
  refine ⟨_, if_pos ⟨h.flying.trans hflying, h.unread.trans hempty, h.zeroLength.trans hzero⟩, { h with
    unread := hunread.symm
    zeroLength := hblank.symm
    stopped := congrArg (· || last) h.stopped
    flying := rfl
    offered := nofun
    sound := { h.sound with
      readRoom := ?_
      awaits := nofun
      alone := fun hzlp ↦ ?_
      held := fun h ↦ nomatch hheld.symm.trans h
      sized := nofun } }⟩
  · exact h.sound.readRoom.trans (by rw [Pipe.received, List.length_append]; exact Nat.le_add_right _ _)
  · refine hunread.trans ?_
    exact List.isEmpty_iff.mp (hblank.symm.trans hzlp)

theorem advances_sent (bytes : List Byte) (hheld : p.held = false)
    (hfront : ∀ w, p.Seen w → w.lost = false → bytes <+: p.unsent) :
    Advances p [.sent bytes] (if (p.passed bytes.length).tx.length ≤ (p.passed bytes.length).txPos then
      (p.passed bytes.length).txClear else p.passed bytes.length) := by
  refine advances_single fun w h ↦ ?_
  have hdrop : p.unsent.drop bytes.length = p.tx.drop (p.txPos + bytes.length) := List.drop_drop
  have hrest (hlost : w.lost = false) : w.unsent.drop bytes.length = p.tx.drop (p.txPos + bytes.length) := by
    rw [h.unsent hlost, hdrop]
  refine ⟨_, if_pos ?_, ?_⟩
  · cases hlost : w.lost with
    | true => exact .inl rfl
    | false => exact .inr (h.unsent hlost ▸ hfront w h hlost)
  split_ifs with hend
  · have hnone : p.tx.drop (p.txPos + bytes.length) = [] := List.drop_of_length_le hend
    exact { h with
      flying := rfl
      unsent := fun hlost ↦ (hrest hlost).trans hnone
      ready := fun hlost ↦ by
        dsimp only at hlost ⊢
        rw [hrest hlost, hnone]
        simp [Pipe.txClear]
      offered := nofun
      sound := { h.sound with
        writeRoom := le_rfl
        awaits := nofun
        held := fun h ↦ nomatch hheld.symm.trans h
        sized := nofun } }
  · have hsome : p.tx.drop (p.txPos + bytes.length) ≠ [] := by
      rw [Ne, List.drop_eq_nil_iff]
      exact hend
    exact { h with
      flying := rfl
      unsent := hrest
      ready := fun hlost ↦ by
        dsimp only at hlost ⊢
        rw [hrest hlost, List.isEmpty_eq_false_iff.mpr hsome, h.ready hlost]
        exact Bool.and_true _
      offered := nofun
      sound := { h.sound with
        writeRoom := (not_le.mp hend).le
        awaits := nofun
        held := fun h ↦ nomatch hheld.symm.trans h
        sized := nofun } }

end Packets

namespace State

/-- What has been seen of a pipe. -/
def history (s : State) (nr : ℕ) : List Entry := s.log.filterMap fun e ↦ if e.1 = nr then some e.2 else none

def Tracks (s : State) : Prop := ∀ nr, ∃ w, watcher.run .idle (s.history nr) = some w ∧ (s.pipe nr).Seen w

theorem history_act (m : ℕ) : (s.act nr p entries).history m = s.history m ++ if nr = m then entries else [] := by
  rw [history, act, List.filterMap_append, List.filterMap_map]
  congr 1
  split_ifs with h
  · simp [h]
  · simp [h]

@[simp] theorem pipe_act : (s.act nr p entries).pipe nr = p := update_self _ _ _

theorem pipe_act_of_ne {m : ℕ} (h : m ≠ nr) : (s.act nr p entries).pipe m = s.pipe m := update_of_ne h _ _

theorem Tracks.act (h : s.Tracks) (hp : Advances (s.pipe nr) entries p) : (s.act nr p entries).Tracks := by
  intro m
  obtain ⟨w, hrun, hseen⟩ := h m
  rw [history_act]
  by_cases hm : nr = m
  · subst hm
    obtain ⟨w', hw', hp'⟩ := hp w hseen
    rw [if_pos rfl, pipe_act]
    exact ⟨w', (Observer.run_append_of hrun).trans hw', hp'⟩
  · rw [if_neg hm, List.append_nil, pipe_act_of_ne (Ne.symm hm)]
    exact ⟨w, hrun, hseen⟩

/-- The registers, the DMA channels and the interrupt line are not the watch's concern. -/
theorem Tracks.of_same {t : State} (h : s.Tracks) (hpipe : t.pipe = s.pipe) (hlog : t.log = s.log) : t.Tracks := by
  intro m
  rw [history, hlog, hpipe]
  exact h m

theorem Tracks.pipeStatus {reg : ℕ} (h : s.Tracks) : (s.pipeStatus reg nr).Tracks := h.of_same rfl rfl

theorem Tracks.raise1 {bits : Half} (h : s.Tracks) : (s.raise1 bits).Tracks := h.of_same rfl rfl

theorem tracks_initial (memory : ℕ → Byte) : (initial memory).Tracks := by
  intro m
  have hsound : Pipe.initial.Sound :=
    ⟨le_rfl, le_rfl, nofun, nofun, nofun, nofun⟩
  exact ⟨.idle, rfl, rfl, rfl, rfl, rfl, fun _ ↦ rfl, fun _ ↦ rfl, nofun, hsound⟩

end State

end Cdj2000Emulator.Usbh
