import Cdj2000Emulator.Usbh.Integrity

namespace Cdj2000Emulator.Usbh

open Function Library.Bytes Library.Monitor

variable {s t : State} {p q : Pipe} {nr fifo bps : ℕ} {now : ℤ} {entries : List Entry}

def Pipe.Permits (p : Pipe) (pid : Token) (buffer : List Byte) (len : ℕ) : Prop :=
  match pid with
  | .setup => True
  | .input => p.unread = [] ∧ p.rxZlp = false ∧ p.stopped = false
  | .output => p.txValid = true ∧ buffer <+: p.unsent ∧ len = buffer.length

/-- What the end of a packet relies on, where it succeeded. -/
structure Pipe.Over (p : Pipe) : Prop where
  inflight : p.inflight = true
  input : p.packet.pid = .input → p.packet.actualLength = p.pktBuf.length
  output : p.packet.pid = .output → p.packet.actualLength ≤ p.pktBuf.length

namespace State

theorem act_act {more : List Entry} : (s.act nr p entries).act nr q more = s.act nr q (entries ++ more) := by
  simp only [act, update_idem, List.append_assoc, List.map_append]

/-- A change that the watch does not look at. -/
theorem Tracks.act_core (h : s.Tracks) (hcore : p.core = (s.pipe nr).core) : (s.act nr p []).Tracks :=
  h.act (advances_core hcore)

theorem Tracks.ite {c : Prop} [Decidable c] (h : c → s.Tracks) (h' : ¬c → t.Tracks) :
    (if c then s else t).Tracks := by
  split_ifs with hc
  · exact h hc
  · exact h' hc

section Ports

theorem Tracks.dmaFill (h : s.Tracks) : (s.dmaFill now fifo nr).Tracks := by
  unfold State.dmaFill
  dsimp only
  split_ifs with hfree
  · have hfill := (advances_queued (p := s.pipe nr) (Library.Store.read s.memory (s.dma fifo).memory
      (s.dma fifo).remaining)).trans advances_valid
    exact Tracks.act (h.of_same rfl rfl) (hfill.of_core rfl)
  · exact h

theorem Tracks.dmaDrain (h : s.Tracks) : (s.dmaDrain fifo nr).Tracks := by
  unfold State.dmaDrain
  dsimp only
  split_ifs with hn hempty
  · have hdrained := advances_drained (p := s.pipe nr) (min_le_left _ (s.dma fifo).remaining) hn
    rw [if_pos hempty] at hdrained
    exact Tracks.act (h.of_same rfl rfl) hdrained
  · have hdrained := advances_drained (p := s.pipe nr) (min_le_left _ (s.dma fifo).remaining) hn
    rw [if_neg hempty] at hdrained
    exact Tracks.act (h.of_same rfl rfl) hdrained
  · exact h

theorem Tracks.dmaService (h : s.Tracks) : (s.dmaService now fifo).Tracks := by
  unfold State.dmaService
  refine .ite (fun _ ↦ h) fun _ ↦ ?_
  split
  · exact h
  · have hmoved : ∀ nr, (if (s.dma fifo).toFifo then s.dmaFill now fifo nr else s.dmaDrain fifo nr).Tracks :=
      fun nr ↦ .ite (fun _ ↦ h.dmaFill) fun _ ↦ h.dmaDrain
    exact .ite (fun _ ↦ (hmoved _).of_same rfl rfl) fun _ ↦ hmoved _

theorem Tracks.dmaServiceAll (h : s.Tracks) : (s.dmaServiceAll now).Tracks := h.dmaService.dmaService

theorem Tracks.dmaStart {offset memory nrBytes channel : ℕ} {toFifo : Bool} (h : s.Tracks) :
    (s.dmaStart now offset toFifo memory nrBytes channel).Tracks :=
  Tracks.dmaService (h.of_same rfl rfl)

theorem Tracks.fifoRead {size : ℕ} (h : s.Tracks) : (s.fifoRead fifo size).2.Tracks := by
  unfold State.fifoRead
  split
  · exact h
  · rename_i nr _
    split_ifs
    · exact h
    · have hlength : ((s.pipe nr).unread.take size).length = min size (s.pipe nr).rxAvail := by
        rw [List.length_take, Pipe.unread, List.length_drop]
        rfl
      have hread := advances_read (p := s.pipe nr) (hlength ▸ min_le_right _ _)
      rw [List.length_take, ← List.take_eq_take_min, ← List.length_take] at hread
      exact h.act hread

theorem Tracks.fifoWrite {value size : ℕ} (h : s.Tracks) : (s.fifoWrite fifo value size).Tracks := by
  unfold State.fifoWrite
  split
  · exact h
  · exact .ite (fun _ ↦ h) fun _ ↦ h.act (advances_queued _)

theorem Tracks.fifoctrWrite {value : Half} (h : s.Tracks) : (s.fifoctrWrite fifo value).Tracks := by
  unfold State.fifoctrWrite
  split
  · exact h
  · refine .ite (fun _ ↦ ?_) fun _ ↦ .ite (fun _ ↦ h.act advances_rxClear) fun _ ↦ h
    have hcleared : ∀ nr, (if value &&& 0x4000 ≠ 0 then s.act nr (s.pipe nr).txClear [.writeCleared]
        else s).Tracks :=
      fun nr ↦ .ite (fun _ ↦ h.act advances_txClear) fun _ ↦ h
    exact .ite (fun _ ↦ (hcleared _).act advances_valid) fun _ ↦ hcleared _

end Ports

section Packets

theorem Tracks.fail {status : Status} (h : s.Tracks) : (s.fail nr status).Tracks := by
  have hnak : (s.act nr ((({ s.pipe nr with retries := (s.pipe nr).retries + 1 } : Pipe)).setPid pidNak) []).Tracks :=
    h.act_core rfl
  cases status with
  | nak => exact h
  | stall =>
    refine Tracks.pipeStatus (h.act_core ?_)
    rfl
  | success | error =>
    refine .ite (fun _ ↦ h.act_core ?_) fun _ ↦ hnak.pipeStatus
    rfl

theorem core_setPid_ite {c : Prop} [Decidable c] {pid : Half} : (if c then p.setPid pid else p).core = p.core := by
  split_ifs <;> rfl

theorem Tracks.inFinish (h : s.Tracks) (hin : (s.pipe nr).inflight = true) (hpid : (s.pipe nr).packet.pid = .input)
    (hheld : (s.pipe nr).held = false) (hlength : (s.pipe nr).packet.actualLength = (s.pipe nr).pktBuf.length) :
    (s.inFinish now nr).Tracks :=
  Tracks.dmaServiceAll (Tracks.pipeStatus
    (h.act ((advances_received hin hpid hheld hlength).of_core core_setPid_ite)))

theorem tracks_outFinish {n : ℕ} (hn : (s.pipe nr).packet.actualLength = n)
    (h : (s.act nr (if ((s.pipe nr).passed n).tx.length ≤ ((s.pipe nr).passed n).txPos then
      ((s.pipe nr).passed n).txClear else (s.pipe nr).passed n) [.sent ((s.pipe nr).pktBuf.take n)]).Tracks) :
    (s.outFinish now nr).Tracks := by
  subst hn
  unfold State.outFinish
  dsimp only
  by_cases hend : ((s.pipe nr).passed (s.pipe nr).packet.actualLength).tx.length ≤
      ((s.pipe nr).passed (s.pipe nr).packet.actualLength).txPos
  · rw [if_pos hend] at h ⊢
    refine Tracks.dmaServiceAll (.ite (fun _ ↦ Tracks.pipeStatus ?_) fun _ ↦ ?_)
    · exact h.pipeStatus
    · exact h.pipeStatus
  · rw [if_neg hend] at h ⊢
    exact h

theorem Tracks.sound (h : s.Tracks) (nr : ℕ) : (s.pipe nr).Sound := by
  obtain ⟨_, _, hseen⟩ := h nr
  exact hseen.sound

theorem Tracks.packetFinish (h : s.Tracks) (hheld : (s.pipe nr).held = false)
    (hover : (s.pipe nr).packet.status = .success → (s.pipe nr).Over) : (s.packetFinish now nr).Tracks := by
  have hended : Advances (s.pipe nr) [.ended] { s.pipe nr with inflight := false } :=
    advances_ended.of_core (by simp only [Pipe.core, hheld])
  unfold State.packetFinish
  dsimp only
  split
  · exact Tracks.raise1 (h.act (hended.of_core rfl))
  · exact Tracks.raise1 (h.act (hended.of_core rfl))
  · rename_i hpid hstatus
    exact h.inFinish (hover hstatus).inflight hpid hheld ((hover hstatus).input hpid)
  · rename_i hpid hstatus
    have hout := hover hstatus
    have hlength : ((s.pipe nr).pktBuf.take (s.pipe nr).packet.actualLength).length =
        (s.pipe nr).packet.actualLength := by
      rw [List.length_take]
      exact min_eq_left (hout.output hpid)
    refine tracks_outFinish rfl (h.act ?_)
    have hsent := advances_sent ((s.pipe nr).pktBuf.take (s.pipe nr).packet.actualLength) hheld fun w hw hlost ↦
      (List.take_prefix _ _).trans (hw.offered hlost _ (by rw [Pipe.flying, hout.inflight, hpid]; rfl))
    rwa [hlength] at hsent
  · exact (h.act hended).fail

theorem Tracks.packetDone (h : s.Tracks) (hheld : (s.pipe nr).held = false)
    (hover : (s.pipe nr).packet.status = .success → (s.pipe nr).Over) : (s.packetDone bps now nr).Tracks := by
  unfold State.packetDone
  refine .ite (fun hhold ↦ ?_) fun _ ↦ h.packetFinish hheld hover
  obtain ⟨hpid, -, hstatus, -⟩ := hhold
  have hin := hover hstatus
  exact h.act (advances_held hin.inflight hpid hstatus (hin.input hpid) _)

theorem Tracks.conclude {r : Reply} (h : s.Tracks) (hin : (s.pipe nr).inflight = true)
    (hheld : (s.pipe nr).held = false) : (s.conclude bps now nr r).Tracks := by
  unfold State.conclude
  dsimp only
  split
  · rename_i hpid
    refine Tracks.packetDone (h.act (advances_data hheld hpid _ _)) ?_ fun _ ↦ ?_
    · rw [pipe_act]
      exact hheld
    · rw [pipe_act]
      exact ⟨hin, fun _ ↦ rfl, fun hout ↦ nomatch hpid.symm.trans hout⟩
  · rename_i hpid
    refine Tracks.packetDone (h.act (advances_answered hheld _ _)) ?_ fun _ ↦ ?_
    · rw [pipe_act]
      exact hheld
    · rw [pipe_act]
      refine ⟨hin, fun hinput ↦ (hpid hinput).elim, fun hout ↦ ?_⟩
      have hsize := (h.sound nr).sized hin hout
      dsimp only
      rw [← hsize]
      exact min_le_right _ _

section Issue

variable {pid : Token} {buffer : List Byte} {len : ℕ} {answer : Answer}

theorem Tracks.issue (h : s.Tracks) (hfree : (s.pipe nr).inflight = false) (hpid : (s.pipe nr).Permits pid buffer len) :
    (s.issue bps now nr pid buffer len answer).Tracks := by
  have hheld := held_of_free (h.sound nr) hfree
  have habsent : ((s.act nr { s.pipe nr with
      pktBuf := buffer, inflight := false, packet := { (s.pipe nr).packet with status := .error } } []).packetDone
      bps now nr).Tracks := by
    have hrefused := advances_idle hfree { (s.pipe nr).packet with status := .error } buffer
    refine Tracks.packetDone (h.act (hrefused.of_core ?_)) ?_ ?_
    · simp only [Pipe.core, hfree]
    · rw [pipe_act]
      exact hheld
    · rw [pipe_act]
      intro hsuccess
      exact absurd hsuccess (show Status.error ≠ .success by decide)
  have hskipped (hout : pid = .output) (hempty : len = 0) :
      ((s.act nr ((s.pipe nr).issued pid buffer len) []).packetDone bps now nr).Tracks := by
    subst hout hempty
    have hpipe : (s.act nr ((s.pipe nr).issued .output buffer 0) []).pipe nr = (s.pipe nr).issued .output buffer 0 :=
      pipe_act
    have hdone : (s.act nr ((s.pipe nr).issued .output buffer 0) []).packetDone bps now nr =
        (s.act nr ((s.pipe nr).issued .output buffer 0) []).outFinish now nr := by
      unfold State.packetDone State.packetFinish
      rw [hpipe]
      rfl
    have hsent := (advances_idle hfree ⟨.output, .success, 0, 0⟩ buffer).trans
      (advances_sent [] hheld fun _ _ _ ↦ List.nil_prefix)
    rw [hdone]
    refine tracks_outFinish (by rw [hpipe]) ?_
    rw [hpipe, act_act]
    exact h.act hsent
  have hissued : (s.act nr ((s.pipe nr).issued pid buffer len)
      (((s.pipe nr).issued pid buffer len).flying.toList.map .token)).Tracks := by
    cases pid with
    | setup => exact h.act (advances_setup hfree)
    | input => exact h.act (advances_input hfree hpid.1 hpid.2.1 hpid.2.2)
    | output => exact h.act (advances_output hfree hpid.1 hpid.2.1 hpid.2.2)
  unfold State.issue
  refine .ite (fun _ ↦ habsent) fun _ ↦ ?_
  split
  · exact habsent
  · exact .ite (fun hskip ↦ hskipped hskip.1 hskip.2.1) fun _ ↦ hissued
  · refine .ite (fun hskip ↦ hskipped hskip.1 hskip.2.1) fun _ ↦ hissued.conclude ?_ ?_
    · rw [pipe_act]
      rfl
    · rw [pipe_act]
      exact hheld

end Issue

end Packets

section Timer

variable {answer : Answer}

theorem Tracks.setup (h : s.Tracks) : (s.setup bps now answer).Tracks := by
  unfold State.setup
  refine .ite (fun _ ↦ h.of_same rfl rfl) fun hfree ↦ ?_
  rw [Bool.not_eq_true] at hfree
  have hcleared : Advances (s.pipe 0) [.rearmed, .readCleared]
      ({ s.pipe 0 with inTotal := 0, stopped := false } : Pipe).rxClear :=
    (advances_rearmed.trans advances_rxClear).of_core rfl
  refine Tracks.issue (Tracks.act (h.of_same rfl rfl) hcleared) ?_ trivial
  rw [pipe_act]
  exact hfree

theorem Tracks.releasePipe (h : s.Tracks) : (s.releasePipe now nr).Tracks := by
  unfold State.releasePipe
  refine .ite (fun hdue ↦ ?_) fun _ ↦ h
  obtain ⟨hin, hpid, -, hlength⟩ := (h.sound nr).held hdue.1
  refine Tracks.packetFinish (h.act advances_released) ?_ fun _ ↦ ?_
  · rw [pipe_act]
  · rw [pipe_act]
    exact ⟨hin, fun _ ↦ hlength, fun hout ↦ nomatch hpid.symm.trans hout⟩

/-- A loop over the pipes keeps what each round keeps. -/
theorem Tracks.foldl {f : State → ℕ → State} (hf : ∀ s nr, s.Tracks → (f s nr).Tracks) (nrs : List ℕ)
    (h : s.Tracks) :
    (nrs.foldl f s).Tracks := by
  induction nrs generalizing s with
  | nil => exact h
  | cons nr nrs ih => exact ih (hf s nr h)

theorem Tracks.runPipe (h : s.Tracks) : (s.runPipe bps now answer nr).Tracks := by
  unfold State.runPipe
  refine .ite (fun _ ↦ h) fun hidle ↦ ?_
  rw [not_or, Bool.not_eq_true] at hidle
  refine .ite (fun _ ↦ .ite (fun _ ↦ h) fun hvalid ↦ ?_) fun _ ↦ .ite (fun _ ↦ h) fun hempty ↦ ?_
  · rw [not_or, Bool.not_eq_true, Bool.not_eq_false'] at hvalid
    refine h.issue hidle.1 ⟨hvalid.1, List.take_prefix _ _, ?_⟩
    rw [List.length_take, List.length_drop]
    exact (min_eq_left ((min_le_left _ _).trans (min_le_left _ _))).symm
  · rw [not_or, not_or, not_not, Bool.not_eq_true, Bool.not_eq_true] at hempty
    refine h.issue hidle.1 ⟨?_, hempty.2.2, hempty.1⟩
    exact List.drop_of_length_le (Nat.sub_eq_zero_iff_le.mp hempty.2.1)

theorem Tracks.timer {answers : ℕ → Answer} (h : s.Tracks) : (s.timer bps now answer answers).Tracks := by
  unfold State.timer
  have hreleased : (s.releaseHeld now).Tracks := h.foldl (fun _ _ h ↦ h.releasePipe) _
  refine .ite (fun _ ↦ h) fun _ ↦ Tracks.foldl (fun _ _ h ↦ h.runPipe) _ (Tracks.dmaServiceAll ?_)
  exact .ite (fun _ ↦ hreleased.setup) fun _ ↦ hreleased

end Timer

section Port

variable {theirs : ℕ → Bool}

theorem Tracks.attach {speed : Speed} (h : s.Tracks) : (s.attach speed).Tracks :=
  .ite (fun _ ↦ h.of_same rfl rfl) fun _ ↦ h.of_same rfl rfl

theorem Tracks.cancelPipe (h : s.Tracks) : (s.cancelPipe nr).Tracks :=
  .ite (fun _ ↦ h.act advances_ended) fun _ ↦ h

theorem Tracks.childDetach (h : s.Tracks) (theirs : ℕ → Bool) : (s.childDetach theirs).Tracks :=
  h.foldl (fun _ _ h ↦ .ite (fun _ ↦ h.cancelPipe) fun _ ↦ h) _

theorem Tracks.detach (h : s.Tracks) : (s.detach theirs).Tracks := Tracks.of_same (h.childDetach theirs) rfl rfl

theorem Tracks.wakeup (h : s.Tracks) : s.wakeup.Tracks := .ite (fun _ ↦ h) fun _ ↦ h.raise1

theorem Tracks.resetPipe (h : s.Tracks) : (s.resetPipe nr).Tracks := by
  have hclear {q : Pipe} : Advances q [.rearmed, .readCleared, .writeCleared]
      (({ q with stopped := false } : Pipe).rxClear.txClear) :=
    (advances_rearmed.trans advances_rxClear).trans advances_txClear
  unfold State.resetPipe
  refine h.act ?_
  cases hheld : (s.pipe nr).held with
  | true =>
    refine (advances_ended.trans hclear).of_core ?_
    simp only [Pipe.core, Pipe.rxClear, Pipe.txClear, Bool.not_true, Bool.and_false]
  | false =>
    refine hclear.of_core ?_
    simp only [Pipe.core, Pipe.rxClear, Pipe.txClear, hheld, Bool.not_false, Bool.and_true]

theorem Tracks.reset (h : s.Tracks) : s.reset.Tracks := by
  have hpipes : ((List.range nrPipes).foldl (fun t nr ↦ State.resetPipe nr t) { s with reg := fun _ ↦ 0 }).Tracks :=
    Tracks.foldl (fun _ _ h ↦ h.resetPipe) _ (h.of_same rfl rfl)
  exact hpipes.of_same rfl rfl

end Port

section Registers

variable {offset : ℕ} {value : Half}

theorem Tracks.requestSetup (h : s.Tracks) : (s.requestSetup value).Tracks := by
  have hrequest {t : State} (ht : t.Tracks) (pending : Bool) (ctr : Half) :
      State.Tracks { t.act 0 { t.pipe 0 with ctr := ctr } [] with setupPending := pending } := by
    have hctr : (t.act 0 { t.pipe 0 with ctr := ctr } []).Tracks := ht.act_core rfl
    exact hctr.of_same rfl rfl
  have hasked : (if value &&& sureq ≠ 0 then
      { s.act 0 { s.pipe 0 with ctr := (s.pipe 0).ctr ||| sureq } [] with setupPending := true } else s).Tracks :=
    .ite (fun _ ↦ hrequest h true _) fun _ ↦ h
  exact .ite (fun _ ↦ hrequest hasked false _) fun _ ↦ hasked

theorem Tracks.pipectrWrite (h : s.Tracks) : (s.pipectrWrite nr value).Tracks := by
  have hfirst : (if nr = 0 then s.requestSetup value
      else if value &&& 0x0200 ≠ 0 then s.act nr (s.pipe nr).rxClear.txClear [.readCleared, .writeCleared]
      else s).Tracks :=
    .ite (fun _ ↦ h.requestSetup) fun _ ↦ .ite (fun _ ↦ h.act (advances_rxClear.trans advances_txClear)) fun _ ↦
      h
  refine .ite (fun _ ↦ hfirst.act (advances_rearmed.of_core ?_)) fun _ ↦ hfirst.act_core ?_
  · rfl
  · rfl

theorem Tracks.writeRegister (h : s.Tracks) : (s.writeRegister offset value).Tracks := by
  unfold State.writeRegister
  split
  · exact .ite (fun _ ↦ Tracks.raise1 (h.of_same rfl rfl)) fun _ ↦ h.of_same rfl rfl
  · exact .ite (fun _ ↦ h.of_same rfl rfl) fun _ ↦ h.of_same rfl rfl
  · exact h.fifoctrWrite
  · exact h.of_same rfl rfl
  · exact h.of_same rfl rfl
  · exact h.of_same rfl rfl
  · exact h.of_same rfl rfl
  · exact h.pipectrWrite
  · rename_i field _
    split
    · exact h
    · refine h.act_core ?_
      cases field <;> rfl
  · exact h
  · refine h.act_core ?_
    rfl
  · refine h.act_core ?_
    split_ifs <;> rfl
  · exact h.of_same rfl rfl

theorem Tracks.write {size value : ℕ} (h : s.Tracks) : (s.write offset value size).Tracks := by
  unfold State.write
  split
  · exact h.fifoWrite
  · exact h.writeRegister

theorem Tracks.read {size : ℕ} (h : s.Tracks) : (s.read now offset size).2.Tracks := by
  unfold State.read
  split
  · exact h.fifoRead
  · exact h

end Registers

theorem Tracks.step (h : s.Tracks) (e : Event) : (s.step bps e).Tracks := by
  cases e with
  | timer now setupAnswer answers => exact h.timer
  | complete now nr reply =>
    refine .ite (fun hout ↦ h.conclude hout.1 ?_) fun _ ↦ h
    simpa using hout.2
  | read now offset size => exact h.read
  | write offset value size => exact h.write
  | dmaStart now offset toFifo memory nrBytes channel => exact h.dmaStart
  | attach speed => exact h.attach
  | detach theirs => exact h.detach
  | childDetach theirs => exact h.childDetach theirs
  | wakeup => exact h.wakeup
  | reset => exact h.reset
  | stored memory => exact h.of_same rfl rfl

theorem Tracks.run (h : s.Tracks) (events : List Event) : (s.run bps events).Tracks := by
  induction events generalizing s with
  | nil => exact h
  | cons e events ih => exact ih (h.step e)

section Runs

variable (memory : ℕ → Byte) (bps : ℕ) (events : List Event) (nr : ℕ)

theorem tracks_run : ((initial memory).run bps events).Tracks := (tracks_initial memory).run events

/-- Whatever the order of timer, device, guest and DMA: what the readers of a pipe were given since
its buffer was last cleared, and then what is still in the buffer, are the bytes of the IN packets
in the order in which they came. -/
theorem received_in_order :
    handed (((initial memory).run bps events).history nr) ++ (((initial memory).run bps events).pipe nr).unread =
      arrived (((initial memory).run bps events).history nr) := by
  obtain ⟨w, hrun, hseen⟩ := tracks_run memory bps events nr
  rw [← hseen.unread]
  exact (Watch.tells_of_run hrun).read

/-- What went out on the bus since the transmit buffer was last cleared, and then what is still in
it, are the bytes written to it in their order, unless that clear fell under a packet. -/
theorem sent_in_order : CutShort (((initial memory).run bps events).history nr) ∨
    sent (((initial memory).run bps events).history nr) ++ (((initial memory).run bps events).pipe nr).unsent =
      written (((initial memory).run bps events).history nr) := by
  obtain ⟨w, hrun, hseen⟩ := tracks_run memory bps events nr
  have htells := Watch.tells_of_run hrun
  cases hlost : w.lost with
  | true => exact .inl (htells.lost hlost)
  | false => exact .inr (hseen.unsent hlost ▸ htells.write hlost)

/-- A pipe asks for data only when no packet is out, every byte that came has been read, no packet
without data waits, and the pipe has been armed since it last stopped by itself. -/
theorem asks_when_empty (before after : List Entry)
    (h : ((initial memory).run bps events).history nr = before ++ .token .input :: after) :
    inFlight before = none ∧ handed before = arrived before ∧ zeroLengthUnread before = false ∧
      stoppedItself before = false := by
  obtain ⟨w, hrun, -⟩ := tracks_run memory bps events nr
  rw [h, Observer.run_append] at hrun
  obtain ⟨v, hbefore, hafter⟩ := Option.bind_eq_some_iff.mp hrun
  obtain ⟨v', htoken, -⟩ := Option.bind_eq_some_iff.mp hafter
  obtain ⟨⟨hfree, hempty, hzero, hgoing⟩, -⟩ := Option.ite_none_right_eq_some.mp htoken
  have htells := Watch.tells_of_run hbefore
  have hread := htells.read
  rw [hempty, List.append_nil] at hread
  exact ⟨htells.flying.symm.trans hfree, hread, htells.zeroLength.symm.trans hzero,
    htells.stopped.symm.trans hgoing⟩

/-- A device on pipe 1 that answers the same to every packet. -/
def answering (answer : Answer) (nr : ℕ) : Answer := if nr = 1 then answer else .absent

/-- Two bytes come in, the guest reads them and arms the pipe again. -/
def session : List Event :=
  [.attach .full, .write 0x00 0x0441 2, .write 0x20 0x0001 2, .write 0x70 0x0001 2,
    .timer 0 .absent (answering (.now ⟨.success, [5, 6], 0⟩)), .read 0 0x14 2, .write 0x70 0x0001 2,
    .timer 1000000 .absent (answering .later)]

theorem asks_when_empty_session :
    inFlight [.rearmed, .token .input, .received [5, 6] true, .taken [5, 6], .rearmed] = none ∧
      handed [.rearmed, .token .input, .received [5, 6] true, .taken [5, 6], .rearmed] =
        arrived [.rearmed, .token .input, .received [5, 6] true, .taken [5, 6], .rearmed] ∧
      zeroLengthUnread [.rearmed, .token .input, .received [5, 6] true, .taken [5, 6], .rearmed] = false ∧
      stoppedItself [.rearmed, .token .input, .received [5, 6] true, .taken [5, 6], .rearmed] = false :=
  asks_when_empty (fun _ ↦ 0) 0 session 1 _ [] (by decide +kernel)

end Runs

end State

end Cdj2000Emulator.Usbh
