import Cdj2000Emulator.Usbh.Delivery

namespace Cdj2000Emulator.Usbh

open Function Library Library.Bytes

variable {s t u : State} {p : Pipe} {nr nr' fifo bps size : ℕ} {now : ℤ} {entries : List Entry} {answer : Answer}

def Pipe.cargo (p : Pipe) : Bool × Bool × Packet × List Byte × ℤ :=
    (p.inflight, p.held, p.packet, p.pktBuf, p.heldUntil)

def Event.Leaves (nr : ℕ) (due : ℤ) : Event → Prop
  | .timer now _ _ => now < due
  | .detach theirs | .childDetach theirs => theirs nr = false
  | .reset => False
  | _ => True

namespace State

section Bytes

theorem fifoRead_taken : s.fifoRead fifo size = (0, s) ∨ ∃ nr bytes, bytes = (s.pipe nr).unread.take size ∧
    (s.fifoRead fifo size).1 = value bytes ∧ (s.fifoRead fifo size).2.log = s.log ++ [(nr, .taken bytes)] := by
  unfold fifoRead
  split
  · exact .inl rfl
  · rename_i nr _
    by_cases hwrites : s.fifoWrites fifo nr = true
    · exact .inl (if_pos hwrites)
    · rw [if_neg hwrites]
      exact .inr ⟨nr, _, rfl, rfl, rfl⟩

theorem dmaDrain_taken (s : State) (fifo nr : ℕ) : s.dmaDrain fifo nr = s ∨
    ∃ bytes, bytes <+: (s.pipe nr).unread ∧
    (s.dmaDrain fifo nr).log = s.log ++ [(nr, .taken bytes)] ∧
    (s.dmaDrain fifo nr).memory = Store.write s.memory (s.dma fifo).memory bytes := by
  unfold dmaDrain
  dsimp only
  by_cases hnone : min (s.pipe nr).rxAvail (s.dma fifo).remaining = 0
  · exact .inl (if_neg (not_not.mpr hnone))
  · rw [if_pos hnone]
    exact .inr ⟨_, List.take_prefix _ _, rfl, rfl⟩

theorem dmaFill_queued (s : State) (now : ℤ) (fifo nr : ℕ) :
    s.dmaFill now fifo nr = s ∨ (s.dmaFill now fifo nr).memory = s.memory ∧
    (s.dmaFill now fifo nr).log =
      s.log ++ [(nr, .queued (Store.read s.memory (s.dma fifo).memory (s.dma fifo).remaining)), (nr, .valid)] := by
  unfold dmaFill
  dsimp only
  split_ifs
  · exact .inr ⟨rfl, rfl⟩
  · exact .inl rfl

theorem fifoWrite_queued {value : ℕ} : s.fifoWrite fifo value size = s ∨
    ∃ nr, (s.fifoWrite fifo value size).log = s.log ++ [(nr, .queued (little size value))] := by
  unfold fifoWrite
  split
  · exact .inl rfl
  · rename_i nr _
    by_cases hwrites : s.fifoWrites fifo nr = true
    · rw [if_neg (by rw [hwrites]; decide)]
      exact .inr ⟨nr, rfl⟩
    · rw [if_pos (by rwa [Bool.not_eq_true', ← Bool.not_eq_true])]
      exact .inl rfl

end Bytes

/-- No packet is touched. -/
def Carries (s t : State) : Prop := ∀ nr, (t.pipe nr).cargo = (s.pipe nr).cargo

theorem Carries.refl : Carries s s := fun _ ↦ rfl

theorem Carries.trans (h : Carries s t) (h' : Carries t u) : Carries s u := fun nr ↦ (h' nr).trans (h nr)

theorem carries_of_same (h : t.pipe = s.pipe) : Carries s t := fun nr ↦ by rw [h]

theorem Carries.ite {c : Prop} [Decidable c] (h : c → Carries s t) (h' : ¬c → Carries s u) :
    Carries s (if c then t else u) := by
  split_ifs with hc
  · exact h hc
  · exact h' hc

theorem carries_act (h : p.cargo = (s.pipe nr).cargo) : Carries s (s.act nr p entries) := by
  intro other
  by_cases same : other = nr
  · subst same
    rw [pipe_act, h]
  · exact congrArg Pipe.cargo (update_of_ne same _ _)

theorem cargo_ite {c : Prop} [Decidable c] {q : Pipe} (h : q.cargo = p.cargo) :
    (if c then q else p).cargo = p.cargo := by
  split_ifs
  · exact h
  · rfl

section Ports

theorem carries_dmaFill : Carries s (s.dmaFill now fifo nr) :=
  .ite (fun _ ↦ carries_act (s := s.dmaAdvance fifo (s.dma fifo).remaining) rfl) fun _ ↦ .refl

theorem carries_dmaDrain : Carries s (s.dmaDrain fifo nr) := by
  refine .ite (fun _ ↦ ?_) fun _ ↦ .refl
  refine carries_act (s := State.dmaAdvance { s with memory := _ } fifo _) ?_
  exact cargo_ite rfl

theorem carries_dmaService : Carries s (s.dmaService now fifo) := by
  refine .ite (fun _ ↦ .refl) fun _ ↦ ?_
  split
  · exact .refl
  · rename_i nr _
    have hmoved : Carries s (if (s.dma fifo).toFifo then s.dmaFill now fifo nr else s.dmaDrain fifo nr) :=
      .ite (fun _ ↦ carries_dmaFill) fun _ ↦ carries_dmaDrain
    exact .ite (fun _ ↦ hmoved.trans (carries_of_same rfl)) fun _ ↦ hmoved

theorem carries_dmaServiceAll : Carries s (s.dmaServiceAll now) := carries_dmaService.trans carries_dmaService

theorem carries_fifoRead : Carries s (s.fifoRead fifo size).2 := by
  unfold fifoRead
  split
  · exact .refl
  · dsimp only
    split_ifs
    · exact .refl
    · exact carries_act rfl
    · exact carries_act rfl

theorem carries_fifoWrite {value : ℕ} : Carries s (s.fifoWrite fifo value size) := by
  unfold fifoWrite
  split
  · exact .refl
  · exact .ite (fun _ ↦ .refl) fun _ ↦ carries_act rfl

theorem carries_fifoctrWrite {value : Half} : Carries s (s.fifoctrWrite fifo value) := by
  unfold fifoctrWrite
  split
  · exact .refl
  · refine .ite (fun _ ↦ ?_) fun _ ↦ .ite (fun _ ↦ carries_act rfl) fun _ ↦ .refl
    have hcleared : ∀ nr, Carries s
        (if value &&& 0x4000 ≠ 0 then s.act nr (s.pipe nr).txClear [.writeCleared] else s) :=
      fun nr ↦ .ite (fun _ ↦ carries_act rfl) fun _ ↦ .refl
    exact .ite (fun _ ↦ (hcleared _).trans (carries_act rfl)) fun _ ↦ hcleared _

theorem carries_requestSetup {value : Half} : Carries s (s.requestSetup value) := by
  have hrequest (t : State) (pending : Bool) (ctr : Half) :
      Carries t { t.act 0 { t.pipe 0 with ctr := ctr } [] with setupPending := pending } :=
    Carries.trans (t := t.act 0 { t.pipe 0 with ctr := ctr } []) (carries_act rfl) (carries_of_same rfl)
  have hasked : Carries s (if value &&& sureq ≠ 0 then
      { s.act 0 { s.pipe 0 with ctr := (s.pipe 0).ctr ||| sureq } [] with setupPending := true } else s) :=
    .ite (fun _ ↦ hrequest s true _) fun _ ↦ .refl
  exact .ite (fun _ ↦ hasked.trans (hrequest _ false _)) fun _ ↦ hasked

theorem carries_pipectrWrite {value : Half} : Carries s (s.pipectrWrite nr value) := by
  have hfirst : Carries s (if nr = 0 then s.requestSetup value
      else if value &&& 0x0200 ≠ 0 then s.act nr (s.pipe nr).rxClear.txClear [.readCleared, .writeCleared]
      else s) :=
    .ite (fun _ ↦ carries_requestSetup) fun _ ↦ .ite (fun _ ↦ carries_act rfl) fun _ ↦ .refl
  exact .ite (fun _ ↦ hfirst.trans (carries_act rfl)) fun _ ↦ hfirst.trans (carries_act rfl)

theorem carries_writeRegister {offset : ℕ} {value : Half} : Carries s (s.writeRegister offset value) := by
  unfold writeRegister
  split
  · exact .ite (fun _ ↦ carries_of_same rfl) fun _ ↦ carries_of_same rfl
  · exact .ite (fun _ ↦ carries_of_same rfl) fun _ ↦ carries_of_same rfl
  · exact carries_fifoctrWrite
  · exact carries_of_same rfl
  · exact carries_of_same rfl
  · exact carries_of_same rfl
  · exact carries_of_same rfl
  · exact carries_pipectrWrite
  · rename_i field _
    split
    · exact .refl
    · refine carries_act ?_
      cases field <;> rfl
  · exact .refl
  · exact carries_act rfl
  · refine carries_act ?_
    split_ifs <;> rfl
  · exact carries_of_same rfl

end Ports

section Packets

variable {pid : Token} {buffer : List Byte} {len : ℕ} {r : Reply}

def Spares (nr : ℕ) (s t : State) : Prop := (t.pipe nr).cargo = (s.pipe nr).cargo

theorem spares_act (h : nr ≠ nr') : Spares nr s (s.act nr' p entries) :=
  congrArg Pipe.cargo (update_of_ne h _ _)

theorem spares_of_update (h : nr ≠ nr') (ht : t.pipe = update s.pipe nr' p) : Spares nr s t := by
  rw [Spares, ht, update_of_ne h]

theorem Spares.ite {c : Prop} [Decidable c] (h : c → Spares nr s t) (h' : ¬c → Spares nr s u) :
    Spares nr s (if c then t else u) := by
  split_ifs with hc
  · exact h hc
  · exact h' hc

theorem carries_fail {status : Status} : Carries s (s.fail nr status) := by
  have hstalled : Carries s (s.act nr ((s.pipe nr).setPid pidStall) []) := carries_act rfl
  have hended : Carries s (s.act nr (({ s.pipe nr with retries := (s.pipe nr).retries + 1 } : Pipe).setPid pidNak)
      []) :=
    carries_act rfl
  cases status with
  | nak => exact .refl
  | stall => exact hstalled.trans (carries_of_same rfl)
  | success | error => exact .ite (fun _ ↦ carries_act rfl) fun _ ↦ hended.trans (carries_of_same rfl)

theorem spares_inFinish (h : nr ≠ nr') : Spares nr s (s.inFinish now nr') :=
  (carries_dmaServiceAll nr).trans (spares_of_update h rfl)

theorem spares_outFinish (h : nr ≠ nr') : Spares nr s (s.outFinish now nr') := by
  refine Spares.ite (fun _ ↦ ?_) fun _ ↦ spares_of_update h rfl
  exact (carries_dmaServiceAll nr).trans (Spares.ite (fun _ ↦ spares_of_update h rfl) fun _ ↦
    spares_of_update h rfl)

theorem spares_packetFinish (h : nr ≠ nr') : Spares nr s (s.packetFinish now nr') := by
  have hended (p : Pipe) : Spares nr s (s.act nr' p [.ended]) := spares_act h
  unfold packetFinish
  dsimp only
  split
  · exact hended _
  · exact hended _
  · exact spares_inFinish h
  · exact spares_outFinish h
  · exact (carries_fail nr).trans (hended _)

theorem spares_packetDone (h : nr ≠ nr') : Spares nr s (s.packetDone bps now nr') :=
  .ite (fun _ ↦ spares_act h) fun _ ↦ spares_packetFinish h

theorem spares_conclude (h : nr ≠ nr') : Spares nr s (s.conclude bps now nr' r) :=
  (spares_packetDone h).trans (spares_act h)

theorem spares_issue (h : nr ≠ nr') : Spares nr s (s.issue bps now nr' pid buffer len answer) := by
  have hdone (p : Pipe) : Spares nr s ((s.act nr' p []).packetDone bps now nr') :=
    (spares_packetDone h).trans (spares_act h)
  refine .ite (fun _ ↦ hdone _) fun _ ↦ ?_
  split
  · exact hdone _
  · exact .ite (fun _ ↦ hdone _) fun _ ↦ spares_act h
  · exact .ite (fun _ ↦ hdone _) fun _ ↦ (spares_conclude h).trans (spares_act h)

end Packets

section Held

variable {bytes : List Byte} {due : ℤ} {r : Reply}

/-- The pipe holds the bytes of an IN packet until they are due. -/
structure Holds (nr : ℕ) (bytes : List Byte) (due : ℤ) (s : State) : Prop where
  inflight : (s.pipe nr).inflight = true
  held : (s.pipe nr).held = true
  pid : (s.pipe nr).packet.pid = .input
  status : (s.pipe nr).packet.status = .success
  bytes : (s.pipe nr).pktBuf = bytes
  due : (s.pipe nr).heldUntil = due

theorem Holds.spares (h : s.Holds nr bytes due) (hs : Spares nr s t) : t.Holds nr bytes due := by
  obtain ⟨hinflight, hheld, hpacket, hbuf, huntil⟩ : (t.pipe nr).inflight = (s.pipe nr).inflight ∧
      (t.pipe nr).held = (s.pipe nr).held ∧ (t.pipe nr).packet = (s.pipe nr).packet ∧
      (t.pipe nr).pktBuf = (s.pipe nr).pktBuf ∧ (t.pipe nr).heldUntil = (s.pipe nr).heldUntil := by
    simpa only [Spares, Pipe.cargo, Prod.mk.injEq] using hs
  exact ⟨hinflight.trans h.inflight, hheld.trans h.held, hpacket ▸ h.pid, hpacket ▸ h.status, hbuf.trans h.bytes,
    huntil.trans h.due⟩

theorem Holds.ite {c : Prop} [Decidable c] (h : c → s.Holds nr bytes due) (h' : ¬c → t.Holds nr bytes due) :
    (if c then s else t).Holds nr bytes due := by
  split_ifs with hc
  · exact h hc
  · exact h' hc

theorem Holds.setup (h : s.Holds nr bytes due) : (s.setup bps now answer).Holds nr bytes due := by
  have hsame : State.Holds nr bytes due { s with setupPending := false } := h.spares rfl
  refine Holds.ite (fun _ ↦ hsame) fun hfree ↦ ?_
  have hother : nr ≠ 0 := by
    rintro rfl
    exact hfree h.inflight
  exact (hsame.spares (spares_act hother)).spares (spares_issue hother)

theorem Holds.releasePipe (h : s.Holds nr bytes due) (hearly : now < due) (nr' : ℕ) :
    (s.releasePipe now nr').Holds nr bytes due := by
  refine Holds.ite (fun hrelease ↦ ?_) fun _ ↦ h
  have hother : nr ≠ nr' := by
    rintro rfl
    exact absurd (h.due ▸ hrelease.2) (not_le.mpr hearly)
  exact (h.spares (spares_act hother)).spares (spares_packetFinish hother)

theorem Holds.runPipe (h : s.Holds nr bytes due) (nr' : ℕ) : (s.runPipe bps now answer nr').Holds nr bytes due := by
  refine Holds.ite (fun _ ↦ h) fun hidle ↦ ?_
  have hother : nr ≠ nr' := by
    rintro rfl
    exact hidle (.inl h.inflight)
  exact Holds.ite (fun _ ↦ Holds.ite (fun _ ↦ h) fun _ ↦ h.spares (spares_issue hother)) fun _ ↦
    Holds.ite (fun _ ↦ h) fun _ ↦ h.spares (spares_issue hother)

theorem Holds.foldl {f : State → ℕ → State} (hf : ∀ s nr', s.Holds nr bytes due →
    (f s nr').Holds nr bytes due)
    (nrs : List ℕ) (h : s.Holds nr bytes due) : (nrs.foldl f s).Holds nr bytes due := by
  induction nrs generalizing s with
  | nil => exact h
  | cons nr' nrs ih => exact ih (hf s nr' h)

theorem Holds.timer {answers : ℕ → Answer} (h : s.Holds nr bytes due) (hearly : now < due) :
    (s.timer bps now answer answers).Holds nr bytes due := by
  have hreleased : (s.releaseHeld now).Holds nr bytes due := h.foldl (fun _ nr' h ↦ h.releasePipe hearly nr') _
  have hsetup : (if (s.releaseHeld now).setupPending then (s.releaseHeld now).setup bps now answer
      else s.releaseHeld now).Holds nr bytes due :=
    Holds.ite (fun _ ↦ hreleased.setup) fun _ ↦ hreleased
  exact Holds.ite (fun _ ↦ h) fun _ ↦
    (hsetup.spares (carries_dmaServiceAll nr)).foldl (fun _ nr' h ↦ h.runPipe nr') _

theorem Holds.childDetach (h : s.Holds nr bytes due) {theirs : ℕ → Bool} (hours : theirs nr = false) :
    (s.childDetach theirs).Holds nr bytes due := by
  refine h.foldl (fun s nr' h ↦ Holds.ite (fun htheirs ↦ Holds.ite (fun _ ↦ ?_) fun _ ↦ h) fun _ ↦ h) _
  refine h.spares (spares_act ?_)
  rintro rfl
  rw [hours] at htheirs
  cases htheirs

theorem Holds.step {e : Event} (h : s.Holds nr bytes due) (he : e.Leaves nr due) :
    (s.step bps e).Holds nr bytes due := by
  cases e with
  | timer now setupAnswer answers => exact h.timer he
  | complete now nr' reply =>
    refine Holds.ite (fun hout ↦ h.spares (spares_conclude ?_)) fun _ ↦ h
    rintro rfl
    exact hout.2 h.held
  | read now offset size =>
    refine h.spares ?_
    change Spares nr s (s.read now offset size).2
    unfold State.read
    split
    · exact carries_fifoRead nr
    · rfl
  | write offset value size =>
    refine h.spares ?_
    change Spares nr s (s.write offset value size)
    unfold State.write
    split
    · exact carries_fifoWrite nr
    · exact carries_writeRegister nr
  | dmaStart now offset toFifo memory nrBytes channel =>
    exact Holds.spares (h.spares rfl) (carries_dmaService nr)
  | attach speed => exact Holds.ite (fun _ ↦ h.spares rfl) fun _ ↦ h.spares rfl
  | detach theirs => exact (h.childDetach he).spares rfl
  | childDetach theirs => exact h.childDetach he
  | wakeup => exact Holds.ite (fun _ ↦ h) fun _ ↦ h.spares rfl
  | reset => exact he.elim
  | stored memory => exact h.spares rfl

theorem Holds.run {events : List Event} (h : s.Holds nr bytes due) (he : ∀ e ∈ events, e.Leaves nr due) :
    (s.run bps events).Holds nr bytes due := by
  induction events generalizing s with
  | nil => exact h
  | cons e events ih =>
    exact ih (h.step (he e List.mem_cons_self)) fun e' he' ↦ he e' (List.mem_cons_of_mem _ he')

theorem dmaService_log (s : State) (now : ℤ) (fifo : ℕ) :
    ∃ rest, (s.dmaService now fifo).log = s.log ++ rest := by
  unfold dmaService
  by_cases hidle : (!(s.dma fifo).active || s.rd (sel fifo) &&& 0x1000 = 0) = true
  · rw [if_pos hidle]
    exact ⟨[], (List.append_nil _).symm⟩
  rw [if_neg hidle]
  split
  · exact ⟨[], (List.append_nil _).symm⟩
  · rename_i nr _
    obtain ⟨rest, hrest⟩ : ∃ rest,
        (if (s.dma fifo).toFifo then s.dmaFill now fifo nr else s.dmaDrain fifo nr).log = s.log ++ rest := by
      split_ifs
      · rcases dmaFill_queued s now fifo nr with hsame | ⟨-, hlog⟩
        · exact ⟨[], by rw [hsame, List.append_nil]⟩
        · exact ⟨_, hlog⟩
      · rcases dmaDrain_taken s fifo nr with hsame | ⟨bytes, -, hlog, -⟩
        · exact ⟨[], by rw [hsame, List.append_nil]⟩
        · exact ⟨_, hlog⟩
    have hfinish (t : State) : (if (t.dma fifo).remaining = 0 then t.dmaFinish fifo else t).log = t.log := by
      split_ifs <;> rfl
    exact ⟨rest, (hfinish _).trans hrest⟩

theorem dmaServiceAll_log (s : State) (now : ℤ) : ∃ rest, (s.dmaServiceAll now).log = s.log ++ rest := by
  obtain ⟨first, hfirst⟩ := dmaService_log s now 1
  obtain ⟨second, hsecond⟩ := dmaService_log (s.dmaService now 1) now 2
  exact ⟨first ++ second, by rw [dmaServiceAll, hsecond, hfirst, List.append_assoc]⟩

theorem inFinish_received (s : State) (now : ℤ) (nr : ℕ) : ∃ last rest,
    (s.inFinish now nr).log = s.log ++ (nr, .received (s.pipe nr).pktBuf last) :: rest := by
  unfold inFinish
  dsimp only
  generalize hlast : (_ || _ || _ : Bool) = last
  obtain ⟨rest, hrest⟩ := dmaServiceAll_log
    ((s.act nr _ [.received (s.pipe nr).pktBuf last]).pipeStatus rBrdysts nr) now
  exact ⟨last, rest, hrest.trans (List.append_assoc _ _ _)⟩

theorem Holds.released (h : s.Holds nr bytes due) (hdue : due ≤ now) : ∃ last rest,
    (s.releasePipe now nr).log = s.log ++ (nr, .received bytes last) :: rest := by
  have hrelease : s.releasePipe now nr = (s.act nr { s.pipe nr with held := false } []).inFinish now nr := by
    unfold State.releasePipe packetFinish
    rw [if_pos ⟨h.held, h.due.symm ▸ hdue⟩]
    dsimp only
    rw [pipe_act]
    dsimp only
    rw [h.pid, h.status]
  obtain ⟨last, rest, hlog⟩ := inFinish_received (s.act nr { s.pipe nr with held := false } []) now nr
  rw [pipe_act] at hlog
  refine ⟨last, rest, ?_⟩
  rw [hrelease, hlog, ← h.bytes]
  simp only [act, List.map_nil, List.append_nil]

theorem conclude_input (bps : ℕ) (now : ℤ) (hin : (s.pipe nr).inflight = true)
    (hpid : (s.pipe nr).packet.pid = .input)
    (hstatus : r.status = .success) :
    ((s.conclude bps now nr r).log = s.log ∧
      ∃ due, (s.conclude bps now nr r).Holds nr (r.bytes.take (s.pipe nr).packet.size) due) ∨
    ∃ last rest, (s.conclude bps now nr r).log =
      s.log ++ (nr, .received (r.bytes.take (s.pipe nr).packet.size) last) :: rest := by
  obtain ⟨q, hq⟩ : ∃ q, q = ({ s.pipe nr with
      pktBuf := r.bytes.take (s.pipe nr).packet.size
      packet := { (s.pipe nr).packet with
        status := r.status, actualLength := (r.bytes.take (s.pipe nr).packet.size).length } } : Pipe) := ⟨_, rfl⟩
  have hconclude : s.conclude bps now nr r = (s.act nr q []).packetDone bps now nr := by
    rw [hq]
    unfold conclude
    dsimp only
    split
    · rfl
    · rename_i hother
      exact absurd hpid hother
  have hbytes : q.pktBuf = r.bytes.take (s.pipe nr).packet.size := by rw [hq]
  have hinput : q.packet.pid = .input := by rw [hq]; exact hpid
  have hsuccess : q.packet.status = .success := by rw [hq]; exact hstatus
  have hflying : q.inflight = true := by rw [hq]; exact hin
  have hlog : (s.act nr q []).log = s.log := by simp only [act, List.map_nil, List.append_nil]
  rw [hconclude, packetDone, pipe_act]
  split_ifs
  · refine .inl ⟨by simp only [act, List.map_nil, List.append_nil], _, ⟨?_, ?_, ?_, ?_, ?_, rfl⟩⟩
    · rw [pipe_act]
      exact hflying
    · rw [pipe_act]
    · rw [pipe_act]
      exact hinput
    · rw [pipe_act]
      exact hsuccess
    · rw [pipe_act]
      exact hbytes
  · have hfinish : (s.act nr q []).packetFinish now nr = (s.act nr q []).inFinish now nr := by
      unfold packetFinish
      dsimp only
      rw [pipe_act, hinput, hsuccess]
    obtain ⟨last, rest, hreceived⟩ := inFinish_received (s.act nr q []) now nr
    rw [pipe_act, hbytes, hlog] at hreceived
    rw [hfinish]
    exact .inr ⟨last, rest, hreceived⟩

theorem outFinish_sent (s : State) (now : ℤ) (nr : ℕ) : ∃ rest, (s.outFinish now nr).log =
    s.log ++ (nr, .sent ((s.pipe nr).pktBuf.take (s.pipe nr).packet.actualLength)) :: rest := by
  have hserved (t : State) (hlog : t.log =
      s.log ++ [(nr, .sent ((s.pipe nr).pktBuf.take (s.pipe nr).packet.actualLength))]) :
      ∃ rest, (t.dmaServiceAll now).log =
        s.log ++ (nr, .sent ((s.pipe nr).pktBuf.take (s.pipe nr).packet.actualLength)) :: rest := by
    obtain ⟨rest, hrest⟩ := dmaServiceAll_log t now
    exact ⟨rest, by rw [hrest, hlog, List.append_assoc, List.singleton_append]⟩
  unfold outFinish
  dsimp only
  by_cases hend : ((s.pipe nr).passed (s.pipe nr).packet.actualLength).tx.length ≤
      ((s.pipe nr).passed (s.pipe nr).packet.actualLength).txPos
  · rw [if_pos hend]
    refine hserved _ ?_
    split_ifs <;> rfl
  · rw [if_neg hend]
    exact ⟨[], rfl⟩

theorem conclude_output (hpid : (s.pipe nr).packet.pid = .output) (hstatus : r.status = .success) : ∃ rest,
    (s.conclude bps now nr r).log =
      s.log ++ (nr, .sent ((s.pipe nr).pktBuf.take (min r.length (s.pipe nr).packet.size))) :: rest := by
  obtain ⟨q, hq⟩ : ∃ q, q = ({ s.pipe nr with
      packet := { (s.pipe nr).packet with
        status := r.status, actualLength := min r.length (s.pipe nr).packet.size } } : Pipe) := ⟨_, rfl⟩
  have hconclude : s.conclude bps now nr r = (s.act nr q []).packetDone bps now nr := by
    rw [hq]
    unfold conclude
    dsimp only
    split
    · rename_i hother
      rw [hpid] at hother
      cases hother
    · rfl
  have houtput : q.packet.pid = .output := by rw [hq]; exact hpid
  have hsuccess : q.packet.status = .success := by rw [hq]; exact hstatus
  have hfinish : (s.act nr q []).packetDone bps now nr = (s.act nr q []).outFinish now nr := by
    unfold packetDone packetFinish
    dsimp only
    rw [pipe_act, houtput, hsuccess]
    exact if_neg fun h ↦ absurd h.1 (by decide)
  obtain ⟨rest, hsent⟩ := outFinish_sent (s.act nr q []) now nr
  refine ⟨rest, ?_⟩
  rw [hconclude, hfinish, hsent, pipe_act, hq]
  simp only [act, List.map_nil, List.append_nil]

theorem received_of_reply (hin : (s.pipe nr).inflight = true) (hpid : (s.pipe nr).packet.pid = .input)
    (hstatus : r.status = .success) :
    (∃ last rest, (s.conclude bps now nr r).log =
      s.log ++ (nr, .received (r.bytes.take (s.pipe nr).packet.size) last) :: rest) ∨
    ∃ due, ∀ events, (∀ e ∈ events, e.Leaves nr due) → ∀ now', due ≤ now' → ∃ last rest,
      (((s.conclude bps now nr r).run bps events).releasePipe now' nr).log =
        ((s.conclude bps now nr r).run bps events).log ++
          (nr, .received (r.bytes.take (s.pipe nr).packet.size) last) :: rest := by
  rcases conclude_input bps now hin hpid hstatus with ⟨-, due, hholds⟩ | hreceived
  · exact .inr ⟨due, fun events hevents now' hdue ↦ (hholds.run hevents).released hdue⟩
  · exact .inl hreceived

end Held

end State

end Cdj2000Emulator.Usbh
