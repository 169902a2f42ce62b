import Cdj2000Emulator.Spi.Words

namespace Cdj2000Emulator.Spi

open Function Library

namespace Port

variable {s t u : Port}

/-- On the way from `s` to `t` the first of the pending words are latched, in their order. -/
def Latches (s t : Port) : Prop :=
  ∃ latched, s.pending = latched ++ t.pending ∧ t.dac = latched.foldl Wm8740.latch s.dac

theorem Latches.of_eq (hpending : t.pending = s.pending) (hdac : t.dac = s.dac) : Latches s t :=
  ⟨[], hpending.symm, hdac⟩

theorem Latches.trans (h : Latches s t) (h' : Latches t u) : Latches s u := by
  obtain ⟨first, hpending, hdac⟩ := h
  obtain ⟨rest, hpending', hdac'⟩ := h'
  refine ⟨first ++ rest, ?_, ?_⟩
  · rw [hpending, hpending', List.append_assoc]
  · rw [hdac', hdac, List.foldl_append]

/-- A word is latched when its chip select ends, and at no other end of a phase. -/
theorem Good.finish_latches (h : s.Good) (hleft : s.transfer.halfTicksRemaining ≠ 0) :
    Latches s s.finishPhase.2 := by
  rcases h.phase_cases hleft with hphase | hphase | hphase | hphase
  · rw [finishPhase_c2t hphase]
    refine Latches.of_eq ?_ rfl
    rw [pending_of_shifting (by decide : c2t ≤ shift ∧ shift ≤ t2c),
      pending_of_shifting (by rw [hphase]; decide)]
    rfl
  · rw [finishPhase_shift hphase]
    refine Latches.of_eq ?_ rfl
    rw [pending_of_shifting (by decide : c2t ≤ t2c ∧ t2c ≤ t2c),
      pending_of_shifting (by rw [hphase]; decide)]
    rfl
  · rw [finishPhase_t2c h hphase]
    refine ⟨[s.transfer.activeControl.setWidth 16], ?_, rfl⟩
    rw [pending_of_shifting (by rw [hphase]; decide), List.singleton_append,
      pending_of_not (by decide : ¬(c2t ≤ gap ∧ gap ≤ t2c))]
    rfl
  · rw [finishPhase_gap hphase]
    have hnone : s.pending = s.behind := pending_of_not (by rw [hphase]; decide)
    by_cases hqueued : s.transfer.queuedValid = 0
    · rw [finishGap_empty hqueued]
      refine Latches.of_eq ?_ rfl
      rw [pending_of_not (by decide : ¬(c2t ≤ idle ∧ idle ≤ t2c)), hnone]
      rfl
    · rw [finishGap_queued h hqueued]
      refine Latches.of_eq ?_ rfl
      rw [pending_of_shifting (by decide : c2t ≤ c2t ∧ c2t ≤ t2c), hnone, behind_of_queued hqueued,
        behind_of_empty rfl]

theorem Good.tick_latches (h : s.Good) : Latches s (countdown.tick s) := by
  rw [Countdown.tick]
  split_ifs with hzero hmore
  · exact Latches.of_eq rfl rfl
  · exact Latches.of_eq rfl rfl
  · exact h.finish_latches hzero

theorem Good.ticks (h : s.Good) (n : ℕ) :
    (countdown.tick^[n] s).Good ∧ Latches s (countdown.tick^[n] s) := by
  induction n with
  | zero => exact ⟨h, Latches.of_eq rfl rfl⟩
  | succ n ih =>
    rw [iterate_succ_apply']
    exact ⟨steady.tick ih.1, ih.2.trans ih.1.tick_latches⟩

theorem Good.advance_eq (h : s.Good) (n : ℕ) : s.advance n = (true, countdown.tick^[n] s) := by
  rw [(advance_good h n).1, steady.elapse_eq (Nat.le_refl n)]

section Time

def busy (s : Port) : ℕ :=
  s.transfer.halfTicksRemaining +
    ((if s.transfer.phase = c2t then 810 else if s.transfer.phase = shift then 35
      else if s.transfer.phase = t2c then 4 else 0) +
    if s.transfer.queuedValid ≠ 0 then 818 else 0)

theorem busy_c2t (h : s.transfer.phase = c2t) : s.busy =
    s.transfer.halfTicksRemaining + (810 + if s.transfer.queuedValid ≠ 0 then 818 else 0) := by
  rw [busy, if_pos h]

theorem busy_shift (h : s.transfer.phase = shift) : s.busy =
    s.transfer.halfTicksRemaining + (35 + if s.transfer.queuedValid ≠ 0 then 818 else 0) := by
  rw [busy, if_neg (by rw [h]; decide), if_pos h]

theorem busy_t2c (h : s.transfer.phase = t2c) : s.busy =
    s.transfer.halfTicksRemaining + (4 + if s.transfer.queuedValid ≠ 0 then 818 else 0) := by
  rw [busy, if_neg (by rw [h]; decide), if_neg (by rw [h]; decide), if_pos h]

theorem busy_of_not (h : ¬(c2t ≤ s.transfer.phase ∧ s.transfer.phase ≤ t2c)) : s.busy =
    s.transfer.halfTicksRemaining + (0 + if s.transfer.queuedValid ≠ 0 then 818 else 0) := by
  have hc2t : s.transfer.phase ≠ c2t := fun hphase ↦ h (by rw [hphase]; decide)
  have hshift : s.transfer.phase ≠ shift := fun hphase ↦ h (by rw [hphase]; decide)
  have ht2c : s.transfer.phase ≠ t2c := fun hphase ↦ h (by rw [hphase]; decide)
  rw [busy, if_neg hc2t, if_neg hshift, if_neg ht2c]

theorem Good.finish_busy (h : s.Good) (hleft : s.transfer.halfTicksRemaining = 1) :
    s.finishPhase.2.busy = s.busy - 1 := by
  have hne : s.transfer.halfTicksRemaining ≠ 0 := by omega
  rcases h.phase_cases hne with hphase | hphase | hphase | hphase
  · obtain ⟨-, -, hformat, -⟩ := h.shifting (Or.inl hphase)
    rw [finishPhase_c2t hphase, busy_shift rfl, busy_c2t hphase, hleft, hformat]
    simp only [strict_half_ticks.1]
    omega
  · obtain ⟨-, -, hformat, hdelay⟩ := h.shifting (Or.inr (Or.inl hphase))
    rw [finishPhase_shift hphase, busy_t2c rfl, busy_shift hphase, hleft, hformat, hdelay]
    simp only [strict_half_ticks.2.2]
    omega
  · rw [finishPhase_t2c h hphase, busy_of_not (by decide : ¬(c2t ≤ gap ∧ gap ≤ t2c)), busy_t2c hphase,
      hleft]
    dsimp only
    omega
  · have hnow := busy_of_not (s := s) (by rw [hphase]; decide)
    rw [finishPhase_gap hphase, hnow, hleft]
    by_cases hqueued : s.transfer.queuedValid = 0
    · rw [finishGap_empty hqueued, busy_of_not (by decide : ¬(c2t ≤ idle ∧ idle ≤ t2c))]
      simp [hqueued]
    · rw [finishGap_queued h hqueued, busy_c2t rfl, if_pos hqueued]
      rfl

theorem Good.tick_busy (h : s.Good) : (countdown.tick s).busy = s.busy - 1 := by
  rw [Countdown.tick]
  split_ifs with hzero hmore
  · have hidle : s.transfer.phase = idle := by
      by_contra hphase
      exact h.transfer.remaining.mp hphase hzero
    have hqueued : s.transfer.queuedValid = 0 := by
      by_contra hsome
      exact h.transfer.behind hsome hidle
    have hleft : s.transfer.halfTicksRemaining = 0 := hzero
    rw [busy_of_not (by rw [hidle]; decide), if_neg (not_not_intro hqueued), hleft]
  · exact (Nat.sub_add_comm (Nat.le_of_lt hmore)).symm
  · have hleft : s.transfer.halfTicksRemaining = 1 := by
      have : s.transfer.halfTicksRemaining ≠ 0 := hzero
      have : ¬1 < s.transfer.halfTicksRemaining := hmore
      omega
    exact h.finish_busy hleft

theorem Good.ticks_busy (h : s.Good) (n : ℕ) : (countdown.tick^[n] s).busy = s.busy - n := by
  induction n with
  | zero => rfl
  | succ n ih =>
    rw [iterate_succ_apply', (h.ticks n).1.tick_busy, ih, Nat.sub_sub]

theorem Good.pending_of_busy (h : s.Good) (hbusy : s.busy = 0) : s.pending = [] := by
  have hleft : s.transfer.halfTicksRemaining = 0 := by
    rw [busy] at hbusy
    omega
  have hidle : s.transfer.phase = idle := by
    by_contra hphase
    exact h.transfer.remaining.mp hphase hleft
  rw [pending_of_not (by rw [hidle]; decide)]
  by_cases hqueued : s.transfer.queuedValid = 0
  · exact behind_of_empty hqueued
  · exact absurd hidle (h.transfer.behind hqueued)

/-- A word has to wait for one other at most. -/
theorem Good.advance_pending (h : s.Good) {n : ℕ} (hn : s.transfer.halfTicksRemaining + 1628 ≤ n) :
    (s.advance n).2.pending = [] := by
  have hbusy : s.busy ≤ s.transfer.halfTicksRemaining + 1628 := by
    rw [busy]
    split_ifs <;> omega
  rw [h.advance_eq]
  apply (h.ticks n).1.pending_of_busy
  rw [h.ticks_busy]
  omega

end Time

end Port

/-- What the guest and its clock do to the port. -/
inductive Action
  | write (address value size : ℕ) (commit : Bool)
  | read (address : ℕ)
  | setPins (valid value : Word)
  | advance (halfTicks : ℕ)

namespace Action

def step : Action → Port → Port
  | write address value size commit, s => (s.writeTimed address value size commit).2
  | read address, s => (s.readTimed address).2
  | setPins valid value, s => { s with spi := s.spi.setPins valid value }
  | advance halfTicks, s => (s.advance halfTicks).2

end Action

/-- A port, and the words that it took and did not discard. -/
structure History where
  port : Port
  kept : List Half

namespace History

/-- A write that resets the port or disables its master discards the words under way. -/
def record (h : History) : Action → History
  | .write address value size commit =>
    { port := (Action.write address value size commit).step h.port
      kept := (if Port.Drops address value size commit h.port
        then h.kept.take (h.kept.length - h.port.pending.length) else h.kept) ++
          Port.taken address value size commit h.port }
  | act => { h with port := act.step h.port }

def run (acts : List Action) (s : Port) : History := acts.foldl record ⟨s, s.pending⟩

/-- The words that are not under way any more are latched, in the order in which they were taken. -/
def Latched (dac : Wm8740) (h : History) : Prop :=
  ∃ latched, h.kept = latched ++ h.port.pending ∧ h.port.dac = latched.foldl Wm8740.latch dac

variable {h : History} {dac : Wm8740}

theorem Latched.of_latches (hlatched : h.Latched dac) {t : Port} (ht : h.port.Latches t) :
    Latched dac { h with port := t } := by
  obtain ⟨first, hkept, hdac⟩ := hlatched
  obtain ⟨rest, hpending, hdac'⟩ := ht
  refine ⟨first ++ rest, ?_, ?_⟩
  · rw [hkept, hpending, List.append_assoc]
  · rw [hdac', hdac, List.foldl_append]

theorem readTimed_eq (s : Port) (address : ℕ) :
    ∃ spi, (s.readTimed address).2 = { s with spi := spi } := by
  rw [Port.readTimed]
  by_cases hrefuse : ¬TimedMapped address ∨ ¬s.transfer.Valid ∨ s.transfer.fault ≠ 0 ∨ address % 4 ≠ 0
  · rw [if_pos hrefuse]
    exact ⟨s.spi, rfl⟩
  · rw [if_neg hrefuse]
    cases s.spi.read (address - spi1Base) with
    | none => exact ⟨s.spi, rfl⟩
    | some result => exact ⟨result.2, rfl⟩

theorem Latched.record (hlatched : h.Latched dac) (hgood : h.port.Good) (act : Action) :
    (h.record act).port.Good ∧ (h.record act).Latched dac := by
  cases act with
  | write address value size commit =>
    obtain ⟨hwritten, hsame, hpending⟩ := hgood.write address value size commit
    obtain ⟨latched, hkept, hdac⟩ := hlatched
    refine ⟨hwritten, latched, ?_, hsame.trans hdac⟩
    change _ ++ _ = latched ++ (h.port.writeTimed address value size commit).2.pending
    rw [hpending, ← List.append_assoc, hkept]
    congr 1
    split_ifs
    · rw [List.length_append, Nat.add_sub_cancel, List.take_left, List.append_nil]
    · rfl
  | read address =>
    obtain ⟨spi, hread⟩ := readTimed_eq h.port address
    have hsame : h.record (.read address) = { h with port := { h.port with spi := spi } } :=
      congrArg (History.mk · h.kept) hread
    rw [hsame]
    exact ⟨hgood.of_spi spi, hlatched.of_latches (Port.Latches.of_eq rfl rfl)⟩
  | setPins valid value =>
    exact ⟨hgood.of_spi _, hlatched.of_latches (Port.Latches.of_eq rfl rfl)⟩
  | advance halfTicks =>
    have hnext : h.record (.advance halfTicks) =
        { h with port := Port.countdown.tick^[halfTicks] h.port } :=
      congrArg (fun result : Bool × Port ↦ History.mk result.2 h.kept) (hgood.advance_eq halfTicks)
    rw [hnext]
    exact ⟨(hgood.ticks halfTicks).1, hlatched.of_latches (hgood.ticks halfTicks).2⟩

theorem Latched.foldl (hlatched : h.Latched dac) (hgood : h.port.Good) (acts : List Action) :
    (acts.foldl History.record h).port.Good ∧ (acts.foldl History.record h).Latched dac := by
  induction acts generalizing h with
  | nil => exact ⟨hgood, hlatched⟩
  | cons act acts ih =>
    obtain ⟨hgood', hlatched'⟩ := hlatched.record hgood act
    exact ih hlatched' hgood'

theorem record_fault (hvalid : h.port.transfer.Valid) (hfault : h.port.transfer.fault ≠ 0)
    (act : Action) : ∃ spi, h.record act = { h with port := { h.port with spi := spi } } := by
  cases act with
  | write address value size commit =>
    have hrefused : h.port.writeTimed address value size commit = (false, h.port) :=
      if_pos (Or.inr (Or.inr (Or.inl hfault)))
    have hkeep : ¬Port.Drops address value size commit h.port := by
      rintro ⟨hok, -⟩
      rw [hrefused] at hok
      exact Bool.false_ne_true hok
    have hnone : Port.taken address value size commit h.port = [] := by
      refine if_neg ?_
      rintro ⟨hok, -⟩
      rw [hrefused] at hok
      exact Bool.false_ne_true hok
    refine ⟨h.port.spi, ?_⟩
    rw [record, if_neg hkeep, hnone, List.append_nil]
    exact congrArg (fun result : Bool × Port ↦ History.mk result.2 h.kept) hrefused
  | read address =>
    obtain ⟨spi, hread⟩ := readTimed_eq h.port address
    exact ⟨spi, congrArg (History.mk · h.kept) hread⟩
  | setPins valid value => exact ⟨_, rfl⟩
  | advance halfTicks =>
    exact ⟨h.port.spi, congrArg (fun result : Bool × Port ↦ History.mk result.2 h.kept)
      (Port.advance_fault hvalid hfault halfTicks)⟩

theorem foldl_fault (hvalid : h.port.transfer.Valid) (hfault : h.port.transfer.fault ≠ 0)
    (acts : List Action) :
    ∃ spi, acts.foldl record h = { h with port := { h.port with spi := spi } } := by
  induction acts generalizing h with
  | nil => exact ⟨h.port.spi, rfl⟩
  | cons act acts ih =>
    obtain ⟨spi, hnext⟩ := record_fault hvalid hfault act
    rw [List.foldl_cons, hnext]
    exact ih hvalid hfault

/-- How the time is sliced makes no difference, and every word that is taken and not discarded is
latched once, in its turn. -/
theorem timed_transfer {s : Port} (hdac : s.dac.Valid) (htransfer : s.transfer.Valid) :
    (∀ a b, (s.advance a).2.advance b = s.advance (a + b)) ∧
    ∀ acts, (run acts s).port.dac.Valid ∧ (run acts s).port.transfer.Valid ∧
      (run acts s).port.transfer.fault = s.transfer.fault ∧ (run acts s).Latched s.dac ∧
      ((run acts s).port.transfer.fault = 0 →
        ∀ n, (run acts s).port.transfer.halfTicksRemaining + 1628 ≤ n →
          ((run acts s).port.advance n).2.pending = []) := by
  by_cases hfault : s.transfer.fault = 0
  · have hgood : s.Good := ⟨hdac, htransfer, hfault⟩
    refine ⟨fun a b ↦ ?_, fun acts ↦ ?_⟩
    · rw [hgood.advance_eq, (hgood.ticks a).1.advance_eq, hgood.advance_eq, Nat.add_comm a b,
        iterate_add_apply]
    · have hstart : Latched s.dac ⟨s, s.pending⟩ := ⟨[], rfl, rfl⟩
      obtain ⟨hend, hlatched⟩ := hstart.foldl hgood acts
      exact ⟨hend.dac, hend.transfer, hend.fault.trans hfault.symm, hlatched,
        fun _ n hn ↦ hend.advance_pending hn⟩
  · refine ⟨fun a b ↦ ?_, fun acts ↦ ?_⟩
    · rw [Port.advance_fault htransfer hfault, Port.advance_fault htransfer hfault,
        Port.advance_fault htransfer hfault]
    · obtain ⟨spi, hend⟩ := foldl_fault (h := ⟨s, s.pending⟩) htransfer hfault acts
      have hrun : run acts s = ⟨{ s with spi := spi }, s.pending⟩ := hend
      rw [hrun]
      exact ⟨hdac, htransfer, rfl, ⟨[], rfl, rfl⟩, fun hzero ↦ absurd hzero hfault⟩

def configured : Port where
  spi := { Registers.reset ⟨0, 0, 0, 0, 0, 0, 0, 0, 0, 0, 0, 0, 0, 0, 0, 0, fun _ ↦ 0, true, false, 0⟩ with
    gcr1 := strictGcr1
    pinFunction := strictPins
    delay := strictDelay
    format := fun i ↦ if i = 0 then strictFormat else 0 }
  dac := ⟨fun _ ↦ 0, 0, 0, fun _ ↦ 0, 0⟩
  transfer := Transfer.zero

theorem timed_transfer_configured :
    (∀ a b, (configured.advance a).2.advance b = configured.advance (a + b)) ∧
      (run [.write 0x01e1203c 0x1ff 4 true, .write 0x01e1203c 0x3ff 4 true] configured).kept =
        [0x1ff, 0x3ff] ∧
      (run [.write 0x01e1203c 0x1ff 4 true, .write 0x01e1203c 0x3ff 4 true] configured).Latched
        configured.dac := by
  have hrun := timed_transfer (s := configured) (by decide) (by decide)
  exact ⟨hrun.1, by decide +kernel, (hrun.2 _).2.2.2.1⟩

end History

end Cdj2000Emulator.Spi
