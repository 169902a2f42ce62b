import Cdj2000Emulator.Library.Countdown
import Cdj2000Emulator.Spi.Model

namespace Cdj2000Emulator.Spi

open Function Library

namespace Wm8740

variable {dac t : Wm8740} {a : ℕ} {d : Half}

theorem Valid.update (h : dac.Valid) (hprogram : t.program = update dac.program a d)
    (hlow : a ≤ 2 → d ≤ 0x1ff) (hthree : a = 3 → d &&& ~~~0x1df = 0)
    (hfour : a = 4 → d &&& ~~~0x70 = 0) (hlock : t.register4Unlocked ≤ 1) : t.Valid := by
  have hread : ∀ (i : ℕ) (P : Half → Prop), (a = i → P d) → P (dac.program i) → P (t.program i) := by
    intro i P hnew hold
    rw [hprogram]
    by_cases hi : i = a
    · subst hi
      rw [update_self]
      exact hnew rfl
    · rw [update_of_ne hi]
      exact hold
  exact ⟨hread 0 (· ≤ 0x1ff) (fun ha ↦ hlow (by omega)) h.program0,
    hread 1 (· ≤ 0x1ff) (fun ha ↦ hlow (by omega)) h.program1,
    hread 2 (· ≤ 0x1ff) (fun ha ↦ hlow (by omega)) h.program2,
    hread 3 (· &&& ~~~0x1df = 0) hthree h.program3,
    hread 4 (· &&& ~~~0x70 = 0) hfour h.program4, hlock⟩

theorem and_not_self (x mask : Half) : x &&& mask &&& ~~~mask = 0 := by
  rw [BitVec.and_assoc, BitVec.and_not_self]
  exact BitVec.and_zero

theorem Valid.latch (h : dac.Valid) (word : Half) : (dac.latch word).Valid := by
  have hdata : word &&& 0x1ff ≤ 0x1ff := by
    rw [BitVec.le_def, BitVec.toNat_and]
    exact Nat.and_le_right
  unfold Wm8740.latch
  dsimp only
  split_ifs with hlow hload htwo hkey hthree hfour
  · exact h.update rfl (fun _ ↦ hdata) (fun _ ↦ by omega) (fun _ ↦ by omega) h.register4Unlocked
  · exact h.update rfl (fun _ ↦ hdata) (fun _ ↦ by omega) (fun _ ↦ by omega) h.register4Unlocked
  · exact h.update rfl (fun _ ↦ hdata) (fun _ ↦ by omega) (fun _ ↦ by omega) (Nat.le_refl 1)
  · exact h.update rfl (fun _ ↦ hdata) (fun _ ↦ by omega) (fun _ ↦ by omega) h.register4Unlocked
  · exact h.update rfl (fun _ ↦ by omega) (fun _ ↦ and_not_self _ _) (fun _ ↦ by omega)
      h.register4Unlocked
  · exact h.update rfl (fun _ ↦ by omega) (fun _ ↦ by omega) (fun _ ↦ and_not_self _ _)
      h.register4Unlocked
  · exact ⟨h.program0, h.program1, h.program2, h.program3, h.program4, h.register4Unlocked⟩

end Wm8740

/-- A converter and a transfer that can be advanced. -/
structure Port.Good (s : Port) : Prop where
  dac : s.dac.Valid
  transfer : s.transfer.Valid
  fault : s.transfer.fault = 0

theorem strict_half_ticks : shiftHalfTicks strictFormat = 775 ∧ c2tHalfTicks strictDelay = 8 ∧
    t2cHalfTicks strictFormat strictDelay = 31 := by
  decide

namespace Port

variable {s : Port}

def countdown : Countdown Port where
  left s := s.transfer.halfTicksRemaining
  spend n s := { s with transfer := { s.transfer with
    halfTicksRemaining := s.transfer.halfTicksRemaining - n } }
  next s := s.finishPhase.2

theorem Good.shifting (h : s.Good) (hphase : s.transfer.phase = c2t ∨ s.transfer.phase = shift ∨
    s.transfer.phase = t2c) : s.transfer.Shifting ∧ TransferWordValid s.transfer.activeControl
      s.transfer.activeFormat s.transfer.activeDelay := by
  have hshifting : s.transfer.Shifting := by
    rcases hphase with hphase | hphase | hphase <;> rw [Transfer.Shifting, hphase] <;> decide
  exact ⟨hshifting, h.transfer.active.mp hshifting⟩

theorem finishPhase_c2t (hphase : s.transfer.phase = c2t) :
    s.finishPhase = (true, { s with transfer := { s.transfer with
      phase := shift
      halfTicksRemaining := shiftHalfTicks s.transfer.activeFormat } }) := by
  rw [finishPhase, if_pos hphase]

theorem finishPhase_shift (hphase : s.transfer.phase = shift) :
    s.finishPhase = (true, { s with
      spi := if s.transfer.queuedValid ≠ 0 then
        { s.spi.receivePulledUpWord with flags := s.spi.receivePulledUpWord.flags ||| txFlag }
        else s.spi.receivePulledUpWord
      transfer := { s.transfer with
        txFull := if s.transfer.queuedValid ≠ 0 then 0 else s.transfer.txFull
        phase := t2c
        halfTicksRemaining := t2cHalfTicks s.transfer.activeFormat s.transfer.activeDelay } }) := by
  rw [finishPhase, if_neg (by rw [hphase]; decide), if_pos hphase]

theorem finishPhase_t2c (h : s.Good) (hphase : s.transfer.phase = t2c) :
    s.finishPhase = (true, {
      dac := s.dac.latch (s.transfer.activeControl.setWidth 16)
      transfer := { s.transfer with
        previousCshold := cshold s.transfer.activeControl
        activeControl := 0
        activeFormat := 0
        activeDelay := 0
        phase := gap
        halfTicksRemaining := 4 }
      spi := if s.transfer.queuedValid = 0 then { s.spi with flags := s.spi.flags ||| txFlag }
        else s.spi }) := by
  obtain ⟨hword, -⟩ := (h.shifting (Or.inr (Or.inr hphase))).2
  rw [finishPhase, if_neg (by rw [hphase]; decide), if_neg (by rw [hphase]; decide), if_pos hphase,
    finishChipSelect, if_neg (not_not_intro hword.2)]

theorem finishPhase_gap (hphase : s.transfer.phase = gap) :
    s.finishPhase =
      (true, finishGap { s with transfer := { s.transfer with halfTicksRemaining := 0 } }) := by
  rw [finishPhase, if_neg (by rw [hphase]; decide), if_neg (by rw [hphase]; decide),
    if_neg (by rw [hphase]; decide), if_pos hphase]

theorem cshold_le (control : Word) : cshold control ≤ 1 := by
  rw [cshold, BitVec.toNat_and]
  exact Nat.and_le_right

theorem start_eq {control : Word} (t : Transfer) :
    t.start control strictFormat strictDelay = { t with
      activeControl := control
      activeFormat := strictFormat
      activeDelay := strictDelay
      phase := c2t
      halfTicksRemaining := 8 } := by
  rw [Transfer.start, if_pos (by decide), strict_half_ticks.2.1]

theorem finishGap_queued (h : s.Good) (hqueued : s.transfer.queuedValid ≠ 0) :
    finishGap { s with transfer := { s.transfer with halfTicksRemaining := 0 } } = { s with
      transfer := { s.transfer with
        activeControl := s.transfer.queuedControl
        activeFormat := strictFormat
        activeDelay := strictDelay
        queuedControl := 0
        queuedFormat := 0
        queuedDelay := 0
        queuedValid := 0
        txFull := 0
        phase := c2t
        halfTicksRemaining := 8 }
      spi := { s.spi with flags := s.spi.flags ||| txFlag } } := by
  obtain ⟨-, hformat, hdelay⟩ := h.transfer.queued.mp hqueued
  rw [finishGap, if_pos hqueued, hformat, hdelay, start_eq]

theorem finishGap_empty (hqueued : s.transfer.queuedValid = 0) :
    finishGap { s with transfer := { s.transfer with halfTicksRemaining := 0 } } = { s with
      transfer := { s.transfer with phase := idle, halfTicksRemaining := 0 } } := by
  rw [finishGap, if_neg (not_not_intro hqueued)]

theorem shifting_iff (t : Transfer) : t.Shifting ↔ c2t ≤ t.phase ∧ t.phase ≤ t2c := Iff.rfl

theorem Good.finish_c2t (h : s.Good) (hphase : s.transfer.phase = c2t) : s.finishPhase.2.Good := by
  have hv := h.transfer
  obtain ⟨-, hword⟩ := h.shifting (Or.inl hphase)
  have hformat := hword.2.1
  rw [finishPhase_c2t hphase]
  refine ⟨h.dac, ⟨?_, hv.queuedValid, hv.txFull, hv.previousCshold, hv.fault, hv.reserved, ?_, ?_, ?_,
    hv.queued, hv.unqueued, ?_, ?_⟩, h.fault⟩
  · exact (by decide : shift ≤ gap)
  · rw [hformat]
    exact iff_of_true (by decide : shift ≠ idle) (by decide : shiftHalfTicks strictFormat ≠ 0)
  · exact iff_of_true (by decide : c2t ≤ shift ∧ shift ≤ t2c) hword
  · exact fun hout ↦ absurd (by decide : c2t ≤ shift ∧ shift ≤ t2c) hout
  · exact fun _ ↦ (by decide : shift ≠ idle)
  · exact fun _ ↦ (by decide : shift < t2c)

theorem Good.finish_shift (h : s.Good) (hphase : s.transfer.phase = shift) : s.finishPhase.2.Good := by
  have hv := h.transfer
  obtain ⟨-, hword⟩ := h.shifting (Or.inr (Or.inl hphase))
  have hempty : (if s.transfer.queuedValid ≠ 0 then 0 else s.transfer.txFull) = 0 := by
    split_ifs with hqueued
    · rfl
    · exact (hv.unqueued (not_not.mp hqueued)).2.2.2
  rw [finishPhase_shift hphase, hempty, hword.2.1, hword.2.2]
  refine ⟨h.dac, ⟨?_, hv.queuedValid, Nat.zero_le _, hv.previousCshold, hv.fault, hv.reserved, ?_, ?_,
    ?_, hv.queued, fun hnone ↦ ?_, ?_, ?_⟩, h.fault⟩
  · exact (by decide : t2c ≤ gap)
  · exact iff_of_true (by decide : t2c ≠ idle) (by decide : t2cHalfTicks strictFormat strictDelay ≠ 0)
  · refine iff_of_true (by decide : c2t ≤ t2c ∧ t2c ≤ t2c) ?_
    exact ⟨hword.1, hword.2.1, hword.2.2⟩
  · exact fun hout ↦ absurd (by decide : c2t ≤ t2c ∧ t2c ≤ t2c) hout
  · obtain ⟨hcontrol, hformat, hdelay, -⟩ := hv.unqueued hnone
    exact ⟨hcontrol, hformat, hdelay, rfl⟩
  · exact fun _ ↦ (by decide : t2c ≠ idle)
  · exact fun hfull ↦ absurd rfl hfull

theorem transferWordValid_zero : ¬TransferWordValid 0 0 0 := by
  decide

theorem Good.finish_t2c (h : s.Good) (hphase : s.transfer.phase = t2c) : s.finishPhase.2.Good := by
  have hv := h.transfer
  have hempty : s.transfer.txFull = 0 := by
    by_contra hfull
    have := hv.full hfull
    rw [hphase] at this
    exact absurd this (by decide)
  rw [finishPhase_t2c h hphase]
  refine ⟨h.dac.latch _, ⟨?_, hv.queuedValid, hv.txFull, cshold_le _, hv.fault, hv.reserved, ?_, ?_, ?_,
    hv.queued, hv.unqueued, ?_, ?_⟩, h.fault⟩
  · exact (by decide : gap ≤ gap)
  · exact iff_of_true (by decide : gap ≠ idle) (by decide : 4 ≠ 0)
  · exact iff_of_false (by decide : ¬(c2t ≤ gap ∧ gap ≤ t2c)) transferWordValid_zero
  · exact fun _ ↦ ⟨rfl, rfl, rfl⟩
  · exact fun _ ↦ (by decide : gap ≠ idle)
  · exact fun hfull ↦ absurd hempty hfull

theorem Good.finish_gap (h : s.Good) (hphase : s.transfer.phase = gap) : s.finishPhase.2.Good := by
  have hv := h.transfer
  rw [finishPhase_gap hphase]
  by_cases hqueued : s.transfer.queuedValid = 0
  · rw [finishGap_empty hqueued]
    have hout : ¬s.transfer.Shifting := by
      rw [shifting_iff, hphase]
      decide
    obtain ⟨hcontrol, hformat, hdelay⟩ := hv.inactive hout
    refine ⟨h.dac, ⟨?_, hv.queuedValid, hv.txFull, hv.previousCshold, hv.fault, hv.reserved, ?_, ?_, ?_,
      hv.queued, hv.unqueued, ?_, ?_⟩, h.fault⟩
    · exact (by decide : idle ≤ gap)
    · exact iff_of_false (not_not_intro rfl) (not_not_intro rfl)
    · rw [hcontrol, hformat, hdelay]
      exact iff_of_false (by decide : ¬(c2t ≤ idle ∧ idle ≤ t2c)) transferWordValid_zero
    · exact fun _ ↦ ⟨hcontrol, hformat, hdelay⟩
    · exact fun hsome ↦ absurd hqueued hsome
    · exact fun hfull ↦ absurd (hv.unqueued hqueued).2.2.2 hfull
  · rw [finishGap_queued h hqueued]
    obtain ⟨hword, hformat, hdelay⟩ := hv.queued.mp hqueued
    refine ⟨h.dac, ⟨?_, Nat.zero_le _, Nat.zero_le _, hv.previousCshold, hv.fault, hv.reserved, ?_, ?_,
      ?_, ?_, fun _ ↦ ⟨rfl, rfl, rfl, rfl⟩, fun hsome ↦ absurd rfl hsome, fun hfull ↦ absurd rfl hfull⟩,
      h.fault⟩
    · exact (by decide : c2t ≤ gap)
    · exact iff_of_true (by decide : c2t ≠ idle) (by decide : 8 ≠ 0)
    · exact iff_of_true (by decide : c2t ≤ c2t ∧ c2t ≤ t2c) ⟨hword, rfl, rfl⟩
    · exact fun hout ↦ absurd (by decide : c2t ≤ c2t ∧ c2t ≤ t2c) hout
    · exact iff_of_false (not_not_intro rfl) transferWordValid_zero

theorem Good.phase_cases (h : s.Good) (hleft : s.transfer.halfTicksRemaining ≠ 0) :
    s.transfer.phase = c2t ∨ s.transfer.phase = shift ∨ s.transfer.phase = t2c ∨
      s.transfer.phase = gap := by
  have hne := h.transfer.remaining.mpr hleft
  have hle := h.transfer.phase
  simp only [idle, c2t, shift, t2c, gap] at hne hle ⊢
  omega

theorem Good.finishPhase (h : s.Good) (hleft : s.transfer.halfTicksRemaining ≠ 0) :
    s.finishPhase = (true, s.finishPhase.2) ∧ s.finishPhase.2.Good := by
  rcases h.phase_cases hleft with hphase | hphase | hphase | hphase
  · exact ⟨by rw [finishPhase_c2t hphase], h.finish_c2t hphase⟩
  · exact ⟨by rw [finishPhase_shift hphase], h.finish_shift hphase⟩
  · exact ⟨by rw [finishPhase_t2c h hphase], h.finish_t2c hphase⟩
  · exact ⟨by rw [finishPhase_gap hphase], h.finish_gap hphase⟩

theorem steady : countdown.Steady Port.Good := by
  refine ⟨fun _ _ _ ↦ rfl, fun s a b ↦ ?_, fun _ _ _ ↦ rfl, fun s n h hn ↦ ?_, fun s h hleft ↦ ?_⟩
  · simp only [countdown, Nat.sub_sub]
  · have hv := h.transfer
    have hstays : s.transfer.halfTicksRemaining ≠ 0 ↔ s.transfer.halfTicksRemaining - n ≠ 0 := by
      simp only [countdown] at hn
      omega
    exact ⟨h.dac, ⟨hv.phase, hv.queuedValid, hv.txFull, hv.previousCshold, hv.fault, hv.reserved,
      hv.remaining.trans hstays, hv.active, hv.inactive, hv.queued, hv.unqueued, hv.behind, hv.full⟩,
      h.fault⟩
  · exact (h.finishPhase hleft).2

theorem loop_eq (fuel n : ℕ) (h : s.Good) : loop fuel n s = (true, countdown.elapse fuel n s) := by
  induction fuel generalizing n s with
  | zero => rfl
  | succ fuel ih =>
    have hidle : s.transfer.phase = idle ↔ countdown.left s = 0 := by
      have := h.transfer.remaining
      exact not_iff_not.mp this
    have hleft : countdown.left s = s.transfer.halfTicksRemaining := rfl
    rw [loop, Countdown.elapse, hleft]
    simp only [hidle, hleft]
    split_ifs with hdone hless
    · rfl
    · rfl
    · obtain ⟨hok, hgood⟩ := h.finishPhase fun hzero ↦ hdone (Or.inr hzero)
      rw [hok]
      exact ih _ hgood

theorem advance_good (h : s.Good) (n : ℕ) :
    s.advance n = (true, countdown.elapse n n s) ∧ (s.advance n).2.Good := by
  have hrefuse : ¬(¬s.dac.Valid ∨ ¬s.transfer.Valid ∨ s.transfer.fault ≠ 0) := by
    simp [h.dac, h.transfer, h.fault]
  have heq : s.advance n = (true, countdown.elapse n n s) := by
    rw [advance, if_neg hrefuse, loop_eq n n h]
  rw [heq]
  exact ⟨rfl, steady.keeps h n⟩

theorem advance_fault (h : s.transfer.Valid) (hfault : s.transfer.fault ≠ 0) (n : ℕ) :
    s.advance n = (false, s) := by
  have hone : s.transfer.fault = 1 := by
    have := h.fault
    omega
  rw [advance, if_pos (Or.inr (Or.inr hfault)), ← hone]

end Port

end Cdj2000Emulator.Spi
