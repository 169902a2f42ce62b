import Cdj2000Emulator.Spi.Timing

namespace Cdj2000Emulator.Spi

open Function Library

namespace Port

variable {s : Port}

/-- The word that waits behind the one on the wires. -/
def behind (s : Port) : List Half :=
  if s.transfer.queuedValid ≠ 0 then [s.transfer.queuedControl.setWidth 16] else []

/-- The words that were taken and are not latched yet. -/
def pending (s : Port) : List Half :=
  (if s.transfer.Shifting then [s.transfer.activeControl.setWidth 16] else []) ++ s.behind

theorem pending_of_shifting (h : c2t ≤ s.transfer.phase ∧ s.transfer.phase ≤ t2c) :
    s.pending = s.transfer.activeControl.setWidth 16 :: s.behind :=
  congrArg (· ++ s.behind) (if_pos h)

theorem pending_of_not (h : ¬(c2t ≤ s.transfer.phase ∧ s.transfer.phase ≤ t2c)) :
    s.pending = s.behind :=
  congrArg (· ++ s.behind) (if_neg h)

theorem behind_of_empty (h : s.transfer.queuedValid = 0) : s.behind = [] := if_neg (not_not_intro h)

theorem behind_of_queued (h : s.transfer.queuedValid ≠ 0) :
    s.behind = [s.transfer.queuedControl.setWidth 16] := if_pos h

section Writing

theorem Good.discard (h : s.Good) (spi : Registers) :
    Good { s with spi := spi, transfer := s.transfer.discard } := by
  refine ⟨h.dac, ⟨(by decide : idle ≤ gap), Nat.zero_le _, Nat.zero_le _, Nat.zero_le _, Nat.zero_le _,
    rfl, ?_, ?_, ?_, ?_, fun _ ↦ ⟨rfl, rfl, rfl, rfl⟩, fun hsome ↦ absurd rfl hsome, fun hfull ↦
      absurd rfl hfull⟩, rfl⟩
  · exact iff_of_false (not_not_intro rfl) (not_not_intro rfl)
  · exact iff_of_false (by decide : ¬(c2t ≤ idle ∧ idle ≤ t2c)) transferWordValid_zero
  · exact fun _ ↦ ⟨rfl, rfl, rfl⟩
  · exact iff_of_false (not_not_intro rfl) transferWordValid_zero

theorem Good.of_spi (h : s.Good) (spi : Registers) : Good { s with spi := spi } :=
  ⟨h.dac, h.transfer, h.fault⟩

theorem Good.of_cshold (h : s.Good) (spi : Registers) {n : ℕ} (hn : n ≤ 1) :
    Good { s with spi := spi, transfer := { s.transfer with previousCshold := n } } := by
  have hv := h.transfer
  exact ⟨h.dac, ⟨hv.phase, hv.queuedValid, hv.txFull, hn, hv.fault, hv.reserved, hv.remaining, hv.active,
    hv.inactive, hv.queued, hv.unqueued, hv.behind, hv.full⟩, h.fault⟩

/-- A word that finds no other goes out at once. -/
theorem Good.transmit_idle (h : s.Good) {word : Word} (hstrict : StrictConfiguration s.spi s.dac word)
    (hidle : ¬s.transfer.Active) :
    (s.transmit word).Good ∧ (s.transmit word).pending = s.pending ++ [word.setWidth 16] ∧
      (s.transmit word).dac = s.dac := by
  have hv := h.transfer
  obtain ⟨-, -, -, -, -, -, hformat, hdelay, hword⟩ := hstrict
  rw [Transfer.Active, not_or, not_or, not_not, not_not, not_not] at hidle
  obtain ⟨hphase, hqueued, hfull⟩ := hidle
  have hstart : s.transmit word = { s with
      transfer := s.transfer.start word (s.spi.format 0) s.spi.delay
      spi := { s.spi with
        dat1 := word &&& dat1WriteMask
        flags := s.spi.flags &&& ~~~txFlag ||| txFlag } } :=
    if_pos (by simp [Transfer.Active, hphase, hqueued, hfull])
  rw [hstart, hformat, hdelay, start_eq]
  refine ⟨⟨h.dac, ⟨(by decide : c2t ≤ gap), hv.queuedValid, hv.txFull, hv.previousCshold, hv.fault,
    hv.reserved, ?_, ?_, ?_, hv.queued, hv.unqueued, fun hsome ↦ absurd hqueued hsome,
    fun hsome ↦ absurd hfull hsome⟩, h.fault⟩, ?_, rfl⟩
  · exact iff_of_true (by decide : c2t ≠ idle) (by decide : 8 ≠ 0)
  · exact iff_of_true (by decide : c2t ≤ c2t ∧ c2t ≤ t2c) ⟨hword, rfl, rfl⟩
  · exact fun hout ↦ absurd (by decide : c2t ≤ c2t ∧ c2t ≤ t2c) hout
  · have hold : s.pending = [] := by
      rw [pending_of_not (by rw [hphase]; decide), behind_of_empty hqueued]
    rw [hold]
    exact (pending_of_shifting (by decide : c2t ≤ c2t ∧ c2t ≤ t2c)).trans
      (congrArg (List.cons _) (if_neg (not_not_intro hqueued)))

/-- A word that finds another one on the wires waits behind it. -/
theorem Good.transmit_busy (h : s.Good) {word : Word} (hstrict : StrictConfiguration s.spi s.dac word)
    (hbusy : s.transfer.Active) (hqueued : s.transfer.queuedValid = 0) :
    (s.transmit word).Good ∧ (s.transmit word).pending = s.pending ++ [word.setWidth 16] ∧
      (s.transmit word).dac = s.dac := by
  have hv := h.transfer
  obtain ⟨-, -, -, -, -, -, hformat, hdelay, hword⟩ := hstrict
  have hunqueued := hv.unqueued hqueued
  have hphase : s.transfer.phase ≠ idle := by
    rcases hbusy with hphase | hsome | hfull
    · exact hphase
    · exact absurd hqueued hsome
    · exact absurd hunqueued.2.2.2 hfull
  have hwords : ∀ t : Port, t.transfer.Shifting = s.transfer.Shifting →
      t.transfer.activeControl = s.transfer.activeControl → t.transfer.queuedValid = 1 →
      t.transfer.queuedControl = word → t.pending = s.pending ++ [word.setWidth 16] := by
    intro t hshifting hactive hvalid hcontrol
    have hbehind : t.behind = [word.setWidth 16] := by
      rw [behind_of_queued (by rw [hvalid]; exact Nat.one_ne_zero), hcontrol]
    rw [pending, pending, behind_of_empty hqueued, hbehind, hactive, List.append_nil]
    simp only [hshifting]
  by_cases hpast : s.transfer.phase = t2c ∨ s.transfer.phase = gap
  · have heq : s.transmit word = { s with
        transfer := { s.transfer with
          queuedControl := word
          queuedFormat := s.spi.format 0
          queuedDelay := s.spi.delay
          queuedValid := 1
          txFull := 0 }
        spi := { s.spi with
          dat1 := word &&& dat1WriteMask
          flags := s.spi.flags &&& ~~~txFlag ||| txFlag } } :=
      (if_neg (not_not_intro hbusy)).trans (if_pos hpast)
    rw [heq, hformat, hdelay]
    refine ⟨⟨h.dac, ⟨hv.phase, Nat.le_refl 1, Nat.zero_le _, hv.previousCshold, hv.fault, hv.reserved,
      hv.remaining, hv.active, hv.inactive, ?_, nofun, fun _ ↦ hphase, fun hfull ↦ absurd rfl hfull⟩,
      h.fault⟩, hwords _ rfl rfl rfl rfl, rfl⟩
    exact iff_of_true Nat.one_ne_zero ⟨hword, rfl, rfl⟩
  · have heq : s.transmit word = { s with
        transfer := { s.transfer with
          queuedControl := word
          queuedFormat := s.spi.format 0
          queuedDelay := s.spi.delay
          queuedValid := 1
          txFull := 1 }
        spi := { s.spi with dat1 := word &&& dat1WriteMask, flags := s.spi.flags &&& ~~~txFlag } } :=
      (if_neg (not_not_intro hbusy)).trans (if_neg hpast)
    rw [heq, hformat, hdelay]
    refine ⟨⟨h.dac, ⟨hv.phase, Nat.le_refl 1, Nat.le_refl 1, hv.previousCshold, hv.fault, hv.reserved,
      hv.remaining, hv.active, hv.inactive, ?_, nofun, fun _ ↦ hphase, fun _ ↦ ?_⟩, h.fault⟩,
      hwords _ rfl rfl rfl rfl, rfl⟩
    · exact iff_of_true Nat.one_ne_zero ⟨hword, rfl, rfl⟩
    · have hle := hv.phase
      simp only [idle, t2c, gap] at hphase hpast hle ⊢
      omega

end Writing

def Stops (address value : ℕ) : Prop :=
  Resets (address - spi1Base) (BitVec.ofNat 32 value) ∨
    Disables (address - spi1Base) (BitVec.ofNat 32 value)

instance (address value : ℕ) : Decidable (Stops address value) := inferInstanceAs (Decidable (_ ∨ _))

/-- The write is of a transmit word, and the master is enabled. -/
def Sends (address : ℕ) (s : Port) : Prop :=
  address - spi1Base = 0x3c ∧ s.spi.gcr1 &&& enable ≠ 0

instance (address : ℕ) (s : Port) : Decidable (Sends address s) := inferInstanceAs (Decidable (_ ∧ _))

/-- What a timed write does. -/
inductive Wrote (s : Port) (address value : ℕ) (commit : Bool) : Bool × Port → Prop
  | refused : Wrote s address value commit (false, s)
  | checked (hcommit : commit = false) : Wrote s address value commit (true, s)
  | register (hcommit : commit = true) (hstops : ¬Stops address value) (hsends : ¬Sends address s)
      (spi : Registers) (n : ℕ) (hn : n ≤ 1) :
    Wrote s address value commit
      (true, { s with spi := spi, transfer := { s.transfer with previousCshold := n } })
  | stopped (hcommit : commit = true) (hstops : Stops address value) (spi : Registers) :
    Wrote s address value commit (true, { s with spi := spi, transfer := s.transfer.discard })
  | sent (hcommit : commit = true) (hsends : Sends address s)
      (hstrict : StrictConfiguration s.spi s.dac (BitVec.ofNat 32 value))
      (hqueued : s.transfer.queuedValid = 0) :
    Wrote s address value commit (true, s.transmit (BitVec.ofNat 32 value))

theorem Stops.not_sends {address value : ℕ} (h : Stops address value) : ¬Sends address s := by
  rintro ⟨haddress, -⟩
  rcases h with ⟨hstop, -⟩ | ⟨hstop, -⟩ <;> omega

theorem Good.wrote_register (h : s.Good) {address value offset : ℕ} (commit : Bool)
    (hoffset : address - spi1Base = offset) (hsends : ¬Sends address s) :
    Wrote s address value commit (s.writeRegister offset (BitVec.ofNat 32 value) commit) := by
  rw [writeRegister]
  cases s.spi.write offset (BitVec.ofNat 32 value) with
  | none => exact .refused
  | some spi =>
    cases commit with
    | false => exact .checked rfl
    | true =>
      have hiff : Stops address value ↔ Resets offset (BitVec.ofNat 32 value) ∨
          Disables offset (BitVec.ofNat 32 value) := by
        rw [Stops, hoffset]
      by_cases hstops : Stops address value
      · have hplain : offset ≠ 0x3c := by
          rcases hiff.mp hstops with ⟨hstop, -⟩ | ⟨hstop, -⟩ <;> omega
        simp only [if_pos (hiff.mp hstops), if_neg hplain]
        exact .stopped rfl hstops spi
      · simp only [if_neg (mt hiff.mpr hstops)]
        rw [if_neg (not_not_intro trivial)]
        split_ifs
        · exact .register rfl hstops hsends spi _ (cshold_le _)
        · exact .register rfl hstops hsends spi _ h.transfer.previousCshold

theorem Good.wrote (h : s.Good) (address value size : ℕ) (commit : Bool) :
    Wrote s address value commit (s.writeTimed address value size commit) := by
  rw [writeTimed]
  split_ifs with hbad
  · exact .refused
  · dsimp only
    split_ifs with hbusy hregister
    · exact .refused
    · refine h.wrote_register commit rfl fun hsends ↦ ?_
      rcases hregister with hother | hoff
      · exact hother hsends.1
      · exact hsends.2 hoff
    · rw [not_or, not_not] at hregister
      rw [writeWord]
      split_ifs with hrefuse hcheck
      · exact .refused
      · rw [not_or, not_or, not_or, not_not, not_not, not_not, not_not] at hrefuse
        exact .sent hcheck hregister hrefuse.1 hrefuse.2.2.1
      · exact .checked (eq_false_of_ne_true hcheck)

def taken (address value size : ℕ) (commit : Bool) (s : Port) : List Half :=
  if (s.writeTimed address value size commit).1 ∧ commit ∧ Sends address s then [BitVec.ofNat 16 value]
  else []

/-- A write that is taken discards what is under way. -/
def Drops (address value size : ℕ) (commit : Bool) (s : Port) : Prop :=
  (s.writeTimed address value size commit).1 ∧ commit ∧ Stops address value

instance (address value size : ℕ) (commit : Bool) (s : Port) :
    Decidable (Drops address value size commit s) :=
  inferInstanceAs (Decidable (_ ∧ _))

theorem setWidth_ofNat (value : ℕ) : (BitVec.ofNat 32 value).setWidth 16 = BitVec.ofNat 16 value := by
  apply BitVec.eq_of_toNat_eq
  rw [BitVec.toNat_setWidth, BitVec.toNat_ofNat, BitVec.toNat_ofNat]
  omega

theorem Wrote.good (h : s.Good) {address value : ℕ} {commit : Bool} {result : Bool × Port}
    (hwrote : Wrote s address value commit result) :
    result.2.Good ∧ result.2.dac = s.dac ∧
      result.2.pending = (if result.1 ∧ commit ∧ Stops address value then [] else s.pending) ++
        if result.1 ∧ commit ∧ Sends address s then [BitVec.ofNat 16 value] else [] := by
  cases hwrote with
  | refused => exact ⟨h, rfl, by simp⟩
  | checked hcommit => exact ⟨h, rfl, by simp [hcommit]⟩
  | register hcommit hstops hsends spi n hn =>
    refine ⟨h.of_cshold spi hn, rfl, ?_⟩
    rw [if_neg fun hdrop ↦ hstops hdrop.2.2, if_neg fun htaken ↦ hsends htaken.2.2, List.append_nil]
    rfl
  | stopped hcommit hstops spi =>
    refine ⟨h.discard spi, rfl, ?_⟩
    rw [if_pos ⟨rfl, hcommit, hstops⟩, if_neg fun htaken ↦ hstops.not_sends htaken.2.2]
    rfl
  | sent hcommit hsends hstrict hqueued =>
    rw [if_neg fun hdrop ↦ hdrop.2.2.not_sends hsends, if_pos ⟨rfl, hcommit, hsends⟩,
      ← setWidth_ofNat]
    by_cases hbusy : s.transfer.Active
    · obtain ⟨hgood, hpending, hdac⟩ := h.transmit_busy hstrict hbusy hqueued
      exact ⟨hgood, hdac, hpending⟩
    · obtain ⟨hgood, hpending, hdac⟩ := h.transmit_idle hstrict hbusy
      exact ⟨hgood, hdac, hpending⟩

theorem Good.write (h : s.Good) (address value size : ℕ) (commit : Bool) :
    (s.writeTimed address value size commit).2.Good ∧
      (s.writeTimed address value size commit).2.dac = s.dac ∧
      (s.writeTimed address value size commit).2.pending =
        (if Drops address value size commit s then [] else s.pending) ++
          taken address value size commit s :=
  (h.wrote address value size commit).good h

end Port

end Cdj2000Emulator.Spi
