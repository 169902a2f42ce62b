import Cdj2000Emulator.Library.Since
import Mathlib.Data.List.Induction
import Mathlib.Data.Nat.Find
import Mathlib.Logic.Function.Basic

namespace Cdj2000Emulator.C6747.Pll

open Function Library.Since

abbrev Word := BitVec 32

def oscinHz : ℕ := 16934400

/-- `CdjC6747Pll`. -/
structure State where
  config : ℕ → Word
  legacyBit4Used : Bool
  activeDividers : ℕ → Word
  targetDividers : ℕ → Word
  command : Word
  goRemaining : ℕ
  oscinCycles : ℕ
  resetAge : ℕ
  lockWaitRemaining : ℕ
  oscinPhase : ℕ
  earlyEnable : Bool

def offsets : List ℕ :=
  [0x100, 0x104, 0x110, 0x114, 0x118, 0x11c, 0x120, 0x124, 0x128, 0x160, 0x164, 0x168, 0x16c]

def defaults : List Word :=
  [0xf2, 0x14, 0x13, 0x8000, 0x8000, 0x8001, 0x8002, 0x8000, 0x8001, 0x8003, 0x8002, 0x8000, 0x8005]

/-- `divider_index`: where the register of a divider stands. -/
def dividerIndex (d : ℕ) : ℕ := [4, 5, 6, 9, 10, 11, 12].getD d 0

def commandAddress : ℕ := 0x01c11138

def indexOf (address : ℕ) : Option ℕ := offsets.findIdx? fun offset ↦ address = 0x01c11000 + offset

def ratio (divider : Word) : ℕ := if divider &&& 0x8000 ≠ 0 then (divider &&& 31).toNat + 1 else 1

/-- `enabled_ratio`: a divider that is off has no ratio. -/
def enabledRatio (divider : Word) : Option ℕ :=
  if divider &&& 0x8000 = 0 then none else some ((divider &&& 31).toNat + 1)

namespace State

variable (s : State)

/-- PLLM + 1. -/
def multiplier : ℕ := (s.config 2).toNat + 1

theorem exists_lockWait :
    ∃ wait, 4000000 * ratio (s.config 3) * ratio (s.config 3) ≤ wait * wait * s.multiplier :=
  ⟨4000000 * ratio (s.config 3) * ratio (s.config 3),
    Nat.le_trans (Nat.le_mul_self _) (Nat.le_mul_of_pos_right _ (Nat.succ_pos _))⟩

/-- `lock_wait`: the OSCIN periods that are not less than 2000 N / √M. -/
def lockWait : ℕ := Nat.find s.exists_lockWait

def ValidOperatingPoint : Prop :=
  let n := ratio (s.config 3)
  let m := s.multiplier
  12000000 * n ≤ oscinHz ∧ oscinHz ≤ 50000000 * n ∧ 4 ≤ m ∧ m ≤ 32 ∧
    300000000 * n ≤ oscinHz * m ∧ oscinHz * m ≤ 600000000 * n

instance : Decidable s.ValidOperatingPoint := inferInstanceAs (Decidable (_ ∧ _))

/-- `cdj_c6747_pll_sysclk_hz`: SYSCLKn as a numerator and a denominator. -/
def sysclkHz (n : ℕ) : Option (ℕ × ℕ) :=
  if n < 1 ∨ 7 < n then none
  else do
    let sysdiv ← enabledRatio (s.activeDividers (n - 1))
    if s.config 0 &&& 1 = 0 then return (oscinHz, sysdiv)
    let prediv ← enabledRatio (s.config 3)
    let postdiv ← enabledRatio (s.config 8)
    return (oscinHz * s.multiplier, prediv * postdiv * sysdiv)

def reset : State where
  config i := defaults.getD i 0
  legacyBit4Used := false
  activeDividers d := defaults.getD (dividerIndex d) 0
  targetDividers d := defaults.getD (dividerIndex d) 0
  command := 0
  goRemaining := 0
  oscinCycles := 0
  resetAge := 0
  lockWaitRemaining := 0
  oscinPhase := 0
  earlyEnable := false

/-- The OSCIN periods of one DSP cycle in PLL mode are `period / multiplier`. -/
def period : ℕ := ratio (s.config 3) * ratio (s.config 8) * ratio (s.activeDividers 0)

def elapsed : ℕ :=
  if s.config 0 &&& 1 ≠ 0 then (s.oscinPhase + s.period) / s.multiplier else ratio (s.activeDividers 0)

def tick : State :=
  { s with
    oscinPhase := if s.config 0 &&& 1 ≠ 0 then (s.oscinPhase + s.period) % s.multiplier else 0
    oscinCycles := s.oscinCycles + s.elapsed
    resetAge :=
      if s.config 0 &&& 0x12b = 0x100 ∧ s.resetAge < 17 then min (s.resetAge + s.elapsed) 17 else s.resetAge
    lockWaitRemaining := s.lockWaitRemaining - s.elapsed
    goRemaining := s.goRemaining - 1
    activeDividers := if s.goRemaining = 1 then s.targetDividers else s.activeDividers }

def read (address : ℕ) : Option Word :=
  if address = commandAddress then some s.command
  else if address = 0x01c1113c then some (if s.goRemaining ≠ 0 then 5 else 4)
  else (indexOf address).map s.config

/-- The bits of a register. -/
def mask : ℕ → Word
  | 0 => 0x1fb
  | 1 | 2 => 31
  | _ => 0x801f

/-- What `cdj_c6747_pll_write` asks of a value for PLLCTL. -/
def AcceptsControl (value : Word) : Prop :=
  (value &&& 1 ≠ 0 → value &&& 0x129 = 0x109 ∧ 17 ≤ s.resetAge ∧ s.ValidOperatingPoint) ∧
    (value &&& 8 ≠ 0 → value &&& 0x122 = 0x100 ∧ 17 ≤ s.resetAge ∧ s.ValidOperatingPoint ∧
      (s.config 0 &&& 8 ≠ 0 → (value ^^^ s.config 0) &&& ~~~1 = 0))

instance (value : Word) : Decidable (s.AcceptsControl value) := inferInstanceAs (Decidable (_ ∧ _))

/-- `cdj_c6747_pll_write`, the effects on PLLCTL. -/
def storeControl (value : Word) : State :=
  let enable := value &&& 1 ≠ 0 ∧ s.config 0 &&& 1 = 0
  let wait := if value &&& 8 ≠ 0 ∧ s.config 0 &&& 8 = 0 then s.lockWait else s.lockWaitRemaining
  let wait := if value &&& 8 = 0 then 0 else wait
  { s with
    lockWaitRemaining := wait
    resetAge :=
      if value &&& 0x122 ≠ 0x100 ∨ value &&& 8 = 0 ∧ s.config 0 &&& 8 ≠ 0 then 0 else s.resetAge
    oscinPhase := if (value ^^^ s.config 0) &&& 1 ≠ 0 then 0 else s.oscinPhase
    earlyEnable := s.earlyEnable || (enable ∧ wait ≠ 0)
    config := update s.config 0 value
    legacyBit4Used := s.legacyBit4Used || value &&& 16 = 0 }

/-- `cdj_c6747_pll_write`, the store to any other register. -/
def storeRegister (i : ℕ) (value : Word) : State := { s with config := update s.config i value }

/-- `cdj_c6747_pll_write`, of a register of the table. -/
def writeConfig (i : ℕ) (value : Word) (commit : Bool) : Option State :=
  if value &&& ~~~mask i ≠ 0 then none
  else if i ≠ 0 ∧ s.config 0 &&& 8 ≠ 0 ∧ i ∉ [4, 5, 6, 9, 10, 11, 12] then none
  else if i = 0 then
    let value := value ||| 0xc0
    if ¬s.AcceptsControl value then none else some (if commit then s.storeControl value else s)
  else if i = 1 ∧ value ≠ 0x14 ∧ value ≠ 0x1f ∧ (value < 0x17 ∨ 0x1d < value) then none
  else some (if commit then s.storeRegister i value else s)

/-- `cdj_c6747_pll_write`, of PLLCMD. -/
def writeCommand (value : ℕ) : State :=
  let s := { s with command := BitVec.ofNat 32 value }
  if value = 0 then s
  else { s with targetDividers := fun d ↦ s.config (dividerIndex d), goRemaining := 8 }

/-- `cdj_c6747_pll_write`: refused, or with what is stored. -/
def write (address value size : ℕ) (commit : Bool) : Option State :=
  if address = commandAddress then
    if size ≠ 4 ∨ 1 < value ∨ value ≠ 0 ∧ s.goRemaining ≠ 0 then none
    else some (if commit then s.writeCommand value else s)
  else
    match indexOf address with
    | none => none
    | some i =>
      if size ≠ 4 ∨ 0xffffffff < value ∨ s.goRemaining ≠ 0 then none
      else s.writeConfig i (BitVec.ofNat 32 value) commit

end State

/-- A DSP cycle, or a write on the bus, accepted or not. -/
inductive Event
  | tick
  | write (address value size : ℕ) (commit : Bool)
  deriving DecidableEq

namespace State

variable {s s' : State} {events : List Event}

def step (s : State) : Event → State
  | .tick => s.tick
  | .write address value size commit => (s.write address value size commit).getD s

def after (events : List Event) : State := events.foldl step reset

theorem after_snoc (e : Event) : after (events ++ [e]) = (after events).step e := List.foldl_append

/-- What one event can do. -/
inductive Takes (s : State) : Event → State → Prop
  | ticks : Takes s .tick s.tick
  | stays {address value size : ℕ} {commit : Bool} : Takes s (.write address value size commit) s
  | control {address word size : ℕ} {commit : Bool} (value : Word) (settled : s.goRemaining = 0)
      (accepted : s.AcceptsControl value) : Takes s (.write address word size commit) (s.storeControl value)
  | register {address word size : ℕ} {commit : Bool} (i : ℕ) (value : Word) (settled : s.goRemaining = 0)
      (other : i ≠ 0) (free : s.config 0 &&& 8 ≠ 0 → i ∈ [4, 5, 6, 9, 10, 11, 12]) :
      Takes s (.write address word size commit) (s.storeRegister i value)
  | command (value : ℕ) (bound : value ≤ 1) (settled : value ≠ 0 → s.goRemaining = 0) :
      Takes s (.write commandAddress value 4 true) (s.writeCommand value)

section Writes

variable {c : Prop} [Decidable c] {x y : Option State} {address word size i : ℕ} {commit : Bool}
  {value : Word} {e : Event}

theorem takes_ite (h : c → s.Takes e (x.getD s)) (h' : ¬c → s.Takes e (y.getD s)) :
    s.Takes e ((if c then x else y).getD s) := by
  split_ifs with hc
  · exact h hc
  · exact h' hc

theorem takes_commit {address word size : ℕ} {b : Bool} (h : c → s.Takes (.write address word size b) s') :
    s.Takes (.write address word size b) ((some (if c then s' else s)).getD s) := by
  split_ifs with hc
  · exact h hc
  · exact .stays

theorem takes_writeConfig {commit' : Bool} (settled : s.goRemaining = 0) :
    s.Takes (.write address word size commit') ((s.writeConfig i value commit).getD s) := by
  refine takes_ite (fun _ ↦ .stays) fun _ ↦ takes_ite (fun _ ↦ .stays) fun hfree ↦
    takes_ite (fun _ ↦ ?_) fun hi ↦
    takes_ite (fun _ ↦ .stays) fun _ ↦ takes_commit fun _ ↦ ?_
  · exact takes_ite (fun _ ↦ .stays) fun haccepted ↦ takes_commit fun _ ↦
      .control _ settled (not_not.mp haccepted)
  · refine .register i value settled hi fun hreleased ↦ ?_
    by_contra hlisted
    exact hfree ⟨hi, hreleased, hlisted⟩

theorem takes_writeCommand {value : ℕ} (haddress : address = commandAddress) (hsize : size = 4) (hbound : value ≤ 1)
    (hsettled : value ≠ 0 → s.goRemaining = 0) :
    s.Takes (.write address value size commit) ((some (if commit then s.writeCommand value else s)).getD s) := by
  refine takes_commit fun hcommit ↦ ?_
  subst haddress hsize hcommit
  exact .command value hbound hsettled

theorem takes_step (s : State) (e : Event) : s.Takes e (s.step e) := by
  cases e with
  | tick => exact .ticks
  | write address value size commit =>
    refine takes_ite (fun haddress ↦ takes_ite (fun _ ↦ .stays) fun hrefused ↦ ?_) fun _ ↦ ?_
    · simp only [not_or, not_not, not_and, not_lt] at hrefused
      exact takes_writeCommand haddress hrefused.1 hrefused.2.1 hrefused.2.2
    · split
      · exact .stays
      · refine takes_ite (fun _ ↦ .stays) fun hrefused ↦ takes_writeConfig ?_
        by_contra hbusy
        exact hrefused (.inr (.inr hbusy))

end Writes

section Bits

variable {value a b c : Word}

theorem and_of_and (h : value &&& a = b) : value &&& (a &&& c) = b &&& c := by
  rw [← BitVec.and_assoc, h]

/-- PLLCTL says that the PLL is powered, on OSCIN, bypassed and held in reset. -/
def Held (s : State) : Prop := s.config 0 &&& 0x12b = 0x100

def Released (s : State) : Prop := s.config 0 &&& 8 ≠ 0

theorem released_of_enabled (h : value &&& 0x129 = 0x109) : value &&& 8 ≠ 0 := by
  have hbit : value &&& 8 = 8 := and_of_and (c := 8) h
  rw [hbit]
  decide

theorem held_of_parts (h : value &&& 0x122 = 0x100) (hbypass : value &&& 1 = 0) (hreset : value &&& 8 = 0) :
    value &&& 0x12b = 0x100 := by
  have hparts : (0x12b : Word) = 0x122 ||| 1 ||| 8 := by decide
  rw [hparts, BitVec.and_or_distrib_left, BitVec.and_or_distrib_left, h, hbypass, hreset]
  decide

end Bits

section Release

/-- What holds of the PLL whatever is written to it. -/
structure Sound (s : State) : Prop where
  age : s.resetAge ≤ 17
  released : s.Released → s.resetAge = 17 ∧ s.ValidOperatingPoint ∧ s.config 0 &&& 0x122 = 0x100
  enabled : s.config 0 &&& 1 ≠ 0 → s.Released

theorem ValidOperatingPoint.of_same (h : s.ValidOperatingPoint) (hm : s'.config 2 = s.config 2)
    (hn : s'.config 3 = s.config 3) : s'.ValidOperatingPoint := by
  unfold ValidOperatingPoint multiplier at h ⊢
  rwa [hm, hn]

section Stores

variable {i j : ℕ} {value : Word}

@[simp] theorem storeControl_control : (s.storeControl value).config 0 = value := by
  simp only [storeControl, update_self]

theorem storeControl_config (h : j ≠ 0) : (s.storeControl value).config j = s.config j := by
  simp only [storeControl, update_of_ne h]

theorem storeRegister_control (value : Word) (h : i ≠ 0) : (s.storeRegister i value).config 0 = s.config 0 :=
  update_of_ne h.symm _ _

theorem storeRegister_factor (hlisted : i ∈ [4, 5, 6, 9, 10, 11, 12]) (hj : j = 2 ∨ j = 3) :
    (s.storeRegister i value).config j = s.config j := by
  refine update_of_ne ?_ _ _
  rintro rfl
  rcases hj with rfl | rfl <;> revert hlisted <;> decide

theorem writeCommand_config (value : ℕ) : (s.writeCommand value).config = s.config := by
  unfold writeCommand
  split_ifs <;> rfl

theorem writeCommand_times {value : ℕ} : (s.writeCommand value).resetAge = s.resetAge ∧
    (s.writeCommand value).oscinCycles = s.oscinCycles ∧
    (s.writeCommand value).lockWaitRemaining = s.lockWaitRemaining := by
  unfold writeCommand
  split_ifs <;> exact ⟨rfl, rfl, rfl⟩

theorem storeControl_age (hbits : value &&& 0x122 = 0x100) (hreset : value &&& 8 = 0 → ¬s.Released) :
    (s.storeControl value).resetAge = s.resetAge := by
  refine if_neg ?_
  rintro (h | ⟨h, hreleased⟩)
  · exact h hbits
  · exact hreset h hreleased

end Stores

theorem Sound.takes {e : Event} (h : s.Sound) (ht : s.Takes e s') : s'.Sound := by
  cases ht with
  | stays => exact h
  | ticks =>
    refine ⟨?_, fun hreleased ↦ ?_, h.enabled⟩
    · unfold tick
      dsimp only
      split_ifs
      · exact Nat.min_le_right _ _
      · exact h.age
    · obtain ⟨hage, hvalid, hcontrol⟩ := h.released hreleased
      have hkept : s.tick.resetAge = s.resetAge := if_neg fun hheld ↦ Nat.ne_of_lt hheld.2 hage
      exact ⟨hkept.trans hage, hvalid, hcontrol⟩
  | control value settled accepted =>
    refine ⟨?_, fun hreleased ↦ ?_, fun henabled ↦ ?_⟩
    · unfold storeControl
      dsimp only
      split_ifs
      · exact Nat.zero_le _
      · exact h.age
    · rw [Released, storeControl_control] at hreleased
      obtain ⟨hbits, hage, hvalid, -⟩ := accepted.2 hreleased
      refine ⟨?_, hvalid.of_same (storeControl_config (by decide)) (storeControl_config (by decide)), ?_⟩
      · rw [storeControl_age hbits fun hreset ↦ absurd hreset hreleased]
        exact le_antisymm h.age hage
      · rwa [storeControl_control]
    · rw [storeControl_control] at henabled
      rw [Released, storeControl_control]
      exact released_of_enabled (accepted.1 henabled).1
  | register i value settled other free =>
    have hcontrol := storeRegister_control (s := s) value other
    refine ⟨h.age, fun hreleased ↦ ?_, fun henabled ↦ ?_⟩
    · rw [Released, hcontrol] at hreleased
      obtain ⟨hage, hvalid, hbits⟩ := h.released hreleased
      have hlisted := free hreleased
      exact ⟨hage, hvalid.of_same (storeRegister_factor hlisted (.inl rfl)) (storeRegister_factor hlisted (.inr rfl)),
        hcontrol ▸ hbits⟩
    · rw [hcontrol] at henabled
      rw [Released, hcontrol]
      exact h.enabled henabled
  | command value bound settled =>
    have hconfig := writeCommand_config (s := s) value
    refine ⟨writeCommand_times.1.symm ▸ h.age, fun hreleased ↦ ?_, fun henabled ↦ ?_⟩
    · rw [Released, hconfig] at hreleased
      obtain ⟨hage, hvalid, hbits⟩ := h.released hreleased
      refine ⟨writeCommand_times.1.trans hage, hvalid.of_same ?_ ?_, hconfig ▸ hbits⟩ <;> rw [hconfig]
    · rw [hconfig] at henabled
      rw [Released, hconfig]
      exact h.enabled henabled

theorem sound_after (events : List Event) : (after events).Sound := by
  induction events using List.reverseRecOn with
  | nil => exact ⟨by decide, fun h ↦ absurd rfl h, fun h ↦ absurd rfl h⟩
  | append_singleton events e ih =>
    rw [after_snoc]
    exact ih.takes (takes_step _ e)

def HeldFor (events : List Event) : Prop :=
  (after events).resetAge = 0 ∨ ∃ before during, events = before ++ during ∧
    Lasts step reset Held before during ∧
    (after before).oscinCycles + (after events).resetAge ≤ (after events).oscinCycles

def ReleasedSince (events : List Event) : Prop := ∃ before during e rest, events = before ++ during ++ e :: rest ∧
  Lasts step reset Held before during ∧
  (after before).oscinCycles + 17 ≤ (after (before ++ during)).oscinCycles ∧
  Lasts step reset Released (before ++ during ++ [e]) rest

variable {e : Event}

/-- The stretch goes on where the age does not grow faster than the time. -/
theorem HeldFor.snoc (h : HeldFor events) (hage : (after (events ++ [e])).resetAge = (after events).resetAge)
    (htime : (after events).oscinCycles ≤ (after (events ++ [e])).oscinCycles)
    (hheld : (after events).Held → (after (events ++ [e])).Held) : HeldFor (events ++ [e]) := by
  rcases h with hzero | ⟨before, during, rfl, hlasts, hlong⟩
  · exact .inl (hage.trans hzero)
  · refine .inr ⟨before, during ++ [e], List.append_assoc .., hlasts.snoc (hheld hlasts.last), ?_⟩
    rw [hage]
    exact Nat.le_trans hlong htime

theorem HeldFor.tick (h : HeldFor events) (hnext : after (events ++ [e]) = (after events).tick) :
    HeldFor (events ++ [e]) := by
  have htime : (after (events ++ [e])).oscinCycles = (after events).oscinCycles + (after events).elapsed := by
    rw [hnext, State.tick]
  by_cases hcounts : (after events).Held ∧ (after events).resetAge < 17
  · have hage : (after (events ++ [e])).resetAge = min ((after events).resetAge + (after events).elapsed) 17 := by
      rw [hnext]
      exact if_pos hcounts
    have hheld : (after (events ++ [e])).Held := by
      rw [hnext]
      exact hcounts.1
    rcases h with hzero | ⟨before, during, rfl, hlasts, hlong⟩
    · exact .inr ⟨events, [e], rfl, (lasts_nil hcounts.1).snoc (by rwa [List.append_nil]), by omega⟩
    · exact .inr ⟨before, during ++ [e], List.append_assoc .., Lasts.snoc hlasts hheld, by omega⟩
  · refine h.snoc ?_ (by omega) fun hheld ↦ by rwa [hnext]
    rw [hnext]
    exact if_neg hcounts

theorem HeldFor.takes (h : ¬(after events).Released → HeldFor events) {s' : State} (ht : (after events).Takes e s')
    (hnext : after (events ++ [e]) = s') (hnot : ¬s'.Released) : HeldFor (events ++ [e]) := by
  cases ht with
  | stays => exact (h hnot).snoc (by rw [hnext]) (by rw [hnext]) (by rw [hnext]; exact id)
  | ticks => exact (h hnot).tick hnext
  | control value settled accepted =>
    have hreset : value &&& 8 = 0 := by rwa [Released, storeControl_control, not_not] at hnot
    by_cases hkept : value &&& 0x122 = 0x100 ∧ ¬(after events).Released
    · refine (h hkept.2).snoc ?_ (by rw [hnext]; exact Nat.le_refl _) fun _ ↦ ?_
      · rw [hnext, storeControl_age hkept.1 fun _ ↦ hkept.2]
      · have hbypass : value &&& 1 = 0 := by
          by_contra henable
          exact released_of_enabled (accepted.1 henable).1 hreset
        rw [hnext, Held, storeControl_control]
        exact held_of_parts hkept.1 hbypass hreset
    · refine .inl ?_
      rw [hnext]
      refine if_pos ?_
      by_contra hother
      rw [not_or, not_not, not_and, not_not] at hother
      exact hkept ⟨hother.1, not_not.mpr (hother.2 hreset)⟩
  | register i value settled other free =>
    have hcontrol := storeRegister_control (s := after events) value other
    rw [Released, hcontrol] at hnot
    refine (h hnot).snoc (by rw [hnext]; rfl) (by rw [hnext]; exact Nat.le_refl _) fun hheld ↦ ?_
    rwa [hnext, Held, hcontrol]
  | command value bound settled =>
    have hconfig := writeCommand_config (s := after events) value
    rw [Released, hconfig] at hnot
    refine (h hnot).snoc ?_ ?_ fun hheld ↦ ?_
    · rw [hnext, writeCommand_times.1]
    · rw [hnext, writeCommand_times.2.1]
    · rwa [hnext, Held, hconfig]

/-- The PLL leaves reset by one kind of step only. -/
theorem Takes.releases (ht : s.Takes e s') (hbefore : ¬s.Released) (hafter : s'.Released) : 17 ≤ s.resetAge := by
  cases ht with
  | stays => exact absurd hafter hbefore
  | ticks => exact absurd hafter hbefore
  | control value settled accepted =>
    rw [Released, storeControl_control] at hafter
    exact (accepted.2 hafter).2.1
  | register i value settled other free =>
    rw [Released, storeRegister_control value other] at hafter
    exact absurd hafter hbefore
  | command value bound settled =>
    rw [Released, writeCommand_config] at hafter
    exact absurd hafter hbefore

theorem release_history (events : List Event) :
    (¬(after events).Released → HeldFor events) ∧ ((after events).Released → ReleasedSince events) := by
  induction events using List.reverseRecOn with
  | nil => exact ⟨fun _ ↦ .inl rfl, fun h ↦ absurd rfl h⟩
  | append_singleton events e ih =>
    have hnext : after (events ++ [e]) = (after events).step e := after_snoc e
    have ht := takes_step (after events) e
    rw [← hnext] at ht
    refine ⟨HeldFor.takes ih.1 ht rfl, fun hafter ↦ ?_⟩
    by_cases hbefore : (after events).Released
    · obtain ⟨before, during, e', rest, rfl, hheld, hlong, hsince⟩ := ih.2 hbefore
      refine ⟨before, during, e', rest ++ [e], by simp, hheld, hlong, Lasts.snoc hsince ?_⟩
      simpa [after] using hafter
    · have hage := ht.releases hbefore hafter
      rcases ih.1 hbefore with hzero | ⟨before, during, rfl, hheld, hlong⟩
      · omega
      · exact ⟨before, during, e, [], rfl, hheld, by omega, lasts_nil hafter⟩

/-- Whenever the PLL is out of reset, its operating point is valid, and it came out of a reset that
was held, with OSCIN as its source and bypassed, over at least 17 OSCIN periods. -/
theorem released_after_hold (events : List Event) (h : (after events).Released) :
    (after events).ValidOperatingPoint ∧ ReleasedSince events :=
  ⟨((sound_after events).released h).2.1, (release_history events).2 h⟩

/-- A start with the PLL held in reset for 17 cycles of bypass. -/
def start : List Event :=
  .write 0x01c11100 0x1d0 4 true :: List.replicate 17 .tick ++ [.write 0x01c11100 0x1d8 4 true]

theorem released_start : (after start).Released := by
  have hcontrol : (after start).config 0 = 0x1d8 := by decide
  rw [Released, hcontrol]
  decide

theorem released_after_hold_start : (after start).ValidOperatingPoint ∧ ReleasedSince start :=
  released_after_hold start released_start

end Release

end State

end Cdj2000Emulator.C6747.Pll
