import Cdj2000Emulator.Timer64.Model

namespace Cdj2000Emulator.Timer64.Checkpointable

open Model

/-- No bit outside the mask is set. -/
def Masked (w mask : Word) : Prop := w &&& ~~~mask = 0

instance (w mask : Word) : Decidable (Masked w mask) := inferInstanceAs (Decidable (_ = _))

section Masked

variable {v w m : Word}

theorem masked_iff : Masked w m ↔ ∀ i, w.getLsbD i = true → m.getLsbD i = true := by
  constructor
  · intro h i hi
    have bit : (w &&& ~~~m).getLsbD i = false := by rw [h]; simp
    have inside : i < 32 := BitVec.lt_of_getLsbD hi
    simpa [hi, inside] using bit
  · intro h
    refine BitVec.eq_of_getLsbD_eq fun i hi ↦ ?_
    by_cases hw : w.getLsbD i
    · simp [hw, hi, h i hw]
    · simp [hw]

theorem masked_zero : Masked 0 m := by simp [Masked]

theorem masked_and_right : Masked (v &&& m) m := by
  rw [masked_iff]
  intro i hi
  rw [BitVec.getLsbD_and, Bool.and_eq_true] at hi
  exact hi.2

theorem Masked.and (h : Masked v m) (w : Word) : Masked (v &&& w) m := by
  rw [masked_iff] at h ⊢
  intro i hi
  rw [BitVec.getLsbD_and, Bool.and_eq_true] at hi
  exact h i hi.1

theorem Masked.or (h : Masked v m) (k : Masked w m) : Masked (v ||| w) m := by
  rw [masked_iff] at h k ⊢
  intro i hi
  rw [BitVec.getLsbD_or, Bool.or_eq_true] at hi
  exact hi.elim (h i) (k i)

theorem Masked.mono {m' : Word} (h : Masked w m) (k : Masked m m') : Masked w m' := by
  rw [masked_iff] at h k ⊢
  exact fun i hi ↦ k i (h i hi)

end Masked

/-- What `state_valid` demands of one timer. -/
structure TimerValid (s : Timer) : Prop where
  shadow : s.tim34ShadowValid.toNat ≤ 1
  emumgt : Masked s.emumgt 0x3
  gpintgpen : Masked s.gpintgpen 0x00030033
  gpdatgpdir : Masked s.gpdatgpdir 0x00030003
  tcr : Masked s.tcr 0x04c03ffe
  tgcr : Masked s.tgcr 0x0000ff1f
  wdtcr : Masked s.wdtcr 0xffffc000
  intctlstat : Masked s.intctlstat 0x000f000f

/-- The checkpoint writer accepts the timers. -/
def TimersValid (timers : Timers) : Prop := ∀ i, TimerValid (timers i)

theorem shadow_le (valid : Bool) : valid.toNat ≤ 1 := by cases valid <;> decide

theorem reset_valid : TimersValid reset := fun _ ↦
  ⟨shadow_le _, masked_zero, masked_zero, masked_zero, masked_zero, masked_zero, masked_zero,
    masked_zero⟩

/-- The registers that the checkpoint constrains. -/
def controls (s : Timer) : Word × Word × Word × Word × Word × Word × Word :=
  (s.emumgt, s.gpintgpen, s.gpdatgpdir, s.tcr, s.tgcr, s.wdtcr, s.intctlstat)

section Frame

variable {s t : Timer}

theorem TimerValid.of_controls (valid : TimerValid s) (h : controls t = controls s) :
    TimerValid t := by
  simp only [controls, Prod.mk.injEq] at h
  obtain ⟨emumgt, gpintgpen, gpdatgpdir, tcr, tgcr, wdtcr, intctlstat⟩ := h
  exact ⟨shadow_le _, emumgt ▸ valid.emumgt, gpintgpen ▸ valid.gpintgpen,
    gpdatgpdir ▸ valid.gpdatgpdir, tcr ▸ valid.tcr, tgcr ▸ valid.tgcr, wdtcr ▸ valid.wdtcr,
    intctlstat ▸ valid.intctlstat⟩

theorem readTim12_controls : controls s.readTim12.1 = controls s := by
  unfold Timer.readTim12
  split_ifs <;> rfl

theorem readTim34_controls : controls s.readTim34.1 = controls s := by
  unfold Timer.readTim34
  simp only
  split_ifs <;> rfl

/-- A read changes counters, periods and captures only. -/
theorem read_controls (offset : ℕ) : controls (s.read offset).1 = controls s := by
  unfold Timer.read
  split_ifs
  · rfl
  · exact readTim12_controls
  · exact readTim34_controls
  · rfl

theorem tickDual12_controls : controls s.tickDual12.1 = controls s := by
  unfold Timer.tickDual12
  split_ifs <;> rfl

theorem tickChained_controls : controls s.tickChained.1 = controls s := by
  unfold Timer.tickChained
  simp only
  split_ifs <;> rfl

theorem tickWide_controls : controls s.tickWide.1 = controls s := rfl

end Frame

def Carries (s : Timer) : Prop :=
  s.mode = 1 ∧ s.counts34 = true ∧ s.tddr34 = 15 ∧ s.psc34 ≠ 15

instance (s : Timer) : Decidable (Carries s) := inferInstanceAs (Decidable (_ ∧ _))

theorem tddr34_masked : ∀ n < 16, Masked (BitVec.ofNat 32 n <<< 12) 0x0000ff1f := by decide

theorem tddr34_lt (s : Timer) : s.tddr34 < 16 := Nat.mod_lt _ (by decide)

/-- The prescaler keeps TGCR within its fields unless it carries. -/
theorem tickDual34_valid {s : Timer} (valid : TimerValid s) (mode : s.mode = 1)
    (quiet : ¬Carries s) : TimerValid s.tickDual34.1 := by
  have bound := tddr34_lt s
  unfold Timer.tickDual34
  split_ifs with counts matched
  · have cleared : TimerValid { s with tgcr := s.tgcr &&& ~~~0xf000#32 } :=
      { valid with tgcr := valid.tgcr.and _ }
    exact cleared.of_controls rfl
  · refine { valid with tgcr := (valid.tgcr.and _).or (tddr34_masked _ ?_) }
    by_contra overflow
    exact quiet ⟨mode, counts, by omega, by omega⟩
  · exact valid

theorem tickDual12_carries {s : Timer} : Carries s.tickDual12.1 ↔ Carries s := by
  unfold Timer.tickDual12
  split_ifs <;> rfl

theorem tickDual12_mode {s : Timer} : s.tickDual12.1.mode = s.mode := by
  unfold Timer.tickDual12
  split_ifs <;> rfl

theorem tickOne_valid {s : Timer} (valid : TimerValid s) (quiet : ¬Carries s) :
    TimerValid s.tickOne.1 := by
  unfold Timer.tickOne
  split_ifs with watchdog dual stopped chained
  · exact valid
  · exact tickDual34_valid (valid.of_controls tickDual12_controls) (tickDual12_mode.trans dual)
      (tickDual12_carries.not.mpr quiet)
  · exact valid
  · exact valid.of_controls tickChained_controls
  · exact valid.of_controls tickWide_controls

theorem latch_valid {s : Timer} (valid : TimerValid s) {fired : Word} {output status : ℕ}
    (field : Masked (BitVec.twoPow 32 status) 0x000f000f) :
    TimerValid (latch s fired output status).1 := by
  unfold latch
  simp only
  split
  · exact { valid with intctlstat := valid.intctlstat.or field }
  · exact valid

theorem tickTimer_valid {s : Timer} (valid : TimerValid s) (quiet : ¬Carries s) :
    TimerValid s.tick.1 := by
  unfold Timer.tick
  split_ifs
  · exact valid
  · exact latch_valid (latch_valid (tickOne_valid valid quiet) (by decide)) (by decide)

theorem writeTgcr_valid {s : Timer} (valid : TimerValid s) (word : Word) :
    TimerValid (s.writeTgcr word) := by
  have written : TimerValid { s with tgcr := word &&& tgcrWriteMask } :=
    { valid with tgcr := masked_and_right }
  refine written.of_controls ?_
  unfold Timer.writeTgcr
  simp only
  split_ifs <;> rfl

theorem writeWdtcr_valid {s : Timer} (valid : TimerValid s) (word : Word) :
    TimerValid (s.writeWdtcr word) := by
  have status : Masked (if word.getLsbD 15 then 0 else s.wdtcr &&& 0x8000#32) 0xffffc000 := by
    split_ifs
    · exact masked_zero
    · exact valid.wdtcr.and _
  exact { valid with
    wdtcr := (masked_and_right.mono (by decide)).or status }

theorem writeIntctlstat_valid {s : Timer} (valid : TimerValid s) (word : Word) :
    TimerValid (s.writeIntctlstat word) :=
  { valid with
    intctlstat := ((valid.intctlstat.and _).and _).or (masked_and_right.mono (by decide)) }

theorem forall_mem_case {c : Prop} [Decidable c] {s : Timer} {x : Option Timer}
    (hs : TimerValid s) (hx : ∀ t ∈ x, TimerValid t) :
    ∀ t ∈ if c then some s else x, TimerValid t := by
  split_ifs
  · rintro t ⟨⟩
    exact hs
  · exact hx

theorem writeRegister_valid {s : Timer} (valid : TimerValid s) (offset : ℕ) (word : Word) :
    ∀ t ∈ s.writeRegister offset word, TimerValid t := by
  have kept {t : Timer} (h : controls t = controls s) : TimerValid t := valid.of_controls h
  unfold Timer.writeRegister
  refine forall_mem_case { valid with emumgt := masked_and_right } ?_
  refine forall_mem_case { valid with gpintgpen := masked_and_right } ?_
  refine forall_mem_case { valid with gpdatgpdir := masked_and_right } ?_
  refine forall_mem_case (kept rfl) (forall_mem_case (kept rfl) ?_)
  refine forall_mem_case (kept rfl) (forall_mem_case (kept rfl) ?_)
  refine forall_mem_case { valid with tcr := masked_and_right } ?_
  refine forall_mem_case (writeTgcr_valid valid word) ?_
  refine forall_mem_case (writeWdtcr_valid valid word) ?_
  refine forall_mem_case (kept rfl) (forall_mem_case (kept rfl) ?_)
  refine forall_mem_case (kept rfl) (forall_mem_case (kept rfl) ?_)
  refine forall_mem_case (writeIntctlstat_valid valid word) ?_
  split_ifs
  · rintro t ⟨⟩
  · rintro t ⟨⟩
    exact kept rfl

theorem update_valid {timers : Timers} (valid : TimersValid timers) (i : Fin 2) {s : Timer}
    (hs : TimerValid s) : TimersValid (Function.update timers i s) := by
  intro j
  by_cases h : j = i
  · subst h
    rwa [Function.update_self]
  · rw [Function.update_of_ne h]
    exact valid j

theorem read_valid {timers : Timers} (valid : TimersValid timers) (address : Word) :
    TimersValid (Model.read timers address).1 := by
  unfold Model.read
  split
  · exact valid
  · exact update_valid valid _ ((valid _).of_controls (read_controls _))

theorem write_valid {timers : Timers} (valid : TimersValid timers) (address : Word) (value : Long)
    (size : ℕ) (commit : Bool) : TimersValid (write timers address value size commit).1 := by
  unfold write
  split
  · exact valid
  next i offset _ =>
    split_ifs with refused committed
    · exact valid
    · split
      · exact valid
      next s written =>
        exact update_valid valid i (writeRegister_valid (valid i) offset _ s written)
    · split
      · exact valid
      · exact valid

theorem latch_tgcr (s : Timer) (fired : Word) (output status : ℕ) :
    (latch s fired output status).1.tgcr = s.tgcr := by
  unfold latch
  simp only
  split <;> rfl

theorem carried_dual34 {s : Timer} (h : Carries s) :
    s.tickDual34.1.tgcr = (s.tgcr &&& ~~~0xf000#32) ||| 0x10000#32 := by
  obtain ⟨-, counts, carry, above⟩ := h
  have apart : s.tddr34 ≠ s.psc34 := by omega
  unfold Timer.tickDual34
  rw [if_pos counts, if_neg apart, carry]
  rfl

/-- The carry sets a bit that the checkpoint forbids. -/
theorem carried_invalid {s : Timer} (h : Carries s) : ¬TimerValid s.tick.1 := by
  intro valid
  have released : ¬(¬s.tgcr.getLsbD 0 ∧ ¬s.tgcr.getLsbD 1) := by
    have counts := h.2.1
    simp only [Timer.counts34, Bool.and_eq_true] at counts
    simp [counts.1.1]
  have ticked : s.tick.1.tgcr = s.tickDual12.1.tickDual34.1.tgcr := by
    unfold Timer.tick
    rw [if_neg released]
    simp only [latch_tgcr, Timer.tickOne, h.1]
    rfl
  have tgcr := valid.tgcr
  rw [ticked, carried_dual34 (tickDual12_carries.mpr h), masked_iff] at tgcr
  have forbidden := tgcr 16 (by simp)
  revert forbidden
  decide

theorem tick_valid_iff {timers : Timers} (valid : TimersValid timers) :
    TimersValid (tick timers).1 ↔ ∀ i, ¬Carries (timers i) :=
  ⟨fun h i carries ↦ carried_invalid carries (h i), fun quiet i ↦ tickTimer_valid (valid i) (quiet i)⟩

/-- A call on the timers, by the CPU's bus or by its cycle tick. -/
inductive Call
  | read (address : Word)
  | write (address : Word) (value : Long) (size : ℕ) (commit : Bool)
  | tick

def perform (timers : Timers) : Call → Timers
  | .read address => (Model.read timers address).1
  | .write address value size commit => (write timers address value size commit).1
  | .tick => (tick timers).1

def run (timers : Timers) (calls : List Call) : Timers := calls.foldl perform timers

def Steady (timers : Timers) : Call → Prop
  | .tick => ∀ i, ¬Carries (timers i)
  | _ => True

def SteadyRun : Timers → List Call → Prop
  | _, [] => True
  | timers, call :: calls => Steady timers call ∧ SteadyRun (perform timers call) calls

theorem perform_valid {timers : Timers} (valid : TimersValid timers) {call : Call}
    (steady : Steady timers call) : TimersValid (perform timers call) := by
  cases call with
  | read address => exact read_valid valid address
  | write address value size commit => exact write_valid valid address value size commit
  | tick => exact (tick_valid_iff valid).mpr steady

theorem run_valid {timers : Timers} (valid : TimersValid timers) {calls : List Call}
    (steady : SteadyRun timers calls) : TimersValid (run timers calls) := by
  induction calls generalizing timers with
  | nil => exact valid
  | cons call calls ih => exact ih (perform_valid valid steady.1) steady.2

/-- From reset, steady calls never make the checkpoint writer refuse a timer. -/
theorem valid_of_steadyRun (calls : List Call) (steady : SteadyRun reset calls) :
    TimersValid (run reset calls) := run_valid reset_valid steady

def prescaledTick (tgcr : Long) : List Call :=
  [.write 0x01c20024 tgcr 4 true, .write 0x01c20020 0x00400000 4 true, .tick]

theorem valid_of_steadyRun_prescaled : TimersValid (run reset (prescaledTick 0x5706)) :=
  valid_of_steadyRun (prescaledTick 0x5706) (by
    refine ⟨trivial, trivial, ?_, trivial⟩
    change ∀ i, ¬Carries _
    decide +kernel)

/-- TDDR34 written above PSC34 counts up to 15 and carries into a reserved TGCR bit. -/
theorem invalid_carried : ¬TimersValid (run reset (prescaledTick 0xf006)) := by
  intro h
  have := (h 0).tgcr
  revert this
  decide +kernel

end Cdj2000Emulator.Timer64.Checkpointable
