import Cdj2000Emulator.C6747.Pll

namespace Cdj2000Emulator.C6747.Pll

open Function Library.Since

/-- The write to PLLCMD that begins an alignment of the dividers. -/
def go : Event := .write commandAddress 1 4 true

namespace State

variable {s s' : State} {e : Event} {before during events rest : List Event}

section Alignment

/-- What a step leaves as it is while no alignment begins. -/
structure Keeps (s s' : State) : Prop where
  remaining : s'.goRemaining = s.goRemaining
  active : s'.activeDividers = s.activeDividers
  target : s'.targetDividers = s.targetDividers
  config : s.goRemaining ≠ 0 → s'.config = s.config

theorem Takes.keeps (ht : s.Takes e s') (htick : e ≠ .tick) (hgo : e = go → s.goRemaining ≠ 0) : s.Keeps s' := by
  cases ht with
  | ticks => exact absurd rfl htick
  | stays => exact ⟨rfl, rfl, rfl, fun _ ↦ rfl⟩
  | control value settled accepted => exact ⟨rfl, rfl, rfl, fun hbusy ↦ absurd settled hbusy⟩
  | register i value settled other free => exact ⟨rfl, rfl, rfl, fun hbusy ↦ absurd settled hbusy⟩
  | command value bound settled =>
    have hzero : value = 0 := by
      by_contra hvalue
      obtain rfl : value = 1 := by omega
      exact hgo rfl (settled hvalue)
    subst hzero
    exact ⟨rfl, rfl, rfl, fun _ ↦ rfl⟩

def dividers (s : State) : ℕ → Word := fun d ↦ s.config (dividerIndex d)

/-- An alignment that began in the state `s`, after `n` DSP cycles. -/
structure Aligning (s : State) (n : ℕ) (s' : State) : Prop where
  remaining : s'.goRemaining = 8 - n
  pending : n < 8 → s'.activeDividers = s.activeDividers ∧ s'.config = s.config ∧ s'.targetDividers = s.dividers
  complete : 8 ≤ n → s'.activeDividers = s.dividers

theorem aligning_go (h : s.goRemaining = 0) : s.Aligning 0 (s.step go) := by
  have hstep : s.step go = s.writeCommand 1 := by
    simp only [go, step, write, if_true, h]
    rfl
  rw [hstep]
  exact ⟨rfl, fun _ ↦ ⟨rfl, rfl, rfl⟩, fun h ↦ absurd h (by decide)⟩

theorem Aligning.tick {n : ℕ} (h : s.Aligning n s') : s.Aligning (n + 1) s'.tick := by
  have hremaining := h.remaining
  refine ⟨?_, fun hpending ↦ ?_, fun hcomplete ↦ ?_⟩
  · have hnext : s'.tick.goRemaining = s'.goRemaining - 1 := rfl
    omega
  · obtain ⟨hactive, hconfig, htarget⟩ := h.pending (by omega)
    exact ⟨(if_neg (by omega)).trans hactive, hconfig, htarget⟩
  · rcases Nat.lt_or_ge n 8 with hlast | hpast
    · exact (if_pos (by omega)).trans (h.pending hlast).2.2
    · exact (if_neg (by omega)).trans (h.complete hpast)

theorem Aligning.keeps {n : ℕ} {s'' : State} (h : s.Aligning n s') (hk : s'.Keeps s'') : s.Aligning n s'' := by
  have hremaining := h.remaining
  refine ⟨hk.remaining.trans hremaining, fun hpending ↦ ?_,
    fun hcomplete ↦ hk.active.trans (h.complete hcomplete)⟩
  obtain ⟨hactive, hconfig, htarget⟩ := h.pending hpending
  have hbusy : s'.goRemaining ≠ 0 := by omega
  exact ⟨hk.active.trans hactive, (hk.config hbusy).trans hconfig, hk.target.trans htarget⟩

/-- An accepted GO takes effect at its eighth DSP cycle: before that nothing can be reprogrammed, and
the dividers are then as their registers were at the GO, until another GO. -/
theorem go_takes_effect (before rest : List Event) (h : (after before).goRemaining = 0)
    (hlatest : ∀ x y, rest = x ++ go :: y → x.count .tick < 8) :
    (after before).Aligning (rest.count .tick) (after (before ++ go :: rest)) := by
  induction rest using List.reverseRecOn with
  | nil =>
    rw [after_snoc]
    exact aligning_go h
  | append_singleton rest e ih =>
    have hprefix := ih fun x y hrest ↦ hlatest x (y ++ [e]) (by rw [hrest, List.append_assoc, List.cons_append])
    have hrun : after (before ++ go :: (rest ++ [e])) = (after (before ++ go :: rest)).step e := by
      rw [← after_snoc, List.append_assoc, List.cons_append]
    rw [hrun, List.count_append]
    by_cases htick : e = .tick
    · subst htick
      exact hprefix.tick
    · have hcount : [e].count .tick = 0 := List.count_eq_zero.mpr (by simpa using Ne.symm htick)
      rw [hcount]
      refine hprefix.keeps ((takes_step _ e).keeps htick fun hgo ↦ ?_)
      have hearly := hlatest rest [] (by rw [hgo])
      have hremaining := hprefix.remaining
      omega

def programmed : List Event := start ++ [.write 0x01c11118 0x8003 4 true]

theorem go_takes_effect_programmed :
    (after programmed).Aligning 8 (after (programmed ++ go :: (List.replicate 7 .tick ++ [go, .tick]))) := by
  refine go_takes_effect programmed (List.replicate 7 .tick ++ [go, .tick]) (by decide) fun x y h ↦ ?_
  have hshort : x.length < 9 := by
    have hlength := congrArg List.length h
    simp only [List.length_append, List.length_cons, List.length_replicate, List.length_nil] at hlength
    omega
  have hcount : x.count Event.tick ≤ (List.replicate 7 Event.tick ++ [go]).count .tick := by
    refine List.Sublist.count_le _ (List.IsPrefix.sublist ?_)
    have hwhole : List.replicate 7 Event.tick ++ [go] <+: x ++ go :: y := ⟨[.tick], by rw [← h]; rfl⟩
    exact List.prefix_of_prefix_length_le (List.prefix_append _ _) hwhole (Nat.le_of_lt_succ hshort)
  exact Nat.lt_of_le_of_lt hcount (by decide)

end Alignment

section Exact

def Enabled (s : State) : Prop := s.config 0 &&& 1 ≠ 0

/-- The part of an OSCIN period that has elapsed is less than the whole, and none in bypass. -/
structure Phased (s : State) : Prop where
  bypass : ¬s.Enabled → s.oscinPhase = 0
  bound : s.oscinPhase < s.multiplier

theorem multiplier_pos : 0 < s.multiplier := Nat.succ_pos _

theorem multiplier_congr (h : s'.config 2 = s.config 2) : s'.multiplier = s.multiplier := by
  rw [multiplier, multiplier, h]

theorem bit_of_ne {value : Word} (h : value &&& 1 ≠ 0) : value &&& 1 = 1 := by
  have hbit : (value &&& 1).toNat = value.toNat % 2 := by
    rw [BitVec.toNat_and]
    exact Nat.and_one_is_mod _
  have hne : (value &&& 1).toNat ≠ 0 := fun hzero ↦ h (BitVec.eq_of_toNat_eq hzero)
  have hone : (1 : Word).toNat = 1 := rfl
  refine BitVec.eq_of_toNat_eq ?_
  omega

theorem storeControl_multiplier {value : Word} : (s.storeControl value).multiplier = s.multiplier :=
  multiplier_congr (storeControl_config (by decide))

theorem xor_and {a b m : Word} : (a ^^^ b) &&& m = (a &&& m) ^^^ (b &&& m) := by
  ext i hi
  simp only [BitVec.getElem_and, BitVec.getElem_xor, Bool.and_xor_distrib_right]

theorem storeControl_phase {value : Word} (h : value &&& 1 = s.config 0 &&& 1) :
    (s.storeControl value).oscinPhase = s.oscinPhase := by
  refine if_neg (not_not.mpr ?_)
  rw [xor_and, h, BitVec.xor_self]
  rfl

theorem writeCommand_phase {value : ℕ} : (s.writeCommand value).oscinPhase = s.oscinPhase := by
  unfold writeCommand
  split_ifs <;> rfl

theorem Phased.takes (h : s.Phased) (hsound : s.Sound) (ht : s.Takes e s') : s'.Phased := by
  cases ht with
  | stays => exact h
  | ticks =>
    by_cases henabled : s.Enabled
    · have hphase : s.tick.oscinPhase = (s.oscinPhase + s.period) % s.multiplier := if_pos henabled
      exact ⟨fun hbypass ↦ absurd henabled hbypass, hphase ▸ Nat.mod_lt _ multiplier_pos⟩
    · have hphase : s.tick.oscinPhase = 0 := if_neg henabled
      exact ⟨fun _ ↦ hphase, hphase ▸ multiplier_pos⟩
  | control value settled accepted =>
    by_cases hsame : value &&& 1 = s.config 0 &&& 1
    · refine ⟨fun hbypass ↦ ?_, ?_⟩
      · rw [Enabled, storeControl_control, hsame] at hbypass
        rw [storeControl_phase hsame]
        exact h.bypass hbypass
      · rw [storeControl_phase hsame, storeControl_multiplier]
        exact h.bound
    · have hphase : (s.storeControl value).oscinPhase = 0 := by
        refine if_pos fun hbit ↦ hsame ?_
        rw [xor_and] at hbit
        exact BitVec.xor_eq_zero_iff.mp hbit
      exact ⟨fun _ ↦ hphase, hphase ▸ multiplier_pos⟩
  | register i value settled other free =>
    have hcontrol := storeRegister_control (s := s) value other
    refine ⟨fun hbypass ↦ h.bypass ?_, ?_⟩
    · rwa [Enabled, hcontrol] at hbypass
    · by_cases henabled : s.Enabled
      · rw [multiplier_congr (storeRegister_factor (free (hsound.enabled henabled)) (.inl rfl))]
        exact h.bound
      · have hphase : (s.storeRegister i value).oscinPhase = 0 := h.bypass henabled
        exact hphase ▸ multiplier_pos
  | command value bound settled =>
    have hconfig := writeCommand_config (s := s) value
    refine ⟨fun hbypass ↦ writeCommand_phase.trans (h.bypass ?_), ?_⟩
    · rwa [Enabled, hconfig] at hbypass
    · rw [writeCommand_phase, multiplier_congr (congrFun hconfig 2)]
      exact h.bound

theorem phased_after (events : List Event) : (after events).Phased := by
  induction events using List.reverseRecOn with
  | nil => exact ⟨fun _ ↦ rfl, by decide⟩
  | append_singleton events e ih =>
    rw [after_snoc]
    exact ih.takes (sound_after events) (takes_step _ e)

def elapsedParts (s : State) : ℕ := s.oscinCycles * s.multiplier + s.oscinPhase

theorem tick_elapsedParts (h : s.Enabled) : s.tick.elapsedParts = s.elapsedParts + s.period := by
  have helapsed : s.elapsed = (s.oscinPhase + s.period) / s.multiplier := if_pos h
  have hcycles : s.tick.oscinCycles = s.oscinCycles + s.elapsed := rfl
  have hphase : s.tick.oscinPhase = (s.oscinPhase + s.period) % s.multiplier := if_pos h
  have hmultiplier : s.tick.multiplier = s.multiplier := rfl
  have hdivision := Nat.div_add_mod' (s.oscinPhase + s.period) s.multiplier
  rw [elapsedParts, elapsedParts, hcycles, helapsed, hphase, hmultiplier, Nat.add_mul]
  omega

/-- In PLL mode the time goes on at a cycle only, and the factors stay as they are. -/
theorem Takes.elapsedParts (ht : s.Takes e s') (hsound : s.Sound) (h : s.Enabled) (h' : s'.Enabled) :
    s'.multiplier = s.multiplier ∧ s'.elapsedParts = s.elapsedParts + if e = .tick then s.period else 0 := by
  cases ht with
  | ticks => exact ⟨rfl, (tick_elapsedParts h).trans (by rw [if_pos rfl])⟩
  | stays => exact ⟨rfl, rfl⟩
  | control value settled accepted =>
    have hsame : value &&& 1 = s.config 0 &&& 1 := by
      rw [Enabled, storeControl_control] at h'
      exact (bit_of_ne h').trans (bit_of_ne h).symm
    refine ⟨storeControl_multiplier, ?_⟩
    rw [State.elapsedParts, storeControl_multiplier, storeControl_phase hsame]
    rfl
  | register i value settled other free =>
    have hmultiplier : (s.storeRegister i value).multiplier = s.multiplier :=
      multiplier_congr (storeRegister_factor (free (hsound.enabled h)) (.inl rfl))
    refine ⟨hmultiplier, ?_⟩
    rw [State.elapsedParts, hmultiplier]
    rfl
  | command value bound settled =>
    have hmultiplier : (s.writeCommand value).multiplier = s.multiplier :=
      multiplier_congr (congrFun (writeCommand_config value) 2)
    refine ⟨hmultiplier, ?_⟩
    rw [State.elapsedParts, hmultiplier, writeCommand_phase, writeCommand_times.2.1]
    rfl

theorem ratio_le (divider : Word) : ratio divider ≤ 32 := by
  have small : (divider &&& 31).toNat ≤ 31 := by
    rw [BitVec.toNat_and]
    exact Nat.and_le_right
  unfold ratio
  split_ifs <;> omega

/-- An event counts at most 32 cubed OSCIN periods. -/
theorem Takes.cycles_le (ht : s.Takes e s') :
    s'.oscinCycles + s'.oscinPhase ≤ s.oscinCycles + s.oscinPhase + 32768 := by
  cases ht with
  | ticks =>
    have hdivider := ratio_le (s.activeDividers 0)
    change s.oscinCycles + s.elapsed + s.tick.oscinPhase ≤ _
    by_cases h : s.Enabled
    · have hperiod : s.period ≤ 32 * 32 * 32 :=
        Nat.mul_le_mul (Nat.mul_le_mul (ratio_le _) (ratio_le _)) hdivider
      have helapsed : s.elapsed = (s.oscinPhase + s.period) / s.multiplier := if_pos h
      have hphase : s.tick.oscinPhase = (s.oscinPhase + s.period) % s.multiplier := if_pos h
      have hdivision := Nat.div_add_mod' (s.oscinPhase + s.period) s.multiplier
      have hquotient := Nat.le_mul_of_pos_right ((s.oscinPhase + s.period) / s.multiplier)
          (Nat.succ_pos (s.config 2).toNat)
      change _ ≤ _ * s.multiplier at hquotient
      omega
    · have helapsed : s.elapsed = ratio (s.activeDividers 0) := if_neg h
      have hphase : s.tick.oscinPhase = 0 := if_neg h
      omega
  | stays => omega
  | control value settled accepted =>
    have hphase : (s.storeControl value).oscinPhase ≤ s.oscinPhase := by
      unfold storeControl
      dsimp only
      split_ifs <;> omega
    change s.oscinCycles + (s.storeControl value).oscinPhase ≤ _
    omega
  | register i value settled other free => exact Nat.le_add_right _ _
  | command value bound settled =>
    rw [writeCommand_phase, writeCommand_times.2.1]
    omega

/-- The count of OSCIN periods is within its 64 bits, in runs that a machine can make. -/
theorem oscinCycles_lt (h : events.length < 0x2000000000000) : (after events).oscinCycles < 0x10000000000000000 := by
  have hcount : (after events).oscinCycles + (after events).oscinPhase ≤ events.length * 32768 := by
    clear h
    induction events using List.reverseRecOn with
    | nil => exact Nat.zero_le _
    | append_singleton events e ih =>
      have hstep := (takes_step (after events) e).cycles_le
      rw [after_snoc, List.length_append, List.length_singleton]
      omega
  omega

theorem ratio_of_enabledRatio {divider : Word} {r : ℕ} (h : enabledRatio divider = some r) : ratio divider = r := by
  unfold enabledRatio at h
  split_ifs at h with hoff
  unfold ratio
  rw [if_pos hoff]
  exact Option.some.inj h

/-- PLL mode with SYSCLK1 at `num / den` Hz. -/
def Runs (num den : ℕ) (s : State) : Prop := s.Enabled ∧ s.sysclkHz 1 = some (num, den)

theorem Runs.fraction {num den : ℕ} (h : s.Runs num den) : oscinHz * s.multiplier = num ∧ s.period = den := by
  obtain ⟨henabled, hclock⟩ := h
  unfold sysclkHz at hclock
  rw [if_neg (by decide)] at hclock
  simp only [Option.bind_eq_bind, Option.bind_eq_some_iff] at hclock
  obtain ⟨sysdiv, hsys, hclock⟩ := hclock
  rw [if_neg henabled] at hclock
  simp only [Option.bind_eq_some_iff, Option.pure_def, Option.some.injEq, Prod.mk.injEq] at hclock
  obtain ⟨prediv, hpre, postdiv, hpost, hnum, hden⟩ := hclock
  refine ⟨hnum, ?_⟩
  rw [period, ratio_of_enabledRatio hpre, ratio_of_enabledRatio hpost, ← hden]
  exact congrArg _ (ratio_of_enabledRatio hsys)

theorem elapsedParts_run {num den : ℕ} (h : Lasts step reset (Runs num den) before during) :
    (after (before ++ during)).multiplier = (after before).multiplier ∧
      (after (before ++ during)).elapsedParts = (after before).elapsedParts + during.count .tick * den := by
  induction during using List.reverseRecOn with
  | nil => simp
  | append_singleton during e ih =>
    have hruns : (after (before ++ during)).Runs num den := h.init.last
    have hruns' : (after (before ++ (during ++ [e]))).Runs num den := h.last
    obtain ⟨hmultiplier, hparts⟩ := ih h.init
    rw [← List.append_assoc, after_snoc] at hruns' ⊢
    obtain ⟨hkept, hnext⟩ := (takes_step _ e).elapsedParts (sound_after (before ++ during)) hruns.1 hruns'.1
    refine ⟨hkept.trans hmultiplier, ?_⟩
    rw [hnext, hparts, hruns.fraction.2, List.count_append, Nat.add_mul, Nat.add_assoc, List.count_singleton]
    by_cases htick : e = .tick <;> simp [htick]

/-- Over any stretch in PLL mode with SYSCLK1 at `num / den` Hz, the OSCIN periods that are counted are
those of the DSP cycles, whole, with nothing lost from one cycle to the next. -/
theorem oscin_exact {num den : ℕ} (before during : List Event) (h : Lasts step reset (Runs num den) before during) :
    (after before).oscinPhase * oscinHz < num ∧
      (after (before ++ during)).oscinCycles = (after before).oscinCycles +
        ((after before).oscinPhase + during.count .tick * den) * oscinHz / num := by
  have hruns : (after before).Runs num den := h.first
  have hnum := hruns.fraction.1
  have hpos := multiplier_pos (s := after before)
  obtain ⟨hmultiplier, hparts⟩ := elapsedParts_run h
  have hbound := (phased_after (before ++ during)).bound
  rw [elapsedParts, elapsedParts, hmultiplier] at hparts
  rw [hmultiplier] at hbound
  refine ⟨?_, ?_⟩
  · rw [← hnum, Nat.mul_comm oscinHz]
    exact Nat.mul_lt_mul_of_pos_right (phased_after before).bound (by decide)
  · calc (after (before ++ during)).oscinCycles
        = ((after (before ++ during)).oscinPhase +
            (after (before ++ during)).oscinCycles * (after before).multiplier) / (after before).multiplier := by
          rw [Nat.add_mul_div_right _ _ hpos, Nat.div_eq_of_lt hbound, Nat.zero_add]
      _ = ((after before).oscinPhase + during.count .tick * den +
            (after before).oscinCycles * (after before).multiplier) / (after before).multiplier := by
          congr 1
          omega
      _ = ((after before).oscinPhase + during.count .tick * den) / (after before).multiplier +
            (after before).oscinCycles := Nat.add_mul_div_right _ _ hpos
      _ = _ := by rw [← hnum, Nat.mul_comm oscinHz, Nat.mul_div_mul_right _ _ (by decide), Nat.add_comm]

/-- The PLL in use, at 20 times OSCIN. -/
def enabled : List Event := start ++ [.write 0x01c11100 0x1d9 4 true]

theorem runs_enabled {k : ℕ} (h : k < 4) : (after (enabled ++ List.replicate k .tick)).Runs 338688000 2 := by
  have hstates : ∀ k < 4, (after (enabled ++ List.replicate k .tick)).config 0 &&& 1 ≠ 0 ∧
      (after (enabled ++ List.replicate k .tick)).sysclkHz 1 = some (338688000, 2) := by decide
  exact hstates k h

theorem oscin_exact_enabled : (after enabled).oscinPhase * oscinHz < 338688000 ∧
    (after (enabled ++ [.tick, .tick, .tick])).oscinCycles =
      (after enabled).oscinCycles + ((after enabled).oscinPhase + 3 * 2) * oscinHz / 338688000 := by
  have hnone : Lasts step reset (Runs 338688000 2) enabled [] := lasts_nil (runs_enabled (k := 0) (by decide))
  have hone : Lasts step reset (Runs 338688000 2) enabled [.tick] := hnone.snoc (runs_enabled (k := 1) (by decide))
  have htwo : Lasts step reset (Runs 338688000 2) enabled [.tick, .tick] :=
      hone.snoc (runs_enabled (k := 2) (by decide))
  exact oscin_exact enabled [.tick, .tick, .tick] (htwo.snoc (runs_enabled (k := 3) (by decide)))

end Exact

section Lock

/-- The wait is the least whole number of OSCIN periods that is not less than 2000 N / √M. -/
theorem lockWait_le_iff {w : ℕ} :
    s.lockWait ≤ w ↔ 4000000 * ratio (s.config 3) * ratio (s.config 3) ≤ w * w * s.multiplier := by
  refine ⟨fun h ↦ ?_, fun h ↦ Nat.find_min' s.exists_lockWait h⟩
  have hspec := Nat.find_spec s.exists_lockWait
  exact Nat.le_trans hspec (Nat.mul_le_mul_right _ (Nat.mul_le_mul h h))

theorem lockWait_congr (hm : s'.config 2 = s.config 2) (hn : s'.config 3 = s.config 3) : s'.lockWait = s.lockWait := by
  refine Nat.le_antisymm (lockWait_le_iff.mpr ?_) (lockWait_le_iff.mpr ?_)
  · rw [multiplier_congr hm, hn]
    exact lockWait_le_iff.mp (Nat.le_refl _)
  · rw [← multiplier_congr hm, ← hn]
    exact lockWait_le_iff.mp (Nat.le_refl _)

def ReleasedAt (events : List Event) (t : ℕ) : Prop := ∃ before e during, events = before ++ e :: during ∧
  ¬(after before).Released ∧ Lasts step reset Released (before ++ [e]) during ∧
    (after (before ++ [e])).oscinCycles = t

theorem releasedAt_snoc {t : ℕ} : ReleasedAt (events ++ [e]) t ↔ (after (events ++ [e])).Released ∧
    (ReleasedAt events t ∧ (after events).Released ∨ ¬(after events).Released ∧
    (after (events ++ [e])).oscinCycles = t) := by
  constructor
  · rintro ⟨before, e', during, hsplit, hnot, hlasts, ht⟩
    rcases during.eq_nil_or_concat with rfl | ⟨during, last, rfl⟩
    · obtain ⟨rfl, rfl⟩ : events = before ∧ e = e' := by simpa using hsplit
      exact ⟨hlasts.first, .inr ⟨hnot, ht⟩⟩
    · rw [List.concat_eq_append] at hsplit hlasts
      rw [← List.cons_append, ← List.append_assoc] at hsplit
      obtain ⟨rfl, hlast⟩ := List.append_inj' hsplit rfl
      obtain rfl : e = last := List.singleton_inj.mp hlast
      have hreleased : (after (before ++ [e'] ++ (during ++ [e]))).Released := hlasts.last
      have hbefore : (after (before ++ [e'] ++ during)).Released := hlasts.init.last
      rw [List.append_assoc, List.singleton_append] at hreleased hbefore
      rw [← List.cons_append, ← List.append_assoc] at hreleased
      exact ⟨hreleased, .inl ⟨⟨before, e', during, rfl, hnot, hlasts.init, ht⟩, hbefore⟩⟩
  · rintro ⟨hreleased, ⟨⟨before, e', during, rfl, hnot, hlasts, ht⟩, -⟩ | ⟨hnot, ht⟩⟩
    · refine ⟨before, e', during ++ [e], by simp, hnot, hlasts.snoc ?_, ht⟩
      simpa [after] using hreleased
    · exact ⟨events, e, [], rfl, hnot, lasts_nil hreleased, ht⟩

/-- While the PLL stays out of reset, the wait runs off with the time. -/
theorem Takes.waits (ht : s.Takes e s') (h : s.Released) (h' : s'.Released) : ∃ d,
    s'.oscinCycles = s.oscinCycles + d ∧ s'.lockWaitRemaining = s.lockWaitRemaining - d ∧
      s'.lockWait = s.lockWait := by
  cases ht with
  | ticks => exact ⟨s.elapsed, rfl, rfl, lockWait_congr rfl rfl⟩
  | stays => exact ⟨0, rfl, rfl, rfl⟩
  | control value settled accepted =>
    rw [Released, storeControl_control] at h'
    refine ⟨0, rfl, ?_, lockWait_congr (storeControl_config (by decide)) (storeControl_config (by decide))⟩
    exact (if_neg h').trans (if_neg fun hnew ↦ h hnew.2)
  | register i value settled other free =>
    exact ⟨0, rfl, rfl, lockWait_congr (storeRegister_factor (free h) (.inl rfl))
      (storeRegister_factor (free h) (.inr rfl))⟩
  | command value bound settled =>
    have hconfig := writeCommand_config (s := s) value
    exact ⟨0, writeCommand_times.2.1, writeCommand_times.2.2,
      lockWait_congr (congrFun hconfig 2) (congrFun hconfig 3)⟩

theorem Takes.begins (ht : s.Takes e s') (h : ¬s.Released) (h' : s'.Released) :
    s'.lockWaitRemaining = s'.lockWait := by
  cases ht with
  | ticks => exact absurd h' h
  | stays => exact absurd h' h
  | control value settled accepted =>
    rw [Released, storeControl_control] at h'
    rw [lockWait_congr (storeControl_config (by decide)) (storeControl_config (by decide))]
    exact (if_neg h').trans (if_pos ⟨h', not_not.mp h⟩)
  | register i value settled other free =>
    rw [Released, storeRegister_control value other] at h'
    exact absurd h' h
  | command value bound settled =>
    rw [Released, writeCommand_config] at h'
    exact absurd h' h

theorem Takes.idles (ht : s.Takes e s') (h : ¬s.Released → s.lockWaitRemaining = 0) (h' : ¬s'.Released) :
    s'.lockWaitRemaining = 0 := by
  cases ht with
  | ticks =>
    have hnext : s.tick.lockWaitRemaining = s.lockWaitRemaining - s.elapsed := rfl
    rw [hnext, h h', Nat.zero_sub]
  | stays => exact h h'
  | control value settled accepted =>
    rw [Released, storeControl_control, not_not] at h'
    exact if_pos h'
  | register i value settled other free =>
    rw [Released, storeRegister_control value other] at h'
    exact h h'
  | command value bound settled =>
    rw [Released, writeCommand_config] at h'
    exact writeCommand_times.2.2.trans (h h')

/-- What is left of the wait, by the time since the PLL was taken out of reset. -/
structure Waiting (events : List Event) : Prop where
  held : ¬(after events).Released → (after events).lockWaitRemaining = 0
  exists_release : (after events).Released → ∃ t, ReleasedAt events t
  released : ∀ t, ReleasedAt events t → t ≤ (after events).oscinCycles ∧
    (after events).lockWaitRemaining = (after events).lockWait - ((after events).oscinCycles - t)

theorem waiting_after (events : List Event) : Waiting events := by
  induction events using List.reverseRecOn with
  | nil =>
    refine ⟨fun _ ↦ rfl, fun h ↦ absurd rfl h, ?_⟩
    rintro t ⟨before, e, during, hsplit, -⟩
    simp at hsplit
  | append_singleton events e ih =>
    have ht := takes_step (after events) e
    rw [← after_snoc] at ht
    refine ⟨ht.idles ih.held, fun h' ↦ ?_, fun t hat ↦ ?_⟩
    · by_cases h : (after events).Released
      · obtain ⟨t, hat⟩ := ih.exists_release h
        exact ⟨t, releasedAt_snoc.mpr ⟨h', .inl ⟨hat, h⟩⟩⟩
      · exact ⟨_, releasedAt_snoc.mpr ⟨h', .inr ⟨h, rfl⟩⟩⟩
    · obtain ⟨h', ⟨hat, h⟩ | ⟨h, rfl⟩⟩ := releasedAt_snoc.mp hat
      · obtain ⟨d, htime, hleft, hwait⟩ := ht.waits h h'
        obtain ⟨hle, hremaining⟩ := ih.released t hat
        rw [htime, hleft, hwait]
        omega
      · refine ⟨Nat.le_refl _, ?_⟩
        rw [Nat.sub_self, Nat.sub_zero]
        exact ht.begins h h'

theorem Takes.early (ht : s.Takes e s') : s'.earlyEnable = true ↔
    s.earlyEnable = true ∨ ¬s.Enabled ∧ s'.Enabled ∧ s'.lockWaitRemaining ≠ 0 := by
  have hstill (hsame : s'.config 0 = s.config 0) (hearly : s'.earlyEnable = s.earlyEnable) :
      s'.earlyEnable = true ↔ s.earlyEnable = true ∨ ¬s.Enabled ∧ s'.Enabled ∧ s'.lockWaitRemaining ≠ 0 := by
    rw [hearly, Enabled, Enabled, hsame]
    exact ⟨.inl, fun h ↦ h.resolve_right fun hswitch ↦ hswitch.1 hswitch.2.1⟩
  cases ht with
  | ticks => exact hstill rfl rfl
  | stays => exact hstill rfl rfl
  | control value settled accepted =>
    rw [Enabled, Enabled, storeControl_control, not_not]
    simp only [storeControl, Bool.or_eq_true, decide_eq_true_eq]
    tauto
  | register i value settled other free => exact hstill (storeRegister_control value other) rfl
  | command value bound settled =>
    refine hstill (congrFun (writeCommand_config value) 0) ?_
    unfold writeCommand
    split_ifs <;> rfl

def Hasty (before : List Event) (e : Event) : Prop :=
  ¬(after before).Enabled ∧ (after (before ++ [e])).Enabled ∧ ∃ t, ReleasedAt (before ++ [e]) t ∧
    (after (before ++ [e])).oscinCycles < t + (after (before ++ [e])).lockWait

theorem hasty_iff : Hasty events e ↔ ¬(after events).Enabled ∧ (after (events ++ [e])).Enabled ∧
    (after (events ++ [e])).lockWaitRemaining ≠ 0 := by
  refine and_congr_right fun _ ↦ and_congr_right fun henabled ↦ ?_
  have hwaiting := waiting_after (events ++ [e])
  constructor
  · rintro ⟨t, hat, hearly⟩
    obtain ⟨hle, hleft⟩ := hwaiting.released t hat
    omega
  · intro hleft
    obtain ⟨t, hat⟩ := hwaiting.exists_release ((sound_after (events ++ [e])).enabled henabled)
    obtain ⟨hle, hremaining⟩ := hwaiting.released t hat
    exact ⟨t, hat, by omega⟩

/-- The sticky flag tells exactly whether the run has put the PLL in use before its lock. -/
theorem early_enable_iff (events : List Event) : (after events).earlyEnable = true ↔
    ∃ before e rest, events = before ++ e :: rest ∧ Hasty before e := by
  induction events using List.reverseRecOn with
  | nil => simp [after, reset]
  | append_singleton events e ih =>
    have ht := takes_step (after events) e
    rw [← after_snoc] at ht
    rw [exists_split_snoc, ht.early, ih, hasty_iff]

end Lock

end State

end Cdj2000Emulator.C6747.Pll
