import Cdj2000Emulator.Dsp.Report
import Cdj2000Emulator.Dsp.Requests
import Cdj2000Emulator.Library.Monitor
import Cdj2000Emulator.Library.SampledRate

namespace Cdj2000Emulator.Dsp.Position

open Model Report Requests Library.Monitor Library.SampledRate

section Statement

variable (c : Config)

/-- The position with the part of a millisecond that is carried over. -/
def nanos (k : Deck) : ℤ := k.posMs * scaleMs + k.posRemNs

/-- The commands that do not move the deck: a repeated run request, a slot 0..4 recorded with
0x11, a dropped segment end, a dropped stream buffer. -/
def Unmoving (w : Window) : Prop :=
  (∀ v, asked w .command = some v → if c.states433 then v = 2 ∨ v = 5 else v = 3) ∧
    (∀ v, asked w .slot = some v → v = 0x11 ∧ (w 0x7c84).toNat < loopOutSlot) ∧
    (∀ v, asked w .segment = some v → v % 16 = 0xc ∨ v % 16 = 0xd) ∧
    (∀ v, asked w .header = some v → v / 2 ^ 24 = 2) ∧
    asked w .flush = none ∧ asked w .format = none ∧ (w 0x7ba4).toInt ≤ 0

/-- MAIN's word names no loop that can be played. -/
def NoLoop (d : Device) : Prop :=
  c.loopSelect → ¬(1 ≤ (d.window 0x7bc8).toNat ∧ (d.window 0x7bc8).toNat ≤ loopOutSlot ∧
    LoopDefined d.deck ((d.window 0x7bc8).toNat - 1))

/-- Time does not run back, and the guest's commands do not move the deck. -/
def Plays (d : Device) : Step → Prop
  | .guest _ => True
  | .tick now => d.deck.posLastNs ≤ now ∧ Unmoving c d.window ∧ NoLoop c d
  | .positionTick now => d.deck.posLastNs ≤ now

/-- A command of this tick that sets the time of the last report. -/
def Resets (d : Device) : Prop :=
  Answers c d ∧ (asked d.window .slot ≠ none ∨ ¬c.states433 ∧ asked d.window .command ≠ none)

/-- What the meter behind the report runs on. -/
structure Meter where
  last : ℤ
  rate : ℤ
  valid : Bool

namespace Meter

variable (m : Meter)

def accepted : Bool := m.valid || decide (0x20000 ≤ m.rate ∧ m.rate ≤ 0x300000)

def effective : ℤ := effectiveRate m.rate m.accepted

def next : Step → Meter
  | .guest window => { m with rate := rateWord window }
  | .tick now | .positionTick now => { m with last := now, valid := m.accepted }

/-- A report accounts for the time since the one before. -/
def sample : Step → List Interval
  | .guest _ => []
  | .tick now | .positionTick now => [⟨now - m.last, m.effective⟩]

end Meter

def meter (d : Device) : Meter := ⟨d.deck.posLastNs, rateWord d.window, d.deck.rateValidSeen⟩

/-- The intervals between the reports of a run, each with the rate at the report. -/
def samples (d : Device) (steps : List Step) : List Interval :=
  Observer.history Meter.next Meter.sample (meter d) steps

/-- No time is lost: a command that sets the time of the last report comes with no time since
it, and the time since it fits the clock. -/
def Accounted (d : Device) : Step → Prop
  | .guest _ => True
  | .tick now => (now - d.deck.posLastNs) * (meter d).effective < 2 ^ 63 ∧
      (Resets c d → now = d.deck.posLastNs)
  | .positionTick now => (now - d.deck.posLastNs) * (meter d).effective < 2 ^ 63

/-- The deck runs, in no loop, behind a DSP that MAIN has seen up. -/
structure Rolling (d : Device) : Prop where
  running : d.running
  cleared : d.controlCleared
  playing : d.deck.posState = .playing
  loopOff : d.deck.loopOn = false
  remainder : 0 ≤ d.deck.posRemNs ∧ d.deck.posRemNs < scaleMs

end Statement

section Moves

variable {c : Config} {now : ℤ} {w : Window} {k k' : Deck}

/-- What the report starts from is untouched. -/
structure Still (k k' : Deck) : Prop where
  posState : k'.posState = k.posState
  posMs : k'.posMs = k.posMs
  posRemNs : k'.posRemNs = k.posRemNs
  posLastNs : k'.posLastNs = k.posLastNs
  rateValidSeen : k'.rateValidSeen = k.rateValidSeen
  loopOn : k.loopOn = false → k'.loopOn = false

theorem Still.refl (k : Deck) : Still k k := ⟨rfl, rfl, rfl, rfl, rfl, id⟩

theorem Still.trans {k'' : Deck} (h : Still k k') (h' : Still k' k'') : Still k k'' :=
  ⟨h'.posState.trans h.posState, h'.posMs.trans h.posMs, h'.posRemNs.trans h.posRemNs,
    h'.posLastNs.trans h.posLastNs, h'.rateValidSeen.trans h.rateValidSeen,
    fun h0 ↦ h'.loopOn (h.loopOn h0)⟩

theorem select_still (d : Device) (hloop : NoLoop c d) : Still d.deck (select c d).deck := by
  unfold select
  by_cases h : c.loopSelect
  · rw [if_pos h]
    unfold loopSelect
    dsimp only
    rw [if_neg (hloop h)]
    exact ⟨rfl, rfl, rfl, rfl, rfl, fun _ ↦ rfl⟩
  · rw [if_neg h]
    exact .refl _

/-- A run request that finds the deck running leaves it, at least where no time has passed. -/
theorem stateDeck_still {v : ℤ} (hv : if c.states433 then v = 2 ∨ v = 5 else v = 3)
    (hplaying : k.posState = .playing) (hnow : ¬c.states433 → now = k.posLastNs) :
    Still k (stateDeck c now v k) := by
  unfold stateDeck
  by_cases hs : c.states433
  · rw [if_pos hs] at hv
    by_cases hr : c.posReport ∧ c.states433 ∧ 1 ≤ v ∧ v ≤ 8
    · rw [if_pos hr, if_neg (by omega)]
      have h2 : 2 ≤ v := by omega
      simp only [stateMove433, if_pos h2, if_pos hv, hplaying, ne_eq, not_true, if_false]
      exact ⟨hplaying.symm, rfl, rfl, rfl, rfl, id⟩
    · rw [if_neg hr, if_neg (by simp [hs])]
      exact .refl k
  · rw [if_neg hs] at hv
    rw [if_neg (by simp [hs])]
    by_cases hr : c.posReport ∧ ¬c.states433 ∧ 2 ≤ v ∧ v ≤ 6
    · rw [if_pos hr]
      unfold stateMove
      dsimp only
      rw [if_pos hv]
      exact ⟨hplaying.symm, rfl, rfl, hnow hs, rfl, id⟩
    · rw [if_neg hr]
      exact .refl k

theorem recordsForgotten_still (v : ℤ) (k : Deck) : Still k (recordsForgotten v k) := by
  unfold recordsForgotten
  split_ifs <;> exact ⟨rfl, rfl, rfl, rfl, rfl, id⟩

/-- Recording a slot 0..4 where no time has passed. -/
theorem slotDeck_still {parameter : Word} (hp : parameter.toNat < loopOutSlot)
    (hnow : now = k.posLastNs) : Still k (slotDeck c now 0x11 parameter k) := by
  unfold slotDeck
  by_cases hr : ¬c.posReport ∨ ¬IsSlotCommand 0x11
  · rw [if_pos hr]
    exact .refl k
  rw [if_neg hr]
  have hslot : slotOf 0x11 parameter = parameter.toNat := by
    unfold slotOf
    simp
  have hjump : isJump 0x11 = false := by decide
  rw [hslot, hjump]
  unfold loopOutSlot at hp
  have hmove : Still k { slotMove c false parameter.toNat k with posLastNs := now } := by
    unfold slotMove loopOutSlot hotSlots
    by_cases h0 : parameter.toNat = 0
    · rw [if_pos ⟨h0, by decide⟩]
      dsimp only
      split_ifs
      · exact ⟨rfl, rfl, rfl, hnow, rfl, fun _ ↦ rfl⟩
      · exact ⟨rfl, rfl, rfl, hnow, rfl, id⟩
    · rw [if_neg (by simp [h0]), if_neg h0, if_neg (by omega), if_neg (by omega), if_pos (by decide)]
      split_ifs <;> exact ⟨rfl, rfl, rfl, hnow, rfl, id⟩
  simpa using hmove

/-- Dropping a cached end. -/
theorem segmentDeck_still {v : ℤ} (hv : v % 16 = 0xc ∨ v % 16 = 0xd) (sub half : Word)
    (k : Deck) : Still k (segmentDeck c v sub half k) := by
  have hcode : (v % 16).toNat = 0xc ∨ (v % 16).toNat = 0xd := by omega
  unfold segmentDeck
  by_cases hr : ¬c.posReport
  · rw [if_pos hr]
    exact .refl k
  rw [if_neg hr]
  generalize (v % 16).toNat = code at hcode
  unfold segmentMove
  split_ifs <;> first | omega | exact ⟨rfl, rfl, rfl, rfl, rfl, id⟩ |
    exact ⟨rfl, rfl, rfl, rfl, rfl, fun _ ↦ rfl⟩

/-- A dropped buffer is no stream of the deck. -/
theorem header_still {v : ℤ} (hv : v / 2 ^ 24 = 2) (p26 p27 p28 : Word) (k : Deck) :
    Still k (seekMove c now v.toNat p26 p27 p28 (openMove c v.toNat k)) := by
  have hclass : v.toNat / 2 ^ 24 ≠ 1 := by omega
  have hopen : openMove c v.toNat k = k := if_pos (.inl hclass)
  rw [hopen, seekMove, if_pos (.inl hclass)]
  exact .refl k

theorem turn_still {r : Request} (h : ∀ v, asked w r = some v → Still k (move c now w v r k)) :
    Still k (turn c now w r k) := by
  unfold turn
  cases ha : asked w r with
  | none => exact .refl k
  | some v => exact h v ha

theorem scan_still (hw : Unmoving c w) (hplaying : k.posState = .playing)
    (hreset : asked w .slot ≠ none ∨ ¬c.states433 ∧ asked w .command ≠ none →
      now = k.posLastNs) :
    Still k (Request.all.foldl (fun k r ↦ turn c now w r k) k) := by
  obtain ⟨hcommand, hslot, hsegment, hheader, hflush, hformat, -⟩ := hw
  have h1 : Still k (turn c now w .command k) := turn_still fun v hv ↦
    have hf := recordsForgotten_still v k
    hf.trans (stateDeck_still (hcommand v hv) (hf.posState.trans hplaying)
      fun hs ↦ (hreset (.inr ⟨hs, by simp [hv]⟩)).trans hf.posLastNs.symm)
  have h2 : ∀ k', Still k k' → Still k' (turn c now w .slot k') := by
    intro k' hk
    refine turn_still fun v hv ↦ ?_
    obtain ⟨rfl, hp⟩ := hslot v hv
    exact slotDeck_still hp ((hreset (.inl (by simp [hv]))).trans hk.posLastNs.symm)
  have h3 : ∀ k', Still k' (turn c now w .segment k') := fun k' ↦
    turn_still fun v hv ↦ segmentDeck_still (hsegment v hv) _ _ k'
  have h4 : ∀ r k', asked w r = none → Still k' (turn c now w r k') := by
    intro r k' hr
    unfold turn
    rw [hr]
    exact .refl k'
  have h5 : ∀ k', Still k' (turn c now w .header k') := fun k' ↦
    turn_still fun v hv ↦ header_still (hheader v hv) _ _ _ k'
  have h6 : ∀ k', Still k' (turn c now w .helper k') := fun k' ↦ turn_still fun _ _ ↦ .refl k'
  have h7 : ∀ k', Still k' (turn c now w .buffer k') := fun k' ↦ turn_still fun _ _ ↦ .refl k'
  have hhelper : turn c now w .helper k = k := by
    unfold turn
    cases asked w .helper <;> rfl
  simp only [Request.all, List.foldl_cons, List.foldl_nil, hhelper]
  exact ((((((h1.trans (h2 _ h1)).trans (h3 _)).trans (h4 .flush _ hflush)).trans
    (h4 .format _ hformat)).trans (h5 _)).trans (h7 _))

end Moves

section Steps

variable {c : Config} {d : Device}

/-- A report adds the interval since the last one, rounded down to a nanosecond. -/
theorem advance_nanos {now rate : ℤ} {k : Deck} (hrate : 0 ≤ rate) (hlast : k.posLastNs ≤ now)
    (hrem : 0 ≤ k.posRemNs ∧ k.posRemNs < scaleMs)
    (hfit : (now - k.posLastNs) * (Meter.effective ⟨k.posLastNs, rate, k.rateValidSeen⟩) <
      2 ^ 63) :
    nanos (advance now rate k) = nanos k +
        (now - k.posLastNs) * (Meter.effective ⟨k.posLastNs, rate, k.rateValidSeen⟩) / 2 ^ 20 ∧
      0 ≤ (advance now rate k).posRemNs ∧ (advance now rate k).posRemNs < scaleMs := by
  have hproduct : 0 ≤ (now - k.posLastNs) *
      (Meter.effective ⟨k.posLastNs, rate, k.rateValidSeen⟩) :=
    Int.mul_nonneg (by omega) (effectiveRate_range hrate _).1
  have hadvance : advance now rate k = { k with
      rateValidSeen := Meter.accepted ⟨k.posLastNs, rate, k.rateValidSeen⟩
      posMs := k.posMs + (int64 ((now - k.posLastNs) *
        Meter.effective ⟨k.posLastNs, rate, k.rateValidSeen⟩) / 2 ^ 20 + k.posRemNs).tdiv scaleMs
      posRemNs := (int64 ((now - k.posLastNs) *
        Meter.effective ⟨k.posLastNs, rate, k.rateValidSeen⟩) / 2 ^ 20 + k.posRemNs).tmod scaleMs
      posLastNs := now } := rfl
  rw [hadvance, int64_of_range hproduct hfit]
  generalize (now - k.posLastNs) * (Meter.effective ⟨k.posLastNs, rate, k.rateValidSeen⟩) = p
    at hproduct
  unfold nanos
  unfold scaleMs at hrem ⊢
  dsimp only
  rw [Int.tdiv_eq_ediv_of_nonneg (by omega), Int.tmod_eq_emod_of_nonneg (by omega)]
  omega

theorem wrap_of_off {k : Deck} (h : k.loopOn = false) : wrap k = k :=
  if_neg fun hw ↦ by simp [h] at hw

theorem rateWord_of_keeps {x y : Device} (h : ∀ a, Stored a → (∀ r, ¬Cleared r a) →
    y.window a = x.window a) : rateWord y.window = rateWord x.window := by
  unfold rateWord
  rw [h _ (by unfold Stored; omega)]
  intro r
  unfold Cleared
  cases r <;> simp [Request.offset, Request.clearResult]

theorem reported_rolls {d' : Device} {k : Deck} {now : ℤ} (hd : Rolling d)
    (hlast : d.deck.posLastNs ≤ now)
    (hfit : (now - d.deck.posLastNs) * (meter d).effective < 2 ^ 63) (hk : Still d.deck k)
    (hdeck : d'.deck = wrap (advance now (rateWord d.window) k))
    (hrate : rateWord d'.window = rateWord d.window) (hrunning : d'.running = d.running)
    (hcleared : d'.controlCleared = d.controlCleared) :
    Rolling d' ∧ meter d' = (meter d).next (.tick now) ∧
      nanos d'.deck = nanos d.deck + counted (2 ^ 20) ((meter d).sample (.tick now)) := by
  have hmeter : (⟨k.posLastNs, rateWord d.window, k.rateValidSeen⟩ : Meter) = meter d := by
    unfold meter
    rw [hk.posLastNs, hk.rateValidSeen]
  have hoff : (advance now (rateWord d.window) k).loopOn = false := hk.loopOn hd.loopOff
  have hnanos : nanos k = nanos d.deck := by
    unfold nanos
    rw [hk.posMs, hk.posRemNs]
  have hadd := advance_nanos (rateWord_nonneg d.window) (hk.posLastNs.trans_le hlast)
    (hk.posRemNs ▸ hd.remainder) (by rw [hmeter, hk.posLastNs]; exact hfit)
  rw [hmeter, hk.posLastNs, hnanos] at hadd
  rw [wrap_of_off hoff] at hdeck
  refine ⟨⟨hrunning.trans hd.running, hcleared.trans hd.cleared, ?_, ?_, ?_⟩, ?_, ?_⟩
  · rw [hdeck]
    exact hk.posState.trans hd.playing
  · rw [hdeck]
    exact hoff
  · rw [hdeck]
    exact hadd.2
  · unfold meter
    rw [hrate, hdeck]
    simp only [advance, Meter.next, Meter.accepted, hk.rateValidSeen]
  · rw [hdeck, hadd.1, Meter.sample, counted_cons, counted_nil, Int.add_zero]
    rfl

theorem step_rolls (hreport : c.posReport) (habsent : ¬c.absent) (s : Step) (hd : Rolling d)
    (hplays : Plays c d s) (haccounted : Accounted c d s) :
    Rolling (step c d s) ∧ meter (step c d s) = (meter d).next s ∧
      nanos (step c d s).deck = nanos d.deck + counted (2 ^ 20) ((meter d).sample s) := by
  cases s with
  | guest window =>
    exact ⟨⟨hd.running, hd.cleared, hd.playing, hd.loopOff, hd.remainder⟩, rfl, (Int.add_zero _).symm⟩
  | tick now =>
    obtain ⟨hlast, hmoves, hloop⟩ := hplays
    obtain ⟨hfit, hreset⟩ := haccounted
    have hstill : Still d.deck (scanned c now d).deck := by
      have hselect : Still d.deck (select c { d with lastTickNs := now }).deck :=
        select_still { d with lastTickNs := now } hloop
      refine hselect.trans ?_
      rw [scanned, commands_deck]
      by_cases ha : Answers c (select c { d with lastTickNs := now })
      · rw [if_pos ha, select_window]
        have ha' : Answers c d := 
          ⟨ha.1, (select_rest c { d with lastTickNs := now }).1.symm.trans ha.2.1, ha.2.2⟩
        exact scan_still hmoves (hselect.posState.trans hd.playing)
          fun h ↦ (hreset ⟨ha', h⟩).trans hselect.posLastNs.symm
      · rw [if_neg ha]
        exact .refl _
    obtain ⟨hrunning, hcleared, -⟩ := scanned_rest c now d
    have hnojob : ¬JobReady c (scanned c now d) := not_jobReady c now d hmoves.2.2.2.2.2.2
    have hkeeps : Keeps (scanned c now d) (tick c now d) := by
      have h := tick_keeps c now d
      rwa [jobs, if_neg hnojob] at h
    refine reported_rolls hd hlast hfit hstill ?_ ?_ (hkeeps.running.trans hrunning)
      (hkeeps.controlCleared.trans hcleared)
    · rw [step, tick_deck c now d hreport hd.running habsent hd.cleared hmoves.2.2.2.2.2.2,
        if_pos (hstill.posState.trans hd.playing)]
    · refine rateWord_of_keeps fun a ha hl ↦ ?_
      rw [step, hkeeps.stored a ha, scanned_stored c now d ha hl]
  | positionTick now =>
    have hcond : c.posReport ∧ d.running ∧ ¬c.absent ∧ d.deck.posState = .playing :=
      ⟨hreport, hd.running, habsent, hd.playing⟩
    have hkeeps := positionReport_keeps c now d
    rw [step, positionTick, if_pos hcond]
    refine reported_rolls hd hplays haccounted (.refl _) ?_ ?_ hkeeps.running hkeeps.controlCleared
    · rw [positionReport_deck c now d hd.cleared, if_pos hd.playing]
    · exact rateWord_of_keeps fun a ha _ ↦ hkeeps.stored a ha

end Steps

section Runs

variable {c : Config} {d : Device}

theorem run_rolls (hreport : c.posReport) (habsent : ¬c.absent) (steps : List Step)
    (hd : Rolling d) (hplays : Observer.Throughout (step c) (Plays c) d steps)
    (haccounted : Observer.Throughout (step c) (Accounted c) d steps) :
    Rolling (run c d steps) ∧ meter (run c d steps) = steps.foldl Meter.next (meter d) ∧
      nanos (run c d steps).deck = nanos d.deck + counted (2 ^ 20) (samples d steps) := by
  induction steps generalizing d with
  | nil => exact ⟨hd, rfl, (Int.add_zero _).symm⟩
  | cons s steps ih =>
    obtain ⟨hp, hplays⟩ := hplays
    obtain ⟨ha, haccounted⟩ := haccounted
    obtain ⟨h1, h2, h3⟩ := step_rolls hreport habsent s hd hp ha
    obtain ⟨h4, h5, h6⟩ := ih h1 hplays haccounted
    refine ⟨h4, h5.trans (by rw [h2]; rfl), ?_⟩
    change nanos (run c (step c d s) steps).deck = _
    rw [h6, h3, samples, samples, Observer.history, counted_append, h2]
    omega

theorem samples_append (before after : List Step) :
    samples d (before ++ after) = samples d before ++
      Observer.history Meter.next Meter.sample (before.foldl Meter.next (meter d)) after := by
  unfold samples
  generalize meter d = m
  induction before generalizing m with
  | nil => rfl
  | cons s before ih =>
    rw [List.cons_append, Observer.history, ih, Observer.history, List.append_assoc]
    rfl

def KeepRate (rate : ℤ) (steps : List Step) : Prop :=
  ∀ s ∈ steps, ∃ window, s = .guest window ∧ rateWord window = rate

theorem history_keepRate {m : Meter} {steps : List Step} (h : KeepRate m.rate steps)
    (after : List Step) :
    Observer.history Meter.next Meter.sample m (steps ++ after) =
      Observer.history Meter.next Meter.sample m after := by
  induction steps with
  | nil => rfl
  | cons s steps ih =>
    obtain ⟨window, rfl, hw⟩ := h s (by simp)
    have hm : m.next (.guest window) = m := by
      change Meter.mk m.last (rateWord window) m.valid = m
      rw [hw]
    rw [List.cons_append, Observer.history, hm]
    exact ih fun s' hs' ↦ h s' (by simp [hs'])

/-- What may be put into a run: a write that keeps the rate, whatever it commands, or a
position tick. -/
def Inserted (rate : ℤ) (steps : List Step) : Prop :=
  KeepRate rate steps ∨ ∃ now, steps = [.positionTick now]

theorem integral_inserted {m : Meter} {inserted writes after : List Step} {s : Step}
    (hi : Inserted m.rate inserted) (hw : KeepRate m.rate writes)
    (hs : ∃ now, s = .tick now ∨ s = .positionTick now) :
    integral (2 ^ 20) (Observer.history Meter.next Meter.sample m
        (inserted ++ (writes ++ s :: after))) =
      integral (2 ^ 20) (Observer.history Meter.next Meter.sample m (writes ++ s :: after)) := by
  rcases hi with hi | ⟨now, rfl⟩
  · rw [history_keepRate hi]
  · have haccepted : (m.next (.positionTick now)).accepted = m.accepted := by
      unfold Meter.next Meter.accepted
      simp
    have heffective : (m.next (.positionTick now)).effective = m.effective := by
      unfold Meter.effective
      rw [haccepted]
      rfl
    rw [history_keepRate hw, List.singleton_append, Observer.history,
      history_keepRate (m := m.next (.positionTick now)) hw, Observer.history, Observer.history]
    obtain ⟨t, hst⟩ := hs
    have hsample : ∀ m : Meter, m.sample s = [⟨t - m.last, m.effective⟩] := by
      rcases hst with rfl | rfl <;> exact fun _ ↦ rfl
    have hnext : (m.next (.positionTick now)).next s = m.next s := by
      rcases hst with rfl | rfl <;> exact congrArg (Meter.mk t m.rate) haccepted
    rw [hsample, hsample, hnext, heffective]
    have hsplit := integral_split (2 ^ 20) []
      (Observer.history Meter.next Meter.sample (m.next s) after) (now - m.last) (t - now)
      m.effective
    have hlast : now - m.last + (t - now) = t - m.last := by omega
    rw [hlast] at hsplit
    exact hsplit

/-- In a run that loses no time the position is the integral of the rate, short of it by less
than a nanosecond for each report and rounded down to milliseconds; and what is put into a run
at an unchanged rate moves no later position by more than that. -/
theorem position_is_integral (c : Config) (hreport : c.posReport) (habsent : ¬c.absent)
    (d : Device) (hd : Rolling d) :
    (∀ steps : List Step, Observer.Throughout (step c) (Plays c) d steps →
      Observer.Throughout (step c) (Accounted c) d steps →
        let k := (run c d steps).deck
        let played := integral (2 ^ 20) (samples d steps)
        k.posMs = nanos k / scaleMs ∧ (nanos k : ℚ) ≤ nanos d.deck + played ∧
          nanos d.deck + played ≤ nanos k + (samples d steps).length ∧
          (samples d steps ≠ [] → nanos d.deck + played < nanos k + (samples d steps).length)) ∧
      ∀ before inserted writes after : List Step, ∀ s : Step,
        (∃ now, s = .tick now ∨ s = .positionTick now) →
        Inserted (rateWord (run c d before).window) inserted →
        KeepRate (rateWord (run c d before).window) writes →
        (∀ steps, steps = before ++ (writes ++ s :: after) ∨
          steps = before ++ (inserted ++ (writes ++ s :: after)) →
            Observer.Throughout (step c) (Plays c) d steps ∧
              Observer.Throughout (step c) (Accounted c) d steps) →
        |nanos (run c d (before ++ (inserted ++ (writes ++ s :: after)))).deck -
            nanos (run c d (before ++ (writes ++ s :: after))).deck| ≤
          max (samples d (before ++ (inserted ++ (writes ++ s :: after)))).length
            (samples d (before ++ (writes ++ s :: after))).length := by
  have hnanos : ∀ steps, Observer.Throughout (step c) (Plays c) d steps →
      Observer.Throughout (step c) (Accounted c) d steps →
        nanos (run c d steps).deck = nanos d.deck + counted (2 ^ 20) (samples d steps) :=
    fun steps hp ha ↦ (run_rolls hreport habsent steps hd hp ha).2.2
  refine ⟨?_, ?_⟩
  · intro steps hp ha k played
    have hroll := (run_rolls hreport habsent steps hd hp ha).1
    have hn : nanos k = nanos d.deck + counted (2 ^ 20) (samples d steps) := hnanos steps hp ha
    obtain ⟨h1, h2, h3⟩ := counted_near_integral (u := 2 ^ 20) (by decide) (samples d steps)
    have hq : (nanos k : ℚ) = nanos d.deck + counted (2 ^ 20) (samples d steps) := by
      exact_mod_cast hn
    rw [hq]
    refine ⟨?_, by linarith, by linarith, fun hne ↦ ?_⟩
    · have hrem := hroll.remainder
      change k.posMs = (k.posMs * scaleMs + k.posRemNs) / scaleMs
      change 0 ≤ k.posRemNs ∧ k.posRemNs < scaleMs at hrem
      unfold scaleMs at hrem ⊢
      omega
    · have := h3 hne
      linarith
  · intro before inserted writes after s hs hi hw hboth
    obtain ⟨hp, ha⟩ := hboth _ (.inl rfl)
    obtain ⟨hp', ha'⟩ := hboth _ (.inr rfl)
    have hmeter : before.foldl Meter.next (meter d) = meter (run c d before) :=
      (run_rolls hreport habsent before hd ((Observer.throughout_append d before _).mp hp).1
        ((Observer.throughout_append d before _).mp ha).1).2.1.symm
    have hintegral : integral (2 ^ 20) (samples d (before ++ (inserted ++ (writes ++ s :: after)))) =
        integral (2 ^ 20) (samples d (before ++ (writes ++ s :: after))) := by
      rw [samples_append, samples_append, integral_append, integral_append, hmeter,
        integral_inserted hi hw hs]
    rw [hnanos _ hp ha, hnanos _ hp' ha']
    generalize samples d (before ++ (inserted ++ (writes ++ s :: after))) = l' at hintegral ⊢
    generalize samples d (before ++ (writes ++ s :: after)) = l at hintegral ⊢
    obtain ⟨h1, h2, -⟩ := counted_near_integral (u := 2 ^ 20) (by decide) l
    obtain ⟨h1', h2', -⟩ := counted_near_integral (u := 2 ^ 20) (by decide) l'
    rw [hintegral] at h1' h2'
    have hlo : counted (2 ^ 20) l' ≤ counted (2 ^ 20) l + l.length := by
      exact_mod_cast h1'.trans h2
    have hhi : counted (2 ^ 20) l ≤ counted (2 ^ 20) l' + l'.length := by
      exact_mod_cast h1.trans h2'
    rw [abs_le]
    omega

def rolling : Device :=
  { Device.started with deck := { Device.started.deck with posState := .playing } }

theorem rolling_rolling : Rolling rolling := ⟨rfl, rfl, rfl, rfl, by decide⟩

def recordHotCue : Window := (rolling.window.stl 0x7c80 0x11).stl 0x7c84 1

theorem unmoving_recordHotCue : Unmoving .standard recordHotCue := by
  have hnone : ∀ r, r ≠ .slot → asked recordHotCue r = none := by
    intro r hr
    cases r <;> first | exact absurd rfl hr | decide +kernel
  have hslot : asked recordHotCue .slot = some 0x11 := by decide +kernel
  refine ⟨?_, ?_, ?_, ?_, hnone _ (by decide), hnone _ (by decide), by decide +kernel⟩
  · intro v hv
    exact absurd hv (by rw [hnone _ (by decide)]; nofun)
  · intro v hv
    exact ⟨Option.some.inj (hv.symm.trans hslot), by decide +kernel⟩
  · intro v hv
    exact absurd hv (by rw [hnone _ (by decide)]; nofun)
  · intro v hv
    exact absurd hv (by rw [hnone _ (by decide)]; nofun)

theorem plays_recordHotCue {now : ℤ} (h : d.deck.posLastNs ≤ now) :
    Plays .standard { d with window := recordHotCue } (.tick now) := by
  have hselection : ¬1 ≤ (recordHotCue 0x7bc8).toNat := by decide +kernel
  exact ⟨h, unmoving_recordHotCue, fun _ hn ↦ hselection hn.1⟩

/-- Recording a hot cue ten milliseconds after the last report loses the ten milliseconds. -/
theorem record_loses_time :
    Rolling rolling ∧
      Observer.Throughout (step .standard) (Plays .standard) rolling
        [.guest recordHotCue, .tick 10000000] ∧
      ¬((nanos rolling.deck : ℚ) +
          integral (2 ^ 20) (samples rolling [.guest recordHotCue, .tick 10000000]) ≤
        nanos (run .standard rolling [.guest recordHotCue, .tick 10000000]).deck +
          (samples rolling [.guest recordHotCue, .tick 10000000]).length) :=
  ⟨rolling_rolling, ⟨trivial, plays_recordHotCue (d := rolling) (by decide), trivial⟩, by decide +kernel⟩

/-- With a position tick at the time of the recording nothing is lost, and the tick moves
nothing by more than the rounding. -/
theorem position_is_integral_recording :
    let steps : List Step :=
      [.positionTick 10000000, .guest recordHotCue, .tick 10000000, .positionTick 20000000]
    let k := (run .standard rolling steps).deck
    let played := integral (2 ^ 20) (samples rolling steps)
    k.posMs = nanos k / scaleMs ∧ (nanos k : ℚ) ≤ nanos rolling.deck + played ∧
      nanos rolling.deck + played ≤ nanos k + (samples rolling steps).length ∧
      (samples rolling steps ≠ [] →
        nanos rolling.deck + played < nanos k + (samples rolling steps).length) := by
  intro steps
  refine (position_is_integral .standard rfl nofun rolling rolling_rolling).1 steps ?_ ?_
  · refine ⟨?_, trivial, plays_recordHotCue (by decide +kernel), ?_, trivial⟩ <;> unfold Plays <;>
      decide +kernel
  · refine ⟨?_, trivial, ⟨by decide +kernel, fun _ ↦ by decide +kernel⟩, ?_, trivial⟩ <;>
      unfold Accounted <;> decide +kernel

end Runs

end Cdj2000Emulator.Dsp.Position
