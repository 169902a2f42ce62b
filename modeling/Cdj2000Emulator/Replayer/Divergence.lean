import Cdj2000Emulator.Replayer.Limits

namespace Cdj2000Emulator.Replayer

open Library.GuardedLoop C674x.State C674x.Transfer Transcript

def Replayed.states {σ : Type} (r : Replayed σ) : List (Replay σ) := r.log.map Replay.Moment.state ++ [r.last]

namespace Replay

variable {σ : Type} {setup : Setup} {devices : Devices σ} {given : ReplayLimits} {s t u v : Replay σ}
  {event : RecordedEvent}

def Act.Host : Act → Prop
  | .pass => False
  | .event event => event.kind = some .bootPhase ∨ event.kind = some .hostControlWrite ∨
      event.kind = some .hostAddressWrite ∨ event.kind = some .hostDataAutoincrementWrite ∨
      event.kind = some .hostDataFixedWrite ∨ event.kind = some .hostDataRead

/-- A limited replay beside the states of the free one: it does not end with an error, it makes no step and applies no
host event once a limit is reached, and it leaves what the free one has after as many steps. -/
structure Respects (states : List (Replay σ)) (bound : Replayed σ) : Prop where
  ends : bound.result ≠ .error
  quiet : ∀ m ∈ bound.log, m.act = .pass ∨ m.act.Host → m.state.limited = none
  agrees : ∃ s ∈ states, s.globals = bound.last.globals ∧ s.steps = bound.last.steps

def Overruns (given : ReplayLimits) (m : Moment σ) : Prop :=
  m.act.Host ∧ (m.state.under given).limited.isSome ∧ m.state.globals.cpu.fault.isSome

def Masks (given : ReplayLimits) (m : Moment σ) (rest : List (Moment σ)) : Prop :=
  m.act = .pass ∧ m.state.Spent given ∧ m.state.deferred = false ∧
    ∃ next event, rest.head? = some next ∧ next.act = .event event ∧ event.kind = some .dspStop ∧
      next.state.steps = m.state.steps

def Slips (given : ReplayLimits) : List (Moment σ) → Prop
  | [] => False
  | m :: rest => Overruns given m ∨ Masks given m rest ∨ ¬m.state.Spent given ∧ Slips given rest

theorem spent_congr (hcpu : s.globals.cpu = t.globals.cpu) (hsteps : s.steps = t.steps) :
    s.Spent given ↔ t.Spent given := by
  have hlimited : (s.under given).limited = (t.under given).limited := by
    unfold limited under
    dsimp only
    rw [hsteps, hcpu]
  unfold Spent
  rw [hlimited, hcpu]

theorem open_of_clear (h : (s.under given).limited = none) : ¬s.Spent given := by
  rintro ⟨hsome, -⟩
  rw [h] at hsome
  cases hsome

theorem slips_event {log : List (Moment σ)} (h : ¬s.Spent given) :
    Slips given (⟨.event event, s⟩ :: log) ↔ Overruns given ⟨.event event, s⟩ ∨ Slips given log := by
  constructor
  · rintro (hover | ⟨hpass, -⟩ | ⟨-, hlater⟩)
    · exact .inl hover
    · cases hpass
    · exact .inr hlater
  · rintro (hover | hlater)
    · exact .inl hover
    · exact .inr (.inr ⟨h, hlater⟩)

theorem slips_spent {log : List (Moment σ)} (h : s.Spent given) : ¬Slips given (⟨.event event, s⟩ :: log) := by
  rintro (⟨-, -, hfault⟩ | ⟨hpass, -⟩ | ⟨hopen, -⟩)
  · change s.globals.cpu.fault.isSome = true at hfault
    rw [h.2] at hfault
    cases hfault
  · cases hpass
  · exact hopen h

theorem slips_clear {log rest : List (Moment σ)} (h : ∀ m ∈ log,
    m.act = .pass ∧ (m.state.under given).limited = none) :
    Slips given (log ++ rest) ↔ Slips given rest := by
  induction log with
  | nil => exact Iff.rfl
  | cons m log ih =>
    obtain ⟨hpass, hclear⟩ := h m List.mem_cons_self
    have hopen := open_of_clear hclear
    rw [← ih fun n hn ↦ h n (List.mem_cons_of_mem m hn)]
    constructor
    · rintro (⟨hhost, -⟩ | ⟨-, hspent, -⟩ | ⟨-, hlater⟩)
      · rw [hpass] at hhost
        exact hhost.elim
      · exact absurd hspent hopen
      · exact hlater
    · exact fun hlater ↦ .inr (.inr ⟨hopen, hlater⟩)

theorem slips_cut {visited front rest : List (Replay σ)} {x : Replay σ} {log : List (Moment σ)}
    (h : Cut given visited front x rest) :
    Slips given (passes visited ++ log) ↔ Masks given ⟨.pass, x⟩ (passes rest ++ log) := by
  have hsplit : passes visited ++ log = passes front ++ (⟨.pass, x⟩ :: (passes rest ++ log)) := by
    rw [h.visited]
    simp [passes]
  rw [hsplit, slips_clear (clear_passes h.clear)]
  constructor
  · rintro (⟨hhost, -⟩ | hmasks | ⟨hopen, -⟩)
    · exact hhost.elim
    · exact hmasks
    · exact absurd h.spent hopen
  · exact fun hmasks ↦ .inr (.inl hmasks)

/-- What the loop over the lines makes of a line. -/
def proceed (next : Replay σ → Replayed σ) (r : Outcome σ × List (Moment σ)) : Replayed σ :=
  match r with
  | (.next t, log) => (next t).after log
  | (.leave t, log) => t.finish.after log
  | (.exhausted t, log) => ⟨.budgetExhausted, t, log⟩
  | (.error t, log) => ⟨.error, t, log⟩

theorem lines_cons (line : Option RecordedEvent) (rest : List (Option RecordedEvent)) (s : Replay σ) :
    lines setup devices (line :: rest) s = proceed (lines setup devices rest) (s.line setup devices line) := rfl

def reading (s : Replay σ) : Replay σ := { s with expected := s.expected + 1 }

theorem reading_under (s : Replay σ) : (s.under given).reading = s.reading.under given := rfl

theorem lines_complete {line : Option RecordedEvent} {rest : List (Option RecordedEvent)}
    (h : (lines setup devices (line :: rest) s).result = .complete) :
    ∃ event, line = some event ∧ event.sequence = s.expected + 1 ∧
      (event.sequence ≤ s.globals.eventSequence ∨ s.globals.eventSequence < event.sequence ∧
        (s.reading.respond setup devices event).1.Good) := by
  cases line with
  | none => cases h
  | some event =>
    rw [lines_cons] at h
    unfold Replay.line at h
    dsimp only at h
    by_cases hsequence : event.sequence ≠ s.expected + 1
    · rw [if_pos hsequence] at h
      cases h
    rw [if_neg hsequence] at h
    refine ⟨event, rfl, not_not.mp hsequence, ?_⟩
    by_cases hknown : event.sequence ≤ s.globals.eventSequence
    · exact .inl hknown
    rw [if_neg hknown] at h
    refine .inr ⟨Nat.lt_of_not_le hknown, ?_⟩
    change (proceed _ (s.reading.respond setup devices event)).result = _ at h
    rcases hrespond : s.reading.respond setup devices event with ⟨_ | _ | _ | _, log⟩
    · trivial
    · trivial
    · rw [hrespond] at h
      cases h
    · rw [hrespond] at h
      cases h

theorem lines_known (setup : Setup) (devices : Devices σ) (rest : List (Option RecordedEvent))
    (hsequence : event.sequence = s.expected + 1)
    (hknown : event.sequence ≤ s.globals.eventSequence) :
    lines setup devices (some event :: rest) s = lines setup devices rest s.reading := by
  rw [lines_cons]
  unfold Replay.line
  dsimp only
  rw [if_neg (not_not.mpr hsequence), if_pos hknown]
  rfl

theorem lines_respond {rest : List (Option RecordedEvent)} (hsequence : event.sequence = s.expected + 1)
    (hnew : s.globals.eventSequence < event.sequence) :
    lines setup devices (some event :: rest) s =
      proceed (lines setup devices rest) (s.reading.respond setup devices event) := by
  rw [lines_cons]
  unfold Replay.line
  dsimp only
  rw [if_neg (not_not.mpr hsequence), if_neg (Nat.not_le.mpr hnew)]
  rfl

/-- What a free replay makes of an event beyond the checkpoint. -/
inductive Responds (setup : Setup) (devices : Devices σ) (s : Replay σ) (event : RecordedEvent) : Prop
  | fault (done : Replay σ) (handled : s.handle devices event = .fault done)
      (eq : s.respond setup devices event = (.leave done, [⟨.event event, s⟩]))
  | taken (done : Replay σ) (quota : ℕ) (trigger : Bool) (handled : s.handle devices event =
      .taken done quota trigger)
      (good : (done.carryOn setup devices event quota trigger).1.Good)
      (eq : s.respond setup devices event = ((done.carryOn setup devices event quota trigger).1,
        ⟨.event event, s⟩ :: (done.carryOn setup devices event quota trigger).2))

theorem respond_free (hlimited : s.limited = none) (hgood : (s.respond setup devices event).1.Good) :
    ¬s.OutOfTurn event ∧ Responds setup devices s event := by
  have hopen : ¬s.OutOfBudget event := by
    rintro ⟨hsome, -⟩
    rw [hlimited] at hsome
    cases hsome
  by_cases hturn : s.OutOfTurn event
  · unfold respond at hgood
    rw [if_neg hopen, if_pos hturn] at hgood
    exact absurd hgood (mismatch_free hlimited)
  refine ⟨hturn, ?_⟩
  cases hhandle : s.handle devices event with
  | mismatch =>
    unfold respond at hgood
    rw [if_neg hopen, if_neg hturn, hhandle] at hgood
    exact absurd hgood (mismatch_free hlimited)
  | unsupported =>
    unfold respond at hgood
    rw [if_neg hopen, if_neg hturn, hhandle] at hgood
    exact hgood.elim
  | fault done =>
    refine .fault done hhandle ?_
    unfold respond
    rw [if_neg hopen, if_neg hturn, hhandle]
  | taken done quota trigger =>
    have heq : s.respond setup devices event = ((done.carryOn setup devices event quota trigger).1,
        ⟨.event event, s⟩ :: (done.carryOn setup devices event quota trigger).2) := by
      unfold respond
      rw [if_neg hopen, if_neg hturn, hhandle]
    refine .taken done quota trigger hhandle ?_ heq
    rw [heq] at hgood
    exact hgood

theorem respond_open (hopen : ¬s.OutOfBudget event) (hturn : ¬s.OutOfTurn event) {done : Replay σ} {quota : ℕ}
    {trigger : Bool} (hhandle : s.handle devices event = .taken done quota trigger) :
    s.respond setup devices event = ((done.carryOn setup devices event quota trigger).1,
      ⟨.event event, s⟩ :: (done.carryOn setup devices event quota trigger).2) := by
  unfold respond
  rw [if_neg hopen, if_neg hturn, hhandle]

theorem halted_last (setup : Setup) (devices : Devices σ) (hlimited : s.limited.isSome)
    (hfault : s.globals.cpu.fault = none) (hpending : s.stopPending = false)
    (hsequence : s.globals.eventSequence = s.expected) (events : List (Option RecordedEvent)) :
    (lines setup devices events s).last.globals = s.globals ∧
    (lines setup devices events s).last.steps = s.steps := by
  cases events with
  | nil => exact ⟨rfl, rfl⟩
  | cons line rest =>
    cases line with
    | none => exact ⟨rfl, rfl⟩
    | some event =>
      by_cases hnext : event.sequence = s.expected + 1
      · rw [lines_respond hnext (by omega)]
        have hopen : s.reading.OutOfBudget event := by
          refine ⟨hlimited, hfault, .inr ?_⟩
          change (!s.stopPending) = true
          rw [hpending]
          rfl
        unfold respond
        rw [if_pos hopen]
        exact ⟨rfl, rfl⟩
      · rw [lines_cons]
        unfold Replay.line
        dsimp only
        rw [if_pos hnext]
        exact ⟨rfl, rfl⟩

variable {x w l : Replay σ}

theorem Behind.reading (h : Behind given x w l) : Behind given x w.reading l.reading :=
  ⟨congrArg Replay.reading h.locals, h.pending, h.legacy, h.sequence⟩

/-- The first event that both have to respond to. -/
structure Meeting (setup : Setup) (devices : Devices σ) (given : ReplayLimits) (x w l : Replay σ)
    (events : List (Option RecordedEvent)) (event : RecordedEvent) (rest : List (Option RecordedEvent))
    (w' l' : Replay σ) :
    Prop where
  behind : Behind given x w' l'
  globals : w'.globals = w.globals
  steps : w'.steps = w.steps
  limits : w'.limits = w.limits
  sequence : event.sequence = w'.expected
  new : w'.globals.eventSequence < event.sequence
  good : (w'.respond setup devices event).1.Good
  free : lines setup devices events w = proceed (lines setup devices rest) (w'.respond setup devices event)
  bound : lines setup devices events l = proceed (lines setup devices rest) (l'.respond setup devices event)

theorem Behind.meeting {events : List (Option RecordedEvent)} (h : Behind given x w l)
    (hcomplete : (lines setup devices events w).result = .complete) :
    ∃ event rest w' l', Meeting setup devices given x w l events event rest w' l' := by
  induction events generalizing w l with
  | nil =>
    have hboundary : ¬w.AtBoundary := by
      rintro ⟨-, hidle, -⟩
      rw [h.pending] at hidle
      cases hidle
    change (if w.AtBoundary then EventReplayResult.complete else .error) = _ at hcomplete
    rw [if_neg hboundary] at hcomplete
    cases hcomplete
  | cons line rest ih =>
    obtain ⟨event, rfl, hsequence, hcases⟩ := lines_complete hcomplete
    have hexpected : l.expected = w.expected := by
      rw [h.locals]
    have hknown : l.globals.eventSequence = w.globals.eventSequence := by
      rw [h.locals]
      exact h.sequence.symm
    rcases hcases with hold | ⟨hnew, hgood⟩
    · have hskip := lines_known setup devices rest hsequence hold
      have hskip' : lines setup devices (some event :: rest) l = lines setup devices rest l.reading :=
        lines_known setup devices rest (by rw [hexpected, hsequence]) (by rw [hknown]; exact hold)
      rw [hskip] at hcomplete
      obtain ⟨event', rest', w', l', hmeets⟩ := ih h.reading hcomplete
      exact ⟨event', rest', w', l', hmeets.behind, hmeets.globals, hmeets.steps, hmeets.limits,
        hmeets.sequence, hmeets.new,
        hmeets.good, hskip.trans hmeets.free, hskip'.trans hmeets.bound⟩
    · exact ⟨event, rest, w.reading, l.reading, h.reading, rfl, rfl, rfl, hsequence, hnew, hgood,
        lines_respond hsequence hnew, lines_respond (by rw [hexpected, hsequence]) (by rw [hknown]; exact hnew)⟩

theorem Behind.fields (h : Behind given x w l) (event : RecordedEvent) :
    l.globals = x.globals ∧ l.steps = x.steps ∧ l.limited = (x.under given).limited ∧
    l.stopPending = true ∧ l.deferred = false ∧ (l.OutOfTurn event ↔ w.OutOfTurn event) ∧
      l.expected = w.expected := by
  obtain ⟨hlocals, hpending, hlegacy, -⟩ := h
  rw [hlocals]
  exact ⟨rfl, rfl, rfl, hpending, hlegacy, Iff.rfl, rfl⟩

theorem Behind.exhausted (setup : Setup) (devices : Devices σ) (h : Behind given x w l) (hspent : x.Spent given)
    (hkind : event.kind ≠ some .dspStop) :
    l.respond setup devices event = (.exhausted l, []) := by
  obtain ⟨hglobals, -, hlimited, -, hlegacy, -⟩ := h.fields event
  unfold respond
  refine if_pos ⟨hlimited ▸ hspent.1, hglobals ▸ hspent.2, .inl ⟨hkind, ?_⟩⟩
  rintro ⟨hdeferred, -⟩
  rw [hlegacy] at hdeferred
  cases hdeferred

/-- What the two replays make of a recorded stop. -/
theorem Behind.stop (h : Behind given x w l) (hkind : event.kind = some .dspStop) (hturn : ¬w.OutOfTurn event) :
    l.respond setup devices event = match l.dspStop event with
      | .mismatch => (l.mismatch event, [])
      | .unsupported => (.error l, [])
      | .fault done => (.leave done, [⟨.event event, l⟩])
      | .taken done quota trigger => ((done.carryOn setup devices event quota trigger).1,
        ⟨.event event, l⟩ :: (done.carryOn setup devices event quota trigger).2) := by
  obtain ⟨-, -, -, hpending, -, hsame, -⟩ := h.fields event
  have hopen : ¬l.OutOfBudget event := by
    rintro ⟨-, -, ⟨hother, -⟩ | hidle⟩
    · exact hother hkind
    · rw [hpending] at hidle
      cases hidle
  unfold respond
  rw [if_neg hopen, if_neg (hsame.not.mpr hturn)]
  have hhandle : l.handle devices event = l.dspStop event := by
    unfold handle
    rw [hkind]
  exact hhandle ▸ rfl

theorem Behind.later (setup : Setup) (devices : Devices σ) (h : Behind given x w l) (hspent : x.Spent given)
    (hkind : event.kind = some .dspStop)
    (hturn : ¬w.OutOfTurn event) (hpackets : x.globals.cpu.packets ≤ event.packets)
    (hcycles : x.globals.cpu.cycles < event.cycles) : l.respond setup devices event = (.exhausted l, []) := by
  obtain ⟨hglobals, -, hlimited, hpending, -⟩ := h.fields event
  have hmismatch : l.dspStop event = .mismatch := by
    unfold dspStop
    dsimp only
    refine if_pos ?_
    rw [hglobals]
    iterate 8 apply Or.inr
    exact .inl hcycles.ne'
  rw [h.stop hkind hturn, hmismatch]
  unfold mismatch
  dsimp only
  rw [hglobals]
  rw [if_pos ⟨hlimited ▸ hspent.1, hpending, hspent.2, hkind, hpackets, hcycles.le, .inr hcycles⟩]

theorem Behind.mistaken (setup : Setup) (devices : Devices σ) (h : Behind given x w l) (hspent : x.Spent given)
    (hkind : event.kind = some .dspStop)
    (hturn : ¬w.OutOfTurn event) (hpackets : event.packets = x.globals.cpu.packets)
    (hcycles : event.cycles = x.globals.cpu.cycles) (hsequence : event.sequence = w.expected)
    (rest : List (Option RecordedEvent)) :
    (proceed (lines setup devices rest) (l.respond setup devices event)).result = .error ∨
      (proceed (lines setup devices rest) (l.respond setup devices event)).last.globals =
          { x.globals with eventSequence := event.sequence } ∧
        (proceed (lines setup devices rest) (l.respond setup devices event)).last.steps = x.steps := by
  obtain ⟨hglobals, hsteps, hlimited, -, -, -, hexpected⟩ := h.fields event
  have hstop := dspStop_all l event
  have hleft {done : Replay σ} (hdone : Stopped l event done) :
      done.globals = { x.globals with eventSequence := event.sequence } ∧ done.steps = x.steps :=
    ⟨hglobals ▸ hdone.globals, hdone.steps.trans hsteps⟩
  rw [h.stop hkind hturn]
  cases hhandle : l.dspStop event with
  | mismatch =>
    refine .inl ?_
    have herror : l.mismatch event = .error l := by
      refine if_neg ?_
      rintro ⟨-, -, -, -, -, -, hlater⟩
      rw [hglobals] at hlater
      omega
    change (proceed _ (l.mismatch event, [])).result = _
    rw [herror]
    rfl
  | unsupported => exact .inl rfl
  | fault done =>
    rw [hhandle] at hstop
    exact .inr (hleft hstop.1)
  | taken done quota trigger =>
    rw [hhandle] at hstop
    obtain ⟨hdone, rfl, rfl⟩ := hstop
    have hnow := hleft hdone
    dsimp only
    unfold carryOn
    dsimp only
    split_ifs
    · refine .inl ?_
      have herror : done.mismatch event = .error done := by
        refine if_neg ?_
        rintro ⟨-, hpending, -⟩
        rw [hdone.pending] at hpending
        cases hpending
      rw [herror]
      rfl
    · exact .inr hnow
    · contradiction
    · contradiction
    · have hbound : done.limited.isSome := by
        have hsame : done.limited = l.limited := by
          unfold limited
          rw [hdone.limits, hdone.globals]
        rw [hsame, hlimited]
        exact hspent.1
      have hfault : done.globals.cpu.fault = none := by
        rw [hnow.1]
        exact hspent.2
      have hcurrent : done.globals.eventSequence = done.expected := by
        rw [hnow.1, hdone.expected, hexpected]
        exact hsequence
      obtain ⟨hlast, hcount⟩ := halted_last setup devices hbound hfault hdone.pending hcurrent rest
      exact .inr ⟨hlast.trans hnow.1, hcount.trans hnow.2⟩

def Outcome.state : Outcome σ → Replay σ
  | .next s => s
  | .leave s => s
  | .exhausted s => s
  | .error s => s

theorem mismatch_state : (s.mismatch event).state = s := by
  unfold mismatch
  dsimp only
  split_ifs
  · rfl
  · rfl

theorem follows_ite {c : Prop} [Decidable c] {a b : Outcome σ × List (Moment σ)} (h : c → Follows s a.1.state)
    (k : ¬c → Follows s b.1.state) : Follows s (if c then a else b).1.state := by
  split_ifs with hc
  · exact h hc
  · exact k hc

theorem mismatch_follows : Follows s (s.mismatch event).state := by
  rw [mismatch_state]
  exact .refl s

theorem runTrigger_follows : Follows s (s.runTrigger setup devices).1.state :=
  (run_follows setup devices s cooperativeBudget).trans (.of_eq rfl rfl rfl)

theorem carryOn_follows (quota : ℕ) (trigger : Bool) :
    Follows s (s.carryOn setup devices event quota trigger).1.state := by
  refine follows_ite (fun _ ↦ mismatch_follows) fun _ ↦ follows_ite (fun _ ↦ .refl s) fun _ ↦
    follows_ite (fun _ ↦ ?_) fun _ ↦ follows_ite (fun _ ↦ ?_) fun _ ↦ .refl s
  · exact follows_ite (fun _ ↦ (run_follows setup devices s quota).trans (.of_eq rfl rfl rfl)) fun _ ↦
      (run_follows setup devices s quota).trans (.of_eq rfl rfl rfl)
  · refine follows_ite (fun _ ↦ .refl s) fun _ ↦ follows_ite (fun _ ↦ mismatch_follows) fun _ ↦
      follows_ite (fun _ ↦ ?_) fun _ ↦ follows_ite (fun _ ↦ .refl s) fun _ ↦ runTrigger_follows
    rcases s.globals.scheduler.request with ⟨scheduler, _ | _⟩
    · exact mismatch_follows
    · exact .of_eq rfl rfl rfl

theorem Untouched.follows (h : Untouched s t) : Follows s t := .of_eq h.steps h.limits h.deferred

theorem respond_follows : Follows s (s.respond setup devices event).1.state := by
  refine follows_ite (fun _ ↦ .refl s) fun _ ↦ follows_ite (fun _ ↦ mismatch_follows) fun _ ↦ ?_
  have hall := handle_all devices s event
  cases hhandle : s.handle devices event with
  | mismatch => exact mismatch_follows
  | unsupported => exact .refl s
  | fault done =>
    rw [hhandle] at hall
    exact hall.1.follows
  | taken done quota trigger =>
    rw [hhandle] at hall
    exact hall.1.follows.trans (carryOn_follows quota trigger)

theorem lines_follows (events : List (Option RecordedEvent)) (s : Replay σ) :
    Follows s (lines setup devices events s).last := by
  induction events generalizing s with
  | nil => exact .refl s
  | cons line rest ih =>
    have hline : Follows s (s.line setup devices line).1.state := by
      cases line with
      | none => exact .refl s
      | some event =>
        refine Follows.trans (b := s.reading) (.of_eq rfl rfl rfl) ?_
        exact follows_ite (fun _ ↦ .refl _) fun _ ↦ follows_ite (fun _ ↦ .refl _) fun _ ↦ respond_follows
    rw [lines_cons]
    rcases hrun : s.line setup devices line with ⟨_ | _ | _ | _, log⟩
    · rw [hrun] at hline
      exact hline.trans (ih _)
    · rw [hrun] at hline
      exact hline
    · rw [hrun] at hline
      exact hline
    · rw [hrun] at hline
      exact hline

theorem mem_proceed {next : Replay σ → Replayed σ} {o : Outcome σ} {log : List (Moment σ)}
    {m : Moment σ} (h : m ∈ log) :
    m ∈ (proceed next (o, log)).log := by
  cases o with
  | next t => exact List.mem_append_left _ h
  | leave t => exact List.mem_append_left _ h
  | exhausted t => exact h
  | error t => exact h

theorem proceed_cons (next : Replay σ → Replayed σ) (o : Outcome σ) (m : Moment σ) (log : List (Moment σ)) :
    proceed next (o, m :: log) = (proceed next (o, log)).after [m] := by
  cases o with
  | next t => rfl
  | leave t => rfl
  | exhausted t => rfl
  | error t => rfl

theorem states_after (r : Replayed σ) (log : List (Moment σ)) :
    (r.after log).states = log.map Moment.state ++ r.states := by
  unfold Replayed.states Replayed.after
  rw [List.map_append, List.append_assoc]

/-- What was done quietly before is no matter. -/
theorem respects_after {states : List (Replay σ)} {bound : Replayed σ} {log : List (Moment σ)}
    (hquiet : ∀ m ∈ log, m.act = .pass ∨ m.act.Host → m.state.limited = none) :
    Respects states (bound.after log) ↔ Respects states bound := by
  constructor
  · rintro ⟨hends, hlog, hagrees⟩
    exact ⟨hends, fun m hm ↦ hlog m (List.mem_append_right log hm), hagrees⟩
  · rintro ⟨hends, hlog, hagrees⟩
    refine ⟨hends, fun m hm ↦ ?_, hagrees⟩
    rcases List.mem_append.mp hm with hm | hm
    · exact hquiet m hm
    · exact hlog m hm

theorem finish_under (s : Replay σ) : (s.under given).finish = ⟨s.finish.result, s.under given, []⟩ := rfl

theorem respects_finish {before : List (Replay σ)} (h : s.finish.result = .complete) :
    Respects (before ++ s.finish.states) (s.under given).finish := by
  refine ⟨?_, fun m hm ↦ ?_, s, List.mem_append_right before (List.mem_singleton_self s), rfl, rfl⟩
  · rw [finish_under, h]
    exact fun hne ↦ by cases hne
  · cases hm

theorem respects_exhausted {states : List (Replay σ)} {log : List (Moment σ)}
    (hquiet : ∀ m ∈ log, m.act = .pass ∨ m.act.Host → m.state.limited = none) (hmem : s ∈ states)
    (hglobals : t.globals = s.globals) (hsteps : t.steps = s.steps) : Respects states ⟨.budgetExhausted, t, log⟩ :=
  ⟨(fun h ↦ by cases h), hquiet, s, hmem, hglobals.symm, hsteps.symm⟩

theorem carryOn_quiet (given : ReplayLimits) (hlimited : s.limited = none)
    (hgood : (s.carryOn setup devices event 0 false).1.Good) :
    ∃ o, (o = .next s ∨ o = .leave s) ∧ s.carryOn setup devices event 0 false = (o, []) ∧
      (s.under given).carryOn setup devices event 0 false = (o.map (under given), []) := by
  unfold carryOn at hgood ⊢
  dsimp only at hgood ⊢
  by_cases hshown : event.bootPhase ≠ s.globals.bootPhase ∨ event.hint ≠ s.globals.hpi.hint ∨
      event.dspint ≠ s.globals.hpi.dspint
  · rw [if_pos hshown] at hgood
    exact absurd hgood (mismatch_free hlimited)
  by_cases hstops : setup.connectedStopLimit ≠ 0 ∧ setup.connectedStopLimit ≤ s.verifiedStops ∧
    event.kind = some .dspStop
  · refine ⟨.leave s, .inr rfl, ?_, ?_⟩
    · rw [if_neg hshown, if_pos hstops]
    · exact (if_neg hshown).trans (if_pos hstops)
  · refine ⟨.next s, .inl rfl, ?_, ?_⟩
    · rw [if_neg hshown, if_neg hstops]
      rfl
    · exact (if_neg hshown).trans (if_neg hstops)

theorem Responds.log (h : Responds setup devices s event) (next : Replay σ → Replayed σ) :
    ∃ rest, (proceed next (s.respond setup devices event)).log = ⟨.event event, s⟩ :: rest := by
  have hhead (o : Outcome σ) (log : List (Moment σ)) :
      ∃ rest, (proceed next (o, ⟨.event event, s⟩ :: log)).log = ⟨.event event, s⟩ :: rest := by
    cases o with
    | next t => exact ⟨log ++ (next t).log, rfl⟩
    | leave t => exact ⟨log ++ t.finish.log, rfl⟩
    | exhausted t => exact ⟨log, rfl⟩
    | error t => exact ⟨log, rfl⟩
  cases h with
  | fault done handled eq => exact eq ▸ hhead _ _
  | taken done quota trigger handled good eq => exact eq ▸ hhead _ _

theorem under_handle {handled : Handled σ} (h : s.handle devices event = handled) :
    (s.under given).handle devices event = handled.map (under given) := by
  rw [handle_under, h]

theorem under_fault (hopen : ¬(s.under given).OutOfBudget event) (hturn : ¬s.OutOfTurn event) {done : Replay σ}
    (hhandle : s.handle devices event = .fault done) : (s.under given).respond setup devices event =
      (.leave (done.under given), [⟨.event event, s.under given⟩]) := by
  unfold respond
  rw [if_neg hopen, if_neg (show ¬(s.under given).OutOfTurn event from hturn), under_handle hhandle]
  rfl

theorem under_taken (hopen : ¬(s.under given).OutOfBudget event) (hturn : ¬s.OutOfTurn event)
    {done : Replay σ} {quota : ℕ}
    {trigger : Bool} (hhandle : s.handle devices event = .taken done quota trigger) :
    (s.under given).respond setup devices event = (((done.under given).carryOn setup devices event quota trigger).1,
      ⟨.event event, s.under given⟩ :: ((done.under given).carryOn setup devices event quota trigger).2) :=
  respond_open hopen hturn (under_handle hhandle)

/-- Only what the DSP reports of a run is handled past a limit. -/
theorem not_host_of_spent (hspent : s.Spent given) (hopen : ¬(s.under given).OutOfBudget event) :
    ¬(Act.event event).Host ∧ event.kind ≠ some .dspSliceBegin := by
  have hkinds : event.kind = some .dspStop ∨ event.kind = some .dspSliceEnd ∨ event.kind = some .dspHpicWrite := by
    by_contra hother
    obtain ⟨hstop, hend, hwrite⟩ : event.kind ≠ some .dspStop ∧ event.kind ≠ some .dspSliceEnd ∧
        event.kind ≠ some .dspHpicWrite := by
      simpa only [not_or] using hother
    refine hopen ⟨hspent.1, hspent.2, .inl ⟨hstop, ?_⟩⟩
    rintro ⟨-, h | h⟩
    · exact hend h
    · exact hwrite h
  rcases hkinds with h | h | h
  all_goals simp [Act.Host, h]

/-- Past a limit a replay without a fault ends as it has to. -/
theorem lines_spent (events : List (Option RecordedEvent)) (hspent : s.Spent given)
    (hcomplete : (lines setup devices events s).result = .complete) (hfree : (lines setup devices events s).last.Free)
    (before : List (Replay σ)) :
    Respects (before ++ (lines setup devices events s).states) (lines setup devices events (s.under given)) ∧
      ¬Slips given (lines setup devices events s).log := by
  induction events generalizing s before with
  | nil => exact ⟨respects_finish hcomplete, id⟩
  | cons line rest ih =>
    obtain ⟨event, rfl, hsequence, hcases⟩ := lines_complete hcomplete
    have hlimited : s.limited = none := ((lines_follows _ s).free hfree).limited
    rcases hcases with hold | ⟨hnew, hgood⟩
    · rw [lines_known setup devices rest hsequence hold] at hcomplete hfree ⊢
      rw [lines_known (s := s.under given) setup devices rest hsequence hold]
      exact ih (s := s.reading) hspent hcomplete hfree before
    rw [lines_respond hsequence hnew] at hcomplete hfree ⊢
    rw [lines_respond (s := s.under given) hsequence hnew, reading_under]
    obtain ⟨hturn, hresponds⟩ := respond_free (s := s.reading) hlimited hgood
    by_cases hbudget : (s.reading.under given).OutOfBudget event
    · obtain ⟨log, hlog⟩ := hresponds.log (lines setup devices rest)
      have hbound : (s.reading.under given).respond setup devices event = (.exhausted (s.reading.under given), []) := by
        unfold respond
        rw [if_pos hbudget]
      rw [hbound]
      refine ⟨respects_exhausted (s := s.reading) (fun m hm ↦ by cases hm) ?_ rfl rfl, ?_⟩
      · unfold Replayed.states
        rw [hlog]
        exact List.mem_append_right before (List.mem_append_left _ List.mem_cons_self)
      · rw [hlog]
        exact slips_spent (s := s.reading) hspent
    obtain ⟨hhost, hslice⟩ := not_host_of_spent (s := s.reading) hspent hbudget
    have hquiet : ∀ m ∈ [(⟨.event event, s.reading.under given⟩ : Moment σ)], m.act = .pass ∨ m.act.Host →
        m.state.limited = none := by
      intro m hm hact
      rw [List.mem_singleton.mp hm] at hact
      rcases hact with hpass | hact
      · cases hpass
      · exact absurd hact hhost
    have hslips : ¬Slips given (proceed (lines setup devices rest) (s.reading.respond setup devices event)).log := by
      obtain ⟨log, hlog⟩ := hresponds.log (lines setup devices rest)
      rw [hlog]
      exact slips_spent (s := s.reading) hspent
    refine ⟨?_, hslips⟩
    cases hresponds with
    | fault done handled eq =>
      rw [eq] at hcomplete ⊢
      rw [under_fault hbudget hturn handled]
      change Respects (before ++ (done.finish.after _).states) ((done.under given).finish.after _)
      rw [states_after, ← List.append_assoc]
      exact (respects_after hquiet).mpr (respects_finish hcomplete)
    | taken done quota trigger handled good eq =>
      have hall := handle_all devices s.reading event
      rw [handled] at hall
      obtain ⟨huntouched, hquota, htrigger⟩ := hall
      obtain rfl : quota = 0 := by
        by_contra hne
        exact hslice (hquota hne).1
      obtain rfl : trigger = false := by
        cases trigger with
        | false => rfl
        | true =>
          rcases htrigger rfl with h | h
          · exact absurd (.inl h) hhost
          · exact absurd (.inr (.inl h)) hhost
      have hdone : done.limited = none := by
        have hsame : done.limited = s.limited := by
          unfold limited
          rw [huntouched.limits, huntouched.cpu]
          rfl
        rw [hsame, hlimited]
      obtain ⟨o, ho, hcarry, hbound⟩ := carryOn_quiet given hdone good
      rw [eq, hcarry] at hcomplete hfree ⊢
      rw [under_taken hbudget hturn handled, hbound]
      rcases ho with rfl | rfl
      · change Respects (before ++ ((lines setup devices rest done).after _).states)
          ((lines setup devices rest (done.under given)).after _)
        rw [states_after, ← List.append_assoc]
        exact (respects_after hquiet).mpr (ih (huntouched.spent.mpr hspent) hcomplete hfree _).1
      · change Respects (before ++ (done.finish.after _).states) ((done.under given).finish.after _)
        rw [states_after, ← List.append_assoc]
        exact (respects_after hquiet).mpr (respects_finish hcomplete)

theorem Responds.stop (h : Responds setup devices s event) (hkind : event.kind = some .dspStop) :
    event.packets = s.globals.cpu.packets ∧ event.cycles = s.globals.cpu.cycles ∧ (s.globals.cpu.fault.isSome →
      ∀ next : Replay σ → Replayed σ, ∃ done : Replay σ, done.globals.cpu.fault.isSome ∧
        proceed next (s.respond setup devices event) = done.finish.after [⟨.event event, s⟩]) := by
  have hhandle : s.handle devices event = s.dspStop event := by
    unfold handle
    rw [hkind]
  have hall := dspStop_all s event
  cases h with
  | fault done handled eq =>
    rw [hhandle] at handled
    rw [handled] at hall
    obtain ⟨hstopped, -⟩ := hall
    refine ⟨hstopped.packets, hstopped.cycles, fun hfault next ↦ ⟨done, ?_, ?_⟩⟩
    · rw [hstopped.globals]
      exact hfault
    · rw [eq]
      rfl
  | taken done quota trigger handled good eq =>
    rw [hhandle] at handled
    rw [handled] at hall
    refine ⟨hall.1.packets, hall.1.cycles, fun hfault ↦ ?_⟩
    rw [fault_of_dspStop handled] at hfault
    cases hfault

/-- Where a run was cut off, the limited replay is exhausted next, unless its recorded stop comes at once. -/
theorem behind_respects {visited front rest : List (Replay σ)} (hcut : Cut given visited front x rest)
    (hlegacy : x.deferred = false) (hpassed : Passed x w rest) (hbehind : Behind given x w l)
    (events : List (Option RecordedEvent)) (hcomplete : (lines setup devices events w).result = .complete)
    (hfree : (lines setup devices events w).last.Free) {before : List (Replay σ)}
    (hbefore : ∀ t ∈ before, ¬t.Spent given) :
    Respects (before ++ visited ++ (lines setup devices events w).states) (lines setup devices events l) ↔
      ¬Masks given ⟨.pass, x⟩ (passes rest ++ (lines setup devices events w).log) := by
  obtain ⟨event, later, w', l', hmeets⟩ := hbehind.meeting hcomplete
  have hw : w.Free := (lines_follows events w).free hfree
  have hlimited : w'.limited = none := by
    have hsame : w'.limited = w.limited := by
      unfold limited
      rw [hmeets.limits, hmeets.globals]
    exact hsame.trans hw.limited
  obtain ⟨hturn, hresponds⟩ := respond_free hlimited hmeets.good
  obtain ⟨log, hlog⟩ := hresponds.log (lines setup devices later)
  rw [← hmeets.free] at hlog
  have hx : x ∈ visited := hcut.visited ▸ List.mem_append_right front List.mem_cons_self
  have hexhausted (h : l'.respond setup devices event = (.exhausted l', [])) :
      Respects (before ++ visited ++ (lines setup devices events w).states) (lines setup devices events l) := by
    obtain ⟨hglobals, hsteps, -⟩ := hmeets.behind.fields event
    rw [hmeets.bound, h]
    refine respects_exhausted (s := x) (fun m hm ↦ by cases hm) ?_ hglobals hsteps
    exact List.mem_append_left _ (List.mem_append_right before hx)
  by_cases hkind : event.kind = some .dspStop
  · obtain ⟨hpackets, hcycles, hfaulted⟩ := hresponds.stop hkind
    rw [hmeets.globals] at hpackets hcycles hfaulted
    cases hpassed with
    | counted counters steps =>
      have hlater := hmeets.behind.later setup devices hcut.spent hkind hturn
        (hpackets ▸ counters.packets) (hcycles ▸ counters.cycles)
      refine ⟨fun _ ↦ ?_, fun _ ↦ hexhausted hlater⟩
      rintro ⟨-, -, -, next, stop, hhead, hact, -, hcount⟩
      cases rest with
      | nil =>
        change (lines setup devices events w).log.head? = some next at hhead
        rw [hlog] at hhead
        cases hhead
        change w'.steps = x.steps at hcount
        rw [hmeets.steps] at hcount
        omega
      | cons y rest =>
        cases hhead
        cases hact
    | refused ended counters steps fault =>
      subst ended
      have hmasks : Masks given ⟨.pass, x⟩ (passes [] ++ (lines setup devices events w).log) := by
        refine ⟨rfl, hcut.spent, hlegacy, ⟨.event event, w'⟩, event, ?_, rfl, hkind, hmeets.steps.trans steps⟩
        change (lines setup devices events w).log.head? = _
        rw [hlog]
        rfl
      refine ⟨fun hrespects ↦ ?_, fun hno ↦ absurd hmasks hno⟩
      exfalso
      have hmistaken := hmeets.behind.mistaken setup devices hcut.spent hkind hturn
        (hpackets.trans counters.packets) (hcycles.trans counters.cycles) hmeets.sequence later
      rw [← hmeets.bound] at hmistaken
      rcases hmistaken with herror | ⟨hglobals, hcount⟩
      · exact hrespects.ends herror
      obtain ⟨done, hdone, hfinal⟩ := hfaulted fault (lines setup devices later)
      rw [← hmeets.free] at hfinal
      obtain ⟨s, hs, hsame, hsteps⟩ := hrespects.agrees
      rw [hglobals] at hsame
      rw [hcount] at hsteps
      have hcpu : s.globals.cpu = x.globals.cpu := by
        rw [hsame]
      have hspent : s.Spent given := (spent_congr hcpu hsteps).mpr hcut.spent
      rw [hfinal, states_after, hcut.visited] at hs
      rcases List.mem_append.mp hs with hs | hs
      · rcases List.mem_append.mp hs with hs | hs
        · exact hbefore s hs hspent
        rcases List.mem_append.mp hs with hs | hs
        · exact open_of_clear (hcut.clear s hs) hspent
        · obtain rfl := List.mem_singleton.mp hs
          have hsequence : s.globals.eventSequence = event.sequence := congrArg Globals.eventSequence hsame
          have hnew := hmeets.new
          rw [hmeets.behind.sequence, hsequence] at hnew
          exact Nat.lt_irrefl _ hnew
      · have hfaults : s.globals.cpu.fault.isSome := by
          rcases List.mem_append.mp hs with hs | hs
          · obtain rfl := List.mem_singleton.mp hs
            rw [hmeets.globals]
            exact fault
          · obtain rfl := List.mem_singleton.mp hs
            exact hdone
        rw [hspent.2] at hfaults
        cases hfaults
  · have hnext := hmeets.behind.exhausted setup devices hcut.spent hkind
    refine ⟨fun _ ↦ ?_, fun _ ↦ hexhausted hnext⟩
    rintro ⟨-, -, -, next, stop, hhead, hact, hstop, -⟩
    cases rest with
    | nil =>
      change (lines setup devices events w).log.head? = some next at hhead
      rw [hlog] at hhead
      cases hhead
      cases hact
      exact hkind hstop
    | cons y rest =>
      cases hhead
      cases hact

def Decides (setup : Setup) (devices : Devices σ) (given : ReplayLimits) (rest : List (Option RecordedEvent)) : Prop :=
  ∀ {t : Replay σ}, ¬t.Spent given → (lines setup devices rest t).result = .complete →
    (lines setup devices rest t).last.Free → ∀ {before : List (Replay σ)}, (∀ s ∈ before, ¬s.Spent given) →
      (Respects (before ++ (lines setup devices rest t).states) (lines setup devices rest (t.under given)) ↔
        ¬Slips given (lines setup devices rest t).log)

theorem quiet_passes {visited : List (Replay σ)} (h : ∀ x ∈ visited, (x.under given).limited = none) :
    ∀ m ∈ passes (visited.map (under given)), m.act = .pass ∨ m.act.Host → m.state.limited = none := by
  intro m hm _
  rw [passes_map] at hm
  obtain ⟨n, hn, rfl⟩ := List.mem_map.mp hm
  exact (clear_passes h n hn).2

theorem states_passes (visited : List (Replay σ)) : (passes visited).map Moment.state = visited := by
  unfold passes
  rw [List.map_map]
  exact List.map_id visited

theorem beside_respects {rest : List (Option RecordedEvent)} (hrest : Decides setup devices given rest)
    {free bound : Outcome σ × List (Moment σ)} (hbeside : Beside given free bound) (hgood : free.1.Good)
    (hcomplete : (proceed (lines setup devices rest) free).result = .complete)
    (hfree : (proceed (lines setup devices rest) free).last.Free) {before : List (Replay σ)}
    (hbefore : ∀ s ∈ before, ¬s.Spent given) :
    Respects (before ++ (proceed (lines setup devices rest) free).states) (proceed (lines setup devices rest) bound) ↔
      ¬Slips given (proceed (lines setup devices rest) free).log := by
  rcases free with ⟨outcome, log⟩
  cases hbeside with
  | same eq clear =>
    subst eq
    have hquiet : ∀ m ∈ log.map (Moment.under given), m.act = .pass ∨ m.act.Host → m.state.limited = none := by
      intro m hm _
      obtain ⟨n, hn, rfl⟩ := List.mem_map.mp hm
      exact (clear n hn).2
    have hstates : ∀ s ∈ before ++ log.map Moment.state, ¬s.Spent given := by
      intro s hs
      rcases List.mem_append.mp hs with hs | hs
      · exact hbefore s hs
      · obtain ⟨n, hn, rfl⟩ := List.mem_map.mp hs
        exact open_of_clear (clear n hn).2
    cases outcome with
    | next t =>
      change Respects (before ++ ((lines setup devices rest t).after log).states)
        ((lines setup devices rest (t.under given)).after _) ↔ ¬Slips given (log ++ _)
      rw [states_after, ← List.append_assoc, respects_after hquiet, slips_clear clear]
      by_cases hspent : t.Spent given
      · obtain ⟨hrespects, hslips⟩ := lines_spent rest hspent hcomplete hfree (before ++ log.map Moment.state)
        exact ⟨fun _ ↦ hslips, fun _ ↦ hrespects⟩
      · exact hrest hspent hcomplete hfree hstates
    | leave t =>
      change Respects (before ++ (t.finish.after log).states) ((t.under given).finish.after _) ↔
        ¬Slips given (log ++ _)
      rw [states_after, ← List.append_assoc, respects_after hquiet, slips_clear clear]
      exact ⟨fun _ ↦ id, fun _ ↦ respects_finish hcomplete⟩
    | exhausted t => exact hgood.elim
    | error t => exact hgood.elim
  | stopped hlog cut deferred eq globals steps =>
    rename_i visited front later x l
    obtain rfl : log = passes visited := hlog
    subst eq
    have hx : x ∈ visited := cut.visited ▸ List.mem_append_right front List.mem_cons_self
    have hmem : (⟨.pass, x⟩ : Moment σ) ∈ (proceed (lines setup devices rest) (outcome, passes visited)).log :=
      mem_proceed (List.mem_map_of_mem hx)
    have hslips : ¬Slips given (proceed (lines setup devices rest) (outcome, passes visited)).log := by
      obtain ⟨tail, htail⟩ : ∃ tail, (proceed (lines setup devices rest) (outcome, passes visited)).log =
          passes visited ++ tail := by
        cases outcome with
        | next t => exact ⟨_, rfl⟩
        | leave t => exact ⟨_, rfl⟩
        | exhausted t => exact hgood.elim
        | error t => exact hgood.elim
      rw [htail, slips_cut cut]
      rintro ⟨-, -, hlegacy, -⟩
      change x.deferred = false at hlegacy
      rw [deferred] at hlegacy
      cases hlegacy
    refine ⟨fun _ ↦ hslips, fun _ ↦ respects_exhausted (s := x) (quiet_passes cut.clear) ?_ globals steps⟩
    refine List.mem_append_right before (List.mem_append_left _ ?_)
    exact List.mem_map_of_mem (f := Moment.state) hmem
  | behind hlog cut deferred passed next eq locals =>
    rename_i visited front later x v l
    obtain rfl : log = passes visited := hlog
    obtain rfl : outcome = .next v := next
    subst eq
    change Respects (before ++ ((lines setup devices rest v).after (passes visited)).states)
      ((lines setup devices rest l).after (passes (front.map (under given)))) ↔ ¬Slips given (passes visited ++ _)
    rw [states_after, states_passes, ← List.append_assoc, respects_after (quiet_passes cut.clear), slips_cut cut]
    exact behind_respects cut deferred passed locals rest hcomplete hfree hbefore

/-- The limited replay does what it has to, unless the log of the free one has a slip. -/
theorem lines_respects (hbreak : setup.breakpoint = 0) (events : List (Option RecordedEvent)) :
    Decides setup devices given events := by
  induction events with
  | nil =>
    intro t _ hcomplete _ before _
    exact ⟨fun _ ↦ id, fun _ ↦ respects_finish hcomplete⟩
  | cons line rest ih =>
    intro t hopen hcomplete hfree before hbefore
    obtain ⟨event, rfl, hsequence, hcases⟩ := lines_complete hcomplete
    have hlimited : t.limited = none := ((lines_follows _ t).free hfree).limited
    rcases hcases with hold | ⟨hnew, hgood⟩
    · rw [lines_known setup devices rest hsequence hold] at hcomplete hfree ⊢
      rw [lines_known (s := t.under given) setup devices rest hsequence hold]
      exact ih (t := t.reading) hopen hcomplete hfree hbefore
    rw [lines_respond hsequence hnew] at hcomplete hfree ⊢
    rw [lines_respond (s := t.under given) hsequence hnew, reading_under]
    obtain ⟨hturn, hresponds⟩ := respond_free (s := t.reading) hlimited hgood
    have hbudget : ¬(t.reading.under given).OutOfBudget event := fun h ↦ hopen ⟨h.1, h.2.1⟩
    obtain ⟨log, hlog⟩ := hresponds.log (lines setup devices rest)
    by_cases hover : Overruns given ⟨.event event, t.reading⟩
    · have hslips : Slips given (proceed (lines setup devices rest) (t.reading.respond setup devices event)).log := by
        rw [hlog]
        exact .inl hover
      refine ⟨fun hrespects ↦ ?_, fun hno ↦ absurd hslips hno⟩
      have hmem : (⟨.event event, t.reading.under given⟩ : Moment σ) ∈
          (proceed (lines setup devices rest) ((t.reading.under given).respond setup devices event)).log := by
        cases hresponds with
        | fault done handled eq =>
          rw [under_fault hbudget hturn handled]
          exact mem_proceed List.mem_cons_self
        | taken done quota trigger handled good eq =>
          rw [under_taken hbudget hturn handled]
          exact mem_proceed List.mem_cons_self
      have hnone := hrespects.quiet _ hmem (.inr hover.1)
      have hsome := hover.2.1
      change (t.reading.under given).limited = none at hnone
      change (t.reading.under given).limited.isSome = true at hsome
      rw [hnone] at hsome
      cases hsome
    have hquiet : ∀ m ∈ [(⟨.event event, t.reading.under given⟩ : Moment σ)], m.act = .pass ∨ m.act.Host →
        m.state.limited = none := by
      intro m hm hact
      obtain rfl := List.mem_singleton.mp hm
      rcases hact with hpass | hhost
      · cases hpass
      cases hbound : (t.reading.under given).limited with
      | none => rfl
      | some limit =>
        have hsome : (t.reading.under given).limited.isSome := by
          rw [hbound]
          rfl
        cases hfault : t.globals.cpu.fault with
        | none => exact absurd ⟨hsome, hfault⟩ hopen
        | some why =>
          refine absurd ⟨hhost, hsome, ?_⟩ hover
          change t.globals.cpu.fault.isSome = true
          rw [hfault]
          rfl
    have hstates : ∀ s ∈ before ++ [t.reading], ¬s.Spent given := by
      intro s hs
      rcases List.mem_append.mp hs with hs | hs
      · exact hbefore s hs
      · obtain rfl := List.mem_singleton.mp hs
        exact hopen
    have hskip {log : List (Moment σ)} : Slips given (⟨.event event, t.reading⟩ :: log) ↔ Slips given log := by
      rw [slips_event (s := t.reading) hopen]
      exact or_iff_right hover
    cases hresponds with
    | fault done handled eq =>
      rw [eq] at hcomplete ⊢
      rw [under_fault hbudget hturn handled]
      change Respects (before ++ (done.finish.after _).states) ((done.under given).finish.after _) ↔
        ¬Slips given (⟨.event event, t.reading⟩ :: [])
      rw [states_after, ← List.append_assoc, respects_after hquiet, hskip]
      exact ⟨fun _ ↦ id, fun _ ↦ respects_finish hcomplete⟩
    | taken done quota trigger handled good eq =>
      have hall := handle_all devices t.reading event
      rw [handled] at hall
      obtain ⟨huntouched, hquota, -⟩ := hall
      have hspent : ¬done.Spent given := huntouched.spent.not.mpr hopen
      rw [eq] at hcomplete hfree ⊢
      rw [under_taken hbudget hturn handled]
      have hnext (u : Replay σ) (hu : (done.carryOn setup devices event quota trigger).1 = .next u) : u.Free := by
        rw [proceed_cons, hu] at hfree
        exact (lines_follows rest u).free hfree
      have hslice (h : quota ≠ 0) : done.deferred = true ∧ done.globals.cpu.fault = none := by
        obtain ⟨-, hdeferred, hfault⟩ := hquota h
        exact ⟨huntouched.deferred.trans hdeferred, (congrArg Cpu.fault huntouched.cpu).trans hfault⟩
      have hdone : done.limited = none := by
        have hsame : done.limited = t.limited := by
          unfold limited
          rw [huntouched.limits, huntouched.cpu]
          rfl
        exact hsame.trans hlimited
      rw [proceed_cons] at hcomplete hfree ⊢
      rw [proceed_cons]
      change Respects (before ++ ((proceed (lines setup devices rest)
          (done.carryOn setup devices event quota trigger)).after _).states) _ ↔
        ¬Slips given (⟨.event event, t.reading⟩ :: (proceed (lines setup devices rest)
          (done.carryOn setup devices event quota trigger)).log)
      rw [states_after, ← List.append_assoc, respects_after hquiet, hskip]
      exact beside_respects ih (carryOn_beside hbreak hslice hspent hdone good hnext) good hcomplete hfree hstates

variable {g : Globals σ} {free : ReplayLimits}

theorem start_under (free given : ReplayLimits) (g : Globals σ) : start given g = (start free g).under given := rfl

/-- A replay begins short of its limits. -/
theorem start_open (hsteps : given.stepsRemaining ≠ 0) (hpackets : given.initialPackets = g.cpu.packets)
    (hcycles : given.initialCycles = g.cpu.cycles) : ¬(start free g).Spent given := by
  apply open_of_clear
  change limitReached given g.cpu = none
  unfold limitReached counterDelta
  rw [hpackets, hcycles, if_neg hsteps]
  simp

theorem external_limits (setup : Setup) (devices : Devices σ) (limits : ReplayLimits)
    (events : List (Option RecordedEvent)) (g : Globals σ) :
    (replayExternalEvents setup devices limits events g).last.limits = limits.after
      (replayExternalEvents setup devices limits events g).last.steps := by
  have hlines {s : Replay σ} (h : Follows (start limits g) s) :
      Follows (start limits g) (lines setup devices events s).last := h.trans (lines_follows events s)
  suffices hall : Follows (start limits g) (replayExternalEvents setup devices limits events g).last from hall.limits
  unfold replayExternalEvents
  dsimp only
  split_ifs
  · rcases g.scheduler.request with ⟨scheduler, _ | _⟩
    · exact .refl _
    · exact hlines (.of_eq rfl rfl rfl)
  · exact hlines (.refl _)
  · exact hlines runTrigger_follows
  · exact hlines (.refl _)

theorem events_respects (hbreak : setup.breakpoint = 0) (hfault : g.cpu.fault = none)
    (hopen : ¬(start free g).Spent given)
    (events : List (Option RecordedEvent))
    (hcomplete : (replayExternalEvents setup devices free events g).result = .complete)
    (hfree : (replayExternalEvents setup devices free events g).last.Free) :
    Respects (replayExternalEvents setup devices free events g).states
      (replayExternalEvents setup devices given events g) ↔
      ¬Slips given (replayExternalEvents setup devices free events g).log := by
  have hnone : ∀ s ∈ ([] : List (Replay σ)), ¬s.Spent given := fun s hs ↦ by cases hs
  have hrest : Decides setup devices given events := lines_respects hbreak events
  unfold replayExternalEvents at hcomplete hfree ⊢
  rw [start_under free given g]
  dsimp only at hcomplete hfree ⊢
  by_cases hdeferred : (start free g).deferred = true
  · rw [if_pos hdeferred] at hcomplete hfree ⊢
    rw [if_pos (show ((start free g).under given).deferred = true from hdeferred)]
    by_cases htrigger : g.dspStarted ∧ !g.dspHalted ∧ AtTrigger g
    · rw [if_pos htrigger] at hcomplete hfree ⊢
      rw [if_pos htrigger]
      rcases hrequest : g.scheduler.request with ⟨scheduler, _ | _⟩
      · rw [hrequest] at hcomplete
        cases hcomplete
      · rw [hrequest] at hcomplete hfree
        exact hrest (t := { start free g with globals := { g with scheduler }, schedulePending :=
          true }) hopen hcomplete hfree
          hnone
    · rw [if_neg htrigger] at hcomplete hfree ⊢
      rw [if_neg htrigger]
      exact hrest hopen hcomplete hfree hnone
  · rw [if_neg hdeferred] at hcomplete hfree ⊢
    rw [if_neg (show ¬((start free g).under given).deferred = true from hdeferred)]
    by_cases htrigger : AtTrigger g
    · rw [if_pos htrigger] at hcomplete hfree ⊢
      rw [if_pos htrigger]
      have hlast : ((start free g).runBudget setup devices).last.Free := by
        obtain ⟨hpackets, hcycles, hsteps⟩ := (lines_follows events _).free hfree
        exact ⟨hpackets, hcycles, hsteps⟩
      have hbeside := runTrigger_beside given hbreak hfault (Bool.eq_false_iff.mpr hdeferred) hlast
      exact beside_respects hrest hbeside trivial hcomplete hfree hnone
    · rw [if_neg htrigger] at hcomplete hfree ⊢
      rw [if_neg htrigger]
      exact hrest hopen hcomplete hfree hnone

end Replay

open Replay

/-- A replay under limits, beside the one that no limit stops. -/
theorem replay_respects {σ : Type} {setup : Setup} {devices : Devices σ} {n steps : ℕ} {g : Globals σ}
    {events : List (Option RecordedEvent)} (hbreak : setup.breakpoint = 0) (hsteps : steps ≠ 0)
    (hcomplete : (replay setup devices n 0 0 events g).result = .complete)
    (hleft : (replay setup devices n 0 0 events g).last.limits.stepsRemaining ≠ 0) (packetLimit cycleLimit : ℕ) :
    Respects (replay setup devices n 0 0 events g).states
      (replay setup devices steps packetLimit cycleLimit events g) ↔
      ¬Slips ⟨steps, g.cpu.packets, g.cpu.cycles, packetLimit, cycleLimit⟩
        (replay setup devices n 0 0 events g).log := by
  have hopen : ¬(start ⟨n, g.cpu.packets, g.cpu.cycles, 0, 0⟩ g.restored).Spent
      ⟨steps, g.cpu.packets, g.cpu.cycles, packetLimit, cycleLimit⟩ := start_open hsteps rfl rfl
  have hlimits := external_limits setup devices ⟨n, g.cpu.packets, g.cpu.cycles, 0, 0⟩ events g.restored
  refine events_respects hbreak rfl hopen events hcomplete ⟨?_, ?_, hleft⟩
  · exact congrArg ReplayLimits.packetLimit hlimits
  · exact congrArg ReplayLimits.cycleLimit hlimits

/-- No operation at 0, and behind it a word that is no instruction. -/
def crashBus : Bus (Hardware Unit) where
  read s address := (s, some (if address = 4 then 0xffffffff else 0))
  write s _ _ _ _ := (s, false)
  tick s := s

def crashDevices : Devices Unit where
  bus _ _ := crashBus
  deliverEdmaNotifications s := s
  cpuPending _ := 0
  spiFault _ := false
  pscTick s := s
  advanceFunctionalMcaspSlots s := (s, true)
  deliverEvent _ s := s
  setInput _ _ _ s := s
  hostMemory _ _ := none
  storeHostMemory s _ _ := s

def crashSetup : Setup := ⟨default, false, false, 0, 0⟩

def crashGlobals : Globals Unit where
  devices := ()
  hpi := .reset
  hpicEvents := []
  hpicOverflow := false
  cpu := reset 0
  bootPhase := 0
  hpiAddress := 0
  words := 0
  eventSequence := 0
  scheduler := ⟨0, 0, 0, 0, 0, 0, Board.Scheduler.legacy, 0⟩
  dspStarted := true
  dspHalted := false
  stopReason := .dspStartBoundary

def crashEvents : List (Option RecordedEvent) :=
  [some ⟨1, some .dspStop, 0, 4, 0xffffffff, 0, 0, false, false, 1, 1⟩]

theorem replay_respects_crash :
    Respects (replay crashSetup crashDevices 2 0 0 crashEvents crashGlobals).states
        (replay crashSetup crashDevices 1 1 1 crashEvents crashGlobals) ↔
      ¬Slips ⟨1, 0, 0, 1, 1⟩ (replay crashSetup crashDevices 2 0 0 crashEvents crashGlobals).log :=
  replay_respects rfl (by decide) (by decide +kernel) (by decide +kernel) 1 1

/-- Stopped before the pass that would have faulted, the replay ends with an error. -/
theorem step_limit_diverges :
    (replay crashSetup crashDevices 2 0 0 crashEvents crashGlobals).result = .complete ∧
      (replay crashSetup crashDevices 2 0 0 crashEvents crashGlobals).last.limits.stepsRemaining ≠ 0 ∧
      (replay crashSetup crashDevices 1 1 1 crashEvents crashGlobals).result = .error := by
  decide +kernel

end Cdj2000Emulator.Replayer
