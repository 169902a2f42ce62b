import Mathlib.Algebra.Order.Ring.Int
import Mathlib.Tactic.Common
import Mathlib.Tactic.Ring
import Cdj2000Emulator.Dsp.Report
import Cdj2000Emulator.Dsp.Requests
import Cdj2000Emulator.Library.Monitor

namespace Cdj2000Emulator.Dsp.Jobs

open Model Report Requests Library.Monitor

section Ledger

/-- A job as MAIN posts it: the count and the parameter. -/
abbrev Job := Word × Word

/-- What happens to the job word +0x7ba4. -/
inductive Event
  | posted (job : Job)
  | withdrawn (job : Job)
  | executed (job : Job)
  deriving DecidableEq

def Event.isExecuted : Event → Bool
  | .executed _ => true
  | _ => false

/-- A job is posted where none is pending, and the pending one is executed, or taken back by
MAIN, once. -/
def ledger : Observer Event (Option Job) where
  start := none
  step
    | none, .posted job => some (some job)
    | some pending, .withdrawn job => if job = pending then some none else none
    | some pending, .executed job => if job = pending then some none else none
    | _, _ => none

def pending (w : Window) : Option Job :=
  if 0 < (w 0x7ba4).toInt then some (w 0x7ba8, w 0x7bac) else none

variable (c : Config)

def events (d : Device) : Step → List Event
  | .guest window =>
    if pending window = pending d.window then []
    else ((pending d.window).map .withdrawn).toList ++ ((pending window).map .posted).toList
  | .tick now =>
    let d := scanned c now d
    if JobReady c d then [.executed (d.window 0x7ba8, d.window 0x7bac)] else []
  | .positionTick _ => []

def Unanswered (d : Device) : Step → Prop
  | .tick _ => (pending d.window).isSome → Answers c d → asked d.window .command = none
  | _ => True

end Ledger

section Scan

variable (c : Config) (now : ℤ) (d : Device)

theorem job_words_stored {a : ℕ} (h : a = 0x7ba8 ∨ a = 0x7bac) :
    Stored a ∧ ∀ r, ¬Cleared r a := by
  refine ⟨by unfold Stored; omega, ?_⟩
  intro r
  unfold Cleared
  cases r <;> simp [Request.offset, Request.clearResult] <;> omega

theorem scanned_parameters :
    (scanned c now d).window 0x7ba8 = d.window 0x7ba8 ∧
      (scanned c now d).window 0x7bac = d.window 0x7bac := by
  have key : ∀ a, a = 0x7ba8 ∨ a = 0x7bac → (scanned c now d).window a = d.window a := by
    intro a h
    obtain ⟨hs, hr⟩ := job_words_stored h
    exact scanned_stored c now d hs hr
  exact ⟨key _ (.inl rfl), key _ (.inr rfl)⟩

/-- A tick that acknowledges no command over it hands the job block the pending job. -/
theorem scanned_pending (h : Unanswered c d (.tick now)) :
    pending (scanned c now d).window = pending d.window := by
  unfold pending
  rw [(scanned_parameters c now d).1, (scanned_parameters c now d).2, scanned_job_word]
  by_cases ha : Answers c d ∧ asked d.window .command ≠ none
  · rw [if_pos ha]
    by_cases hp : 0 < (d.window 0x7ba4).toInt
    · exact absurd (h (by rw [pending, if_pos hp]; rfl) ha.1) ha.2
    · rw [if_neg hp, if_neg (by decide)]
  · rw [if_neg ha]

end Scan

section Block

variable (c : Config) (now : ℤ) (d : Device)

theorem jobConsume_keeps : Keeps d (jobConsume d) := by
  unfold jobConsume
  dsimp only
  refine .trans (.trans (.stl ?_) (.stl ?_)) (.stl ?_) <;> unfold Stored
  · unfold levelBuffer1 levelBuffer2
    split_ifs <;> omega
  · unfold levelBuffer1 levelBuffer2
    split_ifs <;> omega
  · split_ifs <;> omega

theorem jobAdvance_keeps : Keeps d (jobAdvance now d) :=
  .ite ⟨fun _ _ ↦ rfl, rfl, rfl, rfl⟩ (.refl d)

theorem job_keeps : Keeps
    ({ d with jobs := d.jobs + 1, deck := { d.deck with seekArmed := false } }.stl 0x7ba4 0)
    (job c now d) := by
  have hconsume : ∀ d, Keeps d (if c.jobConsume then jobConsume d else d) := fun d ↦
    .ite (jobConsume_keeps d) (.refl d)
  have hadvance : ∀ d, Keeps d (if c.jobAdvance then jobAdvance now d else d) := fun d ↦
    .ite (jobAdvance_keeps now d) (.refl d)
  have hevents : ∀ d : Device, Keeps d (if c.events then d.post 0x0500 else d) := fun d ↦
    .ite (post_keeps d _) (.refl d)
  exact ((hconsume _).trans (hadvance _)).trans (hevents _)

theorem job_pending : pending (job c now d).window = none := by
  have h : (job c now d).window 0x7ba4 = 0 :=
    ((job_keeps c now d).stored _ (by unfold Stored; omega)).trans (device_stl_same ..)
  unfold pending
  rw [h]
  rfl

theorem pending_of_keeps {d d' : Device} (h : Keeps d d') : pending d'.window = pending d.window := by
  unfold pending
  rw [h.stored _ (by unfold Stored; omega), h.stored _ (by unfold Stored; omega),
    h.stored _ (by unfold Stored; omega)]

theorem tick_pending :
    pending (tick c now d).window =
      if JobReady c (scanned c now d) then none else pending (scanned c now d).window := by
  rw [pending_of_keeps (tick_keeps c now d)]
  unfold jobs
  by_cases hready : JobReady c (scanned c now d)
  · rw [if_pos hready, if_pos hready, job_pending]
  · rw [if_neg hready, if_neg hready]

theorem step_jobs (s : Step) :
    (step c d s).jobs = d.jobs + (events c d s).countP Event.isExecuted := by
  cases s with
  | guest window =>
    simp only [step, events]
    by_cases he : pending window = pending d.window
    · rw [if_pos he]
      rfl
    · rw [if_neg he]
      cases pending d.window <;> cases pending window <;> rfl
  | tick now =>
    have hscanned : (scanned c now d).jobs = d.jobs := (scanned_rest c now d).2.2
    simp only [step, events]
    rw [(tick_keeps c now d).jobs, jobs]
    by_cases hready : JobReady c (scanned c now d)
    · rw [if_pos hready, if_pos hready, (job_keeps c now _).jobs]
      exact congrArg (· + 1) hscanned
    · rw [if_neg hready, if_neg hready]
      exact hscanned
  | positionTick now =>
    have h : Keeps d (positionTick c now d) := .ite (positionReport_keeps c now d) (.refl d)
    exact h.jobs

theorem run_jobs (steps : List Step) (d : Device) :
    (run c d steps).jobs =
      d.jobs + (Observer.history (step c) (events c) d steps).countP Event.isExecuted := by
  induction steps generalizing d with
  | nil => rfl
  | cons s steps ih =>
    rw [Observer.history, List.countP_append, ← Nat.add_assoc, ← step_jobs]
    exact ih _

theorem step_ledger (s : Step) (h : Unanswered c d s) :
    ledger.run (pending d.window) (events c d s) = some (pending (step c d s).window) := by
  cases s with
  | guest window =>
    simp only [events, step]
    by_cases he : pending window = pending d.window
    · rw [if_pos he, he]
      rfl
    · rw [if_neg he]
      generalize pending window = p' at he ⊢
      cases hp : pending d.window with
      | none => cases p' with
        | none => exact absurd hp.symm he
        | some job => rfl
      | some job =>
        have hw : ledger.run (some job) [.withdrawn job] = some none :=
          Observer.run_singleton (if_pos rfl)
        cases p' with
        | none => exact hw
        | some job' => exact (Observer.run_append_of hw).trans rfl
  | tick now =>
    simp only [events, step]
    rw [tick_pending, scanned_pending c now d h]
    by_cases hready : JobReady c (scanned c now d)
    · rw [if_pos hready, if_pos hready]
      have hp : pending d.window =
          some ((scanned c now d).window 0x7ba8, (scanned c now d).window 0x7bac) := by
        rw [← scanned_pending c now d h, pending, if_pos hready.2.2.2.2.1]
      rw [hp]
      exact Observer.run_singleton (if_pos rfl)
    · rw [if_neg hready, if_neg hready]
      rfl
  | positionTick now =>
    have hk : Keeps d (positionTick c now d) := .ite (positionReport_keeps c now d) (.refl d)
    simp only [events, step]
    rw [pending_of_keeps hk]
    rfl

end Block

section HalfFrames

/-- A position in MAIN's unit, 150 to the second. -/
def halfFrames (ms : ℤ) : ℤ := ms * 150 / 1000

/-- The half frames MAIN reads back from the position report. -/
def reported (w : Window) : ℤ :=
  (w 0x7c10).toNat * 2 + if 294 ≤ (w 0x7bf4).toNat then 1 else 0

theorem halfFrames_of_fields (ms : ℤ) :
    halfFrames ms = ms * 75 / 1000 * 2 + if 294 ≤ ms * 44100 / 1000 % 588 then 1 else 0 := by
  have h1 : ms * 44100 / 1000 / 294 = halfFrames ms := by
    rw [Int.ediv_ediv_of_nonneg (by decide), halfFrames,
      show ms * 44100 = ms * 150 * 294 by ring, Int.mul_ediv_mul_of_pos_left _ _ (by decide)]
  have h2 : ms * 44100 / 1000 / 588 = ms * 75 / 1000 := by
    rw [Int.ediv_ediv_of_nonneg (by decide), show ms * 44100 = ms * 75 * 588 by ring,
      Int.mul_ediv_mul_of_pos_left _ _ (by decide)]
  rw [← h1, ← h2]
  split_ifs <;> omega

def firstMs (half : ℤ) : ℤ := (half * 1000 + 149) / 150

theorem halfFrames_eq_iff {ms half : ℤ} : halfFrames ms = half ↔
    firstMs half ≤ ms ∧ ms < firstMs (half + 1) := by
  unfold halfFrames firstMs
  omega

theorem halfFrames_first (half : ℤ) : halfFrames (firstMs half) = half := by
  unfold halfFrames firstMs
  omega

theorem halfFrames_before {half ms : ℤ} (h : ms < firstMs half) : halfFrames ms < half := by
  unfold halfFrames
  unfold firstMs at h
  omega

theorem halfFrames_nonneg {ms : ℤ} (h : 0 ≤ ms) : 0 ≤ halfFrames ms := by
  unfold halfFrames
  omega

theorem positionBlock_words (c : Config) (k : Deck) (w : Window) :
    positionBlock c k w 0x7c10 = word ((k.posMs * 75).tdiv 1000) ∧
      positionBlock c k w 0x7bf4 = word (((k.posMs * 44100).tdiv 1000).tmod 588) := by
  unfold positionBlock
  constructor
  · rw [stl_other _ _ (by decide), stl_same]
  · rw [stl_other _ _ (by decide), stl_other _ _ (by decide), stl_other _ _ (by decide), stl_same]

theorem word_toNat (x : ℤ) : ((word x).toNat : ℤ) = x % 2 ^ 32 := by
  unfold word
  rw [BitVec.toNat_ofInt]
  omega

theorem reported_positionBlock (c : Config) {k : Deck} (w : Window) (h : 0 ≤ k.posMs) :
    ∃ j, 0 ≤ j ∧ halfFrames k.posMs = reported (positionBlock c k w) + 2 ^ 33 * j := by
  obtain ⟨hframes, hsamples⟩ := positionBlock_words c k w
  refine ⟨k.posMs * 75 / 1000 / 2 ^ 32, by omega, ?_⟩
  have h1 : (k.posMs * 75).tdiv 1000 = k.posMs * 75 / 1000 :=
    Int.tdiv_eq_ediv_of_nonneg (by omega)
  have h2 : (k.posMs * 44100).tdiv 1000 = k.posMs * 44100 / 1000 :=
    Int.tdiv_eq_ediv_of_nonneg (by omega)
  have h3 : (k.posMs * 44100 / 1000).tmod 588 = k.posMs * 44100 / 1000 % 588 :=
    Int.tmod_eq_emod_of_nonneg (by omega)
  have h4 := word_toNat (k.posMs * 75 / 1000)
  have h5 := word_toNat (k.posMs * 44100 / 1000 % 588)
  rw [halfFrames_of_fields, reported, hframes, hsamples, h1, h2, h3, h4]
  have h6 : 294 ≤ (word (k.posMs * 44100 / 1000 % 588)).toNat ↔
      294 ≤ k.posMs * 44100 / 1000 % 588 := by omega
  simp only [h6]
  omega

theorem reported_range (w : Window) : 0 ≤ reported w ∧ reported w < 2 ^ 33 := by
  have h := (w 0x7c10).isLt
  unfold reported
  split_ifs <;> omega

end HalfFrames

section Levels

theorem int32_of_range {x : ℤ} (h : -2 ^ 31 ≤ x) (h' : x < 2 ^ 31) : int32 x = x := by
  rw [int32, Int.bmod_def]
  split_ifs <;> omega

theorem int32_of_over {x : ℤ} (h : 2 ^ 31 ≤ x) (h' : x < 2 ^ 32) : int32 x = x - 2 ^ 32 := by
  rw [int32, Int.bmod_def]
  split_ifs <;> omega

theorem word_toInt (x : ℤ) : (word x).toInt = int32 x := by
  unfold word int32
  rw [BitVec.toInt_ofInt]

/-- A fill level that is given out of range reads negative. -/
theorem word_toInt_nonneg {x : ℤ} (h : -2 ^ 31 ≤ x) (h' : x < 2 ^ 32) :
    0 ≤ (word x).toInt ↔ 0 ≤ x ∧ x < 2 ^ 31 := by
  rw [word_toInt]
  by_cases hx : x < 2 ^ 31
  · rw [int32_of_range h hx]
    omega
  · rw [int32_of_over (by omega) h']
    omega

/-- The two levels have room for what a job of `count` half frames moves between them: the
three counts whose rounding overflows move about 2^30 frames the other way. -/
def LevelsFit (count source target : ℤ) : Prop :=
  if count = -2 ^ 31 then source ≤ 2 ^ 30 ∧ 2 ^ 30 - 1 ≤ target
  else if count = 2 ^ 31 - 1 ∨ count = -(2 ^ 31 - 1) then source < 2 ^ 30 ∧ 2 ^ 30 ≤ target
  else target + min ((|count| + 1) / 2) source < 2 ^ 31

theorem jobTake_eq {count : ℤ} (h : -2 ^ 31 ≤ count) (h' : count < 2 ^ 31) (stored : ℤ) :
    jobTake count stored =
      min (if count = -2 ^ 31 then -(2 ^ 30 - 1)
        else if count = 2 ^ 31 - 1 ∨ count = -(2 ^ 31 - 1) then -2 ^ 30
        else (|count| + 1) / 2) stored := by
  unfold jobTake
  congr 1
  by_cases h1 : count = -2 ^ 31
  · subst h1
    decide
  by_cases h2 : count = 2 ^ 31 - 1 ∨ count = -(2 ^ 31 - 1)
  · rw [if_neg h1, if_pos h2]
    obtain rfl | rfl := h2 <;> decide
  · rw [if_neg h1, if_neg h2]
    by_cases h3 : count < 0
    · have h4 : int32 (-count) = -count := int32_of_range (by omega) (by omega)
      rw [if_pos h3, h4, int32_of_range (by omega) (by omega),
        Int.tdiv_eq_ediv_of_nonneg (by omega), abs_of_neg h3]
    · rw [if_neg h3, int32_of_range (by omega) (by omega),
        Int.tdiv_eq_ediv_of_nonneg (by omega), abs_of_nonneg (by omega)]

theorem levels_exact {count source target : ℤ} (hc : -2 ^ 31 ≤ count) (hc' : count < 2 ^ 31)
    (hs : 0 ≤ source) (hs' : source < 2 ^ 31) (ht : 0 ≤ target) (ht' : target < 2 ^ 31) :
    (0 ≤ (word (source - jobTake count source)).toInt ∧
      0 ≤ (word (target + jobTake count source)).toInt ∧
      (word (source - jobTake count source)).toInt +
        (word (target + jobTake count source)).toInt = source + target) ↔
      LevelsFit count source target := by
  have hrange : -2 ^ 30 ≤ jobTake count source ∧ jobTake count source ≤ source := by
    rw [jobTake_eq hc hc']
    have := abs_nonneg count
    split_ifs <;> omega
  have hfit : LevelsFit count source target ↔
      (0 ≤ source - jobTake count source ∧ source - jobTake count source < 2 ^ 31) ∧
        (0 ≤ target + jobTake count source ∧ target + jobTake count source < 2 ^ 31) := by
    rw [jobTake_eq hc hc', LevelsFit]
    have := abs_nonneg count
    split_ifs <;> omega
  rw [word_toInt_nonneg (by omega) (by omega), word_toInt_nonneg (by omega) (by omega), hfit]
  constructor
  · rintro ⟨h1, h2, -⟩
    exact ⟨h1, h2⟩
  · rintro ⟨h1, h2⟩
    refine ⟨h1, h2, ?_⟩
    rw [word_toInt, word_toInt, int32_of_range (by omega) h1.2, int32_of_range (by omega) h2.2]
    omega

end Levels

section Exact

variable (c : Config) (now : ℤ) (d : Device)

def count : ℤ := (d.window 0x7ba8).toInt

def landing : ℤ := max (halfFrames d.deck.posMs + count d) 0

/-- The audio ahead of the position and behind it. -/
def ahead : ℤ := (d.window levelBuffer1).toInt

def behind : ℤ := (d.window levelBuffer2).toInt

/-- A deck as its own steps keep it; one that plays on has its last report at a time that its clock
can hold. -/
structure Sound : Prop where
  position : 0 ≤ d.deck.posMs
  loopIn : 0 ≤ d.deck.loopInMs
  remainder : 0 ≤ d.deck.posRemNs ∧ d.deck.posRemNs < scaleMs
  elapsed : d.deck.posState = .playing → count d = 0 →
    0 ≤ now - d.deck.posLastNs ∧ (now - d.deck.posLastNs) * 0x300000 < 2 ^ 63
  ahead : 0 ≤ ahead d
  behind : 0 ≤ behind d

/-- MAIN reads the landing in the report, and the levels keep their sum. -/
def Exact (r : Device) : Prop :=
  reported r.window = landing d ∧ 0 ≤ ahead r ∧ 0 ≤ behind r ∧
    ahead r + behind r = ahead d + behind d

/-- The audio time to the report is short of the next half frame; or it reaches the END of the loop
in force, and is a number of laps but for what keeps the deck in its half frame and in the loop. -/
def PlaysWithin : Prop :=
  let played := playedNs now (rateWord d.window) d.deck
  let lap := d.deck.loopOutMs - d.deck.loopInMs
  let start := firstMs (landing d)
  let next := firstMs (landing d + 1)
  if d.deck.loopOn ∧ 0 < lap ∧ (d.deck.loopOutMs - d.deck.posMs) * scaleMs ≤ played then
    ∃ laps : ℤ,
      (max start d.deck.loopInMs - d.deck.posMs + laps * lap) * scaleMs ≤ played ∧
        played < (min next d.deck.loopOutMs - d.deck.posMs + laps * lap) * scaleMs
  else played < (next - d.deck.posMs) * scaleMs

/-- A playing deck is still in the half frame of the landing when it reports: the landing is
not past the end of the loop in force, or, with nothing to move, the deck plays on within it. -/
def Settles : Prop :=
  d.deck.posState = .playing →
    if count d = 0 then PlaysWithin now d
    else ¬(d.deck.loopOn ∧ d.deck.loopInMs < d.deck.loopOutMs ∧ d.deck.loopOutMs ≤ firstMs (landing d))

/-- When a job is exact. -/
def Fits : Prop :=
  (landing d < 2 ^ 33 ∧ Settles now d) ∧
    if count d < 0 then LevelsFit (count d) (behind d) (ahead d)
    else LevelsFit (count d) (ahead d) (behind d)

variable {c now d}

def taken (d : Device) : Device :=
  { d with jobs := d.jobs + 1, deck := { d.deck with seekArmed := false } }.stl 0x7ba4 0

theorem taken_window {a : ℕ} (h : a ≠ 0x7ba4) : (taken d).window a = d.window a :=
  stl_other d.window 0 h

theorem job_deck (hadvance : c.jobAdvance) (hparam : d.window 0x7bac = 0)
    (hpos : 0 ≤ d.deck.posMs) :
    (job c now d).deck =
      if count d = 0 then { d.deck with seekArmed := false }
      else { d.deck with
        seekArmed := false
        posMs := firstMs (landing d)
        cueMs := firstMs (landing d)
        posLastNs := now } := by
  have hhalf : (d.deck.posMs * 150).tdiv 1000 = halfFrames d.deck.posMs :=
    Int.tdiv_eq_ediv_of_nonneg (by omega)
  have hfirst : (landing d * 1000 + 149).tdiv 150 = firstMs (landing d) := by
    have : 0 ≤ landing d := le_max_right _ _
    exact Int.tdiv_eq_ediv_of_nonneg (by omega)
  have hjob : ∀ x : Device, (if c.events then x.post 0x0500 else x).deck = x.deck := by
    intro x
    split_ifs <;> simp
  let d₂ := if c.jobConsume then jobConsume (taken d) else taken d
  have hkeeps : Keeps (taken d) d₂ := .ite (jobConsume_keeps _) (.refl _)
  have hdeck : d₂.deck = { d.deck with seekArmed := false } := by
    dsimp only [d₂]
    split_ifs <;> rfl
  have hcount : d₂.window 0x7ba8 = d.window 0x7ba8 :=
    (hkeeps.stored _ (by unfold Stored; omega)).trans (taken_window (by decide))
  have hparam' : d₂.window 0x7bac = 0 :=
    ((hkeeps.stored _ (by unfold Stored; omega)).trans (taken_window (by decide))).trans hparam
  have hmoved : (job c now d).deck = (jobAdvance now d₂).deck := by
    unfold job
    dsimp only
    rw [hjob, if_pos hadvance]
    rfl
  rw [hmoved, ← hfirst]
  unfold jobAdvance
  rw [hparam', hcount, hdeck]
  by_cases hc : count d = 0
  · rw [if_pos hc]
    dsimp only
    rw [if_neg (fun h ↦ h.2 hc), hdeck]
  · rw [if_neg hc]
    dsimp only
    rw [if_pos ⟨rfl, hc⟩, hhalf]
    rfl

theorem jobConsume_levels (d : Device) :
    if count d < 0 then
      behind (jobConsume d) = (word (behind d - jobTake (count d) (behind d))).toInt ∧
        ahead (jobConsume d) = (word (ahead d + jobTake (count d) (behind d))).toInt
    else
      ahead (jobConsume d) = (word (ahead d - jobTake (count d) (ahead d))).toInt ∧
        behind (jobConsume d) = (word (behind d + jobTake (count d) (ahead d))).toInt := by
  by_cases h : count d < 0
  · rw [if_pos h]
    unfold count at h
    unfold ahead behind jobConsume count
    simp only [if_pos h, Device.stl]
    constructor
    · rw [stl_other _ _ (by decide), stl_other _ _ (by decide), stl_same]
    · rw [stl_other _ _ (by decide), stl_same, stl_other _ _ (by decide)]
  · rw [if_neg h]
    unfold count at h
    unfold ahead behind jobConsume count
    simp only [if_neg h, Device.stl]
    constructor
    · rw [stl_other _ _ (by decide), stl_other _ _ (by decide), stl_same]
    · rw [stl_other _ _ (by decide), stl_same, stl_other _ _ (by decide)]

theorem report_job_level (hconsume : c.jobConsume) {a : ℕ}
    (ha : a = levelBuffer1 ∨ a = levelBuffer2) :
    (report c now (job c now d)).window a = (jobConsume (taken d)).window a := by
  unfold levelBuffer1 levelBuffer2 at ha
  have hreport : ∀ x : Device, (report c now x).window a = x.window a := by
    intro x
    unfold report positionReport positionBlock
    split_ifs <;> try rfl
    all_goals
      refine (stl_other _ _ (by omega)).trans ((stl_other _ _ (by omega)).trans ?_)
      refine (stl_other _ _ (by omega)).trans ((stl_other _ _ (by omega)).trans ?_)
      exact stl_other _ _ (by omega)
  have hpost : ∀ x : Device, (if c.events then x.post 0x0500 else x).window a = x.window a := by
    intro x
    unfold Device.post Device.event Device.stl
    split_ifs
    · exact stl_other _ _ (by omega)
    · exact (stl_other _ _ (by omega)).trans (stl_other _ _ (by omega))
    · rfl
  have hadvance : ∀ x : Device,
      (if c.jobAdvance then jobAdvance now x else x).window = x.window := by
    intro x
    unfold jobAdvance
    dsimp only
    split_ifs <;> rfl
  rw [hreport]
  unfold job
  dsimp only
  rw [hpost, hadvance, if_pos hconsume]
  rfl

theorem levels_iff (hconsume : c.jobConsume) (sound : Sound now d) :
    (0 ≤ ahead (report c now (job c now d)) ∧ 0 ≤ behind (report c now (job c now d)) ∧
      ahead (report c now (job c now d)) + behind (report c now (job c now d)) =
        ahead d + behind d) ↔
      if count d < 0 then LevelsFit (count d) (behind d) (ahead d)
      else LevelsFit (count d) (ahead d) (behind d) := by
  have hahead : ahead (report c now (job c now d)) = ahead (jobConsume (taken d)) :=
    congrArg BitVec.toInt (report_job_level hconsume (.inl rfl))
  have hbehind : behind (report c now (job c now d)) = behind (jobConsume (taken d)) :=
    congrArg BitVec.toInt (report_job_level hconsume (.inr rfl))
  have hcount : count (taken d) = count d := congrArg BitVec.toInt (taken_window (by decide))
  have hahead' : ahead (taken d) = ahead d := congrArg BitVec.toInt (taken_window (by decide))
  have hbehind' : behind (taken d) = behind d := congrArg BitVec.toInt (taken_window (by decide))
  have hlevels := jobConsume_levels (taken d)
  rw [hcount, hahead', hbehind'] at hlevels
  have hcount0 : -2 ^ 31 ≤ count d := BitVec.le_toInt _
  have hcount1 : count d < 2 ^ 31 := BitVec.toInt_lt
  have hahead1 : ahead d < 2 ^ 31 := BitVec.toInt_lt
  have hbehind1 : behind d < 2 ^ 31 := BitVec.toInt_lt
  rw [hahead, hbehind]
  by_cases h : count d < 0
  · rw [if_pos h] at hlevels ⊢
    rw [hlevels.1, hlevels.2, ← levels_exact hcount0 hcount1 sound.behind hbehind1 sound.ahead hahead1]
    omega
  · rw [if_neg h] at hlevels ⊢
    rw [hlevels.1, hlevels.2, ← levels_exact hcount0 hcount1 sound.ahead hahead1 sound.behind hbehind1]

def shown (c : Config) (now : ℤ) (d : Device) : Deck :=
  let k := (job c now d).deck
  if k.posState = .playing then wrap (advance now (rateWord d.window) k) else k

theorem report_job_window (hreport : c.posReport) (ready : JobReady c d) :
    (report c now (job c now d)).window =
      positionBlock c (shown c now d) (job c now d).window := by
  have hkeeps := job_keeps c now d
  have hrate : rateWord (job c now d).window = rateWord d.window := by
    unfold rateWord
    rw [hkeeps.stored _ (by unfold Stored; omega)]
    exact congrArg (fun w : Word ↦ ((w &&& 0xffffff).toNat : ℤ)) (taken_window (by decide))
  unfold report
  rw [if_pos ⟨hreport, hkeeps.running.trans ready.2.1, ready.2.2.1⟩]
  unfold positionReport
  rw [if_neg (not_not_intro (hkeeps.controlCleared.trans ready.2.2.2.1)), hrate]
  rfl

theorem reported_eq_iff {k : Deck} (w : Window) (h : 0 ≤ k.posMs) {half : ℤ}
    (hnear : halfFrames k.posMs < half + 2 ^ 33) :
    reported (positionBlock c k w) = half ↔ half < 2 ^ 33 ∧ halfFrames k.posMs = half := by
  obtain ⟨j, hj, hk⟩ := reported_positionBlock c w h
  have hr := reported_range (positionBlock c k w)
  constructor
  · intro he
    have hj0 : j = 0 := by omega
    subst hj0
    omega
  · rintro ⟨h1, h2⟩
    omega

theorem lap_iff {start next position first last : ℤ} (h : first < last) :
    (start ≤ first + (position - first) % (last - first) ∧
        first + (position - first) % (last - first) < next) ↔
      ∃ laps : ℤ, max start first + laps * (last - first) ≤ position ∧
        position < min next last + laps * (last - first) := by
  constructor
  · rintro ⟨hstart, hnext⟩
    have hsplit := Int.emod_add_mul_ediv (position - first) (last - first)
    have hlow := Int.emod_nonneg (position - first) (show last - first ≠ 0 by omega)
    have hhigh := Int.emod_lt_of_pos (position - first) (show 0 < last - first by omega)
    refine ⟨(position - first) / (last - first), ?_, ?_⟩ <;>
      rw [Int.mul_comm ((position - first) / (last - first))] <;> omega
  · rintro ⟨laps, hlow, hhigh⟩
    have hmod : (position - first) % (last - first) = position - first - laps * (last - first) := by
      have hsplit : position - first = position - first - laps * (last - first) + laps * (last - first) :=
        (Int.sub_add_cancel _ _).symm
      rw [hsplit, Int.add_mul_emod_self_right, Int.sub_add_cancel]
      exact Int.emod_eq_of_lt (by omega) (by omega)
    rw [hmod]
    omega

theorem landing_of_stays (hpos : 0 ≤ d.deck.posMs) (hcount : count d = 0) : landing d = halfFrames d.deck.posMs := by
  have := halfFrames_nonneg hpos
  rw [landing, hcount]
  omega

theorem playsWithin_iff (sound : Sound now d) (hplay : d.deck.posState = .playing) (hcount : count d = 0) :
    halfFrames (wrap (advance now (rateWord d.window) d.deck)).posMs = landing d ↔ PlaysWithin now d := by
  have hland := landing_of_stays sound.position hcount
  have hstart : firstMs (landing d) ≤ d.deck.posMs := (halfFrames_eq_iff.mp hland.symm).1
  obtain ⟨hadvanced, hnonneg, -⟩ :=
    advance_posMs (rateWord_nonneg d.window) (sound.elapsed hplay hcount) sound.remainder
  have hmultiple : ∀ x : ℤ, x * scaleMs ≤ playedNs now (rateWord d.window) d.deck ↔
      x ≤ playedNs now (rateWord d.window) d.deck / scaleMs := fun x ↦
    (Int.le_ediv_iff_mul_le (by decide)).symm
  have hshort : ∀ x : ℤ, playedNs now (rateWord d.window) d.deck < x * scaleMs ↔
      playedNs now (rateWord d.window) d.deck / scaleMs < x := fun x ↦ (Int.ediv_lt_iff_lt_mul (by decide)).symm
  have hforward : 0 ≤ playedNs now (rateWord d.window) d.deck / scaleMs := Int.ediv_nonneg hnonneg (by decide)
  generalize playedNs now (rateWord d.window) d.deck / scaleMs = forward at hmultiple hshort hforward hadvanced
  have hwrapped : (wrap (advance now (rateWord d.window) d.deck)).posMs =
      if d.deck.loopOn ∧ d.deck.loopInMs < d.deck.loopOutMs ∧ d.deck.loopOutMs ≤ d.deck.posMs + forward then
        d.deck.loopInMs +
          (d.deck.posMs + forward - d.deck.loopInMs).tmod (d.deck.loopOutMs - d.deck.loopInMs)
      else d.deck.posMs + forward := by
    rw [← hadvanced]
    unfold wrap
    split_ifs <;> first | rfl | contradiction
  rw [halfFrames_eq_iff, hwrapped]
  unfold PlaysWithin
  dsimp only
  simp only [hmultiple, hshort]
  by_cases hreached : d.deck.loopOn ∧ d.deck.loopInMs < d.deck.loopOutMs ∧
    d.deck.loopOutMs ≤ d.deck.posMs + forward
  · rw [if_pos hreached, if_pos ⟨hreached.1, by omega, by omega⟩, Int.tmod_eq_emod_of_nonneg (by omega),
      lap_iff hreached.2.1]
    exact exists_congr fun laps ↦ by omega
  · rw [if_neg hreached, if_neg (fun h ↦ hreached ⟨h.1, by omega, by omega⟩)]
    omega

/-- With nothing to move a playing deck plays on up to the report. -/
theorem position_iff_of_stays (hadvance : c.jobAdvance) (hparam : d.window 0x7bac = 0) (sound : Sound now d)
    (hcount : count d = 0) :
    reported (positionBlock c (shown c now d) (job c now d).window) = landing d ↔
      landing d < 2 ^ 33 ∧ Settles now d := by
  have hpos := sound.position
  have hland := landing_of_stays hpos hcount
  have hjob := @job_deck c now d hadvance hparam hpos
  rw [if_pos hcount] at hjob
  unfold Settles
  rw [if_pos hcount]
  by_cases hplay : d.deck.posState = .playing
  · have hshown : (shown c now d).posMs = (wrap (advance now (rateWord d.window) d.deck)).posMs := by
      unfold shown
      rw [hjob]
      dsimp only
      rw [if_pos hplay]
      unfold wrap advance
      dsimp only
      split_ifs <;> rfl
    obtain ⟨hadvanced, hforward⟩ :=
      advance_posMs (rateWord_nonneg d.window) (sound.elapsed hplay hcount) sound.remainder
    have hadv : d.deck.posMs ≤ (advance now (rateWord d.window) d.deck).posMs ∧
        (advance now (rateWord d.window) d.deck).posMs < d.deck.posMs + 2 ^ 24 := by
      unfold scaleMs at hadvanced hforward
      omega
    have hwrap := wrap_range (k := advance now (rateWord d.window) d.deck) (hpos.trans hadv.1) sound.loopIn
    rw [reported_eq_iff _ (by rw [hshown]; exact hwrap.1), hshown]
    · simp only [hplay, forall_const]
      rw [playsWithin_iff sound hplay hcount]
    · rw [hshown, hland]
      unfold halfFrames
      omega
  · have hshown : (shown c now d).posMs = d.deck.posMs := by
      unfold shown
      rw [hjob]
      dsimp only
      rw [if_neg hplay]
    rw [reported_eq_iff _ (by rw [hshown]; exact hpos), hshown]
    · simp [hplay, hland]
    · rw [hshown, hland]
      omega

/-- A deck that has been moved reports the first millisecond of its landing, or where the loop in force takes it. -/
theorem position_iff_of_moves (hadvance : c.jobAdvance) (hparam : d.window 0x7bac = 0) (sound : Sound now d)
    (hcount : count d ≠ 0) :
    reported (positionBlock c (shown c now d) (job c now d).window) = landing d ↔
      landing d < 2 ^ 33 ∧ Settles now d := by
  have hlanding : 0 ≤ landing d := le_max_right _ _
  have hjob := @job_deck c now d hadvance hparam sound.position
  rw [if_neg hcount] at hjob
  have hfirst := halfFrames_first (landing d)
  have hstart : 0 ≤ firstMs (landing d) := by
    unfold firstMs
    omega
  unfold Settles
  rw [if_neg hcount]
  by_cases hplay : d.deck.posState = .playing
  · let k := advance now (rateWord d.window) (job c now d).deck
    have hk : k.posMs = firstMs (landing d) := by
      have hrem : -scaleMs < d.deck.posRemNs ∧ d.deck.posRemNs < scaleMs :=
        ⟨lt_of_lt_of_le (by decide) sound.remainder.1, sound.remainder.2⟩
      refine (advance_now (by rw [hjob]) (by rw [hjob]; exact hrem)).trans ?_
      rw [hjob]
    have hloop : k.loopOn = d.deck.loopOn ∧ k.loopInMs = d.deck.loopInMs ∧ k.loopOutMs = d.deck.loopOutMs := by
      simp only [k, advance, hjob]
      trivial
    have hshown : shown c now d = wrap k := by
      unfold shown
      exact if_pos (by rw [hjob]; exact hplay)
    have hwrap := wrap_range (k := k) (by omega) (by rw [hloop.2.1]; exact sound.loopIn)
    rw [hshown, reported_eq_iff _ hwrap.1]
    · simp only [hplay, forall_const]
      refine and_congr_right fun _ ↦ ?_
      rw [← hloop.1, ← hloop.2.1, ← hloop.2.2, ← hk]
      constructor
      · intro he hw
        have hlt := halfFrames_before (hk ▸ wrap_lt hw)
        omega
      · intro hw
        rw [wrap, if_neg hw, hk, hfirst]
    · have hle : (wrap k).posMs ≤ firstMs (landing d) := hk ▸ hwrap.2
      unfold firstMs at hle
      unfold halfFrames
      omega
  · have hshown : (shown c now d).posMs = firstMs (landing d) := by
      unfold shown
      rw [hjob]
      exact congrArg Deck.posMs (if_neg hplay)
    rw [reported_eq_iff _ (by rw [hshown]; omega), hshown, hfirst]
    · simp [hplay]
    · rw [hshown, hfirst]
      omega

theorem position_iff (hadvance : c.jobAdvance) (hreport : c.posReport) (ready : JobReady c d)
    (hparam : d.window 0x7bac = 0) (sound : Sound now d) :
    reported (report c now (job c now d)).window = landing d ↔
      landing d < 2 ^ 33 ∧ Settles now d := by
  rw [report_job_window hreport ready]
  by_cases hcount : count d = 0
  · exact position_iff_of_stays hadvance hparam sound hcount
  · exact position_iff_of_moves hadvance hparam sound hcount

end Exact

section Results

/-- In every run whose ticks acknowledge no command over a pending job, every job that was
posted is executed once before its word is made 0; and a job is exact exactly when it fits. -/
theorem jobs_exact (c : Config) (hreport : c.posReport) (hadvance : c.jobAdvance)
    (hconsume : c.jobConsume) :
    (∀ (d : Device) (steps : List Step),
      Observer.Throughout (step c) (Unanswered c) d steps →
        ledger.run (pending d.window) (Observer.history (step c) (events c) d steps) =
            some (pending (run c d steps).window) ∧
          (run c d steps).jobs = d.jobs +
            (Observer.history (step c) (events c) d steps).countP Event.isExecuted) ∧
      ∀ (d : Device) (now : ℤ), JobReady c d → d.window 0x7bac = 0 → Sound now d →
        (Exact d (report c now (job c now d)) ↔ Fits now d) := by
  refine ⟨?_, ?_⟩
  · intro d steps met
    have hrun : ledger.run (pending d.window) (Observer.history (step c) (events c) d steps) =
        some (pending (run c d steps).window) :=
      Observer.run_history (fun d s ↦ step_ledger c d s) d steps met
    exact ⟨hrun, run_jobs c steps d⟩
  · intro d now ready hparam sound
    unfold Exact Fits
    rw [position_iff hadvance hreport ready hparam sound, levels_iff hconsume sound]

/-- A job of 68 half frames is posted while command 1 is still in its word: the next tick's
acknowledgement takes the job away with it. -/
theorem job_lost :
    let w := ((Device.started.window.stl 0x7ba8 68).stl 0x7ba4 1).stl 0x7ba0 1
    let steps : List Step := [.guest w, .tick 10000000]
    ¬ledger.run (pending Device.started.window)
        (Observer.history (step .standard) (events .standard) .started steps) =
      some (pending (run .standard .started steps).window) := by
  decide +kernel

theorem jobs_exact_posted :
    let w := ((Device.started.window.stl 0x7ba8 68).stl 0x7ba4 1).stl levelBuffer1 40
    let d : Device := { Device.started with window := w }
    Observer.Throughout (step .standard) (Unanswered .standard) .started
        [.guest w, .tick 10000000] ∧
      ledger.run (pending Device.started.window)
          (Observer.history (step .standard) (events .standard) .started
            [.guest w, .tick 10000000]) =
        some (pending (run .standard .started [.guest w, .tick 10000000]).window) ∧
      Exact d (report .standard 10000000 (job .standard 10000000 d)) := by
  intro w d
  have met : Observer.Throughout (step .standard) (Unanswered .standard) .started
      [.guest w, .tick 10000000] :=
    ⟨trivial, fun _ _ ↦ by decide +kernel, trivial⟩
  have exact := jobs_exact .standard rfl rfl rfl
  refine ⟨met, (exact.1 _ _ met).1, (exact.2 d 10000000 (by decide +kernel) rfl ?_).mpr ?_⟩
  · exact ⟨by decide, by decide, by decide, by decide, by decide +kernel, by decide +kernel⟩
  · unfold Fits LevelsFit
    exact ⟨⟨by decide +kernel, nofun⟩, by decide +kernel⟩

end Results

end Cdj2000Emulator.Dsp.Jobs
