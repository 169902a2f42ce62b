import Cdj2000Emulator.Cosim.Delivery

namespace Cdj2000Emulator.Cosim.Promises

open Library.Monitor Receiver Step Delivery

variable {k : Kind} {q : ℤ} {s : Port}

section Statement

/-- The board can act: a CPU has work, or one of its timers is due. -/
def Stirs (s : Port) : Prop :=
  s.guest.asleep = false ∨ ∃ deadline ∈ s.guest.deadline, deadline ≤ s.now

instance (s : Port) : Decidable (Stirs s) := instDecidableOr

/-- While the board sleeps nothing but its timers, and what the step hands over, wakes it. -/
def Honest (s : Port) : Action → Prop
  | .guest g => g = s.guest ∨ Stirs s
  | .send _ _ => Stirs s
  | _ => True

instance (s : Port) : (a : Action) → Decidable (Honest s a)
  | .guest _ => inferInstanceAs (Decidable (_ ∨ _))
  | .send _ _ => inferInstanceAs (Decidable (Stirs s))
  | .advance _ | .fire _ _ | .wake _ _ => .isTrue trivial

/-- What a message says of a later one: reported times and promises do not decrease, and nothing
is stamped below a promise. -/
def Keeps : Sent → Sent → Prop
  | .time t promise, .time t' promise' => t ≤ t' ∧ promise ≤ promise'
  | .time _ promise, .data _ t _ => promise ≤ t
  | _, _ => True

end Statement

section Promise

theorem now_le_promise (q : ℤ) (s : Port) : s.now ≤ promise q s := by
  unfold promise
  dsimp only
  split_ifs <;> omega

/-- A promise past now is the sleeping board's, and no later than what can wake it. -/
theorem promise_ahead (h : s.now < promise q s) :
    s.guest.asleep ∧ promise q s ≤ s.inbox.peerPromise + q ∧
      (∀ d ∈ s.inbox.due.head?, promise q s ≤ d.due) ∧
      ∀ deadline ∈ s.guest.deadline, promise q s ≤ deadline := by
  have hasleep : s.guest.asleep := by
    by_contra hawake
    rw [promise, if_pos hawake] at h
    omega
  refine ⟨hasleep, ?_⟩
  unfold promise at h ⊢
  rw [if_neg (not_not_intro hasleep)] at h ⊢
  generalize s.guest.deadline = deadline? at h ⊢
  generalize s.inbox.due.head? = head? at h ⊢
  dsimp only at h ⊢
  refine ⟨?_, fun d hd ↦ ?_, fun deadline hdeadline ↦ ?_⟩
  · cases deadline? <;> cases head? <;> dsimp only at h ⊢ <;> split_ifs at h ⊢ <;> omega
  · obtain rfl := hd
    cases deadline? <;> dsimp only at h ⊢ <;> split_ifs at h ⊢ <;> omega
  · obtain rfl := hdeadline
    cases head? <;> dsimp only at h ⊢ <;> split_ifs at h ⊢ <;> omega

/-- The promise is made from the clock, the board and the queue. -/
theorem promise_congr {t : Port} (hnow : t.now = s.now) (hguest : t.guest = s.guest)
    (hinbox : t.inbox = s.inbox) : promise q t = promise q s := by
  unfold promise
  rw [hnow, hguest, hinbox]

end Promise

/-- The log so far, and how far the reports in it go. -/
structure Kept (s : Port) : Prop where
  log : s.sent.Pairwise Keeps
  promised : ∀ t promise, .time t promise ∈ s.sent → t ≤ s.now ∧ promise ≤ s.promised

/-- The step's timer is not set before the promise, and until then a board that has promised
sleeps. -/
inductive Bound (s : Port) : Prop
  | lost (gone : s.inbox.lost.isSome) (waiting : s.waiting = false) (timer : s.timer = none)
  | waits (waiting : s.waiting = true) (timer : s.timer = none) (kept : s.promised ≤ s.now)
  | runs (waiting : s.waiting = false) (due : ℤ) (timer : s.timer = some due)
      (before : s.promised ≤ due)
      (kept : s.promised ≤ s.now ∨
        s.guest.asleep ∧ ∀ deadline ∈ s.guest.deadline, s.promised ≤ deadline)

section Reports

theorem Kept.of_fields {t : Port} (h : Kept s) (hsent : t.sent = s.sent) (hnow : s.now ≤ t.now)
    (hpromised : s.promised ≤ t.promised) : Kept t := by
  refine ⟨by rw [hsent]; exact h.log, ?_⟩
  rw [hsent]
  intro t' promise hmem
  obtain ⟨h1, h2⟩ := h.promised t' promise hmem
  exact ⟨h1.trans hnow, h2.trans hpromised⟩

theorem report_kept (h : Kept s) {promise : ℤ} (hp : s.promised ≤ promise) :
    Kept (report s promise) := by
  unfold report send
  by_cases hlost : s.inbox.lost.isSome
  · rw [if_pos hlost]
    exact h.of_fields rfl le_rfl hp
  · rw [if_neg hlost]
    refine ⟨List.pairwise_append.mpr ⟨h.log, List.pairwise_singleton _ _, ?_⟩, ?_⟩
    · intro a ha b hb
      obtain rfl := List.mem_singleton.mp hb
      cases a with
      | hello => trivial
      | data type t payload => trivial
      | time t promise' =>
        obtain ⟨h1, h2⟩ := h.promised t promise' ha
        exact ⟨h1, h2.trans hp⟩
    · intro t promise' hmem
      rcases List.mem_append.mp hmem with hmem | hmem
      · obtain ⟨h1, h2⟩ := h.promised t promise' hmem
        exact ⟨h1, h2.trans hp⟩
      · obtain ⟨rfl, rfl⟩ := Sent.time.inj (List.mem_singleton.mp hmem)
        exact ⟨le_rfl, le_rfl⟩

theorem send_kept (h : Kept s) (hp : s.promised ≤ s.now) (type : Library.Bytes.Byte)
    (payload : List Library.Bytes.Byte) : Kept (send s (.data type s.now payload)) := by
  unfold send
  by_cases hlost : s.inbox.lost.isSome
  · rw [if_pos hlost]
    exact h
  · rw [if_neg hlost]
    refine ⟨List.pairwise_append.mpr ⟨h.log, List.pairwise_singleton _ _, ?_⟩, ?_⟩
    · intro a ha b hb
      obtain rfl := List.mem_singleton.mp hb
      cases a with
      | hello => trivial
      | data type t payload => trivial
      | time t promise => exact (h.promised t promise ha).2.trans hp
    · intro t promise hmem
      rcases List.mem_append.mp hmem with hmem | hmem
      · exact h.promised t promise hmem
      · exact absurd (List.mem_singleton.mp hmem) nofun

theorem reported_kept {P : Prop} [Decidable P] (h : Kept s) (hp : s.promised ≤ promise q s) :
    Kept (if P then report s (promise q s) else s) ∧
      (if P then report s (promise q s) else s).promised ≤ promise q s ∧
      (if P then report s (promise q s) else s).now = s.now ∧
      (if P then report s (promise q s) else s).inbox = s.inbox ∧
      (if P then report s (promise q s) else s).guest = s.guest ∧
      (if P then report s (promise q s) else s).timer = s.timer := by
  by_cases hP : P
  · rw [if_pos hP]
    obtain ⟨h1, h2, -, h4, -, h6⟩ := report_fields s (promise q s)
    exact ⟨report_kept h hp, le_rfl, h1, h2, h4, h6⟩
  · rw [if_neg hP]
    exact ⟨h, hp, rfl, rfl, rfl, rfl⟩

/-- The timer is set for the promise, or soon after now where there is none past it. -/
theorem rearm_kept (h : Kept s) (hp : s.promised ≤ promise q s) :
    Kept (rearm q s) ∧ Bound (rearm q s) := by
  obtain ⟨hkept, -, hnow, hinbox, hguest, -⟩ :=
    reported_kept (P := s.promised < promise q s) h hp
  have heq : (if s.promised < promise q s then report s (promise q s) else s).promised =
      promise q s := by
    by_cases hlt : s.promised < promise q s
    · rw [if_pos hlt]
      rfl
    · rw [if_neg hlt]
      exact le_antisymm hp (not_lt.mp hlt)
  unfold rearm
  dsimp only
  generalize (if s.promised < promise q s then report s (promise q s) else s) = r at *
  rw [hnow, hinbox]
  refine ⟨hkept.of_fields rfl hnow.le le_rfl, .runs rfl _ rfl ?_ ?_⟩
  · change r.promised ≤ _
    rw [heq]
    by_cases hahead : s.now < promise q s
    · obtain ⟨-, hpeer, hhead, -⟩ := promise_ahead hahead
      generalize promise q s = p at *
      generalize s.inbox.due.head? = head? at *
      cases head? with
      | none =>
        dsimp only
        split_ifs <;> omega
      | some d =>
        have := hhead d rfl
        dsimp only
        split_ifs <;> omega
    · have := not_lt.mp hahead
      generalize promise q s = p at *
      generalize s.inbox.due.head? = head? at *
      cases head? <;> dsimp only <;> split_ifs <;> omega
  · change r.promised ≤ s.now ∨ r.guest.asleep ∧ ∀ deadline ∈ r.guest.deadline, r.promised ≤ deadline
    rw [heq, hguest]
    by_cases hahead : s.now < promise q s
    · obtain ⟨hasleep, -, -, hdeadline⟩ := promise_ahead hahead
      exact .inr ⟨hasleep, hdeadline⟩
    · exact .inl (not_lt.mp hahead)

theorem settle_kept (h : Kept s) (hp : s.promised ≤ promise q s) (htimer : s.timer = none) :
    Kept (settle q s) ∧ Bound (settle q s) := by
  unfold settle
  by_cases hwait : s.inbox.peerPromise + q ≤ s.now
  · rw [if_pos hwait]
    have hpromise : promise q s ≤ s.now := by
      by_contra hahead
      exact hahead ((promise_ahead (not_le.mp hahead)).2.1.trans hwait)
    obtain ⟨hkept, hle, hnow, -, -, htimer'⟩ :=
      reported_kept (P := s.reported ≠ s.now ∨ promise q s ≠ s.promised) h hp
    refine ⟨hkept.of_fields rfl le_rfl le_rfl, .waits rfl (htimer'.trans htimer) ?_⟩
    exact (hle.trans hpromise).trans hnow.ge
  · rw [if_neg hwait]
    exact rearm_kept h hp

end Reports

section Steps

theorem take_kept (h : Kept s) (reads : List ℕ) (woken : Guest) :
    Kept (take k q s reads woken) := by
  obtain ⟨hnow, -, -, -, hpromised, hsent⟩ := take_fields k q s reads woken
  exact h.of_fields hsent hnow.ge hpromised.ge

theorem fire_kept (h : Kept s) (hp : s.promised ≤ s.now) (hwaiting : s.waiting = false)
    (reads : List ℕ) (woken : Guest) :
    Kept (fire k q s reads woken) ∧ Bound (fire k q s reads woken) := by
  obtain ⟨hnow, hwait, htimer, -, hpromised, -⟩ :=
    take_fields k q { s with timer := none } reads woken
  have ht := take_kept (k := k) (q := q)
    (h.of_fields (t := { s with timer := none }) rfl le_rfl le_rfl) reads woken
  unfold fire
  generalize take k q { s with timer := none } reads woken = t at hnow hwait htimer hpromised ht ⊢
  dsimp only at hnow hwait htimer hpromised ⊢
  by_cases hlost : t.inbox.lost.isSome
  · rw [if_pos hlost]
    exact ⟨ht, .lost hlost (hwait.trans hwaiting) htimer⟩
  · rw [if_neg hlost]
    have hle : t.promised ≤ promise q t := by
      rw [hpromised]
      exact (hp.trans hnow.ge).trans (now_le_promise q t)
    obtain ⟨hkept, hle', hnow', hinbox, hguest, htimer'⟩ :=
      reported_kept (P := q / 2 ≤ t.now - t.reported ∨ t.promised < promise q t) ht hle
    refine settle_kept hkept ?_ (htimer'.trans htimer)
    rwa [promise_congr hnow' hguest hinbox]

theorem wake_kept (h : Kept s) (hp : s.promised ≤ s.now) (htimer : s.timer = none)
    (reads : List ℕ) (woken : Guest) :
    Kept (wake k q s reads woken) ∧ Bound (wake k q s reads woken) := by
  obtain ⟨hnow, -, htimer', -, hpromised, -⟩ := take_fields k q s reads woken
  have ht := take_kept (k := k) (q := q) h reads woken
  unfold wake
  generalize take k q s reads woken = t at hnow htimer' hpromised ht ⊢
  dsimp only
  by_cases hlost : t.inbox.lost.isSome
  · rw [if_pos hlost]
    exact ⟨ht.of_fields rfl le_rfl le_rfl, .lost hlost rfl (htimer'.trans htimer)⟩
  · rw [if_neg hlost]
    refine settle_kept ht ?_ (htimer'.trans htimer)
    rw [hpromised]
    exact (hp.trans hnow.ge).trans (now_le_promise q t)

theorem Stirs.come (hs : Stirs s) (kept : s.promised ≤ s.now ∨
    s.guest.asleep ∧ ∀ deadline ∈ s.guest.deadline, s.promised ≤ deadline) :
    s.promised ≤ s.now := by
  rcases kept with kept | ⟨asleep, kept⟩
  · exact kept
  · rcases hs with hawake | ⟨deadline, hmem, hle⟩
    · exact absurd (hawake.symm.trans asleep) nofun
    · exact (kept deadline hmem).trans hle

/-- What an action leaves of the promises made before it. -/
theorem act_kept (h : Kept s) (hb : Bound s) (a : Action) (ha : Enabled s a)
    (hhonest : Honest s a) : Kept (act k q s a) ∧ Bound (act k q s a) := by
  cases a with
  | guest g =>
    refine ⟨h.of_fields rfl le_rfl le_rfl, ?_⟩
    rcases hhonest with rfl | hstirs
    · exact hb
    · cases hb with
      | lost gone waiting timer => exact .lost gone waiting timer
      | waits waiting timer kept => exact .waits waiting timer kept
      | runs waiting due timer before kept =>
        exact .runs waiting due timer before (.inl (hstirs.come kept))
  | advance t =>
    obtain ⟨hrun, hle, -⟩ := ha
    refine ⟨h.of_fields rfl hle le_rfl, ?_⟩
    cases hb with
    | lost gone waiting timer => exact .lost gone waiting timer
    | waits waiting timer kept => exact .waits waiting timer (kept.trans hle)
    | runs waiting due timer before kept =>
      exact .runs waiting due timer before (kept.imp_left fun h ↦ h.trans hle)
  | send type payload =>
    change Kept (send s (.data type s.now payload)) ∧ Bound (send s (.data type s.now payload))
    by_cases hlost : s.inbox.lost.isSome
    · rw [send, if_pos hlost]
      exact ⟨h, hb⟩
    · have hbound : Bound (send s (.data type s.now payload)) := by
        rw [send, if_neg hlost]
        cases hb with
        | lost gone waiting timer => exact .lost gone waiting timer
        | waits waiting timer kept => exact .waits waiting timer kept
        | runs waiting due timer before kept => exact .runs waiting due timer before kept
      cases hb with
      | lost gone => exact absurd gone hlost
      | waits waiting timer kept => exact ⟨send_kept h kept type payload, hbound⟩
      | runs waiting due timer before kept =>
        exact ⟨send_kept h (hhonest.come kept) type payload, hbound⟩
  | fire reads woken =>
    obtain ⟨hrun, htimer⟩ := ha
    cases hb with
    | lost gone waiting timer => exact absurd (timer.symm.trans htimer) nofun
    | waits waiting timer kept => exact absurd (waiting.symm.trans hrun) nofun
    | runs waiting due timer before kept =>
      obtain rfl := Option.some.inj (timer.symm.trans htimer)
      exact fire_kept h before hrun reads woken
  | wake reads woken =>
    cases hb with
    | lost gone waiting timer => exact absurd (waiting.symm.trans ha) nofun
    | waits waiting timer kept => exact wake_kept h kept timer reads woken
    | runs waiting due timer before kept => exact absurd (waiting.symm.trans ha) nofun

theorem run_kept (actions : List Action) (h : Kept s) (hb : Bound s)
    (hrun : Observer.Throughout (act k q) (fun s a ↦ Enabled s a ∧ Honest s a) s actions) :
    Kept (actions.foldl (act k q) s) ∧ Bound (actions.foldl (act k q) s) := by
  induction actions generalizing s with
  | nil => exact ⟨h, hb⟩
  | cons a actions ih =>
    obtain ⟨⟨ha, hhonest⟩, hrun⟩ := hrun
    obtain ⟨h', hb'⟩ := act_kept h hb a ha hhonest
    exact ih h' hb' hrun

theorem start_kept {timer : ℤ} (htimer : 0 ≤ timer) (guest : Guest)
    (unread : List Library.Bytes.Byte) :
    Kept (start timer guest unread) ∧ Bound (start timer guest unread) := by
  refine ⟨⟨List.pairwise_singleton _ _, ?_⟩, .runs rfl timer rfl htimer (.inl le_rfl)⟩
  intro t promise hmem
  exact absurd (List.mem_singleton.mp hmem) nofun

end Steps

/-- Nothing a board sends, in any run, is stamped below a promise it has reported before, and
what it reports does not decrease. -/
theorem promises_kept {timer : ℤ} (htimer : timer = 0 ∨ timer = q / 2) (hq : 0 < q)
    (guest : Guest) (unread : List Library.Bytes.Byte) (actions : List Action)
    (hrun : Observer.Throughout (act k q) (fun s a ↦ Enabled s a ∧ Honest s a)
      (start timer guest unread) actions) :
    (actions.foldl (act k q) (start timer guest unread)).sent.Pairwise Keeps := by
  have htimer' : 0 ≤ timer := by omega
  obtain ⟨h, hb⟩ := start_kept htimer' guest unread
  exact (run_kept actions h hb hrun).1.log

def asleepUntil (deadline : ℤ) : Guest := ⟨true, some deadline⟩

def wokenByTimer : List Action :=
  [.advance 50000, .fire [] (asleepUntil 80000), .advance 80000, .guest awake, .send 2 [1],
    .fire [] awake]

theorem promises_kept_timer :
    (wokenByTimer.foldl (act cosim 100000) (start 50000 (asleepUntil 80000) [])).sent =
        [.hello, .time 50000 80000, .data 2 80000 [1]] ∧
      (wokenByTimer.foldl (act cosim 100000)
        (start 50000 (asleepUntil 80000) [])).sent.Pairwise Keeps :=
  ⟨by decide +kernel, promises_kept (.inr (by decide)) (by decide) (asleepUntil 80000) []
    wokenByTimer (by decide +kernel)⟩

end Cdj2000Emulator.Cosim.Promises
