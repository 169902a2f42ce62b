import Cdj2000Emulator.Cosim.Step
import Cdj2000Emulator.Library.Monitor

namespace Cdj2000Emulator.Cosim.Delivery

open Library.StableOrder Library.Monitor Wire Receiver Step

variable {k : Kind} {q : ℤ} {handled rest : List Message} {s : Port}

section Fields

variable (k q s)

/-- What a step does not touch when it takes in and hands over. -/
theorem take_fields (reads : List ℕ) (woken : Guest) :
    (take k q s reads woken).now = s.now ∧ (take k q s reads woken).waiting = s.waiting ∧
      (take k q s reads woken).timer = s.timer ∧
      (take k q s reads woken).reported = s.reported ∧
      (take k q s reads woken).promised = s.promised ∧ (take k q s reads woken).sent = s.sent := by
  unfold take deliver
  split_ifs <;> exact ⟨rfl, rfl, rfl, rfl, rfl, rfl⟩

theorem report_fields (promise : ℤ) :
    (report s promise).now = s.now ∧ (report s promise).inbox = s.inbox ∧
      (report s promise).delivered = s.delivered ∧ (report s promise).guest = s.guest ∧
      (report s promise).waiting = s.waiting ∧ (report s promise).timer = s.timer := by
  unfold report send
  split_ifs <;> exact ⟨rfl, rfl, rfl, rfl, rfl, rfl⟩

theorem rearm_fields :
    (rearm q s).now = s.now ∧ (rearm q s).inbox = s.inbox ∧
      (rearm q s).delivered = s.delivered ∧ (rearm q s).guest = s.guest := by
  obtain ⟨h1, h2, h3, h4, -⟩ := report_fields s (promise q s)
  unfold rearm
  dsimp only
  split_ifs <;> first | exact ⟨rfl, rfl, rfl, rfl⟩ | exact ⟨h1, h2, h3, h4⟩

theorem settle_fields :
    (settle q s).now = s.now ∧ (settle q s).inbox = s.inbox ∧
      (settle q s).delivered = s.delivered ∧ (settle q s).guest = s.guest := by
  obtain ⟨h1, h2, h3, h4, -⟩ := report_fields s (promise q s)
  unfold settle
  dsimp only
  split_ifs
  · exact ⟨h1, h2, h3, h4⟩
  · exact ⟨rfl, rfl, rfl, rfl⟩
  · exact rearm_fields q s

theorem rearm_timer (h : s.now < s.inbox.peerPromise + q) :
    ∃ due, (rearm q s).timer = some due ∧ s.now < due ∧ due ≤ s.inbox.peerPromise + q ∧
      ((∀ d ∈ s.inbox.due.head?, s.now < d.due) → ∀ d ∈ s.inbox.due.head?, due ≤ d.due) ∧
      (rearm q s).waiting = false := by
  obtain ⟨r, hr, hinbox, hnow⟩ : ∃ r, r = (if s.promised < promise q s then
      report s (promise q s) else s) ∧ r.inbox = s.inbox ∧ r.now = s.now := by
    refine ⟨_, rfl, ?_, ?_⟩
    · split_ifs
      · exact (report_fields s _).2.1
      · rfl
    · split_ifs
      · exact (report_fields s _).1
      · rfl
  unfold rearm
  dsimp only
  rw [← hr, hinbox, hnow]
  refine ⟨_, rfl, ?_, ?_, ?_, rfl⟩
  · split_ifs <;> omega
  · cases s.inbox.due.head? with
    | none =>
      dsimp only
      split_ifs <;> omega
    | some d =>
      dsimp only
      split_ifs <;> omega
  · intro hpast d hd
    have := hpast d hd
    rw [Option.mem_def.mp hd]
    dsimp only
    split_ifs <;> omega

end Fields

/-- The board has taken in `handled`, and handed over what is due of it. -/
structure Tracks (k : Kind) (q : ℤ) (handled rest : List Message) (s : Port) : Prop where
  reads : Reads k handled rest s.inbox
  order : StableSort Due.due ((carried k handled).map (dueOf q))
    (s.delivered.map Prod.snd ++ s.inbox.due)
  onTime : ∀ e ∈ s.delivered, e.1 = e.2.due
  past : ∀ e ∈ s.delivered, e.2.due ≤ s.now
  bounded : Bounded k q s.inbox.peerPromise s.inbox.due
  clock : s.now ≤ s.inbox.peerPromise + q

/-- The step's timer goes before anything queued is due, and within the peer's promise and the
latency; or the board waits there. -/
inductive Sound (q : ℤ) (s : Port) : Prop
  | runs (waiting : s.waiting = false) (due : ℤ) (timer : s.timer = some due)
      (ahead : s.now ≤ due) (within : due ≤ s.inbox.peerPromise + q)
      (head : ∀ d ∈ s.inbox.due, due ≤ d.due)
  | waits (waiting : s.waiting = true) (head : ∀ d ∈ s.inbox.due, s.now < d.due)

theorem Tracks.sorted (h : Tracks k q handled rest s) :
    s.inbox.due.Pairwise fun a b ↦ a.due ≤ b.due :=
  (List.pairwise_append.mp h.order.sorted).2.1

/-- Nothing about the link's messages depends on what the board reports. -/
theorem Tracks.of_fields {t : Port} (h : Tracks k q handled rest s) (hnow : t.now = s.now)
    (hinbox : t.inbox = s.inbox) (hdelivered : t.delivered = s.delivered) :
    Tracks k q handled rest t := by
  refine ⟨?_, ?_, ?_, ?_, ?_, ?_⟩
  · rw [hinbox]
    exact h.reads
  · rw [hinbox, hdelivered]
    exact h.order
  · rw [hdelivered]
    exact h.onTime
  · rw [hdelivered, hnow]
    exact h.past
  · rw [hinbox]
    exact h.bounded
  · rw [hinbox, hnow]
    exact h.clock

theorem take_tracks (hk : Orderly k) (h : Conforms k q (handled ++ rest))
    (ht : Tracks k q handled rest s) (hdue : ∀ d ∈ s.inbox.due, s.now ≤ d.due) (reads : List ℕ)
    (woken : Guest) :
    ∃ new later, rest = new ++ later ∧
      Tracks k q (handled ++ new) later (take k q s reads woken) ∧
      ∀ d ∈ (take k q s reads woken).inbox.due, s.now < d.due := by
  obtain ⟨new, later, hrest, hreads, hqueue⟩ := drain_reads (q := q) hk.small reads ht.reads
    fun m hm ↦ h.fits m (List.mem_append_right _ hm)
  subst hrest
  have hpp := ht.reads.promise
  have hclock := ht.clock
  have hbound := ht.bounded
  rw [hpp] at hclock hbound
  obtain ⟨horder, hlate⟩ := order_queued hk h hbound ht.order fun d hd ↦ by
    obtain ⟨e, he, rfl⟩ := List.mem_map.mp hd
    exact (ht.past e he).trans hclock
  have hgrow : largest k 0 handled ≤ largest k 0 (handled ++ new) := by
    rw [largest_append]
    exact le_largest _ _
  have hnotearly : ∀ d ∈ queued k q new s.inbox.due, s.now ≤ d.due := by
    intro d hd
    rcases hlate d hd with hd | hd
    · exact hdue d hd
    · exact hclock.trans hd
  have hsorted := (List.pairwise_append.mp horder.sorted).2.1
  have htake : take k q s reads woken = { s with
      inbox := { s.inbox.drain k q reads with
        due := (queued k q new s.inbox.due).dropWhile (·.due ≤ s.now) }
      delivered := s.delivered ++
        ((queued k q new s.inbox.due).takeWhile (·.due ≤ s.now)).map (s.now, ·)
      guest := woken } := by
    unfold take deliver
    dsimp only
    rw [if_neg (by rw [hreads.open']; simp), hqueue]
  rw [htake]
  refine ⟨new, later, rfl, ⟨⟨hreads.bytes, hreads.open', hreads.promise⟩, ?_, ?_, ?_, ?_, ?_⟩, ?_⟩
  · dsimp only
    rw [List.map_append, List.map_map, List.append_assoc]
    have hid : (Prod.snd ∘ fun d : Due ↦ (s.now, d)) = id := rfl
    rw [hid, List.map_id, List.takeWhile_append_dropWhile]
    exact horder
  · intro e he
    rcases List.mem_append.mp he with he | he
    · exact ht.onTime e he
    · obtain ⟨d, hd, rfl⟩ := List.mem_map.mp he
      have hle : d.due ≤ s.now := by simpa using List.mem_takeWhile_imp hd
      exact le_antisymm (hnotearly d ((List.takeWhile_sublist _).mem hd)) hle
  · intro e he
    rcases List.mem_append.mp he with he | he
    · exact ht.past e he
    · obtain ⟨d, hd, rfl⟩ := List.mem_map.mp he
      simpa using List.mem_takeWhile_imp hd
  · change Bounded k q (s.inbox.drain k q reads).peerPromise _
    rw [hreads.promise]
    exact (queued_behind hk h hbound).2.imp_right fun hb d hd ↦
      hb d ((List.dropWhile_sublist _).mem hd)
  · change s.now ≤ (s.inbox.drain k q reads).peerPromise + q
    rw [hreads.promise]
    omega
  · intro d hd
    exact lt_of_mem_dropWhile hsorted hd

/-- The step ends with its timer set, or waits. -/
theorem settle_sound (ht : Tracks k q handled rest s)
    (hdue : ∀ d ∈ s.inbox.due, s.now < d.due) : Sound q (settle q s) := by
  obtain ⟨h1, h2, -⟩ := settle_fields q s
  by_cases hwait : s.inbox.peerPromise + q ≤ s.now
  · refine .waits ?_ (by rw [h1, h2]; exact hdue)
    rw [settle, if_pos hwait]
  · obtain ⟨due, h3, h4, h5, h6, h7⟩ := rearm_timer q s (by omega)
    have hsettle : settle q s = rearm q s := if_neg hwait
    rw [hsettle] at h1 h2 ⊢
    refine .runs h7 due h3 (by omega) (by rwa [h2]) ?_
    rw [h2]
    intro d hd
    have hsorted := ht.sorted
    cases hqueue : s.inbox.due with
    | nil =>
      rw [hqueue] at hd
      simp at hd
    | cons a queue =>
      rw [hqueue] at hd hsorted hdue h6
      have ha : due ≤ a.due := h6 (fun d hd ↦ hdue d (by simp_all)) a (by simp)
      rcases List.mem_cons.mp hd with rfl | hd
      · exact ha
      · exact ha.trans ((List.pairwise_cons.mp hsorted).1 d hd)

/-- Every action takes in some more of the peer's messages, and is on time. -/
theorem act_tracks (hk : Orderly k) (h : Conforms k q (handled ++ rest))
    (ht : Tracks k q handled rest s) (hs : Sound q s) (a : Action) (ha : Enabled s a) :
    ∃ new later, rest = new ++ later ∧ Tracks k q (handled ++ new) later (act k q s a) ∧
      Sound q (act k q s a) := by
  have hsame : ∀ t : Port, Tracks k q handled rest t → Sound q t →
      ∃ new later, rest = new ++ later ∧ Tracks k q (handled ++ new) later t ∧ Sound q t :=
    fun t h1 h2 ↦ ⟨[], rest, rfl, by rwa [List.append_nil], h2⟩
  have hsettle : ∀ (t r : Port) (new later : List Message), rest = new ++ later →
      Tracks k q (handled ++ new) later t → (∀ d ∈ t.inbox.due, t.now < d.due) →
      r.now = t.now → r.inbox = t.inbox → r.delivered = t.delivered →
        ∃ new later, rest = new ++ later ∧ Tracks k q (handled ++ new) later (settle q r) ∧
          Sound q (settle q r) := by
    intro t r new later hrest htracks hdue h1 h2 h3
    have hr := htracks.of_fields h1 h2 h3
    obtain ⟨h4, h5, h6, -⟩ := settle_fields q r
    exact ⟨new, later, hrest, hr.of_fields h4 h5 h6, settle_sound hr (by rwa [h1, h2])⟩
  cases a with
  | guest g =>
    refine hsame _ (ht.of_fields rfl rfl rfl) ?_
    cases hs with
    | runs waiting due timer ahead within head => exact .runs waiting due timer ahead within head
    | waits waiting head => exact .waits waiting head
  | advance t =>
    obtain ⟨hrun, hle, hbefore⟩ := ha
    cases hs with
    | waits waiting head => exact absurd (waiting.symm.trans hrun) nofun
    | runs waiting due timer ahead within head =>
      have htd := hbefore due timer
      refine hsame _ ⟨ht.reads, ht.order, ht.onTime, ?_, ht.bounded, ?_⟩ ?_
      · exact fun e he ↦ (ht.past e he).trans hle
      · exact htd.trans within
      · exact .runs waiting due timer htd within head
  | send type payload =>
    change ∃ new later, _ ∧ Tracks k q _ later (send s (.data type s.now payload)) ∧
      Sound q (send s (.data type s.now payload))
    unfold send
    rw [if_neg (by rw [ht.reads.open']; simp)]
    refine hsame _ (ht.of_fields rfl rfl rfl) ?_
    cases hs with
    | runs waiting due timer ahead within head => exact .runs waiting due timer ahead within head
    | waits waiting head => exact .waits waiting head
  | fire reads woken =>
    obtain ⟨hrun, htimer⟩ := ha
    cases hs with
    | waits waiting head => exact absurd (waiting.symm.trans hrun) nofun
    | runs waiting due timer ahead within head =>
      obtain rfl := Option.some.inj (timer.symm.trans htimer)
      have ht' : Tracks k q handled rest { s with timer := none } := ht.of_fields rfl rfl rfl
      obtain ⟨new, later, hrest, htake, hdue⟩ := take_tracks hk h ht' head reads woken
      obtain ⟨hnow, -⟩ := take_fields k q { s with timer := none } reads woken
      change ∃ new later, _ ∧ Tracks k q _ later (fire k q s reads woken) ∧
        Sound q (fire k q s reads woken)
      unfold fire
      generalize take k q { s with timer := none } reads woken = t at hnow htake hdue ⊢
      dsimp only
      rw [if_neg (by rw [htake.reads.open']; simp)]
      refine hsettle t _ new later hrest htake (by rwa [hnow]) ?_ ?_ ?_ <;> split_ifs <;>
        first | rfl | exact (report_fields _ _).1 | exact (report_fields _ _).2.1 |
          exact (report_fields _ _).2.2.1
  | wake reads woken =>
    cases hs with
    | runs waiting due timer ahead within head => exact absurd (waiting.symm.trans ha) nofun
    | waits waiting head =>
      obtain ⟨new, later, hrest, htake, hdue⟩ :=
        take_tracks hk h ht (fun d hd ↦ (head d hd).le) reads woken
      obtain ⟨hnow, -⟩ := take_fields k q s reads woken
      change ∃ new later, _ ∧ Tracks k q _ later (wake k q s reads woken) ∧
        Sound q (wake k q s reads woken)
      unfold wake
      generalize take k q s reads woken = t at hnow htake hdue ⊢
      dsimp only
      rw [if_neg (by rw [htake.reads.open']; simp)]
      exact hsettle t _ new later hrest htake (by rwa [hnow]) rfl rfl rfl

theorem run_tracks (hk : Orderly k) (actions : List Action) (h : Conforms k q (handled ++ rest))
    (ht : Tracks k q handled rest s) (hs : Sound q s)
    (hrun : Observer.Throughout (act k q) Enabled s actions) :
    ∃ new later, rest = new ++ later ∧
      Tracks k q (handled ++ new) later (actions.foldl (act k q) s) ∧
      Sound q (actions.foldl (act k q) s) := by
  induction actions generalizing handled rest s with
  | nil => exact ⟨[], rest, rfl, by rwa [List.append_nil], hs⟩
  | cons a actions ih =>
    obtain ⟨ha, hrun⟩ := hrun
    obtain ⟨new, later, rfl, ht', hs'⟩ := act_tracks hk h ht hs a ha
    rw [← List.append_assoc] at h
    obtain ⟨new', later', rfl, ht'', hs''⟩ := ih h ht' hs' hrun
    refine ⟨new ++ new', later', by rw [List.append_assoc], ?_, hs''⟩
    rwa [List.append_assoc] at ht''

section Runs

variable {messages : List Message} {timer : ℤ}

theorem start_tracks (hq : 0 < q) (htimer : timer = 0 ∨ timer = q / 2) (guest : Guest) :
    Tracks k q [] messages (start timer guest (messages.flatMap Message.encode)) ∧
      Sound q (start timer guest (messages.flatMap Message.encode)) := by
  refine ⟨⟨⟨rfl, rfl, rfl⟩, .nil, ?_, ?_, .inr ?_, ?_⟩, .runs rfl timer rfl ?_ ?_ ?_⟩
  · intro e he
    exact absurd he List.not_mem_nil
  · intro e he
    exact absurd he List.not_mem_nil
  · intro d hd
    exact absurd hd List.not_mem_nil
  · change 0 ≤ 0 + q
    omega
  · change 0 ≤ timer
    omega
  · change timer ≤ 0 + q
    omega
  · intro d hd
    exact absurd hd List.not_mem_nil

theorem started_tracks (hk : Orderly k) (hq : 0 < q) (h : Conforms k q messages)
    (htimer : timer = 0 ∨ timer = q / 2) (guest : Guest) (actions : List Action)
    (hrun : Observer.Throughout (act k q) Enabled
      (start timer guest (messages.flatMap Message.encode)) actions) :
    ∃ received coming, messages = received ++ coming ∧
      Tracks k q received coming (actions.foldl (act k q)
        (start timer guest (messages.flatMap Message.encode))) ∧
      Sound q (actions.foldl (act k q)
        (start timer guest (messages.flatMap Message.encode))) := by
  have h' : Conforms k q ([] ++ messages) := h
  obtain ⟨ht, hs⟩ := start_tracks hq htimer guest
  exact run_tracks hk actions h' ht hs hrun

/-- The messages that are still to come, or are queued, come after everything handed over, and
are not overdue. -/
theorem Tracks.order_all (hk : Orderly k) (h : Conforms k q (handled ++ rest))
    (ht : Tracks k q handled rest s) (hs : Sound q s) :
    ∃ waiting, StableSort Due.due ((carried k (handled ++ rest)).map (dueOf q))
        (s.delivered.map Prod.snd ++ waiting) ∧ ∀ d ∈ waiting, s.now ≤ d.due := by
  have hclock := ht.clock
  have hbound := ht.bounded
  rw [ht.reads.promise] at hclock hbound
  have h' : Conforms k q (handled ++ (rest ++ [])) := by rwa [List.append_nil]
  obtain ⟨horder, hlate⟩ := order_queued hk h' hbound ht.order fun d hd ↦ by
    obtain ⟨e, he, rfl⟩ := List.mem_map.mp hd
    exact (ht.past e he).trans hclock
  refine ⟨_, horder, ?_⟩
  intro d hd
  rcases hlate d hd with hd | hd
  · cases hs with
    | runs waiting due timer ahead within head => exact ahead.trans (head d hd)
    | waits waiting head => exact (head d hd).le
  · exact hclock.trans hd

theorem requests_sorted (h : Conforms cosim q messages) :
    ((carried cosim messages).map (dueOf q)).Pairwise fun a b ↦ a.due ≤ b.due := by
  refine List.pairwise_map.mpr (List.pairwise_filter.mpr (h.kept.imp ?_))
  intro a b hkept ha hb
  have ha' : cosim.Carries a := by simpa using ha
  have hpromise : cosim.promises a = some a.time := by
    rcases orderly_cosim.behind with hbehind | hpromise
    · have htype : a.type ≠ 1 := by
        rw [ha'.1]
        decide
      exact congrArg (fun p ↦ some (Option.getD p a.time)) (timePromise_of_carries htype)
    · exact hpromise.2 a ha'
  have hle := hkept (by simpa using hb) a.time hpromise
  change a.time + q ≤ b.time + q
  omega

/-- In every run of MAIN the GUI's requests are handed over in order, each at its stamp and the
latency, none is missed, and MAIN's clock stays within the GUI's largest promise received and
the latency. -/
theorem requests_on_time (hq : 0 < q) (h : Conforms cosim q messages)
    (htimer : timer = 0 ∨ timer = q / 2) (guest : Guest) (actions : List Action)
    (hrun : Observer.Throughout (act cosim q) Enabled
      (start timer guest (messages.flatMap Message.encode)) actions) :
    let s := actions.foldl (act cosim q) (start timer guest (messages.flatMap Message.encode))
    let requests := (carried cosim messages).map (dueOf q)
    s.delivered.map Prod.snd <+: requests ∧ (∀ e ∈ s.delivered, e.1 = e.2.due) ∧
      (∀ d ∈ requests.drop s.delivered.length, s.now ≤ d.due) ∧
      ∃ received coming, messages = received ++ coming ∧
        s.inbox.input ++ s.inbox.unread = coming.flatMap Message.encode ∧
        s.now ≤ largest cosim 0 received + q := by
  intro s requests
  obtain ⟨new, later, rfl, ht', hs'⟩ :=
    started_tracks orderly_cosim hq h htimer guest actions hrun
  change Tracks cosim q new later s at ht'
  obtain ⟨waiting, horder, hlate⟩ := ht'.order_all orderly_cosim h hs'
  have heq : s.delivered.map Prod.snd ++ waiting = requests :=
    horder.eq_of_sorted (requests_sorted h)
  refine ⟨⟨waiting, heq⟩, ht'.onTime, ?_, new, later, rfl, ht'.reads.bytes, ?_⟩
  · rw [← heq, ← List.length_map Prod.snd, List.drop_left]
    exact hlate
  · rw [← ht'.reads.promise]
    exact ht'.clock

def awake : Guest := ⟨false, none⟩

/-- The GUI says hello, sends two requests at one time, and promises. -/
def requesting : List Message :=
  [⟨4, 0, []⟩, ⟨3, 40000, [7]⟩, ⟨3, 40000, [8, 9]⟩, ⟨1, 90000, stq 200000⟩]

/-- The second request reaches the host only while MAIN waits at the time it is due. -/
def requested : List Action :=
  [.advance 50000, .fire [30] awake, .advance 100000, .fire [] awake, .wake [25] awake,
    .advance 140000, .fire [] awake, .wake [1, 100] awake]

theorem requests_on_time_late :
    let s := requested.foldl (act cosim 100000)
      (start 50000 awake (requesting.flatMap Message.encode))
    let requests := (carried cosim requesting).map (dueOf 100000)
    s.delivered = [(140000, ⟨140000, [7]⟩), (140000, ⟨140000, [8, 9]⟩)] ∧
      s.delivered.map Prod.snd <+: requests ∧ (∀ e ∈ s.delivered, e.1 = e.2.due) ∧
      (∀ d ∈ requests.drop s.delivered.length, s.now ≤ d.due) ∧
      ∃ received coming, requesting = received ++ coming ∧
        s.inbox.input ++ s.inbox.unread = coming.flatMap Message.encode ∧
        s.now ≤ largest cosim 0 received + 100000 :=
  ⟨by decide +kernel, requests_on_time (by decide)
    ⟨by decide +kernel, by decide +kernel, by decide +kernel, by decide +kernel⟩ (.inr (by decide)) awake requested
    (by decide +kernel)⟩

/-- In every run of a player the hub's frames are handed over in the order of their stamps, equal
stamps in the order of arrival, each at its stamp and the latency, none is missed, and the
player's clock stays within the hub's largest promise received and the latency. -/
theorem frames_on_time (hq : 0 < q) (h : Conforms netsim q messages)
    (htimer : timer = 0 ∨ timer = q / 2) (guest : Guest) (actions : List Action)
    (hrun : Observer.Throughout (act netsim q) Enabled
      (start timer guest (messages.flatMap Message.encode)) actions) :
    let s := actions.foldl (act netsim q) (start timer guest (messages.flatMap Message.encode))
    let frames := (carried netsim messages).map (dueOf q)
    (∃ waiting, StableSort Due.due frames (s.delivered.map Prod.snd ++ waiting) ∧
        (s.delivered.map Prod.snd ++ waiting).Perm frames ∧ ∀ d ∈ waiting, s.now ≤ d.due) ∧
      (∀ e ∈ s.delivered, e.1 = e.2.due) ∧
      ∃ received coming, messages = received ++ coming ∧
        s.inbox.input ++ s.inbox.unread = coming.flatMap Message.encode ∧
        s.now ≤ largest netsim 0 received + q := by
  intro s frames
  obtain ⟨new, later, rfl, ht', hs'⟩ :=
    started_tracks orderly_netsim hq h htimer guest actions hrun
  change Tracks netsim q new later s at ht'
  obtain ⟨waiting, horder, hlate⟩ := ht'.order_all orderly_netsim h hs'
  refine ⟨⟨waiting, horder, horder.perm, hlate⟩, ht'.onTime, new, later, rfl, ht'.reads.bytes, ?_⟩
  rw [← ht'.reads.promise]
  exact ht'.clock

/-- The hub passes on frames of two players, one behind the other. -/
def framing : List Message :=
  [⟨4, 0, []⟩, ⟨5, 60000, [2]⟩, ⟨5, 40000, [1]⟩, ⟨1, 50000, stq 50000⟩, ⟨5, 60000, [3]⟩,
    ⟨1, 70000, stq 200000⟩]

def framed : List Action :=
  [.advance 50000, .fire [40] awake, .advance 100000, .fire [] awake, .wake [100] awake,
    .advance 140000, .fire [] awake, .advance 160000, .fire [] awake]

theorem frames_on_time_sorted :
    let s := framed.foldl (act netsim 100000) (start 50000 awake (framing.flatMap Message.encode))
    let frames := (carried netsim framing).map (dueOf 100000)
    s.delivered.map (·.2.data) = [[1], [2], [3]] ∧
      (∃ waiting, StableSort Due.due frames (s.delivered.map Prod.snd ++ waiting) ∧
        (s.delivered.map Prod.snd ++ waiting).Perm frames ∧ ∀ d ∈ waiting, s.now ≤ d.due) ∧
      (∀ e ∈ s.delivered, e.1 = e.2.due) ∧
      ∃ received coming, framing = received ++ coming ∧
        s.inbox.input ++ s.inbox.unread = coming.flatMap Message.encode ∧
        s.now ≤ largest netsim 0 received + 100000 :=
  ⟨by decide +kernel, frames_on_time (by decide)
    ⟨by decide +kernel, by decide +kernel, by decide +kernel, by decide +kernel⟩ (.inr (by decide)) awake framed
    (by decide +kernel)⟩

end Runs

end Cdj2000Emulator.Cosim.Delivery
