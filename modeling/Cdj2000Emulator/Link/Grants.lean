import Mathlib.Tactic.Linarith
import Mathlib.Tactic.Positivity
import Cdj2000Emulator.Link.SyncHub

namespace Cdj2000Emulator.Link.Grants

open Library.Stateful Library.Stateful.Machine
open Ethernet SyncHub

variable {covered : Origin → Prop} {floor floor' : ℕ → ℕ} {hub hub' : Hub} {fails : ℕ → Bool}
  {deck : ℕ} {message : Sent}

/-- What a message owes to a grant that its deck had before. -/
def InOrder (covered : Origin → Prop) (earlier later : Sent) : Prop :=
  earlier.content = .time → earlier.deck = later.deck →
    match later.content with
    | .time => earlier.stamp < later.stamp
    | .frame origin _ => covered origin → earlier.stamp ≤ later.stamp

instance [DecidablePred covered] : DecidableRel (InOrder covered) := fun earlier later ↦
  match h : later.content with
  | .time => decidable_of_iff (earlier.content = .time → earlier.deck = later.deck →
      earlier.stamp < later.stamp) (by simp only [InOrder, h])
  | .frame origin _ => decidable_of_iff (earlier.content = .time → earlier.deck = later.deck →
      covered origin → earlier.stamp ≤ later.stamp) (by simp only [InOrder, h])

/-- The recording's offsets are in time order, within its span. -/
structure InTimeOrder (replay : Replay) : Prop where
  starts : ∀ x ∈ replay.frames, 0 ≤ x.1
  sorted : replay.frames.Pairwise (·.1 ≤ ·.1)
  within : ∀ x ∈ replay.frames, x.1 < replay.span

/-- A message to a deck and from a deck, if from one, that had connected. -/
structure Known (n : ℕ) (m : Sent) : Prop where
  deck : m.deck < n
  origin : ∀ id frame, m.content = .frame (.deck id) frame → id < n

/-- The floor of a deck is a time that it stamps nothing below. -/
structure Invariant (covered : Origin → Prop) (floor : ℕ → ℕ) (hub : Hub) : Prop where
  known : ∀ c ∈ hub.clients, c.id < hub.nextId
  distinct : hub.decks.Nodup
  low : ∀ c ∈ hub.clients, -1 ≤ c.granted
  addressed : ∀ m ∈ hub.sent, Known hub.nextId m
  granted : ∀ m ∈ hub.sent, m.content = .time → ∀ c ∈ hub.clients, c.id = m.deck →
    m.stamp ≤ c.granted
  due : covered .replay → ∀ c ∈ hub.clients, 0 < c.granted → ∀ due, hub.replayDue = some due →
    c.granted ≤ due
  promised : ∀ e ∈ hub.clients, covered (.deck e.id) → e.promise ≤ floor e.id
  held : ∀ e ∈ hub.clients, covered (.deck e.id) → e.joined → ∀ d ∈ hub.clients, d.id ≠ e.id →
    d.granted ≤ floor e.id
  ordered : hub.sent.Pairwise (InOrder covered)
  replay : covered .replay → ∀ r, hub.replay = some r → InTimeOrder r

section Time

theorem int_mono {p q : ℚ} (h : p ≤ q) : int p ≤ int q := by
  unfold int
  split_ifs with hp hq hq
  · exact Int.floor_mono h
  · exact absurd (hp.trans h) hq
  · exact (Int.ceil_le.mpr (by exact_mod_cast (not_le.mp hp).le)).trans (Int.floor_nonneg.mpr hq)
  · exact Int.ceil_mono h

theorem inTimeOrder_ofCapture {capture : List (ℚ × Frame)} {sources : List Frame} {loop : Bool}
    {speed : ℚ} {numbers : List (Byte × Byte)} {ports : List ℕ} {replay : Replay}
    (sorted : capture.Pairwise (·.1 ≤ ·.1)) (forwards : 0 < speed)
    (h : Replay.ofCapture capture sources loop speed numbers ports = some replay) :
    InTimeOrder replay := by
  unfold Replay.ofCapture at h
  split at h
  next => cases h
  next base frame rest eq =>
    have order : ((base, frame) :: rest).Pairwise (·.1 ≤ ·.1) := by
      rw [← eq]
      refine sorted.filterMap _ fun x y le x' hx y' hy ↦ ?_
      obtain ⟨_, _, rfl⟩ := Option.map_eq_some_iff.mp hx
      obtain ⟨_, _, rfl⟩ := Option.map_eq_some_iff.mp hy
      exact le
    have offsets : (((base, frame) :: rest).map fun x ↦ ((x.1 - base) / speed, x.2)).Pairwise
        (·.1 ≤ ·.1) :=
      order.map _ fun x y le ↦ (div_le_div_iff_of_pos_right forwards).mpr (sub_le_sub_right le _)
    have : Std.Refl fun x y : ℚ × Frame ↦ x.1 ≤ y.1 := ⟨fun _ ↦ le_rfl⟩
    cases h
    refine ⟨fun x hx ↦ ?_, offsets, fun x hx ↦ ?_⟩
    · obtain ⟨y, hy, rfl⟩ := List.mem_map.mp hx
      exact div_nonneg (sub_nonneg.mpr (order.rel_head hy)) forwards.le
    · exact (offsets.rel_getLast hx).trans_lt (lt_add_of_pos_right _ (by positivity))

theorem second_pos : (0 : ℚ) < second := by norm_num [second]

theorem due_advance (ordered : ∀ r, hub.replay = some r → InTimeOrder r) {due due' : ℤ}
    (now : hub.replayDue = some due) (later : hub.advance.replayDue = some due') : due ≤ due' := by
  cases recorded : hub.replay with
  | none => simp [Hub.replayDue, Hub.next, recorded] at now
  | some replay =>
    have order := ordered replay recorded
    simp only [Hub.replayDue, Hub.next, recorded, Option.bind_some, Option.map_map,
      Option.map_eq_some_iff, Function.comp] at now
    obtain ⟨⟨offset, frame⟩, this, rfl⟩ := now
    obtain ⟨short, this⟩ := List.getElem?_eq_some_iff.mp this
    have here : offset < replay.span := order.within _ (this ▸ List.getElem_mem short)
    simp only [Hub.advance, recorded, Option.any_some] at later
    split_ifs at later with last
    · simp only [Hub.replayDue, Hub.next, Option.bind_some, Option.map_map, Option.map_eq_some_iff,
        Function.comp] at later
      obtain ⟨⟨offset', frame'⟩, first, rfl⟩ := later
      have start : 0 ≤ offset' := order.starts _ (List.mem_of_getElem? first)
      refine add_le_add_right (int_mono (mul_le_mul_of_nonneg_right ?_ second_pos.le)) _
      push_cast
      linarith
    · simp only [Hub.replayDue, Hub.next, Option.bind_some, Option.map_map, Option.map_eq_some_iff,
        Function.comp] at later
      obtain ⟨⟨offset', frame'⟩, next, rfl⟩ := later
      obtain ⟨short', next⟩ := List.getElem?_eq_some_iff.mp next
      have step := List.pairwise_iff_getElem.mp order.sorted _ _ short short' (Nat.lt_succ_self _)
      rw [this, next] at step
      refine add_le_add_right (int_mono (mul_le_mul_of_nonneg_right ?_ second_pos.le)) _
      linarith

end Time

section Send

/-- Only the list of decks, which may lose one, and the account of the sends change. -/
structure Shrinks (hub hub' : Hub) : Prop where
  clients : hub'.clients.Sublist hub.clients
  decksWanted : hub'.decksWanted = hub.decksWanted
  nextId : hub'.nextId = hub.nextId
  replayDue : hub'.replayDue = hub.replayDue
  replay : hub'.replay = hub.replay

theorem shrinks_sendMsg (hub : Hub) : Shrinks hub (sendMsg fails message hub).1 := by
  unfold sendMsg
  split
  next => exact ⟨List.Sublist.refl _, rfl, rfl, rfl, rfl⟩
  next =>
  split
  next => exact ⟨List.Sublist.refl _, rfl, rfl, rfl, rfl⟩
  next =>
  split
  next => exact ⟨List.filter_sublist, rfl, rfl, rfl, rfl⟩
  next => exact ⟨List.Sublist.refl _, rfl, rfl, rfl, rfl⟩

theorem Invariant.shrink (inv : Invariant covered floor hub) (h : Shrinks hub hub')
    (addressed : ∀ m ∈ hub'.sent, Known hub.nextId m)
    (granted : ∀ m ∈ hub'.sent, m.content = .time → ∀ c ∈ hub.clients, c.id = m.deck →
      m.stamp ≤ c.granted)
    (ordered : hub'.sent.Pairwise (InOrder covered)) : Invariant covered floor hub' := by
  have sub := h.clients.subset
  refine ⟨fun c hc ↦ ?_, ?_, fun c hc ↦ inv.low c (sub hc), fun m hm ↦ ?_,
    fun m hm time c hc ↦ granted m hm time c (sub hc),
    fun replays c hc ↦ ?_, fun e he ↦ inv.promised e (sub he), fun e he trusted joined d hd ↦
    inv.held e (sub he) trusted joined d (sub hd), ordered, ?_⟩
  · rw [h.nextId]
    exact inv.known c (sub hc)
  · exact inv.distinct.sublist (h.clients.map _)
  · rw [h.nextId]
    exact addressed m hm
  · rw [h.replayDue]
    exact inv.due replays c (sub hc)
  · rw [h.replay]
    exact inv.replay

/-- Nothing that its deck had before forbids the message. -/
structure Allowed (covered : Origin → Prop) (message : Sent) (hub : Hub) : Prop where
  origin : ∀ id frame, message.content = .frame (.deck id) frame → id < hub.nextId
  granted : message.content = .time → ∀ c ∈ hub.clients, c.id = message.deck →
    message.stamp ≤ c.granted
  ordered : message.deck ∈ hub.decks → 0 ≤ message.stamp → ∀ m ∈ hub.sent, InOrder covered m message

theorem sendMsg_invariant :
    Triple (fun hub ↦ Invariant covered floor hub ∧ Allowed covered message hub)
      (sendMsg fails message)
      (fun _ ↦ Invariant covered floor) (Invariant covered floor) := by
  refine ⟨fun hub ⟨inv, allowed⟩ ↦ ?_⟩
  unfold sendMsg
  split
  next => exact inv
  next present =>
  split
  next => exact inv
  next fits =>
  split
  next => exact inv.shrink ⟨List.filter_sublist, rfl, rfl, rfl, rfl⟩ inv.addressed inv.granted inv.ordered
  next =>
    refine inv.shrink ⟨List.Sublist.refl _, rfl, rfl, rfl, rfl⟩ (List.forall_mem_append.mpr
      ⟨inv.addressed, List.forall_mem_singleton.mpr ?_⟩) (List.forall_mem_append.mpr
      ⟨inv.granted, List.forall_mem_singleton.mpr allowed.granted⟩) ?_
    · obtain ⟨c, hc, eq⟩ := List.mem_map.mp (not_not.mp present)
      exact ⟨eq ▸ inv.known c hc, allowed.origin⟩
    · refine List.pairwise_append.mpr ⟨inv.ordered, List.pairwise_singleton _ _, fun m hm ↦ ?_⟩
      exact List.forall_mem_singleton.mpr
        (allowed.ordered (not_not.mp present) (not_lt.mp fun h ↦ fits (.inl h)) m hm)

/-- A frame with this stamp is late for none of the decks. -/
structure InTime (covered : Origin → Prop) (receivers : List ℕ) (stamp : ℤ) (origin : Origin)
    (hub : Hub) : Prop where
  known : ∀ id, origin = .deck id → id < hub.nextId
  granted : covered origin → 0 ≤ stamp → ∀ c ∈ hub.clients, c.id ∈ receivers →
    c.granted ≤ stamp

variable {receivers : List ℕ} {stamp : ℤ} {origin : Origin} {frame : Frame}

theorem Invariant.allowed (inv : Invariant covered floor hub)
    (inTime : InTime covered (deck :: receivers) stamp origin hub) :
    Allowed covered ⟨deck, stamp, .frame origin frame⟩ hub := by
  refine ⟨fun id f h ↦ inTime.known id ?_, nofun, fun present fits m hm time same covers ↦ ?_⟩
  · cases h
    rfl
  · obtain ⟨c, hc, eq⟩ := List.mem_map.mp present
    have given : m.stamp ≤ c.granted := inv.granted m hm time c hc (eq.trans same.symm)
    exact given.trans (inTime.granted covers fits c hc (by simp [eq]))

theorem InTime.shrink (inTime : InTime covered receivers stamp origin hub)
    (h : Shrinks hub hub') : InTime covered receivers stamp origin hub' :=
  ⟨h.nextId ▸ inTime.known, fun covers fits c hc ↦
    inTime.granted covers fits c (h.clients.subset hc)⟩

theorem InTime.tail (inTime : InTime covered (deck :: receivers) stamp origin hub) :
    InTime covered receivers stamp origin hub :=
  ⟨inTime.known, fun covers fits c hc member ↦
    inTime.granted covers fits c hc (List.mem_cons_of_mem _ member)⟩

theorem sendFrames_invariant :
    Triple (fun hub ↦ Invariant covered floor hub ∧ InTime covered receivers stamp origin hub)
      (sendFrames fails receivers stamp origin frame)
      (fun _ ↦ Invariant covered floor) (Invariant covered floor) := by
  refine (triple_forM (P := fun todo hub ↦ Invariant covered floor hub ∧
    InTime covered todo stamp origin hub) receivers fun deck rest ↦ ?_).conseq (fun _ h ↦ h)
    (fun _ _ h ↦ h.1) fun _ h ↦ h
  exact (sendMsg_invariant.frame (R := InTime covered rest stamp origin)
    fun hub h ↦ h.shrink (shrinks_sendMsg hub)).conseq
    (fun _ ⟨inv, inTime⟩ ↦ ⟨⟨inv, inv.allowed inTime⟩, inTime.tail⟩) (fun _ _ h ↦ h) fun _ h ↦ h.1

end Send

theorem Invariant.mono (inv : Invariant covered floor hub) (above : ∀ i, floor i ≤ floor' i) :
    Invariant covered floor' hub :=
  { inv with
    promised := fun e he trusted ↦ (inv.promised e he trusted).trans (above _)
    held := fun e he trusted joined d hd other ↦
      (inv.held e he trusted joined d hd other).trans (by exact_mod_cast above _) }

section Update

variable {f : Client → Client}

theorem decks_update (id : ∀ c, (f c).id = c.id) : (hub.update deck f).decks = hub.decks := by
  unfold Hub.decks Hub.update
  rw [List.map_map]
  refine List.map_congr_left fun c _ ↦ ?_
  dsimp only [Function.comp]
  split_ifs
  · exact id c
  · rfl

theorem mem_update {c' : Client} (h : c' ∈ (hub.update deck f).clients) :
    (∃ c ∈ hub.clients, c.id = deck ∧ c' = f c) ∨ (c' ∈ hub.clients ∧ c'.id ≠ deck) := by
  obtain ⟨c, hc, rfl⟩ := List.mem_map.mp h
  split_ifs with same
  · exact .inl ⟨c, hc, same, rfl⟩
  · exact .inr ⟨hc, same⟩

theorem Invariant.update (inv : Invariant covered floor hub) (above : ∀ i, floor i ≤ floor' i)
    (id : ∀ c, (f c).id = c.id) (granted : ∀ c, (f c).granted = c.granted)
    (promised : covered (.deck deck) → ∀ c ∈ hub.clients, c.id = deck → (f c).promise ≤ floor' deck)
    (held : covered (.deck deck) → ∀ c ∈ hub.clients, c.id = deck → (f c).joined → c.joined ∨
      ∀ d ∈ hub.clients, d.id ≠ deck → d.granted ≤ floor' deck) :
    Invariant covered floor' (hub.update deck f) := by
  have before : ∀ c' ∈ (hub.update deck f).clients, ∃ c ∈ hub.clients, c'.id = c.id ∧
      c'.granted = c.granted := by
    intro c' hc'
    rcases mem_update hc' with ⟨c, hc, _, rfl⟩ | ⟨hc, _⟩
    · exact ⟨c, hc, id c, granted c⟩
    · exact ⟨c', hc, rfl, rfl⟩
  refine ⟨fun c' hc' ↦ ?_, ?_, fun c' hc' ↦ ?_, inv.addressed, fun m hm time c' hc' same ↦ ?_,
    fun replays c' hc' ↦ ?_,    fun e' he' trusted ↦ ?_, fun e' he' trusted joined d' hd' other ↦
      ?_, inv.ordered, inv.replay⟩
  · obtain ⟨c, hc, same, _⟩ := before c' hc'
    exact same ▸ inv.known c hc
  · rw [decks_update id]
    exact inv.distinct
  · obtain ⟨c, hc, _, grant⟩ := before c' hc'
    rw [grant]
    exact inv.low c hc
  · obtain ⟨c, hc, eq, grant⟩ := before c' hc'
    rw [grant]
    exact inv.granted m hm time c hc (eq.symm.trans same)
  · obtain ⟨c, hc, _, grant⟩ := before c' hc'
    rw [grant]
    exact inv.due replays c hc
  · rcases mem_update he' with ⟨e, he, same, rfl⟩ | ⟨he, _⟩
    · rw [id, same] at trusted ⊢
      exact promised trusted e he same
    · exact (inv.promised e' he trusted).trans (above _)
  · obtain ⟨d, hd, eq, grant⟩ := before d' hd'
    rw [eq] at other
    rw [grant]
    rcases mem_update he' with ⟨e, he, same, rfl⟩ | ⟨he, _⟩
    · rw [id] at trusted other ⊢
      rcases held (same ▸ trusted) e he same joined with joined | fits
      · exact (inv.held e he trusted joined d hd other).trans (by exact_mod_cast above _)
      · exact same ▸ fits d hd (same ▸ other)
    · exact (inv.held e' he trusted joined d hd other).trans (by exact_mod_cast above _)

end Update

section Message

variable {kind t : ℕ} {payload frame : Frame} {origin : Origin} {stamp : ℤ}

/-- No time below `t` has been granted to another deck. -/
def Above (hub : Hub) (deck t : ℕ) : Prop :=
  ∀ d ∈ hub.clients, d.id ≠ deck → d.granted ≤ t

theorem record_invariant (R : Hub → Prop)
    (same : ∀ hub senders, R hub → R { hub with senders := senders }) :
    Triple (fun hub ↦ Invariant covered floor hub ∧ R hub) (SyncHub.record frame origin stamp)
      (fun _ hub ↦ Invariant covered floor hub ∧ R hub) (Invariant covered floor) := by
  refine Triple.bind (Q := fun _ hub ↦ Invariant covered floor hub ∧ R hub)
    (triple_require (fun hub h _ ↦ h) fun hub h _ ↦ h.1) fun _ ↦
    triple_modify fun hub ⟨inv, r⟩ ↦ ⟨?_, same _ _ r⟩
  exact ⟨inv.known, inv.distinct, inv.low, inv.addressed, inv.granted, inv.due, inv.promised,
    inv.held, inv.ordered, inv.replay⟩

theorem find_id {client : Client} (h : hub.find deck = some client) : client.id = deck := by
  simpa using List.find?_some h

theorem eq_of_find {client : Client} (distinct : hub.decks.Nodup)
    (h : hub.find deck = some client) {c : Client} (hc : c ∈ hub.clients) (same : c.id = deck) :
    c = client :=
  List.inj_on_of_nodup_map distinct hc (List.mem_of_find?_eq_some h) (same.trans (find_id h).symm)

theorem flood_invariant :
    Triple (fun hub ↦ Invariant covered floor hub ∧ deck < hub.nextId ∧
      (covered (.deck deck) → Above hub deck t))
      (flood fails deck t payload)
      (fun _ ↦ Invariant covered floor) (Invariant covered floor) := by
  refine (record_invariant (fun hub ↦ deck < hub.nextId ∧ (covered (.deck deck) → Above hub deck t))
    fun _ _ r ↦ ⟨r.1, fun trusted ↦ r.2 trusted⟩).bind fun _ ↦
    triple_get fun hub ⟨inv, known, above⟩ ↦ ?_
  refine (sendFrames_invariant.conseq (fun hub' eq ↦ ?_) (fun _ _ h ↦ h) fun _ h ↦ h).bind fun _ ↦
    triple_get fun hub inv ↦ ?_
  · subst eq
    refine ⟨inv, fun id h ↦ Origin.deck.inj h ▸ known, fun covers _ c hc member ↦ above covers c hc ?_⟩
    simpa using (List.mem_filter.mp member).2
  · split
    next reply client _ found =>
      refine (record_invariant (InTime covered [deck] (max (t : ℤ) client.granted) .replay)
        fun _ _ r ↦ ⟨r.1, r.2⟩).conseq (fun hub' eq ↦ ?_) (fun _ _ h ↦ h) (fun _ h ↦ h) |>.bind
        fun _ ↦ sendFrames_invariant
      subst eq
      refine ⟨inv, nofun, fun _ _ c hc member ↦ ?_⟩
      rw [eq_of_find inv.distinct found hc (List.mem_singleton.mp member)]
      exact le_max_right _ _
    next => exact triple_pure fun hub' eq ↦ eq ▸ inv

/-- What the message says of its deck's later frames, and what a frame needs. -/
structure Fits (covered : Origin → Prop) (floor' : ℕ → ℕ) (hub : Hub) (deck kind t : ℕ)
    (payload : Frame) : Prop where
  known : deck < hub.nextId
  hello : kind = syncHello → covered (.deck deck) → Above hub deck (floor' deck)
  time : kind = syncTime → payload.length = 8 → covered (.deck deck) → littleEndian payload ≤ floor' deck
  stamped : kind = syncFrame → covered (.deck deck) → t ≤ floor' deck
  frame : kind = syncFrame → covered (.deck deck) → Above hub deck t

theorem above_update {f : Client → Client} (id : ∀ c, (f c).id = c.id) (above : Above hub deck t) :
    Above (hub.update deck f) deck t := by
  intro d' hd' other
  rcases mem_update hd' with ⟨d, hd, same, rfl⟩ | ⟨hd, _⟩
  · exact absurd ((id d).trans same) other
  · exact above d' hd other

theorem message_invariant (inv : Invariant covered floor hub) (rises : ∀ i, floor i ≤ floor' i)
    (fits : Fits covered floor' hub deck kind t payload) :
    Triple (· = hub) (SyncHub.message fails deck kind t payload) (fun _ ↦ Invariant covered floor')
      (Invariant covered floor') := by
  have seen : Triple (· = hub) (Machine.modify (·.update deck fun client ↦
      { client with t := max client.t t }) : Action Unit)
      (fun _ hub' ↦ Invariant covered floor hub' ∧ deck < hub'.nextId ∧
        ∀ n, Above hub deck n → Above hub' deck n) (Invariant covered floor') := by
    refine triple_modify fun hub' eq ↦ ?_
    subst eq
    exact ⟨inv.update (fun _ ↦ le_rfl) (fun _ ↦ rfl) (fun _ ↦ rfl)
      (fun trusted c hc same ↦ same ▸ inv.promised c hc (same ▸ trusted))
      fun _ c _ _ joined ↦ .inl joined, fits.known, fun n ↦ above_update fun _ ↦ rfl⟩
  unfold SyncHub.message
  refine seen.bind fun _ ↦ triple_ite (fun hello ↦ ?_) fun _ ↦ triple_ite (fun time ↦ ?_) fun _ ↦
    triple_ite (fun stamped ↦ ?_) fun _ ↦ ?_
  · refine triple_modify fun hub' ⟨inv', _, above⟩ ↦ ?_
    refine inv'.update rises (fun _ ↦ rfl) (fun _ ↦ rfl) (fun trusted c hc same ↦ ?_)
      fun trusted _ _ _ _ ↦ .inr (above _ (fits.hello hello trusted))
    exact same ▸ (inv'.promised c hc (same ▸ trusted)).trans (rises _)
  · refine triple_modify fun hub' ⟨inv', _, above⟩ ↦ ?_
    refine inv'.update rises (fun _ ↦ rfl) (fun _ ↦ rfl) (fun trusted c hc same ↦ ?_)
      fun _ _ _ _ joined ↦ .inl joined
    refine max_le ?_ (fits.time time.1 time.2 trusted)
    exact same ▸ (inv'.promised c hc (same ▸ trusted)).trans (rises _)
  · refine Triple.bind (Q := fun _ hub ↦ Invariant covered floor' hub ∧ deck < hub.nextId ∧
      (covered (.deck deck) → Above hub deck t)) (triple_modify fun hub' ⟨inv', known, above⟩ ↦ ?_)
      fun _ ↦ flood_invariant
    refine ⟨inv'.update rises (fun _ ↦ rfl) (fun _ ↦ rfl) (fun trusted c hc same ↦ ?_)
      fun _ _ _ _ joined ↦ .inl joined, known, fun trusted ↦ ?_⟩
    · refine max_le ?_ (fits.stamped stamped trusted)
      exact same ▸ (inv'.promised c hc (same ▸ trusted)).trans (rises _)
    · exact above_update (fun _ ↦ rfl) (above _ (fits.frame stamped trusted))
  · exact triple_pure fun hub' ⟨inv', _⟩ ↦ inv'.mono rises

end Message

section Replayed

variable {target : Option (Frame × Frame)} {due horizon : ℤ} {frame : Frame}

theorem advance_fields (hub : Hub) : hub.advance.clients = hub.clients ∧
    hub.advance.decksWanted = hub.decksWanted ∧ hub.advance.nextId = hub.nextId ∧
    hub.advance.sent = hub.sent ∧ hub.advance.replay = hub.replay := by
  unfold Hub.advance
  simp only
  split_ifs <;> exact ⟨rfl, rfl, rfl, rfl, rfl⟩

theorem Invariant.advance (inv : Invariant covered floor hub) (next : hub.replayDue = some due) :
    Invariant covered floor hub.advance := by
  obtain ⟨clients, _, nextId, sent, replay⟩ := advance_fields hub
  have same : hub.advance.decks = hub.decks := by rw [Hub.decks, clients, Hub.decks]
  refine ⟨?_, same ▸ inv.distinct, clients ▸ inv.low, ?_, ?_, fun replays c hc positive due' later ↦ ?_, ?_, ?_,
    sent ▸ inv.ordered, replay ▸ inv.replay⟩
  · rw [clients, nextId]
    exact inv.known
  · rw [sent, nextId]
    exact inv.addressed
  · rw [sent, clients]
    exact inv.granted
  · rw [clients] at hc
    exact (inv.due replays c hc positive due next).trans (due_advance (inv.replay replays) next later)
  · rw [clients]
    exact inv.promised
  · rw [clients]
    exact inv.held

/-- A replayed frame is never late: no grant goes past the next one. -/
theorem Invariant.inTime (inv : Invariant covered floor hub) (next : hub.replayDue = some due)
    (receivers : List ℕ) : InTime covered receivers due .replay hub := by
  refine ⟨nofun, fun replays fits c hc _ ↦ ?_⟩
  rcases le_or_gt c.granted 0 with small | positive
  · exact small.trans fits
  · exact inv.due replays c hc positive due next

theorem play_invariant (inv : Invariant covered floor hub) (next : hub.replayDue = some due) :
    Triple (· = hub) (play fails target due frame) (fun _ ↦ Invariant covered floor)
      (Invariant covered floor) := by
  unfold play
  refine Triple.bind (Q := fun _ hub' ↦ Invariant covered floor hub' ∧
    InTime covered hub'.decks due .replay hub') (triple_modify fun hub' eq ↦ ?_) fun _ ↦
    triple_get fun hub' ⟨inv', inTime⟩ ↦ ?_
  · subst eq
    refine ⟨inv.advance next, nofun, fun covers fits c hc member ↦ ?_⟩
    exact (inv.inTime next _).granted covers fits c ((advance_fields hub').1 ▸ hc) member
  · split
    next => exact triple_fail fun hub'' eq ↦ eq ▸ inv'
    next =>
      split
      next => exact triple_pure fun hub'' eq ↦ eq ▸ inv'
      next =>
        refine (record_invariant (InTime covered hub'.decks due .replay) fun _ _ r ↦
          ⟨r.1, r.2⟩).conseq (fun hub'' eq ↦ ?_) (fun _ _ h ↦ h) (fun _ h ↦ h) |>.bind fun _ ↦
          sendFrames_invariant
        subst eq
        exact ⟨inv', inTime⟩

theorem playUpTo_invariant (rounds : ℕ) :
    Triple (Invariant covered floor) (playUpTo fails horizon target rounds)
      (fun _ ↦ Invariant covered floor) (Invariant covered floor) := by
  induction rounds with
  | zero => exact triple_pure fun _ h ↦ h
  | succ rounds ih =>
    refine triple_get fun hub inv ↦ ?_
    split
    next => exact triple_pure fun _ eq ↦ eq ▸ inv
    next due frame next =>
      refine triple_ite (fun _ ↦ triple_pure fun _ eq ↦ eq ▸ inv) fun _ ↦ ?_
      have here : hub.replayDue = some due := by rw [Hub.replayDue, next, Option.map_some]
      exact (play_invariant inv here).bind fun _ ↦ ih

theorem pushReplay_invariant : Triple (Invariant covered floor) (pushReplay fails)
    (fun _ ↦ Invariant covered floor) (Invariant covered floor) := by
  refine triple_get fun hub inv ↦ ?_
  split
  next => exact triple_pure fun _ eq ↦ eq ▸ inv
  next =>
    refine triple_ite (fun _ ↦ triple_pure fun _ eq ↦ eq ▸ inv) fun _ ↦ ?_
    exact (playUpTo_invariant _).conseq (fun _ eq ↦ eq ▸ inv) (fun _ _ h ↦ h) fun _ h ↦ h

end Replayed

section Granting

theorem le_foldl_min (l : List Client) {bound limit : ℤ} :
    bound ≤ l.foldl (fun grant client ↦ min grant client.promise) limit ↔
      bound ≤ limit ∧ ∀ c ∈ l, bound ≤ c.promise := by
  induction l generalizing limit with
  | nil => simp
  | cons c l ih =>
    rw [List.foldl_cons, ih, le_min_iff, List.forall_mem_cons, and_assoc]

theorem le_least_iff {bound : ℤ} : bound ≤ hub.least deck ↔ bound ≤ never ∧
    (∀ e ∈ hub.clients, e.id ≠ deck → e.joined → bound ≤ e.promise) ∧
    ∀ due, hub.replayDue = some due → bound ≤ due := by
  have others : (∀ e ∈ hub.joined.filter (·.id ≠ deck), bound ≤ (e.promise : ℤ)) ↔
      ∀ e ∈ hub.clients, e.id ≠ deck → e.joined → bound ≤ e.promise := by
    simp only [Hub.joined, List.mem_filter, decide_eq_true_eq, and_imp]
    exact forall₂_congr fun _ _ ↦ forall_comm
  unfold Hub.least
  rw [← others]
  cases next : hub.replayDue with
  | none => simp [le_foldl_min]
  | some due => simp [le_foldl_min, and_assoc]

theorem grant_of_full (full : hub.decksWanted ≤ hub.joined.length) :
    hub.grant deck = hub.least deck :=
  if_neg (not_lt.mpr full)

theorem full_of_grant_pos (h : 0 < hub.grant deck) : hub.decksWanted ≤ hub.joined.length := by
  by_contra held
  rw [Hub.grant, if_pos (not_le.mp held)] at h
  exact lt_irrefl _ h

def grantTo (hub : Hub) (deck : ℕ) : Hub :=
  hub.update deck fun client ↦ { client with granted := hub.grant deck }

theorem Invariant.grantTo (inv : Invariant covered floor hub) {client : Client}
    (found : hub.find deck = some client) (more : client.granted < hub.grant deck) :
    Invariant covered floor (grantTo hub deck) := by
  have small : ∀ e ∈ hub.clients, e.id ≠ deck → covered (.deck e.id) → e.joined →
      hub.grant deck ≤ floor e.id := by
    intro e he other trusted joined
    rcases le_or_gt (hub.grant deck) 0 with none | positive
    · exact none.trans (Int.natCast_nonneg _)
    · rw [grant_of_full (full_of_grant_pos positive)]
      exact ((le_least_iff.mp le_rfl).2.1 e he other joined).trans
        (by exact_mod_cast inv.promised e he trusted)
  refine ⟨fun c' hc' ↦ ?_, ?_, fun c' hc' ↦ ?_, inv.addressed, fun m hm time c' hc' same ↦ ?_,
    fun replays c' hc' positive due next ↦ ?_, fun e' he' trusted ↦ ?_,
    fun e' he' trusted joined d' hd' other ↦ ?_, inv.ordered, inv.replay⟩
  · rcases mem_update hc' with ⟨c, hc, _, rfl⟩ | ⟨hc, _⟩
    · exact inv.known c hc
    · exact inv.known c' hc
  · have same : (Grants.grantTo hub deck).decks = hub.decks := decks_update fun _ ↦ rfl
    exact same ▸ inv.distinct
  · rcases mem_update hc' with ⟨c, hc, _, rfl⟩ | ⟨hc, _⟩
    · exact (inv.low client (List.mem_of_find?_eq_some found)).trans more.le
    · exact inv.low c' hc
  · rcases mem_update hc' with ⟨c, hc, here, rfl⟩ | ⟨hc, _⟩
    · have before := inv.granted m hm time c hc same
      rw [eq_of_find inv.distinct found hc here] at before
      exact before.trans more.le
    · exact inv.granted m hm time c' hc same
  · rcases mem_update hc' with ⟨c, hc, here, rfl⟩ | ⟨hc, _⟩
    · have reach : hub.grant deck ≤ hub.least deck :=
        (grant_of_full (full_of_grant_pos positive)).le
      exact (le_least_iff.mp reach).2.2 due next
    · exact inv.due replays c' hc positive due next
  · rcases mem_update he' with ⟨e, he, _, rfl⟩ | ⟨he, _⟩
    · exact inv.promised e he trusted
    · exact inv.promised e' he trusted
  · have old : ∃ e ∈ hub.clients, e.id = e'.id ∧ e.joined = e'.joined := by
      rcases mem_update he' with ⟨e, he, _, rfl⟩ | ⟨he, _⟩
      · exact ⟨e, he, rfl, rfl⟩
      · exact ⟨e', he, rfl, rfl⟩
    obtain ⟨e, he, id, join⟩ := old
    rw [← id] at trusted other ⊢
    rw [← join] at joined
    rcases mem_update hd' with ⟨d, _, here, rfl⟩ | ⟨hd, _⟩
    · exact small e he (fun eq ↦ other (here.trans eq.symm)) trusted joined
    · exact inv.held e he trusted joined d' hd other

theorem updateGrant_invariant : Triple (Invariant covered floor) (updateGrant fails deck)
    (fun _ ↦ Invariant covered floor) (Invariant covered floor) := by
  refine triple_get fun hub inv ↦ ?_
  split
  next => exact triple_pure fun _ eq ↦ eq ▸ inv
  next client found =>
    refine triple_ite (fun more ↦ ?_) fun _ ↦ triple_pure fun _ eq ↦ eq ▸ inv
    refine Triple.bind (triple_modify fun hub' eq ↦ ?_) fun _ ↦ sendMsg_invariant
    subst eq
    refine ⟨inv.grantTo found more, nofun, fun _ c' hc' same ↦ ?_, fun _ _ m hm time same ↦ ?_⟩
    · rcases mem_update hc' with ⟨c, _, _, rfl⟩ | ⟨_, other⟩
      · exact le_rfl
      · exact absurd same other
    · have given := inv.granted m hm time client (List.mem_of_find?_eq_some found)
        ((find_id found).trans same.symm)
      exact given.trans_lt more

theorem updateGrants_invariant : Triple (Invariant covered floor) (updateGrants fails)
    (fun _ ↦ Invariant covered floor) (Invariant covered floor) := by
  refine triple_get fun hub inv ↦ ?_
  refine (triple_forM (P := fun _ ↦ Invariant covered floor) hub.decks fun _ _ ↦
    updateGrant_invariant).conseq (fun _ eq ↦ eq ▸ inv) (fun _ _ h ↦ h) fun _ h ↦ h

end Granting

section Step

/-- What the event may bring for the invariant to hold with the higher floors. -/
structure Admits (covered : Origin → Prop) (floor floor' : ℕ → ℕ) (hub : Hub) (event : Event) : Prop where
  rises : ∀ i, floor i ≤ floor' i
  fits : ∀ deck kind t payload, event = .message deck kind t payload → deck ∈ hub.decks →
    Fits covered floor' hub deck kind t payload

theorem known_of_mem (inv : Invariant covered floor hub) (h : deck ∈ hub.decks) :
    deck < hub.nextId := by
  obtain ⟨c, hc, rfl⟩ := List.mem_map.mp h
  exact inv.known c hc

theorem Invariant.accept (inv : Invariant covered floor hub) : Invariant covered floor hub.accept := by
  have old : ∀ c ∈ hub.clients, c.id ≠ hub.nextId := fun c hc ↦ (inv.known c hc).ne
  refine ⟨?_, ?_, ?_, fun m hm ↦ ?_, fun m hm time ↦ ?_, fun replays ↦ ?_, ?_, ?_, inv.ordered,
    inv.replay⟩
  · refine List.forall_mem_append.mpr ⟨fun c hc ↦ (inv.known c hc).trans (Nat.lt_succ_self _), ?_⟩
    exact List.forall_mem_singleton.mpr (Nat.lt_succ_self _)
  · have ids : hub.accept.decks = hub.decks ++ [hub.nextId] := List.map_append
    rw [ids]
    refine List.nodup_append.mpr ⟨inv.distinct, List.nodup_singleton _, fun i hi j hj ↦ ?_⟩
    obtain ⟨c, hc, rfl⟩ := List.mem_map.mp hi
    exact List.mem_singleton.mp hj ▸ old c hc
  · exact List.forall_mem_append.mpr ⟨inv.low, List.forall_mem_singleton.mpr le_rfl⟩
  · exact ⟨(inv.addressed m hm).deck.trans (Nat.lt_succ_self _), fun id frame h ↦
      ((inv.addressed m hm).origin id frame h).trans (Nat.lt_succ_self _)⟩
  · refine List.forall_mem_append.mpr ⟨inv.granted m hm time, List.forall_mem_singleton.mpr ?_⟩
    exact fun same ↦ absurd (inv.addressed m hm).deck (by simp [← same])
  · refine List.forall_mem_append.mpr ⟨inv.due replays, List.forall_mem_singleton.mpr ?_⟩
    exact fun positive ↦ absurd positive (by simp)
  · refine List.forall_mem_append.mpr ⟨inv.promised, List.forall_mem_singleton.mpr ?_⟩
    exact fun _ ↦ Nat.zero_le _
  · refine List.forall_mem_append.mpr ⟨fun e he trusted joined ↦ List.forall_mem_append.mpr
      ⟨inv.held e he trusted joined, List.forall_mem_singleton.mpr fun _ ↦ ?_⟩,
      List.forall_mem_singleton.mpr fun _ joined ↦ absurd joined (by simp)⟩
    exact (by simp : (-1 : ℤ) ≤ 0).trans (Int.natCast_nonneg _)

theorem Invariant.drop (inv : Invariant covered floor hub) (deck : ℕ) :
    Invariant covered floor (hub.drop deck) :=
  inv.shrink ⟨List.filter_sublist, rfl, rfl, rfl, rfl⟩ inv.addressed inv.granted inv.ordered

theorem step_invariant {event : Event} (inv : Invariant covered floor hub)
    (admits : Admits covered floor floor' hub event) :
    Triple (· = hub) (step fails event) (fun _ ↦ Invariant covered floor')
      (Invariant covered floor') := by
  have risen := inv.mono admits.rises
  cases event with
  | accept => exact triple_modify fun hub' eq ↦ eq ▸ risen.accept
  | drop deck => exact triple_modify fun hub' eq ↦ eq ▸ risen.drop deck
  | message deck kind t payload =>
    refine triple_get fun hub' eq ↦ ?_
    subst eq
    refine triple_ite (fun connected ↦ ?_) fun _ ↦ triple_pure fun hub' eq ↦ eq ▸ risen
    exact message_invariant inv admits.rises (admits.fits _ _ _ _ rfl connected)
  | pushReplay =>
    exact pushReplay_invariant.conseq (fun _ eq ↦ eq ▸ risen) (fun _ _ h ↦ h) fun _ h ↦ h
  | updateGrants =>
    exact updateGrants_invariant.conseq (fun _ eq ↦ eq ▸ risen) (fun _ _ h ↦ h) fun _ h ↦ h

theorem invariant_start {wanted : ℕ} {replay : Option Replay} {origin : ℤ}
    (ordered : covered .replay → ∀ r, replay = some r → InTimeOrder r) :
    Invariant covered floor (.start wanted replay origin) where
  known := List.forall_mem_nil _
  distinct := List.nodup_nil
  low := List.forall_mem_nil _
  addressed := List.forall_mem_nil _
  granted := List.forall_mem_nil _
  due := fun _ ↦ List.forall_mem_nil _
  promised := List.forall_mem_nil _
  held := List.forall_mem_nil _
  ordered := List.Pairwise.nil
  replay := ordered

end Step

end Cdj2000Emulator.Link.Grants
