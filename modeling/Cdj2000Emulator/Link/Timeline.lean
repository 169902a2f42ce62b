import Cdj2000Emulator.Link.Grants

namespace Cdj2000Emulator.Link.Timeline

open Library.Stateful Library.Stateful.Machine
open Ethernet SyncHub Grants

/-- No deck connects and none is granted anything. -/
structure Evolves (hub hub' : Hub) : Prop where
  decksWanted : hub'.decksWanted = hub.decksWanted
  nextId : hub'.nextId = hub.nextId
  length : hub'.clients.length ≤ hub.clients.length
  clients : ∀ c' ∈ hub'.clients, ∃ c ∈ hub.clients, c'.id = c.id ∧ c'.granted = c.granted ∧
    (c.joined → c'.joined)

def newest (sent : List Sent) (deck : ℕ) : Option ℤ :=
  (sent.filter fun m ↦ m.deck = deck ∧ m.content = .time).getLast?.map (·.stamp)

/-- Nor is a deck sent a time. -/
structure Quiet (hub hub' : Hub) : Prop extends Evolves hub hub' where
  newest : ∀ deck, newest hub'.sent deck = newest hub.sent deck

variable {fails : ℕ → Bool} {hub hub' : Hub} {deck kind t : ℕ} {payload frame : Frame}

section Evolves

variable {message : Sent} {origin : Origin} {stamp : ℤ} {target : Option (Frame × Frame)}
  {horizon : ℤ} {sent : List Sent}

theorem newest_snoc {d : ℕ} : newest (sent ++ [message]) d =
    if message.deck = d ∧ message.content = .time then some message.stamp else newest sent d := by
  unfold newest
  rw [List.filter_append]
  split_ifs with h
  · rw [List.filter_cons_of_pos (by simpa using h), List.filter_nil, List.getLast?_concat, Option.map_some]
  · rw [List.filter_cons_of_neg (by simpa using h), List.filter_nil, List.append_nil]

theorem Quiet.refl (hub : Hub) : Quiet hub hub :=
  ⟨⟨rfl, rfl, le_rfl, fun c hc ↦ ⟨c, hc, rfl, rfl, id⟩⟩, fun _ ↦ rfl⟩

theorem Quiet.trans (x y z : Hub) (h : Quiet x y) (k : Quiet y z) : Quiet x z := by
  refine ⟨⟨k.decksWanted.trans h.decksWanted, k.nextId.trans h.nextId, k.length.trans h.length,
    fun c hc ↦ ?_⟩, fun deck ↦ (k.newest deck).trans (h.newest deck)⟩
  obtain ⟨c', hc', id, granted, joined⟩ := k.clients c hc
  obtain ⟨c'', hc'', id', granted', joined'⟩ := h.clients c' hc'
  exact ⟨c'', hc'', id.trans id', granted.trans granted', fun h ↦ joined (joined' h)⟩

theorem evolves_of_sublist (decksWanted : hub'.decksWanted = hub.decksWanted)
    (nextId : hub'.nextId = hub.nextId) (clients : hub'.clients.Sublist hub.clients) :
    Evolves hub hub' :=
  ⟨decksWanted, nextId, clients.length_le, fun c hc ↦ ⟨c, clients.subset hc, rfl, rfl, id⟩⟩

theorem quiet_update {f : Client → Client} (id : ∀ c, (f c).id = c.id) (granted : ∀ c, (f c).granted = c.granted)
    (joined : ∀ c, c.joined → (f c).joined) : Quiet hub (hub.update deck f) := by
  refine ⟨⟨rfl, rfl, (List.length_map _).le, fun c' hc' ↦ ?_⟩, fun _ ↦ rfl⟩
  rcases mem_update hc' with ⟨c, hc, _, rfl⟩ | ⟨hc, _⟩
  · exact ⟨c, hc, id c, granted c, joined c⟩
  · exact ⟨c', hc, rfl, rfl, fun h ↦ h⟩

theorem evolves_sendMsg : Relates Evolves (sendMsg fails message) := by
  intro hub
  have h : Shrinks hub (sendMsg fails message hub).1 := shrinks_sendMsg hub
  exact evolves_of_sublist h.decksWanted h.nextId h.clients

theorem quiet_sendMsg (frame : message.content ≠ .time) : Relates Quiet (sendMsg fails message) := by
  intro hub
  refine ⟨evolves_sendMsg hub, fun deck ↦ ?_⟩
  unfold sendMsg
  split_ifs
  · rfl
  · rfl
  · exact newest_snoc.trans (if_neg fun h ↦ frame h.2)
  · rfl

theorem quiet_sendFrames {receivers : List ℕ} :
    Relates Quiet (sendFrames fails receivers stamp origin frame) :=
  relates_forM Quiet.refl Quiet.trans (fun _ ↦ quiet_sendMsg Content.noConfusion) _

theorem quiet_record : Relates Quiet (SyncHub.record frame origin stamp) :=
  (relates_require Quiet.refl).bind Quiet.trans fun _ _ ↦
    ⟨evolves_of_sublist rfl rfl (List.Sublist.refl _), fun _ ↦ rfl⟩

theorem quiet_flood : Relates Quiet (flood fails deck t payload) := by
  refine quiet_record.bind Quiet.trans fun _ ↦ relates_get fun hub ↦
    quiet_sendFrames.bind Quiet.trans fun _ ↦ relates_get fun hub' ↦ ?_
  split
  next => exact quiet_record.bind Quiet.trans fun _ ↦ quiet_sendFrames
  next => exact relates_pure Quiet.refl

theorem quiet_message : Relates Quiet (SyncHub.message fails deck kind t payload) := by
  refine Relates.bind Quiet.trans (fun hub ↦ quiet_update (fun _ ↦ rfl) (fun _ ↦ rfl) fun _ ↦ id) fun _ ↦ ?_
  split_ifs
  · exact fun hub ↦ quiet_update (fun _ ↦ rfl) (fun _ ↦ rfl) fun _ _ ↦ rfl
  · exact fun hub ↦ quiet_update (fun _ ↦ rfl) (fun _ ↦ rfl) fun _ ↦ id
  · refine Relates.bind Quiet.trans (fun hub ↦ quiet_update (fun _ ↦ rfl) (fun _ ↦ rfl) fun _ ↦ id) fun _ ↦
      ?_
    exact quiet_flood
  · exact relates_pure Quiet.refl

theorem quiet_play {due : ℤ} : Relates Quiet (play fails target due frame) := by
  refine Relates.bind Quiet.trans (fun hub ↦ ?_) fun _ ↦ relates_get fun hub ↦ ?_
  · obtain ⟨clients, decksWanted, nextId, sent, -⟩ := advance_fields hub
    exact ⟨evolves_of_sublist decksWanted nextId (clients ▸ List.Sublist.refl _), fun deck ↦
      congrArg (newest · deck) sent⟩
  · split
    next => exact relates_fail Quiet.refl
    next =>
      split
      next => exact relates_pure Quiet.refl
      next => exact quiet_record.bind Quiet.trans fun _ ↦ quiet_sendFrames

theorem quiet_playUpTo (rounds : ℕ) :
    Relates Quiet (playUpTo fails horizon target rounds) := by
  induction rounds with
  | zero => exact relates_pure Quiet.refl
  | succ rounds ih =>
    refine relates_get fun hub ↦ ?_
    split
    next => exact relates_pure Quiet.refl
    next =>
      split_ifs
      · exact relates_pure Quiet.refl
      · exact quiet_play.bind Quiet.trans fun _ ↦ ih

theorem quiet_pushReplay : Relates Quiet (pushReplay fails) := by
  refine relates_get fun hub ↦ ?_
  split
  next => exact relates_pure Quiet.refl
  next =>
    split_ifs
    · exact relates_pure Quiet.refl
    · exact quiet_playUpTo _

end Evolves

section Opening

/-- Of the first `n` decks none is granted a time before all are in. -/
structure Opening (wanted n : ℕ) (hub : Hub) : Prop where
  decksWanted : hub.decksWanted = wanted
  nextId : hub.nextId = n + 1
  length : hub.clients.length ≤ n
  held : ∀ c ∈ hub.clients, 0 < c.granted → wanted ≤ n ∧ ∀ e ∈ hub.clients, e.joined

variable {wanted n : ℕ}

theorem Opening.evolve (opening : Opening wanted n hub) (h : Evolves hub hub') :
    Opening wanted n hub' := by
  refine ⟨h.decksWanted.trans opening.decksWanted, h.nextId.trans opening.nextId,
    h.length.trans opening.length, fun c' hc' positive ↦ ?_⟩
  obtain ⟨c, hc, _, granted, _⟩ := h.clients c' hc'
  obtain ⟨enough, joined⟩ := opening.held c hc (granted ▸ positive)
  refine ⟨enough, fun e' he' ↦ ?_⟩
  obtain ⟨e, he, _, _, join⟩ := h.clients e' he'
  exact join (joined e he)

theorem Opening.triple {α : Type} {x : Action α} (h : Relates Evolves x) :
    Triple (Opening wanted n) x (fun _ ↦ Opening wanted n) (Opening wanted n) :=
  h.triple fun _ _ opening ↦ opening.evolve

theorem Opening.all_joined (opening : Opening wanted n hub) (fits : n ≤ wanted)
    (positive : 0 < hub.grant deck) : wanted ≤ n ∧ ∀ e ∈ hub.clients, e.joined := by
  have full : wanted ≤ (hub.clients.filter Client.joined).length :=
    opening.decksWanted ▸ full_of_grant_pos positive
  have few : (hub.clients.filter Client.joined).length ≤ hub.clients.length :=
    List.length_filter_le _ _
  have room := opening.length
  refine ⟨by omega, ?_⟩
  exact List.length_filter_eq_length_iff.mp (le_antisymm few (by omega))

theorem opening_updateGrant (fits : n ≤ wanted) :
    Triple (Opening wanted n) (updateGrant fails deck) (fun _ ↦ Opening wanted n)
      (Opening wanted n) := by
  refine triple_get fun hub opening ↦ ?_
  split
  next => exact triple_pure fun _ eq ↦ eq ▸ opening
  next client found =>
    refine triple_ite (fun _ ↦ ?_) fun _ ↦ triple_pure fun _ eq ↦ eq ▸ opening
    refine Triple.bind (triple_modify fun hub' eq ↦ ?_) fun _ ↦ Opening.triple evolves_sendMsg
    subst eq
    have joined : ∀ c' ∈ (grantTo hub' deck).clients, ∃ c ∈ hub'.clients,
        (c.joined → c'.joined) ∧ (c'.granted = c.granted ∨ c'.granted = hub'.grant deck) := by
      intro c' hc'
      rcases mem_update hc' with ⟨c, hc, _, rfl⟩ | ⟨hc, _⟩
      · exact ⟨c, hc, id, .inr rfl⟩
      · exact ⟨c', hc, id, .inl rfl⟩
    refine ⟨opening.decksWanted, opening.nextId, (List.length_map _).trans_le opening.length,
      fun c' hc' positive ↦ ?_⟩
    have all : wanted ≤ n ∧ ∀ e ∈ hub'.clients, e.joined := by
      obtain ⟨c, hc, _, before | now⟩ := joined c' hc'
      · exact opening.held c hc (before ▸ positive)
      · exact opening.all_joined fits (now ▸ positive)
    refine ⟨all.1, fun e' he' ↦ ?_⟩
    obtain ⟨e, he, join, _⟩ := joined e' he'
    exact join (all.2 e he)

/-- The decks that connect. -/
def accepts (events : List Event) : ℕ := events.countP fun event ↦ event matches .accept

theorem opening_step {event : Event} (fits : n + accepts [event] ≤ wanted) :
    Triple (Opening wanted n) (step fails event) (fun _ ↦ Opening wanted (n + accepts [event]))
      (Opening wanted (n + accepts [event])) := by
  cases event with
  | accept =>
    refine triple_modify fun hub opening ↦ ⟨opening.decksWanted, ?_, ?_, ?_⟩
    · exact congrArg (· + 1) opening.nextId
    · exact (List.length_append).trans_le (Nat.add_le_add_right opening.length 1)
    · refine List.forall_mem_append.mpr ⟨fun c hc positive ↦ ?_, List.forall_mem_singleton.mpr ?_⟩
      · have enough : wanted ≤ n := (opening.held c hc positive).1
        have room : n + 1 ≤ wanted := fits
        omega
      · exact fun positive ↦ absurd positive (by simp)
  | drop deck =>
    exact Opening.triple fun hub ↦ evolves_of_sublist rfl rfl List.filter_sublist
  | message deck kind t payload =>
    refine Opening.triple (relates_get fun hub ↦ ?_)
    split_ifs
    · exact fun hub ↦ (quiet_message hub).toEvolves
    · exact fun hub ↦ (Quiet.refl hub).toEvolves
  | pushReplay => exact Opening.triple fun hub ↦ (quiet_pushReplay hub).toEvolves
  | updateGrants =>
    refine triple_get fun hub opening ↦ ?_
    exact (triple_forM (P := fun _ ↦ Opening wanted n) hub.decks fun _ _ ↦
      opening_updateGrant fits).conseq (fun _ eq ↦ eq ▸ opening) (fun _ _ h ↦ h) fun _ h ↦ h

end Opening

section Run

def promised (deck : ℕ) : Event → ℕ
  | .message sender kind _ payload =>
    if sender = deck ∧ kind = syncTime ∧ payload.length = 8 then littleEndian payload else 0
  | _ => 0

def declared (deck : ℕ) : Event → ℕ
  | .message sender kind t payload =>
    if sender = deck ∧ kind = syncTime ∧ payload.length = 8 then littleEndian payload
    else if sender = deck ∧ kind = syncFrame then t
    else 0
  | _ => 0

def latest (claim : ℕ → Event → ℕ) (events : List Event) (deck : ℕ) : ℕ :=
  (events.map (claim deck)).foldr max 0

def Stamped (claim : ℕ → Event → ℕ) (past : List Event) : Event → Prop
  | .message deck kind t _ => kind = syncFrame → latest claim past deck ≤ t
  | _ => True

def ConsistentAfter (claim : ℕ → Event → ℕ) (past : List Event) : List Event → Prop
  | [] => True
  | event :: later => Stamped claim past event ∧ ConsistentAfter claim (past ++ [event]) later

/-- Each deck's frames keep to what was claimed for it. -/
def Consistent (claim : ℕ → Event → ℕ) (events : List Event) : Prop :=
  ConsistentAfter claim [] events

instance (claim : ℕ → Event → ℕ) (past : List Event) : DecidablePred (Stamped claim past)
  | .message _ kind _ _ => inferInstanceAs (Decidable (kind = syncFrame → _))
  | .accept | .drop _ | .pushReplay | .updateGrants => instDecidableTrue

instance decidableConsistentAfter (claim : ℕ → Event → ℕ) :
    ∀ past events, Decidable (ConsistentAfter claim past events)
  | _, [] => instDecidableTrue
  | past, event :: later =>
    have := decidableConsistentAfter claim (past ++ [event]) later
    inferInstanceAs (Decidable (_ ∧ _))

instance (claim : ℕ → Event → ℕ) (events : List Event) : Decidable (Consistent claim events) :=
  decidableConsistentAfter claim [] events

variable {past events : List Event} {event : Event} {wanted n : ℕ} {replay : Option Replay}
  {origin : ℤ}

theorem latest_snoc {claim : ℕ → Event → ℕ} :
    latest claim (past ++ [event]) deck = max (latest claim past deck) (claim deck event) := by
  unfold latest
  induction past with
  | nil => simp
  | cons e past ih => rw [List.cons_append, List.map_cons, List.foldr_cons, ih, List.map_cons,
      List.foldr_cons, max_assoc]

theorem accepts_snoc : accepts (past ++ [event]) = accepts past + accepts [event] :=
  List.countP_append

theorem consistentAfter_snoc {claim : ℕ → Event → ℕ} : ConsistentAfter claim past (events ++ [event]) ↔
    ConsistentAfter claim past events ∧ Stamped claim (past ++ events) event := by
  induction events generalizing past with
  | nil => simp [ConsistentAfter]
  | cons e events ih => simp [ConsistentAfter, ih, and_assoc]

theorem above_latest {floor : ℕ → ℕ} (inv : Invariant (fun _ ↦ True) floor hub)
    (opening : Opening wanted n hub) (connected : deck ∈ hub.decks) :
    Above hub deck (floor deck) := by
  obtain ⟨e, he, rfl⟩ := List.mem_map.mp connected
  intro d hd other
  by_cases joined : e.joined
  · exact inv.held e he trivial joined d hd other
  · have low : ¬0 < d.granted := fun positive ↦ joined ((opening.held d hd positive).2 e he)
    exact (not_lt.mp low).trans (Int.natCast_nonneg _)

theorem run_snoc : run fails (past ++ [event]) = run fails past >>= fun _ ↦ step fails event := by
  induction past with
  | nil =>
    change step fails event >>= (fun _ ↦ pure ⟨⟩) = step fails event
    exact bind_pure _
  | cons e past ih =>
    change step fails e >>= (fun _ ↦ run fails (past ++ [event])) =
      (step fails e >>= fun _ ↦ run fails past) >>= fun _ ↦ step fails event
    rw [ih, LawfulMonad.bind_assoc]

theorem latest_le_snoc {claim : ℕ → Event → ℕ} :
    latest claim past deck ≤ latest claim (past ++ [event]) deck :=
  latest_snoc ▸ le_max_left _ _

theorem admits_of_stamped (inv : Invariant (fun _ ↦ True) (latest declared past) hub)
    (opening : Opening wanted n hub) (stamped : Stamped declared past event) :
    Admits (fun _ ↦ True) (latest declared past) (latest declared (past ++ [event])) hub event := by
  refine ⟨fun _ ↦ latest_le_snoc, fun deck kind t payload eq connected ↦ ?_⟩
  subst eq
  have above := above_latest inv opening connected
  refine ⟨known_of_mem inv connected, fun _ _ d hd other ↦ ?_, fun time size _ ↦ ?_,
    fun frame _ ↦ ?_, fun frame _ d hd other ↦ ?_⟩
  · exact (above d hd other).trans (by exact_mod_cast latest_le_snoc)
  · simp [latest_snoc, declared, time, size]
  · simp [latest_snoc, declared, frame, syncFrame, syncTime]
  · exact (above d hd other).trans (by exact_mod_cast stamped frame)

theorem run_invariant (ordered : ∀ r, replay = some r → InTimeOrder r)
    (fixed : accepts events ≤ wanted) (consistent : Consistent declared events) :
    Triple (· = .start wanted replay origin) (run fails events)
      (fun _ hub ↦ Invariant (fun _ ↦ True) (latest declared events) hub ∧
        Opening wanted (accepts events) hub)
      (Invariant (fun _ ↦ True) (latest declared events)) := by
  induction events using List.reverseRecOn with
  | nil =>
    refine triple_pure fun hub eq ↦ ?_
    subst eq
    exact ⟨invariant_start fun _ ↦ ordered, rfl, rfl, le_rfl, List.forall_mem_nil _⟩
  | append_singleton past event ih =>
    obtain ⟨before, stamped⟩ := consistentAfter_snoc.mp consistent
    rw [accepts_snoc] at fixed
    rw [run_snoc, accepts_snoc]
    refine ((ih (by omega) before).conseq (fun _ h ↦ h) (fun _ _ h ↦ h)
      fun _ inv ↦ inv.mono fun _ ↦ latest_le_snoc).bind fun _ ↦
      triple_of_forall fun hub ⟨inv, opening⟩ ↦ ?_
    exact ((step_invariant inv (admits_of_stamped inv opening stamped)).and
      (opening_step fixed)).conseq (fun _ eq ↦ ⟨eq, eq ▸ opening⟩) (fun _ _ h ↦ h) fun _ h ↦ h.1

/-- Where no more decks connect than the hub waits for, and each deck's stamps keep to what it
declared, no frame is late and every grant is above the one before. -/
theorem never_late (fails : ℕ → Bool) (wanted : ℕ) (replay : Option Replay) (origin : ℤ)
    (events : List Event) (ordered : ∀ r, replay = some r → InTimeOrder r)
    (fixed : accepts events ≤ wanted) (consistent : Consistent declared events) :
    (run fails events (.start wanted replay origin)).1.sent.Pairwise (InOrder fun _ ↦ True) :=
  ((run_invariant ordered fixed consistent).conseq (fun _ h ↦ h) (fun _ _ h ↦ h.1)
    fun _ h ↦ h).state rfl |>.ordered

theorem inTimeOrder_single {frame : Frame} {span : ℚ} {loop : Bool} (h : 0 < span) :
    InTimeOrder ⟨[(0, frame)], span, loop⟩ :=
  ⟨List.forall_mem_singleton.mpr le_rfl, List.pairwise_singleton _ _, List.forall_mem_singleton.mpr h⟩

theorem never_late_two : (run (fun _ ↦ false)
    [.accept, .accept, .message 1 syncHello 0 [], .message 2 syncHello 0 [],
      .message 1 syncFrame 100 [], .updateGrants, .message 1 syncFrame 150 [], .pushReplay]
    (.start 2 (some ⟨[(0, [1])], 1, true⟩) 200)).1.sent.Pairwise (InOrder fun _ ↦ True) := by
  refine never_late _ 2 _ _ _ ?_ (by decide) ?_
  · rintro r ⟨⟩
    exact inTimeOrder_single one_pos
  · decide

/-- The first deck's second frame comes below the grant that its first one led to. -/
def overtaken : List Event :=
  [.accept, .accept, .message 1 syncHello 0 [], .message 2 syncHello 0 [],
    .message 1 syncFrame 100 [], .updateGrants, .message 1 syncFrame 50 []]

theorem overtaken_late : accepts overtaken = 2 ∧ (∀ deck, .drop deck ∉ overtaken) ∧
    Consistent promised overtaken ∧
    ¬(run (fun _ ↦ false) overtaken (.start 2 none 0)).1.sent.Pairwise (InOrder fun _ ↦ True) :=
  ⟨by decide, by simp [overtaken], by decide, by decide +kernel⟩

end Run

end Cdj2000Emulator.Link.Timeline
