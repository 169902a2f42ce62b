import Cdj2000Emulator.Link.Timeline

namespace Cdj2000Emulator.Link.Membership

open Library.Stateful Library.Stateful.Machine
open Ethernet SyncHub Grants Timeline

variable {covered : Origin → Prop} {floor : ℕ → ℕ} {fails : ℕ → Bool} {hub hub' : Hub} {deck : ℕ}
  {event : Event} {events : List Event}

def Full (hub : Hub) : Prop := hub.decksWanted ≤ hub.joined.length

/-- The deck's grant is no less than what the others have all promised, and the next replayed
frame's time. -/
def Reached (hub : Hub) (c : Client) : Prop :=
  ∀ bound ≤ never, (∀ e ∈ hub.clients, e.id ≠ c.id → e.joined → bound ≤ e.promise) →
    (∀ due, hub.replayDue = some due → bound ≤ due) → bound ≤ c.granted

theorem reached_iff {c : Client} : Reached hub c ↔ hub.least c.id ≤ c.granted := by
  constructor
  · intro h
    obtain ⟨limit, promised, due⟩ := le_least_iff.mp (le_refl (hub.least c.id))
    exact h _ limit promised due
  · intro enough bound limit promised due
    exact (le_least_iff.mpr ⟨limit, promised, due⟩).trans enough

instance (hub : Hub) : DecidablePred (Reached hub) := fun _ ↦ decidable_of_iff _ reached_iff.symm

instance (hub : Hub) : Decidable (Full hub) := inferInstanceAs (Decidable (_ ≤ _))

/-- The grants after an update have reached what was promised before it. -/
def KeepsUp (hub hub' : Hub) : Prop := ∀ c ∈ hub'.clients, Reached hub c

instance (hub hub' : Hub) : Decidable (KeepsUp hub hub') :=
  inferInstanceAs (Decidable (∀ c ∈ hub'.clients, Reached hub c))

section Update

variable {start : Hub} {todo : List ℕ}

/-- While the grants are updated, decks may be lost and grants rise. -/
structure Updates (start hub : Hub) : Prop where
  distinct : hub.decks.Nodup
  low : ∀ c ∈ hub.clients, -1 ≤ c.granted
  decksWanted : hub.decksWanted = start.decksWanted
  replayDue : hub.replayDue = start.replayDue
  joined : hub.joined.length ≤ start.joined.length
  clients : ∀ c ∈ hub.clients, ∃ c₀ ∈ start.clients, c.id = c₀.id ∧ c.promise = c₀.promise ∧
    c.joined = c₀.joined

/-- Where all are in at the end, the decks that had their turn have caught up. -/
structure Updating (start : Hub) (todo : List ℕ) (hub : Hub) : Prop where
  updates : Updates start hub
  reached : Full hub → ∀ c ∈ hub.clients, c.id ∉ todo → Reached start c

theorem Updates.shrink (h : Updates start hub) (less : Shrinks hub hub') : Updates start hub' :=
  ⟨h.distinct.sublist (less.clients.map _), fun c hc ↦ h.low c (less.clients.subset hc),
    less.decksWanted.trans h.decksWanted, less.replayDue.trans h.replayDue,
    (less.clients.filter _).length_le.trans h.joined, fun c hc ↦ h.clients c (less.clients.subset hc)⟩

theorem Updating.shrink (h : Updating start todo hub) (less : Shrinks hub hub') :
    Updating start todo hub' := by
  refine ⟨h.updates.shrink less, fun full c hc done ↦ h.reached ?_ c (less.clients.subset hc) done⟩
  unfold Full at full ⊢
  rw [← less.decksWanted]
  exact full.trans (less.clients.filter _).length_le

theorem joined_grantTo : (grantTo hub deck).joined.length = hub.joined.length := by
  unfold Hub.joined grantTo Hub.update
  rw [List.filter_map, List.length_map]
  congr 1
  refine List.filter_congr fun c _ ↦ ?_
  dsimp only [Function.comp]
  split_ifs <;> rfl

/-- A turn that comes to a grant is one that raises it. -/
theorem Updates.grantTo (h : Updates start hub) {client : Client}
    (found : hub.find deck = some client) (more : client.granted < hub.grant deck) :
    Updates start (grantTo hub deck) := by
  refine ⟨?_, fun c' hc' ↦ ?_, h.decksWanted, h.replayDue, joined_grantTo.trans_le h.joined,
    fun c' hc' ↦ ?_⟩
  · have same : (Grants.grantTo hub deck).decks = hub.decks := decks_update fun _ ↦ rfl
    exact same ▸ h.distinct
  · rcases mem_update hc' with ⟨c, hc, _, rfl⟩ | ⟨hc, _⟩
    · exact (h.low client (List.mem_of_find?_eq_some found)).trans more.le
    · exact h.low c' hc
  · rcases mem_update hc' with ⟨c, hc, _, rfl⟩ | ⟨hc, _⟩
    · exact h.clients c hc
    · exact h.clients c' hc

theorem Updates.reached (h : Updates start hub) (full : Full hub) {c : Client} (here : c.id = deck)
    (enough : hub.grant deck ≤ c.granted) : Reached start c := by
  intro bound limit promised due
  rw [grant_of_full full] at enough
  refine le_trans (le_least_iff.mpr ⟨limit, fun e he other joined ↦ ?_, fun d next ↦ ?_⟩) enough
  · obtain ⟨e₀, he₀, id, promise, join⟩ := h.clients e he
    rw [promise]
    exact promised e₀ he₀ (by rw [← id, here]; exact other) (join ▸ joined)
  · exact due d (h.replayDue ▸ next)

theorem grant_le_never : hub.grant deck ≤ never := by
  by_cases full : Full hub
  · rw [grant_of_full full]
    exact (le_least_iff.mp le_rfl).1
  · rw [Hub.grant, if_pos (not_le.mp full)]
    decide

/-- A stamp that fits its field does not end the program. -/
theorem sendMsg_ok {message : Sent} (positive : 0 ≤ message.stamp) (small : message.stamp ≤ never) :
    (sendMsg fails message hub).2 = .ok () := by
  have fits : ¬(message.stamp < 0 ∨ 2 ^ 64 ≤ message.stamp) := by
    unfold never at small
    omega
  unfold sendMsg
  rw [if_neg fits]
  split_ifs <;> rfl

theorem updateGrant_updating : Triple (Updating start (deck :: todo)) (updateGrant fails deck)
    (fun _ ↦ Updating start todo) fun _ ↦ False := by
  refine triple_get fun hub updating ↦ ?_
  have next : ∀ c ∈ hub.clients, c.id ≠ deck → c.id ∉ todo → c.id ∉ deck :: todo :=
    fun c _ other done ↦ List.not_mem_cons_of_ne_of_not_mem other done
  split
  next absent =>
    refine triple_pure fun _ eq ↦ eq ▸ ⟨updating.updates, fun full c hc done ↦ ?_⟩
    have other : c.id ≠ deck := by simpa using List.find?_eq_none.mp absent c hc
    exact updating.reached full c hc (next c hc other done)
  next client found =>
    have member := List.mem_of_find?_eq_some found
    refine triple_ite (fun more ↦ ?_) fun less ↦ triple_pure fun _ eq ↦ eq ▸ ?_
    · have given : Updating start todo (grantTo hub deck) := by
        refine ⟨updating.updates.grantTo found more, fun full c' hc' done ↦ ?_⟩
        have before : Full hub := full.trans joined_grantTo.le
        rcases mem_update hc' with ⟨c, _, here, rfl⟩ | ⟨hc, other⟩
        · exact updating.updates.reached before here le_rfl
        · exact updating.reached before c' hc (next c' hc other done)
      have positive : 0 ≤ hub.grant deck := by
        have low := updating.updates.low client member
        omega
      refine Triple.bind (Q := fun _ hub' ↦ hub' = grantTo hub deck)
        (triple_modify fun hub' eq ↦ eq ▸ rfl) fun _ ↦ ⟨fun hub' eq ↦ ?_⟩
      rw [sendMsg_ok positive grant_le_never]
      exact given.shrink (eq ▸ shrinks_sendMsg hub')
    · refine ⟨updating.updates, fun full c hc done ↦ ?_⟩
      by_cases here : c.id = deck
      · rw [eq_of_find updating.updates.distinct found hc here]
        exact updating.updates.reached full (find_id found) (not_lt.mp less)
      · exact updating.reached full c hc (next c hc here done)

theorem updateGrants_updating (inv : Invariant covered floor hub) :
    Triple (· = hub) (updateGrants fails) (fun _ ↦ Updating hub []) fun _ ↦ False := by
  refine triple_get fun hub' eq ↦ ?_
  subst eq
  have first : Updating hub' hub'.decks hub' :=
    ⟨⟨inv.distinct, inv.low, rfl, rfl, le_rfl, fun c hc ↦ ⟨c, hc, rfl, rfl, rfl⟩⟩,
      fun _ c hc done ↦ absurd (List.mem_map_of_mem hc) done⟩
  exact (triple_forM (P := Updating hub') hub'.decks fun _ _ ↦ updateGrant_updating).conseq
    (fun _ eq ↦ eq ▸ first) (fun _ _ h ↦ h) fun _ h ↦ h

/-- An update after which all are in has let every deck catch up. -/
theorem updateGrants_keepsUp (inv : Invariant covered floor hub)
    (full : Full (updateGrants fails hub).1) : KeepsUp hub (updateGrants fails hub).1 := by
  obtain ⟨updated, fine⟩ := triple_iff.mp (updateGrants_updating inv)
  rcases run : updateGrants fails hub with ⟨hub', e | u⟩
  · exact (fine hub hub' e rfl run).elim
  · rw [run] at full
    exact fun c hc ↦ (updated hub hub' u rfl run).reached full c hc List.not_mem_nil

end Update

section Told

def Told (hub : Hub) : Prop :=
  ∀ c ∈ hub.clients, newest hub.sent c.id = if c.granted = -1 then none else some c.granted

instance : DecidablePred Told := fun hub ↦ inferInstanceAs (Decidable (∀ c ∈ hub.clients, _))

theorem Told.quiet (told : Told hub) (quiet : Quiet hub hub') : Told hub' := by
  intro c' hc'
  obtain ⟨c, hc, id, granted, _⟩ := quiet.clients c' hc'
  rw [quiet.newest, id, granted]
  exact told c hc

theorem Told.accept (told : Told hub) (inv : Invariant covered floor hub) : Told hub.accept := by
  refine List.forall_mem_append.mpr ⟨told, List.forall_mem_singleton.mpr ?_⟩
  have none : hub.sent.filter (fun m ↦ m.deck = hub.nextId ∧ m.content = .time) = [] := by
    refine List.filter_eq_nil_iff.mpr fun m hm same ↦ ?_
    exact absurd (of_decide_eq_true same).1 (inv.addressed m hm).deck.ne
  exact congrArg (·.getLast?.map Sent.stamp) none

/-- A deck whose entry has been raised is sent the time, or lost. -/
theorem Told.send {grant : ℤ} (told : Told hub) (connected : deck ∈ hub'.decks) (positive : 0 ≤ grant)
    (small : grant ≤ never) (before : hub'.sent = hub.sent)
    (entries : ∀ c ∈ hub'.clients, (c.id = deck ∧ c.granted = grant) ∨ (c ∈ hub.clients ∧ c.id ≠ deck)) :
    Told (sendMsg fails ⟨deck, grant, .time⟩ hub').1 := by
  have fits : ¬(grant < 0 ∨ 2 ^ 64 ≤ grant) := by
    unfold never at small
    omega
  unfold sendMsg
  rw [if_neg (not_not.mpr connected), if_neg fits]
  split_ifs with lost
  · intro c hc
    obtain ⟨hc, other⟩ := List.mem_filter.mp hc
    obtain ⟨same, _⟩ | ⟨old, _⟩ := entries c hc
    · exact absurd same (of_decide_eq_true other)
    · exact before ▸ told c old
  · intro c hc
    refine newest_snoc.trans ?_
    obtain ⟨same, granted⟩ | ⟨old, other⟩ := entries c hc
    · rw [if_pos ⟨same.symm, rfl⟩, granted, if_neg (by omega)]
    · rw [if_neg fun h ↦ other h.1.symm, before]
      exact told c old

theorem told_updateGrant : Triple (fun hub ↦ Invariant covered floor hub ∧ Told hub) (updateGrant fails deck)
    (fun _ hub ↦ Invariant covered floor hub ∧ Told hub) fun hub ↦ Invariant covered floor hub ∧ Told hub := by
  suffices told : Triple (fun hub ↦ Invariant covered floor hub ∧ Told hub) (updateGrant fails deck)
      (fun _ ↦ Told) Told from
    (updateGrant_invariant.and told).conseq (fun _ h ↦ ⟨h.1, h⟩) (fun _ _ h ↦ h) fun _ h ↦ h
  refine triple_get fun hub ⟨inv, told⟩ ↦ ?_
  split
  next => exact triple_pure fun _ eq ↦ eq ▸ told
  next client found =>
    refine triple_ite (fun more ↦ ?_) fun _ ↦ triple_pure fun _ eq ↦ eq ▸ told
    have member := List.mem_of_find?_eq_some found
    have positive : 0 ≤ hub.grant deck := by
      have low := inv.low client member
      omega
    refine Triple.bind (Q := fun _ hub' ↦ hub' = grantTo hub deck)
      (triple_modify fun hub' eq ↦ eq ▸ rfl) fun _ ↦ ⟨fun hub' eq ↦ ?_⟩
    rw [sendMsg_ok positive grant_le_never]
    refine told.send ?_ positive grant_le_never (eq ▸ rfl) fun c hc ↦ ?_
    · have same : (grantTo hub deck).decks = hub.decks := decks_update fun _ ↦ rfl
      rw [eq, same]
      exact List.mem_map.mpr ⟨client, member, find_id found⟩
    · rw [eq] at hc
      rcases mem_update hc with ⟨_, _, id, rfl⟩ | old
      · exact .inl ⟨id, rfl⟩
      · exact .inr old

/-- Whatever happens, each deck has been sent the time that it is granted. -/
theorem told_step (inv : Invariant covered floor hub) (told : Told hub) : Told (step fails event hub).1 := by
  cases event with
  | accept => exact told.accept inv
  | drop deck =>
    exact told.quiet ⟨evolves_of_sublist rfl rfl List.filter_sublist, fun _ ↦ rfl⟩
  | message deck kind t payload =>
    change Told ((if deck ∈ hub.decks then SyncHub.message fails deck kind t payload else pure ()) hub).1
    split_ifs
    · exact told.quiet (quiet_message hub)
    · exact told
  | pushReplay => exact told.quiet (quiet_pushReplay hub)
  | updateGrants =>
    have turns : Triple (fun hub ↦ Invariant covered floor hub ∧ Told hub) (hub.decks.forM (updateGrant fails))
        (fun _ hub ↦ Invariant covered floor hub ∧ Told hub) fun hub ↦ Invariant covered floor hub ∧ Told hub :=
      triple_forM (P := fun _ hub ↦ Invariant covered floor hub ∧ Told hub) hub.decks fun _ _ ↦ told_updateGrant
    exact (turns.state ⟨inv, told⟩).2

end Told

section Run

def highest (hub : Hub) (deck : ℕ) : ℕ :=
  ((hub.clients.filter (·.id ≠ deck)).map (·.granted.toNat)).foldr max 0

def welcome (hub : Hub) (deck : ℕ) : Event → ℕ
  | .message sender kind _ _ => if sender = deck ∧ kind = syncHello then highest hub deck else 0
  | _ => 0

def raise (hub : Hub) (floor : ℕ → ℕ) (event : Event) (deck : ℕ) : ℕ :=
  max (floor deck) (max (declared deck event) (welcome hub deck event))

/-- A deck that came later than the first ones says that it is there before its first frame and
stamps none below its floor. -/
def Behaves (first : ℕ) (floor : ℕ → ℕ) (hub : Hub) : Event → Prop
  | .message deck kind t _ => kind = syncFrame → first ≤ deck →
      (∀ c ∈ hub.clients, c.id = deck → c.joined) ∧ floor deck ≤ t
  | _ => True

def Steady (fails : ℕ → Bool) (first : ℕ) (floor : ℕ → ℕ) (hub : Hub) (event : Event) : Prop :=
  (event = .updateGrants → Full (step fails event hub).1) ∧ Behaves first floor hub event

def SteadyRun (fails : ℕ → Bool) (first : ℕ) : (ℕ → ℕ) → Hub → List Event → Prop
  | _, _, [] => True
  | floor, hub, event :: events => Steady fails first floor hub event ∧
      match step fails event hub with
      | (hub', .ok _) => SteadyRun fails first (raise hub floor event) hub' events
      | (_, .error _) => True

def AlongRun (fails : ℕ → Bool) (P : Hub → Event → Hub → Prop) : Hub → List Event → Prop
  | _, [] => True
  | hub, event :: events => P hub event (step fails event hub).1 ∧
      match step fails event hub with
      | (hub', .ok _) => AlongRun fails P hub' events
      | (_, .error _) => True

instance (first : ℕ) (floor : ℕ → ℕ) (hub : Hub) : DecidablePred (Behaves first floor hub)
  | .message _ kind _ _ => inferInstanceAs (Decidable (kind = syncFrame → _))
  | .accept | .drop _ | .pushReplay | .updateGrants => instDecidableTrue

instance (fails : ℕ → Bool) (first : ℕ) (floor : ℕ → ℕ) (hub : Hub) (event : Event) :
    Decidable (Steady fails first floor hub event) :=
  inferInstanceAs (Decidable ((_ → _) ∧ _))

instance decidableSteadyRun (fails : ℕ → Bool) (first : ℕ) :
    ∀ floor hub events, Decidable (SteadyRun fails first floor hub events)
  | _, _, [] => instDecidableTrue
  | floor, hub, event :: events =>
    have : Decidable (match step fails event hub with
        | (hub', .ok _) => SteadyRun fails first (raise hub floor event) hub' events
        | (_, .error _) => True) :=
      match step fails event hub with
      | (hub', .ok _) => decidableSteadyRun fails first (raise hub floor event) hub' events
      | (_, .error _) => instDecidableTrue
    inferInstanceAs (Decidable (_ ∧ _))

def Late (first : ℕ) : Origin → Prop
  | .deck id => first ≤ id
  | .replay => False

instance (first : ℕ) : DecidablePred (Late first)
  | .deck id => inferInstanceAs (Decidable (first ≤ id))
  | .replay => instDecidableFalse

variable {first : ℕ} {wanted : ℕ} {replay : Option Replay} {origin : ℤ}

theorem le_foldr_max {l : List ℕ} {x : ℕ} (h : x ∈ l) : x ≤ l.foldr max 0 := by
  induction l with
  | nil => exact absurd h List.not_mem_nil
  | cons y l ih =>
    rw [List.foldr_cons]
    rcases List.mem_cons.mp h with rfl | h
    · exact le_max_left _ _
    · exact (ih h).trans (le_max_right _ _)

theorem above_highest : Above hub deck (highest hub deck) := by
  intro d hd other
  have member : d.granted.toNat ∈ (hub.clients.filter (·.id ≠ deck)).map (·.granted.toNat) :=
    List.mem_map_of_mem (List.mem_filter.mpr ⟨hd, by simpa using other⟩)
  exact Int.self_le_toNat _ |>.trans (by exact_mod_cast le_foldr_max member)

theorem admits_of_steady (inv : Invariant (Late first) floor hub)
    (steady : Steady fails first floor hub event) :
    Admits (Late first) floor (raise hub floor event) hub event := by
  refine ⟨fun _ ↦ le_max_left _ _, fun deck kind t payload eq connected ↦ ?_⟩
  subst eq
  refine ⟨known_of_mem inv connected, fun hello _ d hd other ↦ ?_, fun time size _ ↦ ?_,
    fun frame _ ↦ ?_, fun frame late d hd other ↦ ?_⟩
  · have welcomed : highest hub deck ≤ raise hub floor (.message deck kind t payload) deck := by
      simp [raise, welcome, hello]
    exact (above_highest d hd other).trans (by exact_mod_cast welcomed)
  · simp [raise, declared, time, size]
  · simp [raise, declared, frame, syncFrame, syncTime]
  · subst frame
    obtain ⟨e, he, here⟩ := List.mem_map.mp connected
    obtain ⟨joined, above⟩ := steady.2 rfl late
    have below := inv.held e he (here ▸ late) (joined e he here) d hd (here ▸ other)
    exact below.trans (by exact_mod_cast here ▸ above)

/-- Nothing is asked of the decks for the bare facts of a reachable state. -/
theorem run_told {before : List Event} :
    Triple (fun hub ↦ Invariant (fun _ ↦ False) (fun _ ↦ 0) hub ∧ Told hub) (run fails before)
      (fun _ hub ↦ Invariant (fun _ ↦ False) (fun _ ↦ 0) hub ∧ Told hub)
      fun hub ↦ Invariant (fun _ ↦ False) (fun _ ↦ 0) hub ∧ Told hub := by
  refine triple_forM (P := fun _ hub ↦ Invariant (fun _ ↦ False) (fun _ ↦ 0) hub ∧
    Told hub) before fun event _ ↦
    triple_of_forall fun hub ⟨inv, told⟩ ↦ ?_
  have admits : Admits (fun _ ↦ False) (fun _ ↦ 0) (fun _ ↦ 0) hub event :=
    ⟨fun _ ↦ le_rfl, fun _ _ _ _ _ connected ↦ ⟨known_of_mem inv connected, nofun, nofun, nofun, nofun⟩⟩
  have kept : Triple (· = hub) (step fails event) (fun _ ↦ Told) Told := by
    refine triple_iff.mpr ⟨fun _ hub' _ eq stepped ↦ ?_, fun _ hub' _ eq stepped ↦ ?_⟩
    · have after : Told (step fails event hub).1 := told_step inv told
      rwa [← eq, stepped] at after
    · have after : Told (step fails event hub).1 := told_step inv told
      rwa [← eq, stepped] at after
  exact ((step_invariant inv admits).and kept).conseq (fun _ eq ↦ ⟨eq, eq⟩) (fun _ _ h ↦ h) fun _ h ↦ h

theorem told_start : Told (.start wanted replay origin) := List.forall_mem_nil _

theorem invariant_of_run {before : List Event}
    (reached : run fails before (.start wanted replay origin) = (hub, .ok ())) :
    Invariant (fun _ ↦ False) (fun _ ↦ 0) hub ∧ Told hub :=
  (triple_iff.mp run_told).1 _ hub () ⟨invariant_start nofun, told_start⟩ reached

/-- A deck that has yet to come is behind in nothing. -/
theorem late_invariant (inv : Invariant (fun _ ↦ False) floor hub) :
    Invariant (Late hub.nextId) (fun _ ↦ 0) hub := by
  have early : ∀ c ∈ hub.clients, ¬Late hub.nextId (.deck c.id) :=
    fun c hc late ↦ absurd (inv.known c hc) (not_lt.mpr late)
  refine ⟨inv.known, inv.distinct, inv.low, inv.addressed, inv.granted, nofun,
    fun e he late ↦ absurd late (early e he), fun e he late ↦ absurd late (early e he), ?_, nofun⟩
  refine inv.ordered.imp_of_mem fun {earlier later} _ sent order time same ↦ ?_
  have before := order time same
  cases content : later.content with
  | time => simpa only [content] using before
  | frame origin frame =>
    cases origin with
    | replay => exact nofun
    | deck id =>
      have known := (inv.addressed later sent).origin id frame content
      exact fun late ↦ absurd known (not_lt.mpr late)

/-- What a step does for the decks: the grants keep up with the decks that remain, each has been sent its own, and the
frames of the later decks are late for none of them. -/
structure Serves (first : ℕ) (hub : Hub) (event : Event) (hub' : Hub) : Prop where
  keepsUp : event = .updateGrants → KeepsUp hub hub'
  told : Told hub'
  inOrder : hub'.sent.Pairwise (InOrder (Late first))

theorem alongRun_of_steady (inv : Invariant (Late first) floor hub) (told : Told hub)
    (steady : SteadyRun fails first floor hub events) : AlongRun fails (Serves first) hub events := by
  induction events generalizing hub floor with
  | nil => trivial
  | cons event events ih =>
    obtain ⟨now, later⟩ := steady
    have after : Invariant (Late first) (raise hub floor event) (step fails event hub).1 :=
      (step_invariant inv (admits_of_steady inv now)).state rfl
    have toldAfter : Told (step fails event hub).1 := told_step inv told
    refine ⟨⟨fun update ↦ ?_, toldAfter, after.ordered⟩, ?_⟩
    · subst update
      exact updateGrants_keepsUp inv (now.1 rfl)
    · rcases stepped : step fails event hub with ⟨hub', e | u⟩
      · trivial
      · rw [stepped] at after toldAfter later
        exact ih after toldAfter later

/-- Where the wanted number of decks are joined at each update, the grants keep up with the decks
that remain, and a deck that comes later is late for none of them. -/
theorem members_change (fails : ℕ → Bool) (wanted : ℕ) (replay : Option Replay) (origin : ℤ)
    (before after : List Event) (hub : Hub)
    (reached : run fails before (.start wanted replay origin) = (hub, .ok ()))
    (steady : SteadyRun fails hub.nextId (fun _ ↦ 0) hub after) :
    AlongRun fails (Serves hub.nextId) hub after :=
  alongRun_of_steady (late_invariant (invariant_of_run reached).1) (invariant_of_run reached).2 steady

/-- Eight bytes of a TIME message. -/
def stamp (t : Byte) : Frame := [t, 0, 0, 0, 0, 0, 0, 0]

/-- Three decks join and promise a time. -/
def opened : List Event :=
  [.accept, .accept, .accept, .message 1 syncHello 0 [], .message 2 syncHello 0 [],
    .message 3 syncHello 0 [], .message 1 syncTime 0 (stamp 100), .message 2 syncTime 0 (stamp 100),
    .message 3 syncTime 0 (stamp 100), .updateGrants]

/-- Two wanted decks and a third. -/
def openedHub : Hub := (run (fun _ ↦ false) opened (.start 2 none 0)).1

theorem opened_reached :
    run (fun _ ↦ false) opened (.start 2 none 0) = (openedHub, .ok ()) := by
  have fine : (run (fun _ ↦ false) opened (.start 2 none 0)).2 = .ok () := by decide +kernel
  rw [openedHub, ← fine]

theorem members_change_two : AlongRun (fun _ ↦ false) (Serves openedHub.nextId) openedHub
    [.drop 3, .message 1 syncTime 0 (stamp 200), .accept, .message 4 syncHello 0 [],
      .message 4 syncFrame 150 [], .updateGrants] :=
  members_change _ 2 none 0 opened _ openedHub opened_reached (by decide +kernel)

/-- The decks that remain are not granted the time they promise, and a deck that comes later
sends them a frame from their past. -/
theorem stalled_and_late :
    let hub := (run (fun _ ↦ false) opened (.start 3 none 0)).1
    let promised := (run (fun _ ↦ false) [.drop 3, .message 1 syncTime 0 (stamp 200),
      .message 2 syncTime 0 (stamp 200)] hub).1
    let joined := (run (fun _ ↦ false) [.accept, .message 4 syncHello 0 [],
      .message 4 syncFrame 5 []] hub).1
    Full hub ∧ ¬KeepsUp promised (updateGrants (fun _ ↦ false) promised).1 ∧
      ¬joined.sent.Pairwise (InOrder (Late 4)) := by
  decide +kernel

end Run

end Cdj2000Emulator.Link.Membership
