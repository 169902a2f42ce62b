import Cdj2000Emulator.Library.Monitor
import Cdj2000Emulator.Panel.Strokes

namespace Cdj2000Emulator.Panel

open Function Library Library.Bytes Library.Monitor Input

/-- Every press that is queued or down can be asked about, and none that was taken out is still
reported as queued. -/
structure Tracked (h : History) : Prop where
  queued : ∀ p ∈ h.input.waiting, ask (some p.id) false h.input = .queued p.id
  down : h.input.phase = .down → ∃ firstFrame downNs,
    ask (some h.input.active.id) false h.input = .down h.input.active.id firstFrame downNs
  cleared : ∀ p ∈ h.cleared, ask (some p.id) false h.input ≠ .queued p.id

/-- Nothing is queued when a `clear` comes, and a press that is taken has an id that can be asked
about and a record that no other press needs. -/
def Recorded (s : Input) : Event → Prop
  | .command .clear => s.queue.len = 0
  | .command (.press byte mask ms) => Takes s byte mask ms →
      s.nextId ≠ 0 ∧ (s.phase = .down → s.queue.len + 1 < ackMax)
  | _ => True

/-- The records of what is queued or down, the ids of which are the last that were given out. -/
structure Outstanding (s : Input) (n : ℕ) : Prop where
  first : 1 ≤ n
  last : n ≤ unsignedMax
  nextId : s.nextId = n % unsignedMax
  head : s.queue.head < queueMax
  len : s.queue.len < n
  ids : ∀ (i : ℕ) (hi : i < s.waiting.length), s.waiting[i].id + s.queue.len = n + i
  active : s.phase = .down → s.active.id + s.queue.len + 1 = n ∧ 1 ≤ s.active.id
  room : s.queue.len ≤ ackMax ∧ (s.phase = .down → s.queue.len + 1 ≤ ackMax)
  queued : ∀ p ∈ s.waiting, (s.acks (p.id % ackMax)).id = p.id ∧
    (s.acks (p.id % ackMax)).down = false ∧ (s.acks (p.id % ackMax)).done = false
  down : s.phase = .down → (s.acks (s.active.id % ackMax)).id = s.active.id ∧
    (s.acks (s.active.id % ackMax)).down = true ∧ (s.acks (s.active.id % ackMax)).done = false

section Ask

variable {s : Input} {id : ℕ}

theorem ask_eq (hpos : 1 ≤ id) (hlt : id < unsignedMax) :
    ask (some id) false s =
      match s.ackSlot id with
      | none => .err "err ack: no such press (or too old)"
      | some ack =>
        if ack.done then .done ack.id ack.firstFrame ack.lastFrame ack.downNs ack.upNs
        else if ack.down then .down ack.id ack.firstFrame ack.downNs
        else .queued ack.id := by
  have hid : (((id : ℤ)) % (unsignedMax : ℤ)).toNat = id := by
    rw [← Int.natCast_mod, Int.toNat_natCast, Nat.mod_eq_of_lt hlt]
  have hrange : ¬((id : ℤ) ≤ 0 ∨ false = true) := by
    simp only [Bool.false_eq_true, or_false]
    omega
  rw [ask, if_neg hrange]
  cases hslot : s.ackSlot id <;> simp only [hid, hslot]

theorem ask_queued (hpos : 1 ≤ id) (hlt : id < unsignedMax) (hid : (s.acks (id % ackMax)).id = id)
    (hdown : (s.acks (id % ackMax)).down = false) (hdone : (s.acks (id % ackMax)).done = false) :
    ask (some id) false s = .queued id := by
  rw [ask_eq hpos hlt, ackSlot, if_pos hid]
  simp [hdown, hdone, hid]

theorem ask_down (hpos : 1 ≤ id) (hlt : id < unsignedMax) (hid : (s.acks (id % ackMax)).id = id)
    (hdown : (s.acks (id % ackMax)).down = true) (hdone : (s.acks (id % ackMax)).done = false) :
    ask (some id) false s = .down id (s.acks (id % ackMax)).firstFrame (s.acks (id % ackMax)).downNs := by
  rw [ask_eq hpos hlt, ackSlot, if_pos hid]
  simp [hdown, hdone, hid]

end Ask

variable {s : Input} {n : ℕ} {h : History}

theorem ask_of_lost {id : ℕ} (hpos : 1 ≤ id) (hlt : id < unsignedMax)
    (hid : (s.acks (id % ackMax)).id ≠ id) :
    ask (some id) false s = .err "err ack: no such press (or too old)" := by
  rw [ask_eq hpos hlt, ackSlot, if_neg hid]

theorem Outstanding.ask_of_mem (ho : Outstanding s n) {t : Input} (hacks : t.acks = s.acks) {p : Press}
    (hp : p ∈ s.waiting) : ask (some p.id) false t = .queued p.id := by
  obtain ⟨hid, hdown, hdone⟩ := ho.queued p hp
  obtain ⟨i, hi, rfl⟩ := List.mem_iff_getElem.mp hp
  have hids := ho.ids i hi
  have hlen := ho.len
  have hlast := ho.last
  rw [waiting, RingQueue.length_contents] at hi
  rw [← hacks] at hid hdown hdone
  exact ask_queued (by omega) (by omega) hid hdown hdone

theorem Outstanding.tracked (ho : Outstanding h.input n) (hnone : h.cleared = []) : Tracked h := by
  refine ⟨fun p hp ↦ ho.ask_of_mem rfl hp, fun hphase ↦ ?_, ?_⟩
  · obtain ⟨hid, hdown, hdone⟩ := ho.down hphase
    obtain ⟨hactive, hpos⟩ := ho.active hphase
    have hlast := ho.last
    exact ⟨_, _, ask_down hpos (by omega) hid hdown hdone⟩
  · rw [hnone]
    nofun

theorem Outstanding.of_same {t : Input} (ho : Outstanding s n) (hacks : t.acks = s.acks)
    (hnextId : t.nextId = s.nextId) (hqueue : t.queue = s.queue)
    (hdown : t.phase = .down → s.phase = .down ∧ t.active = s.active) : Outstanding t n := by
  have hwaiting : t.waiting = s.waiting := by rw [waiting, waiting, hqueue]
  refine ⟨ho.first, ho.last, hnextId.trans ho.nextId, ?_, ?_, ?_, fun hphase ↦ ?_, ⟨?_, fun hphase ↦ ?_⟩,
    ?_, fun hphase ↦ ?_⟩
  · rw [hqueue]
    exact ho.head
  · rw [hqueue]
    exact ho.len
  · rw [hqueue]
    simp only [hwaiting]
    exact ho.ids
  · obtain ⟨hphase, hactive⟩ := hdown hphase
    rw [hqueue, hactive]
    exact ho.active hphase
  · rw [hqueue]
    exact ho.room.1
  · rw [hqueue]
    exact ho.room.2 (hdown hphase).1
  · rw [hacks, hwaiting]
    exact ho.queued
  · obtain ⟨hphase, hactive⟩ := hdown hphase
    rw [hacks, hactive]
    exact ho.down hphase

theorem Outstanding.id_of_mem (ho : Outstanding s n) {p : Press} (hp : p ∈ s.waiting) :
    n ≤ p.id + s.queue.len ∧ p.id < n := by
  obtain ⟨i, hi, rfl⟩ := List.mem_iff_getElem.mp hp
  have := ho.ids i hi
  rw [waiting, RingQueue.length_contents] at hi
  omega

theorem Outstanding.press (ho : Outstanding s n) (key : Fin payloadMax) (bits : Byte) (holdNs : ℤ)
    (hroom : s.queue.len < queueMax) (hid : s.nextId ≠ 0)
    (hrecords : s.phase = .down → s.queue.len + 1 < ackMax) :
    Outstanding (enqueue key bits holdNs s) (n + 1) := by
  have hlt : n < unsignedMax := by
    have hlast := ho.last
    have hnext := ho.nextId
    by_contra hge
    rw [show n = unsignedMax by omega, Nat.mod_self] at hnext
    exact hid hnext
  have hnext : s.nextId = n := ho.nextId.trans (Nat.mod_eq_of_lt hlt)
  have hwaiting : (enqueue key bits holdNs s).waiting = s.waiting ++ [⟨key, bits, holdNs, n⟩] := by
    rw [← hnext]
    exact RingQueue.contents_push hroom
  have hkept : ∀ id, n ≤ id + 31 → id < n →
      (enqueue key bits holdNs s).acks (id % ackMax) = s.acks (id % ackMax) := by
    intro id hle hlt
    refine update_of_ne (fun heq ↦ ?_) _ _
    rw [hnext, ackMax] at heq
    omega
  have hnew : (enqueue key bits holdNs s).acks (n % ackMax) = { noAck with id := n } := by
    rw [enqueue, hnext]
    exact update_self _ _ _
  have hlen : (enqueue key bits holdNs s).queue.len = s.queue.len + 1 := rfl
  have hwaitingLen : s.waiting.length = s.queue.len := RingQueue.length_contents
  have hfirst := ho.first
  simp only [queueMax, ackMax] at hroom hrecords
  refine ⟨Nat.succ_le_succ (Nat.zero_le n), hlt, ?_, ho.head, Nat.succ_lt_succ ho.len, ?_, ?_, ?_, ?_, ?_⟩
  · rw [enqueue, hnext]
  · intro i hi
    simp only [hwaiting] at hi ⊢
    rw [hlen]
    by_cases hold : i < s.waiting.length
    · rw [List.getElem_append_left hold]
      have := ho.ids i hold
      omega
    · have hlast : i = s.waiting.length := by
        rw [List.length_append, List.length_singleton] at hi
        omega
      subst hlast
      simp only [List.getElem_concat_length]
      omega
  · intro hphase
    obtain ⟨hactive, hpos⟩ := ho.active hphase
    refine ⟨?_, hpos⟩
    rw [hlen]
    change s.active.id + (s.queue.len + 1) + 1 = n + 1
    omega
  · rw [hlen]
    exact ⟨hroom, hrecords⟩
  · rw [hwaiting]
    refine List.forall_mem_append.mpr ⟨fun p hp ↦ ?_, List.forall_mem_singleton.mpr ?_⟩
    · obtain ⟨hle, hless⟩ := ho.id_of_mem hp
      rw [hkept p.id (by omega) hless]
      exact ho.queued p hp
    · rw [hnew]
      exact ⟨rfl, rfl, rfl⟩
  · intro hphase
    obtain ⟨hactive, -⟩ := ho.active hphase
    have hfew := hrecords hphase
    have hsame := hkept s.active.id (by omega) (by omega)
    have hdown := ho.down hphase
    rw [← hsame] at hdown
    exact hdown

theorem acks_note_of_ne {id other : ℕ} {change : Ack → Ack} (h : other % ackMax ≠ id % ackMax) :
    (note id change s).acks (other % ackMax) = s.acks (other % ackMax) := by
  by_cases hid : (s.acks (id % ackMax)).id = id
  · rw [acks_note change hid, update_of_ne h]
  · rw [note, ackSlot, if_neg hid]

theorem Outstanding.noted {id : ℕ} {change : Ack → Ack} (ho : Outstanding s n)
    (hother : ∀ p ∈ s.waiting, p.id % ackMax ≠ id % ackMax) (hphase : s.phase ≠ .down) :
    Outstanding (note id change s) n := by
  have hwaiting : (note id change s).waiting = s.waiting := by rw [waiting, waiting, queue_note]
  have hup : (note id change s).phase ≠ .down := by rwa [note_eq]
  refine ⟨ho.first, ho.last, ?_, ?_, ?_, ?_, fun h ↦ absurd h hup, ⟨?_, fun h ↦ absurd h hup⟩, ?_,
    fun h ↦ absurd h hup⟩
  · rw [note_eq]
    exact ho.nextId
  · rw [queue_note]
    exact ho.head
  · rw [queue_note]
    exact ho.len
  · simp only [hwaiting, queue_note]
    exact ho.ids
  · rw [queue_note]
    exact ho.room.1
  · rw [hwaiting]
    intro p hp
    rw [acks_note_of_ne (hother p hp)]
    exact ho.queued p hp

theorem Outstanding.start (ho : Outstanding s n) (hqueue : s.queue.len ≠ 0) (now : ℤ) :
    Outstanding
      (note s.queue.front.id (fun ack ↦ { ack with down := true, firstFrame := s.frames, downNs := now })
        { s with
          active := s.queue.front
          queue := s.queue.pop queueMax
          phase := .down
          phaseSince := now
          phaseFrames := 1 }) n := by
  have hwaiting : s.waiting = s.queue.front :: (s.queue.pop queueMax).contents queueMax :=
    RingQueue.contents_pop ho.head (Nat.pos_of_ne_zero hqueue)
  have hlen : (s.queue.pop queueMax).len = s.queue.len - 1 := rfl
  have hroom := ho.room.1
  have hless := ho.len
  have hids := ho.ids
  simp only [hwaiting] at hids
  have hfront : s.queue.front.id + s.queue.len = n := hids 0 (Nat.zero_lt_succ _)
  obtain ⟨hid, hdown, hdone⟩ := ho.queued s.queue.front (by rw [hwaiting]; exact List.mem_cons_self)
  have hnoted := acks_note (s := { s with
    active := s.queue.front
    queue := s.queue.pop queueMax
    phase := .down
    phaseSince := now
    phaseFrames := 1 })
    (fun ack ↦ { ack with down := true, firstFrame := s.frames, downNs := now }) hid
  have hlater : ∀ p ∈ (s.queue.pop queueMax).contents queueMax, n < p.id + s.queue.len ∧ p.id < n := by
    intro p hp
    obtain ⟨i, hi, rfl⟩ := List.mem_iff_getElem.mp hp
    have := hids (i + 1) (Nat.succ_lt_succ hi)
    rw [List.getElem_cons_succ] at this
    rw [RingQueue.length_contents, hlen] at hi
    omega
  generalize ht : note s.queue.front.id _ _ = t at hnoted ⊢
  have hactive : t.active = s.queue.front := by rw [← ht, note_eq]
  have hqueue' : t.queue = s.queue.pop queueMax := by rw [← ht, queue_note]
  have hnext : t.nextId = s.nextId := by rw [← ht, note_eq]
  refine ⟨ho.first, ho.last, hnext.trans ho.nextId, ?_, ?_, ?_, fun _ ↦ ?_, ?_, ?_, fun _ ↦ ?_⟩
  · rw [hqueue']
    exact RingQueue.head_pop_lt (by decide)
  · rw [hqueue']
    exact lt_of_le_of_lt (Nat.sub_le _ _) hless
  · simp only [waiting, hqueue']
    intro i hi
    have := hids (i + 1) (Nat.succ_lt_succ hi)
    rw [List.getElem_cons_succ] at this
    omega
  · rw [hactive, hqueue', hlen]
    omega
  · rw [hqueue', hlen]
    omega
  · rw [waiting, hqueue', hnoted]
    intro p hp
    obtain ⟨hlow, hhigh⟩ := hlater p hp
    rw [update_of_ne (fun heq ↦ by simp only [ackMax] at heq hroom; omega)]
    exact ho.queued p (by rw [hwaiting]; exact List.mem_cons_of_mem _ hp)
  · rw [hactive, hnoted, update_self]
    exact ⟨hid, rfl, hdone⟩

theorem Outstanding.turn {now : ℤ} {t : Input} {shown : Option Press} (ho : Outstanding s n)
    (hturn : Turn now s t shown) : Outstanding t n := by
  cases hturn with
  | idle hphase hqueue => exact ho
  | start hphase hqueue => exact ho.start hqueue now
  | hold hphase => exact ho.of_same rfl rfl rfl fun _ ↦ ⟨hphase, rfl⟩
  | release hphase hlong hhold =>
    have hrest : Outstanding { s with phase := .up, phaseSince := now, phaseFrames := 0 } n :=
      ho.of_same rfl rfl rfl nofun
    refine hrest.noted (fun p hp heq ↦ ?_) nofun
    obtain ⟨hle, hlt⟩ := ho.id_of_mem hp
    obtain ⟨hactive, -⟩ := ho.active hphase
    have hroom := ho.room.2 hphase
    simp only [ackMax] at heq hroom
    omega
  | rest hphase => exact ho.of_same rfl rfl rfl fun hdown ↦ absurd (hphase.symm.trans hdown) nofun
  | rested hphase hlong hgap => exact ho.of_same rfl rfl rfl nofun

theorem Outstanding.frame (ho : Outstanding h.input n) (payload : Payload) (now : ℤ) :
    Outstanding (h.step (.frame payload now)).input n := by
  obtain ⟨t, shown, hturn, hrun⟩ :=
    runPress_turn now ({ h.input with frames := h.input.frames + 1 } : Input)
  have hcounted : Outstanding { h.input with frames := h.input.frames + 1 } n :=
    ho.of_same rfl rfl rfl fun hphase ↦ ⟨hphase, rfl⟩
  have hstep : (h.step (.frame payload now)).input = t := by
    rw [History.step, apply]
    simp only [hrun]
  rw [hstep]
  exact hcounted.turn hturn

theorem Outstanding.clear (ho : Outstanding s n) (hempty : s.queue.len = 0) :
    Outstanding { s.clear with commands := s.commands + 1 } n := by
  refine ⟨ho.first, ho.last, ho.nextId, (by decide : 0 < queueMax), ho.first, nofun, fun hphase ↦ ?_,
    ⟨Nat.zero_le _, fun hphase ↦ ?_⟩, nofun, ho.down⟩
  · have := ho.active hphase
    rw [hempty] at this
    exact this
  · have := ho.room.2 hphase
    rw [hempty] at this
    exact this

/-- Where the new press and the old ones can still be asked about, their records are apart. -/
theorem Outstanding.apart_of_tracked (ho : Outstanding s n) {key : Fin payloadMax} {bits : Byte}
    {holdNs : ℤ} (hroom : s.queue.len < queueMax)
    (hinput : h.input = enqueue key bits holdNs s) (htracked : Tracked h) :
    s.nextId ≠ 0 ∧ (s.phase = .down → s.queue.len + 1 < ackMax) := by
  have hwaiting : h.input.waiting = s.waiting ++ [⟨key, bits, holdNs, s.nextId⟩] := by
    rw [hinput]
    exact RingQueue.contents_push hroom
  have hid : s.nextId ≠ 0 := by
    intro hzero
    have hlost := htracked.queued ⟨key, bits, holdNs, s.nextId⟩ (by rw [hwaiting]; simp)
    rw [hzero] at hlost
    cases hlost
  refine ⟨hid, fun hphase ↦ ?_⟩
  obtain ⟨hactive, hpos⟩ := ho.active hphase
  have hlast := ho.last
  have hnext : s.nextId = n := by
    have hmod := ho.nextId
    rcases Nat.lt_or_eq_of_le hlast with hlt | heq
    · exact hmod.trans (Nat.mod_eq_of_lt hlt)
    · rw [heq, Nat.mod_self] at hmod
      exact absurd hmod hid
  by_contra hfull
  have hsame : h.input.active = s.active := by rw [hinput]; rfl
  have hslot : s.active.id % ackMax = n % ackMax := by
    simp only [queueMax, ackMax] at hroom hfull ⊢
    omega
  have hrecord : (h.input.acks (s.active.id % ackMax)).id = n := by
    rw [hslot, hinput, enqueue, hnext]
    dsimp only
    rw [update_self]
  obtain ⟨firstFrame, downNs, hdown⟩ := htracked.down (by rw [hinput]; exact hphase)
  rw [hsame, ask_of_lost hpos (by omega) (by rw [hrecord]; omega)] at hdown
  cases hdown

theorem tracked_step (ho : Outstanding h.input n) (hnone : h.cleared = []) (e : Event) :
    (Recorded h.input e → (∃ m, Outstanding (h.step e).input m) ∧ (h.step e).cleared = []) ∧
      (Tracked (h.step e) → Recorded h.input e) := by
  cases e with
  | frame payload now => exact ⟨fun _ ↦ ⟨⟨n, ho.frame payload now⟩, hnone⟩, fun _ ↦ trivial⟩
  | command c =>
    have htold := command_told c h.input
    rw [History.step]
    generalize (h.input.command c).1 = t, (h.input.command c).2 = reply at htold ⊢
    cases htold with
    | clear =>
      constructor
      · intro hempty
        refine ⟨⟨n, ho.clear hempty⟩, ?_⟩
        dsimp only
        rw [hnone, List.nil_append]
        exact List.eq_nil_of_length_eq_zero (RingQueue.length_contents.trans hempty)
      · intro htracked
        by_contra hsome
        have hlength : h.input.waiting.length ≠ 0 := by
          rwa [waiting, RingQueue.length_contents]
        obtain ⟨p, hp⟩ := List.exists_mem_of_ne_nil _ (List.ne_nil_of_length_pos
          (Nat.pos_of_ne_zero hlength))
        refine htracked.cleared p (List.mem_append_right _ hp) ?_
        exact ho.ask_of_mem rfl hp
    | press htakes key bits holdNs hbits =>
      have hcounted : Outstanding { h.input with commands := h.input.commands + 1 } n :=
        ho.of_same rfl rfl rfl fun hphase ↦ ⟨hphase, rfl⟩
      constructor
      · intro hrecorded
        obtain ⟨hid, hrecords⟩ := hrecorded htakes
        refine ⟨⟨n + 1, hcounted.press key bits holdNs htakes.2.2 hid hrecords⟩, ?_⟩
        dsimp only
        rw [hnone]
        rfl
      · exact fun htracked _ ↦ hcounted.apart_of_tracked htakes.2.2 rfl htracked
    | other hclear hpress hreply held levelMask levelValue holdNs gapNs ht =>
      subst ht
      refine ⟨fun _ ↦ ⟨⟨n, ho.of_same rfl rfl rfl fun hphase ↦ ⟨hphase, rfl⟩⟩, ?_⟩, fun _ ↦ ?_⟩
      · dsimp only
        rw [hnone, dropped_of_ne hclear, List.append_nil]
      · cases c with
        | clear => exact absurd rfl hclear
        | press byte mask ms => exact fun htakes ↦ absurd htakes (hpress byte mask ms rfl)
        | _ => trivial

theorem outstanding_initial : Outstanding .initial 1 := by
  refine ⟨le_rfl, by decide, rfl, (by decide : 0 < queueMax), Nat.zero_lt_one, nofun, nofun,
    ⟨Nat.zero_le _, nofun⟩, nofun, nofun⟩

/-- Every press can be asked about throughout a run exactly if every step of it is recorded. -/
theorem tracked_iff (events : List Event) :
    Observer.Throughout History.step (fun h e ↦ Tracked (h.step e)) .initial events ↔
      Observer.Throughout History.step (fun h e ↦ Recorded h.input e) .initial events := by
  have hrun : ∀ (events : List Event) (h : History) (n : ℕ), Outstanding h.input n → h.cleared = [] →
      (Observer.Throughout History.step (fun h e ↦ Tracked (h.step e)) h events ↔
        Observer.Throughout History.step (fun h e ↦ Recorded h.input e) h events) := by
    intro events
    induction events with
    | nil => exact fun _ _ _ _ ↦ Iff.rfl
    | cons e events ih =>
      intro h n ho hnone
      obtain ⟨hkeeps, hneeds⟩ := tracked_step ho hnone e
      constructor
      · rintro ⟨htracked, hrest⟩
        have hrecorded := hneeds htracked
        obtain ⟨⟨m, hm⟩, hcleared⟩ := hkeeps hrecorded
        exact ⟨hrecorded, (ih _ m hm hcleared).mp hrest⟩
      · rintro ⟨hrecorded, hrest⟩
        obtain ⟨⟨m, hm⟩, hcleared⟩ := hkeeps hrecorded
        exact ⟨hm.tracked hcleared, (ih _ m hm hcleared).mpr hrest⟩
  exact hrun events .initial 1 outstanding_initial rfl

def pressLine : Event := .command (.press (some 18) (some 1) none)

/-- With a press down and the queue full, the record of the press that is down is taken for another;
and a press that a `clear` took out is still reported as queued. -/
theorem not_tracked :
    (¬∀ events, Tracked (History.run events)) ∧
      ask (some 1) false
          (History.run ([pressLine, .frame 0 0] ++ List.replicate 32 pressLine)).input =
        .err "err ack: no such press (or too old)" ∧
      ask (some 1) false (History.run [pressLine, .command .clear]).input = .queued 1 := by
  have hcleared : ask (some 1) false (History.run [pressLine, .command .clear]).input = .queued 1 := by
    decide +kernel
  refine ⟨fun h ↦ ?_, by decide +kernel, hcleared⟩
  have hlist : (History.run [pressLine, .command .clear]).cleared.map Press.id = [1] := by
    decide +kernel
  obtain ⟨p, hp, hid⟩ := List.mem_map.mp (hlist ▸ List.mem_singleton_self 1)
  have := (h [pressLine, .command .clear]).cleared p hp
  rw [hid] at this
  exact this hcleared

end Cdj2000Emulator.Panel
