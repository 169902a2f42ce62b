import Cdj2000Emulator.Panel.Input

namespace Cdj2000Emulator.Panel

open Function Library Library.Bytes

namespace Input

variable {s : Input} {id : ℕ} {change : Ack → Ack} {now : ℤ} {payload : Payload}

theorem note_eq (id : ℕ) (change : Ack → Ack) (s : Input) :
    note id change s = { s with acks := (note id change s).acks } := by
  unfold note
  split <;> rfl

@[simp] theorem queue_note : (note id change s).queue = s.queue := by
  rw [note_eq]

theorem acks_note (change : Ack → Ack) (h : (s.acks (id % ackMax)).id = id) :
    (note id change s).acks = update s.acks (id % ackMax) (change (s.acks (id % ackMax))) := by
  rw [note, ackSlot, if_pos h]

theorem note_phaseFrames (id : ℕ) (change : Ack → Ack) (s : Input) (n : ℕ) :
    { note id change s with phaseFrames := n } = note id change { s with phaseFrames := n } := by
  unfold note ackSlot
  by_cases h : (s.acks (id % ackMax)).id = id
  · simp only [if_pos h]
  · simp only [if_neg h]

def overlay (p : Press) (payload : Payload) : Payload :=
  update payload p.byte (payload p.byte ||| p.mask)

/-- What one frame does. -/
inductive Turn (now : ℤ) (s : Input) : Input → Option Press → Prop
  | idle (hphase : s.phase = .idle) (hqueue : s.queue.len = 0) : Turn now s s none
  | start (hphase : s.phase = .idle) (hqueue : s.queue.len ≠ 0) :
    Turn now s
      (note s.queue.front.id (fun ack ↦ { ack with down := true, firstFrame := s.frames, downNs := now })
        { s with
          active := s.queue.front
          queue := s.queue.pop queueMax
          phase := .down
          phaseSince := now
          phaseFrames := 1 })
      (some s.queue.front)
  | hold (hphase : s.phase = .down) :
    Turn now s { s with phaseFrames := (s.phaseFrames + 1) % unsignedMax } (some s.active)
  | release (hphase : s.phase = .down) (hframes : minFrames ≤ (s.phaseFrames + 1) % unsignedMax)
      (hhold : s.active.holdNs ≤ now - s.phaseSince) :
    Turn now s
      (note s.active.id (fun ack ↦ { ack with done := true, lastFrame := s.frames, upNs := now })
        { s with phase := .up, phaseSince := now, phaseFrames := 0 })
      (some s.active)
  | rest (hphase : s.phase = .up) :
    Turn now s { s with phaseFrames := (s.phaseFrames + 1) % unsignedMax } none
  | rested (hphase : s.phase = .up) (hframes : minFrames ≤ (s.phaseFrames + 1) % unsignedMax)
      (hgap : s.gapNs ≤ now - s.phaseSince) :
    Turn now s { s with phaseFrames := (s.phaseFrames + 1) % unsignedMax, phase := .idle } none

theorem advance_idle (h : s.phase = .idle) : s.advance payload now = (s, payload) := by
  simp only [advance, h]

theorem advance_down (h : s.phase = .down) :
    s.advance payload now =
      if minFrames ≤ (s.phaseFrames + 1) % unsignedMax ∧ s.active.holdNs ≤ now - s.phaseSince then
        (note s.active.id (fun ack ↦ { ack with done := true, lastFrame := s.frames, upNs := now })
          { s with phase := .up, phaseSince := now, phaseFrames := 0 }, overlay s.active payload)
      else
        ({ s with phaseFrames := (s.phaseFrames + 1) % unsignedMax }, overlay s.active payload) := by
  simp only [advance, h, overlay]

theorem advance_up (h : s.phase = .up) :
    s.advance payload now =
      if minFrames ≤ (s.phaseFrames + 1) % unsignedMax ∧ s.gapNs ≤ now - s.phaseSince then
        ({ s with phaseFrames := (s.phaseFrames + 1) % unsignedMax, phase := .idle }, payload)
      else ({ s with phaseFrames := (s.phaseFrames + 1) % unsignedMax }, payload) := by
  simp only [advance, h]

theorem advance_note (h : s.phase = .down) (hframes : s.phaseFrames = 0) :
    (note id change s).advance payload now =
      (note id change { s with phaseFrames := 1 }, overlay s.active payload) := by
  have hphase : (note id change s).phase = .down := by rw [note_eq, h]
  have hzero : (note id change s).phaseFrames = 0 := by rw [note_eq, hframes]
  have hactive : (note id change s).active = s.active := by rw [note_eq]
  have hshort : ¬minFrames ≤ (0 + 1) % unsignedMax := by decide
  have hover : ¬(minFrames ≤ ((note id change s).phaseFrames + 1) % unsignedMax ∧
      (note id change s).active.holdNs ≤ now - (note id change s).phaseSince) := by
    rw [hzero]
    exact fun hboth ↦ hshort hboth.1
  rw [advance_down hphase, if_neg hover, note_phaseFrames, hactive, hzero]
  rfl

theorem runPress_turn (now : ℤ) (s : Input) :
    ∃ t shown, Turn now s t shown ∧
      ∀ payload, s.runPress payload now = (t, shown.elim payload (overlay · payload)) := by
  have hstart : s.phase ≠ .idle ∨ s.queue.len = 0 → s.start now = s := by
    intro h
    refine if_neg fun hboth ↦ ?_
    rcases h with h | h
    · exact h hboth.1
    · exact hboth.2 h
  unfold runPress
  cases hphase : s.phase with
  | idle =>
    by_cases hqueue : s.queue.len = 0
    · rw [hstart (Or.inr hqueue)]
      exact ⟨s, none, .idle hphase hqueue, fun _ ↦ advance_idle hphase⟩
    · refine ⟨_, some s.queue.front, .start hphase hqueue, fun payload ↦ ?_⟩
      rw [start, if_pos ⟨hphase, hqueue⟩, advance_note rfl rfl]
      rfl
  | down =>
    rw [hstart (Or.inl (by rw [hphase]; nofun))]
    by_cases hover : minFrames ≤ (s.phaseFrames + 1) % unsignedMax ∧
        s.active.holdNs ≤ now - s.phaseSince
    · exact ⟨_, some s.active, .release hphase hover.1 hover.2,
        fun _ ↦ (advance_down hphase).trans (if_pos hover)⟩
    · exact ⟨_, some s.active, .hold hphase, fun _ ↦ (advance_down hphase).trans (if_neg hover)⟩
  | up =>
    rw [hstart (Or.inl (by rw [hphase]; nofun))]
    by_cases hover : minFrames ≤ (s.phaseFrames + 1) % unsignedMax ∧ s.gapNs ≤ now - s.phaseSince
    · exact ⟨_, none, .rested hphase hover.1 hover.2,
        fun _ ↦ (advance_up hphase).trans (if_pos hover)⟩
    · exact ⟨_, none, .rest hphase, fun _ ↦ (advance_up hphase).trans (if_neg hover)⟩

theorem apply_payload (payload : Payload) (now : ℤ) (s : Input) (i : Fin payloadMax) :
    (s.apply payload now).2 i =
      ((payload i ||| s.held i ||| (runPress 0 now { s with frames := s.frames + 1 }).2 i) &&&
        ~~~s.levelMask i) ||| s.levelValue i := by
  obtain ⟨t, shown, hturn, hrun⟩ := runPress_turn now ({ s with frames := s.frames + 1 } : Input)
  have hadd : ∀ (p : Payload), (shown.elim p (overlay · p)) i = p i ||| shown.elim 0 (overlay · 0) i := by
    intro p
    cases shown with
    | none => exact (BitVec.or_zero).symm
    | some press =>
      by_cases hi : i = press.byte
      · subst hi
        simp [overlay]
      · simp [overlay, update_of_ne hi]
  have hsame : ∀ p, runPress p now { s with frames := s.frames + 1 } =
      (t, shown.elim p (overlay · p)) := hrun
  have hlevels : t.levelMask = s.levelMask ∧ t.levelValue = s.levelValue := by
    cases hturn <;> first | exact ⟨rfl, rfl⟩ | (rw [note_eq]; exact ⟨rfl, rfl⟩)
  rw [apply]
  simp only [hsame, hlevels.1, hlevels.2]
  rw [hadd]

/-- A press that the channel takes: its words are well formed and the queue has room. -/
def Takes (s : Input) (byte mask : Option ℤ) (ms : Option (Option ℤ)) : Prop :=
  (keyOf byte mask).isSome ∧ (∀ m, ms = some m → (millis m).isSome) ∧ s.queue.len < queueMax

/-- What one command does to the queue and the records. -/
inductive Told (s : Input) : Command → Input → Reply → Prop
  | clear : Told s .clear { s.clear with commands := s.commands + 1 } .ok
  | press {byte mask : Option ℤ} {ms : Option (Option ℤ)} (htakes : Takes s byte mask ms)
      (key : Fin payloadMax) (bits : Byte) (holdNs : ℤ) (hbits : bits ≠ 0) :
    Told s (.press byte mask ms)
      (enqueue key bits holdNs { s with commands := s.commands + 1 }) (.pressed s.nextId)
  | other {c : Command} {t : Input} {reply : Reply} (hclear : c ≠ .clear)
      (hpress : ∀ byte mask ms, c = .press byte mask ms → ¬Takes s byte mask ms)
      (hreply : ∀ id, reply ≠ .pressed id) (held levelMask levelValue : Payload) (holdNs gapNs : ℤ)
      (ht : t = { s with
        held := held
        levelMask := levelMask
        levelValue := levelValue
        holdNs := holdNs
        gapNs := gapNs
        commands := s.commands + 1 }) :
    Told s c t reply

theorem keyOf_ne_zero {byte mask : Option ℤ} {key : Fin payloadMax} {bits : Byte}
    (h : keyOf byte mask = some (key, bits)) : bits ≠ 0 := by
  unfold keyOf at h
  split at h
  · split_ifs at h with hb hm
    rw [Option.some.injEq, Prod.mk.injEq] at h
    rw [← h.2]
    intro hzero
    have := congrArg BitVec.toNat hzero
    rw [BitVec.toNat_ofNat, BitVec.ofNat_eq_ofNat, BitVec.toNat_zero] at this
    omega
  · cases h

theorem ask_ne_pressed (id : Option ℤ) (more : Bool) (s : Input) (n : ℕ) :
    ask id more s ≠ .pressed n := by
  unfold ask
  repeat' split
  all_goals nofun

theorem command_told (c : Command) (s : Input) :
    Told s c (s.command c).1 (s.command c).2 := by
  cases c with
  | clear => exact .clear
  | level _ _ _ _ | hold _ | gap _ | down _ _ | up _ _ =>
    unfold command
    dsimp only
    split
    · exact .other nofun nofun nofun _ _ _ _ _ rfl
    · exact .other nofun nofun nofun _ _ _ _ _ rfl
  | press byte mask ms =>
    have hrefused : ∀ {reply : Reply}, ¬Takes s byte mask ms → (∀ id, reply ≠ .pressed id) →
        Told s (.press byte mask ms) { s with commands := s.commands + 1 } reply := by
      intro reply hnot hreply
      refine .other nofun (fun byte' mask' ms' heq ↦ ?_) hreply _ _ _ _ _ rfl
      cases heq
      exact hnot
    unfold command press
    dsimp only
    split
    · next hkey =>
      exact hrefused (fun h ↦ by rw [Takes, hkey] at h; exact absurd h.1 nofun) nofun
    · next key bits hkey =>
      split
      · next hms =>
        refine hrefused (fun h ↦ ?_) nofun
        cases ms with
        | none => cases hms
        | some m =>
          rw [Option.map_eq_none_iff] at hms
          have := h.2.1 m rfl
          rw [hms] at this
          cases this
      · next holdNs hms =>
        split_ifs with hfull
        · exact hrefused (fun h ↦ absurd h.2.2 (Nat.not_lt.mpr hfull)) nofun
        · refine .press ⟨by rw [hkey]; rfl, fun m hm ↦ ?_, Nat.lt_of_not_le hfull⟩ key bits holdNs
            (keyOf_ne_zero hkey)
          subst hm
          obtain ⟨t, ht, -⟩ := Option.map_eq_some_iff.mp hms
          rw [ht]
          rfl
  | ack id more =>
    exact .other nofun nofun (ask_ne_pressed id more _) _ _ _ _ _ rfl
  | other => exact .other nofun nofun nofun _ _ _ _ _ rfl

end Input

end Cdj2000Emulator.Panel
