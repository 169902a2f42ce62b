import Cdj2000Emulator.Panel.Frames

namespace Cdj2000Emulator.Panel

open Function Library Library.Bytes Input

/-- A command from the socket, or a frame that is built. -/
inductive Event where
  | command (c : Command)
  | frame (payload : Payload) (now : ℤ)

def Event.time : Event → Option ℤ
  | command _ => none
  | frame _ now => some now

/-- What is seen of a frame: its time, the gap that is set, and what the presses add to it. -/
structure Frame where
  now : ℤ
  gapNs : ℤ
  presses : Payload

/-- A run: the state it leads to, the frames, the presses that were accepted and those that a
`clear` took out. -/
structure History where
  input : Input
  frames : List Frame
  accepted : List Press
  cleared : List Press

namespace History

def initial : History := ⟨.initial, [], [], []⟩

def taken (s t : Input) : Reply → List Press
  | .pressed _ => t.waiting.drop s.waiting.length
  | _ => []

def dropped (s : Input) : Command → List Press
  | .clear => s.waiting
  | _ => []

def step (h : History) : Event → History
  | .command c =>
    { input := (h.input.command c).1
      frames := h.frames
      accepted := h.accepted ++ taken h.input (h.input.command c).1 (h.input.command c).2
      cleared := h.cleared ++ dropped h.input c }
  | .frame payload now =>
    { h with
      input := (h.input.apply payload now).1
      frames := h.frames ++ [⟨now, h.input.gapNs,
        (({ h.input with frames := h.input.frames + 1 } : Input).runPress 0 now).2⟩] }

def run (events : List Event) : History := events.foldl step initial

end History

/-- The frames of one press: those that show it, the first apart, and those after them that show
no press. -/
structure Stroke where
  press : Press
  first : Frame
  more : List Frame
  up : List Frame

namespace Stroke

variable {st : Stroke}

def down (st : Stroke) : List Frame := st.first :: st.more

def frames (st : Stroke) : List Frame := st.down ++ st.up

def last (st : Stroke) : Frame := st.more.getLastD st.first

structure Sound (st : Stroke) : Prop where
  mask : st.press.mask ≠ 0
  shown : ∀ f ∈ st.down, f.presses = overlay st.press 0
  absent : ∀ f ∈ st.up, f.presses = 0

def Held (st : Stroke) : Prop := 2 ≤ st.down.length ∧ st.press.holdNs ≤ st.last.now - st.first.now

/-- Absent from two frames at least, and for the gap that was set when the pause ended. -/
def Rested (st : Stroke) : Prop :=
  2 ≤ st.up.length ∧ ∃ f ∈ st.up, f.gapNs ≤ f.now - st.last.now

def hold (f : Frame) (st : Stroke) : Stroke := { st with more := st.more ++ [f] }

def pause (f : Frame) (st : Stroke) : Stroke := { st with up := st.up ++ [f] }

variable {f : Frame}

@[simp] theorem last_hold : (st.hold f).last = f := by
  rw [last, hold, List.getLastD_concat]

@[simp] theorem last_pause : (st.pause f).last = st.last := rfl

theorem length_down_hold : (st.hold f).down.length = st.down.length + 1 := by
  simp [down, hold]

theorem frames_hold (h : st.up = []) : (st.hold f).frames = st.frames ++ [f] := by
  simp [frames, down, hold, h]

theorem frames_pause : (st.pause f).frames = st.frames ++ [f] := by
  simp [frames, down, pause]

theorem Sound.hold (h : st.Sound) (hf : f.presses = overlay st.press 0) : (st.hold f).Sound := by
  refine ⟨h.mask, fun g hg ↦ ?_, h.absent⟩
  rw [down, Stroke.hold, ← List.cons_append, List.mem_append, List.mem_singleton] at hg
  rcases hg with hg | rfl
  · exact h.shown g hg
  · exact hf

theorem Sound.pause (h : st.Sound) (hf : f.presses = 0) : (st.pause f).Sound := by
  refine ⟨h.mask, h.shown, fun g hg ↦ ?_⟩
  rw [Stroke.pause, List.mem_append, List.mem_singleton] at hg
  rcases hg with hg | rfl
  · exact h.absent g hg
  · exact hf

theorem Rested.pause (h : st.Rested) : (st.pause f).Rested := by
  obtain ⟨hlength, g, hg, hgap⟩ := h
  refine ⟨?_, g, List.mem_append_left _ hg, hgap⟩
  rw [Stroke.pause, List.length_append]
  exact Nat.le_add_right_of_le hlength

end Stroke

/-- What the phase says of the strokes so far. -/
inductive Stage (s : Input) : List Stroke → Prop
  | idle {strokes : List Stroke} (hphase : s.phase = .idle)
      (hpast : ∀ st ∈ strokes, st.Held ∧ st.Rested) : Stage s strokes
  | down {past : List Stroke} {st : Stroke} (hphase : s.phase = .down)
      (hpast : ∀ st ∈ past, st.Held ∧ st.Rested) (hactive : st.press = s.active) (hup : st.up = [])
      (hsince : st.first.now = s.phaseSince) (hframes : s.phaseFrames ≤ st.down.length) :
    Stage s (past ++ [st])
  | up {past : List Stroke} {st : Stroke} (hphase : s.phase = .up)
      (hpast : ∀ st ∈ past, st.Held ∧ st.Rested) (hheld : st.Held)
      (hsince : st.last.now = s.phaseSince) (hframes : s.phaseFrames ≤ st.up.length) :
    Stage s (past ++ [st])

/-- The frames of a run are those of its strokes, after those before the first press. -/
structure Plays (h : History) (lead : List Frame) (strokes : List Stroke) : Prop where
  frames : h.frames = lead ++ strokes.flatMap Stroke.frames
  lead : ∀ f ∈ lead, f.presses = 0
  sound : ∀ st ∈ strokes, st.Sound
  stage : Stage h.input strokes
  masks : ∀ p ∈ h.input.waiting, p.mask ≠ 0
  head : h.input.queue.head < queueMax
  room : h.input.queue.len ≤ queueMax
  fifo : (strokes.map Stroke.press ++ h.input.waiting).Sublist h.accepted
  all : h.accepted.Perm (strokes.map Stroke.press ++ (h.cleared ++ h.input.waiting))

theorem Stage.of_phase {s t : Input} {strokes : List Stroke} (h : Stage s strokes)
    (hphase : t.phase = s.phase) (hactive : t.active = s.active) (hsince : t.phaseSince = s.phaseSince)
    (hframes : t.phaseFrames = s.phaseFrames) : Stage t strokes := by
  cases h with
  | idle hp hpast => exact .idle (hphase.trans hp) hpast
  | down hp hpast ha hup hs hf =>
    exact .down (hphase.trans hp) hpast (ha.trans hactive.symm) hup (hs.trans hsince.symm)
      (hframes.le.trans hf)
  | up hp hpast hheld hs hf =>
    exact .up (hphase.trans hp) hpast hheld (hs.trans hsince.symm) (hframes.le.trans hf)

theorem Stage.note {s : Input} {strokes : List Stroke} (h : Stage s strokes) (id : ℕ)
    (change : Ack → Ack) : Stage (note id change s) strokes :=
  h.of_phase (by rw [note_eq]) (by rw [note_eq]) (by rw [note_eq]) (by rw [note_eq])

/-- While no press is down or in its pause, all are over. -/
theorem Stage.past_of_idle {s : Input} {strokes : List Stroke} (h : Stage s strokes)
    (hphase : s.phase = .idle) : ∀ st ∈ strokes, st.Held ∧ st.Rested := by
  cases h with
  | idle _ hpast => exact hpast
  | down hdown => cases hphase.symm.trans hdown
  | up hup => cases hphase.symm.trans hup

variable {h : History} {lead : List Frame} {strokes : List Stroke}

theorem taken_of_ne {s t : Input} {reply : Reply} (h : ∀ id, reply ≠ .pressed id) :
    History.taken s t reply = [] := by
  cases reply with
  | pressed id => exact absurd rfl (h id)
  | _ => rfl

theorem dropped_of_ne {s : Input} {c : Command} (h : c ≠ .clear) : History.dropped s c = [] := by
  cases c with
  | clear => exact absurd rfl h
  | _ => rfl

theorem Plays.command (hp : Plays h lead strokes) (c : Command) :
    Plays (h.step (.command c)) lead strokes := by
  have htold := command_told c h.input
  rw [History.step]
  generalize (h.input.command c).1 = t, (h.input.command c).2 = reply at htold ⊢
  cases htold with
  | clear =>
    have hfifo : (strokes.map Stroke.press ++ ([] : List Press)).Sublist (h.accepted ++ []) := by
      rw [List.append_nil, List.append_nil]
      exact (List.sublist_append_left _ _).trans hp.fifo
    have hall : (h.accepted ++ []).Perm
        (strokes.map Stroke.press ++ ((h.cleared ++ h.input.waiting) ++ [])) := by
      rw [List.append_nil, List.append_nil]
      exact hp.all
    exact ⟨hp.frames, hp.lead, hp.sound, hp.stage.of_phase rfl rfl rfl rfl, nofun,
      (by decide : 0 < queueMax), Nat.zero_le _, hfifo, hall⟩
  | press htakes key bits holdNs hbits =>
    have hroom := htakes.2.2
    have hpush : (enqueue key bits holdNs { h.input with commands := h.input.commands + 1 }).waiting =
        h.input.waiting ++ [⟨key, bits, holdNs, h.input.nextId⟩] := RingQueue.contents_push hroom
    have htaken : ∀ id, History.taken h.input
        (enqueue key bits holdNs { h.input with commands := h.input.commands + 1 }) (.pressed id) =
        [⟨key, bits, holdNs, h.input.nextId⟩] := by
      intro id
      rw [History.taken, hpush, List.drop_left]
    rw [htaken, dropped_of_ne (c := .press _ _ _) nofun, List.append_nil]
    refine ⟨hp.frames, hp.lead, hp.sound, hp.stage.of_phase rfl rfl rfl rfl, ?_, hp.head, hroom, ?_,
      ?_⟩
    · dsimp only
      rw [hpush]
      exact List.forall_mem_append.mpr ⟨hp.masks, List.forall_mem_singleton.mpr hbits⟩
    · dsimp only
      rw [hpush, ← List.append_assoc]
      exact hp.fifo.append_right _
    · dsimp only
      rw [hpush, ← List.append_assoc h.cleared, ← List.append_assoc]
      exact hp.all.append_right _
  | other hclear hpress hreply held levelMask levelValue holdNs gapNs ht =>
    subst ht
    rw [taken_of_ne hreply, dropped_of_ne hclear, List.append_nil, List.append_nil]
    exact ⟨hp.frames, hp.lead, hp.sound, hp.stage.of_phase rfl rfl rfl rfl, hp.masks, hp.head,
      hp.room, hp.fifo, hp.all⟩

theorem blank_frame {f : Frame} (hf : f.presses = 0) (hlead : ∀ g ∈ lead, g.presses = 0)
    (hsound : ∀ st ∈ strokes, st.Sound) (hpast : ∀ st ∈ strokes, st.Held ∧ st.Rested) :
    ∃ (lead' : List Frame) (strokes' : List Stroke), lead ++ strokes.flatMap Stroke.frames ++ [f] =
        lead' ++ strokes'.flatMap Stroke.frames ∧ (∀ g ∈ lead', g.presses = 0) ∧
      (∀ st ∈ strokes', st.Sound) ∧ (∀ st ∈ strokes', st.Held ∧ st.Rested) ∧
      strokes'.map Stroke.press = strokes.map Stroke.press := by
  rcases List.eq_nil_or_concat' strokes with rfl | ⟨past, st, rfl⟩
  · refine ⟨lead ++ [f], [], by simp, ?_, hsound, hpast, rfl⟩
    exact List.forall_mem_append.mpr ⟨hlead, List.forall_mem_singleton.mpr hf⟩
  · rw [List.forall_mem_append, List.forall_mem_singleton] at hsound hpast
    refine ⟨lead, past ++ [st.pause f], ?_, hlead, ?_, ?_, ?_⟩
    · simp [Stroke.frames_pause]
    · exact List.forall_mem_append.mpr ⟨hsound.1, List.forall_mem_singleton.mpr (hsound.2.pause hf)⟩
    · exact List.forall_mem_append.mpr
        ⟨hpast.1, List.forall_mem_singleton.mpr ⟨hpast.2.1, hpast.2.2.pause⟩⟩
    · rw [List.map_append, List.map_append]
      rfl

theorem Plays.last {past : List Stroke} {st st' : Stroke} {f : Frame} {t : Input}
    (hp : Plays h lead (past ++ [st])) (hframes : st'.frames = st.frames ++ [f])
    (hpress : st'.press = st.press) (hst : st.Sound → st'.Sound) (hqueue : t.queue = h.input.queue)
    (hstage : Stage t (past ++ [st'])) :
    Plays { h with input := t, frames := h.frames ++ [f] } lead (past ++ [st']) := by
  obtain ⟨hpast, hlast⟩ := List.forall_mem_append.mp hp.sound
  have hmap : (past ++ [st']).map Stroke.press = (past ++ [st]).map Stroke.press := by
    rw [List.map_append, List.map_append, List.map_singleton, List.map_singleton, hpress]
  have hwaiting : t.waiting = h.input.waiting := by rw [waiting, waiting, hqueue]
  refine ⟨?_, hp.lead, ?_, hstage, ?_, ?_, ?_, ?_, ?_⟩
  · simp [hp.frames, hframes]
  · exact List.forall_mem_append.mpr
      ⟨hpast, List.forall_mem_singleton.mpr (hst (List.forall_mem_singleton.mp hlast))⟩
  · rw [hwaiting]
    exact hp.masks
  · rw [hqueue]
    exact hp.head
  · rw [hqueue]
    exact hp.room
  · rw [hmap, hwaiting]
    exact hp.fifo
  · rw [hmap, hwaiting]
    exact hp.all

theorem Plays.frame (hp : Plays h lead strokes) (payload : Payload) (now : ℤ) :
    ∃ lead' strokes', Plays (h.step (.frame payload now)) lead' strokes' := by
  obtain ⟨t, shown, hturn, hrun⟩ :=
    runPress_turn now ({ h.input with frames := h.input.frames + 1 } : Input)
  have hstep : h.step (.frame payload now) = { h with
      input := t
      frames := h.frames ++ [⟨now, h.input.gapNs, shown.elim 0 (overlay · 0)⟩] } := by
    rw [History.step, apply]
    simp only [hrun]
  rw [hstep]
  have hframes := hp.frames
  have hsound := hp.sound
  have hstage := hp.stage
  cases hturn with
  | idle hphase hqueue =>
    obtain ⟨lead', strokes', hlog, hlead, hsound', hpast, hmap⟩ := blank_frame
      (f := ⟨now, h.input.gapNs, 0⟩) rfl hp.lead hsound (hstage.past_of_idle hphase)
    refine ⟨lead', strokes', ?_, hlead, hsound', .idle hphase hpast, hp.masks, hp.head, hp.room, ?_, ?_⟩
    · rw [hframes]
      exact hlog
    · rw [hmap]
      exact hp.fifo
    · rw [hmap]
      exact hp.all
  | start hphase hqueue =>
    have hfront : h.input.waiting =
        h.input.queue.front :: (h.input.queue.pop queueMax).contents queueMax :=
      RingQueue.contents_pop hp.head (Nat.pos_of_ne_zero hqueue)
    have hmasks := hp.masks
    have hfifo := hp.fifo
    have hall := hp.all
    rw [hfront] at hmasks hfifo hall
    rw [List.forall_mem_cons] at hmasks
    have hnew : (⟨h.input.queue.front, ⟨now, h.input.gapNs, overlay h.input.queue.front 0⟩, [], []⟩ :
        Stroke).Sound := by
      refine ⟨hmasks.1, fun f hf ↦ ?_, fun f hf ↦ absurd hf List.not_mem_nil⟩
      rw [List.mem_singleton.mp hf]
    refine ⟨lead, strokes ++ [⟨h.input.queue.front, ⟨now, h.input.gapNs, overlay h.input.queue.front 0⟩,
      [], []⟩], ?_, hp.lead, ?_, ?_, ?_, ?_, ?_, ?_, ?_⟩
    · simp [hframes, Stroke.frames, Stroke.down]
    · exact List.forall_mem_append.mpr ⟨hsound, List.forall_mem_singleton.mpr hnew⟩
    · exact (Stage.down rfl (hstage.past_of_idle hphase) rfl rfl rfl le_rfl).note _ _
    · rw [waiting, queue_note]
      exact hmasks.2
    · rw [queue_note]
      exact RingQueue.head_pop_lt (by decide)
    · rw [queue_note]
      exact (Nat.sub_le _ _).trans hp.room
    · rw [waiting, queue_note, List.map_append, List.append_assoc]
      exact hfifo
    · rw [waiting, queue_note, List.map_append, List.append_assoc]
      refine hall.trans (List.Perm.append_left _ ?_)
      exact List.perm_middle
  | hold hphase =>
    cases hstage with
    | idle hidle => cases hidle.symm.trans hphase
    | up hup => cases hup.symm.trans hphase
    | @down past st _ hpast hactive hup hsince hless =>
      refine ⟨lead, _, hp.last (Stroke.frames_hold hup) rfl (fun hst ↦ hst.hold ?_) rfl
        (.down hphase hpast hactive hup hsince ?_)⟩
      · rw [hactive]
        rfl
      · rw [Stroke.length_down_hold]
        exact (Nat.mod_le _ _).trans (Nat.succ_le_succ hless)
  | release hphase hlong hhold =>
    cases hstage with
    | idle hidle => cases hidle.symm.trans hphase
    | up hup => cases hup.symm.trans hphase
    | @down past st _ hpast hactive hup hsince hless =>
      have hheld : (st.hold ⟨now, h.input.gapNs, overlay h.input.active 0⟩).Held := by
        refine ⟨?_, ?_⟩
        · rw [Stroke.length_down_hold]
          exact hlong.trans ((Nat.mod_le _ _).trans (Nat.succ_le_succ hless))
        · rw [Stroke.last_hold, Stroke.hold, hactive, hsince]
          exact hhold
      refine ⟨lead, _, hp.last (Stroke.frames_hold hup) rfl (fun hst ↦ hst.hold ?_) queue_note
        ((Stage.up rfl hpast hheld ?_ ?_).note _ _)⟩
      · rw [hactive]
        rfl
      · rw [Stroke.last_hold]
      · exact Nat.zero_le _
  | rest hphase =>
    cases hstage with
    | idle hidle => cases hidle.symm.trans hphase
    | down hdown => cases hdown.symm.trans hphase
    | @up past st _ hpast hheld hsince hless =>
      refine ⟨lead, _, hp.last Stroke.frames_pause rfl (fun hst ↦ hst.pause rfl) rfl
        (.up hphase hpast hheld hsince ?_)⟩
      rw [Stroke.pause, List.length_append]
      exact (Nat.mod_le _ _).trans (Nat.succ_le_succ hless)
  | rested hphase hlong hgap =>
    cases hstage with
    | idle hidle => cases hidle.symm.trans hphase
    | down hdown => cases hdown.symm.trans hphase
    | @up past st _ hpast hheld hsince hless =>
      have hrested : (st.pause ⟨now, h.input.gapNs, 0⟩).Rested := by
        refine ⟨?_, _, List.mem_append_right _ (List.mem_singleton_self _), ?_⟩
        · rw [Stroke.pause, List.length_append]
          exact hlong.trans ((Nat.mod_le _ _).trans (Nat.succ_le_succ hless))
        · rw [Stroke.last_pause, hsince]
          exact hgap
      exact ⟨lead, _, hp.last Stroke.frames_pause rfl (fun hst ↦ hst.pause rfl) rfl
        (.idle rfl (List.forall_mem_append.mpr
          ⟨hpast, List.forall_mem_singleton.mpr ⟨hheld, hrested⟩⟩))⟩

section Edges

/-- The frames in which a bit rises that is as `before` before the first. -/
def rising (bit : Payload → Bool) : Bool → List Frame → ℕ
  | _, [] => 0
  | before, f :: frames =>
    (if bit f.presses && !before then 1 else 0) + rising bit (bit f.presses) frames

variable {bit : Payload → Bool} {fs rest : List Frame} {before level : Bool}

end Edges

theorem Stage.past {s : Input} {strokes past rest : List Stroke} {st next : Stroke}
    (h : Stage s strokes) (happend : strokes = past ++ st :: next :: rest) : st.Held ∧ st.Rested := by
  have hpast : ∀ {before : List Stroke} {final : Stroke},
      (∀ st ∈ before, st.Held ∧ st.Rested) → before ++ [final] = past ++ st :: next :: rest →
      st.Held ∧ st.Rested := by
    intro before final hbefore heq
    obtain ⟨front, last, hlast⟩ := List.eq_nil_or_concat' (next :: rest) |>.resolve_left nofun
    rw [hlast, ← List.cons_append, ← List.append_assoc] at heq
    have := (List.append_inj' heq rfl).1
    exact hbefore st (by rw [this]; simp)
  cases h with
  | idle _ hall => exact hall st (by rw [happend]; simp)
  | down _ hall => exact hpast hall happend
  | up _ hall => exact hpast hall happend

end Cdj2000Emulator.Panel
