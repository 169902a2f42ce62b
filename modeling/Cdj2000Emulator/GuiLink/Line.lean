import Cdj2000Emulator.GuiLink.Model
import Cdj2000Emulator.Library.Traces

namespace Cdj2000Emulator.GuiLink

open Library Library.Bytes Library.Traces

section Traces

variable (trace trace' : List Label)

def received : List Byte :=
  trace.flatMap fun
    | .received data => data
    | _ => []

def arrivals : List Frame :=
  trace.filterMap fun
    | .arrived frame => some frame
    | _ => none

def departures : List Frame :=
  trace.filterMap fun
    | .dropped frame => some frame
    | .delivered _ _ frame _ => some frame
    | _ => none

def deliveries : List ℤ :=
  trace.filterMap fun
    | .delivered now _ _ _ => some now
    | _ => none

@[simp] theorem received_append : received (trace ++ trace') = received trace ++ received trace' :=
  List.flatMap_append

@[simp] theorem arrivals_append : arrivals (trace ++ trace') = arrivals trace ++ arrivals trace' :=
  List.filterMap_append

@[simp] theorem departures_append : departures (trace ++ trace') = departures trace ++ departures trace' :=
  List.filterMap_append

@[simp] theorem deliveries_append : deliveries (trace ++ trace') = deliveries trace ++ deliveries trace' :=
  List.filterMap_append

end Traces

/-- The line to the guest as it should be: the bytes of the frame that is not complete yet, the frames
that wait, when the frame was delivered that must not be replaced yet, and when the last one was. -/
structure Line where
  staged : List Byte
  waiting : List Frame
  busy : Option ℤ
  last : Option ℤ

namespace Line

variable {cfg : Config} {L : ℕ} {w w' : Line} {trace rest : List Label} {l : Label}

def start : Line := { staged := [], waiting := [], busy := none, last := none }

/-- The watchdog frees a frame 50 ms after it was delivered. -/
def Timely (w : Line) (now : ℤ) : Cause → Prop
  | .expired => ∃ d, w.busy = some d ∧ d + Link.watchdogNs ≤ now
  | _ => True

/-- Frames are delivered from the head of the queue, one for each time the line is freed and with the
gap between them, and dropped from it only when there are too many. -/
inductive Takes (cfg : Config) (L : ℕ) : Line → Label → Line → Prop
  | received {w : Line} (data : List Byte) : w.waiting.length ≤ Link.queueMax →
      Takes cfg L w (.received data) { w with staged := w.staged ++ data }
  | arrived {w : Line} : w.waiting.length ≤ Link.queueMax → w.staged.length = L →
      Takes cfg L w (.arrived w.staged) { w with staged := [], waiting := w.waiting ++ [w.staged] }
  | dropped {w : Line} {oldest : Frame} {rest : List Frame} :
      w.waiting = oldest :: rest → rest.length = Link.queueMax →
      Takes cfg L w (.dropped oldest) { w with waiting := rest }
  | freed {w : Line} {now : ℤ} {cause : Cause} : w.waiting.length ≤ Link.queueMax → w.Timely now cause →
      Takes cfg L w (.freed now cause) { w with busy := none }
  | delivered {w : Line} {now next : ℤ} {oldest : Frame} {rest : List Frame} (buffer : BitVec 32) :
      w.waiting = oldest :: rest → w.waiting.length ≤ Link.queueMax → w.busy = none →
      (∀ l, w.last = some l → l + cfg.gapNs ≤ now) →
      Takes cfg L w (.delivered now buffer oldest (rewrite cfg now next oldest).1)
        { w with waiting := rest, busy := some now, last := some now }

abbrev Follows (cfg : Config) (L : ℕ) : Line → List Label → Line → Prop := Path (Takes cfg L)

/-- What comes in goes out in order. -/
theorem Follows.frames (h : Follows cfg L w trace w') :
    w.staged ++ received trace = (arrivals trace).flatten ++ w'.staged ∧
    w.waiting ++ arrivals trace = departures trace ++ w'.waiting ∧ ∀ f ∈ arrivals trace, f.length = L := by
  induction h with
  | nil => exact ⟨List.append_nil _, List.append_nil _, fun _ hf ↦ absurd hf List.not_mem_nil⟩
  | cons hs _ ih =>
    obtain ⟨hbytes, hframes, hlen⟩ := ih
    cases hs with
    | received data _ =>
      exact ⟨(List.append_assoc _ _ _).symm.trans hbytes, hframes, hlen⟩
    | arrived _ hwhole =>
      refine ⟨?_, ?_, ?_⟩
      · exact (congrArg (_ ++ ·) hbytes).trans (List.append_assoc _ _ _).symm
      · exact (List.append_assoc _ [_] _).symm.trans hframes
      · intro f hf
        obtain rfl | hf := List.mem_cons.mp hf
        · exact hwhole
        · exact hlen f hf
    | dropped hhead _ =>
      refine ⟨hbytes, ?_, hlen⟩
      rw [hhead]
      exact congrArg (_ :: ·) hframes
    | freed _ _ => exact ⟨hbytes, hframes, hlen⟩
    | delivered _ hhead _ _ _ =>
      refine ⟨hbytes, ?_, hlen⟩
      rw [hhead]
      exact congrArg (_ :: ·) hframes

theorem Follows.spaced (h : Follows cfg L w trace w') :
    (w.last.toList ++ deliveries trace).IsChain (· + (cfg.gapNs : ℤ) ≤ ·) := by
  induction h with
  | @nil w =>
    cases w.last with
    | none => exact .nil
    | some l => exact .singleton l
  | @cons w _ _ _ es hs _ ih =>
    cases hs with
    | received _ _ | arrived _ _ | dropped _ _ | freed _ _ => exact ih
    | delivered _ _ _ _ hgap =>
      cases hlast : w.last with
      | none => exact ih
      | some l => exact .cons_cons (hgap l hlast) ih

theorem Follows.dropped {frame : Frame} (h : Follows cfg L w (trace ++ .dropped frame :: rest) w')
    (hw : w.waiting.length ≤ Link.queueMax) : ∃ before newest later, trace = before ++ [.arrived newest] ∧
      w.waiting ++ arrivals before = departures before ++ frame :: later ∧ later.length + 1 = Link.queueMax := by
  obtain ⟨v, hbefore, hafter⟩ := h.split
  cases hafter with
  | cons hs _ =>
    cases hs with
    | dropped hhead hfull =>
      have hlen : v.waiting.length = Link.queueMax + 1 := by rw [hhead, List.length_cons, hfull]
      have hne : trace ≠ [] := by
        rintro rfl
        cases hbefore with
        | nil => omega
      obtain ⟨before, l, r, rfl, hpath, hlast⟩ := hbefore.last hne
      have hframes := (Follows.frames hpath).2.1
      cases hlast with
      | received _ hle | freed hle _ =>
        dsimp only at hlen
        omega
      | dropped hhead' hfull' =>
        dsimp only at hlen
        omega
      | delivered _ hhead' hle _ _ =>
        rw [hhead', List.length_cons] at hle
        dsimp only at hlen
        omega
      | arrived _ _ =>
        dsimp only at hhead hlen
        cases hwaiting : r.waiting with
        | nil =>
          rw [hwaiting] at hlen
          exact absurd hlen (show 1 ≠ Link.queueMax + 1 by decide)
        | cons oldest later =>
          rw [hwaiting, List.cons_append, List.cons.injEq] at hhead
          rw [hwaiting, List.length_append, List.length_cons, List.length_singleton] at hlen
          rw [hhead.1] at hwaiting
          refine ⟨before, r.staged, later, rfl, ?_, Nat.succ_injective hlen⟩
          rw [hframes, hwaiting]

theorem Follows.copies (h : Follows cfg L w trace w') {now : ℤ} {buffer : BitVec 32} {frame copy : Frame}
    (hd : .delivered now buffer frame copy ∈ trace) : ∃ next, copy = (rewrite cfg now next frame).1 := by
  induction h with
  | nil => exact absurd hd List.not_mem_nil
  | cons hs _ ih =>
    obtain rfl | hd := List.mem_cons.mp hd
    · cases hs with
      | delivered _ _ _ _ _ => exact ⟨_, rfl⟩
    · exact ih hd

theorem Follows.held {d now : ℤ} {buffer : BitVec 32} {frame copy : Frame}
    (h : Follows cfg L w (trace ++ .delivered now buffer frame copy :: rest) w') (hbusy : w.busy = some d) :
    ∃ at' cause, .freed at' cause ∈ trace ∧ (cause = .expired → d + Link.watchdogNs ≤ at') := by
  induction trace generalizing w with
  | nil =>
    cases h with
    | cons hs _ =>
      cases hs with
      | delivered _ _ _ hfree _ =>
        rw [hbusy] at hfree
        cases hfree
  | cons l trace ih =>
    cases h with
    | cons hs h =>
      cases hs with
      | received _ _ | arrived _ _ | dropped _ _ =>
        obtain ⟨t, cause, hmem, htime⟩ := ih h hbusy
        exact ⟨t, cause, List.mem_cons_of_mem _ hmem, htime⟩
      | freed _ htimely =>
        refine ⟨_, _, List.mem_cons_self, fun hcause ↦ ?_⟩
        subst hcause
        obtain ⟨d', hd', hle⟩ := htimely
        rw [hbusy, Option.some_inj] at hd'
        rw [hd']
        exact hle
      | delivered _ _ _ hfree _ =>
        rw [hbusy] at hfree
        cases hfree

end Line

end Cdj2000Emulator.GuiLink
