import Cdj2000Emulator.Display.Gui

namespace Cdj2000Emulator.Display

open Library.Bytes

variable {s : Setup} {g p : Gui s} {line : s.Line}

/-- A pixel that the jog extraction leaves black. -/
def Setup.blanked (s : Setup) (y x : ℕ) : Bool :=
  match s.jog with
  | none => false
  | some j => j.present s.width s.height && j.blank && (j.row s.height y && j.col s.width x)

def Setup.blank (s : Setup) (image : s.Image) : s.Image := fun y x ↦ if s.blanked y x then black else image y x

theorem blank_of_blanked {image : s.Image} {y : Fin s.height} {x : Fin s.width} (h : s.blanked y x = true) :
    s.blank image y x = black := if_pos h

theorem blank_of_not {image : s.Image} {y : Fin s.height} {x : Fin s.width} (h : ¬s.blanked y x = true) :
    s.blank image y x = image y x := if_neg h

theorem blank_blank {image : s.Image} : s.blank (s.blank image) = s.blank image := by
  funext y x
  by_cases h : s.blanked y x = true
  · rw [blank_of_blanked h, blank_of_blanked h]
  · rw [blank_of_not h]

/-- A blanked pixel lies in the picture. -/
theorem lt_of_blanked {y x : ℕ} (h : s.blanked y x = true) : y < s.height := by
  unfold Setup.blanked at h
  cases jog : s.jog with
  | none => simp [jog] at h
  | some j =>
    simp only [jog, Jog.row, Bool.and_eq_true, decide_eq_true_eq] at h
    have below := h.2.1.2
    unfold Jog.y1 at below
    split_ifs at below <;> omega

theorem handleJog_rgb : g.handleJog.rgb = s.blank g.rgb := by
  unfold Gui.handleJog Setup.blank Setup.blanked
  cases jog : s.jog with
  | none => simp
  | some j =>
    cases present : j.present s.width s.height with
    | false => simp [present]
    | true =>
      cases blank : j.blank with
      | false => simp [present, blank]
      | true => simp [present, blank]

/-- What the jog file holds after a frame is decided by the picture. -/
theorem handleJog_jog (h : g.rgb = p.rgb) (jog : g.output.jog = p.output.jog) :
    g.handleJog.output.jog = p.handleJog.output.jog := by
  unfold Gui.handleJog
  split
  · exact jog
  · split
    · exact jog
    · simp only [h]

theorem rgb_of_jog (h : g.handleJog.output.jog = p.handleJog.output.jog) {y : Fin s.height} {x : Fin s.width}
    (hb : s.blanked y x = true) : g.rgb y x = p.rgb y x := by
  unfold Setup.blanked at hb
  unfold Gui.handleJog at h
  cases jog : s.jog with
  | none => simp [jog] at hb
  | some j =>
    simp only [jog, Bool.and_eq_true] at hb
    obtain ⟨⟨present, -⟩, row, col⟩ := hb
    simp only [jog, present, Bool.not_true, Bool.false_eq_true, if_false, Option.some.injEq] at h
    have rows := List.map_inj_left.mp h y (List.mem_filter.mpr ⟨List.mem_finRange y, row⟩)
    exact List.map_inj_left.mp rows x (List.mem_filter.mpr ⟨List.mem_finRange x, col⟩)

/-- What is on disk apart from the jog file. -/
def Output.pictures (o : Output s) : Output s := { o with jog := none }

/-- The two displays differ at most where the jog rectangle is blanked, and there only in the lines of the
frame that has begun. -/
structure Sim (g p : Gui s) : Prop where
  raw : g.raw = p.raw
  published : g.published = p.published
  currLine : g.currLine = p.currLine
  frameScore : g.frameScore = p.frameScore
  bestScore : g.bestScore = p.bestScore
  frameDetail : g.frameDetail = p.frameDetail
  bestDetail : g.bestDetail = p.bestDetail
  frames : g.frames = p.frames
  pictures : g.output.pictures = p.output.pictures
  rgb : s.blank g.rgb = s.blank p.rgb
  converted : ∀ (y : Fin s.height) (x : Fin s.width), ¬s.blanked y x = true → g.rgb y x = s.convert (g.raw y) x
  ahead : s.scoring = false → ∀ (y : Fin s.height) (x : Fin s.width), g.currLine ≤ y → s.blanked y x = true →
    g.rgb y x = black ∧ p.rgb y x = black
  scored : s.scoring = true → g.rgb = p.rgb
  still : g.frameChanged = false → ∀ image, g.published = some image → s.blank g.rgb = image

/-- A line that is skipped although the jog rectangle would show something of it. -/
def Hides (g : Gui s) : Input → Prop
  | .scanline source => s.scoring = false ∧ ∃ line, s.lineOf source = some line ∧ g.raw g.currLine = line ∧
      ∃ x : Fin s.width, s.blanked g.currLine x = true ∧ s.convert line x ≠ black
  | .frameSync => False

theorem setup_sim (s : Setup) : Sim (Gui.setup s) (Gui.setup s) where
  raw := rfl
  published := rfl
  currLine := rfl
  frameScore := rfl
  bestScore := rfl
  frameDetail := rfl
  bestDetail := rfl
  frames := rfl
  pictures := rfl
  rgb := rfl
  converted _ x _ := by
    refine (convertPixel_zero s.color).symm.trans (congrArg (convertPixel s.color) ?_)
    exact funext fun i ↦ Block.get_zeros.symm
  ahead _ _ _ _ _ := ⟨rfl, rfl⟩
  scored _ := rfl
  still _ _ h := by cases h

/-- Off the rectangle the row that a skipped line belongs to holds its pixels. -/
theorem Sim.agree (h : Sim g p) {y : Fin s.height} {x : Fin s.width} (hb : ¬s.blanked y x = true) :
    g.rgb y x = p.rgb y x := by
  have same := congrFun (congrFun h.rgb y) x
  rwa [blank_of_not hb, blank_of_not hb] at same

theorem scan_currLine : (g.scan line).currLine = g.currLine + 1 := by
  unfold Gui.scan
  split <;> rfl

theorem scan_raw : (g.scan line).raw = fun y ↦ if y = g.currLine then line else g.raw y := by
  unfold Gui.scan
  split
  · rfl
  · rename_i same
    simp only [Bool.or_eq_true, bne_iff_ne, not_or, not_not] at same
    funext y
    by_cases here : y = g.currLine
    · rw [if_pos here, here]
      exact same.2
    · exact (if_neg here).symm

theorem scan_rgb_of_changed (h : (s.scoring || g.raw g.currLine != line) = true) :
    (g.scan line).rgb = fun y : Fin s.height ↦ if y = g.currLine then s.convert line else g.rgb y := by
  unfold Gui.scan
  rw [if_pos h]
  rfl

theorem scan_rgb_of_same (h : ¬(s.scoring || g.raw g.currLine != line) = true) : (g.scan line).rgb = g.rgb := by
  unfold Gui.scan
  rw [if_neg h]

theorem plain_scan_rgb : (Plain.scan line p).rgb =
    fun y : Fin s.height ↦ if y = p.currLine then s.convert line else p.rgb y := rfl

theorem plain_scan_here {y : Fin s.height} (h : (y : ℕ) = p.currLine) : (Plain.scan line p).rgb y = s.convert line :=
  if_pos h

theorem plain_scan_other {y : Fin s.height} (h : (y : ℕ) ≠ p.currLine) : (Plain.scan line p).rgb y = p.rgb y :=
  if_neg h

theorem scan_row (h : Sim g p) {y : Fin s.height} {x : Fin s.width} (hb : ¬s.blanked y x = true) :
    (g.scan line).rgb y x = s.convert ((g.scan line).raw y) x ∧ (Plain.scan line p).rgb y x =
    (g.scan line).rgb y x := by
  rw [scan_raw, plain_scan_rgb, ← h.currLine]
  by_cases changed : (s.scoring || g.raw g.currLine != line) = true
  · rw [scan_rgb_of_changed changed]
    by_cases here : (y : ℕ) = g.currLine
    · simp only [if_pos here, and_self]
    · simp only [if_neg here]
      exact ⟨h.converted y x hb, (h.agree hb).symm⟩
  · rw [scan_rgb_of_same changed]
    by_cases here : (y : ℕ) = g.currLine
    · have same : g.raw y = line := by
        simp only [Bool.or_eq_true, bne_iff_ne, not_or, not_not] at changed
        rw [here]
        exact changed.2
      have shown := h.converted y x hb
      rw [same] at shown
      simp only [if_pos here]
      exact ⟨shown, shown.symm⟩
    · simp only [if_neg here]
      exact ⟨h.converted y x hb, (h.agree hb).symm⟩

theorem scan_other {y : Fin s.height} (h : (y : ℕ) ≠ g.currLine) : (g.scan line).rgb y = g.rgb y := by
  by_cases changed : (s.scoring || g.raw g.currLine != line) = true
  · rw [scan_rgb_of_changed changed]
    exact if_neg h
  · rw [scan_rgb_of_same changed]

theorem scan_counts (h : Sim g p) : (g.scan line).frameScore = (Plain.scan line p).frameScore ∧
    (g.scan line).frameDetail = (Plain.scan line p).frameDetail := by
  by_cases changed : (s.scoring || g.raw g.currLine != line) = true
  · unfold Gui.scan
    rw [if_pos changed]
    simp only [Plain.scan, Gui.convertLine, Gui.storeLine, h.frameScore, h.frameDetail, and_self]
  · have silent : s.scoring = false := by
      cases on : s.scoring with
      | false => rfl
      | true => simp [on] at changed
    unfold Gui.scan
    rw [if_neg changed]
    simp only [Plain.scan, Gui.convertLine, Gui.storeLine, silent, Bool.false_eq_true, if_false]
    exact ⟨h.frameScore, h.frameDetail⟩

theorem scan_kept (g : Gui s) (line : s.Line) : (g.scan line).published = g.published ∧
    (g.scan line).bestScore = g.bestScore ∧
    (g.scan line).bestDetail = g.bestDetail ∧ (g.scan line).frames = g.frames ∧
    (g.scan line).output = g.output := by
  unfold Gui.scan
  split <;> exact ⟨rfl, rfl, rfl, rfl, rfl⟩

theorem scan_sim (line : s.Line) (h : Sim g p) : Sim (g.scan line) (Plain.scan line p) := by
  obtain ⟨published, bestScore, bestDetail, frames, output⟩ := scan_kept g line
  refine
    { raw := ?_
      published := published.trans h.published
      currLine := scan_currLine.trans (congrArg (· + 1) h.currLine)
      frameScore := (scan_counts h).1
      bestScore := bestScore.trans h.bestScore
      frameDetail := (scan_counts h).2
      bestDetail := bestDetail.trans h.bestDetail
      frames := frames.trans h.frames
      pictures := (congrArg Output.pictures output).trans h.pictures
      rgb := ?_
      converted := fun y x hb ↦ (scan_row h hb).1
      ahead := fun silent y x later hb ↦ ?_
      scored := fun on ↦ ?_
      still := fun unchanged image shown ↦ ?_ }
  · rw [scan_raw]
    simp only [Plain.scan, Gui.convertLine, Gui.storeLine, h.raw, h.currLine]
  · funext y x
    by_cases hb : s.blanked y x = true
    · rw [blank_of_blanked hb, blank_of_blanked hb]
    · rw [blank_of_not hb, blank_of_not hb]
      exact (scan_row h hb).2.symm
  · rw [scan_currLine] at later
    have off : (y : ℕ) ≠ g.currLine := by omega
    have off' : (y : ℕ) ≠ p.currLine := by rwa [← h.currLine]
    obtain ⟨here, there⟩ := h.ahead silent y x (by omega) hb
    rw [scan_other off, plain_scan_other off']
    exact ⟨here, there⟩
  · rw [scan_rgb_of_changed (by rw [on]; rfl), plain_scan_rgb, h.currLine, h.scored on]
  · by_cases changed : (s.scoring || g.raw g.currLine != line) = true
    · unfold Gui.scan at unchanged
      rw [if_pos changed] at unchanged
      cases unchanged
    · have kept : g.frameChanged = false := by
        unfold Gui.scan at unchanged
        rwa [if_neg changed] at unchanged
      rw [published] at shown
      rw [scan_rgb_of_same changed]
      exact h.still kept image shown

/-- The pictures stay the same over a line, unless it is skipped and the rectangle would show it. -/
theorem scan_rgb_iff (h : Sim g p) {source : List Byte} (hl : s.lineOf source = some line) :
    (g.scan line).rgb = (Plain.scan line p).rgb ↔ g.rgb = p.rgb ∧ ¬Hides g (.scanline source) := by
  constructor
  · intro same
    refine ⟨?_, ?_⟩
    · funext y x
      by_cases hb : s.blanked y x = true
      · cases on : s.scoring with
        | true => rw [h.scored on]
        | false =>
          by_cases later : g.currLine ≤ y
          · obtain ⟨here, there⟩ := h.ahead on y x later hb
            rw [here, there]
          · have off : (y : ℕ) ≠ g.currLine := by omega
            have off' : (y : ℕ) ≠ p.currLine := by rwa [← h.currLine]
            have row := congrFun same y
            rw [scan_other off, plain_scan_other off'] at row
            exact congrFun row x
      · exact h.agree hb
    · rintro ⟨silent, line', hl', stored, x, hb, visible⟩
      obtain rfl : line = line' := Option.some.inj (hl.symm.trans hl')
      have unchanged : ¬(s.scoring || g.raw g.currLine != line) = true := by simp [silent, stored]
      let y : Fin s.height := ⟨g.currLine, lt_of_blanked hb⟩
      have here : (y : ℕ) = p.currLine := h.currLine
      have row := congrFun (congrFun same y) x
      rw [scan_rgb_of_same unchanged, plain_scan_here here, (h.ahead silent y x (le_refl _) hb).1] at row
      exact visible row.symm
  · rintro ⟨same, shown⟩
    funext y x
    by_cases hb : s.blanked y x = true
    · by_cases here : (y : ℕ) = g.currLine
      · have here' : (y : ℕ) = p.currLine := here.trans h.currLine
        rw [plain_scan_here here']
        by_cases changed : (s.scoring || g.raw g.currLine != line) = true
        · rw [scan_rgb_of_changed changed]
          exact congrFun (if_pos here) x
        · rw [scan_rgb_of_same changed]
          simp only [Bool.or_eq_true, bne_iff_ne, not_or, not_not, Bool.not_eq_true] at changed
          rw [(h.ahead changed.1 y x (le_of_eq here.symm) hb).1]
          by_contra visible
          rw [here] at hb
          exact shown ⟨changed.1, line, hl, changed.2, x, hb, fun hidden ↦ visible hidden.symm⟩
      · have here' : (y : ℕ) ≠ p.currLine := by rwa [← h.currLine]
        rw [scan_other here, plain_scan_other here', same]
    · exact (scan_row h hb).2.symm

theorem handleJog_eq (g : Gui s) : g.handleJog =
    { g with rgb := s.blank g.rgb, output := { g.output with jog := g.handleJog.output.jog } } := by
  have rgb := handleJog_rgb (g := g)
  rw [← rgb]
  unfold Gui.handleJog
  split
  · rfl
  · split <;> rfl

theorem handleJog_kept : g.handleJog.raw = g.raw ∧ g.handleJog.published = g.published ∧
    g.handleJog.frameChanged = g.frameChanged ∧ g.handleJog.currLine = g.currLine ∧
      g.handleJog.frames = g.frames := by
  rw [handleJog_eq g]
  exact ⟨rfl, rfl, rfl, rfl, rfl⟩

def Gui.withJog (jog : Option (List (List Pixel))) (g : Gui s) : Gui s :=
    { g with output := { g.output with jog := jog } }

theorem top_alike (h : Sim g p) :
    p.top = { g.top with frameChanged := p.frameChanged }.withJog p.top.output.jog := by
  have pictures := h.pictures
  simp only [Output.pictures, Output.mk.injEq, true_and] at pictures
  unfold Gui.top Gui.withJog
  rw [handleJog_eq, handleJog_eq { g with frames := g.frames + 1, currLine := 0 }]
  simp only [Gui.mk.injEq, Output.mk.injEq]
  refine ⟨h.rgb.symm, h.raw.symm, h.published.symm, trivial, trivial, h.frameScore.symm, h.bestScore.symm,
    h.frameDetail.symm, h.bestDetail.symm, congrArg (· + 1) h.frames.symm, ?_⟩
  exact ⟨pictures.1.symm, pictures.2.1.symm, trivial, pictures.2.2.1.symm, pictures.2.2.2.symm⟩

section

variable (jog : Option (List (List Pixel)))

theorem chooseBest_withJog : (g.withJog jog).chooseBest = g.chooseBest.withJog jog := by
  unfold Gui.chooseBest
  rw [apply_ite (Gui.withJog jog)]
  rfl

theorem chooseDetail_withJog : (g.withJog jog).chooseDetail = g.chooseDetail.withJog jog := by
  unfold Gui.chooseDetail
  rw [apply_ite (Gui.withJog jog)]
  rfl

theorem finish_alike (due changed : Bool) :
    ({ g with frameChanged := changed }.withJog jog).finish due = (g.finish due).withJog jog := by
  unfold Gui.finish
  cases due with
  | false =>
    change { ({ g with frameChanged := false }.withJog jog).chooseBest.chooseDetail with
      frameScore := 0, frameDetail := 0 } = _
    rw [chooseBest_withJog, chooseDetail_withJog]
    rfl
  | true =>
    change { ({ g.publish with frameChanged := false }.withJog jog).chooseBest.chooseDetail with
      frameScore := 0, frameDetail := 0 } = _
    rw [chooseBest_withJog, chooseDetail_withJog]
    rfl

end

theorem due_eq (h : Sim g p) :
    (s.always || g.top.published.isNone || g.top.frameChanged && g.top.published != some g.top.rgb) =
      (s.always || p.top.published != some p.top.rgb) := by
  have published : p.top.published = g.top.published := by
    rw [top_alike h]
    rfl
  have rgb : p.top.rgb = g.top.rgb := by
    rw [top_alike h]
    rfl
  have same : g.top.published = g.published := handleJog_kept.2.1
  have flag : g.top.frameChanged = g.frameChanged := handleJog_kept.2.2.1
  rw [published, rgb, same, flag]
  cases shown : g.published with
  | none => simp
  | some image =>
    cases changed : g.frameChanged with
    | true => simp
    | false =>
      have still : g.top.rgb = image := handleJog_rgb.trans (h.still changed image shown)
      simp [still]

theorem frameComplete_alike (h : Sim g p) :
    Plain.frameComplete p = g.frameComplete.withJog p.top.output.jog := by
  unfold Plain.frameComplete Gui.frameComplete
  dsimp only
  rw [← due_eq h]
  generalize (s.always || g.top.published.isNone || g.top.frameChanged && g.top.published != some g.top.rgb) = due
  rw [top_alike h, finish_alike]
  rfl

theorem choose_kept : g.chooseBest.chooseDetail.rgb = g.rgb ∧ g.chooseBest.chooseDetail.raw = g.raw ∧
    g.chooseBest.chooseDetail.published = g.published ∧ g.chooseBest.chooseDetail.currLine = g.currLine ∧
    g.chooseBest.chooseDetail.frameChanged = g.frameChanged ∧ g.chooseBest.chooseDetail.frames = g.frames ∧
    g.chooseBest.chooseDetail.output.jog = g.output.jog := by
  unfold Gui.chooseDetail Gui.chooseBest
  split <;> split <;> exact ⟨rfl, rfl, rfl, rfl, rfl, rfl, rfl⟩

/-- A frame leaves the picture blanked, and it has been published. -/
structure Completed (g c : Gui s) : Prop where
  rgb : c.rgb = s.blank g.rgb
  raw : c.raw = g.raw
  published : c.published = some c.rgb
  currLine : c.currLine = 0
  frames : c.frames = g.frames + 1
  jog : c.output.jog = g.handleJog.output.jog

theorem frameComplete_completed (h : Sim g p) : Completed g g.frameComplete := by
  have rgb : g.top.rgb = s.blank g.rgb := handleJog_rgb
  obtain ⟨raw, published, flag, currLine, frames⟩ :=
      handleJog_kept (g := { g with frames := g.frames + 1, currLine := 0 })
  have jog : g.top.output.jog = g.handleJog.output.jog := handleJog_jog rfl rfl
  unfold Gui.frameComplete Gui.finish
  dsimp only
  split
  · obtain ⟨rgb', raw', published', currLine', -, frames', jog'⟩ :=
      choose_kept (g := { g.top.publish with frameChanged := false })
    exact
      { rgb := rgb'.trans rgb
        raw := raw'.trans raw
        published := published'.trans (congrArg some rgb'.symm)
        currLine := currLine'.trans currLine
        frames := frames'.trans frames
        jog := jog'.trans jog }
  · rename_i notDue
    obtain ⟨rgb', raw', published', currLine', -, frames', jog'⟩ :=
      choose_kept (g := { g.top with frameChanged := false })
    have shown : g.top.published = some g.top.rgb := by
      simp only [Bool.or_eq_true, not_or, Bool.and_eq_true, not_and, bne_iff_ne, not_not] at notDue
      obtain ⟨⟨-, present⟩, compared⟩ := notDue
      cases last : g.top.published with
      | none => simp [last] at present
      | some image =>
        cases changed : g.top.frameChanged with
        | true => rw [← last]; exact compared changed
        | false =>
          have still := h.still (flag.symm.trans changed) image (published.symm.trans last)
          rw [rgb, still]
    exact
      { rgb := rgb'.trans rgb
        raw := raw'.trans raw
        published := published'.trans (shown.trans (congrArg some rgb'.symm))
        currLine := currLine'.trans currLine
        frames := frames'.trans frames
        jog := jog'.trans jog }

/-- After a frame the two displays hold the same picture. -/
theorem frameComplete_sim (h : Sim g p) : Sim g.frameComplete (Plain.frameComplete p) := by
  have c := frameComplete_completed h
  rw [frameComplete_alike h]
  exact
    { raw := rfl
      published := rfl
      currLine := rfl
      frameScore := rfl
      bestScore := rfl
      frameDetail := rfl
      bestDetail := rfl
      frames := rfl
      pictures := rfl
      rgb := rfl
      converted := fun y x hb ↦ by
        rw [c.rgb, c.raw, blank_of_not hb]
        exact h.converted y x hb
      ahead := fun _ y x _ hb ↦ by
        have dark : g.frameComplete.rgb y x = black := by rw [c.rgb, blank_of_blanked hb]
        exact ⟨dark, dark⟩
      scored := fun _ ↦ rfl
      still := fun _ image shown ↦ by
        rw [c.published] at shown
        rw [← Option.some.inj shown, c.rgb, blank_blank] }

theorem frameComplete_jog_iff (h : Sim g p) (hj : g.output.jog = p.output.jog) :
    g.frameComplete.output.jog = (Plain.frameComplete p).output.jog ↔ g.rgb = p.rgb := by
  have first : g.frameComplete.output.jog = g.handleJog.output.jog := (frameComplete_completed h).jog
  have second : (Plain.frameComplete p).output.jog = p.handleJog.output.jog := by
    rw [frameComplete_alike h]
    exact handleJog_jog rfl rfl
  rw [first, second]
  constructor
  · intro same
    funext y x
    by_cases hb : s.blanked y x = true
    · exact rgb_of_jog same hb
    · exact h.agree hb
  · exact fun same ↦ handleJog_jog same hj

theorem scan_jog (h : g.output.jog = p.output.jog) : (g.scan line).output.jog = (Plain.scan line p).output.jog := by
  obtain ⟨-, -, -, -, output⟩ := scan_kept g line
  rw [output]
  exact h

/-- What an input does: it goes on with the frame, or it completes it. -/
inductive Stepped (g p g' p' : Gui s) (hidden : Prop) : Prop
  | within (sim : Sim g' p') (frames : g'.frames = g.frames)
      (jog : g.output.jog = p.output.jog → g'.output.jog = p'.output.jog)
      (rgb : g'.rgb = p'.rgb ↔ g.rgb = p.rgb ∧ ¬hidden)
  | completed (sim : Sim g' p') (frames : g'.frames = g.frames + 1) (rgb : g'.rgb = p'.rgb)
      (jog : g.output.jog = p.output.jog → (g'.output.jog = p'.output.jog ↔ g.rgb = p.rgb ∧ ¬hidden))

theorem frameComplete_rgb (h : Sim g p) : g.frameComplete.rgb = (Plain.frameComplete p).rgb := by
  rw [frameComplete_alike h]
  rfl

theorem handle_stepped (h : Sim g p) (input : Input) :
    Stepped g p (g.handle input) (Plain.handle p input) (Hides g input) := by
  cases input with
  | scanline source =>
    unfold Gui.handle Plain.handle Gui.update Plain.update
    cases hl : s.lineOf source with
    | none =>
      simp only [hl]
      refine .within h rfl id ⟨fun same ↦ ⟨same, ?_⟩, And.left⟩
      rintro ⟨-, line, hl', -⟩
      exact Option.some_ne_none line (hl'.symm.trans hl)
    | some line =>
      have sim := scan_sim line h
      have frames : (g.scan line).frames = g.frames := (scan_kept g line).2.2.2.1
      by_cases full : (g.scan line).currLine = s.height
      · have full' : (Plain.scan line p).currLine = s.height := sim.currLine.symm.trans full
        simp only [hl, if_pos full, if_pos full']
        exact .completed (frameComplete_sim sim)
          ((frameComplete_completed sim).frames.trans (congrArg (· + 1) frames)) (frameComplete_rgb sim)
          fun hj ↦ (frameComplete_jog_iff sim (scan_jog hj)).trans (scan_rgb_iff h hl)
      · have full' : ¬(Plain.scan line p).currLine = s.height := fun e ↦ full (sim.currLine.trans e)
        simp only [hl, if_neg full, if_neg full']
        exact .within sim frames scan_jog (scan_rgb_iff h hl)
  | frameSync =>
    unfold Gui.handle Plain.handle Gui.frameSync Plain.frameSync
    have shown : (g.rgb = p.rgb ↔ g.rgb = p.rgb ∧ ¬Hides g .frameSync) :=
      ⟨fun same ↦ ⟨same, id⟩, And.left⟩
    by_cases begun : g.currLine ≠ 0
    · have begun' : p.currLine ≠ 0 := by rwa [← h.currLine]
      simp only [if_pos begun, if_pos begun']
      exact .completed (frameComplete_sim h) (frameComplete_completed h).frames (frameComplete_rgb h)
        fun hj ↦ (frameComplete_jog_iff h hj).trans shown
    · have begun' : ¬p.currLine ≠ 0 := by rwa [← h.currLine]
      simp only [if_neg begun, if_neg begun']
      exact .within h rfl id shown

theorem Stepped.sim {g' p' : Gui s} {hidden : Prop} (h : Stepped g p g' p' hidden) : Sim g' p' := by
  cases h with
  | within sim => exact sim
  | completed sim => exact sim

theorem run_sim (h : Sim g p) (inputs : List Input) : Sim (g.run inputs) (Plain.run p inputs) := by
  induction inputs generalizing g p with
  | nil => exact h
  | cons input inputs ih => exact ih (handle_stepped h input).sim

/-- The main file, the raw file and the images chosen for the best and the detail file are those of the
display that skips nothing. -/
theorem pictures_same (inputs : List Input) : ((Gui.setup s).run inputs).output.pictures =
    (Plain.run (Gui.setup s) inputs).output.pictures :=
  (run_sim (setup_sim s) inputs).pictures

theorem frames_le_run (h : Sim g p) (inputs : List Input) : g.frames ≤ (g.run inputs).frames := by
  induction inputs generalizing g p with
  | nil => exact le_refl _
  | cons input inputs ih =>
    have later := ih (handle_stepped h input).sim
    have now : g.frames ≤ (g.handle input).frames := by
      cases handle_stepped h input with
      | within sim frames => omega
      | completed sim frames => omega
    exact now.trans later

theorem step_iff (h : Sim g p) (input : Input) (inputs : List Input) (hj : g.output.jog = p.output.jog) :
    ((g.handle input).output.jog = (Plain.handle p input).output.jog ∧
      ((g.handle input).rgb ≠ (Plain.handle p input).rgb →
        ((g.handle input).run inputs).frames = (g.handle input).frames)) ↔
    (g.rgb ≠ p.rgb → (g.run (input :: inputs)).frames = g.frames) ∧
      (Hides g input → (g.run (input :: inputs)).frames = g.frames) := by
  have rest : g.run (input :: inputs) = (g.handle input).run inputs := rfl
  rw [rest]
  cases handle_stepped h input with
  | within sim frames jog rgb =>
    rw [frames]
    have kept := jog hj
    tauto
  | completed sim frames rgb jog =>
    have more := frames_le_run sim inputs
    have ended : ((g.handle input).run inputs).frames ≠ g.frames := by omega
    have shown := jog hj
    tauto

theorem run_iff (h : Sim g p) (inputs : List Input) :
    (∀ front back, inputs = front ++ back → (g.run front).output.jog = (Plain.run p front).output.jog) ↔
    g.output.jog = p.output.jog ∧ (g.rgb ≠ p.rgb → (g.run inputs).frames = g.frames) ∧
      ∀ front input back, inputs = front ++ input :: back → Hides (g.run front) input →
        (g.run inputs).frames = (g.run front).frames := by
  induction inputs generalizing g p with
  | nil =>
    constructor
    · intro all
      exact ⟨all [] [] rfl, fun _ ↦ rfl, fun front input back e ↦ by simp at e⟩
    · rintro ⟨hj, -⟩ front back e
      obtain ⟨rfl, -⟩ := List.append_eq_nil_iff.mp e.symm
      exact hj
  | cons input inputs ih =>
    have later := ih (handle_stepped h input).sim
    constructor
    · intro all
      have hj : g.output.jog = p.output.jog := all [] (input :: inputs) rfl
      obtain ⟨now, open', rest⟩ := later.mp fun front back e ↦
          all (input :: front) back (congrArg (input :: ·) e)
      obtain ⟨begun, first⟩ := (step_iff h input inputs hj).mp ⟨now, open'⟩
      refine ⟨hj, begun, fun front next back e hides ↦ ?_⟩
      cases front with
      | nil =>
        obtain ⟨rfl, rfl⟩ := List.cons.inj e
        exact first hides
      | cons _ front =>
        obtain ⟨rfl, tail⟩ := List.cons.inj e
        exact rest front next back tail hides
    · rintro ⟨hj, begun, all⟩ front back e
      cases front with
      | nil => exact hj
      | cons _ front =>
        obtain ⟨rfl, tail⟩ := List.cons.inj e
        obtain ⟨now, open'⟩ := (step_iff h input inputs hj).mpr ⟨begun, all [] input inputs rfl⟩
        refine later.mpr ⟨now, open', fun front next back later ↦ ?_⟩ front back tail
        exact all (input :: front) next back (congrArg (input :: ·) later)

/-- The files are those of a display that skips nothing, at every point of a run, exactly if no frame that
is completed has a line that was skipped although the jog rectangle would show something of it. -/
theorem output_same_iff (s : Setup) (inputs : List Input) :
    (∀ front back, inputs = front ++ back →
      ((Gui.setup s).run front).output = (Plain.run (Gui.setup s) front).output) ↔
    ∀ front input back, inputs = front ++ input :: back → Hides ((Gui.setup s).run front) input →
      ((Gui.setup s).run inputs).frames = ((Gui.setup s).run front).frames := by
  have whole : (∀ front back, inputs = front ++ back →
      ((Gui.setup s).run front).output = (Plain.run (Gui.setup s) front).output) ↔
      ∀ front back, inputs = front ++ back →
        ((Gui.setup s).run front).output.jog = (Plain.run (Gui.setup s) front).output.jog := by
    constructor
    · exact fun all front back e ↦ congrArg Output.jog (all front back e)
    · intro all front back e
      have pictures := pictures_same (s := s) front
      simp only [Output.pictures, Output.mk.injEq, true_and] at pictures
      have jog := all front back e
      cases here : ((Gui.setup s).run front).output
      cases there : (Plain.run (Gui.setup s) front).output
      simp only [here, there] at pictures jog
      simp only [Output.mk.injEq]
      exact ⟨pictures.1, pictures.2.1, jog, pictures.2.2.1, pictures.2.2.2⟩
  rw [whole, run_iff (setup_sim s)]
  exact ⟨fun all ↦ all.2.2, fun all ↦ ⟨rfl, fun differ ↦ absurd rfl differ, all⟩⟩

def onePixel : Setup where
  width := 1
  height := 1
  color := .rgb888
  rawOutput := false
  bestOutput := false
  detailOutput := false
  always := false
  jog := some ⟨0, 0, 1, 1, true⟩

/-- The same line in two frames turns the jog file black. -/
theorem jog_blackened :
    ((Gui.setup onePixel).run [.scanline [1, 2, 3], .scanline [1, 2, 3]]).output.jog = some [[black]] ∧
      (Plain.run (Gui.setup onePixel) [.scanline [1, 2, 3], .scanline [1, 2, 3]]).output.jog =
        some [[⟨1, 2, 3⟩]] := by
  decide +kernel

end Cdj2000Emulator.Display
