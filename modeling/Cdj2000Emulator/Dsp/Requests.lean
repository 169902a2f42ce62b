import Mathlib.Data.List.Basic
import Cdj2000Emulator.Dsp.Model

namespace Cdj2000Emulator.Dsp.Requests

open Function Model

/-- The words that only MAIN fills: the model clears request words here and writes nothing
else. -/
@[grind] def Stored (a : ℕ) : Prop := a < 0x7bf0 ∨ (0x7c30 ≤ a ∧ a < 0x7ccc) ∨ (0x8100 ≤ a ∧ a < 0x8180)

/-- What reporting to MAIN leaves alone. -/
structure Keeps (d d' : Device) : Prop where
  stored : ∀ a, Stored a → d'.window a = d.window a
  running : d'.running = d.running
  controlCleared : d'.controlCleared = d.controlCleared
  jobs : d'.jobs = d.jobs

namespace Keeps

variable {d d' d'' : Device}

theorem refl (d : Device) : Keeps d d := ⟨fun _ _ ↦ rfl, rfl, rfl, rfl⟩

theorem trans (h : Keeps d d') (h' : Keeps d' d'') : Keeps d d'' :=
  ⟨fun a ha ↦ (h'.stored a ha).trans (h.stored a ha), h'.running.trans h.running,
    h'.controlCleared.trans h.controlCleared, h'.jobs.trans h.jobs⟩

theorem ite {p : Prop} [Decidable p] {x y : Device} (hx : Keeps d x) (hy : Keeps d y) :
    Keeps d (if p then x else y) := by
  by_cases h : p
  · rwa [if_pos h]
  · rwa [if_neg h]

theorem stl {offset : ℕ} {value : Word} (h : ¬Stored offset) : Keeps d (d.stl offset value) := by
  refine ⟨?_, rfl, rfl, rfl⟩
  intro a ha
  refine update_of_ne ?_ _ _
  rintro rfl
  exact h ha

end Keeps

@[simp]
theorem stl_deck (d : Device) (offset : ℕ) (value : Word) :
    (d.stl offset value).deck = d.deck := rfl

theorem stl_same (w : Window) (offset : ℕ) (value : Word) : w.stl offset value offset = value :=
  update_self ..

theorem stl_other (w : Window) {offset a : ℕ} (value : Word) (h : a ≠ offset) :
    w.stl offset value a = w a := update_of_ne h ..

theorem device_stl_same (d : Device) (offset : ℕ) (value : Word) :
    (d.stl offset value).window offset = value := stl_same ..

section Reports

variable (c : Config) (now : ℤ) (d : Device)

@[simp]
theorem event_deck (code : ℕ) : (d.event code).deck = d.deck := rfl

theorem event_keeps (code : ℕ) : Keeps d (d.event code) := by
  have h : Keeps d (d.stl 0xffe8
      (BitVec.ofNat 32 (code / 256 % 256 * 2 ^ 16 + code % 256 * 2 ^ 24))) :=
    .stl (by unfold Stored; omega)
  exact ⟨h.stored, rfl, rfl, rfl⟩

@[simp]
theorem post_deck (code : ℕ) : (d.post code).deck = d.deck := by
  unfold Device.post
  split_ifs <;> rfl

theorem post_keeps (code : ℕ) : Keeps d (d.post code) := by
  apply Keeps.ite (event_keeps d code)
  refine .trans ?_ (event_keeps _ code)
  have h : Keeps d (d.stl 0x7cd4 (BitVec.ofNat 32 ((d.reportId + 1) % 2 ^ 32))) :=
    .stl (by unfold Stored; omega)
  exact ⟨h.stored, rfl, rfl, rfl⟩

@[simp]
theorem slotMsg_deck (slot : ℕ) : (slotMsg c d slot).deck = d.deck := by
  unfold slotMsg
  split_ifs <;> simp

theorem slotMsg_keeps (slot : ℕ) : Keeps d (slotMsg c d slot) := by
  apply Keeps.ite (.refl d)
  have h : Keeps d (d.stl 0x7c00
      (BitVec.ofNat 32 (if slot < 4 then (slot + 1) * 16 + 1 else (slot - 4) * 16 + 2))) :=
    .stl (by unfold Stored; omega)
  exact .ite (h.trans (event_keeps _ _)) h

@[simp]
theorem slotEntry_deck (slot : ℕ) (ms : ℤ) : (slotEntry c d slot ms).deck = d.deck := by
  unfold slotEntry
  split_ifs <;> simp

theorem slotEntry_keeps (slot : ℕ) (ms : ℤ) : Keeps d (slotEntry c d slot ms) := by
  by_cases h : ¬c.slotEntry ∨ slot = 4 ∨ 9 ≤ slot ∨ ms < 0
  · rw [slotEntry, if_pos h]
    exact .refl d
  rw [slotEntry, if_neg h]
  have hbase : 0x7ce0 ≤ (if slot < 4 then 0x7ce0 + slot * 132 else 0x7ef0 + (slot - 5) * 132) ∧
      (if slot < 4 then 0x7ce0 + slot * 132 else 0x7ef0 + (slot - 5) * 132) < 0x8090 := by
    split_ifs <;> omega
  refine .trans (.trans (.stl ?_) (.stl ?_)) (.stl ?_) <;> unfold Stored <;> omega

theorem slotTable_stored (state : ℕ) (fine coarse : Word) {a : ℕ} (ha : Stored a) :
    slotTable d state fine coarse a = d.window a := by
  have key : ∀ l : List ℕ, (∀ i ∈ l, i < 4) → ∀ w : Window,
      l.foldl (fun w i =>
        (((w.stl (0x7ce0 + i * 132 + 96) fine).stl (0x7ce0 + i * 132 + 100) coarse).stl
          (0x7ce0 + i * 132 + 104) 0).stl (0x7ce0 + i * 132 + 128) (BitVec.ofNat 32 state)) w a =
        w a := by
    intro l
    induction l with
    | nil => intro _ w; rfl
    | cons i l ih =>
      intro hl w
      have hi := hl i (by simp)
      rw [List.foldl_cons, ih (fun j hj ↦ hl j (by simp [hj]))]
      unfold Stored at ha
      rw [stl_other _ _ (by omega), stl_other _ _ (by omega), stl_other _ _ (by omega),
        stl_other _ _ (by omega)]
  exact key _ (fun i hi ↦ List.mem_range.mp hi) _

@[simp]
theorem slotReport_deck (state : ℕ) : (slotReport c now d state).deck = d.deck := by
  unfold slotReport
  dsimp only
  split_ifs <;> simp

theorem slotReport_keeps (state : ℕ) : Keeps d (slotReport c now d state) := by
  have h : ∀ x : Device, x.window = slotTable d state (word ((d.slotPosMs * 22050).tdiv 1000))
      (word ((d.slotPosMs * 75).tdiv 1000)) → x.running = d.running →
      x.controlCleared = d.controlCleared → x.jobs = d.jobs → Keeps d x := by
    intro x hw hr hc hj
    refine ⟨?_, hr, hc, hj⟩
    intro a ha
    rw [hw, slotTable_stored d _ _ _ ha]
  unfold slotReport
  dsimp only
  refine .ite (.trans ?_ (post_keeps _ _)) (h _ rfl rfl rfl rfl)
  exact h _ rfl rfl rfl rfl

@[simp]
theorem slotReportRequest_deck (value : ℤ) :
    (slotReportRequest c now d value).deck = d.deck := by
  unfold slotReportRequest
  split_ifs <;> simp

theorem slotReportRequest_keeps (value : ℤ) : Keeps d (slotReportRequest c now d value) :=
  .ite (.refl d) (.ite ⟨fun _ _ ↦ rfl, rfl, rfl, rfl⟩ (.ite (slotReport_keeps ..)
    (.ite (slotReport_keeps ..) (.refl d))))

end Reports

section Handlers

variable (c : Config) (now : ℤ) (d : Device)

@[simp]
theorem streamHeader_deck (header : ℕ) : (streamHeader d header).deck = d.deck := by
  unfold streamHeader
  dsimp only
  split_ifs <;> rfl

theorem level_not_stored (p : Prop) [Decidable p] :
    ¬Stored (if p then levelBuffer1 else levelBuffer2) := by
  unfold Stored levelBuffer1 levelBuffer2
  split_ifs <;> omega

theorem streamHeader_keeps (header : ℕ) : Keeps d (streamHeader d header) :=
  .ite (.refl d) (.ite (.ite ⟨fun _ _ ↦ rfl, rfl, rfl, rfl⟩ (.refl d))
    (.ite (.refl d) (.stl (level_not_stored _))))

theorem stb_stored (w : Window) {offset a : ℕ} (value : Word) (ha : Stored a)
    (h : ¬Stored offset) : w.stb offset value a = w a :=
  stl_other _ _ (fun hao ↦ h (hao ▸ ha))

theorem statusRecord_keeps (header : ℕ) : Keeps d (statusRecord c d header) := by
  have h1 : ¬Stored 0x81a4 := by unfold Stored; omega
  have h2 : ¬Stored 0x8184 := by unfold Stored; omega
  apply Keeps.ite (.refl d)
  refine .ite (.ite (.refl d) ⟨?_, rfl, rfl, rfl⟩) ⟨?_, rfl, rfl, rfl⟩
  · intro a ha
    exact (stb_stored _ _ ha h2).trans (stb_stored _ _ ha h1)
  · intro a ha
    refine stb_stored _ _ ha ?_
    split_ifs
    · exact h1
    · exact h2

@[simp]
theorem streamOpen_deck (header : ℕ) :
    (streamOpen c d header).deck = openMove c header d.deck := by
  by_cases h : header / 2 ^ 24 ≠ 1 ∨ ¬c.posReport ∨ ¬d.deck.fmtSeen
  · rw [streamOpen, if_pos h, openMove, if_pos h]
  · rw [streamOpen, if_neg h]
    dsimp only
    split_ifs <;> rfl

theorem streamOpen_keeps (header : ℕ) : Keeps d (streamOpen c d header) := by
  apply Keeps.ite (.refl d)
  have h := statusRecord_keeps c d header
  have h' : Keeps d { statusRecord c d header with deck := openMove c header d.deck } :=
    ⟨h.stored, h.running, h.controlCleared, h.jobs⟩
  exact .ite (h'.trans (event_keeps _ _)) h'

theorem flushWindow_stored (value : ℤ) (w : Window) {a : ℕ} (ha : Stored a) :
    flushWindow c value w a = w a := by
  unfold flushWindow
  by_cases h : (value = 1 ∨ value = 2) ∧ c.flushReset
  · rw [if_pos h]
    unfold Stored at ha
    rw [stl_other _ _ (by omega), stl_other _ _ (by omega),
      stl_other _ _ (by unfold levelBuffer2; omega), stl_other _ _ (by unfold levelBuffer1; omega)]
    simp only [Window.zero]
    rw [if_neg (by omega), if_neg (by omega)]
  · rw [if_neg h]

theorem prepare_keeps (value : ℤ) (r : Request) : Keeps d (prepare c now d value r) := by
  cases r with
  | flush => exact ⟨fun a ha ↦ flushWindow_stored c value d.window ha, rfl, rfl, rfl⟩
  | header =>
    have h := (streamHeader_keeps d value.toNat).trans (streamOpen_keeps c _ value.toNat)
    exact ⟨h.stored, h.running, h.controlCleared, h.jobs⟩
  | _ => exact ⟨fun _ _ ↦ rfl, rfl, rfl, rfl⟩

@[simp]
theorem slotCommand_deck (value : ℤ) :
    (slotCommand c now d value).deck = slotDeck c now value (d.window 0x7c84) d.deck := by
  unfold slotCommand
  dsimp only
  split_ifs <;> simp

theorem slotCommand_keeps (value : ℤ) : Keeps d (slotCommand c now d value) := by
  have h : Keeps d { d with deck := slotDeck c now value (d.window 0x7c84) d.deck } :=
    ⟨fun _ _ ↦ rfl, rfl, rfl, rfl⟩
  exact .ite h (.ite (h.trans ((slotMsg_keeps ..).trans (slotEntry_keeps ..))) h)

@[simp]
theorem stateRequest_deck (value : ℤ) :
    (stateRequest c now d value).deck = stateDeck c now value d.deck := by
  unfold stateRequest
  dsimp only
  split_ifs <;> simp

theorem stateRequest_keeps (value : ℤ) : Keeps d (stateRequest c now d value) := by
  have h : Keeps d { d with deck := stateDeck c now value d.deck } :=
    ⟨fun _ _ ↦ rfl, rfl, rfl, rfl⟩
  have h7 : ¬Stored 0x7bf8 := by unfold Stored; omega
  refine .ite (h.trans (.trans (.stl h7) (.ite ?_ (.refl _)))) h
  exact .trans (.stl h7) (slotEntry_keeps ..)

theorem perform_keeps (value : ℤ) (r : Request) : Keeps d (perform c now d value r) := by
  cases r with
  | command => exact (stateRequest_keeps ..).trans (slotReportRequest_keeps ..)
  | slot => exact slotCommand_keeps ..
  | _ => exact ⟨fun _ _ ↦ rfl, rfl, rfl, rfl⟩

end Handlers

section Scan

variable (c : Config) (now : ℤ)

/-- The request the window holds in the word of `r`, if MAIN has written one. -/
def asked (w : Window) (r : Request) : Option ℤ :=
  let value := (w r.offset).toInt
  if 0 < value ∧ value < r.limit then some value else none

/-- What request `value` in the word of `r` does to the deck. -/
def move (w : Window) (value : ℤ) (r : Request) (k : Deck) : Deck :=
  match r with
  | .helper | .buffer => k
  | .command => stateDeck c now value (recordsForgotten value k)
  | .slot => slotDeck c now value (w 0x7c84) k
  | .segment => segmentDeck c value (w 0x7ca4) (w 0x7ca8) k
  | .flush => flushMove c value k
  | .format => formatCommand c value (w 0x8120) (formatRecord value (w 0x8120) k)
  | .header => seekMove c now value.toNat (w 0x8154) (w 0x8158) (w 0x815c)
      (openMove c value.toNat k)

/-- What the word of `r` does to the deck. -/
def turn (w : Window) (r : Request) (k : Deck) : Deck :=
  match asked w r with
  | none => k
  | some value => move c now w value r k

def Cleared (r : Request) (a : ℕ) : Prop := a = r.offset ∨ (r.clearResult ∧ a = r.offset + 4)

theorem clear_window (d : Device) (r : Request) {a : ℕ} (h : ¬Cleared r a) :
    (clear d r).window a = d.window a := by
  rw [Cleared, not_or, not_and] at h
  unfold clear
  by_cases hr : r.clearResult
  · rw [if_pos hr]
    exact (stl_other _ _ (h.2 hr)).trans (stl_other _ _ h.1)
  · rw [if_neg hr]
    exact stl_other _ _ h.1

theorem clear_rest (d : Device) (r : Request) :
    (clear d r).deck = d.deck ∧ (clear d r).running = d.running ∧
      (clear d r).controlCleared = d.controlCleared ∧ (clear d r).jobs = d.jobs := by
  unfold clear
  split_ifs <;> exact ⟨rfl, rfl, rfl, rfl⟩

/-- The parameters of a request and the word itself are MAIN's. -/
def Reads : Request → List ℕ
  | .slot => [0x7c80, 0x7c84]
  | .segment => [0x7c9c, 0x7ca4, 0x7ca8]
  | .format => [0x8100, 0x8120]
  | .header => [0x8140, 0x8154, 0x8158, 0x815c]
  | .buffer => []
  | r => [r.offset]

theorem reads_stored {r : Request} {a : ℕ} (h : a ∈ Reads r) : Stored a := by
  unfold Stored
  cases r <;> simp [Reads, Request.offset] at h <;> omega

theorem reads_not_cleared {r r' : Request} {a : ℕ} (hr : r ≠ r') (h : a ∈ Reads r) :
    ¬Cleared r' a := by
  unfold Cleared
  cases r <;> cases r' <;> simp [Reads, Request.offset, Request.clearResult] at hr h ⊢ <;> omega

theorem move_congr {w w' : Window} (value : ℤ) (r : Request) (h : ∀ a ∈ Reads r, w' a = w a) :
    move c now w' value r = move c now w value r := by
  funext k
  cases r with
  | helper => rfl
  | buffer => rfl
  | _ =>
    simp only [Reads, List.mem_cons, List.not_mem_nil, or_false, forall_eq_or_imp, forall_eq] at h
    simp only [move, h]

theorem turn_congr {w w' : Window} (r : Request) (h : ∀ a ∈ Reads r, w' a = w a) :
    turn c now w' r = turn c now w r := by
  funext k
  by_cases hr : r = .buffer
  · subst hr
    unfold turn
    cases asked w' .buffer <;> cases asked w .buffer <;> rfl
  have hoffset : r.offset ∈ Reads r := by
    cases r <;> first | exact absurd rfl hr | simp [Reads, Request.offset]
  have hasked : asked w' r = asked w r := by
    unfold asked
    rw [h _ hoffset]
  unfold turn
  rw [hasked]
  cases asked w r with
  | none => rfl
  | some value => exact congrFun (move_congr c now value r h) k

theorem acknowledge_of_asked {d : Device} {r : Request} {value : ℤ}
    (h : asked d.window r = some value) :
    acknowledge c now d r = perform c now (clear (prepare c now d value r) r) value r := by
  obtain ⟨hv, hvalue⟩ := Option.ite_none_right_eq_some.mp h
  obtain rfl := Option.some.inj hvalue
  exact if_neg (by omega)

theorem acknowledge_of_not_asked {d : Device} {r : Request} (h : asked d.window r = none) :
    acknowledge c now d r = d := by
  have hv := (ite_eq_right_iff.mp h).mt (Option.some_ne_none _)
  exact if_pos (by omega)

theorem acknowledge_deck (d : Device) (r : Request) :
    (acknowledge c now d r).deck = turn c now d.window r d.deck := by
  unfold turn
  cases h : asked d.window r with
  | none => rw [acknowledge_of_not_asked c now h]
  | some value =>
    rw [acknowledge_of_asked c now h]
    have hdeck := (clear_rest (prepare c now d value r) r).1
    have hwindow : ∀ a, Stored a → ¬Cleared r a →
        (clear (prepare c now d value r) r).window a = d.window a := by
      intro a ha hr
      rw [clear_window _ _ hr, (prepare_keeps c now d value r).stored a ha]
    have h1 : ¬Cleared .slot 0x7c84 := by simp [Cleared, Request.offset, Request.clearResult]
    have h2 : ¬Cleared .segment 0x7ca4 := by simp [Cleared, Request.offset, Request.clearResult]
    have h3 : ¬Cleared .segment 0x7ca8 := by simp [Cleared, Request.offset, Request.clearResult]
    have h4 : ¬Cleared .format 0x8120 := by simp [Cleared, Request.offset, Request.clearResult]
    cases r with
    | helper => exact hdeck
    | buffer => exact hdeck
    | flush => exact hdeck
    | command =>
      simp only [perform, slotReportRequest_deck, stateRequest_deck, hdeck]
      rfl
    | slot =>
      rw [perform, slotCommand_deck, hdeck, hwindow _ (by unfold Stored; omega) h1]
      rfl
    | segment =>
      simp only [perform]
      rw [hdeck, hwindow _ (by unfold Stored; omega) h2, hwindow _ (by unfold Stored; omega) h3]
      rfl
    | format =>
      simp only [perform]
      rw [hdeck, hwindow _ (by unfold Stored; omega) h4]
      rfl
    | header =>
      have hopen := (streamHeader_keeps d value.toNat).trans (streamOpen_keeps c _ value.toNat)
      refine hdeck.trans ?_
      simp only [prepare, streamSeek, streamOpen_deck, streamHeader_deck, move]
      rw [hopen.stored _ (by unfold Stored; omega), hopen.stored _ (by unfold Stored; omega),
        hopen.stored _ (by unfold Stored; omega)]

theorem acknowledge_stored (d : Device) (r : Request) {a : ℕ} (ha : Stored a)
    (hr : ¬Cleared r a) : (acknowledge c now d r).window a = d.window a := by
  cases h : asked d.window r with
  | none => rw [acknowledge_of_not_asked c now h]
  | some value =>
    rw [acknowledge_of_asked c now h, (perform_keeps c now _ value r).stored a ha,
      clear_window _ _ hr, (prepare_keeps c now d value r).stored a ha]

theorem acknowledge_rest (d : Device) (r : Request) :
    (acknowledge c now d r).running = d.running ∧
      (acknowledge c now d r).controlCleared = d.controlCleared ∧
      (acknowledge c now d r).jobs = d.jobs := by
  cases h : asked d.window r with
  | none => rw [acknowledge_of_not_asked c now h]; exact ⟨rfl, rfl, rfl⟩
  | some value =>
    rw [acknowledge_of_asked c now h]
    have hp := perform_keeps c now (clear (prepare c now d value r) r) value r
    have hc := clear_rest (prepare c now d value r) r
    have hq := prepare_keeps c now d value r
    exact ⟨hp.running.trans (hc.2.1.trans hq.running),
      hp.controlCleared.trans (hc.2.2.1.trans hq.controlCleared),
      hp.jobs.trans (hc.2.2.2.trans hq.jobs)⟩

theorem foldl_acknowledge_deck (l : List Request) (hl : l.Nodup) (d : Device) :
    (l.foldl (acknowledge c now) d).deck =
      l.foldl (fun k r ↦ turn c now d.window r k) d.deck := by
  induction l generalizing d with
  | nil => rfl
  | cons r l ih =>
    rw [List.foldl_cons, List.foldl_cons, ih (List.nodup_cons.mp hl).2, acknowledge_deck]
    apply List.foldl_ext
    intro k r' hr'
    have hne : r' ≠ r := by
      rintro rfl
      exact (List.nodup_cons.mp hl).1 hr'
    refine congrFun (turn_congr c now r' ?_) k
    intro a ha
    exact acknowledge_stored c now d r (reads_stored ha) (reads_not_cleared hne ha)

theorem foldl_acknowledge_stored (l : List Request) (d : Device) {a : ℕ} (ha : Stored a)
    (hl : ∀ r ∈ l, ¬Cleared r a) : (l.foldl (acknowledge c now) d).window a = d.window a := by
  induction l generalizing d with
  | nil => rfl
  | cons r l ih =>
    rw [List.foldl_cons, ih _ (fun r' hr' ↦ hl r' (by simp [hr'])),
      acknowledge_stored c now d r ha (hl r (by simp))]

theorem foldl_acknowledge_rest (l : List Request) (d : Device) :
    (l.foldl (acknowledge c now) d).running = d.running ∧
      (l.foldl (acknowledge c now) d).controlCleared = d.controlCleared ∧
      (l.foldl (acknowledge c now) d).jobs = d.jobs := by
  induction l generalizing d with
  | nil => exact ⟨rfl, rfl, rfl⟩
  | cons r l ih =>
    obtain ⟨h1, h2, h3⟩ := ih (acknowledge c now d r)
    obtain ⟨h1', h2', h3'⟩ := acknowledge_rest c now d r
    exact ⟨h1.trans h1', h2.trans h2', h3.trans h3'⟩

theorem commands_deck (d : Device) :
    (commands c now d).deck =
      if Answers c d then Request.all.foldl (fun k r ↦ turn c now d.window r k) d.deck
      else d.deck := by
  unfold commands
  by_cases h : Answers c d
  · rw [if_pos h, if_pos h, foldl_acknowledge_deck c now _ (by decide)]
  · rw [if_neg h, if_neg h]

theorem commands_stored (d : Device) {a : ℕ} (ha : Stored a) (hl : ∀ r, ¬Cleared r a) :
    (commands c now d).window a = d.window a := by
  unfold commands
  by_cases h : Answers c d
  · rw [if_pos h, foldl_acknowledge_stored c now _ d ha (fun r _ ↦ hl r)]
  · rw [if_neg h]

theorem commands_rest (d : Device) :
    (commands c now d).running = d.running ∧
      (commands c now d).controlCleared = d.controlCleared ∧
      (commands c now d).jobs = d.jobs := by
  unfold commands
  by_cases h : Answers c d
  · rw [if_pos h]
    exact foldl_acknowledge_rest c now _ d
  · rw [if_neg h]
    exact ⟨rfl, rfl, rfl⟩

end Scan

section Selected

variable (c : Config) (now : ℤ) (d : Device)

theorem select_window : (select c d).window = d.window := by
  unfold select
  split_ifs <;> rfl

theorem select_rest : (select c d).running = d.running ∧
    (select c d).controlCleared = d.controlCleared ∧ (select c d).jobs = d.jobs := by
  unfold select
  split_ifs <;> exact ⟨rfl, rfl, rfl⟩

theorem scanned_stored {a : ℕ} (ha : Stored a) (hl : ∀ r, ¬Cleared r a) :
    (scanned c now d).window a = d.window a := by
  rw [scanned, commands_stored c now _ ha hl, select_window]

theorem scanned_rest : (scanned c now d).running = d.running ∧
    (scanned c now d).controlCleared = d.controlCleared ∧ (scanned c now d).jobs = d.jobs := by
  obtain ⟨h1, h2, h3⟩ := commands_rest c now (select c { d with lastTickNs := now })
  obtain ⟨h1', h2', h3'⟩ := select_rest c { d with lastTickNs := now }
  exact ⟨h1.trans h1', h2.trans h2', h3.trans h3'⟩

theorem job_word_not_cleared {r : Request} (h : r ≠ .command) :
    ¬Cleared r 0x7ba4 := by
  unfold Cleared
  cases r <;> simp [Request.offset, Request.clearResult] at h ⊢

theorem commands_job_word :
    (commands c now d).window 0x7ba4 =
      if Answers c d ∧ asked d.window .command ≠ none then 0 else d.window 0x7ba4 := by
  have hs : Stored 0x7ba4 := by unfold Stored; omega
  unfold commands
  by_cases h : Answers c d
  · rw [if_pos h]
    have hhelper : ∀ a ∈ Reads .command,
        (acknowledge c now d .helper).window a = d.window a := fun a ha ↦
      acknowledge_stored c now d .helper (reads_stored ha) (reads_not_cleared (by decide) ha)
    have hasked : asked (acknowledge c now d .helper).window .command = asked d.window .command := by
      unfold asked
      rw [hhelper _ (by simp [Reads])]
    have hrest : ∀ d : Device, ([.slot, .segment, .flush, .format, .header, .buffer].foldl
        (acknowledge c now) d).window 0x7ba4 = d.window 0x7ba4 := by
      intro d
      refine foldl_acknowledge_stored c now _ d hs ?_
      intro r hr
      refine job_word_not_cleared ?_
      rintro rfl
      simp at hr
    rw [Request.all, List.foldl_cons, List.foldl_cons, hrest]
    cases hcommand : asked d.window .command with
    | none =>
      rw [acknowledge_of_not_asked c now (hasked.trans hcommand),
        acknowledge_stored c now d _ hs (job_word_not_cleared (by decide)), if_neg (by simp)]
    | some value =>
      rw [acknowledge_of_asked c now (hasked.trans hcommand), if_pos ⟨h, by simp⟩,
        (perform_keeps c now _ value .command).stored _ hs]
      exact device_stl_same ..
  · rw [if_neg h, if_neg (by simp [h])]

theorem scanned_job_word :
    (scanned c now d).window 0x7ba4 =
      if Answers c d ∧ asked d.window .command ≠ none then 0 else d.window 0x7ba4 := by
  have hrest := select_rest c { d with lastTickNs := now }
  have hanswers : Answers c (select c { d with lastTickNs := now }) ↔ Answers c d := by
    unfold Answers
    rw [hrest.1]
  rw [scanned, commands_job_word, select_window]
  simp only [hanswers]

end Selected

section Rest

variable (c : Config) (now elapsedMs : ℤ) (d : Device)

/-- The block of reports and the words a tick's last part books. -/
@[simp]
theorem rest_deck : (rest c now d elapsedMs).deck = d.deck := by
  have hprobe : (probe c now d).deck = d.deck := by
    unfold probe
    split_ifs <;> simp
  have hperiod : ∀ d, (slotPeriod c now d).deck = d.deck := by
    intro d
    unfold slotPeriod
    split_ifs <;> simp
  have hflags : ∀ d, (statusFlags c d).deck = d.deck := by
    intro d
    unfold statusFlags
    dsimp only
    split_ifs <;> rfl
  have hconsume : ∀ d, (consume c d elapsedMs).deck = d.deck := by
    intro d
    unfold consume
    dsimp only
    split_ifs <;> simp
  have htransport : ∀ d, (transportStep d elapsedMs).deck = d.deck := by
    intro d
    unfold transportStep
    split_ifs <;> rfl
  unfold rest
  rw [htransport, hconsume, hflags, hperiod, hprobe]

theorem rest_keeps : Keeps d (rest c now d elapsedMs) := by
  have hprobe : Keeps d (probe c now d) := by
    refine .ite (.trans ?_ (post_keeps _ _)) (.refl d)
    exact ⟨fun _ _ ↦ rfl, rfl, rfl, rfl⟩
  have hperiod : ∀ d, Keeps d (slotPeriod c now d) := by
    intro d
    refine .ite (.trans ?_ (slotReport_keeps c now _ 3)) (.refl d)
    exact ⟨fun _ _ ↦ rfl, rfl, rfl, rfl⟩
  have hflags : ∀ d, Keeps d (statusFlags c d) := by
    intro d
    refine .ite ⟨?_, rfl, rfl, rfl⟩ (.refl d)
    intro a ha
    unfold Stored at ha
    exact (stl_other _ _ (by omega)).trans (stl_other _ _ (by omega))
  have hconsume : ∀ d, Keeps d (consume c d elapsedMs) := by
    intro d
    refine .ite (.ite ?_ ⟨fun _ _ ↦ rfl, rfl, rfl, rfl⟩) (.refl d)
    have h : ∀ x : Device, (∀ a, Stored a → x.window a = d.window a) → x.running = d.running →
        x.controlCleared = d.controlCleared → x.jobs = d.jobs → Keeps d x :=
      fun x h1 h2 h3 h4 ↦ ⟨h1, h2, h3, h4⟩
    have hw : ∀ v v' a, Stored a →
        ((d.window.stl levelBuffer1 v).stl 0x81a0 v') a = d.window a := by
      intro v v' a ha
      unfold Stored at ha
      exact (stl_other _ _ (by omega)).trans (stl_other _ _ (by unfold levelBuffer1; omega))
    refine .ite (.trans ?_ (post_keeps _ _)) (.ite ?_ ?_)
    all_goals exact h _ (hw _ _) rfl rfl rfl
  have htransport : ∀ d, Keeps d (transportStep d elapsedMs) := fun d ↦
    .ite (.refl d) ⟨fun _ _ ↦ rfl, rfl, rfl, rfl⟩
  exact (((hprobe.trans (hperiod _)).trans (hflags _)).trans (hconsume _)).trans (htransport _)

theorem positionReport_keeps : Keeps d (positionReport c now d) := by
  apply Keeps.ite (.refl d)
  refine ⟨?_, rfl, rfl, rfl⟩
  intro a ha
  unfold Stored at ha
  unfold positionBlock
  dsimp only
  rw [stl_other _ _ (by omega), stl_other _ _ (by omega), stl_other _ _ (by omega),
    stl_other _ _ (by omega), stl_other _ _ (by omega)]

theorem positionReport_deck (hcleared : d.controlCleared) :
    (positionReport c now d).deck =
      if d.deck.posState = .playing then wrap (advance now (rateWord d.window) d.deck)
      else d.deck := by
  unfold positionReport
  rw [if_neg (not_not_intro hcleared)]

theorem report_deck (hreport : c.posReport) (hrunning : d.running) (habsent : ¬c.absent)
    (hcleared : d.controlCleared) :
    (report c now d).deck =
      if d.deck.posState = .playing then wrap (advance now (rateWord d.window) d.deck)
      else d.deck := by
  unfold report
  rw [if_pos ⟨hreport, hrunning, habsent⟩, positionReport_deck c now d hcleared]

theorem report_keeps : Keeps d (report c now d) := .ite (positionReport_keeps c now d) (.refl d)

theorem tick_keeps : Keeps (jobs c now (scanned c now d)) (tick c now d) :=
  (report_keeps c now _).trans (rest_keeps c now _ _)

theorem not_jobReady (hjob : (d.window 0x7ba4).toInt ≤ 0) : ¬JobReady c (scanned c now d) := by
  rintro ⟨-, -, -, -, h, -⟩
  rw [scanned_job_word] at h
  split_ifs at h
  · exact absurd h (by decide)
  · omega

theorem tick_deck (hreport : c.posReport) (hrunning : d.running) (habsent : ¬c.absent)
    (hcleared : d.controlCleared) (hjob : (d.window 0x7ba4).toInt ≤ 0) :
    (tick c now d).deck =
      if (scanned c now d).deck.posState = .playing then
        wrap (advance now (rateWord d.window) (scanned c now d).deck)
      else (scanned c now d).deck := by
  have hrate : rateWord (scanned c now d).window = rateWord d.window := by
    unfold rateWord
    rw [scanned_stored c now d (by unfold Stored; omega)]
    intro r
    unfold Cleared
    cases r <;> simp [Request.offset, Request.clearResult]
  obtain ⟨h1, h2, -⟩ := scanned_rest c now d
  unfold tick
  rw [rest_deck, jobs, if_neg (not_jobReady c now d hjob), ← hrate]
  exact report_deck c now _ hreport (h1.trans hrunning) habsent (h2.trans hcleared)

end Rest

end Cdj2000Emulator.Dsp.Requests
