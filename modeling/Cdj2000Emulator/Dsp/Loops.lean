import Cdj2000Emulator.Dsp.Report
import Cdj2000Emulator.Dsp.Requests
import Cdj2000Emulator.Library.Monitor

namespace Cdj2000Emulator.Dsp.Loops

open Function Model Report Requests Library.Monitor

section Statement

variable (c : Config)

def named (selection : Word) : Option ℕ :=
  if 1 ≤ selection.toNat ∧ selection.toNat ≤ loopOutSlot then some (selection.toNat - 1) else none

/-- Where a position goes by the loop table alone. -/
def turnedBack (selection : Word) (k : Deck) (ms : ℤ) : ℤ :=
  match named selection with
  | none => ms
  | some n =>
    if LoopDefined k n ∧ loopEnd k n ≤ ms then
      loopIn k n + (ms - loopIn k n) % (loopEnd k n - loopIn k n)
    else ms

/-- The position a report of the deck `k` leaves is the advanced one, turned back by the
table. -/
def ReportTurns (now : ℤ) (w : Window) (k k' : Deck) : Prop :=
  k'.posMs =
    if k.posState = .playing then
      turnedBack (w 0x7bc8) k (advance now (rateWord w) k).posMs
    else k.posMs

def TurnsBack (d : Device) : Step → Prop
  | .guest _ => True
  | .tick now => ReportTurns now d.window (scanned c now d).deck (tick c now d).deck
  | .positionTick now =>
    d.deck.posState = .playing → ReportTurns now d.window d.deck (positionTick c now d).deck

def Agrees (selection : Word) (k : Deck) : Prop :=
  match named selection with
  | none => k.loopOn = false
  | some n => if LoopDefined k n then
      k.loopOn = true ∧ k.loopInMs = loopIn k n ∧ k.loopOutMs = loopEnd k n
    else k.loopOn = false

def WillPlay (d : Device) : Prop :=
  match (if Answers c d then asked d.window .command else none) with
  | none => d.deck.posState = .playing
  | some v => v = 2 ∨ v = 5 ∨ (8 < v ∧ d.deck.posState = .playing)

def Flushed (w : Window) : Prop :=
  c.flushReset ∧ (asked w .flush = some 1 ∨ asked w .flush = some 2)

/-- The named loop is defined, and `ms` is past its end. -/
def Past (selection : Word) (k : Deck) (ms : ℤ) : Prop :=
  ∃ n, named selection = some n ∧ LoopDefined k n ∧ loopEnd k n ≤ ms

instance (selection : Word) (k : Deck) (ms : ℤ) : Decidable (Past selection k ms) :=
  decidable_of_iff (∃ n ∈ named selection, LoopDefined k n ∧ loopEnd k n ≤ ms) Iff.rfl

/-- What a record or a jump of slot `slot` may not do while another loop is named: slot 0's
record ends the loop in force for the tick, a loop's OUT puts that loop in force. -/
def SlotHarmless (selection : Word) (k : Deck) (value : ℤ) (slot : ℕ) : Prop :=
  if slot = 0 then
    isJump value ∨ ((named selection = some 0 ↔ c.loopInSlot0) ∨ ¬Past selection k k.posMs)
  else if loopOutSlot ≤ slot ∧ slot < hotSlots then
    let start := loopIn k (slot - loopOutSlot)
    if isJump value then 0 ≤ start ∧ start < k.hotMs slot → ¬Past selection k start
    else 0 ≤ start ∧ start < k.posMs →
      named selection = some (slot - loopOutSlot) ∧ ¬k.segEndValid (slot - loopOutSlot)
  else True

/-- The segment command changes loop `n` or the loop in force behind the selection's back. -/
def Touches (k : Deck) (slot code n : ℕ) : Prop :=
  if slot < loopOutSlot then
    slot = n ∧ (code = 1 ∨ code = 2 ∨ code = 9) ∨ slot = 0 ∧ code = 1 ∨
      k.segEndValid n ∧ (slot = n ∧ code = 0xc ∨ code = 0xd)
  else
    code = 1 ∧ (hotSlots ≤ slot ∨ slot = loopOutSlot + n ∧ ¬k.segEndValid n) ∨ code = 0xc

def Untouched (d : Device) : Prop :=
  let w := d.window
  let selection := w 0x7bc8
  (∀ v, asked w .slot = some v → IsSlotCommand v →
      SlotHarmless c selection d.deck v (slotOf v (w 0x7c84))) ∧
    (∀ v, asked w .segment = some v → ∀ n, named selection = some n →
      ¬Touches d.deck ((v / 16 % 16).toNat - 1) (v % 16).toNat n) ∧
    (asked w .flush = some 1 → named selection = none)

def slotIn (w : Window) : Option (ℤ × ℕ) :=
  (asked w .slot).bind fun v ↦ if IsSlotCommand v then some (v, slotOf v (w 0x7c84)) else none

def slotAsked (d : Device) : Option (ℤ × ℕ) := if Answers c d then slotIn d.window else none

/-- Where a command of slot `slot` has its point: a jump finds it, a record puts it at the deck. -/
def slotPoint (value : ℤ) (slot : ℕ) (k : Deck) : ℤ := if isJump value then k.hotMs slot else k.posMs

def MakesLoop (k : Deck) (value : ℤ) (slot : ℕ) : Prop :=
  (loopOutSlot ≤ slot ∧ slot < hotSlots) ∧ 0 ≤ loopIn k (slot - loopOutSlot) ∧
    loopIn k (slot - loopOutSlot) < slotPoint value slot k

instance (k : Deck) (value : ℤ) (slot : ℕ) : Decidable (MakesLoop k value slot) := instDecidableAnd

/-- A record or a jump of slot `slot` leaves the selected loop in force, as the table has it then. -/
def SlotLasts (selection : Word) (k : Deck) (value : ℤ) (slot : ℕ) : Prop :=
  let n := slot - loopOutSlot
  if slot = 0 then isJump value ∨ ¬c.loopInSlot0 ∧ named selection ≠ some 0
  else if slot < loopOutSlot then isJump value ∨ 0 ≤ k.hotMs slot ∨ named selection ≠ some slot
  else if hotSlots ≤ slot then True
  else if MakesLoop k value slot then
    named selection = some n ∧ ¬k.segEndValid n ∧ (isJump value → k.loopBuilt n)
  else isJump value ∨ named selection ≠ some n ∨ k.segEndValid n

/-- `ms` is past the END that a record or a jump of slot `slot` leaves in force. -/
def SlotPast (selection : Word) (k : Deck) (value : ℤ) (slot : ℕ) (ms : ℤ) : Prop :=
  if slot = 0 ∧ ¬isJump value ∧ c.loopInSlot0 then False
  else if MakesLoop k value slot then slotPoint value slot k ≤ ms
  else Past selection k ms

/-- The commands of the tick leave the loop that it selects in force. -/
def Lasts (d : Device) : Prop :=
  ∀ s, slotAsked c d = some s → SlotLasts c (d.window 0x7bc8) d.deck s.1 s.2

/-- `ms` is past the END that the tick leaves in force. -/
def PastLeft (d : Device) (ms : ℤ) : Prop :=
  (slotAsked c d).elim (Past (d.window 0x7bc8) d.deck ms)
    fun s ↦ SlotPast c (d.window 0x7bc8) d.deck s.1 s.2 ms

/-- A report after the tick that `last` began: the tick left its loop in force, and MAIN's word
turns the deck back as it did then; or the deck is short of the END in force and of the END
that MAIN's word names. -/
def Kept (last : Device) (now : ℤ) (w : Window) (k : Deck) : Prop :=
  let ms := (advance now (rateWord w) k).posMs
  Lasts c last ∧ turnedBack (last.window 0x7bc8) k ms = turnedBack (w 0x7bc8) k ms ∨
    ¬PastLeft c last ms ∧ ¬Past (w 0x7bc8) k ms

/-- The model, and the state its last tick began in. -/
structure Watch where
  device : Device
  last : Option Device

def Watch.next (x : Watch) (s : Step) : Watch where
  device := step c x.device s
  last := match s with
    | .tick _ => some x.device
    | _ => x.last

/-- Slot, segment, flush and state requests alone, none of which goes behind the selection's
back while the deck plays; and between two ticks nothing comes of what they or MAIN's word have
changed. -/
def Undisturbed (x : Watch) : Step → Prop
  | .guest _ => True
  | .tick _ =>
    (asked x.device.window .header = none ∧ asked x.device.window .format = none ∧
      (x.device.window 0x7ba4).toInt ≤ 0) ∧
      (WillPlay c x.device → Answers c x.device → ¬Flushed c x.device.window → Untouched c x.device)
  | .positionTick now => x.device.deck.posState = .playing →
      ∃ last, x.last = some last ∧ Kept c last now x.device.window x.device.deck

/-- The model answers, with the loop table in use. -/
structure Ready (d : Device) : Prop where
  running : d.running
  cleared : d.controlCleared
  remainder : -scaleMs < d.deck.posRemNs ∧ d.deck.posRemNs < scaleMs

end Statement

section Turns

variable {selection : Word} {now : ℤ} {k k' : Deck}

/-- Where a position goes by the loop in force. -/
def turned (k : Deck) (ms : ℤ) : ℤ :=
  if k.loopOn ∧ k.loopInMs < k.loopOutMs ∧ k.loopOutMs ≤ ms then
    k.loopInMs + (ms - k.loopInMs).tmod (k.loopOutMs - k.loopInMs)
  else ms

theorem wrap_advance (rate : ℤ) (k : Deck) :
    (wrap (advance now rate k)).posMs = turned k (advance now rate k).posMs := by
  unfold wrap turned
  split_ifs <;> first | rfl | contradiction

theorem wrap_remainder (k : Deck) : (wrap k).posRemNs = k.posRemNs := by
  unfold wrap
  split_ifs <;> rfl

theorem turned_off (h : k.loopOn = false) (ms : ℤ) : turned k ms = ms :=
  if_neg fun hw ↦ by simp [h] at hw

theorem turned_before {ms : ℤ} (h : ms < k.loopOutMs) : turned k ms = ms :=
  if_neg fun hw ↦ absurd hw.2.2 (by omega)

theorem turnedBack_of_not_past {ms : ℤ} (h : ¬Past selection k ms) :
    turnedBack selection k ms = ms := by
  unfold turnedBack
  cases hn : named selection with
  | none => rfl
  | some n => exact if_neg fun hp ↦ h ⟨n, hn, hp⟩

theorem turned_of_agrees (h : Agrees selection k) (ms : ℤ) :
    turned k ms = turnedBack selection k ms := by
  unfold Agrees at h
  unfold turnedBack
  cases hn : named selection with
  | none =>
    rw [hn] at h
    exact turned_off h ms
  | some n =>
    rw [hn] at h
    dsimp only at h ⊢
    by_cases hd : LoopDefined k n
    · rw [if_pos hd] at h
      obtain ⟨hon, hin, hout⟩ := h
      have hlt := hd.2.2
      unfold turned
      rw [hon, hin, hout]
      by_cases hms : loopEnd k n ≤ ms
      · rw [if_pos ⟨rfl, hlt, hms⟩, if_pos ⟨hd, hms⟩, Int.tmod_eq_emod_of_nonneg (by omega)]
      · rw [if_neg (fun hw ↦ hms hw.2.2), if_neg (fun hw ↦ hms hw.2)]
    · rw [if_neg hd] at h
      rw [if_neg (fun hw ↦ hd hw.1), turned_off h]

def AgreesHere (now : ℤ) (selection : Word) (k : Deck) : Prop :=
  k.posLastNs = now ∧ turned k k.posMs = turnedBack selection k k.posMs ∧
    (named selection = none → k.loopOn → k.posMs < k.loopOutMs)

theorem reportTurns (now : ℤ) (hrem : -scaleMs < k.posRemNs ∧ k.posRemNs < scaleMs) (w : Window)
    (h : k.posState = .playing → Agrees (w 0x7bc8) k ∨ AgreesHere now (w 0x7bc8) k) :
    ReportTurns now w k
      (if k.posState = .playing then wrap (advance now (rateWord w) k) else k) := by
  unfold ReportTurns
  by_cases hp : k.posState = .playing
  · rw [if_pos hp, if_pos hp, wrap_advance]
    rcases h hp with ha | ⟨hlast, hhere, -⟩
    · rw [turned_of_agrees ha]
    · rw [advance_now hlast hrem, hhere]
  · rw [if_neg hp, if_neg hp]

end Turns

section Moves

variable {c : Config} {selection : Word} {now : ℤ} {w : Window} {k k' : Deck}

/-- The loop in force is left alone. -/
structure SameForce (k k' : Deck) : Prop where
  loopOn : k'.loopOn = k.loopOn
  loopInMs : k'.loopInMs = k.loopInMs
  loopOutMs : k'.loopOutMs = k.loopOutMs

/-- The table's loop `n` is left alone. -/
structure SameLoop (n : ℕ) (k k' : Deck) : Prop where
  defined : LoopDefined k' n ↔ LoopDefined k n
  start : loopIn k' n = loopIn k n
  finish : loopEnd k' n = loopEnd k n

theorem SameForce.turned_eq (h : SameForce k k') (ms : ℤ) : turned k' ms = turned k ms := by
  unfold turned
  rw [h.loopOn, h.loopInMs, h.loopOutMs]

theorem turnedBack_of_same (h : ∀ n, named selection = some n → SameLoop n k k') (ms : ℤ) :
    turnedBack selection k' ms = turnedBack selection k ms := by
  unfold turnedBack
  cases hn : named selection with
  | none => rfl
  | some n =>
    obtain ⟨hd, hi, he⟩ := h n hn
    dsimp only
    rw [hi, he]
    simp only [hd]

theorem Agrees.of_same (ha : Agrees selection k) (hf : SameForce k k')
    (h : ∀ n, named selection = some n → SameLoop n k k') : Agrees selection k' := by
  unfold Agrees at ha ⊢
  cases hn : named selection with
  | none =>
    rw [hn] at ha
    exact hf.loopOn.trans ha
  | some n =>
    rw [hn] at ha
    obtain ⟨hd, hi, he⟩ := h n hn
    dsimp only at ha ⊢
    rw [hf.loopOn, hf.loopInMs, hf.loopOutMs, hi, he]
    simpa only [hd] using ha

theorem AgreesHere.of_same (ha : AgreesHere now selection k) (hf : SameForce k k')
    (hms : k'.posMs = k.posMs) (hlast : k'.posLastNs = k.posLastNs)
    (h : ∀ n, named selection = some n → SameLoop n k k') : AgreesHere now selection k' := by
  obtain ⟨h1, h2, h3⟩ := ha
  refine ⟨hlast.trans h1, ?_, ?_⟩
  · rw [hms, hf.turned_eq, turnedBack_of_same h, h2]
  · rw [hf.loopOn, hf.loopOutMs, hms]
    exact h3

theorem named_lt {n : ℕ} (h : named selection = some n) : n < loopOutSlot := by
  unfold named at h
  split_ifs at h
  obtain rfl := Option.some.inj h
  unfold loopOutSlot at *
  omega

theorem loopSelect_agrees (selection : Word) (k : Deck) :
    Agrees selection (loopSelect selection k) := by
  let n := selection.toNat - 1
  by_cases hs : 1 ≤ selection.toNat ∧ selection.toNat ≤ loopOutSlot
  · have hnamed : named selection = some n := if_pos hs
    unfold Agrees
    rw [hnamed]
    by_cases hd : LoopDefined k n
    · have hselect : loopSelect selection k =
          { k with loopOn := true, loopInMs := loopIn k n, loopOutMs := loopEnd k n } :=
        if_pos ⟨hs.1, hs.2, hd⟩
      rw [hselect]
      dsimp only
      rw [if_pos (show LoopDefined { k with
        loopOn := true, loopInMs := loopIn k n, loopOutMs := loopEnd k n } n from hd)]
      exact ⟨rfl, rfl, rfl⟩
    · have hselect : loopSelect selection k = { k with loopOn := false } :=
        if_neg fun h ↦ hd h.2.2
      rw [hselect]
      dsimp only
      rw [if_neg (show ¬LoopDefined { k with loopOn := false } n from hd)]
  · have hnamed : named selection = none := if_neg hs
    have hselect : loopSelect selection k = { k with loopOn := false } :=
      if_neg fun h ↦ hs ⟨h.1, h.2.1⟩
    unfold Agrees
    rw [hnamed, hselect]

section Segments

variable {slot code : ℕ} {point : ℤ}

theorem segmentMove_place (c : Config) (slot code : ℕ) (point : ℤ) (k : Deck) :
    (segmentMove c slot code point k).posMs = k.posMs ∧
      (segmentMove c slot code point k).posLastNs = k.posLastNs ∧
      (segmentMove c slot code point k).posState = k.posState ∧
      (segmentMove c slot code point k).posRemNs = k.posRemNs := by
  unfold segmentMove
  dsimp only
  split_ifs <;> exact ⟨rfl, rfl, rfl, rfl⟩

theorem segmentMove_force (hselect : c.loopSelect)
    (h : (segmentMove c slot code point k).loopOn) :
    k.loopOn ∧ (segmentMove c slot code point k).loopOutMs = k.loopOutMs := by
  unfold segmentMove loopOutSlot at *
  dsimp only at *
  split_ifs at * <;> simp_all

/-- The points and flags behind loop `n`. -/
theorem SameLoop.of_fields {n : ℕ} (hvalid : k'.segEndValid n = k.segEndValid n)
    (hcached : k.segEndValid n → k'.segEndMs n = k.segEndMs n)
    (hbuilt : k'.loopBuilt n = k.loopBuilt n) (hstart : loopIn k' n = loopIn k n)
    (hout : ¬k.segEndValid n → k'.hotMs (loopOutSlot + n) = k.hotMs (loopOutSlot + n)) :
    SameLoop n k k' := by
  have hfinish : loopEnd k' n = loopEnd k n := by
    unfold loopEnd
    rw [hvalid]
    by_cases hv : k.segEndValid n
    · rw [if_pos hv, if_pos hv, hcached hv]
    · rw [if_neg hv, if_neg hv, hout hv]
  refine ⟨?_, hstart, hfinish⟩
  unfold LoopDefined
  rw [hvalid, hbuilt, hstart, hfinish]

theorem SameLoop.refl (n : ℕ) (k : Deck) : SameLoop n k k := ⟨Iff.rfl, rfl, rfl⟩

theorem loopIn_update {n : ℕ} {hot : ℕ → ℤ} (hcue : n = 0 → k'.cueMs = k.cueMs)
    (hhot : k'.hotMs = hot) (h : n ≠ 0 → hot n = k.hotMs n) : loopIn k' n = loopIn k n := by
  unfold loopIn
  by_cases hn : n = 0
  · rw [if_pos hn, if_pos hn, hcue hn]
  · rw [if_neg hn, if_neg hn, hhot, h hn]

theorem tableMove_same (hselect : c.loopSelect) (hslot : slot < loopOutSlot) {n : ℕ}
    (hn : n < loopOutSlot) (h : ¬Touches k slot code n)
    (hcode : code = 1 ∨ code = 2 ∨ code = 9 ∨ code = 0xc ∨ code = 0xd) :
    SameForce k (segmentMove c slot code point k) ∧
      SameLoop n k (segmentMove c slot code point k) := by
  unfold Touches at h
  rw [if_pos hslot] at h
  unfold segmentMove
  rw [if_pos ⟨hselect, hslot, hcode⟩]
  have h5 : loopOutSlot = 5 := rfl
  rcases hcode with rfl | rfl | rfl | rfl | rfl
  · have hne : n ≠ slot := fun he ↦ h (.inl ⟨he.symm, .inl rfl⟩)
    have h0 : slot ≠ 0 := fun he ↦ h (.inr (.inl ⟨he, rfl⟩))
    rw [if_pos rfl]
    dsimp only
    rw [if_neg h0]
    refine ⟨⟨rfl, rfl, rfl⟩, .of_fields rfl (fun _ ↦ rfl) (update_of_ne hne _ _) ?_ ?_⟩
    · refine loopIn_update (fun _ ↦ rfl) rfl fun _ ↦ ?_
      exact (update_of_ne (by omega) _ _).trans (update_of_ne hne _ _)
    · intro _
      exact (update_of_ne (by omega) _ _).trans (update_of_ne (by omega) _ _)
  · have hne : n ≠ slot := fun he ↦ h (.inl ⟨he.symm, .inr (.inl rfl)⟩)
    rw [if_neg (by decide), if_pos rfl]
    refine ⟨⟨rfl, rfl, rfl⟩, .of_fields rfl (fun _ ↦ rfl) (update_of_ne hne _ _) ?_ ?_⟩
    · exact loopIn_update (fun _ ↦ rfl) rfl fun _ ↦ update_of_ne (by omega) _ _
    · exact fun _ ↦ update_of_ne (by omega) _ _
  · have hne : n ≠ slot := fun he ↦ h (.inl ⟨he.symm, .inr (.inr rfl)⟩)
    rw [if_neg (by decide), if_neg (by decide), if_pos rfl]
    exact ⟨⟨rfl, rfl, rfl⟩, .of_fields (update_of_ne hne _ _) (fun _ ↦ update_of_ne hne _ _) rfl
      rfl fun _ ↦ rfl⟩
  · rw [if_neg (by decide), if_neg (by decide), if_neg (by decide), if_pos rfl]
    refine ⟨⟨rfl, rfl, rfl⟩, .of_fields ?_ (fun _ ↦ rfl) rfl rfl fun _ ↦ rfl⟩
    by_cases he : n = slot
    · subst he
      have hv : ¬k.segEndValid n := fun hv ↦ h (.inr (.inr ⟨hv, .inl ⟨rfl, rfl⟩⟩))
      dsimp only
      rw [update_self, Bool.eq_false_of_not_eq_true hv]
    · exact update_of_ne he _ _
  · have hv : ¬k.segEndValid n := fun hv ↦ h (.inr (.inr ⟨hv, .inr rfl⟩))
    rw [if_neg (by decide), if_neg (by decide), if_neg (by decide), if_neg (by decide)]
    refine ⟨⟨rfl, rfl, rfl⟩, .of_fields ?_ (fun _ ↦ rfl) rfl rfl fun _ ↦ rfl⟩
    dsimp only
    rw [if_pos hn, Bool.eq_false_of_not_eq_true hv]

theorem segmentMove_same (hselect : c.loopSelect) {n : ℕ} (hn : n < loopOutSlot)
    (h : ¬Touches k slot code n) :
    SameForce k (segmentMove c slot code point k) ∧
      SameLoop n k (segmentMove c slot code point k) := by
  by_cases htable : slot < loopOutSlot ∧
      (code = 1 ∨ code = 2 ∨ code = 9 ∨ code = 0xc ∨ code = 0xd)
  · exact tableMove_same hselect htable.1 hn h htable.2
  have hsame : SameForce k k ∧ SameLoop n k k := ⟨⟨rfl, rfl, rfl⟩, .refl n k⟩
  unfold segmentMove
  rw [if_neg (fun hw ↦ htable hw.2)]
  unfold Touches at h
  by_cases hslot : slot < loopOutSlot
  · have hcode : ¬(code = 1 ∨ code = 2 ∨ code = 9 ∨ code = 0xc ∨ code = 0xd) :=
      fun hc ↦ htable ⟨hslot, hc⟩
    rw [if_neg (by omega), if_neg (by omega), if_neg (by omega), if_neg (by omega),
      if_neg (fun hw ↦ by omega)]
    exact hsame
  · rw [if_neg hslot] at h
    have h5 : loopOutSlot = 5 := rfl
    have h10 : hotSlots = 10 := rfl
    by_cases h1 : code = 1
    · have hlow : slot < 10 := by
        by_contra hge
        exact h (.inl ⟨h1, .inl (by omega)⟩)
      rw [if_pos ⟨h1, by omega, hlow⟩]
      refine ⟨⟨rfl, rfl, rfl⟩, .of_fields rfl (fun _ ↦ rfl) rfl ?_ ?_⟩
      · exact loopIn_update (fun _ ↦ rfl) rfl fun _ ↦ update_of_ne (by omega) _ _
      · intro hv
        refine update_of_ne (fun he ↦ h (.inl ⟨h1, .inr ⟨he.symm, hv⟩⟩)) _ _
    · have h12 : code ≠ 0xc := fun hc ↦ h (.inr hc)
      rw [if_neg (by omega)]
      by_cases h2 : code = 2
      · rw [if_pos ⟨h2, by omega⟩]
        exact hsame
      · rw [if_neg (by omega), if_neg h1, if_neg h2, if_neg (fun hw ↦ h12 hw.1)]
        exact hsame

end Segments

section Slots

variable {value : ℤ} {slot : ℕ}

def movedSlot (c : Config) (now value : ℤ) (slot : ℕ) (k : Deck) : Deck :=
  { slotMove c (isJump value) slot k with posLastNs := now }

theorem slotDeck_eq (hreport : c.posReport) (h433 : c.states433) (hv : IsSlotCommand value)
    (parameter : Word) (k : Deck) :
    slotDeck c now value parameter k = movedSlot c now value (slotOf value parameter) k := by
  unfold slotDeck
  rw [if_neg (by simp [hreport, hv])]
  exact if_neg fun h ↦ h.2.2.1 h433

theorem agreesHere_of_still (hlast : k.posLastNs = now) (hturn : turned k k.posMs = k.posMs)
    (hpast : ¬Past selection k k.posMs)
    (hout : named selection = none → k.loopOn → k.posMs < k.loopOutMs) :
    AgreesHere now selection k :=
  ⟨hlast, hturn.trans (turnedBack_of_not_past hpast).symm, hout⟩

theorem Agrees.out_of_on (ha : Agrees selection k) (hon : k.loopOn) :
    ∃ n, named selection = some n ∧ LoopDefined k n ∧ k.loopInMs = loopIn k n ∧
      k.loopOutMs = loopEnd k n := by
  unfold Agrees at ha
  cases hn : named selection with
  | none =>
    rw [hn] at ha
    exact absurd (hon.symm.trans ha) (by decide)
  | some n =>
    rw [hn] at ha
    dsimp only at ha
    by_cases hd : LoopDefined k n
    · rw [if_pos hd] at ha
      exact ⟨n, rfl, hd, ha.2⟩
    · rw [if_neg hd] at ha
      exact absurd (hon.symm.trans ha) (by decide)

theorem Agrees.past_of_on (ha : Agrees selection k) (hon : k.loopOn) {ms : ℤ} (hms : k.loopOutMs ≤ ms) :
    Past selection k ms := by
  obtain ⟨n, hn, hd, -, hout⟩ := ha.out_of_on hon
  exact ⟨n, hn, hd, hout ▸ hms⟩

theorem Agrees.turned_of_not_past (ha : Agrees selection k) {ms : ℤ}
    (hpast : ¬Past selection k ms) : turned k ms = ms :=
  (turned_of_agrees ha ms).trans (turnedBack_of_not_past hpast)

theorem loopIn_out {n m : ℕ} (hn : n < loopOutSlot) (hcue : k'.cueMs = k.cueMs) {v : ℤ}
    (hhot : k'.hotMs = update k.hotMs (loopOutSlot + m) v) : loopIn k' n = loopIn k n :=
  loopIn_update (fun _ ↦ hcue) hhot fun _ ↦ update_of_ne (by omega) _ _

theorem slotMove_out (hslots : c.loopSlots) {m : ℕ} (hm : m < loopOutSlot) (k : Deck) :
    slotMove c false (loopOutSlot + m) k =
      let recorded : Deck := { k with
        hotMs := update k.hotMs (loopOutSlot + m) k.posMs
        loopBuilt := update k.loopBuilt m true }
      if 0 ≤ loopIn k m ∧ loopIn k m < k.posMs then
        { recorded with loopInMs := loopIn k m, loopOutMs := k.posMs, loopOn := true }
      else recorded := by
  have h5 : loopOutSlot = 5 := rfl
  have h10 : hotSlots = 10 := rfl
  unfold slotMove
  rw [if_neg (by omega), if_neg (by omega), if_neg (by omega), if_pos ⟨hslots, by omega⟩]
  simp only [Nat.add_sub_cancel_left, update_self, Bool.false_eq_true, not_false_eq_true, if_true,
    if_false]

theorem slotMove_outJump (hslots : c.loopSlots) {m : ℕ} (hm : m < loopOutSlot) (k : Deck) :
    slotMove c true (loopOutSlot + m) k =
      if 0 ≤ loopIn k m ∧ loopIn k m < k.hotMs (loopOutSlot + m) then
        { k with
          loopInMs := loopIn k m
          loopOutMs := k.hotMs (loopOutSlot + m)
          loopOn := true
          posMs := loopIn k m }
      else k := by
  have h5 : loopOutSlot = 5 := rfl
  have h10 : hotSlots = 10 := rfl
  unfold slotMove
  rw [if_neg (by omega), if_neg (by omega), if_neg (by omega), if_pos ⟨hslots, by omega⟩]
  simp only [Nat.add_sub_cancel_left, not_true_eq_false, if_true, if_false]

theorem makesLoop_out {m : ℕ} (hm : m < loopOutSlot) :
    MakesLoop k value (loopOutSlot + m) ↔
      0 ≤ loopIn k m ∧ loopIn k m < slotPoint value (loopOutSlot + m) k := by
  unfold MakesLoop hotSlots loopOutSlot at *
  rw [Nat.add_sub_cancel_left]
  exact and_iff_right (by omega)

theorem not_makesLoop (h : ¬(loopOutSlot ≤ slot ∧ slot < hotSlots)) : ¬MakesLoop k value slot :=
  fun hm ↦ h hm.1

section Lasting

theorem cueMove_lasts (ha : Agrees selection k) (h : SlotLasts c selection k value 0) :
    Agrees selection (movedSlot c now value 0 k) := by
  unfold SlotLasts at h
  rw [if_pos rfl] at h
  unfold movedSlot slotMove
  obtain hj | ⟨hin, h0⟩ := h
  · rw [if_neg (by simp [hj]), if_pos rfl]
    exact ha.of_same ⟨rfl, rfl, rfl⟩ fun n _ ↦ ⟨Iff.rfl, rfl, rfl⟩
  · by_cases hj : isJump value
    · rw [if_neg (by simp [hj]), if_pos rfl]
      exact ha.of_same ⟨rfl, rfl, rfl⟩ fun n _ ↦ ⟨Iff.rfl, rfl, rfl⟩
    · rw [if_pos ⟨rfl, hj⟩]
      dsimp only
      rw [if_neg hin]
      refine ha.of_same ⟨rfl, rfl, rfl⟩ fun n hn ↦ ?_
      have hne : n ≠ 0 := by
        rintro rfl
        exact h0 hn
      exact .of_fields rfl (fun _ ↦ rfl) rfl (loopIn_update (fun h ↦ absurd h hne) rfl fun _ ↦ rfl) fun _ ↦ rfl

/-- Slots 1 to 4: a point is recorded where there is none, or jumped to. -/
theorem hotMove_lasts (ha : Agrees selection k) (hlow : 1 ≤ slot) (hhigh : slot < loopOutSlot)
    (h : SlotLasts c selection k value slot) : Agrees selection (movedSlot c now value slot k) := by
  have h5 : loopOutSlot = 5 := rfl
  have h10 : hotSlots = 10 := rfl
  unfold SlotLasts at h
  rw [if_neg (by omega), if_pos hhigh] at h
  have hsame : ∀ n, named selection = some n → SameLoop n k { k with posLastNs := now } :=
    fun n _ ↦ ⟨Iff.rfl, rfl, rfl⟩
  unfold movedSlot slotMove
  rw [if_neg (by omega), if_neg (by omega), if_neg (by omega), if_neg (by omega)]
  by_cases hj : isJump value
  · rw [if_neg (not_not_intro hj)]
    split_ifs
    · exact ha.of_same ⟨rfl, rfl, rfl⟩ fun n _ ↦ ⟨Iff.rfl, rfl, rfl⟩
    · exact ha.of_same ⟨rfl, rfl, rfl⟩ hsame
  · rw [if_pos hj]
    obtain hfull | hs := h.resolve_left hj
    · rw [if_neg (Int.not_lt.mpr hfull)]
      exact ha.of_same ⟨rfl, rfl, rfl⟩ hsame
    · split_ifs
      · refine ha.of_same ⟨rfl, rfl, rfl⟩ fun n hn ↦ ?_
        have hne : n ≠ slot := by
          rintro rfl
          exact hs hn
        refine .of_fields rfl (fun _ ↦ rfl) rfl ?_ (fun _ ↦ update_of_ne (by omega) _ _)
        exact loopIn_update (fun _ ↦ rfl) rfl fun _ ↦ update_of_ne hne _ _
      · exact ha.of_same ⟨rfl, rfl, rfl⟩ hsame

theorem agrees_of_loop {n : ℕ} (hn : named selection = some n) (hd : LoopDefined k n) (hon : k.loopOn)
    (hin : k.loopInMs = loopIn k n) (hout : k.loopOutMs = loopEnd k n) : Agrees selection k := by
  unfold Agrees
  rw [hn]
  dsimp only
  rw [if_pos hd]
  exact ⟨hon, hin, hout⟩

theorem outJump_lasts (hslots : c.loopSlots) (ha : Agrees selection k) {m : ℕ} (hm : m < loopOutSlot)
    (hj : isJump value = true) (h : if 0 ≤ loopIn k m ∧ loopIn k m < k.hotMs (loopOutSlot + m) then
      named selection = some m ∧ ¬k.segEndValid m ∧ k.loopBuilt m else True) :
    Agrees selection (movedSlot c now value (loopOutSlot + m) k) := by
  unfold movedSlot
  rw [hj, slotMove_outJump hslots hm]
  by_cases hloop : 0 ≤ loopIn k m ∧ loopIn k m < k.hotMs (loopOutSlot + m)
  · rw [if_pos hloop] at h ⊢
    obtain ⟨hn, hvalid, hbuilt⟩ := h
    have hfinish : loopEnd k m = k.hotMs (loopOutSlot + m) := if_neg hvalid
    have hd : LoopDefined k m := ⟨.inr hbuilt, hloop.1, hfinish ▸ hloop.2⟩
    exact agrees_of_loop hn hd rfl rfl hfinish.symm
  · rw [if_neg hloop]
    exact ha.of_same ⟨rfl, rfl, rfl⟩ fun n _ ↦ ⟨Iff.rfl, rfl, rfl⟩

/-- An OUT record before the loop's IN builds the loop of the table, which is the selected one only where its END is
cached. -/
theorem outBuild_lasts (ha : Agrees selection k) {m : ℕ} (hm : m < loopOutSlot)
    (h : named selection ≠ some m ∨ k.segEndValid m) :
    Agrees selection { k with
      hotMs := update k.hotMs (loopOutSlot + m) k.posMs
      loopBuilt := update k.loopBuilt m true
      posLastNs := now } := by
  have h5 : loopOutSlot = 5 := rfl
  refine ha.of_same ⟨rfl, rfl, rfl⟩ fun n hn ↦ ?_
  by_cases hne : n = m
  · subst hne
    have hvalid : k.segEndValid n := h.resolve_left (not_not.mpr hn)
    let k' : Deck := { k with
      hotMs := update k.hotMs (loopOutSlot + n) k.posMs
      loopBuilt := update k.loopBuilt n true
      posLastNs := now }
    have hstart : loopIn k' n = loopIn k n := loopIn_out hm rfl rfl
    have hfinish : loopEnd k' n = loopEnd k n := (if_pos hvalid).trans (if_pos hvalid).symm
    refine ⟨?_, hstart, hfinish⟩
    unfold LoopDefined
    rw [hstart, hfinish]
    exact and_congr_left fun _ ↦ ⟨fun _ ↦ .inl hvalid, fun _ ↦ .inl hvalid⟩
  · exact .of_fields rfl (fun _ ↦ rfl) (update_of_ne hne _ _)
      (loopIn_out (named_lt hn) rfl rfl) fun _ ↦ update_of_ne (by omega) _ _

theorem outRecord_lasts (hslots : c.loopSlots) (ha : Agrees selection k) {m : ℕ} (hm : m < loopOutSlot)
    (hj : isJump value = false) (h : if 0 ≤ loopIn k m ∧ loopIn k m < k.posMs then
      named selection = some m ∧ ¬k.segEndValid m else named selection ≠ some m ∨ k.segEndValid m) :
    Agrees selection (movedSlot c now value (loopOutSlot + m) k) := by
  unfold movedSlot
  rw [hj, slotMove_out hslots hm]
  dsimp only
  by_cases hloop : 0 ≤ loopIn k m ∧ loopIn k m < k.posMs
  · rw [if_pos hloop] at h ⊢
    obtain ⟨hn, hvalid⟩ := h
    let k' : Deck := { k with
      hotMs := update k.hotMs (loopOutSlot + m) k.posMs
      loopBuilt := update k.loopBuilt m true
      loopInMs := loopIn k m
      loopOutMs := k.posMs
      loopOn := true
      posLastNs := now }
    have hstart : loopIn k' m = loopIn k m := loopIn_out hm rfl rfl
    have hfinish : loopEnd k' m = k.posMs := (if_neg hvalid).trans (update_self ..)
    have hd : LoopDefined k' m := by
      refine ⟨.inr (update_self ..), ?_, ?_⟩
      · exact hstart ▸ hloop.1
      · rw [hstart, hfinish]
        exact hloop.2
    exact agrees_of_loop (k := k') hn hd rfl hstart.symm hfinish.symm
  · rw [if_neg hloop] at h ⊢
    exact outBuild_lasts ha hm h

theorem outMove_lasts (hslots : c.loopSlots) (ha : Agrees selection k) {m : ℕ} (hm : m < loopOutSlot)
    (h : SlotLasts c selection k value (loopOutSlot + m)) :
    Agrees selection (movedSlot c now value (loopOutSlot + m) k) := by
  have h5 : loopOutSlot = 5 := rfl
  have h10 : hotSlots = 10 := rfl
  unfold SlotLasts at h
  dsimp only at h
  rw [if_neg (by omega), if_neg (by omega), if_neg (by omega), Nat.add_sub_cancel_left] at h
  simp only [makesLoop_out hm, slotPoint] at h
  by_cases hj : isJump value
  · rw [if_pos hj] at h
    refine outJump_lasts hslots ha hm hj ?_
    split_ifs at h ⊢
    exact ⟨h.1, h.2.1, h.2.2 hj⟩
  · rw [if_neg hj] at h
    refine outRecord_lasts hslots ha hm (Bool.eq_false_of_not_eq_true hj) ?_
    split_ifs at h ⊢
    · exact ⟨h.1, h.2.1⟩
    · exact h.resolve_left hj

theorem movedSlot_lasts (hslots : c.loopSlots) (ha : Agrees selection k)
    (h : SlotLasts c selection k value slot) : Agrees selection (movedSlot c now value slot k) := by
  have h5 : loopOutSlot = 5 := rfl
  have h10 : hotSlots = 10 := rfl
  by_cases h0 : slot = 0
  · subst h0
    exact cueMove_lasts ha h
  by_cases hlow : slot < loopOutSlot
  · exact hotMove_lasts ha (by omega) hlow h
  by_cases hhigh : slot < hotSlots
  · obtain ⟨m, rfl⟩ := Nat.exists_eq_add_of_le (Nat.le_of_not_lt hlow)
    exact outMove_lasts hslots ha (by omega) h
  · unfold movedSlot slotMove
    rw [if_neg (by omega), if_neg h0, if_pos (by omega)]
    exact ha.of_same ⟨rfl, rfl, rfl⟩ fun n _ ↦ ⟨Iff.rfl, rfl, rfl⟩

end Lasting

section Here

/-- Slot 0 is recorded, and its loop changes or the loop in force ends: nothing is turned back where
the deck is. -/
theorem cueMove_here (ha : Agrees selection k) (hharmless : SlotHarmless c selection k value 0)
    (hchanges : ¬SlotLasts c selection k value 0) : AgreesHere now selection (movedSlot c now value 0 k) := by
  unfold SlotHarmless at hharmless
  unfold SlotLasts at hchanges
  rw [if_pos rfl] at hharmless hchanges
  obtain ⟨hj, hchanges⟩ := not_or.mp hchanges
  obtain hjump | hharmless := hharmless
  · exact absurd hjump hj
  unfold movedSlot slotMove
  rw [if_pos ⟨rfl, hj⟩]
  have hstart : ∀ k' : Deck, k'.cueMs = k.posMs → k'.posMs = k.posMs →
      named selection = some 0 → ¬Past selection k' k'.posMs := by
    rintro k' hcue hms h0 ⟨n, hn, hd, he⟩
    obtain rfl := Option.some.inj (h0.symm.trans hn)
    have hlt := hd.2.2
    unfold loopIn at hlt
    rw [if_pos rfl, hcue] at hlt
    omega
  dsimp only
  by_cases hin : c.loopInSlot0
  · rw [if_pos hin]
    refine agreesHere_of_still rfl (turned_off rfl _) ?_ (fun _ h ↦ absurd h Bool.false_ne_true)
    by_cases h0 : named selection = some 0
    · exact hstart _ rfl rfl h0
    · rintro ⟨n, hn, hd, he⟩
      have hne : n ≠ 0 := by
        rintro rfl
        exact h0 hn
      have hsame : SameLoop n k { k with cueMs := k.posMs, loopInMs := k.posMs, loopOn := false, posLastNs := now } :=
        .of_fields rfl (fun _ ↦ rfl) rfl (loopIn_update (fun h ↦ absurd h hne) rfl fun _ ↦ rfl) fun _ ↦ rfl
      have hpast : Past selection k k.posMs := ⟨n, hn, hsame.defined.mp hd, hsame.finish ▸ he⟩
      exact hharmless.elim (fun h ↦ h0 (h.mpr hin)) fun h ↦ h hpast
  · rw [if_neg hin]
    have h0 : named selection = some 0 := not_not.mp fun h0 ↦ hchanges ⟨hin, h0⟩
    have hp : ¬Past selection k k.posMs := hharmless.resolve_left fun h ↦ hin (h.mp h0)
    refine agreesHere_of_still rfl (ha.turned_of_not_past hp) (hstart _ rfl rfl h0) fun hnone ↦ ?_
    exact absurd (h0.symm.trans hnone) (Option.some_ne_none 0)

theorem hotMove_here (ha : Agrees selection k) (hlow : 1 ≤ slot) (hhigh : slot < loopOutSlot)
    (hchanges : ¬SlotLasts c selection k value slot) : AgreesHere now selection (movedSlot c now value slot k) := by
  have h5 : loopOutSlot = 5 := rfl
  have h10 : hotSlots = 10 := rfl
  unfold SlotLasts at hchanges
  rw [if_neg (by omega), if_pos hhigh] at hchanges
  obtain ⟨hj, hempty, hs⟩ := (not_or.mp hchanges).imp_right not_or.mp
  rw [not_not] at hs
  unfold movedSlot slotMove
  rw [if_neg (by omega), if_neg (by omega), if_neg (by omega), if_neg (by omega), if_pos hj,
    if_pos (Int.not_le.mp hempty)]
  have hoff : k.loopOn = false := by
    by_contra hon
    obtain ⟨n, hn, hd, -⟩ := ha.out_of_on (Bool.eq_true_of_not_eq_false hon)
    obtain rfl := Option.some.inj (hs.symm.trans hn)
    have hin := hd.2.1
    unfold loopIn at hin
    rw [if_neg (by omega)] at hin
    exact hempty hin
  let k' : Deck := { k with hotMs := update k.hotMs slot k.posMs, posLastNs := now }
  have hstart : loopIn k' slot = k.posMs := by
    unfold loopIn
    rw [if_neg (by omega)]
    exact update_self ..
  have hpast : ¬Past selection k' k.posMs := by
    rintro ⟨n, hn, hd, he⟩
    obtain rfl := Option.some.inj (hs.symm.trans hn)
    have hlt := hd.2.2
    omega
  exact agreesHere_of_still (k := k') rfl (turned_off hoff _) hpast fun hnone ↦
    absurd (hs.symm.trans hnone) (Option.some_ne_none slot)

/-- A jump puts another loop in force, with the deck at its IN; or the named loop's OUT is recorded
at its IN or before it. -/
theorem outMove_here (hslots : c.loopSlots) (ha : Agrees selection k) {m : ℕ} (hm : m < loopOutSlot)
    (hharmless : SlotHarmless c selection k value (loopOutSlot + m))
    (hchanges : ¬SlotLasts c selection k value (loopOutSlot + m)) :
    AgreesHere now selection (movedSlot c now value (loopOutSlot + m) k) := by
  have h5 : loopOutSlot = 5 := rfl
  have h10 : hotSlots = 10 := rfl
  unfold SlotHarmless at hharmless
  unfold SlotLasts at hchanges
  dsimp only at hharmless hchanges
  rw [if_neg (by omega), if_pos (by omega), Nat.add_sub_cancel_left] at hharmless
  rw [if_neg (by omega), if_neg (by omega), if_neg (by omega), Nat.add_sub_cancel_left] at hchanges
  simp only [makesLoop_out hm, slotPoint] at hchanges
  unfold movedSlot
  by_cases hj : isJump value
  · rw [if_pos hj] at hharmless hchanges
    by_cases hloop : 0 ≤ loopIn k m ∧ loopIn k m < k.hotMs (loopOutSlot + m)
    · rw [hj, slotMove_outJump hslots hm, if_pos hloop]
      exact agreesHere_of_still rfl (turned_before hloop.2) (hharmless hloop) fun _ _ ↦ hloop.2
    · rw [if_neg hloop] at hchanges
      exact absurd (.inl hj) hchanges
  · rw [if_neg hj] at hharmless hchanges
    by_cases hloop : 0 ≤ loopIn k m ∧ loopIn k m < k.posMs
    · obtain ⟨hn, hvalid⟩ := hharmless hloop
      rw [if_pos hloop] at hchanges
      exact absurd ⟨hn, hvalid, fun h ↦ absurd h hj⟩ hchanges
    · rw [Bool.eq_false_of_not_eq_true hj, slotMove_out hslots hm]
      rw [if_neg hloop] at hchanges ⊢
      have hs : named selection = some m := not_not.mp fun hs ↦ hchanges (.inr (.inl hs))
      let k' : Deck := { k with
        hotMs := update k.hotMs (loopOutSlot + m) k.posMs
        loopBuilt := update k.loopBuilt m true
        posLastNs := now }
      have hstart : loopIn k' m = loopIn k m := loopIn_out hm rfl rfl
      have hpast : ∀ x : Deck, loopIn x m = loopIn k m → ¬Past selection x k.posMs := by
        rintro x hx ⟨n, hn, hd, he⟩
        obtain rfl := Option.some.inj (hs.symm.trans hn)
        obtain ⟨-, h0, hlt⟩ := hd
        rw [hx] at h0 hlt
        exact hloop ⟨h0, by omega⟩
      exact agreesHere_of_still (k := k') rfl (ha.turned_of_not_past (hpast k rfl)) (hpast k' hstart)
        fun hnone ↦ absurd (hs.symm.trans hnone) (Option.some_ne_none m)

theorem movedSlot_agrees (hslots : c.loopSlots) (ha : Agrees selection k)
    (hharmless : SlotHarmless c selection k value slot) :
    Agrees selection (movedSlot c now value slot k) ∨
      AgreesHere now selection (movedSlot c now value slot k) := by
  have h5 : loopOutSlot = 5 := rfl
  have h10 : hotSlots = 10 := rfl
  by_cases hlasts : SlotLasts c selection k value slot
  · exact .inl (movedSlot_lasts hslots ha hlasts)
  refine .inr ?_
  by_cases h0 : slot = 0
  · subst h0
    exact cueMove_here ha hharmless hlasts
  by_cases hlow : slot < loopOutSlot
  · exact hotMove_here ha (by omega) hlow hlasts
  by_cases hhigh : slot < hotSlots
  · obtain ⟨m, rfl⟩ := Nat.exists_eq_add_of_le (Nat.le_of_not_lt hlow)
    exact outMove_here hslots ha (by omega) hharmless hlasts
  · refine absurd ?_ hlasts
    unfold SlotLasts
    dsimp only
    rw [if_neg h0, if_neg hlow, if_pos (Nat.le_of_not_lt hhigh)]
    trivial

theorem movedSlot_past (hslots : c.loopSlots) (ha : Agrees selection k) {ms : ℤ}
    (hon : (movedSlot c now value slot k).loopOn) (hms : (movedSlot c now value slot k).loopOutMs ≤ ms) :
    SlotPast c selection k value slot ms := by
  have h5 : loopOutSlot = 5 := rfl
  have h10 : hotSlots = 10 := rfl
  unfold movedSlot at hon hms
  unfold SlotPast
  by_cases h0 : slot = 0
  · subst h0
    have hmakes : ¬MakesLoop k value 0 := not_makesLoop (by omega)
    unfold slotMove at hon hms
    by_cases hj : isJump value
    · rw [if_neg (by simp [hj]), if_pos rfl] at hon hms
      rw [if_neg (fun h ↦ h.2.1 hj), if_neg hmakes]
      exact ha.past_of_on hon hms
    · rw [if_pos ⟨rfl, hj⟩] at hon hms
      dsimp only at hon hms
      by_cases hin : c.loopInSlot0
      · rw [if_pos hin] at hon
        cases hon
      · rw [if_neg hin] at hon hms
        rw [if_neg (fun h ↦ hin h.2.2), if_neg hmakes]
        exact ha.past_of_on hon hms
  rw [if_neg (fun h ↦ h0 h.1)]
  by_cases hout : loopOutSlot ≤ slot ∧ slot < hotSlots
  · obtain ⟨m, rfl⟩ := Nat.exists_eq_add_of_le hout.1
    have hm : m < loopOutSlot := by omega
    simp only [makesLoop_out hm, slotPoint]
    by_cases hj : isJump value
    · rw [hj, slotMove_outJump hslots hm] at hon hms
      rw [if_pos hj]
      by_cases hloop : 0 ≤ loopIn k m ∧ loopIn k m < k.hotMs (loopOutSlot + m)
      · rw [if_pos hloop] at hms ⊢
        exact hms
      · rw [if_neg hloop] at hon hms ⊢
        exact ha.past_of_on hon hms
    · rw [Bool.eq_false_of_not_eq_true hj, slotMove_out hslots hm] at hon hms
      dsimp only at hon hms
      rw [if_neg hj]
      by_cases hloop : 0 ≤ loopIn k m ∧ loopIn k m < k.posMs
      · rw [if_pos hloop] at hms ⊢
        exact hms
      · rw [if_neg hloop] at hon hms ⊢
        exact ha.past_of_on hon hms
  · rw [if_neg (not_makesLoop hout)]
    have hforce : SameForce k (slotMove c (isJump value) slot k) := by
      unfold slotMove
      rw [if_neg (fun h ↦ h0 h.1), if_neg h0]
      split_ifs <;> first | exact ⟨rfl, rfl, rfl⟩ | omega
    exact ha.past_of_on (hforce.loopOn ▸ hon) (hforce.loopOutMs ▸ hms)

end Here

theorem slotMove_state (c : Config) (jump : Bool) (slot : ℕ) (k : Deck) :
    (slotMove c jump slot k).posState = k.posState ∧
      (slotMove c jump slot k).posRemNs = k.posRemNs ∧
      (slotMove c jump slot k).segEndValid = k.segEndValid := by
  unfold slotMove
  dsimp only
  split_ifs <;> exact ⟨rfl, rfl, rfl⟩

end Slots

section Turns

/-- What the loop table is read from. -/
structure SameTable (k k' : Deck) : Prop where
  posMs : k'.posMs = k.posMs
  cueMs : k'.cueMs = k.cueMs
  hotMs : k'.hotMs = k.hotMs
  segEndMs : k'.segEndMs = k.segEndMs
  segEndValid : k'.segEndValid = k.segEndValid
  loopBuilt : k'.loopBuilt = k.loopBuilt

namespace SameTable

theorem loop (h : SameTable k k') (n : ℕ) : SameLoop n k k' :=
  .of_fields (by rw [h.segEndValid]) (fun _ ↦ by rw [h.segEndMs]) (by rw [h.loopBuilt])
    (loopIn_update (fun _ ↦ h.cueMs) h.hotMs fun _ ↦ rfl) fun _ ↦ by rw [h.hotMs]

theorem past (h : SameTable k k') (ms : ℤ) : Past selection k' ms ↔ Past selection k ms := by
  unfold Past
  refine exists_congr fun n ↦ ?_
  rw [(h.loop n).defined, (h.loop n).finish]

theorem point (h : SameTable k k') (value : ℤ) (slot : ℕ) : slotPoint value slot k' = slotPoint value slot k := by
  unfold slotPoint
  rw [h.posMs, h.hotMs]

theorem makesLoop (h : SameTable k k') (value : ℤ) (slot : ℕ) : MakesLoop k' value slot ↔
    MakesLoop k value slot := by
  unfold MakesLoop
  rw [h.point, (h.loop _).start]

theorem slotLasts (h : SameTable k k') (value : ℤ) (slot : ℕ) :
    SlotLasts c selection k' value slot ↔ SlotLasts c selection k value slot := by
  unfold SlotLasts
  simp only [h.makesLoop, h.hotMs, h.segEndValid, h.loopBuilt]

theorem slotPast (h : SameTable k k') (value : ℤ) (slot : ℕ) (ms : ℤ) :
    SlotPast c selection k' value slot ms ↔ SlotPast c selection k value slot ms := by
  unfold SlotPast
  simp only [h.makesLoop, h.past, h.point]

theorem slotHarmless (h : SameTable k k') (value : ℤ) (slot : ℕ) :
    SlotHarmless c selection k' value slot ↔ SlotHarmless c selection k value slot := by
  unfold SlotHarmless
  simp only [h.past, h.posMs, (h.loop _).start, h.hotMs, h.segEndValid]

end SameTable

theorem turn_none {r : Request} (h : asked w r = none) : turn c now w r k = k := by
  unfold turn
  rw [h]

/-- A state request leaves the loop table, unless it stops the deck. -/
theorem commandTurn_table (hreport : c.posReport) (h433 : c.states433)
    (hplays : (turn c now w .command k).posState = .playing) :
    (match asked w .command with
      | none => k.posState = .playing
      | some v => v = 2 ∨ v = 5 ∨ (8 < v ∧ k.posState = .playing)) ∧
      SameForce k (turn c now w .command k) ∧ SameTable k (turn c now w .command k) := by
  cases hv : asked w .command with
  | none =>
    rw [turn_none hv] at hplays ⊢
    exact ⟨hplays, ⟨rfl, rfl, rfl⟩, ⟨rfl, rfl, rfl, rfl, rfl, rfl⟩⟩
  | some v =>
    have hpos : 0 < v := by
      obtain ⟨h, hvalue⟩ := Option.ite_none_right_eq_some.mp hv
      obtain rfl := Option.some.inj hvalue
      exact h.1
    have hturn : turn c now w .command k = stateDeck c now v (recordsForgotten v k) := by
      unfold turn
      rw [hv]
      rfl
    have hforgotten : (recordsForgotten v k).posState = k.posState ∧
        SameForce k (recordsForgotten v k) ∧ SameTable k (recordsForgotten v k) := by
      unfold recordsForgotten
      split_ifs <;> exact ⟨rfl, ⟨rfl, rfl, rfl⟩, ⟨rfl, rfl, rfl, rfl, rfl, rfl⟩⟩
    rw [hturn] at hplays ⊢
    generalize recordsForgotten v k = k₁ at hplays hforgotten ⊢
    obtain ⟨hstate, hforce, htable⟩ := hforgotten
    unfold stateDeck at hplays ⊢
    by_cases h8 : v ≤ 8
    · rw [if_pos ⟨hreport, h433, hpos, h8⟩] at hplays ⊢
      unfold stateMove433 at hplays ⊢
      by_cases h25 : v = 2 ∨ v = 5
      · rw [if_neg (fun h ↦ by omega)]
        rw [if_pos h25, if_pos (by omega)]
        refine ⟨by omega, ⟨hforce.1, hforce.2, hforce.3⟩, ?_⟩
        exact ⟨htable.1, htable.2, htable.3, htable.4, htable.5, htable.6⟩
      · exfalso
        rw [if_neg h25] at hplays
        dsimp only at hplays
        split_ifs at hplays <;> simp_all
    · rw [if_neg (fun h ↦ h8 h.2.2.2), if_neg (fun h ↦ h.2.1 h433)] at hplays ⊢
      exact ⟨.inr (.inr ⟨by omega, hstate.symm.trans hplays⟩), hforce, htable⟩

def Follows (now : ℤ) (selection : Word) (k : Deck) : Prop :=
  Agrees selection k ∨ AgreesHere now selection k

theorem segmentTurn_eq (hreport : c.posReport) {v : ℤ} (hv : asked w .segment = some v) (k : Deck) :
    turn c now w .segment k = segmentMove c ((v / 16 % 16).toNat - 1) (v % 16).toNat
      (pointMs (w 0x7ca4) (w 0x7ca8)) k := by
  unfold turn
  rw [hv]
  exact if_neg (not_not_intro hreport)

theorem segmentMove_agrees (hselect : c.loopSelect) {slot code : ℕ} {point : ℤ} (ha : Agrees selection k)
    (htouch : ∀ n, named selection = some n → ¬Touches k slot code n) :
    Agrees selection (segmentMove c slot code point k) := by
  cases hn : named selection with
  | some n =>
    have hmove : SameForce k (segmentMove c slot code point k) ∧
        SameLoop n k (segmentMove c slot code point k) :=
      segmentMove_same hselect (named_lt hn) (htouch n hn)
    refine ha.of_same hmove.1 fun m hm ↦ ?_
    obtain rfl := Option.some.inj (hn.symm.trans hm)
    exact hmove.2
  | none =>
    unfold Agrees at ha ⊢
    rw [hn] at ha ⊢
    refine Bool.eq_false_of_not_eq_true fun hon ↦ ?_
    exact absurd (ha.symm.trans (segmentMove_force hselect hon).1) Bool.false_ne_true

theorem segmentTurn_follows (hreport : c.posReport) (hselect : c.loopSelect)
    (h : Follows now selection k)
    (htouch : ∀ v, asked w .segment = some v → ∀ n, named selection = some n →
      ¬Touches k ((v / 16 % 16).toNat - 1) (v % 16).toNat n) :
    Follows now selection (turn c now w .segment k) := by
  cases hv : asked w .segment with
  | none => rwa [turn_none hv]
  | some v =>
    rw [segmentTurn_eq hreport hv]
    have htouch' := htouch v hv
    generalize pointMs (w 0x7ca4) (w 0x7ca8) = point
    generalize (v / 16 % 16).toNat - 1 = slot at htouch' ⊢
    generalize (v % 16).toNat = code at htouch' ⊢
    rcases h with ha | hhere
    · exact .inl (segmentMove_agrees hselect ha htouch')
    refine .inr ?_
    obtain ⟨hms, hlast, -, -⟩ := segmentMove_place c slot code point k
    cases hn : named selection with
    | some n =>
      have hmove : SameForce k (segmentMove c slot code point k) ∧
          SameLoop n k (segmentMove c slot code point k) :=
        segmentMove_same hselect (named_lt hn) (htouch' n hn)
      refine hhere.of_same hmove.1 hms hlast fun m hm ↦ ?_
      obtain rfl := Option.some.inj (hn.symm.trans hm)
      exact hmove.2
    | none =>
      obtain ⟨hnow, -, hout⟩ := hhere
      have hpast : ∀ x : Deck, ¬Past selection x x.posMs := by
        rintro x ⟨n, hn', -⟩
        exact absurd (hn.symm.trans hn') nofun
      have hbefore : (segmentMove c slot code point k).loopOn →
          (segmentMove c slot code point k).posMs <
            (segmentMove c slot code point k).loopOutMs := by
        intro hon
        obtain ⟨hon', hout'⟩ := segmentMove_force hselect hon
        rw [hms, hout']
        exact hout hn hon'
      refine agreesHere_of_still (hlast.trans hnow) ?_ (hpast _) fun _ ↦ hbefore
      by_cases hon : (segmentMove c slot code point k).loopOn
      · exact turned_before (hbefore hon)
      · exact turned_off (Bool.eq_false_of_not_eq_true hon) _

/-- A flush that resets nothing empties the table, or does nothing. -/
theorem flushTurn_eq {v : ℤ} (hv : asked w .flush = some v) (hflushed : ¬Flushed c w) :
    turn c now w .flush k = if v = 1 then
      loopsClear { k with hotMs := fun i ↦ if i < hotSlots then -1 else k.hotMs i } else k := by
  have hreset : ¬((v = 1 ∨ v = 2) ∧ c.flushReset) := by
    rintro ⟨rfl | rfl, hr⟩
    · exact hflushed ⟨hr, .inl hv⟩
    · exact hflushed ⟨hr, .inr hv⟩
  have hturn : turn c now w .flush k = flushMove c v k := by
    unfold turn
    rw [hv]
    rfl
  rw [hturn, flushMove, if_neg hreset]

theorem flushTurn_follows (h : Follows now selection k) (hflushed : ¬Flushed c w)
    (hnone : asked w .flush = some 1 → named selection = none) :
    Follows now selection (turn c now w .flush k) := by
  cases hv : asked w .flush with
  | none => rwa [turn_none hv]
  | some v =>
    rw [flushTurn_eq hv hflushed]
    by_cases h1 : v = 1
    · subst h1
      have hsame : ∀ k' : Deck, ∀ n, named selection = some n → SameLoop n k k' :=
        fun _ n hn ↦ absurd ((hnone hv).symm.trans hn) nofun
      rw [if_pos rfl]
      exact h.imp (·.of_same ⟨rfl, rfl, rfl⟩ (hsame _))
        (·.of_same ⟨rfl, rfl, rfl⟩ rfl rfl (hsame _))
    · rwa [if_neg h1]

theorem slotTurn_eq (hreport : c.posReport) (h433 : c.states433) (k : Deck) :
    turn c now w .slot k = (slotIn w).elim k fun s ↦ movedSlot c now s.1 s.2 k := by
  unfold slotIn
  cases hv : asked w .slot with
  | none => exact turn_none hv
  | some v =>
    have hturn : turn c now w .slot k = slotDeck c now v (w 0x7c84) k := by
      unfold turn
      rw [hv]
      rfl
    rw [hturn, Option.bind_some]
    by_cases hs : IsSlotCommand v
    · rw [slotDeck_eq hreport h433 hs, if_pos hs]
      rfl
    · rw [slotDeck, if_pos (.inr hs), if_neg hs]
      rfl

theorem slotIn_some {s : ℤ × ℕ} (h : slotIn w = some s) :
    asked w .slot = some s.1 ∧ IsSlotCommand s.1 ∧ slotOf s.1 (w 0x7c84) = s.2 := by
  obtain ⟨v, hv, hs⟩ := Option.bind_eq_some_iff.mp h
  split_ifs at hs with hcommand
  obtain rfl := Option.some.inj hs
  exact ⟨hv, hcommand, rfl⟩

theorem slotTurn_follows (hreport : c.posReport) (h433 : c.states433) (hslots : c.loopSlots)
    (ha : Agrees selection k)
    (hharmless : ∀ v, asked w .slot = some v → IsSlotCommand v →
      SlotHarmless c selection k v (slotOf v (w 0x7c84))) :
    Follows now selection (turn c now w .slot k) := by
  rw [slotTurn_eq hreport h433]
  cases hs : slotIn w with
  | none => exact .inl ha
  | some s =>
    obtain ⟨hv, hcommand, hslot⟩ := slotIn_some hs
    exact movedSlot_agrees hslots ha (hslot ▸ hharmless s.1 hv hcommand)

theorem turns_state (hreport : c.posReport) (h433 : c.states433) (k : Deck) :
    ((turn c now w .slot k).posState = k.posState ∧
        (turn c now w .slot k).posRemNs = k.posRemNs ∧
        (turn c now w .slot k).segEndValid = k.segEndValid) ∧
      ((turn c now w .segment k).posState = k.posState ∧
        (turn c now w .segment k).posRemNs = k.posRemNs) ∧
      ((turn c now w .flush k).posState = .playing → k.posState = .playing ∧ ¬Flushed c w) ∧
      (turn c now w .flush k).posRemNs = k.posRemNs := by
  refine ⟨?_, ?_, ?_, ?_⟩
  · unfold turn
    cases hv : asked w .slot with
    | none => exact ⟨rfl, rfl, rfl⟩
    | some v =>
      simp only [move]
      by_cases hs : IsSlotCommand v
      · rw [slotDeck_eq hreport h433 hs]
        exact slotMove_state c (isJump v) _ k
      · rw [slotDeck, if_pos (.inr hs)]
        exact ⟨rfl, rfl, rfl⟩
  · unfold turn
    cases hv : asked w .segment with
    | none => exact ⟨rfl, rfl⟩
    | some v =>
      simp only [move, segmentDeck]
      rw [if_neg (not_not_intro hreport)]
      exact (segmentMove_place c _ _ _ k).2.2
  · intro hp
    cases hv : asked w .flush with
    | none =>
      rw [turn_none hv] at hp
      refine ⟨hp, ?_⟩
      rintro ⟨-, h | h⟩ <;> simp [hv] at h
    | some v =>
      unfold turn at hp
      rw [hv] at hp
      simp only [move, flushMove, loopsClear] at hp
      by_cases hr : (v = 1 ∨ v = 2) ∧ c.flushReset
      · rw [if_pos hr] at hp
        simp at hp
      · rw [if_neg hr] at hp
        refine ⟨?_, ?_⟩
        · split_ifs at hp <;> exact hp
        · rintro ⟨hc, h | h⟩ <;> obtain rfl := Option.some.inj (hv.symm.trans h)
          · exact hr ⟨.inl rfl, hc⟩
          · exact hr ⟨.inr rfl, hc⟩
  · unfold turn
    cases asked w .flush with
    | none => rfl
    | some v =>
      simp only [move, flushMove, loopsClear]
      split_ifs <;> rfl

/-- What the commands of a tick leave in force where the selected loop was: the selected loop, if
the slot command does, and no END that it does not put there. -/
structure Leaves (c : Config) (w : Window) (selection : Word) (k k' : Deck) : Prop where
  lasts : (∀ s, slotIn w = some s → SlotLasts c selection k s.1 s.2) → Agrees selection k'
  past : k'.loopOn → ∀ ms, k'.loopOutMs ≤ ms →
    (slotIn w).elim (Past selection k ms) fun s ↦ SlotPast c selection k s.1 s.2 ms

theorem slotTurn_leaves (hreport : c.posReport) (h433 : c.states433) (hslots : c.loopSlots)
    (ha : Agrees selection k) : Leaves c w selection k (turn c now w .slot k) := by
  rw [slotTurn_eq hreport h433]
  cases hs : slotIn w with
  | none =>
    refine ⟨fun _ ↦ ha, fun hon ms hms ↦ ?_⟩
    rw [hs]
    exact ha.past_of_on hon hms
  | some s =>
    refine ⟨fun hlasts ↦ movedSlot_lasts hslots ha (hlasts s hs), fun hon ms hms ↦ ?_⟩
    rw [hs]
    exact movedSlot_past hslots ha hon hms

theorem Leaves.segment (h : Leaves c w selection k k') (hreport : c.posReport) (hselect : c.loopSelect)
    (htouch : ∀ v, asked w .segment = some v → ∀ n, named selection = some n →
      ¬Touches k' ((v / 16 % 16).toNat - 1) (v % 16).toNat n) :
    Leaves c w selection k (turn c now w .segment k') := by
  cases hv : asked w .segment with
  | none => rwa [turn_none hv]
  | some v =>
    rw [segmentTurn_eq hreport hv]
    refine ⟨fun hlasts ↦ segmentMove_agrees hselect (h.lasts hlasts) (htouch v hv), fun hon ms hms ↦ ?_⟩
    obtain ⟨hon', hout⟩ := segmentMove_force hselect hon
    exact h.past hon' ms (hout ▸ hms)

theorem Leaves.of_force (h : Leaves c w selection k k') {k'' : Deck} (hforce : SameForce k' k'')
    (hsame : ∀ n, named selection = some n → SameLoop n k' k'') : Leaves c w selection k k'' :=
  ⟨fun hlasts ↦ (h.lasts hlasts).of_same hforce hsame,
    fun hon ms hms ↦ h.past (hforce.loopOn ▸ hon) ms (hforce.loopOutMs ▸ hms)⟩

theorem Leaves.flush (h : Leaves c w selection k k') (hflushed : ¬Flushed c w)
    (hnone : asked w .flush = some 1 → named selection = none) :
    Leaves c w selection k (turn c now w .flush k') := by
  cases hv : asked w .flush with
  | none => rwa [turn_none hv]
  | some v =>
    rw [flushTurn_eq hv hflushed]
    by_cases h1 : v = 1
    · subst h1
      rw [if_pos rfl]
      exact h.of_force ⟨rfl, rfl, rfl⟩ fun n hn ↦ absurd ((hnone hv).symm.trans hn) nofun
    · rwa [if_neg h1]

end Turns

end Moves

section Steps

variable {c : Config} {d : Device} {now : ℤ}

theorem commandTurn_remainder (w : Window) (k : Deck) :
    (turn c now w .command k).posRemNs = k.posRemNs := by
  unfold turn
  cases asked w .command with
  | none => rfl
  | some v =>
    simp only [move, stateDeck, stateMove433, stateMove, recordsForgotten]
    split_ifs <;> rfl

theorem scan_eq {w : Window} (hheader : asked w .header = none) (hformat : asked w .format = none)
    (k : Deck) :
    Request.all.foldl (fun k r ↦ turn c now w r k) k =
      turn c now w .flush (turn c now w .segment (turn c now w .slot (turn c now w .command k))) := by
  have hidle : ∀ r k', r = .helper ∨ r = .buffer → turn c now w r k' = k' := by
    rintro r k' (rfl | rfl) <;> unfold turn <;> cases asked w _ <;> rfl
  simp only [Request.all, List.foldl_cons, List.foldl_nil]
  rw [hidle .helper k (.inl rfl), turn_none hformat, turn_none hheader, hidle .buffer _ (.inr rfl)]

theorem loopSelect_table (selection : Word) (k : Deck) :
    SameTable k (loopSelect selection k) ∧ (loopSelect selection k).posState = k.posState ∧
      (loopSelect selection k).posRemNs = k.posRemNs := by
  unfold loopSelect
  dsimp only
  split_ifs <;> exact ⟨⟨rfl, rfl, rfl, rfl, rfl, rfl⟩, rfl, rfl⟩

theorem scanned_deck (hselect : c.loopSelect) (hheader : asked d.window .header = none)
    (hformat : asked d.window .format = none) :
    (scanned c now d).deck =
      let k := loopSelect (d.window 0x7bc8) d.deck
      if Answers c d then turn c now d.window .flush (turn c now d.window .segment
        (turn c now d.window .slot (turn c now d.window .command k)))
      else k := by
  have hdeck : (select c { d with lastTickNs := now }).deck =
      loopSelect (d.window 0x7bc8) d.deck := by
    unfold select
    rw [if_pos hselect]
  have hanswers : Answers c (select c { d with lastTickNs := now }) ↔ Answers c d := by
    unfold Answers
    rw [(select_rest c { d with lastTickNs := now }).1]
  rw [scanned, commands_deck, select_window, hdeck, scan_eq hheader hformat]
  simp only [hanswers]

theorem scanned_remainder (hreport : c.posReport) (hselect : c.loopSelect) (h433 : c.states433)
    (hheader : asked d.window .header = none) (hformat : asked d.window .format = none) :
    (scanned c now d).deck.posRemNs = d.deck.posRemNs := by
  have hk := (loopSelect_table (d.window 0x7bc8) d.deck).2.2
  rw [scanned_deck hselect hheader hformat]
  dsimp only
  by_cases ha : Answers c d
  · rw [if_pos ha, (turns_state hreport h433 _).2.2.2, (turns_state hreport h433 _).2.1.2,
      (turns_state hreport h433 _).1.2.1, commandTurn_remainder, hk]
  · rw [if_neg ha, hk]

theorem untouched_of_plays (hreport : c.posReport) (h433 : c.states433) (ha : Answers c d)
    (huntouched : WillPlay c d → Answers c d → ¬Flushed c d.window → Untouched c d) {k : Deck}
    (hstate : k.posState = d.deck.posState)
    (hplays : (turn c now d.window .flush (turn c now d.window .segment
      (turn c now d.window .slot (turn c now d.window .command k)))).posState = .playing) :
    (Untouched c d ∧ ¬Flushed c d.window) ∧ SameForce k (turn c now d.window .command k) ∧
      SameTable k (turn c now d.window .command k) := by
  obtain ⟨hsegment, hflushed⟩ := (turns_state hreport h433 _).2.2.1 hplays
  have hslot := (turns_state hreport h433 _).2.1.1.symm.trans hsegment
  have hcommand := (turns_state hreport h433 _).1.1.symm.trans hslot
  obtain ⟨hwill, hforce, hsame⟩ := commandTurn_table hreport h433 hcommand
  refine ⟨⟨huntouched ?_ ha hflushed, hflushed⟩, hforce, hsame⟩
  unfold WillPlay
  rw [if_pos ha]
  rw [hstate] at hwill
  exact hwill

/-- What the tick that `last` began leaves in force. -/
structure Left (c : Config) (last : Device) (k : Deck) : Prop where
  lasts : Lasts c last → Agrees (last.window 0x7bc8) k
  past : k.loopOn → ∀ ms, k.loopOutMs ≤ ms → PastLeft c last ms

theorem pastLeft_of_none (h : slotAsked c d = none) {ms : ℤ} :
    PastLeft c d ms ↔ Past (d.window 0x7bc8) d.deck ms := by
  unfold PastLeft
  rw [h]
  rfl

/-- What an undisturbed tick has in force when it reports. -/
structure Forces (c : Config) (now : ℤ) (d : Device) (k : Deck) : Prop extends Left c d k where
  follows : Follows now (d.window 0x7bc8) k

theorem scanned_forces (hreport : c.posReport) (hselect : c.loopSelect) (hslots : c.loopSlots)
    (h433 : c.states433) (hheader : asked d.window .header = none)
    (hformat : asked d.window .format = none)
    (huntouched : WillPlay c d → Answers c d → ¬Flushed c d.window → Untouched c d)
    (hplays : (scanned c now d).deck.posState = .playing) :
    Forces c now d (scanned c now d).deck := by
  have hagrees := loopSelect_agrees (d.window 0x7bc8) d.deck
  obtain ⟨htable, hstate, -⟩ := loopSelect_table (d.window 0x7bc8) d.deck
  rw [scanned_deck hselect hheader hformat] at hplays ⊢
  dsimp only at hplays ⊢
  by_cases ha : Answers c d
  · rw [if_pos ha] at hplays ⊢
    generalize loopSelect (d.window 0x7bc8) d.deck = k at *
    obtain ⟨⟨⟨hslots', hsegments, hflush⟩, hflushed⟩, hforce, hsame⟩ :=
      untouched_of_plays hreport h433 ha huntouched hstate hplays
    have hagrees' := hagrees.of_same hforce fun n _ ↦ hsame.loop n
    have hvalid : (turn c now d.window .slot (turn c now d.window .command k)).segEndValid =
        d.deck.segEndValid :=
      ((turns_state hreport h433 _).1.2.2.trans hsame.segEndValid).trans htable.segEndValid
    have htouch : ∀ v, asked d.window .segment = some v → ∀ n, named (d.window 0x7bc8) = some n →
        ¬Touches (turn c now d.window .slot (turn c now d.window .command k))
          ((v / 16 % 16).toNat - 1) (v % 16).toNat n := by
      intro v hv n hn
      unfold Touches
      rw [hvalid]
      exact hsegments v hv n hn
    have hasked : slotAsked c d = slotIn d.window := if_pos ha
    have hleaves : Leaves c d.window (d.window 0x7bc8) (turn c now d.window .command k)
        (turn c now d.window .flush (turn c now d.window .segment
          (turn c now d.window .slot (turn c now d.window .command k)))) :=
      ((slotTurn_leaves hreport h433 hslots hagrees').segment hreport hselect htouch).flush hflushed hflush
    have hfollows : Follows now (d.window 0x7bc8) (turn c now d.window .slot (turn c now d.window .command k)) := by
      refine slotTurn_follows hreport h433 hslots hagrees' fun v hv hs ↦ ?_
      rw [hsame.slotHarmless, htable.slotHarmless]
      exact hslots' v hv hs
    refine ⟨⟨fun hlasts ↦ hleaves.lasts fun s hs ↦ ?_, fun hon ms hms ↦ ?_⟩,
      flushTurn_follows (segmentTurn_follows hreport hselect hfollows htouch) hflushed hflush⟩
    · rw [hsame.slotLasts, htable.slotLasts]
      exact hlasts s (hasked.trans hs)
    · have hpast := hleaves.past hon ms hms
      unfold PastLeft
      rw [hasked]
      cases hs : slotIn d.window with
      | none =>
        rw [hs] at hpast
        exact (htable.past ms).mp ((hsame.past ms).mp hpast)
      | some s =>
        rw [hs] at hpast
        exact (htable.slotPast s.1 s.2 ms).mp ((hsame.slotPast s.1 s.2 ms).mp hpast)
  · rw [if_neg ha]
    refine ⟨⟨fun _ ↦ hagrees, fun hon ms hms ↦ ?_⟩, .inl hagrees⟩
    exact (pastLeft_of_none (if_neg ha)).mpr ((htable.past ms).mp (hagrees.past_of_on hon hms))

theorem Left.of_same {last : Device} {k k' : Deck} (h : Left c last k) (hforce : SameForce k k')
    (hsame : ∀ n, SameLoop n k k') : Left c last k' :=
  ⟨fun hlasts ↦ (h.lasts hlasts).of_same hforce fun n _ ↦ hsame n,
    fun hon ms hms ↦ h.past (hforce.loopOn ▸ hon) ms (hforce.loopOutMs ▸ hms)⟩

theorem shown_same (rate : ℤ) (k : Deck) :
    SameForce k (wrap (advance now rate k)) ∧ (∀ n, SameLoop n k (wrap (advance now rate k))) ∧
      (wrap (advance now rate k)).posState = k.posState := by
  unfold wrap
  split_ifs <;> exact ⟨⟨rfl, rfl, rfl⟩, fun _ ↦ ⟨Iff.rfl, rfl, rfl⟩, rfl⟩

theorem Left.shown {last : Device} {k : Deck} (h : Left c last k) (rate : ℤ) :
    Left c last (wrap (advance now rate k)) :=
  h.of_same (shown_same rate k).1 (shown_same rate k).2.1

theorem Left.turned {last : Device} {w : Window} {k : Deck} (h : Left c last k) (hkept : Kept c last now w k) :
    turned k (advance now (rateWord w) k).posMs = turnedBack (w 0x7bc8) k (advance now (rateWord w) k).posMs := by
  obtain ⟨hlasts, hword⟩ | ⟨hleft, hpast⟩ := hkept
  · rw [turned_of_agrees (h.lasts hlasts), hword]
  · rw [turnedBack_of_not_past hpast]
    exact if_neg fun hturn ↦ hleft (h.past hturn.1 _ hturn.2.2)

/-- The model answers, and a deck that plays has what its last tick left it. -/
structure Watched (c : Config) (x : Watch) : Prop where
  ready : Ready x.device
  left : x.device.deck.posState = .playing → ∀ last, x.last = some last → Left c last x.device.deck

theorem tick_watched (hreport : c.posReport) (hselect : c.loopSelect) (hslots : c.loopSlots)
    (h433 : c.states433) (habsent : ¬c.absent) {x : Watch} (hd : Ready x.device)
    (hs : Undisturbed c x (.tick now)) :
    TurnsBack c x.device (.tick now) ∧ Watched c (x.next c (.tick now)) := by
  obtain ⟨⟨hheader, hformat, hjob⟩, huntouched⟩ := hs
  obtain ⟨d, _⟩ := x
  have hrem : -scaleMs < (scanned c now d).deck.posRemNs ∧
      (scanned c now d).deck.posRemNs < scaleMs := by
    rw [scanned_remainder hreport hselect h433 hheader hformat]
    exact hd.remainder
  have hdeck := tick_deck c now d hreport hd.running habsent hd.cleared hjob
  have hforces : (scanned c now d).deck.posState = .playing → Forces c now d (scanned c now d).deck :=
    scanned_forces hreport hselect hslots h433 hheader hformat huntouched
  have hturns := reportTurns now hrem d.window fun hp ↦ (hforces hp).follows
  have hkeeps : Keeps (scanned c now d) (tick c now d) := by
    have h := tick_keeps c now d
    rwa [jobs, if_neg (not_jobReady c now d hjob)] at h
  obtain ⟨hrunning, hcleared, -⟩ := scanned_rest c now d
  refine ⟨?_, ⟨hkeeps.running.trans (hrunning.trans hd.running),
    hkeeps.controlCleared.trans (hcleared.trans hd.cleared), ?_⟩, ?_⟩
  · change ReportTurns now d.window _ (tick c now d).deck
    rwa [hdeck]
  · change -scaleMs < (tick c now d).deck.posRemNs ∧ (tick c now d).deck.posRemNs < scaleMs
    rw [hdeck]
    by_cases hp : (scanned c now d).deck.posState = .playing
    · rw [if_pos hp, wrap_remainder]
      exact advance_remainder _ _
    · rw [if_neg hp]
      exact hrem
  · change (tick c now d).deck.posState = .playing → ∀ last, some d = some last → Left c last (tick c now d).deck
    rintro hplays _ ⟨⟩
    rw [hdeck] at hplays ⊢
    by_cases hp : (scanned c now d).deck.posState = .playing
    · rw [if_pos hp]
      exact (hforces hp).toLeft.shown _
    · rw [if_neg hp] at hplays
      exact absurd hplays hp

theorem positionTick_watched (hreport : c.posReport) (habsent : ¬c.absent) {x : Watch} (hx : Watched c x)
    (hs : Undisturbed c x (.positionTick now)) :
    TurnsBack c x.device (.positionTick now) ∧ Watched c (x.next c (.positionTick now)) := by
  obtain ⟨hd, hleft⟩ := hx
  by_cases hp : x.device.deck.posState = .playing
  · have hcond : c.posReport ∧ x.device.running ∧ ¬c.absent ∧ x.device.deck.posState = .playing :=
      ⟨hreport, hd.running, habsent, hp⟩
    have hkeeps := positionReport_keeps c now x.device
    have hdeck := positionReport_deck c now x.device hd.cleared
    rw [if_pos hp] at hdeck
    have hnext : positionTick c now x.device = positionReport c now x.device := if_pos hcond
    obtain ⟨last, hlast, hkept⟩ := hs hp
    refine ⟨fun _ ↦ ?_, ⟨?_, ?_, ?_⟩, fun hplays last' hlast' ↦ ?_⟩
    · unfold ReportTurns
      rw [hnext, hdeck, if_pos hp, wrap_advance]
      exact (hleft hp last hlast).turned hkept
    · change (positionTick c now x.device).running
      rw [hnext]
      exact hkeeps.running.trans hd.running
    · change (positionTick c now x.device).controlCleared
      rw [hnext]
      exact hkeeps.controlCleared.trans hd.cleared
    · change -scaleMs < (positionTick c now x.device).deck.posRemNs ∧
        (positionTick c now x.device).deck.posRemNs < scaleMs
      rw [hnext, hdeck, wrap_remainder]
      exact advance_remainder _ _
    · change Left c last' (positionTick c now x.device).deck
      rw [hnext, hdeck]
      exact (hleft hp last' hlast').shown _
  · have hsame : positionTick c now x.device = x.device := if_neg fun h ↦ hp h.2.2.2
    have hnext : x.next c (.positionTick now) = x := by
      unfold Watch.next
      rw [step, hsame]
    rw [hnext]
    exact ⟨fun h ↦ absurd h hp, hd, hleft⟩

theorem step_turnsBack (hreport : c.posReport) (hselect : c.loopSelect) (hslots : c.loopSlots)
    (h433 : c.states433) (habsent : ¬c.absent) (x : Watch) (s : Step) (hx : Watched c x)
    (hs : Undisturbed c x s) : TurnsBack c x.device s ∧ Watched c (x.next c s) := by
  cases s with
  | guest window => exact ⟨trivial, ⟨hx.ready.running, hx.ready.cleared, hx.ready.remainder⟩, hx.left⟩
  | tick now => exact tick_watched hreport hselect hslots h433 habsent hx.ready hs
  | positionTick now => exact positionTick_watched hreport habsent hx hs

/-- In every run whose steps leave the selected loop in force, the deck is turned back at each
report exactly where the selection and the loop table say. -/
theorem loops_where_selected (c : Config) (hreport : c.posReport) (hselect : c.loopSelect)
    (hslots : c.loopSlots) (h433 : c.states433) (habsent : ¬c.absent) (d : Device) (hd : Ready d)
    (steps : List Step) (h : Observer.Throughout (Watch.next c) (Undisturbed c) ⟨d, none⟩ steps) :
    Observer.Throughout (step c) (TurnsBack c) d steps := by
  have hwatched : Observer.Throughout (Watch.next c) (fun x s ↦ TurnsBack c x.device s) ⟨d, none⟩ steps :=
    Observer.throughout_of_invariant (step_turnsBack hreport hselect hslots h433 habsent) ⟨d, none⟩ steps
      ⟨hd, fun _ _ h ↦ absurd h (Option.some_ne_none _).symm⟩ h
  exact (Observer.throughout_map (fun _ _ ↦ rfl) _ _ _).mp hwatched

def looping : Device :=
  { Device.started with deck := { Device.started.deck with posState := .playing, posMs := 1000 } }

def recordOut : Window := (looping.window.stl 0x7c80 0x12).stl 0x7c84 0

/-- Recording a loop's OUT turns the deck back to the loop's IN with no loop selected. -/
theorem turned_without_selection :
    Ready looping ∧ named (recordOut 0x7bc8) = none ∧
      (step .standard (step .standard looping (.guest recordOut)) (.tick 0)).deck.posMs = 0 ∧
      ¬Observer.Throughout (step .standard) (TurnsBack .standard) looping
        [.guest recordOut, .tick 0] := by
  refine ⟨⟨rfl, rfl, by decide⟩, by decide +kernel, by decide +kernel, ?_⟩
  rintro ⟨-, hturns, -⟩
  change ReportTurns 0 recordOut (scanned .standard 0 { looping with window := recordOut }).deck
    (tick .standard 0 { looping with window := recordOut }).deck at hturns
  unfold ReportTurns turnedBack at hturns
  have hnone : named (recordOut 0x7bc8) = none := by decide +kernel
  rw [hnone] at hturns
  revert hturns
  decide +kernel

/-- MAIN caches the END of the loop on the cue, one second in, and selects the loop then; and no
loop between two ticks, short of the END. -/
def cacheEnd : Window := (looping.window.stl 0x7c9c 0x19).stl 0x7ca8 150

def cached : List Step :=
  [.guest cacheEnd, .tick 0, .guest (looping.window.stl 0x7bc8 1), .tick 0, .positionTick 20000000,
    .guest looping.window, .positionTick 40000000]

def chosen : Device :=
  run .standard looping [.guest cacheEnd, .tick 0, .guest (looping.window.stl 0x7bc8 1)]

/-- The deck is turned back to the cue once the loop is selected, and plays on from there. -/
theorem loops_where_selected_cached :
    (run .standard looping cached).deck.posMs = 40 ∧
      Observer.Throughout (step .standard) (TurnsBack .standard) looping cached := by
  refine ⟨by decide +kernel, ?_⟩
  refine loops_where_selected .standard rfl rfl rfl rfl nofun looping ⟨rfl, rfl, by decide⟩ _ ?_
  have hquiet : ∀ w : Window, named (w 0x7bc8) = none ∨ asked w .segment = none →
      asked w .slot = none → asked w .flush = none → ∀ d : Device, d.window = w →
        Untouched .standard d := by
    rintro w hw hslot hflush d rfl
    refine ⟨?_, ?_, ?_⟩
    · intro v hv
      exact absurd (hslot.symm.trans hv) nofun
    · intro v hv n hn
      rcases hw with h | h
      · exact absurd (h.symm.trans hn) nofun
      · exact absurd (h.symm.trans hv) nofun
    · intro h
      exact absurd (hflush.symm.trans h) nofun
  have hasked : slotAsked .standard chosen = none := by decide +kernel
  refine ⟨trivial, ⟨by decide +kernel, fun _ _ _ ↦ ?_⟩, trivial, ⟨by decide +kernel, fun _ _ _ ↦ ?_⟩,
    fun _ ↦ ⟨chosen, rfl, .inl ⟨fun s hs ↦ ?_, by decide +kernel⟩⟩, trivial,
    fun _ ↦ ⟨chosen, rfl, .inr ⟨?_, by decide +kernel⟩⟩, trivial⟩
  · exact hquiet _ (.inl (by decide +kernel)) (by decide +kernel) (by decide +kernel) _ rfl
  · exact hquiet _ (.inr (by decide +kernel)) (by decide +kernel) (by decide +kernel) _ rfl
  · exact absurd (hasked.symm.trans hs) (Option.some_ne_none s).symm
  · rw [pastLeft_of_none hasked]
    decide +kernel

end Steps

end Cdj2000Emulator.Dsp.Loops
