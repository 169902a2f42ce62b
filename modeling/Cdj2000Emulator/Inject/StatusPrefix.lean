import Cdj2000Emulator.Inject.DropFilter
import Mathlib.Data.List.FinRange

namespace Cdj2000Emulator.Inject

open Library.Bytes Library.Framing Checksum

def statusRecordBytes : ℕ := 64

/-- The halfwords of a status record. -/
abbrev Words := Fin 32 → BitVec 16

def unpack (record : List Byte) : Words := fun i ↦ record.getD (2 * i + 1) 0 ++ record.getD (2 * i) 0

/-- `struct.pack("<31H", *words[:31])` -/
def packBody (words : Words) : List Byte :=
  (List.finRange 31).flatMap fun i ↦ [(words i.castSucc).setWidth 8, (words i.castSucc >>> 8).setWidth 8]

/-- One of `StatusPrefix.patches`, as `parse_word` admits it. -/
structure WordPatch where
  index : Fin 32
  first_le : 1 ≤ index
  le_last : index ≤ 30
  value : BitVec 16
  mask : BitVec 16

def WordPatch.apply (words : Words) (patch : WordPatch) : Words :=
  Function.update words patch.index ((words patch.index &&& ~~~patch.mask) ||| (patch.value &&& patch.mask))

/-- `MarkerFeed`, what it does with status records. -/
structure MarkerFeed where
  /-- The offset of the first of `beats`, and the beats of its grid in so many milliseconds. -/
  grid : Option (ℤ × (ℕ → ℕ))
  requested : ℕ
  queues : ℕ → List (List Byte)
  hidden : ℕ
  lastStatus : List Byte

def MarkerFeed.transferring (m : MarkerFeed) : Bool := m.requested != 0 && !(m.queues m.requested).isEmpty

/-- `MarkerFeed.on_record`: the halfwords after it, and whether they changed. -/
def MarkerFeed.onRecord (m : MarkerFeed) (words : Words) : MarkerFeed × Words × Bool :=
  let clears := m.transferring && words 29 != 0
  let words := if clears then Function.update (Function.update words 29 0) 30 0 else words
  let body := packBody words
  ({ m with
      hidden := if clears then m.hidden + 1 else m.hidden
      lastStatus := body ++ little 2 (firmwareCrc body) }, words, clears)

/-- The fields of `StatusPrefix` apart from the bytes that wait. -/
structure Rewriter where
  mode : BitVec 4
  state : BitVec 4
  counter : BitVec 9
  counter2 : BitVec 9
  rewritten : ℕ
  lastBeat : ℕ
  beat : Bool
  markers : Option MarkerFeed
  patches : List WordPatch

namespace Rewriter

variable (p : Rewriter)

def time150ths (minutes secondWord : BitVec 16) : Option ℕ :=
  if minutes.toNat ≥ 99 ∨ minutes = 0xffff then none
  else some (minutes.toNat * 9000 + (secondWord.toNat >>> 8) * 150 + (secondWord.toNat &&& 0xff))

/-- The beat in the bar, where the record says enough for one. -/
def beatOf (words : Words) : Option ℕ :=
  if p.beat then
    match time150ths (words 5) (words 6), time150ths (words 7) (words 8) with
    | some remaining, some length =>
      if words 10 = 0 then none
      else
        let elapsed := length - remaining
        match p.markers.bind MarkerFeed.grid with
        | some (offset, beats) =>
          let ms : ℤ := (elapsed * 1000 / 150 : ℕ) - offset
          some (if ms ≥ 0 then beats ms.toNat % 4 + 1 else 1)
        | none => some (elapsed * (words 10).toNat / (60 * 150) % 4 + 1)
    | _, _ => none
  else none

def putBeat (beat : ℕ) (words : Words) : Words :=
  Function.update
    (Function.update words 1
      (((p.counter >>> 8).setWidth 16 <<< 15) ||| (BitVec.ofNat 16 beat <<< 12) |||
        ((p.counter2 >>> 8).setWidth 16 <<< 11) ||| (BitVec.ofNat 16 beat <<< 8) |||
        (p.mode.setWidth 16 <<< 4) ||| p.state.setWidth 16))
    2 (((p.counter.setWidth 16 &&& 0xff) <<< 8) ||| (p.counter2.setWidth 16 &&& 0xff))

def revised (words : Words) : Words :=
  p.patches.foldl WordPatch.apply (match p.beatOf words with
    | some beat => p.putBeat beat words
    | none => words)

def rewrite (record : List Byte) : Rewriter × List Byte :=
  let words := unpack record
  let beat := p.beatOf words
  let words := p.revised words
  let marked := p.markers.map fun m ↦ m.onRecord words
  let changed := beat.isSome || !p.patches.isEmpty || marked.any fun m ↦ m.2.2
  let body := packBody (marked.elim words fun m ↦ m.2.1)
  let p := { p with lastBeat := beat.getD p.lastBeat, markers := marked.map fun m ↦ m.1 }
  if changed then ({ p with rewritten := p.rewritten + 1 }, body ++ little 2 (firmwareCrc body)) else (p, record)

/-- The `while` loop of `StatusPrefix.feed`, up to what it does with a frame. -/
def verdict (buffer : List Byte) : Verdict :=
  if buffer = [] then .wait
  else if ¬ recordMagic.isPrefixOf buffer then .pass
  else whole buffer

def look : Look Byte where
  verdict := verdict
  nil := rfl
  fits := by
    intro b n h
    unfold verdict at h
    split_ifs at h
    exact whole_fits h

/-- What `StatusPrefix.feed` does with a byte or a frame. -/
def emit (p : Rewriter) : Item Byte → Rewriter × List Byte
  | .loose a => (p, [a])
  | .frame frame =>
    if lengthField frame = statusRecordBytes then
      let rewritten := p.rewrite (frame.drop 8)
      (rewritten.1, frame.take 8 ++ rewritten.2)
    else (p, frame)

/-- What decides how records are rewritten; the rest counts and remembers. -/
def settings : Rewriter :=
  { p with rewritten := 0, lastBeat := 0, markers := p.markers.map fun m ↦ { m with hidden := 0, lastStatus := [] } }

/-- An announcement of MAIN's own is taken out of the halfwords. -/
def clears (words : Words) : Bool := p.markers.any fun m ↦ m.transferring && words 29 != 0

def changes (record : List Byte) : Bool :=
  (p.beatOf (unpack record)).isSome || !p.patches.isEmpty || p.clears (p.revised (unpack record))

def newBody (record : List Byte) : List Byte :=
  let words := p.revised (unpack record)
  packBody (if p.clears words then Function.update (Function.update words 29 0) 30 0 else words)

theorem rewrite_snd (record : List Byte) :
    (p.rewrite record).2 = if p.changes record then Routine.tools.build (p.newBody record) else record := by
  rw [rewrite, apply_ite Prod.snd]
  unfold changes newBody clears
  cases p.markers <;> rfl

theorem beatOf_settings (words : Words) : p.settings.beatOf words = p.beatOf words := by
  unfold beatOf settings
  cases p.markers <;> rfl

theorem revised_settings (words : Words) : p.settings.revised words = p.revised words := by
  unfold revised
  rw [beatOf_settings]
  rfl

theorem clears_settings (words : Words) : p.settings.clears words = p.clears words := by
  unfold clears settings
  cases p.markers <;> rfl

theorem rewrite_settings (record : List Byte) : (p.settings.rewrite record).2 = (p.rewrite record).2 := by
  have same : p.settings.changes record = p.changes record := by
    rw [changes, beatOf_settings, revised_settings, clears_settings]
    rfl
  simp only [rewrite_snd, newBody, same, revised_settings, clears_settings]

theorem settings_rewrite (record : List Byte) : (p.rewrite record).1.settings = p.settings := by
  have still : ((p.markers.map fun m ↦ m.onRecord (p.revised (unpack record))).map fun m ↦ m.1).map
      (fun m ↦ { m with hidden := 0, lastStatus := [] }) =
      p.markers.map fun m ↦ { m with hidden := 0, lastStatus := [] } := by
    cases p.markers <;> rfl
  simp only [rewrite]
  split_ifs <;> simp only [settings, still]

theorem emit_settings (item : Item Byte) : (p.settings.emit item).2 = (p.emit item).2 := by
  cases item with
  | loose a => rfl
  | frame f =>
    simp only [emit]
    split_ifs
    · rw [rewrite_settings]
    · rfl

theorem settings_emit (item : Item Byte) : (p.emit item).1.settings = p.settings := by
  cases item with
  | loose a => rfl
  | frame f =>
    simp only [emit]
    split_ifs
    · exact p.settings_rewrite _
    · rfl

/-- Every item is sent on as the first record would be. -/
theorem run_emit (items : List (Item Byte)) :
    (run emit p items).2 = items.flatMap fun item ↦ (p.emit item).2 := by
  induction items generalizing p with
  | nil => rfl
  | cons item items ih =>
    have later : ∀ next, ((p.emit item).1.emit next).2 = (p.emit next).2 := by
      intro next
      rw [← emit_settings, settings_emit, emit_settings]
    simp only [run, ih, later, List.flatMap_cons]

theorem length_packBody (words : Words) : (packBody words).length = 62 := by
  simp [packBody, List.length_flatMap]

/-- A record with something to change gets a checksum that fits, and any other one stays as it is. -/
theorem rewrite_record (record : List Byte) :
    if p.changes record then
      (p.rewrite record).2.length = statusRecordBytes ∧ Routine.tools.accepts (p.rewrite record).2 = true
    else (p.rewrite record).2 = record := by
  rw [rewrite_snd]
  split_ifs
  · refine ⟨?_, Routine.accepts_build .tools .tools _⟩
    rw [Routine.build, List.length_append, newBody, length_packBody]
    rfl
  · rfl

/-- What becomes of an item: a status record with something to change gets a checksum that fits, every other byte is
passed on. -/
def Passed (item : Item Byte) (out : List Byte) : Prop :=
  match item with
  | .loose a => out = [a]
  | .frame f =>
    if lengthField f = statusRecordBytes ∧ p.changes (f.drop 8) then
      ∃ record, out = f.take 8 ++ record ∧ record.length = statusRecordBytes ∧ Routine.tools.accepts record = true
    else out = f

theorem passed_emit (item : Item Byte) : p.Passed item (p.emit item).2 := by
  cases item with
  | loose a => rfl
  | frame f =>
    have record := p.rewrite_record (f.drop 8)
    by_cases status : lengthField f = statusRecordBytes
    · by_cases changed : p.changes (f.drop 8)
      · rw [if_pos changed] at record
        simp only [Passed, emit, if_pos status, if_pos (And.intro status changed)]
        exact ⟨_, rfl, record⟩
      · rw [if_neg changed] at record
        simp only [Passed, emit, if_pos status, if_neg fun both : _ ∧ _ ↦ changed both.2, record]
        exact List.take_append_drop 8 f
    · simp only [Passed, emit, if_neg status, if_neg fun both : _ ∧ _ ↦ status both.1]

end Rewriter

structure StatusPrefix extends Rewriter where
  pending : List Byte

namespace StatusPrefix

open Rewriter (verdict look emit)

def feed (p : StatusPrefix) (data : List Byte) : StatusPrefix × List Byte :=
  let scanned := scan look emit p.toRewriter (p.pending ++ data)
  (⟨scanned.state, scanned.rest⟩, scanned.out)

/-- The stream as it arrives: what has been sent on, one call after the other. -/
def feedAll : StatusPrefix → List (List Byte) → StatusPrefix × List Byte
  | p, [] => (p, [])
  | p, data :: chunks =>
    let first := p.feed data
    let last := first.1.feedAll chunks
    (last.1, first.2 ++ last.2)

def Torn (buffer : List Byte) : Prop := buffer ≠ [] ∧ buffer.length < recordMagic.length ∧ buffer <+: recordMagic

theorem extends_look : Extends dropLook look := by
  intro b c h
  change dropVerdict b ≠ .wait at h
  change verdict (b ++ c) = dropVerdict b
  unfold dropVerdict at h ⊢
  by_cases framed : recordMagic.isPrefixOf b
  · rw [if_neg (not_not_intro framed)] at h ⊢
    have some : b ++ c ≠ [] := by
      rintro empty
      rw [(List.append_eq_nil_iff.mp empty).1] at framed
      cases framed
    rw [verdict, if_neg some, if_neg (not_not_intro (isPrefixOf_append c framed)), whole_append c h]
  · rw [if_pos framed] at h ⊢
    by_cases torn : b.length < recordMagic.length ∧ b.isPrefixOf recordMagic
    · exact absurd (if_pos torn) h
    · have some : b ++ c ≠ [] := by
        rintro empty
        rw [(List.append_eq_nil_iff.mp empty).1] at torn
        exact torn ⟨by decide, rfl⟩
      rw [verdict, if_neg some, if_pos (not_isPrefixOf_append c framed torn), if_neg torn]

/-- A buffer that waits for the rest of a frame waits here too. -/
theorem verdict_of_not_torn {b : List Byte} (waits : dropLook.verdict b = .wait) (h : ¬ Torn b) :
    look.verdict b = .wait := by
  change dropVerdict b = .wait at waits
  change verdict b = .wait
  unfold verdict
  unfold dropVerdict at waits
  split_ifs with empty framed
  · rfl
  · rwa [if_neg (not_not_intro framed)] at waits
  · rw [if_pos framed] at waits
    by_cases torn : b.length < recordMagic.length ∧ b.isPrefixOf recordMagic
    · exact absurd ⟨empty, torn.1, List.isPrefixOf_iff_prefix.mp torn.2⟩ h
    · rw [if_neg torn] at waits
      cases waits

theorem feedAll_eq (p : StatusPrefix) (chunks : List (List Byte)) :
    p.feedAll chunks =
      (⟨(feeds look emit p.toRewriter p.pending chunks).state,
        (feeds look emit p.toRewriter p.pending chunks).rest⟩,
        (feeds look emit p.toRewriter p.pending chunks).out) := by
  induction chunks generalizing p with
  | nil => rfl
  | cons data chunks ih =>
    rw [feedAll, ih]
    rfl

/-- A stream comes out the same however it is cut outside of a magic, every status record with a checksum that fits
or unchanged, and every other byte as it is. -/
theorem feed_pieces {p : StatusPrefix} (rests : look.verdict p.pending = .wait) {chunks : List (List Byte)}
    (cuts : ∀ i, 0 < i → i < chunks.length → ¬ Torn (held dropLook (p.pending ++ (chunks.take i).flatten))) :
    let stream := p.pending ++ chunks.flatten
    p.feedAll chunks = p.feed chunks.flatten ∧
      (items look stream).flatMap Item.content ++ (p.feedAll chunks).1.pending = stream ∧
      (p.feedAll chunks).2 = (items look stream).flatMap (fun item ↦ (emit p.toRewriter item).2) ∧
      ∀ item, p.Passed item (emit p.toRewriter item).2 := by
  have whole : feeds look emit p.toRewriter p.pending chunks =
      scan look emit p.toRewriter (p.pending ++ chunks.flatten) :=
    feeds_of_agree dropLook_extends extends_look p.toRewriter rests fun i pos inside ↦
      verdict_of_not_torn (verdict_rest _ _) (cuts i pos inside)
  have same : p.feedAll chunks = p.feed chunks.flatten := by rw [feedAll_eq, whole, feed]
  refine ⟨same, ?_, ?_, p.passed_emit⟩
  · rw [same, feed, scan_eq_run]
    exact content_items _
  · rw [same, feed, scan_eq_run]
    exact p.run_emit _

/-- `StatusPrefix()` -/
def initial : StatusPrefix := ⟨⟨1, 0, 0x1ff, 0x1ff, 0, 0, true, none, []⟩, []⟩

instance (buffer : List Byte) : Decidable (Torn buffer) := inferInstanceAs (Decidable (_ ∧ _ ∧ _))

/-- A record three minutes long with a minute and a half to go, at a tempo of 120. -/
def timed : List Byte :=
  List.replicate 10 0 ++ [1, 0, 0, 30, 3, 0, 0, 0, 0, 0, 120, 0] ++ List.replicate 42 0

/-- The record in three pieces, one cut in the length and one inside the record. -/
def timedChunks : List (List Byte) := [recordMagic ++ [64], [0, 0, 0] ++ timed.take 20, timed.drop 20]

/-- It goes on with its beat and another checksum. -/
theorem feed_pieces_timed :
    (∀ i, 0 < i → i < timedChunks.length → ¬ Torn (held dropLook (timedChunks.take i).flatten)) ∧
      initial.feedAll timedChunks = initial.feed (recordMagic ++ [64, 0, 0, 0] ++ timed) ∧
      ∃ record, (initial.feedAll timedChunks).2 = recordMagic ++ [64, 0, 0, 0] ++ record ∧ record ≠ timed ∧
        Routine.tools.accepts record = true := by
  have cuts : ∀ i, 0 < i → i < timedChunks.length → ¬ Torn (held dropLook (timedChunks.take i).flatten) := by
    intro i pos inside
    have few : i = 1 ∨ i = 2 := by
      simp only [timedChunks, List.length_cons, List.length_nil] at inside
      omega
    rcases few with rfl | rfl <;> decide +kernel
  obtain ⟨same, -, sent, passed⟩ := feed_pieces (p := initial) rfl cuts
  have frames : items look (initial.pending ++ timedChunks.flatten) =
      [.frame (recordMagic ++ [64, 0, 0, 0] ++ timed)] := by
    decide +kernel
  have first := passed (.frame (recordMagic ++ [64, 0, 0, 0] ++ timed))
  rw [Rewriter.Passed, if_pos (by decide +kernel)] at first
  obtain ⟨record, out, -, accepted⟩ := first
  refine ⟨cuts, same, record, ?_, ?_, accepted⟩
  · rw [sent, frames, List.flatMap_singleton, out]
    rfl
  · rintro rfl
    revert accepted
    decide +kernel

/-- A record without a tempo keeps a checksum that does not fit. -/
theorem tempoless_record_keeps_checksum :
    (initial.feed (recordMagic ++ [64, 0, 0, 0] ++ List.replicate 62 0 ++ [1, 0])).2 =
        recordMagic ++ [64, 0, 0, 0] ++ (List.replicate 62 0 ++ [1, 0]) ∧
      Routine.tools.accepts (List.replicate 62 0 ++ [1, 0]) = false := by
  decide +kernel

end StatusPrefix

end Cdj2000Emulator.Inject
