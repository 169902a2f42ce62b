import Cdj2000Emulator.Checksum.Routines
import Cdj2000Emulator.Library.Framing

namespace Cdj2000Emulator.Inject

open Library.Bytes Library.Framing Checksum

def recordMagic : List Byte := [0x43, 0x44, 0x4a, 0x4c]

def lengthField (buffer : List Byte) : ℕ := value ((buffer.drop 4).take 4)

def whole (buffer : List Byte) : Verdict :=
  if buffer.length < 8 then .wait
  else if buffer.length < 8 + lengthField buffer then .wait
  else .frame (8 + lengthField buffer)

theorem whole_fits {buffer : List Byte} {n : ℕ} (h : whole buffer = .frame n) : 0 < n ∧ n ≤ buffer.length := by
  unfold whole at h
  split_ifs at h
  cases h
  omega

theorem whole_append {buffer : List Byte} (more : List Byte) (h : whole buffer ≠ .wait) :
    whole (buffer ++ more) = whole buffer := by
  unfold whole at h ⊢
  split_ifs at h with short lacks
  · exact absurd rfl h
  · exact absurd rfl h
  have same : lengthField (buffer ++ more) = lengthField buffer := by
    rw [lengthField, List.drop_append_of_le_length (by omega),
      List.take_append_of_le_length (by rw [List.length_drop]; omega), ← lengthField]
  rw [same, List.length_append, if_neg (by omega), if_neg (by omega), if_neg short, if_neg lacks]

structure DropSpec where
  cmd : ℤ
  nth : ℤ
  seen : ℕ
  dropped : Bool
deriving DecidableEq

def partBytes : ℕ := 896

/-- The `while` loop of `DropFilter.feed`, up to what it does with a frame. -/
def dropVerdict (buffer : List Byte) : Verdict :=
  if ¬ recordMagic.isPrefixOf buffer then
    if buffer.length < recordMagic.length ∧ buffer.isPrefixOf recordMagic then .wait else .pass
  else whole buffer

theorem prefix_of_append {buffer more : List Byte} (h : recordMagic <+: buffer ++ more) :
    recordMagic <+: buffer ∨ buffer.length < recordMagic.length ∧ buffer <+: recordMagic := by
  by_cases long : recordMagic.length ≤ buffer.length
  · exact Or.inl (List.prefix_of_prefix_length_le h (List.prefix_append buffer more) long)
  · exact Or.inr ⟨Nat.not_le.mp long,
      List.prefix_of_prefix_length_le (List.prefix_append buffer more) h (Nat.le_of_not_le long)⟩

def dropLook : Look Byte where
  verdict := dropVerdict
  nil := by decide
  fits := by
    intro b n h
    unfold dropVerdict at h
    split_ifs at h
    exact whole_fits h

def framed (data : List Byte) : List Byte := recordMagic ++ little 4 data.length ++ data

theorem framed_of_mem_items {stream frame : List Byte} (h : .frame frame ∈ items dropLook stream) :
    ∃ data, data.length < 256 ^ 4 ∧ frame = framed data := by
  obtain ⟨buffer, n, verdict, rfl⟩ := frame_mem_items h
  change dropVerdict buffer = .frame n at verdict
  unfold dropVerdict at verdict
  by_cases magic : recordMagic.isPrefixOf buffer
  · rw [if_neg (not_not_intro magic), whole] at verdict
    split_ifs at verdict with short lacks
    obtain ⟨tail, rfl⟩ := List.isPrefixOf_iff_prefix.mp magic
    obtain rfl : 8 + lengthField (recordMagic ++ tail) = n := Verdict.frame.inj verdict
    have field : lengthField (recordMagic ++ tail) = value (tail.take 4) := by
      rw [lengthField, List.drop_left' (show recordMagic.length = 4 from rfl)]
    have header : (tail.take 4).length = 4 := by
      rw [List.length_append] at short
      rw [List.length_take]
      change ¬4 + tail.length < 8 at short
      omega
    rw [List.length_append, field] at lacks
    have whole : ((tail.drop 4).take (value (tail.take 4))).length = value (tail.take 4) := by
      change ¬4 + tail.length < 8 + _ at lacks
      rw [List.length_take, List.length_drop]
      omega
    have small := value_lt (tail.take 4)
    have written := little_value (tail.take 4)
    rw [header] at small written
    refine ⟨(tail.drop 4).take (value (tail.take 4)), by rwa [whole], ?_⟩
    have split : 8 + value (tail.take 4) = recordMagic.length + (4 + value (tail.take 4)) := by
      rw [show recordMagic.length = 4 from rfl]
      omega
    rw [framed, whole, written, field, split, List.take_append, List.take_of_length_le (by omega), List.append_assoc,
      Nat.add_sub_cancel_left, List.take_add]
  · rw [if_pos magic] at verdict
    split_ifs at verdict

/-- The `for` loop over the specs: the specs after it, and whether the part is dropped. -/
def search (cmd : ℤ) : List DropSpec → List DropSpec × Bool
  | [] => ([], false)
  | s :: specs =>
    if s.cmd = cmd then
      let seen := s.seen + 1
      let hit := (seen : ℤ) = s.nth ∧ ¬ s.dropped
      ({ s with seen, dropped := s.dropped || decide hit } :: specs, decide hit)
    else ((s :: (search cmd specs).1), (search cmd specs).2)

def partCommand (frame : List Byte) : Option ℤ :=
  if lengthField frame = partBytes then some (value ((frame.drop 8).take 2)) else none

theorem partCommand_framed {data : List Byte} (small : data.length < 256 ^ 4) :
    partCommand (framed data) = if data.length = partBytes then some (value (data.take 2) : ℤ) else none := by
  have field : lengthField (framed data) = data.length := by
    rw [lengthField, framed, List.append_assoc, List.drop_left' (show recordMagic.length = 4 from rfl),
      List.take_left' (length_little 4 _), value_little small]
  have body : (framed data).drop 8 = data := by
    refine List.drop_left' ?_
    rw [List.length_append, length_little]
    rfl
  rw [partCommand, field, body]

/-- What `DropFilter.feed` does with a byte or a frame. -/
def dropEmit (specs : List DropSpec) : Item Byte → List DropSpec × List Byte
  | .loose a => (specs, [a])
  | .frame frame =>
    match partCommand frame with
    | none => (specs, frame)
    | some cmd =>
      let found := search cmd specs
      (found.1, if found.2 then [] else frame)

structure DropFilter where
  specs : List DropSpec
  pending : List Byte

def DropFilter.feed (f : DropFilter) (data : List Byte) : DropFilter × List Byte :=
  let scanned := scan dropLook dropEmit f.specs (f.pending ++ data)
  (⟨scanned.state, scanned.rest⟩, scanned.out)

def DropFilter.parse (requests : List (ℤ × ℤ)) : DropFilter :=
    ⟨requests.map fun r ↦ ⟨r.1, r.2, 0, false⟩, []⟩

/-- The stream as it arrives: what has been sent on, one call after the other. -/
def DropFilter.feedAll : DropFilter → List (List Byte) → DropFilter × List Byte
  | f, [] => (f, [])
  | f, data :: chunks =>
    let first := f.feed data
    let last := first.1.feedAll chunks
    (last.1, first.2 ++ last.2)

def itemCommand : Item Byte → Option ℤ
  | .loose _ => none
  | .frame frame => partCommand frame

def countCommand (cmd : ℤ) (stream : List (Item Byte)) : ℕ :=
    stream.countP fun item ↦ itemCommand item == some cmd

def Requested (requests : List (ℤ × ℤ)) (stream : List (Item Byte)) (j : ℕ) : Prop :=
  ∃ r ∈ requests, stream[j]?.bind itemCommand = some r.1 ∧ (countCommand r.1 (stream.take (j + 1)) : ℤ) = r.2

instance (requests : List (ℤ × ℤ)) (stream : List (Item Byte)) (j : ℕ) :
    Decidable (Requested requests stream j) :=
  inferInstanceAs (Decidable (∃ r ∈ requests, _))

def kept (requests : List (ℤ × ℤ)) (stream : List (Item Byte)) : List (Item Byte) :=
  (stream.zipIdx.filter fun p ↦ ¬ Requested requests stream p.2).map Prod.fst

def standing (stream : List (Item Byte)) (r : ℤ × ℤ) : DropSpec :=
  ⟨r.1, r.2, countCommand r.1 stream, decide (1 ≤ r.2 ∧ r.2 ≤ countCommand r.1 stream)⟩

theorem countCommand_append (cmd : ℤ) (stream : List (Item Byte)) (item : Item Byte) :
    countCommand cmd (stream ++ [item]) = countCommand cmd stream + if itemCommand item = some cmd then 1 else 0 := by
  rw [countCommand, List.countP_append, List.countP_singleton, ← countCommand]
  simp only [beq_iff_eq]

theorem standing_append_of_ne {stream : List (Item Byte)} {item : Item Byte} {r : ℤ × ℤ}
    (h : itemCommand item ≠ some r.1) : standing (stream ++ [item]) r = standing stream r := by
  rw [standing, countCommand_append, if_neg h, Nat.add_zero, ← standing]

/-- A part moves the spec of its command on by one and no other. -/
theorem search_standing {requests : List (ℤ × ℤ)} (distinct : (requests.map Prod.fst).Nodup)
    (stream : List (Item Byte)) {item : Item Byte} {cmd : ℤ} (h : itemCommand item = some cmd) :
    search cmd (requests.map (standing stream)) =
      (requests.map (standing (stream ++ [item])),
        decide (∃ r ∈ requests, r.1 = cmd ∧ (countCommand r.1 (stream ++ [item]) : ℤ) = r.2)) := by
  induction requests with
  | nil => rfl
  | cons r requests ih =>
    obtain ⟨fresh, distinct⟩ := List.nodup_cons.mp distinct
    by_cases named : r.1 = cmd
    · have counted : countCommand r.1 (stream ++ [item]) = countCommand r.1 stream + 1 := by
        rw [countCommand_append, if_pos (h.trans (congrArg some named.symm))]
      have others : ∀ t ∈ requests, t.1 ≠ cmd := fun t ht same ↦
        fresh (List.mem_map.mpr ⟨t, ht, same.trans named.symm⟩)
      have kept : requests.map (standing stream) = requests.map (standing (stream ++ [item])) :=
        List.map_congr_left fun t ht ↦
          (standing_append_of_ne fun same ↦ others t ht (Option.some.inj (same.symm.trans h))).symm
      have only : (∃ t ∈ r :: requests, t.1 = cmd ∧ (countCommand t.1 (stream ++ [item]) : ℤ) = t.2) ↔
          (countCommand r.1 stream + 1 : ℤ) = r.2 := by
        constructor
        · rintro ⟨t, ht, same, hits⟩
          rcases List.mem_cons.mp ht with rfl | later
          · rw [counted] at hits
            exact_mod_cast hits
          · exact absurd same (others t later)
        · intro hits
          refine ⟨r, List.mem_cons_self, named, ?_⟩
          rw [counted]
          exact_mod_cast hits
      rw [List.map_cons, search, if_pos (show (standing stream r).cmd = cmd from named), List.map_cons, ← kept]
      simp only [only, standing, counted]
      refine Prod.ext (congrArg (· :: _) ?_) ?_
      · refine congrArg (DropSpec.mk r.1 r.2 _) (Bool.eq_iff_iff.mpr ?_)
        simp only [Bool.or_eq_true, decide_eq_true_eq, Nat.cast_add, Nat.cast_one]
        omega
      · refine decide_eq_decide.mpr ?_
        simp only [decide_eq_true_eq, Nat.cast_add, Nat.cast_one]
        omega
    · have passed : itemCommand item ≠ some r.1 := fun same ↦ named (Option.some.inj (same.symm.trans h))
      rw [List.map_cons, search, if_neg (show (standing stream r).cmd ≠ cmd from named), ih distinct, List.map_cons,
        standing_append_of_ne passed]
      simp [named]

theorem kept_append (requests : List (ℤ × ℤ)) (stream : List (Item Byte)) (item : Item Byte) :
    kept requests (stream ++ [item]) = kept requests stream ++
      if ∃ r ∈ requests, itemCommand item = some r.1 ∧ (countCommand r.1 (stream ++ [item]) : ℤ) = r.2
      then [] else [item] := by
  have before : ∀ p ∈ stream.zipIdx, (Requested requests (stream ++ [item]) p.2 ↔
      Requested requests stream p.2) := by
    intro p hp
    have inside : p.2 < stream.length := List.snd_lt_of_mem_zipIdx hp
    simp only [Requested, List.getElem?_append_left inside, List.take_append_of_le_length inside]
  have last : Requested requests (stream ++ [item]) stream.length ↔
      ∃ r ∈ requests, itemCommand item = some r.1 ∧ (countCommand r.1 (stream ++ [item]) : ℤ) = r.2 := by
    have all : (stream ++ [item]).take (stream.length + 1) = stream ++ [item] := List.take_of_length_le (by simp)
    simp only [Requested, List.getElem?_concat_length, Option.bind_some, all]
  rw [kept, List.zipIdx_append, List.filter_append, List.map_append, kept]
  congr 1
  · refine congrArg _ (List.filter_congr fun p hp ↦ ?_)
    simp only [before p hp]
  · rw [Nat.zero_add, List.zipIdx_singleton, List.filter_singleton]
    simp only [last]
    split_ifs <;> simp_all

theorem run_dropEmit {requests : List (ℤ × ℤ)} (distinct : (requests.map Prod.fst).Nodup)
    (stream : List (Item Byte)) :
    run dropEmit (DropFilter.parse requests).specs stream =
      (requests.map (standing stream), (kept requests stream).flatMap Item.content) := by
  induction stream using List.reverseRecOn with
  | nil =>
    refine Prod.ext (List.map_congr_left fun r _ ↦ ?_) rfl
    have never : ¬ (1 ≤ r.2 ∧ r.2 ≤ 0) := by omega
    simp [standing, countCommand, never]
  | append_singleton stream item ih =>
    rw [run_append, ih, kept_append, List.flatMap_append]
    cases h : itemCommand item with
    | none =>
      have same : requests.map (standing (stream ++ [item])) = requests.map (standing stream) :=
        List.map_congr_left fun r _ ↦ standing_append_of_ne (by rw [h]; simp)
      have sent : dropEmit (requests.map (standing stream)) item = (requests.map (standing stream), item.content) := by
        cases item with
        | loose a => rfl
        | frame f => simp only [dropEmit, show partCommand f = none from h]; rfl
      simp [run, same, sent]
    | some cmd =>
      obtain ⟨f, rfl⟩ : ∃ f, item = .frame f := by
        cases item with
        | loose a => cases h
        | frame f => exact ⟨f, rfl⟩
      have named : (∃ r ∈ requests, r.1 = cmd ∧ (countCommand r.1 (stream ++ [Item.frame f]) : ℤ) = r.2) ↔
          ∃ r ∈ requests, some cmd = some r.1 ∧ (countCommand r.1 (stream ++ [Item.frame f]) : ℤ) = r.2 := by
        simp only [Option.some.injEq, eq_comm (a := cmd)]
      simp only [run, dropEmit, show partCommand f = some cmd from h, search_standing distinct stream h, named,
        List.append_nil, decide_eq_true_eq]
      split_ifs <;> simp [Item.content]

theorem isPrefixOf_append {buffer : List Byte} (more : List Byte) (h : recordMagic.isPrefixOf buffer) :
    recordMagic.isPrefixOf (buffer ++ more) :=
  List.isPrefixOf_iff_prefix.mpr ((List.isPrefixOf_iff_prefix.mp h).trans (List.prefix_append _ _))

/-- A buffer that is no frame and cannot become one stays so. -/
theorem not_isPrefixOf_append {buffer : List Byte} (more : List Byte) (h : ¬ recordMagic.isPrefixOf buffer)
    (settled : ¬ (buffer.length < recordMagic.length ∧ buffer.isPrefixOf recordMagic)) :
    ¬ recordMagic.isPrefixOf (buffer ++ more) := by
  intro grown
  rcases prefix_of_append (List.isPrefixOf_iff_prefix.mp grown) with already | torn
  · exact h (List.isPrefixOf_iff_prefix.mpr already)
  · exact settled ⟨torn.1, List.isPrefixOf_iff_prefix.mpr torn.2⟩

theorem dropLook_extends : Extends dropLook dropLook := by
  intro b c h
  change dropVerdict b ≠ .wait at h
  change dropVerdict (b ++ c) = dropVerdict b
  unfold dropVerdict at h ⊢
  by_cases framed : recordMagic.isPrefixOf b
  · rw [if_neg (not_not_intro framed)] at h ⊢
    rw [if_neg (not_not_intro (isPrefixOf_append c framed)), whole_append c h]
  · rw [if_pos framed] at h ⊢
    by_cases torn : b.length < recordMagic.length ∧ b.isPrefixOf recordMagic
    · exact absurd (if_pos torn) h
    · have still : ¬ ((b ++ c).length < recordMagic.length ∧ (b ++ c).isPrefixOf recordMagic) := fun grown ↦
        torn ⟨by have := grown.1; rw [List.length_append] at this; omega,
          List.isPrefixOf_iff_prefix.mpr
            ((List.prefix_append b c).trans (List.isPrefixOf_iff_prefix.mp grown.2))⟩
      rw [if_pos (not_isPrefixOf_append c framed torn), if_neg still, if_neg torn]

theorem DropFilter.feedAll_eq (f : DropFilter) (chunks : List (List Byte)) :
    f.feedAll chunks =
      (⟨(feeds dropLook dropEmit f.specs f.pending chunks).state,
        (feeds dropLook dropEmit f.specs f.pending chunks).rest⟩,
        (feeds dropLook dropEmit f.specs f.pending chunks).out) := by
  induction chunks generalizing f with
  | nil => rfl
  | cons data chunks ih =>
    rw [feedAll, ih]
    rfl

/-- Every way of cutting a stream sends on the stream without the parts that were asked for. A frame of the stream is
the magic, a length and as many bytes, and a part is one of 896 bytes that begin with its command. -/
theorem drops_requested_parts {requests : List (ℤ × ℤ)} (distinct : (requests.map Prod.fst).Nodup)
    (chunks : List (List Byte)) :
    let fed := (DropFilter.parse requests).feedAll chunks
    let stream := items dropLook chunks.flatten
    chunks.flatten = stream.flatMap Item.content ++ held dropLook chunks.flatten ∧
      fed.2 ++ fed.1.pending = (kept requests stream).flatMap Item.content ++ held dropLook chunks.flatten ∧
      ∀ frame, .frame frame ∈ stream → ∃ data, data.length < 256 ^ 4 ∧
        frame = recordMagic ++ little 4 data.length ++ data ∧
        partCommand frame = if data.length = partBytes then some (value (data.take 2) : ℤ) else none := by
  refine ⟨(content_items _).symm, ?_, fun frame mem ↦ ?_⟩
  · have whole : feeds dropLook dropEmit (DropFilter.parse requests).specs [] chunks = _ :=
      feeds_eq dropLook_extends _ dropLook.nil chunks
    rw [List.nil_append, scan_eq_run, run_dropEmit distinct] at whole
    have start : (DropFilter.parse requests).pending = [] := rfl
    simp only [DropFilter.feedAll_eq, start, whole]
  · obtain ⟨data, small, rfl⟩ := framed_of_mem_items mem
    exact ⟨data, small, rfl, partCommand_framed small⟩

def markerPart (number : ℕ) : List Byte := framed (little 2 0x21 ++ little 4 number ++ List.replicate 890 0)

/-- A waveform part, two marker parts and the first bytes of a frame, cut in the header and in the middle of a part;
the second marker part is asked for. -/
def cutParts : List (List Byte) :=
  [framed (little 2 0x20 ++ List.replicate 894 5) ++ (markerPart 1).take 6,
    (markerPart 1).drop 6 ++ (markerPart 2).take 400, (markerPart 2).drop 400 ++ [7] ++ recordMagic.take 2]

theorem drops_requested_parts_first :
    (([(0x21, 2), (0x22, 1)] : List (ℤ × ℤ)).map Prod.fst).Nodup ∧
      ((DropFilter.parse [(0x21, 2), (0x22, 1)]).feedAll cutParts).2 ++
        ((DropFilter.parse [(0x21, 2), (0x22, 1)]).feedAll cutParts).1.pending =
      framed (little 2 0x20 ++ List.replicate 894 5) ++ markerPart 1 ++ [7] ++ recordMagic.take 2 :=
  ⟨by decide, (drops_requested_parts (by decide : (([(0x21, 2), (0x22, 1)] : List (ℤ × ℤ)).map Prod.fst).Nodup)
    cutParts).2.1.trans (by decide +kernel)⟩

end Cdj2000Emulator.Inject
