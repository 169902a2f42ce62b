import Cdj2000Emulator.Flash.Items
import Cdj2000Emulator.Flash.Matches
import Cdj2000Emulator.Library.SlidingWindow

namespace Cdj2000Emulator.Flash.Lzss

open Function Library.Bytes Library.SlidingWindow Item

section Playing

variable {text : List Byte} {position : ℕ} {s : Decoder}

/-- The decoder has written the text up to a position. -/
structure Tracks (text : List Byte) (position : ℕ) (s : Decoder) : Prop where
  window : Holds windowSize start (text.take position) s.window s.writePosition
  output : s.output = (text.take position).drop pad

theorem drop_take_succ {value : Byte} (hpad : pad ≤ position) (h : text[position]? = some value) :
    (text.take (position + 1)).drop pad = (text.take position).drop pad ++ [value] := by
  have hlt : position < text.length := by
    by_contra hge
    rw [List.getElem?_eq_none (by omega)] at h
    cases h
  rw [List.take_add_one, h, Option.toList_some, List.drop_append_of_le_length]
  rw [List.length_take]
  omega

theorem Tracks.put (h : Tracks text position s) (hpad : pad ≤ position) {value : Byte}
    (hvalue : text[position]? = some value) : Tracks text (position + 1) (s.put value) := by
  refine ⟨?_, ?_⟩
  · have hnext := h.window.push (by decide) value
    rw [Decoder.put, List.take_add_one, hvalue]
    exact hnext
  · rw [drop_take_succ hpad hvalue, ← h.output]
    rfl

theorem Tracks.copyOut (length : ℕ) : ∀ {candidate position ring : ℕ} {s : Decoder},
    Tracks text position s → pad ≤ position → position + length ≤ text.length →
    candidate < position → position ≤ candidate + maxDistance →
    Agrees text candidate position length → ring % windowSize = (start + candidate) % windowSize →
    Tracks text (position + length) (Decoder.copyOut length ring s) := by
  induction length with
  | zero =>
    intro candidate position ring s h _ _ _ _ _ _
    exact h
  | succ length ih =>
    intro candidate position ring s h hpad hend hlt hnear hagrees hring
    have hcopy := h.window.copy (by decide) (by omega) hlt (by
      simp only [maxDistance] at hnear
      omega) (hagrees 0 (Nat.zero_lt_succ _))
    have hvalue : text[position]? = some (s.window (ring % windowSize)) := by
      rw [hring]
      exact hcopy.2
    have hrest : Agrees text (candidate + 1) (position + 1) length := by
      intro i hi
      rw [Nat.add_assoc, Nat.add_assoc, Nat.add_comm 1 i]
      exact hagrees (i + 1) (Nat.succ_lt_succ hi)
    rw [Decoder.copyOut, ← Nat.add_assoc, Nat.add_right_comm]
    refine ih (h.put hpad hvalue) (Nat.le_succ_of_le hpad) (by omega) (by omega) (by omega) hrest ?_
    rw [← Nat.add_assoc, Nat.add_mod ring, hring, ← Nat.add_mod]

end Playing

section Writing

variable {items last : List Item} {groups : List (List Item)} {item : Item} {s t : Encoder}

/-- Between two groups: the output is that of full groups. -/
structure Closed (groups : List (List Item)) (s : Encoder) : Prop where
  full : ∀ group ∈ groups, group.length = 8
  flagBit : s.flagBit = 8
  out : s.out = groups.flatMap groupBytes

/-- Within a group: the byte for its flags is at `flagAt`. -/
structure Open (groups : List (List Item)) (last : List Item) (s : Encoder) : Prop where
  full : ∀ group ∈ groups, group.length = 8
  short : last.length < 8
  flagBit : s.flagBit = last.length
  flagAt : s.flagAt = (groups.flatMap groupBytes).length
  out : s.out = groups.flatMap groupBytes ++ groupBytes last

def Written (items : List Item) (s : Encoder) : Prop :=
  (∃ groups, items = groups.flatten ∧ Closed groups s) ∨
    ∃ groups last, last ≠ [] ∧ items = groups.flatten ++ last ∧ Open groups last s

theorem Written.of_out (h : Written items s) (hout : t.out = s.out) (hat : t.flagAt = s.flagAt)
    (hbit : t.flagBit = s.flagBit) : Written items t := by
  rcases h with ⟨groups, hitems, h⟩ | ⟨groups, last, hne, hitems, h⟩
  · exact Or.inl ⟨groups, hitems, h.full, hbit.trans h.flagBit, hout.trans h.out⟩
  · exact Or.inr ⟨groups, last, hne, hitems, h.full, h.short, hbit.trans h.flagBit,
      hat.trans h.flagAt, hout.trans h.out⟩

theorem Written.openGroup (h : Written items s) :
    ∃ groups last, items = groups.flatten ++ last ∧ Open groups last (openGroup s) := by
  rcases h with ⟨groups, hitems, h⟩ | ⟨groups, last, _, hitems, h⟩
  · refine ⟨groups, [], hitems.trans (List.append_nil _).symm, ?_⟩
    rw [Lzss.openGroup, if_pos h.flagBit]
    exact ⟨h.full, by decide, rfl, congrArg List.length h.out, by rw [h.out]; rfl⟩
  · refine ⟨groups, last, hitems, ?_⟩
    rw [Lzss.openGroup, if_neg]
    · exact h
    · have := h.short
      rw [h.flagBit]
      omega

theorem Open.write (h : Open groups last s) (hbit : t.flagBit = last.length + 1)
    (hat : t.flagAt = s.flagAt)
    (hout : t.out = groups.flatMap groupBytes ++ groupBytes (last ++ [item])) :
    Written (groups.flatten ++ last ++ [item]) t := by
  have hlength : (last ++ [item]).length = last.length + 1 := by
    rw [List.length_append, List.length_singleton]
  rcases Nat.lt_or_ge (last.length + 1) 8 with hmore | hfull
  · right
    refine ⟨groups, last ++ [item], by simp, by rw [List.append_assoc], ?_⟩
    exact ⟨h.full, by omega, by rw [hbit, hlength], hat.trans h.flagAt, hout⟩
  · left
    have h8 : last.length + 1 = 8 := by
      have := h.short
      omega
    refine ⟨groups ++ [last ++ [item]], ?_, fun group hgroup ↦ ?_, hbit.trans h8, ?_⟩
    · rw [List.flatten_append, List.append_assoc]
      simp
    · rcases List.mem_append.mp hgroup with hgroup | hgroup
      · exact h.full group hgroup
      · rw [List.mem_singleton.mp hgroup, hlength, h8]
    · rw [hout, List.flatMap_append, List.flatMap_singleton]

theorem groupBytes_append (last : List Item) (item : Item) :
    groupBytes (last ++ [item]) =
      BitVec.ofNat 8 (flagsByte last + if item.isLiteral then 2 ^ last.length else 0) ::
        (last.flatMap bytes ++ item.bytes) := by
  rw [groupBytes, flagsByte_append, List.flatMap_append, List.flatMap_singleton]

theorem Open.copy (h : Open groups last s) {ring length : ℕ} :
    Written (groups.flatten ++ last ++ [copy ring length])
      { s with out := s.out ++ (copy ring length).bytes, flagBit := s.flagBit + 1 } := by
  refine h.write (by rw [h.flagBit]) rfl ?_
  rw [h.out, groupBytes_append]
  simp [isLiteral, groupBytes]

theorem modify_flag {before after : List Byte} {flag : Byte} (f : Byte → Byte) :
    (before ++ flag :: after).modify before.length f = before ++ f flag :: after := by
  induction before with
  | nil => rfl
  | cons first before ih => rw [List.cons_append, List.length_cons, List.modify_succ_cons, ih,
      List.cons_append]

theorem Open.literal (h : Open groups last s) (value : Byte) :
    Written (groups.flatten ++ last ++ [literal value])
      { setFlag s with out := (setFlag s).out ++ [value], flagBit := s.flagBit + 1 } := by
  have hflag : BitVec.ofNat 8 (flagsByte last) ||| BitVec.ofNat 8 (1 <<< last.length) =
      BitVec.ofNat 8 (flagsByte last + 2 ^ last.length) := by
    rw [← BitVec.ofNat_or, Nat.lor_comm, ← Nat.shiftLeft_add_eq_or_of_lt (flagsByte_lt last),
      Nat.one_shiftLeft, Nat.add_comm]
  refine h.write (by rw [h.flagBit]) rfl ?_
  rw [setFlag, h.out, h.flagAt, h.flagBit, groupBytes, modify_flag, hflag, groupBytes_append,
    List.append_assoc, List.cons_append]
  rfl

end Writing

section Encoding

variable {text : List Byte} {s : Encoder}

def Decoder.initial : Decoder := ⟨fun _ ↦ 0x20, windowSize - lookahead, 0, [], []⟩

/-- What holds of the encoder between two turns: it has written items that the decoder plays up to
its position, and its tables hold earlier positions, every one while three bytes are left. -/
structure Encodes (text : List Byte) (s : Encoder) : Prop where
  past : pad ≤ s.position
  inside : s.position ≤ text.length
  chains : ∃ b, 1 ≤ b ∧ b ≤ s.position ∧
    (s.position + minMatch ≤ text.length → b = s.position) ∧ Chains text b s
  items : ∃ items : List Item, (∀ item ∈ items, item.Valid) ∧ Written items s ∧
    Tracks text s.position (items.foldl play Decoder.initial)

theorem openGroup_tables (s : Encoder) :
    (openGroup s).head = s.head ∧ (openGroup s).prev = s.prev ∧
      (openGroup s).position = s.position := by
  unfold openGroup
  split_ifs <;> exact ⟨rfl, rfl, rfl⟩

theorem encodes_advance {b step : ℕ} (items : List Item) (hpad : pad ≤ s.position)
    (hend : s.position + step ≤ text.length) (hpos : 1 ≤ b) (hb : b ≤ s.position)
    (hlast : s.position + minMatch ≤ text.length → b = s.position) (hchains : Chains text b s)
    (hvalid : ∀ item ∈ items, item.Valid) (hwritten : Written items { s with flagBit := s.flagBit + 1 })
    (htracks : Tracks text (s.position + step) (items.foldl play Decoder.initial)) :
    Encodes text (advance text s step) := by
  rw [advance]
  generalize hn : min (s.position + step) (text.length - minMatch + 1) - s.position = n
  have hfold := foldl_insert_eq text (List.range' s.position n)
    { s with flagBit := s.flagBit + 1 }
  refine ⟨Nat.le_add_right_of_le hpad, hend, ?_, items, hvalid, ?_, htracks⟩
  · simp only [minMatch] at hn hlast ⊢
    by_cases hleft : s.position + 3 ≤ text.length
    · refine ⟨s.position + n, by omega, by omega, fun _ ↦ by omega, ?_⟩
      rw [hlast hleft] at hchains hpos
      have hnext : Chains text s.position { s with flagBit := s.flagBit + 1 } :=
        hchains.of_tables rfl rfl
      exact (hnext.foldl_insert hpos n).of_tables rfl rfl
    · have hzero : n = 0 := by
        simp only [pad, windowSize] at hpad
        omega
      refine ⟨b, hpos, by omega, fun _ ↦ by omega, ?_⟩
      rw [hzero]
      exact hchains.of_tables rfl rfl
  · refine hwritten.of_out ?_ ?_ ?_ <;> rw [hfold]

theorem matchBytes_eq (bestLength bestFrom : ℕ) :
    matchBytes bestLength bestFrom =
      (copy ((start + bestFrom) % windowSize) bestLength).bytes := by
  have hring : (((start : ℤ) + bestFrom - pad) % windowSize).toNat = (start + bestFrom) % windowSize := by
    simp only [start, pad, windowSize, lookahead]
    omega
  rw [matchBytes, hring, bytes]

theorem Encodes.turn (h : Encodes text s) (hmore : s.position < text.length) :
    Encodes text (turn text s) ∧ s.position < (turn text s).position := by
  obtain ⟨hhead, hprev, hposition⟩ := openGroup_tables s
  obtain ⟨b, hpos, hb, hlast, hchains⟩ := h.chains
  obtain ⟨items, hvalid, hwritten, htracks⟩ := h.items
  obtain ⟨groups, last, hitems, hopen⟩ := hwritten.openGroup
  have hpad := h.past
  replace hchains := hchains.of_tables hhead hprev
  rw [Lzss.turn]
  generalize openGroup s = t at *
  rw [← hposition] at hmore hpad hb hlast htracks ⊢
  have hsound := longest_sound hchains hb
  dsimp only
  generalize longest text t = best at hsound
  obtain ⟨bestLength, bestFrom⟩ := best
  dsimp only
  split_ifs with hmatch
  · rcases hsound with hzero | ⟨-, hmax, hlt, hnear, hagrees⟩
    · dsimp only at hzero
      subst hzero
      exact absurd hmatch (by decide)
    have hend : t.position + bestLength ≤ text.length := by
      have := hmax.trans (min_le_right _ _)
      dsimp only at this
      omega
    have hitem : (copy ((start + bestFrom) % windowSize) bestLength).Valid :=
      ⟨Nat.mod_lt _ (by decide), hmatch, hmax.trans (min_le_left _ _)⟩
    refine ⟨encodes_advance (items ++ [copy ((start + bestFrom) % windowSize) bestLength])
      (s := { t with out := t.out ++ matchBytes bestLength bestFrom })
      hpad hend hpos hb hlast (hchains.of_tables rfl rfl) ?_ ?_ ?_, ?_⟩
    · exact List.forall_mem_append.mpr ⟨hvalid, List.forall_mem_singleton.mpr hitem⟩
    · rw [hitems, matchBytes_eq]
      exact hopen.copy
    · rw [List.foldl_append]
      exact htracks.copyOut bestLength hpad hend hlt hnear hagrees (Nat.mod_mod _ _)
    · exact Nat.lt_add_of_pos_right (lt_of_lt_of_le (by decide) hmatch)
  · have hvalue : text[t.position]? = some (text.getD t.position 0) := by
      rw [List.getD_eq_getElem?_getD, List.getElem?_eq_getElem hmore, Option.getD_some]
    refine ⟨encodes_advance (items ++ [literal (text.getD t.position 0)])
      (s := { setFlag t with out := (setFlag t).out ++ [text.getD t.position 0] })
      hpad hmore hpos hb hlast (hchains.of_tables rfl rfl) ?_ ?_ ?_, Nat.lt_succ_self _⟩
    · exact List.forall_mem_append.mpr ⟨hvalid, List.forall_mem_singleton.mpr trivial⟩
    · rw [hitems]
      exact hopen.literal _
    · rw [List.foldl_append]
      exact htracks.put hpad hvalue

theorem Encodes.loop (n : ℕ) (h : Encodes text s) (hn : text.length ≤ s.position + n) :
    Encodes text (loop text n s) ∧ (loop text n s).position = text.length := by
  induction n generalizing s with
  | zero => exact ⟨h, le_antisymm h.inside hn⟩
  | succ n ih =>
    rw [Lzss.loop]
    split_ifs with hmore
    · obtain ⟨hnext, hlt⟩ := h.turn hmore
      exact ih hnext (by omega)
    · exact ⟨h, le_antisymm h.inside (Nat.le_of_not_lt hmore)⟩

variable (data : List Byte)

/-- Before the first byte the tables hold the spaces. -/
theorem encodes_initial :
    Encodes (List.replicate pad 0x20 ++ data) (initial (List.replicate pad 0x20 ++ data)) := by
  have hfold := foldl_insert_eq (List.replicate pad 0x20 ++ data)
    (List.range' (pad - maxDistance) maxDistance)
    ⟨fun _ ↦ none, fun _ ↦ some 0, [], 0, 8, pad⟩
  have hposition : (initial (List.replicate pad 0x20 ++ data)).position = pad := by
    rw [initial, hfold]
  have hempty : Chains (List.replicate pad 0x20 ++ data) 1
      ⟨fun _ ↦ none, fun _ ↦ some 0, [], 0, 8, pad⟩ := by
    refine ⟨?_, fun q r hq hlt _ ↦ ?_⟩
    · intro k q hq
      cases hq
    · omega
  refine ⟨hposition.ge, ?_, ⟨pad, by decide, hposition.ge, fun _ ↦ hposition.symm, ?_⟩, ?_⟩
  · rw [hposition, List.length_append, List.length_replicate]
    exact Nat.le_add_right _ _
  · exact hempty.foldl_insert le_rfl maxDistance
  · refine ⟨[], List.forall_mem_nil _, Or.inl ⟨[], rfl, List.forall_mem_nil _, ?_, ?_⟩, ?_⟩
    · rw [initial, hfold]
    · rw [initial, hfold]
      rfl
    · rw [hposition]
      refine ⟨?_, ?_⟩
      · rw [List.take_left' List.length_replicate]
        exact holds_replicate start (0x20 : Byte)
      · rw [List.take_left' List.length_replicate, List.drop_eq_nil_of_le]
        · rfl
        · rw [List.length_replicate]

end Encoding

theorem opening_initial (source : List Byte) :
    Opening (Decoder.seek 0 source Decoder.initial) := by
  rw [Opening, Decoder.seek, Nat.zero_shiftRight, Nat.zero_and]

theorem length_le_flatMap_bytes (items : List Item) : items.length ≤ (items.flatMap bytes).length := by
  induction items with
  | nil => exact le_rfl
  | cons item items ih =>
    have := List.length_pos_iff.mpr (bytes_ne_nil item)
    rw [List.flatMap_cons, List.length_append, List.length_cons]
    omega

theorem length_le_flatMap_groupBytes (groups : List (List Item)) :
    groups.flatten.length ≤ (groups.flatMap groupBytes).length := by
  induction groups with
  | nil => exact le_rfl
  | cons group groups ih =>
    have := length_le_flatMap_bytes group
    rw [List.flatten_cons, List.flatMap_cons, List.length_append, List.length_append, groupBytes,
      List.length_cons]
    omega

theorem Written.decompress {items : List Item} {s : Encoder} (h : Written items s)
    (hvalid : ∀ item ∈ items, item.Valid) :
    decompressLzss s.out = (items.foldl play Decoder.initial).output := by
  have hread : ∀ (groups : List (List Item)) (last : List Item), last.length ≤ 8 →
      (∀ group ∈ groups, group.length = 8) → items = groups.flatten ++ last →
      s.out = groups.flatMap groupBytes ++ (if last = [] then [] else groupBytes last) →
      decompressLzss s.out = (items.foldl play Decoder.initial).output := by
    intro groups last hshort hfull hitems hout
    have hfuel : (groups.flatten ++ last).length ≤ s.out.length := by
      have := length_le_flatMap_groupBytes groups
      have := length_le_flatMap_bytes last
      rw [hout, List.length_append, List.length_append]
      split_ifs with hlast
      · rw [hlast, List.length_nil]
        omega
      · rw [groupBytes, List.length_cons]
        omega
    have hplay := loop_groups (s := Decoder.initial.seek 0 s.out) hfull hshort
      (s.out.length - (groups.flatten ++ last).length) (by rwa [← hitems]) (opening_initial _) hout
    rw [Nat.add_sub_cancel' hfuel, ← hitems, foldl_play_seek] at hplay
    exact hplay
  rcases h with ⟨groups, hitems, h⟩ | ⟨groups, last, hne, hitems, h⟩
  · exact hread groups [] (by decide) h.full (hitems.trans (List.append_nil _).symm)
      (h.out.trans (List.append_nil _).symm)
  · exact hread groups last h.short.le h.full hitems (by rw [if_neg hne]; exact h.out)

/-- What was packed is unpacked to what it was. -/
theorem decompress_compress (data : List Byte) : decompressLzss (compressLzss data) = data := by
  obtain ⟨h, hend⟩ := (encodes_initial data).loop data.length (by
    have := (encodes_initial data).past
    rw [List.length_append, List.length_replicate]
    omega)
  obtain ⟨items, hvalid, hwritten, htracks⟩ := h.items
  rw [compressLzss, hwritten.decompress hvalid, htracks.output, hend, List.take_length,
    List.drop_left' List.length_replicate]

end Cdj2000Emulator.Flash.Lzss
