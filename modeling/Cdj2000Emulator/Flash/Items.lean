import Cdj2000Emulator.Flash.Lzss
import Mathlib.Data.Nat.Bitwise
import Mathlib.Tactic.IntervalCases

namespace Cdj2000Emulator.Flash.Lzss

open Library.Bytes

/-- What a packed stream is made of: a byte, or a match in the ring. -/
inductive Item where
  | literal (value : Byte)
  | copy (ring length : ℕ)

namespace Item

def Valid : Item → Prop
  | literal _ => True
  | copy ring length => ring < windowSize ∧ minMatch ≤ length ∧ length ≤ maxMatch

def isLiteral : Item → Bool
  | literal _ => true
  | copy _ _ => false

def bytes : Item → List Byte
  | literal value => [value]
  | copy ring length =>
    [BitVec.ofNat 8 (ring &&& 0xff), BitVec.ofNat 8 ((ring >>> 4 &&& 0xf0) ||| (length - minMatch))]

def play (s : Decoder) : Item → Decoder
  | literal value => s.put value
  | copy ring length => Decoder.copyOut length ring s

end Item

open Item

/-- Bit `i` of the byte says that item `i` of the group is a literal. -/
@[grind] def flagsByte : List Item → ℕ
  | [] => 0
  | item :: group => (if item.isLiteral then 1 else 0) + 2 * flagsByte group

def groupBytes (group : List Item) : List Byte :=
  BitVec.ofNat 8 (flagsByte group) :: group.flatMap bytes

theorem flagsByte_lt (group : List Item) : flagsByte group < 2 ^ group.length := by
  induction group with
  | nil => simp [flagsByte]
  | cons item group ih =>
    rw [flagsByte, List.length_cons, Nat.pow_succ]
    split_ifs <;> omega

theorem flagsByte_append (group : List Item) (item : Item) :
    flagsByte (group ++ [item]) =
      flagsByte group + if item.isLiteral then 2 ^ group.length else 0 := by
  induction group with
  | nil => simp [flagsByte]
  | cons first group ih =>
    rw [List.cons_append, flagsByte, ih, flagsByte, List.length_cons, Nat.pow_succ]
    split_ifs <;> omega

theorem testBit_flagsByte (group : List Item) (i : ℕ) :
    (flagsByte group).testBit i = (group[i]?.map isLiteral).getD false := by
  induction group generalizing i with
  | nil => simp [flagsByte]
  | cons item group ih =>
    cases i with
    | zero =>
      rw [flagsByte, Nat.testBit_zero]
      cases h : item.isLiteral <;> simp [h]
    | succ i =>
      rw [flagsByte, Nat.testBit_succ, List.getElem?_cons_succ, ← ih]
      congr 1
      split_ifs <;> omega

theorem nibbles : ∀ high < 16, ∀ low < 16,
    (16 * high + low) &&& 0xf0 = 16 * high ∧
    (16 * high + low) &&& 0x0f = low ∧ 16 * high ||| low = 16 * high + low := by
  decide

theorem bytes_copy {ring length : ℕ} (h : (copy ring length).Valid) :
    ∃ first second : Byte, (copy ring length).bytes = [first, second] ∧
      (first.toNat ||| (second.toNat &&& 0xf0) <<< 4) = ring ∧
      (second.toNat &&& 0x0f) + 3 = length := by
  obtain ⟨hring, hshort, hlong⟩ := h
  simp only [windowSize, minMatch, maxMatch, lookahead] at hring hshort hlong
  refine ⟨_, _, rfl, ?_⟩
  have hshift : ring >>> 4 = 16 * (ring / 256) + ring / 16 % 16 := by
    rw [Nat.shiftRight_eq_div_pow]
    omega
  have hhigh : ring >>> 4 &&& 0xf0 = 16 * (ring / 256) := by
    rw [hshift]
    exact (nibbles (ring / 256) (by omega) (ring / 16 % 16) (by omega)).1
  obtain ⟨hplace, hcount, hor⟩ := nibbles (ring / 256) (by omega) (length - 3) (by omega)
  have hfirst : (BitVec.ofNat 8 (ring &&& 0xff)).toNat = ring % 256 := by
    rw [BitVec.toNat_ofNat, show 0xff = 2 ^ 8 - 1 from rfl, Nat.and_two_pow_sub_one_eq_mod]
    omega
  have hsecond : (BitVec.ofNat 8 ((ring >>> 4 &&& 0xf0) ||| (length - minMatch))).toNat =
      16 * (ring / 256) + (length - 3) := by
    rw [hhigh, minMatch, hor, BitVec.toNat_ofNat]
    omega
  rw [hfirst, hsecond, hplace, hcount]
  refine ⟨?_, by omega⟩
  have hsplit : (16 * (ring / 256)) <<< 4 = (ring / 256) <<< 8 := by
    simp only [Nat.shiftLeft_eq]
    omega
  rw [hsplit, Nat.lor_comm, ← Nat.shiftLeft_add_eq_or_of_lt (by omega : ring % 256 < 2 ^ 8),
    Nat.shiftLeft_eq]
  omega

section Reading

/-- The decoder at another place of the stream, its window and output as they are. -/
def Decoder.seek (flags : ℕ) (source : List Byte) (s : Decoder) : Decoder :=
  { s with flags := flags, source := source }

@[simp] theorem Decoder.seek_seek (s : Decoder) (f g : ℕ) (a b : List Byte) :
    (s.seek f a).seek g b = s.seek g b := rfl

theorem Decoder.seek_self {s : Decoder} {f : ℕ} {a : List Byte} (hf : s.flags = f)
    (ha : s.source = a) : s.seek f a = s := by
  rw [← hf, ← ha]
  rfl

theorem Decoder.copyOut_seek (s : Decoder) (flags : ℕ) (source : List Byte) (count ring : ℕ) :
    copyOut count ring (s.seek flags source) = (copyOut count ring s).seek flags source := by
  induction count generalizing ring s with
  | zero => rfl
  | succ count ih => exact ih (s.put (s.window (ring % windowSize))) (ring + 1)

theorem play_seek (s : Decoder) (flags : ℕ) (source : List Byte) (item : Item) :
    item.play (s.seek flags source) = (item.play s).seek flags source := by
  cases item with
  | literal value => rfl
  | copy ring length => exact s.copyOut_seek flags source length ring

theorem foldl_play_seek (items : List Item) (s : Decoder) (flags : ℕ) (source : List Byte) :
    items.foldl play (s.seek flags source) = (items.foldl play s).seek flags source := by
  induction items generalizing s with
  | nil => rfl
  | cons item items ih => rw [List.foldl_cons, List.foldl_cons, play_seek, ih]

theorem loop_item {s : Decoder} (item : Item) (rest : List Byte) (n : ℕ) (h : s.source ≠ [])
    (hvalid : item.Valid) (hsource : s.nextFlag.source = item.bytes ++ rest)
    (hflag : s.nextFlag.flags &&& 1 = if item.isLiteral then 1 else 0) :
    Decoder.loop (n + 1) s = Decoder.loop n (item.play (s.nextFlag.seek s.nextFlag.flags rest)) := by
  rw [Decoder.loop, if_neg h]
  cases item with
  | literal value =>
    simp only [hflag, isLiteral, if_true, hsource, bytes, List.cons_append, List.nil_append, play]
    rfl
  | copy ring length =>
    obtain ⟨first, second, hbytes, hring, hlength⟩ := bytes_copy hvalid
    simp only [hflag, isLiteral, hsource, hbytes, List.cons_append, List.nil_append, hring, hlength,
      play]
    rfl

/-- The state in which a byte for the flags is read next. -/
def Opening (s : Decoder) : Prop := s.flags >>> 1 &&& 0x100 = 0

theorem testBit_flags (flags i : ℕ) :
    (flags ||| 0xff00).testBit i = (flags.testBit i || (decide (8 ≤ i) && decide (i < 16))) := by
  rw [Nat.testBit_or]
  congr 1
  rw [show 0xff00 = (2 ^ 8 - 1) <<< 8 from rfl, Nat.testBit_shiftLeft, Nat.testBit_two_pow_sub_one]
  by_cases hi : 8 ≤ i
  · simp only [hi, decide_true, Bool.true_and, decide_eq_decide]
    omega
  · simp [hi]

theorem and_0x100 (x : ℕ) : x &&& 0x100 = 0 ↔ x.testBit 8 = false := by
  rw [show 0x100 = 2 ^ 8 from rfl, Nat.and_two_pow]
  cases x.testBit 8 <;> simp

theorem and_one (x : ℕ) : x &&& 1 = if x.testBit 0 then 1 else 0 := by
  rw [Nat.and_one_is_mod, Nat.testBit_zero]
  simp only [decide_eq_true_eq]
  split_ifs <;> omega

/-- Item `i` of the group with these flags was read last. -/
def Inside (flags i : ℕ) (s : Decoder) : Prop := s.flags = (flags ||| 0xff00) >>> i

/-- After eight items of a group the next byte is for the flags. -/
theorem opening_of_inside {flags : ℕ} (h : flags < 2 ^ 8) {s : Decoder} (hs : Inside flags 7 s) :
    Opening s := by
  rw [Opening, and_0x100, hs, ← Nat.shiftRight_add, Nat.testBit_shiftRight, testBit_flags,
    Nat.testBit_lt_two_pow (lt_of_lt_of_le h (by decide))]
  rfl

theorem nextFlag_opening {s : Decoder} (h : Opening s) {flags : ℕ} (hflags : flags < 2 ^ 8)
    {rest : List Byte} (hsource : s.source = BitVec.ofNat 8 flags :: rest) :
    s.nextFlag = s.seek (flags ||| 0xff00) rest := by
  unfold Opening at h
  rw [Decoder.nextFlag, if_pos h, hsource, List.headD_cons, List.tail_cons, BitVec.toNat_ofNat,
    Nat.mod_eq_of_lt hflags, Decoder.seek]

theorem nextFlag_inside {flags i : ℕ} (hi : i < 7) {s : Decoder}
    (hs : Inside flags i s) : s.nextFlag = s.seek ((flags ||| 0xff00) >>> (i + 1)) s.source := by
  have hshift : s.flags >>> 1 = (flags ||| 0xff00) >>> (i + 1) := by
    rw [hs, Nat.shiftRight_add]
  rw [Decoder.nextFlag, if_neg, hshift, Decoder.seek]
  rw [and_0x100, hshift, Nat.testBit_shiftRight, testBit_flags]
  have h8 : 8 ≤ i + 1 + 8 := by omega
  have h16 : i + 1 + 8 < 16 := by omega
  simp [h8, h16]

theorem bytes_ne_nil (item : Item) : item.bytes ≠ [] := by
  cases item <;> exact List.cons_ne_nil _ _

theorem flag_of_item {group : List Item} {i : ℕ} {item : Item} (h : group[i]? = some item)
    (hi : i < 8) :
    (flagsByte group ||| 0xff00) >>> i &&& 1 = if item.isLiteral then 1 else 0 := by
  have hlow : decide (8 ≤ i + 0) = false := decide_eq_false (by omega)
  rw [and_one, Nat.testBit_shiftRight, testBit_flags, hlow, testBit_flagsByte, Nat.add_zero, h]
  simp

theorem loop_inside {group : List Item} (hgroup : group.length ≤ 8) {rest : List Item} :
    ∀ (done : List Item) {s : Decoder} {tail : List Byte} (n : ℕ), group = done ++ rest →
      done ≠ [] → Inside (flagsByte group) (done.length - 1) s → (∀ item ∈ rest, item.Valid) →
      s.source = rest.flatMap bytes ++ tail →
      Decoder.loop (rest.length + n) s = Decoder.loop n ((rest.foldl play s).seek
        ((flagsByte group ||| 0xff00) >>> (group.length - 1)) tail) := by
  induction rest with
  | nil =>
    intro done s tail n happend _ hinside _ hsource
    rw [List.append_nil] at happend
    rw [List.flatMap_nil, List.nil_append] at hsource
    have hflags : s.flags = (flagsByte group ||| 0xff00) >>> (group.length - 1) := by
      rw [happend] at hinside ⊢
      exact hinside
    rw [List.length_nil, Nat.zero_add, List.foldl_nil, Decoder.seek_self hflags hsource]
  | cons item rest ih =>
    intro done s tail n happend hdone hinside hvalid hsource
    have hpos : 0 < done.length := List.length_pos_iff.mpr hdone
    have hlength : group.length = done.length + (rest.length + 1) := by
      rw [happend, List.length_append, List.length_cons]
    have hnext := nextFlag_inside (by omega) hinside
    rw [Nat.sub_add_cancel hpos] at hnext
    have hne : s.source ≠ [] := by
      rw [hsource, List.flatMap_cons, List.append_assoc]
      exact List.append_ne_nil_of_left_ne_nil (bytes_ne_nil item) _
    have hitem : group[done.length]? = some item := by
      rw [happend, List.getElem?_append_right le_rfl, Nat.sub_self]
      rfl
    have hstep := loop_item item _ (rest.length + n) hne (hvalid item List.mem_cons_self)
      (by rw [hnext, Decoder.seek, hsource, List.flatMap_cons, List.append_assoc])
      (by rw [hnext]; exact flag_of_item hitem (by omega))
    rw [hnext, Decoder.seek_seek, play_seek] at hstep
    rw [List.length_cons, Nat.add_right_comm, hstep, ih (done ++ [item]) n
      (by rw [happend, List.append_assoc]; rfl) (by simp) (by simp [Inside, Decoder.seek])
      (fun item h ↦ hvalid item (List.mem_cons_of_mem _ h)) rfl, foldl_play_seek,
      Decoder.seek_seek, List.foldl_cons]

theorem loop_group {group : List Item} (hgroup : group.length ≤ 8) (hne : group ≠ [])
    (hvalid : ∀ item ∈ group, item.Valid) {s : Decoder} (h : Opening s) {tail : List Byte} (n : ℕ)
    (hsource : s.source = groupBytes group ++ tail) :
    Decoder.loop (group.length + n) s = Decoder.loop n ((group.foldl play s).seek
      ((flagsByte group ||| 0xff00) >>> (group.length - 1)) tail) := by
  have hflags : flagsByte group < 2 ^ 8 :=
    lt_of_lt_of_le (flagsByte_lt group) (Nat.pow_le_pow_right (by decide) hgroup)
  rw [groupBytes, List.cons_append] at hsource
  have hnext := nextFlag_opening h hflags hsource
  cases hcons : group with
  | nil => exact absurd hcons hne
  | cons item rest =>
    have hitem : group[0]? = some item := by rw [hcons]; rfl
    have hstep := loop_item item (rest.flatMap bytes ++ tail) (rest.length + n)
      (by rw [hsource]; exact List.cons_ne_nil _ _)
      (hvalid item (by rw [hcons]; exact List.mem_cons_self))
      (by rw [hnext, Decoder.seek, hcons, List.flatMap_cons, List.append_assoc])
      (by rw [hnext]; exact flag_of_item hitem (by decide))
    rw [hnext, Decoder.seek_seek, play_seek] at hstep
    rw [List.length_cons, Nat.add_right_comm, hstep, loop_inside hgroup [item] n hcons
      (List.cons_ne_nil _ _) (by simp [Inside, Decoder.seek])
      (fun item h ↦ hvalid item (by rw [hcons]; exact List.mem_cons_of_mem _ h)) rfl, foldl_play_seek,
      Decoder.seek_seek, List.foldl_cons, hcons, List.length_cons]

theorem opening_of_full {group : List Item} (h : group.length = 8) (s : Decoder) (tail : List Byte) :
    Opening (s.seek ((flagsByte group ||| 0xff00) >>> (group.length - 1)) tail) :=
  opening_of_inside (lt_of_lt_of_le (flagsByte_lt group) (by rw [h])) (by rw [h]; rfl)

theorem loop_groups {groups : List (List Item)} {last : List Item}
    (hfull : ∀ group ∈ groups, group.length = 8) (hlast : last.length ≤ 8) :
    ∀ {s : Decoder} (n : ℕ), (∀ item ∈ groups.flatten ++ last, item.Valid) → Opening s →
      s.source = groups.flatMap groupBytes ++ (if last = [] then [] else groupBytes last) →
      (Decoder.loop ((groups.flatten ++ last).length + n) s).output =
        ((groups.flatten ++ last).foldl play s).output := by
  induction groups with
  | nil =>
    intro s n hvalid h hsource
    rw [List.flatten_nil, List.nil_append] at hvalid ⊢
    rw [List.flatMap_nil, List.nil_append] at hsource
    by_cases hne : last = []
    · rw [if_pos hne] at hsource
      subst hne
      cases n with
      | zero => rfl
      | succ n => rw [List.length_nil, Nat.zero_add, Decoder.loop, if_pos hsource]; rfl
    · rw [if_neg hne] at hsource
      rw [loop_group hlast hne hvalid h n (hsource.trans (List.append_nil _).symm)]
      cases n with
      | zero => rfl
      | succ n => rw [Decoder.loop, if_pos (by rfl)]; rfl
  | cons group groups ih =>
    intro s n hvalid h hsource
    have h8 : group.length = 8 := hfull group List.mem_cons_self
    rw [List.flatMap_cons, List.append_assoc] at hsource
    rw [List.flatten_cons, List.append_assoc] at hvalid ⊢
    rw [List.length_append, Nat.add_assoc, loop_group h8.le (by rintro rfl; cases h8)
      (fun item hitem ↦ hvalid item (List.mem_append_left _ hitem)) h _ hsource,
      ih (fun group h ↦ hfull group (List.mem_cons_of_mem _ h)) n
        (fun item hitem ↦ hvalid item (List.mem_append_right _ hitem)) (opening_of_full h8 _ _) rfl,
      foldl_play_seek, List.foldl_append (l := group)]
    rfl

end Reading

end Cdj2000Emulator.Flash.Lzss
