import Cdj2000Emulator.Card.Slots

namespace Cdj2000Emulator.Card

open Function Library.Bytes

section Short

variable {upper : Str → Str} {name text stem ext : Str} {taken : List (List Byte)} {short : List Byte} {n : ℕ}

/-- A character of a short name: ASCII, and not NUL. -/
def Ascii (text : Str) : Prop := ∀ c ∈ text, 0 < c ∧ c < 128

/-- A byte that neither ends a directory nor marks a deleted slot. -/
def Printed (byte : Byte) : Prop := 0 < byte.toNat ∧ byte.toNat < 128

theorem Printed.ne {byte : Byte} (h : Printed byte) : byte ≠ 0 ∧ byte ≠ 0xe5 := by
  constructor
  · rintro rfl
    exact absurd h.1 (by decide)
  · rintro rfl
    exact absurd h.2 (by decide)

theorem Ascii.append (h : Ascii stem) (h' : Ascii ext) : Ascii (stem ++ ext) := List.forall_mem_append.mpr ⟨h, h'⟩

theorem Ascii.take (h : Ascii stem) (n : ℕ) : Ascii (stem.take n) := fun c hc ↦ h c (List.mem_of_mem_take hc)

theorem Ascii.ljust (h : Ascii stem) (n : ℕ) : Ascii (ljust n 0x20 stem) :=
  h.append fun _ hc ↦ by rw [List.eq_of_mem_replicate hc]; decide

theorem ascii_tilde (n : ℕ) : Ascii (tilde n) := by
  intro c hc
  rcases List.mem_cons.mp hc with rfl | hdigit
  · decide
  · rw [codes, Nat.toString_eq_ofList_toDigits, String.toList_ofList, List.mem_map] at hdigit
    obtain ⟨digit, hmem, rfl⟩ := hdigit
    have hd := Nat.isDigit_of_mem_toDigits (by decide) le_rfl hmem
    rw [Char.isDigit_iff_toNat] at hd
    have hnine : '9'.toNat = 57 := rfl
    have hzero : '0'.toNat = 48 := rfl
    omega

theorem length_tilde (hn : n < 1000) : (tilde n).length ≤ 4 := by
  rw [tilde, List.length_cons, codes, List.length_map, Nat.toString_eq_ofList_toDigits, String.toList_ofList]
  exact Nat.succ_le_succ ((Nat.length_toDigits_le_iff (by decide) (by decide)).mpr hn)

theorem ascii_plain (hupper : 0 ∉ upper text) : Ascii (plain upper text) := by
  intro c hc
  obtain ⟨d, hd, rfl⟩ := List.mem_map.mp hc
  have hne : d ≠ 0 := fun h ↦ hupper (h ▸ (List.mem_filter.mp hd).1)
  split_ifs
  · omega
  · decide

theorem mem_stemExt {c : ℕ} (h : c ∈ (stemExt name).1 ∨ c ∈ (stemExt name).2) : c ∈ name := by
  have hparts : ∀ c, c ∈ (rpartition name).1 ∨ c ∈ (rpartition name).2 → c ∈ name := by
    intro c hc
    rcases hc with hstem | hext
    · exact List.mem_reverse.mp (List.dropWhile_sublist _ |>.subset (List.mem_of_mem_drop (List.mem_reverse.mp hstem)))
    · exact List.mem_reverse.mp (List.takeWhile_sublist _ |>.subset (List.mem_reverse.mp hext))
  rw [stemExt] at h
  split_ifs at h
  · exact h.resolve_right List.not_mem_nil
  · exact hparts c h

theorem length_field (hstem : stem.length ≤ 8) (hext : ext.length ≤ 3) : (field stem ext).length = 11 := by
  rw [field, List.length_map, List.length_append, length_ljust, length_ljust, max_eq_left hstem, max_eq_left hext]

theorem printed_field (hstem : Ascii stem) (hext : Ascii ext) : ∀ byte ∈ field stem ext, Printed byte := by
  intro byte hbyte
  obtain ⟨c, hc, rfl⟩ := List.mem_map.mp hbyte
  have hascii := (hstem.ljust 8).append (hext.ljust 3) c hc
  have hvalue : (BitVec.ofNat 8 c).toNat = c := by
    rw [BitVec.toNat_ofNat]
    exact Nat.mod_eq_of_lt (by omega)
  rw [Printed, hvalue]
  exact hascii

/-- A short name as the directories hold it. -/
structure ShortName (short : List Byte) : Prop where
  length : short.length = 11
  printed : ∀ byte ∈ short, Printed byte

theorem shortName_ok (hupper : ∀ text, 0 ∉ text → 0 ∉ upper text) (hname : 0 ∉ name)
    (h : shortName upper name taken = .ok short) : ShortName short ∧ short ∉ taken := by
  have hstem : Ascii (plain upper (stemExt name).1) :=
    ascii_plain (hupper _ fun hmem ↦ hname (mem_stemExt (Or.inl hmem)))
  have hext : Ascii ((plain upper (stemExt name).2).take 3) :=
    Ascii.take (ascii_plain (hupper _ fun hmem ↦ hname (mem_stemExt (Or.inr hmem)))) 3
  have hextlength : ((plain upper (stemExt name).2).take 3).length ≤ 3 := List.length_take_le _ _
  rw [shortName] at h
  generalize plain upper (stemExt name).1 = stem at h hstem
  generalize (plain upper (stemExt name).2).take 3 = ext at h hext hextlength
  generalize (if ext = [] then stem else stem ++ 0x2e :: ext) = whole at h
  split at h
  next hplain =>
    cases h
    exact ⟨⟨length_field hplain.1 hextlength, printed_field hstem hext⟩, hplain.2.2⟩
  next =>
    split at h
    next candidate hfind =>
      cases h
      obtain ⟨n, hn, htail⟩ := List.mem_map.mp (List.mem_of_find?_eq_some hfind)
      have hfresh : short ∉ taken := by simpa only [decide_eq_true_eq] using List.find?_some hfind
      rw [List.mem_range'_1] at hn
      have htilde := length_tilde (n := n) (by omega)
      refine ⟨?_, hfresh⟩
      rw [← htail]
      refine ⟨length_field ?_ hextlength, printed_field ((hstem.take _).append (ascii_tilde n)) hext⟩
      rw [List.length_append, List.length_take]
      omega
    next => cases h

end Short

section Long

variable {name : Str} {short : List Byte} {long : List (List Byte)} {order : ℕ} {checksum : Byte}
  {part raw : List Byte}

theorem lfnEntry_spec (hpart : part.length = 26) :
    (lfnEntry order checksum part).length = 32 ∧ (lfnEntry order checksum part).getD 0 0 = BitVec.ofNat 8 order ∧
    (lfnEntry order checksum part).getD 11 0 = 0x0f := by
  have hfirst : (BitVec.ofNat 8 order :: part.take 10).length = 11 := by
    rw [List.length_cons, List.length_take]
    omega
  refine ⟨?_, rfl, ?_⟩
  · simp only [lfnEntry, List.length_append, List.length_take, List.length_drop, List.length_cons, List.length_nil]
    omega
  · simp only [lfnEntry, List.append_assoc, List.cons_append, List.nil_append]
    rw [← List.cons_append, List.getD_eq_getElem?_getD, List.getElem?_append_right hfirst.le, hfirst]
    rfl

/-- The slots of a long name: none of them holds an entry. -/
structure LongName (long : List (List Byte)) : Prop where
  whole : Whole long
  silent : ∀ raw ∈ long, Silent raw

theorem lfnEntries_ok (h : lfnEntries name short = .ok long) : LongName long := by
  rw [lfnEntries] at h
  split at h
  · cases h
  · next encoded _ =>
    dsimp only at h
    split_ifs at h with hfew
    cases h
    set count := ((encoded ++ [0, 0]).length + 25) / 26 with hcount
    have hraw : ∀ raw ∈ ((List.range count).map fun i ↦
        lfnEntry (if i + 1 = count then (i + 1) ||| 0x40 else i + 1) (lfnChecksum short)
          (ljust 26 0xff (((encoded ++ [0, 0]).drop (26 * i)).take 26))).reverse,
        raw.length = 32 ∧ raw.getD 0 0 ≠ 0 ∧ raw.getD 11 0 = 0x0f := by
      intro raw hmem
      obtain ⟨i, hi, rfl⟩ := List.mem_map.mp (List.mem_reverse.mp hmem)
      rw [List.mem_range] at hi
      have hpart : (ljust 26 0xff (((encoded ++ [0, 0]).drop (26 * i)).take 26)).length = 26 := by
        rw [length_ljust, List.length_take]
        omega
      obtain ⟨hlength, horder, hkind⟩ := lfnEntry_spec hpart
      refine ⟨hlength, ?_, hkind⟩
      have hsmall : ∀ k, 0 < k → k < 256 → BitVec.ofNat 8 k ≠ (0 : Byte) := by
        intro k hpos hk hzero
        have := congrArg BitVec.toNat hzero
        rw [BitVec.toNat_ofNat, Nat.mod_eq_of_lt (by omega)] at this
        exact absurd this hpos.ne'
      rw [horder]
      split_ifs
      · refine hsmall _ (lt_of_lt_of_le (by decide : 0 < 0x40) Nat.right_le_or) ?_
        exact Nat.or_lt_two_pow (n := 8) (by omega) (by decide)
      · exact hsmall _ (Nat.succ_pos i) (by omega)
    exact ⟨fun raw hmem ↦ (hraw raw hmem).1, fun raw hmem ↦ ⟨(hraw raw hmem).2.1,
      Or.inr (hraw raw hmem).2.2⟩⟩

end Long

section New

variable {upper : Str → Str} {entries : List Entry} {name : Str} {attr : Byte} {cluster size : ℕ}
  {new : List (List Byte)} {short : List Byte}

theorem length_shortEntry (hshort : short.length = 11) : (shortEntry short attr cluster size).length = 32 := by
  simp only [shortEntry, List.length_append, List.length_cons, List.length_nil, List.length_replicate,
    length_little, hshort]

theorem shortEntry_eq (hshort : short.length = 11) :
    (shortEntry short attr cluster size).take 11 = short ∧
    (shortEntry short attr cluster size).getD 0 0 = short.getD 0 0 ∧
    (shortEntry short attr cluster size).getD 11 0 = attr ∧
    ((shortEntry short attr cluster size).drop 20).take 2 = little 2 (cluster >>> 16) ∧
    ((shortEntry short attr cluster size).drop 26).take 2 = little 2 (cluster &&& 0xffff) ∧
    ((shortEntry short attr cluster size).drop 28).take 4 = little 4 size := by
  obtain ⟨a, b, c, d, e, f, g, h, i, j, k, rfl⟩ : ∃ a b c d e f g h i j k : Byte, short =
      [a, b, c, d, e, f, g, h, i, j, k] := by
    match short, hshort with
    | [a, b, c, d, e, f, g, h, i, j, k], _ => exact ⟨a, b, c, d, e, f, g, h, i, j, k, rfl⟩
  exact ⟨rfl, rfl, rfl, rfl, rfl, rfl⟩

/-- What `add_entry` lays into the directory: the slots of the long name, and the entry. -/
structure New (taken : List (List Byte)) (attr : Byte) (cluster size : ℕ) (new long : List (List Byte))
    (short : List Byte) : Prop where
  eq : new = long ++ [shortEntry short attr cluster size]
  name : ShortName short
  fresh : short ∉ taken
  parts : LongName long
  sizes : packs cluster size

theorem newEntries_ok (hupper : ∀ text, 0 ∉ text → 0 ∉ upper text) (hname : 0 ∉ name)
    (h : Layout.newEntries upper entries name attr cluster size = .ok new) :
    ∃ long short, shortName upper name (entries.map Entry.short) = .ok short ∧
      (if fits83 upper name then .ok [] else lfnEntries name short) = .ok long ∧
      New (entries.map Entry.short) attr cluster size new long short := by
  rw [Layout.newEntries] at h
  cases hshort : shortName upper name (entries.map Entry.short) with
  | error e =>
    rw [hshort] at h
    cases h
  | ok short =>
    obtain ⟨hok, hfresh⟩ := shortName_ok hupper hname hshort
    have hlong : ∃ long, (if fits83 upper name then .ok [] else lfnEntries name short) = .ok long ∧
        LongName long ∧ (if packs cluster size then .ok (long ++ [shortEntry short attr cluster size])
          else .error .structError : Except Raise (List (List Byte))) = .ok new := by
      rw [hshort] at h
      change (if fits83 upper name then _ else _) = _ at h
      by_cases hfits : fits83 upper name
      · rw [if_pos hfits] at h ⊢
        exact ⟨[], rfl, ⟨fun _ hr ↦ absurd hr List.not_mem_nil, fun _ hr ↦ absurd hr List.not_mem_nil⟩, h⟩
      · rw [if_neg hfits] at h ⊢
        cases hentries : lfnEntries name short with
        | error e =>
          rw [hentries] at h
          cases h
        | ok long =>
          rw [hentries] at h
          exact ⟨long, rfl, lfnEntries_ok hentries, h⟩
    obtain ⟨long, heq, hparts, hnew⟩ := hlong
    split_ifs at hnew with hpacks
    cases hnew
    exact ⟨long, short, rfl, heq, rfl, hok, hfresh, hparts, hpacks⟩

theorem New.live {taken long : List (List Byte)} (h : New taken attr cluster size new long short)
    (hattr : attr ≠ 0x0f) :
    Live (shortEntry short attr cluster size) := by
  obtain ⟨-, hfirst, hkind, -⟩ := shortEntry_eq h.name.length
  have hne : Printed (short.getD 0 0) := by
    cases hs : short with
    | nil => exact absurd h.name.length (by rw [hs]; decide)
    | cons byte rest => exact h.name.printed byte (by rw [hs]; exact List.mem_cons_self)
  rw [Live, hfirst, hkind]
  exact ⟨hne.ne.1, hne.ne.2, hattr⟩

theorem New.whole {taken long : List (List Byte)} (h : New taken attr cluster size new long short) : Whole new := by
  rw [h.eq]
  refine h.parts.whole.append fun raw hraw ↦ ?_
  rw [List.mem_singleton.mp hraw]
  exact length_shortEntry h.name.length

end New

section Laid

variable {raws long new : List (List Byte)} {taken : List (List Byte)} {attr : Byte} {cluster size start : ℕ}
  {atEnd : Bool} {short : List Byte} {parts : List (ℕ × List Byte)} {slot : ℕ}

theorem lead_of_packs (h : packs cluster size) :
    value (little 2 (cluster >>> 16)) <<< 16 ||| value (little 2 (cluster &&& 0xffff)) = cluster := by
  have hlow : cluster &&& 0xffff = cluster % 2 ^ 16 := Nat.and_two_pow_sub_one_eq_mod cluster 16
  have hmod : cluster % 2 ^ 16 < 2 ^ 16 := Nat.mod_lt _ (by decide)
  rw [hlow, value_little h.1, value_little hmod, ← Nat.shiftLeft_add_eq_or_of_lt hmod, Nat.shiftRight_eq_div_pow,
    Nat.shiftLeft_eq]
  exact Nat.div_add_mod' _ _

theorem New.entryAt (h : New taken attr cluster size new long short) :
    (entryAt slot (shortEntry short attr cluster size) parts).cluster = cluster ∧
    (entryAt slot (shortEntry short attr cluster size) parts).attr = attr ∧
    (entryAt slot (shortEntry short attr cluster size) parts).size = size := by
  obtain ⟨-, -, hattr, hhigh, hlow, hsize⟩ := shortEntry_eq h.name.length
  refine ⟨?_, hattr, ?_⟩
  · rw [Card.entryAt, hhigh, hlow]
    exact lead_of_packs h.sizes
  · rw [Card.entryAt, hsize]
    exact value_little (h.sizes.2.trans_le (by decide))

/-- The entry that new slots make from the slot `start` of a directory on. -/
def laidEntry (raws long : List (List Byte)) (start : ℕ) (raw : List Byte) : Entry :=
  entryAt (start + long.length) raw (partsAfter start (partsAfter 0 [] (raws.take start)) long)

theorem New.laidEntry (h : New taken attr cluster size new long short) :
    (laidEntry raws long start (shortEntry short attr cluster size)).cluster = cluster ∧
    (laidEntry raws long start (shortEntry short attr cluster size)).attr = attr ∧
    (laidEntry raws long start (shortEntry short attr cluster size)).size = size ∧
    (laidEntry raws long start (shortEntry short attr cluster size)).slot = start + long.length :=
  ⟨h.entryAt.1, h.entryAt.2.1, h.entryAt.2.2, rfl⟩

theorem New.mem_iff (h : New taken attr cluster size new long short) (hattr : attr ≠ 0x0f)
    (hroom : Room (firsts raws) new.length start atEnd) :
    (∀ e, e ∈ scanSlots 0 [] (raws.take start ++ new ++ closed atEnd (raws.drop (start + new.length))) ↔
      e = Card.laidEntry raws long start (shortEntry short attr cluster size) ∨ e ∈ scanSlots 0 [] raws) ∧
    ∀ e ∈ scanSlots 0 [] raws, e.slot ≠ start + long.length := by
  rw [h.eq, List.length_append, List.length_singleton] at hroom
  obtain ⟨after, hold, hplaced⟩ := scanSlots_place hroom h.parts.silent (h.live hattr)
  rw [h.eq, hplaced, hold]
  refine ⟨fun e ↦ ?_, fun e he ↦ ?_⟩
  · simp only [List.mem_append, List.mem_cons, Card.laidEntry]
    exact ⟨fun hm ↦ hm.elim (fun ha ↦ Or.inr (Or.inl ha)) fun hb ↦ hb.imp_right Or.inr,
      fun hm ↦ hm.elim (fun h0 ↦ Or.inr (Or.inl h0)) fun hab ↦ hab.imp_right Or.inr⟩
  · have hsorted := slots_sorted 0 []
      (raws.take start ++ (long ++ [shortEntry short attr cluster size]) ++
        closed atEnd (raws.drop (start + (long ++ [shortEntry short attr cluster size]).length)))
    rw [hplaced, List.pairwise_append, List.pairwise_cons] at hsorted
    obtain ⟨-, ⟨hafter, -⟩, hbefore⟩ := hsorted
    rcases List.mem_append.mp he with ha | hb
    · have := hbefore e ha _ List.mem_cons_self
      rw [entryAt_slot] at this
      exact this.ne
    · have := hafter e hb
      rw [entryAt_slot] at this
      exact this.ne'

end Laid

end Cdj2000Emulator.Card
