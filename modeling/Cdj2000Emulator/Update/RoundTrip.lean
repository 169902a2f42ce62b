import Cdj2000Emulator.Update.File
import Mathlib.Data.List.GetD

namespace Cdj2000Emulator.Update

open Library.Bytes Checksum

def Unbroken (line : List Byte) : Prop := ∀ b ∈ line, b ≠ 0x0a ∧ b ≠ 0x0d

instance : DecidablePred Unbroken := fun line ↦ List.decidableBAll (fun b ↦ b ≠ 0x0a ∧ b ≠ 0x0d) line

theorem Unbroken.append {l m : List Byte} (h : Unbroken l) (k : Unbroken m) : Unbroken (l ++ m) :=
  fun b hb ↦ (List.mem_append.mp hb).elim (h b) (k b)

theorem splitlines_line {line : List Byte} (h : Unbroken line) (rest : List Byte) :
    splitlines (line ++ crlf ++ rest) = line :: splitlines rest := by
  induction line with
  | nil =>
    change splitlines (0x0d :: 0x0a :: rest) = _
    rw [splitlines, if_pos ⟨rfl, rfl⟩, splitlines, if_neg fun both ↦ absurd both.1 (by decide),
      if_pos (Or.inr rfl)]
  | cons b line ih =>
    have first := h b List.mem_cons_self
    rw [List.cons_append, List.cons_append, splitlines, if_neg fun both ↦ first.2 both.1,
      if_neg fun either ↦ either.elim first.2 first.1, ih fun c hc ↦ h c (List.mem_cons_of_mem b hc)]

theorem splitlines_lines {lines : List (List Byte)} (h : ∀ line ∈ lines, Unbroken line) (rest : List Byte) :
    splitlines (lines.flatMap (· ++ crlf) ++ rest) = lines ++ splitlines rest := by
  induction lines with
  | nil => rfl
  | cons line lines ih =>
    rw [List.flatMap_cons, List.append_assoc, splitlines_line (h line List.mem_cons_self),
      ih fun l hl ↦ h l (List.mem_cons_of_mem line hl), List.cons_append]

theorem length_of_mem_splitlines {data line : List Byte} (h : line ∈ splitlines data) :
    line.length ≤ data.length := by
  induction data generalizing line with
  | nil => cases h
  | cons b rest ih =>
    rw [splitlines] at h
    split_ifs at h
    · exact (ih h).trans (Nat.le_succ _)
    · rcases List.mem_cons.mp h with rfl | later
      · exact Nat.zero_le _
      · exact (ih later).trans (Nat.le_succ _)
    · cases lines : splitlines rest with
      | nil =>
        rw [lines] at h
        rw [List.mem_singleton.mp h]
        exact Nat.succ_le_succ (Nat.zero_le _)
      | cons first others =>
        rw [lines] at h
        rcases List.mem_cons.mp h with rfl | later
        · exact Nat.succ_le_succ (ih (lines ▸ List.mem_cons_self))
        · exact (ih (lines ▸ List.mem_cons_of_mem first later)).trans (Nat.le_succ _)

theorem intercalate_crlf {lines : List (List Byte)} (h : lines ≠ []) :
    crlf.intercalate lines ++ crlf = lines.flatMap (· ++ crlf) := by
  induction lines with
  | nil => exact absurd rfl h
  | cons line lines ih =>
    cases lines with
    | nil => simp [List.intercalate]
    | cons next lines =>
      rw [List.intercalate_cons_cons, List.append_assoc, ih (List.cons_ne_nil next lines)]
      rfl

theorem length_strip_le (line : List Byte) : (strip line).length ≤ line.length :=
  (List.rdropWhile_prefix _ _).length_le.trans (List.dropWhile_suffix _).length_le

theorem decodeLine_short {line : List Byte} (h : line.length < 4) : decodeLine line = some [] :=
  if_pos (Or.inl ((length_strip_le line).trans_lt h))

/-- White space is taken off the end only up to what is none. -/
theorem head_strip {b : Byte} (h : isSpace b = false) (rest : List Byte) : (strip (b :: rest)).head? = some b := by
  rw [strip, List.dropWhile_cons_of_neg (by simp [h])]
  cases kept : (b :: rest).rdropWhile isSpace with
  | nil => 
    rw [List.rdropWhile_eq_nil_iff] at kept
    exact absurd (kept b List.mem_cons_self) (by simp [h])
  | cons c front =>
    have front := List.rdropWhile_prefix isSpace (b :: rest)
    rw [kept] at front
    rw [List.head?_cons, (List.cons_prefix_cons.mp front).1]

theorem decodeLine_other {b : Byte} (space : isSpace b = false) (letter : b ≠ 0x53) (rest : List Byte) :
    decodeLine (b :: rest) = some [] :=
  if_pos (Or.inr fun same ↦ letter (Option.some.inj ((head_strip space rest).symm.trans same)))

theorem strip_eq {b c : Byte} (first : isSpace b = false) (last : isSpace c = false) (line : List Byte) :
    strip (b :: line ++ [c]) = b :: line ++ [c] := by
  rw [strip, List.cons_append, List.dropWhile_cons_of_neg (by simp [first]), ← List.cons_append,
    List.rdropWhile_concat_neg _ _ _ (by simp [last])]

theorem digitValue_hexDigit {n : ℕ} (h : n < 16) : digitValue (hexDigit n) = some n := by
  revert n
  decide

theorem hexDigit_plain {n : ℕ} (h : n < 16) :
    isSpace (hexDigit n) = false ∧ hexDigit n ≠ 0x0a ∧ hexDigit n ≠ 0x0d := by
  revert n
  decide

theorem hex_cons (b : Byte) (bytes : List Byte) :
    hex (b :: bytes) = hexDigit (b.toNat / 16) :: hexDigit (b.toNat % 16) :: hex bytes := rfl

theorem unbroken_hex (bytes : List Byte) : Unbroken (hex bytes) := by
  induction bytes with
  | nil => exact fun _ h ↦ absurd h List.not_mem_nil
  | cons b bytes ih =>
    intro c hc
    rw [hex_cons] at hc
    have := b.isLt
    rcases List.mem_cons.mp hc with rfl | hc
    · exact (hexDigit_plain (by omega)).2
    rcases List.mem_cons.mp hc with rfl | hc
    · exact (hexDigit_plain (by omega)).2
    · exact ih c hc

theorem fromHex_hex (bytes : List Byte) : fromHex (hex bytes) = some bytes := by
  induction bytes with
  | nil => rfl
  | cons b bytes ih =>
    have := b.isLt
    rw [hex_cons, fromHex, if_neg (by simp [(hexDigit_plain (show b.toNat / 16 < 16 by omega)).1]),
      digitValue_hexDigit (by omega), digitValue_hexDigit (by omega), ih]
    have whole : 16 * (b.toNat / 16) + b.toNat % 16 = b.toNat := by omega
    simp [whole]

theorem hex_append (l m : List Byte) : hex (l ++ m) = hex l ++ hex m := List.flatMap_append

theorem total_append (l m : List Byte) : total (l ++ m) = total l + total m := by
  rw [total, List.map_append, List.sum_append, ← total, ← total]

def sumByte (body : List Byte) : Byte := BitVec.ofNat 8 (0xff - (total body &&& 0xff))

/-- A record's bytes with the last one add up to 255. -/
theorem total_sumByte (body : List Byte) : (total body + (sumByte body).toNat) % 256 = 0xff := by
  have low : total body &&& 0xff = total body % 256 := Nat.and_two_pow_sub_one_eq_mod _ 8
  rw [sumByte, BitVec.toNat_ofNat, low]
  omega

theorem toBytes_eq {size n : ℕ} (h : n < 256 ^ size) : toBytes size n = some (little size n).reverse := if_pos h

theorem srecord_line {address : ℕ} {payload : List Byte} (place : address < 2 ^ 24)
    (size : payload.length = recordBytes) :
    ∃ line, srecord address payload = some line ∧ Unbroken line ∧
      decodeLine line = some [(address, payload)] := by
  let field := (little 3 address).reverse
  let sum := sumByte ([0x24] ++ field ++ payload)
  have built : srecord address payload = some (ascii ['S', '2'] ++ hex ([0x24] ++ field ++ payload ++ [sum])) := by
    rw [srecord, size, toBytes_eq (by decide), toBytes_eq place]
    rfl
  have fieldLength : field.length = 3 := by rw [List.length_reverse, length_little]
  refine ⟨_, built, ?_, ?_⟩
  · exact Unbroken.append (by decide) (unbroken_hex _)
  · have ends : ascii ['S', '2'] ++ hex ([0x24] ++ field ++ payload ++ [sum]) =
        0x53 :: (0x32 :: hex ([0x24] ++ field ++ payload) ++ [hexDigit (sum.toNat / 16)]) ++
          [hexDigit (sum.toNat % 16)] := by
      rw [hex_append _ [sum]]
      simp [ascii, hex]
    have stripped : strip (ascii ['S', '2'] ++ hex ([0x24] ++ field ++ payload ++ [sum])) =
        [0x53, 0x32, 0x32, 0x34] ++ hex (field ++ payload ++ [sum]) := by
      rw [ends, strip_eq (by decide) (hexDigit_plain (Nat.mod_lt _ (by decide))).1, ← ends]
      rfl
    have count : (field ++ payload ++ [sum]).length = 36 := by
      rw [List.length_append, List.length_append, fieldLength, size]
      rfl
    have parsed : parseInt [0x32, 0x34] = some 36 := by decide
    have summed : ((36 : ℤ) + total (field ++ payload ++ [sum])) % 256 = 0xff := by
      have whole : (total ([0x24] ++ field ++ payload) + sum.toNat) % 256 = 0xff := total_sumByte _
      have parts : total ([0x24] ++ field ++ payload) = 36 + total field + total payload := by
        rw [total_append, total_append]
        rfl
      have last : total [sum] = sum.toNat := Nat.add_zero _
      rw [parts] at whole
      rw [total_append, total_append, last]
      omega
    rw [decodeLine, stripped, decodeText, if_neg (by simp)]
    simp only [List.cons_append, List.getD_cons_succ, List.getD_cons_zero, List.take_succ_cons, List.take_zero,
      List.drop_succ_cons, List.drop_zero, List.nil_append]
    have width : addressBytes 0x32 = some 3 := by decide
    have payloadBack : ((field ++ payload ++ [sum]).drop 3).dropLast = payload := by
      rw [List.append_assoc, ← fieldLength, List.drop_left, List.dropLast_concat]
    have addressBack : value ((field ++ payload ++ [sum]).take 3).reverse = address := by
      rw [List.append_assoc, ← fieldLength, List.take_left, List.reverse_reverse, value_little place]
    rw [width]
    simp only [parsed, fromHex_hex, Option.bind_eq_bind, Option.bind_some]
    rw [if_neg (by rw [count]; decide), if_neg (not_not_intro summed), payloadBack, addressBack]

theorem toNat_digit {c : Char} (h : c.isDigit) :
    (BitVec.ofNat 8 c.toNat).toNat = c.toNat ∧ 0x30 ≤ c.toNat ∧ c.toNat ≤ 0x39 := by
  have bounds : 0x30 ≤ c.toNat ∧ c.toNat ≤ 0x39 := by
    simpa [Char.isDigit, UInt32.le_iff_toNat_le] using h
  rw [BitVec.toNat_ofNat]
  omega

theorem unbroken_digit {c : Char} (h : c.isDigit) : Unbroken (ascii [c]) := by
  have digit := toNat_digit h
  intro b hb
  rw [List.mem_singleton.mp hb]
  constructor
  · intro same
    have := congrArg BitVec.toNat same
    rw [digit.1] at this
    exact absurd (this ▸ digit.2.1) (by decide)
  · intro same
    have := congrArg BitVec.toNat same
    rw [digit.1] at this
    exact absurd (this ▸ digit.2.1) (by decide)

theorem decodeAscii_digit {c : Char} (h : c.isDigit) : decodeAscii (ascii [c]) = [c] := by
  have digit := toNat_digit h
  change [if (BitVec.ofNat 8 c.toNat).toNat < 128 then Char.ofNat (BitVec.ofNat 8 c.toNat).toNat else _] = [c]
  rw [digit.1, if_pos (by omega), Char.ofNat_toNat]

theorem header_line {version : List Char} (valid : ValidVersion version) :
    ∃ rest, header version = some (0x43 :: rest) ∧ Unbroken (0x43 :: rest) ∧
      decodeAscii (((0x43 :: rest).take 0x17).drop 0x13) = version ∧ rest.length + 1 = headerSize := by
  have known := valid
  obtain ⟨a, b, c, rfl, ha, hb, hc⟩ := valid
  let tail : List Byte := 0 :: List.replicate 7 0x20 ++ ascii ['0']
  have shape : header [a, '.', b, c] =
      some (ascii "CDJ-2000 MAIN   Ver".toList ++ (ascii [a] ++ ascii ['.'] ++ ascii [b] ++ ascii [c]) ++ tail) := by
    rw [header, if_pos known]
    rfl
  refine ⟨(ascii "DJ-2000 MAIN   Ver".toList ++ (ascii [a] ++ ascii ['.'] ++ ascii [b] ++ ascii [c]) ++ tail), shape,
    ?_, ?_,
    rfl⟩
  · exact ((show Unbroken (ascii "CDJ-2000 MAIN   Ver".toList) by decide).append
      ((((unbroken_digit ha).append (by decide)).append (unbroken_digit hb)).append (unbroken_digit hc))).append
      (by decide)
  · change decodeAscii (ascii [a]) ++ ['.'] ++ decodeAscii (ascii [b]) ++ decodeAscii (ascii [c]) = _
    rw [decodeAscii_digit ha, decodeAscii_digit hb, decodeAscii_digit hc]
    rfl

variable {image : List Byte} {stop : ℕ}

theorem ext_getD {l m : List Byte} (size : l.length = m.length) (h : ∀ j, l.getD j 0 = m.getD j 0) : l = m := by
  refine List.ext_getElem size fun j hl hm ↦ ?_
  have := h j
  rwa [List.getD_eq_getElem _ _ hl, List.getD_eq_getElem _ _ hm] at this

theorem length_overwrite {address : ℕ} {payload : List Byte} (fits : address + payload.length ≤ image.length) :
    (overwrite image address payload).length = image.length := by
  simp only [overwrite, List.length_append, List.length_take, List.length_drop]
  omega

theorem getD_overwrite {address : ℕ} {payload : List Byte}
    (fits : address + payload.length ≤ image.length) (j : ℕ) :
    (overwrite image address payload).getD j 0 =
      if address ≤ j ∧ j < address + payload.length then payload.getD (j - address) 0 else image.getD j 0 := by
  have front : (image.take address).length = address := List.length_take_of_le (by omega)
  rw [overwrite, List.append_assoc]
  by_cases before : j < address
  · rw [if_neg (by omega), List.getD_append _ _ _ _ (by rwa [front])]
    simp only [List.getD_eq_getElem?_getD, List.getElem?_take, before, ↓reduceIte]
  · rw [List.getD_append_right _ _ _ _ (by rw [front]; omega), front]
    by_cases inside : j < address + payload.length
    · rw [if_pos ⟨by omega, inside⟩, List.getD_append _ _ _ _ (by omega)]
    · rw [if_neg (by omega), List.getD_append_right _ _ _ _ (by omega)]
      simp only [List.getD_eq_getElem?_getD, List.getElem?_drop]
      congr 2
      omega

theorem getD_records {t : List Byte} {records : List (ℕ × List Byte)}
    (agree : ∀ r ∈ records, ∀ k < r.2.length, r.2.getD k 0 = t.getD (r.1 + k) 0)
    (fits : ∀ r ∈ records, r.1 + r.2.length ≤ image.length) :
    (records.foldl (fun image r ↦ overwrite image r.1 r.2) image).length = image.length ∧
      ∀ j, (records.foldl (fun image r ↦ overwrite image r.1 r.2) image).getD j 0 =
        if ∃ r ∈ records, r.1 ≤ j ∧ j < r.1 + r.2.length then t.getD j 0 else image.getD j 0 := by
  induction records generalizing image with
  | nil => exact ⟨rfl, fun j ↦ (if_neg (by simp)).symm⟩
  | cons r records ih =>
    have first := fits r List.mem_cons_self
    have size := length_overwrite first
    have later : ∀ q ∈ records, q.1 + q.2.length ≤ (overwrite image r.1 r.2).length := fun q hq ↦ by
      rw [size]
      exact fits q (List.mem_cons_of_mem r hq)
    obtain ⟨length, bytes⟩ := ih (fun q hq ↦ agree q (List.mem_cons_of_mem r hq)) later
    refine ⟨length.trans size, fun j ↦ ?_⟩
    rw [List.foldl_cons, bytes, getD_overwrite first]
    simp only [List.exists_mem_cons_iff]
    by_cases covered : ∃ q ∈ records, q.1 ≤ j ∧ j < q.1 + q.2.length
    · rw [if_pos covered, if_pos (Or.inr covered)]
    · rw [if_neg covered]
      by_cases here : r.1 ≤ j ∧ j < r.1 + r.2.length
      · have same := agree r List.mem_cons_self (j - r.1) (by omega)
        rw [if_pos here, if_pos (Or.inl here), same, Nat.add_sub_cancel' here.1]
      · rw [if_neg here, if_neg (by rintro (h | h); exacts [here h, covered h])]

theorem length_extended (image : List Byte) (stop : ℕ) : stop ≤ (extended image stop).length := by
  rw [extended, List.length_append, List.length_replicate]
  omega

def carried (image : List Byte) (stop : ℕ) : List Byte := (extended image stop).take stop

theorem length_carried : (carried image stop).length = stop := List.length_take_of_le (length_extended image stop)

theorem length_block {a : ℕ} (h : a + recordBytes ≤ stop) :
    (block (extended image stop) a).length = recordBytes := by
  have := length_extended image stop
  rw [block, List.length_take_of_le]
  rw [List.length_drop]
  omega

theorem getD_block {a k : ℕ} (h : a + recordBytes ≤ stop) (inside : k < recordBytes) :
    (block (extended image stop) a).getD k 0 = (carried image stop).getD (a + k) 0 := by
  simp only [block, carried, List.getD_eq_getElem?_getD, List.getElem?_take, List.getElem?_drop]
  rw [if_pos inside, if_pos (by omega)]

theorem mem_addresses {n a : ℕ} :
    a ∈ addresses image (recordBytes * n) ↔ ∃ i < n, a = recordBytes * i ∧
      ∃ b ∈ block image a, b ≠ 0 := by
  have count : (recordBytes * n + recordBytes - 1) / recordBytes = n := by
    simp only [recordBytes]
    omega
  simp only [addresses, count, List.mem_filter, List.mem_map, List.mem_range, List.any_eq_true, bne_iff_ne]
  constructor
  · rintro ⟨⟨i, hi, rfl⟩, some⟩
    exact ⟨i, hi, rfl, some⟩
  · rintro ⟨i, hi, rfl, some⟩
    exact ⟨⟨i, hi, rfl⟩, some⟩

theorem getD_uncovered {n j : ℕ}
    (h : ∀ a ∈ addresses (extended image (recordBytes * n)) (recordBytes * n),
    ¬ (a ≤ j ∧ j < a + recordBytes)) :
    (carried image (recordBytes * n)).getD j 0 = 0 := by
  by_cases inside : j < recordBytes * n
  · have pos : 0 < recordBytes := by decide
    have place : recordBytes * (j / recordBytes) + j % recordBytes = j := Nat.div_add_mod _ _
    have below := Nat.mod_lt j pos
    have few : j / recordBytes < n := Nat.div_lt_of_lt_mul inside
    have fits : recordBytes * (j / recordBytes) + recordBytes ≤ recordBytes * n := by
      rw [← Nat.mul_succ]
      exact Nat.mul_le_mul_left _ few
    by_contra filled
    have byte : (block (extended image _) _).getD _ 0 = _ := getD_block fits below
    rw [place] at byte
    refine h _ (mem_addresses.mpr ⟨_, few, rfl, _, ?_, filled⟩) ⟨by omega, by omega⟩
    rw [← byte, List.getD_eq_getElem _ _ (by rw [length_block fits]; exact below)]
    exact List.getElem_mem _
  · exact List.getD_eq_default _ _ (by rw [length_carried]; omega)

theorem mapM_eq_map {α β : Type} {f : α → Option β} {g : α → β} {l : List α} (h : ∀ a ∈ l,
    f a = some (g a)) :
    l.mapM f = some (l.map g) := by
  induction l with
  | nil => rfl
  | cons a l ih =>
    rw [List.mapM_cons, h a List.mem_cons_self, ih fun b hb ↦ h b (List.mem_cons_of_mem a hb)]
    rfl

def records (image : List Byte) (stop : ℕ) : List (ℕ × List Byte) :=
  (addresses (extended image stop) stop).map fun a ↦ (a, block (extended image stop) a)

def recordLine (image : List Byte) (a : ℕ) : List Byte := (srecord a (block image a)).getD []

theorem address_fits {n a : ℕ} (h : a ∈ addresses (extended image (recordBytes * n)) (recordBytes * n)) :
    a + recordBytes ≤ recordBytes * n := by
  obtain ⟨i, hi, rfl, -⟩ := mem_addresses.mp h
  rw [← Nat.mul_succ]
  exact Nat.mul_le_mul_left _ hi

theorem recordLine_eq {n a : ℕ} (small : recordBytes * n ≤ 2 ^ 24)
    (h : a ∈ addresses (extended image (recordBytes * n)) (recordBytes * n)) :
    let data := extended image (recordBytes * n)
    srecord a (block data a) = some (recordLine data a) ∧ Unbroken (recordLine data a) ∧
      decodeLine (recordLine data a) = some [(a, block data a)] := by
  intro data
  have fits := address_fits h
  have place : a < 2 ^ 24 := by
    have : 0 < recordBytes := by decide
    omega
  obtain ⟨text, built, unbroken, back⟩ :=
      srecord_line place (length_block fits : (block data a).length = recordBytes)
  have same : recordLine data a = text := by rw [recordLine, built, Option.getD_some]
  rw [same]
  exact ⟨built, unbroken, back⟩

theorem build_text (image : List Byte) {version : List Char} {n : ℕ} (valid : ValidVersion version)
    (small : recordBytes * n ≤ 2 ^ 24) :
    ∃ (body : List Byte) (lines : List (List Byte)),
      build image version (recordBytes * n) = some (body ++ little 2 (crc16 body)) ∧
      body = lines.flatMap (· ++ crlf) ∧ (∀ line ∈ lines, Unbroken line) ∧
      (∀ line ∈ lines, decodeLine line = some ((decodeLine line).getD [])) ∧
      lines.flatMap (fun line ↦ (decodeLine line).getD []) = records image (recordBytes * n) ∧
      decodeAscii ((body.take 0x17).drop 0x13) = version := by
  let data := extended image (recordBytes * n)
  let places := addresses data (recordBytes * n)
  let recs := places.map (recordLine data)
  obtain ⟨rest, head, headUnbroken, shown, size⟩ := header_line valid
  have first : decodeLine ((0x43 :: rest) ++ s0Record) = some [] := decodeLine_other (by decide) (by decide) _
  have last : decodeLine s7Record = some [] := by decide
  have middle : ∀ line ∈ recs, ∃ a ∈ places, line = recordLine data a := fun line h ↦ by
    obtain ⟨a, ha, rfl⟩ := List.mem_map.mp h
    exact ⟨a, ha, rfl⟩
  have cases : ∀ line ∈ ((0x43 :: rest) ++ s0Record) :: recs ++ [s7Record],
      line = (0x43 :: rest) ++ s0Record ∨ line ∈ recs ∨ line = s7Record := by
    intro line h
    simpa [or_assoc] using h
  refine ⟨(0x43 :: rest) ++ (s0Record :: recs ++ [s7Record]).flatMap (· ++ crlf),
    ((0x43 :: rest) ++ s0Record) :: recs ++ [s7Record], ?_, ?_, ?_, ?_, ?_, ?_⟩
  · have text : places.mapM (fun a ↦ srecord a (block data a)) = some recs :=
      mapM_eq_map fun a ha ↦ (recordLine_eq small ha).1
    have joined : crlf.intercalate (s0Record :: recs ++ [s7Record]) ++ crlf = _ := intercalate_crlf (by simp)
    rw [build, head]
    change (places.mapM (fun a ↦ srecord a (block data a))).bind _ = _
    rw [text, ← joined, ← List.append_assoc]
    rfl
  · simp [List.append_assoc]
  · intro line h
    rcases cases line h with rfl | h | rfl
    · exact headUnbroken.append (by decide)
    · obtain ⟨a, ha, rfl⟩ := middle line h
      exact (recordLine_eq small ha).2.1
    · decide
  · intro line h
    rcases cases line h with rfl | h | rfl
    · rw [first, Option.getD_some]
    · obtain ⟨a, ha, rfl⟩ := middle line h
      rw [(recordLine_eq small ha).2.2, Option.getD_some]
    · rw [last, Option.getD_some]
  · rw [List.cons_append, List.flatMap_cons, List.flatMap_append, first, List.flatMap_singleton, last,
      List.flatMap_map, Option.getD_some, List.nil_append, List.append_nil, records, List.map_eq_flatMap]
    refine List.flatMap_congr fun a ha ↦ ?_
    rw [(recordLine_eq small ha).2.2, Option.getD_some]
  · rw [List.take_append_of_le_length (by rw [List.length_cons, size]; decide), shown]

/-- Where the last record of a list ends. -/
def ending (rs : List (ℕ × List Byte)) : ℕ := (rs.map fun r ↦ r.1 + r.2.length).foldr max 0

theorem le_ending {rs : List (ℕ × List Byte)} {r : ℕ × List Byte} (h : r ∈ rs) :
    r.1 + r.2.length ≤ ending rs := by
  induction rs with
  | nil => cases h
  | cons q rs ih =>
    rcases List.mem_cons.mp h with rfl | h
    · exact Nat.le_max_left _ _
    · exact (ih h).trans (Nat.le_max_right _ _)

theorem ending_le {rs : List (ℕ × List Byte)} {m : ℕ} (h : ∀ r ∈ rs, r.1 + r.2.length ≤ m) :
    ending rs ≤ m := by
  induction rs with
  | nil => exact Nat.zero_le m
  | cons q rs ih => exact Nat.max_le.mpr ⟨h q List.mem_cons_self, ih fun r hr ↦ h r (List.mem_cons_of_mem q hr)⟩

theorem rebuild (image : List Byte) (n : ℕ) :
    let rs := records image (recordBytes * n)
    let decoded := rs.foldl (fun image r ↦ overwrite image r.1 r.2) (List.replicate (ending rs) 0)
    decoded.length ≤ recordBytes * n ∧
      decoded ++ List.replicate (recordBytes * n - decoded.length) 0 = carried image (recordBytes * n) := by
  intro rs decoded
  have known : ∀ r ∈ rs, ∃ a ∈ addresses (extended image (recordBytes * n)) (recordBytes * n),
      r = (a, block (extended image (recordBytes * n)) a) := fun r hr ↦ by
    obtain ⟨a, ha, rfl⟩ := List.mem_map.mp hr
    exact ⟨a, ha, rfl⟩
  have agree : ∀ r ∈ rs, ∀ k < r.2.length, r.2.getD k 0 = (carried image (recordBytes * n)).getD (r.1 + k) 0 := by
    intro r hr k hk
    obtain ⟨a, ha, rfl⟩ := known r hr
    rw [length_block (address_fits ha)] at hk
    exact getD_block (address_fits ha) hk
  have fits : ∀ r ∈ rs, r.1 + r.2.length ≤ (List.replicate (ending rs) (0 : Byte)).length := fun r hr ↦ by
    rw [List.length_replicate]
    exact le_ending hr
  obtain ⟨length, bytes⟩ := getD_records agree fits
  rw [List.length_replicate] at length
  have small : decoded.length ≤ recordBytes * n := by
    rw [length]
    refine ending_le fun r hr ↦ ?_
    obtain ⟨a, ha, rfl⟩ := known r hr
    rw [length_block (address_fits ha)]
    exact address_fits ha
  refine ⟨small, ext_getD ?_ fun j ↦ ?_⟩
  · rw [List.length_append, List.length_replicate, length_carried]
    omega
  have padded : (decoded ++ List.replicate (recordBytes * n - decoded.length) 0).getD j 0 = decoded.getD j 0 := by
    simp only [List.getD_eq_getElem?_getD, List.getElem?_append, List.getElem?_replicate]
    split_ifs with inside
    · rfl
    · rw [List.getElem?_eq_none (not_lt.mp inside)]
      rfl
    · rw [List.getElem?_eq_none (not_lt.mp inside)]
  rw [padded, bytes]
  split_ifs with covered
  · rfl
  · rw [getD_uncovered fun a ha both ↦ covered ⟨_, List.mem_map.mpr ⟨a, ha, rfl⟩, both.1, ?_⟩]
    · simp [List.getD_eq_getElem?_getD, List.getElem?_replicate]
      split_ifs <;> rfl
    · rw [length_block (address_fits ha)]
      exact both.2

theorem records_ne_nil {n : ℕ} (filled : ∃ b ∈ carried image (recordBytes * n), b ≠ 0) :
    records image (recordBytes * n) ≠ [] := by
  intro none
  obtain ⟨b, hb, nonzero⟩ := filled
  obtain ⟨j, hj, rfl⟩ := List.mem_iff_getElem.mp hb
  refine nonzero ?_
  rw [← List.getD_eq_getElem _ 0 hj]
  refine getD_uncovered fun a ha _ ↦ ?_
  have : (a, block (extended image (recordBytes * n)) a) ∈ records image (recordBytes * n) :=
    List.mem_map.mpr ⟨a, ha, rfl⟩
  rw [none] at this
  cases this

/-- An update file that is built from an image is read back as that image, and its version and checksum are right. -/
theorem update_round_trip {version : List Char} {stop : ℕ} (valid : ValidVersion version)
    (aligned : recordBytes ∣ stop)
    (small : stop ≤ 2 ^ 24) (filled : ∃ b ∈ carried image stop, b ≠ 0) :
    ∃ file decoded, build image version stop = some file ∧ decodeSrecords file = some decoded ∧
      decoded.length ≤ stop ∧ decoded ++ List.replicate (stop - decoded.length) 0 = carried image stop ∧
      check file = (version, true) := by
  obtain ⟨n, rfl⟩ := aligned
  obtain ⟨body, lines, built, text, unbroken, read, said, shown⟩ := build_text image valid small
  have short : ∀ line ∈ splitlines (little 2 (crc16 body)), decodeLine line = some [] := by
    intro line h
    have := length_of_mem_splitlines h
    rw [length_little] at this
    exact decodeLine_short (by omega)
  have broken : splitlines (body ++ little 2 (crc16 body)) = lines ++ splitlines (little 2 (crc16 body)) := by
    rw [text, splitlines_lines unbroken]
  have decodes : (splitlines (body ++ little 2 (crc16 body))).mapM decodeLine =
      some ((splitlines (body ++ little 2 (crc16 body))).map fun line ↦ (decodeLine line).getD []) := by
    refine mapM_eq_map fun line h ↦ ?_
    rw [broken] at h
    rcases List.mem_append.mp h with h | h
    · exact read line h
    · rw [short line h, Option.getD_some]
  have flat : ((splitlines (body ++ little 2 (crc16 body))).map fun line ↦ (decodeLine line).getD []).flatten =
      records image (recordBytes * n) := by
    rw [← List.flatMap_def, broken, List.flatMap_append, said, List.flatMap_eq_nil_iff.mpr, List.append_nil]
    intro line h
    rw [short line h, Option.getD_some]
  have decoded : decodeSrecords (body ++ little 2 (crc16 body)) = some
      ((records image (recordBytes * n)).foldl (fun image r ↦ overwrite image r.1 r.2)
        (List.replicate (ending (records image (recordBytes * n))) 0)) := by
    rw [decodeSrecords, decodes]
    change (if List.flatten _ = [] then none else _) = _
    rw [flat, if_neg (records_ne_nil filled)]
    rfl
  obtain ⟨length, whole⟩ := rebuild image n
  have long : 0x17 ≤ body.length := by
    have size := congrArg List.length shown
    obtain ⟨a, b, c, rfl, -⟩ := valid
    simp only [decodeAscii, List.length_map, List.length_drop, List.length_take, List.length_cons,
      List.length_nil] at size
    omega
  refine ⟨_, _, built, decoded, length, whole, Prod.ext ?_ (Routine.accepts_build .updater .updater body)⟩
  rw [check, List.take_append_of_le_length long, shown]

/-- A short image with a byte in its second record only. -/
theorem update_round_trip_second :
    ValidVersion ['4', '.', '3', '4'] ∧ (∃ b ∈ carried (List.replicate 40 0 ++ [7]) 64, b ≠ 0) ∧
      ∃ file decoded, build (List.replicate 40 0 ++ [7]) ['4', '.', '3', '4'] 64 = some file ∧
        decodeSrecords file = some decoded ∧ decoded.length ≤ 64 ∧
        decoded ++ List.replicate (64 - decoded.length) 0 = carried (List.replicate 40 0 ++ [7]) 64 ∧
        check file = (['4', '.', '3', '4'], true) :=
  ⟨by decide, by decide, update_round_trip (by decide) (by decide) (by decide) (by decide)⟩

end Cdj2000Emulator.Update
