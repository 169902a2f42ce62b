import Cdj2000Emulator.Card.Directories

namespace Cdj2000Emulator.Card

open Function Library.Bytes

section Raws

variable {raws new rest : List (List Byte)} {raw : List Byte} {blob : List Byte} {k n : ℕ}

def Whole (raws : List (List Byte)) : Prop := ∀ raw ∈ raws, raw.length = entrySize

theorem Whole.append (h : Whole raws) (hnew : Whole new) : Whole (raws ++ new) :=
  List.forall_mem_append.mpr ⟨h, hnew⟩

theorem Whole.take (h : Whole raws) (k : ℕ) : Whole (raws.take k) :=
  fun raw hraw ↦ h raw (List.mem_of_mem_take hraw)

theorem Whole.drop (h : Whole raws) (k : ℕ) : Whole (raws.drop k) :=
  fun raw hraw ↦ h raw (List.mem_of_mem_drop hraw)

theorem length_flatten (h : Whole raws) : raws.flatten.length = raws.length * entrySize := by
  induction raws with
  | nil => rfl
  | cons raw raws ih =>
    rw [List.flatten_cons, List.length_append, h raw List.mem_cons_self,
      ih fun r hr ↦ h r (List.mem_cons_of_mem _ hr), List.length_cons, Nat.succ_mul, Nat.add_comm]

theorem take_flatten (h : Whole raws) (k : ℕ) :
    raws.flatten.take (k * entrySize) = (raws.take k).flatten := by
  induction raws generalizing k with
  | nil => simp
  | cons raw raws ih =>
    cases k with
    | zero => simp
    | succ k =>
      have hraw := h raw List.mem_cons_self
      rw [List.flatten_cons, List.take_succ_cons, List.flatten_cons, Nat.succ_mul, Nat.add_comm, ← hraw,
        List.take_length_add_append, hraw, ih fun r hr ↦ h r (List.mem_cons_of_mem _ hr)]

theorem drop_flatten (h : Whole raws) (k : ℕ) :
    raws.flatten.drop (k * entrySize) = (raws.drop k).flatten := by
  induction raws generalizing k with
  | nil => simp
  | cons raw raws ih =>
    cases k with
    | zero => simp
    | succ k =>
      have hraw := h raw List.mem_cons_self
      rw [List.flatten_cons, List.drop_succ_cons, Nat.succ_mul, Nat.add_comm, ← hraw,
        List.drop_length_add_append, hraw, ih fun r hr ↦ h r (List.mem_cons_of_mem _ hr)]

theorem slots_flatten (h : Whole raws) : slots raws.flatten = raws := by
  rw [slots, length_flatten h, Nat.mul_div_cancel _ (by decide)]
  refine List.ext_getElem (by rw [List.length_map, List.length_range]) fun i hi hi' ↦ ?_
  have hraw := h raws[i] (List.getElem_mem hi')
  rw [List.getElem_map, List.getElem_range, drop_flatten h, List.drop_eq_getElem_cons hi',
    List.flatten_cons, ← hraw, List.take_left]

theorem slots_spec (h : entrySize ∣ blob.length) :
    (slots blob).flatten = blob ∧ Whole (slots blob) ∧ (slots blob).length = blob.length / entrySize := by
  obtain ⟨m, hm⟩ := h
  induction m generalizing blob with
  | zero =>
    rw [Nat.mul_zero, List.length_eq_zero_iff] at hm
    subst hm
    exact ⟨rfl, fun raw hraw ↦ absurd hraw List.not_mem_nil, rfl⟩
  | succ m ih =>
    rw [Nat.mul_succ, Nat.add_comm] at hm
    have hrest : (blob.drop entrySize).length = entrySize * m := by
      rw [List.length_drop]
      omega
    obtain ⟨hflat, hwhole, hlength⟩ := ih hrest
    have hfirst : (blob.take entrySize).length = entrySize := by
      rw [List.length_take]
      omega
    have hall : Whole (blob.take entrySize :: slots (blob.drop entrySize)) :=
      List.forall_mem_cons.mpr ⟨hfirst, hwhole⟩
    have hsame : (blob.take entrySize :: slots (blob.drop entrySize)).flatten = blob := by
      rw [List.flatten_cons, hflat, List.take_append_drop]
    have hslots := slots_flatten hall
    rw [hsame] at hslots
    rw [hslots]
    refine ⟨hsame, hall, ?_⟩
    rw [List.length_cons, hlength, List.length_drop, ← Nat.add_div_right _ (by decide)]
    congr 1
    omega

theorem splice_flatten (h : Whole raws) (hnew : Whole new) (k : ℕ) :
    splice raws.flatten (k * entrySize) new.flatten =
      (raws.take k ++ new ++ raws.drop (k + new.length)).flatten := by
  rw [splice, take_flatten h, length_flatten hnew, ← Nat.add_mul, drop_flatten h, List.flatten_append,
    List.flatten_append]

end Raws

section Scanning

variable {slot : ℕ} {parts : List (ℕ × List Byte)} {raw : List Byte} {raws rest : List (List Byte)}
  {e : Entry}

/-- The slots of a directory before its end marker. -/
def Open (raws : List (List Byte)) : Prop := ∀ raw ∈ raws, raw.getD 0 0 ≠ 0

def partsAfter : ℕ → List (ℕ × List Byte) → List (List Byte) → List (ℕ × List Byte)
  | _, parts, [] => parts
  | slot, parts, raw :: raws =>
    if raw.getD 0 0 = 0xe5 then partsAfter (slot + 1) [] raws
    else if raw.getD 11 0 = 0x0f then partsAfter (slot + 1) (parts ++ [(slot, raw)]) raws
    else partsAfter (slot + 1) [] raws

theorem scanSlots_append (h : Open raws) :
    scanSlots slot parts (raws ++ rest) =
      scanSlots slot parts raws ++ scanSlots (slot + raws.length) (partsAfter slot parts raws) rest := by
  induction raws generalizing slot parts with
  | nil => rfl
  | cons raw raws ih =>
    have hraw := h raw List.mem_cons_self
    have hopen : Open raws := fun r hr ↦ h r (List.mem_cons_of_mem _ hr)
    rw [List.cons_append, scanSlots, scanSlots, partsAfter, if_neg hraw, if_neg hraw, List.length_cons,
      Nat.add_comm raws.length, ← Nat.add_assoc]
    split_ifs
    · exact ih hopen
    · exact ih hopen
    · rw [ih hopen, List.cons_append]

/-- A slot that holds no entry of its own: deleted, or a part of a long name. -/
def Silent (raw : List Byte) : Prop :=
  raw.getD 0 0 ≠ 0 ∧ (raw.getD 0 0 = 0xe5 ∨ raw.getD 11 0 = 0x0f)

theorem scanSlots_silent (h : ∀ raw ∈ raws, Silent raw) : scanSlots slot parts raws = [] := by
  induction raws generalizing slot parts with
  | nil => rfl
  | cons raw raws ih =>
    have hrest : ∀ raw ∈ raws, Silent raw := fun r hr ↦ h r (List.mem_cons_of_mem _ hr)
    obtain ⟨hne, hsilent⟩ := h raw List.mem_cons_self
    rw [scanSlots, if_neg hne]
    split_ifs with hdeleted hpart
    · exact ih hrest
    · exact ih hrest
    · rcases hsilent with hdeleted' | hpart'
      · exact absurd hdeleted' hdeleted
      · exact absurd hpart' hpart

theorem partsAfter_deleted (h : ∀ raw ∈ raws, raw.getD 0 0 = 0xe5) (hne : raws ≠ []) :
    partsAfter slot parts raws = [] := by
  induction raws generalizing slot parts with
  | nil => exact absurd rfl hne
  | cons raw raws ih =>
    rw [partsAfter, if_pos (h raw List.mem_cons_self)]
    cases raws with
    | nil => rfl
    | cons r raws => exact ih (fun r hr ↦ h r (List.mem_cons_of_mem _ hr)) (List.cons_ne_nil _ _)

/-- A slot that holds an entry. -/
def Live (raw : List Byte) : Prop :=
  raw.getD 0 0 ≠ 0 ∧ raw.getD 0 0 ≠ 0xe5 ∧ raw.getD 11 0 ≠ 0x0f

theorem scanSlots_live (h : Live raw) :
    scanSlots slot parts (raw :: rest) = entryAt slot raw parts :: scanSlots (slot + 1) [] rest := by
  rw [scanSlots, if_neg h.1, if_neg h.2.1, if_neg h.2.2]

theorem scanSlots_end (h : raw.getD 0 0 = 0) : scanSlots slot parts (raw :: rest) = [] := by
  rw [scanSlots, if_pos h]

theorem entryAt_slot : (entryAt slot raw parts).slot = slot := rfl

theorem slot_mem (h : e ∈ scanSlots slot parts raws) : slot ≤ e.slot ∧ e.slot < slot + raws.length := by
  induction raws generalizing slot parts with
  | nil => cases h
  | cons raw raws ih =>
    rw [scanSlots] at h
    rw [List.length_cons]
    split_ifs at h
    · cases h
    · have := ih h
      omega
    · have := ih h
      omega
    · rcases List.mem_cons.mp h with rfl | hrest
      · rw [entryAt_slot]
        omega
      · have := ih hrest
        omega

theorem slots_sorted (slot : ℕ) (parts : List (ℕ × List Byte)) (raws : List (List Byte)) :
    (scanSlots slot parts raws).Pairwise fun e e' ↦ e.slot < e'.slot := by
  induction raws generalizing slot parts with
  | nil => exact List.Pairwise.nil
  | cons raw raws ih =>
    rw [scanSlots]
    split_ifs
    · exact List.Pairwise.nil
    · exact ih _ _
    · exact ih _ _
    · refine List.pairwise_cons.mpr ⟨fun e he ↦ ?_, ih _ _⟩
      rw [entryAt_slot]
      exact (slot_mem he).1

theorem slot_inj {e' : Entry} (h : e ∈ scanSlots slot parts raws) (h' : e' ∈ scanSlots slot parts raws)
    (heq : e.slot = e'.slot) : e = e' := by
  induction raws generalizing slot parts with
  | nil => cases h
  | cons raw raws ih =>
    rw [scanSlots] at h h'
    split_ifs at h h' with hend hdeleted hpart
    · cases h
    · exact ih h h'
    · exact ih h h'
    · rcases List.mem_cons.mp h with rfl | hrest
      · rcases List.mem_cons.mp h' with rfl | hrest'
        · rfl
        · have := (slot_mem hrest').1
          rw [entryAt_slot] at heq
          omega
      · rcases List.mem_cons.mp h' with rfl | hrest'
        · have := (slot_mem hrest).1
          rw [entryAt_slot] at heq
          omega
        · exact ih hrest hrest'

end Scanning

section Room

variable {need run start : ℕ} {atEnd : Bool} {firsts pre rest : List Byte}

/-- Free slots for `need` entries, over the first bytes of the slots of a directory: a deleted run, or
what lies behind the end marker. -/
structure Room (firsts : List Byte) (need start : ℕ) (atEnd : Bool) : Prop where
  fits : start + need ≤ firsts.length
  before : ∀ first ∈ firsts.take start, first ≠ 0
  deleted : atEnd = false → ∀ first ∈ (firsts.drop start).take need, first = 0xe5
  ending : atEnd = true → firsts[start]? = some 0

theorem findRun_room (hopen : ∀ first ∈ pre, first ≠ 0) (hrun : run ≤ pre.length) (hshort : run < need)
    (hdeleted : ∀ first ∈ pre.drop (pre.length - run), first = 0xe5)
    (h : findRun (pre ++ rest).length need pre.length run rest = some (start, atEnd)) :
    Room (pre ++ rest) need start atEnd := by
  induction rest generalizing pre run with
  | nil => cases h
  | cons first rest ih =>
    rw [findRun] at h
    dsimp only at h
    by_cases hend : first = 0
    · rw [if_pos hend] at h
      split_ifs at h with hfits
      simp only [Option.some.injEq, Prod.mk.injEq] at h
      obtain ⟨rfl, rfl⟩ := h
      rw [List.length_append] at hfits
      refine ⟨by rw [List.length_append]; omega, ?_, fun hno ↦ absurd hno (by decide), fun _ ↦ ?_⟩
      · rw [List.take_left]
        exact hopen
      · rw [List.getElem?_append_right le_rfl, Nat.sub_self, hend]
        rfl
    · rw [if_neg hend] at h
      have hopen' : ∀ b ∈ pre ++ [first], b ≠ 0 :=
        List.forall_mem_append.mpr ⟨hopen, fun b hb ↦ by rwa [List.mem_singleton.mp hb]⟩
      have hlength : (pre ++ [first]).length = pre.length + 1 := by
        rw [List.length_append, List.length_singleton]
      have hlast : ∃ run', (if first = 0xe5 then run + 1 else 0) = run' ∧ run' ≤ pre.length + 1 ∧
          run' ≤ need ∧ ∀ b ∈ (pre ++ [first]).drop (pre.length + 1 - run'), b = 0xe5 := by
        split_ifs with hdel
        · refine ⟨run + 1, rfl, by omega, hshort, ?_⟩
          rw [Nat.add_sub_add_right, List.drop_append_of_le_length (Nat.sub_le _ _)]
          exact List.forall_mem_append.mpr ⟨hdeleted, fun b hb ↦ by rwa [List.mem_singleton.mp hb]⟩
        · refine ⟨0, rfl, by omega, by omega, fun b hb ↦ ?_⟩
          rw [Nat.sub_zero, ← hlength, List.drop_length] at hb
          exact absurd hb List.not_mem_nil
      obtain ⟨run', hrun', hle, hneed, hdeleted'⟩ := hlast
      have hsplit : pre ++ first :: rest = (pre ++ [first]) ++ rest := by
        rw [List.append_assoc, List.singleton_append]
      rw [hrun'] at h
      rw [hsplit] at h ⊢
      split_ifs at h with hdone
      · simp only [Option.some.injEq, Prod.mk.injEq] at h
        obtain ⟨rfl, rfl⟩ := h
        rw [← hlength] at hle hdeleted' ⊢
        have hsize : ((pre ++ [first]).drop ((pre ++ [first]).length - run')).length = need := by
          rw [List.length_drop]
          omega
        refine ⟨?_, fun b hb ↦ ?_, fun _ b hb ↦ ?_, fun hno ↦ absurd hno (by decide)⟩
        · have := (List.sublist_append_left (pre ++ [first]) rest).length_le
          omega
        · rw [List.take_append_of_le_length (Nat.sub_le _ _)] at hb
          exact hopen' b (List.mem_of_mem_take hb)
        · rw [← hdone, List.drop_append_of_le_length (Nat.sub_le _ _),
            List.take_append_of_le_length (by omega)] at hb
          exact hdeleted' b (List.mem_of_mem_take hb)
      · exact ih hopen' (hlength ▸ hle) (by omega) (hlength ▸ hdeleted') (hlength ▸ h)

theorem findRun_some (hneed : 0 < need)
    (h : findRun firsts.length need 0 0 firsts = some (start, atEnd)) : Room firsts need start atEnd := by
  have hroom : Room ([] ++ firsts) need start atEnd :=
    findRun_room (fun _ hb ↦ absurd hb List.not_mem_nil) le_rfl hneed (fun _ hb ↦ absurd hb List.not_mem_nil) h
  exact hroom

end Room

section Placed

variable {raws long rest : List (List Byte)} {raw : List Byte} {start slot need : ℕ} {atEnd : Bool}
  {parts : List (ℕ × List Byte)}

def firsts (raws : List (List Byte)) : List Byte := raws.map (·.getD 0 0)

/-- What follows new entries: an end marker, if they took the place of one. -/
def closed : Bool → List (List Byte) → List (List Byte)
  | true, raw :: rest => raw.set 0 0 :: rest
  | _, rest => rest

theorem Whole.closed (h : Whole raws) : Whole (closed atEnd raws) := by
  cases atEnd with
  | false => exact h
  | true =>
    cases raws with
    | nil => exact h
    | cons raw raws =>
      obtain ⟨hraw, hraws⟩ := List.forall_mem_cons.mp h
      exact List.forall_mem_cons.mpr ⟨by rw [List.length_set, hraw], hraws⟩

theorem length_closed : (closed atEnd raws).length = raws.length := by
  cases atEnd with
  | false => rfl
  | true => cases raws <;> rfl

theorem endAfter_flatten (hraws : Whole raws) (hrest : Whole rest) :
    Layout.endAfter atEnd (raws.length * entrySize) (raws ++ rest).flatten = (raws ++ closed atEnd rest).flatten := by
  rw [Layout.endAfter]
  cases atEnd with
  | false => exact if_neg fun h ↦ absurd h.1 (by decide)
  | true =>
    rw [length_flatten (hraws.append hrest)]
    cases rest with
    | nil =>
      rw [List.append_nil, if_neg (fun h ↦ lt_irrefl _ h.2), closed.eq_def, List.append_nil]
    | cons raw rest =>
      have hlong : raws.length * entrySize < (raws ++ raw :: rest).length * entrySize := by
        refine Nat.mul_lt_mul_of_pos_right ?_ (by decide)
        rw [List.length_append, List.length_cons]
        omega
      have hraw := hrest raw List.mem_cons_self
      rw [if_pos ⟨rfl, hlong⟩, List.flatten_append, List.set_append_right _ _ (length_flatten hraws).le,
        length_flatten hraws, Nat.sub_self, List.flatten_cons, List.set_append_left _ _ (by rw [hraw]; decide),
        closed, List.flatten_append, List.flatten_cons]

theorem place_flatten (hraws : Whole raws) (hlong : Whole long) (hfits : start + long.length ≤ raws.length) :
    Layout.endAfter atEnd ((start + long.length) * entrySize)
      (splice raws.flatten (start * entrySize) long.flatten) =
    (raws.take start ++ long ++ closed atEnd (raws.drop (start + long.length))).flatten := by
  have hlength : (raws.take start ++ long).length = start + long.length := by
    rw [List.length_append, List.length_take]
    omega
  rw [splice_flatten hraws hlong, ← hlength]
  exact endAfter_flatten ((hraws.take start).append hlong) (hraws.drop _)

theorem scanSlots_closed (hend : raws = [] ∨ ∃ raw rest, raws = raw :: rest ∧ raw.getD 0 0 = 0) :
    scanSlots slot parts raws = [] := by
  rcases hend with rfl | ⟨raw, rest, rfl, hraw⟩
  · rfl
  · exact scanSlots_end hraw

theorem scanSlots_zeros (hzeros : ∀ raw ∈ rest, raw.getD 0 0 = 0) :
    scanSlots slot parts (raws ++ rest) = scanSlots slot parts raws := by
  induction raws generalizing slot parts with
  | nil =>
    refine scanSlots_closed ?_
    cases rest with
    | nil => exact Or.inl rfl
    | cons raw rest => exact Or.inr ⟨raw, rest, rfl, hzeros raw List.mem_cons_self⟩
  | cons raw raws ih => simp only [List.cons_append, scanSlots, ih]

theorem scanSlots_place (hroom : Room (firsts raws) (long.length + 1) start atEnd)
    (hlong : ∀ raw ∈ long, Silent raw) (hraw : Live raw) :
    ∃ after, scanSlots 0 [] raws = scanSlots 0 [] (raws.take start) ++ after ∧
      scanSlots 0 [] (raws.take start ++ (long ++ [raw]) ++
        closed atEnd (raws.drop (start + (long ++ [raw]).length))) =
      scanSlots 0 [] (raws.take start) ++
        entryAt (start + long.length) raw (partsAfter start (partsAfter 0 [] (raws.take start)) long) :: after := by
  have hfits := hroom.fits
  rw [firsts, List.length_map] at hfits
  have hopen : Open (raws.take start) := by
    intro r hr
    refine hroom.before _ ?_
    rw [firsts, ← List.map_take]
    exact List.mem_map_of_mem hr
  have hlength : (raws.take start).length = start := by
    rw [List.length_take]
    omega
  have hold : scanSlots 0 [] (raws.take start ++ raws.drop start) = _ := scanSlots_append hopen
  rw [List.take_append_drop, Nat.zero_add, hlength] at hold
  refine ⟨_, hold, ?_⟩
  rw [List.append_assoc, scanSlots_append hopen, Nat.zero_add, hlength, List.append_assoc,
    scanSlots_append fun r hr ↦ (hlong r hr).1, scanSlots_silent hlong, List.nil_append, List.singleton_append,
    scanSlots_live hraw, List.length_append, List.length_singleton]
  congr 2
  cases atEnd with
  | true =>
    have hend : (raws.drop start).head?.map (·.getD 0 0) = some 0 := by
      have := hroom.ending rfl
      rw [firsts, List.getElem?_map] at this
      rwa [List.head?_drop]
    rw [scanSlots_closed, scanSlots_closed]
    · cases htail : raws.drop start with
      | nil => exact Or.inl rfl
      | cons r rs =>
        rw [htail] at hend
        exact Or.inr ⟨r, rs, rfl, Option.some.inj hend⟩
    · cases htail : raws.drop (start + (long.length + 1)) with
      | nil => exact Or.inl rfl
      | cons r rs =>
        refine Or.inr ⟨r.set 0 0, rs, rfl, ?_⟩
        cases r <;> rfl
  | false =>
    have hdeleted : ∀ r ∈ (raws.drop start).take (long.length + 1), r.getD 0 0 = 0xe5 := by
      intro r hr
      refine hroom.deleted rfl _ ?_
      rw [firsts, ← List.map_drop, ← List.map_take]
      exact List.mem_map_of_mem hr
    have hne : (raws.drop start).take (long.length + 1) ≠ [] := by
      rw [← List.length_pos_iff, List.length_take, List.length_drop]
      omega
    have hsize : ((raws.drop start).take (long.length + 1)).length = long.length + 1 := by
      rw [List.length_take, List.length_drop]
      omega
    have hsilent : ∀ r ∈ (raws.drop start).take (long.length + 1), Silent r := fun r hr ↦
      ⟨by rw [hdeleted r hr]; decide, Or.inl (hdeleted r hr)⟩
    have hsplit := List.take_append_drop (long.length + 1) (raws.drop start)
    rw [← hsplit, scanSlots_append fun r hr ↦ (hsilent r hr).1, scanSlots_silent hsilent, List.nil_append,
      partsAfter_deleted hdeleted hne, hsize, List.drop_drop]
    rfl

theorem room_of_growth (hzeros : ∀ raw ∈ rest, raw.getD 0 0 = 0)
    (hfits : (firsts raws).findIdx (· = 0) + need < (raws ++ rest).length) :
    Room (firsts (raws ++ rest)) need ((firsts raws).findIdx (· = 0)) true := by
  have happend : firsts (raws ++ rest) = firsts raws ++ firsts rest := List.map_append
  have hle : (firsts raws).findIdx (· = 0) ≤ (firsts raws).length := List.findIdx_le_length
  have hlength : (firsts raws).length = raws.length := List.length_map _
  have hall : (firsts (raws ++ rest)).length = (raws ++ rest).length := List.length_map _
  refine ⟨by omega, fun b hb ↦ ?_, fun hno ↦ absurd hno (by decide), fun _ ↦ ?_⟩
  · rw [happend, List.take_append_of_le_length hle] at hb
    obtain ⟨i, hi, rfl⟩ := List.mem_take_iff_getElem.mp hb
    have hbefore := List.not_of_lt_findIdx (lt_of_lt_of_le hi (min_le_left _ _))
    simpa using hbefore
  · rw [happend]
    rcases Nat.lt_or_ge ((firsts raws).findIdx (· = 0)) (firsts raws).length with hless | hmore
    · rw [List.getElem?_append_left hless, List.getElem?_eq_getElem hless]
      have hfound := List.findIdx_getElem (w := hless)
      simpa using hfound
    · rw [List.getElem?_append_right hmore, le_antisymm hle hmore, Nat.sub_self]
      cases hrest : rest with
      | nil =>
        rw [hrest, List.append_nil] at hfits
        omega
      | cons raw rest' => rw [firsts, List.map_cons, List.getElem?_cons_zero, hzeros raw (hrest ▸ List.mem_cons_self)]

end Placed

section Patched

variable {raws : List (List Byte)} {raw raw' part : List Byte} {slot k o cluster size : ℕ}
  {parts : List (ℕ × List Byte)} {e : Entry}

theorem length_splice (h : o + part.length ≤ raw.length) : (splice raw o part).length = raw.length := by
  simp only [splice, List.length_append, List.length_take, List.length_drop]
  omega

/-- Bytes laid inside one slot. -/
theorem splice_inside (h : Whole raws) (hraw : raws[k]? = some raw) (ho : o + part.length ≤ entrySize) :
    splice raws.flatten (k * entrySize + o) part = (raws.set k (splice raw o part)).flatten := by
  induction raws generalizing k with
  | nil => cases hraw
  | cons r raws ih =>
    obtain ⟨hr, hraws⟩ := List.forall_mem_cons.mp h
    cases k with
    | zero =>
      rw [List.getElem?_cons_zero, Option.some.injEq] at hraw
      subst hraw
      rw [Nat.zero_mul, Nat.zero_add, List.set_cons_zero, List.flatten_cons, List.flatten_cons, splice, splice,
        List.take_append_of_le_length (by omega), List.drop_append_of_le_length (by omega), List.append_assoc,
        List.append_assoc, List.append_assoc]
    | succ k =>
      rw [List.getElem?_cons_succ] at hraw
      have hpast : (k + 1) * entrySize + o = r.length + (k * entrySize + o) := by
        rw [hr, Nat.add_one_mul]
        omega
      rw [List.set_cons_succ, List.flatten_cons, List.flatten_cons, ← ih hraws hraw, splice, splice, hpast,
        List.take_length_add_append, Nat.add_assoc, List.drop_length_add_append, List.append_assoc,
        List.append_assoc, List.append_assoc]

theorem live_of_mem (h : e ∈ scanSlots slot parts raws) : ∃ raw, raws[e.slot - slot]? = some raw ∧ Live raw := by
  induction raws generalizing slot parts with
  | nil => cases h
  | cons r raws ih =>
    have hnext : ∀ {parts}, e ∈ scanSlots (slot + 1) parts raws →
        ∃ raw, (r :: raws)[e.slot - slot]? = some raw ∧ Live raw := by
      intro parts hmem
      obtain ⟨raw, hraw, hlive⟩ := ih hmem
      have hslot := (slot_mem hmem).1
      refine ⟨raw, ?_, hlive⟩
      have hsucc : e.slot - slot = e.slot - (slot + 1) + 1 := by omega
      rw [hsucc, List.getElem?_cons_succ, hraw]
    rw [scanSlots] at h
    split_ifs at h with hend hdeleted hpart
    · cases h
    · exact hnext h
    · exact hnext h
    · rcases List.mem_cons.mp h with rfl | hrest
      · rw [entryAt_slot, Nat.sub_self]
        exact ⟨r, rfl, hend, hdeleted, hpart⟩
      · exact hnext hrest

def Entry.lead (slot cluster size : ℕ) (e : Entry) : Entry :=
  if e.slot = slot then { e with cluster := cluster, size := size } else e

theorem getD_of_take (h : raw'.take 20 = raw.take 20) (ho : o < 20) : raw'.getD o 0 = raw.getD o 0 := by
  have hbyte := congrArg (·[o]?) h
  simp only [List.getElem?_take, if_pos ho] at hbyte
  rw [List.getD_eq_getElem?_getD, List.getD_eq_getElem?_getD, hbyte]

theorem entryAt_of_take (h : raw'.take 20 = raw.take 20) :
    entryAt slot raw' parts =
      { entryAt slot raw parts with
        cluster := value ((raw'.drop 20).take 2) <<< 16 ||| value ((raw'.drop 26).take 2)
        size := value ((raw'.drop 28).take 4) } := by
  have hname : raw'.take 11 = raw.take 11 := by
    have := congrArg (List.take 11) h
    rwa [List.take_take, List.take_take] at this
  unfold entryAt longName
  rw [hname, getD_of_take h (by decide), getD_of_take h (by decide)]

theorem scanSlots_set (hraw : raws[k]? = some raw) (hlive : Live raw) (hsame : raw'.take 20 = raw.take 20) :
    scanSlots slot parts (raws.set k raw') = (scanSlots slot parts raws).map
      (Entry.lead (slot + k) (value ((raw'.drop 20).take 2) <<< 16 ||| value ((raw'.drop 26).take 2))
        (value ((raw'.drop 28).take 4))) := by
  induction raws generalizing k slot parts with
  | nil => cases hraw
  | cons r raws ih =>
    cases k with
    | zero =>
      rw [List.getElem?_cons_zero, Option.some.injEq] at hraw
      subst hraw
      have hlive' : Live raw' := by
        rw [Live, getD_of_take hsame (by decide), getD_of_take hsame (by decide)]
        exact hlive
      have hrest : (scanSlots (slot + 1) [] raws).map (Entry.lead slot
          (value ((raw'.drop 20).take 2) <<< 16 ||| value ((raw'.drop 26).take 2)) (value ((raw'.drop 28).take 4))) =
          scanSlots (slot + 1) [] raws := by
        conv_rhs => rw [← List.map_id (scanSlots (slot + 1) [] raws)]
        refine List.map_congr_left fun e he ↦ if_neg ?_
        have := (slot_mem he).1
        omega
      rw [List.set_cons_zero, scanSlots_live hlive', scanSlots_live hlive, List.map_cons, Nat.add_zero slot, hrest,
        entryAt_of_take hsame, Entry.lead, if_pos entryAt_slot]
    | succ k =>
      rw [List.getElem?_cons_succ] at hraw
      have hsum : slot + (k + 1) = slot + 1 + k := by omega
      rw [List.set_cons_succ, hsum, scanSlots, scanSlots]
      split_ifs
      · rfl
      · exact ih hraw
      · exact ih hraw
      · rw [List.map_cons, ih hraw, Entry.lead, if_neg (by rw [entryAt_slot]; omega)]

theorem splice_append {a b c : List Byte} (ha : a.length = o) (hb : b.length = part.length) :
    splice (a ++ (b ++ c)) o part = a ++ (part ++ c) := by
  have hpast : (a ++ b).length = o + part.length := by rw [List.length_append, ha, hb]
  rw [splice, List.take_left' ha, ← List.append_assoc, List.drop_left' hpast, List.append_assoc]

/-- A slot whose cluster and size are written anew. -/
theorem splice_entry {high low bytes : List Byte} (hraw : raw.length = entrySize) (hhigh : high.length = 2)
    (hlow : low.length = 2) (hbytes : bytes.length = 4) :
    ∃ raw', splice (splice (splice raw 20 high) 26 low) 28 bytes = raw' ∧ raw'.length = entrySize ∧
      raw'.take 20 = raw.take 20 ∧ (raw'.drop 20).take 2 = high ∧ (raw'.drop 26).take 2 = low ∧
      (raw'.drop 28).take 4 = bytes := by
  obtain ⟨a, b, c, d, e, rfl, ha, hb, hc, hd, he⟩ : ∃ a b c d e : List Byte, raw = a ++ (b ++ (c ++ (d ++ e))) ∧
      a.length = 20 ∧ b.length = 2 ∧ c.length = 4 ∧ d.length = 2 ∧ e.length = 4 := by
    refine ⟨raw.take 20, (raw.drop 20).take 2, (raw.drop 22).take 4, (raw.drop 26).take 2, raw.drop 28, ?_, ?_⟩
    · have h22 : raw.drop 22 = (raw.drop 20).drop 2 := by rw [List.drop_drop]
      have h26 : raw.drop 26 = (raw.drop 22).drop 4 := by rw [List.drop_drop]
      have h28 : raw.drop 28 = (raw.drop 26).drop 2 := by rw [List.drop_drop]
      rw [h28, List.take_append_drop, h26, List.take_append_drop, h22, List.take_append_drop, List.take_append_drop]
    · rw [entrySize] at hraw
      simp only [List.length_take, List.length_drop]
      omega
  have hac : (a ++ (high ++ c)).length = 26 := by simp only [List.length_append]; omega
  have had : (a ++ (high ++ (c ++ low))).length = 28 := by simp only [List.length_append]; omega
  have hsecond : a ++ (high ++ (c ++ (d ++ e))) = (a ++ (high ++ c)) ++ (d ++ e) := by simp only [List.append_assoc]
  have hthird : ∀ last : List Byte, (a ++ (high ++ c)) ++ (low ++ last) =
      (a ++ (high ++ (c ++ low))) ++ (last ++ []) := by
    intro last
    simp only [List.append_assoc, List.append_nil]
  rw [splice_append ha (hb.trans hhigh.symm), hsecond, splice_append hac (hd.trans hlow.symm), hthird,
    splice_append had (he.trans hbytes.symm)]
  refine ⟨_, rfl, ?_, ?_, ?_, ?_, ?_⟩
  · rw [List.length_append, had, List.append_nil, hbytes]
    rfl
  · rw [List.append_assoc, List.take_left' ha, List.take_left' ha]
  · rw [List.append_assoc, List.drop_left' ha, List.append_assoc, List.take_left' hhigh]
  · rw [← hthird, List.drop_left' hac, List.take_left' hlow]
  · rw [List.drop_left' had, List.take_left' hbytes]

end Patched

end Cdj2000Emulator.Card
