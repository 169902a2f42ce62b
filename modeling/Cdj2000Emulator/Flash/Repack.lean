import Cdj2000Emulator.Flash.RoundTrip

namespace Cdj2000Emulator.Flash

open Library.Bytes Lzss

def appRegion : ℕ := 0x40000

def appRegionEnd : ℕ := 0x3e0000

/-- What `unpack_region` and `repack` can raise. -/
inductive Failure where
  | outside (address : ℕ)
  | truncated (address : ℕ)
  | tooBig
  | pastEnd (newEnd : ℕ)
  | notDecoded
  | notUnpacked
  deriving DecidableEq

def hex (n : ℕ) : String := "0x" ++ String.ofList (Nat.toDigits 16 n)

def Failure.message : Failure → String
  | outside address => "packed region " ++ hex address ++ " lies outside the image"
  | truncated address => "packed region " ++ hex address ++ " is truncated"
  | tooBig => "int too big to convert"
  | pastEnd newEnd => "packed application ends at " ++ hex newEnd ++
      ", past the application area's " ++ hex appRegionEnd
  | notDecoded => "the packed region does not decode back to the application"
  | notUnpacked => "round trip through main_unpack failed"

structure PackedRegion where
  address : ℕ
  packed : List Byte
  checksumStored : ℕ
  checksumCalculated : ℕ
  unpacked : List Byte

def PackedRegion.checksumValid (r : PackedRegion) : Prop := r.checksumStored = r.checksumCalculated

instance (r : PackedRegion) : Decidable r.checksumValid :=
  inferInstanceAs (Decidable (r.checksumStored = r.checksumCalculated))

/-- `image[i:j]`. -/
def slice (image : List Byte) (i j : ℕ) : List Byte := (image.drop i).take (j - i)

/-- `sum(bytes) & 0xFFFF`. -/
def checksum (bytes : List Byte) : ℕ := (bytes.map BitVec.toNat).sum &&& 0xffff

def unpackRegion (image : List Byte) (address : ℕ) : Except Failure PackedRegion :=
  if image.length < address + 4 then .error (.outside address)
  else
    let packedSize := value (slice image address (address + 4))
    let packedStart := address + 4
    let packedEnd := packedStart + packedSize
    if image.length < packedEnd + 2 then .error (.truncated address)
    else
      let packed := slice image packedStart packedEnd
      .ok {
        address := address
        packed := packed
        checksumStored := value (slice image packedEnd (packedEnd + 2))
        checksumCalculated := checksum (slice image address packedEnd)
        unpacked := decompressLzss packed }

/-- `image[i:j] = part`. -/
def overwrite (image : List Byte) (i j : ℕ) (part : List Byte) : List Byte :=
  image.take i ++ (part ++ image.drop j)

def toBytes (n size : ℕ) : Except Failure (List Byte) :=
  if n < 256 ^ size then .ok (little size n) else .error .tooBig

/-- What `repack` asks of its image. -/
def selfCheck (image app : List Byte) (newEnd : ℕ) : Except Failure (List Byte × ℕ) := do
  let check ← unpackRegion image appRegion
  if ¬check.checksumValid ∨ check.unpacked ≠ app then .error .notDecoded
  else if decompressLzss check.packed ≠ app then .error .notUnpacked
  else .ok (image, newEnd)

def repack (base app : List Byte) : Except Failure (List Byte × ℕ) := do
  let old ← unpackRegion base appRegion
  let oldEnd := appRegion + 4 + old.packed.length + 2
  let packed := compressLzss app
  let size ← toBytes packed.length 4
  let region := size ++ packed
  let sum ← toBytes (checksum region) 2
  let region := region ++ sum
  let newEnd := appRegion + region.length
  if appRegionEnd < newEnd then .error (.pastEnd newEnd)
  else
    let image := base ++ List.replicate (newEnd - base.length) 0xff
    let image := overwrite image appRegion newEnd region
    let image := if newEnd < oldEnd then
      overwrite image newEnd oldEnd (List.replicate (oldEnd - newEnd) 0xff) else image
    selfCheck image app newEnd

section Slices

variable {image part a b : List Byte} {i j k n : ℕ}

theorem getElem?_overwrite_lt (hi : i ≤ image.length) (hk : k < i) :
    (overwrite image i j part)[k]? = image[k]? := by
  have hlt : k < (image.take i).length := by
    rw [List.length_take]
    omega
  rw [overwrite, List.getElem?_append_left hlt, List.getElem?_take_of_lt hk]

theorem getElem?_overwrite_ge (hi : i ≤ image.length) (hij : i + part.length = j) (hk : j ≤ k) :
    (overwrite image i j part)[k]? = image[k]? := by
  have hlength : (image.take i).length = i := List.length_take_of_le hi
  rw [overwrite, List.getElem?_append_right (by omega), List.getElem?_append_right (by omega),
    List.getElem?_drop, hlength]
  congr 1
  omega

theorem slice_append (ha : a.length = i) (hb : i + b.length = j) (rest : List Byte) :
    slice (a ++ (b ++ rest)) i j = b := by
  rw [slice, List.drop_left' ha, List.take_left' (by omega)]

/-- Over a part laid before, nothing of it changes. -/
theorem overwrite_behind (filler : List Byte) (hi : a.length + b.length = i) (rest : List Byte) :
    overwrite (a ++ (b ++ rest)) i j filler =
      a ++ (b ++ (filler ++ (a ++ (b ++ rest)).drop j)) := by
  rw [overwrite, ← List.append_assoc a b rest, List.take_left' (by rw [List.length_append, hi]),
    List.append_assoc]

end Slices

section Region

variable {packed before after : List Byte}

def regionBytes (packed : List Byte) : List Byte :=
  (little 4 packed.length ++ packed) ++ little 2 (checksum (little 4 packed.length ++ packed))

theorem checksum_lt (bytes : List Byte) : checksum bytes < 256 ^ 2 :=
  lt_of_le_of_lt Nat.and_le_right (by decide)

theorem length_regionBytes (packed : List Byte) :
    (regionBytes packed).length = 4 + packed.length + 2 := by
  rw [regionBytes, List.length_append, List.length_append, length_little, length_little]

theorem unpackRegion_regionBytes (before after : List Byte) (h : packed.length < 256 ^ 4) :
    unpackRegion (before ++ (regionBytes packed ++ after)) before.length = .ok {
      address := before.length
      packed := packed
      checksumStored := checksum (little 4 packed.length ++ packed)
      checksumCalculated := checksum (little 4 packed.length ++ packed)
      unpacked := decompressLzss packed } := by
  have hlength : (before ++ (regionBytes packed ++ after)).length =
      before.length + (4 + packed.length + 2) + after.length := by
    rw [List.length_append, List.length_append, length_regionBytes]
    omega
  have hsize : slice (before ++ (regionBytes packed ++ after)) before.length (before.length + 4) =
      little 4 packed.length := by
    rw [regionBytes, List.append_assoc, List.append_assoc]
    exact slice_append rfl (by rw [length_little]) _
  have hpacked : slice (before ++ (regionBytes packed ++ after)) (before.length + 4)
      (before.length + 4 + packed.length) = packed := by
    rw [regionBytes, List.append_assoc, List.append_assoc, ← List.append_assoc before]
    exact slice_append (by rw [List.length_append, length_little]) rfl _
  have hstored : slice (before ++ (regionBytes packed ++ after)) (before.length + 4 + packed.length)
      (before.length + 4 + packed.length + 2) = little 2 (checksum (little 4 packed.length ++ packed)) := by
    rw [regionBytes, List.append_assoc, ← List.append_assoc before]
    refine slice_append ?_ (by rw [length_little]) _
    rw [List.length_append, List.length_append, length_little, Nat.add_assoc]
  have hsummed : slice (before ++ (regionBytes packed ++ after)) before.length
      (before.length + 4 + packed.length) = little 4 packed.length ++ packed := by
    rw [regionBytes, List.append_assoc]
    refine slice_append rfl ?_ _
    rw [List.length_append, length_little, Nat.add_assoc]
  have hin : ¬(before ++ (regionBytes packed ++ after)).length < before.length + 4 := by
    omega
  have hwhole : ¬(before ++ (regionBytes packed ++ after)).length <
      before.length + 4 + packed.length + 2 := by
    omega
  rw [unpackRegion, if_neg hin]
  simp only [hsize, value_little h, hpacked, hstored, hsummed, value_little (checksum_lt _), if_neg hwhole]

theorem le_length_of_unpackRegion {image : List Byte} {address : ℕ} {r : PackedRegion}
    (h : unpackRegion image address = .ok r) : address + 4 + r.packed.length + 2 ≤ image.length := by
  unfold unpackRegion at h
  dsimp only at h
  split_ifs at h with hin hwhole
  · cases h
    generalize value (slice image address (address + 4)) = size at hwhole ⊢
    simp only [slice, List.length_take, List.length_drop]
    omega

/-- It cannot be read for no other reason. -/
theorem unpackRegion_error {image : List Byte} {address : ℕ} {e : Failure}
    (h : unpackRegion image address = .error e) : e = .outside address ∨ e = .truncated address := by
  unfold unpackRegion at h
  dsimp only at h
  split_ifs at h with hin hwhole
  · cases h
    exact Or.inl rfl
  · cases h
    exact Or.inr rfl

end Region

section Repack

variable {base app : List Byte} {old : PackedRegion}

/-- Where the application's packed region ends. -/
def newEnd (app : List Byte) : ℕ := appRegion + (regionBytes (compressLzss app)).length

/-- The packed application ends in the application area. -/
def Fits (app : List Byte) : Prop := newEnd app ≤ appRegionEnd

theorem Fits.size_lt (h : Fits app) : (compressLzss app).length < 256 ^ 4 := by
  rw [Fits, newEnd, length_regionBytes, appRegion, appRegionEnd] at h
  omega

/-- The image that `repack` writes over the one whose region ended at `oldEnd`. -/
def repacked (base app : List Byte) (oldEnd : ℕ) : List Byte :=
  let image := base ++ List.replicate (newEnd app - base.length) 0xff
  let image := overwrite image appRegion (newEnd app) (regionBytes (compressLzss app))
  if newEnd app < oldEnd then
    overwrite image (newEnd app) oldEnd (List.replicate (oldEnd - newEnd app) 0xff)
  else image

theorem repacked_eq (app : List Byte) (oldEnd : ℕ) (hbase : appRegion ≤ base.length) :
    ∃ after, repacked base app oldEnd =
      base.take appRegion ++ (regionBytes (compressLzss app) ++ after) := by
  have htake : (base ++ List.replicate (newEnd app - base.length) 0xff).take appRegion =
      base.take appRegion := List.take_append_of_le_length hbase
  have hinner : overwrite (base ++ List.replicate (newEnd app - base.length) 0xff) appRegion
      (newEnd app) (regionBytes (compressLzss app)) =
      base.take appRegion ++ (regionBytes (compressLzss app) ++
        (base ++ List.replicate (newEnd app - base.length) 0xff).drop (newEnd app)) := by
    rw [overwrite, htake]
  rw [repacked, hinner]
  split_ifs with hless
  · exact ⟨_, overwrite_behind _ (by rw [List.length_take_of_le hbase, newEnd]) _⟩
  · exact ⟨_, rfl⟩

theorem getElem?_repacked {oldEnd i : ℕ} (hbase : appRegion ≤ base.length)
    (hi : i < appRegion ∨ max oldEnd (newEnd app) ≤ i) :
    (repacked base app oldEnd)[i]? = base[i]? := by
  have hend : appRegion ≤ newEnd app := Nat.le_add_right _ _
  have hlonger : appRegion ≤ (base ++ List.replicate (newEnd app - base.length) (0xff : Byte)).length := by
    rw [List.length_append]
    omega
  have hextended : (base ++ List.replicate (newEnd app - base.length) (0xff : Byte))[i]? = base[i]? := by
    rcases Nat.lt_or_ge i base.length with hin | hout
    · exact List.getElem?_append_left hin
    · rw [List.getElem?_eq_none hout, List.getElem?_eq_none]
      rw [List.length_append, List.length_replicate]
      omega
  have hplaced : (overwrite (base ++ List.replicate (newEnd app - base.length) 0xff) appRegion
      (newEnd app) (regionBytes (compressLzss app)))[i]? = base[i]? := by
    rcases hi with hlt | hge
    · rw [getElem?_overwrite_lt hlonger hlt, hextended]
    · rw [getElem?_overwrite_ge hlonger (by rw [newEnd]) (by omega), hextended]
  rw [repacked]
  split_ifs with hless
  · have hwide : newEnd app ≤ (overwrite (base ++ List.replicate (newEnd app - base.length) 0xff)
        appRegion (newEnd app) (regionBytes (compressLzss app))).length := by
      rw [overwrite, List.length_append, List.length_append, List.length_take_of_le hlonger, newEnd]
      omega
    rcases hi with hlt | hge
    · rw [getElem?_overwrite_lt hwide (by omega), hplaced]
    · rw [getElem?_overwrite_ge hwide (by rw [List.length_replicate]; omega) (by omega), hplaced]
  · exact hplaced

/-- The region of the new image decodes to the application. -/
theorem unpackRegion_repacked (oldEnd : ℕ) (hbase : appRegion ≤ base.length) (hfits : Fits app) :
    ∃ r, unpackRegion (repacked base app oldEnd) appRegion = .ok r ∧
      r.packed = compressLzss app ∧ r.unpacked = app ∧ r.checksumValid := by
  obtain ⟨after, hafter⟩ := repacked_eq app oldEnd hbase
  have hread := unpackRegion_regionBytes (base.take appRegion) after hfits.size_lt
  rw [List.length_take_of_le hbase, decompress_compress] at hread
  rw [hafter]
  exact ⟨_, hread, rfl, rfl, rfl⟩

theorem toBytes_of_lt {n size : ℕ} (h : n < 256 ^ size) : toBytes n size = .ok (little size n) :=
  if_pos h

theorem repack_of_fits (h : unpackRegion base appRegion = .ok old) (hfits : Fits app) :
    repack base app =
      .ok (repacked base app (appRegion + 4 + old.packed.length + 2), newEnd app) := by
  have hlength := le_length_of_unpackRegion h
  have hbase : appRegion ≤ base.length := by omega
  obtain ⟨r, hread, hpacked, hunpacked, hvalid⟩ := unpackRegion_repacked
    (appRegion + 4 + old.packed.length + 2) hbase hfits
  have hend : ¬appRegionEnd < newEnd app := Nat.not_lt.mpr hfits
  have hchecked : selfCheck (repacked base app (appRegion + 4 + old.packed.length + 2)) app
      (newEnd app) = .ok (repacked base app (appRegion + 4 + old.packed.length + 2), newEnd app) := by
    have hboth : ¬(¬r.checksumValid ∨ r.unpacked ≠ app) :=
      not_or.mpr ⟨not_not_intro hvalid, not_not_intro hunpacked⟩
    have hagain : ¬decompressLzss r.packed ≠ app := by
      rw [hpacked, decompress_compress]
      exact not_not_intro rfl
    simp only [selfCheck, hread, bind, Except.bind, if_neg hboth, if_neg hagain]
  simp only [repack, h, toBytes_of_lt hfits.size_lt, toBytes_of_lt (checksum_lt _), bind, Except.bind]
  exact (if_neg hend).trans hchecked

theorem repack_error {e : Failure} (h : repack base app = .error e) :
    e ≠ .notDecoded ∧ e ≠ .notUnpacked := by
  cases hold : unpackRegion base appRegion with
  | error f =>
    simp only [repack, hold, bind, Except.bind] at h
    cases h
    rcases unpackRegion_error hold with rfl | rfl <;> exact ⟨nofun, nofun⟩
  | ok old =>
    by_cases hsize : (compressLzss app).length < 256 ^ 4
    · simp only [repack, hold, toBytes_of_lt hsize, toBytes_of_lt (checksum_lt _), bind,
        Except.bind] at h
      by_cases hfits : Fits app
      · have hok := repack_of_fits hold hfits
        simp only [repack, hold, toBytes_of_lt hsize, toBytes_of_lt (checksum_lt _), bind,
          Except.bind] at hok
        cases hok.symm.trans h
      · have hpast : appRegionEnd < newEnd app := Nat.not_le.mp hfits
        cases (if_pos hpast).symm.trans h
        exact ⟨nofun, nofun⟩
    · simp only [repack, hold, toBytes, if_neg hsize, bind, Except.bind] at h
      cases h
      exact ⟨nofun, nofun⟩

/-- The packed application is unpacked again, and the image is the base one everywhere else. -/
theorem repack_round_trip :
    (∀ data, decompressLzss (compressLzss data) = data) ∧
    (∀ base app e, repack base app = .error e → e ≠ .notDecoded ∧ e ≠ .notUnpacked) ∧
    ∀ base app old, unpackRegion base appRegion = .ok old → Fits app →
      ∃ image r, repack base app = .ok (image, newEnd app) ∧
        unpackRegion image appRegion = .ok r ∧ r.unpacked = app ∧ r.checksumValid ∧
        ∀ i, image[i]? ≠ base[i]? →
          appRegion ≤ i ∧ i < max (appRegion + 4 + old.packed.length + 2) (newEnd app) := by
  refine ⟨decompress_compress, fun _ _ _ ↦ repack_error, fun base app old hold hfits ↦ ?_⟩
  have hbase : appRegion ≤ base.length := by
    have := le_length_of_unpackRegion hold
    omega
  obtain ⟨r, hread, -, hunpacked, hvalid⟩ := unpackRegion_repacked
    (appRegion + 4 + old.packed.length + 2) hbase hfits
  refine ⟨_, r, repack_of_fits hold hfits, hread, hunpacked, hvalid, fun i hne ↦ ?_⟩
  by_contra hout
  exact hne (getElem?_repacked hbase (by omega))

theorem out_foldl_insert (text : List Byte) (positions : List ℕ) (s : Lzss.Encoder) :
    (positions.foldl (Lzss.insert text) s).out = s.out := by
  rw [Lzss.foldl_insert_eq]

/-- A turn writes a byte for the flags of its group at most, and two for its item. -/
theorem length_turn (text : List Byte) (s : Lzss.Encoder) :
    (Lzss.turn text s).out.length ≤ s.out.length + 3 := by
  have hopen : (Lzss.openGroup s).out.length ≤ s.out.length + 1 := by
    unfold Lzss.openGroup
    split_ifs
    · exact (List.length_append).le
    · exact Nat.le_succ _
  have hadvance : ∀ (t : Lzss.Encoder) (step : ℕ), (Lzss.advance text t step).out = t.out := by
    intro t step
    exact out_foldl_insert _ _ _
  unfold Lzss.turn
  dsimp only
  split_ifs
  · rw [hadvance, List.length_append]
    exact Nat.add_le_add_right hopen 2
  · rw [hadvance, List.length_append, Lzss.setFlag, List.length_modify, List.length_singleton]
    omega

theorem length_loop (text : List Byte) (n : ℕ) (s : Lzss.Encoder) :
    (Lzss.loop text n s).out.length ≤ s.out.length + 3 * n := by
  induction n generalizing s with
  | zero => exact Nat.le_refl _
  | succ n ih =>
    rw [Lzss.loop]
    split_ifs
    · have hturn := length_turn text s
      have hrest := ih (Lzss.turn text s)
      omega
    · exact Nat.le_add_right _ _

theorem length_compress (data : List Byte) : (compressLzss data).length ≤ 3 * data.length := by
  have hloop := length_loop (List.replicate Lzss.pad 0x20 ++ data) data.length
    (Lzss.initial (List.replicate Lzss.pad 0x20 ++ data))
  rwa [Lzss.initial, out_foldl_insert, List.length_nil, Nat.zero_add] at hloop

/-- An application of a third of the area fits whatever its bytes are. -/
theorem fits_of_short (h : 3 * app.length + 6 ≤ appRegionEnd - appRegion) : Fits app := by
  have hpacked := length_compress app
  rw [Fits, newEnd, length_regionBytes]
  unfold appRegion appRegionEnd at *
  omega

/-- Eighteen bytes of an application, the later ones a match of the first. -/
def pattern : List Byte := (List.replicate 6 [1, 2, 3]).flatten

/-- Over an image whose region is empty. -/
theorem repack_round_trip_erased : ∃ image r,
    repack (List.replicate 0x400000 0) pattern = .ok (image, newEnd pattern) ∧
      unpackRegion image appRegion = .ok r ∧ r.unpacked = pattern ∧ r.checksumValid := by
  have hold : unpackRegion (List.replicate 0x400000 0) appRegion = .ok ⟨appRegion, [], 0, 0, []⟩ := by
    have hslice : ∀ i n, i + n ≤ 0x400000 →
        slice (List.replicate 0x400000 0) i (i + n) = List.replicate n 0 := by
      intro i n h
      rw [slice, List.drop_replicate, List.take_replicate]
      congr 1
      omega
    have hempty : slice (List.replicate 0x400000 0) (appRegion + 4) (appRegion + 4) = [] :=
      hslice _ 0 (by decide)
    have hvalue : value (List.replicate 4 0) = 0 := by decide
    rw [unpackRegion, List.length_replicate, if_neg (by decide), hslice _ 4 (by decide), hvalue,
      Nat.add_zero]
    dsimp only
    rw [if_neg (by decide), hslice _ 2 (by decide), hslice _ 4 (by decide)]
    rw [hempty]
    rfl
  obtain ⟨image, r, h, hread, hunpacked, hvalid, -⟩ :=
    repack_round_trip.2.2 _ _ _ hold (fits_of_short (by decide : 3 * pattern.length + 6 ≤ appRegionEnd - appRegion))
  exact ⟨image, r, h, hread, hunpacked, hvalid⟩

end Repack

end Cdj2000Emulator.Flash
