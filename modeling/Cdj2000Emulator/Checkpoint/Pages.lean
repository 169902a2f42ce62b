import Cdj2000Emulator.Checkpoint.File

namespace Cdj2000Emulator.Checkpoint.Pages

open Library.Bytes
open Library.Bytes.Block (get put slice zeros bytes)
open Library.Bytes.Reader (fread Parses parses_pure parses_fread)
open File

variable {bitmap : Block bitmapSize} {sdram : Block sdramSize} {p q : ℕ}

theorem bit_zeros : bit (zeros : Block bitmapSize) p = false := by simp [bit]

theorem bit_setBit (hp : p < pageCount) :
    bit (setBit bitmap p) q = (bit bitmap q || decide (q = p)) := by
  have size : pageCount = 8 * bitmapSize := by decide
  unfold bit
  by_cases inside : q / 8 < bitmapSize
  · rw [Block.get_of_lt inside, Block.get_of_lt inside, setBit]
    by_cases byte : q / 8 = p / 8
    · have low : q % 8 < 8 := Nat.mod_lt q (by decide)
      have same : q % 8 = p % 8 ↔ q = p := by omega
      have number : decide (p % 8 = q % 8) = decide (q = p) := by
        rw [decide_eq_decide, eq_comm, same]
      rw [if_pos byte, BitVec.getLsbD_or, BitVec.getLsbD_twoPow, number]
      simp [Nat.mod_lt]
    · have apart : q ≠ p := fun h ↦ byte (by rw [h])
      rw [if_neg byte]
      simp [apart]
  · have apart : q ≠ p := by omega
    simp [Block.get, inside, apart]

theorem bit_scan (ps : List ℕ) (m : Scan) (h : ∀ p ∈ ps, p < pageCount) :
    bit (scan sdram ps m).bitmap q =
      (bit m.bitmap q || (decide (q ∈ ps) && nonzero (page sdram q))) := by
  induction ps generalizing m with
  | nil => simp [scan]
  | cons p ps ih =>
    have rest : ∀ p ∈ ps, p < pageCount := fun r hr ↦ h r (List.mem_cons_of_mem p hr)
    have first : p < pageCount := h p (by simp)
    rw [scan]
    split_ifs with hp
    · rw [ih _ rest, bit_setBit first]
      by_cases same : q = p
      · simp [same, hp]
      · simp [same]
    · rw [ih _ rest]
      by_cases same : q = p
      · simp [same, hp]
      · simp [same]

theorem present_scan (ps : List ℕ) (m : Scan) :
    (scan sdram ps m).present = m.present + ps.countP fun p ↦ nonzero (page sdram p) := by
  induction ps generalizing m with
  | nil => simp [scan]
  | cons p ps ih =>
    rw [scan]
    split_ifs with hp
    · rw [ih, List.countP_cons_of_pos (by exact hp)]
      dsimp only
      omega
    · rw [ih, List.countP_cons_of_neg (by simpa using hp)]

/-- What the reader's loop comes to on a file that holds the pages of `sdram`. -/
def restored (bitmap : Block bitmapSize) (sdram : Block sdramSize) : List ℕ → Progress → Progress
  | [], m => m
  | p :: ps, m =>
    if bit bitmap p then
      restored bitmap sdram ps ⟨put (p * pageSize) (page sdram p) m.sdram,
        checksum m.hash (bytes (page sdram p)), m.present + 1⟩
    else restored bitmap sdram ps m

theorem parses_readPages (ps : List ℕ) (m : Progress) :
    Parses (readPages bitmap ps m) (storedPages bitmap sdram ps) (restored bitmap sdram ps m) := by
  induction ps generalizing m with
  | nil => exact parses_pure
  | cons p ps ih =>
    rw [readPages, storedPages, restored]
    split_ifs with hp
    · exact (parses_fread (page sdram p)).bind (ih _)
    · exact ih m

theorem restored_hash (ps : List ℕ) (m : Progress) :
    (restored bitmap sdram ps m).hash = hashPages bitmap sdram ps m.hash := by
  induction ps generalizing m with
  | nil => rfl
  | cons p ps ih =>
    rw [restored, hashPages]
    split_ifs with hp
    · rw [ih]
    · rw [ih]

theorem restored_present (ps : List ℕ) (m : Progress) :
    (restored bitmap sdram ps m).present = m.present + ps.countP fun p ↦ bit bitmap p := by
  induction ps generalizing m with
  | nil => simp [restored]
  | cons p ps ih =>
    rw [restored]
    split_ifs with hp
    · rw [ih, List.countP_cons_of_pos (by exact hp)]
      dsimp only
      omega
    · rw [ih, List.countP_cons_of_neg (by simpa using hp)]

/-- A stored page is copied to its place; nothing else changes. -/
theorem restored_sdram (ps : List ℕ) (m : Progress) (i : Fin sdramSize) :
    (restored bitmap sdram ps m).sdram i =
      if i / pageSize ∈ ps ∧ bit bitmap (i / pageSize) then sdram i else m.sdram i := by
  induction ps generalizing m with
  | nil => simp [restored]
  | cons p ps ih =>
    have place : i / pageSize = p ↔ p * pageSize ≤ i ∧ i < p * pageSize + pageSize := by
      unfold pageSize
      omega
    rw [restored]
    by_cases hp : bit bitmap p
    · rw [if_pos hp, ih]
      by_cases here : i / pageSize = p
      · have inside := place.mp here
        have copied : put (p * pageSize) (page sdram p) m.sdram i = sdram i := by
          rw [page, Block.put_inside inside.1 inside.2, Block.get_of_lt (by omega), slice,
            Nat.add_sub_of_le inside.1, Block.get_val]
        simp [here, hp, copied]
      · have outside : put (p * pageSize) (page sdram p) m.sdram i = m.sdram i :=
          Block.put_outside (by rw [place] at here; omega)
        simp [here, outside]
    · rw [if_neg hp, ih]
      by_cases here : i / pageSize = p
      · simp [here, hp]
      · simp [here]

theorem page_lt (i : Fin sdramSize) : (i : ℕ) / pageSize < pageCount := by
  exact Nat.div_lt_of_lt_mul (Nat.lt_of_lt_of_eq i.isLt (by decide))

theorem nonzero_of_ne {data : Block pageSize} {i : Fin pageSize} (h : data i ≠ 0) :
    nonzero data = true := by
  rw [nonzero, List.any_eq_true]
  exact ⟨data i, by simp [bytes], by simpa using h⟩

variable (sdram) in
def found : Scan := scan sdram pages ⟨zeros, 0⟩

theorem bit_found (h : p < pageCount) : bit (found sdram).bitmap p = nonzero (page sdram p) := by
  rw [found, bit_scan _ _ fun r hr ↦ mem_pages.mp hr, bit_zeros]
  simp [mem_pages, h]

theorem present_found : (found sdram).present =
    pages.countP fun p ↦ bit (found sdram).bitmap p := by
  rw [found, present_scan, Nat.zero_add]
  refine List.countP_congr fun p hp ↦ ?_
  have marked : bit (found sdram).bitmap p = nonzero (page sdram p) := bit_found (mem_pages.mp hp)
  rw [found] at marked
  rw [marked]

/-- The pages left out are zero, so what was scanned comes back whole. -/
theorem restored_found (m : Progress) (blank : m.sdram = zeros) :
    (restored (found sdram).bitmap sdram pages m).sdram = sdram := by
  funext i
  have inside := page_lt i
  rw [restored_sdram, blank]
  split_ifs with marked
  · rfl
  · have empty : nonzero (page sdram (i / pageSize)) = false := by
      rw [← bit_found inside]
      simpa [mem_pages, inside] using marked
    by_contra different
    have low : (i : ℕ) % pageSize < pageSize := Nat.mod_lt _ (by decide)
    have value : page sdram (i / pageSize) ⟨i % pageSize, low⟩ = sdram i := by
      rw [page, slice, Nat.div_add_mod' , Block.get_val]
    have present := nonzero_of_ne (i := ⟨i % pageSize, low⟩) (value ▸ Ne.symm different)
    rw [empty] at present
    cases present

theorem present_le : (found sdram).present ≤ pageCount := by
  rw [present_found]
  exact List.countP_le_length.trans (by rw [length_pages])

end Cdj2000Emulator.Checkpoint.Pages
