import Cdj2000Emulator.Flash.Lzss
import Mathlib.Data.List.Lemmas

namespace Cdj2000Emulator.Flash.Lzss

open Function Library.Bytes

variable {text : List Byte}

/-- The positions before `b` that were put in are linked to earlier ones of the same key. -/
structure Chains (text : List Byte) (b : ℕ) (s : Encoder) : Prop where
  head : ∀ k q, s.head k = some q → 1 ≤ q ∧ q < b ∧ key text q = k
  prev : ∀ q r, 1 ≤ q → q < b → s.prev q = some r → 1 ≤ r ∧ r < q ∧ key text r = key text q

variable {b : ℕ} {s : Encoder}

theorem Chains.of_tables {t : Encoder} (h : Chains text b s) (hhead : t.head = s.head)
    (hprev : t.prev = s.prev) : Chains text b t := by
  refine ⟨fun k q hq ↦ h.head k q ?_, fun q r hq hb hr ↦ h.prev q r hq hb ?_⟩
  · rw [← hhead, hq]
  · rw [← hprev, hr]

theorem Chains.insert (h : Chains text b s) (hb : 1 ≤ b) :
    Chains text (b + 1) (insert text s b) := by
  constructor
  · intro k q hq
    simp only [Lzss.insert] at hq
    by_cases hk : k = key text b
    · rw [hk, update_self, Option.some.injEq] at hq
      subst hq
      exact ⟨hb, Nat.lt_succ_self _, hk.symm⟩
    · rw [update_of_ne hk] at hq
      obtain ⟨hpos, hlt, hkey⟩ := h.head k q hq
      exact ⟨hpos, Nat.lt_succ_of_lt hlt, hkey⟩
  · intro q r hq hlt hr
    simp only [Lzss.insert] at hr
    by_cases hqb : q = b
    · rw [hqb, update_self] at hr
      rw [hqb]
      exact h.head _ r hr
    · rw [update_of_ne hqb] at hr
      exact h.prev q r hq (by omega) hr

theorem Chains.foldl_insert (hb : 1 ≤ b) (h : Chains text b s) (n : ℕ) :
    Chains text (b + n) ((List.range' b n).foldl (Lzss.insert text) s) := by
  induction n generalizing b s with
  | zero => exact h
  | succ n ih =>
    rw [List.range'_succ, List.foldl_cons, ← Nat.add_assoc, Nat.add_right_comm]
    exact ih (Nat.le_succ_of_le hb) (h.insert hb)

/-- The tables are all that a position put in changes. -/
theorem foldl_insert_eq (text : List Byte) (positions : List ℕ) (s : Encoder) :
    positions.foldl (insert text) s =
      { s with
        head := (positions.foldl (insert text) s).head
        prev := (positions.foldl (insert text) s).prev } := by
  induction positions generalizing s with
  | nil => rfl
  | cons position positions ih =>
    rw [List.foldl_cons, ih]
    rfl

section Search

variable {position limit : ℕ}

/-- From `candidate` on the text is, for `length` bytes, what it is at the position. -/
def Agrees (text : List Byte) (candidate position length : ℕ) : Prop :=
  ∀ i < length, text[candidate + i]? = text[position + i]?

theorem agrees_of_key {candidate : ℕ} (h : key text candidate = key text position) :
    Agrees text candidate position minMatch := by
  intro i hi
  have := congrArg (·[i]?) h
  simpa only [key, List.getElem?_take_of_lt hi, List.getElem?_drop] using this

theorem extend_spec {candidate : ℕ} (n : ℕ) {length : ℕ}
    (h : Agrees text candidate position length) (hlimit : length ≤ limit) :
    length ≤ extend text candidate position limit n length ∧
      extend text candidate position limit n length ≤ limit ∧
      Agrees text candidate position (extend text candidate position limit n length) := by
  induction n generalizing length with
  | zero => exact ⟨le_rfl, hlimit, h⟩
  | succ n ih =>
    rw [extend]
    split_ifs with hmore
    · obtain ⟨hlt, hsame⟩ := hmore
      have hnext : Agrees text candidate position (length + 1) := by
        intro i hi
        rcases Nat.lt_succ_iff_lt_or_eq.mp hi with hi | rfl
        · exact h i hi
        · exact hsame
      obtain ⟨hle, hrest⟩ := ih hnext hlt
      exact ⟨by omega, hrest⟩
    · exact ⟨le_rfl, hlimit, h⟩

def Sound (text : List Byte) (position limit : ℕ) (best : ℕ × ℕ) : Prop :=
  best.1 = 0 ∨ minMatch ≤ best.1 ∧ best.1 ≤ limit ∧ best.2 < position ∧
    position ≤ best.2 + maxDistance ∧ Agrees text best.2 position best.1

theorem search_sound (h : Chains text b s) (hb : b ≤ s.position) (hlimit : minMatch ≤ limit)
    (chain : ℕ) : ∀ {candidate : Option ℕ} {best : ℕ × ℕ},
      (∀ q, candidate = some q → 1 ≤ q ∧ q < b ∧ key text q = key text s.position) →
      Sound text s.position limit best →
      Sound text s.position limit (search text s limit chain candidate best) := by
  induction chain with
  | zero =>
    intro candidate best _ hbest
    cases candidate <;> exact hbest
  | succ chain ih =>
    intro candidate best hcandidate hbest
    cases candidate with
    | none => exact hbest
    | some candidate =>
      obtain ⟨hpos, hlt, hkey⟩ := hcandidate candidate rfl
      have hnext : ∀ r, s.prev candidate = some r →
          1 ≤ r ∧ r < b ∧ key text r = key text s.position := by
        intro r hr
        obtain ⟨h1, h2, h3⟩ := h.prev candidate r hpos hlt hr
        exact ⟨h1, h2.trans hlt, h3.trans hkey⟩
      rw [search]
      split_ifs with hfar hend
      · exact hbest
      · obtain ⟨hmin, hmax, hagrees⟩ := extend_spec limit (agrees_of_key hkey) hlimit
        have hfound : Sound text s.position limit
            (extend text candidate s.position limit limit minMatch, candidate) :=
          Or.inr ⟨hmin, hmax, by dsimp only; omega, by dsimp only; omega, hagrees⟩
        dsimp only
        split_ifs
        · exact hfound
        · exact ih hnext hfound
        · exact ih hnext hbest
      · exact ih hnext hbest

theorem longest_sound (h : Chains text b s) (hb : b ≤ s.position) :
    Sound text s.position (min maxMatch (text.length - s.position)) (longest text s) := by
  unfold longest
  dsimp only
  split_ifs with hlimit
  · exact search_sound h hb hlimit chainLimit (fun q hq ↦ h.head _ q hq) (Or.inl rfl)
  · exact Or.inl rfl

end Search

end Cdj2000Emulator.Flash.Lzss
