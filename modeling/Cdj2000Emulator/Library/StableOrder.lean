import Mathlib.Data.List.DropRight
import Mathlib.Order.Lattice
import Mathlib.Data.List.Basic
import Mathlib.Tactic.SplitIfs

namespace Cdj2000Emulator.Library.StableOrder

variable {α κ : Type} [LinearOrder κ] {key : α → κ}

/-- `s` is `l` in the order of the keys, and equal keys stay in the order of `l`. -/
structure StableSort (key : α → κ) (l s : List α) : Prop where
  sorted : s.Pairwise fun a b ↦ key a ≤ key b
  stable : ∀ k, s.filter (key · = k) = l.filter (key · = k)

def insertBehind (key : α → κ) (x : α) (s : List α) : List α :=
  s.rdropWhile (key x < key ·) ++ x :: s.rtakeWhile (key x < key ·)

variable {x : α} {l s t : List α}

theorem insertBehind_of_le (h : ∀ y ∈ s, key y ≤ key x) : insertBehind key x s = s ++ [x] := by
  have hdrop : s.rdropWhile (key x < key ·) = s := by
    rw [List.rdropWhile_eq_self_iff]
    intro hne
    simpa using h _ (List.getLast_mem hne)
  have htake : s.rtakeWhile (key x < key ·) = [] := by
    rw [List.rtakeWhile_eq_nil_iff]
    intro hne
    simpa using h _ (List.getLast_mem hne)
  rw [insertBehind, hdrop, htake]

theorem insertBehind_concat (y : α) :
    insertBehind key x (s ++ [y]) =
      if key x < key y then insertBehind key x s ++ [y] else s ++ [y] ++ [x] := by
  unfold insertBehind
  rw [List.rdropWhile_concat, List.rtakeWhile_concat]
  by_cases hy : key x < key y <;> simp [hy]

/-- Elements with keys not greater are passed by. -/
theorem insertBehind_append (h : ∀ y ∈ s, key y ≤ key x) :
    insertBehind key x (s ++ t) = s ++ insertBehind key x t := by
  induction t using List.reverseRecOn with
  | nil =>
    rw [List.append_nil, insertBehind_of_le h]
    rfl
  | append_singleton t y ih =>
    rw [← List.append_assoc, insertBehind_concat, insertBehind_concat, ih]
    split_ifs <;> simp

theorem mem_insertBehind {y : α} : y ∈ insertBehind key x s ↔ y = x ∨ y ∈ s := by
  have h : y ∈ s ↔ y ∈ s.rdropWhile (key x < key ·) ∨ y ∈ s.rtakeWhile (key x < key ·) := by
    rw [← List.mem_append, List.rdropWhile_append_rtakeWhile]
  rw [insertBehind, List.mem_append, List.mem_cons, h]
  tauto

/-- What is left of a sorted list once everything up to `c` has been taken is past `c`. -/
theorem lt_of_mem_dropWhile {c : κ} (hs : s.Pairwise fun a b ↦ key a ≤ key b) {y : α}
    (hy : y ∈ s.dropWhile (key · ≤ c)) : c < key y := by
  induction s with
  | nil => simp at hy
  | cons a s ih =>
    obtain ⟨ha, hs⟩ := List.pairwise_cons.mp hs
    by_cases hc : key a ≤ c
    · rw [List.dropWhile_cons_of_pos (by simpa using hc)] at hy
      exact ih hs hy
    · rw [List.dropWhile_cons_of_neg (by simpa using hc)] at hy
      rcases List.mem_cons.mp hy with rfl | hy
      · exact not_le.mp hc
      · exact (not_le.mp hc).trans_le (ha y hy)

namespace StableSort

theorem nil : StableSort key [] [] := ⟨.nil, fun _ ↦ rfl⟩

/-- In a sorted list everything before an element not greater than `x` is not greater. -/
theorem le_of_mem_rdropWhile (hs : s.Pairwise fun a b ↦ key a ≤ key b) {y : α}
    (hy : y ∈ s.rdropWhile (key x < key ·)) : key y ≤ key x := by
  induction s using List.reverseRecOn with
  | nil => simp at hy
  | append_singleton s z ih =>
    obtain ⟨h1, -, h3⟩ := List.pairwise_append.mp hs
    by_cases hz : key x < key z
    · rw [List.rdropWhile_concat, if_pos (by simpa using hz)] at hy
      exact ih h1 hy
    · rw [List.rdropWhile_concat, if_neg (by simpa using hz)] at hy
      rcases List.mem_append.mp hy with hy | hy
      · exact (h3 y hy z (by simp)).trans (not_lt.mp hz)
      · obtain rfl := List.mem_singleton.mp hy
        exact not_lt.mp hz

theorem insert (h : StableSort key l s) (x : α) :
    StableSort key (l ++ [x]) (insertBehind key x s) := by
  have hsplit : s.rdropWhile (key x < key ·) ++ s.rtakeWhile (key x < key ·) = s :=
    List.rdropWhile_append_rtakeWhile
  have hlow : ∀ y ∈ s.rdropWhile (key x < key ·), key y ≤ key x :=
    fun y hy ↦ le_of_mem_rdropWhile h.sorted hy
  have hhigh : ∀ y ∈ s.rtakeWhile (key x < key ·), key x < key y := by
    intro y hy
    simpa using List.mem_rtakeWhile_imp hy
  have hparts := h.sorted
  rw [← hsplit, List.pairwise_append] at hparts
  obtain ⟨h1, h2, h3⟩ := hparts
  refine ⟨?_, ?_⟩
  · refine List.pairwise_append.mpr ⟨h1, List.pairwise_cons.mpr ⟨?_, h2⟩, ?_⟩
    · intro y hy
      exact (hhigh y hy).le
    · intro a ha b hb
      rcases List.mem_cons.mp hb with rfl | hb
      · exact hlow a ha
      · exact h3 a ha b hb
  · intro k
    have hfilter : s.filter (key · = k) = (s.rdropWhile (key x < key ·)).filter (key · = k) ++
        (s.rtakeWhile (key x < key ·)).filter (key · = k) := by
      rw [← List.filter_append, hsplit]
    rw [List.filter_append, ← h.stable k, hfilter, insertBehind, List.filter_append,
      List.append_assoc]
    by_cases hk : key x = k
    · subst hk
      have hnone : (s.rtakeWhile (key x < key ·)).filter (key · = key x) = [] := by
        refine List.filter_eq_nil_iff.mpr fun y hy ↦ ?_
        simpa using (hhigh y hy).ne'
      rw [List.filter_cons_of_pos (by simp), hnone, List.filter_cons_of_pos (by simp)]
      rfl
    · rw [List.filter_cons_of_neg (by simpa using hk), List.filter_cons_of_neg (by simpa using hk)]
      simp

/-- Nothing is lost and nothing comes twice. -/
theorem perm (h : StableSort key l s) : s.Perm l := by
  classical
  refine List.perm_iff_count.mpr fun a ↦ ?_
  have hs : (s.filter (key · = key a)).count a = s.count a := List.count_filter (by simp)
  have hl : (l.filter (key · = key a)).count a = l.count a := List.count_filter (by simp)
  rw [← hs, ← hl, h.stable]

theorem eq_of_sorted (h : StableSort key l s) (hl : l.Pairwise fun a b ↦ key a ≤ key b) :
    s = l := by
  have key_lemma : ∀ (l s : List α), l.Pairwise (fun a b ↦ key a ≤ key b) →
      s.Pairwise (fun a b ↦ key a ≤ key b) →
      (∀ k, s.filter (key · = k) = l.filter (key · = k)) → s = l := by
    intro l
    induction l with
    | nil =>
      intro s _ _ hf
      refine List.eq_nil_iff_forall_not_mem.mpr fun a ha ↦ ?_
      have hmem : a ∈ s.filter (key · = key a) := by simp [ha]
      rw [hf] at hmem
      simp at hmem
    | cons a l ih =>
      intro s hl hs hf
      have hmem : ∀ b, b ∈ s ↔ b ∈ a :: l := by
        intro b
        have h1 : b ∈ s.filter (key · = key b) ↔ b ∈ s := by simp
        have h2 : b ∈ (a :: l).filter (key · = key b) ↔ b ∈ a :: l := by simp
        rw [← h1, hf, h2]
      cases s with
      | nil => simpa using (hmem a).mpr (by simp)
      | cons b s =>
        obtain ⟨hb, hs'⟩ := List.pairwise_cons.mp hs
        obtain ⟨ha, hl'⟩ := List.pairwise_cons.mp hl
        have hab : key a ≤ key b := by
          rcases List.mem_cons.mp ((hmem b).mp (by simp)) with rfl | h
          · exact le_rfl
          · exact ha b h
        have hba : key b ≤ key a := by
          rcases List.mem_cons.mp ((hmem a).mpr (by simp)) with rfl | h
          · exact le_rfl
          · exact hb a h
        have hkey := le_antisymm hba hab
        have hhead := hf (key a)
        rw [List.filter_cons_of_pos (by simp [hkey]), List.filter_cons_of_pos (by simp)] at hhead
        obtain ⟨rfl, -⟩ := List.cons.inj hhead
        rw [ih s hl' hs' fun k ↦ ?_]
        have hk := hf k
        by_cases hbk : key b = k
        · rw [List.filter_cons_of_pos (by simpa using hbk),
            List.filter_cons_of_pos (by simpa using hbk)] at hk
          exact (List.cons.inj hk).2
        · rwa [List.filter_cons_of_neg (by simpa using hbk),
            List.filter_cons_of_neg (by simpa using hbk)] at hk
  exact key_lemma l s hl h.sorted h.stable

/-- Everything that comes later, with keys not below what has been taken from the front. -/
theorem insertAll (h : StableSort key l (s ++ t)) (later : List α)
    (hlater : ∀ x ∈ later, ∀ y ∈ s, key y ≤ key x) :
    StableSort key (l ++ later) (s ++ later.foldl (fun t x ↦ insertBehind key x t) t) := by
  induction later generalizing l t with
  | nil => rwa [List.append_nil, List.foldl_nil]
  | cons x later ih =>
    rw [List.foldl_cons, List.append_cons]
    refine ih ?_ fun y hy ↦ hlater y (by simp [hy])
    rw [← insertBehind_append fun y hy ↦ hlater x (by simp) y hy]
    exact h.insert x

end StableSort

theorem mem_foldl_insertBehind {later : List α} {y : α} :
    y ∈ later.foldl (fun t x ↦ insertBehind key x t) t ↔ y ∈ later ∨ y ∈ t := by
  induction later generalizing t with
  | nil => simp
  | cons x later ih =>
    rw [List.foldl_cons, ih, mem_insertBehind, List.mem_cons]
    tauto

end Cdj2000Emulator.Library.StableOrder
