import Cdj2000Emulator.Card.Image
import Cdj2000Emulator.Library.Chains
import Mathlib.Data.List.Perm.Subperm
import Mathlib.Logic.Function.Iterate

namespace Cdj2000Emulator.Card

open Function Library.Bytes Library.Chains Library.Stateful

section Table

variable {s : Fat32} {c d value : ℕ}

theorem mask_eq : mask.toNat = 2 ^ 28 - 1 := by decide

/-- The entry of one cluster is set, the reserved bits stay. -/
theorem next_set (h : value < 2 ^ 28) : (s.set c value).next = update s.next c value := by
  funext d
  by_cases hd : d = c
  · subst hd
    have hbits : (s.fat d &&& ~~~mask ||| BitVec.ofNat 32 value) &&& mask = BitVec.ofNat 32 value &&& mask := by
      apply BitVec.eq_of_getLsbD_eq
      intro i _
      simp only [BitVec.getLsbD_and, BitVec.getLsbD_or, BitVec.getLsbD_not]
      cases mask.getLsbD i <;> simp
    rw [Fat32.next, Fat32.set, update_self]
    dsimp only
    rw [update_self, hbits, BitVec.toNat_and, BitVec.toNat_ofNat, mask_eq, Nat.and_two_pow_sub_one_eq_mod,
      Nat.mod_eq_of_lt (by omega : value < 2 ^ 32), Nat.mod_eq_of_lt h]
  · rw [Fat32.next, Fat32.set, update_of_ne hd]
    dsimp only
    rw [update_of_ne hd]
    rfl

end Table

namespace Layout

variable {v : Layout} {s t : Fat32} {c d first count : ℕ} {l chain : List ℕ}

/-- `first` starts a chain of the volume that ends as it must. -/
def Chain (v : Layout) (s : Fat32) (first : ℕ) (l : List ℕ) : Prop :=
  Linked v.Inside (endMark ≤ ·) s.next first l

theorem Chain.inside (h : v.Chain s first l) (hc : c ∈ l) : v.Inside c := (Linked.inside_of_mem h hc).1

theorem Chain.length_le (h : v.Chain s first l) : l.length ≤ v.clusters := by
  have hsub : l ⊆ List.range' 2 v.clusters := by
    intro c hc
    have := h.inside hc
    rw [Inside] at this
    rw [List.mem_range'_1]
    omega
  have hle := (List.Nodup.subperm h.nodup hsub).length_le
  rwa [List.length_range'] at hle

theorem Chain.next_ne (h : v.Chain s first l) (hc : c ∈ l) : s.next c ≠ 0 := by
  rcases Linked.next_of_mem h hc with hmem | hend
  · have := h.inside hmem
    rw [Inside] at this
    omega
  · rw [endMark] at hend
    omega

theorem follow_of_linked {next : ℕ → ℕ} {fuel : ℕ} (h : Linked v.Inside (endMark ≤ ·) next c l)
    (hlength : l.length ≤ fuel) : follow v.clusters next fuel c = some l := by
  induction h generalizing fuel with
  | nil hend =>
    unfold follow
    rw [if_neg (by omega)]
  | @cons c l hin hgo _ ih =>
    cases fuel with
    | zero => exact absurd hlength (by simp)
    | succ fuel =>
      unfold follow
      rw [if_pos ⟨hin.1, not_le.mp hgo⟩]
      dsimp only
      rw [if_neg (not_le.mpr hin.2), ih (Nat.le_of_succ_le_succ hlength)]
      rfl

theorem chain_eq (h : v.Chain s first l) : v.chain first s = (s, .ok l) := by
  have hfollow := follow_of_linked h (Nat.le_succ_of_le h.length_le)
  rw [chain, hfollow]

theorem readChain_eq (h : v.Chain s first l) :
    v.readChain first none s = (s, .ok (v.contents s l)) := by
  rw [readChain, Machine.bind_apply, chain_eq h]
  rfl

section Freeing

theorem foldl_set_zero (chain : List ℕ) (s : Fat32) :
    (chain.foldl (fun s cluster ↦ s.set cluster 0) s).image = s.image ∧
    (chain.foldl (fun s cluster ↦ s.set cluster 0) s).hint = s.hint ∧
    ∀ c, (chain.foldl (fun s cluster ↦ s.set cluster 0) s).next c = if c ∈ chain then 0 else s.next c := by
  induction chain generalizing s with
  | nil => exact ⟨rfl, rfl, fun c ↦ rfl⟩
  | cons d chain ih =>
    obtain ⟨himage, hhint, hnext⟩ := ih (s.set d 0)
    refine ⟨himage, hhint, fun c ↦ ?_⟩
    rw [List.foldl_cons, hnext c, next_set (by decide)]
    by_cases hc : c = d
    · subst hc
      rw [update_self, if_pos List.mem_cons_self]
      split_ifs <;> rfl
    · rw [update_of_ne hc]
      simp [hc]

theorem free_eq (h : v.Chain s first l) :
    v.free first s = (l.foldl (fun s cluster ↦ s.set cluster 0) s, .ok ()) := by
  rw [free, Machine.bind_apply, chain_eq h]
  rfl

end Freeing

section Allocating

theorem after_inside (hc : v.Inside c) : v.Inside (v.after c) := by
  rw [Inside] at hc
  rw [after]
  split_ifs with hlast
  · exact ⟨by omega, hlast⟩
  · exact ⟨le_rfl, by omega⟩

theorem after_iterate (hc : v.Inside c) (j : ℕ) : v.after^[j] c = 2 + (c - 2 + j) % v.clusters := by
  rw [Inside] at hc
  induction j with
  | zero =>
    rw [iterate_zero_apply, Nat.add_zero, Nat.mod_eq_of_lt (by omega)]
    omega
  | succ j ih =>
    have hlt : (c - 2 + j) % v.clusters < v.clusters := Nat.mod_lt _ (by omega)
    have hstep : (c - 2 + (j + 1)) % v.clusters = ((c - 2 + j) % v.clusters + 1) % v.clusters := by
      rw [← Nat.add_assoc, Nat.mod_add_mod]
    rw [iterate_succ_apply', ih, hstep, after]
    generalize (c - 2 + j) % v.clusters = r at hlt
    split_ifs with hmore
    · have hless : r + 1 < v.clusters := by omega
      rw [Nat.mod_eq_of_lt hless]
      omega
    · have hlast : r + 1 = v.clusters := by omega
      rw [hlast, Nat.mod_self]

theorem after_iterate_ne (hc : v.Inside c) {j : ℕ} (hj : j + 1 < v.clusters) : v.after^[j + 1] c ≠ c := by
  rw [after_iterate hc]
  rw [Inside] at hc
  intro heq
  rcases Nat.lt_or_ge (c - 2 + (j + 1)) v.clusters with hless | hmore
  · rw [Nat.mod_eq_of_lt hless] at heq
    omega
  · rw [Nat.mod_eq_sub_mod hmore, Nat.mod_eq_of_lt (by omega)] at heq
    omega

/-- Free clusters, each once. -/
structure Fresh (v : Layout) (s : Fat32) (chain : List ℕ) : Prop where
  nodup : chain.Nodup
  free : ∀ c ∈ chain, v.Inside c ∧ s.next c = 0

theorem scan_fresh {left cluster : ℕ} (hleft : left ≤ v.clusters) (hcluster : v.Inside cluster)
    (h : v.Fresh s chain) (hahead : ∀ c ∈ chain, ∀ j < left, v.after^[j] cluster ≠ c)
    (hcount : chain.length ≤ count) :
    v.Fresh s (v.scan s count left cluster chain) ∧ (v.scan s count left cluster chain).length ≤ count := by
  induction left generalizing cluster chain with
  | zero => exact ⟨h, hcount⟩
  | succ left ih =>
    rw [scan]
    split_ifs with hdone hfree
    · exact ⟨h, hcount⟩
    · refine ih (by omega) (after_inside hcluster) ⟨?_, ?_⟩ ?_ ?_
      · rw [List.nodup_append]
        refine ⟨h.nodup, List.nodup_singleton _, fun c hc d hd heq ↦ ?_⟩
        rw [List.mem_singleton] at hd
        exact hahead c hc 0 (Nat.zero_lt_succ _) (by rw [heq, hd]; rfl)
      · intro c hc
        rcases List.mem_append.mp hc with hold | hnew
        · exact h.free c hold
        · rw [List.mem_singleton] at hnew
          exact hnew ▸ ⟨hcluster, hfree⟩
      · intro c hc j hj
        rw [← iterate_succ_apply]
        rcases List.mem_append.mp hc with hold | hnew
        · exact hahead c hold (j + 1) (Nat.succ_lt_succ hj)
        · rw [List.mem_singleton] at hnew
          rw [hnew]
          exact after_iterate_ne hcluster (by omega)
      · rw [List.length_append, List.length_singleton]
        omega
    · refine ih (by omega) (after_inside hcluster) h (fun c hc j hj ↦ ?_) hcount
      rw [← iterate_succ_apply]
      exact hahead c hc (j + 1) (Nat.succ_lt_succ hj)

theorem link_cons_cons (a b : ℕ) (rest : List ℕ) (s : Fat32) :
    link (a :: b :: rest) s = link (b :: rest) (s.set a b) := rfl

theorem link_eq (hchain : ∀ c ∈ chain, c < 2 ^ 28) (hnodup : chain.Nodup) (s : Fat32) :
    (link chain s).image = s.image ∧ (link chain s).hint = s.hint ∧
    (∀ c ∉ chain, (link chain s).next c = s.next c) ∧
    ∀ (i a b : ℕ), chain[i]? = some a → chain[i + 1]? = some b → (link chain s).next a = b := by
  induction chain generalizing s with
  | nil => exact ⟨rfl, rfl, fun _ _ ↦ rfl, fun i a b ha ↦ absurd ha (by simp)⟩
  | cons a chain ih =>
    cases chain with
    | nil => exact ⟨rfl, rfl, fun _ _ ↦ rfl, fun i x y _ hy ↦ absurd hy (by simp)⟩
    | cons b rest =>
      rw [List.nodup_cons] at hnodup
      obtain ⟨himage, hhint, hout, hin⟩ :=
          ih (fun c hc ↦ hchain c (List.mem_cons_of_mem _ hc)) hnodup.2 (s.set a b)
      have hb : b < 2 ^ 28 := hchain b (by simp)
      rw [link_cons_cons]
      refine ⟨himage, hhint, fun c hc ↦ ?_, fun i x y hx hy ↦ ?_⟩
      · rw [List.mem_cons, not_or] at hc
        rw [hout c hc.2, next_set hb, update_of_ne hc.1]
      · cases i with
        | zero =>
          simp only [List.getElem?_cons_zero, Option.some.injEq, List.getElem?_cons_succ] at hx hy
          subst hx
          rw [hout a hnodup.1, next_set hb, update_self, hy]
        | succ i => exact hin i x y hx hy

/-- What `alloc` makes of the volume. -/
structure Allocated (v : Layout) (s : Fat32) (count : ℕ) (t : Fat32) (l : List ℕ) : Prop where
  length : l.length = count
  fresh : v.Fresh s l
  image : t.image = s.image
  others : ∀ c ∉ l, t.next c = s.next c
  chain : ∀ c, l.head? = some c → v.Chain t c l
  hint : v.Inside t.hint

theorem alloc_ok (hv : v.Valid) (hhint : v.Inside s.hint) (h : v.alloc count s = (t, .ok l)) :
    v.Allocated s count t l := by
  have hscan : v.Fresh s (v.scan s count v.clusters s.hint []) ∧
      (v.scan s count v.clusters s.hint []).length ≤ count :=
    scan_fresh le_rfl hhint ⟨List.nodup_nil, fun _ hc ↦ absurd hc List.not_mem_nil⟩
      (fun _ hc ↦ absurd hc List.not_mem_nil) (Nat.zero_le _)
  rw [alloc] at h
  generalize v.scan s count v.clusters s.hint [] = chain at hscan h
  obtain ⟨hfresh, hlength⟩ := hscan
  dsimp only at h
  split_ifs at h with hshort
  · cases h
  · have hcount : chain.length = count := by omega
    cases hlast : chain.getLast? with
    | none =>
      simp only [hlast, Prod.mk.injEq, Except.ok.injEq] at h
      obtain ⟨rfl, rfl⟩ := h
      rw [List.getLast?_eq_none_iff] at hlast
      subst hlast
      exact ⟨hcount, hfresh, rfl, fun _ _ ↦ rfl, fun c hc ↦ absurd hc (by simp), hhint⟩
    | some last =>
      simp only [hlast, Prod.mk.injEq, Except.ok.injEq] at h
      obtain ⟨rfl, rfl⟩ := h
      have hsmall : ∀ c ∈ chain, c < 2 ^ 28 := by
        intro c hc
        have hin := (hfresh.free c hc).1
        have := hv.few
        rw [Inside] at hin
        rw [endMark] at this
        omega
      obtain ⟨himage, -, hout, hlinks⟩ := link_eq hsmall hfresh.nodup s
      have hmem : last ∈ chain := List.mem_of_getLast? hlast
      have hnext : ((link chain s).set last mask.toNat).next = update (link chain s).next last mask.toNat :=
        next_set (by decide)
      refine ⟨hcount, hfresh, himage, fun c hc ↦ ?_, fun c hc ↦ ?_, ?_⟩
      · have hne : c ≠ last := fun heq ↦ hc (heq ▸ hmem)
        exact (congrFun hnext c).trans ((update_of_ne hne _ _).trans (hout c hc))
      · have hinside : ∀ d ∈ chain, v.Inside d ∧ ¬endMark ≤ d := by
          intro d hd
          have hin := (hfresh.free d hd).1
          have := hv.few
          rw [Inside] at hin
          exact ⟨hin, by omega⟩
        cases chain with
        | nil => cases hc
        | cons first rest =>
          rw [List.head?_cons, Option.some.injEq] at hc
          subst hc
          have hend := List.getLast?_eq_some_getLast (List.cons_ne_nil first rest)
          rw [hlast, Option.some.injEq] at hend
          refine Linked.of_links hinside (fun i a b ha hb ↦ ?_) ?_
          · have hne : a ≠ last := by
              obtain ⟨hi, hai⟩ := List.getElem?_eq_some_iff.mp ha
              obtain ⟨hi', -⟩ := List.getElem?_eq_some_iff.mp hb
              rw [List.getLast_eq_getElem] at hend
              intro heq
              have hsame := hfresh.nodup.getElem_inj_iff.mp ((hai.trans heq).trans hend)
              omega
            exact (congrFun hnext a).trans ((update_of_ne hne _ _).trans (hlinks i a b ha hb))
          · rw [← hend]
            have hset : ((link (first :: rest) s).set last mask.toNat).next last = mask.toNat :=
              (congrFun hnext last).trans (update_self _ _ _)
            exact (by decide : endMark ≤ mask.toNat).trans hset.ge
      · exact after_inside (hfresh.free last hmem).1

end Allocating

end Layout

end Cdj2000Emulator.Card
