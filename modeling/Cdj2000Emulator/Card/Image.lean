import Cdj2000Emulator.Card.Fat32

namespace Cdj2000Emulator.Card

open Function Library.Bytes

section Raw

variable {image image' : ℕ → Byte} {offset size o : ℕ} {data : List Byte}

@[simp] theorem length_readAt : (readAt image offset size).length = size := by
  rw [readAt, List.length_map, List.length_range]

theorem readAt_congr (h : ∀ i < size, image' (offset + i) = image (offset + i)) :
    readAt image' offset size = readAt image offset size :=
  List.map_congr_left fun i hi ↦ h i (List.mem_range.mp hi)

theorem readAt_writeAt_apart (h : offset + size ≤ o ∨ o + data.length ≤ offset) :
    readAt (writeAt o data image) offset size = readAt image offset size := by
  refine readAt_congr fun i hi ↦ if_neg ?_
  omega

theorem readAt_writeAt_self : readAt (writeAt offset data image) offset data.length = data := by
  refine List.ext_getElem length_readAt fun i hi hi' ↦ ?_
  have hin : offset ≤ offset + i ∧ offset + i < offset + data.length := by omega
  simp only [readAt, List.getElem_map, List.getElem_range, writeAt, if_pos hin]
  rw [Nat.add_sub_cancel_left, List.getD_eq_getElem?_getD, List.getElem?_eq_getElem hi', Option.getD_some]

end Raw

/-- The parts of a volume lie apart, the clusters after the others. -/
structure Layout.Valid (v : Layout) : Prop where
  cluster_pos : 0 < v.cluster
  entries : 2 * entrySize ∣ v.cluster
  few : v.clusters + 2 ≤ endMark
  root : 2 ≤ v.root ∧ v.root < v.clusters + 2
  fats : ∀ o ∈ v.fatOffsets, o + 4 * (v.clusters + 2) ≤ v.data
  fats_apart : v.fatOffsets.Pairwise fun o o' ↦
    o + 4 * (v.clusters + 2) ≤ o' ∨ o' + 4 * (v.clusters + 2) ≤ o
  fsinfo : v.fsinfo + 512 ≤ v.data
  info_apart : ∀ o ∈ v.fatOffsets, v.fsinfo + 512 ≤ o ∨ o + 4 * (v.clusters + 2) ≤ v.fsinfo

namespace Layout

variable {v : Layout} {s t : Fat32} {c d : ℕ} {chain l : List ℕ} {data : List Byte}

def Inside (v : Layout) (c : ℕ) : Prop := 2 ≤ c ∧ c < v.clusters + 2

theorem offset_apart (hc : 2 ≤ c) (hd : 2 ≤ d) (hne : c ≠ d) :
    v.offset c + v.cluster ≤ v.offset d ∨ v.offset d + v.cluster ≤ v.offset c := by
  have hstep : ∀ {a b : ℕ}, 2 ≤ a → a < b → v.offset a + v.cluster ≤ v.offset b := by
    intro a b ha hab
    have hmul : (a - 2 + 1) * v.cluster ≤ (b - 2) * v.cluster :=
      Nat.mul_le_mul_right _ (by omega)
    rw [Nat.add_one_mul] at hmul
    simp only [offset]
    omega
  rcases Nat.lt_or_gt_of_ne hne with hless | hmore
  · exact Or.inl (hstep hc hless)
  · exact Or.inr (hstep hd hmore)

@[simp] theorem contents_nil : v.contents s [] = [] := rfl

theorem contents_cons : v.contents s (c :: l) =
    readAt s.image (v.offset c) v.cluster ++ v.contents s l := rfl

theorem contents_congr (h : ∀ c ∈ l, readAt t.image (v.offset c) v.cluster =
    readAt s.image (v.offset c) v.cluster) : v.contents t l = v.contents s l := by
  induction l with
  | nil => rfl
  | cons c l ih =>
    rw [contents_cons, contents_cons, h c List.mem_cons_self,
      ih fun d hd ↦ h d (List.mem_cons_of_mem _ hd)]

theorem length_contents (s : Fat32) (l : List ℕ) : (v.contents s l).length = l.length * v.cluster := by
  induction l with
  | nil => rw [contents_nil, List.length_nil, List.length_nil, Nat.zero_mul]
  | cons c l ih =>
    rw [contents_cons, List.length_append, length_readAt, ih, List.length_cons, Nat.succ_mul,
      Nat.add_comm]

section Writing

/-- The rest of `write_chain`, from one of its clusters on. -/
def writeFrom (v : Layout) (data : List Byte) (i : ℕ) (chain : List ℕ) (s : Fat32) : Fat32 :=
  (chain.zipIdx i).foldl (fun s (cluster, i) ↦
    s.write (v.offset cluster) ((data.drop (i * v.cluster)).take v.cluster)) s

theorem writeFrom_cons (i : ℕ) : v.writeFrom data i (c :: chain) s =
    v.writeFrom data (i + 1) chain (s.write (v.offset c) ((data.drop (i * v.cluster)).take v.cluster)) := rfl

theorem writeChain_eq (chain : List ℕ) (data : List Byte) (s : Fat32) :
    v.writeChain chain data s = v.writeFrom (ljust (chain.length * v.cluster) 0 data) 0 chain s := rfl

theorem writeFrom_table (data : List Byte) (i : ℕ) (chain : List ℕ) (s : Fat32) :
    (v.writeFrom data i chain s).fat = s.fat ∧ (v.writeFrom data i chain s).hint = s.hint := by
  induction chain generalizing i s with
  | nil => exact ⟨rfl, rfl⟩
  | cons c chain ih => exact ih _ _

theorem writeFrom_apart (data : List Byte) (i : ℕ) {o size : ℕ}
    (h : ∀ c ∈ chain, o + size ≤ v.offset c ∨ v.offset c + v.cluster ≤ o) :
    readAt (v.writeFrom data i chain s).image o size = readAt s.image o size := by
  induction chain generalizing i s with
  | nil => rfl
  | cons c chain ih =>
    rw [writeFrom_cons, ih _ fun d hd ↦ h d (List.mem_cons_of_mem _ hd)]
    refine readAt_writeAt_apart ((h c List.mem_cons_self).imp_right fun hafter ↦ ?_)
    have : ((data.drop (i * v.cluster)).take v.cluster).length ≤ v.cluster := List.length_take_le _ _
    omega

theorem contents_writeFrom (hnodup : chain.Nodup) (hin : ∀ c ∈ chain, 2 ≤ c) (i : ℕ)
    (hlength : (i + chain.length) * v.cluster ≤ data.length) :
    v.contents (v.writeFrom data i chain s) chain =
      (data.drop (i * v.cluster)).take (chain.length * v.cluster) := by
  induction chain generalizing i s with
  | nil => rw [contents_nil, List.length_nil, Nat.zero_mul, List.take_zero]
  | cons c chain ih =>
    rw [List.nodup_cons] at hnodup
    have hrest : ∀ d ∈ chain, 2 ≤ d := fun d hd ↦ hin d (List.mem_cons_of_mem _ hd)
    have hlength' : (i + 1 + chain.length) * v.cluster ≤ data.length := by
      rw [List.length_cons, Nat.add_comm chain.length, ← Nat.add_assoc] at hlength
      exact hlength
    have hpiece : ((data.drop (i * v.cluster)).take v.cluster).length = v.cluster := by
      rw [List.length_take, List.length_drop]
      rw [Nat.add_right_comm, Nat.add_one_mul, Nat.add_mul] at hlength'
      omega
    have hapart : ∀ d ∈ chain, v.offset c + v.cluster ≤ v.offset d ∨ v.offset d + v.cluster ≤ v.offset c := by
      intro d hd
      refine offset_apart (hin c List.mem_cons_self) (hrest d hd) ?_
      rintro rfl
      exact hnodup.1 hd
    have hfirst : readAt (v.writeFrom data i (c :: chain) s).image (v.offset c) v.cluster =
        (data.drop (i * v.cluster)).take v.cluster := by
      rw [writeFrom_cons, writeFrom_apart _ _ hapart]
      have hread : ∀ piece : List Byte, piece.length = v.cluster →
          readAt (writeAt (v.offset c) piece s.image) (v.offset c) v.cluster = piece := by
        intro piece hsize
        rw [← hsize]
        exact readAt_writeAt_self
      exact hread _ hpiece
    have hsum : (c :: chain).length * v.cluster = v.cluster + chain.length * v.cluster := by
      rw [List.length_cons, Nat.add_one_mul, Nat.add_comm]
    rw [contents_cons, hfirst, writeFrom_cons, ih hnodup.2 hrest (i + 1) hlength', hsum, List.take_add,
      List.drop_drop, Nat.add_one_mul]

end Writing

theorem writeChain_table (chain : List ℕ) (data : List Byte) (s : Fat32) :
    (v.writeChain chain data s).fat = s.fat ∧ (v.writeChain chain data s).hint = s.hint :=
  writeFrom_table _ _ _ _

theorem writeChain_next (chain : List ℕ) (data : List Byte) (s : Fat32) :
    (v.writeChain chain data s).next = s.next := by
  funext c
  rw [Fat32.next, Fat32.next, (writeChain_table chain data s).1]

theorem contents_writeChain (hnodup : chain.Nodup) (hin : ∀ c ∈ chain, 2 ≤ c)
    (hdata : data.length ≤ chain.length * v.cluster) :
    v.contents (v.writeChain chain data s) chain = ljust (chain.length * v.cluster) 0 data := by
  have hlength : (ljust (chain.length * v.cluster) (0 : Byte) data).length = chain.length * v.cluster := by
    rw [length_ljust, max_eq_left hdata]
  rw [writeChain_eq, contents_writeFrom hnodup hin 0 (by rw [Nat.zero_add, hlength]), Nat.zero_mul,
    List.drop_zero, List.take_of_length_le hlength.le]

theorem readAt_writeChain_apart (hin : ∀ c ∈ chain, 2 ≤ c) (hd : 2 ≤ d) (hapart : d ∉ chain) :
    readAt (v.writeChain chain data s).image (v.offset d) v.cluster = readAt s.image (v.offset d) v.cluster := by
  rw [writeChain_eq]
  refine writeFrom_apart _ _ fun c hc ↦ offset_apart hd (hin c hc) ?_
  rintro rfl
  exact hapart hc

end Layout

end Cdj2000Emulator.Card
