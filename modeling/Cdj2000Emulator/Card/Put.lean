import Cdj2000Emulator.Card.Steps

namespace Cdj2000Emulator.Card

open Function Library.Bytes Library.Chains Library.Stateful

namespace Layout

variable {v : Layout} {upper : Str → Str} {s t u : Fat32} {c d p : ℕ} {l : List ℕ} {data : List Byte}
  {name : Str} {e : Entry}

section Finding

variable {entries : List Entry}

theorem find_some (h : find upper entries name = some e) :
    e ∈ entries ∧ e.short.getD 0 0 ≠ 0x2e ∧ (upper e.name = upper name ∨ upper e.shortText = upper name) := by
  have hfound := List.find?_some h
  simp only [decide_eq_true_eq] at hfound
  exact ⟨List.mem_of_find?_eq_some h, hfound.1, hfound.2.2⟩

theorem find_none (h : ∀ e ∈ entries, e.short.getD 0 0 = 0x2e) : find upper entries name = none := by
  refine List.find?_eq_none.mpr fun e he ↦ ?_
  rw [decide_eq_true_eq]
  exact fun hmatch ↦ hmatch.1 (h e he)

theorem not_leadsBack (h : e.short.getD 0 0 ≠ 0x2e) (p d : ℕ) : ¬e.LeadsBack p d := by
  rintro ⟨-, ⟨hshort, -⟩ | ⟨hshort, -⟩⟩
  · exact h (by rw [hshort]; rfl)
  · exact h (by rw [hshort]; rfl)

end Finding

/-- The directory that a walk comes to in the volume as it is, and what it does not find there. -/
def resolve (v : Layout) (upper : Str → Str) (s : Fat32) : List Str → ℕ → ℕ × List Str
  | [], d => (d, [])
  | part :: parts, d =>
    match find upper (v.entries s d) part with
    | none => (d, part :: parts)
    | some e =>
      if e.IsDir then resolve v upper s parts (if e.cluster = 0 then v.root else e.cluster) else (d, part :: parts)

theorem dir_of_find (hd : ∃ p, v.Dir s p d) (h : find upper (v.entries s d) name = some e) (hdir : e.IsDir) :
    ∃ p, v.Dir s p (if e.cluster = 0 then v.root else e.cluster) := by
  obtain ⟨p, hd⟩ := hd
  obtain ⟨hmem, hshort, -⟩ := find_some h
  split_ifs with hroot
  · exact ⟨_, .root⟩
  · exact ⟨d, .sub hd hmem ⟨hroot, not_leadsBack hshort p d⟩ hdir⟩

section Freeing

/-- The chain of a file is not looked at any more. -/
theorem Core.forget (h : v.Sound s) (he : e ∈ v.entries s d) (hfile : ¬e.IsDir) :
    v.Core s (· ≠ some (d, e.slot)) := by
  refine ⟨h.hint, by simp, fun {p x e'} hd he' howns hdir heq ↦ ?_, fun ho _ ↦ h.chains ho trivial,
    fun ho ho' _ _ ↦ h.apart ho ho' trivial trivial⟩
  simp only [Option.some.injEq, Prod.mk.injEq] at heq
  obtain ⟨rfl, hslot⟩ := heq
  rw [slot_inj he' he hslot] at hdir
  exact hfile hdir

theorem free_ok (hs : v.Sound s) (hd : v.Dir s p d) (he : e ∈ v.entries s d) (howns : e.Owns p d)
    (hfile : ¬e.IsDir) :
    ∃ t, v.free e.cluster s = (t, .ok ()) ∧ t.image = s.image ∧ v.Core t (· ≠ some (d, e.slot)) ∧
      v.Kept s t (· ≠ some (d, e.slot)) d ∧ v.entries t d = v.entries s d ∧
      ∀ x, t.next x = if x ∈ v.clustersFrom s e.cluster then 0 else s.next x := by
  have howner := Owner.entry hd he howns
  obtain ⟨-, l, hl⟩ := hs.chains howner trivial
  obtain ⟨himage, hhint, hnext⟩ := foldl_set_zero l s
  have hcore := Core.forget hs he hfile
  have hsame : ∀ {o c}, v.Owner s o c → o ≠ some (d, e.slot) →
      v.Untouched s (l.foldl (fun s cluster ↦ s.set cluster 0) s) c := by
    intro o c ho hk x hx
    have hout : x ∉ l := by
      rw [← hl.clustersFrom]
      exact hs.apart ho howner trivial trivial hk x hx
    exact ⟨by rw [hnext, if_neg hout], by rw [himage]⟩
  obtain ⟨hcore', hkept, -⟩ := hcore.frame (hhint ▸ hs.hint) hsame d
  obtain ⟨o, ho, hk⟩ := hcore.owner hd
  obtain ⟨-, l', hl'⟩ := hcore.chains ho hk
  refine ⟨_, free_eq hl, himage, hcore', hkept, (hsame ho hk).entries hl', ?_⟩
  rw [hl.clustersFrom]
  exact hnext

end Freeing

section MakingDirectories

variable {n target : ℕ}

theorem dotEntry_spec (slot : ℕ) (hn : n = 1 ∨ n = 2) (htarget : target < 2 ^ 28) :
    (dotEntry n target).length = entrySize ∧ Live (dotEntry n target) ∧
    (entryAt slot (dotEntry n target) []).short = dots n ∧
    (entryAt slot (dotEntry n target) []).cluster = target ∧ (entryAt slot (dotEntry n target) []).attr = 0x10 := by
  obtain ⟨short, hshort, hlength, hdots, hfirst⟩ : ∃ short, dotEntry n target = shortEntry short 0x10 target 0 ∧
      short.length = 11 ∧ short = dots n ∧ short.getD 0 0 = 0x2e := by
    rcases hn with rfl | rfl
    · exact ⟨_, rfl, rfl, by decide, rfl⟩
    · exact ⟨_, rfl, rfl, by decide, rfl⟩
  have hpacks : packs target 0 := ⟨by rw [Nat.shiftRight_eq_div_pow]; omega, by decide⟩
  have hfields : (shortEntry short 0x10 target 0).take 11 = short ∧ _ := shortEntry_eq hlength
  obtain ⟨htake, hzero, hattr, hhigh, hlow, -⟩ := hfields
  rw [hshort]
  refine ⟨length_shortEntry hlength, ?_, ?_, ?_, hattr⟩
  · rw [Live, hzero, hattr, hfirst]
    decide
  · rw [entryAt]
    dsimp only
    rw [hzero, hfirst, htake, if_neg (by decide), hdots]
  · rw [entryAt]
    dsimp only
    rw [hhigh, hlow, lead_of_packs hpacks]

/-- A new directory holds the two entries that lead back. -/
theorem entries_dots {up : ℕ} (hv : v.Valid) (hchain : v.Chain s c [c]) (hc : c < 2 ^ 28) (hup : up < 2 ^ 28) :
    v.entries (v.writeChain [c] (dotEntry 1 c ++ dotEntry 2 up) s) c =
      [entryAt 0 (dotEntry 1 c) [], entryAt 1 (dotEntry 2 up) []] := by
  obtain ⟨hlength, hlive, -⟩ := dotEntry_spec 0 (Or.inl rfl) hc
  obtain ⟨hlength', hlive', -⟩ := dotEntry_spec 1 (Or.inr rfl) hup
  obtain ⟨m, hm⟩ := hv.entries
  have hpos := hv.cluster_pos
  rw [hm] at hpos
  have hm₀ : 0 < m := Nat.pos_of_mul_pos_left hpos
  have hwhole : Whole (dotEntry 1 c :: dotEntry 2 up ::
      List.replicate (2 * (m - 1)) (List.replicate entrySize (0 : Byte))) := by
    refine List.forall_mem_cons.mpr ⟨hlength, List.forall_mem_cons.mpr ⟨hlength', fun raw hraw ↦ ?_⟩⟩
    rw [List.eq_of_mem_replicate hraw, List.length_replicate]
  have hsize : (dotEntry 1 c :: dotEntry 2 up ::
      List.replicate (2 * (m - 1)) (List.replicate entrySize (0 : Byte))).length * entrySize =
        [c].length * v.cluster := by
    rw [List.length_cons, List.length_cons, List.length_replicate, List.length_singleton, Nat.one_mul, hm, entrySize]
    omega
  have hdata : v.writeChain [c] (dotEntry 1 c ++ dotEntry 2 up) s = v.writeChain [c] (dotEntry 1 c :: dotEntry 2 up ::
      List.replicate (2 * (m - 1)) (List.replicate entrySize (0 : Byte))).flatten s := by
    have hflat := length_flatten hwhole
    rw [hsize] at hflat
    have hgap : 2 * (m - 1) * entrySize = [c].length * v.cluster - (dotEntry 1 c ++ dotEntry 2 up).length := by
      rw [List.length_append, hlength, hlength', List.length_singleton, Nat.one_mul, hm, entrySize]
      omega
    rw [writeChain_eq, writeChain_eq, ljust, ljust, hflat, Nat.sub_self, List.replicate_zero, List.append_nil,
      List.flatten_cons, List.flatten_cons, List.flatten_replicate_replicate, hgap, List.append_assoc]
  have hrest : scanSlots 2 [] ([] ++ List.replicate (2 * (m - 1)) (List.replicate entrySize (0 : Byte))) = [] :=
    scanSlots_zeros fun raw hraw ↦ by rw [List.eq_of_mem_replicate hraw]; rfl
  rw [List.nil_append] at hrest
  rw [hdata, entries_writeChain hchain hwhole hsize, scanSlots_live hlive, scanSlots_live hlive', hrest]

/-- What `mkdir` leaves. -/
structure Made (v : Layout) (s t : Fat32) (d c : ℕ) : Prop where
  moves : v.Moves s t (fun _ ↦ True) d
  dir : v.Dir t d c
  fresh : s.next c = 0
  dots : ∀ e ∈ v.entries t c, e.short.getD 0 0 = 0x2e

theorem mkdir_ok (hs : v.Sound s) (hv : v.Valid) (hupper : ∀ text, 0 ∉ text → 0 ∉ upper text)
    (hname : 0 ∉ name)
    (hd : v.Dir s p d) (h : v.mkdir upper d name s = (t, .ok c)) : v.Made s t d c := by
  rw [mkdir] at h
  obtain ⟨chain, s₁, halloc, h⟩ := Machine.bind_ok.mp h
  have hnew := alloc_ok hv hs.hint halloc
  obtain ⟨x, rfl⟩ := List.length_eq_one_iff.mp hnew.length
  rw [List.head?_cons] at h
  dsimp only at h
  obtain ⟨hmoves₁, hspare₁⟩ := Core.alloc (A := d) hs hv halloc
  rw [Machine.bind_apply, Machine.modify_apply] at h
  dsimp only at h
  obtain ⟨_, s₃, hadd, h⟩ := Machine.bind_ok.mp h
  rw [Machine.pure_apply, Prod.mk.injEq, Except.ok.injEq] at h
  obtain ⟨rfl, rfl⟩ := h
  have hin : v.Inside x := hspare₁.inside List.mem_cons_self
  have hsmall : ∀ y, v.Inside y → y < 2 ^ 28 := by
    intro y hy
    have := hv.few
    rw [Inside] at hy
    rw [endMark] at this
    omega
  obtain ⟨o, ho, -⟩ := hs.owner hd
  have hdin := (hs.chains ho trivial).1
  have hup : (if d = v.root then 0 else d) < 2 ^ 28 := by
    split_ifs
    · decide
    · exact hsmall d hdin
  have hchain₁ : v.Chain s₁ x [x] := hspare₁.chain x rfl
  have hdots := entries_dots hv hchain₁ (hsmall x hin) hup
  have hwrite : v.Moves s₁ (v.writeChain [x] (dotEntry 1 x ++ dotEntry 2 (if d = v.root then 0 else d)) s₁)
      (fun _ ↦ True) d ∧ _ := hmoves₁.core.write hspare₁
  obtain ⟨hmoves₂, hspare₂⟩ := hwrite
  have hx : x ≠ 0 := by
    rw [Inside] at hin
    omega
  obtain ⟨-, -, hshort, hcluster, hattr⟩ := dotEntry_spec 0 (Or.inl rfl) (hsmall x hin)
  obtain ⟨-, -, hshort', hcluster', hattr'⟩ := dotEntry_spec 1 (Or.inr rfl) hup
  have hleaf : ∀ e ∈ v.entries (v.writeChain [x] (dotEntry 1 x ++ dotEntry 2 (if d = v.root then 0 else d)) s₁) x,
      ¬e.Owns d x := by
    rw [hdots]
    rintro e he ⟨hne, hback⟩
    rcases List.mem_cons.mp he with rfl | he
    · exact hback ⟨by rw [Entry.IsDir, hattr]; decide, Or.inl ⟨hshort, hcluster⟩⟩
    · rw [List.mem_singleton.mp he] at hne hback
      rw [hcluster'] at hne
      refine hback ⟨by rw [Entry.IsDir, hattr']; decide, Or.inr ⟨hshort', ?_⟩⟩
      rw [hcluster']
      exact if_neg fun hroot ↦ hne (if_pos hroot)
  have hd₂ := hmoves₂.kept.dirs (hmoves₁.kept.dirs hd)
  obtain ⟨e₀, hadded⟩ := addEntry_ok hmoves₂.core hv hupper hname hd₂ (by decide) hspare₂ (fun _ ↦ rfl)
    (fun _ ↦ hleaf) hadd
  obtain ⟨hlead, hattr₀, -⟩ := hadded.lead
  have hfree : s.next x = 0 := (hnew.fresh.free x List.mem_cons_self).2
  have hother : ∀ {q y}, v.Dir s q y → x ≠ y := by
    rintro q y hy rfl
    exact hs.used hv hy hfree
  refine ⟨(hmoves₁.trans hs hmoves₂ fun _ _ hc ↦ hc).trans hs hadded.moves fun _ _ hc ↦ hc, ?_, hfree, ?_⟩
  · obtain ⟨q, hp⟩ := hd.parent
    have howns : e₀.Owns p d := by
      refine ⟨hlead ▸ hx, ?_⟩
      rintro ⟨-, ⟨-, heq⟩ | ⟨-, heq⟩⟩
      · exact hother hd (hlead.symm.trans heq)
      · exact hother hp (hlead.symm.trans heq)
    have hnewdir := Dir.sub (hadded.moves.kept.dirs hd₂) ((hadded.mem_iff e₀).mpr (Or.inl rfl)) howns
      (by rw [Entry.IsDir, hattr₀]; decide)
    rwa [hlead] at hnewdir
  · rw [(hadded.untouched hx).entries (hspare₂.chain x rfl), hdots]
    intro e he
    rcases List.mem_cons.mp he with rfl | he
    · rw [hshort]
      rfl
    · rw [List.mem_singleton.mp he, hshort']
      rfl

end MakingDirectories

section Walking

variable {part : Str} {parts : List Str} {r : ℕ}

/-- A walk that creates what it misses: the directory that it comes to is the one that is there, or a new one. -/
structure Walked (v : Layout) (upper : Str → Str) (s t : Fat32) (parts : List Str) (d r : ℕ) : Prop where
  moves : v.Moves s t (fun _ ↦ True) (v.resolve upper s parts d).1
  dir : ∃ p, v.Dir t p r
  reached : (v.resolve upper s parts d).2 = [] ∧ t = s ∧ r = (v.resolve upper s parts d).1 ∨
    (v.resolve upper s parts d).2 ≠ [] ∧ s.next r = 0 ∧ ∀ e ∈ v.entries t r, e.short.getD 0 0 = 0x2e

theorem walk_ok (hv : v.Valid) (hupper : ∀ text, 0 ∉ text → 0 ∉ upper text)
    (hparts : ∀ part ∈ parts, 0 ∉ part)
    (hs : v.Sound s) (hd : ∃ p, v.Dir s p d) (h : v.walk upper true parts d s = (t, .ok r)) :
    v.Walked upper s t parts d r := by
  induction parts generalizing s d with
  | nil =>
    rw [walk, Machine.pure_apply, Prod.mk.injEq, Except.ok.injEq] at h
    obtain ⟨rfl, rfl⟩ := h
    exact ⟨Core.refl hs, hd, Or.inl ⟨rfl, rfl, rfl⟩⟩
  | cons part parts ih =>
    have hrest : ∀ part ∈ parts, 0 ∉ part := fun q hq ↦ hparts q (List.mem_cons_of_mem _ hq)
    obtain ⟨p, hp⟩ := hd
    obtain ⟨o, ho, -⟩ := hs.owner hp
    obtain ⟨-, l, hl⟩ := hs.chains ho trivial
    rw [walk, Machine.bind_apply, listing_eq hl] at h
    dsimp only at h
    cases hfind : find upper (v.entries s d) part with
    | none =>
      rw [hfind] at h
      simp only [not_true_eq_false, if_false] at h
      obtain ⟨c, s₁, hmkdir, h⟩ := Machine.bind_ok.mp h
      have hmade := mkdir_ok hs hv hupper (hparts part List.mem_cons_self) hp hmkdir
      have hwalked := ih hrest hmade.moves.core ⟨d, hmade.dir⟩ h
      have hreached : v.resolve upper s (part :: parts) d = (d, part :: parts) := by rw [resolve, hfind]
      have hthere : (v.resolve upper s₁ parts c).1 = c := by
        cases parts with
        | nil => rfl
        | cons next parts => rw [resolve, find_none hmade.dots]
      refine ⟨?_, hwalked.dir, Or.inr ?_⟩
      · rw [hreached]
        refine hmade.moves.trans hs hwalked.moves fun ho' _ _ heq ↦ ?_
        rw [hthere] at heq
        obtain ⟨-, l', hl'⟩ := hs.chains ho' trivial
        have hmem := hs.mem_self hv ho' trivial
        rw [hl'.clustersFrom] at hmem
        exact hl'.next_ne hmem (heq ▸ hmade.fresh)
      · rw [hreached]
        refine ⟨List.cons_ne_nil _ _, ?_⟩
        rcases hwalked.reached with ⟨-, rfl, hr⟩ | ⟨-, hr, hdots⟩
        · rw [hr, hthere]
          exact ⟨hmade.fresh, hmade.dots⟩
        · refine ⟨?_, hdots⟩
          by_contra hne
          exact hmade.moves.used r hne hr
    | some e =>
      rw [hfind] at h
      dsimp only at h
      by_cases hdir : e.IsDir
      · have hsub : v.resolve upper s (part :: parts) d =
            v.resolve upper s parts (if e.cluster = 0 then v.root else e.cluster) := by
          rw [resolve, hfind]
          exact if_pos hdir
        rw [if_neg hdir] at h
        have hwalked := ih hrest hs (dir_of_find ⟨p, hp⟩ hfind hdir) h
        exact ⟨hsub ▸ hwalked.moves, hwalked.dir, hsub ▸ hwalked.reached⟩
      · rw [if_pos (not_not.mp hdir)] at h
        cases h

end Walking

section Flushing

theorem foldl_write_fat (offsets : List ℕ) (table : List Byte) (s : Fat32) :
    (offsets.foldl (fun t offset ↦ t.write offset table) s).fat = s.fat ∧
    (offsets.foldl (fun t offset ↦ t.write offset table) s).hint = s.hint := by
  induction offsets generalizing s with
  | nil => exact ⟨rfl, rfl⟩
  | cons offset offsets ih => exact ih _

theorem foldl_write_apart {offsets : List ℕ} {table : List Byte} {o size : ℕ}
    (h : ∀ offset ∈ offsets, o + size ≤ offset ∨ offset + table.length ≤ o) (s : Fat32) :
    readAt (offsets.foldl (fun t offset ↦ t.write offset table) s).image o size = readAt s.image o size := by
  induction offsets generalizing s with
  | nil => rfl
  | cons offset offsets ih =>
    obtain ⟨hfirst, hrest⟩ := List.forall_mem_cons.mp h
    rw [List.foldl_cons, ih hrest]
    exact readAt_writeAt_apart hfirst

theorem foldl_write_mem {offsets : List ℕ} {table : List Byte} {o : ℕ}
    (h : offsets.Pairwise fun o o' ↦ o + table.length ≤ o' ∨ o' + table.length ≤ o)
    (ho : o ∈ offsets) (s : Fat32) :
    readAt (offsets.foldl (fun t offset ↦ t.write offset table) s).image o table.length = table := by
  induction offsets generalizing s with
  | nil => cases ho
  | cons offset offsets ih =>
    rw [List.pairwise_cons] at h
    rw [List.foldl_cons]
    rcases List.mem_cons.mp ho with rfl | hmem
    · rw [foldl_write_apart h.1]
      exact readAt_writeAt_self
    · exact ih h.2 hmem _

theorem length_table : (v.table s).length = 4 * (v.clusters + 2) := by
  have hsum : ∀ l : List ℕ, (l.flatMap fun c ↦ little 4 (s.fat c).toNat).length = 4 * l.length := by
    intro l
    induction l with
    | nil => rfl
    | cons c l ih => rw [List.flatMap_cons, List.length_append, length_little, ih, List.length_cons,
        Nat.mul_succ, Nat.add_comm]
  rw [table, hsum, List.length_range]

theorem freeCount_congr (h : t.fat = s.fat) : v.freeCount t = v.freeCount s := by
  rw [freeCount, freeCount]
  congr 2
  funext c
  rw [Fat32.next, Fat32.next, h]

/-- What `flush` leaves of the volume and what it writes: the table to each of its places, and the number of free
clusters to the FSInfo sector. -/
structure Flushed (v : Layout) (s t : Fat32) : Prop where
  fat : t.fat = s.fat
  hint : t.hint = s.hint
  data : ∀ o size, v.data ≤ o → readAt t.image o size = readAt s.image o size
  tables : ∀ o ∈ v.fatOffsets, readAt t.image o (4 * (v.clusters + 2)) = v.table t
  info : IsInfo (readAt t.image v.fsinfo 512) →
    value (((readAt t.image v.fsinfo 512).drop 488).take 4) = v.freeCount t

theorem flush_ok (hv : v.Valid) (s : Fat32) : v.Flushed s (v.flush s) := by
  obtain ⟨hfat, hhint⟩ := foldl_write_fat v.fatOffsets (v.table s) s
  have hdata : ∀ o size, v.data ≤ o →
      readAt (v.fatOffsets.foldl (fun t offset ↦ t.write offset (v.table s)) s).image o size =
        readAt s.image o size :=
    fun o size ho ↦ foldl_write_apart (fun offset hmem ↦ Or.inr (by
      rw [length_table]
      exact (hv.fats offset hmem).trans ho)) s
  have htables : ∀ o ∈ v.fatOffsets, readAt (v.fatOffsets.foldl
      (fun t offset ↦ t.write offset (v.table s)) s).image o
      (4 * (v.clusters + 2)) = v.table s := by
    intro o ho
    rw [← length_table (s := s)]
    refine foldl_write_mem ?_ ho s
    rw [length_table]
    exact hv.fats_apart
  have htable : ∀ t : Fat32, t.fat = s.fat → v.table t = v.table s := fun t ht ↦ by rw [table, table, ht]
  rw [flush]
  generalize v.fatOffsets.foldl (fun t offset ↦ t.write offset (v.table s)) s = t at *
  split_ifs with hinfo
  · have hlength : ((readAt t.image v.fsinfo 512).take 488).length = 488 := by
      rw [List.length_take, length_readAt]
      decide
    have hsize : ((readAt t.image v.fsinfo 512).take 488 ++ little 4 (v.freeCount t) ++ little 4 t.hint ++
        (readAt t.image v.fsinfo 512).drop 496).length = 512 := by
      simp only [List.length_append, hlength, length_little, List.length_drop, length_readAt]
    have hread : ∀ sector : List Byte, sector.length = 512 →
        readAt (t.write v.fsinfo sector).image v.fsinfo 512 = sector := by
      intro sector hsector
      rw [← hsector]
      exact readAt_writeAt_self
    refine ⟨hfat, hhint, fun o size ho ↦ ?_, fun o ho ↦ ?_, fun _ ↦ ?_⟩
    · have := hv.fsinfo
      exact (readAt_writeAt_apart (Or.inr (by rw [hsize]; omega))).trans (hdata o size ho)
    · refine (readAt_writeAt_apart ?_).trans ((htables o ho).trans (htable _ hfat).symm)
      rw [hsize]
      exact (hv.info_apart o ho).symm
    · have hfew : v.freeCount t < 256 ^ 4 := by
        have hle : v.freeCount t ≤ v.clusters := by
          rw [freeCount]
          exact (List.length_filter_le _ _).trans_eq (List.length_range')
        have := hv.few
        rw [endMark] at this
        omega
      have hcount : v.freeCount (t.write v.fsinfo ((readAt t.image v.fsinfo 512).take 488 ++ little 4 (v.freeCount t) ++
          little 4 t.hint ++ (readAt t.image v.fsinfo 512).drop 496)) = v.freeCount t := freeCount_congr rfl
      rw [hread _ hsize, hcount, List.append_assoc, List.append_assoc, List.drop_left' hlength,
        List.take_left' (length_little _ _), value_little hfew]
  · exact ⟨hfat, hhint, hdata, fun o ho ↦ (htables o ho).trans (htable _ hfat).symm, fun h ↦ absurd h hinfo⟩

theorem Core.flush {keep : Option (ℕ × ℕ) → Prop} {A : ℕ} (h : v.Core s keep) (hv : v.Valid) :
    v.Moves s (v.flush s) keep A := by
  have hflush := flush_ok hv s
  have hnext : (v.flush s).next = s.next := by
    funext c
    rw [Fat32.next, Fat32.next, hflush.fat]
  have hsame : ∀ c, v.Untouched s (v.flush s) c := by
    intro c x _
    have hle : v.data ≤ v.offset x := by
      rw [offset]
      exact Nat.le_add_right _ _
    exact ⟨by rw [hnext], hflush.data _ _ hle⟩
  have hhint : v.Inside (v.flush s).hint := by
    rw [hflush.hint]
    exact h.hint
  obtain ⟨hcore, hkept, -⟩ := h.frame hhint (fun _ _ ↦ hsame _) A
  exact ⟨hcore, hkept, fun x hx ↦ by rwa [hnext]⟩

end Flushing

section Putting

variable {path : Str} {keep : Option (ℕ × ℕ) → Prop} {first : ℕ} {verb : Verb}

theorem store_ok (h : v.Core s keep) (hv : v.Valid) (hstore : v.store data s = (t, .ok first)) :
    (∀ A, v.Moves s t keep A) ∧ ∃ l, v.Spare t keep l ∧ first = l.headD 0 ∧
    (first ≠ 0 → l.head? = some first) ∧
      v.contents t l = ljust (l.length * v.cluster) 0 data ∧ data.length ≤ l.length * v.cluster := by
  rw [store] at hstore
  obtain ⟨l, s₁, halloc, hstore⟩ := Machine.bind_ok.mp hstore
  rw [Machine.bind_apply, Machine.modify_apply] at hstore
  dsimp only at hstore
  rw [Machine.pure_apply, Prod.mk.injEq, Except.ok.injEq] at hstore
  obtain ⟨rfl, rfl⟩ := hstore
  have hcount := (alloc_ok hv h.hint halloc).length
  have hmoves : ∀ A, v.Moves s s₁ keep A ∧ v.Spare s₁ keep l := fun A ↦ h.alloc hv halloc
  have hwrite : ∀ A, v.Moves s₁ (v.writeChain l data s₁) keep A ∧ v.Spare (v.writeChain l data s₁) keep l :=
    fun A ↦ (hmoves A).1.core.write (hmoves A).2
  have hlength : data.length ≤ l.length * v.cluster := by
    rw [hcount]
    exact le_ceil_mul hv.cluster_pos
  refine ⟨fun A ↦ (hmoves A).1.trans h (hwrite A).1 fun _ _ hc ↦ hc, l, (hwrite 0).2, rfl, ?_, ?_, hlength⟩
  · cases l with
    | nil => exact fun hne ↦ absurd rfl hne
    | cons c l => exact fun _ ↦ rfl
  · have hnodup : l.Nodup := (alloc_ok hv h.hint halloc).fresh.nodup
    exact contents_writeChain hnodup (fun x hx ↦ ((hmoves 0).2.inside hx).1) hlength

def Names (v : Layout) (upper : Str → Str) (s : Fat32) (path : Str) (o : Option (ℕ × ℕ)) : Prop :=
  ∃ d name e, v.resolve upper s (components path).dropLast v.root = (d, []) ∧
    (components path).getLast? = some name ∧ find upper (v.entries s d) name = some e ∧ o = some (d, e.slot)

theorem replace_ok (hs : v.Sound s) (hv : v.Valid) (hd : v.Dir s p d) (he : e ∈ v.entries s d)
    (hdot : e.short.getD 0 0 ≠ 0x2e) (hfile : ¬e.IsDir) {s₁ s₂ : Fat32}
    (hfree : (if e.cluster = 0 then pure () else v.free e.cluster) s = (s₁, .ok ()))
    (hstore : v.store data s₁ = (s₂, .ok first)) (hset : v.setEntry d e.slot first data.length s₂ = (t, .ok ())) :
    v.Sound t ∧ v.Kept s t (· ≠ some (d, e.slot)) d ∧
    (∀ x, s.next x ≠ 0 → t.next x = 0 → e.cluster ≠ 0 ∧ x ∈ v.clustersFrom s e.cluster) ∧
    v.entries t d = (v.entries s d).map (Entry.lead e.slot first data.length) := by
  have hfreed : v.Core s₁ (· ≠ some (d, e.slot)) ∧ v.Kept s s₁ (· ≠ some (d, e.slot)) d ∧
      v.entries s₁ d = v.entries s d ∧
      ∀ x, s.next x ≠ 0 → s₁.next x = 0 → e.cluster ≠ 0 ∧ x ∈ v.clustersFrom s e.cluster := by
    split_ifs at hfree with hempty
    · rw [Machine.pure_apply, Prod.mk.injEq] at hfree
      obtain ⟨rfl, -⟩ := hfree
      exact ⟨Core.forget hs he hfile, .refl d, rfl, fun x hx hx' ↦ absurd hx' hx⟩
    · obtain ⟨t', ht', -, hcore, hkept, hentries, hnext⟩ :=
        free_ok hs hd he ⟨hempty, not_leadsBack hdot p d⟩ hfile
      rw [ht', Prod.mk.injEq] at hfree
      obtain ⟨rfl, -⟩ := hfree
      refine ⟨hcore, hkept, hentries, fun x hx hx' ↦ ⟨hempty, ?_⟩⟩
      by_contra hout
      rw [hnext, if_neg hout] at hx'
      exact hx hx'
  obtain ⟨hcore₁, hkept₁, hentries₁, hnext₁⟩ := hfreed
  obtain ⟨hmoves, l, hspare, -, hfirst, -⟩ := store_ok hcore₁ hv hstore
  have hd₁ := hkept₁.dirs hd
  have hd₂ := (hmoves d).kept.dirs hd₁
  have hentries₂ : v.entries s₂ d = v.entries s d := by
    obtain ⟨o, ho, hk⟩ := hcore₁.owner hd₁
    obtain ⟨-, l', hl'⟩ := hcore₁.chains ho hk
    rw [((hmoves (d + 1)).kept.chains ho hk (Nat.lt_succ_self d).ne).entries hl', hentries₁]
  obtain ⟨hsound, hkept₃, hused₃, hentries₃⟩ :=
      setEntry_ok (hmoves d).core hv hd₂ (hentries₂ ▸ he) rfl hfile hspare hfirst hset
  refine ⟨hsound, ?_, fun x hx hx' ↦ ?_, by rw [hentries₃, hentries₂]⟩
  · have hkept₂ := hkept₁.trans (Core.forget hs he hfile) (hmoves d).kept (fun _ hk ↦ hk)
      (fun _ _ hk ↦ hk) fun _ _ hc ↦ hc
    exact hkept₂.trans (Core.forget hs he hfile) hkept₃ (fun _ hk ↦ hk) (fun _ _ hk ↦ hk) fun _ _ hc ↦ hc
  · refine hnext₁ x hx ?_
    by_contra hne
    exact hused₃ x ((hmoves d).used x hne) hx'

/-- What a `put` leaves of the volume: the slot of the file that the path leads to is all that it gives up, and the
last directory of the path that was there is all that it lays anew. -/
structure Surgery (v : Layout) (upper : Str → Str) (s t : Fat32) (path : Str) : Prop where
  sound : v.Sound t
  kept : v.Kept s t (fun o ↦ ¬v.Names upper s path o) (v.resolve upper s (components path).dropLast v.root).1
  freed : ∀ x, s.next x ≠ 0 → t.next x = 0 → ∃ o c, v.Owner s o c ∧ v.Names upper s path o ∧
    x ∈ v.clustersFrom s c
  tables : ∀ o ∈ v.fatOffsets, readAt t.image o (4 * (v.clusters + 2)) = v.table t
  info : IsInfo (readAt t.image v.fsinfo 512) →
    value (((readAt t.image v.fsinfo 512).drop 488).take 4) = v.freeCount t

theorem Surgery.flush (h : v.Sound t) (hv : v.Valid)
    (hkept : v.Kept s t (fun o ↦ ¬v.Names upper s path o) (v.resolve upper s (components path).dropLast v.root).1)
    (hfreed : ∀ x, s.next x ≠ 0 → t.next x = 0 → ∃ o c, v.Owner s o c ∧ v.Names upper s path o ∧
    x ∈ v.clustersFrom s c)
    (hs : v.Sound s) : v.Surgery upper s (v.flush t) path := by
  have hflush := flush_ok hv t
  have hmoves := Core.flush (A := (v.resolve upper s (components path).dropLast v.root).1) h hv
  have hs' : v.Core s fun o ↦ True := hs
  refine ⟨hmoves.core, ?_, fun x hx hx' ↦ hfreed x hx ?_, hflush.tables, hflush.info⟩
  · refine ⟨fun hd ↦ hmoves.kept.dirs (hkept.dirs hd), fun hd he hk ↦ hmoves.kept.entries (hkept.dirs hd)
      (hkept.entries hd he hk) trivial, fun ho hk hc ↦ ?_⟩
    obtain ⟨-, l, hl⟩ := hs.chains ho trivial
    exact (hkept.chains ho hk hc).trans hl (hmoves.kept.chains (hkept.owner ho hk) trivial hc)
  · by_contra hne
    exact hmoves.used x hne hx'

/-- Where every component of the path is free of NUL, a `put` that succeeds is surgery on the named file alone. -/
theorem put_preserves (hv : v.Valid) (hupper : ∀ text, 0 ∉ text → 0 ∉ upper text) (hs : v.Sound s)
    (hpath : ∀ part ∈ components path, 0 ∉ part) (h : v.put upper path data s = (t, .ok verb)) :
    v.Surgery upper s t path := by
  rw [put] at h
  obtain ⟨d, s₁, hwalk, hafter⟩ := Machine.bind_ok.mp h
  clear h
  have hwalked := walk_ok hv hupper (fun q hq ↦ hpath q (List.dropLast_subset _ hq)) hs ⟨_, .root⟩ hwalk
  obtain ⟨p, hd⟩ := hwalked.dir
  have hs₁ := hwalked.moves.core
  obtain ⟨o, ho, -⟩ := hs₁.owner hd
  obtain ⟨-, l, hl⟩ := hs₁.chains ho trivial
  rw [Machine.bind_apply, listing_eq hl] at hafter
  dsimp only at hafter
  cases hname : (components path).getLast? with
  | none =>
    rw [hname] at hafter
    cases hafter
  | some name =>
    rw [hname] at hafter
    dsimp only at hafter
    cases hfind : find upper (v.entries s₁ d) name with
    | some e =>
      rw [hfind] at hafter
      dsimp only at hafter
      obtain ⟨hmem, hdot, -⟩ := find_some hfind
      obtain ⟨hmissing, rfl, hreached⟩ | ⟨-, -, hdots⟩ := hwalked.reached
      · obtain ⟨_, s', hrequire, hthen⟩ := Machine.bind_ok.mp hafter
        obtain ⟨hfile, rfl⟩ := Machine.require_ok.mp hrequire
        clear hafter
        have hfreed : ∃ s₂, (if e.cluster = 0 then pure () else v.free e.cluster : Machine Fat32 Raise Unit) s' =
            (s₂, .ok ()) ∧ (do
              let first ← v.store data
              v.setEntry d e.slot first data.length
              Machine.modify v.flush
              pure (.replaced e.size) : Machine Fat32 Raise Verb) s₂ = (t, .ok verb) := by
          split_ifs at hthen ⊢ with hempty
          · exact ⟨s', rfl, hthen⟩
          · obtain ⟨_, s₂, hfree, hrest⟩ := Machine.bind_ok.mp hthen
            exact ⟨s₂, hfree, hrest⟩
        obtain ⟨s₂, hfree, hrest⟩ := hfreed
        obtain ⟨first, s₃, hstore, hrest⟩ := Machine.bind_ok.mp hrest
        obtain ⟨_, s₄, hset, hlast⟩ := Machine.bind_ok.mp hrest
        rw [Machine.bind_apply, Machine.modify_apply] at hlast
        dsimp only at hlast
        rw [Machine.pure_apply, Prod.mk.injEq] at hlast
        obtain ⟨rfl, -⟩ := hlast
        have hnamed : v.Names upper s' path (some (d, e.slot)) :=
          ⟨d, name, e, Prod.ext hreached.symm hmissing, hname, hfind, rfl⟩
        obtain ⟨hsound, hkept, hfreed, -⟩ := replace_ok hs hv hd hmem hdot (not_not.mpr hfile) hfree hstore hset
        rw [hreached] at hkept
        refine Surgery.flush hsound hv (hkept.mono ?_ ?_) (fun x hx hx' ↦ ?_) hs
        · rintro o c - hk rfl
          exact hk (hreached ▸ hnamed)
        · rintro q x e' - - hk heq
          exact hk (heq ▸ hreached ▸ hnamed)
        · obtain ⟨hne, hx''⟩ := hfreed x hx hx'
          exact ⟨_, _, .entry hd hmem ⟨hne, not_leadsBack hdot p d⟩, hnamed, hx''⟩
      · exact absurd (hdots e hmem) hdot
    | none =>
      rw [hfind] at hafter
      dsimp only at hafter
      obtain ⟨first, s₃, hstore, hthen⟩ := Machine.bind_ok.mp hafter
      obtain ⟨_, s₄, hadd, hlast⟩ := Machine.bind_ok.mp hthen
      rw [Machine.bind_apply, Machine.modify_apply] at hlast
      dsimp only at hlast
      rw [Machine.pure_apply, Prod.mk.injEq] at hlast
      obtain ⟨rfl, -⟩ := hlast
      obtain ⟨hmoves, l', hspare, -, hfirst, -⟩ := store_ok hs₁ hv hstore
      obtain ⟨e₀, hadded⟩ := addEntry_ok (hmoves d).core hv hupper
        (hpath name (List.mem_of_getLast? hname)) ((hmoves d).kept.dirs hd) (by decide) hspare hfirst
        (fun hdir ↦ absurd rfl hdir) hadd
      have hlaid : v.Moves s₁ s₄ (fun _ ↦ True) d := (hmoves d).trans hs₁ hadded.moves fun _ _ hc ↦ hc
      have hall : v.Moves s s₄ (fun _ ↦ True) (v.resolve upper s (components path).dropLast v.root).1 := by
        refine hwalked.moves.trans hs hlaid fun {o c} ho' _ hc heq ↦ ?_
        obtain ⟨-, -, hreached⟩ | ⟨-, hfresh, -⟩ := hwalked.reached
        · exact hc (heq.trans hreached)
        · obtain ⟨-, l'', hl''⟩ := hs.chains ho' trivial
          have hmem := hs.mem_self hv ho' trivial
          rw [hl''.clustersFrom] at hmem
          exact hl''.next_ne hmem (heq ▸ hfresh)
      exact Surgery.flush hall.core hv (hall.kept.mono (fun _ _ ↦ trivial) fun _ _ _ ↦ trivial)
        (fun x hx hx' ↦ absurd hx' (hall.used x hx)) hs

/-- A card of three clusters with an empty file `A` behind a deleted entry. -/
def smallCard : Layout :=
  { cluster := 64, fatOffsets := [0, 20], data := 552, clusters := 3, fsinfo := 40, root := 2 }

def smallVolume : Fat32 :=
  { image := fun p ↦ if p = 552 then 0xe5 else if p = 584 then 0x41 else if p = 595 then 0x20 else 0
    fat := fun c ↦ if c = 2 then mask else 0
    hint := 2 }

theorem smallCard_valid : smallCard.Valid where
  cluster_pos := by decide
  entries := by decide
  few := by decide
  root := by decide
  fats := by decide
  fats_apart := by decide
  fsinfo := by decide
  info_apart := by decide

theorem smallVolume_sound : smallCard.Sound smallVolume := by
  refine sound_of_flat ⟨by decide, by decide⟩ ⟨by decide, by decide⟩ (l := [2]) ?_ (by decide +kernel)
  exact .cons ⟨by decide, by decide⟩ (by decide) (.nil (by decide))

theorem put_preserves_small :
    smallCard.Surgery id smallVolume (smallCard.put id [0x42] [1, 2, 3] smallVolume).1 [0x42] := by
  obtain ⟨verb, hput⟩ := Machine.eq_of_isOk (x := smallCard.put id [0x42] [1, 2, 3]) (s :=
      smallVolume) (by decide +kernel)
  exact put_preserves smallCard_valid (fun _ h ↦ h) smallVolume_sound (by decide) hput

/-- A component that starts with NUL ends the directory: `A` is lost. -/
theorem put_nul : smallCard.Valid ∧ smallCard.Sound smallVolume ∧
    (smallCard.put id [0] [] smallVolume).2.isOk = true ∧
    ¬smallCard.Surgery id smallVolume (smallCard.put id [0] [] smallVolume).1 [0] := by
  refine ⟨smallCard_valid, smallVolume_sound, by decide +kernel, fun hsurgery ↦ ?_⟩
  obtain ⟨e, he⟩ : ∃ e, smallCard.entries smallVolume smallCard.root = [e] :=
    List.length_eq_one_iff.mp (by decide +kernel)
  have hnone : smallCard.entries (smallCard.put id [0] [] smallVolume).1 smallCard.root = [] :=
    List.length_eq_zero_iff.mp (by decide +kernel)
  have hkeep : ¬smallCard.Names id smallVolume [0] (some (smallCard.root, e.slot)) := by
    rintro ⟨d, name, e', hresolve, hname, hfind, -⟩
    have hroot : d = smallCard.root := (congrArg Prod.fst hresolve).symm
    have hlast : (components [0]).getLast? = some [0] := by decide
    rw [hroot, ← Option.some.inj (hlast.symm.trans hname)] at hfind
    have hmissing : (find id (smallCard.entries smallVolume smallCard.root) [0]).isNone = true := by decide +kernel
    rw [hfind] at hmissing
    cases hmissing
  have hin : e ∈ smallCard.entries smallVolume smallCard.root := by
    rw [he]
    exact List.mem_cons_self
  have hmem := hsurgery.kept.entries .root hin hkeep
  rw [hnone] at hmem
  cases hmem

end Putting

end Layout

end Cdj2000Emulator.Card
