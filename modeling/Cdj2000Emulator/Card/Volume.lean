import Cdj2000Emulator.Card.Clusters
import Cdj2000Emulator.Card.Slots

namespace Cdj2000Emulator.Card

open Function Library.Bytes Library.Chains Library.Stateful

/-- The names of the two entries of a directory that lead back. -/
def dots (n : ℕ) : List Byte := ljust 11 0x20 (List.replicate n 0x2e)

namespace Entry

def IsDir (e : Entry) : Prop := e.attr &&& 0x10 ≠ 0

instance (e : Entry) : Decidable e.IsDir := inferInstanceAs (Decidable (_ ≠ _))

/-- `.` or `..` of a directory: no place of its own. -/
def LeadsBack (parent here : ℕ) (e : Entry) : Prop :=
  e.IsDir ∧ (e.short = dots 1 ∧ e.cluster = here ∨ e.short = dots 2 ∧ e.cluster = parent)

def Owns (parent here : ℕ) (e : Entry) : Prop := e.cluster ≠ 0 ∧ ¬e.LeadsBack parent here

end Entry

namespace Layout

variable {v : Layout} {s t u : Fat32} {c d p q : ℕ} {l : List ℕ} {e : Entry}

def clustersFrom (v : Layout) (s : Fat32) (first : ℕ) : List ℕ :=
  (follow v.clusters s.next (v.clusters + 1) first).getD []

def bytes (v : Layout) (s : Fat32) (first : ℕ) : List Byte := v.contents s (v.clustersFrom s first)

def entries (v : Layout) (s : Fat32) (directory : ℕ) : List Entry := scanSlots 0 [] (slots (v.bytes s directory))

theorem Chain.clustersFrom (h : v.Chain s c l) : v.clustersFrom s c = l := by
  rw [Layout.clustersFrom, follow_of_linked h (Nat.le_succ_of_le h.length_le)]
  rfl

theorem listing_eq (h : v.Chain s d l) : v.listing d s = (s, .ok (l, v.bytes s d, v.entries s d)) := by
  rw [listing, Machine.bind_apply, chain_eq h]
  dsimp only
  rw [Machine.bind_apply, readChain_eq h, entries, bytes, h.clustersFrom]
  rfl

/-- The directories of a volume, each with the one that it lies in. -/
inductive Dir (v : Layout) (s : Fat32) : ℕ → ℕ → Prop
  | root : Dir v s v.root v.root
  | sub {p d : ℕ} {e : Entry} (hd : Dir v s p d) (he : e ∈ v.entries s d) (howns : e.Owns p d) (hdir : e.IsDir) :
    Dir v s d e.cluster

/-- The chains of a volume, each with the slot that it is the chain of. -/
inductive Owner (v : Layout) (s : Fat32) : Option (ℕ × ℕ) → ℕ → Prop
  | root : Owner v s none v.root
  | entry {p d : ℕ} {e : Entry} (hd : v.Dir s p d) (he : e ∈ v.entries s d) (howns : e.Owns p d) :
    Owner v s (some (d, e.slot)) e.cluster

/-- The chains of the volume are proper and apart, those in `keep` at least, with those of all directories. -/
structure Core (v : Layout) (s : Fat32) (keep : Option (ℕ × ℕ) → Prop) : Prop where
  hint : v.Inside s.hint
  root : keep none
  dirs : ∀ {p d e}, v.Dir s p d → e ∈ v.entries s d → e.Owns p d → e.IsDir → keep (some (d, e.slot))
  chains : ∀ {o c}, v.Owner s o c → keep o → v.Inside c ∧ ∃ l, v.Chain s c l
  apart : ∀ {o c o' c'}, v.Owner s o c → v.Owner s o' c' → keep o → keep o' → o ≠ o' →
    ∀ x ∈ v.clustersFrom s c, x ∉ v.clustersFrom s c'

/-- The chains of the volume are proper and apart. -/
def Sound (v : Layout) (s : Fat32) : Prop := v.Core s fun _ ↦ True

/-- A volume of nothing but empty files. -/
theorem sound_of_flat (hroot : v.Inside v.root) (hhint : v.Inside s.hint) (hl : v.Chain s v.root l)
    (hempty : ∀ e ∈ v.entries s v.root, e.cluster = 0) : v.Sound s := by
  have hdir : ∀ {p d}, v.Dir s p d → d = v.root := by
    intro p d hd
    induction hd with
    | root => rfl
    | sub _ he howns _ ih =>
      rw [ih] at he
      exact absurd (hempty _ he) howns.1
  have howner : ∀ {o c}, v.Owner s o c → o = none ∧ c = v.root := by
    intro o c ho
    cases ho with
    | root => exact ⟨rfl, rfl⟩
    | entry hd he howns =>
      rw [hdir hd] at he
      exact absurd (hempty _ he) howns.1
  refine ⟨hhint, trivial, fun _ _ _ _ ↦ trivial, fun ho _ ↦ ?_, fun ho ho' _ _ hne ↦ ?_⟩
  · rw [(howner ho).2]
    exact ⟨hroot, l, hl⟩
  · exact absurd ((howner ho).1.trans (howner ho').1.symm) hne

/-- From one state to another neither the chain from a cluster on nor its bytes change. -/
def Untouched (v : Layout) (s t : Fat32) (c : ℕ) : Prop := ∀ x ∈ v.clustersFrom s c,
  t.next x = s.next x ∧ readAt t.image (v.offset x) v.cluster = readAt s.image (v.offset x) v.cluster

section Untouched

theorem Untouched.chain (h : v.Untouched s t c) (hc : v.Chain s c l) : v.Chain t c l := by
  rw [Untouched, hc.clustersFrom] at h
  exact Linked.congr hc fun x hx ↦ (h x hx).1

theorem Untouched.clustersFrom (h : v.Untouched s t c) (hc : v.Chain s c l) :
    v.clustersFrom t c = v.clustersFrom s c := by
  rw [(h.chain hc).clustersFrom, hc.clustersFrom]

theorem Untouched.bytes (h : v.Untouched s t c) (hc : v.Chain s c l) : v.bytes t c = v.bytes s c := by
  rw [Layout.bytes, Layout.bytes, h.clustersFrom hc]
  exact contents_congr fun x hx ↦ (h x hx).2

theorem Untouched.entries (h : v.Untouched s t c) (hc : v.Chain s c l) : v.entries t c = v.entries s c := by
  rw [Layout.entries, Layout.entries, h.bytes hc]

theorem Untouched.trans (h : v.Untouched s t c) (hc : v.Chain s c l) (k : v.Untouched t u c) :
    v.Untouched s u c := by
  intro x hx
  obtain ⟨hnext, hbytes⟩ := k x (by rwa [h.clustersFrom hc])
  exact ⟨hnext.trans (h x hx).1, hbytes.trans (h x hx).2⟩

end Untouched

section Core

variable {keep : Option (ℕ × ℕ) → Prop} {o o' : Option (ℕ × ℕ)}

theorem Dir.parent (h : v.Dir s p d) : ∃ q, v.Dir s q p := by
  cases h with
  | root => exact ⟨_, .root⟩
  | sub hd _ _ _ => exact ⟨_, hd⟩

/-- A directory has a chain of its own. -/
theorem Core.owner (h : v.Core s keep) (hd : v.Dir s p d) : ∃ o, v.Owner s o d ∧ keep o := by
  cases hd with
  | root => exact ⟨none, .root, h.root⟩
  | sub hd he howns hdir => exact ⟨_, .entry hd he howns, h.dirs hd he howns hdir⟩

theorem Core.mem_self (h : v.Core s keep) (hv : v.Valid) (ho : v.Owner s o c) (hkeep : keep o) :
    c ∈ v.clustersFrom s c := by
  obtain ⟨hin, l, hl⟩ := h.chains ho hkeep
  have := hv.few
  rw [Inside] at hin
  rw [hl.clustersFrom]
  exact Linked.head_mem hl (by omega)

theorem Core.used (h : v.Core s keep) (hv : v.Valid) (hd : v.Dir s p d) : s.next d ≠ 0 := by
  obtain ⟨o, ho, hk⟩ := h.owner hd
  obtain ⟨-, l, hl⟩ := h.chains ho hk
  have hmem := h.mem_self hv ho hk
  rw [hl.clustersFrom] at hmem
  exact hl.next_ne hmem

/-- No other slot leads to the chain of a slot. -/
theorem Core.ref_eq (h : v.Core s keep) (hv : v.Valid) (ho : v.Owner s o c) (ho' : v.Owner s o' c) (hkeep : keep o)
    (hkeep' : keep o') : o = o' := by
  by_contra hne
  have hmem := h.mem_self hv ho hkeep
  exact h.apart ho ho' hkeep hkeep' hne c hmem hmem

/-- What is untouched of a volume, but for the slots out of `keep` and the chain of one directory. -/
structure Kept (v : Layout) (s t : Fat32) (keep : Option (ℕ × ℕ) → Prop) (changed : ℕ) : Prop where
  dirs : ∀ {p d}, v.Dir s p d → v.Dir t p d
  entries : ∀ {p d e}, v.Dir s p d → e ∈ v.entries s d → keep (some (d, e.slot)) → e ∈ v.entries t d
  chains : ∀ {o c}, v.Owner s o c → keep o → c ≠ changed → v.Untouched s t c

theorem Kept.owner {changed : ℕ} (h : v.Kept s t keep changed) (ho : v.Owner s o c) (hkeep : keep o) :
    v.Owner t o c := by
  cases ho with
  | root => exact .root
  | entry hd he howns => exact .entry (h.dirs hd) (h.entries hd he hkeep) howns

theorem Kept.mono {keep' : Option (ℕ × ℕ) → Prop} {changed : ℕ} (h : v.Kept s t keep changed)
    (hkeep : ∀ {o c}, v.Owner s o c → keep' o → keep o)
    (hentries : ∀ {p d e}, v.Dir s p d → e ∈ v.entries s d → keep' (some (d, e.slot)) →
    keep (some (d, e.slot))) :
    v.Kept s t keep' changed where
  dirs := h.dirs
  entries := fun hd he hk ↦ h.entries hd he (hentries hd he hk)
  chains := fun ho hk hc ↦ h.chains ho (hkeep ho hk) hc

theorem Kept.trans {keep' : Option (ℕ × ℕ) → Prop} {changed changed' : ℕ} (hs : v.Core s keep)
    (h : v.Kept s t keep changed) (k : v.Kept t u keep' changed')
    (hkeep : ∀ {o c}, v.Owner s o c → keep o → keep' o)
    (hentries : ∀ {p d e}, v.Dir s p d → e ∈ v.entries s d → keep (some (d, e.slot)) →
    keep' (some (d, e.slot)))
    (hchanged : ∀ {o c}, v.Owner s o c → keep o → c ≠ changed → c ≠ changed') :
    v.Kept s u keep changed where
  dirs := fun hd ↦ k.dirs (h.dirs hd)
  entries := fun hd he hk ↦ k.entries (h.dirs hd) (h.entries hd he hk) (hentries hd he hk)
  chains := by
    intro o c ho hk hc
    obtain ⟨-, l, hl⟩ := hs.chains ho hk
    exact (h.chains ho hk hc).trans hl (k.chains (h.owner ho hk) (hkeep ho hk) (hchanged ho hk hc))

theorem Kept.refl (changed : ℕ) : v.Kept s s keep changed :=
  ⟨fun hd ↦ hd, fun _ he _ ↦ he, fun _ _ _ _ _ ↦ ⟨rfl, rfl⟩⟩

/-- Where no chain is touched, the volume is the same. -/
theorem Core.frame (h : v.Core s keep) (hhint : v.Inside t.hint)
    (hsame : ∀ {o c}, v.Owner s o c → keep o → v.Untouched s t c) (changed : ℕ) :
    v.Core t keep ∧ v.Kept s t keep changed ∧ ∀ {o c}, v.Owner t o c → v.Owner s o c := by
  have hentries : ∀ {p d}, v.Dir s p d → v.entries t d = v.entries s d := by
    intro p d hd
    obtain ⟨o, ho, hk⟩ := h.owner hd
    obtain ⟨-, l, hl⟩ := h.chains ho hk
    exact (hsame ho hk).entries hl
  have hback : ∀ {p d}, v.Dir t p d → v.Dir s p d := by
    intro p d hd
    induction hd with
    | root => exact .root
    | sub _ he howns hdir ih => exact .sub ih (hentries ih ▸ he) howns hdir
  have hforth : ∀ {p d}, v.Dir s p d → v.Dir t p d := by
    intro p d hd
    induction hd with
    | root => exact .root
    | sub hd he howns hdir ih => exact .sub ih ((hentries hd).symm ▸ he) howns hdir
  have howner : ∀ {o c}, v.Owner t o c → v.Owner s o c := by
    intro o c ho
    cases ho with
    | root => exact .root
    | entry hd he howns => exact .entry (hback hd) (hentries (hback hd) ▸ he) howns
  refine ⟨⟨hhint, h.root, ?_, ?_, ?_⟩, ⟨hforth, ?_, ?_⟩, howner⟩
  · intro p d e hd he howns hdir
    exact h.dirs (hback hd) (hentries (hback hd) ▸ he) howns hdir
  · intro o c ho hk
    obtain ⟨hin, l, hl⟩ := h.chains (howner ho) hk
    exact ⟨hin, l, (hsame (howner ho) hk).chain hl⟩
  · intro o c o' c' ho ho' hk hk' hne
    obtain ⟨-, l, hl⟩ := h.chains (howner ho) hk
    obtain ⟨-, l', hl'⟩ := h.chains (howner ho') hk'
    rw [(hsame (howner ho) hk).clustersFrom hl, (hsame (howner ho') hk').clustersFrom hl']
    exact h.apart (howner ho) (howner ho') hk hk' hne
  · intro p d e hd he _
    exact (hentries hd).symm ▸ he
  · intro o c ho hk _
    exact hsame ho hk

end Core

section Place

variable {e₀ : Entry}

/-- One entry of a directory is laid, with its chain at hand; the directory may grow by free clusters. -/
structure Place (v : Layout) (s t : Fat32) (d : ℕ) (e₀ : Entry) : Prop where
  hint : v.Inside t.hint
  grown : ∃ extra, v.Chain t d (v.clustersFrom s d ++ extra) ∧ ∀ x ∈ extra, s.next x = 0
  others : ∀ {o c}, v.Owner s o c → o ≠ some (d, e₀.slot) → c ≠ d → v.Untouched s t c
  mem_iff : ∀ {e}, e ∈ v.entries t d ↔ e = e₀ ∨ e ∈ v.entries s d ∧ e.slot ≠ e₀.slot
  reserved : e₀.cluster ≠ 0 → v.Inside e₀.cluster ∧ ∃ l, v.Chain t e₀.cluster l ∧
    (∀ x ∈ l, s.next x ≠ 0) ∧
    ∀ {o c}, v.Owner s o c → o ≠ some (d, e₀.slot) → ∀ x ∈ l, x ∉ v.clustersFrom s c
  leaf : e₀.IsDir → ∀ e ∈ v.entries t e₀.cluster, ¬e.Owns d e₀.cluster

theorem Place.dirs (h : v.Core s (· ≠ some (d, e₀.slot))) (k : v.Place s t d e₀) {q x : ℕ} (hx : v.Dir s q x) :
    v.Dir t q x := by
  induction hx with
  | root => exact .root
  | @sub q x e hd he howns hdir ih =>
    have hkeep := h.dirs hd he howns hdir
    refine .sub ih ?_ howns hdir
    by_cases hxd : x = d
    · subst hxd
      exact k.mem_iff.mpr (Or.inr ⟨he, fun heq ↦ hkeep (by rw [heq])⟩)
    · obtain ⟨o, ho, hk⟩ := h.owner hd
      obtain ⟨-, l, hl⟩ := h.chains ho hk
      rwa [(k.others ho hk hxd).entries hl]

theorem Place.dirs_back (h : v.Core s (· ≠ some (d, e₀.slot))) (k : v.Place s t d e₀) {q x : ℕ}
    (hx : v.Dir t q x) : v.Dir s q x ∨ q = d ∧ x = e₀.cluster ∧ e₀.IsDir := by
  induction hx with
  | root => exact Or.inl .root
  | @sub q x e hd he howns hdir ih =>
    rcases ih with hold | ⟨rfl, rfl, hnew⟩
    · by_cases hxd : x = d
      · subst hxd
        rcases k.mem_iff.mp he with rfl | ⟨hin, -⟩
        · exact Or.inr ⟨rfl, rfl, hdir⟩
        · exact Or.inl (.sub hold hin howns hdir)
      · obtain ⟨o, ho, hk⟩ := h.owner hold
        obtain ⟨-, l, hl⟩ := h.chains ho hk
        rw [(k.others ho hk hxd).entries hl] at he
        exact Or.inl (.sub hold he howns hdir)
    · exact absurd howns (k.leaf hnew e he)

theorem Place.owner_back (h : v.Core s (· ≠ some (d, e₀.slot))) (k : v.Place s t d e₀) {o : Option (ℕ × ℕ)}
    (ho : v.Owner t o c) : o = some (d, e₀.slot) ∧ c = e₀.cluster ∧ e₀.cluster ≠ 0 ∨
      v.Owner s o c ∧ o ≠ some (d, e₀.slot) := by
  cases ho with
  | root => exact Or.inr ⟨.root, by simp⟩
  | @entry q x e hd he howns =>
    rcases k.dirs_back h hd with hold | ⟨rfl, rfl, hnew⟩
    · by_cases hxd : x = d
      · subst hxd
        rcases k.mem_iff.mp he with rfl | ⟨hin, hslot⟩
        · exact Or.inl ⟨rfl, rfl, howns.1⟩
        · exact Or.inr ⟨.entry hold hin howns, fun heq ↦ hslot (by simpa using heq)⟩
      · obtain ⟨o, ho, hk⟩ := h.owner hold
        obtain ⟨-, l, hl⟩ := h.chains ho hk
        rw [(k.others ho hk hxd).entries hl] at he
        exact Or.inr ⟨.entry hold he howns, fun heq ↦ hxd (by simp_all)⟩
    · exact absurd howns (k.leaf hnew e he)

/-- The chains of the volume after the entry is laid. -/
theorem Core.place (h : v.Core s (· ≠ some (d, e₀.slot))) (hv : v.Valid) (k : v.Place s t d e₀) :
    v.Sound t ∧ v.Kept s t (· ≠ some (d, e₀.slot)) d := by
  obtain ⟨extra, hgrown, hfree⟩ := k.grown
  have hchain : ∀ {o c}, v.Owner s o c → o ≠ some (d, e₀.slot) →
      ∃ l, v.Chain t c l ∧ ∀ x ∈ l, x ∈ v.clustersFrom s c ∨ c = d ∧ s.next x = 0 := by
    intro o c ho hk
    by_cases hcd : c = d
    · subst hcd
      refine ⟨_, hgrown, fun x hx ↦ ?_⟩
      rcases List.mem_append.mp hx with hold | hnew
      · exact Or.inl hold
      · exact Or.inr ⟨rfl, hfree x hnew⟩
    · obtain ⟨-, l, hl⟩ := h.chains ho hk
      exact ⟨l, (k.others ho hk hcd).chain hl, fun x hx ↦ Or.inl (by rwa [hl.clustersFrom])⟩
  have hused : ∀ {o c}, v.Owner s o c → o ≠ some (d, e₀.slot) →
      ∀ x ∈ v.clustersFrom s c, s.next x ≠ 0 := by
    intro o c ho hk x hx
    obtain ⟨-, l, hl⟩ := h.chains ho hk
    rw [hl.clustersFrom] at hx
    exact hl.next_ne hx
  have hnew : ∀ {o c}, v.Owner s o c → o ≠ some (d, e₀.slot) → e₀.cluster ≠ 0 →
      ∀ x ∈ v.clustersFrom t c, x ∉ v.clustersFrom t e₀.cluster := by
    intro o c ho hk hne x hx hmem
    obtain ⟨-, l, hl, hlused, hlapart⟩ := k.reserved hne
    obtain ⟨l', hl', hfrom⟩ := hchain ho hk
    rw [hl'.clustersFrom] at hx
    rw [hl.clustersFrom] at hmem
    rcases hfrom x hx with hold | ⟨-, hzero⟩
    · exact hlapart ho hk x hmem hold
    · exact hlused x hmem hzero
  refine ⟨⟨k.hint, trivial, fun _ _ _ _ ↦ trivial, ?_, ?_⟩, ⟨k.dirs h, ?_, k.others⟩⟩
  · intro o c ho _
    rcases k.owner_back h ho with ⟨-, rfl, hne⟩ | ⟨hold, hk⟩
    · obtain ⟨hin, l, hl, -⟩ := k.reserved hne
      exact ⟨hin, l, hl⟩
    · obtain ⟨l, hl, -⟩ := hchain hold hk
      exact ⟨(h.chains hold hk).1, l, hl⟩
  · intro o c o' c' ho ho' _ _ hne
    rcases k.owner_back h ho with ⟨rfl, rfl, hc⟩ | ⟨hold, hk⟩
    · rcases k.owner_back h ho' with ⟨rfl, -, -⟩ | ⟨hold', hk'⟩
      · exact absurd rfl hne
      · exact fun x hx hx' ↦ hnew hold' hk' hc x hx' hx
    · rcases k.owner_back h ho' with ⟨rfl, rfl, hc⟩ | ⟨hold', hk'⟩
      · exact hnew hold hk hc
      · obtain ⟨l, hl, hfrom⟩ := hchain hold hk
        obtain ⟨l', hl', hfrom'⟩ := hchain hold' hk'
        rw [hl.clustersFrom, hl'.clustersFrom]
        intro x hx hx'
        rcases hfrom x hx with hin | ⟨rfl, hzero⟩
        · rcases hfrom' x hx' with hin' | ⟨-, hzero⟩
          · exact h.apart hold hold' hk hk' hne x hin hin'
          · exact hused hold hk x hin hzero
        · rcases hfrom' x hx' with hin' | ⟨rfl, -⟩
          · exact hused hold' hk' x hin' hzero
          · exact hne (h.ref_eq hv hold hold' hk hk')
  · intro q x e hd he hk
    by_cases hxd : x = d
    · subst hxd
      exact k.mem_iff.mpr (Or.inr ⟨he, fun heq ↦ hk (by rw [heq])⟩)
    · obtain ⟨o, ho, hko⟩ := h.owner hd
      obtain ⟨-, l, hl⟩ := h.chains ho hko
      rwa [(k.others ho hko hxd).entries hl]

end Place

end Layout

end Cdj2000Emulator.Card
