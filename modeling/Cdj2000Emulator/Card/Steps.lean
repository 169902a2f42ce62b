import Cdj2000Emulator.Card.Entries
import Cdj2000Emulator.Card.Volume

namespace Cdj2000Emulator.Card

open Function Library.Bytes Library.Chains Library.Stateful

namespace Layout

variable {v : Layout} {s t u : Fat32} {c d p count : ℕ} {l : List ℕ} {data : List Byte}
  {keep : Option (ℕ × ℕ) → Prop} {A B : ℕ}

/-- A step of the volume that frees no cluster and leaves the slots in `keep` as they are. -/
structure Moves (v : Layout) (s t : Fat32) (keep : Option (ℕ × ℕ) → Prop) (changed : ℕ) : Prop where
  core : v.Core t keep
  kept : v.Kept s t keep changed
  used : ∀ x, s.next x ≠ 0 → t.next x ≠ 0

theorem Core.refl (h : v.Core s keep) : v.Moves s s keep A := ⟨h, .refl A, fun _ hx ↦ hx⟩

theorem Moves.trans (hs : v.Core s keep) (h : v.Moves s t keep A) (k : v.Moves t u keep B)
    (hAB : ∀ {o c}, v.Owner s o c → keep o → c ≠ A → c ≠ B) : v.Moves s u keep A :=
  ⟨k.core, h.kept.trans hs k.kept (fun _ hk ↦ hk) (fun _ _ hk ↦ hk) hAB, fun x hx ↦ k.used x (h.used x hx)⟩

/-- A chain, none if it is empty, that no slot leads to. -/
structure Spare (v : Layout) (s : Fat32) (keep : Option (ℕ × ℕ) → Prop) (l : List ℕ) : Prop where
  chain : ∀ first, l.head? = some first → v.Chain s first l
  apart : ∀ {o c}, v.Owner s o c → keep o → ∀ x ∈ l, x ∉ v.clustersFrom s c

section Spare

theorem Spare.chain_of_ne (h : v.Spare s keep l) (hl : l ≠ []) :
    ∃ first, l.head? = some first ∧ v.Chain s first l := by
  cases l with
  | nil => exact absurd rfl hl
  | cons first rest => exact ⟨first, rfl, h.chain first rfl⟩

theorem Spare.inside (h : v.Spare s keep l) {x : ℕ} (hx : x ∈ l) : v.Inside x := by
  obtain ⟨first, -, hchain⟩ := h.chain_of_ne (List.ne_nil_of_mem hx)
  exact hchain.inside hx

theorem Spare.of_moves (h : v.Spare s keep l) (hs : v.Core s keep)
    (hnext : ∀ x ∈ l, t.next x = s.next x) (hsame : ∀ {o c}, v.Owner s o c → keep o → v.Untouched s t c)
    (hback : ∀ {o c}, v.Owner t o c → v.Owner s o c) : v.Spare t keep l where
  chain := fun first hfirst ↦ Linked.congr (h.chain first hfirst) hnext
  apart := by
    intro o c ho hk x hx
    obtain ⟨-, l', hl'⟩ := hs.chains (hback ho) hk
    rw [(hsame (hback ho) hk).clustersFrom hl']
    exact h.apart (hback ho) hk x hx

/-- `alloc` takes clusters that no chain goes through. -/
theorem Core.alloc (h : v.Core s keep) (hv : v.Valid) (ha : v.alloc count s = (t, .ok l)) :
    v.Moves s t keep A ∧ v.Spare t keep l := by
  have hnew := alloc_ok hv h.hint ha
  have hsame : ∀ {o c}, v.Owner s o c → keep o → v.Untouched s t c := by
    intro o c ho hk x hx
    obtain ⟨-, l', hl'⟩ := h.chains ho hk
    rw [hl'.clustersFrom] at hx
    have hused := hl'.next_ne hx
    exact ⟨hnew.others x fun hmem ↦ hused (hnew.fresh.free x hmem).2, by rw [hnew.image]⟩
  obtain ⟨hcore, hkept, hback⟩ := h.frame hnew.hint hsame A
  refine ⟨⟨hcore, hkept, fun x hx ↦ ?_⟩, hnew.chain, ?_⟩
  · rwa [hnew.others x fun hmem ↦ hx (hnew.fresh.free x hmem).2]
  · intro o c ho hk x hx hmem
    obtain ⟨-, l', hl'⟩ := h.chains (hback ho) hk
    rw [(hsame (hback ho) hk).clustersFrom hl', hl'.clustersFrom] at hmem
    exact hl'.next_ne hmem (hnew.fresh.free x hx).2

theorem Core.write (h : v.Core s keep) (hl : v.Spare s keep l) :
    v.Moves s (v.writeChain l data s) keep A ∧ v.Spare (v.writeChain l data s) keep l := by
  have hnext := writeChain_next (v := v) l data s
  have hsame : ∀ {o c}, v.Owner s o c → keep o → v.Untouched s (v.writeChain l data s) c := by
    intro o c ho hk x hx
    obtain ⟨-, l', hl'⟩ := h.chains ho hk
    have hin : v.Inside x := hl'.inside (by rwa [hl'.clustersFrom] at hx)
    exact ⟨by rw [hnext], readAt_writeChain_apart (fun y hy ↦ (hl.inside hy).1) hin.1 fun hmem ↦
      hl.apart ho hk x hmem hx⟩
  have hhint : v.Inside (v.writeChain l data s).hint := by
    rw [(writeChain_table l data s).2]
    exact h.hint
  obtain ⟨hcore, hkept, hback⟩ := h.frame hhint hsame A
  refine ⟨⟨hcore, hkept, fun x hx ↦ by rwa [hnext]⟩, hl.of_moves h (fun x _ ↦ by rw [hnext]) hsame hback⟩

end Spare

section Laying

variable {raws : List (List Byte)} {extra l₀ : List ℕ} {e₀ : Entry} {o : Option (ℕ × ℕ)}

theorem Owner.cluster_eq (h : v.Owner s o c) (h' : v.Owner s o d) : c = d := by
  cases h with
  | root =>
    cases h'
    rfl
  | @entry p x e _ he _ =>
    generalize href : some (x, e.slot) = ref at h'
    cases h' with
    | root => cases href
    | entry _ he' _ =>
      simp only [Option.some.injEq, Prod.mk.injEq] at href
      obtain ⟨rfl, hslot⟩ := href
      rw [slot_inj he he' hslot]

theorem entries_zero : v.entries s 0 = [] := by
  have hfollow : follow v.clusters s.next (v.clusters + 1) 0 = some [] := by
    unfold follow
    rw [if_neg (by decide)]
  have hslots : slots [] = [] := slots_flatten (show Whole [] from fun _ hraw ↦ absurd hraw List.not_mem_nil)
  rw [entries, bytes, clustersFrom, hfollow, Option.getD_some, contents_nil, hslots]
  rfl

/-- The chain of a directory, led on to free clusters. -/
structure Grown (v : Layout) (s t : Fat32) (d : ℕ) (l extra : List ℕ) : Prop where
  chain : v.Chain t d (l ++ extra)
  free : ∀ x ∈ extra, s.next x = 0
  image : t.image = s.image
  next : ∀ x ∉ l ++ extra, t.next x = s.next x
  hint : v.Inside t.hint

theorem Grown.refl (hl : v.Chain s d l) (hhint : v.Inside s.hint) : v.Grown s s d l [] :=
  ⟨by rwa [List.append_nil], fun _ hx ↦ absurd hx List.not_mem_nil, rfl, fun _ _ ↦ rfl, hhint⟩

theorem entries_writeChain (hl : v.Chain s d l) (hwhole : Whole raws)
    (hsize : raws.length * entrySize = l.length * v.cluster) :
    v.entries (v.writeChain l raws.flatten s) d = scanSlots 0 [] raws := by
  have hnext := writeChain_next (v := v) l raws.flatten s
  have hchain : v.Chain (v.writeChain l raws.flatten s) d l := Linked.congr hl fun x _ ↦ by rw [hnext]
  have hflat : raws.flatten.length = l.length * v.cluster := by rw [length_flatten hwhole, hsize]
  have hfull : ljust (l.length * v.cluster) 0 raws.flatten = raws.flatten := by
    rw [ljust, hflat, Nat.sub_self, List.replicate_zero, List.append_nil]
  rw [entries, bytes, hchain.clustersFrom,
    contents_writeChain hl.nodup (fun x hx ↦ (hl.inside hx).1) hflat.le, hfull, slots_flatten hwhole]

theorem Core.lay (h : v.Core s (· ≠ some (d, e₀.slot))) (hv : v.Valid) (hd : v.Dir s p d) (hl : v.Chain s d l)
    (g : v.Grown s t d l extra) (hwhole : Whole raws)
    (hsize : raws.length * entrySize = (l ++ extra).length * v.cluster)
    (hmem : ∀ e, e ∈ scanSlots 0 [] raws ↔ e = e₀ ∨ e ∈ v.entries s d ∧ e.slot ≠ e₀.slot)
    (hspare : v.Spare s (· ≠ some (d, e₀.slot)) l₀)
    (hfirst : e₀.cluster ≠ 0 → l₀.head? = some e₀.cluster)
    (hleaf : e₀.IsDir → ∀ e ∈ v.entries s e₀.cluster, ¬e.Owns d e₀.cluster) :
    v.Sound (v.writeChain (l ++ extra) raws.flatten t) ∧
    v.Kept s (v.writeChain (l ++ extra) raws.flatten t) (· ≠ some (d, e₀.slot)) d ∧
    (∀ x, s.next x ≠ 0 → (v.writeChain (l ++ extra) raws.flatten t).next x ≠ 0) ∧
    (e₀.cluster ≠ 0 → v.Untouched s (v.writeChain (l ++ extra) raws.flatten t) e₀.cluster) := by
  have hnext := writeChain_next (v := v) (l ++ extra) raws.flatten t
  have hentries := entries_writeChain g.chain hwhole hsize
  obtain ⟨o, ho, hk⟩ := h.owner hd
  have houtside : ∀ x, s.next x ≠ 0 → x ∉ l → v.Inside x →
      (v.writeChain (l ++ extra) raws.flatten t).next x = s.next x ∧
      readAt (v.writeChain (l ++ extra) raws.flatten t).image (v.offset x) v.cluster =
        readAt s.image (v.offset x) v.cluster := by
    intro x hused hx hin
    have hnot : x ∉ l ++ extra := by
      rw [List.mem_append, not_or]
      exact ⟨hx, fun hmem ↦ hused (g.free x hmem)⟩
    refine ⟨by rw [hnext, g.next x hnot], ?_⟩
    rw [readAt_writeChain_apart (fun y hy ↦ (g.chain.inside hy).1) hin.1 hnot, g.image]
  have hspared : ∀ x ∈ l₀, s.next x ≠ 0 ∧ x ∉ l ∧ v.Inside x := by
    intro x hx
    obtain ⟨first, -, hchain⟩ := hspare.chain_of_ne (List.ne_nil_of_mem hx)
    refine ⟨hchain.next_ne hx, fun hmem ↦ hspare.apart ho hk x hx ?_, hchain.inside hx⟩
    rwa [hl.clustersFrom]
  have huntouched : e₀.cluster ≠ 0 → v.Untouched s (v.writeChain (l ++ extra) raws.flatten t) e₀.cluster := by
    intro hne x hx
    rw [(hspare.chain _ (hfirst hne)).clustersFrom] at hx
    exact houtside x (hspared x hx).1 (hspared x hx).2.1 (hspared x hx).2.2
  have hplace : v.Place s (v.writeChain (l ++ extra) raws.flatten t) d e₀ := by
    refine ⟨?_, ⟨extra, ?_, g.free⟩, ?_, ?_, ?_, ?_⟩
    · rw [(writeChain_table _ _ _).2]
      exact g.hint
    · rw [hl.clustersFrom]
      exact Linked.congr g.chain fun x _ ↦ by rw [hnext]
    · intro o' c ho' hk' hne x hx
      obtain ⟨-, l', hl'⟩ := h.chains ho' hk'
      have hx' : x ∈ l' := by rwa [hl'.clustersFrom] at hx
      refine houtside x (hl'.next_ne hx') (fun hmem ↦ ?_) (hl'.inside hx')
      refine h.apart ho' ho hk' hk (fun heq ↦ hne (Owner.cluster_eq ho' (heq ▸ ho))) x hx ?_
      rwa [hl.clustersFrom]
    · intro e
      rw [hentries]
      exact hmem e
    · intro hne
      have hchain := hspare.chain _ (hfirst hne)
      refine ⟨hchain.inside (List.mem_of_mem_head? (hfirst hne)), l₀,
        Linked.congr hchain fun x hx ↦ (houtside x (hspared x hx).1 (hspared x hx).2.1 (hspared x hx).2.2).1,
        fun x hx ↦ (hspared x hx).1, hspare.apart⟩
    · intro hdir
      by_cases hne : e₀.cluster = 0
      · rw [hne, entries_zero]
        exact fun e he ↦ absurd he List.not_mem_nil
      · rw [(huntouched hne).entries (hspare.chain _ (hfirst hne))]
        exact hleaf hdir
  obtain ⟨hsound, hkept⟩ := h.place hv hplace
  refine ⟨hsound, hkept, fun x hx ↦ ?_, huntouched⟩
  rw [hnext]
  by_cases hmem : x ∈ l ++ extra
  · exact g.chain.next_ne hmem
  · rwa [g.next x hmem]

end Laying

section AddingEntry

variable {upper : Str → Str} {name : Str} {attr : Byte} {cluster size : ℕ} {extra l₀ : List ℕ}

/-- The entry that `add_entry` makes in a directory for a name. -/
def Makes (v : Layout) (upper : Str → Str) (s : Fat32) (d : ℕ) (name : Str) (attr : Byte) (cluster size : ℕ)
    (e₀ : Entry) : Prop :=
  ∃ new long short start, newEntries upper (v.entries s d) name attr cluster size = .ok new ∧
    New ((v.entries s d).map Entry.short) attr cluster size new long short ∧
    (if fits83 upper name then .ok [] else lfnEntries name short) = .ok long ∧
    shortName upper name ((v.entries s d).map Entry.short) = .ok short ∧
    e₀ = laidEntry (slots (v.bytes s d)) long start (shortEntry short attr cluster size)

/-- What `add_entry` leaves. -/
structure Added (v : Layout) (upper : Str → Str) (s t : Fat32) (d : ℕ) (name : Str) (attr : Byte)
    (cluster size : ℕ)
    (e₀ : Entry) : Prop where
  moves : v.Moves s t (fun _ ↦ True) d
  mem_iff : ∀ e, e ∈ v.entries t d ↔ e = e₀ ∨ e ∈ v.entries s d
  makes : v.Makes upper s d name attr cluster size e₀
  lead : e₀.cluster = cluster ∧ e₀.attr = attr ∧ e₀.size = size
  untouched : cluster ≠ 0 → v.Untouched s t cluster

theorem Chain.slots_bytes (hl : v.Chain s d l) (hv : v.Valid) :
    (slots (v.bytes s d)).flatten = v.bytes s d ∧ Whole (slots (v.bytes s d)) ∧
    (slots (v.bytes s d)).length * entrySize = l.length * v.cluster := by
  have hlength : (v.bytes s d).length = l.length * v.cluster := by
    rw [bytes, hl.clustersFrom, length_contents]
  have hdvd : entrySize ∣ (v.bytes s d).length := hlength ▸ ((Nat.dvd_mul_left _ _).trans hv.entries).mul_left _
  obtain ⟨hflat, hwhole, -⟩ := slots_spec hdvd
  refine ⟨hflat, hwhole, ?_⟩
  rw [← length_flatten hwhole, hflat, hlength]

theorem Core.weaken {k : ℕ} (h : v.Sound s) (hslot : ∀ e ∈ v.entries s d, e.slot ≠ k) :
    v.Core s (· ≠ some (d, k)) ∧ ∀ {o c}, v.Owner s o c → o ≠ some (d, k) := by
  have hentry : ∀ {x e}, e ∈ v.entries s x → some (x, e.slot) ≠ some (d, k) := by
    intro x e he heq
    simp only [Option.some.injEq, Prod.mk.injEq] at heq
    obtain ⟨rfl, hk⟩ := heq
    exact hslot e he hk
  refine ⟨⟨h.hint, by simp, fun _ he _ _ ↦ hentry he, fun ho _ ↦ h.chains ho trivial,
    fun ho ho' _ _ ↦ h.apart ho ho' trivial trivial⟩, fun ho ↦ ?_⟩
  cases ho with
  | root => simp
  | entry _ he _ => exact hentry he

theorem added_of_room {new zeros raws : List (List Byte)} {start : ℕ} {atEnd : Bool} (hs : v.Sound s) (hv : v.Valid)
    (hupper : ∀ text, 0 ∉ text → 0 ∉ upper text) (hname : 0 ∉ name) (hd : v.Dir s p d) (hattr : attr ≠ 0x0f)
    (hspare : v.Spare s (fun _ ↦ True) l₀) (hfirst : cluster ≠ 0 → l₀.head? = some cluster)
    (hleaf : attr &&& 0x10 ≠ 0 → ∀ e ∈ v.entries s cluster, ¬e.Owns d cluster)
    (hnew : newEntries upper (v.entries s d) name attr cluster size = .ok new)
    (hl : v.Chain s d l) (g : v.Grown s t d l extra) (hraws : slots (v.bytes s d) = raws)
    (hwhole : Whole (raws ++ zeros))
    (hzeros : ∀ raw ∈ zeros, raw.getD 0 0 = 0) (hstart : start ≤ raws.length)
    (hsize : (raws ++ zeros).length * entrySize = (l ++ extra).length * v.cluster)
    (hroom : Room (firsts (raws ++ zeros)) new.length start atEnd) :
    ∃ e₀, v.Added upper s (v.writeChain (l ++ extra) (endAfter atEnd ((start + new.length) * entrySize)
      (splice (raws ++ zeros).flatten (start * entrySize) new.flatten)) t) d name attr cluster size e₀ := by
  obtain ⟨long, short, hshort, hlong, hmade⟩ := newEntries_ok hupper hname hnew
  have hold : scanSlots 0 [] (raws ++ zeros) = v.entries s d := by
    rw [scanSlots_zeros hzeros, entries, hraws]
  obtain ⟨hmem, hslot⟩ := hmade.mem_iff hattr hroom
  rw [hold] at hmem hslot
  have hfits := hroom.fits
  rw [firsts, List.length_map] at hfits
  have hlaid : laidEntry (raws ++ zeros) long start (shortEntry short attr cluster size) =
      laidEntry raws long start (shortEntry short attr cluster size) := by
    rw [laidEntry, laidEntry, List.take_append_of_le_length hstart]
  rw [place_flatten hwhole hmade.whole hfits]
  rw [hlaid] at hmem
  obtain ⟨hcluster, hattr₀, hsize₀, hslot₀⟩ := New.laidEntry hmade
  rw [← hslot₀] at hslot
  have hmakes : v.Makes upper s d name attr cluster size
      (laidEntry raws long start (shortEntry short attr cluster size)) := by
    subst hraws
    exact ⟨new, long, short, start, hnew, hmade, hlong, hshort, rfl⟩
  generalize laidEntry raws long start (shortEntry short attr cluster size) = e₀ at *
  obtain ⟨hweak, hnone⟩ := Core.weaken hs hslot
  have hmem' : ∀ e, e ∈ scanSlots 0 [] ((raws ++ zeros).take start ++ new ++
      closed atEnd ((raws ++ zeros).drop (start + new.length))) ↔ e = e₀ ∨ e ∈ v.entries s d ∧
        e.slot ≠ e₀.slot :=
    fun e ↦ (hmem e).trans (or_congr_right ⟨fun he ↦ ⟨he, hslot e he⟩, And.left⟩)
  have hlaidsize : ((raws ++ zeros).take start ++ new ++ closed atEnd
      ((raws ++ zeros).drop (start + new.length))).length *
      entrySize = (l ++ extra).length * v.cluster := by
    rw [← hsize, List.length_append, List.length_append, length_closed, List.length_take, List.length_drop]
    congr 1
    omega
  have hlaidraws : Whole ((raws ++ zeros).take start ++ new ++ closed atEnd
      ((raws ++ zeros).drop (start + new.length))) :=
    ((hwhole.take start).append hmade.whole).append (hwhole.drop _).closed
  obtain ⟨hsound, hkept, hused, huntouched⟩ := hweak.lay hv hd hl g hlaidraws hlaidsize hmem'
    ⟨hspare.chain, fun ho _ ↦ hspare.apart ho trivial⟩ (by rwa [hcluster])
      (by rwa [Entry.IsDir, hattr₀, hcluster])
  refine ⟨e₀, ⟨hsound, hkept.mono (fun ho _ ↦ hnone ho) ?_, hused⟩, fun e ↦ ?_, hmakes,
    ⟨hcluster, hattr₀, hsize₀⟩, hcluster ▸ huntouched⟩
  · intro q x e _ he _ heq
    simp only [Option.some.injEq, Prod.mk.injEq] at heq
    obtain ⟨rfl, hk⟩ := heq
    exact hslot e he hk
  · rw [entries_writeChain g.chain hlaidraws hlaidsize]
    exact hmem e

/-- A directory led on to free clusters. -/
theorem grown_of_alloc {last first : ℕ} (hs : v.Sound s) (hv : v.Valid) (hl : v.Chain s d l)
    (ha : v.alloc count s = (t, .ok extra)) (hlast : l.getLast? = some last) (hfirst : extra.head? = some first) :
    v.Grown s (t.set last first) d l extra := by
  have hnew := alloc_ok hv hs.hint ha
  have hchain := hnew.chain first hfirst
  have hin : v.Inside first := hchain.inside (List.mem_of_mem_head? hfirst)
  have hsmall : first < 2 ^ 28 := by
    have := hv.few
    rw [Inside] at hin
    rw [endMark] at this
    omega
  have hnext : (t.set last first).next = update t.next last first := next_set hsmall
  have hfree : ∀ x ∈ extra, s.next x = 0 := fun x hx ↦ (hnew.fresh.free x hx).2
  have hapart : ∀ x ∈ l, x ∉ extra := fun x hx hmem ↦ hl.next_ne hx (hfree x hmem)
  have hne : l ≠ [] := by
    rintro rfl
    cases hlast
  have hend : l.getLast hne = last := by
    rw [List.getLast?_eq_some_getLast hne, Option.some.injEq] at hlast
    exact hlast
  have hl' : v.Chain t d l := Linked.congr hl fun x hx ↦ hnew.others x (hapart x hx)
  refine ⟨?_, hfree, hnew.image, fun x hx ↦ ?_, hnew.hint⟩
  · rw [Chain, hnext, ← hend]
    exact Linked.append hl' hne hchain hapart
  · rw [List.mem_append, not_or] at hx
    have hother : x ≠ last := fun heq ↦ hx.1 (by rw [heq, ← hend]; exact List.getLast_mem hne)
    rw [hnext, update_of_ne hother, hnew.others x hx.2]

theorem le_ceil_mul {a b : ℕ} (hb : 0 < b) : a ≤ (a + b - 1) / b * b := by
  have hsplit := Nat.div_add_mod (a + b - 1) b
  have hmod := Nat.mod_lt (a + b - 1) hb
  rw [Nat.mul_comm]
  omega

theorem addEntry_ok (hs : v.Sound s) (hv : v.Valid) (hupper : ∀ text, 0 ∉ text → 0 ∉ upper text)
    (hname : 0 ∉ name)
    (hd : v.Dir s p d) (hattr : attr ≠ 0x0f) (hspare : v.Spare s (fun _ ↦ True) l₀)
    (hfirst : cluster ≠ 0 → l₀.head? = some cluster)
    (hleaf : attr &&& 0x10 ≠ 0 → ∀ e ∈ v.entries s cluster, ¬e.Owns d cluster)
    (h : v.addEntry upper d name attr cluster size s = (t, .ok ())) :
    ∃ e₀, v.Added upper s t d name attr cluster size e₀ := by
  obtain ⟨o, ho, -⟩ := hs.owner hd
  obtain ⟨-, l, hl⟩ := hs.chains ho trivial
  obtain ⟨hflat, hwhole, hslots⟩ := hl.slots_bytes hv
  have hcount : (v.bytes s d).length / entrySize = (slots (v.bytes s d)).length := by
    rw [← hflat, length_flatten hwhole, hflat, Nat.mul_div_cancel _ (by decide)]
  rw [addEntry, Machine.bind_apply, listing_eq hl] at h
  dsimp only at h
  rw [Machine.bind_apply, Machine.ofExcept_apply] at h
  cases hnew : newEntries upper (v.entries s d) name attr cluster size with
  | error e =>
    rw [hnew] at h
    cases h
  | ok new =>
    rw [hnew] at h
    dsimp only at h
    obtain ⟨long, short, -, -, hmade⟩ := newEntries_ok hupper hname hnew
    have hneed : 0 < new.length := by
      rw [hmade.eq, List.length_append, List.length_singleton]
      exact Nat.succ_pos _
    have hfirsts : (slots (v.bytes s d)).map (·.getD 0 0) = firsts (slots (v.bytes s d)) := rfl
    rw [hcount, hfirsts] at h
    cases hfind : findRun (slots (v.bytes s d)).length new.length 0 0 (firsts (slots (v.bytes s d))) with
    | some place =>
      obtain ⟨start, atEnd⟩ := place
      have hroom : Room (firsts (slots (v.bytes s d))) new.length start atEnd := by
        refine findRun_some hneed ?_
        rw [firsts, List.length_map]
        exact hfind
      have hfits := hroom.fits
      rw [firsts, List.length_map] at hfits
      rw [hfind] at h
      dsimp only at h
      rw [Machine.modify_apply, Prod.mk.injEq] at h
      obtain ⟨rfl, -⟩ := h
      have hadded : ∃ e₀, v.Added upper s (v.writeChain (l ++ []) (endAfter atEnd ((start + new.length) * entrySize)
          (splice (slots (v.bytes s d) ++ []).flatten
            (start * entrySize) new.flatten)) s) d name attr cluster size e₀ := by
        refine added_of_room hs hv hupper hname hd hattr hspare hfirst hleaf hnew hl (.refl hl hs.hint) rfl ?_
          (fun _ hr ↦ absurd hr List.not_mem_nil) (by omega) ?_ ?_
        · rwa [List.append_nil]
        · rwa [List.append_nil, List.append_nil]
        · rwa [List.append_nil]
      rwa [List.append_nil, List.append_nil, hflat] at hadded
    | none =>
      rw [hfind] at h
      dsimp only at h
      set start := (firsts (slots (v.bytes s d))).findIdx (· = 0) with hstart
      obtain ⟨extra, t₁, halloc, h⟩ := Machine.bind_ok.mp h
      cases hlast : l.getLast? with
      | none =>
        rw [hlast] at h
        cases h
      | some last =>
      cases hhead : extra.head? with
      | none =>
        rw [hlast, hhead] at h
        cases h
      | some first =>
        rw [hlast, hhead] at h
        dsimp only at h
        rw [Machine.bind_apply, Machine.modify_apply] at h
        dsimp only at h
        rw [Machine.modify_apply, Prod.mk.injEq] at h
        obtain ⟨rfl, -⟩ := h
        have hzeros : (List.replicate (extra.length * (v.cluster / entrySize))
            (List.replicate entrySize (0 : Byte))).flatten =
            List.replicate (extra.length * v.cluster) 0 := by
          rw [List.flatten_replicate_replicate, Nat.mul_assoc,
            Nat.div_mul_cancel ((Nat.dvd_mul_left _ _).trans hv.entries)]
        have hwholezeros : Whole (List.replicate (extra.length * (v.cluster / entrySize))
            (List.replicate entrySize (0 : Byte))) := by
          intro raw hraw
          rw [List.eq_of_mem_replicate hraw, List.length_replicate]
        have hnull : ∀ raw ∈ List.replicate (extra.length * (v.cluster / entrySize))
            (List.replicate entrySize (0 : Byte)),
            raw.getD 0 0 = 0 := by
          intro raw hraw
          rw [List.eq_of_mem_replicate hraw]
          rfl
        have hzerosize := length_flatten hwholezeros
        rw [hzeros, List.length_replicate] at hzerosize
        generalize List.replicate (extra.length * (v.cluster / entrySize))
          (List.replicate entrySize (0 : Byte)) = zeros at *
        have hgrown := grown_of_alloc hs hv hl halloc hlast hhead
        have hle : start ≤ (slots (v.bytes s d)).length := by
          have hend : start ≤ (firsts (slots (v.bytes s d))).length := List.findIdx_le_length
          rwa [firsts, List.length_map] at hend
        have hsize : (slots (v.bytes s d) ++ zeros).length * entrySize = (l ++ extra).length * v.cluster := by
          rw [List.length_append, List.length_append, Nat.add_mul, Nat.add_mul, hslots, hzerosize]
        have hfits : start + new.length < (slots (v.bytes s d) ++ zeros).length := by
          have hcount := (alloc_ok hv hs.hint halloc).length
          have hbytes : (v.bytes s d).length = l.length * v.cluster := by
            rw [← hflat, length_flatten hwhole, hslots]
          have hceil := le_ceil_mul (a := (start + new.length + 1) * entrySize - (v.bytes s d).length) hv.cluster_pos
          rw [← hcount, hbytes] at hceil
          refine Nat.lt_of_mul_lt_mul_right (a := entrySize) ?_
          have hsum : (l ++ extra).length * v.cluster = l.length * v.cluster + extra.length * v.cluster := by
            rw [List.length_append, Nat.add_mul]
          rw [hsize, hsum]
          rw [Nat.add_one_mul] at hceil
          have : 0 < entrySize := by decide
          omega
        have hadded := added_of_room hs hv hupper hname hd hattr hspare hfirst hleaf hnew hl hgrown rfl
          (hwhole.append hwholezeros) hnull hle hsize (room_of_growth hnull hfits)
        rwa [List.flatten_append, hflat, hzeros] at hadded

end AddingEntry

section SettingEntry

variable {e : Entry} {k cluster size : ℕ} {l₀ : List ℕ}

theorem setEntry_ok (hs : v.Core s (· ≠ some (d, k))) (hv : v.Valid) (hd : v.Dir s p d) (he : e ∈ v.entries s d)
    (hk : e.slot = k) (hfile : ¬e.IsDir) (hspare : v.Spare s (· ≠ some (d, k)) l₀)
    (hfirst : cluster ≠ 0 → l₀.head? = some cluster) (h : v.setEntry d k cluster size s = (t, .ok ())) :
    v.Sound t ∧ v.Kept s t (· ≠ some (d, k)) d ∧ (∀ x, s.next x ≠ 0 → t.next x ≠ 0) ∧
    v.entries t d = (v.entries s d).map (Entry.lead k cluster size) := by
  obtain ⟨o, ho, hkeep⟩ := hs.owner hd
  obtain ⟨-, l, hl⟩ := hs.chains ho hkeep
  obtain ⟨hflat, hwhole, hslots⟩ := hl.slots_bytes hv
  obtain ⟨raw, hraw, hlive⟩ := live_of_mem he
  rw [Nat.sub_zero, hk] at hraw
  have hin : k < (slots (v.bytes s d)).length := (List.getElem?_eq_some_iff.mp hraw).1
  have hlength := hwhole raw (List.mem_of_getElem? hraw)
  rw [setEntry, Machine.bind_apply, listing_eq hl] at h
  dsimp only at h
  obtain ⟨_, s', hrequire, h⟩ := Machine.bind_ok.mp h
  obtain ⟨hpacks, rfl⟩ := Machine.require_ok.mp hrequire
  rw [Machine.modify_apply, Prod.mk.injEq] at h
  obtain ⟨rfl, -⟩ := h
  obtain ⟨raw', hraw', hlength', hsame, hhigh, hlow, hsize⟩ :=
    splice_entry hlength (length_little 2 (cluster >>> 16))
      (length_little 2 (cluster &&& 0xffff)) (length_little 4 size)
  have hblob : splice (splice (splice (v.bytes s' d) (k * entrySize + 20) (little 2 (cluster >>> 16)))
      (k * entrySize + 26) (little 2 (cluster &&& 0xffff))) (k * entrySize + 28) (little 4 size) =
      ((slots (v.bytes s' d)).set k raw').flatten := by
    have hstep : ∀ (r part : List Byte) (o : ℕ), r.length = entrySize → o + part.length ≤ entrySize →
        splice ((slots (v.bytes s' d)).set k r).flatten (k * entrySize + o) part =
          ((slots (v.bytes s' d)).set k (splice r o part)).flatten := by
      intro r part o hr ho
      have hr' : Whole ((slots (v.bytes s' d)).set k r) := by
        intro r' hmem
        rcases List.mem_or_eq_of_mem_set hmem with hold | rfl
        · exact hwhole r' hold
        · exact hr
      rw [splice_inside hr' (List.getElem?_set_self hin) ho, List.set_set]
    have hself : v.bytes s' d = ((slots (v.bytes s' d)).set k raw).flatten := by
      rw [← (List.getElem?_eq_some_iff.mp hraw).2, List.set_getElem_self, hflat]
    have h₁ : (splice raw 20 (little 2 (cluster >>> 16))).length = entrySize := by
      rw [length_splice (by rw [hlength, length_little]; decide), hlength]
    have h₂ : (splice (splice raw 20 (little 2 (cluster >>> 16))) 26 (little 2 (cluster &&& 0xffff))).length =
        entrySize := by
      rw [length_splice (by rw [h₁, length_little]; decide), h₁]
    conv_lhs => rw [hself]
    rw [hstep _ _ _ hlength (by rw [length_little]; decide), hstep _ _ _ h₁ (by rw [length_little]; decide),
      hstep _ _ _ h₂ (by rw [length_little]; decide), hraw']
  have hwhole' : Whole ((slots (v.bytes s' d)).set k raw') := by
    intro r hr
    rcases List.mem_or_eq_of_mem_set hr with hold | rfl
    · exact hwhole r hold
    · exact hlength'
  have hsize' : ((slots (v.bytes s' d)).set k raw').length * entrySize = (l ++ []).length * v.cluster := by
    rw [List.length_set, List.append_nil, hslots]
  have hlead : scanSlots 0 [] ((slots (v.bytes s' d)).set k raw') =
      (v.entries s' d).map (Entry.lead k cluster size) := by
    rw [scanSlots_set hraw hlive hsame, hhigh, hlow, hsize, lead_of_packs hpacks, Nat.zero_add,
      value_little (hpacks.2.trans_le (by decide)), entries]
  have hentries := entries_writeChain hl hwhole' (by rwa [List.append_nil] at hsize')
  have hslot : (Entry.lead k cluster size e).slot = k := by rw [Entry.lead, if_pos hk, hk]
  have hattr : (Entry.lead k cluster size e).attr = e.attr := by rw [Entry.lead, if_pos hk]
  have hcluster : (Entry.lead k cluster size e).cluster = cluster := by rw [Entry.lead, if_pos hk]
  have hmem : ∀ e', e' ∈ scanSlots 0 [] ((slots (v.bytes s' d)).set k raw') ↔
      e' = Entry.lead k cluster size e ∨ e' ∈ v.entries s' d ∧
        e'.slot ≠ (Entry.lead k cluster size e).slot := by
    intro e'
    rw [hlead, List.mem_map, hslot]
    constructor
    · rintro ⟨e₁, he₁, rfl⟩
      by_cases hk₁ : e₁.slot = k
      · rw [slot_inj he₁ he (hk₁.trans hk.symm)]
        exact Or.inl rfl
      · rw [Entry.lead, if_neg hk₁]
        exact Or.inr ⟨he₁, hk₁⟩
    · rintro (rfl | ⟨he', hk'⟩)
      · exact ⟨e, he, rfl⟩
      · exact ⟨e', he', if_neg hk'⟩
  rw [← hslot] at hs hspare
  have hlaid := hs.lay hv hd hl (.refl hl hs.hint) hwhole' hsize' hmem hspare (by rwa [hcluster])
    (fun hdir ↦ absurd hdir (by rwa [Entry.IsDir, hattr]))
  rw [hslot, List.append_nil] at hlaid
  rw [hblob, hentries, hlead]
  exact ⟨hlaid.1, hlaid.2.1, hlaid.2.2.1, rfl⟩

end SettingEntry

end Layout

end Cdj2000Emulator.Card
