import Cdj2000Emulator.SimCore.Model
import Mathlib.Data.Nat.Bits

namespace Cdj2000Emulator.SimCore

open Library.Traces Function

variable {disabled : Bool} {maps : Map → List Mapping} {memory : Memory} {x : Transfer} {calls : List Transfer}
  {m : Mapping} {addr : Addr} {buffer offset k n : ℕ} {s t : Machine}

theorem covers_iff : m.covers addr = true ↔ m.base.toNat ≤ addr.toNat ∧ addr.toNat ≤ m.bound.toNat := by
  unfold Mapping.covers
  rw [Bool.and_eq_true, decide_eq_true_eq, decide_eq_true_eq]
  rfl

theorem covers_of_find {l : List Mapping} (h : find l addr = some m) :
    m.base.toNat ≤ addr.toNat ∧ addr.toNat ≤ m.bound.toNat := by
  unfold find at h
  have hcovers := List.find?_some h
  exact covers_iff.mp hcovers

theorem offset_eq {j : ℕ} (hj : m.mask.toNat + 1 = 2 ^ j) : m.offset addr = (addr - m.base).toNat % 2 ^ j := by
  have hmask : m.mask.toNat = 2 ^ j - 1 := by omega
  rw [Mapping.offset, BitVec.toNat_and, hmask, Nat.and_two_pow_sub_one_eq_mod]

theorem toNat_sub_base (h : m.base.toNat ≤ addr.toNat) : (addr - m.base).toNat = addr.toNat - m.base.toNat := by
  bv_omega

theorem toNat_add (h : addr.toNat + k < 2 ^ 32) : (addr + BitVec.ofNat 32 k).toNat = addr.toNat + k := by
  rw [BitVec.toNat_add, BitVec.toNat_ofNat, Nat.add_mod_mod, Nat.mod_eq_of_lt h]

/-- Inside a period of the modulo, places follow one another. -/
theorem offset_add {j : ℕ} (hj : m.mask.toNat + 1 = 2 ^ j) (hbase : m.base.toNat ≤ addr.toNat)
    (htop : addr.toNat + k < 2 ^ 32) (hperiod : m.offset addr + k < 2 ^ j) :
    m.offset (addr + BitVec.ofNat 32 k) = m.offset addr + k := by
  have hadd := toNat_add htop
  have hoffset : m.offset addr = (addr.toNat - m.base.toNat) % 2 ^ j := by rw [offset_eq hj, toNat_sub_base hbase]
  rw [hoffset] at hperiod ⊢
  rw [offset_eq hj, toNat_sub_base (by omega), hadd, Nat.sub_add_comm hbase, ← Nat.mod_add_mod,
    Nat.mod_eq_of_lt hperiod]

theorem offset_lt {j : ℕ} (hj : m.mask.toNat + 1 = 2 ^ j) : m.offset addr < 2 ^ j := by
  rw [offset_eq hj]
  exact Nat.mod_lt _ (Nat.two_pow_pos j)

/-- A stretch stays inside the mapping and its period. -/
theorem stretch_spec (hbase : m.base.toNat ≤ addr.toNat) (hbound : addr.toNat ≤ m.bound.toNat)
    (h : k < stretch m addr n) :
    k < n ∧ addr.toNat + k ≤ m.bound.toNat ∧ m.offset (addr + BitVec.ofNat 32 k) = m.offset addr + k := by
  obtain ⟨j, hj⟩ := m.modulo
  have hleft : (m.bound - addr).toNat = m.bound.toNat - addr.toNat := by bv_omega
  have htop := m.bound.isLt
  have hlt : m.offset addr < 2 ^ j := offset_lt hj
  unfold stretch at h
  rw [hleft] at h
  have hnr : k < (if m.bound.toNat - addr.toNat < n - 1 then m.bound.toNat - addr.toNat + 1 else n) := by
    dsimp only at h
    split_ifs at h ⊢ <;> omega
  have hinside : k < n ∧ addr.toNat + k ≤ m.bound.toNat := by
    split_ifs at hnr <;> omega
  refine ⟨hinside.1, hinside.2, offset_add hj hbase (by omega) ?_⟩
  by_cases hmask : m.mask = BitVec.allOnes 32
  · have hj32 : 2 ^ j = 2 ^ 32 := by
      rw [← hj, hmask]
      rfl
    have hoffset : m.offset addr = addr.toNat - m.base.toNat := by
      rw [offset_eq hj, toNat_sub_base hbase, hj32, Nat.mod_eq_of_lt (by omega)]
    omega
  · rw [if_pos hmask, hj] at h
    dsimp only at h
    split_ifs at h <;> omega

theorem startOf_pageOf : (startOf (pageOf addr)).toNat = addr.toNat / 4096 * 4096 := by
  have := addr.isLt
  unfold startOf pageOf
  rw [BitVec.toNat_shiftLeft, BitVec.toNat_ushiftRight, Nat.shiftRight_eq_div_pow, Nat.shiftLeft_eq]
  omega

theorem inPage_eq : inPage addr = addr.toNat % 4096 := by
  unfold inPage
  rw [BitVec.toNat_and]
  exact Nat.and_two_pow_sub_one_eq_mod addr.toNat 12

theorem start_add : startOf (pageOf addr) + BitVec.ofNat 32 (inPage addr) = addr := by
  have hlt : (startOf (pageOf addr)).toNat + inPage addr < 2 ^ 32 := by
    have := addr.isLt
    rw [startOf_pageOf, inPage_eq]
    omega
  refine BitVec.eq_of_toNat_eq ?_
  rw [toNat_add hlt, startOf_pageOf, inPage_eq]
  omega

theorem offset_page {h : ℕ × ℕ} {l : List Mapping} (hhost : pageHost l (startOf (pageOf addr)) = some h) :
    ∃ m, find l (startOf (pageOf addr)) = some m ∧ m.backing = .memory h.1 ∧
      ∀ k, inPage addr + k < pageSize → m.offset (addr + BitVec.ofNat 32 k) = h.2 + inPage addr + k := by
  unfold pageHost at hhost
  cases hfind : find l (startOf (pageOf addr)) with
  | none =>
    rw [hfind] at hhost
    cases hhost
  | some m =>
    rw [hfind] at hhost
    dsimp only at hhost
    cases hbacking : m.backing with
    | device d =>
      rw [hbacking] at hhost
      cases hhost
    | memory buffer =>
      rw [hbacking] at hhost
      dsimp only at hhost
      split_ifs at hhost with hpage
      cases hhost
      refine ⟨m, rfl, hbacking, fun k hk ↦ ?_⟩
      obtain ⟨-, hmask, hbase⟩ := hpage
      obtain ⟨j, hj⟩ := m.modulo
      obtain ⟨hfrom, hto⟩ := covers_of_find hfind
      have hpages : m.base.toNat % 4096 = 0 ∧ 2 ^ j % 4096 = 0 := by
        have hbase' : (m.base &&& 0xfff).toNat = 0 := congrArg BitVec.toNat hbase
        have hmask' : (m.mask &&& 0xfff).toNat = 4095 := congrArg BitVec.toNat hmask
        rw [BitVec.toNat_and] at hbase' hmask'
        have hbase'' : m.base.toNat % 4096 = 0 := (Nat.and_two_pow_sub_one_eq_mod m.base.toNat 12).symm.trans hbase'
        have hmask'' : m.mask.toNat % 4096 = 4095 := (Nat.and_two_pow_sub_one_eq_mod m.mask.toNat 12).symm.trans hmask'
        omega
      have hmultiple : m.offset (startOf (pageOf addr)) % 4096 = 0 := by
        rw [offset_eq hj, toNat_sub_base hfrom, startOf_pageOf, Nat.mod_mod_of_dvd _ (Nat.dvd_of_mod_eq_zero hpages.2)]
        rw [startOf_pageOf] at hfrom
        omega
      have hlt : m.offset (startOf (pageOf addr)) < 2 ^ j := offset_lt hj
      have haddr : addr + BitVec.ofNat 32 k = startOf (pageOf addr) + BitVec.ofNat 32 (inPage addr + k) := by
        rw [BitVec.ofNat_add, ← BitVec.add_assoc, start_add]
      have hk' : inPage addr + k < 4096 := hk
      rw [haddr, offset_add hj hfrom ?_ (by omega), Nat.add_assoc]
      have := addr.isLt
      rw [startOf_pageOf]
      omega

theorem advance_advance {a b : ℕ} : (x.advance a).advance b = x.advance (a + b) := by
  unfold Transfer.advance
  rw [List.drop_drop, BitVec.ofNat_add, BitVec.add_assoc]

theorem advance_zero : x.advance 0 = x := by
  unfold Transfer.advance
  rw [BitVec.add_zero]
  rfl

def Placed (maps : Map → List Mapping) (x : Transfer) (buffer offset n : ℕ) : Prop :=
  ∀ k < n, ∃ m, find (maps x.map) (x.addr + BitVec.ofNat 32 k) = some m ∧ m.backing = .memory buffer ∧
    m.offset (x.addr + BitVec.ofNat 32 k) = offset + k

theorem Placed.tail (h : Placed maps x buffer offset (n + 1)) : Placed maps (x.advance 1) buffer (offset + 1) n := by
  intro k hk
  obtain ⟨m, hfind, hbacking, hoffset⟩ := h (k + 1) (Nat.succ_lt_succ hk)
  have haddr : (x.advance 1).addr + BitVec.ofNat 32 k = x.addr + BitVec.ofNat 32 (k + 1) := by
    rw [Nat.add_comm k 1, BitVec.ofNat_add, ← BitVec.add_assoc]
    rfl
  refine ⟨m, ?_, hbacking, ?_⟩
  · rw [haddr]
    exact hfind
  · rw [haddr, hoffset]
    omega

theorem move_path (memory : Memory) (calls : List Transfer) {cells rest : List (Option Byte)}
    (hdata : x.data = cells ++ rest)
    (h : Placed maps x buffer offset cells.length) :
    Path Plain ⟨maps, memory, x :: calls⟩ (move x.map buffer x.addr offset cells memory).1
      ⟨maps, (move x.map buffer x.addr offset cells memory).2, x.advance cells.length :: calls⟩ := by
  induction cells generalizing x offset memory with
  | nil =>
    rw [List.length_nil, advance_zero]
    exact .nil
  | cons cell cells ih =>
    obtain ⟨m, hfind, hbacking, hoffset⟩ := h 0 (Nat.succ_pos _)
    rw [BitVec.add_zero, Nat.add_zero] at hoffset
    rw [BitVec.add_zero] at hfind
    have hfirst : Plain ⟨maps, memory, x :: calls⟩ _ _ := .byte hdata hfind hbacking
    rw [hoffset] at hfirst
    have hdata' : (x.advance 1).data = cells ++ rest := by
      change x.data.drop 1 = _
      rw [hdata]
      rfl
    have hrest := ih (touch buffer offset cell memory).2 hdata' h.tail
    rw [advance_advance, Nat.add_comm 1 cells.length] at hrest
    exact .cons hfirst hrest

def Fresh (maps : Map → List Mapping) (cache : Map → BitVec 12 → PageEntry) : Prop :=
  ∀ map i, (cache map i).host = none ∨ (cache map i).host = pageHost (maps map) (startOf (cache map i).page)

/-- What is cached under the present generation is fresh. -/
structure Current (disabled : Bool) (s : Machine) : Prop where
  fresh : s.cacheGeneration = s.generation → Fresh s.host.maps s.cache
  unused : disabled = true → ∀ map i, (s.cache map i).host = none

theorem fresh_setEntry {map : Map} {i : BitVec 12} {page : BitVec 32} (h : Fresh s.host.maps s.cache) :
    Fresh s.host.maps (s.setEntry map i ⟨page, pageHost (s.host.maps map) (startOf page)⟩).cache := by
  intro map' i'
  by_cases hmap : map' = map
  · subst hmap
    have hcache : (s.setEntry map' i ⟨page, pageHost (s.host.maps map') (startOf page)⟩).cache map' =
        update (s.cache map') i ⟨page, pageHost (s.host.maps map') (startOf page)⟩ := update_self ..
    rw [hcache]
    by_cases hi : i' = i
    · subst hi
      rw [update_self]
      exact .inr rfl
    · rw [update_of_ne hi]
      exact h map' i'
  · have hcache : (s.setEntry map i ⟨page, pageHost (s.host.maps map) (startOf page)⟩).cache map' = s.cache map' :=
      update_of_ne hmap ..
    rw [hcache]
    exact h map' i'

/-- What a lookup leaves and finds. -/
structure Looks (disabled : Bool) (s : Machine) (map : Map) (addr : Addr) (t : Machine) (place : Option (ℕ × ℕ)) :
    Prop where
  host : t.host = s.host
  current : Current disabled t
  place : ∀ p, place = some p → disabled = false ∧
    ∃ h, pageHost (s.host.maps map) (startOf (pageOf addr)) = some h ∧ p = (h.1, h.2 + inPage addr)

theorem looks_fill {map : Map} (hs : Current disabled s) :
    Looks disabled s map addr (s.fill disabled map addr).1 (s.fill disabled map addr).2 := by
  unfold Machine.fill
  cases disabled with
  | true => exact ⟨rfl, hs, fun p hp ↦ nomatch hp⟩
  | false =>
    rw [if_neg Bool.false_ne_true]
    have hstamped : ∃ s' : Machine, (if s.cacheGeneration ≠ s.generation then s.flush else s) = s' ∧
        s'.host = s.host ∧
        Fresh s.host.maps s'.cache := by
      refine ⟨_, rfl, ?_⟩
      split_ifs with hsame
      · exact ⟨rfl, fun _ _ ↦ .inl rfl⟩
      · exact ⟨rfl, hs.fresh (not_not.mp hsame)⟩
    obtain ⟨s', hs', hhost, hfresh⟩ := hstamped
    dsimp only
    rw [hs', hhost]
    refine ⟨hhost, ⟨fun _ ↦ ?_, fun h ↦ absurd h Bool.false_ne_true⟩, fun p hp ↦ ?_⟩
    · rw [← hhost] at hfresh ⊢
      exact fresh_setEntry hfresh
    · obtain ⟨h, hpage, rfl⟩ := Option.map_eq_some_iff.mp hp
      exact ⟨rfl, h, hpage, rfl⟩

theorem looks_fastHost (map : Map) (addr : Addr) (n : ℕ) (hs : Current disabled s) :
    Looks disabled s map addr (s.fastHost disabled map addr n).1
    (s.fastHost disabled map addr n).2 ∧ ((s.fastHost disabled map addr n).2.isSome →
    inPage addr + n ≤ pageSize) := by
  unfold Machine.fastHost
  dsimp only
  split_ifs with hcross hgeneration hhit
  · exact ⟨⟨rfl, hs, fun p hp ↦ nomatch hp⟩, fun h ↦ absurd h Bool.false_ne_true⟩
  · exact ⟨looks_fill hs, fun _ ↦ Nat.not_lt.mp hcross⟩
  · refine ⟨⟨rfl, hs, fun p hp ↦ ?_⟩, fun _ ↦ Nat.not_lt.mp hcross⟩
    obtain ⟨h, hentry, rfl⟩ := Option.map_eq_some_iff.mp hp
    obtain hnone | hpage := hs.fresh (not_not.mp hgeneration) map ((pageOf addr).setWidth 12)
    · rw [hnone] at hentry
      cases hentry
    · rw [hhit, hentry] at hpage
      refine ⟨Bool.eq_false_iff.mpr fun hd ↦ ?_, h, hpage.symm, rfl⟩
      rw [hs.unused hd] at hentry
      cases hentry
  · exact ⟨looks_fill hs, fun _ ↦ Nat.not_lt.mp hcross⟩

/-- A page or a stretch in which no other mapping comes first, and a counter that does not meet an old stamp. -/
def Clear (disabled : Bool) (s : Machine) : Event → Prop
  | .remap maps => s.generation + 1 = s.cacheGeneration → Fresh maps s.cache
  | .guest x =>
    disabled = false → (pageHost (s.host.maps x.map) (startOf (pageOf x.addr))).isSome →
      inPage x.addr + x.data.length ≤ pageSize → ∀ k < x.data.length,
        find (s.host.maps x.map) (x.addr + BitVec.ofNat 32 k) = find (s.host.maps x.map) (startOf (pageOf x.addr))
  | .call _ => True
  | .turn _ =>
    ∀ x ∈ s.host.calls.head?, ∀ m ∈ find (s.host.maps x.map) x.addr, ∀ buffer, m.backing = .memory buffer →
      ∀ k < stretch m x.addr x.data.length, find (s.host.maps x.map) (x.addr + BitVec.ofNat 32 k) = some m

theorem guest_path (hs : Current disabled s) (hclear : Clear disabled s (.guest x)) :
    Path Plain s.host (s.guest disabled x).2 (s.guest disabled x).1.host ∧
      Current disabled (s.guest disabled x).1 := by
  obtain ⟨hlooks, hfits⟩ := looks_fastHost x.map x.addr x.data.length hs
  unfold Machine.guest
  generalize s.fastHost disabled x.map x.addr x.data.length = looked at hlooks hfits
  obtain ⟨t, place⟩ := looked
  cases place with
  | none =>
    refine ⟨.single ?_, hlooks.current.fresh, hlooks.current.unused⟩
    change Plain s.host _ { t.host with calls := x :: t.host.calls }
    rw [hlooks.host]
    exact .begin x
  | some p =>
    obtain ⟨henabled, h, hhost, rfl⟩ := hlooks.place p rfl
    have hroom := hfits rfl
    obtain ⟨m, hfind, hbacking, hoffset⟩ := offset_page hhost
    have hplaced : Placed s.host.maps x h.1 (h.2 + inPage x.addr) x.data.length := fun k hk ↦
      ⟨m, (hclear henabled (by rw [hhost]; rfl) hroom k hk).trans hfind, hbacking, hoffset k (by omega)⟩
    refine ⟨?_, hlooks.current.fresh, hlooks.current.unused⟩
    have hmoved := move_path s.host.memory s.host.calls (List.append_nil x.data).symm hplaced
    dsimp only
    change Path Plain s.host _ { t.host with memory := _ }
    rw [hlooks.host]
    refine .cons (.begin x) (hmoved.append (.single ?_))
    exact Plain.done (List.drop_length)

theorem turn_current (taken : Option ℕ) (hs : Current disabled s) : Current disabled (s.turn taken).1 := by
  obtain ⟨⟨maps, memory, calls⟩, generation, cache, cacheGeneration⟩ := s
  have hset (memory : Memory) (calls : List Transfer) :
      Current disabled ⟨⟨maps, memory, calls⟩, generation, cache, cacheGeneration⟩ := ⟨hs.fresh, hs.unused⟩
  unfold Machine.turn
  cases calls with
  | nil => exact hs
  | cons x calls =>
    dsimp only
    split_ifs with hdata
    · exact hset memory calls
    · cases find (maps x.map) x.addr with
      | none => exact hset memory calls
      | some m =>
        dsimp only
        cases m.backing with
        | memory buffer => exact hset _ _
        | device d =>
          cases taken with
          | none => exact hset memory calls
          | some k => exact hset memory _

/-- A round of the bulk loop is as many rounds of the loop over bytes. -/
theorem turn_path {taken : Option ℕ} (hclear : Clear disabled s (.turn taken)) :
    Path Plain s.host (s.turn taken).2 (s.turn taken).1.host := by
  obtain ⟨⟨maps, memory, calls⟩, generation, cache, cacheGeneration⟩ := s
  unfold Machine.turn
  cases calls with
  | nil => exact .nil
  | cons x calls =>
    dsimp only
    split_ifs with hdata
    · exact .single (.done hdata)
    · cases hfind : find (maps x.map) x.addr with
      | none => exact .single (.refused hdata hfind)
      | some m =>
        dsimp only
        cases hbacking : m.backing with
        | device d =>
          cases taken with
          | none => exact .single (.deviceEnds hdata hfind hbacking)
          | some k => exact .single (.device k hdata hfind hbacking)
        | memory buffer =>
          dsimp only
          obtain ⟨hbase, hbound⟩ := covers_of_find hfind
          have hstretch (k : ℕ) (hk : k < stretch m x.addr x.data.length) := stretch_spec hbase hbound hk
          have hle : stretch m x.addr x.data.length ≤ x.data.length := by
            by_contra hlong
            exact absurd (hstretch _ (Nat.not_le.mp hlong)).1 (Nat.lt_irrefl _)
          have hlength : (x.data.take (stretch m x.addr x.data.length)).length = stretch m x.addr x.data.length :=
            List.length_take_of_le hle
          have hplaced : Placed maps x buffer (m.offset x.addr)
              (x.data.take (stretch m x.addr x.data.length)).length := by
            intro k hk
            rw [hlength] at hk
            exact ⟨m, hclear x rfl m hfind buffer hbacking k hk, hbacking, (hstretch k hk).2.2⟩
          have hmoved := move_path memory calls (List.take_append_drop _ _).symm hplaced
          rw [hlength] at hmoved
          exact hmoved

/-- A step in which no first byte decides for a byte that another mapping serves. -/
def ClearStep (disabled : Bool) (s : Machine) (x : Event × List Act) (t : Machine) : Prop :=
  Step disabled s x t ∧ Clear disabled s x.1

theorem step_path {x : Event × List Act} (hs : Current disabled s) (h : ClearStep disabled s x t) :
    Path Plain s.host x.2 t.host ∧ Current disabled t := by
  obtain ⟨e, acts⟩ := x
  obtain ⟨hstep, hclear⟩ := h
  cases e with
  | remap maps =>
    obtain ⟨rfl, rfl⟩ := Prod.mk.inj hstep
    refine ⟨.single (.remap maps), ⟨fun hstamp ↦ hclear hstamp.symm, hs.unused⟩⟩
  | guest x =>
    obtain ⟨hpath, hcurrent⟩ := guest_path hs hclear
    have hguest : s.guest disabled x = (t, acts) := hstep
    rw [hguest] at hpath hcurrent
    exact ⟨hpath, hcurrent⟩
  | call x =>
    obtain ⟨rfl, rfl⟩ := Prod.mk.inj hstep
    exact ⟨.single (.begin x), hs.fresh, hs.unused⟩
  | turn taken =>
    have hpath := turn_path hclear
    have hcurrent := turn_current taken hs
    have hturn : s.turn taken = (t, acts) := hstep
    rw [hturn] at hpath hcurrent
    exact ⟨hpath, hcurrent⟩

theorem current_start : Current disabled (.start maps memory) where
  fresh _ _ _ := .inl rfl
  unused _ _ _ := rfl

def acts (run : List (Event × List Act)) : List Act := run.flatMap (·.2)

/-- Through the page cache and in bulk, every byte moves as the core moves it by itself. -/
theorem core_paths_agree {run : List (Event × List Act)} (h : Path (ClearStep disabled) (.start maps memory) run t) :
    Path Plain ⟨maps, memory, []⟩ (acts run) t.host := by
  have hstep (s : Machine) (x : Event × List Act) (s' : Machine) (w : Host) (hs : Current disabled s ∧ s.host = w)
      (hx : ClearStep disabled s x s') : ∃ w', Path Plain w x.2 w' ∧ Current disabled s' ∧ s'.host = w' := by
    obtain ⟨hcurrent, rfl⟩ := hs
    obtain ⟨hpath, hcurrent'⟩ := step_path hcurrent hx
    exact ⟨s'.host, hpath, hcurrent', rfl⟩
  obtain ⟨w', hpath, -, rfl⟩ := h.simulate hstep ⟨current_start, rfl⟩
  exact hpath

def whole : Mapping where
  level := 0
  base := 0
  bound := BitVec.allOnes 32
  mask := BitVec.allOnes 32
  modulo := ⟨32, rfl⟩
  backing := .memory 0

theorem find_whole : find [whole] addr = some whole :=
  List.find?_cons_of_pos (covers_iff.mpr ⟨Nat.zero_le _, Nat.le_of_lt_succ addr.isLt⟩)

def blank : Memory := fun _ _ ↦ 0

/-- Four bytes loaded through the cache. -/
theorem core_paths_agree_load : ∃ run t, Path Plain ⟨fun _ ↦ [whole], blank, []⟩ (acts run) t ∧
    (acts run).length = 6 := by
  have hstep : ClearStep false (.start (fun _ ↦ [whole]) blank)
      (.guest ⟨.read, 0x1ffc, List.replicate 4 none⟩, _) _ :=
    ⟨rfl, fun _ _ _ _ _ ↦ find_whole.trans find_whole.symm⟩
  exact ⟨_, _, core_paths_agree (.single hstep), rfl⟩

theorem mapped_of_path {s t : Host} {as : List Act} {map : Map} {cell : Option Byte} {b : Byte}
    (h : Path Plain s as t) (hmaps : ∀ maps, .remap maps ∉ as)
    (hbyte : .byte map addr buffer offset cell b ∈ as) :
    ∃ m, find (s.maps map) addr = some m ∧ m.backing = .memory buffer := by
  induction h with
  | nil => exact absurd hbyte List.not_mem_nil
  | @cons s t u a as hstep _ ih =>
    have hrest (hkept : t.maps = s.maps) (hin : .byte map addr buffer offset cell b ∈ as) :
        ∃ m, find (s.maps map) addr = some m ∧ m.backing = .memory buffer :=
      hkept ▸ ih (fun maps hm ↦ hmaps maps (List.mem_cons_of_mem _ hm)) hin
    cases hstep with
    | byte hdata hfind hbacking =>
      obtain heq | hin := List.mem_cons.mp hbyte
      · obtain ⟨rfl, rfl, rfl, -⟩ := Act.byte.inj heq
        exact ⟨_, hfind, hbacking⟩
      · exact hrest rfl hin
    | remap maps => exact absurd List.mem_cons_self (hmaps maps)
    | begin | device | deviceEnds | refused | done =>
      exact hrest rfl ((List.mem_cons.mp hbyte).resolve_left Act.noConfusion)

def registers : Mapping where
  level := 0
  base := 0x1800
  bound := 0x18ff
  mask := BitVec.allOnes 32
  modulo := ⟨32, rfl⟩
  backing := .device 0

def behind : Mapping := { whole with level := 1 }

theorem not_plain {as : List Act} {s t : Host} (hs : s.maps .read = [registers, behind])
    (hmaps : ∀ maps, .remap maps ∉ as) (hbyte : .byte .read 0x1800 0 0x1800 none 0 ∈ as) :
    ¬Path Plain s as t := by
  intro h
  obtain ⟨m, hfind, hbacking⟩ := mapped_of_path h hmaps hbyte
  rw [hs] at hfind
  have hfound : some registers = some m := hfind
  cases hfound
  exact Backing.noConfusion hbacking

def overlaid (_ : Map) : List Mapping := [registers, behind]

/-- A byte of a device is read from the memory behind it, by the guest and by the core. -/
theorem memory_hides_device : Ordered [registers, behind] ∧
    (∃ run t, Path (Step false) (.start overlaid blank) run t ∧ run.map (·.1) =
    [.guest ⟨.read, 0x1800, [none]⟩] ∧
      ∀ u, ¬Path Plain ⟨overlaid, blank, []⟩ (acts run) u) ∧
    ∃ run t, Path (Step false) (.start overlaid blank) run t ∧
      run.map (·.1) = [.call ⟨.read, 0x17ff, [none, none]⟩, .turn none] ∧
      ∀ u, ¬Path Plain ⟨overlaid, blank, []⟩ (acts run) u := by
  have hguest : Step false (.start overlaid blank) (.guest ⟨.read, 0x1800, [none]⟩,
      [.begin ⟨.read, 0x1800, [none]⟩, .byte .read 0x1800 0 0x1800 none 0, .done]) _ := rfl
  have hcall : Step false (.start overlaid blank) (.call ⟨.read, 0x17ff, [none, none]⟩,
      [.begin ⟨.read, 0x17ff, [none, none]⟩]) _ := rfl
  have hturn : Step false ((Machine.start overlaid blank).handle false (.call ⟨.read, 0x17ff, [none, none]⟩)).1
      (.turn none, [.byte .read 0x17ff 0 0x17ff none 0, .byte .read 0x1800 0 0x1800 none 0]) _ := rfl
  refine ⟨List.pairwise_pair.mpr ⟨by decide, fun h ↦ absurd h (by decide)⟩,
    ⟨_, _, .single hguest, rfl, fun u ↦ ?_⟩, ⟨_, _, .cons hcall (.single hturn), rfl, fun u ↦ ?_⟩⟩
  · exact not_plain rfl (by simp [acts]) (by simp [acts])
  · exact not_plain rfl (by simp [acts]) (by simp [acts])

end Cdj2000Emulator.SimCore
