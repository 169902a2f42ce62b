import Cdj2000Emulator.Library.BitMask
import Cdj2000Emulator.Mcasp.Slots

namespace Cdj2000Emulator.Mcasp.Control

open Function Library.BitMask

theorem serializerCount_le (b : ℕ) : serializerCount b ≤ 16 := by
  unfold serializerCount
  split <;> decide

namespace Bank

variable {s t : Bank} {count n : ℕ} {v : Word}

section Masks

theorem within_and {x m : Word} (h : x &&& ~~~m = 0) (y : Word) : x &&& y &&& ~~~m = 0 := by
  rw [BitVec.and_assoc, BitVec.and_comm y, ← BitVec.and_assoc, h]
  exact BitVec.zero_and

theorem within_or {x y m : Word} (hx : x &&& ~~~m = 0) (hy : y &&& ~~~m = 0) :
    (x ||| y) &&& ~~~m = 0 := by
  rw [BitVec.and_or_distrib_right, hx, hy]
  exact BitVec.zero_or

theorem or_and_of_disjoint {x y z : Word} (h : y &&& z = 0) : (x ||| y) &&& z = x &&& z := by
  rw [BitVec.and_or_distrib_right, h]
  exact BitVec.or_zero

theorem clear_and_self (x m : Word) : x &&& ~~~m &&& m = 0 := by
  rw [BitVec.and_assoc, BitVec.and_comm (~~~m), BitVec.and_not_self]
  exact BitVec.and_zero

def active (s : Bank) (count : ℕ) : List ℕ := (List.range count).filter s.transmits

theorem mem_active : n ∈ s.active count ↔ n < count ∧ s.transmits n = true := by
  rw [active, List.mem_filter, List.mem_range]

theorem active_sorted (s : Bank) (count : ℕ) : (s.active count).Pairwise (· < ·) :=
  List.Pairwise.filter _ (List.pairwise_lt_range)

theorem getLsbD_activeTxMask (hn : n < 32) :
    (s.activeTxMask count).getLsbD n = decide (n ∈ s.active count) := by
  rw [activeTxMask, getLsbD_foldl _ _ hn]
  exact congrArg (· || decide (n ∈ s.active count)) BitVec.getLsbD_zero

theorem activeTxMask_within (s : Bank) (count : ℕ) :
    s.activeTxMask count &&& ~~~BitVec.ofNat 32 (2 ^ count - 1) = 0 := by
  rw [and_eq_zero_iff]
  intro i hi
  have hlt : i < 32 := by
    by_contra hge
    rw [BitVec.getLsbD_of_ge _ _ (not_lt.mp hge)] at hi
    exact Bool.false_ne_true hi
  rw [getLsbD_activeTxMask hlt, decide_eq_true_eq, mem_active] at hi
  rw [BitVec.getLsbD_not, BitVec.getLsbD_ofNat, Nat.testBit_two_pow_sub_one]
  simp [hlt, hi.1]

theorem nextTxSerializer_le (s : Bank) (count after : ℕ) : s.nextTxSerializer count after ≤ count := by
  rw [nextTxSerializer]
  cases hhead : ((List.range count).filter fun n ↦ after ≤ n && s.transmits n).head? with
  | none => exact Nat.le_refl count
  | some n =>
    have hmem := List.mem_of_mem_head? hhead
    exact Nat.le_of_lt (List.mem_range.mp (List.mem_filter.mp hmem).1)

end Masks

namespace Valid

theorem xstat_or (h : s.Valid count) {flag : Word} (hflag : flag &&& ~~~0xf7#32 = 0)
    (hother : flag &&& 0x20#32 = 0) : Valid { s with xstat := s.xstat ||| flag } count :=
  { h with
    xstat := within_or h.xstat hflag
    xdata := fun hset ↦ h.xdata (by rwa [or_and_of_disjoint hother] at hset) }

/-- XDATA falls where no serializer is ready. -/
theorem settleXdata (h : Valid { s with xstat := s.xstat &&& ~~~0x20#32 } count)
    (hxstat : s.xstat &&& ~~~0xf7#32 = 0) : (s.settleXdata count).Valid count := by
  rw [Bank.settleXdata]
  split_ifs with hnone
  · exact h
  · exact { h with xstat := hxstat, xdata := fun _ ↦ hnone }

theorem noteXbufWrite (h : s.Valid count) (hn : n < count) (hwrites : s.xbufWrites ≠ BitVec.allOnes 64)
    (v : Word) : (s.noteXbufWrite count n v).Valid count := by
  have hnext : s.xbufWrites ≤ s.xbufWrites + 1 := by
    have hlt : s.xbufWrites.toNat + 1 < 2 ^ 64 := by
      have hne : s.xbufWrites.toNat ≠ 2 ^ 64 - 1 := fun heq ↦
        hwrites (BitVec.eq_of_toNat_eq (by rw [heq, BitVec.toNat_allOnes]))
      have := s.xbufWrites.isLt
      omega
    have hsum : (s.xbufWrites + 1).toNat = s.xbufWrites.toNat + 1 :=
      BitVec.toNat_add_of_lt hlt
    rw [BitVec.le_def, hsum]
    exact Nat.le_succ _
  refine settleXdata { h with
    xstat := within_and h.xstat _
    xrdy := within_and h.xrdy _
    xdata := fun hset ↦ absurd (clear_and_self _ _) hset
    written := fun m hm ↦ ?_
    shifted := fun m hm ↦ ?_
    absent := fun m hm hge ↦ ?_
    present := fun m hm hlt ↦ ⟨(h.present m hm hlt).1, fun hready ↦ ?_⟩ } h.xstat
  · by_cases heq : m = n
    · subst heq
      simp
    · simpa [heq] using BitVec.le_trans (h.written m hm) hnext
  · by_cases heq : m = n
    · subst heq
      simpa using BitVec.le_trans (h.shifted m hm) (BitVec.le_trans (h.written m hm) hnext)
    · simpa [heq] using h.shifted m hm
  · have hne : m ≠ n := by omega
    simpa [hne] using h.absent m hm hge
  · rw [getLsbD_clear (by omega), Bool.and_eq_true] at hready
    exact (h.present m hm hlt).2 hready.1

theorem writeDmaPort (h : s.Valid count) (hwrite : s.writeDmaPort count v = some t) : t.Valid count := by
  rw [Bank.writeDmaPort] at hwrite
  split_ifs at hwrite with hport hfull hwrites
  · cases hwrite
    exact h
  · cases hwrite
    exact h.xstat_or (by decide) (by decide)
  · cases hwrite
    have hnoted := h.noteXbufWrite (not_le.mp hfull) hwrites v
    exact { hnoted with xdmaNext := nextTxSerializer_le _ _ _ }

theorem writeXbuf (h : s.Valid count) (hwrite : s.writeXbuf count n v = some t) : t.Valid count := by
  rw [Bank.writeXbuf] at hwrite
  split_ifs at hwrite with hrange hport hwrites
  · cases hwrite
    exact h
  · cases hwrite
    exact h.noteXbufWrite (not_le.mp hrange) hwrites v

theorem writeSrctl (h : s.Valid count) (hwrite : s.writeSrctl count n v = some t) :
    t.Valid count := by
  rw [Bank.writeSrctl] at hwrite
  by_cases hbad : count ≤ n ∨ legalSrctl v = false
  · rw [if_pos hbad] at hwrite
    cases hwrite
  · rw [if_neg hbad] at hwrite
    rw [not_or, not_le, Bool.not_eq_false] at hbad
    obtain ⟨hn, hlegal⟩ := hbad
    have habsent : ∀ m, count ≤ m → update s.srctl n v m = s.srctl m := by
      intro m hge
      exact update_of_ne (by omega) _ _
    by_cases htransmit : v &&& 3#32 = 1
    · rw [if_pos htransmit, Option.some.injEq] at hwrite
      subst hwrite
      refine { h with
        xdata := fun hset hnone ↦ h.xdata hset ?_
        absent := fun m hm hge ↦ ?_
        present := fun m hm hlt ↦ ?_ }
      · rw [and_eq_zero_iff] at hnone ⊢
        intro i hready
        have hi : i < 32 := BitVec.lt_of_getLsbD hready
        have hoff := hnone i hready
        rw [getLsbD_activeTxMask hi, decide_eq_false_iff_not, mem_active] at hoff ⊢
        rintro ⟨hlt, hactive⟩
        refine hoff ⟨hlt, ?_⟩
        by_cases heq : i = n
        · subst heq
          simpa [transmits] using htransmit
        · simpa [transmits, heq] using hactive
      · exact ⟨(habsent m hge).trans (h.absent m hm hge).1, (h.absent m hm hge).2⟩
      · by_cases heq : m = n
        · subst heq
          simpa using ⟨hlegal, fun _ ↦ htransmit⟩
        · simpa [heq] using h.present m hm hlt
    · rw [if_neg htransmit, Option.some.injEq] at hwrite
      subst hwrite
      have hbase : Valid { s with
          srctl := update s.srctl n v
          xrdy := s.xrdy &&& ~~~bit n
          xstat := s.xstat &&& ~~~0x20#32 } count := by
        refine { h with
          xstat := within_and h.xstat _
          xrdy := within_and h.xrdy _
          xdata := fun hset ↦ absurd (clear_and_self _ _) hset
          absent := fun m hm hge ↦ ⟨(habsent m hge).trans (h.absent m hm hge).1, (h.absent m hm hge).2⟩
          present := fun m hm hlt ↦ ?_ }
        rw [getLsbD_clear (by omega), Bool.and_eq_true, decide_eq_true_eq]
        by_cases heq : m = n
        · subst heq
          simpa using hlegal
        · simpa [heq] using h.present m hm hlt
      dsimp only
      split_ifs with hcursor
      · exact settleXdata { hbase with xdmaNext := nextTxSerializer_le _ _ _ } h.xstat
      · exact settleXdata hbase h.xstat

/-- The transmitter is held in reset: nothing is ready. -/
theorem stop (h : s.Valid count) : Valid { s with
    xrdy := 0
    xstat := s.xstat &&& ~~~0x20#32
    xdmaNext := count } count :=
  { h with
    xstat := within_and h.xstat _
    xrdy := BitVec.zero_and
    xdmaNext := Nat.le_refl count
    xdata := fun hset ↦ absurd (clear_and_self _ _) hset
    present := fun m hm hlt ↦ ⟨(h.present m hm hlt).1, fun hready ↦
      absurd (hready.symm.trans BitVec.getLsbD_zero) (by decide)⟩ }

theorem rearm (h : s.Valid count) (g : BitVec 64)
    (hxdata : s.xstat &&& 0x20#32 ≠ 0 → s.activeTxMask count ≠ 0) : Valid { s with
    xrdy := s.activeTxMask count
    xdmaNext := s.nextTxSerializer count 0
    axevtGeneration := g } count :=
  { h with
    xrdy := activeTxMask_within s count
    xdmaNext := nextTxSerializer_le s count 0
    xdata := fun hset hnone ↦ hxdata hset (BitVec.and_self.symm.trans hnone)
    present := fun m hm hlt ↦ ⟨(h.present m hm hlt).1, fun hready ↦ by
      rw [getLsbD_activeTxMask (by omega), decide_eq_true_eq, mem_active] at hready
      exact of_decide_eq_true hready.2⟩ }

theorem raise (h : s.Valid count) (g : BitVec 64) (hactive : s.activeTxMask count ≠ 0) : Valid { s with
    xrdy := s.activeTxMask count
    xdmaNext := s.nextTxSerializer count 0
    xstat := s.xstat ||| 0x20#32
    axevtGeneration := g } count := by
  have hraised := h.rearm g fun _ ↦ hactive
  exact { hraised with
    xstat := within_or h.xstat (by decide)
    xdata := fun _ hnone ↦ hactive (BitVec.and_self.symm.trans hnone) }

theorem writeGblctl (h : s.Valid count) (o : ℕ) (hv : v &&& ~~~0x1f1f#32 = 0) :
    (s.writeGblctl count o v).Valid count := by
  unfold Bank.writeGblctl
  extract_lets mask next rising s₁ s₂ active s₃
  have hnext : next &&& ~~~0x1f1f#32 = 0 := within_or (within_and h.gblctl _) (within_and hv _)
  have h₁ : s₁.Valid count := { h with gblctl := hnext }
  have h₂ : s₂.Valid count := by
    dsimp only [s₂]
    split_ifs
    · exact { h₁ with xslot := (by decide : (0x17f : Word) ≤ 0x17f) }
    · exact h₁
  have h₃ : s₃.Valid count := by
    dsimp only [s₃]
    split_ifs with hstop hrise hactive
    · exact h₂.stop
    · exact h₂.raise _ hactive
    · exact h₂.raise _ hactive
    · exact h₂.rearm s₂.axevtGeneration fun hset hnone ↦
        h₂.xdata hset (by rw [hnone]; exact BitVec.and_zero)
    · exact h₂
  split_ifs
  · exact h₃.xstat_or (by decide) (by decide)
  · exact h₃

theorem shiftOut (h : s.Valid count) (underrun : Bool) (hn : n < count) :
    (s.shiftOut underrun n).2.Valid count := by
  rw [Bank.shiftOut]
  split_ifs with hnew
  · refine { h with
      shifted := fun m hm ↦ ?_
      silent := fun m hm hzero ↦ ?_
      absent := fun m hm hge ↦ ?_ }
    · by_cases heq : m = n
      · subst heq
        simp
      · simpa [heq] using h.shifted m hm
    · by_cases heq : m = n
      · subst heq
        simp only [update_self] at hzero
        rw [hzero] at hnew
        exact absurd hnew BitVec.not_lt_zero
      · simp only [update_of_ne heq] at hzero ⊢
        exact h.silent m hm hzero
    · have hne : m ≠ n := by omega
      simpa [hne] using h.absent m hm hge
  · exact h

theorem shiftActive (h : s.Valid count) (active : Word) : (s.shiftActive active count).2.Valid count := by
  rw [Bank.shiftActive]
  apply List.foldlRecOn (motive := fun r : Bool × Bank ↦ r.2.Valid count)
  · exact h
  · intro r hr n hn
    split_ifs
    · exact hr
    · exact hr.shiftOut r.1 (List.mem_range.mp hn)

end Valid

theorem shiftActive_eq (active : Word) (s : Bank) (count : ℕ) :
    ∃ xrsr source, (s.shiftActive active count).2 =
      { s with xrsr := xrsr, xrsrSourceSequence := source } := by
  rw [shiftActive]
  apply List.foldlRecOn (motive := fun r : Bool × Bank ↦ ∃ xrsr source,
    r.2 = { s with xrsr := xrsr, xrsrSourceSequence := source })
  · exact ⟨s.xrsr, s.xrsrSourceSequence, rfl⟩
  · intro r ⟨xrsr, source, hr⟩ n _
    split_ifs
    · exact ⟨xrsr, source, hr⟩
    · rw [shiftOut, hr]
      split_ifs
      · exact ⟨_, _, rfl⟩
      · exact ⟨xrsr, source, rfl⟩

theorem frameSlots_le {slots : ℕ} (h : s.frameSlots = some slots) : slots ≤ 0x180 := by
  rw [frameSlots] at h
  split_ifs at h <;> cases h
  · exact le_rfl
  · omega

theorem nextSlot_lt {slots next : ℕ} (hslots : slots ≤ 0x180) (h : s.nextSlot slots = some next) :
    next < 0x180 := by
  rw [nextSlot] at h
  split_ifs at h with hbad hwrap
  · cases h
    decide
  · cases h
    omega

namespace Valid

theorem enter (h : s.Valid count) {next : ℕ} (hnext : next < 0x180) (boundaries : BitVec 64) :
    Valid { s with xslot := BitVec.ofNat 32 next, txSlotBoundaries := boundaries } count := by
  refine { h with xslot := ?_ }
  rw [BitVec.le_def, BitVec.toNat_ofNat, Nat.mod_eq_of_lt (by omega)]
  exact Nat.le_of_lt_succ hnext

theorem transferBuffers (h : s.Valid count) (hactive : s.activeTxMask count ≠ 0) :
    (s.transferBuffers count).Valid count := by
  have hshifted := h.shiftActive (s.activeTxMask count)
  obtain ⟨xrsr, source, hsame⟩ := shiftActive_eq (s.activeTxMask count) s count
  have hmask : (s.shiftActive (s.activeTxMask count) count).2.activeTxMask count =
      s.activeTxMask count := by
    rw [hsame]
    rfl
  rw [Bank.transferBuffers]
  generalize s.shiftActive (s.activeTxMask count) count = r at hshifted hmask ⊢
  obtain ⟨underrun, shifted⟩ := r
  dsimp only at hshifted hmask ⊢
  rw [← hmask] at hactive ⊢
  cases underrun with
  | false => exact hshifted.raise _ hactive
  | true => exact (hshifted.xstat_or (by decide) (by decide)).raise _ hactive

theorem txSlot (h : s.Valid count) {raised : Bool} (hslot : s.txSlot count = some (raised, t)) :
    t.Valid count := by
  rw [Bank.txSlot] at hslot
  split_ifs at hslot with hstopped
  · rw [not_or] at hstopped
    cases hslots : s.frameSlots with
    | none =>
      rw [hslots] at hslot
      cases hslot
    | some slots =>
      cases hnext : s.nextSlot slots with
      | none =>
        simp only [hslots, hnext, Option.bind_some] at hslot
        cases hslot
      | some next =>
        have hentered := h.enter (nextSlot_lt (frameSlots_le hslots) hnext) (s.txSlotBoundaries + 1)
        simp only [hslots, hnext, Option.bind_some] at hslot
        split_ifs at hslot
        · cases hslot
          exact hentered.transferBuffers hstopped.2
        · cases hslot
          exact hentered

theorem reset : (Bank.reset count).Valid count where
  undocumented04 := (by decide : (0 : Word) ≤ 1)
  gblctl := BitVec.zero_and
  amute := (by decide : (0 : Word) &&& ~~~0x1fef#32 = 0 ∧ (0 : Word) &&& 3#32 ≠ 3)
  dlbctl := (by decide : legalDlbctl 0 = true)
  ditctl := BitVec.zero_and
  xfmt := fun h ↦ (h rfl).elim
  afsxctl := (by decide : legalAfsxctl 0 = true)
  aclkxctl := (by decide : 0x60#32 &&& ~~~0xff#32 = 0)
  ahclkxctl := (by decide : 0x8000#32 &&& ~~~0xcfff#32 = 0)
  xintctl := BitVec.zero_and
  xstat := BitVec.zero_and
  xclkchk := (by decide : (0 : Word) &&& ~~~0x00ffff0f#32 = 0 ∧ ((0 : Word) &&& 0xf#32).toNat ≤ 8)
  xrdy := BitVec.zero_and
  xdmaNext := Nat.le_refl count
  xdata := fun h ↦ (h BitVec.zero_and).elim
  written := fun _ _ ↦ BitVec.le_refl _
  shifted := fun _ _ ↦ BitVec.le_refl _
  silent := fun _ _ _ ↦ rfl
  xslot := (by decide : (0x17f : Word) ≤ 0x17f)
  absent := fun _ _ _ ↦ ⟨rfl, rfl, rfl, rfl, rfl⟩
  present := fun _ _ _ ↦ ⟨(by decide : legalSrctl 0 = true),
    fun hready ↦ absurd (hready.symm.trans BitVec.getLsbD_zero) (by decide)⟩

theorem of_checked {valid : Bool} {u : Bank} (h : (if valid = true then some u else none) = some t)
    (hu : valid = true → u.Valid count) : t.Valid count := by
  split_ifs at h with hvalid
  cases h
  exact hu hvalid

theorem write (h : s.Valid count) {o : ℕ} (hwrite : s.write count o v = some t) : t.Valid count := by
  unfold Bank.write at hwrite
  extract_lets check at hwrite
  split_ifs at hwrite
  · exact of_checked hwrite fun _ ↦ { h with undocumented04 := (by decide : (1 : Word) ≤ 1) }
  · exact h.writeDmaPort hwrite
  · exact h.writeXbuf hwrite
  · cases hwrite
    exact { h with }
  · exact h.writeSrctl hwrite
  · split at hwrite
    · exact of_checked hwrite fun hv ↦ h.writeGblctl _ (of_decide_eq_true hv)
    · exact of_checked hwrite fun hv ↦ h.writeGblctl _ (of_decide_eq_true hv)
    · exact of_checked hwrite fun hv ↦ h.writeGblctl _ (of_decide_eq_true hv)
    · exact of_checked hwrite fun hv ↦ { h with amute := of_decide_eq_true hv }
    · exact of_checked hwrite fun hv ↦ { h with dlbctl := hv }
    · exact of_checked hwrite fun hv ↦ { h with ditctl := (of_decide_eq_true hv).1 }
    · cases hwrite
      exact { h with }
    · exact of_checked hwrite fun hv ↦ { h with xfmt := fun _ ↦ hv }
    · exact of_checked hwrite fun hv ↦ { h with afsxctl := hv }
    · exact of_checked hwrite fun hv ↦ { h with aclkxctl := of_decide_eq_true hv }
    · exact of_checked hwrite fun hv ↦ { h with ahclkxctl := of_decide_eq_true hv }
    · cases hwrite
      exact { h with }
    · exact of_checked hwrite fun hv ↦ { h with xintctl := of_decide_eq_true hv }
    · refine of_checked hwrite fun _ ↦ { h with
        xstat := within_and h.xstat _
        xdata := fun hset ↦ h.xdata fun hclear ↦ hset ?_ }
      rw [BitVec.and_assoc, BitVec.and_comm (~~~_), ← BitVec.and_assoc, hclear]
      exact BitVec.zero_and
    · exact of_checked hwrite fun hv ↦ { h with xclkchk := of_decide_eq_true hv }
    · exact of_checked hwrite fun _ ↦ h
    · cases hwrite

end Valid

end Bank

end Cdj2000Emulator.Mcasp.Control
