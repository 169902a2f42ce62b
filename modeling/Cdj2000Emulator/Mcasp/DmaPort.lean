import Cdj2000Emulator.Mcasp.Invariant

namespace Cdj2000Emulator.Mcasp.Control

open Function Library.BitMask

namespace Bank

variable {base s t : Bank} {count k n : ℕ} {v : Word} {words : List Word}

theorem active_congr (h : s.srctl = base.srctl) : s.active count = base.active count := by
  have htransmits : s.transmits = base.transmits := by
    funext n
    rw [transmits, transmits, h]
  rw [active, active, htransmits]

theorem nextTxSerializer_congr (h : s.srctl = base.srctl) (after : ℕ) :
    s.nextTxSerializer count after = base.nextTxSerializer count after := by
  have htransmits : s.transmits = base.transmits := by
    funext n
    rw [transmits, transmits, h]
  rw [nextTxSerializer, nextTxSerializer, htransmits]

theorem nextTxSerializer_zero : s.nextTxSerializer count 0 = ((s.active count)[0]?).getD count := by
  rw [nextTxSerializer, active, ← List.head?_eq_getElem?]
  simp

theorem nextTxSerializer_succ (hk : k < (s.active count).length) :
    s.nextTxSerializer count ((s.active count)[k] + 1) = ((s.active count)[k + 1]?).getD count := by
  have hfilter : ∀ after, (List.range count).filter (fun n ↦ after ≤ n && s.transmits n) =
      (s.active count).filter (after ≤ ·) := by
    intro after
    rw [active, List.filter_filter]
  rw [nextTxSerializer, hfilter, filter_above (active_sorted s count) hk, List.head?_drop]

/-- The words at the DMA port since a slot boundary have filled the first active serializers. -/
structure Filled (base : Bank) (count : ℕ) (words : List Word) (s : Bank) : Prop where
  srctl : s.srctl = base.srctl
  xfmt : s.xfmt = base.xfmt
  cursor : s.xdmaNext = ((base.active count)[words.length]?).getD count
  ready : ∀ n < 32, s.xrdy.getLsbD n = decide (n ∈ (base.active count).drop words.length)
  filled : ∀ (i : ℕ) (w : Word) (n : ℕ), words[i]? = some w → (base.active count)[i]? = some n → s.xbuf n = w
  others : ∀ n, n ∉ (base.active count).take words.length →
    s.xbuf n = base.xbuf n ∧ s.xbufSequence n = base.xbufSequence n
  xdata : s.xstat &&& 0x20#32 ≠ 0 ↔ words.length < (base.active count).length
  dmaError : s.xstat &&& 0x80#32 ≠ 0 ↔
    base.xstat &&& 0x80#32 ≠ 0 ∨ (base.active count).length < words.length

theorem lt_of_mem_active (hcount : count ≤ 16) (hn : n ∈ s.active count) : n < 32 := by
  have := (mem_active.mp hn).1
  omega

theorem or_and_self (x m : Word) : (x ||| m) &&& m = m := by
  apply BitVec.eq_of_getLsbD_eq
  intro i _
  rw [BitVec.getLsbD_and, BitVec.getLsbD_or]
  cases x.getLsbD i <;> cases m.getLsbD i <;> rfl

theorem settleXdata_eq (s : Bank) (count : ℕ) : s.settleXdata count =
    { s with xstat :=
      if s.xrdy &&& s.activeTxMask count = 0 then s.xstat &&& ~~~0x20#32 else s.xstat } := by
  rw [settleXdata]
  split_ifs <;> rfl

theorem ready_and_active (hcount : count ≤ 16) {l : List ℕ} (hl : ∀ n ∈ l, n ∈ s.active count)
    (hready : ∀ n < 32, s.xrdy.getLsbD n = decide (n ∈ l)) :
    s.xrdy &&& s.activeTxMask count = 0 ↔ l = [] := by
  rw [and_eq_zero_iff]
  constructor
  · intro hnone
    by_contra hne
    obtain ⟨n, hn⟩ := List.exists_mem_of_ne_nil l hne
    have hlt := lt_of_mem_active hcount (hl n hn)
    have hoff := hnone n (by rw [hready n hlt, decide_eq_true hn])
    rw [getLsbD_activeTxMask hlt, decide_eq_false_iff_not] at hoff
    exact hoff (hl n hn)
  · rintro rfl i hi
    have hlt : i < 32 := BitVec.lt_of_getLsbD hi
    rw [hready i hlt, decide_eq_true_eq] at hi
    exact absurd hi List.not_mem_nil

theorem transferBuffers_eq (s : Bank) (count : ℕ) :
    ∃ xrsr source xstat, s.transferBuffers count = { s with
      xrsr := xrsr
      xrsrSourceSequence := source
      xrdy := s.activeTxMask count
      xdmaNext := s.nextTxSerializer count 0
      xstat := xstat ||| 0x20#32
      axevtGeneration := s.axevtGeneration + 1 } := by
  obtain ⟨xrsr, source, hsame⟩ := shiftActive_eq (s.activeTxMask count) s count
  rw [transferBuffers]
  generalize s.shiftActive (s.activeTxMask count) count = r at hsame ⊢
  obtain ⟨underrun, shifted⟩ := r
  dsimp only at hsame ⊢
  subst hsame
  exact ⟨xrsr, source, _, rfl⟩

theorem txSlot_raised (h : s.txSlot count = some (true, t)) :
    ∃ entered : Bank, entered.activeTxMask count ≠ 0 ∧ t = entered.transferBuffers count := by
  rw [txSlot] at h
  split_ifs at h with hstopped
  · cases hnext : s.frameSlots.bind s.nextSlot with
    | none =>
      simp only [hnext] at h
      cases h
    | some next =>
      simp only [hnext] at h
      split_ifs at h <;> cases h
      exact ⟨{ s with xslot := BitVec.ofNat 32 next, txSlotBoundaries := s.txSlotBoundaries + 1 },
        fun hnone ↦ hstopped (Or.inr hnone), rfl⟩

/-- At the boundary every active serializer is empty. -/
theorem filled_nil (hslot : s.txSlot count = some (true, t)) : Filled t count [] t := by
  obtain ⟨entered, hactive, hraised⟩ := txSlot_raised hslot
  obtain ⟨xrsr, source, xstat, hsame⟩ := transferBuffers_eq entered count
  rw [hsame] at hraised
  have hmask : t.xrdy = t.activeTxMask count := by
    rw [hraised]
    rfl
  have hcursor : t.xdmaNext = t.nextTxSerializer count 0 := by
    rw [hraised]
    rfl
  have hxdata : t.xstat &&& 0x20#32 ≠ 0 := by
    rw [hraised]
    dsimp only
    rw [or_and_self]
    decide
  have hsome : 0 < (t.active count).length := by
    rw [List.length_pos_iff]
    intro hnil
    apply hactive
    have hlist : entered.active count = [] := by
      rw [← hnil, hraised]
      rfl
    rw [activeTxMask]
    exact congrArg (List.foldl _ 0) hlist
  refine ⟨rfl, rfl, hcursor.trans nextTxSerializer_zero, fun n hn ↦ ?_, fun i w n hw ↦ ?_,
    fun _ _ ↦ ⟨rfl, rfl⟩, iff_of_true hxdata hsome, ?_⟩
  · rw [hmask, getLsbD_activeTxMask hn]
    rfl
  · cases hw
  · rw [List.length_nil, iff_self_or]
    exact fun hless ↦ absurd hless (Nat.not_lt_zero _)

theorem Filled.overrun (h : Filled base count words s) (v : Word)
    (hk : (base.active count).length ≤ words.length) :
    Filled base count (words ++ [v]) { s with xstat := s.xstat ||| 0x80#32 } := by
  have hnone : s.xdmaNext = count := by
    rw [h.cursor, List.getElem?_eq_none hk]
    rfl
  have hready := h.ready
  rw [List.drop_eq_nil_of_le hk] at hready
  have hothers := h.others
  rw [List.take_of_length_le hk] at hothers
  have hlength : (words ++ [v]).length = words.length + 1 := by simp
  refine ⟨h.srctl, h.xfmt, ?_, ?_, fun i w n hw hn ↦ ?_, ?_, ?_, ?_⟩
  · rw [hlength, List.getElem?_eq_none (by omega)]
    exact hnone
  · rw [hlength, List.drop_eq_nil_of_le (by omega)]
    exact hready
  · have hi : i < words.length := lt_of_lt_of_le (List.getElem?_eq_some_iff.mp hn).1 hk
    rw [List.getElem?_append_left hi] at hw
    exact h.filled i w n hw hn
  · rw [hlength, List.take_of_length_le (by omega)]
    exact hothers
  · rw [or_and_of_disjoint (by decide), hlength]
    exact iff_of_false (fun hset ↦ absurd (h.xdata.mp hset) (by omega)) (by omega)
  · rw [or_and_self, hlength]
    exact iff_of_true (by decide) (Or.inr (by omega))

theorem Filled.next (h : Filled base count words s) (hcount : count ≤ 16) (v : Word)
    (hk : words.length < (base.active count).length) :
    Filled base count (words ++ [v]) { s.noteXbufWrite count s.xdmaNext v with
      xdmaNext := (s.noteXbufWrite count s.xdmaNext v).nextTxSerializer count (s.xdmaNext + 1) } := by
  have hlength : (words ++ [v]).length = words.length + 1 := by simp
  have hcursor : s.xdmaNext = (base.active count)[words.length] := by
    rw [h.cursor, List.getElem?_eq_getElem hk]
    rfl
  have hactive : s.active count = base.active count := active_congr h.srctl
  have hdrop : (base.active count).drop words.length =
      s.xdmaNext :: (base.active count).drop (words.length + 1) := by
    rw [hcursor]
    exact List.drop_eq_getElem_cons hk
  have hafter : ∀ n ∈ (base.active count).drop (words.length + 1), s.xdmaNext < n := by
    have hsorted := (active_sorted base count).drop (i := words.length)
    rw [hdrop, List.pairwise_cons] at hsorted
    exact hsorted.1
  have hready : ∀ n < 32, (s.xrdy &&& ~~~bit s.xdmaNext).getLsbD n =
      decide (n ∈ (base.active count).drop (words.length + 1)) := by
    intro n hn
    rw [getLsbD_clear hn, h.ready n hn, hdrop]
    by_cases heq : n = s.xdmaNext
    · have hout : s.xdmaNext ∉ (base.active count).drop (words.length + 1) :=
        fun hmem ↦ lt_irrefl _ (hafter _ hmem)
      simp [heq, hout]
    · simp [heq]
  have hsettled : (s.xrdy &&& ~~~bit s.xdmaNext) &&& s.activeTxMask count = 0 ↔
      ¬words.length + 1 < (base.active count).length := by
    have hmem : ∀ n ∈ (base.active count).drop (words.length + 1), n ∈ s.active count := by
      intro n hn
      rw [hactive]
      exact List.mem_of_mem_drop hn
    have hnone := ready_and_active (s := { s with xrdy := s.xrdy &&& ~~~bit s.xdmaNext }) hcount hmem hready
    rw [List.drop_eq_nil_iff, ← not_lt] at hnone
    exact hnone
  rw [noteXbufWrite, settleXdata_eq]
  refine ⟨h.srctl, h.xfmt, ?_, ?_, fun i w n hw hn ↦ ?_, fun n hn ↦ ?_, ?_, ?_⟩
  · rw [hlength, ← nextTxSerializer_succ hk, ← hcursor]
    exact nextTxSerializer_congr h.srctl _
  · rw [hlength]
    exact hready
  · obtain ⟨hi, rfl⟩ := List.getElem?_eq_some_iff.mp hn
    rcases lt_trichotomy i words.length with hless | heq | hmore
    · have hother : (base.active count)[i] ≠ s.xdmaNext := by
        rw [hcursor]
        intro hsame
        have := (active_sorted base count).nodup.getElem_inj_iff.mp hsame
        omega
      rw [List.getElem?_append_left hless] at hw
      exact (update_of_ne hother _ _).trans (h.filled i w _ hw hn)
    · subst heq
      rw [List.getElem?_concat_length, Option.some.injEq] at hw
      rw [← hw, ← hcursor]
      exact update_self _ _ _
    · rw [List.getElem?_eq_none (by omega)] at hw
      cases hw
  · rw [hlength, List.take_add_one, List.getElem?_eq_getElem hk, List.mem_append, not_or, ← hcursor] at hn
    have hother : n ≠ s.xdmaNext := fun heq ↦ hn.2 (by simp [heq])
    obtain ⟨hbuf, hsequence⟩ := h.others n hn.1
    exact ⟨(update_of_ne hother _ _).trans hbuf, (update_of_ne hother _ _).trans hsequence⟩
  · rw [hlength]
    change (if (s.xrdy &&& ~~~bit s.xdmaNext) &&& s.activeTxMask count = 0
      then s.xstat &&& ~~~0x20#32 else s.xstat) &&& 0x20#32 ≠ 0 ↔ _
    split_ifs with hnone
    · exact iff_of_false (not_not_intro (clear_and_self _ _)) (hsettled.mp hnone)
    · exact iff_of_true (h.xdata.mpr hk) (not_not.mp (mt hsettled.mpr hnone))
  · have hsame : (if (s.xrdy &&& ~~~bit s.xdmaNext) &&& s.activeTxMask count = 0
        then s.xstat &&& ~~~0x20#32 else s.xstat) &&& 0x80#32 = s.xstat &&& 0x80#32 := by
      split_ifs
      · rw [BitVec.and_assoc]
        rfl
      · rfl
    rw [hlength]
    refine (not_congr (Eq.congr_left hsame)).trans (h.dmaError.trans (or_congr_right ?_))
    omega

theorem Filled.write (h : Filled base count words s) (hcount : count ≤ 16)
    (hport : base.xfmt &&& 8#32 = 0) (hwrite : s.writeDmaPort count v = some t) :
    Filled base count (words ++ [v]) t := by
  have hselected : ¬s.xfmt &&& 8#32 ≠ 0 := by
    rw [h.xfmt]
    exact not_not_intro hport
  rw [writeDmaPort, if_neg hselected] at hwrite
  by_cases hk : words.length < (base.active count).length
  · have hcursor : s.xdmaNext < count := by
      rw [h.cursor, List.getElem?_eq_getElem hk]
      exact (mem_active.mp (List.getElem_mem hk)).1
    rw [if_neg (not_le.mpr hcursor)] at hwrite
    split_ifs at hwrite
    cases hwrite
    exact h.next hcount v hk
  · have hcursor : count ≤ s.xdmaNext := by
      rw [h.cursor, List.getElem?_eq_none (not_lt.mp hk)]
      exact Nat.le_refl count
    rw [if_pos hcursor] at hwrite
    cases hwrite
    exact h.overrun v (not_lt.mp hk)

end Bank

/-- The calls of the interface that change something. -/
inductive Call
  | write (address : Word) (value : BitVec 64) (size : ℕ) (commit : Bool)
  | txSlot (inst : ℕ)

namespace Call

def step : Call → C6747McaspControl → C6747McaspControl
  | write address value size commit, s => (controlWrite s address value size commit).2
  | txSlot inst, s => ((Control.txSlot s inst).map (·.2)).getD s

def run (calls : List Call) (s : C6747McaspControl) : C6747McaspControl :=
  calls.foldl (fun s call ↦ call.step s) s

def OnlyDmaPort (b : ℕ) : Call → Prop
  | write address _ _ _ => ∀ o, locate address = some (b, o) → o = 0x2000
  | txSlot inst => inst ≠ b

def dmaWord (b : ℕ) : Call → C6747McaspControl → Option Word
  | write address value size commit, s =>
    if commit ∧ (controlWrite s address value size commit).1 ∧ locate address = some (b, 0x2000) then
      some (value.setWidth 32)
    else none
  | txSlot _, _ => none

def dmaWords (b : ℕ) : List Call → C6747McaspControl → List Word
  | [], _ => []
  | call :: calls, s => (call.dmaWord b s).toList ++ dmaWords b calls (call.step s)

variable {b : ℕ} {call : Call} {s : C6747McaspControl}

theorem OnlyDmaPort.step (h : call.OnlyDmaPort b) :
    (call.dmaWord b s = none ∧ call.step s b = s b) ∨
      ∃ v, call.dmaWord b s = some v ∧
        (s b).writeDmaPort (serializerCount b) v = some (call.step s b) := by
  cases call with
  | write address value size commit =>
    by_cases hsize : size ≠ 4 ∨ 0x100000000 ≤ value.toNat
    · refine Or.inl ⟨?_, ?_⟩ <;> simp [dmaWord, Call.step, controlWrite, hsize]
    · cases hplace : locate address with
      | none => refine Or.inl ⟨?_, ?_⟩ <;> simp [dmaWord, Call.step, controlWrite, hsize, hplace]
      | some place =>
        obtain ⟨inst, o⟩ := place
        by_cases hinst : inst = b
        · subst hinst
          have hport := h o hplace
          subst hport
          have hwrite : (s inst).write (serializerCount inst) 0x2000 (value.setWidth 32) =
              (s inst).writeDmaPort (serializerCount inst) (value.setWidth 32) := rfl
          cases hdone : (s inst).writeDmaPort (serializerCount inst) (value.setWidth 32) with
          | none =>
            refine Or.inl ⟨?_, ?_⟩ <;>
              simp [dmaWord, Call.step, controlWrite, hsize, hplace, hwrite, hdone]
          | some bank =>
            cases commit with
            | false =>
              refine Or.inl ⟨?_, ?_⟩ <;>
                simp [dmaWord, Call.step, controlWrite, hsize, hplace, hwrite, hdone]
            | true =>
              refine Or.inr ⟨value.setWidth 32, ?_, ?_⟩ <;>
                simp [dmaWord, Call.step, controlWrite, hsize, hplace, hwrite, hdone]
        · refine Or.inl ⟨?_, ?_⟩
          · simp [dmaWord, hplace, hinst]
          · rw [Call.step, controlWrite, if_neg hsize, hplace]
            dsimp only
            cases (s inst).write (serializerCount inst) o (value.setWidth 32) with
            | none => rfl
            | some bank =>
              cases commit with
              | false => rfl
              | true => exact update_of_ne (Ne.symm hinst) _ _
  | txSlot inst =>
    refine Or.inl ⟨rfl, ?_⟩
    rw [Call.step, Control.txSlot]
    split_ifs
    · rfl
    · cases (s inst).txSlot (serializerCount inst) with
      | none => rfl
      | some r => exact update_of_ne (Ne.symm h) _ _

/-- In between two boundaries of an instance. -/
theorem run_filled {base : Bank} {words : List Word} {calls : List Call}
    (hport : base.xfmt &&& 8#32 = 0) (hcalls : ∀ call ∈ calls, call.OnlyDmaPort b)
    (h : base.Filled (serializerCount b) words (s b)) :
    base.Filled (serializerCount b) (words ++ dmaWords b calls s) (run calls s b) := by
  induction calls generalizing s words with
  | nil => rwa [dmaWords, List.append_nil]
  | cons call calls ih =>
    have hrest : ∀ call ∈ calls, call.OnlyDmaPort b := fun call hmem ↦ hcalls call (List.mem_cons_of_mem _ hmem)
    rw [dmaWords, ← List.append_assoc]
    apply ih hrest
    rcases (hcalls call List.mem_cons_self).step (s := s) with ⟨hnone, hsame⟩ | ⟨v, hword, hwrite⟩
    · rw [hnone, Option.toList_none, List.append_nil, hsame]
      exact h
    · rw [hword, Option.toList_some]
      exact h.write (serializerCount_le b) hport hwrite

theorem step_valid (h : ControlValid s) (call : Call) : ControlValid (call.step s) := by
  intro c hc
  have hbank := h c hc
  have hupdate : ∀ {inst : ℕ} {bank : Bank}, (c = inst → bank.Valid (serializerCount inst)) →
      (update s inst bank c).Valid (serializerCount c) := by
    intro inst bank hvalid
    by_cases heq : c = inst
    · subst heq
      rw [update_self]
      exact hvalid rfl
    · rw [update_of_ne heq]
      exact hbank
  cases call with
  | write address value size commit =>
    rw [Call.step, controlWrite]
    by_cases hsize : size ≠ 4 ∨ 0x100000000 ≤ value.toNat
    · rw [if_pos hsize]
      exact hbank
    · rw [if_neg hsize]
      cases locate address with
      | none => exact hbank
      | some place =>
        dsimp only
        cases hwrite : (s place.1).write (serializerCount place.1) place.2 (value.setWidth 32) with
        | none => exact hbank
        | some bank =>
          cases commit with
          | false => exact hbank
          | true =>
            refine hupdate fun heq ↦ ?_
            rw [heq] at hbank
            exact hbank.write hwrite
  | txSlot inst =>
    rw [Call.step, Control.txSlot]
    by_cases hinst : 3 ≤ inst
    · rw [if_pos hinst]
      exact hbank
    · rw [if_neg hinst]
      cases hslot : (s inst).txSlot (serializerCount inst) with
      | none => exact hbank
      | some r =>
        refine hupdate fun heq ↦ ?_
        rw [heq] at hbank
        exact hbank.txSlot hslot

theorem run_valid (h : ControlValid s) (calls : List Call) : ControlValid (run calls s) := by
  induction calls generalizing s with
  | nil => exact h
  | cons call calls ih => exact ih (step_valid h call)

/-- The state is valid after every run from reset; and between a slot boundary with an AXEVT and the
next one the words at the DMA port, where it is the selected port, fill the active serializers in
their order. -/
theorem transmit_invariant :
    (∀ calls, ControlValid (run calls reset)) ∧
    ∀ (s t : C6747McaspControl) (b : ℕ), Control.txSlot s b = some (true, t) → (t b).xfmt &&& 8#32 = 0 →
      ∀ calls : List Call, (∀ call ∈ calls, call.OnlyDmaPort b) →
        (t b).Filled (serializerCount b) (dmaWords b calls t) (run calls t b) := by
  refine ⟨run_valid fun b _ ↦ Bank.Valid.reset, fun s t b hslot hport calls hcalls ↦ ?_⟩
  have hbank : ∃ s' : Bank, s'.txSlot (serializerCount b) = some (true, t b) := by
    rw [Control.txSlot] at hslot
    split_ifs at hslot
    rw [Option.map_eq_some_iff] at hslot
    obtain ⟨r, hr, hsame⟩ := hslot
    refine ⟨s b, hr.trans ?_⟩
    rw [Prod.mk.injEq] at hsame
    rw [← hsame.1, ← hsame.2, update_self]
  obtain ⟨s', hslot'⟩ := hbank
  exact run_filled hport hcalls (Bank.filled_nil hslot')

/-- Transmit serializers of the first instance, its resets released, with a format. -/
def startedWith (serializers : List Word) (xfmt : BitVec 64) : C6747McaspControl :=
  run (serializers.map (fun n ↦ .write (0x01d00180 + 4 * n) 1 4 true) ++
    [.write 0x01d000a8 xfmt 4 true, .write 0x01d000ac 0x100 4 true, .write 0x01d000b8 1 4 true,
      .write 0x01d00044 0x1f00 4 true]) reset

def started (xfmt : BitVec 64) : C6747McaspControl := startedWith [0] xfmt

theorem step_txSlot {s : C6747McaspControl} {b : ℕ} (h : (Control.txSlot s b).map (·.1) = some true) :
    Control.txSlot s b = some (true, (Call.txSlot b).step s) := by
  obtain ⟨r, hr, hfirst⟩ := Option.map_eq_some_iff.mp h
  rw [Call.step, hr, ← hfirst]
  rfl

theorem port_only (v : BitVec 64) : (Call.write 0x01d02000 v 4 true).OnlyDmaPort 0 := by
  intro o ho
  have hplace : locate 0x01d02000 = some (0, 0x2000) := by decide
  rw [hplace, Option.some.injEq, Prod.mk.injEq] at ho
  exact ho.2.symm

/-- Three words for two serializers: the third one is one too many. -/
def threeWords : List Call := [.write 0x01d02000 7 4 true, .write 0x01d02000 8 4 true, .write 0x01d02000 9 4 true]

theorem transmit_invariant_started : ControlValid (startedWith [0, 2] 0x30) ∧
    ∃ t, Control.txSlot (startedWith [0, 2] 0x30) 0 = some (true, t) ∧ (t 0).active 16 = [0, 2] ∧
      dmaWords 0 threeWords t = [7, 8, 9] ∧ (t 0).Filled 16 [7, 8, 9] (run threeWords t 0) := by
  have hslot := step_txSlot (s := startedWith [0, 2] 0x30) (b := 0) (by decide +kernel)
  have hwords : dmaWords 0 threeWords ((Call.txSlot 0).step (startedWith [0, 2] 0x30)) = [7, 8, 9] := by decide +kernel
  have hcalls : ∀ call ∈ threeWords, call.OnlyDmaPort 0 := by
    intro call hcall
    simp only [threeWords, List.mem_cons, List.not_mem_nil, or_false] at hcall
    obtain rfl | rfl | rfl := hcall
    · exact port_only 7
    · exact port_only 8
    · exact port_only 9
  have hfilled := transmit_invariant.2 _ _ 0 hslot (by decide +kernel) threeWords hcalls
  rw [hwords] at hfilled
  exact ⟨transmit_invariant.1 _, _, hslot, by decide +kernel, hwords, hfilled⟩

/-- Where the DMA port is not the selected one, it takes a word and ignores it. -/
theorem unselected_ignored :
    ∃ t call, Control.txSlot (started 0x38) 0 = some (true, t) ∧ call.OnlyDmaPort 0 ∧
      dmaWords 0 [call] t = [7] ∧ ¬(t 0).Filled 16 (dmaWords 0 [call] t) (run [call] t 0) := by
  have hslot := step_txSlot (s := started 0x38) (b := 0) (by decide +kernel)
  have hwords : dmaWords 0 [.write 0x01d02000 7 4 true] ((Call.txSlot 0).step (started 0x38)) = [7] := by
    decide +kernel
  refine ⟨_, .write 0x01d02000 7 4 true, hslot, port_only 7, hwords, fun hfilled ↦ ?_⟩
  rw [hwords] at hfilled
  have hxdata : (run [.write 0x01d02000 7 4 true] ((Call.txSlot 0).step (started 0x38)) 0).xstat &&&
      0x20#32 ≠ 0 := by decide +kernel
  have hlength : ((Call.txSlot 0).step (started 0x38) 0).active 16 = [0] := by decide +kernel
  have hless := hfilled.xdata.mp hxdata
  rw [hlength] at hless
  exact absurd hless (lt_irrefl 1)

end Call

end Cdj2000Emulator.Mcasp.Control
