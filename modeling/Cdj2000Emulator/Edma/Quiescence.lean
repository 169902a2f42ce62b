import Cdj2000Emulator.Edma.Halves

namespace Cdj2000Emulator.Edma.Quiescence

open Library.Worklist Model Halves

theorem getLsbD_or_bit (x : Word) (i j : ℕ) :
    (x ||| bit i).getLsbD j = (x.getLsbD j || (decide (i < 32) && decide (i = j))) := by
  simp

theorem getLsbD_clear_bit (x : Word) (i j : ℕ) :
    (x &&& ~~~bit i).getLsbD j = true ↔ x.getLsbD j = true ∧ i ≠ j := by
  rw [BitVec.getLsbD_and, BitVec.getLsbD_not, BitVec.getLsbD_twoPow, Bool.and_eq_true]
  constructor
  · rintro ⟨hx, hj⟩
    refine ⟨hx, fun h ↦ ?_⟩
    simp_all
  · rintro ⟨hx, hij⟩
    have hj : j < 32 := by
      by_contra hge
      simp [BitVec.getLsbD_of_ge x j (by omega)] at hx
    simp [hx, hj, hij]

section Masks

variable {x y m : Word}

theorem masked_and (h : x &&& ~~~m = 0) : (x &&& y) &&& ~~~m = 0 := by
  rw [BitVec.and_assoc, BitVec.and_comm y, ← BitVec.and_assoc, h]
  exact BitVec.zero_and

theorem masked_or (hx : x &&& ~~~m = 0) (hy : y &&& ~~~m = 0) : (x ||| y) &&& ~~~m = 0 := by
  rw [BitVec.and_comm, BitVec.and_or_distrib_left, BitVec.and_comm, hx, BitVec.and_comm, hy]
  exact BitVec.or_zero

theorem masked_and_right (h : y &&& ~~~m = 0) : (x &&& y) &&& ~~~m = 0 := by
  rw [BitVec.and_comm x]
  exact masked_and h

theorem masked_bit {n i : ℕ} (hn : n ≤ 8) (hi : i < n) :
    bit i &&& ~~~(BitVec.ofNat 32 (2 ^ n - 1)) = 0 := by
  interval_cases n <;> interval_cases i <;> decide

end Masks

/-- `valid`, clause by clause. -/
structure Legal (s : C6747Edma) : Prop where
  qchmap : ∀ q < 8, legalQchmap (s.qchmap q)
  dmaqnum : ∀ n < 4, legalQueueMap (s.dmaqnum n)
  qdmaqnum : legalQueueMap s.qdmaqnum
  qwmthra : s.qwmthra &&& ~~~0x1f1f#32 = 0
  qer : s.qer &&& ~~~0xff#32 = 0
  qeer : s.qeer &&& ~~~0xff#32 = 0
  qser : s.qser &&& ~~~0xff#32 = 0
  qemr : s.qemr &&& ~~~0xff#32 = 0
  irqNotifications : s.irqNotifications &&& ~~~0xf#32 = 0
  ccerr : s.ccerr &&& ~~~0x00030003#32 = 0
  qrae : ∀ r < 4, s.qrae r &&& ~~~0xff#32 = 0
  param : ∀ p < 128, legalOpt (s.param p 0) ∧ s.param p 7 &&& 0xffff0000#32 = 0

theorem valid_iff (s : C6747Edma) : valid s = true ↔ Legal s := by
  simp only [valid, Bool.and_eq_true, List.all_eq_true, List.mem_range, beq_iff_eq]
  constructor
  · rintro ⟨⟨⟨⟨⟨⟨⟨⟨⟨⟨⟨h₁, h₂⟩, h₃⟩, h₄⟩, h₅⟩, h₆⟩, h₇⟩, h₈⟩,
      h₉⟩, h₁₀⟩, h₁₁⟩, h₁₂⟩
    exact ⟨h₁, h₂, h₃, h₄, h₅, h₆, h₇, h₈, h₉, h₁₀, h₁₁, h₁₂⟩
  · intro h
    exact ⟨⟨⟨⟨⟨⟨⟨⟨⟨⟨⟨h.qchmap, h.dmaqnum⟩, h.qdmaqnum⟩, h.qwmthra⟩, h.qer⟩,
      h.qeer⟩, h.qser⟩,
      h.qemr⟩, h.irqNotifications⟩, h.ccerr⟩, h.qrae⟩, h.param⟩

/-- The worklist invariant: every pending bit has its request among `items`. -/
structure Pending (s : C6747Edma) (items : List PendingEvent) : Prop where
  legal : Legal s
  ser : s.ser = 0
  qser : s.qser = 0
  esr : ∀ c, s.esr.getLsbD c = true → ⟨.dma, c⟩ ∈ items
  cer : ∀ c, s.cer.getLsbD c = true → ⟨.dma, c⟩ ∈ items
  er : ∀ c, s.er.getLsbD c = true → s.eer.getLsbD c = true → ⟨.dma, c⟩ ∈ items
  qer : ∀ q, s.qer.getLsbD q = true → ⟨.qdma, q⟩ ∈ items

theorem Pending.mono {s : C6747Edma} {items l : List PendingEvent} (h : Pending s items)
    (hsub : items ⊆ l) : Pending s l :=
  ⟨h.legal, h.ser, h.qser, fun c hc ↦ hsub (h.esr c hc), fun c hc ↦ hsub (h.cer c hc),
    fun c hc he ↦ hsub (h.er c hc he), fun q hq ↦ hsub (h.qer q hq)⟩

theorem Pending.acknowledge {s : C6747Edma} {event : PendingEvent} {items : List PendingEvent}
    (h : Pending s (event :: items)) : Pending (s.acknowledge event) items := by
  obtain ⟨kind, channel⟩ := event
  have hrest {kind' : EventKind} {c : ℕ} (hc : kind ≠ kind' ∨ channel ≠ c)
      (hm : (⟨kind', c⟩ : PendingEvent) ∈ ⟨kind, channel⟩ :: items) :
      (⟨kind', c⟩ : PendingEvent) ∈ items := by
    rcases List.mem_cons.mp hm with heq | hm
    · injection heq with hk hch
      rcases hc with hc | hc
      · exact absurd hk.symm hc
      · exact absurd hch.symm hc
    · exact hm
  cases kind with
  | dma =>
    refine ⟨{ h.legal with }, ?_, h.qser, ?_, ?_, ?_, ?_⟩
    · simp [C6747Edma.acknowledge, h.ser]
    · intro c hc
      obtain ⟨hc, hne⟩ := (getLsbD_clear_bit _ _ _).mp hc
      exact hrest (.inr hne) (h.esr c hc)
    · intro c hc
      obtain ⟨hc, hne⟩ := (getLsbD_clear_bit _ _ _).mp hc
      exact hrest (.inr hne) (h.cer c hc)
    · intro c hc he
      obtain ⟨hc, hne⟩ := (getLsbD_clear_bit _ _ _).mp hc
      exact hrest (.inr hne) (h.er c hc he)
    · intro q hq
      exact hrest (.inl (by decide)) (h.qer q hq)
  | qdma =>
    refine ⟨{ h.legal with qer := masked_and h.legal.qer, qser := masked_and h.legal.qser },
      h.ser, ?_, ?_, ?_, ?_, ?_⟩
    · simp [C6747Edma.acknowledge, h.qser]
    · intro c hc
      exact hrest (.inl (by decide)) (h.esr c hc)
    · intro c hc
      exact hrest (.inl (by decide)) (h.cer c hc)
    · intro c hc he
      exact hrest (.inl (by decide)) (h.er c hc he)
    · intro q hq
      obtain ⟨hq, hne⟩ := (getLsbD_clear_bit _ _ _).mp hq
      exact hrest (.inr hne) (h.qer q hq)

/-- The clauses of `valid` about one PaRAM set. -/
def LegalSet (p : ParamSet) : Prop := legalOpt (p 0) ∧ p 7 &&& 0xffff0000#32 = 0

theorem Legal.setParam {s : C6747Edma} (h : Legal s) (set : ℕ) {p : ParamSet}
    (hp : LegalSet p) : Legal (s.setParam set p) where
  __ := h
  param := by
    intro q hq
    by_cases heq : q = set
    · subst heq
      simpa [C6747Edma.setParam, LegalSet] using hp
    · simpa [C6747Edma.setParam, heq] using h.param q hq

theorem Pending.setParam {s : C6747Edma} {items : List PendingEvent} (h : Pending s items)
    (set : ℕ) {p : ParamSet} (hp : LegalSet p) : Pending (s.setParam set p) items :=
  ⟨h.legal.setParam set hp, h.ser, h.qser, h.esr, h.cer, h.er, h.qer⟩

theorem legalSet_of_validParam {p : ParamSet} (h : validParam p = true) : LegalSet p := by
  simp only [validParam, decide_eq_true_eq] at h
  exact ⟨h.1, h.2.2.2.2.2.2.1⟩

theorem legalSet_nullSet : LegalSet nullSet := ⟨by decide, by decide⟩

theorem legalSet_advance {p : ParamSet} (h : LegalSet p) : LegalSet (advance p) := by
  have hlt := ccnt_lt p
  have hless := high_half_ofNat (n := ccnt p - 1) (by omega)
  unfold advance
  split
  · exact ⟨h.1, by simpa using hless⟩
  · split
    · exact h
    · exact ⟨h.1, by simpa using hless⟩

theorem Pending.retrigger {s s' : C6747Edma} {qs : List ℕ} {queue queue' : PendingQueue}
    (h : Pending s queue.items) (hqs : ∀ q ∈ qs, q < 8)
    (hr : s.retrigger queue qs = (true, s', queue')) : Pending s' queue'.items := by
  induction qs generalizing s queue with
  | nil =>
    simp only [C6747Edma.retrigger, Prod.mk.injEq, true_and] at hr
    obtain ⟨rfl, rfl⟩ := hr
    exact h
  | cons q qs ih =>
    have hq := hqs q List.mem_cons_self
    have hbit : bit q &&& ~~~0xff#32 = 0 := masked_bit le_rfl hq
    simp only [C6747Edma.retrigger] at hr
    split at hr
    · simp at hr
    · rename_i mid hpush
      refine ih ?_ (fun p hp ↦ hqs p (List.mem_cons_of_mem _ hp)) hr
      rw [Queue.items_push hpush]
      have hm := h.mono (l := queue.items ++ [⟨.qdma, q⟩]) (List.subset_append_left _ _)
      split
      · exact ⟨{ h.legal with qemr := masked_or h.legal.qemr hbit }, hm.ser, hm.qser, hm.esr,
          hm.cer, hm.er, hm.qer⟩
      · refine ⟨{ h.legal with qer := masked_or h.legal.qer hbit }, hm.ser, hm.qser, hm.esr,
          hm.cer, hm.er, ?_⟩
        intro p hp
        rw [getLsbD_or_bit] at hp
        by_cases heq : q = p
        · simp [heq]
        · exact hm.qer p (by simpa [heq] using hp)

theorem qmatches_lt (s : C6747Edma) (set : ℕ) : ∀ q ∈ s.qmatches set, q < 8 := by
  intro q hq
  exact List.mem_range.mp (List.mem_filter.mp hq).1

theorem linked_lt {p : ParamSet} (h : validParam p = true) (hl : link p ≠ 0xffff) :
    (link p &&& 0x3fff#32).toNat / 32 < 128 := by
  simp only [validParam, decide_eq_true_eq] at h
  have := (h.2.2.2.2.2.2.2.resolve_left hl).2
  omega

theorem Pending.updateParam {s s' : C6747Edma} {set : ℕ} {original : ParamSet}
    {queue queue' : PendingQueue} (h : Pending s queue.items)
    (hv : validParam original = true)
    (hu : s.updateParam set original queue = (true, s', queue')) :
    Pending s' queue'.items := by
  have hset := legalSet_of_validParam hv
  simp only [C6747Edma.updateParam] at hu
  split at hu
  · cases hu
    exact h
  · split at hu
    · cases hu
      exact h.setParam set (legalSet_advance hset)
    · split at hu
      · cases hu
        exact h.setParam set legalSet_nullSet
      · rename_i hl
        have hlinked := h.legal.param _ (linked_lt hv hl)
        exact (h.setParam set hlinked).retrigger (qmatches_lt _ _) hu

theorem Pending.raiseInterrupt {s : C6747Edma} {items : List PendingEvent}
    (h : Pending s items) (code : ℕ) : Pending (s.raiseInterrupt code) items := by
  refine ⟨{ h.legal with irqNotifications := ?_ }, h.ser, h.qser, h.esr, h.cer, h.er, h.qer⟩
  have hfold (l : List ℕ) (hl : ∀ r ∈ l, r < 4) (f : ℕ → Bool) (n : Word)
      (hn : n &&& ~~~0xf#32 = 0) :
      l.foldl (fun n r ↦ if f r then n ||| bit r else n) n &&& ~~~0xf#32 = 0 := by
    induction l generalizing n with
    | nil => exact hn
    | cons r l ih =>
      apply ih (fun r' hr' ↦ hl r' (List.mem_cons_of_mem _ hr'))
      dsimp only
      split
      · exact masked_or hn (masked_bit (n := 4) (by decide) (hl r List.mem_cons_self))
      · exact hn
  exact hfold _ (fun r hr ↦ List.mem_range.mp hr) _ _ h.legal.irqNotifications

theorem Pending.chainTo {s s' : C6747Edma} {code : ℕ} {queue queue' : PendingQueue}
    (h : Pending s queue.items) (hc : s.chainTo code queue = (true, s', queue')) :
    Pending s' queue'.items := by
  simp only [C6747Edma.chainTo] at hc
  split at hc
  · simp at hc
  · rename_i mid hpush
    simp only [Prod.mk.injEq, true_and] at hc
    obtain ⟨rfl, rfl⟩ := hc
    rw [Queue.items_push hpush]
    have hm := h.mono (l := queue.items ++ [⟨.dma, code⟩]) (List.subset_append_left _ _)
    split
    · exact ⟨{ h.legal with }, hm.ser, hm.qser, hm.esr, hm.cer, hm.er, hm.qer⟩
    · refine ⟨{ h.legal with }, hm.ser, hm.qser, hm.esr, ?_, hm.er, hm.qer⟩
      intro c hcer
      rw [getLsbD_or_bit] at hcer
      by_cases heq : code = c
      · simp [heq]
      · exact hm.cer c (by simpa [heq] using hcer)

theorem Pending.count {s : C6747Edma} {items : List PendingEvent} (h : Pending s items)
    (p : ParamSet) : Pending (s.count p) items :=
  ⟨{ h.legal with }, h.ser, h.qser, h.esr, h.cer, h.er, h.qer⟩

/-- What an accepted bookkeeping went through. -/
theorem retire_ok {s s' : C6747Edma} {event : PendingEvent} {set : ℕ} {original : ParamSet}
    {queue queue' : PendingQueue}
    (h : s.retire event set original queue = (true, s', queue')) :
    ∃ s₁ queue₁ s₂, (s.acknowledge event).updateParam set original queue = (true, s₁, queue₁) ∧
      (if chains original then
        (if interrupts original then s₁.raiseInterrupt (tcc (original 0)) else s₁).chainTo
          (tcc (original 0)) queue₁
      else (true, if interrupts original then s₁.raiseInterrupt (tcc (original 0)) else s₁,
        queue₁)) = (true, s₂, queue') ∧ s' = s₂.count original := by
  simp only [C6747Edma.retire] at h
  split at h
  · simp at h
  · rename_i s₁ queue₁ hu
    split at h
    · simp at h
    · rename_i s₂ queue₂ hc
      simp only [Prod.mk.injEq, true_and] at h
      obtain ⟨rfl, rfl⟩ := h
      exact ⟨s₁, queue₁, s₂, hu, hc, rfl⟩

section Run

variable {β : Type} {bus : Bus β} {commit : Bool}

/-- What an accepted completion went through. -/
theorem completeOne_ok {m m' : C6747Edma × β} {queue queue' : PendingQueue}
    {event : PendingEvent} (h : completeOne bus commit m queue event = (true, m', queue')) :
    m.1.setOf event < 128 ∧
    transferBytes bus commit (m.1.param (m.1.setOf event)) m.2 = (true, m'.2) ∧
    m.1.retire event (m.1.setOf event) (m.1.param (m.1.setOf event)) queue =
      (true, m'.1, queue') := by
  obtain ⟨s, b⟩ := m
  simp only [completeOne] at h
  split at h
  · simp at h
  · rename_i hset
    split at h
    · simp at h
    · rename_i b' ht
      simp only [Prod.mk.injEq] at h
      obtain ⟨hok, rfl, rfl⟩ := h
      exact ⟨Nat.lt_of_not_le hset, ht, by rw [← hok]⟩

theorem validParam_of_transferBytes {p : ParamSet} {b b' : β}
    (h : transferBytes bus commit p b = (true, b')) : validParam p = true := by
  by_contra hv
  simp [transferBytes, hv] at h

theorem completeOne_pending {m m' : C6747Edma × β} {queue queue' : PendingQueue}
    {event : PendingEvent} (hm : Pending m.1 (event :: queue.items))
    (h : completeOne bus commit m queue event = (true, m', queue')) :
    Pending m'.1 queue'.items := by
  obtain ⟨-, ht, hr⟩ := completeOne_ok h
  have hv := validParam_of_transferBytes ht
  obtain ⟨s₁, queue₁, s₂, hu, hc, hs⟩ := retire_ok hr
  have h₁ := hm.acknowledge.updateParam hv hu
  have h₂ : Pending (if interrupts (m.1.param (m.1.setOf event)) then
      s₁.raiseInterrupt (tcc (m.1.param (m.1.setOf event) 0)) else s₁) queue₁.items := by
    split
    · exact h₁.raiseInterrupt _
    · exact h₁
  rw [hs]
  apply Pending.count
  split at hc
  · exact h₂.chainTo hc
  · simp only [Prod.mk.injEq, true_and] at hc
    obtain ⟨rfl, rfl⟩ := hc
    exact h₂

theorem service_pending {m m' : C6747Edma × β} {initial : List PendingEvent}
    (hm : Pending m.1 initial) (h : service bus commit m initial = (true, m')) :
    Pending m'.1 [] := by
  simp only [service] at h
  split at h
  · simp at h
  · rename_i queue hpush
    refine drain_invariant (fun m items ↦ Pending m.1 items) ?_ ?_ h
    · intro m queue event m' queue' hi hstep
      exact completeOne_pending hi hstep
    · simpa [Queue.items_pushAll hpush, Queue.empty] using hm

theorem serviceChecked_pending {m start m' : C6747Edma × β} {events : List PendingEvent}
    (hm : Pending start.1 events)
    (h : serviceChecked bus m start events true = (true, m')) : Pending m'.1 [] := by
  simp only [serviceChecked] at h
  split at h
  · simp at h
  · rename_i b _
    exact service_pending (m := (start.1, b)) hm (by simpa using h)

theorem mem_dmaEvents (mask : Word) (c : ℕ) :
    ⟨.dma, c⟩ ∈ dmaEvents mask ↔ mask.getLsbD c = true := by
  simp only [dmaEvents, List.mem_map, List.mem_filter, List.mem_range, PendingEvent.mk.injEq,
    true_and, exists_eq_right, and_iff_right_iff_imp]
  intro h
  by_contra hge
  simp [BitVec.getLsbD_of_ge mask c (by omega)] at h

theorem regionMask (s : C6747Edma) {o : ℕ} {view : View} (h : channelView s o = some view) :
    view.qdmaMask &&& ~~~0xff#32 = 0 ∧ ∀ r, view.region = some r → r < 4 := by
  simp only [channelView] at h
  split at h
  · simp only [Option.some.injEq] at h
    subst h
    exact ⟨by simp, fun r hr ↦ nomatch hr⟩
  · split at h
    · split at h
      · simp at h
      · rename_i hr
        simp only [Option.some.injEq] at h
        subst h
        refine ⟨masked_and_right (by decide), fun r hr' ↦ ?_⟩
        simp only [Option.some.injEq] at hr'
        omega
    · simp at h

theorem writeChannel_pending {m m' : C6747Edma × β} {view : View} {value : Word}
    (hm : Pending m.1 []) (hq : view.qdmaMask &&& ~~~0xff#32 = 0)
    (hregion : ∀ r, view.region = some r → r < 4)
    (h : writeChannel bus m view value true = (true, m')) : Pending m'.1 [] := by
  obtain ⟨s, b⟩ := m
  have hclear {x y : Word} {c : ℕ} : (x &&& y).getLsbD c = true → x.getLsbD c = true := by
    simp only [BitVec.getLsbD_and, Bool.and_eq_true]
    exact And.left
  have hmask : value &&& view.qdmaMask &&& ~~~0xff#32 = 0 := masked_and_right hq
  have hser : s.ser = 0 := hm.ser
  have hqser : s.qser = 0 := hm.qser
  simp only [writeChannel, if_true] at h
  split at h
  · cases h
    exact ⟨{ hm.legal with }, hm.ser, hm.qser, hm.esr, hm.cer,
      fun c hc he ↦ hm.er c (hclear hc) he, hm.qer⟩
  · refine serviceChecked_pending ?_ h
    have hm' := hm.mono (l := dmaEvents (value &&& view.dmaMask)) (List.nil_subset _)
    refine ⟨{ hm.legal with }, hm.ser, hm.qser, fun c hc ↦ ?_, hm'.cer, hm'.er, hm'.qer⟩
    rw [BitVec.getLsbD_or, Bool.or_eq_true] at hc
    rcases hc with hc | hc
    · exact hm'.esr c hc
    · exact (mem_dmaEvents _ _).mpr hc
  · cases h
    exact ⟨{ hm.legal with }, hm.ser, hm.qser, hm.esr, hm.cer,
      fun c hc he ↦ hm.er c hc (hclear he), hm.qer⟩
  · have hstart : Pending { s with eer := s.eer ||| value &&& view.dmaMask }
        (dmaEvents (value &&& view.dmaMask &&& s.er)) := by
      have hm' := hm.mono (l := dmaEvents (value &&& view.dmaMask &&& s.er))
        (List.nil_subset _)
      refine ⟨{ hm.legal with }, hm.ser, hm.qser, hm'.esr, hm'.cer, fun c hc he ↦ ?_, hm'.qer⟩
      rw [BitVec.getLsbD_or, Bool.or_eq_true] at he
      rcases he with he | he
      · exact hm'.er c hc he
      · rw [mem_dmaEvents, BitVec.getLsbD_and, he, hc, Bool.and_self]
    split at h
    · rename_i hempty
      cases h
      rwa [List.isEmpty_iff.mp hempty] at hstart
    · exact serviceChecked_pending hstart h
  · cases h
    exact ⟨{ hm.legal with }, by simp [hser], hm.qser, hm.esr, hm.cer, hm.er, hm.qer⟩
  · cases h
    exact ⟨{ hm.legal with }, hm.ser, hm.qser, hm.esr, hm.cer, hm.er, hm.qer⟩
  · cases h
    exact ⟨{ hm.legal with }, hm.ser, hm.qser, hm.esr, hm.cer, hm.er, hm.qer⟩
  · cases h
    exact ⟨{ hm.legal with }, hm.ser, hm.qser, hm.esr, hm.cer, hm.er, hm.qer⟩
  · split at h
    · simp at h
    · split at h
      · cases h
        exact hm
      · rename_i r hr
        split at h
        · cases h
          have hbit : bit r &&& ~~~0xf#32 = 0 := masked_bit (n := 4) (by decide) (hregion r hr)
          exact ⟨{ hm.legal with
            irqNotifications := masked_or hm.legal.irqNotifications hbit }, hm.ser, hm.qser,
            hm.esr, hm.cer, hm.er, hm.qer⟩
        · cases h
          exact hm
  · simp only [Prod.mk.injEq] at h
    rw [← h.2]
    exact ⟨{ hm.legal with qeer := masked_and hm.legal.qeer }, hm.ser, hm.qser, hm.esr, hm.cer,
      hm.er, hm.qer⟩
  · simp only [Prod.mk.injEq] at h
    rw [← h.2]
    exact ⟨{ hm.legal with qeer := masked_or hm.legal.qeer hmask }, hm.ser, hm.qser, hm.esr,
      hm.cer, hm.er, hm.qer⟩
  · simp only [Prod.mk.injEq] at h
    rw [← h.2]
    exact ⟨{ hm.legal with qser := masked_and hm.legal.qser }, hm.ser, by simp [hqser], hm.esr,
      hm.cer, hm.er, hm.qer⟩
  · simp at h

theorem legalSet_writeWords {p : ParamSet} (hp : LegalSet p) (words : List (ℕ × Word))
    (hw : ∀ w ∈ words, (w.1 = 0 → legalOpt w.2 = true) ∧ (w.1 = 7 → w.2 &&& 0xffff0000#32 = 0)) :
    LegalSet (writeWords p words) := by
  induction words generalizing p with
  | nil => exact hp
  | cons w words ih =>
    obtain ⟨hopt, hccnt⟩ := hw w List.mem_cons_self
    apply ih _ (fun w' hw' ↦ hw w' (List.mem_cons_of_mem _ hw'))
    constructor
    · by_cases h : w.1 = 0
      · simpa [h] using hopt h
      · simpa [Function.update_of_ne (Ne.symm h)] using hp.1
    · by_cases h : w.1 = 7
      · simpa [h] using hccnt h
      · simpa [Function.update_of_ne (Ne.symm h)] using hp.2

theorem getLsbD_foldl_bit {l : List ℕ} {x : Word} {q : ℕ}
    (h : (l.foldl (fun x q ↦ x ||| bit q) x).getLsbD q = true) :
    x.getLsbD q = true ∨ q ∈ l := by
  induction l generalizing x with
  | nil => exact .inl h
  | cons r l ih =>
    rcases ih h with hx | hl
    · rw [getLsbD_or_bit, Bool.or_eq_true] at hx
      rcases hx with hx | hr
      · exact .inl hx
      · simp only [Bool.and_eq_true, decide_eq_true_eq] at hr
        exact .inr (hr.2 ▸ List.mem_cons_self)
    · exact .inr (List.mem_cons_of_mem _ hl)

theorem masked_foldl_bit {l : List ℕ} (hl : ∀ q ∈ l, q < 8) {x : Word}
    (hx : x &&& ~~~0xff#32 = 0) :
    l.foldl (fun x q ↦ x ||| bit q) x &&& ~~~0xff#32 = 0 := by
  induction l generalizing x with
  | nil => exact hx
  | cons q l ih =>
    apply ih (fun q' hq' ↦ hl q' (List.mem_cons_of_mem _ hq'))
    exact masked_or hx (masked_bit (n := 8) le_rfl (hl q List.mem_cons_self))

theorem writeParam_pending {m m' : C6747Edma × β} {set word size : ℕ} {value : BitVec 64}
    (hm : Pending m.1 []) (hset : set < 128)
    (h : writeParam bus m set word size value true = (true, m')) : Pending m'.1 [] := by
  obtain ⟨s, b⟩ := m
  have hold : LegalSet (s.param set) := hm.legal.param set hset
  simp only [writeParam, if_true] at h
  split at h
  · simp at h
  · rename_i hwords
    have hwritten : Pending (s.setParam set (writeWords (s.param set)
        (paramWords word size value))) [] := by
      apply hm.setParam
      apply legalSet_writeWords hold
      intro w hw
      have hguard := List.any_eq_false.mp (Bool.eq_false_of_not_eq_true hwords) w hw
      simp only [Bool.or_eq_true, Bool.and_eq_true, beq_iff_eq, Bool.not_eq_true', bne_iff_ne,
        not_or, not_and, Bool.not_eq_false, ne_eq, Decidable.not_not] at hguard
      exact hguard
    split at h
    · cases h
      exact hwritten
    · split at h
      · simp at h
      · refine service_pending ?_ h
        refine ⟨{ hwritten.legal with qer := masked_foldl_bit ?_ hm.legal.qer }, hm.ser, hm.qser,
          fun c hc ↦ ?_, fun c hc ↦ ?_, fun c hc he ↦ ?_, fun q hq ↦ ?_⟩
        · intro q hq
          exact qmatches_lt _ _ q (List.mem_filter.mp hq).1
        · exact absurd (hm.esr c hc) List.not_mem_nil
        · exact absurd (hm.cer c hc) List.not_mem_nil
        · exact absurd (hm.er c hc he) List.not_mem_nil
        · rcases getLsbD_foldl_bit hq with hq | hq
          · exact absurd (hm.qer q hq) List.not_mem_nil
          · exact List.mem_map.mpr ⟨q, hq, rfl⟩

theorem writeGlobal_pending {s s' : C6747Edma} {o : ℕ} {v : Word} (hm : Pending s [])
    (h : writeGlobal s o v = some (true, s')) : Pending s' [] := by
  have hl : Legal s := hm.legal
  have hkeep {s' : C6747Edma} (hl' : Legal s') (hpend : (s'.ser, s'.qser, s'.esr, s'.cer, s'.er,
      s'.eer, s'.qer) = (s.ser, s.qser, s.esr, s.cer, s.er, s.eer, s.qer)) : Pending s' [] := by
    simp only [Prod.mk.injEq] at hpend
    obtain ⟨h₁, h₂, h₃, h₄, h₅, h₆, h₇⟩ := hpend
    refine ⟨hl', h₁ ▸ hm.ser, h₂ ▸ hm.qser, h₃ ▸ hm.esr, h₄ ▸ hm.cer, ?_, h₇ ▸ hm.qer⟩
    rw [h₅, h₆]
    exact hm.er
  have hchecked {legal : Bool} {s₁ : C6747Edma}
      (h : some (legal, if legal then s₁ else s) = some (true, s')) : legal = true ∧ s₁ = s' := by
    cases legal with
    | false => cases h
    | true => exact ⟨rfl, by simpa using h⟩
  unfold writeGlobal at h
  rcases ite_eq_iff.mp h with ⟨-, h⟩ | ⟨-, h⟩
  · obtain ⟨hlegal, rfl⟩ := hchecked h
    refine hkeep { hl with qchmap := fun q hq ↦ ?_ } rfl
    by_cases heq : q = (o - 0x200) / 4
    · simpa [heq] using hlegal
    · simpa [heq] using hl.qchmap q hq
  rcases ite_eq_iff.mp h with ⟨-, h⟩ | ⟨-, h⟩
  · obtain ⟨hlegal, rfl⟩ := hchecked h
    refine hkeep { hl with dmaqnum := fun n hn ↦ ?_ } rfl
    by_cases heq : n = (o - 0x240) / 4
    · simpa [heq] using hlegal
    · simpa [heq] using hl.dmaqnum n hn
  rcases ite_eq_iff.mp h with ⟨-, h⟩ | ⟨-, h⟩
  · obtain ⟨hlegal, rfl⟩ := hchecked h
    exact hkeep { hl with qdmaqnum := hlegal } rfl
  rcases ite_eq_iff.mp h with ⟨-, h⟩ | ⟨-, h⟩
  · obtain ⟨-, rfl⟩ := hchecked h
    exact hkeep { hl with } rfl
  rcases ite_eq_iff.mp h with ⟨-, h⟩ | ⟨-, h⟩
  · obtain ⟨-, rfl⟩ := hchecked h
    exact hkeep { hl with qemr := masked_and hl.qemr } rfl
  rcases ite_eq_iff.mp h with ⟨-, h⟩ | ⟨-, h⟩
  · obtain ⟨-, rfl⟩ := hchecked h
    exact hkeep { hl with ccerr := masked_and hl.ccerr } rfl
  rcases ite_eq_iff.mp h with ⟨-, h⟩ | ⟨-, h⟩
  · obtain ⟨-, rfl⟩ := hchecked h
    exact hm
  rcases ite_eq_iff.mp h with ⟨-, h⟩ | ⟨-, h⟩
  · obtain ⟨-, rfl⟩ := hchecked h
    exact hkeep { hl with } rfl
  rcases ite_eq_iff.mp h with ⟨-, h⟩ | ⟨-, h⟩
  · obtain ⟨hlegal, rfl⟩ := hchecked h
    refine hkeep { hl with qrae := fun r hr ↦ ?_ } rfl
    by_cases heq : r = (o - 0x380) / 4
    · simpa [heq] using hlegal
    · simpa [heq] using hl.qrae r hr
  rcases ite_eq_iff.mp h with ⟨-, h⟩ | ⟨-, h⟩
  · obtain ⟨hlegal, rfl⟩ := hchecked h
    exact hkeep { hl with qwmthra := of_decide_eq_true hlegal } rfl
  · cases h

theorem write_pending {m m' : C6747Edma × β} {address : Word} {value : BitVec 64} {size : ℕ}
    (hm : Pending m.1 []) (h : write bus m address value size true = (true, m')) :
    Pending m'.1 [] := by
  unfold write at h
  split at h
  · cases h
  · dsimp only at h
    split at h
    · cases h
    · split at h
      · exact writeParam_pending hm (by omega) h
      · split at h
        · rename_i hglobal
          cases h
          exact writeGlobal_pending hm hglobal
        · split at h
          · rename_i hview
            obtain ⟨hq, hregion⟩ := regionMask m.1 hview
            exact writeChannel_pending hm hq hregion h
          · cases h

theorem event_pending {m m' : C6747Edma × β} {channel : ℕ} (hm : Pending m.1 [])
    (h : event bus m channel = (true, m')) : Pending m'.1 [] := by
  obtain ⟨s, b⟩ := m
  simp only [event] at h
  split at h
  · cases h
  · split at h
    · rename_i heer
      cases h
      refine ⟨{ hm.legal with }, hm.ser, hm.qser, hm.esr, hm.cer, fun c hc he ↦ ?_, hm.qer⟩
      rw [getLsbD_or_bit] at hc
      by_cases heq : channel = c
      · subst heq
        simp_all
      · exact hm.er c (by simpa [heq] using hc) he
    · refine serviceChecked_pending ?_ h
      have hlatched : Pending (if s.er.getLsbD channel then
          { s with emr := s.emr ||| bit channel } else s) [] := by
        split
        · exact ⟨{ hm.legal with }, hm.ser, hm.qser, hm.esr, hm.cer, hm.er, hm.qer⟩
        · exact hm
      have hm' := hlatched.mono (l := [⟨.dma, channel⟩]) (List.nil_subset _)
      refine ⟨{ hlatched.legal with }, hm'.ser, hm'.qser, hm'.esr, hm'.cer, fun c hc he ↦ ?_,
        hm'.qer⟩
      rw [getLsbD_or_bit] at hc
      by_cases heq : channel = c
      · simp [heq]
      · exact hm'.er c (by simpa [heq] using hc) he

theorem takeIrqNotification_pending {s s' : C6747Edma} {region : ℕ} (hm : Pending s [])
    (h : takeIrqNotification s region = (true, s')) : Pending s' [] := by
  unfold takeIrqNotification at h
  split at h
  · cases h
  · cases h
    exact ⟨{ hm.legal with irqNotifications := masked_and hm.legal.irqNotifications }, hm.ser,
      hm.qser, hm.esr, hm.cer, hm.er, hm.qer⟩

theorem reset_pending : Pending reset [] := by
  have hzero (c : ℕ) : (0 : Word).getLsbD c ≠ true := by simp
  refine ⟨(valid_iff _).mp (by decide), rfl, rfl, fun c hc ↦ absurd hc (hzero c),
    fun c hc ↦ absurd hc (hzero c), fun c hc ↦ absurd hc (hzero c),
    fun q hq ↦ absurd hq (hzero q)⟩

end Run

/-- The states successful calls lead to from reset. Each call brings a bus and a bus
state of its own. -/
inductive Reachable : C6747Edma → Prop
  | reset : Reachable reset
  | write {β : Type} {bus : Bus β} {s : C6747Edma} {b : β} {m' : C6747Edma × β} {address : Word}
      {value : BitVec 64} {size : ℕ} :
      Reachable s → Model.write bus (s, b) address value size true = (true, m') → Reachable m'.1
  | event {β : Type} {bus : Bus β} {s : C6747Edma} {b : β} {m' : C6747Edma × β} {channel : ℕ} :
      Reachable s → Model.event bus (s, b) channel = (true, m') → Reachable m'.1
  | takeIrqNotification {s s' : C6747Edma} {region : ℕ} :
      Reachable s → Model.takeIrqNotification s region = (true, s') → Reachable s'

theorem Reachable.pending {s : C6747Edma} (h : Reachable s) : Pending s [] := by
  induction h with
  | reset => exact reset_pending
  | write _ hw ih => exact write_pending ih hw
  | event _ he ih => exact event_pending ih he
  | takeIrqNotification _ ht ih => exact takeIrqNotification_pending ih ht

/-- Between calls nothing is left pending and every register invariant holds. -/
theorem quiescent_of_reachable {s : C6747Edma} (h : Reachable s) :
    valid s = true ∧ s.esr = 0 ∧ s.cer = 0 ∧ s.ser = 0 ∧ s.qer = 0 ∧ s.qser = 0 ∧
      s.er &&& s.eer = 0 := by
  have hp := h.pending
  have hzero {x : Word} (hx : ∀ c, x.getLsbD c = true → False) : x = 0 := by
    apply BitVec.eq_of_getLsbD_eq
    intro c _
    simpa using Bool.eq_false_of_not_eq_true (hx c)
  refine ⟨(valid_iff s).mpr hp.legal, hzero fun c hc ↦ ?_, hzero fun c hc ↦ ?_, hp.ser,
    hzero fun q hq ↦ ?_, hp.qser, hzero fun c hc ↦ ?_⟩
  · exact List.not_mem_nil (hp.esr c hc)
  · exact List.not_mem_nil (hp.cer c hc)
  · exact List.not_mem_nil (hp.qer q hq)
  · rw [BitVec.getLsbD_and, Bool.and_eq_true] at hc
    exact List.not_mem_nil (hp.er c hc.1 hc.2)

def blank : Bus Unit where
  read := fun b _ n ↦ (some (Vector.replicate n 0), b)
  write := fun b _ _ _ _ ↦ (true, b)

def written (s : C6747Edma) (address : Word) (value : BitVec 64) (size : ℕ) : C6747Edma :=
  (Model.write blank (s, ()) address value size true).2.1

theorem Reachable.written {s : C6747Edma} (h : Reachable s) {address : Word} {value : BitVec 64}
    {size : ℕ} (hok : (Model.write blank (s, ()) address value size true).1 = true) :
    Reachable (written s address value size) :=
  .write h (Prod.ext hok rfl)

/-- Channel 0 after one manually triggered byte, its set linked to null. -/
def oneByte : C6747Edma :=
  let counts := written reset 0x01c04008 0x100010001 8
  let linked := written counts 0x01c04014 0xffff 8
  let armed := written linked 0x01c0401c 1 4
  written armed 0x01c01010 1 4

theorem quiescent_of_reachable_oneByte :
    oneByte.transferRequests = 1 ∧ valid oneByte = true ∧ oneByte.esr = 0 ∧ oneByte.cer = 0 ∧
      oneByte.ser = 0 ∧ oneByte.qer = 0 ∧ oneByte.qser = 0 ∧ oneByte.er &&& oneByte.eer = 0 := by
  refine ⟨by decide +kernel, quiescent_of_reachable ?_⟩
  refine Reachable.written (Reachable.written (Reachable.written (Reachable.written .reset ?_) ?_)
    ?_) ?_ <;> decide +kernel

end Cdj2000Emulator.Edma.Quiescence
