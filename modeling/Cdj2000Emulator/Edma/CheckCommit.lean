import Cdj2000Emulator.Edma.Ram

namespace Cdj2000Emulator.Edma.CheckCommit

open Library.Worklist Model Ram

variable {β : Type}

/-- Two bus states that accept the same spans, whatever bytes they hold. -/
structure SameSpans (bus : Bus β) (b b' : β) : Prop where
  read : ∀ address n, (bus.read b address n).1.isSome = (bus.read b' address n).1.isSome
  write : ∀ address n (x y : Vector Byte n),
    (bus.write b address x false).1 = (bus.write b' address y false).1

/-- The check/commit contract of the bus: a read and a check change nothing, a
checked span commits, and a commit changes bytes but no span's acceptance. -/
structure Contract (bus : Bus β) : Prop where
  read_pure : ∀ b address n, (bus.read b address n).2 = b
  check_pure : ∀ b address n (x : Vector Byte n), (bus.write b address x false).2 = b
  commits : ∀ b address n (x : Vector Byte n), (bus.write b address x false).1 = true →
    (bus.write b address x true).1 = true
  span : ∀ b, SameSpans bus b b
  stable : ∀ b address n (x : Vector Byte n), SameSpans bus (bus.write b address x true).2 b

theorem SameSpans.trans {bus : Bus β} {b₁ b₂ b₃ : β} (h : SameSpans bus b₁ b₂)
    (h' : SameSpans bus b₂ b₃) : SameSpans bus b₁ b₃ :=
  ⟨fun a n ↦ (h.read a n).trans (h'.read a n),
    fun a n x y ↦ (h.write a n x y).trans (h'.write a n y y)⟩

theorem SameSpans.symm {bus : Bus β} {b b' : β} (h : SameSpans bus b b') : SameSpans bus b' b :=
  ⟨fun a n ↦ (h.read a n).symm, fun a n x y ↦ (h.write a n y x).symm⟩

section Service

variable {bus : Bus β}

theorem transferArrays_check (hc : Contract bus) (count : ℕ) (srcIndex dstIndex : Word)
    (arrays : ℕ) (src dst : Word) (b : β) :
    (transferArrays bus false count srcIndex dstIndex arrays src dst b).2 = b := by
  induction arrays generalizing src dst b with
  | zero => rfl
  | succ arrays ih =>
    have hr := hc.read_pure b src count
    simp only [transferArrays]
    split
    · rename_i hread
      simpa [hread] using hr
    · rename_i bytes b₁ hread
      obtain rfl : b₁ = b := by simpa [hread] using hr
      have hw := hc.check_pure b₁ dst count bytes
      split
      · rename_i hwrite
        simpa [hwrite] using hw
      · rename_i b₂ hwrite
        obtain rfl : b₂ = b₁ := by simpa [hwrite] using hw
        simpa using ih (src + srcIndex) (dst + dstIndex) b₂

theorem transferArrays_agrees (hc : Contract bus) (count : ℕ) (srcIndex dstIndex : Word)
    (arrays : ℕ) (src dst : Word) {b b' : β} (h : SameSpans bus b b') :
    (transferArrays bus false count srcIndex dstIndex arrays src dst b).1 =
      (transferArrays bus true count srcIndex dstIndex arrays src dst b').1 ∧
    SameSpans bus b (transferArrays bus true count srcIndex dstIndex arrays src dst b').2 := by
  induction arrays generalizing src dst b' with
  | zero => exact ⟨rfl, h⟩
  | succ arrays ih =>
    have hread := h.read src count
    have hr := hc.read_pure b src count
    have hr' := hc.read_pure b' src count
    simp only [transferArrays]
    rcases hx : bus.read b src count with ⟨_ | x, b₁⟩ <;>
      rcases hx' : bus.read b' src count with ⟨_ | x', b₁'⟩ <;>
      simp only [hx, hx', Option.isSome_none, Option.isSome_some, Bool.false_eq_true,
        Bool.true_eq_false] at hread hr hr'
    · subst hr hr'
      exact ⟨rfl, h⟩
    · subst hr hr'
      have hwrite := h.write dst count x x'
      have hw := hc.check_pure b₁ dst count x
      have hw' := hc.check_pure b₁' dst count x'
      have hcommit := hc.commits b₁' dst count x'
      have hstable := hc.stable b₁' dst count x'
      dsimp only
      rcases hy : bus.write b₁ dst x false with ⟨_ | _, b₂⟩ <;>
        rcases hy' : bus.write b₁' dst x' false with ⟨_ | _, b₂'⟩ <;>
        simp only [hy, hy', Bool.false_eq_true, Bool.true_eq_false, forall_const] at hwrite hw hw' hcommit
      · subst hw hw'
        exact ⟨rfl, h⟩
      · subst hw hw'
        simp only [if_true, if_false, Bool.false_eq_true]
        rcases hz : bus.write b₂' dst x' true with ⟨ok, b₃'⟩
        simp only [hz] at hcommit hstable
        subst hcommit
        exact ih _ _ (h.trans hstable.symm)

theorem transferBytes_check (hc : Contract bus) (p : ParamSet) (b : β) :
    (transferBytes bus false p b).2 = b := by
  unfold transferBytes
  split
  · exact transferArrays_check hc _ _ _ _ _ _ b
  · rfl

theorem transferBytes_agrees (hc : Contract bus) (p : ParamSet) {b b' : β}
    (h : SameSpans bus b b') :
    (transferBytes bus false p b).1 = (transferBytes bus true p b').1 ∧
    SameSpans bus (transferBytes bus false p b).2 (transferBytes bus true p b').2 := by
  rw [transferBytes_check hc]
  unfold transferBytes
  split
  · exact transferArrays_agrees hc _ _ _ _ _ _ h
  · exact ⟨rfl, h⟩

/-- The registers a worklist run depends on. -/
structure SameCore (s s' : C6747Edma) : Prop where
  param : s.param = s'.param
  qchmap : s.qchmap = s'.qchmap
  qeer : s.qeer = s'.qeer

def SameOutcome (r r' : Bool × C6747Edma × PendingQueue) : Prop :=
  r.1 = r'.1 ∧ r.2.2 = r'.2.2 ∧ SameCore r.2.1 r'.2.1

theorem SameOutcome.parts {r r' : Bool × C6747Edma × PendingQueue} (h : SameOutcome r r') :
    ∃ ok s s' queue, r = (ok, s, queue) ∧ r' = (ok, s', queue) ∧ SameCore s s' := by
  obtain ⟨hok, hqueue, hcore⟩ := h
  exact ⟨r.1, r.2.1, r'.2.1, r.2.2, rfl, by rw [hok, hqueue], hcore⟩

variable {s s' : C6747Edma}

theorem SameCore.acknowledge (h : SameCore s s') (event : PendingEvent) :
    SameCore (s.acknowledge event) (s'.acknowledge event) := by
  obtain ⟨kind, channel⟩ := event
  cases kind <;> exact ⟨h.param, h.qchmap, h.qeer⟩

theorem SameCore.setParam (h : SameCore s s') (set : ℕ) (p : ParamSet) :
    SameCore (s.setParam set p) (s'.setParam set p) :=
  ⟨by simp only [C6747Edma.setParam, h.param], h.qchmap, h.qeer⟩

theorem SameCore.retrigger (h : SameCore s s') (queue : PendingQueue) (qs : List ℕ) :
    SameOutcome (s.retrigger queue qs) (s'.retrigger queue qs) := by
  induction qs generalizing s s' queue with
  | nil => exact ⟨rfl, rfl, h⟩
  | cons q qs ih =>
    have hmark : SameCore
        (if s.qer.getLsbD q then { s with qemr := s.qemr ||| bit q }
          else { s with qer := s.qer ||| bit q })
        (if s'.qer.getLsbD q then { s' with qemr := s'.qemr ||| bit q }
          else { s' with qer := s'.qer ||| bit q }) := by
      split <;> split <;> exact ⟨h.param, h.qchmap, h.qeer⟩
    simp only [C6747Edma.retrigger]
    cases queue.push serviceLimit ⟨.qdma, q⟩ with
    | none => exact ⟨rfl, rfl, hmark⟩
    | some queue => exact ih hmark queue

theorem SameCore.updateParam (h : SameCore s s') (set : ℕ) (p : ParamSet)
    (queue : PendingQueue) :
    SameOutcome (s.updateParam set p queue) (s'.updateParam set p queue) := by
  have hlinked := h.setParam set (s.param ((link p &&& 0x3fff).toNat / 32))
  have hmatches : ∀ q : ParamSet, (s.setParam set q).qmatches set = (s'.setParam set q).qmatches set := by
    intro q
    simp only [C6747Edma.qmatches, C6747Edma.setParam, h.qchmap, h.qeer]
  unfold C6747Edma.updateParam
  split
  · exact ⟨rfl, rfl, h⟩
  · split
    · exact ⟨rfl, rfl, h.setParam set _⟩
    · split
      · exact ⟨rfl, rfl, h.setParam set _⟩
      · dsimp only
        rw [← h.param, ← hmatches]
        exact hlinked.retrigger queue _

theorem SameCore.chainTo (h : SameCore s s') (code : ℕ) (queue : PendingQueue) :
    SameOutcome (s.chainTo code queue) (s'.chainTo code queue) := by
  have hmark : SameCore
      (if s.cer.getLsbD code then { s with emr := s.emr ||| bit code }
        else { s with cer := s.cer ||| bit code })
      (if s'.cer.getLsbD code then { s' with emr := s'.emr ||| bit code }
        else { s' with cer := s'.cer ||| bit code }) := by
    split <;> split <;> exact ⟨h.param, h.qchmap, h.qeer⟩
  simp only [C6747Edma.chainTo]
  cases queue.push serviceLimit ⟨.dma, code⟩ with
  | none => exact ⟨rfl, rfl, hmark⟩
  | some queue => exact ⟨rfl, rfl, hmark⟩

theorem SameCore.retire (h : SameCore s s') (event : PendingEvent) (set : ℕ) (p : ParamSet)
    (queue : PendingQueue) :
    SameOutcome (s.retire event set p queue) (s'.retire event set p queue) := by
  obtain ⟨ok, s₁, s₁', queue₁, hs, hs', hcore⟩ := ((h.acknowledge event).updateParam set p
    queue).parts
  unfold C6747Edma.retire
  rw [hs, hs']
  cases ok with
  | false => exact ⟨rfl, rfl, hcore⟩
  | true =>
    have hraise : SameCore (if interrupts p then s₁.raiseInterrupt (tcc (p 0)) else s₁)
        (if interrupts p then s₁'.raiseInterrupt (tcc (p 0)) else s₁') := by
      split <;> exact ⟨hcore.param, hcore.qchmap, hcore.qeer⟩
    dsimp only
    by_cases hc : chains p = true
    · obtain ⟨ok, s₂, s₂', queue₂, hs, hs', hcore⟩ := (hraise.chainTo (tcc (p 0)) queue₁).parts
      rw [if_pos hc, if_pos hc, hs, hs']
      cases ok <;> exact ⟨rfl, rfl, hcore.param, hcore.qchmap, hcore.qeer⟩
    · rw [if_neg hc, if_neg hc]
      exact ⟨rfl, rfl, hraise.param, hraise.qchmap, hraise.qeer⟩

/-- Matching registers over buses that accept the same spans. -/
def Agree (bus : Bus β) (m m' : C6747Edma × β) : Prop :=
  SameCore m.1 m'.1 ∧ SameSpans bus m.2 m'.2

theorem completeOne_agrees (hc : Contract bus) (m m' : C6747Edma × β) (queue : PendingQueue)
    (event : PendingEvent) (h : Agree bus m m') :
    (completeOne bus false m queue event).1 = (completeOne bus true m' queue event).1 ∧
    ((completeOne bus false m queue event).1 = true →
      (completeOne bus false m queue event).2.2 = (completeOne bus true m' queue event).2.2) ∧
    Agree bus (completeOne bus false m queue event).2.1
      (completeOne bus true m' queue event).2.1 := by
  obtain ⟨s, b⟩ := m
  obtain ⟨s', b'⟩ := m'
  obtain ⟨hcore, hspans⟩ := h
  have hset : s'.setOf event = s.setOf event := by
    have hq : s.qchmap = s'.qchmap := hcore.qchmap
    simp only [C6747Edma.setOf, hq]
  simp only [completeOne, hset]
  split
  · exact ⟨rfl, fun _ ↦ rfl, hcore, hspans⟩
  · obtain ⟨hok, hspans'⟩ := transferBytes_agrees hc (s.param (s.setOf event)) hspans
    rw [← hcore.param]
    generalize transferBytes bus false (s.param (s.setOf event)) b = r at hok hspans'
    generalize transferBytes bus true (s.param (s.setOf event)) b' = r' at hok hspans'
    obtain ⟨ok, b₁⟩ := r
    obtain ⟨ok', b₁'⟩ := r'
    obtain rfl : ok = ok' := hok
    cases ok with
    | false => exact ⟨rfl, fun _ ↦ rfl, hcore, hspans'⟩
    | true =>
      obtain ⟨ok, s₂, s₂', queue₂, hs, hs', hcore'⟩ := (hcore.retire event (s.setOf event)
        (s.param (s.setOf event)) queue).parts
      simp only [hs, hs']
      exact ⟨trivial, fun _ ↦ trivial, hcore', hspans'⟩

theorem service_agrees (hc : Contract bus) (m m' : C6747Edma × β) (h : Agree bus m m')
    (initial : List PendingEvent) :
    (service bus false m initial).1 = (service bus true m' initial).1 := by
  unfold service
  cases Queue.empty.pushAll serviceLimit initial with
  | none => rfl
  | some queue =>
    exact (drain_simulation (Agree bus) (completeOne_agrees hc) serviceLimit queue h).1

theorem completeOne_check (hc : Contract bus) (m : C6747Edma × β) (queue : PendingQueue)
    (event : PendingEvent) : (completeOne bus false m queue event).2.1.2 = m.2 := by
  obtain ⟨s, b⟩ := m
  have ht := transferBytes_check hc (s.param (s.setOf event)) b
  simp only [completeOne]
  split
  · rfl
  · split <;> rename_i heq <;> rw [heq] at ht <;> exact ht

theorem service_check (hc : Contract bus) (m : C6747Edma × β) (initial : List PendingEvent) :
    (service bus false m initial).2.2 = m.2 := by
  unfold service
  split
  · rfl
  · exact drain_frame Prod.snd (completeOne_check hc) _ _ _

end Service

section Registers

variable {bus : Bus β} {m : C6747Edma × β}

/-- What the header promises of a call that can be checked or committed: a check
changes nothing, the commit decides as the check does, and a refused commit
changes nothing either. -/
structure Honors (m : C6747Edma × β) (call : Bool → Bool × (C6747Edma × β)) : Prop where
  check : (call false).2 = m
  agrees : (call true).1 = (call false).1
  refused : (call true).1 = false → (call true).2 = m

theorem serviceChecked_honors (hc : Contract bus) (start : C6747Edma) (events : List PendingEvent) :
    Honors m (serviceChecked bus m (start, m.2) events) := by
  have hb := service_check hc (start, m.2) events
  have ha := service_agrees hc (start, m.2) (start, m.2) ⟨⟨rfl, rfl, rfl⟩, hc.span _⟩ events
  unfold serviceChecked
  rcases hs : service bus false (start, m.2) events with ⟨_ | _, s₁, b₁⟩ <;>
    simp only [hs] at hb ha <;> subst hb
  · exact ⟨rfl, rfl, fun _ ↦ rfl⟩
  · refine ⟨rfl, ha.symm, fun h ↦ ?_⟩
    simp only [if_true] at h
    rw [h] at ha
    cases ha

theorem update_honors {ok : Bool} {s' : C6747Edma} (h : ok = false → s' = m.1) :
    Honors m fun commit ↦ (ok, if commit then s' else m.1, m.2) :=
  ⟨rfl, rfl, fun hok ↦ by rw [if_pos rfl, h hok]⟩

theorem constant_honors (ok : Bool) : Honors m fun _ ↦ (ok, m) := ⟨rfl, rfl, fun _ ↦ rfl⟩

theorem writeParam_honors (hc : Contract bus) (set word size : ℕ) (value : BitVec 64) :
    Honors m (writeParam bus m set word size value) := by
  obtain ⟨s, b⟩ := m
  unfold writeParam
  dsimp only
  split
  · exact constant_honors false
  · split
    · exact update_honors fun h ↦ nomatch h
    · have hb (l : List PendingEvent) := service_check hc (s.setParam set
        (writeWords (s.param set) (paramWords word size value)), b) l
      have ha {qer : Word} := service_agrees hc
        (s.setParam set (writeWords (s.param set) (paramWords word size value)), b)
        ({ s.setParam set (writeWords (s.param set) (paramWords word size value)) with
          qer := qer }, b) ⟨⟨rfl, rfl, rfl⟩, hc.span _⟩
      split
      · rename_i s₁ b₁ hs
        obtain rfl : b₁ = b :=
          (congrArg (fun r : Bool × (C6747Edma × β) ↦ r.2.2) hs).symm.trans (hb _)
        exact constant_honors false
      · rename_i s₁ b₁ hs
        obtain rfl : b₁ = b :=
          (congrArg (fun r : Bool × (C6747Edma × β) ↦ r.2.2) hs).symm.trans (hb _)
        refine ⟨rfl, ?_, fun h ↦ ?_⟩
        · rw [if_pos rfl, ← ha, hs]
          rfl
        · rw [if_pos rfl, ← ha, hs] at h
          cases h

/-- A QDMA alias whose reserved bits are refused only after the update they come with:
the write names a bit above bit 7 and a writable bit that is not yet as asked. -/
def lateRefusal (s : C6747Edma) (view : View) (v : Word) : Bool :=
  let q := v &&& view.qdmaMask
  v &&& ~~~0xff#32 ≠ 0 ∧
    ((view.offset = 0x88 ∧ s.qeer &&& q ≠ 0) ∨ (view.offset = 0x8c ∧ ~~~s.qeer &&& q ≠ 0) ∨
      (view.offset = 0x94 ∧ s.qser &&& q ≠ 0))

theorem and_not_eq_self_iff (x q : Word) : x &&& ~~~q = x ↔ x &&& q = 0 := by
  constructor
  · intro h
    rw [← h, BitVec.and_assoc, BitVec.and_comm _ q, BitVec.and_not_self]
    exact BitVec.and_zero
  · intro h
    apply BitVec.eq_of_getLsbD_eq
    intro i hi
    have hbit := congrArg (fun y : Word ↦ y.getLsbD i) h
    simp only [BitVec.getLsbD_and, BitVec.getLsbD_not] at hbit ⊢
    cases hx : x.getLsbD i <;> simp_all

theorem or_eq_self_iff (x q : Word) : x ||| q = x ↔ ~~~x &&& q = 0 := by
  constructor
  · intro h
    rw [← h, BitVec.not_or, BitVec.and_assoc, BitVec.and_comm _ q, BitVec.and_not_self]
    exact BitVec.and_zero
  · intro h
    apply BitVec.eq_of_getLsbD_eq
    intro i hi
    have hbit := congrArg (fun y : Word ↦ y.getLsbD i) h
    simp only [BitVec.getLsbD_and, BitVec.getLsbD_not, BitVec.getLsbD_or] at hbit ⊢
    cases hx : x.getLsbD i <;> simp_all

theorem writeChannel_honors (hc : Contract bus) (view : View) (v : Word)
    (hlate : lateRefusal m.1 view v = false) : Honors m (writeChannel bus m view v) := by
  obtain ⟨s, b⟩ := m
  simp only [lateRefusal, decide_eq_false_iff_not, not_and, not_or, ne_eq, Decidable.not_not]
    at hlate
  unfold writeChannel
  dsimp only
  split
  · exact update_honors fun h ↦ nomatch h
  · exact serviceChecked_honors hc _ _
  · exact update_honors fun h ↦ nomatch h
  · split
    · exact update_honors fun h ↦ nomatch h
    · exact serviceChecked_honors hc _ _
  · exact update_honors fun h ↦ nomatch h
  · exact update_honors fun h ↦ nomatch h
  · exact update_honors fun h ↦ nomatch h
  · exact update_honors fun h ↦ nomatch h
  · split
    · exact constant_honors false
    · split
      · exact constant_honors true
      · split
        · exact update_honors fun h ↦ nomatch h
        · exact constant_honors true
  · rename_i hoff
    refine update_honors fun h ↦ ?_
    have hq := (hlate (of_decide_eq_false h)).1 hoff
    rw [(and_not_eq_self_iff _ _).mpr hq]
  · rename_i hoff
    refine update_honors fun h ↦ ?_
    have hq := (hlate (of_decide_eq_false h)).2.1 hoff
    rw [(or_eq_self_iff _ _).mpr hq]
  · rename_i hoff
    refine update_honors fun h ↦ ?_
    have hq := (hlate (of_decide_eq_false h)).2.2 hoff
    rw [(and_not_eq_self_iff _ _).mpr hq]
  · exact constant_honors false

theorem writeChannel_late {view : View} {v : Word} (hlate : lateRefusal m.1 view v = true) :
    (writeChannel bus m view v true).1 = false ∧ (writeChannel bus m view v true).2 ≠ m := by
  obtain ⟨s, b⟩ := m
  simp only [lateRefusal, decide_eq_true_eq] at hlate
  obtain ⟨hv, ⟨hoff, hq⟩ | ⟨hoff, hq⟩ | ⟨hoff, hq⟩⟩ := hlate
  · refine ⟨by simpa only [writeChannel, hoff] using decide_eq_false hv, fun h ↦ hq ?_⟩
    simp only [writeChannel, hoff, if_true] at h
    exact (and_not_eq_self_iff _ _).mp (congrArg (·.1.qeer) h)
  · refine ⟨by simpa only [writeChannel, hoff] using decide_eq_false hv, fun h ↦ hq ?_⟩
    simp only [writeChannel, hoff, if_true] at h
    exact (or_eq_self_iff _ _).mp (congrArg (·.1.qeer) h)
  · refine ⟨by simpa only [writeChannel, hoff] using decide_eq_false hv, fun h ↦ hq ?_⟩
    simp only [writeChannel, hoff, if_true] at h
    exact (and_not_eq_self_iff _ _).mp (congrArg (·.1.qser) h)

def refusesLate (s : C6747Edma) (address : Word) (value : BitVec 64) (size : ℕ) : Bool :=
  match (locate address).bind (channelView s) with
  | none => false
  | some view => size = 4 ∧ value.toNat < 0x100000000 ∧ lateRefusal s view (value.setWidth 32)

theorem writeGlobal_refused {s s' : C6747Edma} {o : ℕ} {v : Word}
    (h : writeGlobal s o v = some (false, s')) : s' = s := by
  have hchecked {legal : Bool} {s₁ : C6747Edma}
      (h : some (legal, if legal then s₁ else s) = some (false, s')) : s' = s := by
    cases legal with
    | false => exact (by simpa using h : s = s').symm
    | true => cases h
  unfold writeGlobal at h
  iterate 10
    rcases ite_eq_iff.mp h with ⟨-, h⟩ | ⟨-, h⟩
    · exact hchecked h
  cases h

theorem write_honors (hc : Contract bus) {address : Word} {value : BitVec 64} {size : ℕ}
    (hlate : refusesLate m.1 address value size = false) :
    Honors m (write bus m address value size) := by
  unfold write
  cases hloc : locate address with
  | none => exact constant_honors false
  | some o =>
    dsimp only
    split
    · exact constant_honors false
    · rename_i hfit
      split
      · exact writeParam_honors hc _ _ _ _
      · rename_i hparam
        rcases hg : writeGlobal m.1 o (value.setWidth 32) with _ | ⟨ok, s'⟩
        · cases hv : channelView m.1 o with
          | none => exact constant_honors false
          | some view =>
            apply writeChannel_honors hc
            have hwindow := channelView_window hv
            simp only [misfit, decide_eq_true_eq, not_or, not_and, not_not] at hfit
            have hsize : size = 4 ∧ value.toNat < 0x100000000 := by omega
            simp only [refusesLate, hloc, Option.bind_some, hv, decide_eq_false_iff_not] at hlate
            exact Bool.eq_false_iff.mpr fun h ↦ hlate ⟨hsize.1, hsize.2, h⟩
        · apply update_honors
          intro hok
          subst hok
          exact writeGlobal_refused hg

theorem write_late {address : Word} {value : BitVec 64} {size : ℕ}
    (hlate : refusesLate m.1 address value size = true) :
    (write bus m address value size true).1 = false ∧ (write bus m address value size true).2 ≠ m := by
  unfold refusesLate at hlate
  split at hlate
  · cases hlate
  · rename_i view hbind
    obtain ⟨o, hloc, hv⟩ := Option.bind_eq_some_iff.mp hbind
    obtain ⟨hsize, hvalue, hlate⟩ := of_decide_eq_true hlate
    have hwindow := channelView_window hv
    have hwrite : write bus m address value size true =
        writeChannel bus m view (value.setWidth 32) true := by
      have hfit : misfit o value size = false := by
        simp only [misfit, decide_eq_false_iff_not]
        omega
      simp only [write, hloc, hfit, Bool.false_eq_true, if_false, writeGlobal_window _ hwindow.1, hv]
      rw [if_neg (by omega)]
    rw [hwrite]
    exact writeChannel_late hlate

/-- A register or PaRAM write keeps the check/commit contract exactly when it does not
reach one of the late refusals. -/
theorem write_honors_iff (hc : Contract bus) (m : C6747Edma × β) (address : Word)
    (value : BitVec 64) (size : ℕ) :
    Honors m (write bus m address value size) ↔ refusesLate m.1 address value size = false := by
  constructor
  · intro h
    by_contra hlate
    have hlate' : refusesLate m.1 address value size = true := by simpa using hlate
    obtain ⟨hrefused, hchanged⟩ := write_late hlate'
    exact hchanged (h.refused hrefused)
  · exact write_honors hc

end Registers

theorem ram_contract : Contract ram where
  read_pure := fun _ _ _ ↦ rfl
  check_pure := fun _ _ _ _ ↦ rfl
  commits := fun _ _ _ _ _ ↦ rfl
  span := fun _ ↦ ⟨fun _ _ ↦ rfl, fun _ _ _ _ ↦ rfl⟩
  stable := fun _ _ _ _ ↦ ⟨fun _ _ ↦ rfl, fun _ _ _ _ ↦ rfl⟩

def enabled : C6747Edma := { reset with qeer := 1 }

theorem write_honors_iff_qeecr :
    (Honors (enabled, fun _ ↦ 0) (write ram (enabled, fun _ ↦ 0) 0x01c01088 0x001 4) ↔
      refusesLate enabled 0x01c01088 0x001 4 = false) ∧
    refusesLate enabled 0x01c01088 0x001 4 = false ∧
    refusesLate enabled 0x01c01088 0x101 4 = true :=
  ⟨write_honors_iff ram_contract _ _ _ _, by decide, by decide⟩

/-- QEECR with a reserved bit: refused, but channel 0 is disabled all the same. -/
theorem write_dishonors_qeecr :
    valid enabled = true ∧ Contract ram ∧
    ¬ Honors (enabled, fun _ ↦ 0) (write ram (enabled, fun _ ↦ 0) 0x01c01088 0x101 4) := by
  refine ⟨by decide, ram_contract, fun h ↦ ?_⟩
  have hkept : (write ram (enabled, fun _ ↦ 0) 0x01c01088 0x101 4 true).2.1.qeer = 1 :=
    congrArg (·.1.qeer) (h.refused (by decide))
  revert hkept
  decide

end Cdj2000Emulator.Edma.CheckCommit
