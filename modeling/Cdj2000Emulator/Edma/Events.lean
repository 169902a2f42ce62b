import Cdj2000Emulator.Edma.Quiescence
import Mathlib.Data.List.Count

namespace Cdj2000Emulator.Edma.Events

open Library.Worklist Model Quiescence

/-- What became of the requests of each channel: external events, manual trigger bits and chained completions on one
side, the completions that were run and the latched events cleared by ECR on the other. `clean` stays true while no
step loses or doubles a request. -/
structure Ledger where
  requested : ℕ → ℕ
  cleared : ℕ → ℕ
  /-- The requests that were served, of DMA and QDMA channels, in order. -/
  log : List PendingEvent
  /-- The state that serving them has led to. -/
  reached : C6747Edma
  clean : Bool

def Ledger.empty : Ledger := ⟨fun _ ↦ 0, fun _ ↦ 0, [], reset, true⟩

/-- The transfer requests of a channel. -/
def Ledger.served (l : Ledger) (c : ℕ) : ℕ := l.log.count ⟨.dma, c⟩

def tally (channels : List ℕ) (f : ℕ → ℕ) : ℕ → ℕ := fun c ↦ f c + channels.count c

@[simp] theorem tally_self (c : ℕ) (f : ℕ → ℕ) : tally [c] f c = f c + 1 := by
  simp [tally]

theorem tally_of_ne {channel c : ℕ} (h : channel ≠ c) (f : ℕ → ℕ) : tally [channel] f c = f c := by
  simp [tally, h]

def channels (mask : Word) : List ℕ := (List.range 32).filter mask.getLsbD

/-- A completion on a channel with a latched, disabled event: its ER bit goes with it. -/
def discards (s : C6747Edma) (event : PendingEvent) : Bool :=
  event.kind = .dma ∧ s.er.getLsbD event.channel = true ∧ s.eer.getLsbD event.channel = false

/-- The codes a completion chains to: at most its own. -/
def chained (s : C6747Edma) (event : PendingEvent) : List ℕ :=
  let p := s.param (s.setOf event)
  if chains p then [tcc (p 0)] else []

def rechains (s : C6747Edma) (event : PendingEvent) : Bool :=
  (chained s event).any fun code ↦ (s.acknowledge event).cer.getLsbD code

/-- The ledger over one `complete_one`. -/
def Ledger.complete (s : C6747Edma) (event : PendingEvent) (l : Ledger) : Ledger where
  requested := tally (chained s event) l.requested
  cleared := l.cleared
  log := l.log ++ [event]
  reached := l.reached
  clean := l.clean && !discards s event && !rechains s event

section Calls

variable {β : Type} (bus : Bus β)

def Ledger.serve (m : C6747Edma × β) (initial : List PendingEvent) (l : Ledger) : Ledger :=
  match Queue.empty.pushAll serviceLimit initial with
  | none => l
  | some queue =>
    let (m, l) := (drain (withGhost (completeOne bus true) fun m ↦ Ledger.complete m.1) serviceLimit (m, l) queue).2
    { l with reached := m.1 }

/-- The ledger over a worklist that runs after its preview. -/
def Ledger.serveChecked (start : C6747Edma × β) (initial : List PendingEvent) (l : Ledger) :
    Ledger :=
  l.serve bus (start.1, (service bus false start initial).2.2) initial

/-- The ledger over `cdj_c6747_edma_event`. A second event on a disabled channel finds its
bit taken. -/
def Ledger.event (m : C6747Edma × β) (channel : ℕ) (l : Ledger) : Ledger :=
  let (s, b) := m
  let l := { l with requested := tally [channel] l.requested }
  if !s.eer.getLsbD channel then
    { l with clean := l.clean && !s.er.getLsbD channel, reached := { s with er := s.er ||| bit channel } }
  else
    let latched := if s.er.getLsbD channel then { s with emr := s.emr ||| bit channel } else s
    l.serveChecked bus ({ latched with er := latched.er ||| bit channel }, b) [⟨.dma, channel⟩]

def Ledger.writeChannel (m : C6747Edma × β) (view : View) (value : Word) (l : Ledger) : Ledger :=
  let (s, b) := m
  let d := value &&& view.dmaMask
  match view.offset with
  | 0x08 => { l with cleared := tally (channels (s.er &&& d)) l.cleared, reached := { s with er := s.er &&& ~~~d } }
  | 0x10 =>
    let l := { l with requested := tally (channels d) l.requested }
    l.serveChecked bus ({ s with esr := s.esr ||| d }, b) (dmaEvents d)
  | 0x30 => l.serveChecked bus ({ s with eer := s.eer ||| d }, b) (dmaEvents (d &&& s.er))
  | _ => l

def Ledger.writeParam (m : C6747Edma × β) (set word size : ℕ) (value : BitVec 64) (l : Ledger) :
    Ledger :=
  let (s, b) := m
  let written := s.setParam set (writeWords (s.param set) (paramWords word size value))
  let triggered := (written.qmatches set).filter fun q ↦
    let trigger := ((s.qchmap q >>> 2) &&& 7#32).toNat
    word ≤ trigger && trigger < word + size / 4
  let events := triggered.map (⟨.qdma, ·⟩)
  l.serve bus ({ written with qer := triggered.foldl (fun x q ↦ x ||| bit q) s.qer },
    (service bus false (written, b) events).2.2) events

/-- The ledger over `cdj_c6747_edma_write`. A write that has to do with no request leads where it leads. -/
def Ledger.write (m : C6747Edma × β) (address : Word) (value : BitVec 64) (size : ℕ)
    (l : Ledger) : Ledger :=
  let l := { l with reached := (Model.write bus m address value size true).2.1 }
  match locate address with
  | none => l
  | some o =>
    if 0x4000 ≤ o ∧ o < 0x5000 then
      l.writeParam bus m ((o - 0x4000) / 32) ((o - 0x4000) % 32 / 4) size value
    else match channelView m.1 o with
      | some view => l.writeChannel bus m view (value.setWidth 32)
      | none => l

end Calls

/-- Successful calls from reset, with the ledger kept of them. -/
inductive Run : C6747Edma → Ledger → Prop
  | reset : Run reset .empty
  | write {β : Type} {bus : Bus β} {s : C6747Edma} {b : β} {m' : C6747Edma × β} {l : Ledger}
      {address : Word} {value : BitVec 64} {size : ℕ} :
      Run s l → Model.write bus (s, b) address value size true = (true, m') →
      Run m'.1 (l.write bus (s, b) address value size)
  | event {β : Type} {bus : Bus β} {s : C6747Edma} {b : β} {m' : C6747Edma × β} {l : Ledger}
      {channel : ℕ} :
      Run s l → Model.event bus (s, b) channel = (true, m') →
      Run m'.1 (l.event bus (s, b) channel)
  | takeIrqNotification {s s' : C6747Edma} {l : Ledger} {region : ℕ} :
      Run s l → Model.takeIrqNotification s region = (true, s') → Run s' { l with reached := s' }

/-- Every request is accounted for once: transferred, cleared, still latched on a disabled channel, or waiting among
`items`. Each transfer has been counted, and no event is marked as missed. -/
structure Balanced (l : Ledger) (s : C6747Edma) (items : List PendingEvent) : Prop where
  requests : ∀ c, l.requested c = l.served c + l.cleared c + (s.er.getLsbD c && !s.eer.getLsbD c).toNat +
    items.count ⟨.dma, c⟩
  transfers : s.transferRequests = BitVec.ofNat 64 l.log.length
  unmarked : s.emr = 0

theorem count_channels (mask : Word) (c : ℕ) :
    (channels mask).count c = (mask.getLsbD c).toNat := by
  have hnodup : (channels mask).Nodup := List.nodup_range.filter _
  rw [hnodup.count]
  cases hc : mask.getLsbD c with
  | true =>
    have hlt : c < 32 := by
      by_contra hge
      simp [BitVec.getLsbD_of_ge mask c (by omega)] at hc
    simp [channels, hc, hlt]
  | false => simp [channels, hc]

theorem count_dmaEvents (mask : Word) (c : ℕ) :
    (dmaEvents mask).count ⟨.dma, c⟩ = (mask.getLsbD c).toNat := by
  rw [← count_channels]
  exact List.count_map_of_injective _ _ (fun c c' h ↦ by injection h) c

theorem count_qdma (qs : List ℕ) (c : ℕ) :
    (qs.map (⟨.qdma, ·⟩ : ℕ → PendingEvent)).count ⟨.dma, c⟩ = 0 := by
  apply List.count_eq_zero_of_not_mem
  intro h
  obtain ⟨q, -, hq⟩ := List.mem_map.mp h
  cases hq

/-- What a stage of a completion leaves alone. -/
structure Frame (s s' : C6747Edma) (queue queue' : PendingQueue) : Prop where
  er : s'.er = s.er
  eer : s'.eer = s.eer
  cer : s'.cer = s.cer
  emr : s'.emr = s.emr
  transfers : s'.transferRequests = s.transferRequests
  count : ∀ c, queue'.items.count ⟨.dma, c⟩ = queue.items.count ⟨.dma, c⟩

theorem retrigger_frame {s s' : C6747Edma} {queue queue' : PendingQueue} {qs : List ℕ}
    (h : s.retrigger queue qs = (true, s', queue')) : Frame s s' queue queue' := by
  induction qs generalizing s queue with
  | nil =>
    cases h
    exact ⟨rfl, rfl, rfl, rfl, rfl, fun _ ↦ rfl⟩
  | cons q qs ih =>
    simp only [C6747Edma.retrigger] at h
    split at h
    · cases h
    · rename_i mid hpush
      have hrest := ih h
      have hcount (c : ℕ) : mid.items.count ⟨.dma, c⟩ = queue.items.count ⟨.dma, c⟩ := by
        rw [Queue.items_push hpush, List.count_append]
        simp
      refine ⟨?_, ?_, ?_, ?_, ?_, fun c ↦ (hrest.count c).trans (hcount c)⟩
      · rw [hrest.er]
        split <;> rfl
      · rw [hrest.eer]
        split <;> rfl
      · rw [hrest.cer]
        split <;> rfl
      · rw [hrest.emr]
        split <;> rfl
      · rw [hrest.transfers]
        split <;> rfl

theorem updateParam_frame {s s' : C6747Edma} {queue queue' : PendingQueue} {set : ℕ}
    {p : ParamSet} (h : s.updateParam set p queue = (true, s', queue')) :
    Frame s s' queue queue' := by
  simp only [C6747Edma.updateParam] at h
  split at h
  · cases h
    exact ⟨rfl, rfl, rfl, rfl, rfl, fun _ ↦ rfl⟩
  · split at h
    · cases h
      exact ⟨rfl, rfl, rfl, rfl, rfl, fun _ ↦ rfl⟩
    · split at h
      · cases h
        exact ⟨rfl, rfl, rfl, rfl, rfl, fun _ ↦ rfl⟩
      · have hr := retrigger_frame h
        exact ⟨hr.er, hr.eer, hr.cer, hr.emr, hr.transfers, hr.count⟩

theorem raiseInterrupt_frame {s : C6747Edma} {queue : PendingQueue} (code : ℕ) (raised : Prop) [Decidable raised] :
    Frame s (if raised then s.raiseInterrupt code else s) queue queue := by
  split <;> exact ⟨rfl, rfl, rfl, rfl, rfl, fun _ ↦ rfl⟩

theorem Frame.trans {s s' s'' : C6747Edma} {queue queue' queue'' : PendingQueue} (h : Frame s s' queue queue')
    (h' : Frame s' s'' queue' queue'') : Frame s s'' queue queue'' where
  er := h'.er.trans h.er
  eer := h'.eer.trans h.eer
  cer := h'.cer.trans h.cer
  emr := h'.emr.trans h.emr
  transfers := h'.transfers.trans h.transfers
  count c := (h'.count c).trans (h.count c)

theorem chainTo_frame {s s' : C6747Edma} {queue queue' : PendingQueue} {code : ℕ}
    (h : s.chainTo code queue = (true, s', queue')) :
    s'.er = s.er ∧ s'.eer = s.eer ∧ (s.cer.getLsbD code = false → s'.emr = s.emr) ∧
      s'.transferRequests = s.transferRequests ∧ queue'.items = queue.items ++ [⟨.dma, code⟩] := by
  simp only [C6747Edma.chainTo] at h
  split at h
  · cases h
  · rename_i mid hpush
    cases h
    refine ⟨?_, ?_, fun hclear ↦ ?_, ?_, Queue.items_push hpush⟩
    · split <;> rfl
    · split <;> rfl
    · rw [if_neg (Bool.eq_false_iff.mp hclear)]
    · split <;> rfl

section Steps

variable {β : Type} {bus : Bus β}

/-- What one completion does to the event registers, to the count of transfers and to the worklist. -/
structure Completed (s : C6747Edma) (event : PendingEvent) (queue : PendingQueue) (s' : C6747Edma)
    (queue' : PendingQueue) : Prop where
  er : s'.er = (s.acknowledge event).er
  eer : s'.eer = s.eer
  emr : rechains s event = false → s'.emr = s.emr
  transfers : s'.transferRequests = s.transferRequests + 1
  count : ∀ c, queue'.items.count ⟨.dma, c⟩ = queue.items.count ⟨.dma, c⟩ + (chained s event).count c

theorem completeOne_frame {m m' : C6747Edma × β} {queue queue' : PendingQueue}
    {event : PendingEvent} (h : completeOne bus true m queue event = (true, m', queue')) :
    Completed m.1 event queue m'.1 queue' := by
  obtain ⟨-, -, hr⟩ := completeOne_ok h
  obtain ⟨s₁, queue₁, s₂, hu, hc, hs⟩ := retire_ok hr
  have hack : (m.1.acknowledge event).eer = m.1.eer ∧ (m.1.acknowledge event).emr = m.1.emr ∧
      (m.1.acknowledge event).transferRequests = m.1.transferRequests := by
    unfold C6747Edma.acknowledge
    split <;> exact ⟨rfl, rfl, rfl⟩
  obtain ⟨heer, hemr, htransfers⟩ := hack
  have hf := (updateParam_frame hu).trans (raiseInterrupt_frame (tcc (m.1.param (m.1.setOf event) 0))
    (interrupts (m.1.param (m.1.setOf event)) = true))
  generalize (if interrupts (m.1.param (m.1.setOf event)) = true then
    s₁.raiseInterrupt (tcc (m.1.param (m.1.setOf event) 0)) else s₁) = raised at hf hc
  rw [hs]
  cases hchain : chains (m.1.param (m.1.setOf event)) with
  | false =>
    simp only [hchain, Bool.false_eq_true, if_false, Prod.mk.injEq, true_and] at hc
    obtain ⟨rfl, rfl⟩ := hc
    refine ⟨hf.er, hf.eer.trans heer, fun _ ↦ hf.emr.trans hemr, ?_, fun c ↦ ?_⟩
    · exact congrArg (· + 1) (hf.transfers.trans htransfers)
    · simp [hf.count c, chained, hchain]
  | true =>
    rw [if_pos hchain] at hc
    obtain ⟨her, heer₂, hemr₂, htransfers₂, hitems⟩ := chainTo_frame hc
    have hcodes : chained m.1 event = [tcc (m.1.param (m.1.setOf event) 0)] := by
      simp only [chained, hchain, if_true]
    refine ⟨her.trans hf.er, heer₂.trans (hf.eer.trans heer), fun hclear ↦ ?_, ?_, fun c ↦ ?_⟩
    · rw [rechains, hcodes, List.any_cons, List.any_nil, Bool.or_false] at hclear
      exact (hemr₂ (hf.cer ▸ hclear)).trans (hf.emr.trans hemr)
    · exact congrArg (· + 1) (htransfers₂.trans (hf.transfers.trans htransfers))
    · rw [hitems, List.count_append, hf.count c, hcodes]
      congr 1
      exact List.count_map_of_injective [_] _ (fun c c' (h : PendingEvent.mk .dma c = ⟨.dma, c'⟩) ↦
        by injection h) c

theorem served_complete (s : C6747Edma) (event : PendingEvent) (l : Ledger) (c : ℕ) :
    (l.complete s event).served c = l.served c + if event = ⟨.dma, c⟩ then 1 else 0 := by
  simp only [Ledger.served, Ledger.complete, List.count_append, List.count_singleton, beq_iff_eq]

theorem completeOne_balanced {m m' : C6747Edma × β} {queue queue' : PendingQueue}
    {event : PendingEvent} {l : Ledger} (hl : Balanced l m.1 (event :: queue.items))
    (hdiscards : discards m.1 event = false) (hrechains : rechains m.1 event = false)
    (h : completeOne bus true m queue event = (true, m', queue')) :
    Balanced (l.complete m.1 event) m'.1 queue'.items := by
  have hdone := completeOne_frame h
  refine ⟨fun c ↦ ?_, ?_, (hdone.emr hrechains).trans hl.unmarked⟩
  · have hc := hl.requests c
    rw [List.count_cons] at hc
    rw [served_complete, hdone.er, hdone.eer, hdone.count]
    simp only [Ledger.complete, tally]
    obtain ⟨kind, channel⟩ := event
    cases kind with
    | qdma =>
      have hother : ((⟨.qdma, channel⟩ : PendingEvent) == ⟨.dma, c⟩) = false := by simp
      simp only [hother, Bool.false_eq_true, if_false] at hc
      simp only [C6747Edma.acknowledge, PendingEvent.mk.injEq, reduceCtorEq, false_and, if_false]
      omega
    | dma =>
      simp only [C6747Edma.acknowledge, PendingEvent.mk.injEq, true_and]
      by_cases heq : channel = c
      · subst heq
        have hgone : (m.1.er &&& ~~~bit channel).getLsbD channel = false := by
          rw [← Bool.not_eq_true, getLsbD_clear_bit]
          exact fun h ↦ h.2 rfl
        have hlatched : (m.1.er.getLsbD channel && !m.1.eer.getLsbD channel) = false := by
          simpa [discards] using hdiscards
        simp only [hlatched, hgone, beq_self_eq_true, if_true, Bool.false_and, Bool.toNat_false] at hc ⊢
        omega
      · have hkept : (m.1.er &&& ~~~bit channel).getLsbD c = m.1.er.getLsbD c := by
          rw [Bool.eq_iff_iff, getLsbD_clear_bit]
          exact and_iff_left heq
        have hother : ((⟨.dma, channel⟩ : PendingEvent) == ⟨.dma, c⟩) = false := by simpa using heq
        simp only [hother, Bool.false_eq_true, if_false] at hc
        rw [hkept, if_neg heq]
        omega
  · rw [hdone.transfers, hl.transfers]
    simp only [Ledger.complete, List.length_append, List.length_singleton]
    exact (BitVec.ofNat_add l.log.length 1).symm

theorem Balanced.reach {l : Ledger} {s : C6747Edma} {items : List PendingEvent} (hl : Balanced l s items)
    (t : C6747Edma) : Balanced { l with reached := t } s items := ⟨hl.requests, hl.transfers, hl.unmarked⟩

/-- The run lemma over the worklist of a call. -/
theorem serve_balanced {m m' : C6747Edma × β} {initial : List PendingEvent} {l : Ledger}
    (hl : l.clean = true → Balanced l m.1 initial)
    (h : service bus true m initial = (true, m'))
    (hclean : (l.serve bus m initial).clean = true) :
    Balanced (l.serve bus m initial) m'.1 [] := by
  unfold service at h
  unfold Ledger.serve at hclean ⊢
  cases hpush : Queue.empty.pushAll serviceLimit initial with
  | none => simp [hpush] at h
  | some queue =>
    simp only [hpush] at h hclean ⊢
    obtain ⟨hok, hstate⟩ := drain_withGhost (completeOne bus true)
      (fun m ↦ Ledger.complete m.1) serviceLimit (m, l) queue
    generalize hr : drain (withGhost (completeOne bus true) fun m ↦ Ledger.complete m.1)
      serviceLimit (m, l) queue = r at hok hstate hclean ⊢
    obtain ⟨ok, m'', l'⟩ := r
    rw [h] at hok hstate
    obtain rfl : ok = true := hok
    obtain rfl : m'' = m' := hstate
    refine Balanced.reach (drain_invariant (fun (m : (C6747Edma × β) × Ledger) items ↦
      m.2.clean = true → Balanced m.2 m.1.1 items) ?_ ?_ hr hclean) _
    · intro m q event m' q' hm hstep hc
      simp only [withGhost, Prod.mk.injEq] at hstep
      obtain ⟨hok, rfl, rfl⟩ := hstep
      simp only [Ledger.complete, Bool.and_eq_true, Bool.not_eq_true'] at hc
      exact completeOne_balanced (hm hc.1.1) hc.1.2 hc.2 (Prod.ext hok rfl)
    · rw [Queue.items_pushAll hpush]
      exact hl

theorem serve_reached {m m' : C6747Edma × β} {initial : List PendingEvent} {l : Ledger}
    (h : service bus true m initial = (true, m')) : (l.serve bus m initial).reached = m'.1 := by
  unfold service at h
  unfold Ledger.serve
  cases hpush : Queue.empty.pushAll serviceLimit initial with
  | none => simp [hpush] at h
  | some queue =>
    simp only [hpush] at h ⊢
    obtain ⟨-, hstate⟩ := drain_withGhost (completeOne bus true)
        (fun m ↦ Ledger.complete m.1) serviceLimit (m, l) queue
    rw [h] at hstate
    exact congrArg Prod.fst hstate

theorem serve_nil (m : C6747Edma × β) (l : Ledger) : l.serve bus m [] = { l with reached := m.1 } := by
  simp [Ledger.serve, Queue.pushAll, Queue.empty]

/-- A worklist that has been previewed is run over the bus that the preview leaves. -/
theorem serviceChecked_ok {m start m' : C6747Edma × β} {events : List PendingEvent}
    (h : Model.serviceChecked bus m start events true = (true, m')) :
    service bus true (start.1, (service bus false start events).2.2) events = (true, m') := by
  unfold serviceChecked at h
  split at h
  · cases h
  · rename_i s₁ b₁ hs
    rw [hs]
    exact h

theorem serveChecked_balanced {m start m' : C6747Edma × β} {events : List PendingEvent}
    {l : Ledger} (hl : l.clean = true → Balanced l start.1 events)
    (h : Model.serviceChecked bus m start events true = (true, m'))
    (hclean : (l.serveChecked bus start events).clean = true) :
    Balanced (l.serveChecked bus start events) m'.1 [] :=
  serve_balanced hl (serviceChecked_ok h) hclean

theorem serveChecked_reached {m start m' : C6747Edma × β} {events : List PendingEvent} {l : Ledger}
    (h : Model.serviceChecked bus m start events true = (true, m')) :
    (l.serveChecked bus start events).reached = m'.1 := serve_reached (serviceChecked_ok h)

/-- Between calls no enabled channel has its ER bit set. -/
theorem er_eer {s : C6747Edma} (h : Pending s []) (c : ℕ) :
    (s.er.getLsbD c && s.eer.getLsbD c) = false := by
  rw [← Bool.not_eq_true, Bool.and_eq_true]
  exact fun hc ↦ List.not_mem_nil (h.er c hc.1 hc.2)

theorem event_balanced {m m' : C6747Edma × β} {channel : ℕ} {l : Ledger} (hm : Pending m.1 [])
    (hl : l.clean = true → Balanced l m.1 [])
    (h : Model.event bus m channel = (true, m'))
    (hclean : (l.event bus m channel).clean = true) :
    Balanced (l.event bus m channel) m'.1 [] := by
  obtain ⟨s, b⟩ := m
  have hmasked (c : ℕ) := er_eer hm c
  unfold Model.event at h
  unfold Ledger.event at hclean ⊢
  dsimp only at h hclean hmasked ⊢
  split at h
  · cases h
  · rename_i hchannel
    cases heer : s.eer.getLsbD channel with
    | false =>
      simp only [heer, Bool.not_false, if_true, Prod.mk.injEq, true_and] at h hclean ⊢
      subst h
      simp only [Bool.and_eq_true, Bool.not_eq_true'] at hclean
      refine ⟨fun c ↦ ?_, (hl hclean.1).transfers, (hl hclean.1).unmarked⟩
      have hc := (hl hclean.1).requests c
      simp only [Ledger.served] at hc ⊢
      rw [getLsbD_or_bit]
      by_cases heq : channel = c
      · subst heq
        simp only [hclean.2, heer, tally_self, Bool.toNat_false, Bool.false_or, Bool.not_false,
          Bool.and_true, decide_true, decide_eq_true (Nat.lt_of_not_le hchannel),
          Bool.toNat_true] at hc ⊢
        omega
      · simp only [tally_of_ne heq, heq, decide_false, Bool.and_false, Bool.or_false]
        exact hc
    | true =>
      have her : s.er.getLsbD channel = false := by simpa [heer] using hmasked channel
      simp only [heer, her, Bool.not_true, Bool.false_eq_true, if_false] at h hclean ⊢
      refine serveChecked_balanced (fun hc ↦ ⟨fun c ↦ ?_, (hl hc).transfers, (hl hc).unmarked⟩) h hclean
      have hc' := (hl hc).requests c
      simp only [Ledger.served] at hc' ⊢
      rw [getLsbD_or_bit]
      by_cases heq : channel = c
      · subst heq
        simp only [her, heer, tally_self, Bool.not_true, Bool.and_false, Bool.toNat_false,
          List.count_nil, List.count_singleton, beq_self_eq_true, if_true] at hc' ⊢
        omega
      · have hother : ((⟨.dma, channel⟩ : PendingEvent) == ⟨.dma, c⟩) = false := by simpa using heq
        simp only [tally_of_ne heq, heq, decide_false, Bool.and_false, Bool.or_false,
          List.count_singleton, hother, Bool.false_eq_true, if_false]
        exact hc'

theorem event_reached {m m' : C6747Edma × β} {channel : ℕ} {l : Ledger}
    (h : Model.event bus m channel = (true, m')) :
    (l.event bus m channel).reached = m'.1 := by
  unfold Model.event at h
  unfold Ledger.event
  dsimp only at h ⊢
  split at h
  · cases h
  · split at h
    · rename_i hoff
      rw [if_pos hoff]
      exact congrArg (·.2.1) h
    · rename_i hoff
      rw [if_neg hoff]
      exact serveChecked_reached h

theorem Balanced.congr {l : Ledger} {s s' : C6747Edma} {items : List PendingEvent}
    (hl : Balanced l s items) (hlatched : ∀ c, (s'.er.getLsbD c && !s'.eer.getLsbD c) =
      (s.er.getLsbD c && !s.eer.getLsbD c)) (htransfers : s'.transferRequests = s.transferRequests)
    (hemr : s.emr = 0 → s'.emr = 0) : Balanced l s' items := by
  refine ⟨fun c ↦ ?_, htransfers.trans hl.transfers, hemr hl.unmarked⟩
  rw [hlatched]
  exact hl.requests c

/-- Only a write of ECR, ESR or EESR has to do with requests; no other one enables a channel. -/
theorem writeChannel_latched {m m' : C6747Edma × β} {view : View} {value : Word}
    (hoff : view.offset ∉ [0x08, 0x10, 0x30]) (h : Model.writeChannel bus m view value true = (true, m')) :
    m'.1.er = m.1.er ∧ (∀ c, m'.1.eer.getLsbD c = true → m.1.eer.getLsbD c = true) ∧
      m'.1.transferRequests = m.1.transferRequests ∧ m'.1.emr = m.1.emr := by
  obtain ⟨s, b⟩ := m
  have hkept {ok : Bool} {s' : C6747Edma} (h : (ok, s', b) = (true, m'))
      (hs : s'.er = s.er ∧ (∀ c, s'.eer.getLsbD c = true → s.eer.getLsbD c = true) ∧
        s'.transferRequests = s.transferRequests ∧ s'.emr = s.emr) :
      m'.1.er = s.er ∧ (∀ c, m'.1.eer.getLsbD c = true → s.eer.getLsbD c = true) ∧
        m'.1.transferRequests = s.transferRequests ∧ m'.1.emr = s.emr := by
    cases h
    exact hs
  have hsame : s.er = s.er ∧ (∀ c, s.eer.getLsbD c = true → s.eer.getLsbD c = true) ∧
      s.transferRequests = s.transferRequests ∧ s.emr = s.emr := ⟨rfl, fun _ h ↦ h, rfl, rfl⟩
  unfold Model.writeChannel at h
  simp only [if_true] at h
  split at h
  · exact absurd ‹view.offset = 0x08› fun heq ↦ hoff (by simp [heq])
  · exact absurd ‹view.offset = 0x10› fun heq ↦ hoff (by simp [heq])
  · refine hkept h ⟨rfl, fun c hc ↦ ?_, rfl, rfl⟩
    rw [BitVec.getLsbD_and, Bool.and_eq_true] at hc
    exact hc.1
  · exact absurd ‹view.offset = 0x30› fun heq ↦ hoff (by simp [heq])
  · exact hkept h hsame
  · exact hkept h hsame
  · exact hkept h hsame
  · exact hkept h hsame
  · split at h
    · cases h
    · split at h
      · exact hkept h hsame
      · split at h <;> exact hkept h hsame
  · exact hkept h hsame
  · exact hkept h hsame
  · exact hkept h hsame
  · cases h

theorem writeChannel_balanced {m m' : C6747Edma × β} {view : View} {value : Word} {l : Ledger}
    (hm : Pending m.1 []) (hl : l.clean = true → Balanced l m.1 [])
    (h : Model.writeChannel bus m view value true = (true, m'))
    (hclean : (l.writeChannel bus m view value).clean = true) :
    Balanced (l.writeChannel bus m view value) m'.1 [] := by
  obtain ⟨s, b⟩ := m
  have hmasked (c : ℕ) (hs : s.er.getLsbD c = true) : s.eer.getLsbD c = false := by
    simpa [hs] using er_eer hm c
  have hlt {c : ℕ} (hs : s.er.getLsbD c = true) : c < 32 := by
    by_contra hge
    simp [BitVec.getLsbD_of_ge s.er c (by omega)] at hs
  unfold Ledger.writeChannel at hclean ⊢
  dsimp only at hclean ⊢
  split at hclean
  · rename_i hoff
    simp only [Model.writeChannel, hoff, if_true] at h ⊢
    cases h
    refine ⟨fun c ↦ ?_, (hl hclean).transfers, (hl hclean).unmarked⟩
    have hc := (hl hclean).requests c
    simp only [Ledger.served, tally, count_channels, BitVec.getLsbD_and, BitVec.getLsbD_not] at hc ⊢
    cases hs : s.er.getLsbD c with
    | false =>
      simp only [hs, Bool.false_and, Bool.toNat_false] at hc ⊢
      omega
    | true =>
      simp only [hs, hmasked c hs, hlt hs, decide_true, Bool.true_and, Bool.not_false,
        Bool.and_true, Bool.toNat_true] at hc ⊢
      cases value.getLsbD c && view.dmaMask.getLsbD c <;> simpa [Nat.add_assoc] using hc
  · rename_i hoff
    simp only [Model.writeChannel, hoff] at h ⊢
    refine serveChecked_balanced (fun hc ↦ ⟨fun c ↦ ?_, (hl hc).transfers, (hl hc).unmarked⟩) h hclean
    have hc' := (hl hc).requests c
    simp only [Ledger.served, tally, count_channels, count_dmaEvents, List.count_nil] at hc' ⊢
    omega
  · rename_i hoff
    simp only [Model.writeChannel, hoff, if_true] at h ⊢
    have hstart (hc : l.clean = true) : Balanced l { s with eer := s.eer ||| value &&& view.dmaMask }
        (dmaEvents (value &&& view.dmaMask &&& s.er)) := by
      refine ⟨fun c ↦ ?_, (hl hc).transfers, (hl hc).unmarked⟩
      have hc' := (hl hc).requests c
      simp only [count_dmaEvents, List.count_nil, BitVec.getLsbD_and, BitVec.getLsbD_or] at hc' ⊢
      cases hs : s.er.getLsbD c with
      | false => simpa only [hs, Bool.false_and, Bool.and_false, Bool.toNat_false] using hc'
      | true =>
        simp only [hs, hmasked c hs] at hc'
        simp only [hmasked c hs, Bool.true_and, Bool.false_or, Bool.and_true]
        cases value.getLsbD c && view.dmaMask.getLsbD c <;> simpa using hc'
    split at h
    · rename_i hempty
      have hnil := List.isEmpty_iff.mp hempty
      cases h
      rw [hnil] at hstart hclean ⊢
      rw [Ledger.serveChecked, serve_nil] at hclean ⊢
      exact (hstart hclean).reach _
    · exact serveChecked_balanced hstart h hclean
  · rename_i hecr hesr heesr
    have hoff : view.offset ∉ [0x08, 0x10, 0x30] := by
      simp only [List.mem_cons, List.not_mem_nil, or_false, not_or]
      exact ⟨hecr, hesr, heesr⟩
    obtain ⟨her, heer, htransfers, hemr⟩ := writeChannel_latched hoff h
    refine (hl hclean).congr (fun c ↦ ?_) htransfers fun hzero ↦ hemr.trans hzero
    rw [her]
    cases hs : s.er.getLsbD c with
    | false => rfl
    | true =>
      have hdisabled : m'.1.eer.getLsbD c = false :=
        Bool.eq_false_iff.mpr fun hon ↦ absurd (heer c hon) (by simp [hmasked c hs])
      rw [hdisabled, hmasked c hs]

theorem writeParam_balanced {m m' : C6747Edma × β} {set word size : ℕ} {value : BitVec 64}
    {l : Ledger} (hl : l.clean = true → Balanced l m.1 [])
    (h : Model.writeParam bus m set word size value true = (true, m'))
    (hclean : (l.writeParam bus m set word size value).clean = true) :
    Balanced (l.writeParam bus m set word size value) m'.1 [] := by
  obtain ⟨s, b⟩ := m
  unfold Model.writeParam at h
  unfold Ledger.writeParam at hclean ⊢
  simp only [if_true] at h hclean ⊢
  split at h
  · cases h
  · split at h
    · rename_i hempty
      have hnil := List.isEmpty_iff.mp hempty
      cases h
      rw [hnil, serve_nil] at hclean ⊢
      exact ((hl hclean).reach _).congr (fun _ ↦ rfl) rfl id
    · split at h
      · cases h
      · rename_i hs
        rw [hs] at hclean ⊢
        refine serve_balanced (fun hc ↦ ⟨fun c ↦ ?_, (hl hc).transfers, (hl hc).unmarked⟩) h hclean
        rw [count_qdma]
        exact (hl hc).requests c

theorem writeParam_reached {m m' : C6747Edma × β} {set word size : ℕ} {value : BitVec 64} {l : Ledger}
    (h : Model.writeParam bus m set word size value true = (true, m')) :
    (l.writeParam bus m set word size value).reached = m'.1 := by
  unfold Model.writeParam at h
  unfold Ledger.writeParam
  simp only [if_true] at h ⊢
  split at h
  · cases h
  · split at h
    · rename_i hempty
      have hnone := List.map_eq_nil_iff.mp (List.isEmpty_iff.mp hempty)
      rw [hnone, List.map_nil, serve_nil]
      cases h
      rfl
    · split at h
      · cases h
      · rename_i hs
        rw [hs]
        exact serve_reached h

theorem writeChannel_reached {m m' : C6747Edma × β} {view : View} {value : Word} {l : Ledger}
    (h : Model.writeChannel bus m view value true = (true, m')) (hl : l.reached = m'.1) :
    (l.writeChannel bus m view value).reached = m'.1 := by
  unfold Ledger.writeChannel
  unfold Model.writeChannel at h
  dsimp only
  split
  · rename_i hoff
    simp only [hoff, if_true] at h
    exact congrArg (·.2.1) h
  · rename_i hoff
    simp only [hoff] at h
    exact serveChecked_reached h
  · rename_i hoff
    simp only [hoff, if_true] at h
    split at h
    · rename_i hempty
      rw [Ledger.serveChecked, List.isEmpty_iff.mp hempty, serve_nil]
      exact congrArg (·.2.1) h
    · exact serveChecked_reached h
  · exact hl

theorem writeGlobal_latched {s s' : C6747Edma} {o : ℕ} {v : Word} (h : writeGlobal s o v = some (true, s')) :
    s'.er = s.er ∧ s'.eer = s.eer ∧ s'.transferRequests = s.transferRequests ∧ (s.emr = 0 → s'.emr = 0) := by
  have hchecked {legal : Bool} {s₁ : C6747Edma}
      (h : some (legal, if legal then s₁ else s) = some (true, s'))
      (her : s₁.er = s.er ∧ s₁.eer = s.eer ∧ s₁.transferRequests = s.transferRequests ∧
        (s.emr = 0 → s₁.emr = 0)) :
      s'.er = s.er ∧ s'.eer = s.eer ∧ s'.transferRequests = s.transferRequests ∧ (s.emr = 0 → s'.emr = 0) := by
    cases legal with
    | false => cases h
    | true =>
      obtain rfl : s₁ = s' := by simpa using h
      exact her
  have hcleared (hemr : s.emr = 0) : s.emr &&& ~~~v = 0 := by
    rw [hemr]
    exact BitVec.zero_and
  unfold writeGlobal at h
  iterate 10
    rcases ite_eq_iff.mp h with ⟨-, h⟩ | ⟨-, h⟩
    · exact hchecked h ⟨rfl, rfl, rfl, by first | exact id | exact hcleared⟩
  cases h

theorem write_balanced {m m' : C6747Edma × β} {address : Word} {value : BitVec 64} {size : ℕ}
    {l : Ledger} (hm : Pending m.1 []) (hl : l.clean = true → Balanced l m.1 [])
    (h : Model.write bus m address value size true = (true, m'))
    (hclean : (l.write bus m address value size).clean = true) :
    Balanced (l.write bus m address value size) m'.1 [] := by
  have hreach (t : C6747Edma) (hc : ({ l with reached := t } : Ledger).clean = true) :
      Balanced { l with reached := t } m.1 [] := (hl hc).reach t
  unfold Ledger.write at hclean ⊢
  generalize (Model.write bus m address value size true).2.1 = t at hclean ⊢
  unfold Model.write at h
  cases hloc : locate address with
  | none => simp [hloc] at h
  | some o =>
    simp only [hloc] at h hclean ⊢
    split at h
    · cases h
    · split at h
      · rename_i hparam
        rw [if_pos hparam] at hclean ⊢
        exact writeParam_balanced (hreach t) h hclean
      · rename_i hparam
        rw [if_neg hparam] at hclean ⊢
        split at h
        · rename_i ok s' hglobal
          simp only [if_true, Prod.mk.injEq] at h
          obtain ⟨rfl, rfl⟩ := h
          have hview : channelView m.1 o = none := by
            by_contra hv
            obtain ⟨view, hview⟩ := Option.ne_none_iff_exists'.mp hv
            rw [writeGlobal_window _ (channelView_window hview).1] at hglobal
            cases hglobal
          rw [hview] at hclean ⊢
          obtain ⟨her, heer, htransfers, hemr⟩ := writeGlobal_latched hglobal
          exact (hreach t hclean).congr (fun c ↦ by rw [her, heer]) htransfers hemr
        · split at h
          · rename_i view hview
            simp only [hview] at hclean ⊢
            exact writeChannel_balanced hm (hreach t) h hclean
          · cases h

theorem write_reached {m m' : C6747Edma × β} {address : Word} {value : BitVec 64} {size : ℕ} {l : Ledger}
    (h : Model.write bus m address value size true = (true, m')) :
    (l.write bus m address value size).reached = m'.1 := by
  have hresult : (Model.write bus m address value size true).2.1 = m'.1 := congrArg (·.2.1) h
  unfold Ledger.write
  rw [hresult]
  unfold Model.write at h
  cases hloc : locate address with
  | none => rfl
  | some o =>
    simp only [hloc] at h ⊢
    split at h
    · cases h
    · split at h
      · rename_i hparam
        rw [if_pos hparam]
        exact writeParam_reached h
      · rename_i hparam
        rw [if_neg hparam]
        cases hview : channelView m.1 o with
        | none => rfl
        | some view =>
          rw [writeGlobal_window _ (channelView_window hview).1, hview] at h
          exact writeChannel_reached h rfl

end Steps

/-- What a ledger says of the state it has been kept up to: serving its requests has led to that state, each has been
counted as a transfer, no event is marked as missed, and every request of every channel is either one of them, cleared,
or still latched for a disabled event. -/
structure Accounts (l : Ledger) (s : C6747Edma) : Prop where
  reached : l.reached = s
  transfers : s.transferRequests = BitVec.ofNat 64 l.log.length
  unmarked : s.emr = 0
  disabled : ∀ c, s.er.getLsbD c = true → s.eer.getLsbD c = false
  requests : ∀ c, l.requested c = l.served c + l.cleared c + (s.er.getLsbD c).toNat

theorem run_pending {s : C6747Edma} {l : Ledger} (h : Run s l) : Pending s [] := by
  induction h with
  | reset => exact reset_pending
  | write _ hw ih => exact write_pending ih hw
  | event _ he ih => exact event_pending ih he
  | takeIrqNotification _ ht ih => exact takeIrqNotification_pending ih ht

theorem run_reached {s : C6747Edma} {l : Ledger} (h : Run s l) : l.reached = s := by
  cases h with
  | reset => rfl
  | write _ hw => exact write_reached hw
  | event _ he => exact event_reached he
  | takeIrqNotification => rfl

theorem run_balanced {s : C6747Edma} {l : Ledger} (h : Run s l) (hclean : l.clean = true) : Balanced l s [] := by
  induction h with
  | reset => exact ⟨fun c ↦ by simp [Ledger.empty, Ledger.served, reset], rfl, rfl⟩
  | write hs hw ih => exact write_balanced (run_pending hs) ih hw hclean
  | event hs he ih => exact event_balanced (run_pending hs) ih he hclean
  | takeIrqNotification hs ht ih =>
    unfold takeIrqNotification at ht
    split at ht
    · cases ht
    · cases ht
      exact ((ih hclean).reach _).congr (fun _ ↦ rfl) rfl id

/-- In a run none of whose steps discards, rechains or finds its bit taken, every request of
every channel is accounted for once in every state reached. -/
theorem balanced_of_run {s : C6747Edma} {l : Ledger} (h : Run s l) (hclean : l.clean = true) : Accounts l s := by
  have hbalanced := run_balanced h hclean
  have hdisabled (c : ℕ) (hs : s.er.getLsbD c = true) : s.eer.getLsbD c = false := by
    simpa [hs] using er_eer (run_pending h) c
  refine ⟨run_reached h, hbalanced.transfers, hbalanced.unmarked, hdisabled, fun c ↦ ?_⟩
  have hc := hbalanced.requests c
  rw [List.count_nil, Nat.add_zero] at hc
  cases hs : s.er.getLsbD c with
  | false => rwa [hs, Bool.false_and] at hc
  | true => rwa [hs, hdisabled c hs] at hc

section Runs

abbrev Kept := C6747Edma × Ledger

def Kept.write (r : Kept) (address : Word) (value : BitVec 64) (size : ℕ) : Kept :=
  ((Model.write blank (r.1, ()) address value size true).2.1,
    r.2.write blank (r.1, ()) address value size)

def Kept.event (r : Kept) (channel : ℕ) : Kept :=
  ((Model.event blank (r.1, ()) channel).2.1, r.2.event blank (r.1, ()) channel)

theorem Kept.run_write {r : Kept} (h : Run r.1 r.2) {address : Word} {value : BitVec 64} {size : ℕ}
    (hok : (Model.write blank (r.1, ()) address value size true).1 = true) :
    Run (r.write address value size).1 (r.write address value size).2 :=
  .write h (Prod.ext hok rfl)

theorem Kept.run_event {r : Kept} (h : Run r.1 r.2) {channel : ℕ}
    (hok : (Model.event blank (r.1, ()) channel).1 = true) :
    Run (r.event channel).1 (r.event channel).2 :=
  .event h (Prod.ext hok rfl)

/-- Channel 3 with one byte to move, disabled, and an external event latched on it. -/
def latched : Kept :=
  let counts : Kept := Kept.write (reset, .empty) 0x01c04068 0x100010001 8
  let linked := counts.write 0x01c04074 0xffff 8
  let armed := linked.write 0x01c0407c 1 4
  armed.event 3

theorem run_latched : Run latched.1 latched.2 := by
  refine Kept.run_event (Kept.run_write (Kept.run_write (Kept.run_write .reset ?_) ?_) ?_) ?_ <;>
    decide +kernel

/-- Enabling the channel serves the latched event. -/
theorem balanced_of_run_enabled :
    (latched.write 0x01c01030 8 4).2.served 3 = 1 ∧ (latched.write 0x01c01030 8 4).2.requested 3 = 1 ∧
    Accounts (latched.write 0x01c01030 8 4).2 (latched.write 0x01c01030 8 4).1 :=
  ⟨by decide +kernel, by decide +kernel,
    balanced_of_run (Kept.run_write run_latched (by decide +kernel)) (by decide +kernel)⟩

/-- Triggering it by hand instead discards the event: two requests, one transfer, nothing
missed, cleared or latched. -/
theorem unbalanced_manual :
    ∃ s l, Run s l ∧ l.requested 3 = 2 ∧ l.served 3 = 1 ∧ s.transferRequests = 1 ∧ l.cleared 3 = 0 ∧
      s.er.getLsbD 3 = false ∧ s.emr.getLsbD 3 = false :=
  ⟨(latched.write 0x01c01010 8 4).1, (latched.write 0x01c01010 8 4).2,
    Kept.run_write run_latched (by decide +kernel), by decide +kernel⟩

end Runs

end Cdj2000Emulator.Edma.Events
