import Cdj2000Emulator.Usbh.Controller
import Mathlib.Data.List.Perm.Subperm

namespace Cdj2000Emulator.Usbh

open Function Library.Bytes

variable {s t : State} {p : Pipe} {nr fifo bps : ℕ} {now : ℤ} {entries : List Entry} {answer : Answer}

def lineRegisters : List ℕ :=
  [rIntenb0, rIntenb1, rBrdyenb, rNrdyenb, rBempenb, rIntsts0, rIntsts1, rBrdysts, rNrdysts, rBempsts]

/-- The module is put together from a few steps; what these keep, it keeps. -/
structure Kept (P : State → Prop) : Prop where
  act : ∀ s nr p entries, P s → P (s.act nr p entries)
  wr : ∀ s off value, off ∉ lineRegisters → P s → P (s.wr off value)
  wrLine : ∀ s off value, P s → P (s.wr off value).updateIrq
  dmaService : ∀ s now, ∀ fifo ∈ [1, 2], P s → P (s.dmaService now fifo)
  flags : ∀ s attached active resetDone setupPending, P s →
    P { s with attached := attached, active := active, resetDone := resetDone, setupPending := setupPending }

namespace Kept

variable {P : State → Prop} (k : Kept P)

include k

theorem pipeStatus {reg : ℕ} (h : P s) : P (s.pipeStatus reg nr) := k.wrLine _ _ _ h

theorem raise1 {bits : Half} (h : P s) : P (s.raise1 bits) := k.wrLine _ _ _ h

theorem dmaServiceAll (h : P s) : P (s.dmaServiceAll now) :=
  k.dmaService _ _ _ (by decide) (k.dmaService _ _ _ (by decide) h)

omit k in
theorem ite {c : Prop} [Decidable c] (h : P s) (h' : P t) : P (if c then s else t) := by
  split_ifs
  · exact h
  · exact h'

omit k in
theorem ite_of {c : Prop} [Decidable c] (h : c → P s) (h' : ¬c → P t) : P (if c then s else t) := by
  split_ifs with hc
  · exact h hc
  · exact h' hc

omit k in
theorem foldl {f : State → ℕ → State} (hf : ∀ s nr, P s → P (f s nr)) (nrs : List ℕ)
    (h : P s) : P (nrs.foldl f s) := by
  induction nrs generalizing s with
  | nil => exact h
  | cons nr nrs ih => exact ih (hf s nr h)

theorem fail {status : Status} (h : P s) : P (s.fail nr status) := by
  cases status with
  | nak => exact h
  | stall => exact k.pipeStatus (k.act _ _ _ _ h)
  | success | error => exact ite (k.act _ _ _ _ h) (k.pipeStatus (k.act _ _ _ _ h))

theorem packetFinish (h : P s) : P (s.packetFinish now nr) := by
  unfold State.packetFinish
  dsimp only
  split
  · exact k.raise1 (k.act _ _ _ _ h)
  · exact k.raise1 (k.act _ _ _ _ h)
  · exact k.dmaServiceAll (k.pipeStatus (k.act _ _ _ _ h))
  · have hempty {p : Pipe} {entries : List Entry} : P ((s.act nr p entries).pipeStatus rBempsts nr) :=
      k.pipeStatus (k.act _ _ _ _ h)
    exact ite (k.dmaServiceAll (ite (k.pipeStatus hempty) hempty)) (k.act _ _ _ _ h)
  · exact k.fail (k.act _ _ _ _ h)

theorem packetDone (h : P s) : P (s.packetDone bps now nr) := ite (k.act _ _ _ _ h) (k.packetFinish h)

theorem conclude {r : Reply} (h : P s) : P (s.conclude bps now nr r) := k.packetDone (k.act _ _ _ _ h)

theorem issue {pid : Token} {buffer : List Byte} {len : ℕ} (h : P s) :
    P (s.issue bps now nr pid buffer len answer) := by
  have hdone {p : Pipe} : P ((s.act nr p []).packetDone bps now nr) := k.packetDone (k.act _ _ _ _ h)
  unfold State.issue
  refine ite hdone ?_
  split
  · exact hdone
  · exact ite hdone (k.act _ _ _ _ h)
  · exact ite hdone (k.conclude (k.act _ _ _ _ h))

theorem timer {answers : ℕ → Answer} (h : P s) : P (s.timer bps now answer answers) := by
  have hrelease (s : State) (nr : ℕ) (h : P s) : P (s.releasePipe now nr) := ite (k.packetFinish (k.act _ _ _ _ h)) h
  have hreleased : P (s.releaseHeld now) := foldl hrelease _ h
  have hsetup : P ((s.releaseHeld now).setup bps now answer) :=
    ite (k.flags _ _ _ _ _ hreleased) (k.issue (k.act _ _ _ _ (k.flags _ _ _ _ _ hreleased)))
  have hrun (s : State) (nr : ℕ) (h : P s) : P (s.runPipe bps now (answers nr) nr) :=
    ite h (ite (ite h (k.issue h)) (ite h (k.issue h)))
  exact ite h (foldl hrun _ (k.dmaServiceAll (ite hsetup hreleased)))

theorem attach {speed : Speed} (h : P s) : P (s.attach speed) :=
  ite (k.raise1 (k.flags _ _ _ _ _ h)) (k.flags _ _ _ _ _ h)

theorem childDetach {theirs : ℕ → Bool} (h : P s) : P (s.childDetach theirs) :=
  foldl (fun _ _ h ↦ ite (ite (k.act _ _ _ _ h) h) h) _ h

theorem detach {theirs : ℕ → Bool} (h : P s) : P (s.detach theirs) :=
  k.raise1 (k.wr _ _ _ (by decide) (k.flags _ _ _ _ _ (k.childDetach h)))

theorem wakeup (h : P s) : P s.wakeup := ite h (k.raise1 h)

theorem pipectrWrite {value : Half} (h : P s) : P (s.pipectrWrite nr value) := by
  have hrequest {t : State} (ht : P t) (pending : Bool) (ctr : Half) :
      P { t.act 0 { t.pipe 0 with ctr := ctr } [] with setupPending := pending } :=
    k.flags _ _ _ _ _ (k.act _ _ _ _ ht)
  have hasked : P (s.requestSetup value) := ite (hrequest (ite (hrequest h _ _) h) _ _) (ite (hrequest h _ _) h)
  have hfirst : P (if nr = 0 then s.requestSetup value
      else if value &&& 0x0200 ≠ 0 then s.act nr (s.pipe nr).rxClear.txClear [.readCleared, .writeCleared]
      else s) := ite hasked (ite (k.act _ _ _ _ h) h)
  exact ite (k.act _ _ _ _ hfirst) (k.act _ _ _ _ hfirst)

theorem fifoctrWrite {value : Half} (h : P s) : P (s.fifoctrWrite fifo value) := by
  unfold State.fifoctrWrite
  split
  · exact h
  · have hcleared {nr : ℕ} : P (if value &&& 0x4000 ≠ 0 then
      s.act nr (s.pipe nr).txClear [.writeCleared] else s) :=
      ite (k.act _ _ _ _ h) h
    exact ite (ite (k.act _ _ _ _ hcleared) hcleared) (ite (k.act _ _ _ _ h) h)

omit k in
theorem notMem_of_decode {offset : ℕ} (h : decode offset ∉ [Register.intsts0, .intsts1, .enable offset,
    .pipeSts offset]) :
    offset ∉ lineRegisters := by
  intro hmem
  simp only [lineRegisters, List.mem_cons, List.not_mem_nil, or_false] at hmem
  rcases hmem with rfl | rfl | rfl | rfl | rfl | rfl | rfl | rfl | rfl | rfl <;> exact h (by decide)

theorem writeRegister {offset : ℕ} {value : Half} (h : P s) : P (s.writeRegister offset value) := by
  unfold State.writeRegister
  split
  · have hwritten : P (s.wr rSyscfg value) := k.wr _ _ _ (by decide) h
    exact ite (k.raise1 hwritten) hwritten
  · have hwritten {v : Half} : P (s.wr rDvstctr v) := k.wr _ _ _ (by decide) h
    exact ite (k.flags _ _ _ _ _ hwritten) hwritten
  · exact k.fifoctrWrite h
  · exact k.wrLine _ _ _ h
  · exact k.wrLine _ _ _ h
  · exact k.wrLine _ _ _ h
  · exact k.wrLine _ _ _ h
  · exact k.pipectrWrite h
  · split
    · exact h
    · exact k.act _ _ _ _ h
  · exact h
  · exact k.act _ _ _ _ h
  · exact k.act _ _ _ _ h
  · refine k.wr _ _ _ (notMem_of_decode fun hmem ↦ ?_) h
    simp_all

theorem write {offset value size : ℕ} (h : P s) : P (s.write offset value size) := by
  unfold State.write State.fifoWrite
  split
  · split
    · exact h
    · exact ite h (k.act _ _ _ _ h)
  · exact k.writeRegister h

theorem read {offset size : ℕ} (h : P s) : P (s.read now offset size).2 := by
  unfold State.read State.fifoRead
  split
  · split
    · exact h
    · split_ifs
      · exact h
      · exact k.act _ _ _ _ h
  · exact h

theorem step (h : P s) (hreset : P s.reset) (hstored : ∀ memory, P { s with memory := memory }) {e : Event}
    (hstart : ∀ now offset toFifo memory nrBytes channel,
      e = .dmaStart now offset toFifo memory nrBytes channel → P (s.step bps e)) : P (s.step bps e) := by
  cases e with
  | timer now setupAnswer answers => exact k.timer h
  | complete now nr reply => exact ite (k.conclude h) h
  | read now offset size => exact k.read h
  | write offset value size => exact k.write h
  | dmaStart now offset toFifo memory nrBytes channel => exact hstart _ _ _ _ _ _ rfl
  | attach speed => exact k.attach h
  | detach theirs => exact k.detach h
  | childDetach theirs => exact k.childDetach h
  | wakeup => exact k.wakeup h
  | reset => exact hreset
  | stored memory => exact hstored memory

end Kept

namespace State

section Line

/-- The interrupt line shows the enabled causes. -/
def LineExact (s : State) : Prop := s.irqLevel = s.level

theorem level_congr (h : ∀ off ∈ lineRegisters, t.reg off = s.reg off) : t.level = s.level := by
  simp only [lineRegisters, List.forall_mem_cons, List.not_mem_nil, false_implies, implies_true, and_true] at h
  simp only [level, intsts0, rd, h]

theorem LineExact.of_same (h : s.LineExact) (hreg : t.reg = s.reg) (hirq : t.irqLevel = s.irqLevel) : t.LineExact := by
  rw [LineExact, hirq, h, level_congr fun off _ ↦ congrFun hreg off]

theorem dmaService_same : (s.dmaService now fifo).reg = s.reg ∧ (s.dmaService now fifo).irqLevel = s.irqLevel := by
  let Same (t : State) : Prop := t.reg = s.reg ∧ t.irqLevel = s.irqLevel
  have hself : Same s := ⟨rfl, rfl⟩
  have hmoved (nr : ℕ) : Same (if (s.dma fifo).toFifo then s.dmaFill now fifo nr else s.dmaDrain fifo nr) :=
    Kept.ite (Kept.ite ⟨rfl, rfl⟩ hself) (Kept.ite ⟨rfl, rfl⟩ hself)
  unfold dmaService
  refine Kept.ite (P := Same) hself ?_
  split
  · exact hself
  · exact Kept.ite (P := Same) (hmoved _) (hmoved _)

theorem kept_lineExact : Kept LineExact where
  act _ _ _ _ h := h.of_same rfl rfl
  wr s off value hoff h := by
    refine h.trans (level_congr fun other hother ↦ ?_).symm
    have hne : other ≠ off := by
      rintro rfl
      exact hoff hother
    exact update_of_ne hne _ _
  wrLine _ _ _ _ := rfl
  dmaService _ _ _ _ h := h.of_same dmaService_same.1 dmaService_same.2
  flags _ _ _ _ _ h := h.of_same rfl rfl

theorem level_of_zero (h : s.reg = fun _ ↦ 0) : s.level = false := by
  simp only [level, intsts0, rd, h]
  decide

theorem reset_lineExact : s.reset.LineExact := by
  have hreg (nrs : List ℕ) (t : State) : (nrs.foldl (fun s nr ↦ s.resetPipe nr) t).reg = t.reg := by
    induction nrs generalizing t with
    | nil => rfl
    | cons nr nrs ih => exact (ih _).trans rfl
  have hzero : s.reset.reg = fun _ ↦ 0 := hreg _ _
  exact (level_of_zero hzero).symm

variable (memory : ℕ → Byte) (bps : ℕ) (events : List Event)

/-- In every state that the module can reach, the interrupt line is up exactly when a cause that is
enabled is pending. -/
theorem line_follows_causes : ((initial memory).run bps events).irqLevel = ((initial memory).run bps events).level := by
  have hstep (s : State) (e : Event) (h : s.LineExact) : (s.step bps e).LineExact := by
    refine kept_lineExact.step h reset_lineExact (fun _ ↦ h.of_same rfl rfl) ?_
    rintro now offset toFifo memory nrBytes channel rfl
    exact kept_lineExact.dmaService _ _ _ (by split_ifs <;> decide) (h.of_same rfl rfl)
  have hrun (events : List Event) (s : State) (h : s.LineExact) : (s.run bps events).LineExact := by
    induction events generalizing s with
    | nil => exact h
    | cons e events ih => exact ih _ (hstep s e h)
  exact hrun events _ (level_of_zero rfl).symm

end Line

section Dma

def handedOver : Event → List (ℕ × ℕ)
  | .dmaStart _ _ _ _ nrBytes channel => [(channel, nrBytes)]
  | _ => []

def transfer (dma : Dma) : List (ℕ × ℕ) := if dma.active then [(dma.channel, dma.moved + dma.remaining)] else []

def Accounted (started : List (ℕ × ℕ)) (s : State) : Prop := ∀ x,
  s.done.count x + ((transfer (s.dma 1)).count x + (transfer (s.dma 2)).count x) ≤ started.count x

variable {started : List (ℕ × ℕ)}

theorem Accounted.of_same (h : s.Accounted started) (hdone : t.done = s.done)
    (hdma : ∀ m, transfer (t.dma m) = transfer (s.dma m)) : t.Accounted started := by
  intro x
  rw [hdone, hdma, hdma]
  exact h x

theorem transfer_dmaAdvance {n m : ℕ} (h : n ≤ (s.dma fifo).remaining) :
    transfer ((s.dmaAdvance fifo n).dma m) = transfer (s.dma m) := by
  by_cases hm : m = fifo
  · subst hm
    simp only [dmaAdvance, update_self, transfer]
    rw [show (s.dma m).moved + n + ((s.dma m).remaining - n) = (s.dma m).moved + (s.dma m).remaining by omega]
  · simp only [dmaAdvance, update_of_ne hm]

theorem dmaMoved_same (s : State) (now : ℤ) (fifo nr m : ℕ) :
    let t := if (s.dma fifo).toFifo then s.dmaFill now fifo nr else s.dmaDrain fifo nr
    t.done = s.done ∧ transfer (t.dma m) = transfer (s.dma m) := by
  refine Kept.ite (P := fun t ↦ t.done = s.done ∧ transfer (t.dma m) = transfer (s.dma m)) ?_ ?_
  · exact Kept.ite (P := fun t ↦ t.done = s.done ∧ transfer (t.dma m) = transfer (s.dma m))
      ⟨rfl, transfer_dmaAdvance le_rfl⟩ ⟨rfl, rfl⟩
  · exact Kept.ite (P := fun t ↦ t.done = s.done ∧ transfer (t.dma m) = transfer (s.dma m))
      ⟨rfl, transfer_dmaAdvance (min_le_right _ _)⟩ ⟨rfl, rfl⟩

theorem Accounted.dmaFinish (h : s.Accounted started) (hfifo : fifo ∈ [1, 2]) (hrest : (s.dma fifo).remaining = 0)
    (hactive : transfer (s.dma fifo) ≠ []) : (s.dmaFinish fifo).Accounted started := by
  have htransfer : transfer (s.dma fifo) = [((s.dma fifo).channel, (s.dma fifo).moved)] := by
    unfold transfer at hactive ⊢
    split_ifs at hactive ⊢
    · rw [hrest, Nat.add_zero]
    · exact absurd rfl hactive
  have hover : transfer ((s.dmaFinish fifo).dma fifo) = [] := by
    simp only [State.dmaFinish, update_self, transfer]
    rfl
  have hother {m : ℕ} (hm : m ≠ fifo) : transfer ((s.dmaFinish fifo).dma m) = transfer (s.dma m) := by
    simp only [State.dmaFinish, update_of_ne hm]
  have hdone : (s.dmaFinish fifo).done = s.done ++ transfer (s.dma fifo) := by rw [htransfer]; rfl
  intro x
  have hx := h x
  rw [hdone, List.count_append]
  simp only [List.mem_cons, List.not_mem_nil, or_false] at hfifo
  rcases hfifo with rfl | rfl
  · rw [hover, hother (by decide), List.count_nil]
    omega
  · rw [hover, hother (by decide), List.count_nil]
    omega

theorem Accounted.dmaService (h : s.Accounted started) (hfifo : fifo ∈ [1, 2]) :
    (s.dmaService now fifo).Accounted started := by
  unfold State.dmaService
  refine Kept.ite_of (fun _ ↦ h) fun hidle ↦ ?_
  split
  · exact h
  · rename_i nr _
    have hactive : transfer (s.dma fifo) ≠ [] := by
      rw [Bool.or_eq_true, not_or, Bool.not_eq_true, Bool.not_eq_false'] at hidle
      rw [transfer, if_pos hidle.1]
      exact List.cons_ne_nil _ _
    have hsame := dmaMoved_same s now fifo nr
    have hmoved := h.of_same (hsame 0).1 fun m ↦ (hsame m).2
    exact Kept.ite_of (fun hrest ↦ hmoved.dmaFinish hfifo hrest ((hsame fifo).2.symm ▸ hactive)) fun _ ↦ hmoved

theorem kept_accounted : Kept (Accounted started) where
  act _ _ _ _ h := h
  wr _ _ _ _ h := h
  wrLine _ _ _ h := h
  dmaService _ _ _ hfifo h := h.dmaService hfifo
  flags _ _ _ _ _ h := h

theorem Accounted.reset (h : s.Accounted started) : s.reset.Accounted started := by
  have hdone (nrs : List ℕ) (t : State) : (nrs.foldl (fun s nr ↦ s.resetPipe nr) t).done = t.done := by
    induction nrs generalizing t with
    | nil => rfl
    | cons nr nrs ih => exact (ih _).trans rfl
  intro x
  have hx := h x
  have hsame : s.reset.done = s.done := hdone _ _
  have hover (m : ℕ) : transfer (s.reset.dma m) = [] := rfl
  rw [hsame, hover, hover, List.count_nil]
  omega

theorem Accounted.step (h : s.Accounted started) (e : Event) : (s.step bps e).Accounted (started ++ handedOver e) := by
  have hmore : s.Accounted (started ++ handedOver e) := fun x ↦ (h x).trans (by simp)
  refine kept_accounted.step hmore hmore.reset (fun _ ↦ hmore) ?_
  rintro now offset toFifo memory nrBytes channel rfl
  have hnew : transfer ⟨true, toFifo, memory, nrBytes, 0, channel⟩ = [(channel, nrBytes)] := by simp [transfer]
  refine Accounted.dmaService (fun x ↦ ?_) (by split_ifs <;> decide)
  have hx := h x
  rw [List.count_append, handedOver]
  dsimp only
  by_cases hoffset : offset = 0x1c0
  · rw [if_pos hoffset, update_self, update_of_ne (by decide), hnew]
    omega
  · rw [if_neg hoffset, update_self, update_of_ne (by decide), hnew]
    omega

variable (memory : ℕ → Byte) (bps : ℕ) (events : List Event)

theorem completions_accounted (transfer : ℕ × ℕ) :
    ((initial memory).run bps events).done.count transfer ≤ (events.flatMap handedOver).count transfer := by
  have hrun (events : List Event) (s : State) (started : List (ℕ × ℕ)) (h : s.Accounted started) :
      (s.run bps events).Accounted (started ++ events.flatMap handedOver) := by
    induction events generalizing s started with
    | nil => rwa [List.flatMap_nil, List.append_nil]
    | cons e events ih =>
      rw [List.flatMap_cons, ← List.append_assoc]
      exact ih _ _ (h.step e)
  have haccounted := hrun events (initial memory) [] (fun _ ↦ le_rfl) transfer
  rw [List.nil_append] at haccounted
  omega

end Dma

end State

end Cdj2000Emulator.Usbh
