import Cdj2000Emulator.Board.Transaction

namespace Cdj2000Emulator.Board.Staging

open Transaction Mcasp.Control Edma.Simulation
open Memory hiding Word
open Library.Bytes.Block (put slice)
open Edma.Model (C6747Edma takeIrqNotification)

/-- A simulation that also shares the McASP registers. -/
structure ClientSimulation {β γ : Type} (client : Client β) (client' : Client γ) (R : β → γ → Prop) :
    Prop extends BusSimulation client.toBus client'.toBus R where
  mcasp : ∀ {b c}, R b c → client.mcasp b = client'.mcasp c
  setMcasp : ∀ {b c} (x : C6747McaspControl), R b c → R (client.setMcasp x b) (client'.setMcasp x c)

section Client

variable {β γ : Type} {client : Client β} {client' : Client γ} {R : β → γ → Prop} {b : β} {c : γ}

theorem serveInstance_same (sim : ClientSimulation client client' R) (inst channel rounds : ℕ)
    (s : C6747Edma) (h : R b c) :
    SameCall R (serveInstance client inst channel rounds (s, b))
      (serveInstance client' inst channel rounds (s, c)) := by
  induction rounds generalizing s b c with
  | zero => exact sameCall_of true s h
  | succ rounds ih =>
    have ready : client.mcasp b = client'.mcasp c := sim.mcasp h
    simp only [serveInstance, ready]
    split
    · obtain ⟨ok, t, b₁, c₁, hb, hc, h₁⟩ := (event_same sim.toBusSimulation s channel h).parts
      have after : client.mcasp b₁ = client'.mcasp c₁ := sim.mcasp h₁
      simp only [hb, hc]
      cases ok with
      | false => exact sameCall_of false t h₁
      | true =>
        simp only [after]
        split
        · exact sameCall_of true t h₁
        · exact ih t h₁
    · exact sameCall_of true s h

theorem serviceMcaspAxevt_same (sim : ClientSimulation client client' R) (s : C6747Edma) (h : R b c) :
    SameCall R (serviceMcaspAxevt client (s, b)) (serviceMcaspAxevt client' (s, c)) := by
  obtain ⟨ok, t, b₁, c₁, hb, hc, h₁⟩ := (serveInstance_same sim 1 3 16 s h).parts
  simp only [serviceMcaspAxevt, hb, hc]
  cases ok with
  | false => exact sameCall_of false t h₁
  | true => exact serveInstance_same sim 2 5 16 t h₁

theorem writeRegister_same (sim : ClientSimulation client client' R) (s : C6747Edma)
    (edmaAccess : Bool) (address : Word) (value : BitVec 64) (size : ℕ) (h : R b c) :
    SameCall R (writeRegister client (s, b) edmaAccess address value size)
      (writeRegister client' (s, c) edmaAccess address value size) := by
  cases edmaAccess with
  | true => exact write_same sim.toBusSimulation s address value size true h
  | false =>
    have shared : client.mcasp b = client'.mcasp c := sim.mcasp h
    simp only [writeRegister, shared]
    exact sameCall_of _ s (sim.setMcasp _ h)

theorem writeAndService_same (sim : ClientSimulation client client' R) (s : C6747Edma)
    (edmaAccess : Bool) (address : Word) (value : BitVec 64) (size : ℕ) (h : R b c) :
    SameCall R (writeAndService client (s, b) edmaAccess address value size)
      (writeAndService client' (s, c) edmaAccess address value size) := by
  obtain ⟨ok, t, b₁, c₁, hb, hc, h₁⟩ :=
    (writeRegister_same sim s edmaAccess address value size h).parts
  simp only [writeAndService, hb, hc]
  cases ok with
  | false => exact sameCall_of false t h₁
  | true => exact serviceMcaspAxevt_same sim t h₁

end Client

def Mirrors (memories : Memories) (c : EdmaBusContext) (d : DirectContext) : Prop :=
  c.mcasp = d.mcasp ∧ EdmaStagedWrite.replay c.writes memories = d.memories

theorem staged_simulates (cache : C6747Cache) (emifb : C6747Emifb) (memories : Memories) :
    ClientSimulation (staged cache emifb memories) (direct cache emifb) (Mirrors memories) where
  read := by
    intro c d h address n
    simp only [staged, direct]
    cases hspan : dspMemorySpan cache emifb address n with
    | none => exact ⟨rfl, h⟩
    | some span =>
      obtain ⟨r, o⟩ := span
      have inside : o + n ≤ r.size := dspMemorySpan_inside hspan
      refine ⟨?_, h⟩
      dsimp only
      rw [← EdmaStagedWrite.slice_replay c.writes memories inside, h.2]
  write := by
    intro c d h address n bytes commit
    obtain ⟨hmcasp, hmemories⟩ := h
    simp only [staged, direct]
    cases hspan : dspMemorySpan cache emifb address n with
    | none =>
      dsimp only
      rw [hmcasp]
      exact ⟨rfl, rfl, hmemories⟩
    | some span =>
      obtain ⟨r, o⟩ := span
      refine ⟨rfl, ?_⟩
      cases commit with
      | false => exact ⟨hmcasp, hmemories⟩
      | true =>
        refine ⟨hmcasp, ?_⟩
        simp only [if_true]
        rw [EdmaStagedWrite.replay_append, hmemories]
        rfl
  mcasp := fun h ↦ h.1
  setMcasp := fun _ h ↦ ⟨rfl, h.2⟩

variable {s : NxsHpi} {edmaAccess : Bool} {address : Word} {value : BitVec 64} {size : ℕ}

/-- A write outside the window is refused by the device as well. -/
theorem directWrite_unmapped (h : mapped edmaAccess address size = false) :
    (directWrite s edmaAccess address value size).1 = false := by
  have refused {β : Type} (client : Client β) (m : C6747Edma × β) :
      (writeRegister client m edmaAccess address value size).1 = false := by
    cases edmaAccess with
    | true =>
      simp only [mapped, Edma.Model.writeMapped, if_true, decide_eq_false_iff_not, not_and_or] at h
      simp only [writeRegister, if_true, Edma.Model.write]
      cases hl : Edma.Model.locate address with
      | none => rfl
      | some o =>
        have wrong : size ≠ 4 ∧ size ≠ 8 := by simpa [hl] using h
        have misfit : Edma.Model.misfit o value size = true := by simp [Edma.Model.misfit, wrong]
        dsimp only
        rw [if_pos misfit]
    | false =>
      simp only [mapped, writeMapped, Bool.false_eq_true, if_false, decide_eq_false_iff_not,
        not_and_or] at h
      simp only [writeRegister, Bool.false_eq_true, if_false, controlWrite]
      split
      · rfl
      · rename_i fits
        cases hl : locate address with
        | none => rfl
        | some o => simp_all
  unfold directWrite writeAndService
  split
  · rfl
  · rename_i m' hw
    have contradiction := refused (direct s.cache s.emifb) (s.edma, ⟨s.mcaspControl, s.memories⟩)
    rw [hw] at contradiction
    cases contradiction

/-- What the transaction leaves, when the direct write succeeds. -/
def committed (s : NxsHpi) (m : C6747Edma × DirectContext) : NxsHpi :=
  deliverEdmaNotifications { s with
    edma := m.1, mcaspControl := m.2.mcasp, memories := m.2.memories }

theorem edmaMcaspTransaction_eq (commit : Bool) :
    edmaMcaspTransaction s edmaAccess address value size commit =
      ((directWrite s edmaAccess address value size).1,
        if (directWrite s edmaAccess address value size).1 && commit then
          committed s (directWrite s edmaAccess address value size).2 else s) := by
  unfold edmaMcaspTransaction
  cases hmapped : mapped edmaAccess address size with
  | false =>
    rw [directWrite_unmapped hmapped]
    rfl
  | true =>
    have start : Mirrors s.memories ⟨s.mcaspControl, []⟩ ⟨s.mcaspControl, s.memories⟩ := ⟨rfl, rfl⟩
    obtain ⟨ok, edma, c, d, hc, hd, same⟩ := (writeAndService_same
      (staged_simulates s.cache s.emifb s.memories) s.edma edmaAccess address value size start).parts
    have hd : directWrite s edmaAccess address value size = (ok, edma, d) := hd
    simp only [if_true, hc, hd]
    cases ok with
    | false => rfl
    | true =>
      cases commit with
      | false => rfl
      | true =>
        simp only [Bool.and_self, if_true, committed, same.1, same.2]

/-- Checked or committed, the transaction answers as the direct write does. A check or a
refusal changes nothing; a commit leaves the McASP and every memory byte as the direct write
does, and the EDMA with its region-1 notification handed on to the interrupt controller. -/
theorem transaction_is_direct (s : NxsHpi) (edmaAccess : Bool) (address : Word) (value : BitVec 64)
    (size : ℕ) :
    let check := edmaMcaspTransaction s edmaAccess address value size false
    let commit := edmaMcaspTransaction s edmaAccess address value size true
    let result := directWrite s edmaAccess address value size
    check.1 = result.1 ∧ commit.1 = result.1 ∧ check.2 = s ∧ (commit.1 = false → commit.2 = s) ∧
      (commit.1 = true →
        commit.2.mcaspControl = result.2.2.mcasp ∧
        (∀ r i, commit.2.memories r i = result.2.2.memories r i) ∧
        commit.2.edma = (takeIrqNotification result.2.1 1).2 ∧
        commit.2.cache = s.cache ∧ commit.2.emifb = s.emifb) := by
  intro check commit result
  have hcheck : check = (result.1, s) := by simp [check, result, edmaMcaspTransaction_eq]
  have hcommit : commit = (result.1, if result.1 then committed s result.2 else s) := by
    simp [commit, result, edmaMcaspTransaction_eq]
  rw [hcheck, hcommit]
  refine ⟨rfl, rfl, rfl, ?_, ?_⟩
  · intro refused
    simp only at refused
    simp [refused]
  · intro accepted
    simp only at accepted
    simp only [accepted, if_true, committed, deliverEdmaNotifications]
    rcases takeIrqNotification result.2.1 1 with ⟨_ | _, edma⟩
    · exact ⟨rfl, fun _ _ ↦ rfl, rfl, rfl, rfl⟩
    · exact ⟨rfl, fun _ _ ↦ rfl, rfl, rfl, rfl⟩

/-- Region 1 has a completion interrupt it has not been told of again. -/
def pendingRegion : NxsHpi where
  edma := { Edma.Model.reset with ipr := 1, ier := 1, drae := fun r ↦ if r = 1 then 1 else 0 }
  mcaspControl := reset
  cache := ⟨7⟩
  emifb := ⟨0⟩
  intc := ⟨fun _ ↦ 0, fun _ ↦ 0, fun _ ↦ 0, 0⟩
  memories := fun _ _ ↦ 0

/-- An IEVAL write asks for the notification, which the transaction has already handed on. -/
theorem transaction_takes_notification :
    let commit := edmaMcaspTransaction pendingRegion true 0x01c02278 1 4 true
    let result := directWrite pendingRegion true 0x01c02278 1 4
    commit.1 = true ∧ result.1 = true ∧ commit.2.edma ≠ result.2.1 := by
  refine ⟨by decide +kernel, by decide +kernel, fun h ↦ ?_⟩
  exact absurd (congrArg C6747Edma.irqNotifications h) (by decide +kernel)

end Cdj2000Emulator.Board.Staging
