import Cdj2000Emulator.C674x.TaskState

namespace Cdj2000Emulator.C674x.LoopDrain

open Library.Stateful LoopBuffer.Model State Transfer Operands Execute Interrupt LoopStep Step Boundary TaskState

variable {β : Type} {u : Arithmetic} {bus : Bus β} {functional : Bool} {entry : Word} {cpu armed : Cpu}
  {pending : Word}

/-- A call of `cdj_c674x_interrupt` that arms an interrupt. -/
structure Arms (functional : Bool) (cpu : Cpu) (pending : Word) (armed : Cpu) : Prop where
  call : interrupt functional cpu pending = (armed, true)
  before : cpu.context.armed = false
  after : armed.context.armed = true

/-- What arming has checked of the loop, and what it leaves alone. -/
structure Checked (cpu armed : Cpu) : Prop where
  passes : armable armed = true
  loop : armed.loop = cpu.loop
  reload : armed.context.immediateReload = false
  active : armed.loopActive = true

theorem armLoop_checked (hbefore : cpu.context.armed = false) (h : armLoop cpu = .ok armed)
    (hafter : armed.context.armed = true) (hactive : cpu.loopActive = true) : Checked cpu armed := by
  have hunarmed (h : (.ok cpu : Except Fault Cpu) = .ok armed) : False := by
    cases h
    rw [hbefore] at hafter
    cases hafter
  unfold armLoop at h
  dsimp only at h
  by_cases hreload : cpu.context.immediateReload = true
  · rw [if_pos hreload] at h
    cases h
  rw [if_neg hreload] at h
  by_cases hphase : cpu.context.armed = true ∨ cpu.context.draining = true
  · rw [if_pos hphase] at h
    exact (hunarmed h).elim
  rw [if_neg hphase] at h
  by_cases hpasses : armable cpu = true
  case neg =>
    rw [if_pos hpasses] at h
    exact (hunarmed h).elim
  rw [if_neg (not_not.mpr hpasses)] at h
  by_cases hvalid : cpu.context.valid = true
  case neg =>
    rw [if_pos hvalid] at h
    cases h
  rw [if_neg (not_not.mpr hvalid)] at h
  cases hcapture : cpu.loopCaptureRetained with
  | none =>
    rw [hcapture] at h
    cases h
  | some out =>
    rw [hcapture] at h
    cases h
    unfold Cpu.loopCaptureRetained at hcapture
    split_ifs at hcapture
    cases hcapture
    exact ⟨hpasses, rfl, eq_false_of_ne_true hreload, hactive⟩

theorem enter_unarmed (hbefore : cpu.context.armed = false) : (enter functional cpu).1.context.armed = false := by
  unfold enter
  split_ifs
  · exact hbefore
  · extract_lets selected interruptedLoop cleared taken out
    cases hdown : interruptPipeDown functional out with
    | none => rfl
    | some done =>
      cases functional with
      | false =>
        cases hdown
        rfl
      | true =>
        simp only [interruptPipeDown, Bool.not_true, Bool.false_eq_true, if_false, Option.ite_none_left_eq_some,
          Option.some.injEq] at hdown
        rw [← hdown.2]
        rfl

theorem Arms.checked (h : Arms functional cpu pending armed) : Checked cpu armed := by
  obtain ⟨hcall, hbefore, hafter⟩ := h
  have hunarmed {out : Cpu} (heq : (out, true) = (armed, true)) (hout : out.context.armed = false) : False := by
    cases heq
    rw [hout] at hafter
    cases hafter
  unfold interrupt at hcall
  by_cases hstopped : cpu.fault.isSome = true
  · rw [if_pos hstopped] at hcall
    cases hcall
  rw [if_neg hstopped] at hcall
  by_cases hinvalid : pending &&& ~~~maskable ≠ 0
  · rw [if_pos hinvalid] at hcall
    cases hcall
  rw [if_neg hinvalid] at hcall
  extract_lets out at hcall
  by_cases hmasked : out.control 1 &&& 1#32 = 0 ∨ out.control 4 &&& 2#32 = 0 ∨ eligible out = 0
  · rw [if_pos hmasked] at hcall
    refine (hunarmed hcall ?_).elim
    split_ifs
    · rfl
    · exact hbefore
  rw [if_neg hmasked] at hcall
  by_cases hbranching : out.branchDue ≠ 0 ∨ out.branchQueue ≠ []
  · rw [if_pos hbranching] at hcall
    exact (hunarmed hcall hbefore).elim
  rw [if_neg hbranching] at hcall
  by_cases hlooping : out.loopActive = true
  · rw [if_pos hlooping] at hcall
    cases harm : armLoop out with
    | error e =>
      rw [harm] at hcall
      cases hcall
    | ok done =>
      rw [harm] at hcall
      cases hcall
      have hchecked : Checked out armed := armLoop_checked hbefore harm hafter hlooping
      obtain ⟨hpasses, hloop, hreload, hactive⟩ := hchecked
      exact ⟨hpasses, hloop, hreload, hactive⟩
  · rw [if_neg hlooping] at hcall
    have hentered : (enter functional out).1 = armed := congrArg Prod.fst hcall
    have hout : (enter functional out).1.context.armed = false := enter_unarmed hbefore
    rw [hentered, hafter] at hout
    cases hout

/-- The loop that the next loop step hands to `cdj_c674x_loop_interrupt_drain`. -/
inductive DrainCall (u : Arithmetic) (bus : Bus β) (functional : Bool) (cpu : Cpu) (s : β) : Loop → Prop
  | made {c : Cycle} {out : Cpu} {trace : Trace} {s₁ s₂ : β} :
      loopCycle bus functional cpu s = (s₁, .ok c) → c.out.context.armed = true →
      execute u bus c.out c.packet s₁ = (s₂, .ok (out, trace)) →
      DrainCall u bus functional cpu s (ilcUpdate c true c.out.context.draining
        (if c.out.context.immediateReload ∧ cpu.branchDue ≠ 0 ∧ cpu.branchDue = cpu.cycles + 1 then
          keepReloading out else out)).loop

theorem loopSource_sealed (hsealed : cpu.loop.sealed = true) :
    Machine.Always (fun source ↦ source.out.loop = cpu.loop ∧
      source.out.context.immediateReload = cpu.context.immediateReload) (fun _ ↦ True)
        (loopSource bus functional cpu) := by
  have htick (out : Cpu) : (idleTick out).loop = out.loop ∧ (idleTick out).context = out.context := by
    unfold idleTick
    split_ifs
    · exact ⟨rfl, rfl⟩
    · exact ⟨rfl, rfl⟩
  unfold loopSource
  dsimp only
  have hsplx : (cpu.setControl 26 (cpu.control 26 ||| tsrSplx)).loop.sealed = true := hsealed
  rw [if_pos hsplx]
  refine Machine.Always.bind (P := fun source ↦ source.out.loop = cpu.loop ∧
    source.out.context.immediateReload = cpu.context.immediateReload)
      (Machine.always_pure ⟨rfl, rfl⟩) fun source hsource ↦ ?_
  refine Machine.always_ite (fun _ ↦ ?_) fun _ ↦ Machine.always_pure ?_
  · refine (always_any _).bind fun packet _ ↦ ?_
    dsimp only
    split
    · exact Machine.always_fail trivial
    · exact Machine.always_pure hsource
  · exact ⟨(htick _).1.trans hsource.1, (congrArg LoopContext.immediateReload (htick _).2).trans hsource.2⟩

theorem loopCycle_sealed (hsealed : cpu.loop.sealed = true) (hreload : cpu.context.immediateReload = false) :
    Machine.Always (fun c ↦ c.out.loop = { cpu.loop with cycle := cpu.loop.cycle + 1 } ∧
      c.out.context.immediateReload = false) (fun _ ↦ True) (loopCycle bus functional cpu) := by
  refine (loopSource_sealed hsealed).bind fun source hsource ↦ ?_
  have hkind : source.out.context.immediateReload = false := hsource.2.trans hreload
  refine Machine.Always.bind (P := fun issued ↦ issued.1.loop = { cpu.loop with cycle := cpu.loop.cycle + 1 } ∧
    issued.1.context.immediateReload = false) (Machine.always_ofExcept ?_) fun issued hissued ↦
      Machine.always_ofExcept ?_
  · unfold issueLoop
    dsimp only
    split
    · trivial
    · next issue loop hissue =>
      rw [if_neg (by simp [hkind])] at hissue
      refine yields_ite (fun _ ↦ trivial) fun _ ↦ yields_ite (fun _ ↦ trivial) fun _ ↦ ⟨?_, hkind⟩
      rw [← hsource.1]
      exact issueFiltered_iterations hissue
  · unfold sampleCondition
    refine yields_ite (fun _ ↦ trivial) fun _ ↦ ?_
    rw [if_neg (by simp [hissued.2])]
    exact hissued

theorem DrainCall.loop_eq {s : β} {loop : Loop} (h : DrainCall u bus functional cpu s loop)
    (hsealed : cpu.loop.sealed = true) (hreload : cpu.context.immediateReload = false) :
    loop = { cpu.loop with cycle := cpu.loop.cycle + 1 } := by
  obtain ⟨hcycle, -, hexecute⟩ := h
  next c out trace s₁ s₂ =>
  obtain ⟨hloop, hkind⟩ := (loopCycle_sealed hsealed hreload).ok_of_run hcycle
  have hrun := execute_executed hexecute
  have hplain : ¬(c.out.context.immediateReload = true ∧ cpu.branchDue ≠ 0 ∧
      cpu.branchDue = cpu.cycles + 1) := by
    simp [hkind]
  rw [if_neg hplain]
  have hout : ¬out.context.immediateReload = true := by simp [hrun.reload, hkind]
  unfold ilcUpdate
  rw [if_neg hout, ← hloop, ← hrun.loop]
  split_ifs <;> rfl

/-- At a stage boundary within the count, the last launched iteration outlasts the stage when the
body fills it. -/
theorem interruptDrain_iff {loop : Loop} (hsealed : loop.sealed = true) (hii : ¬loop.ii = 0)
    (hboundary : (loop.cycle + 1) % loop.ii = 0) (hrunning : loop.cycle < loop.iterations * loop.ii)
    (hcount : loop.iterations < 2 ^ 32) :
    (Loop.interruptDrain { loop with cycle := loop.cycle + 1 }).isSome = true ↔ loop.ii ≤ loop.length := by
  obtain ⟨launched, hlaunched⟩ := Nat.dvd_of_mod_eq_zero hboundary
  have hdiv : (loop.cycle + 1) / loop.ii = launched := by
    rw [hlaunched, Nat.mul_div_cancel_left _ (Nat.pos_of_ne_zero hii)]
  have hfew : launched ≤ loop.iterations := by
    refine Nat.le_of_mul_le_mul_left ?_ (Nat.pos_of_ne_zero hii)
    rw [← hlaunched, Nat.mul_comm]
    exact hrunning
  obtain ⟨n, rfl⟩ : ∃ n, launched = n + 1 := by
    refine Nat.exists_eq_succ_of_ne_zero ?_
    rintro rfl
    omega
  unfold Loop.interruptDrain
  dsimp only
  rw [if_neg (by simp [hsealed, hii, hboundary]), hdiv, if_neg (by omega)]
  have hlast : (n + 1 - 1) * loop.ii + loop.length < loop.cycle + 1 ↔ loop.length < loop.ii := by
    rw [hlaunched, Nat.add_sub_cancel, Nat.mul_add, Nat.mul_one, Nat.mul_comm]
    exact Nat.add_lt_add_iff_left
  rw [← not_lt, ← hlast]
  split_ifs with hshort
  · exact iff_of_false Bool.false_ne_true (not_not.mpr hshort)
  · exact iff_of_true rfl hshort

/-- The drain of an armed unconditional loop is accepted exactly when the body is at least one
stage long. -/
theorem drain_accepted_iff {s : β} {loop : Loop} (h : Reachable u bus functional entry cpu)
    (harm : Arms functional cpu pending armed) (hkind : armed.loop.predicateLoop = false)
    (hcall : DrainCall u bus functional armed s loop) :
    loop.interruptDrain.isSome = true ↔ armed.loop.ii ≤ armed.loop.length := by
  obtain ⟨hpasses, hloop, hreload, -⟩ := harm.checked
  have hcount : armed.loop.iterations < 2 ^ 32 := hloop ▸ (sound_of_reachable h).counted
  unfold armable at hpasses
  simp only [hkind, Bool.false_eq_true, if_false, ne_eq, decide_eq_true_eq, Nat.not_lt, Nat.not_le, false_or] at hpasses
  obtain ⟨⟨hsealed, hii, hboundary⟩, -, hrunning, -⟩ := hpasses
  rw [hcall.loop_eq hsealed hreload]
  exact interruptDrain_iff hsealed hii hboundary (by omega) hcount

/-- A program that runs a body of two cycles at an interval of four: ILC 2, INT4 and the global
enable, `SPLOOP 4`, NOP and SPKERNEL. -/
def shortLoop : List Word :=
  [0x0200012a, 0x069003a2, 0x0280092a, 0x021403a2, 0x030000aa, 0x009803a2, 0x01838000, 0, 0x00034000]

def shortLoopBus : Bus Unit where
  read _ address := ((), some (shortLoop.getD (address.toNat / 4) 0))
  write _ _ _ _ _ := ((), true)
  tick := id

def shortLoopAfter : ℕ → Cpu
  | 0 => reset 0
  | n + 1 => (step default shortLoopBus false () (shortLoopAfter n)).cpu

theorem shortLoop_reachable (n : ℕ) : Reachable default shortLoopBus false 0 (shortLoopAfter n) := by
  induction n with
  | zero => exact .reset
  | succ n ih => exact .step () ih

def shortLoopArmed : Cpu := (interrupt false (shortLoopAfter 10) 0x10).1

theorem shortLoop_arms : Arms false (shortLoopAfter 10) 0x10 shortLoopArmed :=
  ⟨Prod.ext rfl (by decide +kernel), by decide +kernel, by decide +kernel⟩

theorem drain_accepted_iff_shortLoop :
    ∃ loop, DrainCall default shortLoopBus false shortLoopArmed () loop ∧
      (loop.interruptDrain.isSome = true ↔ shortLoopArmed.loop.ii ≤ shortLoopArmed.loop.length) := by
  have hrun : (loopCycle shortLoopBus false shortLoopArmed >>= fun c ↦
      execute default shortLoopBus c.out c.packet >>= fun _ ↦
        (pure c.out.context.armed : Exec Unit Bool)) () = ((), .ok true) := by
    exact Prod.ext rfl (by rfl)
  obtain ⟨c, t, hcycle, hrest⟩ := Machine.bind_ok.mp hrun
  obtain ⟨⟨out, trace⟩, t', hexecute, hlast⟩ := Machine.bind_ok.mp hrest
  have hcall := DrainCall.made hcycle (Except.ok.inj (congrArg Prod.snd hlast)) hexecute
  exact ⟨_, hcall, drain_accepted_iff (shortLoop_reachable 10) shortLoop_arms (by decide +kernel) hcall⟩

/-- INT4 is armed at the end of the first stage, and the next step halts the CPU. -/
theorem short_loop_halts :
    Reachable default shortLoopBus false 0 (shortLoopAfter 10) ∧
      Arms false (shortLoopAfter 10) 0x10 shortLoopArmed ∧ shortLoopArmed.loop.predicateLoop = false ∧
      (step default shortLoopBus false () shortLoopArmed).cpu.fault =
        some "SPLOOP interrupt drain schedule invalid" :=
  ⟨shortLoop_reachable 10, shortLoop_arms, by decide +kernel, by decide +kernel⟩

end Cdj2000Emulator.C674x.LoopDrain
