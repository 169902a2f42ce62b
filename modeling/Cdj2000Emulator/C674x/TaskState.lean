import Cdj2000Emulator.C674x.ArmEffects
import Cdj2000Emulator.C674x.Boundary

namespace Cdj2000Emulator.C674x.TaskState

open Library.Stateful LoopBuffer.Model State Transfer Decode Effects Operands ArmControl C674x.Compact Dispatch
open Execute Interrupt
  Fetch LoopStep Step Phases Issuing ArmEffects Boundary

/-- CSR and the task state registers hold GIE and PGIE twice. -/
structure Aliased (control : ℕ → Word) : Prop where
  gie : (control 26).getLsbD 0 = (control 1).getLsbD 0
  pgie : (control 27).getLsbD 0 = (control 1).getLsbD 1

section Aliased

variable {control : ℕ → Word} {id : ℕ} {value : Word}

theorem Aliased.update (h : Aliased control) (hcsr : id ≠ 1) (htsr : id ≠ 26) (hitsr : id ≠ 27) :
    Aliased (Function.update control id value) := by
  refine ⟨?_, ?_⟩
  · rw [Function.update_of_ne htsr.symm, Function.update_of_ne hcsr.symm]
    exact h.gie
  · rw [Function.update_of_ne hitsr.symm, Function.update_of_ne hcsr.symm]
    exact h.pgie

theorem Aliased.csr (h : Aliased control) (hgie : value.getLsbD 0 = (control 1).getLsbD 0)
    (hpgie : value.getLsbD 1 = (control 1).getLsbD 1) : Aliased (Function.update control 1 value) :=
  ⟨h.gie.trans hgie.symm, h.pgie.trans hpgie.symm⟩

theorem Aliased.tsr (h : Aliased control) (hgie : value.getLsbD 0 = (control 26).getLsbD 0) :
    Aliased (Function.update control 26 value) :=
  ⟨hgie.trans h.gie, h.pgie⟩

theorem Aliased.task {csr tsr : Word} (h : Aliased control) (hgie : tsr.getLsbD 0 = csr.getLsbD 0)
    (hpgie : csr.getLsbD 1 = (control 1).getLsbD 1) :
    Aliased (Function.update (Function.update control 26 tsr) 1 csr) :=
  ⟨hgie, h.pgie.trans hpgie.symm⟩

end Aliased

/-- Execution leaves the loop buffer's schedule and its kind, and keeps the two copies equal. -/
structure Executed (cpu out : Cpu) : Prop where
  loop : out.loop = cpu.loop
  reload : out.context.immediateReload = cpu.context.immediateReload
  aliased : Aliased cpu.control → Aliased out.control

theorem Executed.refl (cpu : Cpu) : Executed cpu cpu := ⟨rfl, rfl, id⟩

theorem Executed.trans {a b c : Cpu} (h : Executed a b) (k : Executed b c) : Executed a c :=
  ⟨k.loop.trans h.loop, k.reload.trans h.reload, k.aliased ∘ h.aliased⟩

theorem executed_ite {cpu a b : Cpu} {c : Prop} [Decidable c] (h : c → Executed cpu a) (k : ¬c → Executed cpu b) :
    Executed cpu (if c then a else b) := by
  split_ifs with hc
  · exact h hc
  · exact k hc

section Writes

variable (out : Cpu) (id : ℕ) (value : Word)

theorem setControl_executed (hcsr : id ≠ 1) (htsr : id ≠ 26) (hitsr : id ≠ 27) :
    Executed out (out.setControl id value) := ⟨rfl, rfl, fun h ↦ h.update hcsr htsr hitsr⟩

theorem writeCsr_executed (csr : Word) (hgie : csr.getLsbD 0 = value.getLsbD 0)
    (hpgie : csr.getLsbD 1 = value.getLsbD 1) :
    Executed out (((out.setControl 1 csr).setControl 26
      ((out.control 26 &&& ~~~1#32) ||| (value &&& 1#32))).setControl 27
      ((out.control 27 &&& ~~~1#32) ||| ((value >>> 1) &&& 1#32))) := by
  refine ⟨rfl, rfl, fun _ ↦ ⟨?_, ?_⟩⟩
  · simpa [Cpu.setControl, Function.update_apply] using hgie.symm
  · simpa [Cpu.setControl, Function.update_apply] using hpgie.symm

theorem writeItsr_executed : Executed out ((out.setControl 27 (value &&& 0x0000c6df#32)).setControl 1
    ((out.control 1 &&& ~~~2#32) ||| ((value &&& 1#32) <<< 1))) := by
  refine ⟨rfl, rfl, fun h ↦ ⟨?_, ?_⟩⟩
  · simpa [Cpu.setControl, Function.update_apply] using h.gie
  · simp [Cpu.setControl]

theorem writeTsr_executed : Executed out
    ((out.setControl 26 ((out.control 26 &&& ~~~3#32) ||| (value &&& 3#32))).setControl 1
    ((out.control 1 &&& ~~~1#32) ||| (value &&& 1#32))) := by
  refine ⟨rfl, rfl, fun h ↦ h.task ?_ ?_⟩
  · simp
  · simp

theorem mvcWrite_executed : Executed out (mvcWrite out id value) := by
  have hready {out' : Cpu} (h : Executed out out') (id cycle : ℕ) : Executed out (out'.setReady id cycle) :=
    ⟨h.loop, h.reload, h.aliased⟩
  unfold mvcWrite
  refine executed_ite (fun _ ↦ ?_) fun _ ↦ executed_ite (fun _ ↦ ?_) fun hcsr ↦
    executed_ite (fun _ ↦ ?_) fun _ ↦
    executed_ite (fun _ ↦ ?_) fun _ ↦ executed_ite (fun _ ↦ ?_) fun _ ↦ executed_ite (fun _ ↦ ?_) fun _ ↦
    executed_ite (fun _ ↦ ?_) fun _ ↦ executed_ite (fun _ ↦ ?_) fun _ ↦
      executed_ite (fun _ ↦ ?_) fun hitsr ↦
    executed_ite (fun _ ↦ ?_) fun htsr ↦ executed_ite (fun _ ↦ ?_) fun _ ↦ ?_
  · exact hready (setControl_executed out 0 _ (by decide) (by decide) (by decide)) _ _
  · refine writeCsr_executed out value _ ?_ ?_
    · simp
    · simp
  · exact setControl_executed out 24 _ (by decide) (by decide) (by decide)
  · exact setControl_executed out _ _ (by omega) (by omega) (by omega)
  · exact setControl_executed out 21 _ (by decide) (by decide) (by decide)
  · exact executed_ite (fun _ ↦ hready (.refl out) _ _) fun _ ↦ .refl out
  · exact setControl_executed out 4 _ (by decide) (by decide) (by decide)
  · exact setControl_executed out 5 _ (by decide) (by decide) (by decide)
  · exact writeItsr_executed out value
  · exact writeTsr_executed out value
  · exact hready (setControl_executed out _ _ (by omega) (by omega) (by omega)) _ _
  · exact setControl_executed out _ _ hcsr htsr hitsr

end Writes

def Gated : Effect → Prop
  | .rint gie => gie.getLsbD 1 = false
  | _ => True

section Issue

variable {β : Type} {bus : Bus β} {a b : Effects.Issue} {effect : Effect} {effects : List Effect} {s s' : β}

theorem queueResult_executed {entry : Load} (h : a.queueResult entry = .ok b) : Executed a.out b.out := by
  unfold Effects.Issue.queueResult at h
  split_ifs at h
  cases h
  exact ⟨rfl, rfl, id⟩

theorem retime_executed {timing : Option Timing} {why : String} (h : a.retime timing why = .ok b) :
    Executed a.out b.out := by
  cases timing with
  | none => cases h
  | some timing =>
    cases h
    exact ⟨rfl, rfl, id⟩

theorem apply_executed (h : a.apply effect = .ok b) (hgated : Gated effect) : Executed a.out b.out := by
  cases effect with
  | stop why => cases h
  | result => exact queueResult_executed h
  | resultPair => exact queueResult_executed h
  | nop count => exact retime_executed h
  | idle => exact retime_executed h
  | protectedLoad => exact retime_executed h
  | multicycle cycles why => exact retime_executed h
  | compared latency bank dst value mask =>
    simp only [Effects.Issue.apply] at h
    split_ifs at h
    cases hq : a.queueResult ⟨a.out.cycles + latency, value, bank, dst, .scalar 0 false⟩ with
    | error why =>
      rw [hq] at h
      cases h
    | ok c =>
      rw [hq] at h
      cases h
      refine (queueResult_executed hq).trans ?_
      cases mask with
      | none => exact .refl _
      | some mask => exact ⟨rfl, rfl, id⟩
  | branch target why =>
    simp only [Effects.Issue.apply] at h
    unfold queueBranch at h
    split_ifs at h
    · cases h
      exact ⟨rfl, rfl, id⟩
    · cases h
      exact ⟨rfl, rfl, id⟩
  | faucr mask =>
    simp only [Effects.Issue.apply] at h
    split_ifs at h
    cases h
    exact ⟨rfl, rfl, fun h ↦ h.update (by decide) (by decide) (by decide)⟩
  | restoreTask restored =>
    cases h
    refine ⟨rfl, rfl, fun h ↦ h.task ?_ ?_⟩
    · simp
    · simp
  | setNmie =>
    cases h
    exact ⟨rfl, rfl, fun h ↦ h.update (by decide) (by decide) (by decide)⟩
  | snapshotTsch value =>
    cases h
    exact ⟨rfl, rfl, fun h ↦ h.update (by decide) (by decide) (by decide)⟩
  | dint gie =>
    cases h
    refine ⟨rfl, rfl, fun h ↦ h.task ?_ ?_⟩
    · simp
    · simp
  | rint gie =>
    cases h
    refine ⟨rfl, rfl, fun h ↦ h.task ?_ ?_⟩
    · simp
    · have hgie : gie[1] = false := by simpa [Gated] using hgated
      simp [hgie]
  | mvc id value =>
    simp only [Effects.Issue.apply] at h
    split_ifs at h
    · cases h
      exact ⟨rfl, rfl, fun h ↦ h⟩
    · cases h
      exact ⟨rfl, rfl, fun h ↦ h⟩
    · cases h
      exact mvcWrite_executed a.out id value
  | _ =>
    simp only [Effects.Issue.apply] at h
    try split_ifs at h
    all_goals
      cases h
      exact ⟨rfl, rfl, fun h ↦ h⟩

theorem run_executed (h : a.run bus effects s = (s', .ok b)) (hgated : ∀ effect ∈ effects, Gated effect) :
    Executed a.out b.out := by
  induction effects generalizing a s with
  | nil =>
    cases h
    exact .refl _
  | cons effect effects ih =>
    obtain ⟨c, t, hfirst, hrest⟩ := (run_cons_ok bus).mp h
    have hnow := apply_executed (perform_ok hfirst) (hgated effect List.mem_cons_self)
    exact hnow.trans (ih hrest fun e he ↦ hgated e (List.mem_cons_of_mem effect he))

end Issue

section Packet

variable {β : Type} {bus : Bus β} {u : Arithmetic} {cpu : Cpu} {packet : Packet}

theorem gated_of_mild {effects : List Effect} (h : Mild effects) : ∀ effect ∈ effects, Gated effect := by
  intro effect hmem
  have hmild := h effect hmem
  cases effect with
  | rint => cases hmild
  | _ => trivial

theorem gated_arm (x : Arm) (name : ArmName) : ∀ effect ∈ name.run u x, Gated effect := by
  by_cases hname : name ∈ special
  case neg => exact gated_of_mild (mild_arm u x hname)
  have hbranch {target : Word} {n : ℕ} {why : String} :
      ∀ effect ∈ Effect.multicycle n why :: x.whenEnabled [.branch target branchRefusal], Gated effect := by
    intro effect hmem
    rcases List.mem_cons.mp hmem with rfl | hmem
    · trivial
    · exact gated_of_mild (mild_whenEnabled (by simp [IsMild])) effect hmem
  simp only [special, List.mem_cons, List.not_mem_nil, or_false] at hname
  rcases hname with rfl | rfl | rfl | rfl
  · exact hbranch
  · exact hbranch
  · change ∀ effect ∈ armAddkpc x, Gated effect
    unfold armAddkpc
    split_ifs
    · exact gated_of_mild mild_stop
    · intro effect hmem
      rcases List.mem_append.mp hmem with hmem | hmem
      · unfold Arm.whenEnabled at hmem
        split_ifs at hmem
        · rw [List.mem_singleton.mp hmem]
          trivial
        · cases hmem
      · exact gated_of_mild mild_commit effect hmem
  · intro effect hmem
    change effect ∈ armBIrp x at hmem
    unfold armBIrp Arm.whenEnabled at hmem
    dsimp only at hmem
    split_ifs at hmem
    · simp only [List.mem_cons, List.not_mem_nil, or_false] at hmem
      rcases hmem with rfl | rfl | rfl
      · trivial
      · trivial
      · trivial
    · cases hmem

theorem gated_ite {c : Prop} [Decidable c] {l m : List Effect} (h : c → ∀ effect ∈ l, Gated effect)
    (k : ¬c → ∀ effect ∈ m, Gated effect) : ∀ effect ∈ (if c then l else m), Gated effect := by
  split_ifs with hc
  · exact h hc
  · exact k hc

theorem gated_append {l m : List Effect} (h : ∀ effect ∈ l, Gated effect) (k : ∀ effect ∈ m, Gated effect) :
    ∀ effect ∈ l ++ m, Gated effect := List.forall_mem_append.mpr ⟨h, k⟩

theorem gated_cons {effect : Effect} {l : List Effect} (h : Gated effect) (k : ∀ effect ∈ l, Gated effect) :
    ∀ e ∈ effect :: l, Gated e := List.forall_mem_cons.mpr ⟨h, k⟩

theorem gated_compact (header pc w : Word) : ∀ effect ∈ compactEffects cpu header pc w, Gated effect := by
  unfold compactEffects
  split
  · exact gated_of_mild mild_nil
  · exact gated_of_mild mild_stop
  · exact gated_of_mild (by simp [IsMild])
  · refine gated_ite (fun _ ↦ gated_cons trivial (gated_of_mild (by simp [IsMild]))) fun _ ↦
      gated_ite (fun _ ↦ gated_of_mild (by simp [IsMild])) fun _ ↦ gated_ite (fun _ ↦ ?_) fun _ ↦
      gated_of_mild (by simp [compactB15, compactDpp, IsMild])
    exact gated_cons trivial (gated_of_mild (by simp [IsMild]))

theorem gated_full (index : ℕ) (insn : Instruction) (w : Word) :
    ∀ effect ∈ fullEffects u cpu packet index insn w, Gated effect := by
  unfold fullEffects
  refine gated_ite (fun _ ↦ gated_ite (fun _ ↦ gated_of_mild mild_stop) fun _ ↦
    gated_ite (fun _ ↦ ?_) fun _ ↦ ?_)
    fun _ ↦ gated_ite (fun _ ↦ gated_of_mild mild_stop) fun _ ↦
      gated_ite (fun _ ↦ gated_of_mild mild_stop) fun _ ↦
    gated_ite (fun _ ↦ gated_of_mild (by simp [IsMild])) fun _ ↦ ?_
  · exact gated_cons trivial (gated_of_mild mild_nil)
  · refine gated_cons ?_ (gated_of_mild mild_nil)
    simp [Gated]
  · cases armLookup u w with
    | none => exact gated_of_mild mild_stop
    | some name => exact gated_arm _ name

/-- RINT restores one bit of TSR, SGIE. -/
theorem gated_instruction (index : ℕ) (insn : Instruction) :
    ∀ effect ∈ instructionEffects u cpu packet index insn, Gated effect := by
  unfold instructionEffects
  refine gated_ite (fun _ ↦ gated_ite (fun _ ↦ gated_of_mild mild_stop) fun _ ↦ gated_of_mild mild_nil) fun _ ↦
    gated_ite (fun _ ↦ ?_) fun _ ↦ gated_append ?_ (gated_ite (fun _ ↦ ?_) fun _ ↦
      gated_ite (fun _ ↦ gated_compact _ _ _) fun _ ↦ gated_full _ _ _)
  · refine gated_ite (fun _ ↦ gated_cons trivial (gated_of_mild mild_nil)) fun _ ↦
      gated_ite (fun _ ↦ gated_of_mild mild_stop) fun _ ↦ gated_cons trivial (gated_of_mild mild_nil)
  · exact gated_ite (fun _ ↦ gated_cons trivial (gated_of_mild mild_nil)) fun _ ↦ gated_of_mild mild_nil
  · exact gated_cons trivial (gated_cons trivial (gated_of_mild (by simp [IsMild])))

theorem gated_packet : ∀ effect ∈ packetEffects u cpu packet, Gated effect := by
  intro effect hmem
  obtain ⟨slot, -, heffect⟩ := List.mem_flatMap.mp hmem
  exact gated_instruction slot.2 slot.1 effect heffect

end Packet

/-- What retirement leaves: GIE and PGIE, the task state but SPLX, and SPLX too outside a loop. -/
structure Late (cpu out : Cpu) : Prop where
  loop : out.loop = cpu.loop
  reload : out.context.immediateReload = cpu.context.immediateReload
  gie : (out.control 1).getLsbD 0 = (cpu.control 1).getLsbD 0
  pgie : (out.control 1).getLsbD 1 = (cpu.control 1).getLsbD 1
  tsr : out.control 26 &&& ~~~tsrSplx = cpu.control 26 &&& ~~~tsrSplx
  itsr : out.control 27 = cpu.control 27
  direct : cpu.loopActive = false → out.loopActive = false ∧ out.control 26 = cpu.control 26

section Late

variable {cpu out : Cpu}

theorem Late.refl (cpu : Cpu) : Late cpu cpu := ⟨rfl, rfl, rfl, rfl, rfl, rfl, fun h ↦ ⟨h, rfl⟩⟩

theorem Late.trans {a b c : Cpu} (h : Late a b) (k : Late b c) : Late a c where
  loop := k.loop.trans h.loop
  reload := k.reload.trans h.reload
  gie := k.gie.trans h.gie
  pgie := k.pgie.trans h.pgie
  tsr := k.tsr.trans h.tsr
  itsr := k.itsr.trans h.itsr
  direct hactive := ⟨(k.direct (h.direct hactive).1).1,
    (k.direct (h.direct hactive).1).2.trans (h.direct hactive).2⟩

theorem Late.of_eq (hcontrol : out.control = cpu.control) (hloop : out.loop = cpu.loop)
    (hcontext : out.context = cpu.context) (hactive : out.loopActive = cpu.loopActive) : Late cpu out := by
  refine ⟨hloop, by rw [hcontext], ?_, ?_, ?_, ?_, fun h ↦ ⟨hactive.trans h, ?_⟩⟩
  all_goals rw [hcontrol]

theorem setControl_late (out : Cpu) (id : ℕ) (value : Word) (hcsr : id ≠ 1) (htsr : id ≠ 26) (hitsr : id ≠ 27) :
    Late out (out.setControl id value) := by
  have hkept {id' : ℕ} (hne : id ≠ id') : (out.setControl id value).control id' = out.control id' := by
    change Function.update out.control id value id' = _
    exact Function.update_of_ne hne.symm value out.control
  refine ⟨rfl, rfl, ?_, ?_, ?_, hkept hitsr, fun h ↦ ⟨h, hkept htsr⟩⟩
  · rw [hkept hcsr]
  · rw [hkept hcsr]
  · rw [hkept htsr]

theorem bit_of_masked {a b : Word} (h : a &&& ~~~tsrSplx = b &&& ~~~tsrSplx) : a.getLsbD 0 = b.getLsbD 0 := by
  have := congrArg (fun w : Word ↦ w.getLsbD 0) h
  simpa [tsrSplx] using this

theorem Late.executed (h : Late cpu out) : Executed cpu out := by
  refine ⟨h.loop, h.reload, fun haliased ↦ ⟨?_, ?_⟩⟩
  · rw [bit_of_masked h.tsr, h.gie, haliased.gie]
  · rw [h.itsr, h.pgie, haliased.pgie]

end Late

section Retirement

variable {β : Type} {bus : Bus β} {pc : Word} {cpu out : Cpu}

theorem writeBack_late (load : Load) : Late out (writeBack out load) := by
  have hwritten : Late out (if load.registers = 2 then
      (out.setReg load.bank load.dst (low load.value)).setReg load.bank (load.dst + 1) (high load.value)
    else out.setReg load.bank load.dst (low load.value)) := by
    split_ifs
    · exact .of_eq rfl rfl rfl rfl
    · exact .of_eq rfl rfl rfl rfl
  unfold writeBack
  dsimp only
  cases load.kind with
  | scalar status multiplier =>
    refine hwritten.trans (setControl_late _ _ _ ?_ ?_ ?_)
    all_goals split_ifs <;> decide
  | _ => exact hwritten

def sweptCpu : Sweep → Cpu
  | .done out _ _ => out
  | .again out _ _ => out

theorem sweep_late (cycles : ℕ) (rest kept : List Load) (written : List Load) (h : Late cpu out) :
    Machine.Always (fun result ↦ Late cpu (sweptCpu result)) (fun _ ↦ True)
      (sweep bus pc cycles rest kept out written) := by
  induction rest generalizing kept out written with
  | nil => exact Machine.always_pure h
  | cons load rest ih =>
    unfold sweep
    refine Machine.Always.bind (P := fun _ ↦ True) (fun s ↦ ?_) fun load' _ ↦
      Machine.always_ite (fun _ ↦ ih _ _ h) fun _ ↦ ?_
    · rcases sample bus pc cycles load s with ⟨t, e | a⟩
      · trivial
      · trivial
    split
    · have hsat : Late out (out.setControl 1 (out.control 1 ||| 0x200#32)) := by
        refine ⟨rfl, rfl, ?_, ?_, rfl, rfl, fun h ↦ ⟨h, rfl⟩⟩
        · simp [Cpu.setControl]
        · simp [Cpu.setControl]
      exact ih _ _ ((h.trans hsat).trans (setControl_late _ 21 _ (by decide) (by decide) (by decide)))
    · exact ih _ _ (h.trans (setControl_late out 19 _ (by decide) (by decide) (by decide)))
    · exact Machine.always_pure (h.trans (setControl_late out 2 _ (by decide) (by decide) (by decide)))
    · exact Machine.always_pure (h.trans (setControl_late out 2 _ (by decide) (by decide) (by decide)))
    · exact ih _ _ (h.trans (writeBack_late load'))

theorem retireLoads_late (cycles passes : ℕ) (loads : List Load) (written : List Load) (h : Late cpu out) :
    Machine.Always (fun result ↦ Late cpu result.1) (fun _ ↦ True)
      (retireLoads bus pc cycles passes loads out written) := by
  induction passes generalizing loads out written with
  | zero => exact Machine.always_pure h
  | succ passes ih =>
    refine (sweep_late cycles loads [] written h).bind fun result hresult ↦ ?_
    cases result with
    | done => exact Machine.always_pure hresult
    | again => exact ih _ _ hresult

theorem splx_cleared (tsr : Word) : (tsr &&& ~~~tsrSplx) &&& ~~~tsrSplx = tsr &&& ~~~tsrSplx := by
  rw [BitVec.and_assoc, BitVec.and_self]

theorem completeBranch_late {done : Cpu} (h : completeBranch out = .ok done) : Late out done := by
  unfold completeBranch at h
  dsimp only at h
  cases hactive : out.loopActive with
  | true =>
    have hidled (hloop : done.loop = out.loop) (hreload : done.context.immediateReload = out.context.immediateReload)
        (hcontrol : done.control = (out.loopSetActive false).control) : Late out done := by
      refine ⟨hloop, hreload, by rw [hcontrol]; rfl, by rw [hcontrol]; rfl, ?_, by rw [hcontrol]; rfl, fun h ↦ ?_⟩
      · rw [hcontrol]
        exact splx_cleared _
      · rw [hactive] at h
        cases h
    split at h
    · cases h
    · cases hqueue : out.branchQueue with
      | nil =>
        simp only [hactive, Cpu.loopClearInterruptPhase, Cpu.loopSetInterruptPhase, Cpu.loopSetActive,
          Cpu.setControl, hqueue] at h
        cases h
        exact hidled rfl rfl rfl
      | cons b rest =>
        simp only [hactive, Cpu.loopClearInterruptPhase, Cpu.loopSetInterruptPhase, Cpu.loopSetActive,
          Cpu.setControl, hqueue] at h
        cases h
        exact hidled rfl rfl rfl
  | false =>
    simp only [hactive, Bool.false_eq_true, false_and, if_false] at h
    cases hqueue : out.branchQueue with
    | nil =>
      simp only [hqueue] at h
      cases h
      exact .of_eq rfl rfl rfl hactive.symm
    | cons b rest =>
      simp only [hqueue] at h
      cases h
      exact .of_eq rfl rfl rfl hactive.symm

theorem retireCycles_late (n : ℕ) (written : List Load) (h : Late cpu out) :
    Machine.Always (fun result ↦ Late cpu result.1) (fun _ ↦ True) (retireCycles bus pc n out written) := by
  induction n generalizing out written with
  | zero => exact Machine.always_pure h
  | succ n ih =>
    have hcycle : Machine.Always (fun result ↦ Late cpu result.1) (fun _ ↦ True)
        (retireCycle bus pc out written) := by
      refine (Machine.always_modify _).bind fun _ _ ↦ Machine.Always.bind (P := fun _ ↦ True) ?_ fun stores _ ↦ ?_
      · exact fun s ↦ by
          rcases retireStores bus pc (out.cycles + 1) out.stores s with ⟨t, e | a⟩
          · trivial
          · trivial
      · extract_lets ticked
        have hticked : Late cpu ticked := h.trans (.of_eq rfl rfl rfl rfl)
        refine (retireLoads_late _ _ _ _ hticked).bind fun result hresult ↦ ?_
        exact Machine.always_pure (hresult.trans (.of_eq rfl rfl rfl rfl))
    refine hcycle.bind fun result hresult ↦ Machine.always_ite (fun _ ↦ ?_) fun _ ↦ ih _ hresult
    refine Machine.Always.bind (P := Late cpu) (Machine.always_ofExcept ?_) fun out hout ↦ Machine.always_pure hout
    cases hcomplete : completeBranch result.1 with
    | error e => trivial
    | ok done => exact hresult.trans (completeBranch_late hcomplete)

theorem execute_late {u : Arithmetic} {packet : Packet} {trace : Trace} {s t : β}
    (h : execute u bus cpu packet s = (t, .ok (out, trace))) :
    ∃ a s₁, (Effects.Issue.start cpu).run bus (packetEffects u cpu packet) s = (s₁, .ok a) ∧
      Late a.out out := by
  obtain ⟨a, s₁, done, -, hissue, -, hretire, rfl, -, -⟩ := execute_ok h
  have hsettled : Late a.out (settle packet a).2 := by
    unfold settle
    dsimp only
    split_ifs <;> exact .of_eq rfl rfl rfl rfl
  have hdone : Late a.out done := (retireCycles_late _ _ hsettled).ok_of_run hretire
  exact ⟨a, s₁, hissue, hdone.trans (.of_eq rfl rfl rfl rfl)⟩

theorem execute_executed {u : Arithmetic} {packet : Packet} {trace : Trace} {s t : β}
    (h : execute u bus cpu packet s = (t, .ok (out, trace))) : Executed cpu out := by
  obtain ⟨a, s₁, hissue, hlate⟩ := execute_late h
  exact (run_executed hissue gated_packet).trans hlate.executed

end Retirement

/-- Outside execution a step leaves the control registers but ILC and SPLX, and the loop count
fits its field. -/
structure Kept (base out : Cpu) : Prop where
  controls : ∀ id, id ≠ 13 → id ≠ 26 → out.control id = base.control id
  tsr : out.control 26 &&& ~~~tsrSplx = base.control 26 &&& ~~~tsrSplx
  counted : base.loop.iterations < 2 ^ 32 → out.loop.iterations < 2 ^ 32

section Kept

variable {base cpu out : Cpu}

theorem Kept.refl (cpu : Cpu) : Kept cpu cpu := ⟨fun _ _ _ ↦ rfl, rfl, id⟩

theorem Kept.of_eq (h : Kept base cpu) (hcontrol : out.control = cpu.control)
    (hcount : out.loop.iterations = cpu.loop.iterations) : Kept base out :=
  ⟨hcontrol ▸ h.controls, hcontrol ▸ h.tsr, hcount ▸ h.counted⟩

theorem Kept.setIlc (h : Kept base cpu) (value : Word) : Kept base (cpu.setControl 13 value) := by
  refine ⟨fun id hilc htsr ↦ ?_, h.tsr, h.counted⟩
  exact (Function.update_of_ne hilc value cpu.control).trans (h.controls id hilc htsr)

theorem Kept.setTsr (h : Kept base cpu) {value : Word}
    (hvalue : value &&& ~~~tsrSplx = cpu.control 26 &&& ~~~tsrSplx) : Kept base (cpu.setControl 26 value) := by
  refine ⟨fun id hilc htsr ↦ ?_, hvalue.trans h.tsr, h.counted⟩
  exact (Function.update_of_ne htsr value cpu.control).trans (h.controls id hilc htsr)

theorem splx_set (tsr : Word) : (tsr ||| tsrSplx) &&& ~~~tsrSplx = tsr &&& ~~~tsrSplx := by
  rw [BitVec.and_or_distrib_right, show tsrSplx &&& ~~~tsrSplx = 0#32 from by decide, BitVec.or_zero]

theorem Kept.loopSetActive (h : Kept base cpu) (active : Bool) : Kept base (cpu.loopSetActive active) := by
  have hsplx : Kept base (cpu.setControl 26 (if active then cpu.control 26 ||| tsrSplx
      else cpu.control 26 &&& ~~~tsrSplx)) := by
    cases active with
    | false => exact h.setTsr (splx_cleared _)
    | true => exact h.setTsr (splx_set _)
  exact hsplx.of_eq rfl rfl

theorem kept_ite {c : Prop} [Decidable c] {a b : Cpu} (h : c → Kept base a) (k : ¬c → Kept base b) :
    Kept base (if c then a else b) := by
  split_ifs with hc
  · exact h hc
  · exact k hc

theorem Kept.aliased (h : Kept base out) (haliased : Aliased base.control) : Aliased out.control := by
  have hgie := bit_of_masked h.tsr
  have hcsr := h.controls 1 (by decide) (by decide)
  have hitsr := h.controls 27 (by decide) (by decide)
  exact ⟨by rw [hgie, hcsr, haliased.gie], by rw [hitsr, hcsr, haliased.pgie]⟩

end Kept

section Loading

variable {base : Cpu} {st : Loading} {returning reload : Bool} {mask : Word} {insn : Instruction}

theorem protectedWait_kept (h : Kept base st.out) :
    Yields (fun st' ↦ Kept base st'.out) (fun _ ↦ True) st.protectedWait :=
  yields_ite (fun _ ↦ trivial) fun _ ↦ h.of_eq rfl rfl

theorem body_kept (h : Kept base st.out) :
    Yields (fun st' ↦ Kept base st'.out) (fun _ ↦ True) (st.body returning mask insn) := by
  have hload (load : Bool) : Yields (fun st' ↦ Kept base st'.out) (fun _ ↦ True)
      (if load then st.protectedWait else .ok st) :=
    yields_ite (fun _ ↦ protectedWait_kept h) fun _ ↦ h
  refine yields_ite (fun _ ↦ trivial) fun _ ↦ yields_ite (fun _ ↦ hload _) fun _ ↦
    (hload _).bind fun st' h' ↦ ?_
  refine yields_ite (fun _ ↦ trivial) fun _ ↦ yields_ite (fun _ ↦ h') fun _ ↦
    yields_ite (fun _ ↦ trivial) fun _ ↦ ?_
  unfold Loading.store
  refine yields_ite (fun _ ↦ ?_) fun _ ↦ yields_ite (fun _ ↦ trivial) fun _ ↦ h'.of_eq rfl rfl
  split
  · trivial
  · exact h'

theorem instruction_kept (slot : Instruction × ℕ) (h : Kept base st.out) :
    Yields (fun st' ↦ Kept base st'.out) (fun _ ↦ True) (st.instruction reload returning mask slot) := by
  refine yields_ite (fun _ ↦ trivial) fun _ ↦ yields_ite (fun _ ↦ ?_) fun _ ↦
    yields_ite (fun _ ↦ ?_) fun _ ↦
    yields_ite (fun _ ↦ trivial) fun _ ↦ ?_
  · exact yields_ite (fun _ ↦ trivial) fun _ ↦ h
  · refine yields_ite (fun _ ↦ trivial) fun _ ↦ yields_ite (fun _ ↦ trivial) fun _ ↦ ?_
    cases kernelDelay st.out.loop slot.1 with
    | error why => trivial
    | ok delay => exact h
  · cases (if returning then returnedNop slot.1 else .ok (nopCycles slot.1) : Except String ℕ) with
    | error why => trivial
    | ok n =>
      refine yields_ite (fun _ ↦ yields_ite (fun _ ↦ trivial) fun _ ↦ ?_) fun _ ↦ body_kept h
      split_ifs
      · exact h.of_eq rfl rfl
      · exact h

end Loading

section Source

variable {β : Type} {bus : Bus β} {functional : Bool} {pc : Word} {base cpu out : Cpu}

theorem seal_iterations (loop : Loop) (delay : ℕ) : (loop.seal functional delay).iterations = loop.iterations := by
  unfold Loop.seal
  split
  · rfl
  · rfl

theorem load_iterations {loop loop' : Loop} {tags : List Tag} {finish : Bool} {delay : ℕ}
    (h : loop.load functional tags finish delay = some loop') : loop'.iterations = loop.iterations := by
  unfold Loop.load at h
  split_ifs at h
  · cases h
    exact seal_iterations _ delay
  · cases h
    rfl

theorem sealReload_iterations {loop loop' : Loop} (h : sealReload loop = some loop') :
    loop'.iterations = loop.iterations := by
  unfold sealReload at h
  dsimp only at h
  split_ifs at h
  cases h
  rfl

theorem finishLoading_kept {st : Loading} {reload returning : Bool} (h : Kept base st.out) :
    Yields (Kept base) (fun _ ↦ True) (finishLoading functional pc reload returning st) := by
  unfold finishLoading
  refine Yields.bind (P := fun loop ↦ loop.iterations = st.out.loop.iterations) ?_ fun loop hloop ↦
    Yields.bind (P := fun loop ↦ loop.iterations = st.out.loop.iterations) ?_ fun loop hloop ↦ ?_
  · cases hload : st.out.loop.load functional st.tags st.finish st.delay with
    | none => trivial
    | some loop => exact load_iterations hload
  · refine yields_ite (fun _ ↦ ?_) fun _ ↦ hloop
    cases hseal : sealReload loop with
    | none => trivial
    | some loop' => exact (sealReload_iterations hseal).trans hloop
  · exact yields_ite (fun _ ↦ yields_ite (fun _ ↦ trivial) fun _ ↦ h.of_eq rfl hloop) fun _ ↦ h.of_eq rfl hloop

theorem always_any {α : Type} (x : Exec β α) : Machine.Always (fun _ ↦ True) (fun _ ↦ True) x := by
  intro s
  rcases x s with ⟨t, e | a⟩
  · trivial
  · trivial

theorem loadPacket_kept (h : Kept base out) :
    Machine.Always (fun source ↦ Kept base source.out) (fun _ ↦ True) (loadPacket bus functional pc out) := by
  refine (always_any _).bind fun source _ ↦ ?_
  refine Machine.Always.bind (P := fun st ↦ Kept base st.out) ?_ fun st hst ↦ ?_
  · refine Machine.Always.foldlM (fun st slot hst ↦ ?_) _ _ (h.of_eq rfl rfl)
    exact (Machine.always_ofExcept (instruction_kept slot hst)).mapError fun why _ ↦ trivial
  · exact (Machine.always_ofExcept (finishLoading_kept hst)).bind fun _ h ↦ Machine.always_pure h

theorem idleTick_kept (h : Kept base out) : Kept base (idleTick out) := kept_ite (fun _ ↦ h.of_eq rfl rfl) fun _ ↦ h

theorem postPacket_kept {source : Source} (h : Kept base source.out) :
    Machine.Always (fun source ↦ Kept base source.out) (fun _ ↦ True) (postPacket bus source) := by
  refine (always_any _).bind fun packet _ ↦ ?_
  dsimp only
  split
  · exact Machine.always_fail trivial
  · exact Machine.always_pure h

theorem loopSource_kept (h : Kept base cpu) :
    Machine.Always (fun source ↦ Kept base source.out) (fun _ ↦ True) (loopSource bus functional cpu) := by
  have hsplx : Kept base (cpu.setControl 26 (cpu.control 26 ||| tsrSplx)) := h.setTsr (splx_set _)
  unfold loopSource
  dsimp only
  refine Machine.Always.bind (P := fun source ↦ Kept base source.out) ?_ fun source hsource ↦ ?_
  · refine Machine.always_ite (fun _ ↦ Machine.always_pure hsplx) fun _ ↦
      Machine.always_ite (fun _ ↦ loadPacket_kept hsplx) fun _ ↦ ?_
    refine Machine.Always.bind (P := Kept base) (Machine.always_ofExcept ?_) fun out hout ↦ Machine.always_pure hout
    unfold waitLoading
    split
    · trivial
    · next hload => exact hsplx.of_eq rfl (load_iterations hload)
  · exact Machine.always_ite (fun _ ↦ postPacket_kept hsource) fun _ ↦ Machine.always_pure (idleTick_kept hsource)

end Source

section Cycle

variable {β : Type} {bus : Bus β} {functional : Bool} {pc : Word} {base cpu out : Cpu}

theorem issueFiltered_iterations {loop loop' : Loop} {allow : Tag → Bool} {issue : LoopBuffer.Model.Issue}
    (h : loop.issueFiltered allow = some (issue, loop')) : loop' = { loop with cycle := loop.cycle + 1 } := by
  unfold Loop.issueFiltered at h
  dsimp only at h
  split_ifs at h
  cases h
  rfl

theorem issueReload_iterations {loop loop' : Loop} {allow : Tag → Bool} {issue : LoopBuffer.Model.Issue}
    {currentStart oldStart oldEnd postEnd : ℕ}
    (h : loop.issueReload currentStart oldStart oldEnd postEnd allow = some (issue, loop')) :
    loop' = { loop with cycle := loop.cycle + 1 } := by
  unfold Loop.issueReload at h
  dsimp only at h
  split_ifs at h
  cases h
  rfl

theorem issueLoop_kept {source : Source} (h : Kept base source.out) :
    Yields (fun issued ↦ Kept base issued.1) (fun _ ↦ True) (issueLoop cpu source) := by
  unfold issueLoop
  dsimp only
  split
  · trivial
  · next issue loop hissue =>
    refine yields_ite (fun _ ↦ trivial) fun _ ↦ yields_ite (fun _ ↦ trivial) fun _ ↦ h.of_eq rfl ?_
    change loop.iterations = source.out.loop.iterations
    by_cases hreload : source.out.context.immediateReload = true ∧ source.out.loop.sealed = true
    · rw [if_pos hreload] at hissue
      rw [issueReload_iterations hissue]
    · rw [if_neg hreload] at hissue
      rw [issueFiltered_iterations hissue]

theorem sampleCondition_kept {packet : Packet} {scheduler : LoopBuffer.Model.Issue} (h : Kept base out) :
    Yields (fun c ↦ Kept base c.out) (fun _ ↦ True) (sampleCondition cpu out packet scheduler) := by
  refine yields_ite (fun _ ↦ trivial) fun _ ↦ yields_ite (fun _ ↦ ?_) fun _ ↦ ?_
  · exact yields_ite (fun _ ↦ trivial) fun _ ↦ yields_ite (fun _ ↦ trivial) fun _ ↦ h.of_eq rfl rfl
  · exact h.of_eq rfl rfl

theorem loopCycle_kept (h : Kept base cpu) :
    Machine.Always (fun c ↦ Kept base c.out) (fun _ ↦ True) (loopCycle bus functional cpu) := by
  refine (loopSource_kept h).bind fun source hsource ↦ ?_
  refine (Machine.always_ofExcept (issueLoop_kept hsource)).bind fun issued hissued ↦ ?_
  exact Machine.always_ofExcept (sampleCondition_kept hissued)

theorem reloadUpdate_kept (c : Cycle) (h : Kept base out) : Kept base (reloadUpdate c out) := by
  refine kept_ite (fun _ ↦ h) fun _ ↦ kept_ite (fun _ ↦ kept_ite (fun _ ↦ ?_) fun _ ↦
    h.of_eq rfl rfl) fun _ ↦
    kept_ite (fun _ ↦ h.setIlc _) fun _ ↦ h
  have hilc := h.setIlc (c.visibleRilc - 1)
  exact ⟨hilc.controls, hilc.tsr, fun _ ↦ c.visibleRilc.isLt⟩

theorem ilcUpdate_kept (c : Cycle) (armed draining : Bool) (h : Kept base out) :
    Kept base (ilcUpdate c armed draining out) :=
  kept_ite (fun _ ↦ reloadUpdate_kept c h) fun _ ↦
    kept_ite (fun _ ↦ kept_ite (fun _ ↦ h.setIlc _) fun _ ↦ h) fun _ ↦
    kept_ite (fun _ ↦ h.setIlc _) fun _ ↦ h

theorem startDrain_kept (h : Kept base out) : Yields (Kept base) (fun _ ↦ True) (startDrain pc out) := by
  unfold startDrain
  split
  · trivial
  · next loop hdrain =>
    refine ⟨h.controls, h.tsr, fun _ ↦ ?_⟩
    change loop.iterations < 2 ^ 32
    unfold Loop.interruptDrain at hdrain
    dsimp only at hdrain
    split_ifs at hdrain with hrefused hmany hshort
    cases hdrain
    change out.loop.cycle / out.loop.ii < 2 ^ 32
    omega

theorem endLoop_kept (c : Cycle) (draining : Bool) (h : Kept base out) : Kept base (endLoop c draining out) := by
  have hended : Kept base (if c.endWhile then
      let out := out.loopSetActive false
      if draining then out.loopClearInterruptPhase.loopClearRetained else out
    else out) :=
    kept_ite (fun _ ↦ kept_ite (fun _ ↦ (h.loopSetActive false).of_eq rfl rfl) fun _ ↦ h.loopSetActive false)
      fun _ ↦ h
  exact kept_ite (fun _ ↦ hended.loopSetActive false) fun _ ↦ hended

theorem afterExecute_kept (c : Cycle) (armed draining branchMatures : Bool) (h : Kept base out) :
    Yields (Kept base) (fun _ ↦ True) (afterExecute pc c armed draining branchMatures out) := by
  have hkept : Kept base (if branchMatures then keepReloading out else out) :=
    kept_ite (fun _ ↦ kept_ite (fun _ ↦ (h.loopSetActive true).of_eq rfl rfl) fun _ ↦
      h.loopSetActive true) fun _ ↦ h
  have hupdated := ilcUpdate_kept c armed draining hkept
  refine Yields.bind (P := Kept base) ?_ fun drained hdrained ↦ endLoop_kept c draining hdrained
  exact yields_ite (fun _ ↦ startDrain_kept hupdated) fun _ ↦ hupdated

end Cycle

section Step

variable {β : Type} {u : Arithmetic} {bus : Bus β} {functional : Bool} {entry : Word} {base cpu out : Cpu}

theorem prepare_kept (s : Start) {loop : Loop} (h : Kept base cpu) (hcount : loop.iterations < 2 ^ 32) :
    Kept base (s.prepare cpu loop) := by
  unfold Start.prepare
  extract_lets looped marked context reloading predicated
  have hmarked : Kept base marked := ⟨h.controls, h.tsr, fun _ ↦ hcount⟩
  have hreloading : Kept base reloading := kept_ite (fun _ ↦ hmarked.of_eq rfl rfl) fun _ ↦ hmarked
  have hpredicated : Kept base predicated := kept_ite (fun _ ↦ hreloading.of_eq rfl rfl) fun _ ↦ hreloading
  exact hpredicated.of_eq rfl rfl

theorem delayedIterations_kept (pc : Word) (s : Start) (h : Kept base out) :
    Yields (Kept base) (fun _ ↦ True) (delayedIterations pc s out) := by
  refine yields_ite (fun _ ↦ h) fun _ ↦ yields_ite (fun _ ↦ trivial) fun hfits ↦
    ⟨h.controls, h.tsr, fun _ ↦ ?_⟩
  change (out.control 13).toNat + (4 + s.ii - 1) / s.ii < 2 ^ 32
  have := (out.control 13).isLt
  have hfew : (4 + s.ii - 1) / s.ii ≤ 4 := by
    rcases Nat.eq_zero_or_pos s.ii with hzero | hpositive
    · rw [hzero, Nat.div_zero]
      omega
    · exact Nat.div_le_of_le_mul (by omega)
  omega

theorem activate_kept (s : Start) (h : Kept base out) : Kept base (activate cpu s out) := by
  unfold activate
  extract_lets active idled marked tagged
  have hidled : Kept base idled := h.of_eq rfl rfl
  have hmarked : Kept base marked := by
    refine kept_ite (fun _ ↦ h.loopSetActive true) fun _ ↦ kept_ite (fun _ ↦ hidled) fun _ ↦ ?_
    exact hidled.setTsr (splx_cleared _)
  have htagged : Kept base tagged := hmarked.of_eq rfl rfl
  exact kept_ite (fun _ ↦ htagged.setIlc _) fun _ ↦ htagged

/-- What a step executes is as the step found it, and what follows keeps the result. -/
structure PhaseKept (base : Cpu) (p : Phase) : Prop where
  before : Kept base p.cpu
  after : ∀ out, Yields (Kept out) (fun _ ↦ True) (p.finish out)

theorem setupPhase_kept (packet : Packet) (s : Start) (h : Kept base cpu) :
    Machine.Always (PhaseKept base) (fun _ ↦ True) (setupPhase cpu packet s : Exec β Phase) := by
  unfold setupPhase
  dsimp only
  cases s.refusal cpu with
  | some why => exact Machine.always_fail trivial
  | none =>
    dsimp only
    cases hinit : init s.ii (cpu.control 13).toNat with
    | none => exact Machine.always_fail trivial
    | some loop =>
      have hcount : loop.iterations < 2 ^ 32 := by
        unfold init at hinit
        split_ifs at hinit
        cases hinit
        exact (cpu.control 13).isLt
      refine (always_any _).bind fun _ _ ↦ ?_
      cases setupConflict packet.instructions.tail with
      | some e => exact Machine.always_fail trivial
      | none =>
        refine Machine.always_pure ⟨prepare_kept s h hcount, fun out ↦ ?_⟩
        have hdelayed := delayedIterations_kept cpu.pc s (Kept.refl out)
        dsimp only
        cases hrun : delayedIterations cpu.pc s out with
        | error e => trivial
        | ok done => exact activate_kept s (hdelayed.ok_of_eq hrun)

theorem prepared_kept (h : Kept base cpu) :
    Machine.Always (PhaseKept base) (fun _ ↦ True) (prepare bus functional cpu) := by
  refine Machine.always_ite (fun _ ↦ ?_) fun _ ↦ Machine.always_ite (fun _ ↦ ?_) fun _ ↦ ?_
  · refine (loopCycle_kept h).bind fun c hc ↦ Machine.always_pure ⟨hc, fun out ↦ ?_⟩
    exact afterExecute_kept c _ _ _ (Kept.refl out)
  · exact Machine.always_pure ⟨idleTick_kept h, Kept.refl⟩
  · refine (always_any _).bind fun packet _ ↦ ?_
    split
    · exact Machine.always_pure ⟨h, Kept.refl⟩
    · exact Machine.always_fail trivial
    · exact setupPhase_kept packet _ h

/-- The two copies agree, and the loop count fits its field. -/
structure Sound (cpu : Cpu) : Prop where
  aliased : Aliased cpu.control
  counted : cpu.loop.iterations < 2 ^ 32

theorem Sound.of_eq {cpu out : Cpu} (h : Sound cpu) (hcontrol : out.control = cpu.control)
    (hcount : out.loop.iterations = cpu.loop.iterations) : Sound out :=
  ⟨hcontrol ▸ h.aliased, hcount ▸ h.counted⟩

theorem Sound.kept {cpu out : Cpu} (h : Sound cpu) (hkept : Kept cpu out) : Sound out :=
  ⟨hkept.aliased h.aliased, hkept.counted h.counted⟩

theorem Sound.executed {cpu out : Cpu} (h : Sound cpu) (hrun : Executed cpu out) : Sound out :=
  ⟨hrun.aliased h.aliased, hrun.loop ▸ h.counted⟩

theorem sound_of_step {s : β} (h : Sound cpu) : Sound (step u bus functional s cpu).cpu := by
  by_cases haccepted : (step u bus functional s cpu).accepted = true
  · obtain ⟨-, p, trace, done, s₁, s₂, hprepare, hexecute, hfinish⟩ := step_accepted haccepted
    obtain ⟨hbefore, hafter⟩ := (prepared_kept (Kept.refl cpu)).ok_of_run hprepare
    exact ((h.kept hbefore).executed (execute_executed hexecute)).kept ((hafter done).ok_of_eq hfinish)
  · unfold step at haccepted ⊢
    split_ifs at haccepted ⊢ with hstopped
    · exact h
    · rcases hrun : stepBody u bus functional cpu s with ⟨t, e | ⟨out, trace⟩⟩
      · exact h.of_eq rfl rfl
      · rw [hrun] at haccepted
        exact absurd rfl haccepted

theorem vector_sound (interrupt : ℕ) (interruptedLoop : Bool) (h : cpu.loop.iterations < 2 ^ 32) :
    Sound (vector cpu interrupt interruptedLoop) := by
  refine ⟨⟨?_, ?_⟩, h⟩
  · simp [vector, Cpu.setControl, Cpu.loopClearInterruptPhase, Cpu.loopSetInterruptPhase]
  · simp [vector, Cpu.setControl, Cpu.loopClearInterruptPhase, Cpu.loopSetInterruptPhase]

theorem armLoop_sound (h : Sound cpu) : Yields Sound (fun _ ↦ True) (armLoop cpu) := by
  refine yields_ite (fun _ ↦ trivial) fun _ ↦ yields_ite (fun _ ↦ h) fun _ ↦
    yields_ite (fun _ ↦ h) fun _ ↦ yields_ite (fun _ ↦ trivial) fun _ ↦ ?_
  cases hcapture : cpu.loopCaptureRetained with
  | none => trivial
  | some out =>
    unfold Cpu.loopCaptureRetained at hcapture
    split_ifs at hcapture
    cases hcapture
    exact h.of_eq rfl rfl

theorem interruptPipeDown_sound {done : Cpu} (h : Sound out) (hdown : interruptPipeDown functional out = some done) :
    Sound done := by
  cases functional with
  | false =>
    cases hdown
    exact h.of_eq rfl rfl
  | true =>
    simp only [interruptPipeDown, Bool.not_true, Bool.false_eq_true, if_false, Option.ite_none_left_eq_some,
      Option.some.injEq] at hdown
    rw [← hdown.2]
    exact h.of_eq rfl rfl

theorem enter_sound (h : Sound cpu) : Sound (enter functional cpu).1 := by
  unfold enter
  split_ifs
  · exact h.of_eq rfl rfl
  · extract_lets selected interruptedLoop cleared taken out
    have hcleared : cleared.loop.iterations < 2 ^ 32 := by
      have hloop : cleared.loop = cpu.loop := by
        simp only [cleared, apply_ite Cpu.loop]
        exact ite_self _
      exact hloop ▸ h.counted
    have hout : Sound out := vector_sound _ _ hcleared
    cases hdown : interruptPipeDown functional out with
    | none => exact hout.of_eq rfl rfl
    | some done => exact interruptPipeDown_sound hout hdown

theorem interrupt_sound (h : Sound cpu) (pending : Word) : Sound (interrupt functional cpu pending).1 := by
  unfold interrupt
  by_cases hstopped : cpu.fault.isSome = true
  · rw [if_pos hstopped]
    exact h
  rw [if_neg hstopped]
  by_cases hinvalid : pending &&& ~~~maskable ≠ 0
  · rw [if_pos hinvalid]
    exact h.of_eq rfl rfl
  rw [if_neg hinvalid]
  extract_lets out
  have hout : Sound out := ⟨h.aliased.update (by decide) (by decide) (by decide), h.counted⟩
  by_cases hmasked : out.control 1 &&& 1#32 = 0 ∨ out.control 4 &&& 2#32 = 0 ∨ eligible out = 0
  · rw [if_pos hmasked]
    split_ifs
    · exact hout.of_eq rfl rfl
    · exact hout
  rw [if_neg hmasked]
  by_cases hbranching : out.branchDue ≠ 0 ∨ out.branchQueue ≠ []
  · rw [if_pos hbranching]
    exact hout
  rw [if_neg hbranching]
  by_cases hlooping : out.loopActive = true
  · rw [if_pos hlooping]
    cases harm : armLoop out with
    | error e => exact hout.of_eq rfl rfl
    | ok done => exact (armLoop_sound hout).ok_of_eq harm
  · rw [if_neg hlooping]
    exact enter_sound hout

theorem sound_of_reachable (h : Reachable u bus functional entry cpu) : Sound cpu := by
  induction h with
  | reset =>
    refine ⟨⟨?_, ?_⟩, Nat.two_pow_pos 32⟩
    · change (0#32).getLsbD 0 = (0x14000100#32).getLsbD 0
      decide
    · change (0#32).getLsbD 0 = (0x14000100#32).getLsbD 1
      decide
  | interrupt pending _ ih => exact interrupt_sound ih pending
  | step s _ ih => exact sound_of_step ih

end Step

end Cdj2000Emulator.C674x.TaskState
