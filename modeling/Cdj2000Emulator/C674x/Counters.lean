import Cdj2000Emulator.C674x.Boundary

namespace Cdj2000Emulator.C674x.Counters

open Library.Stateful LoopBuffer.Model State Transfer Decode Effects Operands Execute Interrupt Fetch LoopStep Step
open Phases
  Issuing Retire LoopFrame Boundary

/-- What a packet leaves alone until it is counted. -/
def tally (cpu : Cpu) : ℕ × Option String := (cpu.packets, cpu.fault)

def Passes (n : ℕ × Option String) (cpu : Cpu) : Prop := tally cpu = n

theorem passes_ite {n : ℕ × Option String} {a b : Cpu} {c : Prop} [Decidable c] (h : c → Passes n a)
    (k : ¬c → Passes n b) :
    Passes n (if c then a else b) := by
  split_ifs with hc
  · exact h hc
  · exact k hc

section Issue

variable {β : Type} {bus : Bus β} {a b : Effects.Issue} {effect : Effect} {effects : List Effect} {s s' : β}

theorem setControl_tally (out : Cpu) (id : ℕ) (value : Word) : tally (out.setControl id value) = tally out := rfl

theorem setReady_tally (out : Cpu) (id cycle : ℕ) : tally (out.setReady id cycle) = tally out := rfl

theorem mvcWrite_tally (out : Cpu) (id : ℕ) (value : Word) : tally (mvcWrite out id value) = tally out := by
  simp only [mvcWrite, apply_ite tally, setReady_tally, setControl_tally, ite_self]

theorem queueResult_tally {entry : Load} (h : a.queueResult entry = .ok b) : tally b.out = tally a.out := by
  unfold Effects.Issue.queueResult at h
  split_ifs at h
  cases h
  rfl

theorem retime_tally {timing : Option Timing} {why : String} (h : a.retime timing why = .ok b) :
    tally b.out = tally a.out := congrArg tally (retime_out h)

theorem apply_tally (h : a.apply effect = .ok b) : tally b.out = tally a.out := by
  cases effect with
  | stop why => cases h
  | result => exact queueResult_tally h
  | resultPair => exact queueResult_tally h
  | nop count => exact retime_tally h
  | idle => exact retime_tally h
  | protectedLoad => exact retime_tally h
  | multicycle cycles why => exact retime_tally h
  | compared latency bank dst value mask =>
    simp only [Effects.Issue.apply] at h
    split_ifs at h
    cases hq : a.queueResult ⟨a.out.cycles + latency, value, bank, dst, .scalar 0 false⟩ with
    | error why =>
      rw [hq] at h
      cases h
    | ok c =>
      rw [hq] at h
      have hqueued := queueResult_tally hq
      cases h
      cases mask with
      | none => exact hqueued
      | some mask => exact hqueued
  | branch target why =>
    simp only [Effects.Issue.apply] at h
    unfold queueBranch at h
    split_ifs at h
    · cases h
      rfl
    · cases h
      rfl
  | mvc id value =>
    simp only [Effects.Issue.apply] at h
    split_ifs at h
    · cases h
      rfl
    · cases h
      rfl
    · cases h
      exact mvcWrite_tally a.out id value
  | _ =>
    simp only [Effects.Issue.apply] at h
    try split_ifs at h
    all_goals
      cases h
      rfl

theorem run_tally (h : a.run bus effects s = (s', .ok b)) : tally b.out = tally a.out := by
  induction effects generalizing a s with
  | nil =>
    cases h
    rfl
  | cons effect effects ih =>
    obtain ⟨c, t, hfirst, hrest⟩ := (run_cons_ok bus).mp h
    exact (ih hrest).trans (apply_tally (perform_ok hfirst))

end Issue

section Retirement

variable {β : Type} {bus : Bus β} {pc : Word} {n : ℕ × Option String} {out : Cpu}

theorem writeBack_tally (load : Load) : tally (writeBack out load) = tally out := by
  unfold writeBack
  dsimp only
  cases load.kind with
  | _ => split_ifs <;> rfl

/-- The CPU that a pass over the queue leaves. -/
def swept : Sweep → Cpu
  | .done out _ _ => out
  | .again out _ _ => out

theorem any_always {α : Type} (x : Exec β α) : Machine.Always (fun _ ↦ True) (fun _ ↦ True) x := by
  intro s
  rcases x s with ⟨t, e | a⟩
  · trivial
  · trivial

theorem sweep_tally (cycles : ℕ) (rest kept : List Load) (written : List Load) (h : Passes n out) :
    Machine.Always (fun result ↦ Passes n (swept result)) (fun _ ↦ True)
      (sweep bus pc cycles rest kept out written) := by
  induction rest generalizing kept out written with
  | nil => exact Machine.always_pure h
  | cons load rest ih =>
    unfold sweep
    refine (any_always _).bind fun load' _ ↦ Machine.always_ite (fun _ ↦ ih _ _ h) fun _ ↦ ?_
    split
    · exact ih _ _ h
    · exact ih _ _ h
    · exact Machine.always_pure h
    · exact Machine.always_pure h
    · exact ih _ _ ((writeBack_tally load').trans h)

theorem retireLoads_tally (cycles passes : ℕ) (loads : List Load) (written : List Load) (h : Passes n out) :
    Machine.Always (fun result ↦ Passes n result.1) (fun _ ↦ True)
      (retireLoads bus pc cycles passes loads out written) := by
  induction passes generalizing loads out written with
  | zero => exact Machine.always_pure h
  | succ passes ih =>
    refine (sweep_tally cycles loads [] written h).bind fun result hresult ↦ ?_
    cases result with
    | done => exact Machine.always_pure hresult
    | again => exact ih _ _ hresult

theorem completeBranch_tally {done : Cpu} (h : completeBranch out = .ok done) : tally done = tally out := by
  unfold completeBranch at h
  dsimp only at h
  split_ifs at h
  all_goals
    cases hqueue : out.branchQueue with
    | nil =>
      simp only [Cpu.loopClearInterruptPhase, Cpu.loopSetInterruptPhase, Cpu.loopSetActive, Cpu.setControl, hqueue] at h
      cases h
      rfl
    | cons b rest =>
      simp only [Cpu.loopClearInterruptPhase, Cpu.loopSetInterruptPhase, Cpu.loopSetActive, Cpu.setControl, hqueue] at h
      cases h
      rfl

theorem retireCycles_tally (m : ℕ) (written : List Load) (h : Passes n out) :
    Machine.Always (fun result ↦ Passes n result.1) (fun _ ↦ True) (retireCycles bus pc m out written) := by
  induction m generalizing out written with
  | zero => exact Machine.always_pure h
  | succ m ih =>
    have hcycle : Machine.Always (fun result ↦ Passes n result.1) (fun _ ↦ True)
        (retireCycle bus pc out written) := by
      refine (Machine.always_modify _).bind fun _ _ ↦ (any_always _).bind fun stores _ ↦ ?_
      extract_lets ticked
      have hticked : Passes n ticked := h
      exact (retireLoads_tally _ _ _ _ hticked).bind fun result hresult ↦ Machine.always_pure hresult
    refine hcycle.bind fun result hresult ↦ Machine.always_ite (fun _ ↦ ?_) fun _ ↦ ih _ hresult
    refine Machine.Always.bind (P := Passes n) (Machine.always_ofExcept ?_) fun out hout ↦ Machine.always_pure hout
    cases hcomplete : completeBranch result.1 with
    | error e => trivial
    | ok done => exact (completeBranch_tally hcomplete).trans hresult

theorem retireCycles_le {m : ℕ} {out' : Cpu} {written written' : List Load} {s t : β}
    (h : retireCycles bus pc m out written s = (t, .ok (out', written'))) :
    out.cycles ≤ out'.cycles ∧ (m ≠ 0 → out.cycles < out'.cycles) := by
  induction m generalizing out written s with
  | zero =>
    cases h
    exact ⟨Nat.le_refl _, fun hne ↦ absurd rfl hne⟩
  | succ m ih =>
    obtain ⟨⟨mid, written₁⟩, s₁, hfirst, hrest⟩ := Machine.bind_ok.mp h
    obtain ⟨-, hcycles, -⟩ := retireCycle_retired hfirst
    have hlater : mid.cycles ≤ out'.cycles := by
      by_cases hcompletes : mid.branchDue ≠ 0 ∧ mid.cycles = mid.branchDue
      · obtain ⟨out₁, _, hdone, hlast⟩ := Machine.bind_ok.mp (by simpa only [if_pos hcompletes] using hrest)
        cases hlast
        exact (completeBranch_ok (congrArg Prod.snd hdone)).2.1.ge
      · exact (ih (by simpa only [if_neg hcompletes] using hrest)).1
    omega

theorem execute_counts {u : Arithmetic} {cpu : Cpu} {packet : Packet} {trace : Trace} {s t : β}
    (h : execute u bus cpu packet s = (t, .ok (out, trace))) :
    out.packets = cpu.packets + 1 ∧ out.fault = cpu.fault ∧ cpu.cycles < out.cycles := by
  obtain ⟨a, s₁, done, -, hissue, -, hretire, rfl, -, -⟩ := execute_ok h
  have hsettled : Passes (tally cpu) (settle packet a).2 := by
    have hissued : tally a.out = tally cpu := run_tally hissue
    unfold settle
    dsimp only
    split_ifs <;> exact hissued
  have hdone : Passes (tally cpu) done := (retireCycles_tally _ _ hsettled).ok_of_run hretire
  obtain ⟨n, hn⟩ := settle_cycles packet a
  have hcycles := (retireCycles_le hretire).2 (by omega)
  have hstart : (settle packet a).2.cycles = cpu.cycles :=
    (congrArg Pipeline.cycles (settle_pipeline packet a)).trans (run_extends hissue).cycles
  refine ⟨congrArg (·.1 + 1) hdone, congrArg Prod.snd hdone, ?_⟩
  exact hstart ▸ hcycles

end Retirement

section Loading

variable {n : ℕ × Option String} {st : Loading} {returning reload : Bool} {mask : Word}

theorem protectedWait_tally (h : Passes n st.out) :
    Yields (fun st' ↦ Passes n st'.out) (fun _ ↦ True) st.protectedWait :=
  yields_ite (fun _ ↦ trivial) fun _ ↦ h

theorem body_tally (insn : Instruction) (h : Passes n st.out) :
    Yields (fun st' ↦ Passes n st'.out) (fun _ ↦ True) (st.body returning mask insn) := by
  have hload (load : Bool) : Yields (fun st' ↦ Passes n st'.out) (fun _ ↦ True)
      (if load then st.protectedWait else .ok st) :=
    yields_ite (fun _ ↦ protectedWait_tally h) fun _ ↦ h
  refine yields_ite (fun _ ↦ trivial) fun _ ↦ yields_ite (fun _ ↦ hload _) fun _ ↦
    (hload _).bind fun st' h' ↦ ?_
  refine yields_ite (fun _ ↦ trivial) fun _ ↦ yields_ite (fun _ ↦ h') fun _ ↦
    yields_ite (fun _ ↦ trivial) fun _ ↦ ?_
  unfold Loading.store
  refine yields_ite (fun _ ↦ ?_) fun _ ↦ yields_ite (fun _ ↦ trivial) fun _ ↦ h'
  split
  · trivial
  · exact h'

theorem instruction_tally (slot : Instruction × ℕ) (h : Passes n st.out) :
    Yields (fun st' ↦ Passes n st'.out) (fun _ ↦ True) (st.instruction reload returning mask slot) := by
  refine yields_ite (fun _ ↦ trivial) fun _ ↦ yields_ite (fun _ ↦ ?_) fun _ ↦
    yields_ite (fun _ ↦ ?_) fun _ ↦
    yields_ite (fun _ ↦ trivial) fun _ ↦ ?_
  · exact yields_ite (fun _ ↦ trivial) fun _ ↦ h
  · refine yields_ite (fun _ ↦ trivial) fun _ ↦ yields_ite (fun _ ↦ trivial) fun _ ↦ ?_
    cases kernelDelay st.out.loop slot.1 with
    | error why => trivial
    | ok delay => exact h
  · cases (if returning then returnedNop slot.1 else .ok (nopCycles slot.1) : Except String ℕ) with
    | error why => trivial
    | ok count =>
      refine yields_ite (fun _ ↦ yields_ite (fun _ ↦ trivial) fun _ ↦ ?_) fun _ ↦ body_tally slot.1 h
      split_ifs
      · exact h
      · exact h

end Loading

section Phase

variable {β : Type} {bus : Bus β} {functional : Bool} {pc : Word} {n : ℕ × Option String} {cpu out : Cpu}

theorem finishLoading_tally {st : Loading} {reload returning : Bool} (h : Passes n st.out) :
    Yields (Passes n) (fun _ ↦ True) (finishLoading functional pc reload returning st) := by
  have hany {α : Type} (x : Except Fault α) : Yields (fun _ ↦ True) (fun _ ↦ True) x := by
    cases x with
    | error e => trivial
    | ok a => trivial
  unfold finishLoading
  refine (hany _).bind fun loop _ ↦ (hany _).bind fun loop _ ↦ ?_
  exact yields_ite (fun _ ↦ yields_ite (fun _ ↦ trivial) fun _ ↦ h) fun _ ↦ h

theorem loadPacket_tally (h : Passes n out) :
    Machine.Always (fun source ↦ Passes n source.out) (fun _ ↦ True) (loadPacket bus functional pc out) := by
  refine (any_always _).bind fun source _ ↦ ?_
  refine Machine.Always.bind (P := fun st ↦ Passes n st.out) ?_ fun st hst ↦ ?_
  · refine Machine.Always.foldlM (fun st slot hst ↦ ?_) _ _ h
    exact (Machine.always_ofExcept (instruction_tally slot hst)).mapError fun why _ ↦ trivial
  · exact (Machine.always_ofExcept (finishLoading_tally hst)).bind fun _ h ↦ Machine.always_pure h

theorem idleTick_tally (h : Passes n out) : Passes n (idleTick out) := passes_ite (fun _ ↦ h) fun _ ↦ h

theorem postPacket_tally {source : Source} (h : Passes n source.out) :
    Machine.Always (fun source ↦ Passes n source.out) (fun _ ↦ True) (postPacket bus source) := by
  refine (any_always _).bind fun packet _ ↦ ?_
  dsimp only
  split
  · exact Machine.always_fail trivial
  · exact Machine.always_pure h

theorem loopSource_tally (h : Passes n cpu) :
    Machine.Always (fun source ↦ Passes n source.out) (fun _ ↦ True) (loopSource bus functional cpu) := by
  unfold loopSource
  dsimp only
  refine Machine.Always.bind (P := fun source ↦ Passes n source.out) ?_ fun source hsource ↦ ?_
  · refine Machine.always_ite (fun _ ↦ Machine.always_pure h) fun _ ↦
      Machine.always_ite (fun _ ↦ loadPacket_tally h) fun _ ↦ ?_
    refine Machine.Always.bind (P := Passes n) (Machine.always_ofExcept ?_) fun out hout ↦ Machine.always_pure hout
    unfold waitLoading
    split
    · trivial
    · exact h
  · exact Machine.always_ite (fun _ ↦ postPacket_tally hsource) fun _ ↦
      Machine.always_pure (idleTick_tally hsource)

theorem issueLoop_tally {source : Source} (h : Passes n source.out) :
    Yields (fun issued ↦ Passes n issued.1) (fun _ ↦ True) (issueLoop cpu source) := by
  unfold issueLoop
  dsimp only
  split
  · trivial
  · exact yields_ite (fun _ ↦ trivial) fun _ ↦ yields_ite (fun _ ↦ trivial) fun _ ↦ h

theorem sampleCondition_tally {packet : Packet} {scheduler : LoopBuffer.Model.Issue} (h : Passes n out) :
    Yields (fun c ↦ Passes n c.out) (fun _ ↦ True) (sampleCondition cpu out packet scheduler) := by
  refine yields_ite (fun _ ↦ trivial) fun _ ↦ yields_ite (fun _ ↦ ?_) fun _ ↦ h
  exact yields_ite (fun _ ↦ trivial) fun _ ↦ yields_ite (fun _ ↦ trivial) fun _ ↦ h

theorem loopCycle_tally (h : Passes n cpu) :
    Machine.Always (fun c ↦ Passes n c.out) (fun _ ↦ True) (loopCycle bus functional cpu) := by
  refine (loopSource_tally h).bind fun source hsource ↦ ?_
  refine (Machine.always_ofExcept (issueLoop_tally hsource)).bind fun issued hissued ↦ ?_
  exact Machine.always_ofExcept (sampleCondition_tally hissued)

theorem afterExecute_tally (c : Cycle) (armed draining branchMatures : Bool) (h : Passes n out) :
    Yields (Passes n) (fun _ ↦ True) (afterExecute pc c armed draining branchMatures out) := by
  have hkept : Passes n (if branchMatures then keepReloading out else out) :=
    passes_ite (fun _ ↦ passes_ite (fun _ ↦ h) fun _ ↦ h) fun _ ↦ h
  have hreload {out : Cpu} (h : Passes n out) : Passes n (reloadUpdate c out) :=
    passes_ite (fun _ ↦ h) fun _ ↦ passes_ite (fun _ ↦ passes_ite (fun _ ↦ h) fun _ ↦ h) fun _ ↦
      passes_ite (fun _ ↦ h) fun _ ↦ h
  have hupdated {out : Cpu} (h : Passes n out) : Passes n (ilcUpdate c armed draining out) :=
    passes_ite (fun _ ↦ hreload h) fun _ ↦ passes_ite (fun _ ↦ passes_ite (fun _ ↦ h) fun _ ↦ h) fun _ ↦
      passes_ite (fun _ ↦ h) fun _ ↦ h
  refine Yields.bind (P := Passes n) (yields_ite (fun _ ↦ ?_) fun _ ↦ hupdated hkept) fun out hout ↦ ?_
  · unfold startDrain
    split
    · trivial
    · exact hupdated hkept
  · have hended : Passes n (if c.endWhile then
        let out := out.loopSetActive false
        if draining then out.loopClearInterruptPhase.loopClearRetained else out
      else out) :=
      passes_ite (fun _ ↦ passes_ite (fun _ ↦ hout) fun _ ↦ hout) fun _ ↦ hout
    exact passes_ite (fun _ ↦ hended) fun _ ↦ hended

theorem prepare_tally (s : Start) (loop : Loop) (h : Passes n cpu) : Passes n (s.prepare cpu loop) := by
  unfold Start.prepare
  extract_lets looped marked context reloading predicated
  have hreloading : Passes n reloading := passes_ite (fun _ ↦ h) fun _ ↦ h
  exact passes_ite (fun _ ↦ hreloading) fun _ ↦ hreloading

theorem activate_tally (s : Start) (h : Passes n out) : Passes n (activate cpu s out) := by
  unfold activate
  extract_lets active idled marked tagged
  have hmarked : Passes n marked :=
    passes_ite (fun _ ↦ h) fun _ ↦ passes_ite (fun _ ↦ h) fun _ ↦ h
  exact passes_ite (fun _ ↦ hmarked) fun _ ↦ hmarked

/-- Neither what precedes execution in a step nor what follows it counts. -/
structure PhasePasses (n : ℕ × Option String) (p : Phase) : Prop where
  before : Passes n p.cpu
  after : ∀ {m out}, Passes m out → Yields (Passes m) (fun _ ↦ True) (p.finish out)

theorem setupPhase_tally (packet : Packet) (s : Start) (h : Passes n cpu) :
    Machine.Always (PhasePasses n) (fun _ ↦ True) (setupPhase cpu packet s : Exec β Phase) := by
  unfold setupPhase
  dsimp only
  cases s.refusal cpu with
  | some why => exact Machine.always_fail trivial
  | none =>
    dsimp only
    cases init s.ii (cpu.control 13).toNat with
    | none => exact Machine.always_fail trivial
    | some loop =>
      refine (any_always _).bind fun _ _ ↦ ?_
      cases setupConflict packet.instructions.tail with
      | some e => exact Machine.always_fail trivial
      | none =>
        refine Machine.always_pure ⟨prepare_tally s loop h, fun {m out} hout ↦ ?_⟩
        have hdelayed : Yields (Passes m) (fun _ ↦ True) (delayedIterations cpu.pc s out) :=
          yields_ite (fun _ ↦ hout) fun _ ↦ yields_ite (fun _ ↦ trivial) fun _ ↦ hout
        dsimp only
        cases hrun : delayedIterations cpu.pc s out with
        | error e => trivial
        | ok done => exact activate_tally s (hdelayed.ok_of_eq hrun)

theorem prepared_tally (h : Passes n cpu) :
    Machine.Always (PhasePasses n) (fun _ ↦ True) (prepare bus functional cpu) := by
  refine Machine.always_ite (fun _ ↦ ?_) fun _ ↦ Machine.always_ite (fun _ ↦ ?_) fun _ ↦ ?_
  · refine (loopCycle_tally h).bind fun c hc ↦ Machine.always_pure ⟨hc, fun hout ↦ ?_⟩
    exact afterExecute_tally c _ _ _ hout
  · exact Machine.always_pure ⟨idleTick_tally h, fun hout ↦ hout⟩
  · refine (any_always _).bind fun packet _ ↦ ?_
    split
    · exact Machine.always_pure ⟨h, fun hout ↦ hout⟩
    · exact Machine.always_fail trivial
    · exact setupPhase_tally packet _ h

end Phase

section Step

variable {β : Type} {u : Arithmetic} {bus : Bus β} {functional : Bool} {cpu : Cpu} {s : β}

theorem step_counts (h : (step u bus functional s cpu).accepted = true) :
    (step u bus functional s cpu).cpu.packets = cpu.packets + 1 ∧
      (step u bus functional s cpu).cpu.fault = none ∧ cpu.cycles < (step u bus functional s cpu).cpu.cycles := by
  obtain ⟨hrunning, p, trace, done, s₁, s₂, hprepared, hexecuted, hfinished⟩ := step_accepted h
  have hphase := (prepared_tally (n := tally cpu) rfl).ok_of_run hprepared
  obtain ⟨hbefore, hafter⟩ := (prepare_framed hrunning).ok_of_run hprepared
  obtain ⟨hpackets, hfault, hcycles⟩ := execute_counts hexecuted
  have htally : tally (step u bus functional s cpu).cpu = tally done :=
    (hphase.after (m := tally done) rfl).ok_of_eq hfinished
  have hlast : (step u bus functional s cpu).cpu.cycles = done.cycles :=
    congrArg Pipeline.cycles ((hafter done).ok_of_eq hfinished).pipeline
  have hfirst : p.cpu.cycles = cpu.cycles := congrArg Pipeline.cycles hbefore.pipeline
  refine ⟨?_, ?_, ?_⟩
  · exact (congrArg Prod.fst htally).trans (hpackets.trans (congrArg (·.1 + 1) hphase.before))
  · exact (congrArg Prod.snd htally).trans (hfault.trans ((congrArg Prod.snd hphase.before).trans hrunning))
  · rw [hlast, ← hfirst]
    exact hcycles

theorem step_refused (h : (step u bus functional s cpu).accepted = false) :
    (step u bus functional s cpu).cpu.packets = cpu.packets ∧
    (step u bus functional s cpu).cpu.cycles = cpu.cycles ∧
      (step u bus functional s cpu).cpu.fault.isSome := by
  unfold step at h ⊢
  split_ifs at h ⊢ with hstopped
  · exact ⟨rfl, rfl, hstopped⟩
  · rcases hran : stepBody u bus functional cpu s with ⟨t, e | ⟨out, trace⟩⟩
    · exact ⟨rfl, rfl, rfl⟩
    · rw [hran] at h
      cases h

end Step

section Interrupt

variable {functional : Bool} {n : ℕ × Option String} {cpu out : Cpu}

/-- What an interrupt call leaves: the counters, and a fault exactly if it is refused. -/
structure Answers (n : ℕ × Option String) (r : Cpu × Bool) : Prop where
  packets : r.1.packets = n.1
  taken : r.2 = true → Passes n r.1
  refused : r.2 = false → r.1.fault.isSome

theorem answers_taken (h : Passes n out) : Answers n (out, true) := by
  refine ⟨congrArg Prod.fst h, fun _ ↦ h, fun hfalse ↦ ?_⟩
  cases hfalse

theorem answers_refused (e : Fault) (h : Passes n out) : Answers n (out.stop e, false) := by
  refine ⟨congrArg Prod.fst h, fun htrue ↦ ?_, fun _ ↦ rfl⟩
  cases htrue

theorem armLoop_tally (h : Passes n out) : Yields (Passes n) (fun _ ↦ True) (armLoop out) := by
  refine yields_ite (fun _ ↦ trivial) fun _ ↦ yields_ite (fun _ ↦ h) fun _ ↦
    yields_ite (fun _ ↦ h) fun _ ↦ yields_ite (fun _ ↦ trivial) fun _ ↦ ?_
  cases hcapture : out.loopCaptureRetained with
  | none => trivial
  | some done =>
    unfold Cpu.loopCaptureRetained at hcapture
    split_ifs at hcapture
    cases hcapture
    exact h

theorem interruptPipeDown_tally {done : Cpu} (h : interruptPipeDown functional out = some done) :
    tally done = tally out := by
  cases functional with
  | false =>
    cases h
    rfl
  | true =>
    simp only [interruptPipeDown, Bool.not_true, Bool.false_eq_true, if_false, Option.ite_none_left_eq_some,
      Option.some.injEq] at h
    rw [← h.2]
    rfl

theorem enter_answers (h : Passes n cpu) : Answers n (enter functional cpu) := by
  unfold enter
  split_ifs
  · exact answers_refused _ h
  · extract_lets selected interruptedLoop cleared taken out
    have hout : Passes n out := by
      have hcleared : Passes n cleared := passes_ite (fun _ ↦ h) fun _ ↦ h
      exact hcleared
    cases hdown : interruptPipeDown functional out with
    | none => exact answers_refused _ hout
    | some done => exact answers_taken ((interruptPipeDown_tally hdown).trans hout)

theorem interrupt_answers (h : cpu.fault = none) (pending : Word) :
    Answers (tally cpu) (interrupt functional cpu pending) := by
  unfold interrupt
  rw [if_neg (by simp [h])]
  by_cases hinvalid : pending &&& ~~~maskable ≠ 0
  · rw [if_pos hinvalid]
    exact answers_refused _ rfl
  rw [if_neg hinvalid]
  extract_lets out
  have hout : Passes (tally cpu) out := rfl
  by_cases hmasked : out.control 1 &&& 1#32 = 0 ∨ out.control 4 &&& 2#32 = 0 ∨ eligible out = 0
  · rw [if_pos hmasked]
    split_ifs
    · exact answers_taken hout
    · exact answers_taken hout
  rw [if_neg hmasked]
  by_cases hbranching : out.branchDue ≠ 0 ∨ out.branchQueue ≠ []
  · rw [if_pos hbranching]
    exact answers_taken hout
  rw [if_neg hbranching]
  by_cases hlooping : out.loopActive = true
  · rw [if_pos hlooping]
    cases harm : armLoop out with
    | error e => exact answers_refused e hout
    | ok done => exact answers_taken ((armLoop_tally hout).ok_of_eq harm)
  · rw [if_neg hlooping]
    exact enter_answers hout

end Interrupt

end Cdj2000Emulator.C674x.Counters
