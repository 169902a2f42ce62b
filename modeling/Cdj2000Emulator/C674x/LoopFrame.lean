import Cdj2000Emulator.C674x.Phases
import Cdj2000Emulator.C674x.Footprint

namespace Cdj2000Emulator.C674x.LoopFrame

open Library.Stateful LoopBuffer.Model State Transfer Decode Execute Fetch Interrupt LoopStep Step
  Phases Footprint

/-- Neither the pipeline nor the fault changes. -/
structure Frame (cpu out : Cpu) : Prop where
  pipeline : out.pipeline = cpu.pipeline
  fault : out.fault = cpu.fault

theorem Frame.refl (cpu : Cpu) : Frame cpu cpu := ⟨rfl, rfl⟩

theorem Frame.trans {a b c : Cpu} (h : Frame a b) (k : Frame b c) : Frame a c :=
  ⟨k.pipeline.trans h.pipeline, k.fault.trans h.fault⟩

def Other (why : String) : Prop := why ≠ storeQueueFull

def OtherFault (e : Fault) : Prop := Other e.why

theorem refused {α : Type} {P : α → Prop} {why : String} (h : why ≠ storeQueueFull) :
    Yields P Other (.error why) := h

theorem faulted {α : Type} {P : α → Prop} {pc word : Word} {why : String}
    (h : why ≠ storeQueueFull) : Yields P OtherFault (.error ⟨pc, word, why⟩) := h

theorem fails {α β : Type} {P : α → Prop} {pc word : Word} {why : String}
    (h : why ≠ storeQueueFull) :
    Machine.Always P OtherFault (Machine.fail ⟨pc, word, why⟩ : Exec β α) :=
  Machine.always_fail h

section Loading

variable {cpu : Cpu} {st : Loading} {returning reload : Bool} {mask : Word} {insn : Instruction}

theorem protectedWait_frame (h : Frame cpu st.out) :
    Yields (fun st' ↦ Frame cpu st'.out) Other st.protectedWait :=
  yields_ite (fun _ ↦ refused (by simp [storeQueueFull])) fun _ ↦ h.trans ⟨rfl, rfl⟩

theorem store_frame (h : Frame cpu st.out) :
    Yields (fun st' ↦ Frame cpu st'.out) Other (st.store returning insn) := by
  unfold Loading.store
  refine yields_ite (fun _ ↦ ?_) fun _ ↦
    yields_ite (fun _ ↦ refused (by simp [storeQueueFull])) fun _ ↦ h.trans ⟨rfl, rfl⟩
  split
  · exact refused (by simp [storeQueueFull])
  · exact h

theorem protectedLoad_frame (h : Frame cpu st.out) (load : Bool) :
    Yields (fun st' ↦ Frame cpu st'.out) Other (if load then st.protectedWait else .ok st) :=
  yields_ite (fun _ ↦ protectedWait_frame h) fun _ ↦ h

theorem body_frame (h : Frame cpu st.out) :
    Yields (fun st' ↦ Frame cpu st'.out) Other (st.body returning mask insn) := by
  refine yields_ite (fun _ ↦ refused (by simp [storeQueueFull])) fun _ ↦
    yields_ite (fun _ ↦ protectedLoad_frame h _) fun _ ↦ (protectedLoad_frame h _).bind ?_
  intro st' h'
  refine yields_ite (fun _ ↦ refused (by simp [storeQueueFull])) fun _ ↦
    yields_ite (fun _ ↦ h') fun _ ↦ yields_ite (fun _ ↦ refused (by simp [storeQueueFull])) fun _ ↦
      store_frame h'

theorem kernelDelay_other (loop : Loop) (insn : Instruction) :
    Yields (fun _ ↦ True) Other (kernelDelay loop insn) :=
  yields_ite (fun _ ↦ refused (by simp [storeQueueFull])) fun _ ↦
    yields_ite (fun _ ↦ refused (by simp [storeQueueFull])) fun _ ↦ trivial

theorem returnedNop_other (insn : Instruction) :
    Yields (fun _ ↦ True) Other (returnedNop insn) :=
  yields_ite (fun _ ↦ yields_ite (fun _ ↦ refused (by simp [storeQueueFull])) fun _ ↦ trivial)
    fun _ ↦ yields_ite (fun _ ↦ trivial) fun _ ↦ trivial

theorem instruction_frame (slot : Instruction × ℕ) (h : Frame cpu st.out) :
    Yields (fun st' ↦ Frame cpu st'.out) Other (st.instruction reload returning mask slot) := by
  refine yields_ite (fun _ ↦ refused (by simp [storeQueueFull])) fun _ ↦
    yields_ite (fun _ ↦ ?_) fun _ ↦ yields_ite (fun _ ↦ ?_) fun _ ↦
    yields_ite (fun _ ↦ refused (by simp [storeQueueFull])) fun _ ↦ ?_
  · exact yields_ite (fun _ ↦ refused (by simp [storeQueueFull])) fun _ ↦ h
  · refine yields_ite (fun _ ↦ refused (by simp [storeQueueFull])) fun _ ↦
      yields_ite (fun _ ↦ refused (by simp [storeQueueFull])) fun _ ↦ ?_
    exact (kernelDelay_other _ _).bind fun _ _ ↦ h
  · refine Yields.bind (P := fun _ ↦ True)
      (yields_ite (fun _ ↦ returnedNop_other _) fun _ ↦ trivial) fun n _ ↦ ?_
    refine yields_ite (fun _ ↦ yields_ite (fun _ ↦ refused (by simp [storeQueueFull])) fun _ ↦ ?_)
      fun _ ↦ body_frame h
    split_ifs
    · exact h.trans ⟨rfl, rfl⟩
    · exact h

end Loading

section Fetch

variable {β : Type} {bus : Bus β} {cpu : Cpu}

theorem fetchHeader_other (p : Progress) :
    Machine.Always (fun _ ↦ True) OtherFault (fetchHeader bus p) := by
  have read : Machine.Always (fun _ ↦ True) OtherFault
      ((bus.fetchWord ((p.next &&& ~~~31#32) + 28)).orFail
        (⟨p.next, 0, "unmapped instruction fetch"⟩ : Fault)) :=
    Machine.always_orFail (by simp [OtherFault, Other, storeQueueFull])
  unfold fetchHeader
  dsimp only
  split
  · split_ifs
    · exact Machine.always_pure trivial
    · exact read
  · exact read

theorem fetchRounds_other (rounds : ℕ) (p : Progress) :
    Machine.Always (fun _ ↦ True) OtherFault (fetchRounds bus rounds p) := by
  induction rounds generalizing p with
  | zero => exact Machine.always_pure trivial
  | succ rounds ih =>
    have other {α : Type} {x : Access β α} {pc word : Word} {why : String} (h : why ≠ storeQueueFull) :
        Machine.Always (fun _ ↦ True) OtherFault (x.orFail (⟨pc, word, why⟩ : Fault)) :=
      Machine.always_orFail h
    have checked {c : Prop} [Decidable c] {pc word : Word} {why : String} (h : why ≠ storeQueueFull) :
        Machine.Always (fun _ ↦ c) OtherFault (Machine.require c ⟨pc, word, why⟩ : Exec β Unit) :=
      Machine.always_require fun _ ↦ h
    unfold fetchRounds
    refine (checked (by simp [storeQueueFull])).bind fun _ _ ↦ (fetchHeader_other p).bind fun header _ ↦ ?_
    refine Machine.always_ite (fun _ ↦ ih _) fun _ ↦
      (checked (by simp [storeQueueFull])).bind fun _ _ ↦
      (checked (by simp [storeQueueFull])).bind fun _ _ ↦
      (other (by simp [storeQueueFull])).bind fun _ _ ↦
      (checked (by simp [storeQueueFull])).bind fun _ _ ↦ ?_
    exact Machine.always_ite (fun _ ↦ ih _) fun _ ↦ Machine.always_pure trivial

theorem fetch_other (running : cpu.fault = none) :
    Machine.Always (fun _ ↦ True) OtherFault (fetch bus cpu) := by
  unfold fetch
  rw [running]
  exact (fetchRounds_other _ _).bind fun _ _ ↦ Machine.always_pure trivial

end Fetch

section Source

variable {β : Type} {bus : Bus β} {functional : Bool} {pc : Word} {cpu out : Cpu}

theorem finishLoading_frame {st : Loading} {reload returning : Bool} (h : Frame cpu st.out) :
    Yields (Frame cpu) OtherFault (finishLoading functional pc reload returning st) := by
  unfold finishLoading
  refine Yields.bind (P := fun _ ↦ True) ?_ fun loop _ ↦ Yields.bind (P := fun _ ↦ True) ?_ fun loop _ ↦ ?_
  · cases st.out.loop.load functional st.tags st.finish st.delay with
    | none => exact faulted (by simp [storeQueueFull])
    | some loop => trivial
  · refine yields_ite (fun _ ↦ ?_) fun _ ↦ trivial
    cases sealReload loop with
    | none => exact faulted (by simp [storeQueueFull])
    | some loop => trivial
  · refine yields_ite (fun _ ↦ yields_ite (fun _ ↦ faulted (by simp [storeQueueFull])) fun _ ↦ ?_) fun _ ↦ ?_
    · exact h.trans ⟨rfl, rfl⟩
    · exact h.trans ⟨rfl, rfl⟩

theorem loadPacket_frame (running : out.fault = none) :
    Machine.Always (fun source ↦ Frame out source.out) OtherFault (loadPacket bus functional pc out) := by
  refine (fetch_other running).bind fun source _ ↦ ?_
  refine Machine.Always.bind (P := fun st ↦ Frame out st.out) ?_ fun st h ↦ ?_
  · refine Machine.Always.foldlM (fun st slot h ↦ ?_) _ _ ⟨rfl, rfl⟩
    exact (Machine.always_ofExcept (instruction_frame slot h)).mapError fun why other ↦ other
  · exact (Machine.always_ofExcept (finishLoading_frame h)).bind fun _ h ↦ Machine.always_pure h

theorem waitLoading_frame : Yields (Frame out) OtherFault (waitLoading functional pc out) := by
  unfold waitLoading
  split
  · exact faulted (by simp [storeQueueFull])
  · exact ⟨rfl, rfl⟩

theorem postConflict_other : ∀ (insns : List Instruction) (e : Fault),
    postConflict insns = some e → OtherFault e
  | [], e, h => by cases h
  | insn :: rest, e, h => by
    unfold postConflict at h
    split_ifs at h
    · cases h
      simp [OtherFault, Other, storeQueueFull]
    · cases h
      simp [OtherFault, Other, storeQueueFull]
    · exact postConflict_other rest e h

theorem postPacket_frame {source : Source} (running : source.out.fault = none)
    (h : Frame cpu source.out) :
    Machine.Always (fun source ↦ Frame cpu source.out) OtherFault (postPacket bus source) := by
  refine (fetch_other running).bind fun packet _ ↦ ?_
  dsimp only
  generalize (if ((packet.instructions.head?).bind spmaskDecode).isSome = true then
    packet.instructions.tail else packet.instructions) = rest
  cases conflict : postConflict rest with
  | some e => exact Machine.always_fail (postConflict_other rest e conflict)
  | none => exact Machine.always_pure h

theorem idleTick_frame : Frame out (idleTick out) := by
  unfold idleTick
  split_ifs
  · exact ⟨rfl, rfl⟩
  · exact Frame.refl out

theorem loopSource_frame (running : cpu.fault = none) :
    Machine.Always (fun source ↦ Frame cpu source.out) OtherFault (loopSource bus functional cpu) := by
  have kept : Frame cpu (cpu.setControl 26 (cpu.control 26 ||| tsrSplx)) := ⟨rfl, rfl⟩
  have still : (cpu.setControl 26 (cpu.control 26 ||| tsrSplx)).fault = none := running
  unfold loopSource
  dsimp only
  refine Machine.Always.bind (P := fun source ↦ Frame cpu source.out) ?_ fun source h ↦ ?_
  · refine Machine.always_ite (fun _ ↦ Machine.always_pure kept) fun _ ↦
      Machine.always_ite (fun _ ↦ ?_) fun _ ↦ ?_
    · exact (loadPacket_frame still).mono fun source h ↦ kept.trans h
    · refine (Machine.always_ofExcept waitLoading_frame).bind fun out h ↦ Machine.always_pure ?_
      exact kept.trans h
  · refine Machine.always_ite (fun _ ↦ postPacket_frame (h.fault.trans running) h) fun _ ↦
      Machine.always_pure (h.trans idleTick_frame)

end Source

section Cycle

variable {β : Type} {bus : Bus β} {functional : Bool} {pc : Word} {cpu out : Cpu}

theorem issueLoop_frame {source : Source} (h : Frame cpu source.out) :
    Yields (fun issued ↦ Frame cpu issued.1) OtherFault (issueLoop cpu source) := by
  unfold issueLoop
  dsimp only
  split
  · exact faulted (by simp [storeQueueFull])
  · refine yields_ite (fun _ ↦ faulted (by simp [storeQueueFull])) fun _ ↦
      yields_ite (fun _ ↦ faulted (by simp [storeQueueFull])) fun _ ↦ h.trans ⟨rfl, rfl⟩

theorem sampleCondition_frame {packet : Packet} {scheduler : Issue} (h : Frame cpu out) :
    Yields (fun c ↦ Frame cpu c.out) OtherFault (sampleCondition cpu out packet scheduler) := by
  refine yields_ite (fun _ ↦ faulted (by simp [storeQueueFull])) fun _ ↦ yields_ite (fun _ ↦ ?_) fun _ ↦ ?_
  · refine yields_ite (fun _ ↦ faulted (by simp [storeQueueFull])) fun _ ↦
      yields_ite (fun _ ↦ faulted (by simp [storeQueueFull])) fun _ ↦ h.trans ⟨rfl, rfl⟩
  · exact h.trans ⟨rfl, rfl⟩

theorem loopCycle_frame (running : cpu.fault = none) :
    Machine.Always (fun c ↦ Frame cpu c.out) OtherFault (loopCycle bus functional cpu) := by
  refine (loopSource_frame running).bind fun source h ↦ ?_
  refine (Machine.always_ofExcept (issueLoop_frame h)).bind fun issued h ↦ ?_
  exact Machine.always_ofExcept (sampleCondition_frame h)

/-- What follows execution leaves the pipeline and the program counter. -/
structure After (out done : Cpu) : Prop extends Frame out done where
  pc : done.pc = out.pc

theorem After.refl (out : Cpu) : After out out := ⟨Frame.refl out, rfl⟩

theorem After.trans {a b c : Cpu} (h : After a b) (k : After b c) : After a c :=
  ⟨h.toFrame.trans k.toFrame, k.pc.trans h.pc⟩

theorem after_ite {c : Prop} [Decidable c] {done done' : Cpu} (h : c → After out done)
    (k : ¬c → After out done') : After out (if c then done else done') := by
  split_ifs with hc
  · exact h hc
  · exact k hc

theorem keepReloading_after : After out (keepReloading out) :=
  after_ite (fun _ ↦ ⟨⟨rfl, rfl⟩, rfl⟩) fun _ ↦ ⟨⟨rfl, rfl⟩, rfl⟩

theorem reloadUpdate_after (c : Cycle) : After out (reloadUpdate c out) := by
  refine after_ite (fun _ ↦ After.refl out) fun _ ↦ after_ite (fun _ ↦ after_ite (fun _ ↦ ?_) fun _ ↦ ?_)
    fun _ ↦ after_ite (fun _ ↦ ?_) fun _ ↦ After.refl out
  · exact ⟨⟨rfl, rfl⟩, rfl⟩
  · exact ⟨⟨rfl, rfl⟩, rfl⟩
  · exact ⟨⟨rfl, rfl⟩, rfl⟩

theorem ilcUpdate_after (c : Cycle) (armed draining : Bool) :
    After out (ilcUpdate c armed draining out) := by
  refine after_ite (fun _ ↦ reloadUpdate_after c) fun _ ↦
    after_ite (fun _ ↦ after_ite (fun _ ↦ ?_) fun _ ↦ ?_)
    fun _ ↦ after_ite (fun _ ↦ ?_) fun _ ↦ After.refl out
  · exact ⟨⟨rfl, rfl⟩, rfl⟩
  · exact After.refl out
  · exact ⟨⟨rfl, rfl⟩, rfl⟩

theorem startDrain_after : Yields (After out) OtherFault (startDrain pc out) := by
  unfold startDrain
  split
  · exact faulted (by simp [storeQueueFull])
  · exact ⟨⟨rfl, rfl⟩, rfl⟩

theorem endLoop_after (c : Cycle) (draining : Bool) : After out (endLoop c draining out) := by
  have ended : After out (if c.endWhile then
      let out := out.loopSetActive false
      if draining then out.loopClearInterruptPhase.loopClearRetained else out
    else out) :=
    after_ite (fun _ ↦ after_ite (fun _ ↦ ⟨⟨rfl, rfl⟩, rfl⟩) fun _ ↦ ⟨⟨rfl, rfl⟩, rfl⟩) fun _ ↦
      After.refl out
  exact after_ite (fun _ ↦ ended.trans ⟨⟨rfl, rfl⟩, rfl⟩) fun _ ↦ ended

theorem afterExecute_after (c : Cycle) (armed draining branchMatures : Bool) :
    Yields (After out) OtherFault (afterExecute pc c armed draining branchMatures out) := by
  have reloaded : After out (if branchMatures then keepReloading out else out) :=
    after_ite (fun _ ↦ keepReloading_after) fun _ ↦ After.refl out
  have updated := reloaded.trans (ilcUpdate_after c armed draining)
  refine Yields.bind (P := After out) ?_ fun drained h ↦ h.trans (endLoop_after c draining)
  exact yields_ite (fun _ ↦ startDrain_after.mono fun _ h ↦ updated.trans h) fun _ ↦ updated

end Cycle

section Setup

variable {cpu out : Cpu}

theorem frame_ite {c : Prop} [Decidable c] {out' : Cpu} (h : Frame cpu out) (k : Frame cpu out') :
    Frame cpu (if c then out else out') := by
  split_ifs
  · exact h
  · exact k

theorem prepare_frame (s : Start) (loop : Loop) : Frame cpu (s.prepare cpu loop) := by
  unfold Start.prepare
  extract_lets looped marked context reloading predicated
  have hmarked : Frame cpu marked := ⟨rfl, rfl⟩
  have hreloading : Frame cpu reloading := frame_ite (hmarked.trans ⟨rfl, rfl⟩) hmarked
  have hpredicated : Frame cpu predicated := frame_ite (hreloading.trans ⟨rfl, rfl⟩) hreloading
  exact hpredicated.trans ⟨rfl, rfl⟩

theorem delayedIterations_after (pc : Word) (s : Start) (out : Cpu) :
    Yields (After out) OtherFault (delayedIterations pc s out) :=
  yields_ite (fun _ ↦ After.refl out) fun _ ↦
    yields_ite (fun _ ↦ faulted (by simp [storeQueueFull])) fun _ ↦ ⟨⟨rfl, rfl⟩, rfl⟩

theorem activate_after (s : Start) : After out (activate cpu s out) := by
  unfold activate
  dsimp only
  split_ifs <;> exact ⟨⟨rfl, rfl⟩, rfl⟩

theorem setupConflict_other : ∀ (insns : List Instruction) (e : Fault),
    setupConflict insns = some e → OtherFault e
  | [], e, h => by cases h
  | insn :: rest, e, h => by
    unfold setupConflict at h
    dsimp only at h
    split_ifs at h
    · cases h
      simp [OtherFault, Other, storeQueueFull]
    · cases h
      simp [OtherFault, Other, storeQueueFull]
    · exact setupConflict_other rest e h

theorem refusal_other {s : Start} {why : String} (h : s.refusal cpu = some why) :
    why ≠ storeQueueFull := by
  unfold Start.refusal at h
  dsimp only at h
  repeat' split at h
  all_goals cases h
  all_goals simp [storeQueueFull]

end Setup

/-- What a step executes has the pipeline that the step found, and what follows leaves it. -/
structure Framed (cpu : Cpu) (p : Phase) : Prop where
  before : Frame cpu p.cpu
  after : ∀ out, Yields (After out) OtherFault (p.finish out)

section Phase

variable {β : Type} {bus : Bus β} {functional : Bool} {cpu : Cpu}

theorem setupPhase_framed (packet : Packet) (s : Start) :
    Machine.Always (Framed cpu) OtherFault (setupPhase cpu packet s : Exec β Phase) := by
  unfold setupPhase
  dsimp only
  cases refused : s.refusal cpu with
  | some why => exact fails (refusal_other refused)
  | none =>
    dsimp only
    split
    · exact fails (by simp [storeQueueFull])
    · refine Machine.Always.bind (P := fun _ ↦ True)
        ((Machine.always_require fun _ ↦ by simp [OtherFault, Other, storeQueueFull]).mono fun _ _ ↦ trivial)
        fun _ _ ↦ ?_
      cases conflict : setupConflict packet.instructions.tail with
      | some e => exact Machine.always_fail (setupConflict_other _ e conflict)
      | none =>
        refine Machine.always_pure ⟨prepare_frame s _, fun out ↦ ?_⟩
        have delayed := delayedIterations_after cpu.pc s out
        dsimp only
        cases h : delayedIterations cpu.pc s out with
        | error e => exact delayed.error_of_eq h
        | ok done => exact (delayed.ok_of_eq h).trans (activate_after s)

theorem directPhase_framed (running : cpu.fault = none) :
    Machine.Always (Framed cpu) OtherFault (directPhase bus cpu) := by
  refine (fetch_other running).bind fun packet _ ↦ ?_
  split
  · exact Machine.always_pure ⟨Frame.refl cpu, After.refl⟩
  · exact fails (by simp [storeQueueFull])
  · exact setupPhase_framed packet _

theorem loopPhase_framed (running : cpu.fault = none) :
    Machine.Always (Framed cpu) OtherFault (loopPhase bus functional cpu) :=
  (loopCycle_frame running).bind fun c h ↦
    Machine.always_pure ⟨h, fun _ ↦ afterExecute_after c _ _ _⟩

theorem prepare_framed (running : cpu.fault = none) :
    Machine.Always (Framed cpu) OtherFault (prepare bus functional cpu) :=
  Machine.always_ite (fun _ ↦ loopPhase_framed running) fun _ ↦
    Machine.always_ite (fun _ ↦ Machine.always_pure ⟨idleTick_frame, After.refl⟩) fun _ ↦
      directPhase_framed running

end Phase

end Cdj2000Emulator.C674x.LoopFrame
