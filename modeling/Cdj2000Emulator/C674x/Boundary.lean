import Cdj2000Emulator.C674x.LoopFrame
import Cdj2000Emulator.C674x.Retire

namespace Cdj2000Emulator.C674x.Boundary

open Library.Stateful State Transfer Effects Operands Execute Interrupt Issuing Retire Step Phases
  Footprint LoopFrame

section Packet

variable {β : Type} {bus : Bus β} {u : Arithmetic} {cpu : Cpu} {packet : Packet}

theorem settle_pipeline (packet : Packet) (a : Issue) : (settle packet a).2.pipeline = a.out.pipeline := by
  unfold settle
  dsimp only
  split_ifs <;> rfl

theorem settle_cycles (packet : Packet) (a : Issue) : ∃ n, (settle packet a).1 = n + 1 := by
  unfold settle
  dsimp only
  split_ifs
  · exact ⟨0, rfl⟩
  · exact Nat.exists_eq_add_of_le' a.timing.positive

theorem execute_ok {out : Cpu} {trace : Trace} {s t : β}
    (h : execute u bus cpu packet s = (t, .ok (out, trace))) :
    ∃ a s₁ done, packet.instructions.length ≤ 8 ∧
      (Issue.start cpu).run bus (packetEffects u cpu packet) s = (s₁, .ok a) ∧
      packetConflict a = none ∧
      retireCycles bus cpu.pc (settle packet a).1 (settle packet a).2 [] s₁ =
        (t, .ok (done, trace.written)) ∧
      out = { done with packets := done.packets + 1 } ∧
      trace.stores = a.out.stores.drop cpu.stores.length ∧
      trace.loads = a.out.loads.drop cpu.loads.length := by
  unfold execute at h
  cases running : cpu.fault with
  | some why =>
    rw [running] at h
    cases h
  | none =>
    rw [running] at h
    obtain ⟨_, s₀, first, rest⟩ := Machine.bind_ok.mp h
    obtain ⟨short, rfl⟩ := Machine.require_ok.mp first
    cases shared : sharedSpmask false false packet.instructions with
    | some insn =>
      rw [shared] at rest
      cases rest
    | none =>
      rw [shared] at rest
      obtain ⟨a, s₁, issued, rest⟩ := Machine.bind_ok.mp rest
      cases conflict : packetConflict a with
      | some why =>
        rw [conflict] at rest
        cases rest
      | none =>
        rw [conflict] at rest
        obtain ⟨⟨done, written⟩, _, retired, last⟩ := Machine.bind_ok.mp rest
        cases last
        exact ⟨a, s₁, done, short, (issuePacket_ok bus u cpu packet).mp issued, conflict, retired,
          rfl, rfl, rfl⟩

end Packet

/-- The queues between two steps. -/
structure Settled (p : Pipeline) : Prop where
  stores : ∀ s ∈ p.stores, p.cycles < s.due ∧ s.due ≤ p.cycles + 2
  batch : ∀ due, p.stores.countP (·.due = due) ≤ 8
  loads : ∀ l ∈ p.loads, p.cycles < l.due ∧ l.due ≤ p.cycles + 10
  room : p.loads.length ≤ 40
  ordered : Ordered p
  slots : ∀ b ∈ p.branches, b.due ≤ p.cycles + 5

theorem settled_reset (entry : Word) : Settled (reset entry).pipeline where
  stores s hs := absurd hs (by simp [reset, Cpu.pipeline])
  batch due := by simp [reset, Cpu.pipeline]
  loads l hl := absurd hl (by simp [reset, Cpu.pipeline])
  room := by simp [reset, Cpu.pipeline]
  ordered := ⟨fun _ ↦ rfl, by simp [reset, Cpu.pipeline, Pipeline.branches],
    by simp [reset, Cpu.pipeline, Pipeline.branches]⟩
  slots b hb := absurd hb (by simp [reset, Cpu.pipeline, Pipeline.branches])

/-- Two packets' stores are in flight between steps. -/
theorem Settled.stores_length {p : Pipeline} (h : Settled p) : p.stores.length ≤ 16 := by
  have split : p.stores.length =
      p.stores.countP (·.due = p.cycles + 1) + p.stores.countP (·.due ≠ p.cycles + 1) := by
    simpa using List.length_eq_countP_add_countP (fun s : Store ↦ decide (s.due = p.cycles + 1)) (l := p.stores)
  have second : p.stores.countP (·.due ≠ p.cycles + 1) = p.stores.countP (·.due = p.cycles + 2) := by
    refine List.countP_congr fun s hs ↦ ?_
    have := h.stores s hs
    simp only [decide_eq_true_eq]
    omega
  have := h.batch (p.cycles + 1)
  have := h.batch (p.cycles + 2)
  omega

def Tame : Effect → Prop
  | .stop why | .branch _ why | .noBranch why | .multicycle _ why | .guardControls _ why
  | .probe _ _ _ why | .check _ _ _ _ why => why ≠ storeQueueFull
  | _ => True

theorem tame_of_plain {effect : Effect} (h : IsPlain effect) : Tame effect := by
  cases effect with
  | stop | branch | noBranch | multicycle | guardControls | probe | check => exact h
  | _ => exact trivial

theorem tame_of_guards {guard effect : Effect} (h : Guards guard effect) : Tame effect := by
  cases effect with
  | store | load | loadWord => exact trivial
  | _ => exact absurd h (by cases guard <;> exact id)

theorem isStore_of_plain {effect : Effect} (h : IsPlain effect) : isStore effect = false := by
  cases effect with
  | store => exact absurd h id
  | _ => rfl

theorem countP_of_plain {effects : List Effect} (h : Plain effects) :
    effects.countP isStore = 0 := by
  rw [List.countP_eq_zero]
  intro effect member
  simp [isStore_of_plain (h effect member)]

theorem modest_tame {effects : List Effect} (h : Modest effects) :
    (∀ effect ∈ effects, Tame effect) ∧ effects.countP isStore ≤ 1 := by
  rcases h with plain | ⟨before, guard, between, transfer, after, rfl, guards, plain⟩
  · exact ⟨fun effect member ↦ tame_of_plain (plain effect member), (countP_of_plain plain).trans_le zero_le_one⟩
  · constructor
    · intro effect member
      by_cases moved : effect = transfer
      · exact moved ▸ tame_of_guards guards
      · refine tame_of_plain (plain effect ?_)
        simp only [List.mem_append, List.mem_cons] at member ⊢
        tauto
    · have rest := countP_of_plain plain
      simp only [List.countP_append, List.countP_cons] at rest ⊢
      split_ifs at rest ⊢ <;> omega

section Capacity

variable {β : Type} {bus : Bus β} {u : Arithmetic}

theorem queueResult_other (a : Issue) (entry : Load) :
    Yields (fun _ ↦ True) Other (a.queueResult entry) :=
  yields_ite (fun _ ↦ refused (by simp [storeQueueFull])) fun _ ↦
    yields_ite (fun _ ↦ refused (by simp [storeQueueFull])) fun _ ↦ trivial

theorem retime_other (a : Issue) (timing : Option Timing) {why : String} (h : why ≠ storeQueueFull) :
    Yields (fun _ ↦ True) Other (a.retime timing why) := by
  cases timing with
  | none => exact refused h
  | some timing => exact trivial

theorem apply_other {a : Issue} {effect : Effect} (tame : Tame effect)
    (fits : isStore effect → a.out.stores.length ≠ 24) :
    Yields (fun _ ↦ True) Other (a.apply effect) := by
  cases effect with
  | stop why => exact refused tame
  | branch target why =>
    simp only [Issue.apply]
    split
    · exact refused tame
    · exact trivial
  | noBranch why =>
    exact yields_ite (fun _ ↦ refused tame) fun _ ↦ trivial
  | multicycle cycles why =>
    exact retime_other a _ tame
  | guardControls ids why =>
    exact yields_ite (fun _ ↦ refused tame) fun _ ↦ trivial
  | store address value size width =>
    exact yields_ite (fun full ↦ absurd full (fits rfl)) fun _ ↦ trivial
  | result latency bank dst value status multiplier => exact queueResult_other a _
  | resultPair latency bank dst value => exact queueResult_other a _
  | compared latency bank dst value mask =>
    exact yields_ite (fun _ ↦ refused (by simp [storeQueueFull])) fun _ ↦
      (queueResult_other a _).bind fun _ _ ↦ trivial
  | nop | idle | protectedLoad => exact retime_other a _ (by simp [storeQueueFull])
  | load | loadWord =>
    exact yields_ite (fun _ ↦ refused (by simp [storeQueueFull])) fun _ ↦
      yields_ite (fun _ ↦ refused (by simp [storeQueueFull])) fun _ ↦ trivial
  | mvc id value =>
    exact yields_ite (fun _ ↦ refused (by simp [storeQueueFull])) fun _ ↦ yields_ite
      (fun _ ↦ yields_ite (fun _ ↦ refused (by simp [storeQueueFull])) fun _ ↦ trivial)
      fun _ ↦ trivial
  | write | writePair | reserve | sat | faucr | bdec =>
    exact yields_ite (fun _ ↦ refused (by simp [storeQueueFull])) fun _ ↦ trivial
  | memoryAccess | probe | check | restoreTask | setNmie | dint | rint | snapshotTsch =>
    exact trivial

theorem apply_yields {a : Issue} {effect : Effect} (tame : Tame effect)
    (fits : isStore effect → a.out.stores.length ≠ 24) :
    Yields (fun b ↦ a.apply effect = .ok b) Other (a.apply effect) := by
  have other := apply_other tame fits
  cases applied : a.apply effect with
  | error why => exact other.error_of_eq applied
  | ok b => exact rfl

theorem perform_other {a : Issue} {effect : Effect} (tame : Tame effect)
    (fits : isStore effect → a.out.stores.length ≠ 24) :
    Machine.Always (fun b ↦ a.apply effect = .ok b) Other (a.perform bus effect) := by
  cases effect with
  | probe address size width why =>
    exact (Machine.always_orFail (E := Other) tame).bind
      fun _ _ ↦ Machine.always_pure rfl
  | check address value size width why =>
    exact (Machine.always_orFail (E := Other) tame).bind
      fun _ _ ↦ Machine.always_pure rfl
  | _ =>
    exact Machine.always_ofExcept (apply_yields tame fits)

/-- A packet with at most as many stores as the queue has room for is not refused for it. -/
theorem run_other {effects : List Effect} {a : Issue} (tame : ∀ effect ∈ effects, Tame effect)
    (fits : a.out.stores.length + effects.countP isStore ≤ 24) :
    Machine.Always
      (fun b ↦ b.out.stores.length ≤ a.out.stores.length + effects.countP isStore) Other
      (a.run bus effects) := by
  induction effects generalizing a with
  | nil => exact Machine.always_pure le_rfl
  | cons effect effects ih =>
    rw [List.forall_mem_cons] at tame
    rw [List.countP_cons] at fits
    unfold Issue.run
    rw [List.foldlM_cons]
    rw [List.countP_cons]
    refine (perform_other tame.1 fun store ↦ ?_).bind fun b applied ↦ ?_
    · rw [if_pos store] at fits
      omega
    · obtain ⟨new, queued, few, -⟩ := (apply_extends applied).stores
      have grown := congrArg List.length queued
      simp only [Cpu.pipeline, List.length_append] at grown
      exact (ih tame.2 (by omega)).mono fun c more ↦ by omega

theorem issuePacket_other {cpu : Cpu} {packet : Packet} (settled : Settled cpu.pipeline)
    (short : packet.instructions.length ≤ 8) :
    Machine.Always (fun _ ↦ True) OtherFault (issuePacket u cpu packet bus) := by
  have issued (slots : List (Instruction × ℕ)) : ∀ a : Issue,
      a.out.stores.length + slots.length ≤ 24 →
      Machine.Always (fun _ ↦ True) OtherFault
        (slots.foldlM (issueInstruction u cpu packet bus) a) := by
    induction slots with
    | nil => exact fun _ _ ↦ Machine.always_pure trivial
    | cons slot slots ih =>
      intro a fits
      rw [List.length_cons] at fits
      obtain ⟨tame, one⟩ := modest_tame (modest_instruction u cpu packet slot.2 slot.1)
      have instruction : Machine.Always (fun b ↦ b.out.stores.length ≤ a.out.stores.length + 1)
          OtherFault (issueInstruction u cpu packet bus a slot) :=
        ((run_other tame (by omega)).mono fun b grown ↦ by omega).mapError fun why other ↦ other
      rw [List.foldlM_cons]
      exact instruction.bind fun b grown ↦ ih b (by omega)
  refine issued _ _ ?_
  have := settled.stores_length
  simp only [Cpu.pipeline] at this
  simp only [List.length_zipIdx, Issue.start]
  omega

end Capacity

section Retirement

variable {β : Type} {bus : Bus β} {pc : Word}

theorem retireStores_other (cycles : ℕ) (stores : List Store) :
    Machine.Always (fun _ ↦ True) OtherFault (retireStores bus pc cycles stores) := by
  induction stores with
  | nil => exact Machine.always_pure trivial
  | cons store rest ih =>
    unfold retireStores
    refine Machine.always_ite (fun _ ↦ ih.bind fun _ _ ↦ Machine.always_pure trivial) fun _ ↦ ?_
    exact (Machine.always_orFail (by simp [OtherFault, Other, storeQueueFull])).bind fun _ _ ↦ ih

theorem sample_other_fault (cycles : ℕ) (load : Load) :
    Machine.Always (fun _ ↦ True) OtherFault (sample bus pc cycles load) := by
  by_cases sampled : load.isMemory = true ∧ load.due = cycles + 2
  · obtain ⟨memory, due⟩ := sampled
    cases kind : load.kind with
    | memory address size width signExtend =>
      rw [sample_memory kind due]
      exact (Machine.always_orFail (by simp [OtherFault, Other, storeQueueFull])).bind
        fun _ _ ↦ Machine.always_pure trivial
    | _ => simp [Load.isMemory, kind] at memory
  · rw [sample_other fun memory due ↦ sampled ⟨memory, due⟩]
    exact Machine.always_pure trivial

theorem sweep_other (cycles : ℕ) (rest kept : List Load) (out : Cpu) (written : List Load) :
    Machine.Always (fun _ ↦ True) OtherFault (sweep bus pc cycles rest kept out written) := by
  induction rest generalizing kept out written with
  | nil => exact Machine.always_pure trivial
  | cons load rest ih =>
    unfold sweep
    refine (sample_other_fault cycles load).bind fun load' _ ↦
      Machine.always_ite (fun _ ↦ ih _ _ _) fun _ ↦ ?_
    split
    · exact ih _ _ _
    · exact ih _ _ _
    · exact Machine.always_pure trivial
    · exact Machine.always_pure trivial
    · exact ih _ _ _

theorem retireLoads_other (cycles passes : ℕ) (loads : List Load) (out : Cpu)
    (written : List Load) :
    Machine.Always (fun _ ↦ True) OtherFault
      (retireLoads bus pc cycles passes loads out written) := by
  induction passes generalizing loads out written with
  | zero => exact Machine.always_pure trivial
  | succ passes ih =>
    refine (sweep_other cycles loads [] out written).bind fun result _ ↦ ?_
    cases result with
    | done => exact Machine.always_pure trivial
    | again => exact ih _ _ _

theorem completeBranch_other (out : Cpu) :
    Yields (fun _ ↦ True) OtherFault (completeBranch out) :=
  yields_ite (fun _ ↦ faulted (by simp [storeQueueFull])) fun _ ↦ trivial

theorem retireCycles_other (n : ℕ) (out : Cpu) (written : List Load) :
    Machine.Always (fun _ ↦ True) OtherFault (retireCycles bus pc n out written) := by
  induction n generalizing out written with
  | zero => exact Machine.always_pure trivial
  | succ n ih =>
    have cycle : Machine.Always (fun _ ↦ True) OtherFault (retireCycle bus pc out written) :=
      (Machine.always_modify _).bind fun _ _ ↦ (retireStores_other _ _).bind fun _ _ ↦
        (retireLoads_other _ _ _ _ _).bind fun _ _ ↦ Machine.always_pure trivial
    refine cycle.bind fun result _ ↦ Machine.always_ite (fun _ ↦ ?_) fun _ ↦ ih _ _
    exact (Machine.always_ofExcept (completeBranch_other _)).bind fun _ _ ↦
      Machine.always_pure trivial

end Retirement

section Execution

variable {β : Type} {bus : Bus β} {u : Arithmetic} {cpu : Cpu} {packet : Packet}

theorem e1Conflict_other {a : Issue} {load : Load} {why : String}
    (h : e1Conflict a load = some why) : Other why := by
  unfold e1Conflict at h
  repeat' split at h
  all_goals cases h
  all_goals simp [Other, storeQueueFull]

theorem packetConflict_other {a : Issue} {why : String} (h : packetConflict a = some why) :
    Other why := by
  unfold packetConflict at h
  split_ifs at h
  · cases h
    simp [Other, storeQueueFull]
  · cases h
    simp [Other, storeQueueFull]
  · obtain ⟨load, -, conflict⟩ := List.exists_of_findSome?_eq_some h
    exact e1Conflict_other conflict

/-- No packet is refused for the store queue. -/
theorem execute_other (settled : Settled cpu.pipeline) (running : cpu.fault = none) :
    Machine.Always (fun _ ↦ True) OtherFault (execute u bus cpu packet) := by
  unfold execute
  rw [running]
  refine (Machine.always_require fun _ ↦ by simp [OtherFault, Other, storeQueueFull]).bind
    fun _ short ↦ ?_
  cases sharedSpmask false false packet.instructions with
  | some insn => exact fails (by simp [storeQueueFull])
  | none =>
    refine (issuePacket_other settled short).bind fun a _ ↦ ?_
    cases conflict : packetConflict a with
    | some why => exact fails (packetConflict_other conflict)
    | none => exact (retireCycles_other _ _ _).bind fun _ _ ↦ Machine.always_pure trivial

theorem issued_extends {a : Issue} {s t : β} (short : packet.instructions.length ≤ 8)
    (h : (Issue.start cpu).run bus (packetEffects u cpu packet) s = (t, .ok a)) :
    Extends 8 cpu.pipeline a.out.pipeline := by
  have few (slots : List (Instruction × ℕ)) :
      (slots.flatMap fun slot ↦ instructionEffects u cpu packet slot.2 slot.1).countP isStore ≤
        slots.length := by
    induction slots with
    | nil => simp
    | cons slot slots ih =>
      have := (modest_tame (modest_instruction u cpu packet slot.2 slot.1)).2
      rw [List.flatMap_cons, List.countP_append, List.length_cons]
      omega
  refine (run_extends h).mono ?_
  have := few packet.instructions.zipIdx
  rw [List.length_zipIdx] at this
  exact this.trans short

/-- Once the packet's cycles have passed, its effects are due as late as any older ones. -/
theorem settled_of_advanced {p q r : Pipeline} {pc : Word} (settled : Settled p)
    (extended : Extends 8 p q) (advanced : Advanced q r pc) : Settled r := by
  have passed := extended.cycles ▸ advanced.cycles
  refine ⟨fun s hs ↦ ?_, fun due ↦ ?_, fun l hl ↦ ?_, ?_, advanced.ordered, fun b hb ↦ ?_⟩
  · obtain ⟨new, queued, -, dues⟩ := extended.stores
    rw [advanced.stores, List.mem_filter, decide_eq_true_iff, queued, List.mem_append] at hs
    rcases hs with ⟨hs | hs, later⟩
    · have := settled.stores s hs
      omega
    · have := dues s hs
      omega
  · obtain ⟨new, queued, few, dues⟩ := extended.stores
    have kept : r.stores.countP (·.due = due) ≤ q.stores.countP (·.due = due) := by
      rw [advanced.stores]
      exact List.filter_sublist.countP_le
    refine kept.trans ?_
    rw [queued, List.countP_append]
    by_cases fresh : due = p.cycles + 3
    · have older : p.stores.countP (·.due = due) = 0 := by
        rw [List.countP_eq_zero]
        intro s hs
        have := settled.stores s hs
        rw [decide_eq_true_iff]
        omega
      have := new.countP_le_length (p := (·.due = due))
      omega
    · have newer : new.countP (·.due = due) = 0 := by
        rw [List.countP_eq_zero]
        intro s hs
        have := dues s hs
        rw [decide_eq_true_iff]
        omega
      have := settled.batch due
      omega
  · obtain ⟨later, l', hl', same⟩ := advanced.loads l hl
    obtain ⟨new, queued, fresh⟩ := extended.loads
    rw [queued, List.mem_append] at hl'
    rcases hl' with hl' | hl'
    · have := settled.loads l' hl'
      omega
    · obtain ⟨-, bound, -⟩ := fresh l' hl'
      omega
  · exact advanced.room.trans (extended.room settled.room)
  · have := (advanced.ordered.inFlight b hb).2
    have early : b ∈ q.branches := by
      rcases advanced.branches with same | ⟨first, same, -, -⟩
      · exact same ▸ hb
      · exact same ▸ List.mem_cons_of_mem _ hb
    have := ((extended.ordered settled.ordered).inFlight b early).2
    have := extended.cycles
    omega

/-- An accepted packet keeps the queues in bounds, and a branch that has left them has
redirected fetch. -/
theorem execute_settled {out : Cpu} {trace : Trace} {s t : β} (settled : Settled cpu.pipeline)
    (h : execute u bus cpu packet s = (t, .ok (out, trace))) :
    Settled out.pipeline ∧ ∃ a s₁,
      (Issue.start cpu).run bus (packetEffects u cpu packet) s = (s₁, .ok a) ∧
      Advanced a.out.pipeline out.pipeline out.pc := by
  obtain ⟨a, s₁, done, short, issued, -, retired, rfl, -⟩ := execute_ok h
  have extended := issued_extends short issued
  obtain ⟨n, cycles⟩ := settle_cycles packet a
  have same := settle_pipeline packet a
  rw [cycles] at retired
  have advanced := retireCycles_advanced (same ▸ extended.ordered settled.ordered) retired
  rw [same] at advanced
  exact ⟨settled_of_advanced settled extended advanced, a, s₁, issued, advanced⟩

end Execution

section Run

variable {β : Type} {bus : Bus β} {u : Arithmetic} {functional : Bool} {cpu : Cpu} {entry : Word}

def branchPoints (bus : Bus β) : List Effect → Issue → β → List Issue
  | [], _, _ => []
  | effect :: effects, a, s =>
    let rest := match a.perform bus effect s with
      | (s, .ok a) => branchPoints bus effects a s
      | _ => []
    match effect with
    | .branch .. => a :: rest
    | _ => rest

def branchesMet (u : Arithmetic) (bus : Bus β) (functional : Bool) (s : β) (cpu : Cpu) :
    List Issue :=
  match prepare bus functional cpu s with
  | (s, .ok p) => branchPoints bus (packetEffects u p.cpu p.packet) (Issue.start p.cpu) s
  | _ => []

theorem exists_of_mem_branchPoints {effects : List Effect} {a b : Issue} {s : β}
    (h : b ∈ branchPoints bus effects a s) :
    ∃ before s', a.run bus before s = (s', .ok b) := by
  induction effects generalizing a s with
  | nil => cases h
  | cons effect effects ih =>
    have later : b ∈ (match a.perform bus effect s with
        | (s, .ok a) => branchPoints bus effects a s
        | _ => []) → ∃ before s', a.run bus before s = (s', .ok b) := by
      intro hb
      rcases performed : a.perform bus effect s with ⟨t, why | c⟩
      · rw [performed] at hb
        cases hb
      · rw [performed] at hb
        obtain ⟨before, s', run⟩ := ih hb
        exact ⟨effect :: before, s', (run_cons_ok bus).mpr ⟨c, t, performed, run⟩⟩
    cases effect with
    | branch target why =>
      rcases List.mem_cons.mp h with rfl | hb
      · exact ⟨[], s, rfl⟩
      · exact later hb
    | _ => exact later h

theorem length_of_sorted {branches : List Branch} {low high : ℕ}
    (sorted : branches.Pairwise (·.due < ·.due))
    (within : ∀ b ∈ branches, low < b.due ∧ b.due ≤ high) : branches.length ≤ high - low := by
  induction branches generalizing low with
  | nil => exact Nat.zero_le _
  | cons b rest ih =>
    rw [List.pairwise_cons] at sorted
    have := ih sorted.2 fun c hc ↦ ⟨sorted.1 c hc, (within c (List.mem_cons_of_mem _ hc)).2⟩
    have := within b List.mem_cons_self
    rw [List.length_cons]
    omega

theorem own_branch_of_full {p q : Pipeline} (settled : Settled p) {n : ℕ} (extended : Extends n p q)
    (full : q.branchQueue.length = 5) :
    ∃ last, q.branchQueue.getLast? = some last ∧ last.due = p.cycles + 6 ∧ last ∉ p.branches := by
  obtain ⟨new, joined, dues⟩ := extended.branches settled.ordered
  have ordered := extended.ordered settled.ordered
  have pending : q.branchDue ≠ 0 := fun idle ↦ by
    rw [ordered.queue idle] at full
    cases full
  have six : q.branches = ⟨q.branchDue, q.branchTarget⟩ :: q.branchQueue := if_neg pending
  have few := length_of_sorted settled.ordered.sorted fun b hb ↦
    ⟨(settled.ordered.inFlight b hb).1, settled.slots b hb⟩
  rcases List.eq_nil_or_concat new with rfl | ⟨init, last, rfl⟩
  · have := congrArg List.length (six.symm.trans joined)
    simp only [List.length_cons, List.append_nil] at this
    omega
  · have due := dues last (by simp)
    refine ⟨last, ?_, due, fun old ↦ ?_⟩
    · have ends := congrArg List.getLast? (six.symm.trans joined)
      rw [List.concat_eq_append, ← List.append_assoc, List.getLast?_concat, List.getLast?_cons] at ends
      cases queue : q.branchQueue.getLast? with
      | none =>
        rw [List.getLast?_eq_none_iff.mp queue] at full
        cases full
      | some b =>
        rw [queue] at ends
        exact ends
    · have := settled.slots last old
      omega

/-- The states of a CPU that was reset at `entry`, whatever happens on its bus between
two steps. -/
inductive Reachable (u : Arithmetic) (bus : Bus β) (functional : Bool) (entry : Word) : Cpu → Prop
  | reset : Reachable u bus functional entry (reset entry)
  | interrupt {cpu : Cpu} (pending : Word) (h : Reachable u bus functional entry cpu) :
      Reachable u bus functional entry (interrupt functional cpu pending).1
  | step {cpu : Cpu} (s : β) (h : Reachable u bus functional entry cpu) :
      Reachable u bus functional entry (step u bus functional s cpu).cpu

theorem interruptPipeDown_pipeline {out : Cpu} (h : interruptPipeDown functional cpu = some out) :
    out.pipeline = cpu.pipeline := by
  cases functional with
  | false =>
    cases h
    rfl
  | true =>
    simp only [interruptPipeDown, Bool.not_true, Bool.false_eq_true, if_false,
      Option.ite_none_left_eq_some, Option.some.injEq] at h
    rw [← h.2]
    rfl

theorem armLoop_pipeline : Yields (fun out ↦ out.pipeline = cpu.pipeline) (fun _ ↦ True)
    (armLoop cpu) := by
  refine yields_ite (fun _ ↦ trivial) fun _ ↦ yields_ite (fun _ ↦ rfl) fun _ ↦
    yields_ite (fun _ ↦ rfl) fun _ ↦ yields_ite (fun _ ↦ trivial) fun _ ↦ ?_
  cases captured : cpu.loopCaptureRetained with
  | none => exact trivial
  | some out =>
    have same := cpu.loopCaptureRetained_pipeline captured
    exact same

theorem enter_pipeline : (enter functional cpu).1.pipeline = cpu.pipeline := by
  unfold enter
  split_ifs
  · rfl
  · extract_lets selected interruptedLoop cleared taken out
    have same : out.pipeline = cpu.pipeline := by
      change cleared.pipeline = cpu.pipeline
      simp only [cleared, apply_ite Cpu.pipeline]
      exact ite_self _
    cases down : interruptPipeDown functional out with
    | none => exact same
    | some done => exact (interruptPipeDown_pipeline down).trans same

/-- Interrupts leave the queues alone. -/
theorem interrupt_pipeline (pending : Word) :
    (interrupt functional cpu pending).1.pipeline = cpu.pipeline := by
  unfold interrupt
  by_cases stopped : cpu.fault.isSome = true
  · rw [if_pos stopped]
  rw [if_neg stopped]
  by_cases invalid : pending &&& ~~~maskable ≠ 0
  · rw [if_pos invalid]
    rfl
  rw [if_neg invalid]
  extract_lets out
  have same : out.pipeline = cpu.pipeline := rfl
  by_cases masked : out.control 1 &&& 1#32 = 0 ∨ out.control 4 &&& 2#32 = 0 ∨ eligible out = 0
  · rw [if_pos masked, ← same]
    simp only [apply_ite Cpu.pipeline]
    exact ite_self _
  rw [if_neg masked]
  by_cases branching : out.branchDue ≠ 0 ∨ out.branchQueue ≠ []
  · rw [if_pos branching]
    exact same
  rw [if_neg branching]
  by_cases looping : out.loopActive = true
  · rw [if_pos looping]
    cases armed : armLoop out with
    | error e => exact same
    | ok done => exact (armLoop_pipeline.ok_of_eq armed).trans same
  · rw [if_neg looping]
    exact enter_pipeline.trans same

theorem step_accepted {s : β} (h : (step u bus functional s cpu).accepted = true) :
    cpu.fault = none ∧ ∃ p trace done s₁ s₂, prepare bus functional cpu s = (s₁, .ok p) ∧
      execute u bus p.cpu p.packet s₁ = (s₂, .ok (done, trace)) ∧
      p.finish done = .ok (step u bus functional s cpu).cpu := by
  unfold step at h ⊢
  split_ifs at h ⊢ with stopped
  refine ⟨by simpa using stopped, ?_⟩
  rw [stepBody_eq] at h ⊢
  rcases ran : (prepare bus functional cpu >>= Phase.run u bus) s with ⟨t, e | ⟨out, trace⟩⟩
  · rw [ran] at h
    cases h
  · obtain ⟨p, s₁, prepared, run⟩ := Machine.bind_ok.mp ran
    obtain ⟨⟨done, trace⟩, s₂, executed, rest⟩ := Machine.bind_ok.mp run
    obtain ⟨finished, s₃, finish, last⟩ := Machine.bind_ok.mp rest
    cases last
    exact ⟨p, trace, done, s₁, s₂, prepared, executed, congrArg Prod.snd finish⟩

theorem settled_of_step {s : β} (settled : Settled cpu.pipeline) :
    Settled (step u bus functional s cpu).cpu.pipeline := by
  by_cases accepted : (step u bus functional s cpu).accepted = true
  · obtain ⟨running, p, trace, done, s₁, s₂, prepared, executed, finished⟩ := step_accepted accepted
    obtain ⟨before, after⟩ := (prepare_framed running).ok_of_run prepared
    have kept := ((after done).ok_of_eq finished).pipeline
    exact kept ▸ (execute_settled (before.pipeline.symm ▸ settled) executed).1
  · unfold step at accepted ⊢
    split_ifs at accepted ⊢ with stopped
    · exact settled
    · rcases ran : stepBody u bus functional cpu s with ⟨t, e | ⟨out, trace⟩⟩
      · exact settled
      · rw [ran] at accepted
        exact absurd rfl accepted

theorem settled_of_reachable (h : Reachable u bus functional entry cpu) : Settled cpu.pipeline := by
  induction h with
  | reset => exact settled_reset entry
  | interrupt pending _ ih => exact (interrupt_pipeline pending).symm ▸ ih
  | step s _ ih => exact settled_of_step ih

/-- The bounds on the queues, in any state. -/
structure Bounded (cpu : Cpu) : Prop where
  stores : ∀ s ∈ cpu.stores, cpu.cycles < s.due ∧ s.due ≤ cpu.cycles + 3
  loads : ∀ l ∈ cpu.loads, cpu.cycles < l.due ∧ l.due ≤ cpu.cycles + 10
  storeRoom : cpu.stores.length ≤ 24
  loadRoom : cpu.loads.length ≤ 40
  ordered : Ordered cpu.pipeline

theorem Settled.bounded (h : Settled cpu.pipeline) : Bounded cpu where
  stores s hs := ⟨(h.stores s hs).1, (h.stores s hs).2.trans (Nat.le_succ _)⟩
  loads := h.loads
  storeRoom := h.stores_length.trans (by decide)
  loadRoom := h.room
  ordered := h.ordered

def issued (u : Arithmetic) (bus : Bus β) (functional : Bool) (s : β) (cpu : Cpu) : Option Issue :=
  match (prepare bus functional cpu >>= fun p ↦ issuePacket u p.cpu p.packet bus) s with
  | (_, .ok a) => some a
  | _ => none

/-- What the bounds keep from happening in a step. -/
structure Unhindered (u : Arithmetic) (bus : Bus β) (functional : Bool) (s : β) (cpu : Cpu) :
    Prop where
  storesFit : cpu.fault = none → (step u bus functional s cpu).accepted = false →
    (step u bus functional s cpu).cpu.fault ≠ some storeQueueFull
  ownBranch : cpu.fault = none → ∀ a ∈ branchesMet u bus functional s cpu,
    a.out.branchQueue.length = 5 →
      ∃ last, a.out.branchQueue.getLast? = some last ∧ last.due = a.out.cycles + 6 ∧
        last ∉ cpu.pipeline.branches
  redirects : (step u bus functional s cpu).accepted = true →
    ∃ a, issued u bus functional s cpu = some a ∧
      cpu.pipeline.branches <+: a.out.pipeline.branches ∧
      ((step u bus functional s cpu).cpu.pipeline.branches = a.out.pipeline.branches ∨
        ∃ b, a.out.pipeline.branches = b :: (step u bus functional s cpu).cpu.pipeline.branches ∧
          (step u bus functional s cpu).cpu.cycles = b.due ∧
          (step u bus functional s cpu).cpu.pc = b.target)

theorem storesFit_of_settled {s : β} (settled : Settled cpu.pipeline) (running : cpu.fault = none)
    (rejected : (step u bus functional s cpu).accepted = false) :
    (step u bus functional s cpu).cpu.fault ≠ some storeQueueFull := by
  have other : Machine.Always (fun _ ↦ True) OtherFault (stepBody u bus functional cpu) := by
    rw [stepBody_eq]
    refine (prepare_framed running).bind fun p framed ↦ ?_
    refine (execute_other (framed.before.pipeline.symm ▸ settled)
      (framed.before.fault.trans running)).bind fun result _ ↦ ?_
    exact (Machine.always_ofExcept (framed.after _)).bind fun _ _ ↦ Machine.always_pure trivial
  unfold step at rejected ⊢
  rw [running] at rejected ⊢
  rcases ran : stepBody u bus functional cpu s with ⟨t, e | ⟨out, trace⟩⟩
  · intro full
    exact other.error_of_run ran (Option.some.inj full)
  · rw [ran] at rejected
    cases rejected

theorem ownBranch_of_settled {s : β} (settled : Settled cpu.pipeline) (running : cpu.fault = none)
    {a : Issue} (met : a ∈ branchesMet u bus functional s cpu)
    (full : a.out.branchQueue.length = 5) :
    ∃ last, a.out.branchQueue.getLast? = some last ∧ last.due = a.out.cycles + 6 ∧
      last ∉ cpu.pipeline.branches := by
  unfold branchesMet at met
  rcases prepared : prepare bus functional cpu s with ⟨t, e | p⟩
  · rw [prepared] at met
    cases met
  · rw [prepared] at met
    have same := ((prepare_framed running).ok_of_run prepared).before.pipeline
    obtain ⟨before, s', run⟩ := exists_of_mem_branchPoints met
    have extended := run_extends run
    rw [show (Issue.start p.cpu).out.pipeline = cpu.pipeline from same] at extended
    obtain ⟨last, queue, due, new⟩ := own_branch_of_full settled extended full
    exact ⟨last, queue, due.trans (congrArg (· + 6) extended.cycles.symm), new⟩

theorem redirects_of_settled {s : β} (settled : Settled cpu.pipeline)
    (accepted : (step u bus functional s cpu).accepted = true) :
    ∃ a, issued u bus functional s cpu = some a ∧
      cpu.pipeline.branches <+: a.out.pipeline.branches ∧
      ((step u bus functional s cpu).cpu.pipeline.branches = a.out.pipeline.branches ∨
        ∃ b, a.out.pipeline.branches = b :: (step u bus functional s cpu).cpu.pipeline.branches ∧
          (step u bus functional s cpu).cpu.cycles = b.due ∧
          (step u bus functional s cpu).cpu.pc = b.target) := by
  obtain ⟨running, p, trace, done, s₁, s₂, prepared, executed, finished⟩ := step_accepted accepted
  obtain ⟨before, after⟩ := (prepare_framed running).ok_of_run prepared
  obtain ⟨kept, pc⟩ := (after done).ok_of_eq finished
  have settled' : Settled p.cpu.pipeline := before.pipeline.symm ▸ settled
  obtain ⟨-, a, s₃, run, advanced⟩ := execute_settled settled' executed
  refine ⟨a, ?_, ?_, ?_⟩
  · have ran := (issuePacket_ok bus u p.cpu p.packet).mpr run
    simp only [issued, Machine.bind_apply, prepared, ran]
  · obtain ⟨new, joined, -⟩ := (run_extends run).branches settled'.ordered
    exact ⟨new, before.pipeline ▸ joined.symm⟩
  · rw [kept.pipeline, pc, show (step u bus functional s cpu).cpu.cycles = done.cycles from
      congrArg Pipeline.cycles kept.pipeline]
    exact advanced.branches

/-- In every reachable state the queues are within their bounds, and no step meets them. -/
theorem bounded_of_reachable (h : Reachable u bus functional entry cpu) :
    Bounded cpu ∧ ∀ s, Unhindered u bus functional s cpu := by
  have settled := settled_of_reachable h
  exact ⟨settled.bounded, fun s ↦
    { storesFit := storesFit_of_settled settled
      ownBranch := fun running _ met full ↦ ownBranch_of_settled settled running met full
      redirects := redirects_of_settled settled }⟩

end Run

/-- A program of branches to its start, one to a packet but for the two of the sixth packet. -/
def spinBus : Bus Unit where
  read _ address := ((), some (if address = 0x14#32 then 0x11 else 0x10))
  write _ _ _ _ _ := ((), true)
  tick := id

def spin : ℕ → Cpu
  | 0 => reset 0
  | n + 1 => (step default spinBus false () (spin n)).cpu

theorem spin_reachable (n : ℕ) : Reachable default spinBus false 0 (spin n) := by
  induction n with
  | zero => exact .reset
  | succ n ih => exact .step () ih

theorem bounded_of_reachable_spin :
    Bounded (spin 5) ∧ ∀ s, Unhindered default spinBus false s (spin 5) :=
  bounded_of_reachable (spin_reachable 5)

/-- The second branch of the sixth packet meets five queued ones, and is refused. -/
theorem branch_queue_overflow :
    ∃ cpu, Reachable default spinBus false 0 cpu ∧
      (branchesMet default spinBus false () cpu).any (fun a ↦
        a.out.branchDue ≠ a.out.cycles + 6 ∧ a.out.branchQueue.length = 5) ∧
      (step default spinBus false () cpu).cpu.fault =
        some "parallel taken branches or branch queue overflow" :=
  ⟨spin 5, spin_reachable 5, by decide +kernel, by decide +kernel⟩

end Cdj2000Emulator.C674x.Boundary
