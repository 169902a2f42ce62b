import Cdj2000Emulator.C674x.Execute

namespace Cdj2000Emulator.C674x.Issuing

open Library.Stateful State Transfer Effects Operands Execute

section Packet

variable {β : Type} (bus : Bus β) (u : Arithmetic) (cpu : Cpu) (packet : Packet)

def packetEffects : List Effect :=
  packet.instructions.zipIdx.flatMap fun slot ↦ instructionEffects u cpu packet slot.2 slot.1

theorem run_append (a : Issue) (before after : List Effect) :
    a.run bus (before ++ after) = a.run bus before >>= fun b ↦ b.run bus after := by
  unfold Issue.run
  exact List.foldlM_append

theorem run_cons_ok {a b : Issue} {effect : Effect} {effects : List Effect} {s s' : β} :
    a.run bus (effect :: effects) s = (s', .ok b) ↔
      ∃ c t, a.perform bus effect s = (t, .ok c) ∧ c.run bus effects t = (s', .ok b) := by
  unfold Issue.run
  rw [List.foldlM_cons, Machine.bind_ok]

theorem issue_fold_ok (slots : List (Instruction × ℕ)) (a b : Issue) (s s' : β) :
    slots.foldlM (issueInstruction u cpu packet bus) a s = (s', .ok b) ↔
      a.run bus (slots.flatMap fun slot ↦ instructionEffects u cpu packet slot.2 slot.1) s =
        (s', .ok b) := by
  induction slots generalizing a s with
  | nil => simp [Issue.run, eq_comm]
  | cons slot slots ih =>
    rw [List.foldlM_cons, List.flatMap_cons, run_append, Machine.bind_ok, Machine.bind_ok]
    exact exists_congr fun c ↦ exists_congr fun t ↦ and_congr Machine.mapError_ok (ih c t)

theorem issuePacket_ok {a : Issue} {s s' : β} :
    issuePacket u cpu packet bus s = (s', .ok a) ↔
      (Issue.start cpu).run bus (packetEffects u cpu packet) s = (s', .ok a) :=
  issue_fold_ok bus u cpu packet _ _ a s s'

end Packet

/-- A result that a packet issued at `cycle` may queue. -/
def Fresh (cycle : ℕ) (load : Load) : Prop :=
  cycle < load.due ∧ load.due ≤ cycle + 10 ∧ (load.isMemory → load.due = cycle + 5)

theorem fresh_of_latency {cycle : ℕ} {load : Load} (latency : Latency)
    (due : load.due = cycle + latency) (computed : load.isMemory = false) : Fresh cycle load := by
  have := latency.2
  refine ⟨by omega, by omega, ?_⟩
  simp [computed]

theorem fresh_of_memory {cycle : ℕ} {load : Load} (due : load.due = cycle + 5) :
    Fresh cycle load := ⟨by omega, by omega, fun _ ↦ due⟩

/-- The branches in flight come one to a cycle, within the five delay slots. -/
structure Ordered (p : Pipeline) : Prop where
  queue : p.branchDue = 0 → p.branchQueue = []
  sorted : p.branches.Pairwise (·.due < ·.due)
  inFlight : ∀ b ∈ p.branches, p.cycles < b.due ∧ b.due ≤ p.cycles + 6

/-- What issuing does to the queues: at most `n` stores and some results and branches
join them, each due within the latency of its kind. -/
structure Extends (n : ℕ) (p q : Pipeline) : Prop where
  cycles : q.cycles = p.cycles
  stores : ∃ new, q.stores = p.stores ++ new ∧ new.length ≤ n ∧ ∀ s ∈ new, s.due = p.cycles + 3
  loads : ∃ new, q.loads = p.loads ++ new ∧ ∀ l ∈ new, Fresh p.cycles l
  room : p.loads.length ≤ 40 → q.loads.length ≤ 40
  ordered : Ordered p → Ordered q
  branches : Ordered p →
    ∃ new, q.branches = p.branches ++ new ∧ ∀ b ∈ new, b.due = p.cycles + 6

theorem Extends.refl (p : Pipeline) : Extends 0 p p where
  cycles := rfl
  stores := ⟨[], by simp⟩
  loads := ⟨[], by simp⟩
  room := id
  ordered := id
  branches _ := ⟨[], by simp⟩

theorem Extends.trans {m n : ℕ} {p q r : Pipeline} (h : Extends m p q) (k : Extends n q r) :
    Extends (m + n) p r where
  cycles := k.cycles.trans h.cycles
  stores := by
    obtain ⟨first, hq, hm, hfirst⟩ := h.stores
    obtain ⟨second, hr, hn, hsecond⟩ := k.stores
    refine ⟨first ++ second, by rw [hr, hq, List.append_assoc], ?_, ?_⟩
    · rw [List.length_append]
      omega
    · rw [h.cycles] at hsecond
      exact fun s hs ↦ (List.mem_append.mp hs).elim (hfirst s) (hsecond s)
  loads := by
    obtain ⟨first, hq, hfirst⟩ := h.loads
    obtain ⟨second, hr, hsecond⟩ := k.loads
    refine ⟨first ++ second, by rw [hr, hq, List.append_assoc], ?_⟩
    rw [h.cycles] at hsecond
    exact fun l hl ↦ (List.mem_append.mp hl).elim (hfirst l) (hsecond l)
  room := k.room ∘ h.room
  ordered := k.ordered ∘ h.ordered
  branches ord := by
    obtain ⟨first, hq, hfirst⟩ := h.branches ord
    obtain ⟨second, hr, hsecond⟩ := k.branches (h.ordered ord)
    refine ⟨first ++ second, by rw [hr, hq, List.append_assoc], ?_⟩
    rw [h.cycles] at hsecond
    exact fun b hb ↦ (List.mem_append.mp hb).elim (hfirst b) (hsecond b)

theorem Extends.mono {m n : ℕ} {p q : Pipeline} (h : Extends m p q) (hmn : m ≤ n) :
    Extends n p q where
  cycles := h.cycles
  stores := by
    obtain ⟨new, hq, hm, hnew⟩ := h.stores
    exact ⟨new, hq, hm.trans hmn, hnew⟩
  loads := h.loads
  room := h.room
  ordered := h.ordered
  branches := h.branches

section Append

variable {p q : Pipeline}

theorem extends_load {l : Load} (hl : Fresh p.cycles l) (room : p.loads.length ≠ 40) :
    Extends 0 p { p with loads := p.loads ++ [l] } where
  cycles := rfl
  stores := ⟨[], by simp⟩
  loads := ⟨[l], rfl, by simpa using hl⟩
  room h := by
    rw [List.length_append]
    exact lt_of_le_of_ne h room
  ordered h := ⟨h.queue, h.sorted, h.inFlight⟩
  branches _ := ⟨[], by simp [Pipeline.branches]⟩

theorem extends_store {s : Store} (hs : s.due = p.cycles + 3) :
    Extends 1 p { p with stores := p.stores ++ [s] } where
  cycles := rfl
  stores := ⟨[s], by simpa using hs⟩
  loads := ⟨[], by simp⟩
  room := id
  ordered h := ⟨h.queue, h.sorted, h.inFlight⟩
  branches _ := ⟨[], by simp [Pipeline.branches]⟩

theorem queueBranch_branches {cpu out : Cpu} {due : ℕ} {target : Word} (hdue : 0 < due)
    (empty : cpu.branchDue = 0 → cpu.branchQueue = [])
    (h : queueBranch cpu due target = some out) :
    out.pipeline.branches = cpu.pipeline.branches ++ [⟨due, target⟩] ∧ out.branchDue ≠ 0 := by
  unfold queueBranch at h
  split_ifs at h with hzero
  · cases h
    simp [Pipeline.branches, Cpu.pipeline, hzero, empty hzero, hdue.ne']
  · cases h
    simp [Pipeline.branches, Cpu.pipeline, hzero]

theorem queueBranch_later {cpu out : Cpu} {target : Word} (ord : Ordered cpu.pipeline)
    (h : queueBranch cpu (cpu.cycles + 6) target = some out) :
    ∀ b ∈ cpu.pipeline.branches, b.due < cpu.cycles + 6 := by
  intro b hb
  have bound := (ord.inFlight b hb).2
  have sorted := ord.sorted
  unfold queueBranch at h
  unfold Pipeline.branches at hb sorted
  split_ifs at h with hzero hfull
  · simp [Cpu.pipeline, hzero] at hb
  · simp only [Cpu.pipeline, hzero, if_false] at hb sorted bound
    push Not at hfull
    obtain ⟨hpending, -, hlast⟩ := hfull
    rcases List.eq_nil_or_concat cpu.branchQueue with hnil | ⟨init, last, hqueue⟩
    · rw [hnil, List.mem_singleton] at hb
      subst hb
      exact lt_of_le_of_ne bound hpending
    · rw [hqueue, List.concat_eq_append] at hb sorted hlast
      have hlast' : last.due ≠ cpu.cycles + 6 := by simpa using hlast
      have hmem : last ∈ cpu.pipeline.branches := by
        simp [Pipeline.branches, Cpu.pipeline, hzero, hqueue]
      have lastBound := (ord.inFlight last hmem).2
      simp only [Cpu.pipeline] at lastBound
      rw [← List.cons_append, List.mem_append, List.mem_singleton] at hb
      rcases hb with hb | rfl
      · rw [← List.cons_append, List.pairwise_append] at sorted
        have := sorted.2.2 b hb last (by simp)
        omega
      · omega

theorem extends_branch {cpu out : Cpu} {target : Word}
    (h : queueBranch cpu (cpu.cycles + 6) target = some out) :
    Extends 0 cpu.pipeline out.pipeline := by
  have frame : out.cycles = cpu.cycles ∧ out.stores = cpu.stores ∧ out.loads = cpu.loads := by
    unfold queueBranch at h
    split_ifs at h
    · cases h
      exact ⟨rfl, rfl, rfl⟩
    · cases h
      exact ⟨rfl, rfl, rfl⟩
  have appended (ord : Ordered cpu.pipeline) :=
    queueBranch_branches (show 0 < cpu.cycles + 6 by omega) ord.queue h
  exact {
    cycles := frame.1
    stores := ⟨[], by simp [Cpu.pipeline, frame.2.1]⟩
    loads := ⟨[], by simp [Cpu.pipeline, frame.2.2]⟩
    room := fun room ↦ by simpa only [Cpu.pipeline, frame.2.2] using room
    branches := fun ord ↦ ⟨_, (appended ord).1, by simp [Cpu.pipeline]⟩
    ordered := fun ord ↦
      { queue := fun hzero ↦ absurd hzero (appended ord).2
        sorted := by
          rw [(appended ord).1, List.pairwise_append]
          refine ⟨ord.sorted, List.pairwise_singleton _ _, ?_⟩
          intro b hb c hc
          rw [List.mem_singleton] at hc
          subst hc
          exact queueBranch_later ord h b hb
        inFlight := by
          intro b hb
          rw [(appended ord).1, List.mem_append, List.mem_singleton] at hb
          rw [show out.pipeline.cycles = cpu.pipeline.cycles from frame.1]
          rcases hb with hb | rfl
          · exact ord.inFlight b hb
          · simp [Cpu.pipeline] } }

end Append

def isStore : Effect → Bool
  | .store .. => true
  | _ => false

theorem Extends.of_eq {p q : Pipeline} (h : q = p) : Extends 0 p q := h ▸ Extends.refl p

theorem queueResult_extends {a b : Issue} {entry : Load} (fresh : Fresh a.out.cycles entry)
    (h : a.queueResult entry = .ok b) :
    Extends 0 a.out.pipeline b.out.pipeline ∧ b = a.appendLoad entry := by
  unfold Issue.queueResult at h
  split_ifs at h with full
  cases h
  exact ⟨extends_load fresh full, rfl⟩

@[simp] theorem mvcWrite_pipeline (out : Cpu) (id : ℕ) (value : Word) :
    (mvcWrite out id value).pipeline = out.pipeline := by
  simp only [mvcWrite, apply_ite Cpu.pipeline, Cpu.setReady_pipeline, Cpu.setControl_pipeline,
    ite_self]

@[simp] theorem setReg_pipeline (a : Issue) (bank reg : ℕ) (value : Word) :
    (a.setReg bank reg value).out.pipeline = a.out.pipeline := rfl

@[simp] theorem setControl_pipeline (a : Issue) (id : ℕ) (value : Word) :
    (a.setControl id value).out.pipeline = a.out.pipeline := rfl

@[simp] theorem claim_out (a : Issue) (id : ℕ) : (a.claim id).out = a.out := rfl

theorem retime_out {a b : Issue} {timing : Option Timing} {why : String}
    (h : a.retime timing why = .ok b) : b.out = a.out := by
  unfold Issue.retime at h
  cases timing with
  | none => cases h
  | some timing =>
    cases h
    rfl

/-- Each effect queues at most the one store it is for, and what it queues is due in time. -/
theorem apply_extends {a b : Issue} {effect : Effect} (h : a.apply effect = .ok b) :
    Extends (if isStore effect then 1 else 0) a.out.pipeline b.out.pipeline := by
  cases effect with
  | stop why => cases h
  | write bank reg value =>
    simp only [Issue.apply] at h
    split_ifs at h
    cases h
    exact Extends.of_eq rfl
  | writePair bank reg low high =>
    simp only [Issue.apply] at h
    split_ifs at h
    cases h
    exact Extends.of_eq rfl
  | reserve n =>
    simp only [Issue.apply] at h
    split_ifs at h
    cases h
    exact Extends.refl _
  | result latency bank dst value status multiplier =>
    exact (queueResult_extends (fresh_of_latency latency rfl rfl) h).1
  | resultPair latency bank dst value =>
    exact (queueResult_extends (fresh_of_latency latency rfl rfl) h).1
  | compared latency bank dst value mask =>
    simp only [Issue.apply] at h
    split_ifs at h with full
    cases first : a.queueResult ⟨a.out.cycles + latency, value, bank, dst, .scalar 0 false⟩ with
    | error why =>
      rw [first] at h
      cases h
    | ok c =>
      rw [first] at h
      obtain ⟨queued, rfl⟩ := queueResult_extends (fresh_of_latency latency rfl rfl) first
      cases mask with
      | none =>
        cases h
        exact queued
      | some mask =>
        cases h
        refine queued.trans (extends_load (fresh_of_latency latency rfl rfl) ?_)
        simp only [Option.toList_some, List.length_singleton] at full
        simp only [Cpu.pipeline, Issue.appendLoad, List.length_append, List.length_singleton]
        omega
  | sat latency mask =>
    simp only [Issue.apply] at h
    split_ifs at h with full
    cases h
    exact extends_load (fresh_of_latency latency rfl rfl) full
  | memoryAccess nonaligned =>
    cases h
    exact Extends.refl _
  | probe | check =>
    cases h
    exact Extends.refl _
  | load address size width signExtend bank dst =>
    simp only [Issue.apply] at h
    split_ifs at h with full
    cases h
    exact extends_load (fresh_of_memory rfl) full
  | loadWord address bank dst =>
    simp only [Issue.apply] at h
    split_ifs at h with full
    cases h
    exact extends_load (fresh_of_memory rfl) full
  | store address value size width =>
    simp only [Issue.apply] at h
    split_ifs at h
    cases h
    exact extends_store rfl
  | branch target why =>
    simp only [Issue.apply] at h
    split at h
    next => cases h
    next hqueue =>
      cases h
      exact extends_branch hqueue
  | noBranch why =>
    simp only [Issue.apply] at h
    split_ifs at h
    cases h
    exact Extends.refl _
  | nop | idle | protectedLoad | multicycle =>
    exact Extends.of_eq (congrArg Cpu.pipeline (retime_out h))
  | faucr mask =>
    simp only [Issue.apply] at h
    split_ifs at h
    cases h
    exact Extends.of_eq rfl
  | bdec =>
    simp only [Issue.apply] at h
    split_ifs at h
    cases h
    exact Extends.refl _
  | guardControls ids why =>
    simp only [Issue.apply] at h
    split_ifs at h
    cases h
    exact Extends.refl _
  | restoreTask | setNmie | dint | rint | snapshotTsch =>
    cases h
    exact Extends.of_eq rfl
  | mvc id value =>
    simp only [Issue.apply] at h
    split_ifs at h with taken ifr full isSet
    · cases h
      exact extends_load (fresh_of_latency e2 rfl rfl) full
    · cases h
      exact extends_load (fresh_of_latency e2 rfl rfl) full
    · cases h
      exact Extends.of_eq (mvcWrite_pipeline a.out id value)

theorem perform_ok {β : Type} {bus : Bus β} {a b : Issue} {effect : Effect} {s s' : β}
    (h : a.perform bus effect s = (s', .ok b)) : a.apply effect = .ok b := by
  cases effect with
  | probe | check =>
    obtain ⟨_, _, _, last⟩ := Machine.bind_ok.mp h
    cases last
    rfl
  | _ => exact congrArg Prod.snd h

theorem run_extends {β : Type} {bus : Bus β} {effects : List Effect} {a b : Issue} {s s' : β}
    (h : a.run bus effects s = (s', .ok b)) :
    Extends (effects.countP isStore) a.out.pipeline b.out.pipeline := by
  induction effects generalizing a s with
  | nil =>
    cases h
    exact Extends.refl _
  | cons effect effects ih =>
    obtain ⟨c, t, first, rest⟩ := (run_cons_ok bus).mp h
    have joined := (apply_extends (perform_ok first)).trans (ih rest)
    rwa [List.countP_cons, add_comm]

end Cdj2000Emulator.C674x.Issuing
