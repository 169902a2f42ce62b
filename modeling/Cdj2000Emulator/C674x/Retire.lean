import Cdj2000Emulator.C674x.Issuing

namespace Cdj2000Emulator.C674x.Retire

open Library.Stateful State Transfer Effects Execute Issuing

variable {β : Type} {bus : Bus β} {pc : Word}

theorem retireStores_ok {cycles : ℕ} {stores kept : List Store} {s t : β}
    (h : retireStores bus pc cycles stores s = (t, .ok kept)) :
    kept = stores.filter (cycles < ·.due) := by
  induction stores generalizing s kept with
  | nil =>
    cases h
    rfl
  | cons store rest ih =>
    unfold retireStores at h
    split_ifs at h with later
    · obtain ⟨kept', s', first, last⟩ := Machine.bind_ok.mp h
      cases last
      rw [List.filter_cons_of_pos (by simpa using later), ih first]
    · obtain ⟨_, s', -, last⟩ := Machine.bind_ok.mp h
      rw [List.filter_cons_of_neg (by simpa using later), ih last]

section Loads

variable {cycles : ℕ} {admits : β → Prop} {before after : Load → Prop}

/-- What sampling establishes of a queued result, over the bus states that it keeps within
`admits`. -/
structure Samples (bus : Bus β) (pc : Word) (cycles : ℕ) (admits : β → Prop)
    (before after : Load → Prop) : Prop where
  run : ∀ {load load' : Load} {s t : β}, admits s → before load →
    sample bus pc cycles load s = (t, .ok load') → admits t ∧ after load'
  weaken : ∀ {load : Load}, after load → before load

@[simp] theorem writeBack_pipeline (out : Cpu) (load : Load) :
    (writeBack out load).pipeline = out.pipeline := by
  unfold writeBack
  simp only
  split
  · split_ifs <;> rfl
  · split_ifs <;> rfl

@[simp] theorem applyIfr_pipeline (out : Cpu) (due : List Load) :
    (applyIfr out due).pipeline = out.pipeline := rfl

/-- What a pass over the load queue leaves, when `room` entries were queued. -/
def Swept (cycles : ℕ) (before after : Load → Prop) (out : Cpu) (written : List Load)
    (room : ℕ) : Sweep → Prop
  | .done out' kept written' =>
    out'.pipeline = out.pipeline ∧ (∀ l ∈ kept, after l ∧ cycles < l.due) ∧
      kept.length ≤ room ∧ ∀ l ∈ written', l ∈ written ∨ (after l ∧ l.due ≤ cycles)
  | .again out' loads written' =>
    out'.pipeline = out.pipeline ∧ (∀ l ∈ loads, before l) ∧ loads.length < room ∧
      ∀ l ∈ written', l ∈ written ∨ (after l ∧ l.due ≤ cycles)

theorem Swept.of_eq {out out' : Cpu} {written written' : List Load} {room room' : ℕ}
    {result : Sweep} (hp : out'.pipeline = out.pipeline)
    (hw : ∀ l ∈ written', l ∈ written ∨ (after l ∧ l.due ≤ cycles)) (hr : room' ≤ room)
    (h : Swept cycles before after out' written' room' result) :
    Swept cycles before after out written room result := by
  cases result with
  | done o k w =>
    obtain ⟨pipeline, kept, fits, wrote⟩ := h
    exact ⟨pipeline.trans hp, kept, fits.trans hr,
      fun l hl ↦ (wrote l hl).elim (hw l) .inr⟩
  | again o k w =>
    obtain ⟨pipeline, kept, fits, wrote⟩ := h
    exact ⟨pipeline.trans hp, kept, fits.trans_le hr,
      fun l hl ↦ (wrote l hl).elim (hw l) .inr⟩

/-- A pass that starts over has dropped the entry that made it do so. -/
theorem restarted (samples : Samples bus pc cycles admits before after) {load load' : Load}
    {rest kept : List Load} {out : Cpu} {written : List Load}
    (hkept : ∀ l ∈ kept, after l ∧ cycles < l.due) (hload : after load')
    (hrest : ∀ l ∈ rest, before l) (due : load'.due ≤ cycles) (ifr : isIfr load') :
    Swept cycles before after out written (kept.length + (load :: rest).length)
      (.again (applyIfr out ((load' :: rest).filter (·.due ≤ cycles)))
        ((kept ++ load' :: rest).filter fun l ↦ !(l.due ≤ cycles && isIfr l)) written) := by
  refine ⟨rfl, fun l hl ↦ ?_, ?_, fun l hl ↦ .inl hl⟩
  · rcases List.mem_append.mp (List.mem_of_mem_filter hl) with hl | hl
    · exact samples.weaken (hkept l hl).1
    · rcases List.mem_cons.mp hl with rfl | hl
      · exact samples.weaken hload
      · exact hrest l hl
  · have dropped : ((kept ++ load' :: rest).filter fun l ↦ !(l.due ≤ cycles && isIfr l)).length <
        (kept ++ load' :: rest).length :=
      List.length_filter_lt_length_iff_exists.mpr ⟨load', by simp, by simp [due, ifr]⟩
    simpa using dropped

theorem sweep_ok (samples : Samples bus pc cycles admits before after) {rest kept : List Load}
    {out : Cpu} {written : List Load} {s t : β} {result : Sweep} (hs : admits s)
    (hrest : ∀ l ∈ rest, before l) (hkept : ∀ l ∈ kept, after l ∧ cycles < l.due)
    (h : sweep bus pc cycles rest kept out written s = (t, .ok result)) :
    admits t ∧ Swept cycles before after out written (kept.length + rest.length) result := by
  induction rest generalizing kept out written s with
  | nil =>
    cases h
    exact ⟨hs, rfl, hkept, le_rfl, fun l hl ↦ .inl hl⟩
  | cons load rest ih =>
    obtain ⟨load', s', first, last⟩ := Machine.bind_ok.mp h
    rw [List.forall_mem_cons] at hrest
    obtain ⟨hs', hafter⟩ := samples.run hs hrest.1 first
    have shorter : kept.length + rest.length ≤ kept.length + (load :: rest).length := by simp
    split_ifs at last with later
    · obtain ⟨ht, swept⟩ := ih hs' hrest.2
        (List.forall_mem_append.mpr ⟨hkept, by simpa using ⟨hafter, later⟩⟩) last
      refine ⟨ht, swept.of_eq rfl (fun l hl ↦ .inl hl) ?_⟩
      simp only [List.length_append, List.length_cons, List.length_nil]
      omega
    · have due : load'.due ≤ cycles := Nat.le_of_not_lt later
      cases kind : load'.kind with
      | sat mask =>
        rw [kind] at last
        obtain ⟨ht, swept⟩ := ih hs' hrest.2 hkept last
        exact ⟨ht, swept.of_eq rfl (fun l hl ↦ .inl hl) shorter⟩
      | faucr mask =>
        rw [kind] at last
        obtain ⟨ht, swept⟩ := ih hs' hrest.2 hkept last
        exact ⟨ht, swept.of_eq rfl (fun l hl ↦ .inl hl) shorter⟩
      | ifrSet mask =>
        rw [kind] at last
        cases last
        exact ⟨hs', restarted samples hkept hafter hrest.2 due (by simp [isIfr, kind])⟩
      | ifrClear mask =>
        rw [kind] at last
        cases last
        exact ⟨hs', restarted samples hkept hafter hrest.2 due (by simp [isIfr, kind])⟩
      | memory | scalar | pair =>
        rw [kind] at last
        obtain ⟨ht, swept⟩ := ih hs' hrest.2 hkept last
        refine ⟨ht, swept.of_eq (writeBack_pipeline out load') (fun l hl ↦ ?_) shorter⟩
        rcases List.mem_append.mp hl with hl | hl
        · exact .inl hl
        · rw [List.mem_singleton.mp hl]
          exact .inr ⟨hafter, due⟩

theorem retireLoads_ok (samples : Samples bus pc cycles admits before after) {passes : ℕ}
    {loads loads' : List Load} {out out' : Cpu} {written written' : List Load} {s t : β}
    (enough : loads.length < passes) (hs : admits s) (hloads : ∀ l ∈ loads, before l)
    (h : retireLoads bus pc cycles passes loads out written s = (t, .ok (out', loads', written'))) :
    admits t ∧ Swept cycles before after out written loads.length (.done out' loads' written') := by
  induction passes generalizing loads out written s with
  | zero => exact absurd enough (Nat.not_lt_zero _)
  | succ passes ih =>
    obtain ⟨result, s', first, last⟩ := Machine.bind_ok.mp h
    obtain ⟨hs', swept⟩ := sweep_ok samples hs hloads (List.forall_mem_nil _) first
    rw [List.length_nil, Nat.zero_add] at swept
    cases result with
    | done =>
      cases last
      exact ⟨hs', swept⟩
    | again out₁ loads₁ written₁ =>
      obtain ⟨pipeline, queued, shorter, wrote⟩ := swept
      obtain ⟨ht, swept⟩ := ih (by omega) hs' queued last
      exact ⟨ht, swept.of_eq pipeline wrote shorter.le⟩

end Loads

theorem retireCycle_ok {out out' : Cpu} {written written' : List Load} {s t : β}
    (h : retireCycle bus pc out written s = (t, .ok (out', written'))) :
    ∃ kept mid loads s', retireStores bus pc (out.cycles + 1) out.stores (bus.tick s) =
        (s', .ok kept) ∧
      retireLoads bus pc (out.cycles + 1) (out.loads.length + 1) out.loads
        { out with cycles := out.cycles + 1, stores := kept } written s' =
          (t, .ok (mid, loads, written')) ∧ out' = { mid with loads } := by
  obtain ⟨_, _, ticked, h⟩ := Machine.bind_ok.mp h
  cases ticked
  obtain ⟨kept, s', first, h⟩ := Machine.bind_ok.mp h
  obtain ⟨⟨mid, loads, wrote⟩, _, second, last⟩ := Machine.bind_ok.mp h
  cases last
  exact ⟨kept, mid, loads, s', first, second, rfl⟩

/-- The queues once every entry due has retired. -/
structure Retired (p q : Pipeline) : Prop where
  stores : q.stores = p.stores.filter (q.cycles < ·.due)
  loads : ∀ l ∈ q.loads, q.cycles < l.due ∧ ∃ l' ∈ p.loads, l'.due = l.due
  room : q.loads.length ≤ p.loads.length

theorem Retired.trans {p q r : Pipeline} (hq : Retired p q) (hr : Retired q r)
    (later : q.cycles ≤ r.cycles) : Retired p r where
  stores := by
    rw [hr.stores, hq.stores, List.filter_filter]
    refine List.filter_congr fun s _ ↦ ?_
    rw [Bool.and_eq_left_iff_imp, decide_eq_true_iff, decide_eq_true_iff]
    exact later.trans_lt
  loads l hl := by
    obtain ⟨due, l', hl', same⟩ := hr.loads l hl
    obtain ⟨-, l'', hl'', same'⟩ := hq.loads l' hl'
    exact ⟨due, l'', hl'', same'.trans same⟩
  room := hr.room.trans hq.room

theorem sample_memory {cycles : ℕ} {load : Load} {address : Word} {size width : ℕ}
    {signExtend : Bool} (kind : load.kind = .memory address size width signExtend)
    (due : load.due = cycles + 2) :
    sample bus pc cycles load =
      (readTransfer bus address size width).orFail
        (⟨pc, 0, "RAM load mapping changed during execution"⟩ : Fault) >>= fun data ↦
      pure { load with value := if signExtend then
        (Decode.sx (Operands.low data) (size * 8)).signExtend 64 else data } := by
  unfold sample
  simp only [kind, due, if_true]

theorem sample_other {cycles : ℕ} {load : Load}
    (h : load.isMemory = true → load.due ≠ cycles + 2) :
    sample bus pc cycles load = pure load := by
  unfold sample
  split
  next kind =>
    rw [if_neg (h (by simp [Load.isMemory, kind]))]
  next => rfl

theorem sample_frame {cycles : ℕ} {load load' : Load} {s t : β}
    (h : sample bus pc cycles load s = (t, .ok load')) :
    load'.due = load.due ∧ load'.bank = load.bank ∧ load'.dst = load.dst ∧
      load'.kind = load.kind := by
  by_cases sampled : load.isMemory = true ∧ load.due = cycles + 2
  · obtain ⟨memory, due⟩ := sampled
    cases kind : load.kind with
    | memory address size width signExtend =>
      rw [sample_memory kind due] at h
      obtain ⟨_, _, -, last⟩ := Machine.bind_ok.mp h
      cases last
      exact ⟨rfl, rfl, rfl, kind⟩
    | _ => simp [Load.isMemory, kind] at memory
  · rw [sample_other fun memory due ↦ sampled ⟨memory, due⟩] at h
    cases h
    exact ⟨rfl, rfl, rfl, rfl⟩

theorem retireCycle_retired {out out' : Cpu} {written written' : List Load} {s t : β}
    (h : retireCycle bus pc out written s = (t, .ok (out', written'))) :
    Retired out.pipeline out'.pipeline ∧ out'.cycles = out.cycles + 1 ∧
      out'.branchDue = out.branchDue ∧ out'.branchTarget = out.branchTarget ∧
      out'.branchQueue = out.branchQueue := by
  obtain ⟨kept, mid, loads, s', first, second, rfl⟩ := retireCycle_ok h
  let queued (l : Load) : Prop := ∃ l' ∈ out.loads, l'.due = l.due
  have samples : Samples bus pc (out.cycles + 1) (fun _ ↦ True) queued queued :=
    { run := fun _ ⟨l', hl', same⟩ run ↦ ⟨trivial, l', hl', same.trans (sample_frame run).1.symm⟩
      weaken := id }
  obtain ⟨-, pipeline, kept', fits, -⟩ := retireLoads_ok samples (Nat.lt_succ_self _) trivial
    (fun l hl ↦ ⟨l, hl, rfl⟩) second
  have cycles : mid.cycles = out.cycles + 1 := congrArg Pipeline.cycles pipeline
  have stores : mid.stores = kept := congrArg Pipeline.stores pipeline
  refine ⟨⟨?_, ?_, fits⟩, cycles, congrArg Pipeline.branchDue pipeline,
    congrArg Pipeline.branchTarget pipeline, congrArg Pipeline.branchQueue pipeline⟩
  · simp only [Cpu.pipeline, cycles, stores]
    exact retireStores_ok first
  · intro l hl
    simp only [Cpu.pipeline, cycles]
    exact ⟨(kept' l hl).2, (kept' l hl).1⟩

/-- Retirement from `p`, up to the branch that redirects fetch to `pc` if one completes. -/
structure Advanced (p q : Pipeline) (pc : Word) : Prop extends Retired p q where
  cycles : p.cycles < q.cycles
  ordered : Ordered q
  branches : q.branches = p.branches ∨
    ∃ b, p.branches = b :: q.branches ∧ q.cycles = b.due ∧ pc = b.target

theorem completeBranch_ok {out out' : Cpu} (h : completeBranch out = .ok out') :
    out'.pc = out.branchTarget ∧ out'.cycles = out.cycles ∧ out'.stores = out.stores ∧
      out'.loads = out.loads ∧ (out.branchQueue = [] → out'.branchDue = 0 ∧ out'.branchQueue = []) ∧
      ∀ next rest, out.branchQueue = next :: rest → out'.branchDue = next.due ∧
        out'.branchTarget = next.target ∧ out'.branchQueue = rest := by
  unfold completeBranch at h
  simp only at h
  split_ifs at h with nested active
  all_goals
    cases h
    cases queue : out.branchQueue with
    | nil => simp [Cpu.loopSetActive, Cpu.loopClearInterruptPhase, Cpu.setControl,
        Cpu.loopSetInterruptPhase]
    | cons next rest => simp [Cpu.loopSetActive, Cpu.loopClearInterruptPhase, Cpu.setControl,
        Cpu.loopSetInterruptPhase]

theorem branches_congr {p q : Pipeline} (due : q.branchDue = p.branchDue)
    (target : q.branchTarget = p.branchTarget) (queue : q.branchQueue = p.branchQueue) :
    q.branches = p.branches := by
  unfold Pipeline.branches
  rw [due, target, queue]

theorem Ordered.tick {p q : Pipeline} (ord : Ordered p) (cycles : q.cycles = p.cycles + 1)
    (due : q.branchDue = p.branchDue) (target : q.branchTarget = p.branchTarget)
    (queue : q.branchQueue = p.branchQueue)
    (waits : ¬(q.branchDue ≠ 0 ∧ q.cycles = q.branchDue)) : Ordered q := by
  have same := branches_congr due target queue
  refine ⟨by rw [due, queue]; exact ord.queue, same ▸ ord.sorted, fun b hb ↦ ?_⟩
  rw [same] at hb
  have inFlight := ord.inFlight b hb
  have sorted := ord.sorted
  unfold Pipeline.branches at hb sorted
  split_ifs at hb sorted with idle
  · cases hb
  · have pending := ord.inFlight ⟨p.branchDue, p.branchTarget⟩ (by simp [Pipeline.branches, idle])
    have after : p.branchDue ≤ b.due := by
      rcases List.mem_cons.mp hb with rfl | hb
      · exact le_rfl
      · exact (List.rel_of_pairwise_cons sorted hb).le
    simp only at pending
    omega

theorem completeBranch_ordered {out out' : Cpu} (h : completeBranch out = .ok out')
    (sorted : out.pipeline.branches.Pairwise (·.due < ·.due))
    (bound : ∀ b ∈ out.pipeline.branches, b.due ≤ out.cycles + 6) (pending : out.branchDue ≠ 0)
    (now : out.cycles = out.branchDue) :
    Ordered out'.pipeline ∧ ∃ b, out.pipeline.branches = b :: out'.pipeline.branches ∧
      out'.cycles = b.due ∧ out'.pc = b.target := by
  obtain ⟨hpc, hcycles, -, -, last, more⟩ := completeBranch_ok h
  have branches : out.pipeline.branches = ⟨out.branchDue, out.branchTarget⟩ :: out.branchQueue := by
    simp [Pipeline.branches, Cpu.pipeline, pending]
  rw [branches] at sorted bound ⊢
  have later : ∀ b ∈ out.branchQueue, out.branchDue < b.due :=
    fun b hb ↦ List.rel_of_pairwise_cons sorted hb
  cases queue : out.branchQueue with
  | nil =>
    obtain ⟨hdue, hqueue⟩ := last queue
    have none : out'.pipeline.branches = [] := by simp [Pipeline.branches, Cpu.pipeline, hdue]
    rw [none]
    refine ⟨⟨fun _ ↦ hqueue, by simp [none], by simp [none]⟩, _, rfl, ?_, hpc⟩
    simp only [hcycles, now]
  | cons next rest =>
    obtain ⟨hdue, htarget, hqueue⟩ := more next rest queue
    rw [queue] at later bound
    have hnext := later next (by simp)
    have tail : out'.pipeline.branches = next :: rest := by
      simp [Pipeline.branches, Cpu.pipeline, hdue, htarget, hqueue, (Nat.zero_lt_of_lt hnext).ne']
    rw [tail]
    refine ⟨⟨fun none ↦ ?_, ?_, ?_⟩, _, rfl, ?_, hpc⟩
    · simp only [Cpu.pipeline, hdue] at none
      omega
    · rw [tail, ← queue]
      exact sorted.of_cons
    · rw [tail]
      intro b hb
      have := later b hb
      have := bound b (List.mem_cons_of_mem _ hb)
      simp only [Cpu.pipeline, hcycles] at *
      omega
    · simp only [hcycles, now]

theorem advanced_of_completeBranch {out mid out' : Cpu} (ord : Ordered out.pipeline)
    (retired : Retired out.pipeline mid.pipeline) (cycles : mid.cycles = out.cycles + 1)
    (branches : mid.pipeline.branches = out.pipeline.branches) (pending : mid.branchDue ≠ 0)
    (now : mid.cycles = mid.branchDue) (h : completeBranch mid = .ok out') :
    Advanced out.pipeline out'.pipeline out'.pc := by
  obtain ⟨ordered, b, first, due, hpc⟩ := completeBranch_ordered h (branches ▸ ord.sorted)
    (fun b hb ↦ by
      have := (ord.inFlight b (branches ▸ hb)).2
      simp only [Cpu.pipeline] at this
      omega) pending now
  have frame := completeBranch_ok h
  have hcycles : out'.pipeline.cycles = mid.pipeline.cycles := frame.2.1
  have hstores : out'.pipeline.stores = mid.pipeline.stores := frame.2.2.1
  have hloads : out'.pipeline.loads = mid.pipeline.loads := frame.2.2.2.1
  exact {
    stores := by
      rw [hcycles, hstores]
      exact retired.stores
    loads := by
      rw [hcycles, hloads]
      exact retired.loads
    room := by
      rw [hloads]
      exact retired.room
    cycles := by
      rw [hcycles]
      exact (Nat.lt_succ_self out.cycles).trans_eq cycles.symm
    ordered := ordered
    branches := .inr ⟨b, branches ▸ first, due, hpc⟩ }

/-- A cycle in which no branch completes. -/
structure Passed (p q : Pipeline) : Prop extends Retired p q where
  cycles : p.cycles < q.cycles
  ordered : Ordered q
  branches : q.branches = p.branches

theorem Passed.advanced {p q : Pipeline} {pc : Word} (h : Passed p q) : Advanced p q pc :=
  { h with branches := .inl h.branches }

theorem Passed.then {p q r : Pipeline} {pc : Word} (h : Passed p q) (k : Advanced q r pc) :
    Advanced p r pc :=
  { h.toRetired.trans k.toRetired k.cycles.le with
    cycles := h.cycles.trans k.cycles
    ordered := k.ordered
    branches := h.branches ▸ k.branches }

theorem retireCycles_step {n : ℕ} {out out' : Cpu} {written written' : List Load} {s t : β}
    (ord : Ordered out.pipeline)
    (h : retireCycles bus pc (n + 1) out written s = (t, .ok (out', written'))) :
    Advanced out.pipeline out'.pipeline out'.pc ∨
      ∃ mid written₁ s₁, Passed out.pipeline mid.pipeline ∧
        retireCycles bus pc n mid written₁ s₁ = (t, .ok (out', written')) := by
  obtain ⟨⟨mid, written₁⟩, s₁, first, rest⟩ := Machine.bind_ok.mp h
  obtain ⟨retired, cycles, due, target, queue⟩ := retireCycle_retired first
  have same : mid.pipeline.branches = out.pipeline.branches := branches_congr due target queue
  by_cases completes : mid.branchDue ≠ 0 ∧ mid.cycles = mid.branchDue
  · obtain ⟨out₁, _, done, last⟩ := Machine.bind_ok.mp (by simpa only [if_pos completes] using rest)
    cases last
    exact .inl (advanced_of_completeBranch ord retired cycles same completes.1 completes.2
      (congrArg Prod.snd done))
  · refine .inr ⟨mid, written₁, s₁,
      { retired with cycles := ?_, ordered := ?_, branches := same }, ?_⟩
    · simp only [Cpu.pipeline, cycles, Nat.lt_succ_self]
    · exact Ordered.tick ord cycles due target queue completes
    · simpa only [if_neg completes] using rest

theorem retireCycles_advanced {n : ℕ} {out out' : Cpu} {written written' : List Load} {s t : β}
    (ord : Ordered out.pipeline)
    (h : retireCycles bus pc (n + 1) out written s = (t, .ok (out', written'))) :
    Advanced out.pipeline out'.pipeline out'.pc := by
  induction n generalizing out written s with
  | zero =>
    rcases retireCycles_step ord h with advanced | ⟨mid, written₁, s₁, passed, rest⟩
    · exact advanced
    · cases rest
      exact passed.advanced
  | succ n ih =>
    rcases retireCycles_step ord h with advanced | ⟨mid, written₁, s₁, passed, rest⟩
    · exact advanced
    · exact passed.then (ih passed.ordered rest)

end Cdj2000Emulator.C674x.Retire
