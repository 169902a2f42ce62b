import Cdj2000Emulator.LoopBuffer.Model

namespace Cdj2000Emulator.LoopBuffer.Schedule

open Library.ModuloSchedule Model

/-- One call of `cdj_c674x_loop_load`. -/
structure Call where
  tags : List Tag
  finish : Bool
  delay : ℕ

def cycle (functional : Bool) (loop : Loop) (call : Option Call) : Option (Issue × Loop) := do
  let loop ← match call with
    | none => some loop
    | some c => loop.load functional c.tags c.finish c.delay
  loop.issue

/-- The issues of a run, or `none` when any call is rejected. -/
def run (functional : Bool) : Loop → List (Option Call) → Option (List Issue)
  | _, [] => some []
  | loop, call :: calls => do
    let (issue, loop) ← cycle functional loop call
    let issues ← run functional loop calls
    some (issue :: issues)

def Call.tagsOf : Option Call → List Tag
  | none => []
  | some c => c.tags

def loaded (calls : List (Option Call)) (origin : ℕ) : List Tag :=
  Call.tagsOf (calls[origin]?.join)

/-- What holds of a non-predicate buffer between two cycles, when `body` lists
the tags of every origin. -/
structure Holds (ii N : ℕ) (body : ℕ → List Tag) (loop : Loop) : Prop where
  ii_pos : 0 < ii
  interval : loop.ii = ii
  iterations : loop.iterations = N
  unconditional : loop.predicateLoop = false
  length_le : loop.length ≤ loop.cycle
  tags_eq : ∀ origin < loop.cycle, loop.tags origin = body origin
  beyond : ∀ origin, loop.length ≤ origin → loop.tags origin = []
  end_eq : loop.sealed = true → N ≠ 0 → loop.endCycle = (N - 1) * ii + loop.length

theorem holds_init {ii N : ℕ} {loop : Loop} (body : ℕ → List Tag)
    (h : init ii N = some loop) : Holds ii N body loop := by
  simp only [init, Option.ite_none_left_eq_some, not_or, Option.some.injEq] at h
  obtain ⟨hii, rfl⟩ := h
  exact ⟨by omega, rfl, rfl, rfl, le_rfl, fun _ h ↦ absurd h (Nat.not_lt_zero _),
    fun _ _ ↦ rfl, fun h ↦ nomatch h⟩

variable {functional : Bool} {ii N : ℕ} {body : ℕ → List Tag}

/-- The state that the load half of a cycle hands to the issue half. -/
structure Ready (ii N : ℕ) (body : ℕ → List Tag) (loop : Loop) : Prop where
  ii_pos : 0 < ii
  interval : loop.ii = ii
  iterations : loop.iterations = N
  unconditional : loop.predicateLoop = false
  length_le : loop.length ≤ loop.cycle + 1
  tags_eq : ∀ origin ≤ loop.cycle, loop.tags origin = body origin
  beyond : ∀ origin, loop.length ≤ origin → loop.tags origin = []
  end_eq : loop.sealed = true → N ≠ 0 → loop.endCycle = (N - 1) * ii + loop.length

theorem Holds.ready {loop : Loop} (h : Holds ii N body loop)
    (hbody : body loop.cycle = []) : Ready ii N body loop where
  ii_pos := h.ii_pos
  interval := h.interval
  iterations := h.iterations
  unconditional := h.unconditional
  length_le := Nat.le_succ_of_le h.length_le
  tags_eq := fun origin ho ↦ by
    rcases Nat.lt_or_eq_of_le ho with hlt | rfl
    · exact h.tags_eq origin hlt
    · rw [h.beyond _ h.length_le, hbody]
  beyond := h.beyond
  end_eq := h.end_eq

theorem seal_fields (f : Bool) (loop : Loop) (delay : ℕ) :
    (loop.seal f delay).ii = loop.ii ∧
    (loop.seal f delay).iterations = loop.iterations ∧
    (loop.seal f delay).predicateLoop = loop.predicateLoop ∧
    (loop.seal f delay).length = loop.length ∧
    (loop.seal f delay).cycle = loop.cycle ∧
    (loop.seal f delay).tags = loop.tags := by
  unfold Loop.seal
  split <;> exact ⟨rfl, rfl, rfl, rfl, rfl, rfl⟩

theorem seal_endCycle {loop : Loop} (hp : loop.predicateLoop = false)
    (hn : loop.iterations ≠ 0) (delay : ℕ) :
    (loop.seal functional delay).endCycle =
      (loop.iterations - 1) * loop.ii + loop.length := by
  simp [Loop.seal, hp, hn]

theorem Holds.load {loop loop' : Loop} (h : Holds ii N body loop) {tags : List Tag}
    {finish : Bool} {delay : ℕ} (hbody : body loop.cycle = tags)
    (hl : loop.load functional tags finish delay = some loop') :
    Ready ii N body loop' ∧ loop'.cycle = loop.cycle := by
  simp only [Loop.load, Option.ite_none_left_eq_some, not_or, Option.some.injEq] at hl
  obtain ⟨⟨-, hs, -, -, -⟩, rfl⟩ := hl
  have hopen : loop.sealed = false := by simpa using hs
  have hr : Ready ii N body { loop with
      tags := Function.update loop.tags loop.cycle tags, length := loop.cycle + 1 } := by
    refine ⟨h.ii_pos, h.interval, h.iterations, h.unconditional, le_rfl, ?_, ?_, ?_⟩
    · intro origin ho
      by_cases heq : origin = loop.cycle
      · subst heq
        simp [hbody]
      · have hlt : origin < loop.cycle := by simp only at ho; omega
        simpa [heq] using h.tags_eq origin hlt
    · intro origin ho
      simp only at ho
      have hne : origin ≠ loop.cycle := by omega
      have hlen := h.length_le
      simpa [hne] using h.beyond origin (by omega)
    · intro hsealed
      simp [hopen] at hsealed
  cases finish with
  | false => exact ⟨hr, rfl⟩
  | true =>
    obtain ⟨h₁, h₂, h₃, h₄, h₅, h₆⟩ := seal_fields functional
      { loop with tags := Function.update loop.tags loop.cycle tags,
                  length := loop.cycle + 1 } delay
    refine ⟨⟨h.ii_pos, ?_, ?_, ?_, ?_, ?_, ?_, ?_⟩, h₅⟩
    · rw [if_pos rfl, h₁]; exact hr.interval
    · rw [if_pos rfl, h₂]; exact hr.iterations
    · rw [if_pos rfl, h₃]; exact hr.unconditional
    · rw [if_pos rfl, h₄, h₅]
    · rw [if_pos rfl, h₅, h₆]; exact hr.tags_eq
    · rw [if_pos rfl, h₄, h₆]; exact hr.beyond
    · intro _ hn
      rw [if_pos rfl, h₄, seal_endCycle hr.unconditional (hr.iterations ▸ hn)]
      simp only [h.interval, h.iterations]

/-- The congruent origins the buffer visits issue exactly the cycle's slot. -/
theorem Ready.candidates {loop : Loop} (h : Ready ii N body loop) :
    loop.candidates = slot ii N (loop.cycle + 1) body loop.cycle := by
  have hfin : (!loop.predicateLoop || (loop.sealed && loop.endCycle != never)) = true := by
    simp [h.unconditional]
  have hmin : min loop.length (loop.cycle + 1) ≤ loop.cycle + 1 := Nat.min_le_right _ _
  simp only [Loop.candidates, hfin, Bool.true_and, decide_eq_true_eq]
  calc
    _ = (congruent ii (min loop.length (loop.cycle + 1)) loop.cycle).flatMap (fun origin ↦
        if (loop.cycle - origin) / ii < N then loop.tags origin else []) := by
      rw [h.interval, h.iterations]
      refine List.flatMap_congr fun origin _ ↦ ?_
      by_cases hk : (loop.cycle - origin) / ii < N
      · simp [hk]
      · simp [hk, Nat.not_lt.mp hk]
    _ = slot ii N (min loop.length (loop.cycle + 1)) loop.tags loop.cycle :=
      congruent_flatMap h.ii_pos N _ _ hmin
    _ = slot ii N (loop.cycle + 1) loop.tags loop.cycle :=
      (slot_eq_of_le hmin fun origin ho hle ↦ h.beyond origin (by omega)).symm
    _ = slot ii N (loop.cycle + 1) body loop.cycle :=
      slot_congr fun origin _ hle ↦ h.tags_eq origin hle

theorem Ready.issue {loop loop' : Loop} {issue : Issue} (h : Ready ii N body loop)
    (hi : loop.issue = some (issue, loop')) :
    issue.tags = slot ii N (loop.cycle + 1) body loop.cycle ∧
    issue.drained = (loop.sealed && loop.endCycle ≤ loop.cycle) ∧
    loop' = { loop with cycle := loop.cycle + 1 } ∧
    Holds ii N body loop' := by
  simp only [Loop.issue, Loop.issueFiltered, Option.ite_none_left_eq_some, List.filter_true,
    Option.some.injEq, Prod.mk.injEq] at hi
  obtain ⟨-, -, rfl, rfl⟩ := hi
  refine ⟨h.candidates, rfl, rfl, ?_⟩
  exact ⟨h.ii_pos, h.interval, h.iterations, h.unconditional, h.length_le,
    fun origin ho ↦ h.tags_eq origin (Nat.lt_succ_iff.mp ho), h.beyond, h.end_eq⟩

theorem cycle_ready {loop loop' : Loop} {call : Option Call} {issue : Issue}
    (h : Holds ii N body loop) (hbody : body loop.cycle = Call.tagsOf call)
    (hc : cycle functional loop call = some (issue, loop')) :
    ∃ mid, Ready ii N body mid ∧ mid.cycle = loop.cycle ∧
      mid.issue = some (issue, loop') := by
  cases call with
  | none => exact ⟨loop, h.ready hbody, rfl, hc⟩
  | some c =>
    simp only [cycle, Option.bind_eq_bind, Option.bind_eq_some_iff] at hc
    obtain ⟨mid, hl, hi⟩ := hc
    obtain ⟨hr, hcycle⟩ := h.load hbody hl
    exact ⟨mid, hr, hcycle, hi⟩

theorem run_sealed {l : Loop} {calls : List (Option Call)} {issues : List Issue}
    (hs : l.sealed = true) (h : run functional l calls = some issues) :
    ∀ i, loaded calls i = [] := by
  induction calls generalizing l issues with
  | nil => intro i; rfl
  | cons call calls ih =>
    simp only [run, Option.bind_eq_bind, Option.bind_eq_some_iff] at h
    obtain ⟨⟨issue, loop'⟩, hc, rest, hrest, -⟩ := h
    have hcall : call = none := by
      cases call with
      | none => rfl
      | some c => simp [cycle, Loop.load, hs] at hc
    subst hcall
    have hs' : loop'.sealed = true := by
      simp only [cycle, Loop.issue, Loop.issueFiltered, Option.bind_eq_bind, Option.bind_some,
        Option.ite_none_left_eq_some, Option.some.injEq, Prod.mk.injEq] at hc
      obtain ⟨-, -, -, rfl⟩ := hc
      exact hs
    intro i
    cases i with
    | zero => rfl
    | succ i => exact ih hs' hrest i

theorem run_slots {loop : Loop} {calls : List (Option Call)} {issues : List Issue}
    (h : Holds ii N body loop) (hbody : ∀ i, body (loop.cycle + i) = loaded calls i)
    (hr : run functional loop calls = some issues) :
    issues.length = calls.length ∧
    ∀ i issue, issues[i]? = some issue →
      issue.tags = slot ii N (loop.cycle + i + 1) body (loop.cycle + i) ∧
      (issue.drained = true → ∀ origin k, body origin ≠ [] → k < N →
        origin + k * ii < loop.cycle + i) := by
  induction calls generalizing loop issues with
  | nil =>
    simp only [run, Option.some.injEq] at hr
    subst hr
    exact ⟨rfl, fun i issue hi ↦ by simp at hi⟩
  | cons call calls ih =>
    simp only [run, Option.bind_eq_bind, Option.bind_eq_some_iff, Option.some.injEq] at hr
    obtain ⟨⟨issue, loop'⟩, hc, rest, hrest, rfl⟩ := hr
    obtain ⟨mid, hready, hmid, hissue⟩ := cycle_ready h (hbody 0) hc
    obtain ⟨htags, hdrained, rfl, hholds⟩ := hready.issue hissue
    rw [hmid] at htags
    have hnext : ∀ i, body (mid.cycle + 1 + i) = loaded calls i := by
      intro i
      rw [hmid, Nat.add_right_comm, Nat.add_assoc]
      exact hbody (i + 1)
    obtain ⟨hlen, hrec⟩ := ih hholds hnext hrest
    refine ⟨by simp [hlen], fun i issue' hi ↦ ?_⟩
    cases i with
    | zero =>
      simp only [List.getElem?_cons_zero, Option.some.injEq] at hi
      subst hi
      refine ⟨htags, fun hd origin k hne hk ↦ ?_⟩
      simp only [hdrained, Bool.and_eq_true, decide_eq_true_eq] at hd
      have hstop := run_sealed (l := { mid with cycle := mid.cycle + 1 }) hd.1 hrest
      have horigin : origin < mid.length := by
        by_contra hge
        apply hne
        by_cases hle : origin ≤ mid.cycle
        · rw [← hready.tags_eq origin hle]
          exact hready.beyond origin (by omega)
        · have := hnext (origin - (mid.cycle + 1))
          rw [Nat.add_sub_cancel' (by omega)] at this
          rw [this, hstop]
      have hend := hready.end_eq hd.1 (by omega)
      have hmul : k * ii ≤ (N - 1) * ii := Nat.mul_le_mul_right ii (by omega)
      omega
    | succ i =>
      simp only [List.getElem?_cons_succ] at hi
      have hi' := hrec i issue' hi
      have hcycle : mid.cycle + 1 + i = loop.cycle + (i + 1) := by omega
      simpa only [hcycle] using hi'

/-- Over a whole run with no rejected call, a tag loaded at origin `o` is issued
exactly at the cycles `o + k * ii` for `k < N`, in ascending origin order inside
a cycle; drained is not reported up to the last of these issues, and once it is
reported every origin has been issued `N` times. -/
theorem schedule_exact (ii N : ℕ) (functional : Bool) (calls : List (Option Call))
    {loop : Loop} {issues : List Issue} (hinit : init ii N = some loop)
    (h : run functional loop calls = some issues) :
    issues.length = calls.length ∧
    ∀ c issue, issues[c]? = some issue →
      issue.tags = slot ii N (c + 1) (loaded calls) c ∧
      (∀ origin k, loaded calls origin ≠ [] → k < N → c ≤ origin + k * ii →
        issue.drained = false) ∧
      (issue.drained = true → ∀ origin, loaded calls origin ≠ [] →
        ((Finset.range c).filter (Launched ii N origin)).card = N) := by
  have hholds := holds_init (loaded calls) hinit
  have hzero : loop.cycle = 0 := by
    simp only [init, Option.ite_none_left_eq_some, Option.some.injEq] at hinit
    rw [← hinit.2]
    rfl
  obtain ⟨hlen, hrun⟩ := run_slots hholds (fun i ↦ by rw [hzero, Nat.zero_add]) h
  refine ⟨hlen, fun c issue hc ↦ ?_⟩
  obtain ⟨htags, hdrained⟩ := hrun c issue hc
  rw [hzero, Nat.zero_add] at htags hdrained
  refine ⟨htags, fun origin k hne hk hle ↦ ?_, fun hd origin hne ↦ ?_⟩
  · by_contra hd
    have := hdrained (by simpa using hd) origin k hne hk
    omega
  · exact card_launched hholds.ii_pos N origin c (fun k hk ↦ hdrained hd origin k hne hk)

/-- Two single-cycle stages at interval 1, three iterations. -/
theorem schedule_exact_overlapped :
    ∃ loop issues, init 1 3 = some loop ∧
      run false loop [some ⟨[0], false, 0⟩, some ⟨[1], true, 0⟩, none, none, none] =
        some issues ∧
      issues.map Issue.tags = [[0], [0, 1], [0, 1], [1], []] ∧
      (∀ issue, issues[2]? = some issue → issue.drained = false) := by
  refine ⟨_, _, rfl, rfl, by decide, fun issue hi ↦ ?_⟩
  have h := (schedule_exact 1 3 false
    [some ⟨[0], false, 0⟩, some ⟨[1], true, 0⟩, none, none, none] rfl rfl).2 2 issue hi
  exact h.2.1 1 2 (by decide) (by decide) (by decide)

end Cdj2000Emulator.LoopBuffer.Schedule
