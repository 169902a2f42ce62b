import Cdj2000Emulator.Library.ModuloSchedule

namespace Cdj2000Emulator.LoopBuffer.Model

open Library.ModuloSchedule

/-- Tags identify decoded instructions; the CPU owns their contents. -/
abbrev Tag := ℕ

/-- `UINT64_MAX`, the "never" of the cycle fields. -/
def never : ℕ := 2 ^ 64 - 1

/-- `CdjC674xLoop`. Row `i` of `tags` is the list of the first `count[i]` tags. -/
structure Loop where
  tags : ℕ → List Tag
  ii : ℕ
  length : ℕ
  iterations : ℕ
  cycle : ℕ
  postCycle : ℕ
  endCycle : ℕ
  sealed : Bool
  predicateLoop : Bool
  delayedCount : Bool

def empty : Loop where
  tags := fun _ ↦ []
  ii := 0
  length := 0
  iterations := 0
  cycle := 0
  postCycle := 0
  endCycle := 0
  sealed := false
  predicateLoop := false
  delayedCount := false

def init (ii iterations : ℕ) : Option Loop :=
  if ii = 0 ∨ 16 < ii then none
  else some { empty with ii, iterations }

/-- The cycle at which the last loading stage is complete. -/
def Loop.loadingEnd (loop : Loop) : ℕ :=
  (loop.length + loop.ii - 1) / loop.ii * loop.ii

/-- The SPKERNEL half of `cdj_c674x_loop_load`. -/
def Loop.seal (functional : Bool) (loop : Loop) (delay : ℕ) : Loop :=
  if loop.predicateLoop then
    { loop with sealed := true, postCycle := never, endCycle := never }
  else
    let post := loop.iterations * loop.ii + delay
    let post := if functional && loop.delayedCount then post + 2 else post
    -- post-loop fetching cannot precede the final loading boundary
    let post := if post < loop.loadingEnd then loop.loadingEnd else post
    let last := if loop.iterations ≠ 0 then (loop.iterations - 1) * loop.ii + loop.length
      else loop.loadingEnd
    let post := if last < post then last else post
    { loop with sealed := true, postCycle := post, endCycle := last }

def Loop.load (functional : Bool) (loop : Loop) (tags : List Tag) (finish : Bool)
    (delay : ℕ) : Option Loop :=
  if loop.ii = 0 ∨ loop.sealed ∨ 48 ≤ loop.cycle ∨ 8 < tags.length ∨
      loop.cycle < loop.length then none
  else
    let index := loop.cycle
    let loop := { loop with
      tags := Function.update loop.tags index tags
      length := index + 1 }
    some (if finish then loop.seal functional delay else loop)

/-- What one issue call reports back. -/
structure Issue where
  tags : List Tag
  postFetch : Bool
  drained : Bool
  deriving DecidableEq

/-- Only origins congruent to the cycle modulo the interval can issue. Predicate
loops are finite once interrupt draining has set their end. -/
def Loop.candidates (loop : Loop) : List Tag :=
  let finite := !loop.predicateLoop || (loop.sealed && loop.endCycle != never)
  (congruent loop.ii (min loop.length (loop.cycle + 1)) loop.cycle).flatMap fun origin ↦
    if finite && loop.iterations ≤ (loop.cycle - origin) / loop.ii then []
    else loop.tags origin

def Loop.issueFiltered (loop : Loop) (allow : Tag → Bool) : Option (Issue × Loop) :=
  if loop.ii = 0 ∨ (!loop.sealed ∧ 48 ≤ loop.cycle) then none
  else
    let result := loop.candidates.filter allow
    if 8 < result.length then none
    else some ({
      tags := result
      postFetch := loop.sealed && loop.postCycle ≤ loop.cycle
      drained := loop.sealed && loop.endCycle ≤ loop.cycle },
      { loop with cycle := loop.cycle + 1 })

def Loop.issue (loop : Loop) : Option (Issue × Loop) :=
  loop.issueFiltered fun _ ↦ true

/-- One of the two overlapping invocations of an immediate reload. -/
def Loop.invocation (loop : Loop) (start finish iterations : ℕ) : List Tag :=
  if finish = 0 ∨ loop.cycle < start ∨ finish ≤ loop.cycle then []
  else
    let elapsed := loop.cycle - start
    (congruent loop.ii (min loop.length (elapsed + 1)) elapsed).flatMap fun origin ↦
      if iterations ≤ (elapsed - origin) / loop.ii then [] else loop.tags origin

/-- The tags of both invocations; the older one's iteration count is reconstructed
from its end. -/
def Loop.reloadCandidates (loop : Loop) (currentStart oldStart oldEnd : ℕ) : List Tag :=
  loop.invocation oldStart oldEnd ((oldEnd - oldStart - loop.length) / loop.ii + 1) ++
    loop.invocation currentStart loop.endCycle loop.iterations

def Loop.issueReload (loop : Loop) (currentStart oldStart oldEnd postEnd : ℕ)
    (allow : Tag → Bool) : Option (Issue × Loop) :=
  if !loop.sealed ∨ loop.ii = 0 ∨ loop.length = 0 ∨ loop.cycle < currentStart ∨
      (oldEnd ≠ 0 ∧ (oldEnd < oldStart ∨ oldEnd - oldStart < loop.length)) then none
  else
    let result := (loop.reloadCandidates currentStart oldStart oldEnd).filter allow
    if 8 < result.length then none
    else some ({
      tags := result
      postFetch := loop.postCycle ≤ loop.cycle && loop.cycle < postEnd
      drained := loop.endCycle != 0 && loop.endCycle - 1 ≤ loop.cycle &&
        (oldEnd == 0 || oldEnd - 1 ≤ loop.cycle) },
      { loop with cycle := loop.cycle + 1 })

/-- At a stage boundary, stop launching and turn the schedule into its epilog. -/
def Loop.interruptDrain (loop : Loop) : Option Loop :=
  if !loop.sealed ∨ loop.ii = 0 ∨ loop.cycle % loop.ii ≠ 0 ∨ loop.cycle = 0 then none
  else
    let launched := loop.cycle / loop.ii
    if 2 ^ 32 - 1 < launched then none
    else
      let last := (launched - 1) * loop.ii + loop.length
      if last < loop.cycle then none
      else some { loop with iterations := launched, postCycle := last, endCycle := last }

end Cdj2000Emulator.LoopBuffer.Model
