import Cdj2000Emulator.Edma.CheckCommit
import Cdj2000Emulator.Edma.Quiescence
import Cdj2000Emulator.Library.Strided
import Mathlib.Algebra.Group.Prod
import Mathlib.Data.BitVec

namespace Cdj2000Emulator.Edma.Block

open Library.Worklist Library.Strided Model Halves Ram CheckCommit

section Addresses

variable (p : ParamSet)

/-- From one frame to the next: the C index counts from the frame's start when an event
moves a whole frame, from its last array when an event moves one array. -/
def frameStride (bIndex cIndex : Word) : Word :=
  if abSync p then cIndex else (bcnt p - 1) • bIndex + cIndex

def source (pos : ℕ × ℕ) : Word :=
  point (p 1) (frameStride p (lowIndex (p 4)) (lowIndex (p 6))) (lowIndex (p 4)) pos.1 pos.2

def destination (pos : ℕ × ℕ) : Word :=
  point (p 3) (frameStride p (highIndex (p 4)) (highIndex (p 6))) (highIndex (p 4)) pos.1 pos.2

/-- The array of frame `pos.1`, place `pos.2`, copied. -/
def copyArray (mem : Memory) (pos : ℕ × ℕ) : Memory :=
  store mem (destination p pos) (load mem (source p pos) (acnt p))

def events : ℕ := if abSync p then ccnt p else bcnt p * ccnt p

/-- Where the `k`-th event starts. -/
def position (k : ℕ) : ℕ × ℕ := if abSync p then (k, 0) else (k / bcnt p, k % bcnt p)

/-- The arrays the `k`-th event moves. -/
def eventArrays (k : ℕ) : List (ℕ × ℕ) :=
  if abSync p then (List.range (bcnt p)).map fun b ↦ (k, b) else [position p k]

theorem eventArrays_flatMap (hb : 0 < bcnt p) :
    (List.range (events p)).flatMap (eventArrays p) = grid (ccnt p) (bcnt p) := by
  cases hab : abSync p with
  | true =>
    have hframe : eventArrays p = fun k ↦ (List.range (bcnt p)).map fun b ↦ (k, b) := by
      funext k
      simp only [eventArrays, hab, if_true]
    simp only [events, hab, if_true, hframe, grid]
  | false =>
    have hone : eventArrays p = fun k ↦ [(k / bcnt p, k % bcnt p)] := by
      funext k
      simp [eventArrays, position, hab]
    rw [grid_eq_map _ hb, List.map_eq_flatMap, hone]
    simp only [events, hab, Bool.false_eq_true, if_false]

/-- The set as it stands when the transfer has reached `pos`. -/
def cursor (pos : ℕ × ℕ) : ParamSet :=
  Function.update (Function.update (Function.update (Function.update p
    1 (source p pos)) 3 (destination p pos)) 2 (pack (p 2) (bcnt p - pos.2)))
    7 (BitVec.ofNat 32 (ccnt p - pos.1))

/-- A set for one block transfer: supported, updated, not linked on, and reloaded with its
own B count. -/
structure Blockable : Prop where
  valid : validParam p = true
  dynamic : (p 0).getLsbD optStatic = false
  unlinked : link p = 0xffff
  reload : (p 5 >>> 16).toNat = bcnt p

end Addresses

section Cursor

variable {p : ParamSet}

theorem Blockable.counts (h : Blockable p) : 0 < acnt p ∧ 0 < bcnt p ∧ 0 < ccnt p := by
  have hv := h.valid
  simp only [validParam, decide_eq_true_eq] at hv
  omega

theorem cursor_start (h : Blockable p) : cursor p (0, 0) = p := by
  have hv := h.valid
  simp only [validParam, decide_eq_true_eq] at hv
  have hcount : pack (p 2) (bcnt p - 0) = p 2 := pack_high (p 2)
  have hframes : BitVec.ofNat 32 (ccnt p - 0) = p 7 := ofNat_low hv.2.2.2.2.2.2.1
  unfold cursor
  rw [hcount, hframes]
  simp [source, destination]

theorem acnt_cursor (pos : ℕ × ℕ) : acnt (cursor p pos) = acnt p := by
  have hb := bcnt_lt p
  exact (low_pack (p 2) (by omega)).trans (low_toNat (p 2)).symm

theorem bcnt_cursor (pos : ℕ × ℕ) : bcnt (cursor p pos) = bcnt p - pos.2 := by
  have hb := bcnt_lt p
  exact high_pack (p 2) (by omega)

theorem ccnt_cursor (pos : ℕ × ℕ) : ccnt (cursor p pos) = ccnt p - pos.1 := by
  have hc := ccnt_lt p
  exact low_ofNat (by omega)

theorem final_cursor (pos : ℕ × ℕ) : final (cursor p pos) = true ↔
    (abSync p = true ∨ bcnt p - pos.2 = 1) ∧ ccnt p - pos.1 = 1 := by
  have hab : abSync (cursor p pos) = abSync p := rfl
  simp only [final, hab, bcnt_cursor, ccnt_cursor, Bool.and_eq_true, Bool.or_eq_true, beq_iff_eq]

theorem valid_cursor (h : Blockable p) {pos : ℕ × ℕ} (hb : pos.2 < bcnt p) (hc : pos.1 < ccnt p) :
    validParam (cursor p pos) = true := by
  have hlt := ccnt_lt p
  have hv := h.valid
  simp only [validParam, decide_eq_true_eq] at hv ⊢
  rw [acnt_cursor, bcnt_cursor, ccnt_cursor]
  exact ⟨hv.1, hv.2.1, hv.2.2.1, hv.2.2.2.1, by omega, by omega,
    high_half_ofNat (n := ccnt p - pos.1) (by omega), hv.2.2.2.2.2.2.2⟩

theorem abSync_cursor (pos : ℕ × ℕ) : abSync (cursor p pos) = abSync p := rfl

theorem cursor_ext {q : ParamSet} {pos : ℕ × ℕ} (h₁ : q 1 = source p pos)
    (h₂ : q 2 = pack (p 2) (bcnt p - pos.2)) (h₃ : q 3 = destination p pos)
    (h₇ : q 7 = BitVec.ofNat 32 (ccnt p - pos.1))
    (hrest : ∀ i, i ≠ 1 → i ≠ 2 → i ≠ 3 → i ≠ 7 → q i = p i) : q = cursor p pos := by
  funext i
  simp only [cursor, Function.update_apply]
  split
  · simp_all
  · split
    · simp_all
    · split
      · simp_all
      · split
        · simp_all
        · apply hrest <;> assumption

theorem source_add (c b i : ℕ) : source p (c, b) + i • lowIndex (p 4) = source p (c, b + i) :=
  point_add _ _ _ _ _ _

theorem destination_add (c b i : ℕ) :
    destination p (c, b) + i • highIndex (p 4) = destination p (c, b + i) :=
  point_add _ _ _ _ _ _

/-- The place of a frame its C index counts from. -/
def Last (p : ParamSet) (b : ℕ) : Prop :=
  abSync p = true ∧ b = 0 ∨ abSync p = false ∧ b + 1 = bcnt p

theorem frameStride_eq {b : ℕ} (hb : Last p b) (bIndex cIndex : Word) :
    frameStride p bIndex cIndex = b • bIndex + cIndex := by
  rcases hb with ⟨hab, rfl⟩ | ⟨hab, hb⟩
  · simp only [frameStride, hab, if_true, zero_nsmul, zero_add]
  · simp only [frameStride, hab, Bool.false_eq_true, if_false, ← hb, Nat.add_sub_cancel]

theorem source_skip {b : ℕ} (hb : Last p b) (c : ℕ) :
    source p (c, b) + lowIndex (p 6) = source p (c + 1, 0) := by
  simp only [source, frameStride_eq hb]
  exact point_skip _ _ _ _ _

theorem destination_skip {b : ℕ} (hb : Last p b) (c : ℕ) :
    destination p (c, b) + highIndex (p 6) = destination p (c + 1, 0) := by
  simp only [destination, frameStride_eq hb]
  exact point_skip _ _ _ _ _

theorem advance_column (hab : abSync p = false) {c b : ℕ} (hb : b + 1 < bcnt p) :
    advance (cursor p (c, b)) = cursor p (c, b + 1) := by
  have hlt := bcnt_lt p
  have hmore : 1 < bcnt (cursor p (c, b)) := by
    rw [bcnt_cursor]
    omega
  have hcount : bcnt (cursor p (c, b)) - 1 = bcnt p - (b + 1) := by
    rw [bcnt_cursor]
    omega
  have hadvance : advance (cursor p (c, b)) = Function.update (Function.update
      (Function.update (cursor p (c, b)) 2 (pack (cursor p (c, b) 2) (bcnt p - (b + 1))))
      1 (source p (c, b) + lowIndex (p 4))) 3 (destination p (c, b) + highIndex (p 4)) := by
    simp only [advance, abSync_cursor, hab, Bool.false_eq_true, if_false, if_pos hmore, hcount]
    rfl
  rw [hadvance]
  apply cursor_ext
  · simpa using source_add c b 1
  · exact pack_repack (p 2) (by omega) (by omega)
  · simpa using destination_add c b 1
  · rfl
  · intro i h₁ h₂ h₃ h₇
    simp [cursor, h₁, h₂, h₃, h₇]

theorem advance_row (h : Blockable p) {c b : ℕ} (hb : Last p b) :
    advance (cursor p (c, b)) = cursor p (c + 1, 0) := by
  have hlt := bcnt_lt p
  have hcount : ccnt (cursor p (c, b)) - 1 = ccnt p - (c + 1) := by
    rw [ccnt_cursor]
    omega
  have hpos := h.counts
  rcases id hb with ⟨hab, rfl⟩ | ⟨hab, hlast⟩
  · have hadvance : advance (cursor p (c, 0)) = Function.update (Function.update
        (Function.update (cursor p (c, 0)) 7 (BitVec.ofNat 32 (ccnt p - (c + 1))))
        1 (source p (c, 0) + lowIndex (p 6))) 3 (destination p (c, 0) + highIndex (p 6)) := by
      simp only [advance, abSync_cursor, hab, if_true, hcount]
      rfl
    rw [hadvance]
    apply cursor_ext
    · simpa using source_skip hb c
    · rfl
    · simpa using destination_skip hb c
    · rfl
    · intro i h₁ h₂ h₃ h₇
      simp [cursor, h₁, h₂, h₃, h₇]
  · have hmore : ¬ 1 < bcnt (cursor p (c, b)) := by
      rw [bcnt_cursor]
      omega
    have hadvance : advance (cursor p (c, b)) = Function.update (Function.update
        (Function.update (Function.update (cursor p (c, b))
          2 ((pack (p 2) (bcnt p - b) &&& 0xffff#32) ||| (p 5 &&& 0xffff0000#32)))
          7 (BitVec.ofNat 32 (ccnt p - (c + 1))))
        1 (source p (c, b) + lowIndex (p 6))) 3 (destination p (c, b) + highIndex (p 6)) := by
      simp only [advance, abSync_cursor, hab, Bool.false_eq_true, if_false, if_neg hmore, hcount]
      rfl
    rw [hadvance, pack_other, h.reload, pack_repack _ (by omega) (by omega)]
    apply cursor_ext
    · simpa using source_skip hb c
    · rfl
    · simpa using destination_skip hb c
    · rfl
    · intro i h₁ h₂ h₃ h₇
      simp [cursor, h₁, h₂, h₃, h₇]

theorem position_lt (h : Blockable p) {k : ℕ} (hk : k < events p) :
    (position p k).1 < ccnt p ∧ (position p k).2 < bcnt p := by
  have hpos := h.counts
  cases hab : abSync p with
  | true => simpa [position, events, hab, hpos.2.1] using hk
  | false =>
    simp only [position, events, hab, Bool.false_eq_true, if_false] at hk ⊢
    exact ⟨Nat.div_lt_of_lt_mul hk, Nat.mod_lt _ hpos.2.1⟩

theorem final_position (h : Blockable p) {k : ℕ} (hk : k < events p) :
    final (cursor p (position p k)) = decide (k + 1 = events p) := by
  obtain ⟨hc, hb⟩ := position_lt h hk
  rw [Bool.eq_iff_iff, final_cursor, decide_eq_true_iff]
  cases hab : abSync p with
  | true =>
    simp only [position, events, hab, if_true, true_or, true_and] at hc ⊢
    omega
  | false =>
    have hdiv := Nat.div_add_mod k (bcnt p)
    simp only [position, events, hab, Bool.false_eq_true, if_false, false_or] at hb hc ⊢
    generalize k / bcnt p = c at hdiv hc
    generalize k % bcnt p = b at hdiv hb
    subst hdiv
    constructor
    · rintro ⟨hlast, hframe⟩
      have hc' : ccnt p = c + 1 := by omega
      rw [hc', Nat.mul_succ]
      omega
    · intro hend
      have hle : bcnt p * ccnt p ≤ bcnt p * (c + 1) := by
        rw [← hend, Nat.mul_succ]
        omega
      have hc' : ccnt p = c + 1 := by
        have := Nat.le_of_mul_le_mul_left hle (by omega)
        omega
      rw [hc', Nat.mul_succ] at hend
      omega

theorem advance_position (h : Blockable p) {k : ℕ} (hk : k < events p) :
    advance (cursor p (position p k)) = cursor p (position p (k + 1)) := by
  cases hab : abSync p with
  | true =>
    simp only [position, hab, if_true]
    exact advance_row h (.inl ⟨hab, rfl⟩)
  | false =>
    have hpos := h.counts.2.1
    have hdiv := Nat.div_add_mod k (bcnt p)
    have hmod := Nat.mod_lt k hpos
    simp only [position, hab, Bool.false_eq_true, if_false]
    generalize k / bcnt p = c at hdiv
    generalize k % bcnt p = b at hdiv hmod
    subst hdiv
    rw [Nat.add_assoc, Nat.mul_add_div hpos, Nat.mul_add_mod]
    rcases (Nat.lt_or_eq_of_le hmod : b + 1 < bcnt p ∨ b + 1 = bcnt p) with hlt | heq
    · rw [Nat.div_eq_of_lt hlt, Nat.mod_eq_of_lt hlt, Nat.add_zero]
      exact advance_column hab hlt
    · rw [heq, Nat.div_self hpos, Nat.mod_self]
      exact advance_row h (.inr ⟨hab, heq⟩)

/-- The bytes of the `k`-th event over a flat memory. -/
theorem transferArrays_ram (count : ℕ) (srcIndex dstIndex : Word) (arrays : ℕ) (src dst : Word)
    (mem : Memory) :
    transferArrays ram true count srcIndex dstIndex arrays src dst mem =
      (true, walk (fun x mem ↦ store mem x.2 (load mem x.1 count)) (srcIndex, dstIndex) arrays
        (src, dst) mem) := by
  induction arrays generalizing src dst mem with
  | zero => rfl
  | succ arrays ih => exact ih _ _ _

theorem transferBytes_cursor (h : Blockable p) {k : ℕ} (hk : k < events p) (mem : Memory) :
    transferBytes ram true (cursor p (position p k)) mem =
      (true, (eventArrays p k).foldl (copyArray p) mem) := by
  obtain ⟨hc, hb⟩ := position_lt h hk
  simp only [transferBytes, valid_cursor h hb hc, if_true, abSync_cursor, acnt_cursor,
    bcnt_cursor, transferArrays_ram, walk_eq_foldl]
  cases hab : abSync p with
  | true =>
    have hcopy (mem : Memory) (b : ℕ) : copyArray p mem (k, b) =
        store mem (destination p (k, 0) + b • highIndex (p 4))
          (load mem (source p (k, 0) + b • lowIndex (p 4)) (acnt p)) := by
      rw [copyArray, source_add, destination_add, Nat.zero_add]
    simp only [eventArrays, hab, if_true, List.foldl_map, hcopy, position, Nat.sub_zero]
    rfl
  | false =>
    simp only [eventArrays, hab, Bool.false_eq_true, if_false, List.range_one, List.foldl_cons,
      List.foldl_nil, zero_nsmul, add_zero]
    rfl

end Cursor

section Events

/-- One event of a channel: its request is the first a service run accepts. -/
def oneEvent (channel : ℕ) (m : C6747Edma × Memory) :
    Bool × (C6747Edma × Memory) × PendingQueue :=
  completeOne ram true m ⟨[], 1⟩ ⟨.dma, channel⟩

/-- What one event on an unlinked set `q` leaves behind. -/
structure Served (channel : ℕ) (q : ParamSet) (s s' : C6747Edma) (queue : PendingQueue) : Prop where
  param : s'.param = Function.update s.param channel (if final q then nullSet else advance q)
  ipr : s'.ipr = s.ipr ||| (if interrupts q then bit (tcc (q 0)) else 0)
  chained : queue.items = if chains q then [⟨.dma, tcc (q 0)⟩] else []
  transferRequests : s'.transferRequests = s.transferRequests + 1
  bytesTransferred : s'.bytesTransferred =
    s.bytesTransferred + BitVec.ofNat 64 (acnt q * (if abSync q then bcnt q else 1))
  eer : s'.eer = s.eer
  er : s'.er = s.er &&& ~~~bit channel

theorem updateParam_unlinked {q : ParamSet} (hstatic : (q 0).getLsbD optStatic = false)
    (hlink : link q = 0xffff) (s : C6747Edma) (set : ℕ) (queue : PendingQueue) :
    s.updateParam set q queue =
      (true, s.setParam set (if final q then nullSet else advance q), queue) := by
  unfold C6747Edma.updateParam
  rw [hstatic, if_neg (by decide)]
  cases final q <;> simp [hlink]

theorem oneEvent_served {s : C6747Edma} {mem mem' : Memory} {channel : ℕ} {q : ParamSet}
    (hchannel : channel < 32) (hq : s.param channel = q)
    (hstatic : (q 0).getLsbD optStatic = false) (hlink : link q = 0xffff)
    (ht : transferBytes ram true q mem = (true, mem')) :
    ∃ s' queue, oneEvent channel (s, mem) = (true, (s', mem'), queue) ∧
      Served channel q s s' queue := by
  have hset : s.setOf ⟨.dma, channel⟩ = channel := rfl
  unfold oneEvent
  simp only [completeOne, hset, hq, ht, if_neg (show ¬ 128 ≤ channel by omega),
    C6747Edma.retire, updateParam_unlinked hstatic hlink]
  have hipr : Served channel q s ((if interrupts q then
      ((s.acknowledge ⟨.dma, channel⟩).setParam channel
        (if final q then nullSet else advance q)).raiseInterrupt (tcc (q 0))
      else (s.acknowledge ⟨.dma, channel⟩).setParam channel
        (if final q then nullSet else advance q)).count q)
      ⟨if chains q then [⟨.dma, tcc (q 0)⟩] else [], 1⟩ := by
    cases hi : interrupts q with
    | false => exact ⟨rfl, by rw [hi]; exact BitVec.or_zero.symm, rfl, rfl, rfl, rfl, rfl⟩
    | true => exact ⟨rfl, by rw [hi]; rfl, rfl, rfl, rfl, rfl, rfl⟩
  generalize (if interrupts q then
      ((s.acknowledge ⟨.dma, channel⟩).setParam channel
        (if final q then nullSet else advance q)).raiseInterrupt (tcc (q 0))
      else (s.acknowledge ⟨.dma, channel⟩).setParam channel
        (if final q then nullSet else advance q)) = raised at hipr ⊢
  cases hc : chains q with
  | false => exact ⟨raised.count q, ⟨[], 1⟩, rfl, by rwa [hc] at hipr⟩
  | true =>
    refine ⟨(raised.chainTo (tcc (q 0)) ⟨[], 1⟩).2.1.count q,
      ⟨[⟨.dma, tcc (q 0)⟩], 2⟩, rfl, ?_⟩
    have hmarked : ∀ marked, (marked = { raised with emr := raised.emr ||| bit (tcc (q 0)) } ∨
        marked = { raised with cer := raised.cer ||| bit (tcc (q 0)) }) →
        Served channel q s (marked.count q) ⟨[⟨.dma, tcc (q 0)⟩], 2⟩ := by
      rintro marked (rfl | rfl) <;>
        exact ⟨hipr.param, hipr.ipr, by rw [hc]; rfl, hipr.transferRequests,
          hipr.bytesTransferred, hipr.eer, hipr.er⟩
    apply hmarked
    unfold C6747Edma.chainTo
    cases raised.cer.getLsbD (tcc (q 0)) with
    | false => exact .inr rfl
    | true => exact .inl rfl

variable {p : ParamSet}

theorem interrupts_cursor (h : Blockable p) {k : ℕ} (hk : k < events p) :
    interrupts (cursor p (position p k)) =
      (p 0).getLsbD (if k + 1 = events p then optTcinten else optItcinten) := by
  unfold interrupts
  rw [final_position h hk]
  simp only [decide_eq_true_eq]
  rfl

theorem chains_cursor (h : Blockable p) {k : ℕ} (hk : k < events p) :
    chains (cursor p (position p k)) =
      (p 0).getLsbD (if k + 1 = events p then optTcchen else optItcchen) := by
  unfold chains
  rw [final_position h hk]
  simp only [decide_eq_true_eq]
  rfl

def perEvent (p : ParamSet) : ℕ := acnt p * (if abSync p then bcnt p else 1)

theorem perEvent_events (p : ParamSet) : events p * perEvent p = acnt p * bcnt p * ccnt p := by
  unfold events perEvent
  split
  · rw [Nat.mul_comm]
  · rw [Nat.mul_one, Nat.mul_comm, Nat.mul_assoc]

theorem perEvent_cursor {k : ℕ} :
    acnt (cursor p (position p k)) * (if abSync (cursor p (position p k)) then
      bcnt (cursor p (position p k)) else 1) = perEvent p := by
  rw [acnt_cursor, bcnt_cursor, abSync_cursor, perEvent]
  cases hab : abSync p with
  | true => simp only [position, hab, if_true, Nat.sub_zero]
  | false => rfl

/-- Where a block started from `m` stands after `k` events. -/
structure Progress (channel : ℕ) (p : ParamSet) (m : C6747Edma × Memory) (k : ℕ)
    (m' : C6747Edma × Memory) : Prop where
  param : m'.1.param channel = if k = events p then nullSet else cursor p (position p k)
  memory : m'.2 = ((List.range k).flatMap (eventArrays p)).foldl (copyArray p) m.2
  transferRequests : m'.1.transferRequests = m.1.transferRequests + BitVec.ofNat 64 k
  bytesTransferred : m'.1.bytesTransferred =
    m.1.bytesTransferred + BitVec.ofNat 64 (k * perEvent p)
  eer : m'.1.eer = m.1.eer
  er : m.1.er.getLsbD channel = false → m'.1.er.getLsbD channel = false

theorem Progress.start {m : C6747Edma × Memory} {channel : ℕ}
    (h : Blockable (m.1.param channel)) :
    Progress channel (m.1.param channel) m 0 m := by
  have hpos : 0 < events (m.1.param channel) := by
    obtain ⟨-, hb, hc⟩ := h.counts
    unfold events
    split
    · exact hc
    · exact Nat.mul_pos hb hc
  have hstart : position (m.1.param channel) 0 = (0, 0) := by
    unfold position
    split <;> simp
  refine ⟨?_, rfl, ?_, ?_, rfl, id⟩
  · rw [if_neg (by omega), hstart, cursor_start h]
  · simp
  · simp

theorem Progress.next {channel : ℕ} (hchannel : channel < 32) (h : Blockable p)
    {m m' : C6747Edma × Memory} {k : ℕ} (hk : k < events p) (hm : Progress channel p m k m') :
    ∃ m'' queue, oneEvent channel m' = (true, m'', queue) ∧ Progress channel p m (k + 1) m'' ∧
      m''.2 = (eventArrays p k).foldl (copyArray p) m'.2 ∧
      Served channel (cursor p (position p k)) m'.1 m''.1 queue := by
  have hq : m'.1.param channel = cursor p (position p k) := by
    rw [hm.param, if_neg (by omega)]
  obtain ⟨s', queue, hevent, hserved⟩ := oneEvent_served hchannel hq h.dynamic h.unlinked
    (transferBytes_cursor h hk m'.2)
  refine ⟨_, queue, hevent, ⟨?_, ?_, ?_, ?_, ?_, ?_⟩, rfl, hserved⟩
  · rw [hserved.param, Function.update_self, final_position h hk, advance_position h hk]
    simp only [decide_eq_true_eq]
  · rw [List.range_succ, List.flatMap_append, List.foldl_append, ← hm.memory]
    simp
  · rw [hserved.transferRequests, hm.transferRequests, BitVec.ofNat_add, BitVec.add_assoc]
    rfl
  · rw [hserved.bytesTransferred, hm.bytesTransferred, perEvent_cursor, BitVec.add_assoc,
      ← BitVec.ofNat_add, Nat.succ_mul]
  · rw [hserved.eer, hm.eer]
  · intro her
    rw [hserved.er, BitVec.getLsbD_and, hm.er her, Bool.false_and]

theorem event_oneEvent {channel : ℕ} (hchannel : channel < 32) {m m' : C6747Edma × Memory}
    {queue : PendingQueue} (heer : m.1.eer.getLsbD channel = true)
    (her : m.1.er.getLsbD channel = false) (hqueue : queue.items = [])
    (h : oneEvent channel m = (true, m', queue)) : event ram m channel = (true, m') := by
  obtain ⟨s, mem⟩ := m
  obtain ⟨hset, ht, hr⟩ := Quiescence.completeOne_ok h
  have hclear : (s.er ||| bit channel) &&& ~~~bit channel = s.er &&& ~~~bit channel := by
    rw [BitVec.and_comm, BitVec.and_or_distrib_left, BitVec.and_comm _ (bit channel),
      BitVec.and_not_self, BitVec.and_comm]
    exact BitVec.or_zero
  have hstart : completeOne ram true ({ s with er := s.er ||| bit channel }, mem) ⟨[], 1⟩
      ⟨.dma, channel⟩ = (true, m', queue) := by
    have hack : ({ s with er := s.er ||| bit channel } : C6747Edma).acknowledge ⟨.dma, channel⟩ =
        s.acknowledge ⟨.dma, channel⟩ := by
      simp only [C6747Edma.acknowledge, hclear]
    have hset' : ¬ 128 ≤ channel := by omega
    have ht' : transferBytes ram true (s.param channel) mem = (true, m'.2) := ht
    have hr' : ({ s with er := s.er ||| bit channel } : C6747Edma).retire ⟨.dma, channel⟩ channel
        (s.param channel) ⟨[], 1⟩ = (true, m'.1, queue) := by
      unfold C6747Edma.retire
      rw [hack]
      exact hr
    simp only [completeOne, C6747Edma.setOf, if_neg hset', ht', hr']
  have hservice : service ram true ({ s with er := s.er ||| bit channel }, mem)
      [⟨.dma, channel⟩] = (true, m') := drain_one _ hstart hqueue
  have hpreview := service_agrees ram_contract ({ s with er := s.er ||| bit channel }, mem)
    ({ s with er := s.er ||| bit channel }, mem) ⟨⟨rfl, rfl, rfl⟩, ram_contract.span _⟩
    [⟨.dma, channel⟩]
  have hsame := service_check ram_contract ({ s with er := s.er ||| bit channel }, mem)
    [⟨.dma, channel⟩]
  rw [hservice] at hpreview
  have heer' : s.eer.getLsbD channel = true := heer
  have her' : s.er.getLsbD channel = false := her
  simp only [event, if_neg (show ¬ 32 ≤ channel by omega), heer', her', Bool.not_true,
    Bool.false_eq_true, if_false, serviceChecked]
  generalize service ram false ({ s with er := s.er ||| bit channel }, mem)
    [⟨.dma, channel⟩] = preview at hpreview hsame
  obtain ⟨ok, s₁, mem₁⟩ := preview
  obtain rfl : ok = true := hpreview
  obtain rfl : mem₁ = mem := hsame
  exact hservice

end Events

/-- The state after `k` events of a channel. -/
def after (channel : ℕ) : ℕ → C6747Edma × Memory → C6747Edma × Memory
  | 0, m => m
  | k + 1, m => (oneEvent channel (after channel k m)).2.1

theorem after_progress {channel : ℕ} (hchannel : channel < 32) {m : C6747Edma × Memory}
    (h : Blockable (m.1.param channel)) {k : ℕ} (hk : k ≤ events (m.1.param channel)) :
    Progress channel (m.1.param channel) m k (after channel k m) := by
  induction k with
  | zero => exact .start h
  | succ k ih =>
    obtain ⟨m'', queue, hevent, hm, -⟩ := (ih (by omega)).next hchannel h hk
    rwa [after, hevent]

/-- What the `k`-th event of a block does. The final completion code belongs to the last
event, the intermediate one to every other. -/
structure BlockEvent (channel : ℕ) (p : ParamSet) (m : C6747Edma × Memory) (k : ℕ) : Prop where
  accepted : (oneEvent channel (after channel k m)).1 = true
  copied : (after channel (k + 1) m).2 = (eventArrays p k).foldl (copyArray p) (after channel k m).2
  interrupted : (after channel (k + 1) m).1.ipr = (after channel k m).1.ipr |||
    (if (p 0).getLsbD (if k + 1 = events p then optTcinten else optItcinten) then bit (tcc (p 0))
      else 0)
  chained : (oneEvent channel (after channel k m)).2.2.items =
    if (p 0).getLsbD (if k + 1 = events p then optTcchen else optItcchen) then
      [⟨.dma, tcc (p 0)⟩] else []
  delivered : m.1.eer.getLsbD channel = true → m.1.er.getLsbD channel = false →
    (p 0).getLsbD (if k + 1 = events p then optTcchen else optItcchen) = false →
    event ram (after channel k m) channel = (true, after channel (k + 1) m)

/-- A whole block: every event as above, and together the grid of arrays in order. -/
structure BlockDone (channel : ℕ) (p : ParamSet) (m : C6747Edma × Memory) : Prop where
  each : ∀ k < events p, BlockEvent channel p m k
  memory : (after channel (events p) m).2 = (grid (ccnt p) (bcnt p)).foldl (copyArray p) m.2
  param : (after channel (events p) m).1.param channel = nullSet
  transferRequests : (after channel (events p) m).1.transferRequests =
    m.1.transferRequests + BitVec.ofNat 64 (events p)
  bytesTransferred : (after channel (events p) m).1.bytesTransferred =
    m.1.bytesTransferred + BitVec.ofNat 64 (acnt p * bcnt p * ccnt p)

theorem block_transfer {channel : ℕ} (hchannel : channel < 32) {m : C6747Edma × Memory}
    {p : ParamSet} (hp : m.1.param channel = p) (h : Blockable p) : BlockDone channel p m := by
  subst hp
  have hend := after_progress hchannel h le_rfl
  refine ⟨fun k hk ↦ ?_, ?_, ?_, hend.transferRequests, ?_⟩
  · have hm := after_progress hchannel h (Nat.le_of_lt hk)
    obtain ⟨m'', queue, hevent, -, hcopied, hserved⟩ := hm.next hchannel h hk
    have hafter : after channel (k + 1) m = m'' := by rw [after, hevent]
    have hipr := hserved.ipr
    have hchained := hserved.chained
    rw [interrupts_cursor h hk] at hipr
    rw [chains_cursor h hk] at hchained
    rw [← hafter] at hcopied hipr
    refine ⟨?_, hcopied, hipr, ?_, fun heer her hquiet ↦ ?_⟩
    · rw [hevent]
    · rw [hevent]
      exact hchained
    · rw [hafter]
      apply event_oneEvent hchannel _ (hm.er her) _ hevent
      · rw [hm.eer, heer]
      · rw [hchained, hquiet]
        rfl
  · rw [hend.memory, eventArrays_flatMap _ h.counts.2.1]
  · rw [hend.param, if_pos rfl]
  · rw [hend.bytesTransferred, perEvent_events]

/-- Two frames of two 4-byte arrays, A-synchronized, both codes enabled. -/
def twoByTwo : ParamSet
  | 0 => 0x00305000
  | 1 => 0x11800000
  | 2 => 0x00020004
  | 3 => 0x80000000
  | 4 => 0x0008fff8
  | 5 => 0x0002ffff
  | 6 => 0x00100020
  | 7 => 2
  | _ => 0

theorem block_transfer_twoByTwo :
    BlockDone 3 twoByTwo (reset.setParam 3 twoByTwo, fun _ ↦ 0) :=
  block_transfer (by decide) rfl ⟨by decide, by decide, by decide, by decide⟩

def constantSource : ParamSet := Function.update twoByTwo 0 0x00305001

/-- Constant addressing meets every condition on the counts and the link, and is refused. -/
theorem block_refused_constantSource :
    valid (reset.setParam 3 constantSource) = true ∧
    (constantSource 0).getLsbD optStatic = false ∧ link constantSource = 0xffff ∧
    acnt constantSource ≠ 0 ∧ bcnt constantSource ≠ 0 ∧ ccnt constantSource ≠ 0 ∧
    (constantSource 5 >>> 16).toNat = bcnt constantSource ∧
    (oneEvent 3 (reset.setParam 3 constantSource, fun _ ↦ 0)).1 = false ∧
    (after 3 4 (reset.setParam 3 constantSource, fun _ ↦ 0)).1.transferRequests = 0 := by
  refine ⟨by decide, ?_, ?_, ?_, ?_, ?_, ?_, ?_, ?_⟩ <;> decide +kernel

end Cdj2000Emulator.Edma.Block
