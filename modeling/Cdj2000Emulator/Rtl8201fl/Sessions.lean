import Cdj2000Emulator.Rtl8201fl.Frames

namespace Cdj2000Emulator.Rtl8201fl

open Library.Stateful

def replay (r : Registers) : List Entry → Option Registers
  | [] => some r
  | .access (.write reg value) :: log => (r.write reg value).bind fun r ↦ replay r log
  | .access (.read reg value) :: log =>
    match r.read reg with
    | none => none
    | some (value', r) => if value' = value then replay r log else none
  | .advance now :: log => replay ((r.advance now).getD r) log

section Replay

variable {r : Registers} {s s' : Phy} {made : List Access} {b b' : Bench}

theorem replay_append (log log' : List Entry) :
    replay r (log ++ log') = (replay r log).bind fun r ↦ replay r log' := by
  induction log generalizing r with
  | nil => rfl
  | cons e log ih =>
    cases e with
    | advance now => exact ih
    | access a =>
      cases a with
      | write reg value =>
        simp only [List.cons_append, replay]
        cases r.write reg value with
        | none => rfl
        | some r' => exact ih
      | read reg value =>
        simp only [List.cons_append, replay]
        cases r.read reg with
        | none => rfl
        | some x =>
          simp only
          split_ifs
          · exact ih
          · rfl

theorem fallingEdge_replay (h : s.fallingEdge = some (s', made)) :
    replay s.regs (made.map .access) = some s'.regs := by
  unfold Phy.fallingEdge at h
  dsimp only at h
  split_ifs at h
  · cases h
    rfl
  · split at h
    next => cases h
    next value regs hread =>
      cases h
      change replay s.regs [.access (.read _ value)] = _
      simp only [replay]
      rw [hread]
      exact if_pos rfl
  · cases h
    rfl
  · cases h
    rfl
  · cases h
    rfl

theorem write_regs {reg : ℕ} {value : Half} (h : s.write reg value = some s') :
    s.regs.write reg value = some s'.regs := by
  unfold Phy.write at h
  split at h
  next => cases h
  next regs hwrite =>
    rw [hwrite, ← Option.some_inj.mp h]
    split_ifs
    · rfl
    · rfl

theorem written_replay {reg : ℕ} {value : Half} (h : s.write reg value = some s') :
    replay s.regs [.access (.write reg value)] = some s'.regs := by
  simp only [replay]
  rw [write_regs h]
  rfl

theorem clockBit_replay {drive bit : Bool} (h : s.clockBit drive bit = some (s', made)) :
    replay s.regs (made.map .access) = some s'.regs := by
  unfold Phy.clockBit at h
  dsimp only at h
  split_ifs at h
  · obtain ⟨σ, -, heq⟩ := Option.map_eq_some_iff.mp h
    cases heq
    rfl
  · cases h
    rfl
  · split at h
    next => cases h
    next t hwrite =>
      have hregs := written_replay hwrite
      cases h
      exact hregs
  · cases h
    rfl
  · split at h
    next => cases h
    next t hwrite =>
      have hregs := written_replay hwrite
      cases h
      exact hregs
  · cases h
    rfl
  · obtain ⟨σ, -, heq⟩ := Option.map_eq_some_iff.mp h
    cases heq
    rfl

theorem pirWrite_replay {value : Word} (h : s.pirWrite value = some (s', made)) :
    replay s.regs (made.map .access) = some s'.regs := by
  unfold Phy.pirWrite at h
  rw [ite_eq_iff] at h
  obtain ⟨-, h⟩ | ⟨-, h⟩ := h
  · cases h
  · obtain ⟨⟨t, made'⟩, hedge, heq⟩ := Option.map_eq_some_iff.mp h
    have hreplay : replay s.regs (made'.map .access) = some t.regs := by
      split at hedge
      · exact clockBit_replay hedge
      · split at hedge
        · exact fallingEdge_replay hedge
        · cases hedge
          rfl
    cases heq
    exact hreplay

def Genuine (r : Registers) (b : Bench) : Prop := replay r b.log = some b.phy.regs

theorem call_genuine {e : Event} (hb : Genuine r b) (h : b.call e = .ok b') : Genuine r b' := by
  cases e with
  | advance now =>
    cases h
    unfold Genuine
    rw [replay_append, hb]
    rfl
  | pir value =>
    unfold Bench.call at h
    simp only at h
    split at h
    next => cases h
    next s made hwrite =>
      cases h
      unfold Genuine
      rw [replay_append, hb]
      exact pirWrite_replay hwrite

theorem calls_genuine {events : List Event} (hb : Genuine r b) (h : b.calls events = .ok b') : Genuine r b' := by
  induction events generalizing b with
  | nil =>
    cases h
    exact hb
  | cons e events ih =>
    unfold Bench.calls at h
    rw [List.foldlM_cons] at h
    cases hcall : b.call e with
    | error s =>
      rw [hcall] at h
      cases h
    | ok c =>
      rw [hcall] at h
      exact ih (call_genuine hb hcall) h

theorem cell_genuine {c : Cell} (hb : Genuine r b) (h : b.cell c = .ok b') : Genuine r b' := by
  unfold Bench.cell at h
  cases hlow : b.calls c.low with
  | error s =>
    rw [hlow] at h
    cases h
  | ok d =>
    rw [hlow] at h
    cases hhigh : d.calls c.high with
    | error s =>
      change (d.calls c.high >>= _) = _ at h
      rw [hhigh] at h
      cases h
    | ok e =>
      change (d.calls c.high >>= _) = _ at h
      rw [hhigh] at h
      have hlast := calls_genuine (calls_genuine hb hlow) hhigh
      cases h
      exact hlast

theorem cells_genuine {cells : List Cell} (hb : Genuine r b) (h : b.cells cells = .ok b') : Genuine r b' := by
  induction cells generalizing b with
  | nil =>
    cases h
    exact hb
  | cons c cells ih =>
    unfold Bench.cells at h
    rw [List.foldlM_cons] at h
    cases hcell : b.cell c with
    | error s =>
      rw [hcell] at h
      cases h
    | ok d =>
      rw [hcell] at h
      exact ih (cell_genuine hb hcell) h

end Replay

/-- A claim about the serial side, the accesses made and what the master has sampled. -/
abbrev Stage := Serial → List Access → List (Bool × Bool) → Prop

/-- From `b` the bench has come to a stage. -/
def Reaches (b : Bench) (I : Stage) (b' : Bench) : Prop :=
  ∃ made seen, I b'.phy.serial made seen ∧ accesses b'.log = accesses b.log ++ made ∧ b'.seen = b.seen ++ seen ∧
    (b'.phy.pir.getLsbD 0 = false → b'.phy.serial.frame = false)

def Step (I J : Stage) (E : Phy → Prop) (line : Option Bool) : Prop :=
  ∀ σ made seen, I σ made seen → ∃ P : Serial → List Access → Prop,
    (σ.frame = false → P σ []) ∧ (∀ s : Phy, s.serial = σ → Edge P (E s) s.fallingEdge) ∧
    ∀ (s : Phy) made', P s.serial made' → Edge
      (fun σ' made'' ↦ σ'.mdi = s.serial.mdi ∧
        J σ' (made ++ (made' ++ made'')) (seen ++ [(line.getD σ'.mdi, line.getD σ'.mdi)]))
      (E s) (s.clockBit line.isSome (line.getD true))

def Carried (I J : Stage) (E : Phy → Prop) (lines : List (Option Bool)) : Prop :=
  ∀ (b₀ b : Bench) (cells : List Cell), List.Forall₂ Cell.Carries cells lines → Reaches b₀ I b →
    Yields (Reaches b₀ J) E (b.cells cells)

section Carried

variable {I J K : Stage} {E : Phy → Prop} {line : Option Bool} {lines lines' : List (Option Bool)}

theorem carried_nil : Carried I I E [] := by
  intro b₀ b cells hcells hb
  cases hcells
  exact hb

theorem Carried.cons (h : Step I J E line) (k : Carried J K E lines) : Carried I K E (line :: lines) := by
  intro b₀ b cells hcells hb
  obtain ⟨c, rest, hc, hrest, rfl⟩ := List.forall₂_cons_right_iff.mp hcells
  obtain ⟨made, seen, hI, hmade, hseen, hlow⟩ := hb
  obtain ⟨P, hkeep, hfall, hrise⟩ := h _ made seen hI
  unfold Bench.cells
  rw [List.foldlM_cons]
  refine (cell_yields hc (fun hlevel ↦ hkeep (hlow hlevel)) hfall
    (Q := fun σ made' x ↦ J σ (made ++ made') (seen ++ [(x, x)])) hrise).bind fun d hd ↦ ?_
  obtain ⟨made', x, hJ, hmade', hseen', hlevel⟩ := hd
  refine k b₀ d rest hrest ⟨made ++ made', seen ++ [(x, x)], hJ, ?_, ?_, ?_⟩
  · rw [hmade', hmade, List.append_assoc]
  · rw [hseen', hseen, List.append_assoc]
  · rw [hlevel]
    intro hfalse
    cases hfalse

theorem Carried.append (h : Carried I J E lines) (k : Carried J K E lines') : Carried I K E (lines ++ lines') := by
  intro b₀ b cells hcells hb
  have hfirst := List.forall₂_take_append cells lines lines' hcells
  have hrest := List.forall₂_drop_append cells lines lines' hcells
  rw [← List.take_append_drop lines.length cells]
  unfold Bench.cells
  rw [List.foldlM_append]
  exact (h b₀ b _ hfirst hb).bind fun c hc ↦ k b₀ c _ hrest hc

theorem carried_range {I : ℕ → Stage} {line : ℕ → Option Bool} {n k : ℕ}
    (h : ∀ j, k ≤ j → j < k + n → Step (I j) (I (j + 1)) E (line j)) :
    Carried (I k) (I (k + n)) E ((List.range' k n).map line) := by
  induction n generalizing k with
  | zero => exact carried_nil
  | succ n ih =>
    have hrest := ih (k := k + 1) fun j hj hlt ↦ h j (by omega) (by omega)
    rw [Nat.add_right_comm] at hrest
    exact .cons (h k (Nat.le_refl k) (by omega)) hrest

theorem Carried.conseq {I' J' : Stage} (h : Carried I J E lines) (pre : ∀ σ made seen,
    I' σ made seen → I σ made seen)
    (post : ∀ σ made seen, J σ made seen → J' σ made seen) : Carried I' J' E lines := by
  intro b₀ b cells hcells hb
  obtain ⟨made, seen, hI, hb⟩ := hb
  refine (h b₀ b cells hcells ⟨made, seen, pre _ _ _ hI, hb⟩).mono fun c hc ↦ ?_
  obtain ⟨made, seen, hJ, hc⟩ := hc
  exact ⟨made, seen, post _ _ _ hJ, hc⟩

end Carried

end Cdj2000Emulator.Rtl8201fl
