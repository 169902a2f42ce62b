import Mathlib.Algebra.Order.Ring.Nat
import Mathlib.Data.List.Induction

namespace Cdj2000Emulator.Library.BoundedLines

variable {α : Type*} {limit : ℕ} {ends : α → Bool} {stream piece last : List α} {init : List (List α)} {c : α}

/-- What a reader of lines that holds at most `limit` items at a time makes of a stream. -/
inductive Told (α : Type*)
  | line (l : List α)
  | tooLong

/-- Every `limit` items without a terminator are refused. -/
def refusals (limit : ℕ) (piece : List α) : List (Told α) := List.replicate (piece.length / limit) .tooLong

def verdict (limit : ℕ) (piece : List α) : List (Told α) :=
  refusals limit piece ++ if 0 < piece.length ∧ piece.length < limit then [.line piece] else []

def told (limit : ℕ) (ends : α → Bool) (stream : List α) : List (Told α) :=
  (stream.splitOnP ends).dropLast.flatMap (verdict limit) ++
    refusals limit ((stream.splitOnP ends).getLast (List.splitOnP_ne_nil ends stream))

/-- A reader that looks at one item at a time. -/
structure Reader (α : Type*) where
  held : List α
  overlong : Bool
  log : List (Told α)

def Reader.feed (limit : ℕ) (ends : α → Bool) (r : Reader α) (c : α) : Reader α :=
  if ends c then
    ⟨[], false, r.log ++ if r.overlong ∨ r.held = [] then [] else [.line r.held]⟩
  else if r.held.length + 1 = limit then ⟨[], true, r.log ++ [.tooLong]⟩
  else { r with held := r.held ++ [c] }

def Reader.start : Reader α := ⟨[], false, []⟩

/-- The reader after complete lines and a piece of the next one. -/
def Reader.between (limit : ℕ) (init : List (List α)) (last : List α) : Reader α where
  held := last.drop (last.length / limit * limit)
  overlong := decide (limit ≤ last.length)
  log := init.flatMap (verdict limit) ++ refusals limit last

theorem told_eq (h : stream.splitOnP ends = init ++ [last]) :
    told limit ends stream = init.flatMap (verdict limit) ++ refusals limit last := by
  simp only [told, h, List.dropLast_concat, List.getLast_concat]

theorem splitOnP_concat (h : stream.splitOnP ends = init ++ [last]) (more : ends c = false) :
    (stream ++ [c]).splitOnP ends = init ++ [last ++ [c]] := by
  induction stream generalizing init last with
  | nil =>
    cases init with
    | nil =>
      obtain rfl : [] = last := by simpa using h
      rw [List.nil_append, List.splitOnP_cons_eq_if_modifyHead, more]
      rfl
    | cons => simp at h
  | cons d stream ih =>
    rw [List.splitOnP_cons_eq_if_modifyHead] at h
    rw [List.cons_append, List.splitOnP_cons_eq_if_modifyHead]
    obtain ⟨init', last', split⟩ : ∃ init' last', stream.splitOnP ends = init' ++ [last'] :=
      ⟨_, _, (List.dropLast_concat_getLast (List.splitOnP_ne_nil ends stream)).symm⟩
    rw [ih split]
    rw [split] at h
    split_ifs at h ⊢ with separates
    · rw [← List.cons_append] at h
      obtain ⟨rfl, same⟩ := List.append_inj' h rfl
      rw [List.singleton_inj.mp same, List.cons_append]
    · cases init' with
      | nil =>
        rw [List.nil_append, List.modifyHead_cons, ← List.nil_append [d :: last']] at h
        obtain ⟨rfl, same⟩ := List.append_inj' h rfl
        rw [← List.singleton_inj.mp same]
        rfl
      | cons first init' =>
        rw [List.cons_append, List.modifyHead_cons, ← List.cons_append] at h
        obtain ⟨rfl, same⟩ := List.append_inj' h rfl
        rw [List.singleton_inj.mp same]
        rfl

theorem refusals_short (short : piece.length < limit) : refusals limit piece = [] := by
  rw [refusals, Nat.div_eq_of_lt short, List.replicate_zero]

theorem Reader.between_short (short : last.length < limit) :
    Reader.between limit init last = ⟨last, false, init.flatMap (verdict limit)⟩ := by
  rw [Reader.between, refusals_short short, Nat.div_eq_of_lt short, Nat.zero_mul, List.drop_zero, List.append_nil,
    decide_eq_false (not_le.mpr short)]

theorem Reader.feed_end (positive : 0 < limit) (separates : ends c = true) :
    (Reader.between limit init last).feed limit ends c = .between limit (init ++ [last]) [] := by
  have fresh : Reader.between limit (init ++ [last]) [] = ⟨[], false, (init ++ [last]).flatMap (verdict limit)⟩ :=
    Reader.between_short positive
  rw [fresh, Reader.feed, if_pos separates, List.flatMap_append, List.flatMap_singleton]
  by_cases short : last.length < limit
  · rw [Reader.between_short short, verdict, refusals_short short, List.nil_append]
    by_cases empty : last = []
    · subst empty
      rfl
    · rw [if_neg (by simpa using empty), if_pos ⟨List.length_pos_iff.mpr empty, short⟩]
  · have long : decide (limit ≤ last.length) = true := decide_eq_true (not_lt.mp short)
    have refused : verdict limit last = refusals limit last := by
      rw [verdict, if_neg fun inside ↦ short inside.2, List.append_nil]
    rw [refused, if_pos (.inl long), List.append_nil]
    rfl

theorem Reader.feed_more (positive : 0 < limit) (more : ends c = false) :
    (Reader.between limit init last).feed limit ends c = .between limit init (last ++ [c]) := by
  have size : (last ++ [c]).length = last.length + 1 := List.length_append
  have split := Nat.div_add_mod' last.length limit
  have small := Nat.mod_lt last.length positive
  have held : (Reader.between limit init last).held.length = last.length % limit := by
    rw [Reader.between, List.length_drop]
    omega
  by_cases full : last.length % limit + 1 = limit
  · have whole : last.length + 1 = (last.length / limit + 1) * limit := by
      rw [Nat.add_mul, Nat.one_mul]
      omega
    have quotient : (last.length + 1) / limit = last.length / limit + 1 := by
      rw [whole, Nat.mul_div_cancel _ positive]
    have overlong : limit ≤ last.length + 1 := by
      rw [whole]
      exact Nat.le_mul_of_pos_left _ (Nat.succ_pos _)
    have emptied : (last ++ [c]).drop ((last.length / limit + 1) * limit) = [] :=
      List.drop_eq_nil_of_le (by rw [size, whole])
    rw [Reader.feed, if_neg (by simp [more]), held, if_pos full, Reader.between, Reader.between, refusals, refusals,
      size, quotient, emptied, decide_eq_true overlong, List.replicate_succ', List.append_assoc]
  · have quotient : (last.length + 1) / limit = last.length / limit := by
      refine Nat.div_eq_of_lt_le ?_ ?_
      · omega
      · rw [Nat.add_mul, Nat.one_mul]
        omega
    have overlong : limit ≤ last.length + 1 ↔ limit ≤ last.length := by
      refine ⟨fun reached ↦ ?_, fun reached ↦ Nat.le_succ_of_le reached⟩
      by_contra short
      rw [Nat.mod_eq_of_lt (not_le.mp short)] at full
      omega
    rw [Reader.feed, if_neg (by simp [more]), held, if_neg full, Reader.between, Reader.between, refusals, refusals,
      size, quotient, List.drop_append_of_le_length (by omega), decide_eq_decide.mpr overlong]

theorem Reader.foldl_feed (positive : 0 < limit) (h : stream.splitOnP ends = init ++ [last]) :
    stream.foldl (Reader.feed limit ends) .start = .between limit init last := by
  induction stream using List.reverseRecOn generalizing init last with
  | nil =>
    rw [List.splitOnP_nil, ← List.nil_append [[]]] at h
    obtain ⟨rfl, same⟩ := List.append_inj' h rfl
    rw [← List.singleton_inj.mp same, Reader.between_short positive]
    rfl
  | append_singleton stream c ih =>
    obtain ⟨init', last', split⟩ : ∃ init' last', stream.splitOnP ends = init' ++ [last'] :=
      ⟨_, _, (List.dropLast_concat_getLast (List.splitOnP_ne_nil ends stream)).symm⟩
    rw [List.foldl_append, ih split, List.foldl_cons, List.foldl_nil]
    cases separates : ends c with
    | true =>
      rw [List.splitOnP_append_cons _ _ separates, List.splitOnP_nil, split] at h
      obtain ⟨rfl, same⟩ := List.append_inj' h rfl
      rw [← List.singleton_inj.mp same, Reader.feed_end positive separates]
    | false =>
      rw [splitOnP_concat split separates] at h
      obtain ⟨rfl, same⟩ := List.append_inj' h rfl
      rw [← List.singleton_inj.mp same, Reader.feed_more positive separates]

theorem Reader.log_foldl (positive : 0 < limit) (stream : List α) :
    (stream.foldl (Reader.feed limit ends) .start).log = told limit ends stream := by
  have split := List.dropLast_concat_getLast (List.splitOnP_ne_nil ends stream)
  rw [Reader.foldl_feed positive split.symm, told_eq split.symm, Reader.between]

/-- What the reader holds is part of a line and below the limit. -/
structure Reader.Sound (limit : ℕ) (ends : α → Bool) (r : Reader α) : Prop where
  short : r.held.length < limit
  unended : ∀ c ∈ r.held, ends c = false

theorem Reader.Sound.feed {r : Reader α} (h : r.Sound limit ends)
    (c : α) : (r.feed limit ends c).Sound limit ends := by
  have positive : 0 < limit := Nat.zero_lt_of_lt h.short
  rw [Reader.feed]
  by_cases separates : ends c
  · rw [if_pos separates]
    exact ⟨positive, fun _ mem ↦ absurd mem List.not_mem_nil⟩
  rw [if_neg separates]
  by_cases full : r.held.length + 1 = limit
  · rw [if_pos full]
    exact ⟨positive, fun _ mem ↦ absurd mem List.not_mem_nil⟩
  · rw [if_neg full]
    refine ⟨?_, fun d mem ↦ ?_⟩
    · have := h.short
      rw [List.length_append, List.length_singleton]
      omega
    · rcases List.mem_append.mp mem with mem | mem
      · exact h.unended d mem
      · rw [List.mem_singleton.mp mem]
        exact Bool.eq_false_iff.mpr separates

theorem Reader.Sound.foldl {r : Reader α} (h : r.Sound limit ends) (stream : List α) :
    (stream.foldl (Reader.feed limit ends) r).Sound limit ends := by
  induction stream generalizing r with
  | nil => exact h
  | cons c stream ih => exact ih (h.feed c)

def lines (log : List (Told α)) : List (List α) :=
  log.filterMap fun
    | .line l => some l
    | .tooLong => none

theorem lines_append (a b : List (Told α)) : lines (a ++ b) = lines a ++ lines b := List.filterMap_append

theorem lines_refusals : lines (refusals limit piece) = [] := by
  rw [lines, List.filterMap_eq_nil_iff]
  intro _ mem
  rw [(List.mem_replicate.mp mem).2]

theorem lines_verdict :
    lines (verdict limit piece) = if 0 < piece.length ∧ piece.length < limit then [piece] else [] := by
  rw [verdict, lines_append, lines_refusals, List.nil_append]
  split_ifs <;> rfl

/-- The lines told are the complete ones that are neither empty nor too long. -/
theorem lines_told : lines (told limit ends stream) =
    (stream.splitOnP ends).dropLast.filter fun l ↦ 0 < l.length ∧ l.length < limit := by
  rw [told, lines_append, lines_refusals, List.append_nil]
  induction (stream.splitOnP ends).dropLast with
  | nil => rfl
  | cons piece pieces ih =>
    rw [List.flatMap_cons, lines_append, ih, lines_verdict, List.filter_cons]
    by_cases fits : 0 < piece.length ∧ piece.length < limit
    · rw [if_pos fits, if_pos (decide_eq_true fits), List.singleton_append]
    · rw [if_neg fits, if_neg (by simpa using fits), List.nil_append]

end Cdj2000Emulator.Library.BoundedLines
