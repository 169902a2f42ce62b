import Cdj2000Emulator.Library.BoundedLines
import Cdj2000Emulator.Library.Bytes

namespace Cdj2000Emulator.Panel.Lines

open Library.Bytes (Byte)
open Library.BoundedLines

/-- `CDJ_INPUT_LINE`. -/
def lineMax : ℕ := 512

/-- The line buffer up to `cdj_input_fill`, and what has become of the bytes before: the lines given to
`cdj_input_command` and the replies that a line is too long. -/
structure Channel where
  line : List Byte
  overlong : Bool
  log : List (Told Byte)

def Channel.accepted : Channel := ⟨[], false, []⟩

/-- The terminators, `'\n'` and `'\r'`. -/
def isTerminator (c : Byte) : Bool := c == 0x0a || c == 0x0d

/-- A byte of the buffer in the loop of `cdj_input_consume`; `line` is what lies between `start` and `i`. -/
def Channel.scan (s : Channel) (c : Byte) : Channel :=
  if isTerminator c then
    if s.overlong then { s with line := [], overlong := false }
    else if s.line ≠ [] then { s with line := [], log := s.log ++ [.line s.line] }
    else { s with line := [] }
  else { s with line := s.line ++ [c] }

def Channel.refuse (s : Channel) : Channel := ⟨[], true, s.log ++ [.tooLong]⟩

def Channel.consume (s : Channel) : Channel :=
  let s := s.line.foldl Channel.scan { s with line := [] }
  if lineMax ≤ s.line.length + 1 then s.refuse else s

/-- What `recv` may store. -/
def Channel.space (s : Channel) : ℕ := lineMax - s.line.length - 1

/-- One pass of `cdj_input_poll` over a read of the client's bytes, with the pass that finds no space before it. -/
def Channel.poll (s : Channel) (got : List Byte) : Channel :=
  let s := if s.space = 0 then s.refuse else s
  Channel.consume { s with line := s.line ++ got }

/-- Reads of one connection, each of some bytes and of no more than there is space for. -/
inductive Receives : Channel → List (List Byte) → Channel → Prop
  | nil {s : Channel} : Receives s [] s
  | cons {s t : Channel} {got : List Byte} {reads : List (List Byte)} :
      got ≠ [] → got.length ≤ (if s.space = 0 then s.refuse else s).space → Receives (s.poll got) reads t →
      Receives s (got :: reads) t

variable {s t : Channel} {got : List Byte} {reads : List (List Byte)}

/-- The longest line that the buffer holds. -/
def limit : ℕ := lineMax - 1

def Channel.reader (s : Channel) : Reader Byte := ⟨s.line, s.overlong, s.log⟩

/-- The end of `cdj_input_consume`. -/
def Channel.settle (s : Channel) : Channel := if lineMax ≤ s.line.length + 1 then s.refuse else s

theorem foldl_scan (unended : ∀ c ∈ got, isTerminator c = false) :
    got.foldl Channel.scan s = { s with line := s.line ++ got } := by
  induction got generalizing s with
  | nil => rw [List.foldl_nil, List.append_nil]
  | cons c got ih =>
    have first : s.scan c = { s with line := s.line ++ [c] } := by
      rw [Channel.scan, if_neg (by simp [unended c List.mem_cons_self])]
    rw [List.foldl_cons, first, ih fun d mem ↦ unended d (List.mem_cons_of_mem c mem)]
    simp only [List.append_assoc, List.singleton_append]

theorem scan_end {c : Byte} (separates : isTerminator c = true) :
    (s.scan c).reader = s.reader.feed limit isTerminator c := by
  rw [Channel.scan, if_pos separates, Reader.feed, if_pos separates]
  by_cases overlong : s.overlong
  · have skipped : s.reader.overlong ∨ s.reader.held = [] := .inl overlong
    rw [if_pos overlong, if_pos skipped, List.append_nil]
    rfl
  have clear : s.overlong = false := Bool.eq_false_iff.mpr overlong
  rw [if_neg overlong]
  by_cases empty : s.line = []
  · have skipped : s.reader.overlong ∨ s.reader.held = [] := .inr empty
    rw [if_neg (not_not.mpr empty), if_pos skipped, List.append_nil, Channel.reader, clear]
    rfl
  · have taken : ¬(s.reader.overlong ∨ s.reader.held = []) := not_or.mpr ⟨overlong, empty⟩
    rw [if_pos empty, if_neg taken, Channel.reader, clear]
    rfl

theorem settle_foldl (short : s.line.length < limit) (fits : s.line.length + got.length ≤ limit) :
    (got.foldl Channel.scan s).settle.reader = got.foldl (Reader.feed limit isTerminator) s.reader := by
  have size : limit + 1 = lineMax := rfl
  induction got generalizing s with
  | nil => rw [List.foldl_nil, List.foldl_nil, Channel.settle, if_neg (by omega)]
  | cons c got ih =>
    rw [List.length_cons] at fits
    rw [List.foldl_cons, List.foldl_cons]
    cases separates : isTerminator c with
    | true =>
      have emptied : (s.scan c).line = [] := by
        rw [Channel.scan, if_pos separates]
        split_ifs <;> rfl
      rw [← scan_end separates]
      exact ih (by rw [emptied]; decide) (by rw [emptied, List.length_nil]; omega)
    | false =>
      have grown : s.scan c = { s with line := s.line ++ [c] } := by
        rw [Channel.scan, if_neg (by simp [separates])]
      have length : (s.scan c).line.length = s.line.length + 1 := by
        rw [grown, List.length_append, List.length_singleton]
      by_cases full : s.reader.held.length + 1 = limit
      · have reached : s.line.length + 1 = limit := full
        obtain rfl : got = [] := List.length_eq_zero_iff.mp (by omega)
        rw [List.foldl_nil, List.foldl_nil, Channel.settle, if_pos (by omega), Reader.feed,
          if_neg (by simp [separates]),
          if_pos full, grown]
        rfl
      · have same : s.reader.feed limit isTerminator c = (s.scan c).reader := by
          rw [Reader.feed, if_neg (by simp [separates]), if_neg full, grown]
          rfl
        have below : s.line.length + 1 ≠ limit := full
        rw [same]
        exact ih (by omega) (by omega)

theorem poll_reader (sound : s.reader.Sound limit isTerminator) (fits : got.length ≤ s.space) :
    (s.poll got).reader = got.foldl (Reader.feed limit isTerminator) s.reader := by
  have short : s.line.length < limit := sound.short
  have space : s.space = limit - s.line.length := by
    rw [Channel.space, limit]
    omega
  have again : s.line.foldl Channel.scan { s with line := [] } = s := by
    have unended : ∀ c ∈ s.line, isTerminator c = false := sound.unended
    rw [foldl_scan unended]
    rfl
  rw [Channel.poll, if_neg (by omega), Channel.consume, List.foldl_append]
  simp only [again]
  exact settle_foldl short (by omega)

theorem receives_reader (h : Receives s reads t) (sound : s.reader.Sound limit isTerminator) :
    t.reader = reads.flatten.foldl (Reader.feed limit isTerminator) s.reader := by
  induction h with
  | nil => rfl
  | @cons s t got reads _ fits _ ih =>
    have open_ : ¬s.space = 0 := by
      have short : s.line.length < limit := sound.short
      rw [Channel.space, ← Nat.sub_add_eq]
      simp only [limit, lineMax] at *
      omega
    rw [if_neg open_] at fits
    have step := poll_reader sound fits
    rw [ih (step ▸ sound.foldl got), step, List.flatten_cons, List.foldl_append]

/-- However the bytes are cut into reads, the lines executed are those of the stream that are neither empty nor longer
than 510 bytes, and every 511 bytes without a terminator are answered by a refusal. -/
theorem lines_received (h : Receives .accepted reads t) :
    t.log = told 511 isTerminator reads.flatten ∧
      lines t.log = (reads.flatten.splitOnP isTerminator).dropLast.filter fun l ↦ 0 < l.length ∧
        l.length ≤ 510 := by
  have sound : Channel.accepted.reader.Sound limit isTerminator :=
    ⟨by decide, fun _ mem ↦ absurd mem List.not_mem_nil⟩
  have log : t.log = told 511 isTerminator reads.flatten := by
    have reader := receives_reader h sound
    rw [← Reader.log_foldl (by decide) reads.flatten]
    exact congrArg Reader.log reader
  refine ⟨log, ?_⟩
  rw [log, lines_told]
  simp only [Nat.lt_succ_iff]

/-- The line `ping`, cut after its third byte. -/
def pingReads : List (List Byte) := [[0x70, 0x69, 0x6e], [0x67, 0x0d, 0x0a]]

theorem lines_received_ping :
    let t := pingReads.foldl Channel.poll .accepted
    t.log = told 511 isTerminator pingReads.flatten ∧
      lines t.log = (pingReads.flatten.splitOnP isTerminator).dropLast.filter fun l ↦ 0 < l.length ∧
        l.length ≤ 510 :=
  lines_received (.cons (by decide) (by decide) (.cons (by decide) (by decide) .nil))

end Cdj2000Emulator.Panel.Lines
