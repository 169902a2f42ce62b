import Mathlib.Algebra.Order.Ring.Int
import Mathlib.Tactic.Common
import Cdj2000Emulator.Library.Bytes

namespace Cdj2000Emulator.Cosim.Wire

open Library.Bytes

/-- `stq_le_p` of a signed time. -/
def stq (t : ℤ) : List Byte := little 8 (BitVec.ofInt 64 t).toNat

/-- `ldq_le_p`, as a signed time. -/
def ldq (b : List Byte) : ℤ := (BitVec.ofNat 64 (value b)).toInt

/-- A message between the boards, or between a player and the hub. -/
structure Message where
  type : Byte
  time : ℤ
  payload : List Byte
  deriving DecidableEq

/-- "CDJC". -/
def magic : List Byte := [0x43, 0x44, 0x4a, 0x43]

def headerLength : ℕ := 20

namespace Message

variable (m : Message)

def header : List Byte :=
  magic ++ (m.type :: [0, 0, 0]) ++ stq m.time ++ little 4 m.payload.length

def encode : List Byte := m.header ++ m.payload

/-- The time is a signed 64-bit one, and the payload no longer than the receiver takes. -/
def Fits (payloadMax : ℕ) : Prop :=
  (-2 ^ 63 ≤ m.time ∧ m.time < 2 ^ 63) ∧ m.payload.length ≤ payloadMax

end Message

instance (m : Message) (payloadMax : ℕ) : Decidable (m.Fits payloadMax) := instDecidableAnd

/-- What stands at the front of the input buffer. -/
inductive Front
  | more
  | malformed
  | message (m : Message) (rest : List Byte)

/-- One turn of the parsing loop. -/
def front (payloadMax : ℕ) (b : List Byte) : Front :=
  let len := value ((b.drop 16).take 4)
  if b.length < headerLength then .more
  else if b.take 4 ≠ magic ∨ payloadMax < len then .malformed
  else if b.length < headerLength + len then .more
  else .message ⟨b.getD 4 0, ldq ((b.drop 8).take 8), (b.drop headerLength).take len⟩
    (b.drop (headerLength + len))

section Codec

variable {m : Message} {payloadMax : ℕ}

theorem length_stq (t : ℤ) : (stq t).length = 8 := length_little 8 _

theorem ldq_stq {t : ℤ} (h : -2 ^ 63 ≤ t) (h' : t < 2 ^ 63) : ldq (stq t) = t := by
  have hvalue : value (stq t) = (BitVec.ofInt 64 t).toNat :=
    value_little (lt_of_lt_of_eq (BitVec.ofInt 64 t).isLt (by decide))
  rw [ldq, hvalue, BitVec.ofNat_toNat, BitVec.setWidth_eq, BitVec.toInt_ofInt]
  exact Int.bmod_eq_of_le (by omega) (by omega)

@[simp]
theorem length_header : m.header.length = headerLength := by
  simp [Message.header, magic, length_stq, headerLength]

theorem length_encode : m.encode.length = headerLength + m.payload.length := by
  rw [Message.encode, List.length_append, length_header]

theorem slice_append {a b : List Byte} {n k : ℕ} (ha : a.length = n) (hb : b.length = k)
    (rest : List Byte) : ((a ++ (b ++ rest)).drop n).take k = b := by
  subst ha hb
  rw [List.drop_left, List.take_left]

theorem take_header (b : List Byte) : (m.header ++ b).take 4 = magic := by
  simp [Message.header, magic]

theorem type_header (b : List Byte) : (m.header ++ b).getD 4 0 = m.type := by
  simp [Message.header, magic]

theorem time_header (h : m.Fits payloadMax) (b : List Byte) :
    ldq (((m.header ++ b).drop 8).take 8) = m.time := by
  have hslice : ((m.header ++ b).drop 8).take 8 = stq m.time := by
    rw [Message.header, List.append_assoc, List.append_assoc]
    exact slice_append (a := magic ++ [m.type, 0, 0, 0]) rfl (length_stq _) _
  rw [hslice, ldq_stq h.1.1 h.1.2]

theorem payload_header (h : m.Fits payloadMax) (hmax : payloadMax < 2 ^ 32) (b : List Byte) :
    value (((m.header ++ b).drop 16).take 4) = m.payload.length := by
  have hslice : ((m.header ++ b).drop 16).take 4 = little 4 m.payload.length := by
    rw [Message.header, List.append_assoc]
    exact slice_append (by simp [magic, length_stq]) (length_little 4 _) _
  rw [hslice, value_little]
  have h2 := h.2
  have hpow : 256 ^ 4 = 2 ^ 32 := by decide
  omega

/-- A whole header says how much more is needed. -/
theorem front_header (h : m.Fits payloadMax) (hmax : payloadMax < 2 ^ 32) (b : List Byte) :
    front payloadMax (m.header ++ b) =
      if b.length < m.payload.length then .more
      else .message { m with payload := b.take m.payload.length } (b.drop m.payload.length) := by
  have hlen : (m.header ++ b).length = headerLength + b.length := by simp
  have hdrop : ∀ n, (m.header ++ b).drop (headerLength + n) = b.drop n := by
    intro n
    rw [← length_header (m := m), List.drop_append]
    simp
  have hdrop0 := hdrop 0
  rw [Nat.add_zero, List.drop_zero] at hdrop0
  unfold front
  dsimp only
  rw [payload_header h hmax, take_header, type_header, time_header h, hlen, hdrop, hdrop0,
    if_neg (by omega), if_neg (by have := h.2; simp; omega)]
  by_cases hb : b.length < m.payload.length
  · rw [if_pos hb, if_pos (by omega)]
  · rw [if_neg hb, if_neg (by omega)]

/-- A buffer that is the start of a stream of messages holds its first message or waits for
more of it. -/
theorem front_encode (h : m.Fits payloadMax) (hmax : payloadMax < 2 ^ 32) {b u e : List Byte}
    (hb : b ++ u = m.encode ++ e) :
    if b.length < m.encode.length then front payloadMax b = .more
    else ∃ e', front payloadMax b = .message m e' ∧ e' ++ u = e ∧
      e'.length + m.encode.length = b.length := by
  by_cases hlt : b.length < headerLength
  · rw [if_pos (by rw [length_encode]; omega), front, if_pos hlt]
  · obtain ⟨b', rfl⟩ : ∃ b', b = m.header ++ b' := by
      have htake := congrArg (List.take headerLength) hb
      rw [List.take_append_of_le_length (by omega), Message.encode, List.append_assoc,
        List.take_append_of_le_length length_header.ge,
        List.take_of_length_le length_header.le] at htake
      exact ⟨b.drop headerLength, by rw [← htake, List.take_append_drop]⟩
    rw [Message.encode, List.append_assoc, List.append_assoc, List.append_cancel_left_eq] at hb
    rw [front_header h hmax, List.length_append, length_header, length_encode]
    by_cases hb' : b'.length < m.payload.length
    · rw [if_pos (by omega), if_pos hb']
    · rw [if_neg (by omega), if_neg hb']
      have htake := congrArg (List.take m.payload.length) hb
      have hdrop := congrArg (List.drop m.payload.length) hb
      rw [List.take_append_of_le_length (by omega), List.take_append_of_le_length le_rfl,
        List.take_of_length_le le_rfl] at htake
      rw [List.drop_append_of_le_length (by omega), List.drop_append_of_le_length le_rfl,
        List.drop_of_length_le le_rfl, List.nil_append] at hdrop
      refine ⟨b'.drop m.payload.length, ?_, hdrop, ?_⟩
      · rw [htake]
      · rw [List.length_drop]
        omega

end Codec

end Cdj2000Emulator.Cosim.Wire
