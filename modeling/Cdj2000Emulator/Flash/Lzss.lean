import Mathlib.Algebra.Order.Ring.Int
import Mathlib.Logic.Function.Basic
import Cdj2000Emulator.Library.Bytes

namespace Cdj2000Emulator.Flash.Lzss

open Function Library.Bytes

def windowSize : ℕ := 4096

def lookahead : ℕ := 18

section Decompress

/-- The variables of `decompress_lzss`, the source from `source_position` on. -/
structure Decoder where
  window : ℕ → Byte
  writePosition : ℕ
  flags : ℕ
  source : List Byte
  output : List Byte

namespace Decoder

def put (s : Decoder) (value : Byte) : Decoder :=
  { s with
    output := s.output ++ [value]
    window := update s.window s.writePosition value
    writePosition := (s.writePosition + 1) % windowSize }

/-- The bytes of a match, from `readPosition` on. -/
def copyOut : ℕ → ℕ → Decoder → Decoder
  | 0, _, s => s
  | count + 1, readPosition, s =>
    copyOut count (readPosition + 1) (s.put (s.window (readPosition % windowSize)))

def nextFlag (s : Decoder) : Decoder :=
  if s.flags >>> 1 &&& 0x100 = 0 then
    { s with flags := (s.source.headD 0).toNat ||| 0xff00, source := s.source.tail }
  else { s with flags := s.flags >>> 1 }

/-- The loop of `decompress_lzss`, at most `n` times. -/
def loop : ℕ → Decoder → Decoder
  | 0, s => s
  | n + 1, s =>
    if s.source = [] then s
    else
      let s := s.nextFlag
      if s.flags &&& 1 = 1 then
        match s.source with
        | [] => s
        | value :: rest => loop n ({ s with source := rest }.put value)
      else
        match s.source with
        | first :: second :: rest =>
          let readPosition := first.toNat ||| (second.toNat &&& 0xf0) <<< 4
          loop n (copyOut ((second.toNat &&& 0x0f) + 3) readPosition { s with source := rest })
        | _ => s

end Decoder

def decompressLzss (source : List Byte) : List Byte :=
  (Decoder.loop source.length
    ⟨fun _ ↦ 0x20, windowSize - lookahead, 0, source, []⟩).output

end Decompress

section Compress

def minMatch : ℕ := 3

def maxMatch : ℕ := lookahead

def maxDistance : ℕ := windowSize - 1

def start : ℕ := windowSize - lookahead

def chainLimit : ℕ := 256

def pad : ℕ := windowSize

/-- The variables of `compress_lzss`; -1 in the chains is `none`. -/
structure Encoder where
  head : List Byte → Option ℕ
  prev : ℕ → Option ℕ
  out : List Byte
  flagAt : ℕ
  flagBit : ℕ
  position : ℕ

variable (text : List Byte)

def key (position : ℕ) : List Byte := (text.drop position).take minMatch

def insert (s : Encoder) (position : ℕ) : Encoder :=
  { s with
    prev := update s.prev position (s.head (key text position))
    head := update s.head (key text position) (some position) }

/-- The loop over the length of a match, at most `n` times. -/
def extend (candidate position limit : ℕ) : ℕ → ℕ → ℕ
  | 0, length => length
  | n + 1, length =>
    if length < limit ∧ text[candidate + length]? = text[position + length]? then
      extend candidate position limit n (length + 1)
    else length

/-- The loop over the candidates, `chain` at most: the best length and where it is from. -/
def search (s : Encoder) (limit : ℕ) : ℕ → Option ℕ → ℕ × ℕ → ℕ × ℕ
  | 0, _, best => best
  | _, none, best => best
  | chain + 1, some candidate, (bestLength, bestFrom) =>
    if candidate < s.position - maxDistance then (bestLength, bestFrom)
    else if text[candidate + bestLength]? = text[s.position + bestLength]? then
      let length := extend text candidate s.position limit limit minMatch
      if bestLength < length then
        if length = limit then (length, candidate)
        else search s limit chain (s.prev candidate) (length, candidate)
      else search s limit chain (s.prev candidate) (bestLength, bestFrom)
    else search s limit chain (s.prev candidate) (bestLength, bestFrom)

def longest (s : Encoder) : ℕ × ℕ :=
  let limit := min maxMatch (text.length - s.position)
  if minMatch ≤ limit then
    search text s limit chainLimit (s.head (key text s.position)) (0, 0)
  else (0, 0)

def openGroup (s : Encoder) : Encoder :=
  if s.flagBit = 8 then { s with flagAt := s.out.length, out := s.out ++ [0], flagBit := 0 } else s

def matchBytes (bestLength bestFrom : ℕ) : List Byte :=
  let ring := (((start : ℤ) + bestFrom - pad) % windowSize).toNat
  [BitVec.ofNat 8 (ring &&& 0xff),
    BitVec.ofNat 8 ((ring >>> 4 &&& 0xf0) ||| (bestLength - minMatch))]

/-- `out[flag_at] |= 1 << flag_bit`. -/
def setFlag (s : Encoder) : Encoder :=
  { s with out := s.out.modify s.flagAt (· ||| BitVec.ofNat 8 (1 <<< s.flagBit)) }

/-- The end of a turn: the next item of the group, and the positions passed put in the tables. -/
def advance (s : Encoder) (step : ℕ) : Encoder :=
  let inserted := List.range' s.position
    (min (s.position + step) (text.length - minMatch + 1) - s.position)
  { inserted.foldl (insert text) { s with flagBit := s.flagBit + 1 } with
    position := s.position + step }

/-- One turn of the loop of `compress_lzss`. -/
def turn (s : Encoder) : Encoder :=
  let s := openGroup s
  let (bestLength, bestFrom) := longest text s
  if minMatch ≤ bestLength then
    advance text { s with out := s.out ++ matchBytes bestLength bestFrom } bestLength
  else
    let s := setFlag s
    advance text { s with out := s.out ++ [text.getD s.position 0] } 1

/-- The loop of `compress_lzss`, at most `n` times. -/
def loop : ℕ → Encoder → Encoder
  | 0, s => s
  | n + 1, s => if s.position < text.length then loop n (turn text s) else s

/-- The tables before the first byte: the window of spaces can be matched. -/
def initial : Encoder :=
  (List.range' (pad - maxDistance) maxDistance).foldl (insert text)
    ⟨fun _ ↦ none, fun _ ↦ some 0, [], 0, 8, pad⟩

end Compress

def compressLzss (data : List Byte) : List Byte :=
  let text := List.replicate pad 0x20 ++ data
  (loop text data.length (initial text)).out

end Cdj2000Emulator.Flash.Lzss
