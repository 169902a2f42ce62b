import Cdj2000Emulator.Checksum.Routines
import Mathlib.Data.List.DropRight

namespace Cdj2000Emulator.Update

open Library.Bytes Checksum

/-- `bytes` of a text without characters past 127. -/
def ascii (s : List Char) : List Byte := s.map fun c ↦ BitVec.ofNat 8 c.toNat

def headerSize : ℕ := 0x20

def recordBytes : ℕ := 32

def s0Record : List Byte := ascii "S00E0000726F6D6F626A20206D6F74D8".toList

def s7Record : List Byte := ascii "S705A00000005A".toList

/-- What `header` asks of a version; digits that are not ASCII fail when the text is encoded. -/
def ValidVersion (version : List Char) : Prop :=
  ∃ a b c, version = [a, '.', b, c] ∧ a.isDigit ∧ b.isDigit ∧ c.isDigit

instance : DecidablePred ValidVersion
  | [a, d, b, c] =>
    decidable_of_iff (d = '.' ∧ a.isDigit ∧ b.isDigit ∧ c.isDigit) <| by
      simp [ValidVersion, and_assoc]
  | [] | [_] | [_, _] | [_, _, _] | _ :: _ :: _ :: _ :: _ :: _ => isFalse <| by simp [ValidVersion]

/-- `header` with the flag `"0"`. -/
def header (version : List Char) : Option (List Byte) :=
  if ValidVersion version then
    let text := ascii "CDJ-2000 MAIN   Ver".toList ++ ascii version
    let padded := text ++ [0]
    some (padded ++ List.replicate (headerSize - 1 - padded.length) 0x20 ++ ascii ['0'])
  else none

/-- `int.to_bytes` with the high byte first. -/
def toBytes (size n : ℕ) : Option (List Byte) := if n < 256 ^ size then some (little size n).reverse else none

/-- A digit of `hex().upper()`. -/
def hexDigit (n : ℕ) : Byte := if n < 10 then BitVec.ofNat 8 (0x30 + n) else BitVec.ofNat 8 (0x41 + (n - 10))

def hex (bytes : List Byte) : List Byte := bytes.flatMap fun b ↦ [hexDigit (b.toNat / 16), hexDigit (b.toNat % 16)]

/-- `sum` of bytes -/
def total (bytes : List Byte) : ℕ := (bytes.map BitVec.toNat).sum

def srecord (address : ℕ) (payload : List Byte) : Option (List Byte) := do
  let count ← toBytes 1 (payload.length + 4)
  let place ← toBytes 3 address
  let body := count ++ place ++ payload
  let checksum := 0xff - (total body &&& 0xff)
  pure (ascii ['S', '2'] ++ hex (body ++ [BitVec.ofNat 8 checksum]))

def extended (image : List Byte) (stop : ℕ) : List Byte := image ++ List.replicate (stop - image.length) 0xff

def block (image : List Byte) (a : ℕ) : List Byte := (image.drop a).take recordBytes

def addresses (image : List Byte) (stop : ℕ) : List ℕ :=
  ((List.range ((stop + recordBytes - 1) / recordBytes)).map (recordBytes * ·)).filter
    fun a ↦ (block image a).any (· != 0)

/-- `b"\r\n"` -/
def crlf : List Byte := [0x0d, 0x0a]

def build (image : List Byte) (version : List Char) (stop : ℕ) : Option (List Byte) := do
  let image := extended image stop
  let records ← (addresses image stop).mapM fun a ↦ srecord a (block image a)
  let head ← header version
  let lines := [s0Record] ++ records ++ [s7Record]
  let body := head ++ crlf.intercalate lines ++ crlf
  pure (body ++ little 2 (crc16 body))

def decodeAscii (bytes : List Byte) : List Char :=
  bytes.map fun b ↦ if b.toNat < 128 then Char.ofNat b.toNat else Char.ofNat 0xfffd

def check (upd : List Byte) : List Char × Bool :=
  (decodeAscii ((upd.take 0x17).drop 0x13),
    crc16 (upd.take (upd.length - 2)) == value (upd.drop (upd.length - 2)))

def splitlines : List Byte → List (List Byte)
  | [] => []
  | b :: rest =>
    if b = 0x0d ∧ rest.head? = some 0x0a then splitlines rest
    else if b = 0x0d ∨ b = 0x0a then [] :: splitlines rest
    else
      match splitlines rest with
      | [] => [[b]]
      | line :: lines => (b :: line) :: lines

/-- What `bytes.strip` and `int` take for white space. -/
def isSpace (b : Byte) : Bool := b = 0x20 || (0x09 ≤ b && b ≤ 0x0d)

def strip (line : List Byte) : List Byte := (line.dropWhile isSpace).rdropWhile isSpace

def digitValue (b : Byte) : Option ℕ :=
  if 0x30 ≤ b ∧ b ≤ 0x39 then some (b.toNat - 0x30)
  else if 0x41 ≤ b ∧ b ≤ 0x46 then some (b.toNat - 0x41 + 10)
  else if 0x61 ≤ b ∧ b ≤ 0x66 then some (b.toNat - 0x61 + 10)
  else none

/-- `int(·, 16)` of digits -/
def digits (text : List Byte) : Option ℕ :=
  if text = [] then none
  else (text.mapM digitValue).map fun ds ↦ ds.foldl (fun n d ↦ 16 * n + d) 0

/-- `int(·, 16)` of at most two bytes, where no prefix and no underscore can stand before a digit. -/
def parseInt (text : List Byte) : Option ℤ :=
  match strip text with
  | 0x2b :: rest => (digits rest).map (↑)
  | 0x2d :: rest => (digits rest).map (- ↑·)
  | rest => (digits rest).map (↑)

/-- `bytes.fromhex`, which skips white space between bytes. -/
def fromHex : List Byte → Option (List Byte)
  | [] => some []
  | [b] => if isSpace b then some [] else none
  | a :: b :: rest =>
    if isSpace a then fromHex (b :: rest)
    else do
      let high ← digitValue a
      let low ← digitValue b
      let bytes ← fromHex rest
      pure (BitVec.ofNat 8 (16 * high + low) :: bytes)

def addressBytes (type : Byte) : Option ℕ :=
  if type = 0x31 then some 2 else if type = 0x32 then some 3 else if type = 0x33 then some 4 else none

def decodeText (line : List Byte) : Option (List (ℕ × List Byte)) :=
  if line.length < 4 ∨ line.head? ≠ some 0x53 then some []
  else
    match addressBytes (line.getD 1 0) with
    | none => some []
    | some width => do
      let count ← parseInt ((line.take 4).drop 2)
      let decoded ← fromHex (line.drop 4)
      if (decoded.length : ℤ) ≠ count then none
      else if (count + total decoded) % 256 ≠ 0xff then none
      else some [(value (decoded.take width).reverse, (decoded.drop width).dropLast)]

def decodeLine (raw : List Byte) : Option (List (ℕ × List Byte)) := decodeText (strip raw)

def overwrite (image : List Byte) (address : ℕ) (payload : List Byte) : List Byte :=
  image.take address ++ payload ++ image.drop (address + payload.length)

def decodeSrecords (data : List Byte) : Option (List Byte) := do
  let records := (← (splitlines data).mapM decodeLine).flatten
  if records = [] then none
  else
    let stop := (records.map fun r ↦ r.1 + r.2.length).foldr max 0
    some (records.foldl (fun image r ↦ overwrite image r.1 r.2) (List.replicate stop 0))

end Cdj2000Emulator.Update
