import Mathlib.Algebra.Order.Ring.Int
import Mathlib.Tactic.Common
import Cdj2000Emulator.Library.Bytes

namespace Cdj2000Emulator.Card

open Library.Bytes

/-- A string of Python: its code points. -/
abbrev Str := List ℕ

def codes (text : String) : Str := text.toList.map Char.toNat

/-- What the card tools raise. -/
inductive Raise
  | brokenChain (first : ℕ)
  | full
  | noDirectory (part : Str)
  | notDirectory (part : Str)
  | noFile (path : Str)
  | isDirectory (path : Str)
  | noShortName (name : Str)
  | unicodeEncodeError
  | valueError
  | structError
  | indexError
  deriving DecidableEq

/-- The text of a `SystemExit`. -/
def Raise.text : Raise → Option Str
  | brokenChain first => some (codes "broken cluster chain from " ++ codes (toString first))
  | full => some (codes "the card is full")
  | noDirectory part => some (codes "no directory " ++ part ++ codes " on the card")
  | notDirectory part => some (part ++ codes " is a file, not a directory")
  | noFile path => some (codes "no file " ++ path ++ codes " on the card")
  | isDirectory path => some (path ++ codes " is a directory")
  | noShortName name => some (codes "cannot make a unique short name for " ++ name)
  | _ => none

section ShortNames

/-- `BAD`, in which 0x22 and 0x5c are the quotation mark and the backslash. -/
def bad : Str := codes " +,;=[]*?<>|:/" ++ [0x22, 0x5c]

/-- `name.rpartition(".")` without its separator. -/
def rpartition (name : Str) : Str × Str :=
  (((name.reverse.dropWhile (· ≠ 0x2e)).drop 1).reverse, (name.reverse.takeWhile (· ≠ 0x2e)).reverse)

def stemExt (name : Str) : Str × Str :=
  if (rpartition name).1 = [] then (name, []) else rpartition name

def ljust {α : Type} (n : ℕ) (fill : α) (text : List α) : List α :=
  text ++ List.replicate (n - text.length) fill

theorem length_ljust {α : Type} (n : ℕ) (fill : α) (text : List α) :
    (ljust n fill text).length = max n text.length := by
  rw [ljust, List.length_append, List.length_replicate]
  omega

variable (upper : Str → Str)

def fits83 (name : Str) : Prop :=
  (stemExt name).1.length ≤ 8 ∧ (stemExt name).2.length ≤ 3 ∧ name = upper name ∧ ∀ c ∈ name, c ∉ bad

instance (name : Str) : Decidable (fits83 upper name) := inferInstanceAs (Decidable (_ ∧ _))

/-- The characters that a short name can hold, with `_` for those that are not ASCII. -/
def plain (text : Str) : Str :=
  ((upper text).filter (· ∉ bad)).map fun c ↦ if c < 128 then c else 0x5f

/-- The eleven bytes of a short name. -/
def field (stem ext : Str) : List Byte :=
  (ljust 8 0x20 stem ++ ljust 3 0x20 ext).map (BitVec.ofNat 8)

def tilde (n : ℕ) : Str := 0x7e :: codes (toString n)

def tailed (stem ext : Str) (n : ℕ) : List Byte :=
  field (stem.take (8 - (tilde n).length) ++ tilde n) ext

/-- `short_name`; the caller adds it to `taken`. -/
def shortName (name : Str) (taken : List (List Byte)) : Except Raise (List Byte) :=
  let stem := plain upper (stemExt name).1
  let ext := (plain upper (stemExt name).2).take 3
  if stem.length ≤ 8 ∧ (if ext = [] then stem else stem ++ 0x2e :: ext) = upper name ∧
      field stem ext ∉ taken then .ok (field stem ext)
  else
    match ((List.range' 1 999).map (tailed stem ext)).find? (· ∉ taken) with
    | some candidate => .ok candidate
    | none => .error (.noShortName name)

end ShortNames

section LongNames

def lfnChecksum (short : List Byte) : Byte :=
  short.foldl (fun total byte ↦ ((total &&& 1) <<< 7) + (total >>> 1) + byte) 0

def Surrogate (c : ℕ) : Prop := 0xd800 ≤ c ∧ c < 0xe000

instance (c : ℕ) : Decidable (Surrogate c) := inferInstanceAs (Decidable (_ ∧ _))

/-- The code units of a code point in UTF-16. -/
def units (c : ℕ) : List ℕ :=
  if c < 0x10000 then [c] else [0xd800 + (c - 0x10000) / 0x400, 0xdc00 + (c - 0x10000) % 0x400]

def encodeUtf16 (name : Str) : Except Raise (List Byte) :=
  if ∃ c ∈ name, Surrogate c then .error .unicodeEncodeError
  else .ok ((name.flatMap units).flatMap (little 2))

/-- `text.decode("utf-16-le", "replace")` of the code units. -/
def decodeUnits : List ℕ → Str
  | [] => []
  | [u] => [if Surrogate u then 0xfffd else u]
  | u :: v :: rest =>
    if ¬Surrogate u then u :: decodeUnits (v :: rest)
    else if u < 0xdc00 ∧ 0xdc00 ≤ v ∧ v < 0xe000 then
      (0x10000 + (u - 0xd800) * 0x400 + (v - 0xdc00)) :: decodeUnits rest
    else 0xfffd :: decodeUnits (v :: rest)

def pairs : List Byte → List ℕ
  | low :: high :: rest => (low.toNat + 256 * high.toNat) :: pairs rest
  | _ => []

def lfnEntry (order : ℕ) (checksum : Byte) (part : List Byte) : List Byte :=
  [BitVec.ofNat 8 order] ++ part.take 10 ++ [0x0f, 0, checksum] ++ (part.drop 10).take 12 ++ [0, 0] ++
    (part.drop 22).take 4

/-- The part of the name that a long-name entry holds. -/
def lfnText (raw : List Byte) : List Byte :=
  (raw.drop 1).take 10 ++ (raw.drop 14).take 12 ++ (raw.drop 28).take 4

def lfnEntries (name : Str) (short : List Byte) : Except Raise (List (List Byte)) :=
  match encodeUtf16 name with
  | .error e => .error e
  | .ok encoded =>
    let encoded := encoded ++ [0, 0]
    let count := (encoded.length + 25) / 26
    if 255 < count then .error .valueError
    else
      .ok ((List.range count).map fun i ↦
        lfnEntry (if i + 1 = count then (i + 1) ||| 0x40 else i + 1) (lfnChecksum short)
          (ljust 26 0xff ((encoded.drop (26 * i)).take 26))).reverse

end LongNames

end Cdj2000Emulator.Card
