import Cdj2000Emulator.C674x.Operands
import Cdj2000Emulator.Library.Sticky

namespace Cdj2000Emulator.FloatingPoint

open Library.Rounding Library.Sticky C674x.State C674x.Operands

/-- How a floating-point number is laid out, below its sign. -/
structure Format where
  exponentBits : ℕ
  fractionBits : ℕ

abbrev single : Format := ⟨8, 23⟩

abbrev double : Format := ⟨11, 52⟩

namespace Format

variable (F : Format)

abbrev width : ℕ := 1 + F.exponentBits + F.fractionBits

def top : ℕ := 2 ^ F.exponentBits - 1

def bias : ℕ := 2 ^ (F.exponentBits - 1) - 1

def hidden : ℕ := 2 ^ F.fractionBits

def precision : ℕ := F.fractionBits + 1

def least : ℚ := 2 ^ (1 - F.bias : ℤ)

/-- The first power of two beyond the finite numbers. -/
def beyond : ℚ := 2 ^ (F.top - F.bias : ℤ)

end Format

/-- The fields of a number. -/
structure Number (F : Format) where
  negative : Bool
  exponent : BitVec F.exponentBits
  fraction : BitVec F.fractionBits
  deriving DecidableEq

namespace Number

variable {F : Format} (n : Number F)

def nan : Bool := n.exponent = BitVec.allOnes F.exponentBits && n.fraction ≠ 0#F.fractionBits

def infinite : Bool := n.exponent = BitVec.allOnes F.exponentBits && n.fraction = 0#F.fractionBits

def denormal : Bool := n.exponent = 0#F.exponentBits && n.fraction ≠ 0#F.fractionBits

def zero : Bool := n.exponent = 0#F.exponentBits && n.fraction = 0#F.fractionBits

/-- A NaN without the quiet bit. -/
def signalling : Bool := n.nan && !n.fraction.msb

def negate : Number F := { n with negative := !n.negative }

def flush : Number F := if n.denormal then ⟨n.negative, 0, 0⟩ else n

def significand : ℕ := F.hidden + n.fraction.toNat

/-- The number that the fields of a finite number stand for, with denormals as zero. -/
def value : ℚ :=
  if n.exponent = 0#F.exponentBits then 0
  else signed n.negative (n.significand * 2 ^ (n.exponent.toNat - F.bias - F.fractionBits : ℤ))

def pack : BitVec F.width := BitVec.ofBool n.negative ++ n.exponent ++ n.fraction

def unpack (word : BitVec F.width) : Number F where
  negative := word.getLsbD (F.exponentBits + F.fractionBits)
  exponent := word.extractLsb' F.fractionBits F.exponentBits
  fraction := word.extractLsb' 0 F.fractionBits

theorem unpack_pack : unpack n.pack = n := by
  obtain ⟨negative, exponent, fraction⟩ := n
  unfold unpack pack
  dsimp only
  congr 1
  · rw [BitVec.getLsbD_append, BitVec.getLsbD_append]
    simp only [Nat.add_sub_cancel, BitVec.getLsbD_ofBool]
    simp
  · ext i hi
    simp [BitVec.getElem_extractLsb', BitVec.getLsbD_append, hi]
  · ext i hi
    simp [BitVec.getElem_extractLsb', BitVec.getLsbD_append, hi]

end Number

abbrev sp (word : Word) : Number single := .unpack word

abbrev dp (word : Long) : Number double := .unpack word

section Flagged

variable {F : Format}

def packed (out : Flagged (Number F)) : Flagged (BitVec F.width) := ⟨out.value.pack, out.status⟩

def unpacked (F : Format) (out : Flagged (BitVec F.width)) : Flagged (Number F) := ⟨.unpack out.value, out.status⟩

theorem unpacked_packed (out : Flagged (Number F)) : unpacked F (packed out) = out := by
  unfold unpacked packed
  rw [Number.unpack_pack]

end Flagged

namespace Format

variable (F : Format) (negative : Bool)

def nanOut : Number F := ⟨negative, BitVec.allOnes _, BitVec.allOnes _⟩

def infinity : Number F := ⟨negative, BitVec.allOnes _, 0⟩

/-- `LFPN`. -/
def largest : Number F := ⟨negative, BitVec.allOnes _ - 1, BitVec.allOnes _⟩

/-- `SFPN`. -/
def smallest : Number F := ⟨negative, 1, 0⟩

def zero : Number F := ⟨negative, 0, 0⟩

def normal (mantissa : ℕ) (exponent : ℤ) : Number F :=
    ⟨negative, BitVec.ofNat _ exponent.toNat, BitVec.ofNat _ mantissa⟩

end Format

def nan1 : Word := 0x001

def nan2 : Word := 0x002

def den1 : Word := 0x004

def den2 : Word := 0x008

def inval : Word := 0x010

def info : Word := 0x020

def overflow : Word := 0x040

def inex : Word := 0x080

def underflow : Word := 0x100

def flag (c : Bool) (bit : Word) : Word := if c then bit else 0

/-- The rounding mode of a two-bit field. -/
def modeOf (rmode : ℕ) : Mode :=
  match rmode with
  | 0 => .nearestEven
  | 2 => .upward
  | 3 => .downward
  | _ => .towardZero

def increments (rmode : ℕ) (negative : Bool) (mantissa remainder halfway : ℕ) : Bool :=
  (rmode = 0 && (halfway < remainder || (remainder = halfway && mantissa % 2 = 1))) ||
    (rmode = 2 && !negative && remainder ≠ 0) || (rmode = 3 && negative && remainder ≠ 0)

/-- Whether an overflow gives infinity. -/
def overflows (rmode : ℕ) (negative : Bool) : Bool := rmode = 0 || (rmode = 2 && !negative) || (rmode = 3 && negative)

/-- Whether an underflow gives the smallest number. -/
def underflows (rmode : ℕ) (negative : Bool) : Bool := (rmode = 2 && !negative) || (rmode = 3 && negative)

namespace Format

variable (F : Format) (rmode : ℕ) (negative : Bool) (status : Word)

def carry (mantissa : ℕ) (exponent : ℤ) (increment : Bool) : ℕ × ℤ :=
  if increment then
    if mantissa + 1 = 2 ^ (F.fractionBits + 1) then ((mantissa + 1) / 2, exponent + 1) else (mantissa + 1, exponent)
  else (mantissa, exponent)

def overflowed : Flagged (Number F) :=
  let infinite := overflows rmode negative
  ⟨if infinite then F.infinity negative else F.largest negative,
    status ||| (inex ||| overflow ||| flag infinite info)⟩

def underflowed : Flagged (Number F) :=
  ⟨if underflows rmode negative then F.smallest negative else F.zero negative, status ||| (underflow ||| inex)⟩

def deliver (mantissa remainder halfway : ℕ) (exponent : ℤ) : Flagged (Number F) :=
  let (m, e) := F.carry mantissa exponent (increments rmode negative mantissa remainder halfway)
  if F.top ≤ e then F.overflowed rmode negative status
  else if e ≤ 0 then F.underflowed rmode negative status
  else ⟨F.normal negative m e, status ||| flag (remainder ≠ 0) inex⟩

end Format

/-- Whether the magnitude of a result beyond the finite numbers is rounded up. -/
def Mode.outward (mode : Mode) (negative : Bool) : Bool :=
  match mode with
  | .nearestEven => true
  | .towardZero => false
  | .upward => !negative
  | .downward => negative

/-- Whether the magnitude of a result below the normal numbers is rounded up. -/
def Mode.away (mode : Mode) (negative : Bool) : Bool :=
  match mode with
  | .nearestEven | .towardZero => false
  | .upward => !negative
  | .downward => negative

/-- What an exact result `x`, rounded to `r`, comes to in the format, and the warning bits it adds. -/
inductive Delivers (F : Format) (mode : Mode) (x r : ℚ) (status : Word) : Flagged (Number F) → Prop
  | overflow (large : F.beyond ≤ |r|) :
    Delivers F mode x r status
      ⟨if Mode.outward mode (x < 0) then F.infinity (x < 0) else F.largest (x < 0),
        status ||| (inex ||| FloatingPoint.overflow ||| flag (Mode.outward mode (x < 0)) info)⟩
  | underflow (small : |r| < F.least) :
    Delivers F mode x r status
      ⟨if Mode.away mode (x < 0) then F.smallest (x < 0) else F.zero (x < 0),
        status ||| (FloatingPoint.underflow ||| inex)⟩
  | normal {n : Number F} (low : F.least ≤ |r|) (high : |r| < F.beyond) (eq : n.value = r) :
    Delivers F mode x r status ⟨n, status ||| flag (r ≠ x) inex⟩

end Cdj2000Emulator.FloatingPoint
