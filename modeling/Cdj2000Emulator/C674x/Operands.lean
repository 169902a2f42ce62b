import Cdj2000Emulator.C674x.Decode
import Cdj2000Emulator.C674x.Effects

namespace Cdj2000Emulator.C674x.Operands

open State Decode Effects

/-- A 32-bit value with its saturation flag or its warning bits. -/
structure Flagged (α : Type) where
  value : α
  status : Word
  deriving Inhabited

structure Cmpy where
  value : Long
  pairDst : Bool
  pairSrc1 : Bool
  valid : Bool
  deriving Inhabited

structure Dotp where
  value : Long
  undefined : Bool
  valid : Bool
  deriving Inhabited

structure Addsub where
  value : Long
  saturated : Bool
  valid : Bool
  deriving Inhabited

structure Approx where
  value : Long
  status : Word
  pair : Bool
  deriving Inhabited

inductive ApproxKind
  | rcpsp
  | rcpdp
  | rsqrsp
  | rsqrdp
  deriving DecidableEq

/-- The pure arithmetic of the functional units, one field for each function of the
`cdj_c674x_*` arithmetic files. The pipeline only moves its operands and results. -/
structure Arithmetic where
  smpy16 : Word → Word → Bool → Bool → Word × Bool
  integerToSp : Word → Bool → ℕ → Word × Bool
  spToInteger : Word → ℕ → Flagged Word
  compareSp : Word → Word → ℕ → Flagged Word
  addSubSp : Word → Word → ℕ → ℕ → Flagged Word
  multiplySp : Word → Word → ℕ → Flagged Word
  cmpy : ℕ → Word → Word → Word → Cmpy
  mpy32Nonconditional : ℕ → Word → Word → Cmpy
  dotp : ℕ → Word → Word → Dotp
  abs2 : Word → Word
  add2 : Word → Word → Word
  sub2 : Word → Word → Word
  sadd2 : Word → Word → Word
  ssub2 : Word → Word → Word
  saddus2 : Word → Word → Word
  max2 : Word → Word → Word
  min2 : Word → Word → Word
  avg2 : Word → Word → Word
  shr2 : Word → Word → Word
  shru2 : Word → Word → Word
  cmpeq2 : Word → Word → Word
  cmpgt2 : Word → Word → Word
  spack2 : Word → Word → Word
  sshv : Word → Word → Bool → Word × Bool
  add4 : Word → Word → Word
  sub4 : Word → Word → Word
  subabs4 : Word → Word → Word
  saddu4 : Word → Word → Word
  maxu4 : Word → Word → Word
  minu4 : Word → Word → Word
  cmpeq4 : Word → Word → Word
  cmpgtu4 : Word → Word → Word
  spacku4 : Word → Word → Word
  avgu4 : Word → Word → Word
  mpyu4 : Word → Word → Long
  mpysu4 : Word → Word → Long
  rotl : Word → Word → Word
  bitr : Word → Word
  bitc4 : Word → Word
  deal : Word → Word
  shfl : Word → Word
  xpnd2 : Word → Word
  xpnd4 : Word → Word
  unpkhu4 : Word → Word
  unpklu4 : Word → Word
  swap4 : Word → Word
  shlmb : Word → Word → Word
  shrmb : Word → Word → Word
  lmbd : Word → Word → Word
  norm32 : Word → Word
  norm40 : Long → Word
  dpack2 : Word → Word → Long
  dpackx2 : Word → Word → Long
  shfl3 : Word → Word → Long
  addsub : ℕ → Word → Word → Addsub
  approx : ApproxKind → Long → Approx
  absDp : Long → Flagged Long
  spToDp : Word → Flagged Long
  spOperandToDp : Word → Long
  compareDp : Long → Long → ℕ → Flagged Long
  addSubDp : Long → Long → ℕ → ℕ → Flagged Long
  multiplyDp : Long → Long → ℕ → Flagged Long
  dpToSp : Long → ℕ → Flagged Long
  dpToInteger : Long → ℕ → Flagged Long
  integerToDp : Word → Bool → Long
  gmpyWord : Word → Word → Word → Word
  mpyi : Word → Word → Long
  mpy2 : Word → Word → Long
  gmpy4 : Word → Word → ℕ → ℕ → Word
  sat40 : Long → Word × Bool
  subc : Word → Word → Word
  abs32 : Word → Word
  abs40 : Long → Long
  shift40 : Long → ℕ → ℕ → Long
  deriving Inhabited

/-- `CdjC674xArm`: the committed CPU, the packet, and the fields decoded before
dispatch. -/
structure Arm where
  cpu : Cpu
  packet : Packet
  index : ℕ
  header : Word
  w : Word
  pc : Word
  side : ℕ
  dst : ℕ
  a : ℕ
  b : ℕ
  cross : ℕ
  enabled : Bool
  longOffset : Bool
  scalarSatOp : Word

namespace Arm

variable (x : Arm)

/-- The word with the bits of `mask` kept. -/
abbrev bits (mask : Word) : Word := x.w &&& mask

abbrev src1 : Word := x.cpu.r x.side x.a
abbrev src2 : Word := x.cpu.r x.cross x.b

/-- The signed five-bit constant in the src1 field. -/
abbrev imm : Word := sx (BitVec.ofNat 32 x.a) 5

/-- The unsigned five-bit constant in the src1 field. -/
abbrev uimm : Word := BitVec.ofNat 32 x.a

def whenEnabled (effects : List Effect) : List Effect := if x.enabled then effects else []

def commit (value : Word) : List Effect := x.whenEnabled [.write x.side x.dst value]

/-- A delayed scalar result for `dst`. -/
def delayed (latency : Latency) (value : Long) (status : Word) (multiplier : Bool) :
    List Effect :=
  x.whenEnabled [.result latency x.side x.dst value status multiplier]

/-- A delayed result for `dst`, or for the pair at `dst`. -/
def delayedPair (latency : Latency) (pair : Bool) (value : Long) : List Effect :=
  x.whenEnabled [if pair then .resultPair latency x.side x.dst value
    else .result latency x.side x.dst value 0 false]

/-- The unit's half of a floating-point status register. -/
def shift : ℕ := if x.side ≠ 0 then 16 else 0

/-- The rounding mode that a configuration register gives this unit. -/
def rmode (id : ℕ) : ℕ := field (x.cpu.control id) (x.shift + 9) 2

/-- `1u << n`. -/
abbrev bit (n : ℕ) : Word := BitVec.twoPow 32 n

end Arm

def stop (why : String) : List Effect := [.stop why]

def low (value : Long) : Word := value.setWidth 32
def high (value : Long) : Word := (value >>> 32).setWidth 32
def wide (value : Word) : Long := value.setWidth 64
def join (high low : Word) : Long := (wide high <<< 32) ||| wide low

def long40Mask : Long := 0xffffffffff

def sx40 (raw : Long) : ℤ := ((raw.setWidth 40).toInt)

def registerLong40 (cpu : Cpu) (bank reg : ℕ) : Long :=
  (wide (cpu.r bank (reg + 1) &&& 0xff#32) <<< 32) ||| wide (cpu.r bank reg)

def dpPair (cpu : Cpu) (bank reg : ℕ) : Long := join (cpu.r bank (reg + 1)) (cpu.r bank reg)

def saturate32 (value : ℤ) : Word × Bool :=
  if 0x7fffffff < value then (0x7fffffff, true)
  else if value < -0x80000000 then (0x80000000, true)
  else (BitVec.ofInt 32 value, false)

def saturatingShift32 (source : Word) (count : ℕ) : Word × Bool :=
  if count < 32 then saturate32 (source.toInt * 2 ^ count)
  else if source = 0 then (0, false)
  else (if source &&& 0x80000000#32 ≠ 0 then 0x80000000 else 0x7fffffff, true)

def shift32 (source : Word) (count operation : ℕ) : Word :=
  if operation = 0 then if 32 ≤ count then 0 else source <<< count
  else if operation = 2 then if 32 ≤ count then 0 else source >>> count
  else source.sshiftRight count

def addressWidth (cpu : Cpu) (bank reg : ℕ) : Option ℕ :=
  if reg < 4 ∨ 7 < reg then some 0
  else if cpu.cycles < cpu.controlReady 0 then none
  else
    let mode := field (cpu.control 0) (bank * 8 + (reg - 4) * 2) 2
    if mode = 3 then none
    else if mode ≠ 0 then some (field (cpu.control 0) (if mode = 1 then 16 else 21) 5 + 1)
    else some 0

/-- The reason recorded when `address_width` refuses. -/
def widthRefusal (cpu : Cpu) : String :=
  if cpu.cycles < cpu.controlReady 0 then "AMR use interlock not implemented"
  else "reserved circular addressing mode"

def timestamp (cpu : Cpu) : ℕ :=
  let origin := cpu.controlReady 16
  if origin = 0 ∨ cpu.cycles ≤ origin then 0 else cpu.cycles - origin

/-- The bit number of the lowest set bit, `0` when there is none. -/
def lowestBit (pending : Word) : ℕ :=
  ((List.range 32).find? fun i ↦ pending.getLsbD i).getD 0

def controlRead (cpu : Cpu) (id : ℕ) : Word :=
  let stored := cpu.control id
  if id = 0 then stored &&& 0x03ffffff#32
  else if id = 1 then stored &&& 0xffff03ff#32
  else if id = 2 then stored &&& 0xfff2#32
  else if id = 21 then stored &&& 0x3f#32
  else if id = 4 then (stored &&& 0xfff2#32) ||| 1#32
  else if id = 5 then
    (stored &&& 0xfffffc00#32) |||
      BitVec.ofNat 32 (lowestBit (cpu.control 2 &&& cpu.control 4 &&& 0xfff2#32)) <<< 5
  else if id ∈ [6, 7, 13, 14, 22, 23] then stored
  else if id = 24 then stored &&& 0x070000ff#32
  else if id = 11 then cpu.control 16
  else if id = 10 then BitVec.ofNat 32 (timestamp cpu)
  else if id = 27 then (stored &&& 0x0000c6de#32) ||| ((cpu.control 1 >>> 1) &&& 1#32)
  else if id ∈ [18, 19, 20] then stored &&& 0x07ff07ff#32
  else if id = 26 then (stored &&& 0x0000c6de#32) ||| (cpu.control 1 &&& 1#32)
  else 0

def controlReadSupported (id : ℕ) : Bool :=
  id ∈ [0, 1, 2, 4, 5, 6, 7, 10, 11, 13, 14, 22, 23, 24, 26, 27, 18, 19, 20, 21]

def controlWriteSupported (id : ℕ) : Bool :=
  id ≤ 7 || id ∈ [10, 13, 14, 22, 23, 24, 26, 27, 18, 19, 20, 21]

end Cdj2000Emulator.C674x.Operands
