import Cdj2000Emulator.C674x.State

namespace Cdj2000Emulator.C674x.Decode

open State

/-- `sx`: the low `bits` bits, sign extended. -/
def sx (value : Word) (bits : ℕ) : Word :=
  let sign := BitVec.twoPow 32 (bits - 1)
  (value ^^^ sign) - sign

/-- Sign extension of a decoded field. -/
abbrev sxField (w : Word) (low bits : ℕ) : Word := sx (BitVec.ofNat 32 (field w low bits)) bits

def nopCycles (insn : Instruction) : ℕ :=
  if insn.compact then
    if insn.word &&& 0x1fff#32 = 0x0c6e#32 then (insn.word >>> 13).toNat + 1 else 0
  else if insn.word &&& 0xfffe1ffe#32 = 0 then field insn.word 13 4 + 1
  else 0

inductive InterruptGate
  | none
  | disable
  | restore
  deriving DecidableEq

def interruptGateDecode (insn : Instruction) : InterruptGate :=
  if insn.compact then .none
  else if insn.word &&& ~~~1#32 = 0x10004000#32 then .disable
  else if insn.word &&& ~~~1#32 = 0x10006000#32 then .restore
  else .none

def interruptGateParallelConflict (gate : InterruptGate) (insn : Instruction) : Bool :=
  let other := interruptGateDecode insn
  let w := insn.word
  if other ≠ .none then other ≠ gate
  else if 1 < nopCycles insn then true
  else if insn.compact then
    w &&& 0xbc7e#32 = 0x0c66#32 ∨ w &&& 0x3c7e#32 = 0x1c66#32 ∨
      w &&& 0x3c7e#32 = 0x2c66#32 ∨ w &&& 0x3c7e#32 = 0x3c66#32
  else if w &&& ~~~1#32 = 0x10000000#32 ∨ w &&& ~~~1#32 = 0x10002000#32 ∨
      w &&& ~~~1#32 = 0x00036000#32 then true
  else if w &&& 0xf03ffffe#32 = 0x00034000#32 then true
  else if w &&& 0x007ffffc#32 = 0x00038000#32 ∨ w &&& 0x007ffffc#32 = 0x0003a000#32 ∨
      w &&& 0x007ffffe#32 = 0x0003e000#32 then true
  else if w &&& 0xfc03fffe#32 = 0x00030000#32 ∨ w &&& 0xfc03fffe#32 = 0x00032000#32 then true
  else if w &&& 0x0ffffffe#32 = 0x001800e2#32 ∨ w &&& 0x0ffffffe#32 = 0x001c00e2#32 then true
  else if w &&& 0xffe#32 = 0x3a2#32 ∧ field w 13 5 = 0 ∧
      (field w 23 5 = 1 ∨ field w 23 5 = 26) then true
  else false

def spmaskDecode (insn : Instruction) : Option Word :=
  let w := insn.word
  if insn.compact ∧ w &&& 0x3c7e#32 = 0x2c66#32 then
    some ((w &&& 1#32) ||| ((w >>> 6) &&& 14#32) ||| ((w >>> 10) &&& 48#32))
  else if ¬insn.compact ∧ w &&& 0xfc03fffe#32 = 0x30000#32 then
    some ((w >>> 18) &&& 255#32)
  else none

def spmaskrDecode (insn : Instruction) : Bool :=
  if insn.compact then insn.word &&& 0x3c7e#32 = 0x3c66#32
  else insn.word &&& 0xfc03fffe#32 = 0x00032000#32

def isSpmask (insn : Instruction) : Bool :=
  (spmaskDecode insn).isSome || spmaskrDecode insn

/-- `instruction_unit`, as the unit's mask bit; zero means unknown. -/
def instructionUnit (insn : Instruction) : Word :=
  let w := insn.word
  let side := if insn.compact then field w 0 1 else field w 1 1
  let on (bits : Word) : Word := bits <<< side
  if !insn.compact then
    if w &&& 0x0c#32 = 12#32 then 32
    else if w &&& 0x1c#32 = 0x18#32 then on 1
    else if w &&& 0x0c#32 = 4#32 ∨ w &&& 0x0c#32 = 12#32 ∨ w &&& 0x7c#32 = 0x40#32 ∨
        w &&& 0xc3c#32 = 0x830#32 then on 16
    else if w &&& 0x3c#32 = 0x20#32 ∨ w &&& 0x3c#32 = 0x28#32 ∨ w &&& 0x3c#32 = 8#32 ∨
        w &&& 0x7c#32 = 0x10#32 ∨ w &&& 0x7c#32 = 0x50#32 ∨ w &&& 0xc3c#32 = 0xc30#32 then on 4
    else if w &&& 0x7c#32 = 0 ∨ w &&& 0x83c#32 = 0x30#32 then on 64
    else 0
  else if (w &&& 0x26#32 = 6#32 ∨ w &&& 0x1c66#32 = 0x0866#32 ∨ w &&& 0x1c66#32 = 0x1866#32) ∧
      field w 3 2 ≠ 3 then BitVec.twoPow 32 (2 * field w 3 2 + side)
  else if w &&& 6#32 = 4#32 ∨ w &&& 0x087f#32 = 0x0077#32 ∨ w &&& 0x047e#32 = 0x0036#32 ∨
      w &&& 0x047e#32 = 0x0436#32 ∨ w &&& 0x1c7e#32 = 0x0c76#32 then on 16
  else if w &&& 0x040e#32 = 0 ∨ w &&& 0x040e#32 = 0x400#32 ∨ w &&& 0x040e#32 = 0x408#32 ∨
      w &&& 0x047e#32 = 0x426#32 ∨ w &&& 0x047e#32 = 0x26#32 then on 1
  else if w &&& 0x001e#32 = 0x001e#32 then on 64
  else if w &&& 0x040e#32 = 0xa#32 ∨ w &&& 0x040e#32 = 0x40a#32 ∨ w &&& 0x001e#32 = 0x12#32 ∨
      w &&& 0x001e#32 = 2#32 ∨ w &&& 0x047e#32 = 0x62#32 ∨ w &&& 0x047e#32 = 0x462#32 ∨
      w &&& 0x047e#32 = 0x2e#32 ∨ w &&& 0x047e#32 = 0x42e#32 ∨ w &&& 0x187e#32 = 0x6e#32 ∨
      w &&& 0x1c7e#32 = 0x186e#32 then on 4
  else 0

def compactBranch (insn : Instruction) : Bool :=
  let w := insn.word
  insn.compact && (w &&& 0x187f#32 = 0x006f#32 ∨
    (insn.header &&& 0x8000#32 ≠ 0 ∧ (w &&& 0x3e#32 = 0x0a#32 ∨ w &&& 0x3e#32 = 0x1a#32 ∨
      w &&& 0x2e#32 = 0x2a#32)))

def protectedLoad (insn : Instruction) : Bool :=
  let w := insn.word
  let op := field w 4 3
  if insn.header &&& BitVec.twoPow 32 20 = 0 then false
  else if insn.compact then
    if w &&& 0x087f#32 = 0x0077#32 then w &&& 0x4000#32 ≠ 0
    else w &&& 6#32 = 4#32 ∧ w &&& 8#32 ≠ 0
  else if w &&& 0x0c#32 = 12#32 then op ≠ 3 ∧ op ≠ 5 ∧ op ≠ 7
  else if w &&& 0x10c#32 ≠ 4#32 ∧ w &&& 0x17c#32 ≠ 0x134#32 ∧ w &&& 0x17c#32 ≠ 0x154#32 ∧
      w &&& 0x17c#32 ≠ 0x124#32 ∧ w &&& 0x17c#32 ≠ 0x174#32 ∧ w &&& 0x17c#32 ≠ 0x164#32 ∧
      w &&& 0x17c#32 ≠ 0x144#32 then false
  else op ≠ 5 ∧ op ≠ 7 ∧ op ≠ (if w &&& 0x100#32 ≠ 0 then 4 else 3)

inductive UncondKind
  | none
  | addab
  | addah
  | addaw
  | unimplemented
  | armTable
  deriving DecidableEq

inductive LDst
  | dst4
  | dst5
  | none
  deriving DecidableEq

def lUnitOp (op : ℕ) : LDst :=
  if op ∈ [0x0c, 0x0d, 0x0e, 0x0f, 0x33, 0x34] then .dst4
  else if op = 0x36 then .dst5
  else .none

/-- `m_unit_op`, whose every recognised operation has an arm row. -/
def mUnitOp (op : ℕ) : Bool :=
  op ∈ [0x1b, 0x1f, 0x0a, 0x0b, 0x0c, 0x14, 0x15, 0x16, 0x17, 0x18, 0x0f, 0x19]

def uncondClassify (word : Word) : UncondKind :=
  let op := field word 5 7
  let extent := field word 10 2
  if word >>> 28 ≠ 1#32 then .none
  else if word &&& 0x7c#32 = 0x3c#32 then .addab
  else if word &&& 0x7c#32 = 0x5c#32 then .addah
  else if word &&& 0x7c#32 = 0x7c#32 then .addaw
  else if word &&& 0x1c#32 = 0x18#32 ∧ (lUnitOp op = .dst5 ∨
      (lUnitOp op = .dst4 ∧ word &&& BitVec.twoPow 32 23 = 0)) then
    if op = 0x33 ∨ op = 0x34 ∨ op = 0x36 ∨ (0x0c ≤ op ∧ op ≤ 0x0f) then .armTable
    else .unimplemented
  else if word &&& 0x3c#32 = 0x30#32 ∧ extent < 2 ∧ mUnitOp (field word 6 5) then .armTable
  else if word &&& 0x3c#32 = 0x30#32 ∧ extent = 3 ∧ field word 6 4 = 0xb then .armTable
  else if word &&& ~~~0x2001#32 = 0x10000000#32 then .unimplemented
  else .none

structure AddaLong where
  dst : ℕ
  side : ℕ
  result : Word

def addaLong (kind : UncondKind) (word b14 b15 : Word) : AddaLong :=
  let shift := match kind with
    | .addah => 1
    | .addaw => 2
    | _ => 0
  let base := if word &&& 0x80#32 ≠ 0 then b15 else b14
  { dst := field word 23 5
    side := field word 1 1
    result := base + (((word >>> 8) &&& 0x7fff#32) <<< shift) }

end Cdj2000Emulator.C674x.Decode
