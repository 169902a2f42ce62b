import Cdj2000Emulator.C674x.Operands

namespace Cdj2000Emulator.C674x.Arms

open State Transfer Decode Effects Operands

variable (u : Arithmetic) (x : Arm)

def armSatLong : List Effect :=
  let op := x.scalarSatOp
  if x.dst % 2 = 1 ∨ x.b % 2 = 1 then stop "invalid long register pair"
  else if op ≠ 0x638#32 ∧ x.bits 0x1000 ≠ 0 then stop "cross-path long operand not supported"
  else x.whenEnabled <|
    let left := if op = 0x638#32 then (x.cpu.r x.cross x.a).toInt else x.imm.toInt
    let right := sx40 (registerLong40 x.cpu x.side x.b)
    let result := if op = 0x598#32 then left - right else left + right
    let limit : ℤ := 2 ^ 39
    let saturated := limit ≤ result ∨ result < -limit
    let result := BitVec.ofInt 64 (max (-limit) (min (limit - 1) result))
    [.writePair x.side x.dst (low result) (high result &&& 0xff#32)] ++
      if saturated then [.sat e2 (Arm.bit x.side)] else []

def armSatScalar : List Effect :=
  let op := x.scalarSatOp
  let unitBit := if op &&& 0x1c#32 = 0x18#32 then x.side else 2 + x.side
  let (value, saturated) :=
    if op = 0x8e0#32 ∨ op = 0x8a0#32 then
      saturatingShift32 x.src2 (if op = 0x8a0#32 then x.a else field x.src1 0 6)
    else
      let left := if op = 0x258#32 ∨ op = 0x1d8#32 then x.imm.toInt
        else (x.cpu.r (if op = 0x3f8#32 then x.cross else x.side) x.a).toInt
      let right := (x.cpu.r (if op = 0x3f8#32 then x.side else x.cross) x.b).toInt
      let subtract := op = 0x1f8#32 ∨ op = 0x3f8#32 ∨ op = 0x1d8#32
      saturate32 (if subtract then left - right else left + right)
  x.whenEnabled (if saturated then [.sat e2 (Arm.bit unitBit)] else []) ++ x.commit value

def armAddk : List Effect := x.commit (x.cpu.r x.side x.dst + sxField x.w 7 16)

def armMvkS : List Effect := x.commit (sxField x.w 7 16)

def armMvkh : List Effect :=
  x.commit ((x.cpu.r x.side x.dst &&& 0xffff#32) ||| (((x.w >>> 7) &&& 0xffff#32) <<< 16))

def armDAdda : List Effect :=
  let op := field x.w 7 6
  if 4 ≤ x.b ∧ x.b ≤ 7 ∧ x.cpu.cycles < x.cpu.controlReady 0 then
    stop "AMR use interlock not implemented"
  else
    let immediate := if 0x3c ≤ op then op % 2 = 1 else op / 2 % 2 = 1
    let offset := (if immediate then x.uimm else x.src1) <<< ((op - 0x30) / 4)
    let base := x.cpu.r x.side x.b
    let value := if op < 0x3c ∧ op % 2 = 1 then base - offset else base + offset
    x.whenEnabled <|
      match addressWidth x.cpu x.side x.b with
      | none => stop (widthRefusal x.cpu)
      | some width => x.commit (circularAddress base value width)

def armDAddsub : List Effect :=
  let op := field x.w 7 6
  let left := x.cpu.r x.side x.b
  let right := if op / 2 % 2 = 1 then x.uimm else x.src1
  x.commit (if op % 2 = 1 then left - right else left + right)

def armDAddsubCross : List Effect :=
  let left := if x.bits 0xffc = 0xaf0 then x.imm else x.src1
  x.commit (if x.bits 0xffc = 0xb30 then left - x.src2 else left + x.src2)

def armMvkD : List Effect := x.commit x.imm

def armMvkL : List Effect := x.commit (sx (BitVec.ofNat 32 x.b) 5)

def armLLongAddsub : List Effect :=
  let op := field x.w 5 7
  let pairSource := op = 0x20 ∨ op = 0x21 ∨ op = 0x24 ∨ op = 0x29
  let immediateLong := op = 0x20 ∨ op = 0x24
  if immediateLong ∧ x.bits 0x1000 ≠ 0 then stop "cross-path long operand not supported"
  else if x.dst % 2 = 1 ∨ (pairSource ∧ x.b % 2 = 1) then stop "invalid long register pair"
  else
    let long := registerLong40 x.cpu x.side x.b
    let sint (value : Word) : Long := value.signExtend 64
    let result : Long :=
      if op = 0x20 then sint x.imm + long
      else if op = 0x21 then sint (x.cpu.r x.cross x.a) + long
      else if op = 0x23 then sint x.src1 + sint x.src2
      else if op = 0x24 then sint x.imm - long
      else if op = 0x27 then sint x.src1 - sint x.src2
      else if op = 0x29 then wide (x.cpu.r x.cross x.a) + long
      else if op = 0x2b then wide x.src1 + wide x.src2
      else if op = 0x2f then wide x.src1 - wide x.src2
      else if op = 0x37 then sint (x.cpu.r x.cross x.a) - sint (x.cpu.r x.side x.b)
      else wide (x.cpu.r x.cross x.a) - wide (x.cpu.r x.side x.b)
    let result := result &&& long40Mask
    x.whenEnabled [.writePair x.side x.dst (low result) (high result)]

def pairGuard (pair : Bool) (rest : List Effect) : List Effect :=
  if pair ∧ x.dst % 2 = 1 then stop "invalid multiply result register pair" else rest

def armMpy32 : List Effect :=
  let mpyEncoding := x.bits 0x7c = 0
  let op := if mpyEncoding then field x.w 7 5 else field x.w 6 5
  let pair := ¬mpyEncoding ∨ op ≠ 0x10
  let result : Long :=
    if mpyEncoding ∧ (op = 0x10 ∨ op = 0x14) then x.src1.signExtend 64 * x.src2.signExtend 64
    else if mpyEncoding then x.src1.signExtend 64 * wide x.src2
    else if op = 0x18 then wide x.src1 * wide x.src2
    else wide x.src1 * x.src2.signExtend 64
  pairGuard x pair (x.delayedPair e4 pair (if pair then result else wide (low result)))

def half (value : Word) (upper signed : Bool) : Word :=
  let bits : BitVec 16 := if upper then (value >>> 16).setWidth 16 else value.setWidth 16
  if signed then bits.signExtend 32 else bits.setWidth 32

def armMpy16 : List Effect :=
  let op := field x.w 7 5
  let l := half x.src1
  let r := half x.src2
  let result : Word :=
    if op = 0x18 then x.imm * r false true
    else if op = 0x1e then x.imm * r false false
    else if op = 0x01 then l true true * r true true
    else if op = 0x09 then l true true * r false true
    else if op = 0x0f then l true false * r false false
    else if op = 0x0b then l true true * r false false
    else if op = 0x03 then l true true * r true false
    else if op = 0x07 then l true false * r true false
    else if op = 0x0d then l true false * r false true
    else if op = 0x05 then l true false * r true true
    else if op = 0x11 then l false true * r true true
    else if op = 0x17 then l false false * r true false
    else if op = 0x13 then l false true * r true false
    else if op = 0x15 then l false false * r true true
    else if op = 0x1b then l false true * r false false
    else if op = 0x1f then l false false * r false false
    else if op = 0x1d then l false false * r false true
    else l false true * r false true
  x.delayed e2 (wide result) 0 false

def armSmpy16 : List Effect :=
  let op := field x.w 7 5
  let packed : Bool := x.bits 0x7c ≠ 0
  let first := u.smpy16 x.src1 x.src2 (!packed && op / 0x10 % 2 = 0) (!packed && op / 8 % 2 = 0)
  let second := if packed then u.smpy16 x.src1 x.src2 true true else first
  let saturated := first.2 || second.2
  pairGuard x packed <| x.whenEnabled <|
    [.reserve (if saturated then 2 else 1),
      if packed then .resultPair e4 x.side x.dst (join second.1 first.1)
      else .result e2 x.side x.dst (wide first.1) 0 false] ++
    if saturated then [.sat (if packed then e5 else e3) (Arm.bit (4 + x.side))] else []

def armMpyHalf32 : List Effect :=
  let op := field x.w 6 5
  let upper : Bool := op = 0x10 ∨ op = 0x14
  let pair : Bool := op = 0x14 ∨ op = 0x15
  let product : Long := (half x.src1 upper true).signExtend 64 * x.src2.signExtend 64
  pairGuard x pair
    (x.delayedPair e4 pair (if pair then product else (product + 0x4000#64).sshiftRight 15))

def armMvd : List Effect := x.delayed e4 (wide x.src2) 0 false

def armIntsp : List Effect :=
  let (result, inexact) := u.integerToSp x.src2 (x.bits 0x3cffc = 0x958) (x.rmode 18)
  x.delayed e4 (wide result) (if inexact then Arm.bit (x.shift + 7) else 0) false

def armSpint : List Effect :=
  let result := u.spToInteger x.src2 (if x.bits 0x20 ≠ 0 then 1 else x.rmode 18)
  x.delayed e4 (wide result.value) (result.status <<< x.shift) false

def warn (status : Word) : List Effect :=
  x.whenEnabled (if status ≠ 0 then [.faucr (status <<< x.shift)] else [])

def armAbssp : List Effect :=
  let source := x.src2
  let exponent := field source 23 8
  let fraction := source &&& 0x7fffff#32
  let (value, status) : Word × Word :=
    if exponent = 255 ∧ fraction ≠ 0 then
      (0x7fffffff, if fraction &&& 0x400000#32 = 0 then 0x12 else 0x2)
    else if exponent = 0 ∧ fraction ≠ 0 then (0, 0x88)
    else (source &&& 0x7fffffff#32, if exponent = 255 then 0x20 else 0)
  warn x status ++ x.commit value

def armCmpsp : List Effect :=
  let result := u.compareSp x.src1 x.src2 (field x.w 6 6 - 0x38)
  warn x result.status ++ x.commit result.value

def armAddsubsp : List Effect :=
  let encoding := x.bits 0xffc
  let operation := if encoding = 0x218 ∨ encoding = 0xe18 then 0 else if encoding = 0xeb8 then 2 else 1
  let source1 := if encoding = 0x2b8 then x.cpu.r x.cross x.a else x.src1
  let source2 := if encoding = 0x2b8 then x.cpu.r x.side x.b else x.src2
  let result := u.addSubSp source1 source2 operation (x.rmode 18)
  x.delayed e4 (wide result.value) (result.status <<< x.shift) false

def armMpysp : List Effect :=
  let result := u.multiplySp x.src1 x.src2 (x.rmode 20)
  x.delayed e4 (wide result.value) (result.status <<< x.shift) true

def armPack : List Effect :=
  let left := x.src1
  let right := x.src2
  let op := x.bits 0xffc
  x.commit <|
    if op = 0x018 ∨ op = 0xff0 then (left <<< 16) ||| (right &&& 0xffff#32)
    else if op = 0x3d8 ∨ op = 0x260 then (left &&& 0xffff0000#32) ||| (right >>> 16)
    else if op = 0x398 ∨ op = 0x220 then (left &&& 0xffff0000#32) ||| (right &&& 0xffff#32)
    else if op = 0x378 ∨ op = 0x420 then (left <<< 16) ||| (right >>> 16)
    else if op = 0xd18 then
      ((left &&& 0x00ff0000#32) <<< 8) ||| ((left &&& 0xff#32) <<< 16) |||
        ((right &&& 0x00ff0000#32) >>> 8) ||| (right &&& 0xff#32)
    else
      (left &&& 0xff000000#32) ||| ((left &&& 0x0000ff00#32) <<< 8) |||
        ((right &&& 0xff000000#32) >>> 16) ||| ((right &&& 0x0000ff00#32) >>> 8)

def armAndn : List Effect := x.commit (x.src1 &&& ~~~x.src2)
def armAndImm : List Effect := x.commit (x.imm &&& x.src2)
def armAndReg : List Effect := x.commit (x.src1 &&& x.src2)
def armAddImm : List Effect := x.commit (x.imm + x.src2)
def armAddReg : List Effect := x.commit (x.src1 + x.src2)
def armSubImm : List Effect := x.commit (x.imm - x.src2)
def armSubReg : List Effect := x.commit (x.src1 - x.src2)

def armSubReverse : List Effect :=
  x.commit (if x.bits 0xffc = 0xd70 then x.src2 - x.src1
    else x.cpu.r x.cross x.a - x.cpu.r x.side x.b)

/-- A comparison's 0 or 1. -/
def truth (p : Prop) [Decidable p] : Word := if p then 1 else 0

def armCmp : List Effect :=
  let encoding := x.bits 0xffc
  let immediate := encoding &&& 0x20#32 = 0
  let signed := if immediate then x.imm else x.src1
  let unsigned := if immediate then x.uimm else x.src1
  let right := x.src2
  let op := encoding &&& ~~~0x20#32
  x.commit <|
    if op = 0xa58 then truth (signed = right)
    else if op = 0x8d8 then truth (right.toInt < signed.toInt)
    else if op = 0x9d8 then truth (right < unsigned)
    else if op = 0xad8 then truth (signed.toInt < right.toInt)
    else truth (unsigned < right)

def armOrImm : List Effect := x.commit (x.imm ||| x.src2)
def armOrReg : List Effect := x.commit (x.src1 ||| x.src2)
def armXorImm : List Effect := x.commit (x.imm ^^^ x.src2)
def armXorReg : List Effect := x.commit (x.src1 ^^^ x.src2)

def armBitfield : List Effect :=
  let immediate := x.bits 0x3c = 8
  let op := if immediate then field x.w 6 2 else field x.w 10 1 * 2 + field x.w 8 1
  let fields := x.src1
  if ¬immediate ∧ x.enabled ∧ fields &&& ~~~1023#32 ≠ 0 then
    stop "invalid bit-field register counts"
  else
    let left := if immediate then x.a else field fields 5 5
    let right := if immediate then field x.w 8 5 else field fields 0 5
    let source := x.cpu.r (if immediate then x.side else x.cross) x.b
    x.commit <|
      if op < 2 then
        let shifted := source <<< left
        if op = 1 then shifted.sshiftRight right else shifted >>> right
      else
        let mask : Word := if right < left then 0
          else (0xffffffff#32 <<< left) &&& (0xffffffff#32 >>> (31 - right))
        if op = 2 then source ||| mask else source &&& ~~~mask

def armShiftS : List Effect :=
  let n := if x.bits 0x40 ≠ 0 then field x.src1 0 6 else x.a
  let op := x.bits 0xfbc
  x.commit (shift32 x.src2 n (if op = 0xca0 then 0 else if op = 0x9a0 then 2 else 1))

def armCmpy : List Effect :=
  let op := field x.w 6 5
  let mpy32 := op = 0x19 ∨ op = 0x0f
  let run (src1 src1Hi src2 : Word) : Cmpy :=
    if mpy32 then u.mpy32Nonconditional op src1 src2 else u.cmpy op src1 src1Hi src2
  let shape := run 0 0 0
  if ¬shape.valid then stop "nonconditional .M opfield not implemented"
  else pairGuard x shape.pairDst <|
    if shape.pairSrc1 ∧ x.a % 2 = 1 then stop "invalid multiply source register pair"
    else
      let r := run x.src1 (if shape.pairSrc1 then x.cpu.r x.side (x.a + 1) else 0) x.src2
      x.delayedPair e4 r.pairDst (if r.pairDst then r.value else wide (low r.value))

def armDotp : List Effect :=
  let op := field x.w 6 5
  let pair : Bool := op = 0x0b
  let r := u.dotp op x.src1 x.src2
  pairGuard x pair <| x.whenEnabled <|
    if ¬r.valid then stop "dot-product opfield not implemented"
    else if r.undefined then
      stop "DOTPRSU2/DOTPNRSU2 intermediate overflows: SPRUFE8B printed page 244 leaves the result undefined"
    else x.delayedPair e4 pair (if pair then r.value else wide (low r.value))

def armPacked16 : List Effect :=
  let left := x.src1
  let right := x.src2
  let op := x.bits 0xffc
  if op = 0x358 then x.commit (u.abs2 right)
  else if op = 0x060 ∨ op = 0x0b8 ∨ op = 0x930 then x.commit (u.add2 left right)
  else if op = 0x460 ∨ op = 0x098 ∨ op = 0x970 then x.commit (u.sub2 left right)
  else if op = 0xc30 then x.commit (u.sadd2 left right)
  else if op = 0xc98 then x.commit (u.ssub2 left right)
  else if op = 0xc70 then x.commit (u.saddus2 left right)
  else if op = 0x858 ∨ op = 0xf70 then x.commit (u.max2 left right)
  else if op = 0x838 ∨ op = 0xf30 then x.commit (u.min2 left right)
  else if op = 0xdf0 then x.commit (u.shr2 right left)
  else if op = 0x620 then x.commit (u.shr2 right x.uimm)
  else if op = 0xe30 then x.commit (u.shru2 right left)
  else if op = 0x660 then x.commit (u.shru2 right x.uimm)
  else if op = 0x760 then x.commit (u.cmpeq2 left right)
  else if op = 0x520 then x.commit (u.cmpgt2 left right)
  else if op = 0xcb0 then x.commit (u.spack2 left right)
  else stop "instruction not implemented"

def armPacked16M : List Effect :=
  let op := x.bits 0xffc
  let (value, saturated) :=
    if op = 0x4f0 then (u.avg2 x.src1 x.src2, false) else u.sshv x.src2 x.src1 (op = 0x6b0)
  x.whenEnabled <|
    [.reserve (if saturated then 2 else 1), .result e2 x.side x.dst (wide value) 0 false] ++
    if saturated then [.sat e3 (Arm.bit (4 + x.side))] else []

def armPacked8 : List Effect :=
  let src1 := x.src1
  let src2 := x.src2
  let op := x.bits 0xffc
  if op = 0xcb8 then x.commit (u.add4 src1 src2)
  else if op = 0xcd8 then x.commit (u.sub4 src1 src2)
  else if op = 0xb58 then x.commit (u.subabs4 src1 src2)
  else if op = 0xcf0 then x.commit (u.saddu4 src1 src2)
  else if op = 0x878 then x.commit (u.maxu4 src1 src2)
  else if op = 0x918 then x.commit (u.minu4 src1 src2)
  else if op = 0x720 then x.commit (u.cmpeq4 src1 src2)
  else if op = 0x560 then x.commit (u.cmpgtu4 src1 src2)
  else if op = 0xd30 then x.commit (u.spacku4 src1 src2)
  else if op = 0x4b0 then x.delayed e2 (wide (u.avgu4 src1 src2)) 0 false
  else if op = 0x130 then pairGuard x true (x.delayedPair e4 true (u.mpyu4 src1 src2))
  else if op = 0x170 then pairGuard x true (x.delayedPair e4 true (u.mpysu4 src1 src2))
  else stop "instruction not implemented"

def armPackbitsM : List Effect :=
  let op := x.bits 0xffc
  let kind := field x.w 13 5
  let result :=
    if op = 0x770 ∨ op = 0x7b0 then u.rotl x.src2 (if op = 0x770 then x.src1 else x.uimm)
    else if kind = 0x1f then u.bitr x.src2
    else if kind = 0x1e then u.bitc4 x.src2
    else if kind = 0x1d then u.deal x.src2
    else if kind = 0x1c then u.shfl x.src2
    else if kind = 0x19 then u.xpnd2 x.src2
    else u.xpnd4 x.src2
  x.delayed e2 (wide result) 0 false

def armPackbitsUnpack : List Effect :=
  let kind := field x.w 13 5
  x.commit (if kind = 3 then u.unpkhu4 x.src2 else if kind = 2 then u.unpklu4 x.src2
    else u.swap4 x.src2)

def armPackbitsMergebyte : List Effect :=
  x.commit (if x.bits 0xffc = 0xc38 ∨ x.bits 0xffc = 0xe70 then u.shlmb x.src1 x.src2
    else u.shrmb x.src1 x.src2)

def armPackbitsLmbd : List Effect :=
  x.commit (u.lmbd (if x.bits 0xffc = 0xd58 then x.uimm else x.src1) x.src2)

def armPackbitsNorm : List Effect :=
  if field x.w 5 7 = 0x63 then x.commit (u.norm32 x.src2)
  else if x.b % 2 = 1 then stop "invalid long register pair"
  else if x.bits 0x1000 ≠ 0 then stop "cross-path long operand not supported"
  else x.commit (u.norm40 (registerLong40 x.cpu x.side x.b))

def armPackbitsDual : List Effect :=
  let op := x.bits 0xffc
  let r : Addsub :=
    if op = 0x698 then ⟨u.dpack2 x.src1 x.src2, false, true⟩
    else if op = 0x678 then ⟨u.dpackx2 x.src1 x.src2, false, true⟩
    else if op = 0x6d8 then ⟨u.shfl3 x.src1 x.src2, false, true⟩
    else u.addsub (field x.w 5 7) x.src1 x.src2
  if x.dst % 2 = 1 then stop "invalid long register pair"
  else if ¬r.valid then stop "nonconditional .L opfield not implemented"
  else
    -- these words carry no predicate
    [.writePair x.side x.dst (low r.value) (high r.value)] ++
      if r.saturated then [.sat e2 (Arm.bit x.side)] else []

def armApprox : List Effect :=
  let encoding := x.bits 0xffc
  let kind : ApproxKind := if encoding = 0xf60 then .rcpsp else if encoding = 0xfa0 then .rsqrsp
    else if encoding = 0xb60 then .rcpdp else .rsqrdp
  let pair := (u.approx kind 0).pair
  if pair ∧ (x.dst % 2 = 1 ∨ x.b % 2 = 0) then stop "invalid double-precision register pair"
  else
    let r := u.approx kind
      (if pair then join x.src2 (x.cpu.r x.cross (x.b - 1)) else wide x.src2)
    x.whenEnabled (if pair then [.result e2 x.side (x.dst + 1) (wide (high r.value)) 0 false]
      else []) ++ warn x r.status ++ x.commit (low r.value)

def dpQueuePair (first second : Latency) (result : Flagged Long) (multiplier : Bool) :
    List Effect :=
  [.result first x.side x.dst (wide (low result.value)) (result.status <<< x.shift) multiplier,
    .result second x.side (x.dst + 1) (wide (high result.value)) 0 multiplier]

def armTwoCycleDp : List Effect :=
  let absdp := x.bits 0xffc = 0xb20
  if x.dst % 2 = 1 then stop "invalid double-precision result register pair"
  else if absdp ∧ x.b % 2 = 0 then stop "invalid double-precision source register pair"
  else
    let result := if absdp then u.absDp (join x.src2 (x.cpu.r x.cross (x.b - 1)))
      else u.spToDp x.src2
    x.whenEnabled [.result e2 x.side (x.dst + 1) (wide (high result.value)) 0 false] ++
      warn x result.status ++ x.commit (low result.value)

def armCmpdp : List Effect :=
  let op := field x.w 5 7
  let relation := if op = 0x51 then 0 else if op = 0x53 then 1 else 2
  if x.a % 2 = 1 ∨ x.b % 2 = 1 then stop "invalid double-precision source register pair"
  else x.whenEnabled <|
    let result := u.compareDp (dpPair x.cpu x.side x.a) (dpPair x.cpu x.cross x.b) relation
    [.compared e2 x.side x.dst (wide (low result.value))
      (if result.status ≠ 0 then some (result.status <<< x.shift) else none)]

def armAddsubdp : List Effect :=
  let encoding := x.bits 0xffc
  let operation := if encoding = 0x318 ∨ encoding = 0xe58 then 0 else if encoding = 0xef8 then 2 else 1
  if x.a % 2 = 1 ∨ x.b % 2 = 1 then stop "invalid double-precision source register pair"
  else if x.dst % 2 = 1 then stop "invalid double-precision result register pair"
  else x.whenEnabled <|
    let reverse := encoding = 0x3b8
    let source1 := dpPair x.cpu (if reverse then x.cross else x.side) x.a
    let source2 := dpPair x.cpu (if reverse then x.side else x.cross) x.b
    .reserve 2 :: dpQueuePair x e6 e7 (u.addSubDp source1 source2 operation (x.rmode 18)) false

def armMpydp : List Effect :=
  let encoding := x.bits 0xffc
  let pairSrc1 := encoding = 0x700
  let pairSrc2 := encoding ≠ 0x5f0
  if (pairSrc1 ∧ x.a % 2 = 1) ∨ (pairSrc2 ∧ x.b % 2 = 1) then
    stop "invalid double-precision source register pair"
  else if x.dst % 2 = 1 then stop "invalid double-precision result register pair"
  else x.whenEnabled <|
    let left := if pairSrc1 then dpPair x.cpu x.side x.a else u.spOperandToDp x.src1
    let right := if pairSrc2 then dpPair x.cpu x.cross x.b else u.spOperandToDp x.src2
    let (first, second) := if encoding = 0x700 then (e9, e10) else if encoding = 0x5b0 then (e6, e7)
      else (e4, e5)
    .reserve 2 :: dpQueuePair x first second (u.multiplyDp left right (x.rmode 20)) true

def armDpConvert : List Effect :=
  let encoding := x.bits 0xffc
  if x.b % 2 = 0 then stop "invalid double-precision source register pair"
  else
    let rmode := if encoding = 0x038 then 1 else x.rmode 18
    let source := join x.src2 (x.cpu.r x.cross (x.b - 1))
    let result := if encoding = 0x138 then u.dpToSp source rmode else u.dpToInteger source rmode
    x.delayed e4 (wide (low result.value)) (result.status <<< x.shift) false

def armIntdp : List Effect :=
  if x.dst % 2 = 1 then stop "invalid double-precision result register pair"
  else x.whenEnabled <|
    .reserve 2 ::
      dpQueuePair x e4 e5 ⟨u.integerToDp x.src2 (x.bits 0xffc = 0x738), 0⟩ false

def armGmpyWord : List Effect :=
  let poly := if field x.w 6 5 = 0x1f then x.cpu.control (22 + x.side) else 0
  x.delayedPair e4 false (wide (u.gmpyWord x.src1 x.src2 poly))

def armMpyi : List Effect :=
  let op := field x.w 7 5
  let pair : Bool := op = 0x08 ∨ op = 0x0c
  if op = 0x06 ∨ op = 0x0c then stop "MPYI constant operand signedness not specified"
  else pairGuard x pair <|
    let product := u.mpyi x.src1 x.src2
    x.delayed e9 (wide (low product)) 0 false ++ x.whenEnabled (if pair then
      [.result e10 x.side (x.dst + 1) (wide (high product)) 0 false] else [])

def armMpy2Gmpy4 : List Effect :=
  let pair : Bool := field x.w 6 5 = 0
  let gfpgfr := x.cpu.control 24
  pairGuard x pair <| x.delayedPair e4 pair <|
    if pair then u.mpy2 x.src1 x.src2
    else wide (u.gmpy4 x.src1 x.src2 (field gfpgfr 0 8) (field gfpgfr 24 3))

def armDmv : List Effect :=
  if x.dst % 2 = 1 then stop "invalid long register pair"
  else x.whenEnabled [.writePair x.side x.dst x.src2 x.src1]

def armSat40 : List Effect :=
  if x.b % 2 = 1 then stop "invalid long register pair"
  else if x.bits 0x1000 ≠ 0 then stop "cross-path long operand not supported"
  else
    let (value, saturated) := u.sat40 (registerLong40 x.cpu x.side x.b)
    x.whenEnabled (if saturated then [.sat e2 (Arm.bit x.side)] else []) ++ x.commit value

def armRpack2 : List Effect :=
  let (src1, sat1) := saturate32 (x.src1.toInt * 2)
  let (src2, sat2) := saturate32 (x.src2.toInt * 2)
  x.whenEnabled (if sat1 || sat2 then [.sat e2 (Arm.bit (2 + x.side))] else []) ++
    x.commit ((src1 &&& 0xffff0000#32) ||| (src2 >>> 16))

def armSubc : List Effect := x.commit (u.subc x.src1 x.src2)

def armAbs : List Effect :=
  if field x.w 5 7 ≠ 0x38 then
    x.whenEnabled (if x.src2 = 0x80000000#32 then [.sat e2 (Arm.bit x.side)] else []) ++
      x.commit (u.abs32 x.src2)
  else if x.dst % 2 = 1 ∨ x.b % 2 = 1 then stop "invalid long register pair"
  else if x.bits 0x1000 ≠ 0 then stop "cross-path long operand not supported"
  else x.whenEnabled <|
    let src2 := registerLong40 x.cpu x.side x.b
    let result := u.abs40 src2
    [.writePair x.side x.dst (low result) (high (result &&& long40Mask))] ++
      if src2 = BitVec.twoPow 64 39 then [.sat e2 (Arm.bit x.side)] else []

def armCmpLong : List Effect :=
  let op := field x.w 5 7
  let immediate := op % 2 = 0
  let unsigned := op = 0x4c ∨ op = 0x4d ∨ op = 0x5c ∨ op = 0x5d
  if x.b % 2 = 1 then stop "invalid long register pair"
  else if immediate ∧ x.bits 0x1000 ≠ 0 then stop "cross-path long operand not supported"
  else
    let raw := registerLong40 x.cpu x.side x.b
    let crossed := x.cpu.r x.cross x.a
    x.commit <|
      if unsigned then
        let left := if immediate then x.a else crossed.toNat
        let right := (raw &&& long40Mask).toNat
        if op = 0x4c ∨ op = 0x4d then truth (right < left) else truth (left < right)
      else
        let left := if immediate then x.imm.toInt else crossed.toInt
        let right := sx40 raw
        if op = 0x50 ∨ op = 0x51 then truth (left = right)
        else if op = 0x44 ∨ op = 0x45 then truth (right < left)
        else truth (left < right)

def armShiftLong : List Effect :=
  let op := field x.w 6 6
  let pairSource := op ≠ 0x12 ∧ op ≠ 0x13
  let count := if x.bits 0x40 ≠ 0 then field x.src1 0 6 else x.a
  let operation := if op = 0x34 ∨ op = 0x35 then 1 else if op = 0x24 ∨ op = 0x25 then 2 else 0
  if x.dst % 2 = 1 ∨ (pairSource ∧ x.b % 2 = 1) then stop "invalid long register pair"
  else if pairSource ∧ x.bits 0x1000 ≠ 0 then stop "cross-path long operand not supported"
  else
    let source := if pairSource then registerLong40 x.cpu x.side x.b else wide x.src2
    let result := u.shift40 source count operation
    x.whenEnabled [.writePair x.side x.dst (low result) (high (result &&& long40Mask))]

end Cdj2000Emulator.C674x.Arms
