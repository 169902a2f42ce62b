import Cdj2000Emulator.C674x.ArmControl
import Cdj2000Emulator.C674x.Arms

namespace Cdj2000Emulator.C674x.Compact

open State Transfer Decode Effects Operands ArmControl Arms

/-- The RS bit's offset to a three-bit register field. -/
def rs (header : Word) : ℕ := if header &&& 0x80000#32 ≠ 0 then 16 else 0

/-- The scattered five-bit constant of the compact formats. -/
def ucst5 (w : Word) : ℕ := field w 13 3 + field w 11 2 * 8

def expandMemory (header w : Word) : Option Word :=
  let doff := w &&& 0x0406#32 = 0x0004#32
  let dind := w &&& 0x0c06#32 = 0x0404#32
  let dinc := w &&& 0xcc06#32 = 0x0c04#32
  let ddec := w &&& 0xcc06#32 = 0x4c04#32
  if doff ∨ dind ∨ dinc ∨ ddec then
    let dsz := field header 16 3
    let load := w &&& 8#32 ≠ 0
    let secondary := w &&& 0x200#32 ≠ 0
    let pair := ¬secondary ∧ 4 ≤ dsz
    let nonaligned := pair ∧ w &&& 0x10#32 ≠ 0
    let reg := field w 4 3 + rs header
    let reg := if pair then reg / 2 * 2 else reg
    let op := if pair then
        if load then if nonaligned then 2 else 6 else if nonaligned then 7 else 4
      else if ¬secondary then if load then 6 else 7
      else (if load then [1, 2, 0, 4, 6, 2, 3, 4] else [3, 3, 5, 5, 7, 3, 5, 5]).getD dsz 0
    let extended := if pair ∨ (secondary ∧ dsz = 6) then 0x100 else 0
    let (offset, mode) :=
      if doff then (field w 13 3 + field w 11 1 * 8, 1)
      else if dind then (field w 13 3 + rs header, 5)
      else (field w 13 1 + 1, if dinc then 11 else 8)
    let scaled := if nonaligned ∧ (dinc ∨ ddec) then 1 <<< 23 else 0
    some (BitVec.ofNat 32 (reg <<< 23 ||| (4 + field w 7 2) <<< 18 ||| offset <<< 13 |||
      mode <<< 9 ||| scaled ||| extended ||| field w 0 1 <<< 7 ||| op <<< 4 ||| 4 |||
      field w 12 1 <<< 1))
  else none

/-- The full-width word of a compact saturating, register-count SSHL or M3 format. -/
def expandScalar (header w : Word) : Option Word :=
  let s := field w 0 1
  let d := field w 4 3 + rs header
  let left := field w 13 3 + rs header
  let right := field w 7 3 + rs header
  let sat := header &&& 0x4000#32 ≠ 0
  let word (dst src1 rest : ℕ) : Option Word :=
    some (BitVec.ofNat 32 (dst <<< 23 ||| right <<< 18 ||| src1 <<< 13 ||| rest ||| s <<< 1))
  let crossed := field w 12 1 <<< 12
  if sat ∧ w &&& 0x040e#32 = 0 then
    word d left (crossed ||| if w &&& 0x0800#32 ≠ 0 then 0x1f8 else 0x278)
  else if sat ∧ header &&& 0x8000#32 = 0 ∧ w &&& 0x0c0e#32 = 0x000a#32 then
    word d left (crossed ||| 0x820)
  else if sat ∧ w &&& 0x047e#32 = 0x0442#32 then word right (ucst5 w) 0x8a0
  else if w &&& 0x1c7e#32 = 0x1c62#32 then word right left 0x8e0
  else if w &&& 0x001e#32 = 0x001e#32 then
    let op := (if sat then [0x1a, 0x02, 0x12, 0x0a] else [0x19, 0x01, 0x11, 0x09]).getD
      (field w 5 2) 0
    word (field w 10 2 * 2 + rs header) left (crossed ||| op <<< 7)
  else none

/-- How a compact single-cycle register write decodes. -/
inductive Simple
  | other
  | annulled
  | reserved (why : String)
  | value (side dst : ℕ) (value : Word)

/-- The compact formats that only write one register in E1. -/
def decodeSimple (cpu : Cpu) (header w : Word) : Simple :=
  let s := field w 0 1
  let cross := (s + field w 12 1) % 2
  let reg (position : ℕ) : ℕ := field w position 3 + rs header
  let br := header &&& 0x8000#32 ≠ 0
  let left := cpu.r s (reg 13)
  let right := cpu.r cross (reg 7)
  let constant : Word := BitVec.ofNat 32 (ucst5 w)
  let b15 := cpu.r 1 15
  if w &&& 0x1c66#32 = 0x0866#32 ∧ field w 3 2 ≠ 3 then
    let cc := field w 14 2
    if (cpu.r (cc / 2) 0 ≠ 0) ↔ cc % 2 = 1 then .annulled
    else .value s (reg 7) (BitVec.ofNat 32 (field w 13 1))
  else if ¬br ∧ w &&& 0x040e#32 = 0x000a#32 then
    .value s (reg 4) (if w &&& 0x0800#32 ≠ 0 then left - right else left + right)
  else if w &&& 0x047e#32 = 0x002e#32 then
    .value s (reg 13) (if w &&& 0x0800#32 ≠ 0 then left - right else left + right)
  else if w &&& 0x047e#32 = 0x042e#32 then .value s (reg 7) (cpu.r s (reg 7) + constant)
  else if w &&& 0x047e#32 = 0x0436#32 then .value s (reg 7) (b15 + constant * 4)
  else if w &&& 0x1c7f#32 = 0x0c77#32 then
    let constant : Word := BitVec.ofNat 32 (field w 13 3 + field w 8 2 * 8)
    .value 1 15 (if w &&& 0x0080#32 ≠ 0 then b15 - constant * 4 else b15 + constant * 4)
  else if w &&& 0x047e#32 = 0x0036#32 then
    .value s (reg 13) (if w &&& 0x0800#32 ≠ 0 then left - right else left + right)
  else if ¬br ∧ w &&& 0x040e#32 = 0x040a#32 then
    let encoded := field w 13 3
    let count := if encoded = 0 then 16 else if encoded = 7 then 8 else encoded
    .value s (reg 4) (shift32 right count (field w 11 1))
  else if w &&& 0x041e#32 = 0x0402#32 ∧ w &&& 0x047e#32 ≠ 0x0462#32 then
    let op := field w 5 2
    if op = 3 then .reserved "reserved compact Ssh5 instruction"
    else .value s (reg 7) (shift32 (cpu.r s (reg 7)) (ucst5 w) op)
  else if w &&& 0x047e#32 = 0x0462#32 then
    .value s (reg 7) (shift32 (cpu.r s (reg 7)) (field left 0 6) (field w 11 2))
  else if w &&& 0x040e#32 = 0x0400#32 then
    let imm := field w 13 3
    let offset : Word := if w &&& 0x800#32 ≠ 0 then BitVec.ofNat 32 imm - 8
      else if imm ≠ 0 then BitVec.ofNat 32 imm else 8
    .value s (reg 4) (right + offset)
  else if w &&& 0x041e#32 = 2 then
    let op := field w 5 2
    let src := reg 7
    let source := cpu.r s src
    if op = 3 then
      let kind := field w 11 2
      let bits := if kind % 2 = 1 then 8 else 16
      let value := source &&& (BitVec.twoPow 32 bits - 1)
      .value s (reg 13) (if kind < 2 then sx value bits else value)
    else
      let n := ucst5 w
      .value s (if op ≠ 0 then src else 0)
        (if op = 0 then (source >>> (31 - n)) &&& 1#32
          else if op = 1 then source ||| BitVec.twoPow 32 n
          else source &&& ~~~(BitVec.twoPow 32 n))
  else if w &&& 0x001e#32 = 0x0012#32 then
    .value s (reg 7) (BitVec.ofNat 32 (ucst5 w + field w 5 2 * 32 + field w 10 1 * 128))
  else if w &&& 0x1c66#32 = 0x1866#32 ∧ field w 13 3 ≠ 6 then
    let unit := field w 3 2
    let op := field w 13 3
    let source := cpu.r s (reg 7)
    if unit = 3 ∨ op = 4 ∨ (op = 2 ∧ unit = 2) then
      .reserved "reserved compact LSDx1 instruction"
    else .value s (reg 7)
      (if op = 0 then 0 else if op = 1 then 1 else if op = 2 then 0 - source
        else if op = 3 then source - 1 else if op = 5 then source + 1 else source ^^^ 1#32)
  else if w &&& 0x047e#32 = 0x0426#32 then .value s (reg 7) (sx constant 5)
  else if w &&& 0x147e#32 = 0x0026#32 then
    .value s (field w 11 1) (truth (BitVec.ofNat 32 (field w 13 3) = cpu.r s (reg 7)))
  else if w &&& 0x147e#32 = 0x1026#32 then
    let constant : Word := BitVec.ofNat 32 (field w 13 1)
    let source := cpu.r s (reg 7)
    let kind := field w 14 2
    .value s (field w 11 1 + rs header)
      (if kind = 0 then truth (constant.toInt < source.toInt)
        else if kind = 1 then truth (source.toInt < constant.toInt)
        else if kind = 2 then truth (constant < source)
        else truth (source < constant))
  else if w &&& 0x040e#32 = 0x0408#32 then
    let op := field w 11 1 * 4 + field w 5 2
    .value s (field w 4 1)
      (if op = 0 then left &&& right else if op = 1 then left ||| right
        else if op = 2 then left ^^^ right
        else if op = 3 then truth (left = right)
        else if op = 4 then truth (left.toInt < right.toInt)
        else if op = 5 then truth (right.toInt < left.toInt)
        else if op = 6 then truth (left < right)
        else truth (right < left))
  else .other

def compactBnop (cpu : Cpu) (pc w : Word) : List Effect :=
  let unsigned := w &&& 0xc000#32 = 0xc000#32
  let n := if unsigned then 5 else field w 13 3
  let displacement : Word := if unsigned then BitVec.ofNat 32 (field w 6 8) else sxField w 6 7
  let enabled := w &&& 0x20#32 = 0 ∨ ¬((cpu.r (field w 0 1) 0 ≠ 0) ↔ field w 4 1 = 1)
  .multicycle (n + 1) "multiple multicycle instructions" ::
    if enabled then [.branch (fetchRelative pc (displacement * 2)) branchRefusal] else []

def compactB15 (cpu : Cpu) (header w : Word) : List Effect :=
  let bank := field w 12 1
  let reg := field w 4 3 + rs header
  let address := cpu.r 1 15 + BitVec.ofNat 32 (field w 13 2 + field w 7 3 * 4) * 4
  let value := wide (cpu.r bank reg)
  let refusal := "unmapped B15 stack transfer"
  .memoryAccess false ::
    if address.toNat % 4 ≠ 0 then stop refusal
    else if w &&& 8#32 ≠ 0 then [.probe address 4 0 refusal, .loadWord address bank reg]
    else [.check address value 4 0 refusal, .store address value 4 0]

/-- Figure C-21: the B15 stack forms, post-decrement stores and pre-increment loads. -/
def compactDpp (cpu : Cpu) (w : Word) : List Effect :=
  let bank := field w 12 1
  let reg := field w 7 4
  let size := if w &&& 0x8000#32 ≠ 0 then 8 else 4
  let load := w &&& 0x4000#32 ≠ 0
  let sp := cpu.r 1 15
  let delta : Word := BitVec.ofNat 32 (size * (field w 13 1 + 1))
  let address := if load then sp + delta else sp
  let value := if size = 8 then join (cpu.r bank (reg + 1)) (cpu.r bank reg)
    else wide (cpu.r bank reg)
  let refusal := "unmapped stack access"
  .memoryAccess false ::
    if address.toNat % size ≠ 0 ∨ (size = 8 ∧ reg % 2 = 1) then
      stop "unaligned stack access or invalid register pair"
    else if load then
      [.probe address size 0 refusal, .write 1 15 address, .load address size 0 false bank reg]
    else
      [.check address value size 0 refusal, .write 1 15 (sp - delta),
        .store address value size 0]

/-- The compact formats that no lowering covers. -/
def compactEffects (cpu : Cpu) (header pc w : Word) : List Effect :=
  match decodeSimple cpu header w with
  | .annulled => []
  | .reserved why => stop why
  | .value side dst value => [.write side dst value]
  | .other =>
    let side := field w 0 1
    let cross := (side + field w 12 1) % 2
    if w &&& 0x187f#32 = 0x006f#32 then
      [.multicycle (field w 13 3 + 1) "multiple multicycle instructions",
        .branch (cpu.r 1 (field w 7 4)) branchRefusal]
    else if w &&& 0xfc7f#32 = 0xd86f#32 then [.mvc 13 (cpu.r 1 (field w 7 3 + rs header))]
    else if header &&& 0x8000#32 ≠ 0 ∧ (w &&& 0x3e#32 = 0x0a#32 ∨ w &&& 0x2e#32 = 0x2a#32) then
      compactBnop cpu pc w
    else if w &&& 0x8c07#32 = 0x8c05#32 then compactB15 cpu header w
    else if w &&& 0x087f#32 = 0x0077#32 then compactDpp cpu w
    else if w &&& 0x0026#32 = 0x0006#32 ∧ field w 3 2 ≠ 3 then
      let ms := field w 10 2 * 8
      let wideDst := w &&& 0x40#32 ≠ 0
      let dst := field w 13 3 + if wideDst then ms else rs header
      let src := field w 7 3 + if wideDst then rs header else ms
      [.write side dst (cpu.r cross src)]
    else if w &&& 0x040e#32 ≠ 0 ∨ header &&& 0x4000#32 ≠ 0 then
      stop "compact instruction not implemented"
    else
      let left := cpu.r side (field w 13 3 + rs header)
      let right := cpu.r cross (field w 7 3 + rs header)
      [.write side (field w 4 3 + rs header)
        (if w &&& 0x0800#32 ≠ 0 then left - right else left + right)]

end Cdj2000Emulator.C674x.Compact
