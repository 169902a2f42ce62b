import Cdj2000Emulator.C674x.Operands

namespace Cdj2000Emulator.C674x.ArmControl

open State Transfer Decode Effects Operands

variable (x : Arm)

def armScalarMemory : List Effect :=
  let op := field x.w 4 3
  let extended : Bool := !x.longOffset && x.bits 0x100 ≠ 0
  let pair : Bool := extended && (op = 2 || op = 4 || op = 6 || op = 7)
  let nonaligned : Bool := extended && op ≠ 4 && op ≠ 6
  let size := if pair then 8 else if nonaligned then 4 else if 6 ≤ op then 4
    else if op = 0 ∨ op = 4 ∨ op = 5 then 2 else 1
  let isStore : Bool := if extended then op = 4 || op = 5 || op = 7 else op = 3 || op = 5 || op = 7
  let scale := if pair && nonaligned then if x.bits (Arm.bit 23) ≠ 0 then 8 else 1 else size
  let dst := if pair && nonaligned then x.dst / 2 * 2 else x.dst
  let bank := if x.longOffset then 1 else field x.w 7 1
  let mode := if x.longOffset then 1 else field x.w 9 4
  let b := if x.longOffset then 14 + field x.w 7 1 else x.b
  if pair ∧ ¬nonaligned ∧ x.dst % 2 = 1 then stop "invalid doubleword register pair"
  else if mode / 8 % 2 = 0 ∧ mode / 2 % 2 = 1 then stop "reserved memory addressing mode"
  else if 4 ≤ b ∧ b ≤ 7 ∧ x.cpu.cycles < x.cpu.controlReady 0 then
    stop "AMR use interlock not implemented"
  else x.whenEnabled <| .memoryAccess nonaligned ::
    match addressWidth x.cpu bank b with
    | none => stop (widthRefusal x.cpu)
    | some width =>
      if nonaligned ∧ width ≠ 0 ∧ width < 5 then
        stop "nonaligned circular buffer smaller than 32 bytes"
      else
        let units := if x.longOffset then BitVec.ofNat 32 (field x.w 8 15)
          else if mode / 4 % 2 = 1 then x.cpu.r bank x.a else x.uimm
        let offset := units * BitVec.ofNat 32 scale
        let base := x.cpu.r bank b
        let updated := circularAddress base
          (if mode % 2 = 1 then base + offset else base - offset) width
        let address := if mode / 8 % 2 = 1 ∧ mode / 2 % 2 = 1 then base else updated
        let retained := if nonaligned then width else 0
        let value := if pair then join (x.cpu.r x.side (dst + 1)) (x.cpu.r x.side dst)
          else wide (x.cpu.r x.side dst)
        let refusal := "unaligned or unmapped scalar memory access"
        let writeback : List Effect :=
          if mode / 8 % 2 = 1 then [.write bank b updated] else []
        if ¬nonaligned ∧ address.toNat % size ≠ 0 then stop refusal
        else if isStore then
          [.check address value size retained refusal, .store address value size retained] ++
            writeback
        else
          [.probe address size retained refusal,
            .load address size retained (!extended && (op = 2 || op = 4)) x.side dst] ++ writeback

def armMvcRead : List Effect :=
  if ¬controlReadSupported x.b then stop "control register read not implemented"
  else
    x.whenEnabled (if x.b = 10 then
      [.snapshotTsch (BitVec.ofNat 32 (timestamp x.cpu >>> 32))] else []) ++
    x.commit (controlRead x.cpu x.b)

def armMvcWrite : List Effect :=
  if ¬controlWriteSupported x.dst then stop "control register write not implemented"
  else x.whenEnabled [.mvc x.dst x.src2]

def branchRefusal : String := "parallel taken branches or branch queue overflow"

/-- `(pc & ~31u) + offset`, the base of a fetch-relative target. -/
def fetchRelative (pc offset : Word) : Word := (pc &&& ~~~31#32) + offset

def armBIrp : List Effect :=
  let restored := (x.cpu.control 27 &&& 0x0000c6de#32) ||| ((x.cpu.control 1 >>> 1) &&& 1#32)
  x.whenEnabled
    [.guardControls [1, 26, 27] "B IRP parallel task-state write conflict",
      .branch (x.cpu.control 6) branchRefusal, .restoreTask restored]

def armBDisp : List Effect :=
  x.whenEnabled [.branch (fetchRelative x.pc (sxField x.w 7 21 * 4)) branchRefusal]

def Arm.others : List Instruction := x.packet.instructions.eraseIdx x.index

/-- A full-width ADDKPC encoding. -/
def isAddkpc (insn : Instruction) : Bool := !insn.compact && insn.word &&& 0x1ffe#32 = 0x162#32

def armBdec : List Effect :=
  if x.packet.instructions.any isAddkpc then stop "BDEC parallel with ADDKPC"
  else x.whenEnabled <| .bdec ::
    let counter := x.cpu.r x.side x.dst
    if counter &&& 0x80000000#32 = 0 then
      [.branch (fetchRelative x.pc (sxField x.w 13 10 * 4)) branchRefusal,
        .write x.side x.dst (counter - 1)]
    else []

def armBnopDisp : List Effect :=
  let n := field x.w 13 3
  .multicycle (n + 1) "multiple multicycle instructions" :: x.whenEnabled
    [.branch (fetchRelative x.pc (sxField x.w 16 12 * if x.header ≠ 0 then 2 else 4)) branchRefusal]

def armBnopReg : List Effect :=
  let n := field x.w 13 3
  .multicycle (n + 1) "multiple multicycle instructions" ::
    x.whenEnabled [.branch x.src2 branchRefusal]

def armBReg : List Effect :=
  x.whenEnabled [.branch (x.cpu.r (1 - field x.w 12 1) x.b) branchRefusal]

def armAddkpc : List Effect :=
  if x.side = 0 then stop "ADDKPC requires S2"
  else
    x.whenEnabled [.multicycle (1 + field x.w 13 3) "multiple multicycle instructions"] ++
      x.commit (fetchRelative x.pc (sxField x.w 16 7 * 4))

def armBNrp : List Effect :=
  x.whenEnabled <|
    if x.cpu.control 26 &&& 0x0000c6de#32 ≠ 0 then
      stop "B NRP with a restorable TSR and no modelled NTSR"
    else [.guardControls [4] "B NRP parallel IER write conflict",
      .branch (x.cpu.control 7) branchRefusal, .setNmie]

def bposConflict : List Instruction → Option String
  | [] => none
  | other :: rest =>
    if isAddkpc other then some "BPOS parallel with ADDKPC"
    else if !other.compact && other.word &&& 0x1ffc#32 = 0x0020#32 then
      some "multiple BPOS instructions"
    else bposConflict rest

def armBpos : List Effect :=
  match bposConflict (Arm.others x) with
  | some why => stop why
  | none => x.whenEnabled <|
    if x.cpu.r x.side x.dst &&& 0x80000000#32 = 0 then
      [.branch (fetchRelative x.pc (sxField x.w 13 10 * 4)) branchRefusal]
    else []

end Cdj2000Emulator.C674x.ArmControl
