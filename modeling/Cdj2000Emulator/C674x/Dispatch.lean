import Cdj2000Emulator.C674x.Arms
import Cdj2000Emulator.C674x.ArmControl

namespace Cdj2000Emulator.C674x.Dispatch

open State Decode Effects Operands Arms ArmControl

/-- The `arm_*` functions that rows of the dispatch table name. -/
inductive ArmName
  | satLong
  | satScalar
  | scalarMemory
  | addk
  | mvkS
  | mvkh
  | dAdda
  | dAddsub
  | dAddsubCross
  | mvkD
  | mvkL
  | lLongAddsub
  | mpy32
  | mpy16
  | smpy16
  | mpyHalf32
  | mvd
  | intsp
  | spint
  | abssp
  | cmpsp
  | addsubsp
  | mpysp
  | pack
  | andn
  | andImm
  | andReg
  | addImm
  | addReg
  | subImm
  | subReg
  | subReverse
  | cmp
  | orImm
  | orReg
  | xorImm
  | xorReg
  | bitfield
  | shiftS
  | mvcRead
  | mvcWrite
  | bIrp
  | bDisp
  | bdec
  | bnopDisp
  | bnopReg
  | bReg
  | addkpc
  | cmpy
  | dotp
  | packed16
  | packed16M
  | packed8
  | packbitsDual
  | packbitsUnpack
  | packbitsM
  | packbitsLmbd
  | packbitsNorm
  | packbitsMergebyte
  | approx
  | twoCycleDp
  | cmpdp
  | addsubdp
  | mpydp
  | dpConvert
  | intdp
  | mpyi
  | mpy2Gmpy4
  | gmpyWord
  | dmv
  | rpack2
  | sat40
  | subc
  | abs
  | cmpLong
  | shiftLong
  | bNrp
  | bpos
  deriving DecidableEq

def ArmName.run (u : Arithmetic) (x : Arm) : ArmName → List Effect
  | .satLong => armSatLong x
  | .satScalar => armSatScalar x
  | .scalarMemory => armScalarMemory x
  | .addk => armAddk x
  | .mvkS => armMvkS x
  | .mvkh => armMvkh x
  | .dAdda => armDAdda x
  | .dAddsub => armDAddsub x
  | .dAddsubCross => armDAddsubCross x
  | .mvkD => armMvkD x
  | .mvkL => armMvkL x
  | .lLongAddsub => armLLongAddsub x
  | .mpy32 => armMpy32 x
  | .mpy16 => armMpy16 x
  | .smpy16 => armSmpy16 u x
  | .mpyHalf32 => armMpyHalf32 x
  | .mvd => armMvd x
  | .intsp => armIntsp u x
  | .spint => armSpint u x
  | .abssp => armAbssp x
  | .cmpsp => armCmpsp u x
  | .addsubsp => armAddsubsp u x
  | .mpysp => armMpysp u x
  | .pack => armPack x
  | .andn => armAndn x
  | .andImm => armAndImm x
  | .andReg => armAndReg x
  | .addImm => armAddImm x
  | .addReg => armAddReg x
  | .subImm => armSubImm x
  | .subReg => armSubReg x
  | .subReverse => armSubReverse x
  | .cmp => armCmp x
  | .orImm => armOrImm x
  | .orReg => armOrReg x
  | .xorImm => armXorImm x
  | .xorReg => armXorReg x
  | .bitfield => armBitfield x
  | .shiftS => armShiftS x
  | .mvcRead => armMvcRead x
  | .mvcWrite => armMvcWrite x
  | .bIrp => armBIrp x
  | .bDisp => armBDisp x
  | .bdec => armBdec x
  | .bnopDisp => armBnopDisp x
  | .bnopReg => armBnopReg x
  | .bReg => armBReg x
  | .addkpc => armAddkpc x
  | .cmpy => armCmpy u x
  | .dotp => armDotp u x
  | .packed16 => armPacked16 u x
  | .packed16M => armPacked16M u x
  | .packed8 => armPacked8 u x
  | .packbitsDual => armPackbitsDual u x
  | .packbitsUnpack => armPackbitsUnpack u x
  | .packbitsM => armPackbitsM u x
  | .packbitsLmbd => armPackbitsLmbd u x
  | .packbitsNorm => armPackbitsNorm u x
  | .packbitsMergebyte => armPackbitsMergebyte u x
  | .approx => armApprox u x
  | .twoCycleDp => armTwoCycleDp u x
  | .cmpdp => armCmpdp u x
  | .addsubdp => armAddsubdp u x
  | .mpydp => armMpydp u x
  | .dpConvert => armDpConvert u x
  | .intdp => armIntdp u x
  | .mpyi => armMpyi u x
  | .mpy2Gmpy4 => armMpy2Gmpy4 u x
  | .gmpyWord => armGmpyWord u x
  | .dmv => armDmv x
  | .rpack2 => armRpack2 x
  | .sat40 => armSat40 u x
  | .subc => armSubc u x
  | .abs => armAbs u x
  | .cmpLong => armCmpLong x
  | .shiftLong => armShiftLong u x
  | .bNrp => armBNrp x
  | .bpos => armBpos x

/-- `CdjC674xArmEntry`, its `also` predicate as a function of the word. -/
structure ArmEntry where
  mask : Word
  pattern : Word
  also : Arithmetic → Word → Bool
  arm : ArmName


/-- A row without an `also` predicate. -/
def always (_ : Arithmetic) (_ : Word) : Bool := true

def matchDAdda (_ : Arithmetic) (w : Word) : Bool := 0x30 ≤ field w 7 6 ∧ field w 7 6 ≤ 0x3d

def matchDAddsub (_ : Arithmetic) (w : Word) : Bool := 0x10 ≤ field w 7 6 ∧ field w 7 6 ≤ 0x13

def matchLLongAddsub (_ : Arithmetic) (w : Word) : Bool :=
  field w 5 7 ∈ [0x20, 0x21, 0x23, 0x24, 0x27, 0x29, 0x2b, 0x2f, 0x37, 0x3f]

def matchMpy32Scalar (_ : Arithmetic) (w : Word) : Bool := field w 7 5 ∈ [0x10, 0x14, 0x16]

def matchMpy32Packed (_ : Arithmetic) (w : Word) : Bool := field w 6 5 ∈ [0x18, 0x19]

def matchMpy16 (_ : Arithmetic) (w : Word) : Bool :=
  field w 7 5 ∈ [0x19, 0x18, 0x01, 0x09, 0x0f, 0x0b, 0x03, 0x07, 0x0d, 0x05, 0x11, 0x17,
    0x13, 0x15, 0x1b, 0x1e, 0x1f, 0x1d]

def matchSmpy16Scalar (_ : Arithmetic) (w : Word) : Bool :=
  field w 7 5 ∈ [0x1a, 0x02, 0x0a, 0x12]

def matchSmpy16Packed (_ : Arithmetic) (w : Word) : Bool := field w 6 5 = 0x01

def matchMpyHalf32 (_ : Arithmetic) (w : Word) : Bool := field w 6 5 ∈ [0x0e, 0x10, 0x14, 0x15]

def matchCmpsp (_ : Arithmetic) (w : Word) : Bool := 0x38 ≤ field w 6 6 ∧ field w 6 6 ≤ 0x3a

def matchSrc1Zero (_ : Arithmetic) (w : Word) : Bool := field w 13 5 = 0

def matchCmpy (u : Arithmetic) (w : Word) : Bool :=
  (u.cmpy (field w 6 5) 0 0 0).valid || (u.mpy32Nonconditional (field w 6 5) 0 0).valid

def matchDotp (_ : Arithmetic) (w : Word) : Bool :=
  field w 6 5 ∈ [0x02, 0x06, 0x07, 0x09, 0x0b, 0x0c, 0x0d]

def matchMpyi (_ : Arithmetic) (w : Word) : Bool := field w 7 5 ∈ [0x04, 0x06, 0x08, 0x0c]

def matchMpy2Gmpy4 (_ : Arithmetic) (w : Word) : Bool := field w 6 5 ∈ [0x00, 0x11]

def matchGmpyWord (_ : Arithmetic) (w : Word) : Bool := field w 6 5 ∈ [0x1b, 0x1f]


def memoryAndMultiplyArms : List ArmEntry := [
  ⟨0x00000ffc, 0x00000618, always, .satLong⟩,
  ⟨0x00000ffc, 0x00000638, always, .satLong⟩,
  ⟨0x00000ffc, 0x00000598, always, .satLong⟩,
  ⟨0x00000ffc, 0x00000278, always, .satScalar⟩,
  ⟨0x00000ffc, 0x00000258, always, .satScalar⟩,
  ⟨0x00000ffc, 0x000001f8, always, .satScalar⟩,
  ⟨0x00000ffc, 0x000003f8, always, .satScalar⟩,
  ⟨0x00000ffc, 0x000001d8, always, .satScalar⟩,
  ⟨0x00000ffc, 0x00000820, always, .satScalar⟩,
  ⟨0x00000ffc, 0x000008e0, always, .satScalar⟩,
  ⟨0x00000ffc, 0x000008a0, always, .satScalar⟩,
  ⟨0x0000000c, 0x0000000c, always, .scalarMemory⟩,
  ⟨0x0000010c, 0x00000004, always, .scalarMemory⟩,
  ⟨0x0000017c, 0x00000134, always, .scalarMemory⟩,
  ⟨0x0000017c, 0x00000154, always, .scalarMemory⟩,
  ⟨0x0000017c, 0x00000124, always, .scalarMemory⟩,
  ⟨0x0000017c, 0x00000174, always, .scalarMemory⟩,
  ⟨0x0000017c, 0x00000164, always, .scalarMemory⟩,
  ⟨0x0000017c, 0x00000144, always, .scalarMemory⟩,
  ⟨0x0000007c, 0x00000050, always, .addk⟩,
  ⟨0x0000007c, 0x00000028, always, .mvkS⟩,
  ⟨0x0000007c, 0x00000068, always, .mvkh⟩,
  ⟨0x0000007c, 0x00000040, matchDAdda, .dAdda⟩,
  ⟨0x0000007c, 0x00000040, matchDAddsub, .dAddsub⟩,
  ⟨0x00000ffc, 0x00000ab0, always, .dAddsubCross⟩,
  ⟨0x00000ffc, 0x00000af0, always, .dAddsubCross⟩,
  ⟨0x00000ffc, 0x00000b30, always, .dAddsubCross⟩,
  ⟨0x007c1ffc, 0x00000040, always, .mvkD⟩,
  ⟨0x0003effc, 0x0000a358, always, .mvkL⟩,
  ⟨0x0000001c, 0x00000018, matchLLongAddsub, .lLongAddsub⟩,
  ⟨0x0000007c, 0x00000000, matchMpy32Scalar, .mpy32⟩,
  ⟨0x0000083c, 0x00000030, matchMpy32Packed, .mpy32⟩,
  ⟨0x0000007c, 0x00000000, matchMpy16, .mpy16⟩,
  ⟨0x0000007c, 0x00000000, matchSmpy16Scalar, .smpy16⟩,
  ⟨0x0000083c, 0x00000030, matchSmpy16Packed, .smpy16⟩,
  ⟨0x0000083c, 0x00000030, matchMpyHalf32, .mpyHalf32⟩]

def floatAndLogicalArms : List ArmEntry := [
  ⟨0x0003effc, 0x000340f0, always, .mvd⟩,
  ⟨0x0003cffc, 0x00000958, always, .intsp⟩,
  ⟨0x0003cffc, 0x00000938, always, .intsp⟩,
  ⟨0x0003cffc, 0x00000158, always, .spint⟩,
  ⟨0x0003cffc, 0x00000178, always, .spint⟩,
  ⟨0x0003effc, 0x00000f20, always, .abssp⟩,
  ⟨0x0000003c, 0x00000020, matchCmpsp, .cmpsp⟩,
  ⟨0x00000ffc, 0x00000218, always, .addsubsp⟩,
  ⟨0x00000ffc, 0x00000e18, always, .addsubsp⟩,
  ⟨0x00000ffc, 0x00000238, always, .addsubsp⟩,
  ⟨0x00000ffc, 0x000002b8, always, .addsubsp⟩,
  ⟨0x00000ffc, 0x00000e38, always, .addsubsp⟩,
  ⟨0x00000ffc, 0x00000eb8, always, .addsubsp⟩,
  ⟨0x00000ffc, 0x00000e00, always, .mpysp⟩,
  ⟨0x00000ffc, 0x00000018, always, .pack⟩,
  ⟨0x00000ffc, 0x00000ff0, always, .pack⟩,
  ⟨0x00000ffc, 0x000003d8, always, .pack⟩,
  ⟨0x00000ffc, 0x00000260, always, .pack⟩,
  ⟨0x00000ffc, 0x00000398, always, .pack⟩,
  ⟨0x00000ffc, 0x00000220, always, .pack⟩,
  ⟨0x00000ffc, 0x00000378, always, .pack⟩,
  ⟨0x00000ffc, 0x00000420, always, .pack⟩,
  ⟨0x00000ffc, 0x00000d18, always, .pack⟩,
  ⟨0x00000ffc, 0x00000d38, always, .pack⟩,
  ⟨0x00000ffc, 0x00000f98, always, .andn⟩,
  ⟨0x00000ffc, 0x00000db0, always, .andn⟩,
  ⟨0x00000ffc, 0x00000830, always, .andn⟩,
  ⟨0x00000ffc, 0x000007a0, always, .andImm⟩,
  ⟨0x00000ffc, 0x00000f58, always, .andImm⟩,
  ⟨0x00000ffc, 0x000009f0, always, .andImm⟩,
  ⟨0x00000ffc, 0x000007e0, always, .andReg⟩,
  ⟨0x00000ffc, 0x00000f78, always, .andReg⟩,
  ⟨0x00000ffc, 0x000009b0, always, .andReg⟩,
  ⟨0x00000ffc, 0x00000058, always, .addImm⟩,
  ⟨0x00000ffc, 0x000001a0, always, .addImm⟩,
  ⟨0x00000ffc, 0x00000078, always, .addReg⟩,
  ⟨0x00000ffc, 0x000001e0, always, .addReg⟩,
  ⟨0x00000ffc, 0x000000d8, always, .subImm⟩,
  ⟨0x00000ffc, 0x000005a0, always, .subImm⟩,
  ⟨0x00000ffc, 0x000000f8, always, .subReg⟩,
  ⟨0x00000ffc, 0x000005e0, always, .subReg⟩,
  ⟨0x00000ffc, 0x000002f8, always, .subReverse⟩,
  ⟨0x00000ffc, 0x00000d70, always, .subReverse⟩,
  ⟨0x00000ffc, 0x00000a58, always, .cmp⟩,
  ⟨0x00000ffc, 0x00000a78, always, .cmp⟩,
  ⟨0x00000ffc, 0x000008d8, always, .cmp⟩,
  ⟨0x00000ffc, 0x000008f8, always, .cmp⟩,
  ⟨0x00000ffc, 0x000009d8, always, .cmp⟩,
  ⟨0x00000ffc, 0x000009f8, always, .cmp⟩,
  ⟨0x00000ffc, 0x00000ad8, always, .cmp⟩,
  ⟨0x00000ffc, 0x00000af8, always, .cmp⟩,
  ⟨0x00000ffc, 0x00000bd8, always, .cmp⟩,
  ⟨0x00000ffc, 0x00000bf8, always, .cmp⟩,
  ⟨0x00000ffc, 0x00000fd8, always, .orImm⟩,
  ⟨0x00000ffc, 0x000006a0, always, .orImm⟩,
  ⟨0x00000ffc, 0x000008f0, always, .orImm⟩,
  ⟨0x00000ffc, 0x00000ff8, always, .orReg⟩,
  ⟨0x00000ffc, 0x000006e0, always, .orReg⟩,
  ⟨0x00000ffc, 0x000008b0, always, .orReg⟩,
  ⟨0x00000ffc, 0x00000dd8, always, .xorImm⟩,
  ⟨0x00000ffc, 0x000002a0, always, .xorImm⟩,
  ⟨0x00000ffc, 0x00000bf0, always, .xorImm⟩,
  ⟨0x00000ffc, 0x00000df8, always, .xorReg⟩,
  ⟨0x00000ffc, 0x000002e0, always, .xorReg⟩,
  ⟨0x00000ffc, 0x00000bb0, always, .xorReg⟩]

def fieldAndBranchArms : List ArmEntry := [
  ⟨0x0000003c, 0x00000008, always, .bitfield⟩,
  ⟨0x00000afc, 0x00000ae0, always, .bitfield⟩,
  ⟨0x00000fbc, 0x000009a0, always, .shiftS⟩,
  ⟨0x00000fbc, 0x00000da0, always, .shiftS⟩,
  ⟨0x00000fbc, 0x00000ca0, always, .shiftS⟩,
  ⟨0x00000ffe, 0x000003e2, matchSrc1Zero, .mvcRead⟩,
  ⟨0x00000ffe, 0x000003a2, matchSrc1Zero, .mvcWrite⟩,
  ⟨0x0ffffffe, 0x001800e2, always, .bIrp⟩,
  ⟨0x0000007c, 0x00000010, always, .bDisp⟩,
  ⟨0x00001ffc, 0x00001020, always, .bdec⟩,
  ⟨0x00001ffc, 0x00000120, always, .bnopDisp⟩,
  ⟨0x0f830ffe, 0x00800362, always, .bnopReg⟩,
  ⟨0x0f83effe, 0x00000362, always, .bReg⟩,
  ⟨0x00001ffe, 0x00000162, always, .addkpc⟩]

def packedArms : List ArmEntry := [
  ⟨0xf000083c, 0x10000030, matchCmpy, .cmpy⟩,
  ⟨0x0000083c, 0x00000030, matchDotp, .dotp⟩,
  ⟨0x0003effc, 0x00008358, always, .packed16⟩,
  ⟨0x00000ffc, 0x00000060, always, .packed16⟩,
  ⟨0x00000ffc, 0x000000b8, always, .packed16⟩,
  ⟨0x00000ffc, 0x00000930, always, .packed16⟩,
  ⟨0x00000ffc, 0x00000460, always, .packed16⟩,
  ⟨0x00000ffc, 0x00000098, always, .packed16⟩,
  ⟨0x00000ffc, 0x00000970, always, .packed16⟩,
  ⟨0x00000ffc, 0x00000c30, always, .packed16⟩,
  ⟨0x00000ffc, 0x00000c98, always, .packed16⟩,
  ⟨0x00000ffc, 0x00000c70, always, .packed16⟩,
  ⟨0x00000ffc, 0x00000858, always, .packed16⟩,
  ⟨0x00000ffc, 0x00000f70, always, .packed16⟩,
  ⟨0x00000ffc, 0x00000838, always, .packed16⟩,
  ⟨0x00000ffc, 0x00000f30, always, .packed16⟩,
  ⟨0x00000ffc, 0x00000df0, always, .packed16⟩,
  ⟨0x00000ffc, 0x00000620, always, .packed16⟩,
  ⟨0x00000ffc, 0x00000e30, always, .packed16⟩,
  ⟨0x00000ffc, 0x00000660, always, .packed16⟩,
  ⟨0x00000ffc, 0x00000760, always, .packed16⟩,
  ⟨0x00000ffc, 0x00000520, always, .packed16⟩,
  ⟨0x00000ffc, 0x00000cb0, always, .packed16⟩,
  ⟨0x00000ffc, 0x000004f0, always, .packed16M⟩,
  ⟨0x00000ffc, 0x00000730, always, .packed16M⟩,
  ⟨0x00000ffc, 0x000006b0, always, .packed16M⟩,
  ⟨0x00000ffc, 0x00000cb8, always, .packed8⟩,
  ⟨0x00000ffc, 0x00000cd8, always, .packed8⟩,
  ⟨0x00000ffc, 0x00000b58, always, .packed8⟩,
  ⟨0x00000ffc, 0x00000cf0, always, .packed8⟩,
  ⟨0x00000ffc, 0x00000878, always, .packed8⟩,
  ⟨0x00000ffc, 0x00000918, always, .packed8⟩,
  ⟨0x00000ffc, 0x00000720, always, .packed8⟩,
  ⟨0x00000ffc, 0x00000560, always, .packed8⟩,
  ⟨0x00000ffc, 0x00000d30, always, .packed8⟩,
  ⟨0x00000ffc, 0x000004b0, always, .packed8⟩,
  ⟨0x00000ffc, 0x00000130, always, .packed8⟩,
  ⟨0x00000ffc, 0x00000170, always, .packed8⟩]

def bitAndDoubleArms : List ArmEntry := [
  ⟨0xf0000ffc, 0x10000198, always, .packbitsDual⟩,
  ⟨0xf0000ffc, 0x100001b8, always, .packbitsDual⟩,
  ⟨0xf0000ffc, 0x100001d8, always, .packbitsDual⟩,
  ⟨0xf0000ffc, 0x100001f8, always, .packbitsDual⟩,
  ⟨0x0003effc, 0x00006358, always, .packbitsUnpack⟩,
  ⟨0x0003effc, 0x00006f20, always, .packbitsUnpack⟩,
  ⟨0x0003effc, 0x00004358, always, .packbitsUnpack⟩,
  ⟨0x0003effc, 0x00004f20, always, .packbitsUnpack⟩,
  ⟨0x0003effc, 0x00002358, always, .packbitsUnpack⟩,
  ⟨0x0003effc, 0x0003e0f0, always, .packbitsM⟩,
  ⟨0x0003effc, 0x0003c0f0, always, .packbitsM⟩,
  ⟨0x0003effc, 0x0003a0f0, always, .packbitsM⟩,
  ⟨0x0003effc, 0x000380f0, always, .packbitsM⟩,
  ⟨0x0003effc, 0x000320f0, always, .packbitsM⟩,
  ⟨0x0003effc, 0x000300f0, always, .packbitsM⟩,
  ⟨0x00000ffc, 0x00000770, always, .packbitsM⟩,
  ⟨0x00000ffc, 0x000007b0, always, .packbitsM⟩,
  ⟨0x00000ffc, 0x00000d58, always, .packbitsLmbd⟩,
  ⟨0x00000ffc, 0x00000d78, always, .packbitsLmbd⟩,
  ⟨0x0003effc, 0x00000c78, always, .packbitsNorm⟩,
  ⟨0x0003effc, 0x00000c18, always, .packbitsNorm⟩,
  ⟨0x00000ffc, 0x00000c38, always, .packbitsMergebyte⟩,
  ⟨0x00000ffc, 0x00000e70, always, .packbitsMergebyte⟩,
  ⟨0x00000ffc, 0x00000c58, always, .packbitsMergebyte⟩,
  ⟨0x00000ffc, 0x00000eb0, always, .packbitsMergebyte⟩,
  ⟨0xf0800ffc, 0x10000698, always, .packbitsDual⟩,
  ⟨0xf0800ffc, 0x10000678, always, .packbitsDual⟩,
  ⟨0xf0000ffc, 0x100006d8, always, .packbitsDual⟩,
  ⟨0x00000ffc, 0x00000f60, always, .approx⟩,
  ⟨0x00000ffc, 0x00000fa0, always, .approx⟩,
  ⟨0x00000ffc, 0x00000b60, always, .approx⟩,
  ⟨0x00000ffc, 0x00000ba0, always, .approx⟩,
  ⟨0x0003effc, 0x00000b20, always, .twoCycleDp⟩,
  ⟨0x0003effc, 0x000000a0, always, .twoCycleDp⟩,
  ⟨0x00000ffc, 0x00000a20, always, .cmpdp⟩,
  ⟨0x00000ffc, 0x00000a60, always, .cmpdp⟩,
  ⟨0x00000ffc, 0x00000aa0, always, .cmpdp⟩,
  ⟨0x00000ffc, 0x00000318, always, .addsubdp⟩,
  ⟨0x00000ffc, 0x00000e58, always, .addsubdp⟩,
  ⟨0x00000ffc, 0x00000338, always, .addsubdp⟩,
  ⟨0x00000ffc, 0x000003b8, always, .addsubdp⟩,
  ⟨0x00000ffc, 0x00000e78, always, .addsubdp⟩,
  ⟨0x00000ffc, 0x00000ef8, always, .addsubdp⟩,
  ⟨0x00000ffc, 0x00000700, always, .mpydp⟩,
  ⟨0x00000ffc, 0x000005b0, always, .mpydp⟩,
  ⟨0x00000ffc, 0x000005f0, always, .mpydp⟩,
  ⟨0x00000ffc, 0x00000138, always, .dpConvert⟩,
  ⟨0x00000ffc, 0x00000118, always, .dpConvert⟩,
  ⟨0x00000ffc, 0x00000038, always, .dpConvert⟩,
  ⟨0x0003effc, 0x00000738, always, .intdp⟩,
  ⟨0x0003effc, 0x00000778, always, .intdp⟩]

def longArms : List ArmEntry := [
  ⟨0x0000007c, 0x00000000, matchMpyi, .mpyi⟩,
  ⟨0x0000083c, 0x00000030, matchMpy2Gmpy4, .mpy2Gmpy4⟩,
  ⟨0xf000083c, 0x10000030, matchGmpyWord, .gmpyWord⟩,
  ⟨0x00000ffc, 0x00000ef0, always, .dmv⟩,
  ⟨0xf0000ffc, 0x10000ef0, always, .rpack2⟩,
  ⟨0x0003effc, 0x00000818, always, .sat40⟩,
  ⟨0x00000ffc, 0x00000978, always, .subc⟩,
  ⟨0x0003effc, 0x00000358, always, .abs⟩,
  ⟨0x0003effc, 0x00000718, always, .abs⟩,
  ⟨0x00000fdc, 0x00000a18, always, .cmpLong⟩,
  ⟨0x00000fdc, 0x00000898, always, .cmpLong⟩,
  ⟨0x00000fdc, 0x00000998, always, .cmpLong⟩,
  ⟨0x00000fdc, 0x00000a98, always, .cmpLong⟩,
  ⟨0x00000fdc, 0x00000b98, always, .cmpLong⟩,
  ⟨0x00000fbc, 0x00000c20, always, .shiftLong⟩,
  ⟨0x00000fbc, 0x000004a0, always, .shiftLong⟩,
  ⟨0x00000fbc, 0x00000d20, always, .shiftLong⟩,
  ⟨0x00000fbc, 0x00000920, always, .shiftLong⟩,
  ⟨0x0ffffffe, 0x001c00e2, always, .bNrp⟩,
  ⟨0x00001ffc, 0x00000020, always, .bpos⟩]

/-- `cdj_c674x_arms`, in table order. -/
def arms : List ArmEntry :=
  memoryAndMultiplyArms ++ floatAndLogicalArms ++ fieldAndBranchArms ++ packedArms ++
    bitAndDoubleArms ++ longArms

/-- Whether a row claims the word. A word with the nonconditional opcode field is
left to the rows that constrain that field. -/
def ArmEntry.claims (entry : ArmEntry) (u : Arithmetic) (w : Word) : Bool :=
  !(w >>> 28 = 1#32 ∧ entry.mask >>> 28 ≠ 0xf#32) && w &&& entry.mask = entry.pattern &&
    entry.also u w

def armLookup (u : Arithmetic) (w : Word) : Option ArmName :=
  (arms.find? fun entry ↦ entry.claims u w).map ArmEntry.arm

end Cdj2000Emulator.C674x.Dispatch
