import Cdj2000Emulator.Library.Bytes
import Cdj2000Emulator.Edma.Model

namespace Cdj2000Emulator.Checkpoint.Layout

open Library.Bytes
open Library.Bytes.Block (get put slice zeros)

abbrev Word := BitVec 32

/-! ### `CdjDspCheckpointState` as the image a file holds

The offsets are those of the structure on the ABI that the size assertions of the source pin. -/

def stateSize : ℕ := 15808

abbrev Image := Block stateSize

def bootPhase : ℕ := 4
def resetReleased : ℕ := 32
def dspStarted : ℕ := 33
def dspHalted : ℕ := 34
def hadFault : ℕ := 35
def stopReason : ℕ := 36
def reasonSize : ℕ := 64
def fault : ℕ := 100
def faultSize : ℕ := 96
def cpu : ℕ := 200
def intc : ℕ := 8020
def timers : ℕ := 8080
def spis : ℕ := 8280
def cache : ℕ := 8448
def mcaspControl : ℕ := 9520
def edma : ℕ := 11432
def syscfgPriority : ℕ := 15688
def intcDelivery : ℕ := 15700
def wm8740 : ℕ := 15704
def spiTransfer : ℕ := 15736
def scheduler : ℕ := 15776

def sizeofC674x : ℕ := 6592
def sizeofSyscfg : ℕ := 112
def sizeofPsc : ℕ := 784
def sizeofMcasp : ℕ := 36
def sizeofGpio : ℕ := 84
def sizeofI2c : ℕ := 32
def sizeofPll : ℕ := 144
def sizeofHpi : ℕ := 6
def sizeofEmifb : ℕ := 28
def sizeofIntc : ℕ := 60
def sizeofTimer : ℕ := 100
def timerCount : ℕ := 2
def sizeofSpi : ℕ := 84
def spiCount : ℕ := 2
def sizeofCache : ℕ := 1072
def sizeofMcaspControl : ℕ := 1912
def sizeofEdma : ℕ := 4256
def sizeofSyscfgPriority : ℕ := 12
def sizeofIntcDelivery : ℕ := 4
def sizeofWm8740 : ℕ := 32
def sizeofSpiTransfer : ℕ := 40
def sizeofScheduler : ℕ := 32

def cycleTick : ℕ := cpu + 416
def cycleOpaque : ℕ := cpu + 424
def branchCount : ℕ := cpu + 784
def cpuFault : ℕ := cpu + 792
def storeCount : ℕ := cpu + 1376
def loadCount : ℕ := cpu + 2984
def loopLength : ℕ := cpu + 3024 + 1732

section Fields

variable {n : ℕ}

/-- The unsigned number of `count` bytes at an offset. -/
def number (s : Block n) : (o count : ℕ) → ℕ
  | _, 0 => 0
  | o, count + 1 => (get s o).toNat + 256 * number s (o + 1) count

def u8 (s : Block n) (o : ℕ) : ℕ := number s o 1
def u16 (s : Block n) (o : ℕ) : BitVec 16 := BitVec.ofNat 16 (number s o 2)
def u32 (s : Block n) (o : ℕ) : Word := BitVec.ofNat 32 (number s o 4)
def u64 (s : Block n) (o : ℕ) : ℕ := number s o 8

/-- The word `i` of the array at an offset. -/
def element (s : Block n) (o i : ℕ) : Word := u32 s (o + 4 * i)

def setNumber (o count v : ℕ) (s : Block n) : Block n :=
  put o (fun i : Fin count ↦ (little count v).getD i 0) s

def set32 (o : ℕ) (v : Word) (s : Block n) : Block n := setNumber o 4 v.toNat s

def clear (o count : ℕ) (s : Block n) : Block n := put o (zeros : Block count) s

end Fields

/-- `snprintf(buffer, size, "%s", text)` with `buffer` at offset `o`: the text, cut to leave room
for the terminator; the bytes after the terminator stay. -/
def snprintf (o size : ℕ) (text : List Byte) (s : Image) : Image := fun i ↦
  let stop := min text.length (size - 1)
  if i < o then s i else if i < o + stop then text.getD (i - o) 0
  else if i = o + stop then 0 else s i

/-- `string` gives the text that a pointer of the process leads to. -/
def prepare (string : ℕ → List Byte) (reason : Option (List Byte)) (s : Image) : Image :=
  let pointer := u64 s cpuFault
  let text := if pointer = 0 then [] else string pointer
  (s |> setNumber hadFault 1 (if pointer = 0 then 0 else 1)
    |> snprintf fault faultSize text
    |> snprintf stopReason reasonSize (reason.getD [])
    |> clear cycleTick 8 |> clear cycleOpaque 8 |> clear cpuFault 8)

/-- No bit of the register outside the mask is set. -/
def masked (s : Image) (o : ℕ) (mask : Word) : Bool := u32 s o &&& ~~~mask == 0

def timerValid (s : Image) (t : ℕ) : Bool :=
  decide (u8 s (t + 96) ≤ 1) && masked s t 3 && masked s (t + 4) 0x00030033 &&
  masked s (t + 8) 0x00030003 && masked s (t + 32) 0x04c03ffe && masked s (t + 36) 0x0000ff1f &&
  masked s (t + 40) 0xffffc000 && masked s (t + 60) 0x000f000f

def spiPinMask : Word := 0x00000f01

def spiValid (s : Image) (p : ℕ) : Bool :=
  decide (u8 s (p + 80) ≤ 1) && decide (u8 s (p + 81) ≤ 1) &&
  masked s p 1 && masked s (p + 4) 0x01010103 &&
  u32 s (p + 4) &&& 3#32 != 1 && u32 s (p + 4) &&& 3#32 != 2 &&
  masked s (p + 8) 0x0101035f && masked s (p + 12) 0x0000035f && masked s (p + 16) 0x0000035f &&
  masked s (p + 20) spiPinMask && masked s (p + 24) spiPinMask && masked s (p + 28) spiPinMask &&
  masked s (p + 32) spiPinMask && masked s (p + 36) spiPinMask &&
  masked s (p + 40) 0xffff && masked s (p + 44) 0x1701ffff && masked s (p + 48) 0xffff &&
  masked s (p + 52) 0x5f000000 && masked s (p + 60) 0xff &&
  (List.range 4).all fun format ↦ masked s (p + 64 + 4 * format) 0x3ff7ff1f

def cacheValid (s : Image) : Bool :=
  masked s cache 0xf && masked s (cache + 4) 7 && masked s (cache + 8) 0x00010001 &&
  masked s (cache + 12) 7 && masked s (cache + 16) 0x00010001 &&
  (List.range 256).all fun i ↦ masked s (cache + 48 + 4 * i) 1

def wm8740Valid (s : Image) : Bool :=
  decide (u16 s wm8740 ≤ 0x1ff) && decide (u16 s (wm8740 + 2) ≤ 0x1ff) &&
  decide (u16 s (wm8740 + 4) ≤ 0x1ff) && u16 s (wm8740 + 6) &&& ~~~0x1df#16 == 0 &&
  u16 s (wm8740 + 8) &&& ~~~0x70#16 == 0 && decide (u8 s (wm8740 + 26) ≤ 1)

def wm8740WordValid (control : Word) : Bool :=
  let address := ((control >>> 9) &&& 7#32).toNat
  control &&& 0xffff0000#32 == 0 && (decide (address ≤ 3) || address == 6)

def transferWordValid (control format delay : Word) : Bool :=
  wm8740WordValid control && format == 0x00021810 && delay == 0x02020408

/-- `cdj_c6747_spi_transfer_valid`; the phases are idle, C2T, shift, T2C and gap. -/
def spiTransferValid (s : Image) : Bool :=
  let field := fun i ↦ u32 s (spiTransfer + i)
  let phase := u8 s (spiTransfer + 32)
  let queuedValid := u8 s (spiTransfer + 33)
  let txFull := u8 s (spiTransfer + 34)
  let active := phase != 0
  let shiftingWord := decide (1 ≤ phase) && decide (phase ≤ 3)
  decide (phase ≤ 4) && decide (queuedValid ≤ 1) && decide (txFull ≤ 1) &&
  decide (u8 s (spiTransfer + 35) ≤ 1) && decide (u8 s (spiTransfer + 36) ≤ 1) &&
  ((List.range 3).all fun i ↦ u8 s (spiTransfer + 37 + i) == 0) &&
  active == (field 4 != 0) &&
  shiftingWord == transferWordValid (field 8) (field 12) (field 16) &&
  (shiftingWord || (field 8 == 0 && field 12 == 0 && field 16 == 0)) &&
  (queuedValid != 0) == transferWordValid (field 20) (field 24) (field 28) &&
  (queuedValid != 0 || (field 20 == 0 && field 24 == 0 && field 28 == 0 && txFull == 0)) &&
  (queuedValid == 0 || active) && !(txFull != 0 && decide (3 ≤ phase))

def modeLegacy : ℕ := 0
def modeDeferredV1 : ℕ := 1
def activationSteps : ℕ := 1000000
def sliceSteps : ℕ := 4096

def schedulerValid (s : Image) : Bool :=
  let activation := u64 s scheduler
  let slice := u64 s (scheduler + 8)
  let remaining := (u32 s (scheduler + 16)).toNat
  let steps := (u32 s (scheduler + 20)).toNat
  let pending := u8 s (scheduler + 24)
  let rearm := u8 s (scheduler + 25)
  let mode := u8 s (scheduler + 26)
  if u8 s (scheduler + 27) ≠ 0 ∨ 1 < pending ∨ 1 < rearm then false
  else if mode = modeLegacy then
    decide (activation = 0 ∧ slice = 0 ∧ remaining = 0 ∧ steps = 0 ∧ pending = 0 ∧ rearm = 0)
  else if mode ≠ modeDeferredV1 ∨ steps ≠ sliceSteps ∨ activationSteps < remaining ∨
      pending ≠ (if remaining = 0 then 0 else 1) ∨ (rearm ≠ 0 ∧ pending = 0) then false
  else if activation = 0 then decide (slice = 0 ∧ remaining = 0 ∧ pending = 0 ∧ rearm = 0)
  else if slice = 0 ∧ remaining ≠ activationSteps then false
  else if remaining ≠ 0 ∧ (activationSteps - remaining) % steps ≠ 0 then false
  else true

def serializerCount (b : ℕ) : ℕ := [16, 12, 4].getD b 0

def legalXfmt (value : Word) : Bool :=
  let slotSize := ((value >>> 4) &&& 15#32).toNat
  value &&& ~~~0x3ffff#32 == 0 && value >>> 16 != 3 && (value >>> 13) &&& 3#32 != 3 &&
  decide (3 ≤ slotSize) && slotSize % 2 == 1

def legalAfsxctl (value : Word) : Bool :=
  let mode := (value >>> 7).toNat
  value &&& ~~~0xff93#32 == 0 &&
  (mode == 0 || (decide (2 ≤ mode) && decide (mode ≤ 0x20)) || mode == 0x180)

def legalDlbctl (value : Word) : Bool :=
  let mode := ((value >>> 2) &&& 3#32).toNat
  if value &&& ~~~0xf#32 ≠ 0 then false
  else if value &&& 1#32 ≠ 0 then mode == 1 else mode == 0

def legalSrctl (value : Word) : Bool :=
  value &&& ~~~0xf#32 == 0 && value &&& 3#32 != 3 && (value >>> 2) &&& 3#32 != 1

def srctl (s : Image) (b n : ℕ) : Word := element s (mcaspControl + 456 + 64 * b) n

def activeTxMask (s : Image) (b : ℕ) : Word :=
  (List.range (serializerCount b)).foldl
    (fun mask n ↦ if srctl s b n &&& 3#32 = 1 then mask ||| BitVec.twoPow 32 n else mask) 0

def serializerValid (s : Image) (b n : ℕ) : Bool :=
  let xbuf := element s (mcaspControl + 660 + 64 * b) n
  let xbufSequence := u64 s (mcaspControl + 864 + 128 * b + 8 * n)
  let xrsr := element s (mcaspControl + 1296 + 64 * b) n
  let sourceSequence := u64 s (mcaspControl + 1504 + 128 * b + 8 * n)
  if n < serializerCount b then
    decide (xbufSequence ≤ u64 s (mcaspControl + 1248 + 8 * b)) &&
    decide (sourceSequence ≤ xbufSequence) && (sourceSequence != 0 || xrsr == 0) &&
    legalSrctl (srctl s b n) &&
    !((element s (mcaspControl + 648) b).getLsbD n && srctl s b n &&& 3#32 != 1)
  else
    srctl s b n == 0 && xbuf == 0 && xbufSequence == 0 && xrsr == 0 && sourceSequence == 0

/-- `cdj_c6747_mcasp_control_valid` for one instance. -/
def mcaspValid (s : Image) (b : ℕ) : Bool :=
  let register := fun o ↦ element s (mcaspControl + o) b
  decide (register 0 ≤ 1) && register 12 &&& ~~~0x1f1f#32 == 0 &&
  register 24 &&& ~~~0x1fef#32 == 0 && register 24 &&& 3#32 != 3 &&
  legalDlbctl (register 36) && register 48 &&& ~~~0x0d#32 == 0 &&
  (register 72 == 0 || legalXfmt (register 72)) && legalAfsxctl (register 84) &&
  register 96 &&& ~~~0xff#32 == 0 && register 108 &&& ~~~0xcfff#32 == 0 &&
  register 132 &&& ~~~0xbf#32 == 0 && register 144 &&& ~~~0xf7#32 == 0 &&
  register 156 &&& ~~~0x00ffff0f#32 == 0 && decide (register 156 &&& 0xf#32 ≤ 8) &&
  register 648 &&& ~~~(BitVec.twoPow 32 (serializerCount b) - 1) == 0 &&
  decide ((register 852).toNat ≤ serializerCount b) &&
  (register 144 &&& 0x20#32 == 0 || register 648 &&& activeTxMask s b != 0) &&
  decide (register 1488 ≤ 0x17f) &&
  (List.range 16).all fun n ↦ serializerValid s b n

def mcaspControlValid (s : Image) : Bool := (List.range 3).all (mcaspValid s)

def edmaValid (s : Image) : Bool :=
  let register := fun o ↦ u32 s (edma + o)
  ((List.range 8).all fun q ↦ Edma.Model.legalQchmap (element s (edma + 4096) q)) &&
  ((List.range 4).all fun n ↦ Edma.Model.legalQueueMap (element s (edma + 4128) n)) &&
  Edma.Model.legalQueueMap (register 4144) && register 4148 &&& ~~~0x1f1f#32 == 0 &&
  register 4204 &&& ~~~0xff#32 == 0 && register 4208 &&& ~~~0xff#32 == 0 &&
  register 4212 &&& ~~~0xff#32 == 0 && register 4232 &&& ~~~0xff#32 == 0 &&
  register 4224 &&& ~~~0xf#32 == 0 && register 4236 &&& ~~~0x00030003#32 == 0 &&
  ((List.range 4).all fun r ↦ element s (edma + 4168) r &&& ~~~0xff#32 == 0) &&
  (List.range 128).all fun p ↦
    Edma.Model.legalOpt (element s (edma + 32 * p) 0) &&
    element s (edma + 32 * p) 7 &&& 0xffff0000#32 == 0

def mstpriReset : List Word := [0x44442222, 0x44440000, 0x54604404]
def mstpriWritable : List Word := [0x00007700, 0x00007777, 0x77707707]

def syscfgPriorityValid (s : Image) : Bool :=
  (List.range 3).all fun i ↦
    element s syscfgPriority i &&& ~~~mstpriWritable.getD i 0 ==
      mstpriReset.getD i 0 &&& ~~~mstpriWritable.getD i 0

def intcValid (s : Image) : Bool :=
  u32 s intc &&& 0xf#32 == 0 && u32 s (intc + 16) &&& 0xf#32 == 0xf &&
  u32 s (intc + 32) &&& 0xf#32 == 0xf &&
  (List.range 3).all fun i ↦ element s (intc + 48) i &&& 0x80808080#32 == 0

def stateValid (s : Image) : Bool :=
  ((List.range timerCount).all fun i ↦ timerValid s (timers + sizeofTimer * i)) &&
  ((List.range spiCount).all fun i ↦ spiValid s (spis + sizeofSpi * i)) &&
  cacheValid s && wm8740Valid s && spiTransferValid s && schedulerValid s &&
  mcaspControlValid s && edmaValid s && syscfgPriorityValid s &&
  u32 s intcDelivery &&& ~~~0xfff0#32 == 0 &&
  decide (u32 s bootPhase ≤ 7) && decide (u8 s resetReleased ≤ 1) &&
  decide (u8 s dspStarted ≤ 1) && decide (u8 s dspHalted ≤ 1) && decide (u8 s hadFault ≤ 1) &&
  u64 s cycleTick == 0 && u64 s cycleOpaque == 0 && u64 s cpuFault == 0 &&
  decide (u32 s branchCount ≤ 5) && decide (u32 s storeCount ≤ 24) &&
  decide (u32 s loadCount ≤ 40) && decide (u32 s loopLength ≤ 48) && intcValid s &&
  u8 s (stopReason + reasonSize - 1) == 0 && u8 s (fault + faultSize - 1) == 0

def intcReset : Block sizeofIntc :=
  zeros |> set32 16 0xf |> set32 32 0xffffffff |> set32 36 0xffffffff |> set32 40 0xffffffff
    |> set32 44 0xffffffff |> set32 48 0x07060504 |> set32 52 0x0b0a0908 |> set32 56 0x0f0e0d0c

def timersReset : Block (sizeofTimer * timerCount) := zeros

/-- `reset_one` of the SPIs, on cleared registers. -/
def spiReset : Block sizeofSpi := zeros |> set32 60 0xff |> setNumber 80 1 1

def spisReset : Block (sizeofSpi * spiCount) :=
  zeros |> put 0 spiReset |> put sizeofSpi spiReset

def cacheReset : Block sizeofCache := zeros |> set32 4 7 |> set32 12 7

def mcaspControlReset : Block sizeofMcaspControl :=
  (List.range 3).foldl (fun s b ↦
    s |> set32 (96 + 4 * b) 0x60 |> set32 (108 + 4 * b) 0x8000
      |> set32 (852 + 4 * b) (BitVec.ofNat 32 (serializerCount b))
      |> set32 (1488 + 4 * b) 0x17f) zeros

def edmaReset : Block sizeofEdma := zeros

def syscfgPriorityReset : Block sizeofSyscfgPriority :=
  (List.range 3).foldl (fun s i ↦ set32 (4 * i) (mstpriReset.getD i 0) s) zeros

def intcDeliveryReset : Block sizeofIntcDelivery := zeros

def wm8740Reset : Block sizeofWm8740 :=
  zeros |> setNumber 0 2 0xff |> setNumber 2 2 0xff |> setNumber 24 1 0xff |> setNumber 25 1 0xff

def spiTransferReset : Block sizeofSpiTransfer := zeros

def schedulerReset : Block sizeofScheduler :=
  zeros |> set32 20 (BitVec.ofNat 32 sliceSteps) |> setNumber 26 1 modeDeferredV1

end Cdj2000Emulator.Checkpoint.Layout
