import Cdj2000Emulator.Mcasp.Control
import Mathlib.Algebra.Group.Nat.Defs
import Mathlib.Tactic.MkIffOfInductiveProp

namespace Cdj2000Emulator.Mcasp.Control

namespace Bank

/-- `cdj_c6747_mcasp_control_valid`, for one instance. -/
structure Valid (s : Bank) (count : ℕ) : Prop where
  undocumented04 : s.undocumented04 ≤ 1
  gblctl : s.gblctl &&& ~~~0x1f1f#32 = 0
  amute : s.amute &&& ~~~0x1fef#32 = 0 ∧ s.amute &&& 3#32 ≠ 3
  dlbctl : legalDlbctl s.dlbctl
  ditctl : s.ditctl &&& ~~~0x0d#32 = 0
  xfmt : s.xfmt ≠ 0 → legalXfmt s.xfmt
  afsxctl : legalAfsxctl s.afsxctl
  aclkxctl : s.aclkxctl &&& ~~~0xff#32 = 0
  ahclkxctl : s.ahclkxctl &&& ~~~0xcfff#32 = 0
  xintctl : s.xintctl &&& ~~~0xbf#32 = 0
  xstat : s.xstat &&& ~~~0xf7#32 = 0
  xclkchk : s.xclkchk &&& ~~~0x00ffff0f#32 = 0 ∧ (s.xclkchk &&& 0xf#32).toNat ≤ 8
  xrdy : s.xrdy &&& ~~~BitVec.ofNat 32 (2 ^ count - 1) = 0
  xdmaNext : s.xdmaNext ≤ count
  xdata : s.xstat &&& 0x20#32 ≠ 0 → s.xrdy &&& s.activeTxMask count ≠ 0
  written : ∀ n < count, s.xbufSequence n ≤ s.xbufWrites
  shifted : ∀ n < count, s.xrsrSourceSequence n ≤ s.xbufSequence n
  silent : ∀ n < count, s.xrsrSourceSequence n = 0 → s.xrsr n = 0
  xslot : s.xslot ≤ 0x17f
  absent : ∀ n < 16, count ≤ n → s.srctl n = 0 ∧ s.xbuf n = 0 ∧ s.xbufSequence n = 0 ∧
    s.xrsr n = 0 ∧ s.xrsrSourceSequence n = 0
  present : ∀ n < 16, n < count → legalSrctl (s.srctl n) ∧
    (s.xrdy.getLsbD n = true → s.srctl n &&& 3#32 = 1)

def frameSlots (s : Bank) : Option ℕ :=
  let mode := (s.afsxctl >>> 7).toNat
  if s.ditctl &&& 1#32 ≠ 0 then
    -- DIT has 384 subframes and no selection of slots
    if mode ≠ 0x180 ∨ s.xtdm ≠ BitVec.allOnes 32 then none else some 0x180
  else if mode < 2 ∨ 32 < mode then none
  else some mode

/-- A serializer takes the word of its buffer, in the loop of `cdj_c6747_mcasp_tx_slot`; without a
new one it runs dry. -/
def shiftOut (s : Bank) (underrun : Bool) (n : ℕ) : Bool × Bank :=
  if s.xrsrSourceSequence n < s.xbufSequence n then
    (underrun, { s with
      xrsr := Function.update s.xrsr n (s.xbuf n)
      xrsrSourceSequence := Function.update s.xrsrSourceSequence n (s.xbufSequence n) })
  else (true, s)

def shiftActive (active : Word) (count : ℕ) (s : Bank) : Bool × Bank :=
  (List.range count).foldl
    (fun r n ↦ if active &&& bit n = 0 then r else r.2.shiftOut r.1 n) (false, s)

/-- The slot after the current one in a frame of `slots`, if the current one is in it. -/
def nextSlot (s : Bank) (slots : ℕ) : Option ℕ :=
  let current := s.xslot.toNat
  if current ≠ 0x17f ∧ slots ≤ current then none
  else some (if current = 0x17f ∨ current + 1 = slots then 0 else current + 1)

def ActiveSlot (s : Bank) (next : ℕ) : Prop := s.ditctl &&& 1#32 ≠ 0 ∨ s.xtdm.getLsbD next = true

instance (s : Bank) (next : ℕ) : Decidable (s.ActiveSlot next) := inferInstanceAs (Decidable (_ ∨ _))

def transferBuffers (s : Bank) (count : ℕ) : Bank :=
  let (underrun, shifted) := s.shiftActive (s.activeTxMask count) count
  { shifted with
    xrdy := s.activeTxMask count
    xdmaNext := shifted.nextTxSerializer count 0
    xstat := (if underrun then shifted.xstat ||| 1#32 else shifted.xstat) ||| 0x20#32
    axevtGeneration := shifted.axevtGeneration + 1 }

/-- `cdj_c6747_mcasp_tx_slot`, for one instance: whether the slot raises AXEVT, and what it leaves. -/
def txSlot (s : Bank) (count : ℕ) : Option (Bool × Bank) :=
  if s.gblctl &&& 0x1f00#32 ≠ 0x1f00 ∨ s.activeTxMask count = 0 then none
  else match s.frameSlots.bind s.nextSlot with
    | none => none
    | some next =>
      if s.txSlotBoundaries = BitVec.allOnes 64 ∨
          s.ActiveSlot next ∧ s.axevtGeneration = BitVec.allOnes 64 then none
      else
        let entered : Bank := { s with
          xslot := BitVec.ofNat 32 next
          txSlotBoundaries := s.txSlotBoundaries + 1 }
        if s.ActiveSlot next then some (true, entered.transferBuffers count) else some (false, entered)

end Bank

def txSlot (s : C6747McaspControl) (inst : ℕ) : Option (Bool × C6747McaspControl) :=
  if 3 ≤ inst then none
  else ((s inst).txSlot (serializerCount inst)).map fun r ↦ (r.1, Function.update s inst r.2)

def ControlValid (s : C6747McaspControl) : Prop := ∀ b < 3, (s b).Valid (serializerCount b)

end Cdj2000Emulator.Mcasp.Control
