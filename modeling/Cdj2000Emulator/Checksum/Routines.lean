import Cdj2000Emulator.Library.Bytes
import Cdj2000Emulator.Library.CyclicCode

namespace Cdj2000Emulator.Checksum

open Library.Bytes Library.CyclicCode

/-- One shift in `cdj_link_crc`. -/
def linkShift (state : BitVec 32) : BitVec 32 :=
  let state := state <<< 1
  if state &&& (1#32 <<< 24) ≠ 0 then state ^^^ 0x01102100#32 else state

def cdjLinkCrc (data : List Byte) : BitVec 16 :=
  let state := data.foldl (fun state byte ↦ linkShift^[8] (state ||| byte.setWidth 32)) 0
  ((linkShift^[16] state >>> 8) &&& 0xffff#32).setWidth 16

def crcPolynomial : ℕ := 0x01102100

/-- One shift in `firmware_crc`. -/
def firmwareShift (state : ℕ) : ℕ :=
  let state := state <<< 1
  if state &&& (1 <<< 24) ≠ 0 then state ^^^ crcPolynomial else state

def firmwareCrc (data : List Byte) : ℕ :=
  let state := data.foldl (fun state byte ↦ firmwareShift^[8] (state ||| byte.toNat)) 0
  (firmwareShift^[16] state >>> 8) &&& 0xffff

def crcPoly : ℕ := 0x1021

/-- One shift in `crc16`. -/
def updateShift (crc : ℕ) : ℕ :=
  if crc &&& 0x8000 ≠ 0 then ((crc <<< 1) ^^^ crcPoly) &&& 0xffff else (crc <<< 1) &&& 0xffff

def crc16 (data : List Byte) : ℕ :=
  data.foldl (fun crc byte ↦ updateShift^[8] (crc ^^^ byte.toNat <<< 8)) 0

def messageBits (data : List Byte) : List Bool := data.flatMap (topBits 8)

theorem messageBits_append (data : List Byte) (byte : Byte) :
    messageBits (data ++ [byte]) = messageBits data ++ topBits 8 byte := by
  rw [messageBits, List.flatMap_append, List.flatMap_singleton, ← messageBits]

def xmodem (data : List Byte) : BitVec 16 := checksum 0x1021#16 (messageBits data)

/-- A register of the routines that feed from below: the check above the byte that moves in. -/
def packed (reg : BitVec 16) (low : Byte) : BitVec 32 := (reg ++ low).setWidth 32

theorem getLsbD_packed (reg : BitVec 16) (low : Byte) (i : ℕ) :
    (packed reg low).getLsbD i = if i < 8 then low.getLsbD i else reg.getLsbD (i - 8) := by
  rw [packed, BitVec.getLsbD_setWidth, BitVec.getLsbD_append]
  by_cases inside : i < 32
  · rw [decide_eq_true inside, Bool.true_and]
  · rw [if_neg (by omega), BitVec.getLsbD_of_ge reg _ (by omega), decide_eq_false inside, Bool.false_and]

theorem packed_xor (a b : BitVec 16) (c d : Byte) : packed a c ^^^ packed b d = packed (a ^^^ b) (c ^^^ d) := by
  refine BitVec.eq_of_getLsbD_eq fun i _ ↦ ?_
  simp only [BitVec.getLsbD_xor, getLsbD_packed]
  split_ifs <;> rfl

theorem packed_or (reg : BitVec 16) (byte : Byte) : packed reg 0 ||| byte.setWidth 32 = packed reg byte := by
  refine BitVec.eq_of_getLsbD_eq fun i inside ↦ ?_
  rw [BitVec.getLsbD_or, getLsbD_packed, getLsbD_packed, BitVec.getLsbD_setWidth, decide_eq_true inside]
  split_ifs with low
  · simp
  · rw [BitVec.getLsbD_of_ge byte i (by omega), Bool.and_false, Bool.or_false]

theorem packed_shift (reg : BitVec 16) (low : Byte) :
    packed reg low <<< 1 =
      packed ((reg <<< 1) ^^^ (BitVec.ofBool low.msb).setWidth 16) (low <<< 1) ^^^
        if reg.msb then 1#32 <<< 24 else 0 := by
  have carried : ∀ i, (if reg.msb then 1#32 <<< 24 else 0).getLsbD i = (decide (i = 24) && reg.msb) := by
    intro i
    cases reg.msb
    · simp
    · have one : 1#32 <<< 24 = BitVec.twoPow 32 24 := rfl
      rw [if_pos rfl, Bool.and_true, one, BitVec.getLsbD_twoPow, decide_eq_true (by decide), Bool.true_and]
      exact decide_eq_decide.mpr eq_comm
  refine BitVec.eq_of_getLsbD_eq fun i inside ↦ ?_
  rw [BitVec.getLsbD_xor, carried, BitVec.getLsbD_shiftLeft, decide_eq_true inside, getLsbD_packed,
    getLsbD_packed, BitVec.getLsbD_xor, BitVec.getLsbD_shiftLeft, BitVec.getLsbD_shiftLeft,
    BitVec.getLsbD_setWidth, BitVec.getLsbD_ofBool, BitVec.msb_eq_getLsbD_last, BitVec.msb_eq_getLsbD_last]
  by_cases first : i = 0
  · subst first; simp
  rcases (by omega : i < 8 ∨ i = 8 ∨ (8 < i ∧ i < 24) ∨ i = 24 ∨ 24 < i) with h | h | ⟨h, k⟩ | h | h
  · simp [h, first, show ¬ i = 24 by omega, show i - 1 < 8 by omega]
  · subst h; simp
  · have shift : i - 1 - 8 = i - 8 - 1 := by omega
    simp [first, shift, show ¬ i < 8 by omega, show ¬ i - 1 < 8 by omega, show ¬ i - 8 = 0 by omega,
      show ¬ i - 8 < 1 by omega, show ¬ i = 24 by omega, show i - 8 < 16 by omega]
  · subst h; simp
  · simp [first, show ¬ i < 8 by omega, show ¬ i - 1 < 8 by omega, show ¬ i = 24 by omega,
      show ¬ i - 8 < 16 by omega, show ¬ i - 8 = 0 by omega, BitVec.getLsbD_of_ge reg (i - 1 - 8) (by omega)]

theorem packed_falls (reg : BitVec 16) (low : Byte) :
    ((packed reg low <<< 1) &&& (1#32 <<< 24) ≠ 0) ↔ reg.msb = true := by
  have one : ∀ t : BitVec 32, t &&& (1#32 <<< 24) = if t.getLsbD 24 then 1#32 <<< 24 else 0 := by
    intro t
    have := BitVec.and_twoPow t 24
    simpa [BitVec.twoPow] using this
  have bit : (packed reg low <<< 1).getLsbD 24 = reg.msb := by
    rw [BitVec.getLsbD_shiftLeft, getLsbD_packed, BitVec.msb_eq_getLsbD_last]
    rfl
  rw [one, bit]
  cases reg.msb <;> decide

theorem linkShift_packed (reg : BitVec 16) (low : Byte) :
    linkShift (packed reg low) = packed (below 0x1021#16 reg low.msb) (low <<< 1) := by
  have poly : (1#32 <<< 24) ^^^ 0x01102100#32 = packed 0x1021#16 0 := by decide
  simp only [linkShift, packed_falls, below, reduce]
  rw [packed_shift]
  split_ifs
  · rw [BitVec.xor_assoc, poly, packed_xor, BitVec.xor_assoc, BitVec.xor_assoc, BitVec.xor_comm 0x1021#16]
    exact congrArg _ BitVec.xor_zero
  · exact BitVec.xor_zero

theorem linkShift_iterate (reg : BitVec 16) (low : Byte) (n : ℕ) :
    linkShift^[n] (packed reg low) = packed ((topBits n low).foldl (below 0x1021#16) reg) (low <<< n) := by
  induction n generalizing reg low with
  | zero => rw [BitVec.shiftLeft_zero]; rfl
  | succ n ih =>
    rw [Function.iterate_succ_apply, linkShift_packed, ih, topBits_succ, List.foldl_cons,
      ← BitVec.shiftLeft_add, Nat.add_comm]

theorem linkShift_fold (data : List Byte) :
    data.foldl (fun state byte ↦ linkShift^[8] (state ||| byte.setWidth 32)) 0 =
      packed ((messageBits data).foldl (below 0x1021#16) 0) 0 := by
  induction data using List.reverseRecOn with
  | nil => rfl
  | append_singleton data byte ih =>
    rw [List.foldl_append, List.foldl_cons, List.foldl_nil, ih, packed_or, linkShift_iterate,
      messageBits_append, List.foldl_append]
    exact congrArg _ (BitVec.shiftLeft_eq_zero le_rfl)

theorem linkShift_flush (reg : BitVec 16) :
    linkShift^[16] (packed reg 0) = packed ((List.replicate 16 false).foldl (below 0x1021#16) reg) 0 := by
  rw [linkShift_iterate, ← topBits_zero 16 (w := 8)]
  exact congrArg _ (BitVec.zero_shiftLeft 16)

theorem register_packed (reg : BitVec 16) : ((packed reg 0 >>> 8) &&& 0xffff#32).setWidth 16 = reg := by
  refine BitVec.eq_of_getLsbD_eq fun i inside ↦ ?_
  have mask : (0xffff#32).getLsbD i = true := by
    have : 0xffff#32 = (BitVec.allOnes 16).setWidth 32 := by decide
    rw [this, BitVec.getLsbD_setWidth, BitVec.getLsbD_allOnes, decide_eq_true inside, decide_eq_true (by omega)]
    rfl
  rw [BitVec.getLsbD_setWidth, decide_eq_true inside, BitVec.getLsbD_and, mask, BitVec.getLsbD_ushiftRight,
    getLsbD_packed, if_neg (by omega), Bool.true_and, Bool.and_true, Nat.add_sub_cancel_left]

theorem cdjLinkCrc_eq (data : List Byte) : cdjLinkCrc data = xmodem data := by
  simp only [cdjLinkCrc]
  rw [linkShift_fold, linkShift_flush, register_packed, ← List.foldl_append]
  exact below_flushed (by decide) _ _

theorem packed_lt (reg : BitVec 16) (low : Byte) : (packed reg low).toNat < 2 ^ 24 := by
  have := (reg ++ low).isLt
  rw [packed, BitVec.toNat_setWidth]
  exact (Nat.mod_le _ _).trans_lt this

theorem firmwareShift_toNat {s : BitVec 32} (h : s.toNat < 2 ^ 24) :
    firmwareShift s.toNat = (linkShift s).toNat := by
  have shifted : (s <<< 1).toNat = s.toNat <<< 1 := by
    rw [BitVec.toNat_shiftLeft, Nat.mod_eq_of_lt (by rw [Nat.shiftLeft_eq]; omega)]
  have falls : ((s <<< 1) &&& (1#32 <<< 24) ≠ 0) ↔ (s.toNat <<< 1 &&& (1 <<< 24) ≠ 0) := by
    rw [← shifted, not_iff_not, ← BitVec.toNat_inj, BitVec.toNat_and]
    rfl
  simp only [firmwareShift, linkShift, falls]
  split_ifs
  · rw [BitVec.toNat_xor, shifted]
    rfl
  · exact shifted.symm

theorem firmwareShift_iterate (reg : BitVec 16) (low : Byte) (n : ℕ) :
    firmwareShift^[n] (packed reg low).toNat = (linkShift^[n] (packed reg low)).toNat := by
  induction n generalizing reg low with
  | zero => rfl
  | succ n ih =>
    rw [Function.iterate_succ_apply, Function.iterate_succ_apply, firmwareShift_toNat (packed_lt reg low),
      linkShift_packed, ih]

theorem firmwareShift_fold (data : List Byte) :
    data.foldl (fun state byte ↦ firmwareShift^[8] (state ||| byte.toNat)) 0 =
      (packed ((messageBits data).foldl (below 0x1021#16) 0) 0).toNat := by
  rw [← linkShift_fold]
  induction data using List.reverseRecOn with
  | nil => rfl
  | append_singleton data byte ih =>
    have loaded : ∀ reg, (packed reg 0).toNat ||| byte.toNat = (packed reg byte).toNat := by
      intro reg
      rw [← packed_or reg byte, BitVec.toNat_or, BitVec.toNat_setWidth, Nat.mod_eq_of_lt (by omega)]
    rw [List.foldl_append, List.foldl_append, ih, linkShift_fold]
    simp only [List.foldl_cons, List.foldl_nil]
    rw [loaded, firmwareShift_iterate, packed_or]

theorem firmwareCrc_eq (data : List Byte) : firmwareCrc data = (xmodem data).toNat := by
  have held : ∀ reg, ((packed reg 0).toNat >>> 8) &&& 0xffff = reg.toNat := by
    intro reg
    have whole := congrArg BitVec.toNat (register_packed reg)
    rwa [BitVec.toNat_setWidth, BitVec.toNat_and, BitVec.toNat_ushiftRight,
      Nat.mod_eq_of_lt (Nat.and_lt_two_pow _ (by decide))] at whole
  rw [xmodem, ← below_flushed (by decide) 0x1021#16 (messageBits data), List.foldl_append, ← held,
    ← linkShift_flush,
    ← firmwareShift_iterate, ← firmwareShift_fold]
  rfl

theorem updateShift_toNat (reg : BitVec 16) : updateShift reg.toNat = (reduce 0x1021#16 reg).toNat := by
  have falls : (reg.toNat &&& 0x8000 ≠ 0) ↔ reg.msb = true := by
    have one := BitVec.and_twoPow reg 15
    have same : reg.toNat &&& 0x8000 = (reg &&& BitVec.twoPow 16 15).toNat := by rw [BitVec.toNat_and]; rfl
    rw [same, one, BitVec.msb_eq_getLsbD_last]
    cases reg.getLsbD 15 <;> decide
  have shifted : reg.toNat <<< 1 &&& 0xffff = (reg <<< 1).toNat := by
    rw [BitVec.toNat_shiftLeft]
    exact Nat.and_two_pow_sub_one_eq_mod _ 16
  have divided : (reg.toNat <<< 1 ^^^ crcPoly) &&& 0xffff = ((reg <<< 1) ^^^ 0x1021#16).toNat := by
    rw [BitVec.toNat_xor, ← shifted, Nat.and_xor_distrib_right]
    rfl
  simp only [updateShift, reduce, falls, shifted, divided]
  split_ifs <;> rfl

theorem updateShift_iterate (reg : BitVec 16) (n : ℕ) :
    updateShift^[n] reg.toNat = ((reduce 0x1021#16)^[n] reg).toNat := by
  induction n generalizing reg with
  | zero => rfl
  | succ n ih => rw [Function.iterate_succ_apply, Function.iterate_succ_apply, updateShift_toNat, ih]

theorem updateShift_byte (reg : BitVec 16) (byte : Byte) :
    updateShift^[8] (reg.toNat ^^^ byte.toNat <<< 8) = ((topBits 8 byte).foldl (above 0x1021#16) reg).toNat := by
  have placed : byte.toNat <<< 8 = (byte.setWidth 16 <<< 8).toNat := by
    have width : (byte.setWidth 16).toNat = byte.toNat := by
      rw [BitVec.toNat_setWidth, Nat.mod_eq_of_lt (by omega)]
    rw [BitVec.toNat_shiftLeft, width, Nat.mod_eq_of_lt]
    rw [Nat.shiftLeft_eq]
    omega
  have bits : topBits 8 (byte.setWidth 16 <<< 8) = topBits 8 byte := by
    refine List.map_congr_left fun i hi ↦ ?_
    have inside := List.mem_range.mp hi
    rw [BitVec.getMsbD_shiftLeft, BitVec.getMsbD_setWidth]
    simp [show 8 ≤ i + 8 by omega]
  have gone : (byte.setWidth 16 <<< 8) <<< 8 = 0#16 := by
    rw [← BitVec.shiftLeft_add, BitVec.shiftLeft_eq_zero (by decide)]
  rw [placed, ← BitVec.toNat_xor, updateShift_iterate, reduce_iterate_xor, bits, gone, BitVec.xor_zero]

theorem crc16_eq (data : List Byte) : crc16 data = (xmodem data).toNat := by
  induction data using List.reverseRecOn with
  | nil => rfl
  | append_singleton data byte ih =>
    rw [crc16, List.foldl_append, ← crc16, ih, List.foldl_cons, List.foldl_nil, updateShift_byte, xmodem, xmodem,
      messageBits_append, checksum, checksum, List.foldl_append]

/-- The three routines. -/
inductive Routine
  | emulator
  | tools
  | updater
deriving DecidableEq

def Routine.crc : Routine → List Byte → ℕ
  | .emulator, data => (cdjLinkCrc data).toNat
  | .tools, data => firmwareCrc data
  | .updater, data => crc16 data

def Routine.build (r : Routine) (body : List Byte) : List Byte := body ++ little 2 (r.crc body)

def Routine.stamp (r : Routine) (record : List Byte) : List Byte := r.build (record.take (record.length - 2))

def Routine.accepts (r : Routine) (record : List Byte) : Bool :=
  r.crc (record.take (record.length - 2)) == value (record.drop (record.length - 2))

theorem Routine.crc_eq (r : Routine) (data : List Byte) : r.crc data = (xmodem data).toNat := by
  cases r with
  | emulator => exact congrArg BitVec.toNat (cdjLinkCrc_eq data)
  | tools => exact firmwareCrc_eq data
  | updater => exact crc16_eq data

theorem Routine.accepts_build (r writer : Routine) (body : List Byte) : r.accepts (writer.build body) = true := by
  have size : (writer.build body).length - 2 = body.length := by
    rw [Routine.build, List.length_append]
    rfl
  have stored : value (little 2 (writer.crc body)) = (xmodem body).toNat := by
    rw [writer.crc_eq, value_little (xmodem body).isLt]
  rw [Routine.accepts, size, Routine.build, List.drop_left, List.take_left, r.crc_eq, stored, beq_self_eq_true]

/-- Every routine computes CRC-16/XMODEM, the remainder of the bytes with sixteen zeros after them, and accepts what
any of them has built or stamped. -/
theorem routines_agree (r : Routine) (data : List Byte) :
    r.crc data = (xmodem data).toNat ∧
      ofRegister (xmodem data) = (message (messageBits data) * Polynomial.X ^ 16) %ₘ generator 0x1021#16 ∧
      ∀ writer : Routine, r.accepts (writer.build data) = true ∧ r.accepts (writer.stamp data) = true :=
  ⟨r.crc_eq data, ofRegister_checksum _ _, fun writer ↦ ⟨r.accepts_build writer _, r.accepts_build writer _⟩⟩

example : xmodem [0x31, 0x32, 0x33, 0x34, 0x35, 0x36, 0x37, 0x38, 0x39] = 0x31c3 := by decide +kernel

end Cdj2000Emulator.Checksum
