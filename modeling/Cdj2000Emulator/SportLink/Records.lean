import Cdj2000Emulator.SportLink.Model

namespace Cdj2000Emulator.SportLink

open Library Library.Bytes

def crcShift (state : BitVec 32) : BitVec 32 :=
  let state := state <<< 1
  if state &&& (1 <<< 24) ≠ 0 then state ^^^ 0x01102100 else state

/-- `bfin_sport_peer_crc`, the firmware's checksum. -/
def peerCrc (data : List Byte) : BitVec 16 :=
  let state := data.foldl (fun state byte ↦ crcShift^[8] (state ||| byte.setWidth 32)) 0
  (crcShift^[16] state >>> 8).setWidth 16

def setHalfword (i : ℕ) (value : BitVec 16) (record : Frame) : Frame :=
  (record.set (2 * i) (value.setWidth 8)).set (2 * i + 1) ((value >>> 8).setWidth 8)

/-- The checksum over the first 62 bytes, in halfword 31. -/
def stamp (record : Frame) : Frame := setHalfword 31 (peerCrc (record.take 62)) record

def Valid (record : Frame) : Prop := halfword record 31 = (peerCrc (record.take 62)).toNat

def announcing (record : Frame) : Bool := record.getD 58 0 ||| record.getD 59 0 != 0

def setAnnounce (b₅₈ b₅₉ b₆₀ b₆₁ : Byte) (record : Frame) : Frame :=
  (((record.set 58 b₅₈).set 59 b₅₉).set 60 b₆₀).set 61 b₆₁

def carryAnnounce (held record : Frame) : Frame :=
  stamp (setAnnounce (held.getD 58 0) (held.getD 59 0) (held.getD 60 0) (held.getD 61 0) record)

def clearAnnounce (record : Frame) : Frame := stamp (setAnnounce 0 0 0 0 record)

/-- Where the GUI's receive descriptor puts a status record. -/
def statusBuffer : BitVec 32 := 0x00f00000

/-- What else the environment sets. -/
structure Setup where
  cfg : Config
  /-- `bfin_sport_link_announce_sticky` -/
  sticky : Bool
  /-- `bfin_sport_link_announce_oneshot` -/
  oneshot : Bool
  /-- `bfin_sport_link_hold_announce` -/
  hold : Bool
  holdMax : ℕ
  /-- The value that `bfin_sport_link_force_w13` puts into records. -/
  w13 : Option (BitVec 16)
  /-- `peer_enabled` -/
  peer : Bool

/-- The receive side of `struct bfin_sport`. -/
structure Sport where
  link : Link
  last : Frame
  haveLast : Bool
  pending : Bool
  holdRun : ℕ

/-- Where the bytes of a delivery come from. -/
inductive Source
  /-- A frame that MAIN has sent. -/
  | sent (f : Frame)
  /-- The last record, once more. -/
  | last
  /-- The file-based peer. -/
  | canned
  /-- The zeros of a housekeeping read. -/
  | zeros
deriving DecidableEq

structure Delivery where
  source : Source
  addr : BitVec 32
  bytes : Frame
deriving DecidableEq

namespace Delivery

def FromLink (d : Delivery) : Prop := d.source ≠ .canned ∧ d.source ≠ .zeros

def IsStatus (d : Delivery) : Prop := d.addr = statusBuffer ∧ d.bytes.length = statusLen

end Delivery

namespace Sport

variable (setup : Setup)

def peekStatus (s : Sport) : Option Frame :=
  (s.link.holder statusLen).map fun i ↦
    load statusLen ((s.link.slot i).ring.entry ((s.link.slot i).ring.newest setup.cfg.depth))

/-- The announcing record is held in place while a plain one waits. -/
def holds (addr : BitVec 32) (n : ℕ) (s : Sport) : Bool :=
  !setup.cfg.freshOnly && setup.hold && !setup.sticky && n == statusLen && addr == statusBuffer &&
    s.haveLast && s.pending

def forceW13 (record : Frame) : Frame :=
  match setup.w13 with
  | some value => stamp (setHalfword 13 value record)
  | none => record

/-- A status record that the rings hand over, as it is given to the firmware. -/
def dress (f : Frame) (s : Sport) : Frame :=
  forceW13 setup (if setup.sticky && s.haveLast && s.pending && !announcing f then carryAnnounce s.last f else f)

def noteRecord (record : Frame) (s : Sport) : Sport :=
  let s := { s with last := record, haveLast := true }
  if announcing record then { s with pending := true, holdRun := 0 } else s

def notePayload (s : Sport) : Sport :=
  { s with
    pending := false
    last := if (setup.sticky || setup.oneshot) && s.haveLast then clearAnnounce s.last else s.last }

/-- A receive once nothing is held, with what the file-based peer has for it. -/
def readLive (addr : BitVec 32) (n : ℕ) (canned : Option Frame) (s : Sport) : Sport × Option Delivery :=
  match s.link.answer setup.cfg n with
  | (link, some (f, _)) =>
    let s := { s with link := link }
    if n = statusLen ∧ addr = statusBuffer then
      (s.noteRecord (s.dress setup f), some ⟨.sent f, addr, s.dress setup f⟩)
    else (s.notePayload setup, some ⟨.sent f, addr, f⟩)
  | (link, none) =>
    let s := { s with link := link }
    if !setup.cfg.freshOnly ∧ n = statusLen ∧ addr = statusBuffer ∧ s.haveLast then
      (s, some ⟨.last, addr, s.last⟩)
    else if !setup.peer ∨ s.haveLast then (s, none)
    else (s, canned.map fun f ↦ ⟨.canned, addr, f⟩)

/-- `bfin_sport_dma_read_buffer_1`, past the poll. -/
def read (addr : BitVec 32) (n : ℕ) (canned : Option Frame) (s : Sport) : Sport × Option Delivery :=
  if s.holds setup addr n then
    match s.peekStatus setup with
    | some candidate =>
      if !announcing candidate ∧ s.holdRun < setup.holdMax then
        ({ s with holdRun := s.holdRun + 1 }, some ⟨.last, addr, s.last⟩)
      else if s.holdRun = setup.holdMax then
        { s with holdRun := s.holdRun + 1, pending := false }.readLive setup addr n canned
      else s.readLive setup addr n canned
    | none =>
      if s.holdRun = setup.holdMax then
        { s with holdRun := s.holdRun + 1, pending := false }.readLive setup addr n canned
      else s.readLive setup addr n canned
  else s.readLive setup addr n canned

def init : Sport where
  link := Link.init
  last := List.replicate statusLen 0
  haveLast := false
  pending := false
  holdRun := 0

end Sport

/-- Arrivals and receives, in any order. -/
inductive Reception
  | poll (bytes : List Byte)
  | inject (f : Frame)
  | receive (addr : BitVec 32) (n : ℕ) (canned : Option Frame)
  /-- A housekeeping read that is answered with zeros. -/
  | housekeeping (addr : BitVec 32)

def Sport.step (setup : Setup) (s : Sport) : Reception → Sport × Option Delivery
  | .poll bytes => ({ s with link := (s.link.poll setup.cfg bytes).1 }, none)
  | .inject f => ({ s with link := (s.link.inject setup.cfg f).1 }, none)
  | .receive addr n canned => s.read setup addr n canned
  | .housekeeping addr => (s, some ⟨.zeros, addr, List.replicate 200 0⟩)

/-- What a reception is for the frames that MAIN has sent. -/
def Reception.event : Reception → Option Event
  | .poll bytes => some (.poll bytes)
  | .inject f => some (.inject f)
  | .receive _ n _ => some (.receive n)
  | .housekeeping _ => none

def Receives (setup : Setup) (s : Sport) (x : Reception × Option Delivery) (t : Sport) : Prop :=
  (∀ e ∈ x.1.event, e.Allowed setup.cfg s.link) ∧ s.step setup x.1 = (t, x.2)

end Cdj2000Emulator.SportLink
