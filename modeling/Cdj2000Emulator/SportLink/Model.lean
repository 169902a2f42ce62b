import Cdj2000Emulator.Library.Bytes
import Cdj2000Emulator.Library.MarkedRing
import Mathlib.Data.List.FinRange

namespace Cdj2000Emulator.SportLink

open Library Library.Bytes

abbrev Frame := List Byte

/-- One entry of `link_frame`. -/
abbrev Buffer := ℕ → Byte

/-- `memcpy` of a frame into an entry. -/
def store (f : Frame) (b : Buffer) : Buffer := fun i ↦ f.getD i (b i)

/-- `memcpy` of the first bytes of an entry. -/
def load (n : ℕ) (b : Buffer) : Frame := (List.range n).map b

theorem length_load {n : ℕ} {b : Buffer} : (load n b).length = n := by rw [load, List.length_map, List.length_range]

theorem load_store {f : Frame} {b : Buffer} : load f.length (store f b) = f := by
  refine List.ext_getElem length_load fun i _ hi ↦ ?_
  simp only [load, List.getElem_map, List.getElem_range]
  rw [store, List.getD_eq_getElem?_getD, List.getElem?_eq_getElem hi, Option.getD_some]

/-- What the environment sets. -/
structure Config where
  /-- `bfin_sport_link_depth`. -/
  depth : ℕ
  depth_pos : 0 < depth
  depth_le : depth ≤ 256
  /-- `bfin_sport_link_repeat_announced`. -/
  repeatAnnounced : Bool
  /-- `bfin_sport_link_fresh_only`. -/
  freshOnly : Bool
  /-- MAIN's records come from the co-simulation and not from the socket. -/
  cosim : Bool

/-- The unread frames of one length. -/
structure Slot where
  len : ℕ
  ring : MarkedRing Buffer

/-- `struct bfin_sport`, the frames that MAIN has sent. -/
structure Link where
  /-- `link_in`, the first `link_in_len` bytes of it -/
  linkIn : List Byte
  framed : Bool
  slot : Fin 16 → Slot
  wireW29 : ℕ
  wireW30 : ℕ

/-- What happens to frames. -/
inductive Label
  /-- A slot for frames of a length. -/
  | opened (n : ℕ)
  | recycled (n : ℕ)
  /-- A frame that arrives, and the one that is lost for it. -/
  | stored (f : Frame) (lost : Option Frame)
  | turnedAway (f : Frame)
  | handed (n : ℕ) (f : Frame)
  | repeated (n : ℕ) (f : Frame)
  | refused (n : ℕ)
  /-- Bytes handed over as they came in. -/
  | raw (bytes : List Byte)

def statusLen : ℕ := 64

def frameMax : ℕ := 4096

/-- The size of `link_in`. -/
def linkInSize : ℕ := 8192

def halfword (f : Frame) (i : ℕ) : ℕ := (f.getD (2 * i) 0).toNat + 256 * (f.getD (2 * i + 1) 0).toNat

/-- `CDJL`. -/
def magic : List Byte := [0x43, 0x44, 0x4a, 0x4c]

def encode (f : Frame) : List Byte := magic ++ little 4 f.length ++ f

def WellFormed (f : Frame) : Prop := 0 < f.length ∧ f.length ≤ frameMax

/-- What stands at the head of the bytes that have come in. -/
inductive Staged
  | short
  | foreign
  | unusable
  | cut
  | frame (f : Frame) (rest : List Byte)

def staged (bytes : List Byte) : Staged :=
  if bytes.length < 8 then .short
  else if bytes.take 4 ≠ magic then .foreign
  else
    let length := value ((bytes.drop 4).take 4)
    if length = 0 ∨ frameMax < length then .unusable
    else if bytes.length < 8 + length then .cut
    else .frame ((bytes.drop 8).take length) (bytes.drop (8 + length))

theorem length_rest {bytes rest : List Byte} {f : Frame} (h : staged bytes = .frame f rest) :
    rest.length < bytes.length := by
  unfold staged at h
  split_ifs at h with hshort hforeign
  dsimp only at h
  split_ifs at h with hlength hcut
  obtain ⟨-, rfl⟩ := Staged.frame.inj h
  rw [List.length_drop]
  omega

namespace Link

variable (cfg : Config)

def holder (n : ℕ) (s : Link) : Option (Fin 16) := (List.finRange 16).find? fun i ↦ (s.slot i).len == n

def idle (s : Link) : Option (Fin 16) :=
  (List.finRange 16).find? fun i ↦ (s.slot i).len != statusLen && !(s.slot i).ring.unread cfg.depth

def setSlot (i : Fin 16) (slot : Slot) (s : Link) : Link := { s with slot := Function.update s.slot i slot }

def recycle (i : Fin 16) (s : Link) : Link := s.setSlot i { len := 0, ring := (s.slot i).ring.clear }

/-- What the newest status record announces, as MAIN sent it. -/
def hear (f : Frame) (s : Link) : Link :=
  if f.length = statusLen then { s with wireW29 := halfword f 29, wireW30 := halfword f 30 } else s

def pushed (f : Frame) (slot : Slot) : Slot := { len := f.length, ring := slot.ring.push cfg.depth (store f) }

def deposit (i : Fin 16) (f : Frame) (s : Link) : Link × List Label :=
  let slot := s.slot i
  let put := slot.ring.put % cfg.depth
  let lost := if slot.ring.fresh put then some (load f.length (slot.ring.entry put)) else none
  ((s.setSlot i (pushed cfg f slot)).hear f,
    (if slot.len = f.length then [] else [.opened f.length]) ++ [.stored f lost])

def accept (f : Frame) (s : Link) : Link × List Label :=
  match (s.holder f.length).or (s.holder 0) with
  | some i => s.deposit cfg i f
  | none =>
    match s.idle cfg with
    | some i =>
      let (t, labels) := (s.recycle i).deposit cfg i f
      (t, .recycled (s.slot i).len :: labels)
    | none => (s, [.turnedAway f])

/-- `bfin_sport_link_split`, with these bytes in `link_in`. -/
def splitFrom (bytes : List Byte) (s : Link) : Link × List Label :=
  match _h : staged bytes with
  | .short | .foreign => ({ s with linkIn := bytes }, [])
  | .unusable => ({ s with linkIn := [], framed := true }, [])
  | .cut => ({ s with linkIn := bytes, framed := true }, [])
  | .frame f rest =>
    let (s, labels) := { s with framed := true }.accept cfg f
    let (s, more) := splitFrom rest s
    (s, labels ++ more)
termination_by bytes.length
decreasing_by exact length_rest _h

def split (s : Link) : Link × List Label := s.splitFrom cfg s.linkIn

/-- `bfin_sport_link_poll`, when these bytes are read. -/
def poll (bytes : List Byte) (s : Link) : Link × List Label := { s with linkIn := s.linkIn ++ bytes }.split cfg

def inject (f : Frame) (s : Link) : Link × List Label :=
  let (s, labels) := if linkInSize < s.linkIn.length + (8 + f.length) then s.split cfg else (s, [])
  if linkInSize < s.linkIn.length + (8 + f.length) then (s, labels)
  else
    let (s, more) := { s with linkIn := s.linkIn ++ encode f }.split cfg
    (s, labels ++ more)

def give (n : ℕ) (i : Fin 16) (entry : ℕ) (s : Link) : Link × Frame :=
  let slot := s.slot i
  (s.setSlot i { slot with ring := slot.ring.take cfg.depth entry }, load n (slot.ring.entry entry))

/-- The newest record announces a payload of just this length. -/
def announces (n : ℕ) (s : Link) : Bool := cfg.repeatAnnounced && s.wireW29 != 0 && s.wireW30 * 2 == n

/-- `bfin_sport_link_take`, with whether the frame is fresh. -/
def take (n : ℕ) (s : Link) : Link × Option (Frame × Bool) :=
  match s.holder n with
  | none => (s, none)
  | some i =>
    match (s.slot i).ring.oldest cfg.depth with
    | some entry =>
      let (s, f) := s.give cfg n i entry
      (s, some (f, true))
    | none =>
      if cfg.freshOnly || (n != statusLen && !s.announces cfg n) then (s, none)
      else
        let (s, f) := s.give cfg n i ((s.slot i).ring.newest cfg.depth)
        (s, some (f, false))

/-- How a receive is answered from what MAIN has sent: out of the rings, or out of the bytes of a peer that sends no
headers. -/
def answer (n : ℕ) (s : Link) : Link × Option (Frame × Bool) :=
  if s.framed then s.take cfg n
  else if n ≤ s.linkIn.length then ({ s with linkIn := s.linkIn.drop n }, some (s.linkIn.take n, true))
  else (s, none)

/-- What a receive of `n` bytes was answered with. -/
def outcome (framed : Bool) (n : ℕ) : Option (Frame × Bool) → Label
  | none => .refused n
  | some (f, fresh) => if framed then if fresh then .handed n f else .repeated n f else .raw f

def receive (n : ℕ) (s : Link) : Link × List Label :=
  ((s.answer cfg n).1, [outcome s.framed n (s.answer cfg n).2])

def init : Link where
  linkIn := []
  framed := false
  slot _ := ⟨0, ⟨fun _ _ ↦ 0, fun _ ↦ false, 0, 0⟩⟩
  wireW29 := 0
  wireW30 := 0

end Link

/-- What happens to the link. -/
inductive Event
  | poll (bytes : List Byte)
  | inject (f : Frame)
  | receive (n : ℕ)

namespace Event

variable (cfg : Config)

def bytes : Event → List Byte
  | poll bytes => bytes
  | inject f => encode f
  | receive _ => []

/-- The socket is read no further than `link_in` has room for; in the co-simulation it is not read. A peer that sends no
headers is asked for more than part of a header. -/
def Allowed (s : Link) : Event → Prop
  | poll bytes => s.linkIn.length + bytes.length ≤ linkInSize ∧ (cfg.cosim → bytes = [])
  | inject f => cfg.cosim ∧ WellFormed f
  | receive n => n ≠ 0 ∧ (s.framed = false → 8 ≤ n)

def handle (s : Link) : Event → Link × List Label
  | poll bytes => s.poll cfg bytes
  | inject f => s.inject cfg f
  | receive n => s.receive cfg n

end Event

def Step (cfg : Config) (s : Link) (x : Event × List Label) (t : Link) : Prop :=
  x.1.Allowed cfg s ∧ x.1.handle cfg s = (t, x.2)

end Cdj2000Emulator.SportLink
