import Mathlib.Data.BitVec

namespace Cdj2000Emulator.Link.Ethernet

abbrev Byte := BitVec 8

abbrev Frame := List Byte

/-- `frame[start:stop]`. -/
def slice (frame : Frame) (start stop : ℕ) : Frame := (frame.take stop).drop start

def byte (frame : Frame) (i : ℕ) : Byte := frame.getD i 0

/-- A big-endian 16-bit field. -/
def half (frame : Frame) (i : ℕ) : ℕ := (byte frame i).toNat * 256 + (byte frame (i + 1)).toNat

/-- `frame[start:start + len(fresh)] = fresh`. -/
def patch (frame : Frame) (start : ℕ) (fresh : Frame) : Frame :=
  frame.take start ++ fresh ++ frame.drop (start + fresh.length)

def ipv4 : Frame := [0x08, 0x00]
def arp : Frame := [0x08, 0x06]

/-- `PRODJ_MAGIC`, the text Qspt1WmJOL. -/
def prodjMagic : Frame := [0x51, 0x73, 0x70, 0x74, 0x31, 0x57, 0x6d, 0x4a, 0x4f, 0x4c]

structure Datagram where
  ip : Frame
  port : ℕ
  payload : Frame

/-- `udp`: the datagram of an IPv4 UDP frame. -/
def udp (frame : Frame) : Option Datagram :=
  if frame.length < 42 ∨ slice frame 12 14 ≠ ipv4 ∨ byte frame 23 ≠ 17 then none
  else
    let header := (byte frame 14 &&& 15).toNat * 4
    if frame.length < 14 + header + 8 then none
    else some ⟨slice frame 26 30, half frame (14 + header + 2), frame.drop (14 + header + 8)⟩

/-- The label that `record` counts a frame under. -/
inductive Label
  | prodj (port : ℕ) (type : Byte)
  | udp (port : ℕ)
  | arp
  | other (ethertype : Frame)
  deriving DecidableEq

/-- The label `50000/0x06`. -/
def keepAlive : Label := .prodj 50000 0x06

/-- `describe`, as far as `record` keeps it for the hub's own use. -/
structure Kind where
  srcMac : Frame
  ip : Option Frame
  label : Label

def describe (frame : Frame) : Kind where
  srcMac := slice frame 6 12
  ip := (udp frame).map (·.ip)
  label :=
    match udp frame with
    | none =>
      if slice frame 12 14 = arp ∧ 42 ≤ frame.length then .arp else .other (slice frame 12 14)
    | some datagram =>
      if slice datagram.payload 0 10 = prodjMagic ∧ 11 < datagram.payload.length then
        .prodj datagram.port (byte datagram.payload 10)
      else .udp datagram.port

/-- Who put a frame on the segment. -/
inductive Origin
  | deck (id : ℕ)
  | replay
  deriving DecidableEq

def Origin.isDeck : Origin → Bool
  | .deck _ => true
  | .replay => false

/-- What the hub knows of a sender. -/
structure Sender where
  mac : Frame
  origin : Origin
  ip : Option Frame
  kinds : List Label

/-- `Hub.record`: the sender's entry, made by its first frame. -/
def record (senders : List Sender) (frame : Frame) (origin : Origin) : List Sender :=
  let kind := describe frame
  let known :=
    if senders.any (·.mac = kind.srcMac) then senders
    else senders ++ [⟨kind.srcMac, origin, none, []⟩]
  known.map fun sender ↦
    if sender.mac = kind.srcMac then
      { sender with ip := kind.ip.or sender.ip, kinds := sender.kinds.insert kind.label }
    else sender

def players (senders : List Sender) : ℕ := senders.countP (keepAlive ∈ ·.kinds)

def firstDeckAddress (senders : List Sender) : Option (Frame × Frame) :=
  senders.findSome? fun sender ↦
    match sender.ip with
    | none => none
    | some ip =>
      if sender.origin.isDeck ∧ ip ≠ [0, 0, 0, 0] ∧ keepAlive ∈ sender.kinds then
        some (sender.mac, ip)
      else none

/-- `Hub.proxy_arp`: the reply to a request for a replayed sender's address. -/
def proxyArp (senders : List Sender) (frame : Frame) : Option Frame :=
  if slice frame 12 14 ≠ arp ∨ frame.length < 42 ∨ slice frame 20 22 ≠ [0x00, 0x01] then none
  else
    let wanted := slice frame 38 42
    (senders.find? fun sender ↦ sender.origin = .replay ∧ sender.ip = some wanted).map fun sender ↦
      slice frame 6 12 ++ sender.mac ++ arp ++ slice frame 14 20 ++ [0x00, 0x02] ++ sender.mac ++
        wanted ++ slice frame 22 28 ++ slice frame 28 32

/-- A one's-complement sum with its carries folded in. -/
def fold (total : ℕ) : ℕ :=
  if total < 65536 then total else fold (total % 65536 + total / 65536)
termination_by total
decreasing_by omega

def ipChecksum (header : Frame) : ℕ :=
  fold (((List.range (header.length / 2)).map fun i ↦ half header (2 * i)).sum) ^^^ 0xffff

def halfBytes (n : ℕ) : Frame := [BitVec.ofNat 8 (n / 256), BitVec.ofNat 8 n]

def isUnicast (frame : Frame) : Bool := byte frame 0 &&& 1 = 0

/-- `readdress`: a unicast frame, sent to another device. -/
def readdress (frame mac ip : Frame) : Frame :=
  if ¬isUnicast frame ∨ slice frame 12 14 ≠ ipv4 then frame
  else
    let out := patch (patch frame 0 mac) 30 ip
    let header := (byte out 14 &&& 15).toNat * 4
    let out := patch out 24 [0, 0]
    let out := patch out 24 (halfBytes (ipChecksum (slice out 14 (14 + header))))
    patch out (14 + header + 6) [0, 0]

/-- `set_peer_count`; `none` where the count does not fit its byte. -/
def setPeerCount (frame : Frame) (count : ℕ) : Option Frame :=
  match udp frame with
  | none => some frame
  | some datagram =>
    if datagram.port ≠ 50000 ∨ datagram.payload.length ≤ 0x30 ∨ byte datagram.payload 10 ≠ 0x06 ∨
        (byte datagram.payload 0x30).toNat = count then some frame
    else if 256 ≤ count then none
    else
      let start := frame.length - datagram.payload.length
      some (patch (patch frame (start + 0x30) [BitVec.ofNat 8 count]) (start - 2) [0, 0])

def playerFields (port : ℕ) (type : Byte) : List ℕ :=
  if port = 50000 ∧ type = 0x06 then [0x24]
  else if port = 50001 ∧ type = 0x28 then [0x21, 0x5f]
  else if port = 50002 ∧ type = 0x0a then [0x21, 0x24, 0x28]
  else []

/-- `renumber`: the frame, with player `old` called `new`. -/
def renumber (frame : Frame) (old new : Byte) : Frame :=
  match udp frame with
  | none => frame
  | some datagram =>
    let fields :=
      if 10 < datagram.payload.length then playerFields datagram.port (byte datagram.payload 10)
      else []
    let start := frame.length - datagram.payload.length
    let out := fields.foldl (fun out field ↦
      if field < datagram.payload.length ∧ byte datagram.payload field = old then
        patch out (start + field) [new]
      else out) frame
    if out ≠ frame then patch out (start - 2) [0, 0] else out

end Cdj2000Emulator.Link.Ethernet
