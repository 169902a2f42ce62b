import Mathlib.Algebra.Order.Floor.Ring
import Mathlib.Data.Rat.Floor
import Cdj2000Emulator.Library.Stateful
import Cdj2000Emulator.Link.Ethernet

namespace Cdj2000Emulator.Link.SyncHub

open Library.Stateful
open Ethernet

/-- A capture's Pro DJ Link frames, each at its offset in seconds. -/
structure Replay where
  frames : List (ℚ × Frame)
  span : ℚ
  loop : Bool

def replayed (sources : List Frame) (numbers : List (Byte × Byte)) (ports : List ℕ)
    (frame : Frame) : Option Frame :=
  match udp frame with
  | none => none
  | some datagram =>
    if datagram.port ∉ ports ∨ (sources ≠ [] ∧ datagram.ip ∉ sources) then none
    else some (numbers.foldl (fun frame (old, new) ↦ renumber frame old new) frame)

/-- `Replay.__init__`; `none` where no frame is left. -/
def Replay.ofCapture (capture : List (ℚ × Frame)) (sources : List Frame) (loop : Bool) (speed : ℚ)
    (numbers : List (Byte × Byte)) (ports : List ℕ) : Option Replay :=
  match capture.filterMap fun x ↦ (replayed sources numbers ports x.2).map (x.1, ·) with
  | [] => none
  | (base, frame) :: rest =>
    let offsets := ((base, frame) :: rest).map fun x ↦ ((x.1 - base) / speed, x.2)
    some ⟨offsets, (offsets.getLast (by simp [offsets])).1 + 1 / speed, loop⟩

/-- `int`, which drops the fraction. -/
def int (q : ℚ) : ℤ := if 0 ≤ q then ⌊q⌋ else ⌈q⌉

/-- The latest stamp there is, `NEVER`. -/
def never : ℤ := 2 ^ 62

def second : ℕ := 1000000000

def syncTime : ℕ := 1
def syncHello : ℕ := 4
def syncFrame : ℕ := 5

/-- A connected deck. -/
structure Client where
  id : ℕ
  t : ℕ
  promise : ℕ
  granted : ℤ
  joined : Bool

inductive Content
  | time
  | frame (origin : Origin) (frame : Frame)
  deriving DecidableEq

/-- A message that reached a deck, with its guest time. -/
structure Sent where
  deck : ℕ
  stamp : ℤ
  content : Content

/-- `SyncHub`, with all it has sent; `sends` counts the attempts. -/
structure Hub where
  decksWanted : ℕ
  replay : Option Replay
  replayOrigin : ℤ
  replayIndex : ℕ
  replayLap : ℕ
  clients : List Client
  nextId : ℕ
  senders : List Sender
  sends : ℕ
  sent : List Sent

def Hub.start (decks : ℕ) (replay : Option Replay) (origin : ℤ) : Hub where
  decksWanted := decks
  replay := replay
  replayOrigin := origin
  replayIndex := 0
  replayLap := 0
  clients := []
  nextId := 1
  senders := []
  sends := 0
  sent := []

/-- What ends the program: a value that its field does not hold. -/
inductive Exception
  | structError
  | valueError
  deriving DecidableEq

abbrev Action := Machine Hub Exception

namespace Hub

variable (hub : Hub)

def find (deck : ℕ) : Option Client := hub.clients.find? (·.id = deck)

def decks : List ℕ := hub.clients.map (·.id)

def update (deck : ℕ) (f : Client → Client) : Hub :=
  { hub with clients := hub.clients.map fun client ↦ if client.id = deck then f client else client }

def drop (deck : ℕ) : Hub :=
  { hub with clients := hub.clients.filter (·.id ≠ deck) }

def accept : Hub :=
  { hub with clients := hub.clients ++ [⟨hub.nextId, 0, 0, -1, false⟩], nextId := hub.nextId + 1 }

/-- The replayed frame that is next, with its stamp. The source rounds the time to binary64. Two facts of that rounding
are relied on: it keeps the order of the offsets within a lap, and it moves the last frame of a lap past the first one
of the next by no more than the `1 / speed` between them. -/
def next : Option (ℤ × Frame) :=
  hub.replay.bind fun replay ↦ replay.frames[hub.replayIndex]?.map fun (offset, frame) ↦
    (hub.replayOrigin + int ((offset + hub.replayLap * replay.span) * second), frame)

def replayDue : Option ℤ := hub.next.map (·.1)

def advance : Hub :=
  let index := hub.replayIndex + 1
  if hub.replay.any fun replay ↦ index = replay.frames.length ∧ replay.loop then
    { hub with replayIndex := 0, replayLap := hub.replayLap + 1 }
  else { hub with replayIndex := index }

def joined : List Client := hub.clients.filter (·.joined)

def least (deck : ℕ) : ℤ :=
  let least := (hub.joined.filter (·.id ≠ deck)).foldl (fun grant client ↦ min grant client.promise)
    never
  match hub.replayDue with
  | none => least
  | some due => min least due

def grant (deck : ℕ) : ℤ := if hub.joined.length < hub.decksWanted then 0 else hub.least deck

end Hub

section Actions

/-- `pcap_record` has room for the stamp: unsigned seconds, and microseconds, of which
the fraction is dropped. -/
def CaptureFits (stamp : ℤ) : Prop := -1000 < stamp ∧ stamp < 2 ^ 32 * second

instance (stamp : ℤ) : Decidable (CaptureFits stamp) := inferInstanceAs (Decidable (_ ∧ _))

/-- `record`, at a guest time. -/
def record (frame : Frame) (origin : Origin) (stamp : ℤ) : Action Unit := do
  .require (CaptureFits stamp) .structError
  .modify fun hub ↦ { hub with senders := Ethernet.record hub.senders frame origin }

-- Whether the n-th attempt to send meets a closed connection.
variable (fails : ℕ → Bool)

def sendMsg (message : Sent) : Action Unit := fun hub ↦
  if message.deck ∉ hub.decks then (hub, .ok ())
  else if message.stamp < 0 ∨ 2 ^ 64 ≤ message.stamp then (hub, .error .structError)
  else if fails hub.sends then ({ hub.drop message.deck with sends := hub.sends + 1 }, .ok ())
  else ({ hub with sent := hub.sent ++ [message], sends := hub.sends + 1 }, .ok ())

/-- `send_frame` to each deck of the list, padded to the wire's minimum. -/
def sendFrames (decks : List ℕ) (stamp : ℤ) (origin : Origin) (frame : Frame) : Action Unit :=
  decks.forM fun deck ↦
    sendMsg fails ⟨deck, stamp, .frame origin (frame.rightpad 60 0)⟩

def littleEndian (payload : Frame) : ℕ := payload.foldr (fun byte n ↦ byte.toNat + 256 * n) 0

/-- A deck's own frame, to every other deck, and the reply to its question for a
replayed sender. -/
def flood (deck t : ℕ) (payload : Frame) : Action Unit := do
  record payload (.deck deck) t
  let hub ← .get
  sendFrames fails (hub.decks.filter (· ≠ deck)) t (.deck deck) payload
  let hub ← .get
  match proxyArp hub.senders payload, hub.find deck with
  | some reply, some client =>
    let stamp := max (t : ℤ) client.granted
    record reply .replay stamp
    sendFrames fails [deck] stamp .replay reply
  | _, _ => pure ()

def message (deck kind t : ℕ) (payload : Frame) : Action Unit := do
  .modify (·.update deck fun client ↦ { client with t := max client.t t })
  if kind = syncHello then
    .modify (·.update deck fun client ↦ { client with joined := true })
  else if kind = syncTime ∧ payload.length = 8 then
    .modify (·.update deck fun client ↦
      { client with promise := max client.promise (littleEndian payload) })
  else if kind = syncFrame then do
    .modify (·.update deck fun client ↦ { client with promise := max client.promise t })
    flood fails deck t payload
  else pure ()

/-- The frame a replayed one becomes; `none` where nobody is there to get it. -/
def prepare (target : Option (Frame × Frame)) (frame : Frame) : Option Frame :=
  match target with
  | some (mac, ip) => some (readdress frame mac ip)
  | none => if isUnicast frame then none else some frame

def broadcast (target : Option (Frame × Frame)) (due : ℤ) (frame : Frame) : Action Unit := do
  let hub ← .get
  match setPeerCount frame (players hub.senders) with
  | none => .fail .valueError
  | some frame =>
    match prepare target frame with
    | none => pure ()
    | some frame => do
      record frame .replay due
      sendFrames fails hub.decks due .replay frame

/-- One replayed frame onto the segment. -/
def play (target : Option (Frame × Frame)) (due : ℤ) (frame : Frame) : Action Unit := do
  .modify Hub.advance
  broadcast fails target due frame

def playUpTo (horizon : ℤ) (target : Option (Frame × Frame)) : ℕ → Action Unit
  | 0 => pure ()
  | rounds + 1 => do
    let hub ← .get
    match hub.next with
    | none => pure ()
    | some (due, frame) =>
      if horizon < due then pure ()
      else do
        play fails target due frame
        playUpTo horizon target rounds

def rounds (hub : Hub) (replay : Replay) (horizon : ℤ) : ℕ :=
  replay.frames.length * (⌈((horizon - hub.replayOrigin + 1 : ℤ) : ℚ) / (replay.span * second)⌉.toNat
    + 1) + 1

def pushReplay : Action Unit := do
  let hub ← .get
  match hub.replay with
  | none => pure ()
  | some replay =>
    if hub.clients = [] then pure ()
    else
      let horizon : ℕ := (hub.clients.map (·.t)).foldl max 0 + second
      playUpTo fails horizon (firstDeckAddress hub.senders) (rounds hub replay horizon)

/-- One deck's turn in `update_grants`. -/
def updateGrant (deck : ℕ) : Action Unit := do
  let hub ← .get
  match hub.find deck with
  | none => pure ()
  | some client =>
    let grant := hub.grant deck
    if client.granted < grant then do
      .modify (·.update deck fun client ↦ { client with granted := grant })
      sendMsg fails ⟨deck, grant, .time⟩
    else pure ()

def updateGrants : Action Unit := do
  let hub ← .get
  hub.decks.forM (updateGrant fails)

/-- What the hub's loop can come to next. -/
inductive Event
  | accept
  | drop (deck : ℕ)
  | message (deck kind t : ℕ) (payload : Frame)
  | pushReplay
  | updateGrants
  deriving DecidableEq

def step : Event → Action Unit
  | .accept => .modify Hub.accept
  | .drop deck => .modify (·.drop deck)
  | .message deck kind t payload => do
    let hub ← .get
    if deck ∈ hub.decks then message fails deck kind t payload else pure ()
  | .pushReplay => pushReplay fails
  | .updateGrants => updateGrants fails

def run (events : List Event) : Action Unit := events.forM (step fails)

end Actions

end Cdj2000Emulator.Link.SyncHub
