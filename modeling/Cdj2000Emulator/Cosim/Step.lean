import Cdj2000Emulator.Cosim.Receiver

namespace Cdj2000Emulator.Cosim.Step

open Library.Bytes Wire Receiver

/-- What the step sees of the board: whether every CPU is halted without work, and the earliest
of the board's virtual timers, the step's own left out. -/
structure Guest where
  asleep : Bool
  deadline : Option ℤ
  deriving DecidableEq

/-- What the board sends. -/
inductive Sent
  | hello
  | time (t promise : ℤ)
  | data (type : Byte) (t : ℤ) (payload : List Byte)
  deriving DecidableEq

/-- `cs` and `ns`, with guest time 0 at the epoch: the link of a board, and the board's clock. -/
structure Port where
  now : ℤ
  timer : Option ℤ
  waiting : Bool
  inbox : Inbox
  reported : ℤ
  promised : ℤ
  guest : Guest
  delivered : List (ℤ × Due)
  sent : List Sent
  deriving DecidableEq

variable (k : Kind) (q : ℤ) (s : Port)

/-- `cosim_deliver`, `netsim_deliver`: each with the guest time it is handed over at. -/
def deliver : Port :=
  if s.inbox.lost.isSome then s
  else { s with
    inbox := { s.inbox with due := s.inbox.due.dropWhile (·.due ≤ s.now) }
    delivered := s.delivered ++ (s.inbox.due.takeWhile (·.due ≤ s.now)).map (s.now, ·) }

/-- `cosim_promise`, `netsim_promise`. -/
def promise : ℤ :=
  if ¬s.guest.asleep then s.now
  else
    let promise := match s.guest.deadline with
      | none => 2 ^ 63 - 1
      | some deadline => s.now + max (deadline - s.now) 0
    let promise := match s.inbox.due.head? with
      | none => promise
      | some d => if d.due < promise then d.due else promise
    let promise := if s.inbox.peerPromise + q < promise then s.inbox.peerPromise + q else promise
    if s.now < promise then promise else s.now

/-- `cosim_send`, `netsim_send_msg`, of a message stamped with the guest time. -/
def send (message : Sent) : Port :=
  if s.inbox.lost.isSome then s
  else { s with
    sent := s.sent ++ [message]
    reported := if s.reported < s.now then s.now else s.reported }

/-- `cosim_report`, `netsim_report`. -/
def report (promise : ℤ) : Port := { send s (.time s.now promise) with promised := promise }

def rearm : Port :=
  let p := promise q s
  let s := if s.promised < p then report s p else s
  let next := s.inbox.peerPromise + q
  let next :=
    if p = s.now then if s.reported + q / 2 < next then s.reported + q / 2 else next
    else if p < next then p else next
  let next := match s.inbox.due.head? with
    | none => next
    | some d => if d.due < next then d.due else next
  let next := if next ≤ s.now then s.now + 1 else next
  { s with timer := some next, waiting := false }

/-- The wait is entered, or entered again, while the board is a whole latency ahead. -/
def settle : Port :=
  if s.inbox.peerPromise + q ≤ s.now then
    let p := promise q s
    let s := if s.reported ≠ s.now ∨ p ≠ s.promised then report s p else s
    { s with waiting := true }
  else rearm q s

/-- What the peer has sent is taken in and handed over, which may wake the board. -/
def take (reads : List ℕ) (woken : Guest) : Port :=
  { deliver { s with inbox := s.inbox.drain k q reads } with guest := woken }

/-- `cosim_step`, `netsim_step`, up to the wait or to their end. -/
def fire (reads : List ℕ) (woken : Guest) : Port :=
  let s := take k q { s with timer := none } reads woken
  if s.inbox.lost.isSome then s
  else
    let p := promise q s
    settle q (if q / 2 ≤ s.now - s.reported ∨ s.promised < p then report s p else s)

def wake (reads : List ℕ) (woken : Guest) : Port :=
  let s := take k q s reads woken
  if s.inbox.lost.isSome then { s with waiting := false } else settle q s

/-- What happens on the board: its program sleeps, wakes or sets timers, time passes, the
program sends, the step's timer fires, and the wait of a step sees something on the wire. -/
inductive Action
  | guest (g : Guest)
  | advance (t : ℤ)
  | send (type : Byte) (payload : List Byte)
  | fire (reads : List ℕ) (woken : Guest)
  | wake (reads : List ℕ) (woken : Guest)

def Enabled : Action → Prop
  | .guest _ => s.waiting = false
  | .advance t => s.waiting = false ∧ s.now ≤ t ∧ ∀ due ∈ s.timer, t ≤ due
  | .send _ _ => s.waiting = false
  | .fire _ _ => s.waiting = false ∧ s.timer = some s.now
  | .wake _ _ => s.waiting = true

instance : (a : Action) → Decidable (Enabled s a)
  | .guest _ => inferInstanceAs (Decidable (_ = _))
  | .advance _ => inferInstanceAs (Decidable (_ ∧ _))
  | .send _ _ => inferInstanceAs (Decidable (_ = _))
  | .fire _ _ => inferInstanceAs (Decidable (_ ∧ _))
  | .wake _ _ => inferInstanceAs (Decidable (_ = _))

def act : Action → Port
  | .guest g => { s with guest := g }
  | .advance t => { s with now := t }
  | .send type payload => send s (.data type s.now payload)
  | .fire reads woken => fire k q s reads woken
  | .wake reads woken => wake k q s reads woken

/-- The connection is up: `cosim_connected`, or the end of `cdj_netsim_init`. The first step
comes after half a latency, or at once where the first step made the connection. -/
def start (timer : ℤ) (guest : Guest) (unread : List Byte) : Port where
  now := 0
  timer := some timer
  waiting := false
  inbox := ⟨[], unread, [], 0, 0, none⟩
  reported := 0
  promised := 0
  guest
  delivered := []
  sent := [.hello]

end Cdj2000Emulator.Cosim.Step
