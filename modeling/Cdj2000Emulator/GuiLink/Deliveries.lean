import Cdj2000Emulator.GuiLink.Fifo

namespace Cdj2000Emulator.GuiLink

open Library Library.Bytes Library.Traces Link Line

variable {cfg : Config} {L : ℕ} {s t : Link} {w : Line} {now t₀ t₁ t₂ : ℤ}
  {run run' : List (Event × List Label)}

section Expiries

end Expiries

/-- A link that no frame has reached, with any registers. -/
structure Fresh (s : Link) : Prop where
  rx : s.rx = []
  head : s.queue.head = 0
  len : s.queue.len = 0
  pending : s.rxPending = false
  delivered : s.rxDeliveredNs = 0
  watchdog : s.rxWatchdog = none
  gap : s.rxGap = none

theorem Fresh.agrees (h : Fresh s) (hlen : s.frameLen = L) (hpos : 0 < L) : Agrees cfg L s start := by
  have hwaiting : s.waiting = [] := List.eq_nil_of_length_eq_zero (RingQueue.length_contents.trans h.len)
  refine ⟨⟨hlen, h.rx.symm, ?_, ?_, ?_, hwaiting.symm, ?_, ?_, ?_, ?_⟩, ?_⟩
  · rw [h.rx]
    exact hpos
  · rw [h.head]
    decide
  · rw [h.len]
    decide
  · rw [h.pending]
    exact fun hfalse ↦ absurd hfalse Bool.false_ne_true
  · exact fun _ ↦ ⟨rfl, h.watchdog⟩
  · exact fun _ hl ↦ absurd hl (Option.some_ne_none _).symm
  · rw [h.gap]
    exact fun _ ht ↦ absurd ht (Option.some_ne_none _).symm
  · exact fun _ hne ↦ absurd h.len hne

/-- What the guest has of the frames that came in, and what it will have. -/
structure Served (cfg : Config) (L : ℕ) (trace : List Label) (s : Link) : Prop where
  /-- The frames are the pieces of the stream. -/
  pieces : received trace = (arrivals trace).flatten ++ s.rx ∧ ∀ f ∈ arrivals trace, f.length = L
  /-- They leave the queue in the order in which they came, each one once. -/
  order : arrivals trace = departures trace ++ s.waiting
  /-- They are delivered as they are, but for the rewriting of requests. -/
  copies : ∀ now buffer frame copy, .delivered now buffer frame copy ∈ trace →
    (∃ next, copy = (rewrite cfg now next frame).1) ∧ (L ≠ 48 → copy = frame)
  spaced : (deliveries trace).IsChain fun d d' : ℤ ↦ d + cfg.gapNs ≤ d'
  /-- A delivered frame is replaced only after it has been acknowledged in full, after the receive
  has been armed again, or 50 ms later. -/
  replaced : ∀ before between after d buffer frame copy d' buffer' frame' copy',
    trace = before ++ .delivered d buffer frame copy :: (between ++ .delivered d' buffer' frame' copy' :: after) →
    ∃ now cause, .freed now cause ∈ between ∧ (cause = .expired → d + 50000000 ≤ now)
  /-- A frame is lost only as the oldest of 64 that wait, when a further one has come in. -/
  lost : ∀ before after frame, trace = before ++ .dropped frame :: after →
    ∃ earlier newest later, before = earlier ++ [.arrived newest] ∧
      arrivals earlier = departures earlier ++ frame :: later ∧ (frame :: later).length = 64
  awake : s.waiting ≠ [] → s.rxPending = true ∧ s.rxWatchdog = some (s.rxDeliveredNs + 50000000) ∨
    ∃ t, s.rxGap = some t ∧ t ≤ s.rxDeliveredNs + cfg.gapNs

section Defaults

/-- The receive half without any switch set. -/
def defaults : Config where
  queueing := true
  handoverOnAnswer := false
  gapNs := 2000000
  oneShot := false
  rxStatus := 4
  reqKind := none
  noCancelMs := none
  onlyCursor := some 1
  statusFresh := true

def armed : Link where
  control := ctrlStart
  buffer := 0x04500000
  length := 48
  r00 := 0
  r40 := 0
  r50 := 0
  status := 0
  enable := 0
  raised := false
  rx := []
  queue := { slots := fun _ ↦ [], head := 0, len := 0 }
  rxPending := false
  rxDeliveredNs := 0
  rxWatchdog := none
  rxGap := none
  nextMs := 0

/-- A status request that the GUI repeats. -/
def repeated : Frame := [0, 0, 0, 0x80] ++ List.replicate 44 0

/-- The request that comes next. -/
def following : Frame := [0, 0, 1, 0] ++ List.replicate 44 0

/-- The second request comes while the first is with the guest, and the acknowledge comes within the gap. -/
def session : List (ℤ × Event) :=
  [(10000000, .receive repeated), (10500000, .receive following), (11000000, .write .status 4), (12000000, .gap)]

def during (n : ℕ) : Link := (session.take n).foldl (fun s (now, e) ↦ (e.handle defaults now s).1) armed

end Defaults

end Cdj2000Emulator.GuiLink
