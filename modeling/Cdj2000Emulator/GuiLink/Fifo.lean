import Cdj2000Emulator.GuiLink.Line

namespace Cdj2000Emulator.GuiLink

open Library Library.Bytes Library.Traces Link Line

inductive Event
  | receive (data : List Byte)
  | write (reg : Reg) (value : BitVec 32)
  | gap
  | watchdog

namespace Event

variable (cfg : Config)

def frees (s : Link) : Event → Option Cause
  | .write .status value =>
    if (s.acknowledge value).status &&& cfg.rxStatus = 0 then some .acknowledged else none
  | .write .control value => if Armed value ∧ ¬Armed s.control then some .rearmed else none
  | .watchdog => some .expired
  | _ => none

def handle (now : ℤ) (s : Link) : Event → Link × List Label
  | .receive data => s.receive cfg now data
  | .write reg value => s.writeReg cfg now reg value
  | .gap => s.rxGapTimer cfg now
  | .watchdog => s.rxWatchdogTimer cfg now

/-- The event with the cause it is for the delivered frame. -/
def labels (now : ℤ) (s : Link) (e : Event) : List Label :=
  (e.frees cfg s).toList.map (.freed now) ++ (e.handle cfg now s).2

/-- Chunks are no longer than the link can receive, the frame length is fixed, and timers expire when
they are due. -/
def Allowed (now : ℤ) (s : Link) : Event → Prop
  | .receive data => (data.length : ℤ) ≤ s.canReceive
  | .write reg value => (s.writeReg cfg now reg value).1.frameLen = s.frameLen
  | .gap => ∃ t, s.rxGap = some t ∧ t ≤ now
  | .watchdog => ∃ t, s.rxWatchdog = some t ∧ t ≤ now

end Event

/-- The link at a time, after an event at that time or later. -/
inductive Step (cfg : Config) : ℤ × Link → Event × List Label → ℤ × Link → Prop
  | event {t now : ℤ} {s : Link} {e : Event} : t ≤ now → e.Allowed cfg now s →
      Step cfg (t, s) (e, e.labels cfg now s) (now, (e.handle cfg now s).1)

abbrev Run (cfg : Config) : ℤ × Link → List (Event × List Label) → ℤ × Link → Prop := Path (Step cfg)

def trace (run : List (Event × List Label)) : List Label := run.flatMap Prod.snd

variable {cfg : Config} {L : ℕ} {s t : Link} {w : Line} {now : ℤ}

def Link.waiting (s : Link) : List Frame := s.queue.contents queueMax

/-- The link and the line, but for the timer that the waiting frames need. -/
structure Core (cfg : Config) (L : ℕ) (s : Link) (w : Line) : Prop where
  frameLen : s.frameLen = L
  staged : w.staged = s.rx
  room : s.rx.length < L
  head : s.queue.head < queueMax
  len : s.queue.len ≤ queueMax
  waiting : w.waiting = s.waiting
  pending : s.rxPending = true → w.busy = some s.rxDeliveredNs ∧ s.rxWatchdog = some (s.rxDeliveredNs + watchdogNs)
  free : s.rxPending = false → w.busy = none ∧ s.rxWatchdog = none
  last : ∀ l, w.last = some l → l = s.rxDeliveredNs
  gap : ∀ t, s.rxGap = some t → t ≤ s.rxDeliveredNs + cfg.gapNs

/-- No frame waits without a timer. -/
structure Agrees (cfg : Config) (L : ℕ) (s : Link) (w : Line) : Prop extends Core cfg L s w where
  awake : s.rxPending = false → s.queue.len ≠ 0 → s.rxGap.isSome

theorem Core.congr (h : Core cfg L s w) (hlen : t.frameLen = s.frameLen) (hrx : t.rx = s.rx)
    (hqueue : t.queue = s.queue) (hpending : t.rxPending = s.rxPending)
    (hdelivered : t.rxDeliveredNs = s.rxDeliveredNs) (hwatchdog : t.rxWatchdog = s.rxWatchdog)
    (hgap : t.rxGap = s.rxGap) : Core cfg L t w := by
  have hwaiting : t.waiting = s.waiting := by rw [Link.waiting, Link.waiting, hqueue]
  refine ⟨hlen.trans h.frameLen, ?_, ?_, ?_, ?_, ?_, ?_, ?_, ?_, ?_⟩
  · rw [hrx]
    exact h.staged
  · rw [hrx]
    exact h.room
  · rw [hqueue]
    exact h.head
  · rw [hqueue]
    exact h.len
  · rw [hwaiting]
    exact h.waiting
  · rw [hpending, hdelivered, hwatchdog]
    exact h.pending
  · rw [hpending, hwatchdog]
    exact h.free
  · rw [hdelivered]
    exact h.last
  · rw [hgap, hdelivered]
    exact h.gap

theorem Agrees.congr (h : Agrees cfg L s w) (hlen : t.frameLen = s.frameLen) (hrx : t.rx = s.rx)
    (hqueue : t.queue = s.queue) (hpending : t.rxPending = s.rxPending)
    (hdelivered : t.rxDeliveredNs = s.rxDeliveredNs) (hwatchdog : t.rxWatchdog = s.rxWatchdog)
    (hgap : t.rxGap = s.rxGap) : Agrees cfg L t w := by
  refine ⟨h.toCore.congr hlen hrx hqueue hpending hdelivered hwatchdog hgap, ?_⟩
  rw [hpending, hqueue, hgap]
  exact h.awake

theorem Core.waiting_length (h : Core cfg L s w) : w.waiting.length = s.queue.len := by
  rw [h.waiting, Link.waiting, RingQueue.length_contents]

theorem Core.waiting_le (h : Core cfg L s w) : w.waiting.length ≤ queueMax := h.waiting_length ▸ h.len

theorem Agrees.freed (h : Agrees cfg L s w) (hfree : s.rxPending = false) : Agrees cfg L s { w with busy := none } := by
  refine ⟨⟨h.frameLen, h.staged, h.room, h.head, h.len, h.waiting, ?_, ?_, h.last, h.gap⟩, h.awake⟩
  · intro hpending
    rw [hfree] at hpending
    cases hpending
  · exact fun _ ↦ ⟨rfl, (h.free hfree).2⟩

section Registers

variable {value : BitVec 32}

end Registers

end Cdj2000Emulator.GuiLink
