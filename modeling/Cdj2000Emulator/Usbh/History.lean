import Cdj2000Emulator.Library.Monitor
import Cdj2000Emulator.Library.Since
import Cdj2000Emulator.Usbh.Controller

namespace Cdj2000Emulator.Usbh

open Library.Bytes Library.Monitor Library.Since

/-- A pipe as its users know it: two byte queues and at most one packet in flight. -/
structure Watch where
  unread : List Byte
  zeroLength : Bool
  stopped : Bool
  flying : Option Flight
  unsent : List Byte
  ready : Bool
  /-- The transmit buffer was cleared under a packet in flight. -/
  lost : Bool

namespace Watch

def idle : Watch := ⟨[], false, false, none, [], false, false⟩

def transmitting (w : Watch) : Bool :=
  match w.flying with
  | some (.output _) => true
  | _ => false

/-- What a pipe may do next. -/
def observe (w : Watch) : Entry → Option Watch
  | .token .setup => if w.flying = none then some { w with flying := some .setup } else none
  | .token .input =>
    if w.flying = none ∧ w.unread = [] ∧ w.zeroLength = false ∧ w.stopped = false then
      some { w with flying := some .input }
    else none
  | .token (.output bytes) =>
    if w.flying = none ∧ (w.lost = true ∨ w.ready = true ∧ bytes <+: w.unsent) then
      some { w with flying := some (.output bytes) }
    else none
  | .received bytes last =>
    if w.flying = some .input ∧ w.unread = [] ∧ w.zeroLength = false then
      some { w with flying := none, unread := bytes, zeroLength := bytes.isEmpty, stopped := w.stopped || last }
    else none
  | .sent bytes =>
    if w.lost = true ∨ bytes <+: w.unsent then
      let unsent := w.unsent.drop bytes.length
      some { w with flying := none, unsent := unsent, ready := w.ready && !unsent.isEmpty }
    else none
  | .ended => some { w with flying := none }
  | .taken bytes => if bytes <+: w.unread then some { w with unread := w.unread.drop bytes.length } else none
  | .queued bytes => some { w with unsent := w.unsent ++ bytes }
  | .valid => some { w with ready := true }
  | .readCleared => some { w with unread := [], zeroLength := false }
  | .writeCleared => some { w with unsent := [], ready := false, lost := w.transmitting }
  | .rearmed => some { w with stopped := false }

end Watch

def watcher : Observer Entry Watch := ⟨.idle, Watch.observe⟩

namespace Entry

def arrivedBytes : Entry → List Byte
  | .received bytes _ => bytes
  | _ => []

def handedBytes : Entry → List Byte
  | .taken bytes => bytes
  | _ => []

def writtenBytes : Entry → List Byte
  | .queued bytes => bytes
  | _ => []

def sentBytes : Entry → List Byte
  | .sent bytes => bytes
  | _ => []

def clearsRead : Entry → Bool
  | .readCleared => true
  | _ => false

def clearsWrite : Entry → Bool
  | .writeCleared => true
  | _ => false

def rearms : Entry → Bool
  | .rearmed => true
  | _ => false

/-- A packet without data reaches the buffer. -/
def isZeroLength : Entry → Bool
  | .received bytes _ => bytes.isEmpty
  | _ => false

/-- A packet after which the pipe stops by itself. -/
def isLast : Entry → Bool
  | .received _ last => last
  | _ => false

def leaves (flying : Option Flight) : Entry → Option Flight
  | .token flight => some flight
  | .received _ _ | .sent _ | .ended => none
  | _ => flying

end Entry

variable (history : List Entry)

def arrived : List Byte := (since Entry.clearsRead history).flatMap Entry.arrivedBytes

def handed : List Byte := (since Entry.clearsRead history).flatMap Entry.handedBytes

def zeroLengthUnread : Bool := (since Entry.clearsRead history).any Entry.isZeroLength

def stoppedItself : Bool := (since Entry.rearms history).any Entry.isLast

def written : List Byte := (since Entry.clearsWrite history).flatMap Entry.writtenBytes

def sent : List Byte := (since Entry.clearsWrite history).flatMap Entry.sentBytes

/-- The packet that the device has. -/
def inFlight : Option Flight := history.foldl Entry.leaves none

/-- The last clear of the transmit buffer came while the device had an OUT packet. -/
def CutShort : Prop := ∃ before after bytes, history = before ++ .writeCleared :: after ∧
  .writeCleared ∉ after ∧ inFlight before = some (.output bytes)

variable {history}

/-- The fields of the watch say what the history does. -/
structure Watch.Tells (w : Watch) (history : List Entry) : Prop where
  read : handed history ++ w.unread = arrived history
  zeroLength : w.zeroLength = zeroLengthUnread history
  stopped : w.stopped = stoppedItself history
  flying : w.flying = inFlight history
  write : w.lost = false → sent history ++ w.unsent = written history
  lost : w.lost = true → CutShort history

theorem CutShort.snoc {e : Entry} (h : CutShort history) (hne : e ≠ .writeCleared) : CutShort (history ++ [e]) := by
  obtain ⟨before, after, bytes, rfl, hafter, hflying⟩ := h
  refine ⟨before, after ++ [e], bytes, by rw [List.append_assoc, List.cons_append], ?_, hflying⟩
  rw [List.mem_append, List.mem_singleton]
  rintro (h | h)
  · exact hafter h
  · exact hne h.symm

section Snoc

variable {e : Entry}

theorem arrived_snoc : arrived (history ++ [e]) = if e.clearsRead then [] else arrived history ++ e.arrivedBytes :=
  flatMap_since_snoc

theorem handed_snoc : handed (history ++ [e]) = if e.clearsRead then [] else handed history ++ e.handedBytes :=
  flatMap_since_snoc

theorem written_snoc : written (history ++ [e]) = if e.clearsWrite then [] else written history ++ e.writtenBytes :=
  flatMap_since_snoc

theorem sent_snoc : sent (history ++ [e]) = if e.clearsWrite then [] else sent history ++ e.sentBytes :=
  flatMap_since_snoc

theorem zeroLengthUnread_snoc :
    zeroLengthUnread (history ++ [e]) = if e.clearsRead then false else zeroLengthUnread history || e.isZeroLength :=
  any_since_snoc

theorem stoppedItself_snoc :
    stoppedItself (history ++ [e]) = if e.rearms then false else stoppedItself history || e.isLast :=
  any_since_snoc

theorem inFlight_snoc {flying : Option Flight} (h : e.leaves (inFlight history) = flying) :
    flying = inFlight (history ++ [e]) := by
  rw [inFlight, List.foldl_append, ← h]
  rfl

end Snoc

namespace Watch

variable {w w' : Watch} {e : Entry}

/-- The entries that have nothing to do with the transmit buffer leave what is known of it. -/
theorem Tells.write_snoc (h : w.Tells history) (hclear : e.clearsWrite = false) (hwritten : e.writtenBytes = [])
    (hsent : e.sentBytes = []) (hlost : w.lost = false) :
    sent (history ++ [e]) ++ w.unsent = written (history ++ [e]) := by
  rw [sent_snoc, written_snoc, hclear, hwritten, hsent]
  simpa using h.write hlost

theorem Tells.read_snoc (h : w.Tells history) (hclear : e.clearsRead = false) (harrived : e.arrivedBytes = [])
    (hhanded : e.handedBytes = []) : handed (history ++ [e]) ++ w.unread = arrived (history ++ [e]) := by
  rw [handed_snoc, arrived_snoc, hclear, harrived, hhanded]
  simpa using h.read

theorem Tells.snoc_quiet (h : w.Tells history) (hread : e.clearsRead = false) (hwrite : e.clearsWrite = false)
    (hrearms : e.rearms = false) (hmoves : e.arrivedBytes = [] ∧ e.handedBytes = [] ∧ e.writtenBytes = [] ∧
    e.sentBytes = [])
    (hzero : e.isZeroLength = false) (hlast : e.isLast = false) {flying : Option Flight} {ready : Bool}
    (hflying : flying = inFlight (history ++ [e])) :
    Tells { w with flying := flying, ready := ready } (history ++ [e]) where
  read := h.read_snoc hread hmoves.1 hmoves.2.1
  zeroLength := by rw [zeroLengthUnread_snoc, hread, hzero]; simpa using h.zeroLength
  stopped := by rw [stoppedItself_snoc, hrearms, hlast]; simpa using h.stopped
  flying := hflying
  write := h.write_snoc hwrite hmoves.2.2.1 hmoves.2.2.2
  lost hlost := (h.lost hlost).snoc (by rintro rfl; cases hwrite)

theorem Tells.snoc (h : w.Tells history) (hw : w.observe e = some w') : w'.Tells (history ++ [e]) := by
  have hread := h.read
  have hflying := h.flying
  cases e with
  | token flight =>
    obtain rfl : { w with flying := some flight } = w' := by
      cases flight <;> simp only [observe, Option.ite_none_right_eq_some, Option.some_inj] at hw <;> exact hw.2
    exact h.snoc_quiet rfl rfl rfl ⟨rfl, rfl, rfl, rfl⟩ rfl rfl (inFlight_snoc rfl)
  | received bytes last =>
    simp only [observe, Option.ite_none_right_eq_some, Option.some_inj] at hw
    obtain ⟨⟨hin, hempty, hzero⟩, rfl⟩ := hw
    refine ⟨?_, ?_, ?_, inFlight_snoc rfl, h.write_snoc rfl rfl rfl, fun hlost ↦ (h.lost hlost).snoc (by simp)⟩
    · rw [hempty, List.append_nil] at hread
      rw [handed_snoc, arrived_snoc, ← hread]
      simp [Entry.clearsRead, Entry.arrivedBytes, Entry.handedBytes]
    · rw [zeroLengthUnread_snoc, ← h.zeroLength, hzero]
      rfl
    · rw [stoppedItself_snoc, ← h.stopped]
      rfl
  | sent bytes =>
    simp only [observe, Option.ite_none_right_eq_some, Option.some_inj] at hw
    obtain ⟨hfits, rfl⟩ := hw
    refine ⟨h.read_snoc rfl rfl rfl, ?_, ?_, inFlight_snoc rfl, fun hlost ↦ ?_,
      fun hlost ↦ (h.lost hlost).snoc (by simp)⟩
    · rw [zeroLengthUnread_snoc, ← h.zeroLength]
      simp [Entry.clearsRead, Entry.isZeroLength]
    · rw [stoppedItself_snoc, ← h.stopped]
      simp [Entry.rearms, Entry.isLast]
    · have hprefix : bytes <+: w.unsent := hfits.resolve_left (by simp_all)
      obtain ⟨rest, hrest⟩ := hprefix
      have hwrite := h.write hlost
      rw [sent_snoc, written_snoc, ← hwrite]
      dsimp only
      rw [← hrest, List.drop_left]
      simp [Entry.clearsWrite, Entry.sentBytes, Entry.writtenBytes]
  | ended =>
    obtain rfl := Option.some_inj.mp hw
    exact h.snoc_quiet rfl rfl rfl ⟨rfl, rfl, rfl, rfl⟩ rfl rfl (inFlight_snoc rfl)
  | taken bytes =>
    simp only [observe, Option.ite_none_right_eq_some, Option.some_inj] at hw
    obtain ⟨⟨rest, hrest⟩, rfl⟩ := hw
    refine ⟨?_, ?_, ?_, ?_, h.write_snoc rfl rfl rfl, fun hlost ↦ (h.lost hlost).snoc (by simp)⟩
    · rw [handed_snoc, arrived_snoc, ← hread]
      dsimp only
      rw [← hrest, List.drop_left]
      simp [Entry.clearsRead, Entry.arrivedBytes, Entry.handedBytes]
    · rw [zeroLengthUnread_snoc, ← h.zeroLength]
      simp [Entry.clearsRead, Entry.isZeroLength]
    · rw [stoppedItself_snoc, ← h.stopped]
      simp [Entry.rearms, Entry.isLast]
    · exact inFlight_snoc hflying.symm
  | queued bytes =>
    obtain rfl := Option.some_inj.mp hw
    refine ⟨h.read_snoc rfl rfl rfl, ?_, ?_, inFlight_snoc hflying.symm, fun hlost ↦ ?_,
      fun hlost ↦ (h.lost hlost).snoc (by simp)⟩
    · rw [zeroLengthUnread_snoc, ← h.zeroLength]
      simp [Entry.clearsRead, Entry.isZeroLength]
    · rw [stoppedItself_snoc, ← h.stopped]
      simp [Entry.rearms, Entry.isLast]
    · have hwrite := h.write hlost
      rw [sent_snoc, written_snoc, ← hwrite]
      simp [Entry.clearsWrite, Entry.sentBytes, Entry.writtenBytes]
  | valid =>
    obtain rfl := Option.some_inj.mp hw
    exact h.snoc_quiet rfl rfl rfl ⟨rfl, rfl, rfl, rfl⟩ rfl rfl (inFlight_snoc hflying.symm)
  | readCleared =>
    obtain rfl := Option.some_inj.mp hw
    refine ⟨?_, ?_, ?_, inFlight_snoc hflying.symm, h.write_snoc rfl rfl rfl,
      fun hlost ↦ (h.lost hlost).snoc (by simp)⟩
    · rw [handed_snoc, arrived_snoc]
      rfl
    · rw [zeroLengthUnread_snoc]
      rfl
    · rw [stoppedItself_snoc, ← h.stopped]
      simp [Entry.rearms, Entry.isLast]
  | writeCleared =>
    obtain rfl := Option.some_inj.mp hw
    refine ⟨h.read_snoc rfl rfl rfl, ?_, ?_, inFlight_snoc hflying.symm, fun hlost ↦ ?_, fun hlost ↦ ?_⟩
    · rw [zeroLengthUnread_snoc, ← h.zeroLength]
      simp [Entry.clearsRead, Entry.isZeroLength]
    · rw [stoppedItself_snoc, ← h.stopped]
      simp [Entry.rearms, Entry.isLast]
    · rw [sent_snoc, written_snoc]
      rfl
    · obtain ⟨bytes, hbytes⟩ : ∃ bytes, w.flying = some (.output bytes) := by
        simp only [transmitting] at hlost
        split at hlost
        · exact ⟨_, by assumption⟩
        · cases hlost
      exact ⟨history, [], bytes, rfl, List.not_mem_nil, hflying.symm.trans hbytes⟩
  | rearmed =>
    obtain rfl := Option.some_inj.mp hw
    refine ⟨h.read_snoc rfl rfl rfl, ?_, ?_, inFlight_snoc hflying.symm, h.write_snoc rfl rfl rfl,
      fun hlost ↦ (h.lost hlost).snoc (by simp)⟩
    · rw [zeroLengthUnread_snoc, ← h.zeroLength]
      simp [Entry.clearsRead, Entry.isZeroLength]
    · rw [stoppedItself_snoc]
      rfl

theorem tells_idle : idle.Tells [] := ⟨rfl, rfl, rfl, rfl, fun _ ↦ rfl, nofun⟩

theorem tells_of_run (h : watcher.run idle history = some w) : w.Tells history := by
  have hsnoc (history : List Entry) (e : Entry) (w w' : Watch) (ht : w.Tells history)
      (he : watcher.step w e = some w') : w'.Tells (history ++ [e]) := ht.snoc he
  have htells := Observer.run_induction (P := fun history w ↦ w.Tells history)
      (fun _ _ _ _ ↦ hsnoc _ _ _ _) tells_idle h
  rwa [List.nil_append] at htells

end Watch

end Cdj2000Emulator.Usbh
