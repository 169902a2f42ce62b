import Cdj2000Emulator.Sh7764Eth.Transmit

namespace Cdj2000Emulator.Sh7764Eth.Rings

open Library.Bytes Library.Store Library.Monitor Model Descriptors Receive Transmit

variable {s t : Eth} {a b n m c : ℕ} {queue : List (List Slot)}

/-- Received frames are stored whole or not at all, and a transmit request sends all that is
queued, up to the device's bound on descriptors. -/
theorem rings_whole (h : RingReady s a n) (frames : List (List Byte)) (h' : Queued t b m c queue)
    (hbound : queue.flatten.length ≤ maxDesc) :
    Observer.Throughout (fun s frame ↦ (receive s frame).2) (Whole a n) s frames ∧
      Sends t (writeReg t 8 1).2 b m c queue ∧
      ((writeReg t 8 1).1 = true ↔ queue.flatten.length < maxDesc) :=
  ⟨frames_whole h frames, request_spec h' hbound⟩

section Example

def descBytes (d : Descriptor) : List Byte :=
  wordBytes d.status ++ wordBytes d.size ++ wordBytes d.buffer ++ List.replicate 4 0

/-- A ring at the start of the guest's memory. -/
def ringRam (descs : List Descriptor) : ℕ → Byte :=
  write (fun _ ↦ 0) 0x04000000 (descs.flatMap descBytes)

/-- A device with its rings at the start of the guest's memory. -/
def device (ram : ℕ → Byte) (cursor : Word) : Eth where
  regs o := match o with
    | 0 => 0x40
    | 0x10 => 1
    | 0x18 => 0x04000000
    | 0x20 => 0x04000000
    | 0x100 => 0x60
    | _ => 0
  txCursor := cursor
  rxCursor := cursor
  link := true
  rawLmon := true
  error := none
  board := ⟨ram, true, []⟩

/-- Two buffers of 64 bytes, the second at `buffer`. -/
def receiving (buffer : Word) : Eth :=
  device (ringRam [⟨0x80000000, 0x00400000, 0x04001000⟩, ⟨0xc0000000, 0x00400000, buffer⟩])
    0x04000000

theorem receiving_ready : RingReady (receiving 0x04002000) 0x04000000 2 := by
  refine ⟨⟨by decide, by decide, by decide, by decide, ?_⟩, rfl, ⟨0, by decide, rfl⟩, ?_, ?_, ?_⟩
  all_goals decide +kernel

/-- A frame of 40 bytes over the end of the ring. -/
def sending : Eth :=
  device (ringRam [⟨0x90000000, 0x00140000, 0x04001000⟩, ⟨0xe0000000, 0x00140000, 0x04002000⟩])
    0x04000010

def sendingQueue : List (List Slot) :=
  [[slotAt sending.board.ram 0x04000000 1, slotAt sending.board.ram 0x04000000 0]]

theorem sending_queued : Queued sending 0x04000000 2 1 sendingQueue := by
  refine ⟨⟨by decide, by decide, by decide, by decide, ?_⟩, rfl, by decide, rfl, rfl, rfl, by decide,
    rfl, rfl, ⟨[], ?_, nofun⟩, ?_, ?_, ?_⟩
  all_goals decide +kernel

/-- A frame for everybody. -/
def greeting (n : ℕ) : List Byte := List.replicate 6 255 ++ List.replicate n 1

theorem rings_whole_example :
    (contents (receive (receiving 0x04002000) (greeting 90)).2.board.ram
        (slotsFrom (receiving 0x04002000).board.ram 0x04000000 2 0) 96 = greeting 90 ∧
      Observer.Throughout (fun s frame ↦ (receive s frame).2) (Whole 0x04000000 2)
        (receiving 0x04002000) [greeting 90, greeting 54]) ∧
    (writeReg sending 8 1).2.board.sent = [List.replicate 60 0] ∧
      Sends sending (writeReg sending 8 1).2 0x04000000 2 1 sendingQueue ∧
      ((writeReg sending 8 1).1 = true ↔ sendingQueue.flatten.length < maxDesc) :=
  ⟨⟨by decide +kernel, (rings_whole receiving_ready [greeting 90, greeting 54] sending_queued
      (by decide)).1⟩, by decide +kernel,
    (rings_whole receiving_ready [] sending_queued (by decide)).2⟩

/-- A ring of 129 frames of one descriptor, byte by byte. -/
def crowded : Eth :=
  device (fun i ↦
    if i < 0x04000000 then 0
    else
      match (i - 0x04000000) % 16 with
      | 3 => if (i - 0x04000000) / 16 = 128 then 0xf0 else 0xb0
      | 6 => 0x40
      | 10 => 0x01
      | 11 => 0x04
      | _ => 0) 0x04000000

def crowdedQueue (i k : ℕ) : List (List Slot) :=
  (List.range' i k).map fun i ↦ [slotAt crowded.board.ram 0x04000000 i]

theorem crowded_queued :
    Queued crowded 0x04000000 129 0 (crowdedQueue 0 128 ++ crowdedQueue 128 1) := by
  have ring : Ring crowded.board.ram 0x04000000 129 := by
    refine ⟨by decide, by decide, by decide, by decide, ?_⟩
    decide +kernel
  have slots : slotsFrom crowded.board.ram 0x04000000 129 0 =
      (crowdedQueue 0 128 ++ crowdedQueue 128 1).flatten ++ [] := by
    decide +kernel
  refine ⟨ring, rfl, by decide, rfl, rfl, rfl, by decide, rfl, rfl, ⟨[], slots, nofun⟩, ?_, ?_, ?_⟩
  all_goals decide +kernel

theorem length_crowdedQueue (i k : ℕ) : (crowdedQueue i k).flatten.length = k := by
  simp [crowdedQueue, List.length_flatten, Function.comp_def]

/-- With the second buffer outside the guest's memory, a frame is left half stored; and a request
leaves the last of 129 descriptors queued. -/
theorem rings_partial :
    (Accepts (receiving 0x0c000000) (greeting 90) ∧
      room (slotsFrom (receiving 0x0c000000).board.ram 0x04000000 2 0) = 128 ∧
      (receive (receiving 0x0c000000) (greeting 90)).1 = false ∧
      read (receive (receiving 0x0c000000) (greeting 90)).2.board.ram 0x04001000 64 =
        (greeting 90).take 64 ∧
      (descRead (receive (receiving 0x0c000000) (greeting 90)).2.board.ram 0x04000000).active =
        false) ∧
    Queued crowded 0x04000000 129 0 (crowdedQueue 0 128 ++ crowdedQueue 128 1) ∧
      (writeReg crowded 8 1).1 = false ∧ (writeReg crowded 8 1).2.board.sent.length = 128 ∧
      (descRead (writeReg crowded 8 1).2.board.ram 0x04000800).active = true := by
  refine ⟨by decide +kernel, crowded_queued, ?_⟩
  obtain ⟨hfalse, hsends, hrest⟩ := request_bounded crowded_queued (length_crowdedQueue 0 128)
  refine ⟨hfalse, ?_, ?_⟩
  · rw [hsends.sent, List.length_append, List.length_map, crowdedQueue, List.length_map,
      List.length_range']
    rfl
  · have hmem : slotAt crowded.board.ram 0x04000000 128 ∈ (crowdedQueue 128 1).flatten :=
      List.mem_flatten.mpr ⟨_, List.mem_singleton_self _, List.mem_singleton_self _⟩
    have hdesc := hrest _ hmem
    change descRead _ 0x04000800 = _ at hdesc
    rw [hdesc]
    decide +kernel

end Example

end Cdj2000Emulator.Sh7764Eth.Rings
