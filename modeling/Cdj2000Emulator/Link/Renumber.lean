import Mathlib.Data.List.GetD
import Cdj2000Emulator.Library.Renaming
import Cdj2000Emulator.Link.SyncHub

namespace Cdj2000Emulator.Link.Renumber

open Ethernet SyncHub Library.Renaming

variable {frame out fresh : Frame} {old new v : Byte} {numbers done : List (Byte × Byte)} {fields ports : List ℕ}
  {sources : List Frame} {start i : ℕ} {image : Byte → Byte} {datagram : Datagram}

def payloadAt (frame : Frame) : ℕ := 14 + (byte frame 14 &&& 15).toNat * 4 + 8

def playerPositions (frame : Frame) : List ℕ :=
  if payloadAt frame + 10 < frame.length then
    ((playerFields (half frame (payloadAt frame - 6)) (byte frame (payloadAt frame + 10))).map
      (payloadAt frame + ·)).filter (· < frame.length)
  else []

def InChecksum (frame : Frame) (i : ℕ) : Prop := i = payloadAt frame - 2 ∨ i = payloadAt frame - 1

/-- The packet with its player numbers mapped, its checksum zeroed if that changes it and nothing else changed. -/
structure Renumbered (image : Byte → Byte) (frame out : Frame) : Prop where
  length : out.length = frame.length
  player : ∀ i ∈ playerPositions frame, byte out i = image (byte frame i)
  zeroed : (∃ i ∈ playerPositions frame, image (byte frame i) ≠ byte frame i) →
    ∀ i, InChecksum frame i → byte out i = 0
  kept : (∀ i ∈ playerPositions frame, image (byte frame i) = byte frame i) →
    ∀ i, InChecksum frame i → byte out i = byte frame i
  other : ∀ i, i ∉ playerPositions frame → ¬InChecksum frame i → byte out i = byte frame i

theorem length_patch (h : start + fresh.length ≤ frame.length) : (patch frame start fresh).length = frame.length := by
  rw [patch, List.length_append, List.length_append, List.length_take, List.length_drop]
  omega

theorem byte_patch (h : start + fresh.length ≤ frame.length) :
    byte (patch frame start fresh) i =
      if start ≤ i ∧ i < start + fresh.length then byte fresh (i - start) else byte frame i := by
  have first : (frame.take start).length = start := List.length_take_of_le (by omega)
  rw [patch, List.append_assoc, byte, byte, byte]
  by_cases before : i < start
  · rw [List.getD_append _ _ _ _ (by omega), if_neg (by omega), List.getD_eq_getElem?_getD,
      List.getElem?_take_of_lt before, ← List.getD_eq_getElem?_getD]
  · rw [List.getD_append_right _ _ _ _ (by omega), first]
    by_cases inside : i < start + fresh.length
    · rw [List.getD_append _ _ _ _ (by omega), if_pos (by omega)]
    · rw [List.getD_append_right _ _ _ _ (by omega), if_neg (by omega), List.getD_eq_getElem?_getD,
        List.getElem?_drop, ← List.getD_eq_getElem?_getD]
      congr 1
      omega

theorem byte_eq (h : i < frame.length) : byte frame i = frame[i] := List.getD_eq_getElem _ _ h

theorem slice_congr {stop : ℕ} (length : out.length = frame.length)
    (same : ∀ i, start ≤ i → i < stop → byte out i = byte frame i) :
    slice out start stop = slice frame start stop := by
  have size : ∀ f : Frame, (slice f start stop).length = min stop f.length - start := by
    intro f
    rw [slice, List.length_drop, List.length_take]
  refine List.ext_getElem (by rw [size, size, length]) fun i left right ↦ ?_
  rw [size] at left right
  have := same (start + i) (by omega) (by omega)
  rw [byte_eq (by omega), byte_eq (by omega)] at this
  simpa only [slice, List.getElem_drop, List.getElem_take] using this

theorem ext_bytes (length : out.length = frame.length) (same : ∀ i, byte out i = byte frame i) : out = frame := by
  refine List.ext_getElem length fun i left right ↦ ?_
  rw [← byte_eq left, ← byte_eq right, same]

theorem payloadAt_form (frame : Frame) : ∃ words, payloadAt frame = 22 + 4 * words := by
  refine ⟨(byte frame 14 &&& 15).toNat, ?_⟩
  rw [payloadAt]
  omega

theorem mem_playerPositions : i ∈ playerPositions frame ↔ payloadAt frame + 10 < frame.length ∧
    i < frame.length ∧
    ∃ field ∈ playerFields (half frame (payloadAt frame - 6)) (byte frame (payloadAt frame + 10)),
      payloadAt frame + field = i := by
  rw [playerPositions]
  split_ifs with long
  · rw [List.mem_filter, List.mem_map, decide_eq_true_eq, and_comm]
    exact (and_iff_right long).symm
  · exact ⟨fun mem ↦ absurd mem List.not_mem_nil, fun ⟨inside, _⟩ ↦ absurd inside long⟩

theorem le_of_mem_playerFields {port field : ℕ} {type : Byte} (h : field ∈ playerFields port type) :
    0x21 ≤ field := by
  rw [playerFields] at h
  split_ifs at h <;> simp at h <;> omega

theorem le_of_mem (h : i ∈ playerPositions frame) : payloadAt frame + 0x21 ≤ i := by
  obtain ⟨-, -, field, mem, rfl⟩ := mem_playerPositions.mp h
  have := le_of_mem_playerFields mem
  omega

/-- Frames that agree outside the player numbers and the checksum. -/
structure Alike (frame out : Frame) : Prop where
  length : out.length = frame.length
  other : ∀ i, i ∉ playerPositions frame → ¬InChecksum frame i → byte out i = byte frame i

theorem Alike.refl : Alike frame frame := ⟨rfl, fun _ _ _ ↦ rfl⟩

theorem Alike.read (h : Alike frame out) (shape : i < payloadAt frame + 0x21) (port : i < payloadAt frame - 2 ∨
    payloadAt frame ≤ i) : byte out i = byte frame i := by
  refine h.other i (fun mem ↦ ?_) fun inside ↦ ?_
  · have := le_of_mem mem
    omega
  · obtain ⟨words, low⟩ := payloadAt_form frame
    rcases inside with rfl | rfl <;> omega

theorem Alike.payloadAt (h : Alike frame out) : payloadAt out = payloadAt frame := by
  obtain ⟨words, low⟩ := payloadAt_form frame
  rw [Renumber.payloadAt, Renumber.payloadAt, h.read (by omega) (by omega)]

theorem Alike.port (h : Alike frame out) :
    half out (Renumber.payloadAt frame - 6) = half frame (Renumber.payloadAt frame - 6) := by
  obtain ⟨words, low⟩ := payloadAt_form frame
  rw [half, half, h.read (by omega) (by omega), h.read (by omega) (by omega)]

theorem Alike.positions (h : Alike frame out) : playerPositions out = playerPositions frame := by
  rw [playerPositions, playerPositions, h.payloadAt, h.length, h.port, h.read (by omega) (by omega)]

def IsUdp (frame : Frame) : Prop :=
  42 ≤ frame.length ∧ slice frame 12 14 = ipv4 ∧ byte frame 23 = 17 ∧ payloadAt frame ≤ frame.length

theorem udp_of_isUdp (h : IsUdp frame) :
    udp frame = some ⟨slice frame 26 30, half frame (payloadAt frame - 6), frame.drop (payloadAt frame)⟩ := by
  obtain ⟨long, type, protocol, room⟩ := h
  rw [payloadAt] at room
  have at_port : payloadAt frame - 6 = 14 + (byte frame 14 &&& 15).toNat * 4 + 2 := by
    rw [payloadAt]
    omega
  have first : ¬(frame.length < 42 ∨ slice frame 12 14 ≠ ipv4 ∨ byte frame 23 ≠ 17) := by
    rintro (short | other | other)
    · omega
    · exact other type
    · exact other protocol
  rw [udp, if_neg first, at_port]
  exact if_neg (by omega)

theorem isUdp_of_udp (h : udp frame = some datagram) : IsUdp frame := by
  rw [udp] at h
  by_cases first : frame.length < 42 ∨ slice frame 12 14 ≠ ipv4 ∨ byte frame 23 ≠ 17
  · rw [if_pos first] at h
    cases h
  · rw [if_neg first] at h
    have room : ¬frame.length < payloadAt frame := by
      intro short
      rw [payloadAt] at short
      rw [if_pos short] at h
      cases h
    simp only [not_or, not_not, not_lt] at first room
    exact ⟨first.1, first.2.1, first.2.2, room⟩

theorem Alike.isUdp (h : Alike frame out) (isUdp : IsUdp frame) : IsUdp out := by
  obtain ⟨long, type, protocol, room⟩ := isUdp
  obtain ⟨words, low⟩ := payloadAt_form frame
  refine ⟨h.length ▸ long, ?_, ?_, ?_⟩
  · rw [← type]
    exact slice_congr h.length fun i _ _ ↦ h.read (by omega) (by omega)
  · rw [← protocol]
    exact h.read (by omega) (by omega)
  · rwa [h.payloadAt, h.length]

theorem fields_foldl (fields : List ℕ) (old new : Byte) {payload acc : Frame}
    (long : acc.length = start + payload.length) :
    let out := fields.foldl (fun out field ↦
      if field < payload.length ∧ byte payload field = old then patch out (start + field) [new] else out) acc
    out.length = acc.length ∧
      (∀ field ∈ fields, field < payload.length → byte payload field = old → byte out (start + field) = new) ∧
      ∀ i, (∀ field ∈ fields, field < payload.length → byte payload field = old → start + field ≠ i) →
        byte out i = byte acc i := by
  induction fields using List.reverseRecOn with
  | nil => exact ⟨rfl, nofun, fun _ _ ↦ rfl⟩
  | append_singleton fields last ih =>
    obtain ⟨length, written, others⟩ := ih
    simp only [List.foldl_append, List.foldl_cons, List.foldl_nil]
    set out := fields.foldl _ acc
    have earlier : ∀ i, (∀ field ∈ fields ++ [last], field < payload.length → byte payload field = old →
        start + field ≠ i) → ∀ field ∈ fields, field < payload.length → byte payload field = old →
        start + field ≠ i := fun i h field mem ↦ h field (List.mem_append_left _ mem)
    split_ifs with taken
    · have fits : start + last + [new].length ≤ out.length := by
        rw [length, long, List.length_singleton]
        omega
      have bytes : ∀ i, byte (patch out (start + last) [new]) i = if i = start + last then new else byte out i := by
        intro i
        rw [byte_patch fits, List.length_singleton]
        by_cases at_last : i = start + last
        · subst at_last
          rw [if_pos (by omega), if_pos rfl, Nat.sub_self]
          rfl
        · rw [if_neg (by omega), if_neg at_last]
      refine ⟨by rw [length_patch fits, length], fun field mem inside same ↦ ?_, fun i outside ↦ ?_⟩
      · rw [bytes]
        split_ifs with again
        · rfl
        · have first : field ∈ fields := by
            rcases List.mem_append.mp mem with mem | mem
            · exact mem
            · exact absurd (congrArg (start + ·) (List.mem_singleton.mp mem)) again
          exact written field first inside same
      · have apart := outside last (List.mem_append_right _ (List.mem_singleton_self _)) taken.1 taken.2
        rw [bytes, if_neg (Ne.symm apart), others i (earlier i outside)]
    · refine ⟨length, fun field mem inside same ↦ ?_, fun i outside ↦ others i (earlier i outside)⟩
      rcases List.mem_append.mp mem with mem | mem
      · exact written field mem inside same
      · rw [List.mem_singleton.mp mem] at inside same
        exact absurd ⟨inside, same⟩ taken

/-- What a pass changes. -/
def Touched (frame : Frame) (old new : Byte) : Prop := old ≠ new ∧
    ∃ i ∈ playerPositions frame, byte frame i = old

def written (frame : Frame) (old new : Byte) : Frame :=
  let payload := frame.drop (payloadAt frame)
  let fields := if 10 < payload.length then
      playerFields (half frame (payloadAt frame - 6)) (byte payload 10) else []
  fields.foldl (fun out field ↦
    if field < payload.length ∧ byte payload field = old then
      patch out (payloadAt frame + field) [new] else out) frame

theorem renumber_eq (h : IsUdp frame) : renumber frame old new =
    if written frame old new ≠ frame then patch (written frame old new) (payloadAt frame - 2) [0, 0]
    else written frame old new := by
  have start : frame.length - (frame.drop (payloadAt frame)).length = payloadAt frame := by
    rw [List.length_drop]
    have := h.2.2.2
    omega
  rw [renumber, udp_of_isUdp h]
  simp only [start]
  rfl

theorem byte_drop {n : ℕ} : byte (frame.drop n) i = byte frame (n + i) := by
  rw [byte, byte, List.getD_eq_getElem?_getD, List.getElem?_drop, ← List.getD_eq_getElem?_getD]

theorem written_spec (old new : Byte) (h : IsUdp frame) :
    (written frame old new).length = frame.length ∧
      (∀ i ∈ playerPositions frame, byte (written frame old new) i = if byte frame i = old then
        new else byte frame i) ∧
      ∀ i, i ∉ playerPositions frame → byte (written frame old new) i = byte frame i := by
  have size : frame.length = payloadAt frame + (frame.drop (payloadAt frame)).length := by
    rw [List.length_drop]
    have := h.2.2.2
    omega
  have dropped : (frame.drop (payloadAt frame)).length = frame.length - payloadAt frame := List.length_drop
  rw [written]
  simp only [byte_drop, dropped]
  by_cases long : 10 < frame.length - payloadAt frame
  · rw [if_pos long]
    obtain ⟨length, hit, missed⟩ := fields_foldl
      (playerFields (half frame (payloadAt frame - 6)) (byte frame (payloadAt frame + 10))) old new size
    simp only [byte_drop, dropped] at length hit missed
    refine ⟨length, fun i mem ↦ ?_, fun i outside ↦ ?_⟩
    · obtain ⟨-, inside, field, table, rfl⟩ := mem_playerPositions.mp mem
      split_ifs with same
      · exact hit field table (by omega) same
      · refine missed _ fun other _ _ equal at_field ↦ same ?_
        rw [← at_field, equal]
    · refine missed _ fun field table inside _ at_field ↦ outside ?_
      exact mem_playerPositions.mpr ⟨by omega, by omega, field, table, at_field⟩
  · rw [if_neg long]
    refine ⟨rfl, fun i mem ↦ ?_, fun _ _ ↦ rfl⟩
    have := (mem_playerPositions.mp mem).1
    omega

theorem written_ne_iff (h : IsUdp frame) : written frame old new ≠ frame ↔ Touched frame old new := by
  obtain ⟨length, players, others⟩ := written_spec old new h
  constructor
  · intro changed
    by_contra untouched
    refine changed (ext_bytes length fun i ↦ ?_)
    by_cases mem : i ∈ playerPositions frame
    · rw [players i mem]
      split_ifs with same
      · by_contra apart
        exact untouched ⟨fun equal ↦ apart (equal ▸ same.symm), i, mem, same⟩
      · rfl
    · exact others i mem
  · rintro ⟨apart, i, mem, same⟩ equal
    have := players i mem
    rw [equal, if_pos same, same] at this
    exact apart this

theorem renumber_pass (old new : Byte) (h : IsUdp frame) :
    (renumber frame old new).length = frame.length ∧
      (∀ i ∈ playerPositions frame, byte (renumber frame old new) i = if byte frame i = old then
        new else byte frame i) ∧
      (Touched frame old new → ∀ i, InChecksum frame i → byte (renumber frame old new) i = 0) ∧
      (¬Touched frame old new → ∀ i, InChecksum frame i → byte (renumber frame old new) i = byte frame i) ∧
      ∀ i, i ∉ playerPositions frame → ¬InChecksum frame i → byte (renumber frame old new) i =
        byte frame i := by
  obtain ⟨length, players, others⟩ := written_spec old new h
  obtain ⟨words, low⟩ := payloadAt_form frame
  have apart : ∀ i, InChecksum frame i → i ∉ playerPositions frame := by
    intro i inside mem
    have := le_of_mem mem
    rcases inside with rfl | rfl <;> omega
  rw [renumber_eq h]
  by_cases touched : Touched frame old new
  · have fits : payloadAt frame - 2 + [(0 : Byte), 0].length ≤ (written frame old new).length := by
      have := h.2.2.2
      rw [length, List.length_cons, List.length_singleton]
      omega
    have kept : ∀ i, ¬InChecksum frame i →
        byte (patch (written frame old new) (payloadAt frame - 2) [0, 0]) i = byte (written frame old new) i := by
      intro i outside
      rw [byte_patch fits, if_neg]
      rw [InChecksum, not_or] at outside
      rw [List.length_cons, List.length_singleton]
      omega
    rw [if_pos ((written_ne_iff h).mpr touched)]
    refine ⟨by rw [length_patch fits, length], fun i mem ↦ ?_, fun _ i inside ↦ ?_, absurd touched,
      fun i mem outside ↦ ?_⟩
    · rw [kept i fun inside ↦ apart i inside mem, players i mem]
    · rw [byte_patch fits, List.length_cons, List.length_singleton]
      rcases inside with rfl | rfl
      · rw [if_pos (by omega), Nat.sub_self]
        rfl
      · have second : payloadAt frame - 1 - (payloadAt frame - 2) = 1 := by omega
        rw [if_pos (by omega), second]
        rfl
    · rw [kept i outside, others i mem]
  · rw [if_neg (mt (written_ne_iff h).mp touched)]
    exact ⟨length, players, fun changed ↦ absurd changed touched, fun _ i inside ↦ others i (apart i inside),
      fun i mem _ ↦ others i mem⟩

def renumberAll (numbers : List (Byte × Byte)) (frame : Frame) : Frame :=
  numbers.foldl (fun frame (old, new) ↦ renumber frame old new) frame

def Changes (numbers : List (Byte × Byte)) (frame : Frame) : Prop :=
  ∃ i ∈ playerPositions frame, atOnce numbers (byte frame i) ≠ byte frame i

/-- What the entries leave: the numbers renamed one entry after another, the checksum zeroed if the map changes one. -/
structure Passed (numbers : List (Byte × Byte)) (frame out : Frame) : Prop extends Alike frame out where
  player : ∀ i ∈ playerPositions frame, byte out i = stepwise numbers (byte frame i)
  zeroed : Changes numbers frame → ∀ i, InChecksum frame i → byte out i = 0
  kept : ¬Changes numbers frame → ∀ i, InChecksum frame i → byte out i = byte frame i

theorem distinct_concat (distinct : ((done ++ [(old, new)]).map Prod.fst).Nodup) :
    (done.map Prod.fst).Nodup ∧ old ∉ done.map Prod.fst := by
  rw [List.map_append, List.nodup_append] at distinct
  exact ⟨distinct.1, fun mem ↦ distinct.2.2 old mem old (List.mem_singleton_self old) rfl⟩

theorem Passed.touched_iff (h : Passed done frame out) (distinct : ((done ++ [(old, new)]).map Prod.fst).Nodup) :
    Changes (done ++ [(old, new)]) frame ↔ Changes done frame ∨ Touched out old new := by
  obtain ⟨earlier, fresh⟩ := distinct_concat distinct
  have single : ∀ v, atOnce [(old, new)] v = if v = old then new else v := fun _ ↦ rfl
  constructor
  · rintro ⟨i, mem, changes⟩
    by_cases known : byte frame i ∈ done.map Prod.fst
    · rw [atOnce_append_of_mem known] at changes
      exact .inl ⟨i, mem, changes⟩
    · rw [atOnce_append known, single] at changes
      split_ifs at changes with same
      · refine .inr ⟨fun equal ↦ changes (equal ▸ same.symm), i, h.positions ▸ mem, ?_⟩
        rw [h.player i mem, stepwise_of_notMem known, same]
      · exact absurd rfl changes
  · rintro (⟨i, mem, changes⟩ | ⟨apart, i, mem, same⟩)
    · have known : byte frame i ∈ done.map Prod.fst := by
        by_contra unknown
        exact changes (atOnce_of_notMem unknown)
      exact ⟨i, mem, by rwa [atOnce_append_of_mem known]⟩
    · rw [h.positions] at mem
      rw [h.player i mem] at same
      refine ⟨i, mem, ?_⟩
      by_cases known : byte frame i ∈ done.map Prod.fst
      · rw [atOnce_append_of_mem known]
        refine atOnce_ne_of_stepwise_ne earlier fun still ↦ fresh ?_
        rwa [← same, still]
      · rw [stepwise_of_notMem known] at same
        rw [atOnce_append known, single, if_pos same, same]
        exact Ne.symm apart

/-- One more entry. -/
theorem Passed.pass (h : Passed done frame out) (isUdp : IsUdp frame)
    (distinct : ((done ++ [(old, new)]).map Prod.fst).Nodup) :
    Passed (done ++ [(old, new)]) frame (renumber out old new) := by
  obtain ⟨length, players, zeroed, kept, others⟩ := renumber_pass old new (h.isUdp isUdp)
  have checksum : ∀ i, InChecksum out i ↔ InChecksum frame i := by
    intro i
    rw [InChecksum, InChecksum, h.payloadAt]
  rw [h.positions] at players others
  refine ⟨⟨length.trans h.length, fun i mem outside ↦ ?_⟩, fun i mem ↦ ?_, fun changes i inside ↦ ?_,
    fun unchanged i inside ↦ ?_⟩
  · rw [others i mem (mt (checksum i).mp outside), h.other i mem outside]
  · rw [players i mem, h.player i mem, stepwise_concat]
  · by_cases touched : Touched out old new
    · exact zeroed touched i ((checksum i).mpr inside)
    · rw [kept touched i ((checksum i).mpr inside)]
      exact h.zeroed (((h.touched_iff distinct).mp changes).resolve_right touched) i inside
  · rw [h.touched_iff distinct, not_or] at unchanged
    rw [kept unchanged.2 i ((checksum i).mpr inside), h.kept unchanged.1 i inside]

theorem passed_renumberAll (isUdp : IsUdp frame) (distinct : (numbers.map Prod.fst).Nodup) :
    Passed numbers frame (renumberAll numbers frame) := by
  induction numbers using List.reverseRecOn with
  | nil => exact ⟨.refl, fun _ _ ↦ rfl, fun ⟨_, _, changes⟩ ↦ absurd rfl changes, fun _ _ _ ↦ rfl⟩
  | append_singleton done entry ih =>
    have earlier : (done.map Prod.fst).Nodup := by
      rw [List.map_append] at distinct
      exact distinct.of_append_left
    rw [renumberAll, List.foldl_append]
    exact (ih earlier).pass isUdp distinct

/-- A packet is renumbered at once exactly if what the map makes of each of its player numbers is settled. -/
theorem renumbered_iff (distinct : (numbers.map Prod.fst).Nodup) (h : replayed sources numbers ports frame = some out) :
    Renumbered (atOnce numbers) frame out ↔ ∀ i ∈ playerPositions frame, Settled numbers (byte frame i) := by
  obtain ⟨datagram, parsed⟩ : ∃ datagram, udp frame = some datagram := by
    cases parsed : udp frame with
    | none => rw [replayed, parsed] at h; cases h
    | some datagram => exact ⟨datagram, rfl⟩
  have result : renumberAll numbers frame = out := by
    rw [replayed, parsed] at h
    dsimp only at h
    split_ifs at h
    exact Option.some.inj h
  have passed := passed_renumberAll (isUdp_of_udp parsed) distinct
  rw [result] at passed
  constructor
  · intro renumbered i mem
    rw [← stepwise_eq_atOnce_iff distinct, ← passed.player i mem, renumbered.player i mem]
  · intro settled
    refine ⟨passed.length, fun i mem ↦ ?_, passed.zeroed, fun same ↦ passed.kept ?_, passed.other⟩
    · rw [passed.player i mem, (stepwise_eq_atOnce_iff distinct).mpr (settled i mem)]
    · rintro ⟨i, mem, changes⟩
      exact changes (same i mem)

def keepAlive (player : Byte) : Frame :=
  List.replicate 12 0 ++ ipv4 ++ [0x45] ++ List.replicate 8 0 ++ [17] ++ List.replicate 12 0 ++ [0xc3, 0x50] ++
    List.replicate 4 0 ++ prodjMagic ++ [0x06] ++ List.replicate 25 0 ++ [player]

def keepAliveOne : Frame := keepAlive 1

/-- Player 5 becomes player 1, and player 1 player 2. -/
def chain : List (Byte × Byte) := [(5, 1), (1, 2)]

/-- Player 1 is renumbered at once, and player 5 is not: it passes through 1. -/
theorem renumbered_iff_keepAliveOne :
    Renumbered (atOnce chain) keepAliveOne (renumberAll chain keepAliveOne) ∧
      ¬Renumbered (atOnce chain) (keepAlive 5) (renumberAll chain (keepAlive 5)) := by
  have one : replayed [] chain [50000] keepAliveOne = some (renumberAll chain keepAliveOne) := by decide +kernel
  have five : replayed [] chain [50000] (keepAlive 5) = some (renumberAll chain (keepAlive 5)) := by decide +kernel
  refine ⟨(renumbered_iff (by decide) one).mpr fun i mem ↦ ?_, fun renumbered ↦ ?_⟩
  · rw [(by decide +kernel : playerPositions keepAliveOne = [78]), List.mem_singleton] at mem
    subst mem
    exact (stepwise_eq_atOnce_iff (by decide)).mp (by decide +kernel)
  · have settled := (renumbered_iff (by decide) five).mp renumbered 78 (by decide +kernel)
    have equal : stepwise chain (byte (keepAlive 5) 78) = atOnce chain (byte (keepAlive 5) 78) :=
      (stepwise_eq_atOnce_iff (by decide)).mpr settled
    revert equal
    decide +kernel

/-- Players 1 and 2 exchanged: player 1 stays player 1. -/
theorem swap_not_renumbered :
    ∃ out, replayed [] [(1, 2), (2, 1)] [50000] keepAliveOne = some out ∧
      ¬Renumbered (atOnce [(1, 2), (2, 1)]) keepAliveOne out := by
  have built : replayed [] [(1, 2), (2, 1)] [50000] keepAliveOne =
      some (renumberAll [(1, 2), (2, 1)] keepAliveOne) := by
    decide +kernel
  refine ⟨_, built, fun renumbered ↦ ?_⟩
  have player := renumbered.player 78 (by decide +kernel)
  revert player
  decide +kernel

end Cdj2000Emulator.Link.Renumber
