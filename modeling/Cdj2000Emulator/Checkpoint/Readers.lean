import Cdj2000Emulator.Checkpoint.Inventory

namespace Cdj2000Emulator.Checkpoint.Inventory

open Library.Bytes
open Library.Bytes.Block (get put slice zeros bytes)
open Library.Bytes.Reader
open Layout (stateSize schedulerValid stateValid u8 u32 u64)
open File hiding sharedRamSize l1dSize
open Pages RoundTrip Migration

variable {file payload rest rest' : List Byte} {s : Snapshot} {h : Header} {k : ℕ}

theorem checksum_append (hash : BitVec 64) (a b : List Byte) :
    checksum hash (a ++ b) = checksum (checksum hash a) b := by
  unfold checksum
  exact List.foldl_append

theorem checksum_nil (hash : BitVec 64) : checksum hash [] = hash := by
  unfold checksum
  rfl

theorem checksum_take (hash : BitVec 64) (data : List Byte) (n : ℕ) :
    checksum (checksum hash (data.take n)) (data.drop n) = checksum hash data := by
  rw [← checksum_append, List.take_append_drop]

theorem fnv1a_eq (data : List Byte) : fnv1a data = (checksum checksumStart data).toNat := by
  have run : ∀ hash : BitVec 64, data.foldl (fun value byte ↦
      (value ^^^ byte.toNat) * 1099511628211 % 2 ^ 64) hash.toNat =
      (checksum hash data).toNat := by
    unfold checksum
    induction data with
    | nil => exact fun hash ↦ rfl
    | cons b data ih =>
      intro hash
      have turn : (hash.toNat ^^^ b.toNat) * 1099511628211 % 2 ^ 64 =
          ((hash ^^^ b.setWidth 64) * 1099511628211#64).toNat := by
        have wide : b.toNat % 2 ^ 64 = b.toNat := Nat.mod_eq_of_lt (Nat.lt_trans b.isLt (by decide))
        rw [BitVec.toNat_mul, BitVec.toNat_xor, BitVec.toNat_setWidth, wide]
        rfl
      rw [List.foldl_cons, List.foldl_cons, turn]
      exact ih _
  exact run checksumStart

theorem placePages_of_readPages {bitmap : Block bitmapSize} {ps : List ℕ} {m m' : Progress} {o c : ℕ}
    (read : readPages bitmap ps m (payload.drop o) = some (m', rest)) (range : ∀ p ∈ ps, p < pageCount)
    (ho : o ≤ payload.length) :
    ∃ j, m'.present = m.present + j ∧ o + j * pageSize ≤ payload.length ∧
      rest = payload.drop (o + j * pageSize) ∧
      checksum m'.hash rest = checksum m.hash (payload.drop o) ∧
      placePages (bytes bitmap) payload pageSize ps ⟨bytes m.sdram, o, c⟩ =
        ⟨bytes m'.sdram, o + j * pageSize, c + j⟩ := by
  induction ps generalizing m o c with
  | nil =>
    obtain ⟨rfl, rfl⟩ := pure_eq_some.mp read
    exact ⟨0, rfl, by omega, by rw [Nat.zero_mul, Nat.add_zero], rfl, by rw [Nat.zero_mul]; rfl⟩
  | cons p ps ih =>
    obtain ⟨first, later⟩ := List.forall_mem_cons.mp range
    rw [readPages] at read
    rw [placePages, getD_bytes]
    by_cases hp : bit bitmap p
    · rw [if_pos hp] at read
      rw [if_pos (show (get bitmap (p / 8)).getLsbD (p % 8) = true from hp)]
      obtain ⟨data, middle, taken, read⟩ := bind_eq_some.mp read
      obtain ⟨long, rfl, rfl⟩ := fread_eq_some.mp taken
      rw [List.length_drop] at long
      rw [List.drop_drop] at read
      have room : p * pageSize + pageSize ≤ sdramSize := by
        have size : sdramSize = 8192 * pageSize := by decide
        have count : pageCount = 8192 := by decide
        rw [size, ← Nat.succ_mul]
        exact Nat.mul_le_mul_right _ (by omega)
      have data : span payload o (o + pageSize) = bytes (window (payload.drop o) 0 pageSize) := by
        rw [window_drop, Nat.add_zero, bytes_window (by omega), span, Nat.add_sub_cancel_left]
      obtain ⟨j, present, inside, hrest, hash, placed⟩ := ih read later (by omega) (c := c + 1)
      have total : o + pageSize + j * pageSize = o + (j + 1) * pageSize := by rw [Nat.add_mul, Nat.one_mul]; omega
      rw [total] at inside hrest placed
      refine ⟨j + 1, by rw [present]; exact Nat.add_right_comm _ 1 j, inside, hrest, ?_, ?_⟩
      · rw [hash, ← checksum_take m.hash (payload.drop o) pageSize, List.drop_drop, ← data, span,
          Nat.add_sub_cancel_left]
      · rw [data, ← bytes_put room, placed, Nat.add_assoc, Nat.add_comm 1]
    · rw [if_neg hp] at read
      rw [if_neg (show ¬ (get bitmap (p / 8)).getLsbD (p % 8) = true from hp)]
      exact ih read later ho

/-- What an accepted header says. -/
structure Accepted (h : Header) : Prop where
  lower : 1 ≤ h.schema
  upper : h.schema ≤ 12
  magic : bytes h.magic = bytes (schemaMagic h.schema)
  stateSize : h.stateSize = stateSizeOf h.schema
  componentSize : h.componentSize = expectedSizes h.schema
  sharedRam : (!h.isSchema 1) = hasSharedRam h.schema
  l1d : h.current = hasL1d h.schema
  old : h.old = fun j ↦ decide (j = h.schema)

theorem accepted (ok : h.ok = true) : Accepted h := by
  have named {j : ℕ} (known : h.isSchema j = true) : bytes h.magic = bytes (schemaMagic j) ∧ h.schema = j := by
    rw [Header.isSchema, Bool.and_eq_true, beq_iff_eq, beq_iff_eq] at known
    exact known
  obtain ⟨k, lower, upper, known, size, components⟩ : ∃ k, 1 ≤ k ∧ k ≤ 12 ∧ h.isSchema k = true ∧
      h.stateSize = stateSizeOf k ∧ h.componentSize = expectedSizes k := by
    simp only [Header.ok, Bool.and_eq_true] at ok
    obtain ⟨⟨⟨⟨⟨⟨⟨⟨⟨schema, -⟩, -⟩, sizes⟩, -⟩, -⟩, -⟩, -⟩, -⟩, -⟩ := ok
    by_cases older : h.anyOld = true
    · obtain ⟨j, range, old⟩ := List.any_eq_true.mp older
      rw [Header.old, Bool.and_eq_true, Bool.and_eq_true, beq_iff_eq, beq_iff_eq] at old
      have := List.mem_range'_1.mp range
      exact ⟨j, this.1, by omega, old.1.1, old.1.2, old.2⟩
    · rw [Bool.not_eq_true] at older
      rw [older, Bool.false_or] at schema sizes
      rw [Bool.and_eq_true, beq_iff_eq, beq_iff_eq] at sizes
      exact ⟨12, by decide, le_rfl, schema, sizes.1, sizes.2⟩
  obtain ⟨magic, rfl⟩ := named known
  have only (j : ℕ) : h.isSchema j = decide (j = h.schema) := by
    by_cases same : j = h.schema
    · rw [same, known, decide_eq_true rfl]
    · rw [decide_eq_false same, ← Bool.not_eq_true]
      exact fun other ↦ same (named other).2.symm
  refine ⟨lower, upper, magic, size, components, ?_, ?_, ?_⟩
  · rw [only, hasSharedRam, bne, Bool.beq_eq_decide_eq]
    exact congrArg _ (decide_eq_decide.mpr eq_comm)
  · rw [Header.current, only, hasL1d, Bool.beq_eq_decide_eq]
    exact decide_eq_decide.mpr eq_comm
  · funext j
    rw [Header.old, only]
    by_cases same : j = h.schema
    · rw [same, size, components, decide_eq_true rfl, BEq.rfl, BEq.rfl]
      rfl
    · rw [decide_eq_false same, Bool.false_and, Bool.false_and]

theorem number_image {n o c : ℕ} (inside : o + c ≤ n) (room : n ≤ stateSize) (long : n ≤ payload.length) :
    Layout.number (put 0 (window payload 0 n) (zeros : Layout.Image)) o c = value ((payload.drop o).take c) := by
  induction c generalizing o with
  | zero => rfl
  | succ c ih =>
    have first : get (put 0 (window payload 0 n) (zeros : Layout.Image)) o = payload[o] := by
      rw [Block.get_of_lt (by omega), Block.put_inside (Nat.zero_le _) (by change o < 0 + n; omega),
        Block.get_of_lt (by change o - 0 < n; omega), window]
      exact List.getD_eq_getElem _ _ (by change 0 + (o - 0) < _; omega) |>.trans
        (by congr 1; change 0 + (o - 0) = o; omega)
    have here : o < payload.length := by omega
    rw [Layout.number, first, ih (by omega), List.drop_eq_getElem_cons here, List.take_succ_cons]
    rfl

/-- Numbers inside a part depend on the part alone. -/
theorem number_congr {n o c a m : ℕ} {x y : Block n} (same : slice x a m = slice y a m) (lower : a ≤ o)
    (upper : o + c ≤ a + m) : Layout.number x o c = Layout.number y o c := by
  induction c generalizing o with
  | zero => rfl
  | succ c ih =>
    have first : get x o = get y o := by
      have := congrFun same ⟨o - a, by omega⟩
      simp only [slice] at this
      rwa [Nat.add_sub_cancel' lower] at this
    rw [Layout.number, Layout.number, first, ih (by omega) (by omega)]

def modeOf (s : Layout.Image) : Option Mode :=
  if u8 s (Layout.scheduler + 26) = 0 then some .legacy
  else if u8 s (Layout.scheduler + 26) = 1 then some .deferredV1
  else none

/-- What the scheduler check of the emulator lets through, the one of the tools does. -/
theorem mode_of_valid {f : SchedulerState} {x : Layout.Image} (valid : schedulerValid x = true)
    (activation : f.activation = u64 x Layout.scheduler) (slice : f.sliceId = u64 x (Layout.scheduler + 8))
    (remaining : f.remaining = (u32 x (Layout.scheduler + 16)).toNat)
    (steps : f.sliceSteps = (u32 x (Layout.scheduler + 20)).toNat)
    (pending : f.pending = u8 x (Layout.scheduler + 24)) (rearm : f.rearm = u8 x (Layout.scheduler + 25))
    (mode : f.mode = u8 x (Layout.scheduler + 26)) (reserved : f.reserved = u8 x (Layout.scheduler + 27)) :
    ¬(f.reserved ≠ 0 ∨ 1 < f.pending ∨ 1 < f.rearm) ∧
      (f.mode = 0 ∧ f.idle ∨ f.mode = 1 ∧ f.deferredValid) := by
  unfold schedulerValid at valid
  rw [← activation, ← slice, ← remaining, ← steps, ← pending, ← rearm, ← mode, ← reserved] at valid
  dsimp only at valid
  unfold SchedulerState.idle SchedulerState.deferredValid
  unfold Layout.modeLegacy Layout.modeDeferredV1 Layout.sliceSteps Layout.activationSteps at valid
  split_ifs at valid with bad legacy idle unsound dormant late uneven unsound dormant late uneven
  · have := of_decide_eq_true valid
    exact ⟨bad, .inl ⟨legacy, by omega⟩⟩
  · have := of_decide_eq_true valid
    exact ⟨bad, .inr ⟨by omega, by omega, by omega, by rw [if_neg (not_not.mpr idle)]; omega, by omega,
      by omega, by omega,
      .inl idle⟩⟩
  · exact ⟨bad, .inr ⟨by omega, by omega, by omega, by rw [if_neg (not_not.mpr idle)]; omega, by omega,
      by omega, by omega,
      .inl idle⟩⟩
  · exact absurd (of_decide_eq_true valid).2.1 idle
  · exact ⟨bad, .inr ⟨by omega, by omega, by omega, by rw [if_pos idle]; omega, by omega, by omega, by omega,
      .inr (not_not.mp fun odd ↦ uneven ⟨idle, odd⟩)⟩⟩

theorem number_lt {n o c : ℕ} {x : Block n} : Layout.number x o c < 256 ^ c := by
  induction c generalizing o with
  | zero => exact Nat.one_pos
  | succ c ih =>
    have byte := (get x o).isLt
    have rest := ih (o := o + 1)
    rw [Layout.number, Nat.pow_succ]
    omega

theorem toNat_u32 {n o : ℕ} {x : Block n} : (u32 x o).toNat = Layout.number x o 4 := by
  rw [u32, BitVec.toNat_ofNat]
  exact Nat.mod_eq_of_lt number_lt

theorem number_zeros {n o c : ℕ} : Layout.number (zeros : Block n) o c = 0 := by
  induction c generalizing o with
  | zero => rfl
  | succ c ih =>
    rw [Layout.number, ih, Block.get_zeros]
    rfl

theorem schedulerValid_of_stateValid {x : Layout.Image} (valid : stateValid x = true) : schedulerValid x = true := by
  unfold stateValid at valid
  simp only [Bool.and_eq_true] at valid
  exact valid.1.1.1.1.1.1.1.1.1.1.1.1.1.1.1.1.1.1.1.2

theorem scheduler_stored {x : Layout.Image} (lower : 11 ≤ k) (upper : k ≤ 12) :
    slice (upgrade k x) Layout.scheduler 32 = slice x Layout.scheduler 32 := by
  by_cases current : k = 12
  · subst current
    exact congrArg (slice · Layout.scheduler 32) (migrate_current x)
  · obtain rfl : k = 11 := by omega
    have kept : Part.scheduler.overwritten 11 = false := rfl
    have := of_upgrade (p := .scheduler) (s := x) (by decide) (le_refl 11)
    rwa [kept, if_neg Bool.false_ne_true] at this

/-- An older file has none, and the state gets the legacy policy. -/
theorem scheduler_absent {x : Layout.Image} (lower : 1 ≤ k) (upper : k ≤ 10) :
    modeOf (upgrade k x) = some .legacy := by
  have blank : Part.scheduler.overwritten k = true := by
    have early : k < Part.scheduler.since := Nat.lt_of_le_of_lt upper (by decide)
    rw [Part.overwritten, decide_eq_true early]
    rfl
  have cleared := of_upgrade (p := .scheduler) (s := x) lower (Nat.le_succ_of_le upper)
  rw [if_pos blank] at cleared
  have none : slice (upgrade k x) Layout.scheduler 32 = slice (zeros : Layout.Image) Layout.scheduler 32 := by
    rw [Block.slice_zeros]
    exact cleared
  have mode : u8 (upgrade k x) (Layout.scheduler + 26) = 0 :=
    (number_congr none (by decide) (by decide)).trans number_zeros
  rw [modeOf, if_pos mode]

theorem mode_agrees {n : ℕ} (hn : n = stateSizeOf k) (lower : 1 ≤ k) (upper : k ≤ 12)
    (long : n ≤ (file.drop headerSize).length)
    (valid : stateValid (upgrade k (put 0 (window (file.drop headerSize) 0 n) zeros)) = true) :
    ∃ mode, checkpointSchedulerMode file headerSize n k = .ok mode ∧
      modeOf (upgrade k (put 0 (window (file.drop headerSize) 0 n) zeros)) = some mode := by
  unfold checkpointSchedulerMode
  by_cases old : k < 11
  · rw [if_pos old]
    exact ⟨.legacy, rfl, scheduler_absent lower (by omega)⟩
  · have size : n = 15808 := by
      rw [hn]
      obtain rfl | rfl : k = 11 ∨ k = 12 := by omega
      · rfl
      · rfl
    rw [if_neg old, if_neg (by omega)]
    have stored := scheduler_stored (x := put 0 (window (file.drop headerSize) 0 n) zeros) (Nat.le_of_not_lt old) upper
    generalize hx : upgrade k (put 0 (window (file.drop headerSize) 0 n) zeros) = x at valid stored ⊢
    have stands {o c : ℕ} (fits : o + c ≤ 32) : Layout.number x (Layout.scheduler + o) c =
        value (span file (headerSize + n - 32 + o) (headerSize + n - 32 + o + c)) := by
      have start : Layout.scheduler = 15776 := rfl
      rw [number_congr stored (Nat.le_add_right _ _) (by omega),
        number_image (by omega) (le_of_eq size) long, List.drop_drop,
        span, Nat.add_sub_cancel_left]
      congr 3
      omega
    obtain ⟨sound, known⟩ := mode_of_valid (f := unpackScheduler file (headerSize + n - 32))
      (schedulerValid_of_stateValid valid) (stands (o := 0) (c := 8) (by decide)).symm
        (stands (o := 8) (c := 8) (by decide)).symm
      (toNat_u32.trans (stands (o := 16) (c := 4) (by decide))).symm
      (toNat_u32.trans (stands (o := 20) (c := 4) (by decide))).symm (stands (o := 24) (c := 1) (by decide)).symm
      (stands (o := 25) (c := 1) (by decide)).symm (stands (o := 26) (c := 1) (by decide)).symm
      (stands (o := 27) (c := 1) (by decide)).symm
    have same : u8 x (Layout.scheduler + 26) = (unpackScheduler file (headerSize + n - 32)).mode :=
      stands (o := 26) (c := 1) (by decide)
    dsimp only
    rw [if_neg sound]
    rcases known with ⟨legacy, idle⟩ | ⟨deferred, fine⟩
    · rw [if_pos legacy, if_pos idle]
      exact ⟨.legacy, rfl, if_pos (same.trans legacy)⟩
    · rw [if_neg (by omega), if_pos deferred, if_pos fine]
      refine ⟨.deferredV1, rfl, ?_⟩
      rw [modeOf, if_neg (by omega), if_pos (same.trans deferred)]

def sharedStart (k : ℕ) : ℕ := stateSizeOf k + l2Size
def l1dStart (k : ℕ) : ℕ := sharedStart k + if hasSharedRam k then File.sharedRamSize else 0
def bitmapStart (k : ℕ) : ℕ := l1dStart k + if hasL1d k then File.l1dSize else 0
def pagesStart (k : ℕ) : ℕ := bitmapStart k + bitmapSize

/-- Where the emulator's reader has found the parts of a snapshot. -/
structure Laid (k present sum : ℕ) (payload : List Byte) (s : Snapshot) : Prop where
  length : payload.length = pagesStart k + present * pageSize
  state : s.state = upgrade k (put 0 (window payload 0 (stateSizeOf k)) zeros)
  valid : stateValid s.state = true
  l2 : bytes s.l2 = (payload.drop (stateSizeOf k)).take l2Size
  sharedRam : hasSharedRam k = true → bytes s.sharedRam = (payload.drop (sharedStart k)).take File.sharedRamSize
  l1d : hasL1d k = true → bytes s.l1d = (payload.drop (l1dStart k)).take File.l1dSize
  sdram : placePages ((payload.drop (bitmapStart k)).take bitmapSize) payload pageSize pages
    ⟨List.replicate sdramSize 0, pagesStart k, 0⟩ = ⟨bytes s.sdram, payload.length, present⟩
  checksum : fnv1a payload = sum

theorem bytes_part {o n : ℕ} (room : o + n ≤ payload.length) :
    bytes (window (payload.drop o) 0 n) = (payload.drop o).take n := by
  rw [window_drop, Nat.add_zero, bytes_window room]

theorem checksum_part {o n : ℕ} {c : Bool} {part : Block n} {hash : BitVec 64}
    (h : c = true → bytes part = (payload.drop o).take n) :
    checksum (if c = true then checksum hash (bytes part) else hash) (payload.drop (o + if c = true then n else 0)) =
      checksum hash (payload.drop o) := by
  cases c with
  | false => rfl
  | true =>
    rw [if_pos rfl, if_pos rfl, h rfl, ← List.drop_drop, checksum_take]

theorem laid_of_load (found : Accepted h) (run : loadPayload h payload = some (s, rest)) :
    Laid h.schema h.presentPages h.payloadChecksum payload s := by
  obtain ⟨lower, upper, -, size, -, shared, current, old⟩ := found
  rw [loadPayload, size, shared, current, old] at run
  have image_le : stateSizeOf h.schema ≤ stateSize := stateSizeOf_le upper
  generalize h.schema = k at *
  obtain ⟨image, middle, step, run⟩ := bind_eq_some.mp run
  obtain ⟨long, rfl, rfl⟩ := freadInto_eq_some.mp step
  obtain ⟨l2, middle, step, run⟩ := bind_eq_some.mp run
  obtain ⟨-, rfl, rfl⟩ := fread_eq_some.mp step
  obtain ⟨sharedRam, middle, step, run⟩ := bind_eq_some.mp run
  obtain ⟨rfl, rfl⟩ := freadIf_eq_some step
  obtain ⟨l1d, middle, step, run⟩ := bind_eq_some.mp run
  obtain ⟨rfl, rfl⟩ := freadIf_eq_some step
  obtain ⟨bitmap, middle, step, run⟩ := bind_eq_some.mp run
  obtain ⟨whole, rfl, rfl⟩ := fread_eq_some.mp step
  obtain ⟨progress, middle, pagesRead, run⟩ := bind_eq_some.mp run
  obtain ⟨_, counted, check, run⟩ := bind_eq_some.mp run
  obtain ⟨⟨present, sum⟩, hcounted⟩ := require_eq_some.mp check
  obtain ⟨_, ended, last, run⟩ := bind_eq_some.mp run
  obtain ⟨done, -⟩ := eof_eq_some.mp last
  obtain ⟨_, tested, test, run⟩ := bind_eq_some.mp run
  obtain ⟨valid, -⟩ := require_eq_some.mp test
  obtain ⟨rfl, -⟩ := pure_eq_some.mp run
  rw [← hcounted, done] at pagesRead
  clear run test last check hcounted done step
  have shared_at : stateSizeOf k + l2Size = sharedStart k := rfl
  have l1d_at : (sharedStart k + if hasSharedRam k = true then File.sharedRamSize else 0) = l1dStart k := rfl
  have bitmap_at : (l1dStart k + if hasL1d k = true then File.l1dSize else 0) = bitmapStart k := rfl
  have pages_at : bitmapStart k + bitmapSize = pagesStart k := rfl
  simp only [List.drop_drop, shared_at, l1d_at, bitmap_at, pages_at] at pagesRead whole ⊢
  rw [List.length_drop] at whole
  have room : pagesStart k ≤ payload.length := by
    have : 0 < bitmapSize := by decide
    omega
  have shared_le : l1dStart k ≤ bitmapStart k := Nat.le_add_right _ _
  have start_le : sharedStart k ≤ l1dStart k := Nat.le_add_right _ _
  have l2_eq : bytes (window (payload.drop (stateSizeOf k)) 0 l2Size) = (payload.drop (stateSizeOf k)).take l2Size :=
    bytes_part (start_le.trans (shared_le.trans (by omega)))
  have shared_eq (carried : hasSharedRam k = true) : bytes (if hasSharedRam k = true then
      window (payload.drop (sharedStart k)) 0 File.sharedRamSize else zeros) =
        (payload.drop (sharedStart k)).take File.sharedRamSize := by
    have : l1dStart k = sharedStart k + File.sharedRamSize := by rw [l1dStart, if_pos carried]
    rw [if_pos carried, bytes_part (by omega)]
  have l1d_eq (carried : hasL1d k = true) : bytes (if hasL1d k = true then
      window (payload.drop (l1dStart k)) 0 File.l1dSize else zeros) =
        (payload.drop (l1dStart k)).take File.l1dSize := by
    have : bitmapStart k = l1dStart k + File.l1dSize := by rw [bitmapStart, if_pos carried]
    rw [if_pos carried, bytes_part (by omega)]
  have bitmap_eq : bytes (window (payload.drop (bitmapStart k)) 0 bitmapSize) =
      (payload.drop (bitmapStart k)).take bitmapSize := bytes_part (by omega)
  have image_eq : (bytes (put 0 (window payload 0 (stateSizeOf k)) (zeros : Layout.Image))).take (stateSizeOf k) =
      payload.take (stateSizeOf k) := by
    rw [bytes_put (by omega), List.take_zero, List.nil_append, List.take_left' Block.length_bytes,
      bytes_window (by omega),
      List.drop_zero]
  obtain ⟨j, count, inside, none, hash, placed⟩ := placePages_of_readPages (c := 0) pagesRead
    (fun p hp ↦ mem_pages.mp hp) room
  have whole : payload.length = pagesStart k + j * pageSize :=
    Nat.le_antisymm (List.drop_eq_nil_iff.mp none.symm) inside
  have all : progress.present = j := count.trans (Nat.zero_add j)
  refine ⟨?_, rfl, valid, l2_eq, shared_eq, l1d_eq, ?_, ?_⟩
  · rw [whole, ← present, all]
  · have blank : bytes (zeros : Block sdramSize) = List.replicate sdramSize 0 := List.ofFn_const ..
    rw [bitmap_eq, blank] at placed
    rw [placed, ← whole, Nat.zero_add, ← all, present]
  · rw [checksum_nil] at hash
    rw [fnv1a_eq, ← sum, hash]
    dsimp only
    unfold readHash
    rw [image_eq, bitmap_eq, shared, ← pages_at, ← List.drop_drop, checksum_take, ← bitmap_at,
      checksum_part l1d_eq, ← l1d_at,
      checksum_part shared_eq, l2_eq, ← shared_at, ← List.drop_drop, checksum_take, checksum_take]

/-- What the tools return for an accepted file of schema `k`: with the L1D in the file, the shared RAM runs on into it.
-/
def returned (k : ℕ) (s : Snapshot) : Memories :=
  [(base, bytes s.l2), (sdramBase, bytes s.sdram)] ++
    (if hasSharedRam k then [(sharedRamBase, bytes s.sharedRam ++ if hasL1d k then bytes s.l1d else [])] else []) ++
    if hasL1d k then [(l1dBase, bytes s.l1d)] else []

theorem carries (lower : 1 ≤ k) (upper : k ≤ 12) : (2 ≤ k ↔ hasSharedRam k = true) ∧
    (12 ≤ k ↔ hasL1d k = true) := by
  unfold hasSharedRam hasL1d
  rw [bne_iff_ne, beq_iff_eq]
  omega

theorem structureFits_of_ok (ok : h.ok = true) (found : Accepted h)
    (length : file.length = headerSize + h.payloadSize) :
    structureFits h file.length = true := by
  have sizes : ∀ k ∈ List.range' 1 12, (expectedSizes k).all (· != 0) = true ∧ stateSizeOf k ≠ 0 := by decide
  obtain ⟨components, state⟩ :=
      sizes h.schema (List.mem_range'_1.mpr ⟨found.lower, Nat.lt_succ_of_le found.upper⟩)
  have magic : checkpointMagic h.schema = some (bytes h.magic) := by
    rw [checkpointMagic, if_pos ⟨found.lower, found.upper⟩, found.magic]
  simp only [Header.ok, Bool.and_eq_true, beq_iff_eq, decide_eq_true_eq] at ok
  obtain ⟨⟨⟨⟨⟨⟨⟨⟨⟨-, endian⟩, header⟩, -⟩, l2⟩, sdram⟩, page⟩, count⟩,
      present⟩, -⟩ := ok
  unfold structureFits
  rw [magic, found.stateSize, found.componentSize, components, bne_iff_ne.mpr state, endian, header, l2,
    sdram, page, length,
    decide_eq_true present, count, page]
  simp only [BEq.rfl, Bool.and_true]
  decide

theorem pages_eq : pages = List.range pageCount := by
  delta pages
  rfl

theorem payloadSize_of_ok (ok : h.ok = true) (found : Accepted h) :
    h.payloadSize = pagesStart h.schema + h.presentPages * pageSize := by
  simp only [Header.ok, Bool.and_eq_true, beq_iff_eq] at ok
  have shared : (if h.isSchema 1 = true then 0 else File.sharedRamSize) =
      if hasSharedRam h.schema = true then File.sharedRamSize else 0 := by
    rw [← found.sharedRam]
    cases h.isSchema 1 <;> rfl
  rw [ok.2, Header.expectedPayload, found.stateSize, shared, found.l1d]
  unfold pagesStart bitmapStart l1dStart sharedStart
  omega

theorem returned_eq {present sum : ℕ} (laid : Laid k present sum payload s) :
    [(base, if (if hasSharedRam k = true then sharedRamSize else 0) ≠ 0 then
    span payload (stateSizeOf k) (sharedStart k)
        else span payload (stateSizeOf k) (bitmapStart k)), (sdramBase, bytes s.sdram)] ++
      (Option.map (fun image ↦ (sharedRamBase, image))
        (if (if hasSharedRam k = true then sharedRamSize else 0) ≠ 0 then
        some (span payload (sharedStart k) (bitmapStart k)) else none)).toList ++
      (if (if hasL1d k = true then l1dSize else 0) ≠ 0 then [(l1dBase, span payload (l1dStart k) (bitmapStart k))]
        else []) = returned k s := by
  have l1d_alone : hasL1d k = true → hasSharedRam k = true := by
    unfold hasL1d hasSharedRam
    rw [beq_iff_eq, bne_iff_ne]
    omega
  have l2_eq : span payload (stateSizeOf k) (sharedStart k) = bytes s.l2 := by
    rw [span, sharedStart, Nat.add_sub_cancel_left, laid.l2]
  have shared_some : sharedRamSize ≠ 0 := by decide
  have l1d_some : l1dSize ≠ 0 := by decide
  unfold returned
  cases hS : hasSharedRam k with
  | false =>
    cases hL : hasL1d k with
    | false =>
      have last : bitmapStart k = sharedStart k := by
        rw [bitmapStart, hL, l1dStart, hS, if_neg Bool.false_ne_true, if_neg Bool.false_ne_true, Nat.add_zero]
      rw [last, l2_eq]
      simp only [Bool.false_eq_true, if_false, ne_eq, not_true_eq_false, Option.map_none, Option.toList_none]
    | true => exact absurd (l1d_alone hL) (by rw [hS]; exact Bool.false_ne_true)
  | true =>
    have shared_eq := laid.sharedRam hS
    have l1d_at : l1dStart k = sharedStart k + File.sharedRamSize := by rw [l1dStart, if_pos hS]
    cases hL : hasL1d k with
    | false =>
      have last : bitmapStart k = sharedStart k + File.sharedRamSize := by
        rw [bitmapStart, hL, l1d_at, if_neg Bool.false_ne_true, Nat.add_zero]
      have image : span payload (sharedStart k) (bitmapStart k) = bytes s.sharedRam := by
        rw [span, last, Nat.add_sub_cancel_left, shared_eq]
      rw [l2_eq, image]
      simp only [Bool.false_eq_true, if_true, if_false, ne_eq, shared_some, not_true_eq_false, not_false_eq_true,
        Option.map_some, Option.toList_some, List.append_nil]
    | true =>
      have last : bitmapStart k = sharedStart k + (File.sharedRamSize + File.l1dSize) := by
        rw [bitmapStart, if_pos hL, l1d_at, Nat.add_assoc]
      have image : span payload (sharedStart k) (bitmapStart k) = bytes s.sharedRam ++ bytes s.l1d := by
        rw [span, last, Nat.add_sub_cancel_left, List.take_add, shared_eq, laid.l1d hL, List.drop_drop, l1d_at]
      have l1d : span payload (l1dStart k) (bitmapStart k) = bytes s.l1d := by
        rw [span, last, l1d_at, ← Nat.add_assoc, Nat.add_sub_cancel_left, laid.l1d hL, l1d_at]
      rw [l2_eq, image, l1d]
      simp only [if_true, ne_eq, shared_some, l1d_some, not_false_eq_true, Option.map_some, Option.toList_some]

theorem readCheckpoint_of_laid (ok : h.ok = true) (found : Accepted h)
    (length : file.length = headerSize + h.payloadSize)
    (laid : Laid h.schema h.presentPages h.payloadChecksum (file.drop headerSize) s) :
    ∃ info, readCheckpoint file h = .ok (returned h.schema s, .checkpoint info) ∧
      modeOf s.state = some info.dspSchedulerMode := by
  have fits := structureFits_of_ok ok found length
  simp only [Header.ok, Bool.and_eq_true, beq_iff_eq] at ok
  obtain ⟨⟨⟨⟨⟨⟨⟨⟨⟨-, -⟩, header⟩, -⟩, l2⟩, sdram⟩, page⟩, count⟩, -⟩, -⟩ := ok
  have pages_count : h.pageCount = pageCount := by rw [count, page]; rfl
  have image : stateSizeOf h.schema ≤ (file.drop headerSize).length := by
    rw [laid.length]
    unfold pagesStart bitmapStart l1dStart sharedStart
    omega
  obtain ⟨mode, scheduler, restored⟩ := mode_agrees rfl found.lower found.upper image (laid.state ▸ laid.valid)
  rw [← laid.state] at restored
  obtain ⟨shared_iff, l1d_iff⟩ := carries found.lower found.upper
  unfold readCheckpoint
  rw [fits, header, l2, sdram, page, pages_count, found.stateSize, scheduler, Bool.not_true, if_neg Bool.false_ne_true]
  generalize file.drop headerSize = payload at laid
  generalize h.schema = k at *
  have shared_at : stateSizeOf k + l2Size = sharedStart k := rfl
  have l1d_at : (sharedStart k + if hasSharedRam k = true then sharedRamSize else 0) = l1dStart k := rfl
  have bitmap_at : (l1dStart k + if hasL1d k = true then l1dSize else 0) = bitmapStart k := rfl
  have pages_at : bitmapStart k + (pageCount + 7) / 8 = pagesStart k := rfl
  have bitmap_eq : span payload (bitmapStart k) (pagesStart k) = (payload.drop (bitmapStart k)).take bitmapSize := by
    rw [span, pagesStart, Nat.add_sub_cancel_left]
  simp only [shared_iff, l1d_iff, shared_at, l1d_at, bitmap_at, pages_at, bitmap_eq, ← pages_eq, laid.sdram]
  rw [if_neg (not_not.mpr laid.checksum), if_neg (not_not.mpr laid.length), if_neg (by simp)]
  rw [returned_eq laid]
  exact ⟨_, rfl, restored⟩

theorem readInput_of_read (read : readWithL1d file = .ok s) : 1 ≤ schemaOf file ∧ schemaOf file ≤ 12 ∧
    ∃ info, readInput file = .ok (returned (schemaOf file) s, .checkpoint info) ∧
      modeOf s.state = some info.dspSchedulerMode := by
  obtain ⟨rest, run⟩ : ∃ rest, load file = some (s, rest) := by
    rw [readWithL1d] at read
    split at read
    · next s rest h => exact ⟨rest, by rw [h, Except.ok.inj read]⟩
    · cases read
  obtain ⟨h, middle, first, run⟩ := bind_eq_some.mp run
  obtain ⟨long, rfl⟩ := advances_readHeader _ _ _ first
  obtain ⟨u, middle, required, run⟩ := bind_eq_some.mp run
  obtain ⟨ok, rfl⟩ := require_eq_some.mp required
  have found := accepted ok
  have laid := laid_of_load found run
  have size := payloadSize_of_ok ok found
  have payload := laid.length
  rw [List.length_drop] at payload
  have notRaw : ¬ file.length = 0x40000 := by
    have : headerSize = 96 := rfl
    have : l2Size = 0x40000 := rfl
    unfold pagesStart bitmapStart l1dStart sharedStart at payload
    omega
  obtain ⟨info, result, mode⟩ := readCheckpoint_of_laid ok found (by omega) laid
  rw [← readHeader_schema first]
  refine ⟨found.lower, found.upper, info, ?_, mode⟩
  unfold readInput
  rw [if_neg fun h ↦ notRaw h.1, first]
  exact result

/-- The memories that a file of schema `k` carries, at their base addresses. -/
def carried (k : ℕ) (s : Snapshot) : Memories :=
  [(base, bytes s.l2), (sdramBase, bytes s.sdram)] ++ (if 2 ≤ k then [(sharedRamBase, bytes s.sharedRam)] else []) ++
    if 12 ≤ k then [(l1dBase, bytes s.l1d)] else []

def Agrees (file : List Byte) (s : Snapshot) : Prop :=
  ∃ memories info, readInput file = .ok (memories, .checkpoint info) ∧
    (∀ address, memories.lookup address = (carried (schemaOf file) s).lookup address) ∧
    modeOf s.state = some info.dspSchedulerMode

theorem lookup_sharedRam {l2 sdram image : List Byte} {more : Memories} :
    ([(base, l2), (sdramBase, sdram)] ++ [(sharedRamBase, image)] ++ more).lookup sharedRamBase = some image := by
  have first : (sharedRamBase == base) = false := by decide
  have second : (sharedRamBase == sdramBase) = false := by decide
  simp only [List.cons_append, List.nil_append, List.lookup_cons, first, second, BEq.rfl]

/-- A file with an L1D comes back with the L1D as the end of the shared RAM. -/
theorem not_agrees_of_l1d (read : readWithL1d file = .ok s) (current : schemaOf file = 12) : ¬ Agrees file s := by
  rintro ⟨memories, info, accepted, same, -⟩
  obtain ⟨-, -, info', result, -⟩ := readInput_of_read read
  rw [result] at accepted
  obtain ⟨rfl, -⟩ := Prod.mk.inj (Except.ok.inj accepted)
  have shared := same sharedRamBase
  rw [current] at shared
  have whole : returned 12 s = [(base, bytes s.l2), (sdramBase, bytes s.sdram)] ++
      [(sharedRamBase, bytes s.sharedRam ++ bytes s.l1d)] ++ [(l1dBase, bytes s.l1d)] := by
    have shared : hasSharedRam 12 = true := rfl
    have l1d : hasL1d 12 = true := rfl
    rw [returned, if_pos shared, if_pos l1d, if_pos l1d]
  have right : carried 12 s = [(base, bytes s.l2), (sdramBase, bytes s.sdram)] ++
      [(sharedRamBase, bytes s.sharedRam)] ++ [(l1dBase, bytes s.l1d)] := by
    rw [carried, if_pos (by decide), if_pos (by decide)]
  rw [whole, right, lookup_sharedRam, lookup_sharedRam] at shared
  have lengths := congrArg List.length (Option.some.inj shared)
  rw [List.length_append, Block.length_bytes, Block.length_bytes] at lengths
  have : 0 < File.l1dSize := by decide
  omega

/-- The two readers agree on all files but those with an L1D. -/
theorem readers_agree_iff (read : readWithL1d file = .ok s) : Agrees file s ↔ schemaOf file ≠ 12 := by
  refine ⟨fun agrees current ↦ not_agrees_of_l1d read current agrees, fun older ↦ ?_⟩
  obtain ⟨lower, upper, info, result, mode⟩ := readInput_of_read read
  obtain ⟨shared_iff, l1d_iff⟩ := carries lower upper
  have same : returned (schemaOf file) s = carried (schemaOf file) s := by
    unfold returned carried
    simp only [shared_iff, l1d_iff]
    have none : ¬ hasL1d (schemaOf file) = true := fun h ↦ older (Nat.le_antisymm upper (l1d_iff.mpr h))
    rw [if_neg none, if_neg none, List.append_nil (bytes s.sharedRam)]
  exact ⟨_, info, result, fun address ↦ by rw [same], mode⟩

/-- A file of schema 10 reads the same. -/
theorem readers_agree_quiet : Agrees (encode 10 quiet) (decoded 10 quiet) :=
  (readers_agree_iff read_quiet).mpr (by rw [schemaOf_quiet]; decide)

/-- What the writer makes does not. -/
theorem written_not_agrees : ∃ file, writeWithL1d quiet = .ok file ∧ readWithL1d file = .ok quiet ∧
    ¬ Agrees file quiet := by
  have valid : stateValid quiet.state = true := by decide +kernel
  obtain ⟨file, written, read⟩ := read_write valid
  refine ⟨file, written, read, not_agrees_of_l1d read ?_⟩
  obtain rfl : encode checkpointSchema quiet = file := Except.ok.inj ((write_eq_encode valid).symm.trans written)
  exact (readHeader_schema (parses_readHeader (fits_headerOf (by decide)) _)).symm

end Cdj2000Emulator.Checkpoint.Inventory
