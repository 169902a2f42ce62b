import Mathlib.Data.List.Forall2
import Mathlib.Data.List.Induction

namespace Cdj2000Emulator.Cfi

/-- The states of the device that the command set enters. -/
inductive CfiState
  | read
  | write
  /-- One of the states that only the common part enters. -/
  | common (n : ℕ)
deriving DecidableEq

/-- What the command set remembers of a sequence. -/
structure Unlock where
  /-- `amd_unlock_step` -/
  step : ℕ
  /-- `amd_erase_setup` -/
  eraseSetup : Bool
deriving DecidableEq

/-- `struct cfi` with the counters of the erases and the programs. -/
structure Flash (σ : Type*) where
  amd : Unlock
  state : CfiState
  data : σ
  erases : ℕ
  programs : ℕ

/-- The common part of the device. -/
structure Device (σ : Type*) where
  /-- `cfi_unshift_addr` -/
  unshift : ℕ → ℕ
  /-- `cfi_erase_block` -/
  eraseBlock : σ → ℕ → σ
  /-- `memset (cfi->data, 0xff, cfi->dev_size)` -/
  fill : σ → σ

structure Write where
  offset : ℕ
  value : ℕ
deriving DecidableEq

def cmdUnlockFirst : ℕ := 0xaa

def cmdUnlockSecond : ℕ := 0x55

def cmdProgram : ℕ := 0xa0

def cmdEraseSetup : ℕ := 0x80

def cmdEraseSector : ℕ := 0x30

def cmdEraseChip : ℕ := 0x10

def addrUnlockFirst : ℕ := 0x555

def addrUnlockSecond : ℕ := 0x2aa

variable {σ : Type*} (device : Device σ)

/-- `cmdset_amd_write`: the device after it, and whether the write was taken. -/
def cmdsetAmdWrite (cfi : Flash σ) (w : Write) : Flash σ × Bool :=
  let shiftedOffset := device.unshift w.offset
  if cfi.amd.step = 0 then
    if w.value = cmdUnlockFirst ∧ shiftedOffset = addrUnlockFirst then
      ({ cfi with amd.step := 1 }, true)
    else (cfi, false)
  else if cfi.amd.step = 1 then
    if w.value = cmdUnlockSecond ∧ shiftedOffset = addrUnlockSecond then
      ({ cfi with amd.step := 2 }, true)
    else ({ cfi with amd.step := 0 }, false)
  else
    let cfi := { cfi with amd.step := 0 }
    if cfi.amd.eraseSetup then
      if w.value = cmdEraseSector then
        ({ cfi with data := device.eraseBlock cfi.data w.offset, erases := cfi.erases + 1, amd.eraseSetup := false,
                    state := .read }, true)
      else if w.value = cmdEraseChip ∧ shiftedOffset = addrUnlockFirst then
        ({ cfi with data := device.fill cfi.data, erases := cfi.erases + 1, amd.eraseSetup := false,
                    state := .read }, true)
      else (cfi, false)
    else if shiftedOffset ≠ addrUnlockFirst then (cfi, false)
    else if w.value = cmdProgram then ({ cfi with state := .write, programs := cfi.programs + 1 }, true)
    else if w.value = cmdEraseSetup then ({ cfi with amd.eraseSetup := true }, true)
    else (cfi, false)

def cmdsetAmdSetup : Unlock := ⟨0, false⟩

/-- The devices that writes lead to. What goes elsewhere between them leaves the unlocking alone, and `P` holds of
every write. -/
inductive Run (P : Unlock → Write → Prop) (start : Flash σ) : List Write → Flash σ → Prop
  | start : Run P start [] start
  | command {ws : List Write} {cfi : Flash σ} (w : Write) :
      Run P start ws cfi → P cfi.amd w → Run P start (ws ++ [w]) (cmdsetAmdWrite device cfi w).1
  | elsewhere {ws : List Write} {cfi other : Flash σ} :
      Run P start ws cfi → other.amd = cfi.amd → Run P start ws other

def Command (address value : ℕ) (w : Write) : Prop := device.unshift w.offset = address ∧ w.value = value

def unlocking : List (Write → Prop) :=
  [Command device addrUnlockFirst cmdUnlockFirst, Command device addrUnlockSecond cmdUnlockSecond]

def erasing : List (Write → Prop) :=
  unlocking device ++ [Command device addrUnlockFirst cmdEraseSetup] ++ unlocking device

def Ends (pattern : List (Write → Prop)) (ws : List Write) : Prop :=
  ∃ before last, ws = before ++ last ∧ List.Forall₂ (fun p w ↦ p w) pattern last

def Erasing (w : Write) (before after : σ) : Prop :=
  w.value = cmdEraseSector ∧ after = device.eraseBlock before w.offset ∨
    Command device addrUnlockFirst cmdEraseChip w ∧ after = device.fill before

def seen (u : Unlock) : List (Write → Prop) :=
  (if u.eraseSetup then unlocking device ++ [Command device addrUnlockFirst cmdEraseSetup] else []) ++
    (unlocking device).take u.step

def Continues (u : Unlock) (w : Write) : Prop :=
  u.eraseSetup = true →
    (u.step = 0 → Command device addrUnlockFirst cmdUnlockFirst w) ∧
    (u.step = 1 → Command device addrUnlockSecond cmdUnlockSecond w) ∧
    (u.step = 2 → w.value = cmdEraseSector ∨ Command device addrUnlockFirst cmdEraseChip w)

variable {device}

theorem Ends.nil (ws : List Write) : Ends [] ws := ⟨ws, [], (List.append_nil ws).symm, .nil⟩

theorem Ends.snoc {pattern : List (Write → Prop)} {ws : List Write} {p : Write → Prop} {w : Write}
    (h : Ends pattern ws) (hw : p w) : Ends (pattern ++ [p]) (ws ++ [w]) := by
  obtain ⟨before, last, rfl, matched⟩ := h
  exact ⟨before, last ++ [w], List.append_assoc _ _ _, List.rel_append matched (.cons hw .nil)⟩

variable {cfi : Flash σ} {w : Write}

theorem write_start (h : cfi.amd.step = 0) :
    cmdsetAmdWrite device cfi w =
      if w.value = cmdUnlockFirst ∧ device.unshift w.offset = addrUnlockFirst then ({ cfi with amd.step := 1 }, true)
      else (cfi, false) := by
  simp only [cmdsetAmdWrite, h, ↓reduceIte]

theorem write_first (h : cfi.amd.step = 1) :
    cmdsetAmdWrite device cfi w =
      if w.value = cmdUnlockSecond ∧ device.unshift w.offset = addrUnlockSecond then
        ({ cfi with amd.step := 2 }, true)
      else ({ cfi with amd.step := 0 }, false) := by
  simp [cmdsetAmdWrite, h]

theorem write_erase (h : cfi.amd = ⟨2, true⟩) (erase : w.value = cmdEraseSector ∨
    Command device addrUnlockFirst cmdEraseChip w) :
    ∃ data, Erasing device w cfi.data data ∧ cmdsetAmdWrite device cfi w =
      ({ cfi with amd := ⟨0, false⟩, data, erases := cfi.erases + 1, state := .read }, true) := by
  by_cases sector : w.value = cmdEraseSector
  · refine ⟨_, Or.inl ⟨sector, rfl⟩, ?_⟩
    simp [cmdsetAmdWrite, h, sector]
  · have chip := erase.resolve_left sector
    refine ⟨_, Or.inr ⟨chip, rfl⟩, ?_⟩
    have : cmdEraseChip ≠ cmdEraseSector := by decide
    simp [cmdsetAmdWrite, h, chip.1, chip.2, this]

theorem write_plain (h : cfi.amd = ⟨2, false⟩) :
    cmdsetAmdWrite device cfi w =
      if device.unshift w.offset = addrUnlockFirst ∧ w.value = cmdProgram then
        ({ cfi with amd := ⟨0, false⟩, state := .write, programs := cfi.programs + 1 }, true)
      else if device.unshift w.offset = addrUnlockFirst ∧ w.value = cmdEraseSetup then
        ({ cfi with amd := ⟨0, true⟩ }, true)
      else ({ cfi with amd := ⟨0, false⟩ }, false) := by
  by_cases placed : device.unshift w.offset = addrUnlockFirst
  · simp [cmdsetAmdWrite, h, placed]
  · simp [cmdsetAmdWrite, h, placed]

/-- The unlocking after a write depends on the unlocking before it. -/
theorem amd_write {other : Flash σ} (h : other.amd = cfi.amd) :
    (cmdsetAmdWrite device other w).1.amd = (cmdsetAmdWrite device cfi w).1.amd := by
  unfold cmdsetAmdWrite
  simp only [h]
  split_ifs <;> simp [h]

theorem Run.last {P : Unlock → Write → Prop} {start : Flash σ} {ws : List Write}
    (run : Run device P start (ws ++ [w]) cfi) :
    ∃ mid, Run device P start ws mid ∧ P mid.amd w ∧ cfi.amd = (cmdsetAmdWrite device mid w).1.amd := by
  generalize whole : ws ++ [w] = all at run
  induction run with
  | start => simp at whole
  | @command ws' mid w' run holds _ =>
    obtain ⟨rfl, same⟩ := List.append_inj' whole rfl
    cases List.singleton_inj.mp same
    exact ⟨mid, run, holds, rfl⟩
  | elsewhere run same ih =>
    obtain ⟨mid, front, holds, reached⟩ := ih whole
    exact ⟨mid, front, holds, same.trans reached⟩

theorem Run.none {P : Unlock → Write → Prop} {start : Flash σ} (run : Run device P start [] cfi) :
    cfi.amd = start.amd := by
  generalize whole : ([] : List Write) = all at run
  induction run with
  | start => rfl
  | command w run holds ih => simp at whole
  | elsewhere run same ih => exact same.trans (ih whole)

variable (device) in
def Tracks (ws : List Write) (u : Unlock) : Prop := u.step ≤ 2 ∧ Ends (seen device u) ws

theorem tracks_nothing (ws : List Write) : Tracks device ws ⟨0, false⟩ := ⟨Nat.zero_le 2, Ends.nil ws⟩

theorem tracks_write {ws : List Write} (h : Tracks device ws cfi.amd) (goes : Continues device cfi.amd w) :
    Tracks device (ws ++ [w]) (cmdsetAmdWrite device cfi w).1.amd := by
  obtain ⟨small, ends⟩ := h
  rcases amd : cfi.amd with ⟨step, setup⟩
  rw [amd] at small ends goes
  have few : step ≤ 2 := small
  rcases (by omega : step = 0 ∨ step = 1 ∨ step = 2) with rfl | rfl | rfl
  · rw [write_start (by rw [amd])]
    split_ifs with first
    · refine ⟨(by decide : 1 ≤ 2), ?_⟩
      have taken := ends.snoc (show Command device addrUnlockFirst cmdUnlockFirst w from first.symm)
      simpa [seen, amd, unlocking] using taken
    · cases setup with
      | false =>
        rw [amd]
        exact tracks_nothing _
      | true => exact absurd ((goes rfl).1 rfl).symm first
  · rw [write_first (by rw [amd])]
    split_ifs with second
    · refine ⟨(by decide : 2 ≤ 2), ?_⟩
      have taken := ends.snoc (show Command device addrUnlockSecond cmdUnlockSecond w from second.symm)
      simpa [seen, amd, unlocking] using taken
    · cases setup with
      | false =>
        simp only [amd]
        exact tracks_nothing _
      | true => exact absurd ((goes rfl).2.1 rfl).symm second
  · cases setup with
    | true =>
      obtain ⟨data, -, written⟩ := write_erase amd ((goes rfl).2.2 rfl)
      rw [written]
      exact tracks_nothing _
    | false =>
      rw [write_plain amd]
      split_ifs with program setup
      · exact tracks_nothing _
      · refine ⟨(by decide : 0 ≤ 2), ?_⟩
        have taken := ends.snoc (show Command device addrUnlockFirst cmdEraseSetup w from setup)
        simpa [seen, unlocking] using taken
      · exact tracks_nothing _

theorem tracks_run {start : Flash σ} {ws : List Write} (run : Run device (Continues device) start ws cfi)
    (reset : start.amd = cmdsetAmdSetup) : Tracks device ws cfi.amd := by
  induction run with
  | start =>
    rw [reset]
    exact tracks_nothing []
  | command w run goes ih => exact tracks_write ih goes
  | elsewhere run same ih => rwa [same]

variable (device) in
def Guarded (ws : List Write) (cfi : Flash σ) (w : Write) : Prop :=
  let after := (cmdsetAmdWrite device cfi w).1
  (after.data = cfi.data ∧ after.erases = cfi.erases ∨ Ends (erasing device) ws ∧
    Erasing device w cfi.data after.data) ∧
    (after.programs = cfi.programs ∧ (after.state = .write → cfi.state = .write) ∨
      Ends (unlocking device) ws ∧ Command device addrUnlockFirst cmdProgram w)

variable (device) in
/-- Writes that end in `w` and begin with no unlock in progress. -/
def Begun (start : Flash σ) (pattern : List (Write → Prop)) (cfi : Flash σ) : Prop :=
  ∃ before mid last, Run device (Continues device) start before mid ∧ mid.amd.step = 0 ∧
    Run device (Continues device) mid last cfi ∧ List.Forall₂ (fun p w ↦ p w) pattern last

variable (device) in
/-- A whole sequence does what it is for. -/
def Effective (start cfi : Flash σ) (w : Write) : Prop :=
  let after := (cmdsetAmdWrite device cfi w).1
  (Begun device start (erasing device) cfi →
    (w.value = cmdEraseSector ∨ Command device addrUnlockFirst cmdEraseChip w) →
      Erasing device w cfi.data after.data ∧ after.erases = cfi.erases + 1) ∧
    (Begun device start (unlocking device) cfi → Command device addrUnlockFirst cmdProgram w →
      after.state = .write ∧ after.programs = cfi.programs + 1)

theorem guarded_of_tracks {ws : List Write} (h : Tracks device ws cfi.amd) (goes : Continues device cfi.amd w) :
    Guarded device ws cfi w := by
  obtain ⟨small, ends⟩ := h
  rcases amd : cfi.amd with ⟨step, setup⟩
  rw [amd] at small ends goes
  have few : step ≤ 2 := small
  unfold Guarded
  rcases (by omega : step = 0 ∨ step = 1 ∨ step = 2) with rfl | rfl | rfl
  · rw [write_start (by rw [amd])]
    split_ifs <;> exact ⟨Or.inl ⟨rfl, rfl⟩, Or.inl ⟨rfl, id⟩⟩
  · rw [write_first (by rw [amd])]
    split_ifs <;> exact ⟨Or.inl ⟨rfl, rfl⟩, Or.inl ⟨rfl, id⟩⟩
  · cases setup with
    | true =>
      obtain ⟨data, erased, written⟩ := write_erase amd ((goes rfl).2.2 rfl)
      rw [written]
      exact ⟨Or.inr ⟨ends, erased⟩, Or.inl ⟨rfl, CfiState.noConfusion⟩⟩
    | false =>
      rw [write_plain amd]
      split_ifs with program setup
      · exact ⟨Or.inl ⟨rfl, rfl⟩, Or.inr ⟨ends, program⟩⟩
      · exact ⟨Or.inl ⟨rfl, rfl⟩, Or.inl ⟨rfl, id⟩⟩
      · exact ⟨Or.inl ⟨rfl, rfl⟩, Or.inl ⟨rfl, id⟩⟩

theorem Run.split {P : Unlock → Write → Prop} {start : Flash σ} {ws vs : List Write}
    (run : Run device P start (ws ++ vs) cfi) : ∃ mid, Run device P start ws mid ∧ Run device P mid vs cfi := by
  induction vs using List.reverseRecOn generalizing cfi with
  | nil => exact ⟨cfi, by rwa [List.append_nil] at run, .start⟩
  | append_singleton vs w ih =>
    rw [← List.append_assoc] at run
    obtain ⟨late, front, holds, reached⟩ := run.last
    obtain ⟨mid, first, second⟩ := ih front
    exact ⟨mid, first, (second.command w holds).elsewhere reached⟩

theorem Run.one {P : Unlock → Write → Prop} {start : Flash σ} (run : Run device P start [w] cfi) :
    P start.amd w ∧ cfi.amd = (cmdsetAmdWrite device start w).1.amd := by
  have whole : Run device P start ([] ++ [w]) cfi := run
  obtain ⟨mid, front, holds, reached⟩ := whole.last
  have same := front.none
  rw [same] at holds
  exact ⟨holds, reached.trans (amd_write same)⟩

theorem unlocked {start : Flash σ} (idle : start.amd.step = 0) {first second : Write}
    (h₁ : Command device addrUnlockFirst cmdUnlockFirst first)
    (h₂ : Command device addrUnlockSecond cmdUnlockSecond second)
    (run : Run device (Continues device) start ([first] ++ [second]) cfi) :
    cfi.amd = ⟨2, start.amd.eraseSetup⟩ := by
  obtain ⟨mid, front, back⟩ := run.split
  have half := front.one.2
  rw [write_start idle, if_pos h₁.symm] at half
  have whole := back.one.2
  rw [write_first (by rw [half]), if_pos h₂.symm] at whole
  rw [whole, half]

theorem erase_set_up {start : Flash σ} (idle : start.amd.step = 0) {first second setup : Write}
    (h₁ : Command device addrUnlockFirst cmdUnlockFirst first)
    (h₂ : Command device addrUnlockSecond cmdUnlockSecond second)
    (h₃ : Command device addrUnlockFirst cmdEraseSetup setup)
    (run : Run device (Continues device) start ([first] ++ [second] ++ [setup]) cfi) : cfi.amd = ⟨0, true⟩ := by
  obtain ⟨mid, front, back⟩ := run.split
  have open' := unlocked idle h₁ h₂ front
  obtain ⟨goes, reached⟩ := back.one
  cases pending : start.amd.eraseSetup with
  | true =>
    rw [open', pending] at goes
    rcases (goes rfl).2.2 rfl with sector | chip
    · exact absurd (h₃.2.symm.trans sector) (by decide)
    · exact absurd (h₃.2.symm.trans chip.2) (by decide)
  | false =>
    rw [pending] at open'
    have other : ¬ (device.unshift setup.offset = addrUnlockFirst ∧ setup.value = cmdProgram) := fun both ↦
      absurd (h₃.2.symm.trans both.2) (by decide)
    rw [reached, write_plain open', if_neg other, if_pos (And.intro h₃.1 h₃.2)]

theorem effective_of_run (start : Flash σ) (goes : Continues device cfi.amd w) : Effective device start cfi w := by
  constructor
  · rintro ⟨before, mid, last, -, idle, run, matched⟩ erase
    obtain ⟨a, b, c, d, e, rfl, ha, hb, hc, hd, he⟩ : ∃ a b c d e, last = ([a] ++ [b] ++ [c]) ++ ([d] ++ [e]) ∧
        Command device addrUnlockFirst cmdUnlockFirst a ∧ Command device addrUnlockSecond cmdUnlockSecond b ∧
        Command device addrUnlockFirst cmdEraseSetup c ∧ Command device addrUnlockFirst cmdUnlockFirst d ∧
        Command device addrUnlockSecond cmdUnlockSecond e := by
      rcases matched with _ | ⟨ha, _ | ⟨hb, _ | ⟨hc, _ | ⟨hd, _ | ⟨he, _ | _⟩⟩⟩⟩⟩
      exact ⟨_, _, _, _, _, rfl, ha, hb, hc, hd, he⟩
    obtain ⟨half, front, back⟩ := run.split
    have setUp := erase_set_up idle ha hb hc front
    have open' := unlocked (by rw [setUp]) hd he back
    rw [setUp] at open'
    obtain ⟨data, erased, written⟩ := write_erase open' erase
    rw [written]
    exact ⟨erased, rfl⟩
  · rintro ⟨before, mid, last, -, idle, run, matched⟩ program
    obtain ⟨a, b, rfl, ha, hb⟩ : ∃ a b, last = [a] ++ [b] ∧ Command device addrUnlockFirst cmdUnlockFirst a ∧
        Command device addrUnlockSecond cmdUnlockSecond b := by
      rcases matched with _ | ⟨ha, _ | ⟨hb, _ | _⟩⟩
      exact ⟨_, _, rfl, ha, hb⟩
    have open' := unlocked idle ha hb run
    cases pending : mid.amd.eraseSetup with
    | true =>
      rw [open', pending] at goes
      rcases (goes rfl).2.2 rfl with sector | chip
      · exact absurd (program.2.symm.trans sector) (by decide)
      · exact absurd (program.2.symm.trans chip.2) (by decide)
    | false =>
      rw [pending] at open'
      rw [write_plain open', if_pos (And.intro program.1 program.2)]
      exact ⟨rfl, rfl⟩

/-- From the reset state, while a set-up erase goes on without another write, every erase and every program has its
whole sequence before it, and every whole sequence takes effect. -/
theorem sequences_guard {start cfi : Flash σ} {ws : List Write} {w : Write} (reset : start.amd = cmdsetAmdSetup)
    (run : Run device (Continues device) start ws cfi) (goes : Continues device cfi.amd w) :
    Guarded device ws cfi w ∧ Effective device start cfi w :=
  ⟨guarded_of_tracks (tracks_run run reset) goes, effective_of_run start goes⟩

def sectors : Device (List ℕ) := ⟨id, fun erased offset ↦ offset :: erased, id⟩

def idle : Flash (List ℕ) := ⟨cmdsetAmdSetup, .read, [], 0, 0⟩

instance (u : Unlock) (w : Write) : Decidable (Continues sectors u w) :=
  inferInstanceAs (Decidable (u.eraseSetup = true →
    (u.step = 0 → sectors.unshift w.offset = addrUnlockFirst ∧ w.value = cmdUnlockFirst) ∧
    (u.step = 1 → sectors.unshift w.offset = addrUnlockSecond ∧ w.value = cmdUnlockSecond) ∧
    (u.step = 2 → w.value = cmdEraseSector ∨ sectors.unshift w.offset = addrUnlockFirst ∧
    w.value = cmdEraseChip)))

/-- The erase of one sector. -/
theorem sequences_guard_sector : ∃ cfi,
    Run sectors (Continues sectors) idle
      [⟨0x555, 0xaa⟩, ⟨0x2aa, 0x55⟩, ⟨0x555, 0x80⟩, ⟨0x555, 0xaa⟩, ⟨0x2aa, 0x55⟩] cfi ∧
    cfi.amd = ⟨2, true⟩ ∧
    Guarded sectors [⟨0x555, 0xaa⟩, ⟨0x2aa, 0x55⟩, ⟨0x555, 0x80⟩, ⟨0x555, 0xaa⟩,
      ⟨0x2aa, 0x55⟩] cfi ⟨0x10000, 0x30⟩ ∧
    Effective sectors idle cfi ⟨0x10000, 0x30⟩ := by
  have run : Run sectors (Continues sectors) idle
      [⟨0x555, 0xaa⟩, ⟨0x2aa, 0x55⟩, ⟨0x555, 0x80⟩, ⟨0x555, 0xaa⟩, ⟨0x2aa, 0x55⟩] _ :=
    ((((Run.start.command ⟨0x555, 0xaa⟩ (by decide)).command ⟨0x2aa,
    0x55⟩ (by decide)).command ⟨0x555, 0x80⟩
      (by decide)).command ⟨0x555, 0xaa⟩ (by decide)).command ⟨0x2aa, 0x55⟩ (by decide)
  exact ⟨_, run, by decide, sequences_guard rfl run (by decide)⟩

/-- A write that is refused after an erase has been set up, and an unlock on its own: the next write erases. -/
theorem stray_erase : ∃ cfi,
    Run sectors (fun _ _ ↦ True) idle
      [⟨0x555, 0xaa⟩, ⟨0x2aa, 0x55⟩, ⟨0x555, 0x80⟩, ⟨0, 0⟩, ⟨0x555, 0xaa⟩,
        ⟨0x2aa, 0x55⟩] cfi ∧
    ¬ Guarded sectors [⟨0x555, 0xaa⟩, ⟨0x2aa, 0x55⟩, ⟨0x555, 0x80⟩, ⟨0, 0⟩, ⟨0x555, 0xaa⟩,
      ⟨0x2aa, 0x55⟩] cfi
      ⟨0x10000, 0x30⟩ := by
  refine ⟨_, (((((Run.start.command ⟨0x555, 0xaa⟩ trivial).command ⟨0x2aa,
    0x55⟩ trivial).command ⟨0x555, 0x80⟩
    trivial).command ⟨0, 0⟩ trivial).command ⟨0x555, 0xaa⟩ trivial).command ⟨0x2aa, 0x55⟩ trivial, ?_⟩
  rintro ⟨⟨-, erases⟩ | ⟨⟨before, last, whole, matched⟩, -⟩, -⟩
  · exact absurd erases (by decide)
  · have five : last.length = 5 := matched.length_eq.symm
    have one : before.length = 1 := by
      have := congrArg List.length whole
      simp only [List.length_cons, List.length_nil, List.length_append] at this
      omega
    have rest := congrArg (List.drop 1) whole
    rw [← one, List.drop_left, one] at rest
    rw [← rest] at matched
    cases matched with
    | cons first _ => exact absurd first.2 (by decide)

end Cdj2000Emulator.Cfi
