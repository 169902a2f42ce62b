import Cdj2000Emulator.Rtl8201fl.Sessions

namespace Cdj2000Emulator.Rtl8201fl

open Library.Stateful

section Bits

variable (f : Frame) {k : ℕ}

/-- The header after `k` bits. -/
def Frame.head (k : ℕ) : Word := (f.word >>> (14 - k)).setWidth 32

theorem bitWord_bit (bit : Bool) (i : ℕ) : (bitWord bit).getLsbD i = (decide (i = 0) && bit) := by
  cases bit with
  | false => simp [bitWord]
  | true =>
    change (1#32).getLsbD i = _
    rw [BitVec.getLsbD_one]
    simp

theorem head_step (h : k < 14) : f.head (k + 1) = f.head k <<< 1 ||| bitWord (f.word.getLsbD (13 - k)) := by
  refine BitVec.eq_of_getLsbD_eq fun i hi ↦ ?_
  unfold Frame.head
  rw [BitVec.getLsbD_or, BitVec.getLsbD_shiftLeft, bitWord_bit, BitVec.getLsbD_setWidth, BitVec.getLsbD_setWidth,
    BitVec.getLsbD_ushiftRight, BitVec.getLsbD_ushiftRight]
  cases i with
  | zero => simp [show 14 - (k + 1) = 13 - k by omega]
  | succ i =>
    have hplace : 13 - k + (i + 1) = 14 - k + i := by omega
    simp [hplace, hi, show i < 32 by omega]

theorem word_toNat : f.word.toNat = ((4 + f.opcode.toNat) * 32 + f.phy.toNat) * 32 + f.reg.toNat := by
  unfold Frame.word
  rw [BitVec.toNat_append, BitVec.toNat_append, BitVec.toNat_append, ← Nat.shiftLeft_add_eq_or_of_lt f.reg.isLt,
    ← Nat.shiftLeft_add_eq_or_of_lt f.phy.isLt, ← Nat.shiftLeft_add_eq_or_of_lt f.opcode.isLt]
  simp only [Nat.shiftLeft_eq]
  rfl

theorem head_toNat : (f.head k).toNat = f.word.toNat / 2 ^ (14 - k) := by
  unfold Frame.head
  rw [BitVec.toNat_setWidth, BitVec.toNat_ushiftRight, Nat.shiftRight_eq_div_pow]
  exact Nat.mod_eq_of_lt (Nat.lt_of_le_of_lt (Nat.div_le_self _ _) (Nat.lt_trans f.word.isLt (by decide)))

theorem opcode_cases : f.opcode = 1 ∨ f.opcode = 2 := by
  cases f with
  | write phy reg value => exact .inl rfl
  | read phy reg => exact .inr rfl

theorem head_start : f.head 2 = 1 := by
  apply BitVec.eq_of_toNat_eq
  rw [head_toNat, word_toNat]
  have := f.opcode.isLt
  have := f.phy.isLt
  have := f.reg.isLt
  simp only [BitVec.ofNat_eq_ofNat, BitVec.toNat_ofNat]
  omega

theorem head_opcode : f.head 4 &&& 3#32 = 1 ∨ f.head 4 &&& 3#32 = 2 := by
  have hvalue : (f.head 4 &&& 3#32).toNat = f.opcode.toNat := by
    have := f.opcode.isLt
    have := f.phy.isLt
    have := f.reg.isLt
    rw [BitVec.toNat_and, head_toNat, word_toNat]
    change Nat.land _ (2 ^ 2 - 1) = _
    rw [show Nat.land _ (2 ^ 2 - 1) = _ from Nat.and_two_pow_sub_one_eq_mod _ 2]
    omega
  rcases opcode_cases f with h | h
  · exact .inl (BitVec.eq_of_toNat_eq (by rw [hvalue, h]; rfl))
  · exact .inr (BitVec.eq_of_toNat_eq (by rw [hvalue, h]; rfl))

end Bits

/-- Between frames: after `need` more ones the PHY takes a start bit. -/
def Rested (need : ℕ) (σ : Serial) : Prop :=
  σ.frame = false ∧ (1 ≤ need ∨ σ.idleNeeded = false) ∧ (σ.synchronized = true ∨ 32 ≤ need + σ.preamble)

/-- Before bit `k` of a frame. -/
structure InFrame (f : Frame) (k : ℕ) (σ : Serial) : Prop where
  frame : σ.frame = true
  bits : σ.bits = k
  synchronized : σ.synchronized = true
  header : σ.header = f.head k

section Fields

variable {f : Frame} {k : ℕ} {σ : Serial} {s : Phy}

theorem fields (h : InFrame f k σ) (hk : 14 ≤ k) :
    σ.op = f.opcode.toNat ∧ σ.addr = f.phy.toNat ∧ σ.reg = f.reg.toNat := by
  have hhead : σ.header.toNat = f.word.toNat := by
    rw [h.header, head_toNat, Nat.sub_eq_zero_of_le hk, Nat.pow_zero, Nat.div_one]
  have := f.opcode.isLt
  have := f.phy.isLt
  have := f.reg.isLt
  unfold Serial.op Serial.addr Serial.reg
  simp only [BitVec.toNat_and, BitVec.toNat_ushiftRight, Nat.shiftRight_eq_div_pow, hhead, word_toNat]
  refine ⟨?_, ?_, ?_⟩
  · rw [show (3#32).toNat = 2 ^ 2 - 1 from rfl, Nat.and_two_pow_sub_one_eq_mod]
    omega
  · rw [show (31#32).toNat = 2 ^ 5 - 1 from rfl, Nat.and_two_pow_sub_one_eq_mod]
    omega
  · rw [show (31#32).toNat = 2 ^ 5 - 1 from rfl, Nat.and_two_pow_sub_one_eq_mod]
    omega

/-- MDC's fall outside the answer of a read releases the line. -/
theorem fallingEdge_quiet (h : s.serial.frame = false ∨ s.serial.bits < 14 ∨ s.serial.op ≠ 2) :
    s.fallingEdge = some ({ s with serial := { s.serial with mdi := true } }, []) := by
  unfold Phy.fallingEdge
  refine if_pos ?_
  rcases h with h | h
  · exact .inl (by simp [h])
  · exact .inr h

theorem InFrame.released (h : InFrame f k σ) : InFrame f k { σ with mdi := true } := ⟨h.1, h.2, h.3, h.4⟩

/-- The last bit of a frame ends it. -/
theorem InFrame.counted (h : InFrame f k σ) (hk : 14 ≤ k) (hlast : k < 31) : InFrame f (k + 1) σ.counted := by
  have hne : ¬σ.bits + 1 = 32 := by
    rw [h.bits]
    omega
  unfold Serial.counted
  rw [if_neg hne]
  refine ⟨h.frame, ?_, h.synchronized, ?_⟩
  · change σ.bits + 1 = k + 1
    rw [h.bits]
  · change σ.header = f.head (k + 1)
    rw [h.header]
    unfold Frame.head
    rw [Nat.sub_eq_zero_of_le hk, Nat.sub_eq_zero_of_le (Nat.le_succ_of_le hk)]

theorem rested_counted {need : ℕ} (hbits : σ.bits = 31) (hneed : 1 ≤ need)
    (hready : σ.synchronized = true ∨ 32 ≤ need + σ.preamble) : Rested need σ.counted := by
  unfold Serial.counted
  rw [if_pos (by rw [hbits])]
  exact ⟨rfl, .inl hneed, hready⟩

theorem InFrame.finished (h : InFrame f 31 σ) : Rested 1 σ.counted :=
  rested_counted h.bits (Nat.le_refl 1) (.inl h.synchronized)

theorem counted_mdi : σ.counted.mdi = σ.mdi := by
  unfold Serial.counted
  split_ifs
  · rfl
  · rfl

theorem counted_data : σ.counted.data = σ.data := by
  unfold Serial.counted
  split_ifs
  · rfl
  · rfl

end Fields

/-- What the PHY puts on the line at bit `k` of a read. -/
def answer (phy : BitVec 5) (value : Half) (k : ℕ) : Bool :=
  if k = 14 then true else if k = 15 then phy ≠ 1 else value.getLsbD (31 - k)

/-- A frame has done its work: its register operation, if it is for PHY 1, and for a read the
bits that the master has sampled. -/
def Frame.Does (f : Frame) (made : List Access) (seen : List (Bool × Bool)) : Prop :=
  seen.length = 32 ∧
  match f with
  | .write phy reg value => made = if phy = 1 then [.write reg.toNat value] else []
  | .read phy reg => ∃ value : Half, (made = if phy = 1 then [.read reg.toNat value] else []) ∧
      (phy ≠ 1 → value = 0xffff) ∧
      ∀ k, 14 ≤ k → k < 32 → seen[k]? = some (answer phy value k, answer phy value k)

def Frame.Refused (f : Frame) (s : Phy) : Prop :=
  f.phy = 1 ∧
  match f with
  | .write _ reg value => s.regs.write reg.toNat value = none
  | .read _ reg => s.regs.read reg.toNat = none

section Steps

variable {f : Frame} {phy reg : BitVec 5} {value : Half} {E : Phy → Prop} {k : ℕ} {bit : Bool} {line : Option Bool}

/-- Before a frame, with so many ones still to come. -/
def Waiting (need : ℕ) : Stage := fun σ made seen ↦ Rested need σ ∧ made = [] ∧ seen = []

def Headed (f : Frame) (k : ℕ) : Stage := fun σ made seen ↦ InFrame f k σ ∧ made = [] ∧ seen.length = k

def Writing (f : Frame) (value : Half) (k : ℕ) : Stage := fun σ made seen ↦
  InFrame f k σ ∧ made = [] ∧ seen.length = k ∧ ∀ i < k - 16, σ.data.getLsbD i = value.getLsbD (i + (32 - k))

def Reading (phy reg : BitVec 5) (k : ℕ) : Stage := fun σ made seen ↦
  (if k < 32 then InFrame (.read phy reg) k σ else Rested 1 σ) ∧ seen.length = k ∧
  ∃ value : Half, (made = if 16 ≤ k ∧ phy = 1 then [.read reg.toNat value] else []) ∧
    (16 ≤ k → σ.data = value ∧ (phy ≠ 1 → value = 0xffff)) ∧
    ∀ j, 14 ≤ j → j < k → seen[j]? = some (answer phy value j, answer phy value j)

def Done (f : Frame) : Stage := fun σ made seen ↦ Rested (if f.resets then 32 else 1) σ ∧ f.Does made seen

/-- A one between frames. -/
theorem clockIdle_one (σ : Serial) (drive : Bool) (need : ℕ) (h : Rested (need + 1) σ) :
    ∃ σ', Phy.clockIdle σ drive true = some σ' ∧ Rested need σ' ∧ σ'.mdi = σ.mdi := by
  obtain ⟨hframe, -, hsync⟩ := h
  unfold Phy.clockIdle
  rw [if_neg (by simp)]
  simp only [if_true]
  split_ifs with hfull
  · refine ⟨_, rfl, ⟨hframe, .inr rfl, hsync.imp_right fun hneed ↦ ?_⟩, rfl⟩
    change 32 ≤ need + (σ.preamble + 1)
    omega
  · refine ⟨_, rfl, ⟨hframe, .inr rfl, .inr ?_⟩, rfl⟩
    change 32 ≤ need + σ.preamble
    omega

theorem Rested.mono {need need' : ℕ} {σ : Serial} (h : Rested need σ) (hle : need ≤ need') : Rested need' σ :=
  ⟨h.1, h.2.1.imp_left fun hone ↦ by omega, h.2.2.imp_right fun hready ↦ by omega⟩

/-- In the idle bits before a frame. -/
def Idling (need k : ℕ) : Stage := fun σ made seen ↦ Rested need σ ∧ made = [] ∧ seen.length = k

theorem step_idle (hline : line.getD true = true) (need : ℕ) :
    Step (Idling need k) (Idling (need - 1) (k + 1)) E line := by
  intro σ made seen hI
  obtain ⟨hrested, rfl, hseen⟩ := hI
  have hrested : Rested (need - 1 + 1) σ := hrested.mono (by omega)
  refine ⟨fun σ made ↦ Rested (need - 1 + 1) σ ∧ made = [], fun _ ↦ ⟨hrested, rfl⟩, fun s hs ↦ ?_,
    fun s made' hP ↦ ?_⟩
  · rw [fallingEdge_quiet (.inl (by rw [hs]; exact hrested.1)), hs]
    exact ⟨hrested, rfl⟩
  · obtain ⟨hrested, rfl⟩ := hP
    obtain ⟨σ', hclock, hafter, hmdi⟩ := clockIdle_one s.serial line.isSome (need - 1) hrested
    unfold Phy.clockBit
    rw [hline]
    simp only [hrested.1, Bool.false_eq_true, not_false_eq_true, if_true, hclock, Option.map_some]
    exact ⟨hmdi, hafter, rfl, by simp [hseen]⟩

theorem idle_carried {idle : List (Option Bool)} (hidle : ∀ line ∈ idle, line.getD true = true) (need : ℕ) :
    Carried (Idling need k) (Idling (need - idle.length) (k + idle.length)) E idle := by
  induction idle generalizing need k with
  | nil => exact carried_nil
  | cons line idle ih =>
    have hrest := ih (k := k + 1) (fun l hl ↦ hidle l (List.mem_cons_of_mem line hl)) (need - 1)
    rw [Nat.sub_sub, Nat.add_assoc, Nat.add_comm 1] at hrest
    exact .cons (step_idle (hidle line List.mem_cons_self) need) hrest

theorem step_start (f : Frame) : Step (Waiting 0) (Headed f 1) E (f.line 0) := by
  intro σ made seen hI
  obtain ⟨hrested, rfl, rfl⟩ := hI
  have hline : f.line 0 = some false := by
    have hbit : f.word.getLsbD 13 = false := by
      rw [BitVec.getLsbD, word_toNat, Nat.testBit_eq_decide_div_mod_eq]
      have := f.opcode.isLt
      have := f.phy.isLt
      have := f.reg.isLt
      simp only [decide_eq_false_iff_not]
      omega
    unfold Frame.line
    rw [if_pos (by omega)]
    exact congrArg some hbit
  refine ⟨fun σ made ↦ Rested 0 σ ∧ made = [], fun _ ↦ ⟨hrested, rfl⟩, fun s hs ↦ ?_,
    fun s made' hP ↦ ?_⟩
  · rw [fallingEdge_quiet (.inl (by rw [hs]; exact hrested.1)), hs]
    exact ⟨hrested, rfl⟩
  · obtain ⟨⟨hframe, hidle, hsync⟩, rfl⟩ := hP
    have hidle : s.serial.idleNeeded = false := hidle.resolve_left (by omega)
    have hready : ¬(¬s.serial.synchronized = true ∧ s.serial.preamble < 32) := by
      rintro ⟨hnot, hshort⟩
      rcases hsync with hsync | hsync
      · exact hnot hsync
      · omega
    have hclock : Phy.clockIdle s.serial true false =
        some { s.serial with
          idleNeeded := false, synchronized := true, frame := true, bits := 1, header := 0, preamble := 0 } := by
      unfold Phy.clockIdle
      rw [if_neg (by simp [hidle])]
      dsimp only
      rw [if_neg Bool.false_ne_true, if_neg]
      rintro (hdrive | hnot)
      · exact hdrive rfl
      · exact hready hnot
    have hhead : f.head 1 = 0 := by
      apply BitVec.eq_of_toNat_eq
      rw [head_toNat, word_toNat]
      have := f.opcode.isLt
      have := f.phy.isLt
      have := f.reg.isLt
      simp only [BitVec.ofNat_eq_ofNat, BitVec.toNat_ofNat]
      omega
    unfold Phy.clockBit
    simp only [hline, hframe, Bool.false_eq_true, not_false_eq_true, if_true, Option.isSome_some, Option.getD_some,
      hclock, Option.map_some]
    exact ⟨rfl, ⟨rfl, rfl, rfl, hhead.symm⟩, rfl, rfl⟩

theorem step_header (f : Frame) (hlast : k < 14) :
    Step (Headed f k) (Headed f (k + 1)) E (f.line k) := by
  intro σ made seen hI
  obtain ⟨hframe, rfl, hseen⟩ := hI
  have hline : f.line k = some (f.word.getLsbD (13 - k)) := by
    unfold Frame.line
    rw [if_pos hlast]
  refine ⟨fun σ made ↦ InFrame f k σ ∧ made = [], fun hidle ↦ ?_, fun s hs ↦ ?_, fun s made' hP ↦ ?_⟩
  · rw [hframe.frame] at hidle
    cases hidle
  · rw [fallingEdge_quiet (.inr (.inl (by rw [hs, hframe.bits]; exact hlast))), hs]
    exact ⟨hframe.released, rfl⟩
  · obtain ⟨hin, rfl⟩ := hP
    have hheader : s.serial.header <<< 1 ||| bitWord (f.word.getLsbD (13 - k)) = f.head (k + 1) := by
      rw [hin.header, head_step f hlast]
    have hclock : Phy.clockHeader s.serial true (f.word.getLsbD (13 - k)) =
        some { s.serial with header := f.head (k + 1), bits := k + 1 } := by
      unfold Phy.clockHeader
      simp only [not_true_eq_false, if_false, hheader, hin.bits]
      rw [if_neg, if_neg]
      · rintro ⟨hfour, hone, htwo⟩
        rw [hfour] at hone htwo
        exact (head_opcode f).elim hone htwo
      · rintro ⟨htwo, hne⟩
        rw [htwo] at hne
        exact hne (head_start f)
    unfold Phy.clockBit
    simp only [hline, hin.frame, hin.bits, hlast, not_true_eq_false, if_false, if_true, Option.isSome_some,
      Option.getD_some, hclock, Option.map_some]
    exact ⟨rfl, ⟨rfl, rfl, hin.synchronized, rfl⟩, rfl, by simp [hseen]⟩

theorem clockBit_write {s : Phy} (h : InFrame (.write phy reg value) k s.serial) (hk : 14 ≤ k)
    (hturn : (k = 14 → bit = true) ∧ (k = 15 → bit = false)) :
    s.clockBit true bit =
      let σ := if 16 ≤ k then { s.serial with data := (s.serial.data <<< 1) ||| (bitWord bit).setWidth 16 }
        else s.serial
      if k = 31 ∧ phy = 1 then
        match { s with serial := σ }.write reg.toNat σ.data with
        | none => none
        | some s => some ({ s with serial := s.serial.counted }, [.write reg.toNat σ.data])
      else some ({ s with serial := σ.counted }, []) := by
  obtain ⟨hop, haddr, hreg⟩ := fields h hk
  have hphy : phy.toNat = 1 ↔ phy = 1 := by
    rw [← BitVec.toNat_inj]
    rfl
  unfold Phy.clockBit
  dsimp only
  rw [if_neg (by simp [h.frame]), if_neg (by rw [h.bits]; omega), if_neg, if_neg, h.bits]
  · generalize hσ : (if 16 ≤ k then _ else s.serial) = σ
    have hsame : σ.bits = k ∧ σ.addr = phy.toNat ∧ σ.reg = reg.toNat := by
      rw [← hσ]
      split_ifs
      · exact ⟨rfl, haddr, hreg⟩
      · exact ⟨h.bits, haddr, hreg⟩
    have hends : (σ.bits = 31 ∧ σ.addr = 1) ↔ (k = 31 ∧ phy = 1) := by rw [hsame.1, hsame.2.1, hphy]
    exact if_congr hends (hsame.2.2 ▸ rfl) rfl
  · rw [h.bits]
    rintro (hdrive | ⟨hfirst, hbit⟩ | ⟨hsecond, hbit⟩)
    · exact hdrive rfl
    · exact hbit (hturn.1 hfirst)
    · rw [hturn.2 hsecond] at hbit
      cases hbit
  · rw [hop]
    change ¬(1#2).toNat = 2
    decide

theorem data_step {data : Half} (hk : 16 ≤ k) (hlast : k < 32)
    (hdata : ∀ i < k - 16, data.getLsbD i = value.getLsbD (i + (32 - k))) :
    ∀ i < k + 1 - 16, ((data <<< 1) ||| (bitWord (value.getLsbD (31 - k))).setWidth 16).getLsbD i =
      value.getLsbD (i + (32 - (k + 1))) := by
  intro i hi
  rw [BitVec.getLsbD_or, BitVec.getLsbD_shiftLeft, BitVec.getLsbD_setWidth, bitWord_bit]
  cases i with
  | zero => simp [show 32 - (k + 1) = 31 - k by omega]
  | succ i =>
    have hplace : i + 1 + (31 - k) = i + (32 - k) := by omega
    have hprevious := hdata i (by omega)
    simp [hplace, hprevious, show i + 1 < 16 by omega]

theorem line_write (phy reg : BitVec 5) (value : Half) (hk : 14 ≤ k) :
    ∃ bit, (Frame.write phy reg value).line k = some bit ∧
    (k = 14 → bit = true) ∧ (k = 15 → bit = false) ∧ (16 ≤ k → bit = value.getLsbD (31 - k)) := by
  unfold Frame.line
  rw [if_neg (by omega)]
  by_cases hfirst : k = 14
  · exact ⟨true, if_pos hfirst, fun _ ↦ rfl, by omega, by omega⟩
  · by_cases hsecond : k = 15
    · refine ⟨false, ?_, by omega, fun _ ↦ rfl, by omega⟩
      simp [hsecond]
    · refine ⟨value.getLsbD (31 - k), ?_, by omega, by omega, fun _ ↦ rfl⟩
      simp [hfirst, hsecond]

theorem write_falls {s : Phy} (h : InFrame (.write phy reg value) k s.serial) (hk : 14 ≤ k) :
    s.fallingEdge = some ({ s with serial := { s.serial with mdi := true } }, []) := by
  refine fallingEdge_quiet (.inr (.inr ?_))
  rw [(fields h hk).1]
  change (1#2).toNat ≠ 2
  decide

theorem step_writing (hk : 14 ≤ k) (hlast : k < 31) :
    Step (Writing (.write phy reg value) value k) (Writing (.write phy reg value) value (k + 1)) E
      ((Frame.write phy reg value).line k) := by
  intro σ made seen hI
  obtain ⟨hframe, rfl, hseen, hdata⟩ := hI
  obtain ⟨bit, hline, hfirst, hsecond, hvalue⟩ := line_write phy reg value hk
  refine ⟨fun σ made ↦ InFrame (.write phy reg value) k σ ∧ made = [] ∧
    ∀ i < k - 16, σ.data.getLsbD i = value.getLsbD (i + (32 - k)), fun hidle ↦ ?_, fun s hs ↦
      ?_, fun s made' hP ↦ ?_⟩
  · rw [hframe.frame] at hidle
    cases hidle
  · rw [write_falls (hs ▸ hframe) hk, hs]
    exact ⟨hframe.released, rfl, hdata⟩
  · obtain ⟨hin, rfl, hdata⟩ := hP
    rw [hline]
    simp only [Option.isSome_some, Option.getD_some]
    rw [clockBit_write hin hk ⟨hfirst, hsecond⟩]
    dsimp only
    rw [if_neg (by omega)]
    have hlength : (seen ++ [(bit, bit)]).length = k + 1 := by simp [hseen]
    split_ifs with hbits
    · have hin' : InFrame (.write phy reg value) k
          { s.serial with data := (s.serial.data <<< 1) ||| (bitWord bit).setWidth 16 } :=
        ⟨hin.frame, hin.bits, hin.synchronized, hin.header⟩
      refine ⟨counted_mdi, hin'.counted hk hlast, rfl, hlength, ?_⟩
      rw [counted_data, hvalue hbits]
      exact data_step hbits (by omega) hdata
    · refine ⟨counted_mdi, hin.counted hk hlast, rfl, hlength, fun i hi ↦ ?_⟩
      omega

theorem write_rested {s : Phy} (data : Half) (h : InFrame (.write phy reg value) 31 s.serial)
    (hphy : phy = 1) :
    match ({ s with serial := { s.serial with data } } : Phy).write reg.toNat value with
    | none => s.regs.write reg.toNat value = none
    | some s' => s'.serial.mdi = s.serial.mdi ∧
        Rested (if (Frame.write phy reg value).resets then 32 else 1) s'.serial.counted := by
  have hresets : (Frame.write phy reg value).resets = decide (reg.toNat = 0 ∧ value &&& 0x8000#16 ≠ 0) := by
    have hreg : reg = 0#5 ↔ reg.toNat = 0 := by
      rw [← BitVec.toNat_inj]
      rfl
    unfold Frame.resets
    simp only [hphy, hreg, BitVec.ofNat_eq_ofNat, Bool.decide_and, decide_true, Bool.true_and]
  unfold Phy.write
  dsimp only
  cases s.regs.write reg.toNat value with
  | none => rfl
  | some regs =>
    simp only [hresets, decide_eq_true_eq]
    split_ifs with hreset
    · exact ⟨rfl, rested_counted h.bits (by omega) (.inr (Nat.le_refl 32))⟩
    · exact ⟨rfl, rested_counted h.bits (Nat.le_refl 1) (.inl h.synchronized)⟩

theorem step_written : Step (Writing (.write phy reg value) value 31) (Done (.write phy reg value))
    (Frame.Refused (.write phy reg value)) ((Frame.write phy reg value).line 31) := by
  intro σ made seen hI
  obtain ⟨hframe, rfl, hseen, hdata⟩ := hI
  obtain ⟨bit, hline, hfirst, hsecond, hvalue⟩ :=
    line_write phy reg value (k := 31) (by omega)
  refine ⟨fun σ made ↦ InFrame (.write phy reg value) 31 σ ∧ made = [] ∧
    ∀ i < 31 - 16, σ.data.getLsbD i = value.getLsbD (i + (32 - 31)), fun hidle ↦ ?_, fun s hs ↦
      ?_, fun s made' hP ↦ ?_⟩
  · rw [hframe.frame] at hidle
    cases hidle
  · rw [write_falls (hs ▸ hframe) (by omega), hs]
    exact ⟨hframe.released, rfl, hdata⟩
  · obtain ⟨hin, rfl, hdata⟩ := hP
    have hlength : (seen ++ [(bit, bit)]).length = 32 := by simp [hseen]
    have hwhole : (s.serial.data <<< 1) ||| (bitWord bit).setWidth 16 = value := by
      refine BitVec.eq_of_getLsbD_eq fun i hi ↦ ?_
      rw [hvalue (by omega)]
      exact data_step (by omega) (by omega) hdata i hi
    rw [hline]
    simp only [Option.isSome_some, Option.getD_some]
    rw [clockBit_write hin (by omega) ⟨hfirst, hsecond⟩]
    simp only [show 16 ≤ 31 from by omega, if_true, hwhole, true_and]
    by_cases hphy : phy = 1
    · rw [if_pos hphy]
      have hwrite := write_rested value hin hphy
      split at hwrite
      next hnone =>
        rw [hnone]
        exact ⟨hphy, hwrite⟩
      next s' hsome =>
        rw [hsome]
        exact ⟨counted_mdi.trans hwrite.1, hwrite.2, hlength, (if_pos hphy).symm⟩
    · rw [if_neg hphy]
      have hresets : (Frame.write phy reg value).resets = false := by
        have hother : ¬phy = 1#5 := hphy
        unfold Frame.resets
        simp [hother]
      have hin' : InFrame (.write phy reg value) 31 { s.serial with data := value } :=
        ⟨hin.frame, hin.bits, hin.synchronized, hin.header⟩
      refine ⟨counted_mdi, ?_, hlength, (if_neg hphy).symm⟩
      rw [hresets]
      exact hin'.finished

/-- MDC's rise in the answer of a read. -/
theorem clockBit_read {s : Phy} (h : InFrame (.read phy reg) k s.serial) (hk : 14 ≤ k) :
    s.clockBit false true = some ({ s with serial := s.serial.counted }, []) := by
  unfold Phy.clockBit
  dsimp only
  rw [if_neg (by simp [h.frame]), if_neg (by rw [h.bits]; omega), if_pos (by rw [(fields h hk).1]; rfl),
    if_neg Bool.false_ne_true]

def Answering (phy reg : BitVec 5) (value : Half) (k : ℕ) (σ : Serial) : Prop :=
  InFrame (.read phy reg) k σ ∧ σ.mdi = answer phy value k ∧
    (15 ≤ k → σ.data = value ∧ (phy ≠ 1 → value = 0xffff))

theorem turnaround_falls {s : Phy} (h : InFrame (.read phy reg) 15 s.serial) :
    Edge (fun σ made ↦ ∃ value, Answering phy reg value 15 σ ∧ made = if phy = 1 then
      [.read reg.toNat value] else [])
      ((Frame.read phy reg).Refused s) s.fallingEdge := by
  obtain ⟨hop, haddr, hreg⟩ := fields h (by omega)
  have hphy : phy.toNat = 1 ↔ phy = 1 := by
    rw [← BitVec.toNat_inj]
    rfl
  change s.serial.op = (2#2).toNat at hop
  change s.serial.addr = phy.toNat at haddr
  change s.serial.reg = reg.toNat at hreg
  unfold Serial.op at hop
  unfold Serial.addr at haddr
  unfold Serial.reg at hreg
  unfold Phy.fallingEdge Serial.op Serial.addr Serial.reg
  dsimp only
  rw [if_neg, if_pos h.bits, haddr, hreg]
  · by_cases hone : phy = 1
    · rw [if_pos (hphy.mpr hone)]
      cases hread : s.regs.read reg.toNat with
      | none => exact ⟨hone, hread⟩
      | some x =>
        refine ⟨x.1, ⟨⟨h.frame, h.bits, h.synchronized, h.header⟩, ?_, fun _ ↦ ⟨rfl, absurd hone⟩⟩,
          (if_pos hone).symm⟩
        simp [answer, hone]
    · rw [if_neg (hone ∘ hphy.mp)]
      have hother : ¬phy = 1#5 := hone
      refine ⟨0xffff, ⟨⟨h.frame, h.bits, h.synchronized, h.header⟩, ?_, fun _ ↦ ⟨rfl, fun _ ↦ rfl⟩⟩,
        (if_neg hone).symm⟩
      simp [answer, hother]
  · rintro (hidle | hshort | hwrite)
    · exact hidle h.frame
    · rw [h.bits] at hshort
      omega
    · exact hwrite hop

theorem data_falls {s : Phy} (h : InFrame (.read phy reg) k s.serial) (hk : 14 ≤ k) (hlast : k < 32)
    (hne : k ≠ 15) (hdata : 16 ≤ k → s.serial.data = value) (hother : 16 ≤ k → phy ≠ 1 → value = 0xffff) :
    ∃ s', s.fallingEdge = some (s', []) ∧ Answering phy reg value k s'.serial := by
  obtain ⟨hop, -, -⟩ := fields h hk
  change s.serial.op = (2#2).toNat at hop
  have hanswering : ¬(¬s.serial.frame = true ∨ s.serial.bits < 14 ∨ s.serial.op ≠ 2) := by
    rintro (hidle | hshort | hwrite)
    · exact hidle h.frame
    · rw [h.bits] at hshort
      omega
    · exact hwrite hop
  unfold Phy.fallingEdge
  dsimp only
  rw [if_neg, if_neg (by rw [h.bits]; exact hne)]
  · split_ifs with hbits
    · rw [h.bits] at hbits
      refine ⟨_, rfl, ⟨h.frame, h.bits, h.synchronized, h.header⟩, ?_,
        fun _ ↦ ⟨hdata hbits, hother hbits⟩⟩
      change s.serial.data.getLsbD (31 - s.serial.bits) = answer phy value k
      rw [hdata hbits, h.bits]
      unfold answer
      rw [if_neg (by omega), if_neg (by omega)]
    · rw [h.bits] at hbits
      have hfirst : k = 14 := by omega
      refine ⟨_, rfl, ⟨h.frame, h.bits, h.synchronized, h.header⟩, ?_, fun _ ↦ by omega⟩
      exact (if_pos hfirst).symm
  · exact hanswering

theorem step_reading (hk : 14 ≤ k) (hlast : k < 32) :
    Step (Reading phy reg k) (Reading phy reg (k + 1)) (Frame.Refused (.read phy reg))
      ((Frame.read phy reg).line k) := by
  intro σ made seen hI
  obtain ⟨hframe, hseen, value, rfl, hdata, hanswers⟩ := hI
  rw [if_pos hlast] at hframe
  have hline : (Frame.read phy reg).line k = none := by
    unfold Frame.line
    rw [if_neg (by omega)]
  refine ⟨fun σ made ↦ ∃ value', Answering phy reg value' k σ ∧
    ((if 16 ≤ k ∧ phy = 1 then [.read reg.toNat value] else []) ++ made =
      if 16 ≤ k + 1 ∧ phy = 1 then [.read reg.toNat value'] else []) ∧ (16 ≤ k → value' = value),
    fun hidle ↦ ?_, fun s hs ↦ ?_, fun s made' hP ↦ ?_⟩
  · rw [hframe.frame] at hidle
    cases hidle
  · by_cases hturn : k = 15
    · subst hturn
      have hedge := turnaround_falls (s := s) (hs ▸ hframe)
      cases hfall : s.fallingEdge with
      | none =>
        rw [hfall] at hedge
        exact hedge
      | some x =>
        rw [hfall] at hedge
        obtain ⟨value', hanswering, hmade⟩ := hedge
        refine ⟨value', hanswering, ?_, by omega⟩
        rw [if_neg (by omega), hmade]
        simp
    · obtain ⟨s', hfall, hanswering⟩ := @data_falls phy reg value k s (hs ▸ hframe) hk hlast hturn
        (fun hbits ↦ by rw [hs]; exact (hdata hbits).1) (fun hbits ↦ (hdata hbits).2)
      rw [hfall]
      refine ⟨value, hanswering, ?_, fun _ ↦ rfl⟩
      rw [List.append_nil]
      have hsame : 16 ≤ k ↔ 16 ≤ k + 1 := by omega
      simp only [hsame]
  · obtain ⟨value', ⟨hin, hmdi, hdata'⟩, hmade, hvalue⟩ := hP
    rw [hline]
    simp only [Option.isSome_none, Option.getD_none]
    rw [clockBit_read hin hk]
    refine ⟨counted_mdi, ?_, ?_, value', ?_, ?_, ?_⟩
    · split_ifs with hmore
      · exact hin.counted hk (by omega)
      · have hend : k = 31 := by omega
        subst hend
        exact hin.finished
    · simp [hseen]
    · rw [List.append_nil]
      exact hmade
    · intro hbits
      rw [counted_data]
      exact hdata' (by omega)
    · intro j hj hlt
      by_cases hsame : j = k
      · rw [hsame, counted_mdi, hmdi, List.getElem?_append_right (by omega), hseen, Nat.sub_self]
        rfl
      · rw [List.getElem?_append_left (by omega), hanswers j hj (by omega)]
        have hindependent : answer phy value j = answer phy value' j := by
          by_cases hdata : 16 ≤ j
          · rw [hvalue (by omega)]
          · unfold answer
            split_ifs
            · rfl
            · rfl
            · omega
        rw [hindependent]

theorem frame_carried (f : Frame) :
    Carried (Waiting 0) (Done f) f.Refused ((List.range 32).map f.line) := by
  have hheader : Carried (Headed f 1) (Headed f 14) f.Refused ((List.range' 1 13).map f.line) :=
    carried_range fun j _ hlt ↦ step_header f (by omega)
  have hsplit : List.range 32 = 0 :: (List.range' 1 13 ++ List.range' 14 18) := rfl
  rw [hsplit, List.map_cons, List.map_append]
  refine .cons (step_start f) (hheader.append ?_)
  cases f with
  | write phy reg value =>
    have hwriting : Carried (Writing (.write phy reg value) value 14) (Writing (.write phy reg value) value 31)
        (Frame.Refused (.write phy reg value)) ((List.range' 14 17).map (Frame.write phy reg value).line) :=
      carried_range fun j hj hlt ↦ step_writing hj (by omega)
    have hlast : Carried (Writing (.write phy reg value) value 31) (Done (.write phy reg value))
        (Frame.Refused (.write phy reg value)) [(Frame.write phy reg value).line 31] :=
      .cons step_written carried_nil
    rw [show List.range' 14 18 = List.range' 14 17 ++ [31] from rfl, List.map_append]
    refine (hwriting.append hlast).conseq (fun σ made seen hI ↦ ?_) fun _ _ _ hJ ↦ hJ
    exact ⟨hI.1, hI.2.1, hI.2.2, fun i hi ↦ by omega⟩
  | read phy reg =>
    have hreading : Carried (Reading phy reg 14) (Reading phy reg 32) (Frame.Refused (.read phy reg))
        ((List.range' 14 18).map (Frame.read phy reg).line) :=
      carried_range fun j hj hlt ↦ step_reading hj hlt
    refine hreading.conseq (fun σ made seen hI ↦ ?_) fun σ made seen hJ ↦ ?_
    · obtain ⟨hframe, hmade, hseen⟩ := hI
      exact ⟨hframe, hseen, 0, hmade, fun hbits ↦ by omega, fun j hj hlt ↦ by omega⟩
    · obtain ⟨hrested, hseen, value, hmade, hdata, hanswers⟩ := hJ
      refine ⟨hrested, hseen, value, ?_, (hdata (by omega)).2, hanswers⟩
      simpa using hmade

end Steps

/-- The idle bits before a frame, and the frame. -/
structure Turn where
  idle : List (Option Bool)
  frame : Frame

def Turn.lines (t : Turn) : List (Option Bool) := t.idle ++ (List.range 32).map t.frame.line

/-- Ones stand before each frame: `need` of them before the first, 32 after a software reset. -/
def WellFormed : ℕ → List Turn → Prop
  | _, [] => True
  | need, t :: turns => (∀ line ∈ t.idle, line.getD true = true) ∧ need ≤ t.idle.length ∧
      WellFormed (if t.frame.resets then 32 else 1) turns

/-- The accesses made and the samples seen are those of the frames, in order. -/
inductive Performs : List Turn → List Access → List (Bool × Bool) → Prop
  | nil : Performs [] [] []
  | cons {t : Turn} {turns : List Turn} {made made' : List Access} {idle seen seen' : List (Bool × Bool)} :
      idle.length = t.idle.length → t.frame.Does made seen → Performs turns made' seen' →
      Performs (t :: turns) (made ++ made') (idle ++ seen ++ seen')

/-- A call of the interface. -/
inductive Call
  | pir (value : Word)
  | advance (now : ℕ)
  | setPeer (present : Bool) (advertisement : Half) (now : ℕ)
  | read (reg : ℕ)
  | write (reg : ℕ) (value : Half)

def Phy.commit (s : Phy) : Call → Option Phy
  | .pir value => (s.pirWrite value).map (·.1)
  | .advance now => (s.regs.advance now).map fun regs ↦ { s with regs }
  | .setPeer present advertisement now => (s.regs.setPeer present advertisement now).map fun regs ↦ { s with regs }
  | .read reg => (s.regs.read reg).map fun x ↦ { s with regs := x.2 }
  | .write reg value => s.write reg value

def Phy.perform (s : Phy) (c : Call) : Bool × Phy :=
  match s.commit c with
  | none => (false, s)
  | some s => (true, s)

section Sessions

variable {turns : List Turn} {b : Bench} {cells : List Cell}

theorem session_yields {need : ℕ} (hwell : WellFormed need turns)
    (hcells : List.Forall₂ Cell.Carries cells (turns.flatMap Turn.lines)) (hrested : Rested need b.phy.serial) :
    Yields (fun b' ↦ ∃ made seen, Performs turns made seen ∧ accesses b'.log = accesses b.log ++ made ∧
      b'.seen = b.seen ++ seen) (fun s ↦ ∃ t ∈ turns, t.frame.Refused s) (b.cells cells) := by
  induction turns generalizing need b cells with
  | nil =>
    cases hcells
    exact ⟨[], [], .nil, (List.append_nil _).symm, (List.append_nil _).symm⟩
  | cons t turns ih =>
    obtain ⟨hidle, hneed, hwell⟩ := hwell
    rw [List.flatMap_cons, Turn.lines, List.append_assoc] at hcells
    have hfirst := List.forall₂_take_append _ _ _ hcells
    have hcells := List.forall₂_drop_append _ _ _ hcells
    have hframe := List.forall₂_take_append _ _ _ hcells
    have hrest := List.forall₂_drop_append _ _ _ hcells
    rw [← List.take_append_drop t.idle.length cells,
      ← List.take_append_drop ((List.range 32).map t.frame.line).length (cells.drop t.idle.length)]
    unfold Bench.cells
    rw [List.foldlM_append]
    have hstart : Reaches b (Idling need 0) b := ⟨[], [], ⟨hrested, rfl, rfl⟩, (List.append_nil _).symm,
      (List.append_nil _).symm, fun _ ↦ hrested.1⟩
    refine (idle_carried (E := fun s ↦ ∃ t' ∈ t :: turns, t'.frame.Refused s) hidle need b b _ hfirst hstart).bind
      fun c hc ↦ ?_
    obtain ⟨-, idle, ⟨hrested, rfl, hlength⟩, hmade, hseen, hlow⟩ := hc
    rw [Nat.sub_eq_zero_of_le hneed] at hrested
    rw [List.append_nil] at hmade
    rw [List.foldlM_append]
    have hbegin : Reaches c (Waiting 0) c := ⟨[], [], ⟨hrested, rfl, rfl⟩, (List.append_nil _).symm,
      (List.append_nil _).symm, hlow⟩
    refine ((frame_carried t.frame c c _ hframe hbegin).mono_error fun s hs ↦ ⟨t, List.mem_cons_self, hs⟩).bind
      fun d hd ↦ ?_
    obtain ⟨made, seen, ⟨hrested, hdoes⟩, hmade', hseen', -⟩ := hd
    refine ((ih hwell hrest hrested).mono fun e he ↦ ?_).mono_error fun s hs ↦ ?_
    · obtain ⟨made', seen', hperforms, hmade'', hseen''⟩ := he
      refine ⟨made ++ made', idle ++ seen ++ seen', .cons ?_ hdoes hperforms, ?_, ?_⟩
      · rw [hlength, Nat.zero_add]
      · rw [hmade'', hmade', hmade, List.append_assoc]
      · rw [hseen'', hseen', hseen, List.append_assoc, List.append_assoc, List.append_assoc]
    · obtain ⟨t', hmem, hrefused⟩ := hs
      exact ⟨t', List.mem_cons_of_mem t hmem, hrefused⟩

def Bench.insist (b : Bench) (e : Event) : Bench :=
  match b.call e with
  | .ok b => b
  | .error _ => b

def pirValue (level : Bool) (line : Option Bool) : Word :=
  (if level then 1#32 else 0#32) ||| (if line.isSome then 2#32 else 0#32) ||| (if line.getD false then 4#32 else 0#32)

/-- The calls of one bit, one while MDC is low and one while it is high. -/
def pulse (line : Option Bool) : Cell := ⟨[.pir (pirValue false line)], [.pir (pirValue true line)]⟩

theorem pirValue_drives (level : Bool) (line : Option Bool) :
    Level level (pirValue level line) ∧ Drives line (pirValue level line) := by
  have hline : ∀ bit, Level level (pirValue level (some bit)) ∧ Drives (some bit) (pirValue level (some bit)) := by
    intro bit
    rcases level with _ | _ <;> rcases bit with _ | _ <;>
      exact ⟨⟨rfl, rfl⟩, rfl, fun _ h ↦ Option.some_inj.mp h⟩
  cases line with
  | some bit => exact hline bit
  | none => rcases level with _ | _ <;> exact ⟨⟨rfl, rfl⟩, rfl, fun _ h ↦ absurd h (Option.not_mem_none _)⟩

theorem pulse_carries (line : Option Bool) : (pulse line).Carries line := by
  refine ⟨fun value hvalue ↦ ?_, ⟨pirValue false line, rfl, (pirValue_drives false line).2⟩,
    fun value hvalue ↦ ?_,
    List.cons_ne_nil _ _⟩
  · rw [List.mem_singleton.mp hvalue]
    exact (pirValue_drives false line).1
  · rw [List.mem_singleton.mp hvalue]
    exact pirValue_drives true line

theorem pulses_carry (lines : List (Option Bool)) : List.Forall₂ Cell.Carries (lines.map pulse) lines := by
  induction lines with
  | nil => exact .nil
  | cons line lines ih => exact .cons (pulse_carries line) ih

/-- A refused write goes on waiting for its last bit, which the idle after the frame supplies. -/
theorem refused_write_repeats :
    let turns : List Turn := [⟨List.replicate 32 (some true), .write 1 31 6⟩, ⟨[some true], .write 2 0 0⟩]
    WellFormed 32 turns ∧
    accesses (((turns.flatMap Turn.lines).map pulse).flatMap (fun c ↦ c.low ++ c.high) |>.foldl
      Bench.insist ⟨reset 0, [], []⟩).log = [.write 31 7] := by
  refine ⟨⟨fun line hline ↦ ?_, by decide, fun line hline ↦ ?_, by decide, trivial⟩, by decide +kernel⟩
  · rw [List.eq_of_mem_replicate hline]
    rfl
  · rw [List.mem_singleton.mp hline]
    rfl

/-- On every session, however its calls go and time advances, either each frame performs its
register operation once, with what the master reads, and nothing else is done to the registers,
or the operation of a frame is refused. A refused call leaves the PHY as it was. -/
theorem frames_perform_operations (s : Phy) (turns : List Turn) (cells : List Cell) (hidle : s.serial.frame = false)
    (hwell : WellFormed 32 turns) (hcells : List.Forall₂ Cell.Carries cells (turns.flatMap Turn.lines)) :
    Yields (fun b ↦ Performs turns (accesses b.log) b.seen ∧ replay s.regs b.log = some b.phy.regs)
      (fun s ↦ ∃ t ∈ turns, t.frame.Refused s) (Bench.cells ⟨s, [], []⟩ cells) ∧
    ∀ (s : Phy) c, (s.perform c).1 = false → (s.perform c).2 = s := by
  refine ⟨?_, fun s c hrefused ↦ ?_⟩
  · have hsession := session_yields (b := ⟨s, [], []⟩) hwell hcells ⟨hidle, .inl (by omega),
      .inr (Nat.le_add_right 32 _)⟩
    cases hrun : (⟨s, [], []⟩ : Bench).cells cells with
    | ok b =>
      rw [hrun] at hsession
      obtain ⟨made, seen, hperforms, hmade, hseen⟩ := hsession
      have hseen : b.seen = seen := hseen
      have hmade : accesses b.log = made := hmade
      exact ⟨by rwa [hseen, hmade], cells_genuine (show Genuine s.regs ⟨s, [], []⟩ from rfl) hrun⟩
    | error s' =>
      rw [hrun] at hsession
      exact hsession
  · unfold Phy.perform at hrefused ⊢
    cases hcommit : s.commit c with
    | none => rfl
    | some s' =>
      rw [hcommit] at hrefused
      cases hrefused

def resetSession : List Turn :=
  [⟨List.replicate 32 (some true), .write 1 0 0x8000⟩, ⟨List.replicate 32 none, .read 1 2⟩]

theorem frames_perform_reset_and_read :
    Yields (fun b ↦ Performs resetSession (accesses b.log) b.seen ∧ replay (reset 0).regs b.log = some b.phy.regs)
      (fun s ↦ ∃ t ∈ resetSession, t.frame.Refused s)
      (Bench.cells ⟨reset 0, [], []⟩ ((resetSession.flatMap Turn.lines).map pulse)) ∧
    ∀ (s : Phy) c, (s.perform c).1 = false → (s.perform c).2 = s := by
  have hwell : WellFormed 32 resetSession := by
    refine ⟨fun line hline ↦ ?_, by decide, fun line hline ↦ ?_, by decide, trivial⟩
    · rw [List.eq_of_mem_replicate hline]
      rfl
    · rw [List.eq_of_mem_replicate hline]
      rfl
  exact frames_perform_operations (reset 0) resetSession _ rfl hwell (pulses_carry _)

end Sessions

end Cdj2000Emulator.Rtl8201fl
