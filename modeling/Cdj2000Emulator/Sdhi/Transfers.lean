import Cdj2000Emulator.Sdhi.Phases

namespace Cdj2000Emulator.Sdhi

open Library.Bytes Library.Traces State

variable {σ : Type} {card : Card σ} {bps : ℕ} {x : Transfer σ} {p q : Play σ} {s : State σ} {now : ℤ}

section Idle

variable {n : ℕ} {bytes : List Byte}

theorem readData_eq_take (h : s.bufPos < s.bufLen) :
    (s.readData card bps now).2 = handOver (s.take card bps now (if s.bufLen ≤ s.bufPos + 1 then 1 else 2)) := by
  rw [readData]
  split_ifs with hlast
  · have hend : s.bufPos + min 1 (s.bufLen - s.bufPos) = s.bufLen := by omega
    rw [State.take, hend]
    dsimp only [handOver]
    rw [if_pos (Nat.le_refl s.bufLen)]
  · rfl

theorem length_take : (s.take card bps now n).1.length = min n (s.bufLen - s.bufPos) := by
  rw [State.take, length_slice]
  exact Nat.add_sub_cancel_left _ _

/-- A buffer that the block fills goes to the guest with nothing else in it. -/
theorem dmacRead_eq_take (hne : s.bufLen ≠ 0) (h : bytes.length ≤ s.bufLen - s.bufPos) :
    s.dmacRead card bps now bytes = handOver (s.take card bps now bytes.length) := by
  have hwhole : bytes.drop (s.take card bps now bytes.length).1.length = [] :=
    List.drop_eq_nil_of_le (length_take.trans (Nat.min_eq_left h)).ge
  rw [dmacRead, dmaRead, if_neg hne]
  dsimp only
  rw [hwhole, List.append_nil]
  rfl

theorem take_zero (h : s.bufPos < s.bufLen) : s.take card bps now 0 = ([], s, []) := by
  rw [State.take, Nat.zero_min, Nat.add_zero, slice_self]
  exact congrArg (Prod.mk []) (if_neg (Nat.not_le.mpr h))

/-- Bytes that do not fill the block stay in the buffer. -/
theorem put_part (h : s.bufPos + bytes.length < s.bufLen) : s.put card bps now bytes = (s.laid bytes, []) := by
  rw [State.put, List.take_of_length_le (by omega)]
  exact if_neg (Nat.not_le.mpr h)

theorem reported_of_settled (h : s.info1 ||| dataEndBit = s.info1) : s.info1 &&& dataEndBit ≠ 0 := by
  intro hzero
  have hbit := congrArg (·.getLsbD 2) h
  have hclear := congrArg (·.getLsbD 2) hzero
  rw [BitVec.getLsbD_or] at hbit
  rw [BitVec.getLsbD_and] at hclear
  simp [dataEndBit] at hbit hclear
  rw [hbit] at hclear
  cases hclear

theorem dataEnd_settled (hleft : s.blocksLeft = 0) (hinfo : s.info1 ||| dataEndBit = s.info1)
    (hstop : ¬(s.multi = true ∧ s.stop &&& stopEnable ≠ 0)) :
    s.dataEnd card = ({ s with multi := false }, []) := by
  rw [State.dataEnd, if_neg (reported_of_settled hinfo), if_neg hstop, hinfo, ← hleft]

/-- The end of a transfer is not reported twice. -/
theorem blockDone_settled (h : s.Settled) : s.blockDone card bps now = ({ s.updateIrq with multi := false }, []) := by
  obtain ⟨hleft, hinfo1, hinfo2, hstop⟩ := h
  have hclear : s.clearReady = s.updateIrq := by rw [clearReady, hinfo2]
  have hlast : ¬1 < s.updateIrq.blocksLeft := by
    change ¬1 < s.blocksLeft
    omega
  rw [blockDone, hclear, if_neg hlast]
  exact dataEnd_settled hleft hinfo1 hstop

theorem take_end (hend : s.bufLen ≤ s.bufPos) : s.take card bps now n = ([], s.blockDone card bps now) := by
  have hpos : s.bufPos + min n (s.bufLen - s.bufPos) = s.bufPos := by omega
  rw [State.take, hpos, slice_self]
  exact congrArg (Prod.mk []) (if_pos hend)

theorem take_settled (hend : s.bufLen ≤ s.bufPos) (h : s.Settled) :
    s.take card bps now n = ([], { s.updateIrq with multi := false }, []) := by
  rw [take_end hend, blockDone_settled h]

theorem readData_settled (hend : s.bufLen ≤ s.bufPos) (h : s.Settled) :
    (s.readData card bps now).2 = ({ s.updateIrq with bufPos := s.bufLen, multi := false }, [.handed []]) := by
  have hempty : s.slice s.bufPos s.bufLen = [] := List.eq_nil_of_length_eq_zero (length_slice.trans (by omega))
  rw [readData, if_pos (by omega), hempty, blockDone_settled (s := { s with bufPos := s.bufLen }) h]
  rfl

end Idle

def Event.IsAccess : Event → Prop
  | .dataReady | .writeReg _ _ => False
  | _ => True

/-- The host after an access that hands over nothing. -/
structure Inert (s t : State σ) : Prop where
  bufLen : t.bufLen = s.bufLen
  writing : t.writing = s.writing
  pos : s.bufPos < s.bufLen → t.bufPos < t.bufLen
  info1 : t.info1 = s.info1
  info2 : t.info2 = s.info2
  multi : t.multi = s.multi ∨ s.blocksLeft = 0
  stop : t.stop = s.stop
  device : t.card = s.card
  left : t.blocksLeft = s.blocksLeft
  timer : t.dataTimer = s.dataTimer

theorem Inert.refl (s : State σ) : Inert s s := ⟨rfl, rfl, id, rfl, rfl, .inl rfl, rfl, rfl, rfl, rfl⟩

theorem inert_settled (h : s.Settled) : Inert s { s.updateIrq with multi := false } :=
  ⟨rfl, rfl, id, rfl, rfl, .inr h.1, rfl, rfl, rfl, rfl⟩

theorem inert_laid {bytes : List Byte} (h : s.bufPos + bytes.length < s.bufLen) : Inert s (s.laid bytes) :=
  ⟨rfl, rfl, fun _ ↦ h, rfl, rfl, .inl rfl, rfl, rfl, rfl, rfl⟩

theorem inert_of_clean (card : Card σ) (bps : ℕ) (now : ℤ) {e : Event} (haccess : e.IsAccess) (hnone : ¬s.Staged)
    (hclean : e.Clean s) :
    Inert s (e.handle card bps now s).1 ∧
    ((e.handle card bps now s).2 = [] ∨ (e.handle card bps now s).2 = [.handed []]) := by
  cases e with
  | dataReady | writeReg _ _ => exact haccess.elim
  | readData =>
    obtain ⟨-, hstaged⟩ | ⟨hend, hsettled⟩ := hclean
    · exact absurd hstaged hnone
    · rw [Event.handle, readData_settled hend hsettled]
      refine ⟨⟨rfl, rfl, fun hlt ↦ ?_, rfl, rfl, .inr hsettled.1, rfl, rfl, rfl, rfl⟩, .inr rfl⟩
      exact absurd hlt (Nat.not_lt.mpr hend)
  | writeData value =>
    rw [Event.handle, writeData]
    split_ifs with hidle
    · exact ⟨.refl s, .inl rfl⟩
    · obtain ⟨hwriting, hroom⟩ := not_or.mp hidle
      obtain hread | hstaged | hfull | hpart := hclean
      · exact absurd hread hwriting
      · exact absurd hstaged hnone
      · exact absurd hfull hroom
      · rw [put_part hpart]
        exact ⟨inert_laid hpart, .inl rfl⟩
  | dmaRead buffer =>
    by_cases hempty : s.bufLen = 0
    · rw [Event.handle, dmacRead, dmaRead, if_pos hempty]
      exact ⟨.refl s, .inl rfl⟩
    · obtain hzero | ⟨-, hstaged, -⟩ | ⟨rfl, hroom⟩ := hclean
      · exact absurd hzero hempty
      · exact absurd hstaged hnone
      · rw [Event.handle, dmacRead_eq_take hempty (Nat.zero_le _), List.length_nil]
        obtain hlt | hend := Nat.lt_or_ge s.bufPos s.bufLen
        · rw [take_zero hlt]
          exact ⟨.refl s, .inr rfl⟩
        · have hsettled := hroom.resolve_left (Nat.not_lt.mpr hend)
          rw [take_settled hend hsettled]
          exact ⟨inert_settled hsettled, .inr rfl⟩
  | dmaWrite bytes =>
    rw [Event.handle, dmaWrite]
    split_ifs with hidle
    · exact ⟨.refl s, .inl rfl⟩
    · obtain ⟨hempty, hwriting⟩ := not_or.mp hidle
      obtain hzero | hread | hstaged | hpart := hclean
      · exact absurd hzero hempty
      · exact absurd hread hwriting
      · exact absurd hstaged hnone
      · rw [put_part hpart]
        exact ⟨inert_laid hpart, .inl rfl⟩

/-- An access that hands over nothing and changes neither the block count nor the status. -/
structure Harmless (card : Card σ) (bps : ℕ) (now : ℤ) (s : State σ) (e : Event) : Prop where
  out : (e.handle card bps now s).2 = [] ∨ (e.handle card bps now s).2 = [.handed []]
  left : (e.handle card bps now s).1.blocksLeft = s.blocksLeft
  info1 : (e.handle card bps now s).1.info1 = s.info1
  info2 : (e.handle card bps now s).1.info2 = s.info2

section Harmless

variable {bytes : List Byte} {out : List Label}

end Harmless

section Steps

variable {e : Event}

theorem after_of_offered (h : e.offered p.host = []) : p.after card bps now e =
    (e.handle card bps now p.host).2.foldl Play.note { p with now, host := (e.handle card bps now p.host).1 } := by
  rw [Play.after, h]
  dsimp only
  rw [List.append_nil]

theorem offered_of_not_staged (h : ¬s.Staged) : e.offered s = [] := by
  cases e with
  | writeData _ | dmaWrite _ => exact if_neg fun hstaged ↦ h hstaged.2
  | dataReady | readData | dmaRead _ | writeReg _ _ => rfl

theorem offered_of_reading (h : s.writing = false) : e.offered s = [] := by
  cases e with
  | writeData _ | dmaWrite _ => exact if_neg fun hwriting ↦ absurd (h.symm.trans hwriting.1) Bool.false_ne_true
  | dataReady | readData | dmaRead _ | writeReg _ _ => rfl

theorem Going.inert (h : Going card x p) (haccess : e.IsAccess) (hnone : ¬p.host.Staged) (hclean : e.Clean p.host) :
    Going card x (p.after card bps now e) := by
  obtain ⟨hinert, hout⟩ := inert_of_clean card bps now haccess hnone hclean
  have hsame : Going card x { p with now, host := (e.handle card bps now p.host).1 } := by
    refine h.same hinert.bufLen hinert.writing (.inl ⟨hnone, fun hw ↦ ?_⟩)
      (hinert.info1 ▸ id) hinert.multi hinert.stop
      hinert.device hinert.left hinert.timer
    rw [← h.bufLen, ← hinert.bufLen]
    exact hinert.pos (h.bufLen ▸ h.pos (.inl hw))
  rw [after_of_offered (offered_of_not_staged hnone)]
  obtain hout | hout := hout
  · rw [hout]
    exact hsame
  · rw [hout, List.foldl_cons, List.foldl_nil, Play.note, List.append_nil]
    exact hsame

theorem Going.unchanged (h : Going card x p) : Going card x { p with now } :=
  h.same rfl rfl (.inr ⟨rfl, rfl⟩) id (.inl rfl) rfl rfl rfl rfl

theorem Going.access (h : Going card x p) (haccess : e.IsAccess) (hstaged : p.host.Staged) (hclean : e.Clean p.host) :
    Going card x (p.after card bps now e) := by
  have hpos : p.host.bufPos < p.host.bufLen := h.bufLen ▸ h.pos (.inr hstaged)
  have hne : p.host.bufLen ≠ 0 := Nat.ne_of_gt (Nat.zero_lt_of_lt hpos)
  cases hx : x.writing with
  | false =>
    have hwriting := h.writing.trans hx
    rw [after_of_offered (offered_of_reading hwriting)]
    cases e with
    | dataReady | writeReg _ _ => exact haccess.elim
    | readData =>
      rw [Event.handle, readData_eq_take hpos]
      exact h.take hx hstaged
    | dmaRead buffer =>
      have hfits : buffer.length ≤ p.host.bufLen - p.host.bufPos := by
        obtain hzero | ⟨-, -, hle⟩ | ⟨rfl, -⟩ := hclean
        · exact absurd hzero hne
        · exact hle
        · exact Nat.zero_le _
      rw [Event.handle, dmacRead_eq_take hne hfits]
      exact h.take hx hstaged
    | writeData value =>
      rw [Event.handle, writeData, if_pos (.inl hwriting)]
      exact h.unchanged
    | dmaWrite bytes =>
      rw [Event.handle, dmaWrite, if_pos (.inr hwriting)]
      exact h.unchanged
  | true =>
    have hwriting := h.writing.trans hx
    have hread : p.host.writing ≠ false := fun hfalse ↦ Bool.false_ne_true (hfalse.symm.trans hwriting)
    cases e with
    | dataReady | writeReg _ _ => exact haccess.elim
    | readData =>
      obtain ⟨hread', -⟩ | ⟨hend, -⟩ := hclean
      · exact absurd hread' hread
      · exact absurd hpos (Nat.not_lt.mpr hend)
    | dmaRead buffer =>
      obtain hzero | ⟨hread', -⟩ | ⟨rfl, -⟩ := hclean
      · exact absurd hzero hne
      · exact absurd hread' hread
      · rw [after_of_offered rfl, Event.handle, dmacRead_eq_take hne (Nat.zero_le _), List.length_nil, take_zero hpos,
          handOver, List.foldl_cons, List.foldl_nil, Play.note, List.append_nil]
        exact h.unchanged
    | writeData value =>
      rw [Play.after, Event.offered, if_pos ⟨hwriting, hstaged⟩, Event.handle, writeData,
        if_neg (not_or.mpr ⟨hread, Nat.not_le.mpr hpos⟩)]
      exact h.put hx hstaged
    | dmaWrite bytes =>
      rw [Play.after, Event.offered, if_pos ⟨hwriting, hstaged⟩, Event.handle, dmaWrite,
        if_neg (not_or.mpr ⟨hne, hread⟩)]
      exact h.put hx hstaged

/-- A clean event keeps a transfer on its way. -/
theorem Going.step (h : Going card x p) (hallowed : e.Allowed now p.host) (hclean : e.Clean p.host) :
    Going card x (p.after card bps now e) := by
  by_cases haccess : e.IsAccess
  · by_cases hstaged : p.host.Staged
    · exact h.access haccess hstaged hclean
    · exact h.inert haccess hstaged hclean
  · cases e with
    | readData | writeData _ | dmaRead _ | dmaWrite _ => exact absurd trivial haccess
    | dataReady =>
      obtain ⟨t, ht, -⟩ := hallowed
      rw [after_of_offered rfl]
      exact h.dataReady (by rw [ht]; exact Option.some_ne_none t)
    | writeReg reg value =>
      have hinfo : p.host.info1 &&& dataEndBit = 0 → p.host.info1 &&& (value ||| infoCard) &&& dataEndBit = 0 := by
        intro hzero
        rw [BitVec.and_assoc, BitVec.and_comm (value ||| infoCard), ← BitVec.and_assoc, hzero]
        exact BitVec.zero_and
      rw [after_of_offered rfl]
      cases reg with
      | info1 => exact h.same rfl rfl (.inr ⟨rfl, rfl⟩) hinfo (.inl rfl) rfl rfl rfl rfl
      | arg0 | arg1 | seccnt | sizereg | info2 | info2Mask =>
        exact h.same rfl rfl (.inr ⟨rfl, rfl⟩) id (.inl rfl) rfl rfl rfl rfl

end Steps

section Commands

variable {cmd : BitVec 16} {es : List Event}

def Starts (card : Card σ) (cmd : BitVec 16) (s : State σ) : Prop := cmd &&& cmdData ≠ 0 ∧ s.Answered card cmd

/-- What a command leaves when it starts no data phase. -/
def Idle (p : Play σ) : Prop :=
  p.host.bufLen = 0 ∧ p.host.blocksLeft = 0 ∧ p.handed = [] ∧ p.stored = [] ∧ p.offered = [] ∧
    p.readies = 0 ∧ p.ends = 0 ∧ p.stops = 0

theorem Idle.step {e : Event} (h : Idle p) (hclean : e.Clean p.host) : Idle (p.after card bps now e) := by
  obtain ⟨hbufLen, hleft, hhanded, hstored, hoffered, hreadies, hends, hstops⟩ := h
  have hnone : ¬p.host.Staged := not_staged_of_over hleft
  rw [after_of_offered (offered_of_not_staged hnone)]
  by_cases haccess : e.IsAccess
  · obtain ⟨hinert, hout⟩ := inert_of_clean card bps now haccess hnone hclean
    obtain hout | hout := hout
    · rw [hout]
      exact ⟨hinert.bufLen.trans hbufLen, hinert.left.trans hleft, hhanded, hstored, hoffered,
        hreadies, hends, hstops⟩
    · rw [hout]
      exact ⟨hinert.bufLen.trans hbufLen, hinert.left.trans hleft, (List.append_nil _).trans hhanded,
        hstored, hoffered,
        hreadies, hends, hstops⟩
  · cases e with
    | readData | writeData _ | dmaRead _ | dmaWrite _ => exact absurd trivial haccess
    | dataReady =>
      rw [Event.handle, State.dataReady, if_pos hbufLen]
      exact ⟨hbufLen, hleft, hhanded, hstored, hoffered, hreadies, hends, hstops⟩
    | writeReg reg value =>
      cases reg <;> exact ⟨hbufLen, hleft, hhanded, hstored, hoffered, hreadies, hends, hstops⟩

theorem Going.run (h : Going card x p) (hrun : Run card bps p es q) : Going card x q := by
  refine hrun.keeps (P := Going card x) ?_ h
  rintro _ _ _ hp ⟨-, hallowed, hclean⟩
  exact hp.step hallowed hclean

theorem Idle.run (h : Idle p) (hrun : Run card bps p es q) : Idle q := by
  refine hrun.keeps (P := Idle) ?_ h
  rintro _ _ _ hp ⟨-, -, hclean⟩
  exact hp.step hclean

end Commands

section Example

end Example

end Cdj2000Emulator.Sdhi
