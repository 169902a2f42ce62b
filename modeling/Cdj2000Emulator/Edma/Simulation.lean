import Cdj2000Emulator.Edma.Model

namespace Cdj2000Emulator.Edma.Simulation

open Library.Worklist Model

variable {β γ : Type}

/-- Two buses that answer alike from related states and stay related. -/
structure BusSimulation (bus : Bus β) (bus' : Bus γ) (R : β → γ → Prop) : Prop where
  read : ∀ {b c}, R b c → ∀ address n, (bus.read b address n).1 = (bus'.read c address n).1 ∧
    R (bus.read b address n).2 (bus'.read c address n).2
  write : ∀ {b c}, R b c → ∀ address n (x : Vector Byte n) commit,
    (bus.write b address x commit).1 = (bus'.write c address x commit).1 ∧
      R (bus.write b address x commit).2 (bus'.write c address x commit).2

/-- Equal answers, and bus states that are still related. -/
def Alike {α : Type} (R : β → γ → Prop) (r : α × β) (r' : α × γ) : Prop := r.1 = r'.1 ∧ R r.2 r'.2

/-- The same registers over related bus states. -/
def Related (R : β → γ → Prop) : C6747Edma × β → C6747Edma × γ → Prop := Alike R

variable {bus : Bus β} {bus' : Bus γ} {R : β → γ → Prop} {b : β} {c : γ}

theorem Alike.parts {α : Type} {r : α × β} {r' : α × γ} (h : Alike R r r') :
    ∃ a b c, r = (a, b) ∧ r' = (a, c) ∧ R b c :=
  ⟨r.1, r.2, r'.2, rfl, by rw [h.1], h.2⟩

theorem transferArrays_alike (sim : BusSimulation bus bus' R) (commit : Bool) (count : ℕ)
    (srcIndex dstIndex : Word) (arrays : ℕ) (src dst : Word) (h : R b c) :
    Alike R (transferArrays bus commit count srcIndex dstIndex arrays src dst b)
      (transferArrays bus' commit count srcIndex dstIndex arrays src dst c) := by
  induction arrays generalizing src dst b c with
  | zero => exact ⟨rfl, h⟩
  | succ arrays ih =>
    obtain ⟨bytes, b₁, c₁, hb, hc, h⟩ := Alike.parts (sim.read h src count)
    simp only [transferArrays, hb, hc]
    cases bytes with
    | none => exact ⟨rfl, h⟩
    | some bytes =>
      obtain ⟨ok, b₂, c₂, hb, hc, h⟩ := Alike.parts (sim.write h dst count bytes false)
      simp only [hb, hc]
      cases ok with
      | false => exact ⟨rfl, h⟩
      | true =>
        have written : Alike R (if commit then bus.write b₂ dst bytes true else (true, b₂))
            (if commit then bus'.write c₂ dst bytes true else (true, c₂)) := by
          cases commit with
          | false => exact ⟨rfl, h⟩
          | true => exact sim.write h dst count bytes true
        obtain ⟨ok, b₃, c₃, hb, hc, h⟩ := written.parts
        simp only [hb, hc]
        cases ok with
        | false => exact ⟨rfl, h⟩
        | true => exact ih _ _ h

theorem transferBytes_alike (sim : BusSimulation bus bus' R) (commit : Bool) (p : ParamSet)
    (h : R b c) : Alike R (transferBytes bus commit p b) (transferBytes bus' commit p c) := by
  unfold transferBytes
  split
  · exact transferArrays_alike sim commit _ _ _ _ _ _ h
  · exact ⟨rfl, h⟩

theorem completeOne_alike (sim : BusSimulation bus bus' R) (commit : Bool)
    (m : C6747Edma × β) (m' : C6747Edma × γ) (queue : PendingQueue) (event : PendingEvent)
    (h : Related R m m') :
    (completeOne bus commit m queue event).1 = (completeOne bus' commit m' queue event).1 ∧
    ((completeOne bus commit m queue event).1 = true →
      (completeOne bus commit m queue event).2.2 = (completeOne bus' commit m' queue event).2.2) ∧
    Related R (completeOne bus commit m queue event).2.1
      (completeOne bus' commit m' queue event).2.1 := by
  obtain ⟨s, b, c, rfl, rfl, hr⟩ := Alike.parts h
  simp only [completeOne]
  split
  · exact ⟨rfl, fun _ ↦ rfl, rfl, hr⟩
  · obtain ⟨ok, b₁, c₁, hb, hc, h⟩ := (transferBytes_alike sim commit (s.param (s.setOf event)) hr).parts
    simp only [hb, hc]
    cases ok with
    | false => exact ⟨rfl, fun _ ↦ rfl, rfl, h⟩
    | true => exact ⟨rfl, fun _ ↦ rfl, rfl, h⟩

theorem service_alike (sim : BusSimulation bus bus' R) (commit : Bool) {m : C6747Edma × β}
    {m' : C6747Edma × γ} (initial : List PendingEvent) (h : Related R m m') :
    (service bus commit m initial).1 = (service bus' commit m' initial).1 ∧
      Related R (service bus commit m initial).2 (service bus' commit m' initial).2 := by
  unfold service
  cases Queue.empty.pushAll serviceLimit initial with
  | none => exact ⟨rfl, h⟩
  | some queue =>
    exact drain_simulation (Related R) (completeOne_alike sim commit) serviceLimit queue h

/-- A call that answers alike over both buses and keeps the same registers. -/
def SameCall (R : β → γ → Prop) (r : Bool × (C6747Edma × β)) (r' : Bool × (C6747Edma × γ)) : Prop :=
  r.1 = r'.1 ∧ Related R r.2 r'.2

theorem SameCall.parts {r : Bool × (C6747Edma × β)} {r' : Bool × (C6747Edma × γ)}
    (h : SameCall R r r') : ∃ ok s b c, r = (ok, s, b) ∧ r' = (ok, s, c) ∧ R b c := by
  obtain ⟨hok, hm⟩ := h
  obtain ⟨s, b, c, hb, hc, h⟩ := Alike.parts hm
  exact ⟨r.1, s, b, c, by rw [← hb], by rw [hok, ← hc], h⟩

theorem sameCall_of (ok : Bool) (s : C6747Edma) (h : R b c) : SameCall R (ok, s, b) (ok, s, c) :=
  ⟨rfl, rfl, h⟩

theorem serviceChecked_same (sim : BusSimulation bus bus' R) (s start : C6747Edma)
    (events : List PendingEvent) (commit : Bool) (h : R b c) :
    SameCall R (serviceChecked bus (s, b) (start, b) events commit)
      (serviceChecked bus' (s, c) (start, c) events commit) := by
  have preview : Related R (start, b) (start, c) := ⟨rfl, h⟩
  obtain ⟨ok, t, b₁, c₁, hb, hc, h⟩ := SameCall.parts (service_alike sim false events preview)
  simp only [serviceChecked, hb, hc]
  cases ok with
  | false => exact sameCall_of false s h
  | true =>
    cases commit with
    | false => exact sameCall_of true s h
    | true =>
      have run : Related R (start, b₁) (start, c₁) := ⟨rfl, h⟩
      exact service_alike sim true events run

theorem writeChannel_same (sim : BusSimulation bus bus' R) (s : C6747Edma) (view : View)
    (value : Word) (commit : Bool) (h : R b c) :
    SameCall R (writeChannel bus (s, b) view value commit)
      (writeChannel bus' (s, c) view value commit) := by
  unfold writeChannel
  dsimp only
  split
  case h_2 => exact serviceChecked_same sim s _ _ commit h
  case h_4 =>
    split
    · exact sameCall_of _ _ h
    · exact serviceChecked_same sim s _ _ commit h
  case h_9 =>
    split
    · exact sameCall_of _ _ h
    · split
      · exact sameCall_of _ _ h
      · split <;> exact sameCall_of _ _ h
  all_goals exact sameCall_of _ _ h

theorem writeParam_same (sim : BusSimulation bus bus' R) (s : C6747Edma) (set word size : ℕ)
    (value : BitVec 64) (commit : Bool) (h : R b c) :
    SameCall R (writeParam bus (s, b) set word size value commit)
      (writeParam bus' (s, c) set word size value commit) := by
  unfold writeParam
  dsimp only
  split
  · exact sameCall_of _ _ h
  · split
    · exact sameCall_of _ _ h
    · generalize s.setParam set (writeWords (s.param set) (paramWords word size value)) = written
      generalize ((written.qmatches set).filter _).map _ = events
      have preview : Related R (written, b) (written, c) := ⟨rfl, h⟩
      obtain ⟨ok, t, b₁, c₁, hb, hc, h⟩ := SameCall.parts (service_alike sim false events preview)
      simp only [hb, hc]
      cases ok with
      | false => exact sameCall_of false s h
      | true =>
        cases commit with
        | false => exact sameCall_of true s h
        | true => exact service_alike sim true events ⟨rfl, h⟩

theorem write_same (sim : BusSimulation bus bus' R) (s : C6747Edma) (address : Word)
    (value : BitVec 64) (size : ℕ) (commit : Bool) (h : R b c) :
    SameCall R (write bus (s, b) address value size commit)
      (write bus' (s, c) address value size commit) := by
  unfold write
  cases locate address with
  | none => exact sameCall_of _ _ h
  | some o =>
    dsimp only
    split
    · exact sameCall_of _ _ h
    · split
      · exact writeParam_same sim s _ _ _ _ _ h
      · cases writeGlobal s o (value.setWidth 32) with
        | some r => exact sameCall_of _ _ h
        | none =>
          cases channelView s o with
          | none => exact sameCall_of _ _ h
          | some view => exact writeChannel_same sim s view _ commit h

theorem event_same (sim : BusSimulation bus bus' R) (s : C6747Edma) (channel : ℕ) (h : R b c) :
    SameCall R (event bus (s, b) channel) (event bus' (s, c) channel) := by
  unfold event
  dsimp only
  split
  · exact sameCall_of _ _ h
  · split
    · exact sameCall_of _ _ h
    · exact serviceChecked_same sim s _ _ true h

end Cdj2000Emulator.Edma.Simulation
