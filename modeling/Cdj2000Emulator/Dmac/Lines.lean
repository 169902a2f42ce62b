import Cdj2000Emulator.Dmac.Model
import Cdj2000Emulator.Library.Traces

namespace Cdj2000Emulator.Dmac

open Library.Traces

structure Completion where
  kind : Kind
  channel : Index
  /-- With its interrupt enabled. -/
  enabled : Bool

def route : Kind → Index → Option Line
  | .panel _, c => channelIrq c
  | .sdhi, _ => some .sdhi
  | .dsp, _ => some .dsp
  | .dma5, _ => some .dma5
  | .usbh, _ => some .usbh

/-- The completions of the channels that the guest has not acknowledged, with the line of each. -/
abbrev Unacked := Line → Kind → Index → Prop

namespace Unacked

variable (u : Unacked)

def clear : Unacked := fun _ _ _ ↦ False

/-- A write of CHCR acknowledges by clearing TE; on channel 5 and on the USB channel clearing IE does as well. -/
def acks (value : Word) : Kind → Bool
  | .panel _ | .sdhi | .dsp => value &&& chcrTe == 0
  | .dma5 | .usbh => value &&& chcrTe == 0 || value &&& chcrIe == 0

def acknowledge (c : Index) (value : Word) : Unacked := fun l k c' ↦ u l k c' ∧ ¬(c' = c ∧ acks value k)

def add (x : Completion) : Unacked := fun l k c ↦
  u l k c ∨ (x.enabled ∧ k = x.kind ∧ c = x.channel ∧ route k c = some l)

end Unacked

namespace State

def Starts (s : State) (value : Word) : Prop := value &&& chcrDe ≠ 0 ∧ s.dmaor &&& 1 ≠ 0

def roleAfter (s : State) (ch : Channel) : Role :=
  match s.transfer ch with
  | .hpi => .dsp
  | .refused => ch.role
  | .usbh => .usbh
  | .panel | .sdhi | .copy _ => ch.roleOf

def finishes (s : State) (c : Index) (answer : Option Word) (ch : Channel) : Option Kind :=
  match s.transfer ch with
  | .hpi | .copy true => some (if c = dma5Channel then .dma5 else .dsp)
  | .usbh => answer.map fun _ ↦ .usbh
  | .sdhi => some .sdhi
  | .refused | .panel | .copy false => none

def panelFinishes (s : State) (half : Half) (c : Index) : Option Completion :=
  if !(s.channel c).armed || (s.channel c).role ≠ .panel half || (half = .rx && !s.panelPresent) then none
  else some ⟨.panel half, c, (s.channel c).enabled⟩

def chcrWrite : Event → Option (Index × Word)
  | .write offset value _ =>
    if offset = 0x60 ∨ offset % 16 ≠ 0xc then none else (channelOf offset).map (·, value)
  | .panelTimer | .usbhDone .. => none

def completions (s : State) : Event → List Completion
  | .write offset value answer =>
    match chcrWrite (.write offset value answer) with
    | some (c, value) =>
      if value &&& chcrDe ≠ 0 ∧ s.dmaor &&& 1 ≠ 0 then
        ((s.finishes c answer { s.channel c with chcr := value }).map (⟨·, c, value &&& chcrIe != 0⟩)).toList
      else []
    | none => []
  | .panelTimer =>
    (List.finRange 16).filterMap (s.panelFinishes .tx) ++ (List.finRange 16).filterMap (s.panelFinishes .rx)
  | .usbhDone c _ => [⟨.usbh, c, (s.channel c).enabled⟩]

end State

namespace Unacked

def acknowledged (u : Unacked) (e : Event) : Unacked :=
  match State.chcrWrite e with
  | some (c, value) => u.acknowledge c value
  | none => u

def next (u : Unacked) (s : State) (e : Event) : Unacked := (s.completions e).foldl add (u.acknowledged e)

end Unacked

/-- What the lines do in one step. -/
structure Follows (s : State) (u : Unacked) (e : Event) : Prop where
  /-- A line goes up only when a channel routed to it completes with its interrupt enabled. -/
  raised : ∀ l, s.level l = false → (s.step e).level l = true →
    ∃ x ∈ s.completions e, x.enabled ∧ route x.kind x.channel = some l
  /-- A write with TE clear leaves up the lines on which another channel, or the transfer it starts, has completed. -/
  acknowledged : ∀ c value, State.chcrWrite e = some (c, value) → value &&& chcrTe = 0 → ∀ l,
    (s.step e).level l = true ↔ (∃ k c', c' ≠ c ∧ u l k c') ∨
      ∃ x ∈ s.completions e, x.enabled ∧ route x.kind x.channel = some l
  /-- A line is lowered only by a write to the channel whose completion raised it, when no other channel has one. -/
  lowered : ∀ l, s.level l = true → (s.step e).level l = false →
    ∃ c value, State.chcrWrite e = some (c, value) ∧ (∃ k, u l k c) ∧ ∀ k c', u l k c' → c' = c

/-- A completion with its interrupt enabled is on its own: no other channel has an unacknowledged one of the same kind,
nor any channel one of another kind on its line. -/
structure Alone (u : Unacked) (x : Completion) : Prop where
  channel : x.enabled = true → ∀ l c, u l x.kind c → c = x.channel
  kind : x.enabled = true → ∀ l, route x.kind x.channel = some l → ∀ k c, u l k c → k = x.kind

def AllAlone : Unacked → List Completion → Prop
  | _, [] => True
  | u, x :: xs => Alone u x ∧ AllAlone (u.add x) xs

def State.Programmed (s : State) (c : Index) : Kind → Prop
  | .panel half => (s.channel c).role = .panel half
  | .sdhi => (s.channel c).sar = sdhiDataPort
  | .dsp => (s.channel c).role = .dsp ∧ c ≠ dma5Channel
  | .dma5 | .usbh => False

def Event.answer : Event → Option Word
  | .write _ _ answer => answer
  | .panelTimer | .usbhDone .. => none

def Asks (u : Unacked) (k : Kind) (chcr : Word) : Prop := chcr &&& chcrIe ≠ 0 ∨ ∃ l c, u l k c

/-- How the guest has to program a channel whose CHCR it writes, when these completions are left unacknowledged. -/
structure Programs (s : State) (u left : Unacked) (c : Index) (value : Word) (answer : Option Word) : Prop where
  /-- TE is cleared on no channel that is programmed as another one with an unacknowledged completion is. -/
  other : value &&& chcrTe = 0 → ∀ l k c', u l k c' → c' ≠ c → ¬s.Programmed c k
  /-- The completion of a transfer with the card is acknowledged while the source of the channel is the data port. -/
  card : value &&& chcrTe = 0 → ∀ l, u l .sdhi c → (s.channel c).sar = sdhiDataPort
  /-- A channel is not started in another role over its completion. -/
  role : s.Starts value → ∀ l,
    (∀ half, left l (.panel half) c → s.roleAfter { s.channel c with chcr := value } = .panel half) ∧
    (left l .dsp c → s.roleAfter { s.channel c with chcr := value } = .dsp)
  /-- Nor is a USB transfer started over the completion of another channel's. -/
  usbh : s.Starts value → s.transfer { s.channel c with chcr := value } = .usbh →
    ∀ l c', left l .usbh c' → c' = c
  /-- A transfer with the card, or one that the USB module answers at once, asks for an interrupt. -/
  sdhiAsks : s.Starts value → s.transfer { s.channel c with chcr := value } = .sdhi → Asks left .sdhi value
  usbhAsks : s.Starts value → s.transfer { s.channel c with chcr := value } = .usbh → answer ≠ none →
    Asks left .usbh value

/-- The steps on which the lines follow their channels. -/
structure Orderly (s : State) (u : Unacked) (e : Event) : Prop where
  programs : ∀ c value, State.chcrWrite e = some (c, value) → Programs s u (u.acknowledged e) c value e.answer
  /-- The USB module reports to the channel that was started last, which still asks for an interrupt. -/
  usbh : ∀ c bytes, e = .usbhDone c bytes → c = s.usbhChannel ∧ Asks u .usbh (s.channel c).chcr
  alone : AllAlone (u.acknowledged e) (s.completions e)

/-- The tests of a write of CHCR recognize an unacknowledged completion on the channel that completed, and on no other.
-/
def Recognized (s : State) (u : Unacked) (c : Index) (value : Word) : Prop :=
  ∀ l k c', u l k c' → (s.accepts c value k → c' = c) ∧
    (c' = c → Unacked.acks value k → s.accepts c value k)

/-- What a channel that has completed in this way can be told by. -/
def State.Marks (s : State) (c : Index) : Kind → Prop
  | .panel half => (s.channel c).role = .panel half
  | .sdhi => True
  | .dsp => (s.channel c).role = .dsp ∧ c ≠ dma5Channel
  | .dma5 => c = dma5Channel
  | .usbh => c = s.usbhChannel

/-- The channels with unacknowledged completions can be told. -/
def Marked (s : State) (u : Unacked) : Prop := ∀ l k c, u l k c → s.Marks c k

/-- Flags and lines are up for what is unacknowledged, which is one channel of a kind and one kind on a line. -/
structure Good (s : State) (u : Unacked) : Prop where
  route : ∀ l k c, u l k c → route k c = some l
  flag : ∀ l k c, u l k c → s.pending k = true ∧ s.lineOf k = some l
  channel : ∀ l l' k c c', u l k c → u l' k c' → c' = c
  kind : ∀ l k k' c c', u l k c → u l k' c' → k' = k
  held : ∀ l k, s.pending k = true → s.lineOf k = some l → ∃ c, u l k c
  level : ∀ l, s.level l = true ↔ ∃ k c, u l k c

namespace Unacked

variable {s : State} {u : Unacked} {e : Event}

theorem foldl_add {xs : List Completion} {l : Line} {k : Kind} {c : Index} : xs.foldl add u l k c ↔
    u l k c ∨ ∃ x ∈ xs, x.enabled ∧ k = x.kind ∧ c = x.channel ∧ route k c = some l := by
  induction xs generalizing u with
  | nil => simp
  | cons x xs ih =>
    rw [List.foldl_cons, ih, add, or_assoc]
    refine or_congr_right ?_
    rw [List.exists_mem_cons_iff]

theorem of_acknowledged {l : Line} {k : Kind} {c : Index} (h : u.acknowledged e l k c) : u l k c := by
  unfold acknowledged at h
  cases hwrite : State.chcrWrite e with
  | none =>
    rw [hwrite] at h
    exact h
  | some p =>
    rw [hwrite] at h
    exact h.1

end Unacked

theorem Channel.enabled_complete (ch : Channel) (source destination : Word) :
    (ch.complete source destination).enabled = ch.enabled := by
  have hbits : (ch.chcr &&& ~~~chcrDe ||| chcrTe) &&& chcrIe = ch.chcr &&& chcrIe := by
    rw [BitVec.and_or_distrib_right, BitVec.and_assoc]
    exact BitVec.or_zero
  exact congrArg (· != 0) hbits

namespace State

variable {s t : State} {u : Unacked} {c : Index} {value : Word} {k : Kind}

theorem good_init (panelPresent nxs : Bool) : Good (init panelPresent nxs) Unacked.clear where
  route _ _ _ h := h.elim
  flag _ _ _ h := h.elim
  channel _ _ _ _ _ h := h.elim
  kind _ _ _ _ _ h := h.elim
  held _ _ h := absurd h Bool.false_ne_true
  level _ := ⟨fun h ↦ absurd h Bool.false_ne_true, fun ⟨_, _, h⟩ ↦ h.elim⟩

/-- Flags and lines as they were. -/
structure SameLines (s t : State) : Prop where
  pending : t.pending = s.pending
  line : t.lineOf = s.lineOf
  level : t.level = s.level

theorem SameLines.good (h : SameLines s t) (hs : Good s u) : Good t u where
  route := hs.route
  flag l k c hu := by rw [h.pending, h.line]; exact hs.flag l k c hu
  channel := hs.channel
  kind := hs.kind
  held l k := by rw [h.pending, h.line]; exact hs.held l k
  level l := by rw [h.level]; exact hs.level l

theorem lineOf_eq (h : t.panelLine = s.panelLine) : t.lineOf = s.lineOf := by
  funext k
  cases k with
  | panel half => exact congrFun h half
  | _ => rfl

theorem sameLines_setChannel (ch : Channel) : SameLines s (s.setChannel c ch) := ⟨rfl, lineOf_eq rfl, rfl⟩

theorem acks_of_accepts (h : s.accepts c value k = true) : Unacked.acks value k = true := by
  cases k <;> simp only [accepts, Unacked.acks, Bool.and_eq_true] at h ⊢ <;> grind

theorem recognized_of_programs {left : Unacked} {answer : Option Word} (hm : Marked s u)
    (h : Programs s u left c value answer) : Recognized s u c value := by
  intro l k c' hu
  constructor
  · intro haccepts
    by_contra hne
    have hother (hte : (value &&& chcrTe == 0) = true) (hk : s.Programmed c k) : False :=
      h.other (beq_iff_eq.mp hte) l k c' hu hne hk
    cases k with
    | panel half =>
      rw [accepts, Bool.and_eq_true] at haccepts
      exact hother haccepts.1 (beq_iff_eq.mp haccepts.2)
    | sdhi =>
      rw [accepts, Bool.and_eq_true] at haccepts
      exact hother haccepts.1 (beq_iff_eq.mp haccepts.2)
    | dsp =>
      rw [accepts, Bool.and_eq_true, Bool.and_eq_true] at haccepts
      exact hother haccepts.1.1 ⟨beq_iff_eq.mp haccepts.1.2, bne_iff_ne.mp haccepts.2⟩
    | dma5 =>
      rw [accepts, Bool.and_eq_true] at haccepts
      exact hne (Eq.trans (hm l .dma5 c' hu) (beq_iff_eq.mp haccepts.1).symm)
    | usbh =>
      rw [accepts, Bool.and_eq_true] at haccepts
      exact hne (Eq.trans (hm l .usbh c' hu) (beq_iff_eq.mp haccepts.1).symm)
  · rintro rfl hacks
    cases k with
    | panel half =>
      rw [accepts, Bool.and_eq_true]
      exact ⟨hacks, beq_iff_eq.mpr (hm l (.panel half) c' hu)⟩
    | sdhi =>
      rw [accepts, Bool.and_eq_true]
      exact ⟨hacks, beq_iff_eq.mpr (h.card (beq_iff_eq.mp hacks) l hu)⟩
    | dsp =>
      obtain ⟨hrole, hne⟩ := hm l .dsp c' hu
      rw [accepts, Bool.and_eq_true, Bool.and_eq_true]
      exact ⟨⟨hacks, beq_iff_eq.mpr hrole⟩, bne_iff_ne.mpr hne⟩
    | dma5 =>
      rw [accepts, Bool.and_eq_true]
      exact ⟨beq_iff_eq.mpr (hm l .dma5 c' hu), hacks⟩
    | usbh =>
      rw [accepts, Bool.and_eq_true]
      exact ⟨beq_iff_eq.mpr (hm l .usbh c' hu), hacks⟩

theorem lineOf_setIrq {line : Option Line} {up : Bool} : (s.setIrq line up).lineOf = s.lineOf := by
  refine lineOf_eq ?_
  cases line <;> rfl

theorem pending_setIrq {line : Option Line} {up : Bool} : (s.setIrq line up).pending = s.pending := by
  cases line <;> rfl

theorem level_setIrq {line : Option Line} {up : Bool} {l : Line} :
    (s.setIrq line up).level l = if line = some l then up else s.level l := by
  cases line with
  | none => rfl
  | some l' =>
    change Function.update s.level l' up l = _
    rw [Function.update_apply]
    refine if_congr ?_ rfl rfl
    rw [Option.some.injEq, eq_comm]

theorem accepts_release : (s.release c value k).accepts c value = s.accepts c value := by
  funext k'
  unfold release
  split
  · cases hline : s.lineOf k <;> cases k' <;> rfl
  · rfl

/-- A completion that the write does not recognize, or that is not there, stays unacknowledged. -/
theorem good_unaccepted (hs : Good s u) (hr : Recognized s u c value)
    (ht : ¬(s.pending k && s.accepts c value k) = true) :
    Good s fun l k' c' ↦ u l k' c' ∧ ¬(c' = c ∧ Unacked.acks value k' ∧ k' = k) := by
  have hkeep {l : Line} {k' : Kind} {c' : Index} (h : u l k' c') :
      ¬(c' = c ∧ Unacked.acks value k' ∧ k' = k) := by
    rintro ⟨rfl, hacks, rfl⟩
    refine ht ?_
    rw [(hs.flag l k' c' h).1, (hr l k' c' h).2 rfl hacks]
    rfl
  refine ⟨fun l k' c' h ↦ hs.route l k' c' h.1, fun l k' c' h ↦ hs.flag l k' c' h.1,
    fun l l' k' c' c'' h h' ↦ hs.channel l l' k' c' c'' h.1 h'.1,
    fun l k' k'' c' c'' h h' ↦ hs.kind l k' k'' c' c'' h.1 h'.1, ?_, ?_⟩
  · intro l k' hp hl
    obtain ⟨c', h⟩ := hs.held l k' hp hl
    exact ⟨c', h, hkeep h⟩
  · intro l
    rw [hs.level]
    constructor
    · rintro ⟨k', c', h⟩
      exact ⟨k', c', h, hkeep h⟩
    · rintro ⟨k', c', h⟩
      exact ⟨k', c', h.1⟩

/-- A recognized one is acknowledged: its flag and its line are down. -/
theorem good_accepted (hs : Good s u) (hr : Recognized s u c value) (hpending : s.pending k = true)
    (haccepts : s.accepts c value k = true) (hp : t.pending = Function.update s.pending k false)
    (hline : t.lineOf = s.lineOf) (hv : ∀ l, t.level l = if s.lineOf k = some l then false else s.level l) :
    Good t fun l k' c' ↦ u l k' c' ∧ ¬(c' = c ∧ Unacked.acks value k' ∧ k' = k) := by
  have hne {l : Line} {k' : Kind} {c' : Index} (h : u l k' c' ∧ ¬(c' = c ∧ Unacked.acks value k' ∧ k' = k)) :
      k' ≠ k := by
    rintro rfl
    exact h.2 ⟨(hr l k' c' h.1).1 haccepts, acks_of_accepts haccepts, rfl⟩
  refine ⟨fun l k' c' h ↦ hs.route l k' c' h.1, ?_, fun l l' k' c' c'' h h' ↦
    hs.channel l l' k' c' c'' h.1 h'.1,
    fun l k' k'' c' c'' h h' ↦ hs.kind l k' k'' c' c'' h.1 h'.1, ?_, ?_⟩
  · intro l k' c' h
    rw [hp, Function.update_of_ne (hne h), hline]
    exact hs.flag l k' c' h.1
  · intro l k' hflag hl
    rw [hline] at hl
    have hk : k' ≠ k := by
      rintro rfl
      rw [hp, Function.update_self] at hflag
      exact absurd hflag Bool.false_ne_true
    rw [hp, Function.update_of_ne hk] at hflag
    obtain ⟨c', h⟩ := hs.held l k' hflag hl
    exact ⟨c', h, fun h' ↦ hk h'.2.2⟩
  · intro l
    rw [hv]
    by_cases hl : s.lineOf k = some l
    · rw [if_pos hl]
      obtain ⟨c', h⟩ := hs.held l k hpending hl
      refine ⟨fun h' ↦ absurd h' Bool.false_ne_true, ?_⟩
      rintro ⟨k', c'', h'⟩
      exact absurd (hs.kind l k k' c' c'' h h'.1) (hne h')
    · rw [if_neg hl, hs.level]
      constructor
      · rintro ⟨k', c', h⟩
        refine ⟨k', c', h, fun h' ↦ hl ?_⟩
        rw [← h'.2.2]
        exact (hs.flag l k' c' h).2
      · rintro ⟨k', c', h⟩
        exact ⟨k', c', h.1⟩

theorem good_release (hs : Good s u) (hr : Recognized s u c value) :
    Good (s.release c value k) fun l k' c' ↦ u l k' c' ∧ ¬(c' = c ∧ Unacked.acks value k' ∧ k' = k) := by
  by_cases ht : (s.pending k && s.accepts c value k) = true
  · obtain ⟨hpending, haccepts⟩ := (Bool.and_eq_true _ _).mp ht
    refine good_accepted hs hr hpending haccepts ?_ ?_ fun l ↦ ?_
    · rw [release, if_pos ht, pending_setIrq]
      rfl
    · rw [release, if_pos ht, lineOf_setIrq]
      exact lineOf_eq rfl
    · rw [release, if_pos ht, level_setIrq]
      rfl
  · rw [release, if_neg ht]
    exact good_unaccepted hs hr ht

theorem good_releases (ks : List Kind) (hs : Good s u) (hr : Recognized s u c value) :
    Good (ks.foldl (release c value) s) fun l k c' ↦ u l k c' ∧
      ¬(c' = c ∧ Unacked.acks value k ∧ k ∈ ks) := by
  induction ks generalizing s u with
  | nil =>
    have he : (fun l k c' ↦ u l k c' ∧ ¬(c' = c ∧ Unacked.acks value k ∧ k ∈ [])) = u := by
      funext l k c'
      simp
    rw [he]
    exact hs
  | cons k ks ih =>
    have hfirst := good_release (k := k) hs hr
    have hrest : Recognized (s.release c value k)
        (fun l k' c' ↦ u l k' c' ∧ ¬(c' = c ∧ Unacked.acks value k' ∧ k' = k)) c value := by
      intro l k' c' h
      rw [accepts_release]
      exact hr l k' c' h.1
    have he : (fun l k' c' ↦ u l k' c' ∧ ¬(c' = c ∧ Unacked.acks value k' ∧ k' ∈ k :: ks)) = fun l k' c' ↦
        (u l k' c' ∧ ¬(c' = c ∧ Unacked.acks value k' ∧ k' = k)) ∧
          ¬(c' = c ∧ Unacked.acks value k' ∧ k' ∈ ks) := by
      funext l k' c'
      rw [List.mem_cons, and_assoc, ← not_or, and_or_left, and_or_left]
    rw [he]
    exact ih hfirst hrest

theorem mem_kinds : k ∈ kinds := by
  cases k with
  | panel half => cases half <;> decide
  | _ => decide

theorem good_acknowledge (hs : Good s u) (hr : Recognized s u c value) :
    Good (kinds.foldl (release c value) s) (u.acknowledge c value) := by
  have h := good_releases kinds hs hr
  simp only [mem_kinds, and_true] at h
  exact h

/-- A completion that sets its flag and its line. -/
theorem good_raise (hs : Good s u) (ha : Alone u ⟨k, c, true⟩)
    (hp : t.pending = Function.update s.pending k true) (hl : t.lineOf = Function.update s.lineOf k (route k c))
    (hv : ∀ l, t.level l = if route k c = some l then true else s.level l) : Good t (u.add ⟨k, c, true⟩) := by
  have hchannel {l : Line} {c' : Index} (h : u l k c') : c' = c := ha.channel rfl l c' h
  refine ⟨?_, ?_, ?_, ?_, ?_, ?_⟩
  · rintro l k' c' (h | ⟨-, -, -, h⟩)
    · exact hs.route l k' c' h
    · exact h
  · rintro l k' c' (h | ⟨-, rfl, rfl, h⟩)
    · rw [hp, hl, Function.update_apply, Function.update_apply]
      by_cases hk : k' = k
      · subst hk
        rw [if_pos rfl, if_pos rfl, ← hchannel h]
        exact ⟨rfl, hs.route l k' c' h⟩
      · rw [if_neg hk, if_neg hk]
        exact hs.flag l k' c' h
    · rw [hp, hl, Function.update_self, Function.update_self]
      exact ⟨rfl, h⟩
  · rintro l l' k' c' c'' (h | ⟨-, rfl, rfl, -⟩) (h' | ⟨-, hk, rfl, -⟩)
    · exact hs.channel l l' k' c' c'' h h'
    · subst hk
      exact (hchannel h).symm
    · exact hchannel h'
    · rfl
  · rintro l k' k'' c' c'' (h | ⟨-, rfl, rfl, hroute⟩) (h' | ⟨-, rfl, rfl, hroute'⟩)
    · exact hs.kind l k' k'' c' c'' h h'
    · exact (ha.kind rfl l hroute' k' c' h).symm
    · exact ha.kind rfl l hroute k'' c'' h'
    · rfl
  · intro l k' hpending hline
    rw [hp, Function.update_apply] at hpending
    rw [hl, Function.update_apply] at hline
    by_cases hk : k' = k
    · rw [if_pos hk] at hline
      subst hk
      exact ⟨c, .inr ⟨rfl, rfl, rfl, hline⟩⟩
    · rw [if_neg hk] at hpending hline
      obtain ⟨c', h⟩ := hs.held l k' hpending hline
      exact ⟨c', .inl h⟩
  · intro l
    rw [hv]
    by_cases hroute : route k c = some l
    · rw [if_pos hroute]
      exact ⟨fun _ ↦ ⟨k, c, .inr ⟨rfl, rfl, rfl, hroute⟩⟩, fun _ ↦ rfl⟩
    · rw [if_neg hroute, hs.level]
      constructor
      · rintro ⟨k', c', h⟩
        exact ⟨k', c', .inl h⟩
      · rintro ⟨k', c', h | ⟨-, rfl, rfl, h⟩⟩
        · exact ⟨k', c', h⟩
        · exact absurd h hroute

theorem add_of_not_enabled : u.add ⟨k, c, false⟩ = u := by
  funext l k' c'
  refine propext ⟨?_, Or.inl⟩
  rintro (h | ⟨h, -⟩)
  · exact h
  · exact absurd h Bool.false_ne_true

theorem good_raiseOnce {enabled : Bool} (hs : Good s u) (ha : Alone u ⟨k, c, enabled⟩)
    (hk : s.lineOf k = route k c) {l : Line} (hroute : route k c = some l)
    (he : enabled = true ∨ ∃ l c', u l k c') : Good (s.raiseOnce k) (u.add ⟨k, c, enabled⟩) := by
  by_cases hpending : s.pending k = true
  · rw [raiseOnce, if_pos hpending]
    have hsame : u.add ⟨k, c, enabled⟩ = u := by
      cases enabled with
      | false => exact add_of_not_enabled
      | true =>
        funext l' k' c'
        refine propext ⟨?_, Or.inl⟩
        rintro (h | ⟨-, rfl, rfl, h⟩)
        · exact h
        · obtain ⟨c'', h'⟩ := hs.held l' k' hpending (hk.trans h)
          rw [ha.channel rfl l' c'' h'] at h'
          exact h'
    rw [hsame]
    exact hs
  · have henabled : enabled = true := by
      refine he.resolve_right ?_
      rintro ⟨l', c', h⟩
      exact hpending (hs.flag l' k c' h).1
    subst henabled
    rw [raiseOnce, if_neg hpending]
    refine good_raise hs ha ?_ ?_ ?_
    · rw [pending_setIrq]
      rfl
    · rw [lineOf_setIrq, ← hk, Function.update_eq_self]
      exact lineOf_eq rfl
    · intro l'
      rw [level_setIrq, hk]
      rfl

theorem setChannel_same {ch : Channel} : (s.setChannel c ch).channel c = ch := Function.update_self ..

theorem setChannel_of_ne {ch : Channel} {c' : Index} (h : c' ≠ c) : (s.setChannel c ch).channel c' = s.channel c' :=
  Function.update_of_ne h ..

theorem channel_setIrq {line : Option Line} {up : Bool} : (s.setIrq line up).channel = s.channel := by
  cases line <;> rfl

theorem sameLines_panelComplete {half : Half} : SameLines s (s.panelComplete half c) := by
  cases half <;> exact sameLines_setChannel _

theorem good_panelRaise {half : Half} (hs : Good s u) (ha : Alone u ⟨.panel half, c, (s.channel c).enabled⟩) :
    Good (s.panelRaise half c) (u.add ⟨.panel half, c, (s.channel c).enabled⟩) := by
  cases he : (s.channel c).enabled with
  | false =>
    rw [panelRaise, he, add_of_not_enabled]
    exact hs
  | true =>
    rw [he] at ha
    rw [panelRaise, if_pos he]
    refine good_raise hs ha ?_ ?_ ?_
    · rw [pending_setIrq]
      rfl
    · rw [lineOf_setIrq]
      funext k
      rw [Function.update_apply]
      cases k with
      | panel half' =>
        change Function.update s.panelLine half (channelIrq c) half' = _
        rw [Function.update_apply]
        exact if_congr (by rw [Kind.panel.injEq]) rfl rfl
      | _ => rfl
    · intro l
      rw [level_setIrq]
      rfl

theorem enabled_panelComplete (half : Half) : ((s.panelComplete half c).channel c).enabled = (s.channel c).enabled := by
  cases half with
  | _ => exact (congrArg Channel.enabled setChannel_same).trans (Channel.enabled_complete ..)

theorem good_panelTurn {half : Half} (hs : Good s u) (ha : ∀ x, s.panelFinishes half c = some x → Alone u x) :
    Good (panelTurn half s c) ((s.panelFinishes half c).toList.foldl Unacked.add u) := by
  unfold panelTurn
  unfold panelFinishes at ha ⊢
  by_cases h : (!(s.channel c).armed || (s.channel c).role ≠ .panel half || (half = .rx && !s.panelPresent)) = true
  · rw [if_pos h, if_pos h]
    exact hs
  · rw [if_neg h] at ha ⊢
    rw [if_neg h]
    have hx := ha _ rfl
    rw [← enabled_panelComplete half] at hx
    have hgood := good_panelRaise (sameLines_panelComplete.good hs) hx
    rw [enabled_panelComplete half] at hgood
    exact hgood

theorem channel_panelRaise {half : Half} : (s.panelRaise half c).channel = s.channel := by
  unfold panelRaise
  split
  · exact channel_setIrq
  · rfl

theorem panelPresent_panelTurn {half : Half} : (panelTurn half s c).panelPresent = s.panelPresent := by
  unfold panelTurn panelRaise setIrq
  cases half <;> cases channelIrq c <;> split <;> (try split) <;> rfl

/-- A turn of a loop ends nothing on the other channels, and nothing of the other half. -/
theorem panelFinishes_panelTurn {half half' : Half} {c' : Index} (h : half' ≠ half ∨ c' ≠ c) :
    (panelTurn half s c).panelFinishes half' c' = s.panelFinishes half' c' := by
  unfold panelFinishes
  rw [panelPresent_panelTurn]
  unfold panelTurn
  split
  · rfl
  · rename_i hturn
    rw [channel_panelRaise]
    by_cases hc : c' = c
    · subst hc
      have hrole : (s.channel c').role = .panel half := by
        simp only [ne_eq, decide_not, Bool.or_eq_true, Bool.not_eq_true', decide_eq_false_iff_not, not_or,
          not_not] at hturn
        exact hturn.1.2
      have hkept : ((s.panelComplete half c').channel c').role = .panel half := by
        cases half <;> exact (congrArg Channel.role setChannel_same).trans hrole
      have hne : ¬Role.panel half = .panel half' := by
        intro he
        injection he with he
        exact h.resolve_right (fun hc ↦ hc rfl) he.symm
      rw [hrole, hkept]
      simp only [ne_eq, hne, not_false_eq_true, decide_true, Bool.or_true, Bool.true_or, if_true]
    · have hkept : (s.panelComplete half c).channel c' = s.channel c' := by
        cases half <;> exact setChannel_of_ne hc
      rw [hkept]

theorem allAlone_append {xs ys : List Completion} :
    AllAlone u (xs ++ ys) ↔ AllAlone u xs ∧ AllAlone (xs.foldl Unacked.add u) ys := by
  induction xs generalizing u with
  | nil => exact (iff_of_eq (true_and _)).symm
  | cons x xs ih => exact (and_congr_right fun _ ↦ ih).trans and_assoc.symm

theorem good_panelLoop (half : Half) (cs : List Index) (hnodup : cs.Nodup) (hs : Good s u)
    (ha : AllAlone u (cs.filterMap (s.panelFinishes half))) :
    Good (cs.foldl (panelTurn half) s) ((cs.filterMap (s.panelFinishes half)).foldl Unacked.add u) := by
  induction cs generalizing s u with
  | nil => exact hs
  | cons c cs ih =>
    obtain ⟨hc, hcs⟩ := List.nodup_cons.mp hnodup
    have hsplit : (c :: cs).filterMap (s.panelFinishes half) =
        (s.panelFinishes half c).toList ++ cs.filterMap (s.panelFinishes half) := by
      rw [List.filterMap_cons]
      cases s.panelFinishes half c <;> rfl
    have hrest : cs.filterMap ((panelTurn half s c).panelFinishes half) = cs.filterMap (s.panelFinishes half) := by
      refine List.filterMap_congr fun c' hc' ↦ panelFinishes_panelTurn (.inr ?_)
      rintro rfl
      exact hc hc'
    rw [hsplit, allAlone_append] at ha
    rw [hsplit, List.foldl_append, List.foldl_cons]
    have hturn : Good (panelTurn half s c) ((s.panelFinishes half c).toList.foldl Unacked.add u) := by
      refine good_panelTurn hs fun x hx ↦ ?_
      rw [hx] at ha
      exact ha.1.1
    rw [← hrest] at ha ⊢
    exact ih hcs hturn ha.2

theorem panelFinishes_panelLoop (s : State) {half half' : Half} (h : half' ≠ half) (cs : List Index) :
    (cs.foldl (panelTurn half) s).panelFinishes half' = s.panelFinishes half' := by
  induction cs generalizing s with
  | nil => rfl
  | cons c cs ih =>
    rw [List.foldl_cons, ih]
    funext c'
    exact panelFinishes_panelTurn (.inl h)

theorem good_panelDone (hs : Good s u) (ha : AllAlone u (s.completions .panelTimer)) :
    Good s.panelDone ((s.completions .panelTimer).foldl Unacked.add u) := by
  unfold completions at ha ⊢
  rw [allAlone_append] at ha
  rw [List.foldl_append]
  have htx := good_panelLoop .tx (List.finRange 16) (List.nodup_finRange 16) hs ha.1
  have hne : Half.rx ≠ .tx := by decide
  have hkept := panelFinishes_panelLoop s hne (List.finRange 16)
  rw [← hkept] at ha ⊢
  exact good_panelLoop .rx (List.finRange 16) (List.nodup_finRange 16) htx ha.2

theorem good_dspIrq (hs : Good s u)
    (ha : Alone u ⟨if c = dma5Channel then .dma5 else .dsp, c, (s.channel c).enabled⟩) :
    Good (s.dspIrq c) (u.add ⟨if c = dma5Channel then .dma5 else .dsp, c, (s.channel c).enabled⟩) := by
  cases he : (s.channel c).enabled with
  | false =>
    rw [dspIrq, he, add_of_not_enabled]
    exact hs
  | true =>
    rw [he] at ha
    rw [dspIrq, he]
    by_cases hc : c = dma5Channel
    · rw [if_pos hc] at ha ⊢
      rw [if_pos hc]
      exact good_raiseOnce hs ha rfl rfl (.inl rfl)
    · rw [if_neg hc] at ha ⊢
      rw [if_neg hc]
      exact good_raiseOnce hs ha rfl rfl (.inl rfl)

theorem enabled_of_asks (h : Asks u k (s.channel c).chcr) : (s.channel c).enabled = true ∨ ∃ l c', u l k c' :=
  h.imp_left bne_iff_ne.mpr

theorem good_usbhDone (bytes : Word) (hs : Good s u) (ha : Alone u ⟨.usbh, c, (s.channel c).enabled⟩)
    (hasks : Asks u .usbh (s.channel c).chcr) :
    Good (s.usbhDone c bytes) (u.add ⟨.usbh, c, (s.channel c).enabled⟩) :=
  good_raiseOnce ((sameLines_setChannel _).good hs) ha rfl rfl (enabled_of_asks hasks)

theorem sameLines_usbhStart : SameLines s (s.usbhStart c) := ⟨rfl, lineOf_eq rfl, rfl⟩

theorem good_run (answer : Option Word) (hs : Good s u)
    (ha : ∀ k, s.finishes c answer (s.channel c) = some k → Alone u ⟨k, c, (s.channel c).enabled⟩)
    (hsdhi : s.transfer (s.channel c) = .sdhi → Asks u .sdhi (s.channel c).chcr)
    (husbh : s.transfer (s.channel c) = .usbh → answer ≠ none → Asks u .usbh (s.channel c).chcr) :
    Good (s.run c answer)
      (((s.finishes c answer (s.channel c)).map (⟨·, c, (s.channel c).enabled⟩)).toList.foldl Unacked.add u) := by
  have hsame {ch : Channel} : Good (s.setChannel c ch) u := (sameLines_setChannel ch).good hs
  have hdsp {ch : Channel} (he : ch.enabled = (s.channel c).enabled)
      (ha : Alone u ⟨if c = dma5Channel then .dma5 else .dsp, c, (s.channel c).enabled⟩) :
      Good ((s.setChannel c ch).dspIrq c)
        (u.add ⟨if c = dma5Channel then .dma5 else .dsp, c, (s.channel c).enabled⟩) := by
    have hset : ((s.setChannel c ch).channel c).enabled = (s.channel c).enabled :=
      (congrArg Channel.enabled setChannel_same).trans he
    rw [← hset] at ha ⊢
    exact good_dspIrq hsame ha
  unfold finishes at ha ⊢
  unfold run
  dsimp only
  cases htransfer : s.transfer (s.channel c) with
  | hpi =>
    rw [htransfer] at ha
    exact hdsp (Channel.enabled_complete ..) (ha _ rfl)
  | refused => exact hs
  | panel => exact hsame
  | usbh =>
    rw [htransfer] at ha
    have hstart : Good (s.usbhStart c) u := (sameLines_usbhStart).good hs
    cases answer with
    | none => exact hstart
    | some bytes =>
      have hx := ha .usbh rfl
      have hasks := husbh htransfer (Option.some_ne_none bytes)
      have hchannel : (s.usbhStart c).channel c = { s.channel c with role := .usbh } := setChannel_same
      have hset : ((s.usbhStart c).channel c).enabled = (s.channel c).enabled := by
        rw [hchannel]
        rfl
      rw [← hset] at hx
      have hdone := good_usbhDone bytes hstart hx (by rw [hchannel]; exact hasks)
      rw [hset] at hdone
      exact hdone
  | sdhi =>
    rw [htransfer] at ha
    have hx := ha .sdhi rfl
    exact good_raiseOnce hsame hx rfl rfl (enabled_of_asks (hsdhi htransfer))
  | copy window =>
    rw [htransfer] at ha
    cases window with
    | false => exact hsame
    | true => exact hdsp (Channel.enabled_complete ..) (ha _ rfl)

/-- The tests touch nothing but flags and lines. -/
theorem frame_releases (s : State) (c : Index) (value : Word) (ks : List Kind) :
    (ks.foldl (release c value) s).channel = s.channel ∧
    (ks.foldl (release c value) s).dmaor = s.dmaor ∧ (ks.foldl (release c value) s).nxs = s.nxs := by
  induction ks generalizing s with
  | nil => exact ⟨rfl, rfl, rfl⟩
  | cons k ks ih =>
    have hfirst : (s.release c value k).channel = s.channel ∧ (s.release c value k).dmaor = s.dmaor ∧
        (s.release c value k).nxs = s.nxs := by
      unfold release setIrq
      cases s.lineOf k <;> split <;> exact ⟨rfl, rfl, rfl⟩
    obtain ⟨hchannel, hdmaor, hnxs⟩ := ih (s.release c value k)
    exact ⟨hchannel.trans hfirst.1, hdmaor.trans hfirst.2.1, hnxs.trans hfirst.2.2⟩

theorem finishes_eq {answer : Option Word} {ch : Channel} (h : t.nxs = s.nxs) :
    t.finishes c answer ch = s.finishes c answer ch := by
  unfold finishes transfer hpiPort
  rw [h]

theorem transfer_eq {ch : Channel} (h : t.nxs = s.nxs) : t.transfer ch = s.transfer ch := by
  unfold transfer hpiPort
  rw [h]

theorem good_writeChcr {answer : Option Word} {xs : List Completion} (hs : Good s u) (hm : Marked s u)
    (hp : Programs s u (u.acknowledge c value) c value answer)
    (hxs : xs = if value &&& chcrDe ≠ 0 ∧ s.dmaor &&& 1 ≠ 0 then
      ((s.finishes c answer { s.channel c with chcr := value }).map (⟨·, c, value &&& chcrIe != 0⟩)).toList
        else [])
    (ha : AllAlone (u.acknowledge c value) xs) :
    Good (s.writeChcr c value answer) (xs.foldl Unacked.add (u.acknowledge c value)) := by
  obtain ⟨hchannel, hdmaor, hnxs⟩ := frame_releases s c value kinds
  have hset : Good ((kinds.foldl (release c value) s).setChannel c
      { (kinds.foldl (release c value) s).channel c with chcr := value }) (u.acknowledge c value) :=
    (sameLines_setChannel _).good (good_acknowledge hs (recognized_of_programs hm hp))
  have hkept : ((kinds.foldl (release c value) s).setChannel c
      { (kinds.foldl (release c value) s).channel c with chcr := value }).channel c =
      { s.channel c with chcr := value } := by
    rw [setChannel_same, hchannel]
  unfold writeChcr
  dsimp only
  have hbit : ((kinds.foldl (release c value) s).setChannel c
      { (kinds.foldl (release c value) s).channel c with chcr := value }).dmaor = s.dmaor := hdmaor
  rw [hbit]
  by_cases hstart : value &&& chcrDe ≠ 0 ∧ s.dmaor &&& 1 ≠ 0
  · rw [if_pos hstart] at hxs
    rw [if_pos hstart, hxs]
    have hrun := good_run (c := c) answer hset
    have hnxs' : ((kinds.foldl (release c value) s).setChannel c
        { (kinds.foldl (release c value) s).channel c with chcr := value }).nxs = s.nxs := hnxs
    rw [hkept, finishes_eq hnxs', transfer_eq hnxs'] at hrun
    refine hrun (fun k hk ↦ ?_) (hp.sdhiAsks hstart) (hp.usbhAsks hstart)
    rw [hxs, hk] at ha
    exact ha.1
  · rw [if_neg hstart] at hxs
    rw [if_neg hstart, hxs]
    exact hset

/-- Roles and the channel of the USB module as they were. -/
structure SameMarks (s t : State) : Prop where
  role : ∀ c, (t.channel c).role = (s.channel c).role
  usbhChannel : t.usbhChannel = s.usbhChannel

theorem SameMarks.refl (s : State) : SameMarks s s := ⟨fun _ ↦ rfl, rfl⟩

theorem SameMarks.trans {r : State} (h : SameMarks r s) (h' : SameMarks s t) : SameMarks r t :=
  ⟨fun c ↦ (h'.role c).trans (h.role c), h'.usbhChannel.trans h.usbhChannel⟩

theorem SameMarks.marks (h : SameMarks s t) (hm : s.Marks c k) : t.Marks c k := by
  cases k with
  | panel half => exact (h.role c).trans hm
  | sdhi => trivial
  | dsp => exact ⟨(h.role c).trans hm.1, hm.2⟩
  | dma5 => exact hm
  | usbh => exact Eq.trans hm h.usbhChannel.symm

theorem sameMarks_setChannel {ch : Channel} (h : ch.role = (s.channel c).role) : SameMarks s (s.setChannel c ch) := by
  refine ⟨fun c' ↦ ?_, rfl⟩
  by_cases hc : c' = c
  · subst hc
    rw [setChannel_same, h]
  · rw [setChannel_of_ne hc]

theorem SameMarks.setIrq {line : Option Line} {up : Bool} (h : SameMarks s t) : SameMarks s (t.setIrq line up) := by
  cases line <;> exact ⟨h.role, h.usbhChannel⟩

theorem sameMarks_setPending {up : Bool} : SameMarks s (s.setPending k up) := ⟨fun _ ↦ rfl, rfl⟩

theorem sameMarks_raiseOnce : SameMarks s (s.raiseOnce k) := by
  unfold raiseOnce
  split
  · exact .refl s
  · exact sameMarks_setPending.setIrq

theorem sameMarks_dspIrq : SameMarks s (s.dspIrq c) := by
  unfold dspIrq
  split_ifs
  · exact .refl s
  · exact sameMarks_raiseOnce
  · exact sameMarks_raiseOnce

theorem sameMarks_panelTurn {half : Half} : SameMarks s (panelTurn half s c) := by
  unfold panelTurn
  split
  · exact .refl s
  · have hcomplete : SameMarks s (s.panelComplete half c) := by
      cases half <;> exact sameMarks_setChannel rfl
    refine hcomplete.trans ?_
    unfold panelRaise
    split
    · exact SameMarks.setIrq ⟨fun _ ↦ rfl, rfl⟩
    · exact .refl _

theorem sameMarks_panelLoop {half : Half} (cs : List Index) : SameMarks s (cs.foldl (panelTurn half) s) := by
  induction cs generalizing s with
  | nil => exact .refl s
  | cons c cs ih => exact sameMarks_panelTurn.trans ih

theorem sameMarks_release : SameMarks s (s.release c value k) := by
  unfold release
  split
  · exact sameMarks_setPending.setIrq
  · exact .refl s

theorem sameMarks_releases (ks : List Kind) : SameMarks s (ks.foldl (release c value) s) := by
  induction ks generalizing s with
  | nil => exact .refl s
  | cons k ks ih => exact sameMarks_release.trans ih

theorem sameMarks_usbhDone (bytes : Word) : SameMarks s (s.usbhDone c bytes) := by
  refine .trans (sameMarks_setChannel ?_) sameMarks_raiseOnce
  split <;> rfl

/-- What a start does to roles and to the channel of the USB module. -/
structure Restarts (s : State) (c : Index) (t : State) : Prop where
  own : (t.channel c).role = s.roleAfter (s.channel c)
  other : ∀ c', c' ≠ c → (t.channel c').role = (s.channel c').role
  usbh : s.transfer (s.channel c) = .usbh → t.usbhChannel = c
  kept : s.transfer (s.channel c) ≠ .usbh → t.usbhChannel = s.usbhChannel

theorem Restarts.trans {r : State} (h : Restarts r c s) (h' : SameMarks s t) : Restarts r c t where
  own := (h'.role c).trans h.own
  other c' hc := (h'.role c').trans (h.other c' hc)
  usbh hu := h'.usbhChannel.trans (h.usbh hu)
  kept hu := h'.usbhChannel.trans (h.kept hu)

theorem restarts_setChannel {ch : Channel} (h : ch.role = s.roleAfter (s.channel c))
    (hu : s.transfer (s.channel c) ≠ .usbh) : Restarts s c (s.setChannel c ch) where
  own := (congrArg Channel.role setChannel_same).trans h
  other _ hc := congrArg Channel.role (setChannel_of_ne hc)
  usbh h := absurd h hu
  kept _ := rfl

theorem restarts_run (answer : Option Word) : Restarts s c (s.run c answer) := by
  have hafter : s.roleAfter (s.channel c) = match s.transfer (s.channel c) with
    | .hpi => .dsp
    | .refused => (s.channel c).role
    | .usbh => .usbh
    | .panel | .sdhi | .copy _ => (s.channel c).roleOf := rfl
  unfold run
  dsimp only
  cases htransfer : s.transfer (s.channel c) with
  | hpi =>
    rw [htransfer] at hafter
    exact (restarts_setChannel hafter.symm (htransfer ▸ Transfer.noConfusion)).trans sameMarks_dspIrq
  | refused =>
    rw [htransfer] at hafter
    exact ⟨hafter.symm, fun _ _ ↦ rfl, fun h ↦ absurd (htransfer.symm.trans h) Transfer.noConfusion,
      fun _ ↦ rfl⟩
  | panel =>
    rw [htransfer] at hafter
    exact restarts_setChannel hafter.symm (htransfer ▸ Transfer.noConfusion)
  | usbh =>
    rw [htransfer] at hafter
    have hstart : Restarts s c (s.usbhStart c) :=
      ⟨(congrArg Channel.role (setChannel_same (s := s))).trans hafter.symm,
        fun c' hc ↦ congrArg Channel.role (setChannel_of_ne hc),
        fun _ ↦ rfl, fun h ↦ absurd htransfer h⟩
    cases answer with
    | none => exact hstart
    | some bytes => exact hstart.trans (sameMarks_usbhDone bytes)
  | sdhi =>
    rw [htransfer] at hafter
    refine (restarts_setChannel (Eq.trans ?_ hafter.symm)
      (htransfer ▸ Transfer.noConfusion)).trans sameMarks_raiseOnce
    split <;> rfl
  | copy window =>
    rw [htransfer] at hafter
    have hne : s.transfer (s.channel c) ≠ .usbh := htransfer ▸ Transfer.noConfusion
    cases window with
    | false => exact restarts_setChannel hafter.symm hne
    | true => exact (restarts_setChannel hafter.symm hne).trans sameMarks_dspIrq

theorem sameLines_dmaor : SameLines s { s with dmaor := value } := ⟨rfl, lineOf_eq rfl, rfl⟩

theorem write_cases (s : State) (offset : ℕ) (value : Word) (answer : Option Word) :
    (chcrWrite (.write offset value answer) = none ∧ SameLines s (s.write offset value answer) ∧
      SameMarks s (s.write offset value answer)) ∨
    ∃ c, chcrWrite (.write offset value answer) = some (c, value) ∧
      s.write offset value answer = s.writeChcr c value answer := by
  have hdef : chcrWrite (.write offset value answer) =
      if offset = 0x60 ∨ offset % 16 ≠ 0xc then none else (channelOf offset).map (·, value) := rfl
  rw [hdef, write]
  by_cases hdmaor : offset = 0x60
  · rw [if_pos (.inl hdmaor), if_pos hdmaor]
    exact .inl ⟨rfl, sameLines_dmaor, fun _ ↦ rfl, rfl⟩
  · rw [if_neg hdmaor]
    cases hc : channelOf offset with
    | none => exact .inl ⟨ite_self _, ⟨rfl, rfl, rfl⟩, .refl s⟩
    | some c =>
      by_cases hchcr : offset % 16 = 0xc
      · rw [if_neg (not_or.mpr ⟨hdmaor, not_not.mpr hchcr⟩), hchcr]
        exact .inr ⟨c, rfl, rfl⟩
      · rw [if_pos (.inr hchcr)]
        refine .inl ⟨rfl, ?_⟩
        dsimp only
        split
        · exact ⟨sameLines_setChannel _, sameMarks_setChannel rfl⟩
        · exact ⟨sameLines_setChannel _, sameMarks_setChannel rfl⟩
        · exact ⟨sameLines_setChannel _, sameMarks_setChannel rfl⟩
        · rename_i heq
          exact absurd heq hchcr
        · exact ⟨⟨rfl, rfl, rfl⟩, .refl s⟩

theorem good_step {e : Event} (hs : Good s u) (hm : Marked s u) (h : Orderly s u e) :
    Good (s.step e) (u.next s e) := by
  unfold Unacked.next
  cases e with
  | panelTimer => exact good_panelDone hs h.alone
  | usbhDone c bytes => exact good_usbhDone bytes hs h.alone.1 (h.usbh c bytes rfl).2
  | write offset value answer =>
    obtain ⟨hnone, hsame, -⟩ | ⟨c, hsome, hstep⟩ := write_cases s offset value answer
    · have hu : u.acknowledged (.write offset value answer) = u := by rw [Unacked.acknowledged, hnone]
      have hx : s.completions (.write offset value answer) = [] := by rw [completions, hnone]
      rw [hu, hx]
      exact hsame.good hs
    · have hu : u.acknowledged (.write offset value answer) = u.acknowledge c value := by
        rw [Unacked.acknowledged, hsome]
      have ha := h.alone
      have hp := h.programs c value hsome
      rw [hu] at ha hp ⊢
      change Good (s.write offset value answer) _
      rw [hstep]
      exact good_writeChcr hs hm hp (by rw [completions, hsome]) ha

theorem roleOf_of_copy {ch : Channel} (h : s.transfer ch = .copy true) : ch.roleOf = .dsp := by
  unfold transfer at h
  split_ifs at h
  exact of_decide_eq_true (Transfer.copy.inj h)

theorem roleAfter_eq {ch : Channel} (h : t.nxs = s.nxs) : t.roleAfter ch = s.roleAfter ch := by
  unfold roleAfter
  rw [transfer_eq h]

/-- The completion that a start makes at once leaves its mark. -/
theorem Restarts.marks {answer : Option Word} (h : Restarts s c t) (hk : s.finishes c answer (s.channel c) = some k) :
    t.Marks c k := by
  have hdsp (hrole : s.roleAfter (s.channel c) = .dsp) : t.Marks c (if c = dma5Channel then .dma5 else .dsp) := by
    by_cases hc : c = dma5Channel
    · rw [if_pos hc]
      exact hc
    · rw [if_neg hc]
      exact ⟨h.own.trans hrole, hc⟩
  have hrole := h.own
  unfold finishes at hk
  cases htransfer : s.transfer (s.channel c) with
  | hpi =>
    rw [htransfer] at hk
    obtain rfl := Option.some.inj hk
    exact hdsp (by rw [roleAfter, htransfer])
  | refused | panel =>
    rw [htransfer] at hk
    cases hk
  | usbh =>
    rw [htransfer] at hk
    obtain ⟨_, -, rfl⟩ := Option.map_eq_some_iff.mp hk
    exact (h.usbh htransfer).symm
  | sdhi =>
    rw [htransfer] at hk
    obtain rfl := Option.some.inj hk
    trivial
  | copy window =>
    rw [htransfer] at hk
    cases window with
    | false => cases hk
    | true =>
      obtain rfl := Option.some.inj hk
      refine hdsp ?_
      rw [roleAfter, htransfer]
      exact roleOf_of_copy htransfer

theorem marked_foldl {xs : List Completion} (hm : Marked s u) (hxs : ∀ x ∈ xs, s.Marks x.channel x.kind) :
    Marked s (xs.foldl Unacked.add u) := by
  intro l k c hu
  obtain hold | ⟨x, hx, -, rfl, rfl, -⟩ := Unacked.foldl_add.mp hu
  · exact hm l k c hold
  · exact hxs x hx

theorem SameMarks.marked (h : SameMarks s t) (hm : Marked s u) : Marked t u := fun l k c hu ↦ h.marks (hm l k c hu)

theorem marked_writeChcr {answer : Option Word} {xs : List Completion} (hm : Marked s u)
    (hp : Programs s u (u.acknowledge c value) c value answer)
    (hxs : xs = if value &&& chcrDe ≠ 0 ∧ s.dmaor &&& 1 ≠ 0 then
      ((s.finishes c answer { s.channel c with chcr := value }).map (⟨·, c, value &&& chcrIe != 0⟩)).toList
        else []) :
    Marked (s.writeChcr c value answer) (xs.foldl Unacked.add (u.acknowledge c value)) := by
  obtain ⟨hchannel, hdmaor, hnxs⟩ := frame_releases s c value kinds
  have hleft : Marked s (u.acknowledge c value) := fun l k c' hu ↦ hm l k c' hu.1
  unfold writeChcr
  dsimp only
  generalize hset : (kinds.foldl (release c value) s).setChannel c
    { (kinds.foldl (release c value) s).channel c with chcr := value } = r
  have hsame : SameMarks s r := hset ▸ (sameMarks_releases kinds).trans (sameMarks_setChannel rfl)
  have hown : r.channel c = { s.channel c with chcr := value } := by
    rw [← hset, setChannel_same, hchannel]
  have hbit : r.dmaor = s.dmaor := by
    rw [← hset]
    exact hdmaor
  have hnxs' : r.nxs = s.nxs := by
    rw [← hset]
    exact hnxs
  rw [hbit]
  by_cases hstart : value &&& chcrDe ≠ 0 ∧ s.dmaor &&& 1 ≠ 0
  · rw [if_pos hstart] at hxs
    rw [if_pos hstart, hxs]
    have hrun : Restarts r c (r.run c answer) := restarts_run answer
    have hrole : ((r.run c answer).channel c).role = s.roleAfter { s.channel c with chcr := value } := by
      rw [hrun.own, hown, roleAfter_eq hnxs']
    intro l k c' hu
    obtain hold | ⟨x, hx, -, rfl, rfl, -⟩ := Unacked.foldl_add.mp hu
    · have hmark := hsame.marks (hleft l k c' hold)
      cases k with
      | panel half =>
        by_cases hc : c' = c
        · subst hc
          exact hrole.trans ((hp.role hstart l).1 half hold)
        · exact (hrun.other c' hc).trans hmark
      | sdhi => trivial
      | dsp =>
        refine ⟨?_, hmark.2⟩
        by_cases hc : c' = c
        · subst hc
          exact hrole.trans ((hp.role hstart l).2 hold)
        · exact (hrun.other c' hc).trans hmark.1
      | dma5 => exact hmark
      | usbh =>
        by_cases hu : r.transfer (r.channel c) = .usbh
        · refine Eq.trans ?_ (hrun.usbh hu).symm
          rw [hown, transfer_eq hnxs'] at hu
          exact hp.usbh hstart hu l c' hold
        · exact Eq.trans hmark (hrun.kept hu).symm
    · obtain ⟨k, hk, rfl⟩ := Option.map_eq_some_iff.mp (Option.mem_toList.mp hx)
      rw [← finishes_eq hnxs', ← hown] at hk
      exact hrun.marks hk
  · rw [if_neg hstart] at hxs
    rw [if_neg hstart, hxs]
    exact hsame.marked hleft

theorem marked_step {e : Event} (hm : Marked s u) (h : Orderly s u e) : Marked (s.step e) (u.next s e) := by
  unfold Unacked.next
  cases e with
  | panelTimer =>
    refine SameMarks.marked ((sameMarks_panelLoop _).trans (sameMarks_panelLoop _)) (marked_foldl hm fun x hx ↦ ?_)
    have hfinishes {half : Half} (hx : x ∈ (List.finRange 16).filterMap (s.panelFinishes half)) :
        s.Marks x.channel x.kind := by
      obtain ⟨c, -, hc⟩ := List.mem_filterMap.mp hx
      unfold panelFinishes at hc
      split at hc
      · cases hc
      · rename_i hturn
        obtain rfl := Option.some.inj hc
        simp only [ne_eq, decide_not, Bool.or_eq_true, Bool.not_eq_true', decide_eq_false_iff_not, not_or,
          not_not] at hturn
        exact hturn.1.2
    exact (List.mem_append.mp hx).elim hfinishes hfinishes
  | usbhDone c bytes =>
    refine (sameMarks_usbhDone bytes).marked (marked_foldl hm fun x hx ↦ ?_)
    obtain rfl := List.mem_singleton.mp hx
    exact (h.usbh c bytes rfl).1
  | write offset value answer =>
    obtain ⟨hnone, -, hsame⟩ | ⟨c, hsome, hstep⟩ := write_cases s offset value answer
    · have hu : u.acknowledged (.write offset value answer) = u := by rw [Unacked.acknowledged, hnone]
      have hx : s.completions (.write offset value answer) = [] := by rw [completions, hnone]
      rw [hu, hx]
      exact hsame.marked hm
    · have hu : u.acknowledged (.write offset value answer) = u.acknowledge c value := by
        rw [Unacked.acknowledged, hsome]
      have hp := h.programs c value hsome
      rw [hu] at hp ⊢
      change Marked (s.write offset value answer) _
      rw [hstep]
      exact marked_writeChcr hm hp (by rw [completions, hsome])

end State

section Steps

variable {s : State} {u : Unacked} {e : Event}

theorem Unacked.acknowledged_or {l : Line} {k : Kind} {c : Index} (h : u l k c) :
    u.acknowledged e l k c ∨ ∃ value, State.chcrWrite e = some (c, value) := by
  unfold acknowledged
  cases State.chcrWrite e with
  | none => exact .inl h
  | some p =>
    by_cases hc : c = p.1
    · exact .inr ⟨p.2, congrArg (fun c ↦ some (c, p.2)) hc.symm⟩
    · exact .inl ⟨h, fun h' ↦ hc h'.1⟩

theorem follows (hs : Good s u) (hm : Marked s u) (h : Orderly s u e) : Follows s u e := by
  have ht := State.good_step hs hm h
  refine ⟨?_, ?_, ?_⟩
  · intro l hdown hup
    obtain ⟨k, c, hu⟩ := (ht.level l).mp hup
    obtain hold | ⟨x, hx, henabled, rfl, rfl, hroute⟩ := Unacked.foldl_add.mp hu
    · have hlevel := (hs.level l).mpr ⟨k, c, Unacked.of_acknowledged hold⟩
      exact absurd (hlevel.symm.trans hdown) Bool.noConfusion
    · exact ⟨x, hx, henabled, hroute⟩
  · intro c value hwrite hte l
    have hacks (k : Kind) : Unacked.acks value k = true := by
      cases k <;> simp [Unacked.acks, hte]
    have hgone {k : Kind} {c' : Index} : u.acknowledged e l k c' ↔ u l k c' ∧ c' ≠ c := by
      rw [Unacked.acknowledged, hwrite]
      refine and_congr_right fun _ ↦ not_congr ?_
      exact ⟨fun h ↦ h.1, fun h ↦ ⟨h, hacks k⟩⟩
    rw [ht.level]
    constructor
    · rintro ⟨k, c', hu⟩
      obtain hold | ⟨x, hx, henabled, rfl, rfl, hroute⟩ := Unacked.foldl_add.mp hu
      · obtain ⟨hold, hne⟩ := hgone.mp hold
        exact .inl ⟨k, c', hne, hold⟩
      · exact .inr ⟨x, hx, henabled, hroute⟩
    · rintro (⟨k, c', hne, hold⟩ | ⟨x, hx, henabled, hroute⟩)
      · exact ⟨k, c', Unacked.foldl_add.mpr (.inl (hgone.mpr ⟨hold, hne⟩))⟩
      · exact ⟨x.kind, x.channel, Unacked.foldl_add.mpr (.inr ⟨x, hx, henabled, rfl, rfl, hroute⟩)⟩
  · intro l hup hdown
    have hlost {k : Kind} {c : Index} (hu : u l k c) : ∃ value, State.chcrWrite e = some (c, value) := by
      refine (Unacked.acknowledged_or hu).resolve_left fun hkept ↦ ?_
      have hlevel := (ht.level l).mpr ⟨k, c, Unacked.foldl_add.mpr (.inl hkept)⟩
      exact Bool.noConfusion (hlevel.symm.trans hdown)
    obtain ⟨k, c, hu⟩ := (hs.level l).mp hup
    obtain ⟨value, hwrite⟩ := hlost hu
    refine ⟨c, value, hwrite, ⟨k, hu⟩, fun k' c' hu' ↦ ?_⟩
    obtain ⟨value', hwrite'⟩ := hlost hu'
    rw [hwrite] at hwrite'
    exact (congrArg Prod.fst (Option.some.inj hwrite')).symm

/-- A step of the controller, with what the guest has not acknowledged beside it. -/
def move (x : State × Unacked) (e : Event) : State × Unacked := (x.1.step e, x.2.next x.1 e)

def Moves (x : State × Unacked) (e : Event) (y : State × Unacked) : Prop := y = move x e

def OrderlyMoves (x : State × Unacked) (e : Event) (y : State × Unacked) : Prop := Orderly x.1 x.2 e ∧ Moves x e y

def start (panelPresent nxs : Bool) : State × Unacked := (State.init panelPresent nxs, Unacked.clear)

variable {panelPresent nxs : Bool} {es : List Event} {x : State × Unacked}

theorem good_of_path (h : Path OrderlyMoves (start panelPresent nxs) es x) : Good x.1 x.2 ∧ Marked x.1 x.2 := by
  refine h.keeps (P := fun x ↦ Good x.1 x.2 ∧ Marked x.1 x.2) ?_
    ⟨State.good_init panelPresent nxs, fun _ _ _ h ↦ h.elim⟩
  rintro x e y ⟨hgood, hmarked⟩ ⟨horderly, rfl⟩
  exact ⟨State.good_step hgood hmarked horderly, State.marked_step hmarked horderly⟩

/-- In a run of orderly steps every completion line follows its channels. -/
theorem completion_lines (h : Path OrderlyMoves (start panelPresent nxs) es x) (he : Orderly x.1 x.2 e) :
    Follows x.1 x.2 e :=
  follows (good_of_path h).1 (good_of_path h).2 he

/-- The start of the receive half of a panel exchange on channel 3, and the end of it. -/
def panelReceive : List Event :=
  [.write 0x60 1 none, .write 0x30 panelScifRdr none, .write 0x3c 5 none, .panelTimer]

theorem orderly_silent (hwrite : State.chcrWrite e = none) (hdone : ∀ c bytes, e ≠ .usbhDone c bytes)
    (hx : s.completions e = []) : Orderly s u e where
  programs _ _ h := absurd (hwrite.symm.trans h) (Option.some_ne_none _).symm
  usbh c bytes h := absurd h (hdone c bytes)
  alone := hx ▸ trivial

theorem completion_lines_panel : (panelReceive.foldl move (start true false)).1.level .panelRx = true ∧
    Follows (panelReceive.foldl move (start true false)).1 (panelReceive.foldl move (start true false)).2
      (.write 0x3c 0 none) := by
  have hnone {l : Line} {k : Kind} {c : Index} {u : Unacked} (hu : u = Unacked.clear) : ¬u l k c := hu ▸ id
  have hrun : Path OrderlyMoves (start true false) panelReceive (panelReceive.foldl move (start true false)) := by
    refine .cons ⟨orderly_silent rfl (fun _ _ ↦ Event.noConfusion) rfl, rfl⟩
      (.cons ⟨orderly_silent rfl (fun _ _ ↦ Event.noConfusion) rfl, rfl⟩
      (.cons ⟨⟨?_, fun _ _ ↦ Event.noConfusion, trivial⟩, rfl⟩
      (.cons ⟨⟨fun _ _ h ↦ (by cases h), fun _ _ ↦ Event.noConfusion, ⟨?_, ?_⟩, trivial⟩, rfl⟩ .nil)))
    · rintro c value hwrite
      cases hwrite
      refine ⟨fun _ _ _ _ h ↦ False.elim h, fun _ _ h ↦ False.elim h,
        fun _ _ ↦ ⟨fun _ h ↦ False.elim h.1, fun h ↦ False.elim h.1⟩,
        fun _ h ↦ absurd h ?_, fun _ h ↦ absurd h ?_, fun _ h ↦ absurd h ?_⟩
      all_goals decide
    · exact fun _ _ _ h ↦ False.elim h.1
    · exact fun _ _ _ _ _ h ↦ False.elim h.1
  refine ⟨by decide +kernel, completion_lines hrun ⟨?_, fun _ _ ↦ Event.noConfusion, trivial⟩⟩
  rintro c value hwrite
  cases hwrite
  have hstill : ¬(panelReceive.foldl move (start true false)).1.Starts 0 := fun h ↦ h.1 (by decide)
  refine ⟨?_, ?_, fun h ↦ absurd h hstill, fun h ↦ absurd h hstill, fun h ↦ absurd h hstill,
    fun h ↦ absurd h hstill⟩
  · rintro - l k c' (h | ⟨-, rfl, rfl, -⟩) hne
    · exact False.elim h.1
    · exact absurd rfl hne
  · rintro - l (h | ⟨-, hk, -⟩)
    · exact False.elim h.1
    · cases hk

/-- The start of a transfer to the card on channel 8. -/
def cardWrite : List Event := [.write 0x60 1 none, .write 0x80 0x0c001000 none, .write 0x84 sdhiDataPort none,
  .write 0x88 0x100 none, .write 0x8c 5 none]

/-- The source address of a transfer to the card is not the data port, and no write acknowledges it. -/
theorem completion_to_card : ¬∀ panelPresent nxs es x e,
    Path Moves (start panelPresent nxs) es x → Follows x.1 x.2 e := by
  intro h
  have hrun : Path Moves (start true false) cardWrite (cardWrite.foldl move (start true false)) :=
    .cons rfl (.cons rfl (.cons rfl (.cons rfl (.cons rfl .nil))))
  have hfollows := (h _ _ _ _ (.write 0x8c 0 none) hrun).acknowledged 8 0 rfl rfl .sdhi
  obtain ⟨k, c, hne, h | ⟨-, -, hc, -⟩⟩ | ⟨x, hx, -⟩ := hfollows.mp (by decide)
  · exact h.1
  · exact hne hc
  · cases hx

end Steps

end Cdj2000Emulator.Dmac
