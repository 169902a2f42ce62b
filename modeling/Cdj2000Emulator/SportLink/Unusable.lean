import Cdj2000Emulator.SportLink.Deliveries
import Mathlib.Data.Fintype.Card

namespace Cdj2000Emulator.SportLink

open Library Library.Bytes Library.Traces Function

/-- A frame as a peer sends it, with the length its header gives. -/
structure Packet where
  field : ℕ
  body : Frame

variable {cfg : Config} {s t : Link} {w w' : Shelf} {f : Frame} {p q : Packet} {packets rest : List Packet}
  {bytes tail : List Byte}

namespace Packet

/-- A frame as it comes in. -/
def encode (p : Packet) : List Byte := magic ++ little 4 p.field ++ p.body

def Usable (p : Packet) : Prop := 0 < p.field ∧ p.field ≤ frameMax

instance : DecidablePred Usable := fun _ ↦ inferInstanceAs (Decidable (_ ∧ _))

def Sound (p : Packet) : Prop := p.field < 2 ^ 32 ∧ (p.Usable → p.field = p.body.length)

theorem length_encode : p.encode.length = 8 + p.body.length := by
  rw [encode, List.length_append, List.length_append, length_little]
  rfl

theorem Sound.encode (h : p.Sound) (hp : p.Usable) : p.encode = SportLink.encode p.body := by
  rw [Packet.encode, h.2 hp, SportLink.encode]

theorem Sound.wellFormed (h : p.Sound) (hp : p.Usable) : WellFormed p.body := by
  unfold WellFormed
  rw [← h.2 hp]
  exact hp

end Packet

open Packet (Usable Sound)

def sent (packets : List Packet) : List Byte := packets.flatMap Packet.encode

theorem sent_cons : sent (p :: packets) = p.encode ++ sent packets := rfl

theorem sent_append (packets rest : List Packet) : sent (packets ++ rest) = sent packets ++ sent rest :=
  List.flatMap_append

def usable (packets : List Packet) : List Frame := (packets.filter fun p ↦ p.Usable).map Packet.body

theorem usable_append (packets rest : List Packet) : usable (packets ++ rest) = usable packets ++ usable rest := by
  rw [usable, List.filter_append, List.map_append, usable, usable]

theorem usable_cons (hp : p.Usable) : usable (p :: packets) = p.body :: usable packets := by
  rw [usable, List.filter_cons_of_pos (by simpa using hp), List.map_cons, usable]

theorem usable_of_unusable {bads : List Packet} (h : ∀ p ∈ bads, ¬ p.Usable) : usable bads = [] := by
  rw [usable, List.filter_eq_nil_iff.mpr fun p hp ↦ by simpa using h p hp, List.map_nil]

theorem staged_of_unusable (h : bytes <+: p.encode ++ tail) (hp : ¬ p.Usable) (field : p.field < 2 ^ 32) :
    staged bytes = if bytes.length < 8 then .short else .unusable := by
  unfold staged
  by_cases short : bytes.length < 8
  · rw [if_pos short, if_pos short]
  rw [if_neg short, if_neg short]
  have start : bytes.take 4 = magic := by
    rw [← List.drop_zero (l := bytes), take_drop_of_prefix h (by omega)]
    rfl
  have length : value ((bytes.drop 4).take 4) = p.field := by
    rw [ take_drop_of_prefix h (by omega)]
    change value ((little 4 p.field ++ p.body ++ tail).take 4) = p.field
    rw [List.append_assoc, List.take_left' (length_little 4 _)]
    exact value_little field
  have unusable : p.field = 0 ∨ frameMax < p.field := by
    unfold Packet.Usable at hp
    omega
  rw [if_neg (not_not.mpr start), length, if_pos unusable]

theorem Link.splitFrom_unusable (h : staged bytes = .unusable) :
    s.splitFrom cfg bytes = ({ s with linkIn := [], framed := true }, []) := by
  rw [splitFrom]
  split <;> simp_all

theorem Link.poll_foreign (left : s.linkIn = tail) (h : staged (tail ++ bytes) = .foreign) :
    (s.poll cfg bytes).2 = [] := by
  subst left
  change ({ s with linkIn := s.linkIn ++ bytes }.splitFrom cfg (s.linkIn ++ bytes)).2 = []
  rw [splitFrom]
  split <;> simp_all

def Holds (lengths : Finset ℕ) (s : Link) : Prop := ∀ i, (s.slot i).len = 0 ∨ (s.slot i).len ∈ lengths

def Stores (lengths : Finset ℕ) (history : List Label) : Prop :=
  lengths.card ≤ 16 → ∀ f, Label.turnedAway f ∉ history

theorem Stores.append {lengths : Finset ℕ} {history more : List Label} (h : Stores lengths history)
    (k : Stores lengths more) : Stores lengths (history ++ more) := fun few f hf ↦
  (List.mem_append.mp hf).elim (h few f) (k few f)

theorem Stores.nil {lengths : Finset ℕ} : Stores lengths [] := fun _ _ ↦ List.not_mem_nil

variable {lengths : Finset ℕ} {i : Fin 16}

theorem Holds.deposit (h : Holds lengths s) (hf : f.length ∈ lengths) :
    Holds lengths (s.deposit cfg i f).1 ∧ Stores lengths (s.deposit cfg i f).2 := by
  constructor
  · intro j
    have slots : (s.deposit cfg i f).1.slot = (s.setSlot i (Link.pushed cfg f (s.slot i))).slot := Link.slot_hear
    rw [slots]
    by_cases hj : j = i
    · subst hj
      rw [Link.setSlot_same]
      exact Or.inr hf
    · rw [Link.setSlot_of_ne hj]
      exact h j
  · intro _ g hg
    rcases List.mem_append.mp hg with hopen | hstored
    · split_ifs at hopen
      · cases hopen
      · cases List.mem_singleton.mp hopen
    · cases List.mem_singleton.mp hstored

theorem Agrees.accept_stores (h : Agrees cfg s w) (holds : Holds lengths s) (hf : f.length ∈ lengths) :
    Holds lengths (s.accept cfg f).1 ∧ Stores lengths (s.accept cfg f).2 := by
  unfold Link.accept
  cases own : s.holder f.length with
  | some i => exact holds.deposit hf
  | none =>
    cases zero : s.holder 0 with
    | some i => exact holds.deposit hf
    | none =>
      rw [Option.none_or]
      cases idle : s.idle cfg with
      | some i =>
        have freed : Holds lengths (s.recycle i) := by
          intro j
          rw [Link.recycle]
          by_cases hj : j = i
          · subst hj
            rw [Link.setSlot_same]
            exact Or.inl rfl
          · rw [Link.setSlot_of_ne hj]
            exact holds j
        obtain ⟨kept, stores⟩ : Holds lengths ((s.recycle i).deposit cfg i f).1 ∧
            Stores lengths ((s.recycle i).deposit cfg i f).2 := freed.deposit hf
        refine ⟨kept, fun few g hg ↦ ?_⟩
        rcases List.mem_cons.mp hg with hrecycled | hlater
        · cases hrecycled
        · exact stores few g hlater
      | none =>
        refine ⟨holds, fun few g hg ↦ ?_⟩
        have full := Link.holder_none zero
        have others := Link.holder_none own
        have inside : Finset.univ.image (fun j ↦ (s.slot j).len) ⊆ lengths.erase f.length := by
          intro n hn
          obtain ⟨j, -, rfl⟩ := Finset.mem_image.mp hn
          exact Finset.mem_erase.mpr ⟨others j, (holds j).resolve_left (full j)⟩
        have many := Finset.card_le_card inside
        rw [Finset.card_image_of_injective _ fun j k heq ↦ h.distinct k j (full k) heq, Finset.card_univ,
          Fintype.card_fin,
          Finset.card_erase_of_mem hf] at many
        omega

theorem len_give {n entry : ℕ} (j : Fin 16) : ((s.give cfg n i entry).1.slot j).len = (s.slot j).len := by
  rw [Link.give]
  by_cases hj : j = i
  · subst hj
    rw [Link.setSlot_same]
  · rw [Link.setSlot_of_ne hj]

theorem len_answer {n : ℕ} (j : Fin 16) : ((s.answer cfg n).1.slot j).len = (s.slot j).len := by
  unfold Link.answer
  split_ifs
  · unfold Link.take
    cases s.holder n with
    | none => rfl
    | some i =>
      dsimp only
      cases (s.slot i).ring.oldest cfg.depth with
      | some entry => exact len_give (n := n) j
      | none =>
        dsimp only
        split_ifs
        · rfl
        · exact len_give (n := n) j
  · rfl
  · rfl

theorem Holds.receive {n : ℕ} (h : Holds lengths s) :
    Holds lengths (s.receive cfg n).1 ∧ Stores lengths (s.receive cfg n).2 := by
  constructor
  · intro i
    have same : ((s.receive cfg n).1.slot i).len = (s.slot i).len := len_answer i
    rw [same]
    exact h i
  · intro _ g hg
    have := List.mem_singleton.mp hg
    unfold Link.outcome at this
    split at this
    · cases this
    · split_ifs at this

/-- What can wait in `link_in` of a frame. -/
def waiting (p : Packet) : ℕ := if p.Usable then 8 + p.body.length else 8

/-- Between events less than a frame, and of an unusable one less than its header, waits in `link_in`. -/
structure Between (cfg : Config) (lengths : Finset ℕ) (s : Link) (w : Shelf) (rest : List Packet) : Prop where
  agrees : Agrees cfg s w
  holds : Holds lengths s
  cut : ∀ p more, rest = p :: more → s.linkIn.length < waiting p
  unframed : s.framed = false → s.linkIn.length < 8 ∧ ∀ n, w.unread n = []

/-- Bytes that hold the whole header of an unusable frame end with it, or with one that follows without a usable one
between. -/
def Flushes (rest : List Packet) (bytes : List Byte) : Prop :=
  ∀ before p after, rest = before ++ p :: after → ¬ p.Usable → (sent before).length + 8 ≤ bytes.length →
    ∃ bads after', p :: after = bads ++ after' ∧ (∀ q ∈ bads, ¬ q.Usable) ∧
      bytes.length = (sent (before ++ bads)).length

theorem splitFrom_between (sound : ∀ p ∈ rest, p.Sound) (hbytes : bytes <+: sent rest)
    (flushes : Flushes rest bytes)
    (known : ∀ p ∈ rest, p.Usable → p.field ∈ lengths)
    (h : Agrees cfg s w) (holds : Holds lengths s) (unframed : s.framed = false → ∀ n, w.unread n = []) :
    ∃ w' done more, w.Follows cfg (s.splitFrom cfg bytes).2 w' ∧
      arrivals (s.splitFrom cfg bytes).2 = usable done ∧
      rest = done ++ more ∧ bytes = sent done ++ (s.splitFrom cfg bytes).1.linkIn ∧
      Between cfg lengths (s.splitFrom cfg bytes).1 w' more ∧ Stores lengths (s.splitFrom cfg bytes).2 := by
  induction rest generalizing bytes s w with
  | nil =>
    obtain rfl : bytes = [] := List.prefix_nil.mp hbytes
    rw [Link.splitFrom_short staged_nil]
    exact ⟨w, [], [], .nil, rfl, rfl, rfl, ⟨h.staged _ _, holds, fun _ _ h ↦ absurd h (by simp),
      fun framed ↦ ⟨Nat.succ_pos 7, unframed framed⟩⟩, .nil⟩
  | cons p rest ih =>
    obtain ⟨hsound, sound⟩ := List.forall_mem_cons.mp sound
    obtain ⟨place, known⟩ := List.forall_mem_cons.mp known
    have head {linkIn : List Byte} (short : linkIn.length < waiting p) (q : Packet) (more : List Packet)
        (he : p :: rest = q :: more) : linkIn.length < waiting q := (List.cons.inj he).1 ▸ short
    by_cases hp : p.Usable
    · have hf := hsound.wellFormed hp
      rw [sent_cons, hsound.encode hp] at hbytes
      have found := staged_of_prefix hbytes hf
      by_cases short : bytes.length < 8
      · rw [if_pos short] at found
        rw [Link.splitFrom_short found]
        refine ⟨w, [], p :: rest, .nil, rfl, rfl, rfl,
          ⟨h.staged _ _, holds, head ?_, fun framed ↦ ⟨short, unframed framed⟩⟩, .nil⟩
        rw [waiting, if_pos hp]
        exact Nat.lt_of_lt_of_le short (Nat.le_add_right _ _)
      rw [if_neg short] at found
      by_cases cut : bytes.length < 8 + p.body.length
      · rw [if_pos cut] at found
        rw [Link.splitFrom_cut found]
        refine ⟨w, [], p :: rest, .nil, rfl, rfl, rfl,
          ⟨h.staged _ _, holds, head ?_, fun framed ↦ absurd framed (by simp)⟩, .nil⟩
        rw [waiting, if_pos hp]
        exact cut
      · rw [if_neg cut] at found
        obtain ⟨hsplit, htail⟩ := rest_of_prefix hbytes (Nat.le_of_not_lt cut)
        obtain ⟨w₁, first, agrees, arrived⟩ := (h.staged s.linkIn true).accept (Nat.ne_of_gt hf.1)
        obtain ⟨kept, stores⟩ : Holds lengths ({ s with framed := true }.accept cfg p.body).1 ∧
            Stores lengths ({ s with framed := true }.accept cfg p.body).2 :=
          (h.staged s.linkIn true).accept_stores holds (hsound.2 hp ▸ place hp)
        have framed : ({ s with framed := true }.accept cfg p.body).1.framed = true := Link.framed_accept
        have later : Flushes rest (bytes.drop (8 + p.body.length)) := by
          intro before q after hrest hq hlen
          obtain ⟨bads, after', hsum, all, size⟩ := flushes (p :: before) q after (by rw [hrest]; rfl) hq (by
            rw [sent_cons, List.length_append, Packet.length_encode]
            rw [List.length_drop] at hlen
            omega)
          refine ⟨bads, after', hsum, all, ?_⟩
          rw [List.cons_append, sent_cons, List.length_append, Packet.length_encode] at size
          rw [List.length_drop]
          omega
        obtain ⟨w', done, more, hfollows, harrivals, hdone, hsum, between, others⟩ :=
          ih sound htail later known agrees kept fun no ↦ absurd (framed.symm.trans no) (by simp)
        rw [Link.splitFrom_frame found]
        refine ⟨w', p :: done, more, first.append hfollows, ?_, congrArg (p :: ·) hdone, ?_, between,
          stores.append others⟩
        · rw [arrivals_append, arrived, harrivals, usable_cons hp]
          rfl
        · rw [sent_cons, hsound.encode hp]
          conv_lhs => rw [hsplit, hsum]
          exact (List.append_assoc _ _ _).symm
    · have found := staged_of_unusable hbytes hp hsound.1
      by_cases short : bytes.length < 8
      · rw [if_pos short] at found
        rw [Link.splitFrom_short found]
        refine ⟨w, [], p :: rest, .nil, rfl, rfl, rfl,
          ⟨h.staged _ _, holds, head ?_, fun framed ↦ ⟨short, unframed framed⟩⟩, .nil⟩
        rwa [waiting, if_neg hp]
      · rw [if_neg short] at found
        rw [Link.splitFrom_unusable found]
        obtain ⟨bads, after', hsum, all, size⟩ := flushes [] p rest rfl hp (by
          change 0 + 8 ≤ bytes.length
          omega)
        have whole : bytes = sent bads := by
          have front : sent bads <+: sent (p :: rest) := by
            rw [hsum, sent_append]
            exact List.prefix_append _ _
          exact (List.prefix_of_prefix_length_le hbytes front (Nat.le_of_eq size)).eq_of_length size
        refine ⟨w, bads, after', .nil, (usable_of_unusable all).symm, hsum, ?_,
          ⟨h.staged _ _, holds, ?_, fun framed ↦ absurd framed (by simp)⟩, .nil⟩
        · rw [whole]
          exact (List.append_nil _).symm
        · intro q more _
          change 0 < waiting q
          unfold waiting
          split <;> omega

/-- A read that takes the stream from `start` to `stop` and with it the rest of an unusable frame's header ends with
that
frame, or with an unusable one after it and no usable one between. -/
def FlushesAt (packets : List Packet) (start stop : ℕ) : Prop :=
  ∀ before p after, packets = before ++ p :: after → ¬ p.Usable →
    start < (sent before).length + 8 → (sent before).length + 8 ≤ stop →
      ∃ bads after', p :: after = bads ++ after' ∧ (∀ q ∈ bads, ¬ q.Usable) ∧
        stop = (sent (before ++ bads)).length

def FlushesWhole (packets : List Packet) (run : List (Event × List Label)) : Prop :=
  ∀ front x back, run = front ++ x :: back →
    FlushesAt packets (received front).length ((received front).length + x.1.bytes.length)

/-- Less than what can wait of the first frame is less than the header of an unusable one further on. -/
theorem waiting_le {before more after : List Packet} (h : p :: more = before ++ q :: after) (hq : ¬ q.Usable) :
    waiting p ≤ (sent before).length + 8 := by
  cases before with
  | nil =>
    rw [(List.cons.inj h).1, waiting, if_neg hq]
    exact Nat.le_add_left _ _
  | cons first before =>
    have long : 8 + p.body.length ≤ (sent (first :: before)).length := by
      rw [← (List.cons.inj h).1, sent_cons, List.length_append, Packet.length_encode]
      exact Nat.le_add_right _ _
    unfold waiting
    split <;> omega

theorem Between.flushes {gone : List Packet} (between : Between cfg lengths s w rest)
    (h : FlushesAt (gone ++ rest) ((sent gone).length + s.linkIn.length)
      ((sent gone).length + s.linkIn.length + bytes.length)) : Flushes rest (s.linkIn ++ bytes) := by
  intro before p after hrest hp hlen
  rw [List.length_append] at hlen ⊢
  have few : s.linkIn.length < (sent before).length + 8 := by
    obtain ⟨first, more, hfirst⟩ : ∃ first more, before ++ p :: after = first :: more :=
      List.exists_cons_of_ne_nil fun h ↦ absurd (List.append_eq_nil_iff.mp h).2 (List.cons_ne_nil _ _)
    exact Nat.lt_of_lt_of_le (between.cut first more (hrest.trans hfirst)) (waiting_le hfirst.symm hp)
  have whole : (sent (gone ++ before)).length = (sent gone).length + (sent before).length := by
    rw [sent_append, List.length_append]
  obtain ⟨bads, after', hsum, all, size⟩ := h (gone ++ before) p after (by rw [hrest, List.append_assoc]) hp
    (by omega) (by omega)
  refine ⟨bads, after', hsum, all, ?_⟩
  rw [List.append_assoc, sent_append, List.length_append] at size
  omega

theorem handle_between {e : Event} (socket : cfg.cosim = false) (sound : ∀ p ∈ rest, p.Sound)
    (known : ∀ p ∈ rest, p.Usable → p.field ∈ lengths) (between : Between cfg lengths s w rest)
    (allowed : e.Allowed cfg s) (flushes : Flushes rest (s.linkIn ++ e.bytes))
    (hb : s.linkIn ++ e.bytes <+: sent rest) :
    ∃ w' done more, w.Follows cfg (e.handle cfg s).2 w' ∧ arrivals (e.handle cfg s).2 = usable done ∧
      rest = done ++ more ∧ s.linkIn ++ e.bytes = sent done ++ (e.handle cfg s).1.linkIn ∧
      Between cfg lengths (e.handle cfg s).1 w' more ∧ Stores lengths (e.handle cfg s).2 := by
  cases e with
  | poll bytes =>
    exact splitFrom_between sound hb flushes known (between.agrees.staged (s.linkIn ++ bytes) s.framed) between.holds
      fun h ↦ (between.unframed h).2
  | inject f => exact absurd (socket.symm.trans allowed.1) Bool.false_ne_true
  | receive n =>
    obtain ⟨w', hfollows, harrivals, hagrees, hlink, hunframed⟩ :=
        between.agrees.receive between.unframed allowed.1 allowed.2
    obtain ⟨holds, stores⟩ : Holds lengths (s.receive cfg n).1 ∧ Stores lengths (s.receive cfg n).2 :=
      between.holds.receive
    change ∃ w' done more, w.Follows cfg (s.receive cfg n).2 w' ∧ arrivals (s.receive cfg n).2 =
      usable done ∧ _ ∧
      _ = sent done ++ (s.receive cfg n).1.linkIn ∧ Between cfg lengths (s.receive cfg n).1 w' more ∧ _
    refine ⟨w', [], rest, hfollows, harrivals, rfl, ?_, ⟨hagrees, holds, ?_, ?_⟩, stores⟩
    · rw [hlink]
      exact List.append_nil _
    · rw [hlink]
      exact between.cut
    · rw [hlink]
      exact hunframed

theorem between_run (socket : cfg.cosim = false) {run : List (Event × List Label)} (h : Path (Step cfg) s run t)
    (sound : ∀ p ∈ rest, p.Sound) (known : ∀ p ∈ rest, p.Usable → p.field ∈ lengths)
    (between : Between cfg lengths s w rest) {gone : List Packet}
    (flushes : ∀ front x back, run = front ++ x :: back →
      FlushesAt (gone ++ rest) ((sent gone).length + s.linkIn.length + (received front).length)
        ((sent gone).length + s.linkIn.length + (received front).length + x.1.bytes.length))
    (hb : s.linkIn ++ received run <+: sent rest) :
    ∃ w' done more, w.Follows cfg (history run) w' ∧ arrivals (history run) = usable done ∧
      rest = done ++ more ∧
      s.linkIn ++ received run = sent done ++ t.linkIn ∧ Between cfg lengths t w' more ∧
      Stores lengths (history run) := by
  induction h generalizing w rest gone with
  | nil => exact ⟨w, [], rest, .nil, rfl, rfl, List.append_nil _, between, .nil⟩
  | @cons s t u x run hstep _ ih =>
    obtain ⟨allowed, handled⟩ := hstep
    have hbytes : s.linkIn ++ received (x :: run) = s.linkIn ++ x.1.bytes ++ received run :=
      (List.append_assoc _ _ _).symm
    rw [hbytes] at hb ⊢
    have first : Flushes rest (s.linkIn ++ x.1.bytes) := between.flushes (flushes [] x run rfl)
    obtain ⟨w₁, done, more, hfirst, harrived, rfl, hsum, hbetween, hstores⟩ :=
      handle_between socket sound known between allowed first ((List.prefix_append _ _).trans hb)
    rw [handled] at hfirst harrived hsum hbetween hstores
    have hmore : t.linkIn ++ received run <+: sent more := by
      rw [hsum, List.append_assoc, sent_append] at hb
      exact (List.prefix_append_right_inj _).mp hb
    have size : (sent gone).length + s.linkIn.length + x.1.bytes.length =
        (sent (gone ++ done)).length + t.linkIn.length := by
      have := congrArg List.length hsum
      rw [List.length_append, List.length_append] at this
      dsimp only at this
      rw [sent_append, List.length_append]
      omega
    have later : ∀ front y back, run = front ++ y :: back →
        FlushesAt ((gone ++ done) ++ more) ((sent (gone ++ done)).length + t.linkIn.length + (received front).length)
          ((sent (gone ++ done)).length + t.linkIn.length + (received front).length + y.1.bytes.length) := by
      intro front y back hrun
      have shifted := flushes (x :: front) y back (by rw [hrun]; rfl)
      have front' : (received (x :: front)).length = x.1.bytes.length + (received front).length := by
        rw [received, List.flatMap_cons, List.length_append, ← received]
      rw [front', ← Nat.add_assoc, size, ← List.append_assoc] at shifted
      exact shifted
    obtain ⟨w', done', more', hfollows, harrivals, rfl, hsum', hbetween', hstores'⟩ :=
      ih (fun p hp ↦ sound p (List.mem_append_right _ hp)) (fun p hp ↦
        known p (List.mem_append_right _ hp)) hbetween
        later hmore
    refine ⟨w', done ++ done', more', hfirst.append hfollows, ?_, (List.append_assoc _ _ _).symm, ?_, hbetween',
      hstores.append hstores'⟩
    · have hhistory : history (x :: run) = x.2 ++ history run := rfl
      rw [hhistory, arrivals_append, harrived, harrivals, usable_append]
    · rw [hsum, sent_append, List.append_assoc, hsum', List.append_assoc]

theorem Between.init : Between cfg lengths Link.init .empty packets where
  agrees := .init
  holds _ := .inl rfl
  cut p _ _ := by
    change 0 < waiting p
    unfold waiting
    split <;> omega
  unframed _ := ⟨Nat.succ_pos 7, fun _ ↦ rfl⟩

/-- These are the frames that have come in whole, before what is left in `link_in`. -/
structure Whole (packets : List Packet) (received linkIn : List Byte) (done : List Packet) : Prop where
  bytes : received = sent done ++ linkIn
  cut : ∃ more, packets = done ++ more ∧ ∀ p rest, more = p :: rest → linkIn.length < p.encode.length

theorem Whole.unique {received linkIn linkIn' : List Byte} {done done' : List Packet}
    (h : Whole packets received linkIn done) (h' : Whole packets received linkIn' done') : done = done' := by
  obtain ⟨more, split, cut⟩ := h.cut
  obtain ⟨more', split', cut'⟩ := h'.cut
  have longer {done x : List Packet} {a b : List Byte} {p : Packet}
      (hbytes : sent done ++ a = sent (done ++ p :: x) ++ b) :
      p.encode.length ≤ a.length := by
    have := congrArg List.length hbytes
    rw [sent_append, sent_cons, List.length_append, List.length_append, List.length_append, List.length_append] at this
    omega
  rcases List.append_eq_append_iff.mp (split.symm.trans split') with ⟨x, rfl, hmore⟩ | ⟨x, rfl, hmore⟩
  · cases x with
    | nil => exact (List.append_nil _).symm
    | cons p x => exact absurd (cut p _ hmore) (Nat.not_lt_of_le (longer (h.bytes.symm.trans h'.bytes)))
  · cases x with
    | nil => exact List.append_nil _
    | cons p x => exact absurd (cut' p _ hmore) (Nat.not_lt_of_le (longer (h'.bytes.symm.trans h.bytes)))

/-- What becomes of a stream that may hold unusable frames. -/
structure Recovers (cfg : Config) (packets : List Packet) (run : List (Event × List Label)) (s : Link) : Prop where
  /-- The usable ones of the frames that have come in whole arrive, in order. -/
  arrived : ∃ done, Whole packets (received run) s.linkIn done ∧ arrivals (history run) = usable done
  /-- They are kept, handed over and lost as on the shelf. -/
  follows : ∃ w, Shelf.empty.Follows cfg (history run) w
  /-- None is turned away as long as no more than sixteen lengths occur. -/
  places : ((usable packets).map List.length).toFinset.card ≤ 16 → ∀ f, Label.turnedAway f ∉ history run
  /-- There is always room for the next read. -/
  room : s.linkIn.length < linkInSize

theorem waiting_le_encode : waiting p ≤ p.encode.length := by
  rw [Packet.length_encode]
  unfold waiting
  split <;> omega

theorem waiting_lt (h : p.Sound) : waiting p < linkInSize := by
  unfold waiting
  split
  · next hp =>
    have := (h.wellFormed hp).2
    have : 8 + frameMax < linkInSize := by decide
    omega
  · decide

theorem recovers (socket : cfg.cosim = false) {run : List (Event × List Label)} (h : Path (Step cfg) Link.init run s)
    (sound : ∀ p ∈ packets, p.Sound) (stream : received run <+: sent packets) (flushes : FlushesWhole packets run) :
    Recovers cfg packets run s := by
  have known : ∀ p ∈ packets, p.Usable → p.field ∈ ((usable packets).map List.length).toFinset := by
    intro p hp usable
    rw [List.mem_toFinset, (sound p hp).2 usable]
    exact List.mem_map_of_mem (List.mem_map_of_mem (List.mem_filter.mpr ⟨hp, by simpa using usable⟩))
  have whole : ∀ front x back, run = front ++ x :: back →
      FlushesAt ([] ++ packets) ((sent []).length + Link.init.linkIn.length + (received front).length)
        ((sent []).length + Link.init.linkIn.length + (received front).length + x.1.bytes.length) := by
    intro front x back hrun
    have nothing : (sent []).length + Link.init.linkIn.length + (received front).length = (received front).length :=
      Nat.zero_add _
    rw [nothing]
    exact flushes front x back hrun
  obtain ⟨w, done, more, follows, arrived, split, bytes, between, stores⟩ :=
    between_run socket h sound known .init whole stream
  refine ⟨⟨done, ⟨bytes, more, split, ?_⟩, arrived⟩, ⟨w, follows⟩, stores, ?_⟩
  · intro p rest hmore
    exact Nat.lt_of_lt_of_le (between.cut p rest hmore) waiting_le_encode
  · cases more with
    | nil =>
      have longest := stream.length_le
      change received run = sent done ++ s.linkIn at bytes
      rw [split, List.append_nil, bytes, List.length_append] at longest
      have : 0 < linkInSize := by decide
      omega
    | cons p more =>
      have hmem : p ∈ _ := split ▸ List.mem_append_right _ List.mem_cons_self
      exact (between.cut p more rfl).trans (waiting_lt (sound p hmem))

/-- Where every read flushes whole frames only, no usable frame is lost, and what is stored does not depend on the
reads. -/
theorem splitter_recovers (socket : cfg.cosim = false) {run : List (Event × List Label)}
    (h : Path (Step cfg) Link.init run s) (sound : ∀ p ∈ packets, p.Sound) (stream : received run <+: sent packets)
    (flushes : FlushesWhole packets run) :
    Recovers cfg packets run s ∧ ∀ run' t, Path (Step cfg) Link.init run' t → FlushesWhole packets run' →
      received run' = received run → arrivals (history run') = arrivals (history run) := by
  have first := recovers socket h sound stream flushes
  refine ⟨first, fun run' t h' flushes' same ↦ ?_⟩
  obtain ⟨done, whole, arrived⟩ := first.arrived
  obtain ⟨done', whole', arrived'⟩ := (recovers socket h' sound (same ▸ stream) flushes').arrived
  rw [same] at whole'
  rw [arrived, arrived', whole.unique whole']

/-- A frame without a length, and one of one byte. -/
def mixed : List Packet := [⟨0, []⟩, ⟨1, [7]⟩]

/-- Reads, one after the other. -/
def polls : Link → List (List Byte) → List (Event × List Label)
  | _, [] => []
  | s, bytes :: more => (.poll bytes, (s.poll singly bytes).2) :: polls (s.poll singly bytes).1 more

/-- The first frame is read before the second. -/
theorem splitter_recovers_mixed : ∃ run s, Path (Step singly) Link.init run s ∧ received run = sent mixed ∧
    Recovers singly mixed run s := by
  have steps : Path (Step singly) Link.init (polls Link.init (mixed.map Packet.encode)) _ :=
    .cons ⟨⟨by decide, fun h ↦ absurd h (by decide)⟩, rfl⟩
      (.cons ⟨⟨by decide +kernel, fun h ↦ absurd h (by decide)⟩, rfl⟩ .nil)
  have sound : ∀ p ∈ mixed, p.Sound := by
    rintro p (_ | ⟨_, _ | ⟨_, ⟨⟩⟩⟩)
    · exact ⟨by decide, fun h ↦ absurd h.1 (by decide)⟩
    · exact ⟨by decide, fun _ ↦ rfl⟩
  have flushes : FlushesWhole mixed (polls Link.init (mixed.map Packet.encode)) := by
    intro front x back hrun before p after hmixed hp started _
    cases before with
    | cons b before =>
      obtain ⟨-, hmixed⟩ := List.cons.inj hmixed
      cases before with
      | nil =>
        obtain ⟨rfl, -⟩ := List.cons.inj hmixed
        exact absurd (by decide) hp
      | cons c before => exact absurd (List.cons.inj hmixed).2.symm (by simp)
    | nil =>
      obtain ⟨rfl, rfl⟩ := List.cons.inj hmixed
      cases front with
      | nil =>
        obtain ⟨rfl, -⟩ := List.cons.inj hrun
        exact ⟨[⟨0, []⟩], [⟨1, [7]⟩], rfl, fun q hq ↦ List.mem_singleton.mp hq ▸ hp, by decide +kernel⟩
      | cons y front =>
        obtain ⟨rfl, -⟩ := List.cons.inj hrun
        rw [received, List.flatMap_cons, List.length_append] at started
        exact absurd (Nat.lt_of_le_of_lt (Nat.le_add_right _ _) started) (by decide)
  exact ⟨_, _, steps, by decide +kernel, (splitter_recovers rfl steps sound (by decide +kernel) flushes).1⟩

/-- Read together, both are dropped, and the splitter of a read that ends in the second takes nothing any more. -/
theorem splitter_cut_dependent :
    (∃ run s, Path (Step singly) Link.init run s ∧ received run = sent mixed ∧ arrivals (history run) = [[7]]) ∧
    (∃ run s, Path (Step singly) Link.init run s ∧ received run = sent mixed ∧ arrivals (history run) = []) ∧
    ∃ run s, Path (Step singly) Link.init run s ∧ received run = sent (mixed ++ [⟨1, [8]⟩]) ∧
      arrivals (history run) = [] ∧ ∀ bytes, (s.poll singly bytes).2 = [] := by
  refine ⟨⟨polls Link.init [encode [], encode [7]], _,
    .cons ⟨⟨by decide, fun h ↦ absurd h (by decide)⟩, rfl⟩
      (.cons ⟨⟨by decide +kernel, fun h ↦ absurd h (by decide)⟩, rfl⟩ .nil),
    by decide +kernel, by decide +kernel⟩,
    ⟨polls Link.init [encode [] ++ encode [7]], _,
      .cons ⟨⟨by decide, fun h ↦ absurd h (by decide)⟩, rfl⟩ .nil,
      by decide +kernel, by decide +kernel⟩,
    ⟨polls Link.init [encode [] ++ magic, [1, 0, 0, 0, 7] ++ encode [8]], _,
      .cons ⟨⟨by decide, fun h ↦ absurd h (by decide)⟩, rfl⟩
        (.cons ⟨⟨by decide +kernel, fun h ↦ absurd h (by decide)⟩, rfl⟩ .nil),
      by decide +kernel, by decide +kernel, fun bytes ↦ ?_⟩⟩
  refine Link.poll_foreign (?_ : _ = [1, 0, 0, 0, 7] ++ encode [8]) rfl
  decide +kernel

end Cdj2000Emulator.SportLink
