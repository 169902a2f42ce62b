import Cdj2000Emulator.SportLink.Rings

namespace Cdj2000Emulator.SportLink

open Library Library.Bytes Library.Traces Function

variable {cfg : Config} {s t : Link} {w w' : Shelf} {f g : Frame} {frames rest : List Frame} {bytes tail : List Byte}

def stream (frames : List Frame) : List Byte := frames.flatMap encode

theorem length_encode : (encode f).length = 8 + f.length := by
  rw [encode, List.length_append, List.length_append, length_little]
  rfl

section Framing

theorem staged_nil : staged [] = .short := if_pos (Nat.succ_pos 7)

theorem take_drop_of_prefix {a b : ℕ} (h : bytes <+: tail) (hlen : a + b ≤ bytes.length) :
    (bytes.drop a).take b = (tail.drop a).take b := by
  obtain ⟨more, rfl⟩ := h
  rw [List.drop_append_of_le_length (by omega), List.take_append_of_le_length (by rw [List.length_drop]; omega)]

/-- What is found at the head of the bytes of a stream. -/
theorem staged_of_prefix (h : bytes <+: encode f ++ tail) (hf : WellFormed f) :
    staged bytes = if bytes.length < 8 then .short else if bytes.length < 8 + f.length then .cut
      else .frame f (bytes.drop (8 + f.length)) := by
  unfold staged
  by_cases hshort : bytes.length < 8
  · rw [if_pos hshort, if_pos hshort]
  rw [if_neg hshort, if_neg hshort]
  have hmagic : bytes.take 4 = magic := by
    rw [← List.drop_zero (l := bytes), take_drop_of_prefix h (by omega)]
    rfl
  have hlength : value ((bytes.drop 4).take 4) = f.length := by
    rw [ take_drop_of_prefix h (by omega)]
    change value ((little 4 f.length ++ f ++ tail).take 4) = f.length
    rw [List.append_assoc, List.take_left' (length_little 4 _)]
    exact value_little (Nat.lt_of_le_of_lt hf.2 (by decide))
  rw [if_neg (not_not.mpr hmagic), hlength, if_neg (by have := hf.1; have := hf.2; omega)]
  by_cases hcut : bytes.length < 8 + f.length
  · rw [if_pos hcut, if_pos hcut]
  · rw [if_neg hcut, if_neg hcut, take_drop_of_prefix h (by omega)]
    have hbody : (encode f ++ tail).drop 8 = f ++ tail := by
      rw [encode, List.append_assoc, List.drop_left' (by rw [List.length_append, length_little]; rfl)]
    rw [hbody, List.take_left' rfl]

theorem rest_of_prefix (h : bytes <+: encode f ++ tail) (hlen : 8 + f.length ≤ bytes.length) :
    bytes = encode f ++ bytes.drop (8 + f.length) ∧ bytes.drop (8 + f.length) <+: tail := by
  obtain ⟨more, rfl⟩ := List.prefix_of_prefix_length_le (List.prefix_append _ _) h
      (by rw [length_encode]; exact hlen)
  rw [← length_encode, List.drop_left]
  exact ⟨rfl, (List.prefix_append_right_inj _).mp h⟩

theorem staged_encode (hf : WellFormed f) : staged (encode f) = .frame f [] := by
  have h := staged_of_prefix (List.prefix_append (encode f) []) hf
  have hdrop : (encode f).drop (8 + f.length) = [] := by
    rw [← length_encode]
    exact List.drop_length
  rw [if_neg (by rw [length_encode]; omega), if_neg (by rw [length_encode]; omega), hdrop] at h
  exact h

end Framing

/-- Between events less than a frame waits in `link_in`, and nothing has been stored before the first header. -/
structure Settled (cfg : Config) (s : Link) (w : Shelf) (rest : List Frame) : Prop where
  agrees : Agrees cfg s w
  wellFormed : ∀ f ∈ rest, WellFormed f
  cut : ∀ f more, rest = f :: more → s.linkIn.length < 8 + f.length
  unframed : s.framed = false → s.linkIn.length < 8 ∧ ∀ n, w.unread n = []

theorem Settled.init (hframes : ∀ f ∈ frames, WellFormed f) : Settled cfg Link.init Shelf.empty frames where
  agrees := .init
  wellFormed := hframes
  cut f _ _ := Nat.lt_of_lt_of_le (Nat.succ_pos 7) (Nat.le_add_right 8 f.length)
  unframed _ := ⟨Nat.succ_pos 7, fun _ ↦ rfl⟩

namespace Link

theorem splitFrom_short (h : staged bytes = .short) : s.splitFrom cfg bytes = ({ s with linkIn := bytes }, []) := by
  rw [splitFrom]
  split <;> simp_all

theorem splitFrom_cut (h : staged bytes = .cut) :
    s.splitFrom cfg bytes = ({ s with linkIn := bytes, framed := true }, []) := by
  rw [splitFrom]
  split <;> simp_all

theorem splitFrom_frame {tail : List Byte} (h : staged bytes = .frame f tail) : s.splitFrom cfg bytes =
    ((({ s with framed := true }.accept cfg f).1.splitFrom cfg tail).1,
      ({ s with framed := true }.accept cfg f).2 ++
        (({ s with framed := true }.accept cfg f).1.splitFrom cfg tail).2) := by
  rw [splitFrom]
  split <;> simp_all

theorem framed_hear : (s.hear f).framed = s.framed := by
  unfold hear
  split <;> rfl

theorem framed_accept : (s.accept cfg f).1.framed = s.framed := by
  unfold accept
  split
  · exact framed_hear
  · split
    · exact framed_hear
    · rfl

end Link

theorem Agrees.staged (h : Agrees cfg s w) (linkIn : List Byte) (framed : Bool) :
    Agrees cfg { s with linkIn := linkIn, framed := framed } w :=
  ⟨h.ring, h.newest, h.distinct, h.held, h.nodup, h.unheld, h.wire, h.silent⟩

theorem splitFrom_settled (hw : ∀ f ∈ rest, WellFormed f) (hbytes : bytes <+: stream rest) (h : Agrees cfg s w)
    (hun : s.framed = false → ∀ n, w.unread n = []) :
    ∃ w' done more, w.Follows cfg (s.splitFrom cfg bytes).2 w' ∧ arrivals (s.splitFrom cfg bytes).2 = done ∧
      rest = done ++ more ∧ bytes = stream done ++ (s.splitFrom cfg bytes).1.linkIn ∧
      Settled cfg (s.splitFrom cfg bytes).1 w' more := by
  induction rest generalizing bytes s w with
  | nil =>
    obtain rfl : bytes = [] := List.prefix_nil.mp hbytes
    rw [Link.splitFrom_short staged_nil]
    exact ⟨w, [], [], .nil, rfl, rfl, rfl, h.staged _ _, hw, fun _ _ h ↦ absurd h (by simp),
      fun hframed ↦ ⟨Nat.succ_pos 7, hun hframed⟩⟩
  | cons f rest ih =>
    obtain ⟨hf, hrest⟩ := List.forall_mem_cons.mp hw
    have hstaged := staged_of_prefix hbytes hf
    have hlast {linkIn : List Byte} (hcut : linkIn.length < 8 + f.length) (g : Frame) (more : List Frame)
        (he : f :: rest = g :: more) : linkIn.length < 8 + g.length := (List.cons.inj he).1 ▸ hcut
    by_cases hshort : bytes.length < 8
    · rw [if_pos hshort] at hstaged
      rw [Link.splitFrom_short hstaged]
      exact ⟨w, [], f :: rest, .nil, rfl, rfl, rfl, h.staged _ _, hw,
        hlast (Nat.lt_of_lt_of_le hshort (Nat.le_add_right _ _)),
        fun hframed ↦ ⟨hshort, hun hframed⟩⟩
    rw [if_neg hshort] at hstaged
    by_cases hcut : bytes.length < 8 + f.length
    · rw [if_pos hcut] at hstaged
      rw [Link.splitFrom_cut hstaged]
      exact ⟨w, [], f :: rest, .nil, rfl, rfl, rfl, h.staged _ _, hw, hlast hcut,
        fun hframed ↦ absurd hframed (by simp)⟩
    · rw [if_neg hcut] at hstaged
      obtain ⟨hsplit, htail⟩ := rest_of_prefix hbytes (Nat.le_of_not_lt hcut)
      obtain ⟨w₁, hfirst, hagrees, harrived⟩ :=
        (h.staged s.linkIn true).accept (Nat.ne_of_gt hf.1)
      have hframed : ({ s with framed := true }.accept cfg f).1.framed = true := Link.framed_accept
      obtain ⟨w', done, more, hfollows, harrivals, hdone, hsum, hsettled⟩ :=
        ih hrest htail hagrees fun hno ↦ absurd (hframed.symm.trans hno) (by simp)
      rw [Link.splitFrom_frame hstaged]
      refine ⟨w', f :: done, more, hfirst.append hfollows, ?_, congrArg (f :: ·) hdone, ?_, hsettled⟩
      · rw [arrivals_append, harrived, harrivals]
        rfl
      · conv_lhs => rw [hsplit, hsum]
        exact (List.append_assoc _ _ _).symm

theorem Link.frame_take (cfg : Config) (n : ℕ) (s : Link) : (s.take cfg n).1.linkIn = s.linkIn ∧
    (s.take cfg n).1.framed = s.framed := by
  unfold Link.take
  cases s.holder n with
  | none => exact ⟨rfl, rfl⟩
  | some i =>
    dsimp only
    cases (s.slot i).ring.oldest cfg.depth with
    | some entry => exact ⟨rfl, rfl⟩
    | none =>
      dsimp only
      split <;> exact ⟨rfl, rfl⟩

/-- A receive leaves the bytes in `link_in` alone. -/
theorem Agrees.receive {n : ℕ} (h : Agrees cfg s w) (unframed : s.framed = false → s.linkIn.length < 8 ∧ ∀ n,
    w.unread n = [])
    (hpos : n ≠ 0) (hn : s.framed = false → 8 ≤ n) :
    ∃ w', w.Follows cfg (s.receive cfg n).2 w' ∧ arrivals (s.receive cfg n).2 = [] ∧
      Agrees cfg (s.receive cfg n).1 w' ∧ (s.receive cfg n).1.linkIn = s.linkIn ∧
      ((s.receive cfg n).1.framed = false → s.linkIn.length < 8 ∧ ∀ n, w'.unread n = []) := by
  cases hframed : s.framed with
  | false =>
    obtain ⟨hshort, hnone⟩ := unframed hframed
    have hanswer : s.answer cfg n = (s, none) := by
      unfold Link.answer
      rw [hframed, if_neg Bool.false_ne_true, if_neg (Nat.not_le_of_lt (Nat.lt_of_lt_of_le hshort (hn hframed)))]
    have hhandle : s.receive cfg n = (s, [.refused n]) := by
      unfold Link.receive
      rw [hanswer]
      rfl
    rw [hhandle]
    exact ⟨w, .single (.refused (hnone n)), rfl, h, rfl, unframed⟩
  | true =>
    obtain ⟨w', htakes, hagrees⟩ := h.take hpos
    obtain ⟨hlink, hkept⟩ := Link.frame_take cfg n s
    have hanswer : s.answer cfg n = s.take cfg n := if_pos hframed
    have hhandle : s.receive cfg n = ((s.take cfg n).1, [Link.outcome true n (s.take cfg n).2]) := by
      unfold Link.receive
      rw [hanswer, hframed]
    have harrivals : arrivals [Link.outcome true n (s.take cfg n).2] = [] := by
      unfold Link.outcome
      split
      · rfl
      · split_ifs <;> rfl
    rw [hhandle]
    refine ⟨w', .single htakes, harrivals, hagrees, hlink, fun hno ↦ ?_⟩
    exact absurd (hkept.symm.trans hno) (by rw [hframed]; exact Bool.noConfusion)

theorem handle_settled {e : Event} (hs : Settled cfg s w rest) (hcosim : cfg.cosim = true → s.linkIn = [])
    (ha : e.Allowed cfg s) (hb : s.linkIn ++ e.bytes <+: stream rest) :
    ∃ w' done more, w.Follows cfg (e.handle cfg s).2 w' ∧ arrivals (e.handle cfg s).2 = done ∧
      rest = done ++ more ∧
      s.linkIn ++ e.bytes = stream done ++ (e.handle cfg s).1.linkIn ∧ Settled cfg (e.handle cfg s).1 w' more ∧
      (cfg.cosim = true → (e.handle cfg s).1.linkIn = []) := by
  cases e with
  | poll bytes =>
    obtain ⟨w', done, more, hfollows, harrivals, hdone, hsum, hsettled⟩ :=
      splitFrom_settled hs.wellFormed hb (hs.agrees.staged (s.linkIn ++ bytes) s.framed) fun h ↦ (hs.unframed h).2
    refine ⟨w', done, more, hfollows, harrivals, hdone, hsum, hsettled, fun hc ↦ ?_⟩
    have hempty : s.linkIn ++ bytes = [] := by rw [hcosim hc, ha.2 hc, List.append_nil]
    exact (List.append_eq_nil_iff.mp (hsum.symm.trans hempty)).2
  | inject f =>
    obtain ⟨hc, hf⟩ := ha
    have hempty := hcosim hc
    have hroom : ¬linkInSize < s.linkIn.length + (8 + f.length) := by
      have hmax : 8 + frameMax ≤ linkInSize := by decide
      have := hf.2
      rw [hempty, List.length_nil]
      omega
    have hhandle : s.inject cfg f = (({ s with linkIn := s.linkIn ++ encode f }.split cfg).1,
        [] ++ ({ s with linkIn := s.linkIn ++ encode f }.split cfg).2) := by
      unfold Link.inject
      rw [if_neg hroom]
      exact if_neg hroom
    obtain ⟨w', done, more, hfollows, harrivals, hdone, hsum, hsettled⟩ :=
      splitFrom_settled hs.wellFormed hb (hs.agrees.staged (s.linkIn ++ encode f) s.framed) fun h ↦ (hs.unframed h).2
    change ∃ w' done more, w.Follows cfg (s.inject cfg f).2 w' ∧ arrivals (s.inject cfg f).2 = done ∧ _ ∧
      _ = stream done ++ (s.inject cfg f).1.linkIn ∧ Settled cfg (s.inject cfg f).1 w' more ∧
      (_ → (s.inject cfg f).1.linkIn = [])
    rw [hhandle, List.nil_append]
    refine ⟨w', done, more, hfollows, harrivals, hdone, hsum, hsettled, fun _ ↦ ?_⟩
    unfold Link.split
    rw [hempty, List.nil_append, Link.splitFrom_frame (staged_encode hf), Link.splitFrom_short staged_nil]
  | receive n =>
    obtain ⟨w', hfollows, harrivals, hagrees, hlink, hunframed⟩ := hs.agrees.receive hs.unframed ha.1 ha.2
    change ∃ w' done more, w.Follows cfg (s.receive cfg n).2 w' ∧ arrivals (s.receive cfg n).2 = done ∧ _ ∧
      _ = stream done ++ (s.receive cfg n).1.linkIn ∧ Settled cfg (s.receive cfg n).1 w' more ∧
      (_ → (s.receive cfg n).1.linkIn = [])
    refine ⟨w', [], rest, hfollows, harrivals, rfl, ?_, ⟨hagrees, hs.wellFormed, ?_, ?_⟩, ?_⟩
    · rw [hlink]
      exact List.append_nil _
    · rw [hlink]
      exact hs.cut
    · rw [hlink]
      exact hunframed
    · rw [hlink]
      exact hcosim

section Runs

variable {run : List (Event × List Label)}

def received (run : List (Event × List Label)) : List Byte := run.flatMap (·.1.bytes)

def history (run : List (Event × List Label)) : List Label := run.flatMap (·.2)

theorem run_settled (h : Path (Step cfg) s run t) (hs : Settled cfg s w rest)
    (hcosim : cfg.cosim = true → s.linkIn = []) (hb : s.linkIn ++ received run <+: stream rest) :
    ∃ w' done more, w.Follows cfg (history run) w' ∧ arrivals (history run) = done ∧ rest = done ++ more ∧
      s.linkIn ++ received run = stream done ++ t.linkIn ∧ Settled cfg t w' more := by
  induction h generalizing w rest with
  | nil => exact ⟨w, [], rest, .nil, rfl, rfl, List.append_nil _, hs⟩
  | @cons s t u x run hstep _ ih =>
    obtain ⟨hallowed, hhandle⟩ := hstep
    have hbytes : s.linkIn ++ received (x :: run) = s.linkIn ++ x.1.bytes ++ received run :=
      (List.append_assoc _ _ _).symm
    rw [hbytes] at hb ⊢
    obtain ⟨w₁, done, more, hfirst, harrived, rfl, hsum, hsettled, hempty⟩ :=
      handle_settled hs hcosim hallowed ((List.prefix_append _ _).trans hb)
    rw [hhandle] at hfirst harrived hsum hsettled hempty
    have hmore : t.linkIn ++ received run <+: stream more := by
      have hstream : stream (done ++ more) = stream done ++ stream more := List.flatMap_append
      rw [hsum, List.append_assoc, hstream] at hb
      exact (List.prefix_append_right_inj _).mp hb
    obtain ⟨w', done', more', hfollows, harrivals, rfl, hsum', hsettled'⟩ := ih hsettled hempty hmore
    refine ⟨w', done ++ done', more', hfirst.append hfollows, ?_, (List.append_assoc _ _ _).symm, ?_, hsettled'⟩
    · have hhistory : history (x :: run) = x.2 ++ history run := rfl
      rw [hhistory, arrivals_append, harrived, harrivals]
    · have hstream : stream (done ++ done') = stream done ++ stream done' := List.flatMap_append
      rw [hsum, hstream, List.append_assoc, hsum', List.append_assoc]

/-- What becomes of the frames of a stream in a run. -/
structure Delivers (cfg : Config) (frames : List Frame) (run : List (Event × List Label)) (s : Link) : Prop where
  /-- The frames arrive in order, all that have come in whole. -/
  arrived : ∃ more, frames = arrivals (history run) ++ more ∧
    received run = stream (arrivals (history run)) ++ s.linkIn ∧
    ∀ f rest, more = f :: rest → s.linkIn.length < 8 + f.length
  /-- They are kept, handed over and lost as on the shelf. -/
  follows : ∃ w, Shelf.empty.Follows cfg (history run) w
  /-- The fresh hand-overs of one length are different arrivals, in the order of arrival. -/
  fresh : ∀ n, (freshOf (history run) n).Sublist ((arrivals (history run)).filter (·.length = n))

/-- In every run the rings keep the frames of the stream, however it is cut into reads. -/
theorem frame_rings (h : Path (Step cfg) Link.init run s) (hframes : ∀ f ∈ frames, WellFormed f)
    (hstream : received run <+: stream frames) : Delivers cfg frames run s := by
  obtain ⟨w, done, more, hfollows, rfl, hdone, hsum, hend⟩ := run_settled h (.init hframes) (fun _ ↦ rfl) hstream
  exact ⟨⟨more, hdone, hsum, hend.cut⟩, ⟨w, hfollows⟩, hfollows.fresh_sublist⟩

/-- One frame of each length is kept. -/
def singly : Config where
  depth := 1
  depth_pos := by decide
  depth_le := by decide
  repeatAnnounced := true
  freshOnly := false
  cosim := false

/-- A status record that comes in two pieces and is asked for. -/
theorem frame_rings_record : ∃ run s, Path (Step singly) Link.init run s ∧
    received run = encode (List.replicate 64 1) ∧ Delivers singly [List.replicate 64 1] run s := by
  have hfirst : Link.init.poll singly ((encode (List.replicate 64 1)).take 5) =
      ({ Link.init with linkIn := (encode (List.replicate 64 1)).take 5 }, []) :=
    Link.splitFrom_short (if_pos (by decide : ((encode (List.replicate 64 1)).take 5).length < 8))
  have hrun : Path (Step singly) Link.init
      [(.poll ((encode (List.replicate 64 1)).take 5), _), (.poll ((encode (List.replicate 64 1)).drop 5), _),
        (.receive 64, _)] _ :=
    .cons ⟨⟨by decide, fun h ↦ absurd h (by decide)⟩, hfirst⟩
      (.cons ⟨⟨by decide, fun h ↦ absurd h (by decide)⟩, rfl⟩
        (.cons ⟨⟨by decide, fun _ ↦ by decide⟩, rfl⟩ .nil))
  have hframes : ∀ f ∈ [List.replicate 64 (1 : Byte)], WellFormed f := by
    intro f hf
    rw [List.mem_singleton.mp hf]
    exact ⟨by decide, by decide⟩
  have hwhole : stream [List.replicate 64 1] = encode (List.replicate 64 1) := List.append_nil _
  refine ⟨_, _, hrun, by decide, frame_rings hrun hframes ?_⟩
  rw [hwhole]
  exact ⟨[], by decide⟩

end Runs

end Cdj2000Emulator.SportLink
