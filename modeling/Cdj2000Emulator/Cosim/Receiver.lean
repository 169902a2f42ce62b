import Cdj2000Emulator.Cosim.Wire
import Cdj2000Emulator.Library.StableOrder

namespace Cdj2000Emulator.Cosim.Receiver

open Library.Bytes Library.StableOrder Wire

/-- `CosimDue`, `NetDue` and `struct bfin_cosim_due`: what reaches the board, and when. -/
structure Due where
  due : ℤ
  data : List Byte
  deriving DecidableEq

/-- Where the three receivers differ. -/
structure Kind where
  payloadMax : ℕ
  carries : Byte
  enqueue : Due → List Due → List Due
  promises : Message → Option ℤ
  malformed : String

def timePromise (m : Message) : Option ℤ :=
  if m.type = 1 ∧ m.payload.length = 8 then some (ldq m.payload) else none

def cosim : Kind where
  payloadMax := 8192
  carries := 3
  enqueue d queue := queue ++ [d]
  promises m := some ((timePromise m).getD m.time)
  malformed := "a malformed message from the GUI"

def netsim : Kind where
  payloadMax := 2048
  carries := 5
  enqueue := insertBehind Due.due
  promises := timePromise
  malformed := "a malformed message from the hub"

def bfin : Kind where
  payloadMax := 8192
  carries := 2
  enqueue d queue := queue ++ [d]
  promises m := some ((timePromise m).getD m.time)
  malformed := "a malformed message from MAIN"

/-- The receiving side of the link: its input buffer, the bytes still on the wire, and what the
messages so far say. -/
structure Inbox where
  input : List Byte
  unread : List Byte
  due : List Due
  peer : ℤ
  peerPromise : ℤ
  lost : Option String
  deriving DecidableEq

variable (k : Kind) (q : ℤ)

namespace Kind

def Carries (m : Message) : Prop := m.type = k.carries ∧ m.payload ≠ []

instance (m : Message) : Decidable (k.Carries m) := instDecidableAnd

/-- The size of the input buffer. -/
def capacity : ℕ := headerLength + k.payloadMax + 65536

end Kind

namespace Inbox

variable (i : Inbox)

/-- `cosim_lost`, as far as the receiver goes. -/
def lose (why : String) : Inbox :=
  if i.lost.isSome then i else { i with lost := some why, due := [] }

def accept (m : Message) : Inbox :=
  let i := if k.Carries m then { i with due := k.enqueue ⟨m.time + q, m.payload⟩ i.due } else i
  let i := if i.peer < m.time then { i with peer := m.time } else i
  match k.promises m with
  | none => i
  | some promise => if i.peerPromise < promise then { i with peerPromise := promise } else i

/-- The loop of `cosim_parse`, at most `n` messages long. -/
def parseLoop : ℕ → Inbox → Inbox
  | 0, i => i
  | n + 1, i =>
    if i.lost.isSome then i
    else
      match front k.payloadMax i.input with
      | .more => i
      | .malformed => i.lose k.malformed
      | .message m rest => parseLoop n ({ i with input := rest }.accept k q m)

/-- `cosim_parse`, `netsim_parse`, `bfin_cosim_parse`. -/
def parse : Inbox := parseLoop k q i.input.length i

/-- One `recv` of at most `n` bytes, after a look for room. -/
def fill (n : ℕ) : Inbox :=
  if i.lost.isSome then i
  else
    let i := if i.input.length = k.capacity then i.parse k q else i
    if i.input.length = k.capacity then i.lose "a message larger than the input buffer"
    else
      let got := min n (k.capacity - i.input.length)
      { i with input := i.input ++ i.unread.take got, unread := i.unread.drop got }

/-- `cosim_drain`, `netsim_drain`, `bfin_cosim_drain`: the stream is read as the host has it. -/
def drain (reads : List ℕ) : Inbox := (reads.foldl (fill k q) i).parse k q

end Inbox

section Messages

def dueOf (m : Message) : Due := ⟨m.time + q, m.payload⟩

def carried (messages : List Message) : List Message := messages.filter fun m ↦ k.Carries m

def queued (messages : List Message) (queue : List Due) : List Due :=
  (carried k messages).foldl (fun queue m ↦ k.enqueue (dueOf q m) queue) queue

/-- The largest promise of the messages, from `promise` on. -/
def largest (promise : ℤ) (messages : List Message) : ℤ :=
  (messages.filterMap k.promises).foldl max promise

/-- The peer's messages: each fits the wire, and none for the board is stamped below an earlier
promise, nor below 0, where both boards begin. -/
structure Conforms (messages : List Message) : Prop where
  fits : ∀ m ∈ messages, m.Fits k.payloadMax
  kept : messages.Pairwise fun a b ↦ k.Carries b → ∀ promise ∈ k.promises a, promise ≤ b.time
  start : ∀ m ∈ messages, k.Carries m → 0 ≤ m.time
  /-- A time plus the latency is still one of 64 bits. -/
  inside : ∀ m ∈ messages, m.time + q < 2 ^ 63 ∧ ∀ promise ∈ k.promises m, promise + q < 2 ^ 63

variable {k q} {messages : List Message}

theorem carried_append (a b : List Message) : carried k (a ++ b) = carried k a ++ carried k b :=
  List.filter_append ..

theorem queued_append (a b : List Message) (queue : List Due) :
    queued k q (a ++ b) queue = queued k q b (queued k q a queue) := by
  rw [queued, carried_append, List.foldl_append]
  rfl

theorem largest_append (promise : ℤ) (a b : List Message) :
    largest k promise (a ++ b) = largest k (largest k promise a) b := by
  rw [largest, List.filterMap_append, List.foldl_append]
  rfl

theorem le_foldl_max (promises : List ℤ) (p : ℤ) :
    p ≤ promises.foldl max p ∧ ∀ x ∈ promises, x ≤ promises.foldl max p := by
  induction promises generalizing p with
  | nil => simp
  | cons x promises ih =>
    obtain ⟨h1, h2⟩ := ih (max p x)
    rw [List.foldl_cons]
    refine ⟨(le_max_left p x).trans h1, ?_⟩
    intro y hy
    rcases List.mem_cons.mp hy with rfl | hy
    · exact (le_max_right p y).trans h1
    · exact h2 y hy

theorem le_largest (promise : ℤ) (messages : List Message) : promise ≤ largest k promise messages :=
  (le_foldl_max _ promise).1

/-- Later messages keep every promise so far. -/
theorem Conforms.largest_le {handled rest : List Message} (h : Conforms k q (handled ++ rest))
    {m : Message} (hm : m ∈ rest) (hc : k.Carries m) : largest k 0 handled ≤ m.time := by
  have hkept := (List.pairwise_append.mp h.kept).2.2
  have hall : ∀ p ∈ handled.filterMap k.promises, p ≤ m.time := by
    intro p hp
    obtain ⟨a, ha, hap⟩ := List.mem_filterMap.mp hp
    exact hkept a ha m hm hc p hap
  have hstart : 0 ≤ m.time := h.start m (List.mem_append_right _ hm) hc
  unfold largest
  generalize handled.filterMap k.promises = promises at hall
  generalize (0 : ℤ) = p at hstart
  induction promises generalizing p with
  | nil => exact hstart
  | cons x promises ih =>
    exact ih (fun y hy ↦ hall y (by simp [hy])) _ (max_le hstart (hall x (by simp)))

end Messages

section Reading

variable {k q} {messages handled rest : List Message} {i : Inbox}

/-- The inbox has taken in `handled` of the peer's messages, and `rest` is to come. -/
structure Reads (k : Kind) (handled rest : List Message) (i : Inbox) : Prop where
  bytes : i.input ++ i.unread = rest.flatMap Message.encode
  open' : i.lost = none
  promise : i.peerPromise = largest k 0 handled

theorem accept_fields (i : Inbox) (m : Message) :
    (i.accept k q m).input = i.input ∧ (i.accept k q m).unread = i.unread ∧
      (i.accept k q m).lost = i.lost ∧ (i.accept k q m).due = queued k q [m] i.due ∧
      (i.accept k q m).peerPromise = largest k i.peerPromise [m] := by
  unfold Inbox.accept queued carried largest
  by_cases hc : k.Carries m
  · rw [if_pos hc, List.filter_cons_of_pos (by simpa using hc)]
    cases hp : k.promises m with
    | none =>
      dsimp only
      simp only [List.filterMap_cons, hp]
      split_ifs <;> exact ⟨rfl, rfl, rfl, rfl, rfl⟩
    | some p =>
      dsimp only
      simp only [List.filterMap_cons, hp, List.filterMap_nil, List.foldl_cons, List.foldl_nil]
      split_ifs <;> refine ⟨rfl, rfl, rfl, rfl, ?_⟩ <;> simp_all <;> omega
  · rw [if_neg hc, List.filter_cons_of_neg (by simpa using hc)]
    cases hp : k.promises m with
    | none =>
      dsimp only
      simp only [List.filterMap_cons, hp]
      split_ifs <;> exact ⟨rfl, rfl, rfl, rfl, rfl⟩
    | some p =>
      dsimp only
      simp only [List.filterMap_cons, hp, List.filterMap_nil, List.foldl_cons, List.foldl_nil]
      split_ifs <;> refine ⟨rfl, rfl, rfl, rfl, ?_⟩ <;> simp_all <;> omega

def Short (later : List Message) (i : Inbox) : Prop :=
  i.input = [] ∨ ∃ m ∈ later, i.input.length < m.encode.length

theorem parseLoop_reads (hmax : k.payloadMax < 2 ^ 32) (n : ℕ) (hn : i.input.length ≤ n)
    (h : Reads k handled rest i) (hfits : ∀ m ∈ rest, m.Fits k.payloadMax) :
    ∃ new later, rest = new ++ later ∧ Reads k (handled ++ new) later (i.parseLoop k q n) ∧
      (i.parseLoop k q n).due = queued k q new i.due ∧ Short later (i.parseLoop k q n) := by
  induction n generalizing i handled rest with
  | zero =>
    have hempty : i.input = [] := List.eq_nil_of_length_eq_zero (by omega)
    refine ⟨[], rest, rfl, ?_, rfl, .inl hempty⟩
    rwa [List.append_nil]
  | succ n ih =>
    rw [Inbox.parseLoop, if_neg (by rw [h.open']; simp)]
    have hstay : ∀ r, front k.payloadMax i.input = .more → Short rest i → r = i →
        ∃ new later, rest = new ++ later ∧ Reads k (handled ++ new) later r ∧
          r.due = queued k q new i.due ∧ Short later r := by
      rintro r - hshort rfl
      refine ⟨[], rest, rfl, ?_, rfl, hshort⟩
      rwa [List.append_nil]
    cases rest with
    | nil =>
      have hempty : i.input = [] := (List.append_eq_nil_iff.mp h.bytes).1
      have hmore : front k.payloadMax i.input = .more := by
        rw [hempty]
        rfl
      rw [hmore]
      exact hstay i hmore (.inl hempty) rfl
    | cons m rest =>
      have hm := hfits m (by simp)
      have hfront := front_encode hm hmax h.bytes
      by_cases hlt : i.input.length < m.encode.length
      · rw [if_pos hlt] at hfront
        rw [hfront]
        exact hstay i hfront (.inr ⟨m, by simp, hlt⟩) rfl
      · rw [if_neg hlt] at hfront
        obtain ⟨e, hfront, hbytes, hlen⟩ := hfront
        rw [hfront]
        obtain ⟨h1, h2, h3, h4, h5⟩ := accept_fields (k := k) (q := q) { i with input := e } m
        have hpos : 0 < m.encode.length := by
          rw [length_encode, headerLength]
          omega
        have hnext : Reads k (handled ++ [m]) rest ({ i with input := e }.accept k q m) :=
          ⟨by rw [h1, h2]; exact hbytes, h3.trans h.open', by rw [h5, largest_append, ← h.promise]⟩
        have hshorter : ({ i with input := e }.accept k q m).input.length ≤ n := by
          rw [h1]
          dsimp only
          omega
        obtain ⟨new, later, hrest, hreads, hdue, hshort⟩ :=
          ih hshorter hnext fun m' hm' ↦ hfits m' (by simp [hm'])
        refine ⟨m :: new, later, by rw [hrest]; rfl, ?_, ?_, hshort⟩
        · rwa [List.append_assoc] at hreads
        · rw [hdue, h4, ← queued_append]
          rfl

theorem parse_reads (hmax : k.payloadMax < 2 ^ 32) (h : Reads k handled rest i)
    (hfits : ∀ m ∈ rest, m.Fits k.payloadMax) :
    ∃ new later, rest = new ++ later ∧ Reads k (handled ++ new) later (i.parse k q) ∧
      (i.parse k q).due = queued k q new i.due ∧ Short later (i.parse k q) :=
  parseLoop_reads hmax _ le_rfl h hfits

theorem fill_reads (hmax : k.payloadMax < 2 ^ 32) (n : ℕ) (h : Reads k handled rest i)
    (hfits : ∀ m ∈ rest, m.Fits k.payloadMax) :
    ∃ new later, rest = new ++ later ∧ Reads k (handled ++ new) later (i.fill k q n) ∧
      (i.fill k q n).due = queued k q new i.due := by
  obtain ⟨j, hj⟩ : ∃ j, j = if i.input.length = k.capacity then i.parse k q else i := ⟨_, rfl⟩
  have hroom : ∃ new later, rest = new ++ later ∧ Reads k (handled ++ new) later j ∧
      j.due = queued k q new i.due ∧ j.input.length ≠ k.capacity := by
    by_cases hfull : i.input.length = k.capacity
    · rw [if_pos hfull] at hj
      obtain ⟨new, later, hrest, hreads, hdue, hshort⟩ := parse_reads (q := q) hmax h hfits
      refine ⟨new, later, hrest, hj ▸ hreads, hj ▸ hdue, ?_⟩
      rw [hj]
      unfold Kind.capacity headerLength
      rcases hshort with hempty | ⟨m, hm, hlt⟩
      · rw [hempty]
        simp
      · have hpayload := (hfits m (by rw [hrest]; simp [hm])).2
        rw [length_encode, headerLength] at hlt
        omega
    · rw [if_neg hfull] at hj
      refine ⟨[], rest, rfl, ?_, hj ▸ rfl, hj ▸ hfull⟩
      rwa [List.append_nil, hj]
  obtain ⟨new, later, hrest, hreads, hdue, hlen⟩ := hroom
  have hfill : i.fill k q n = { j with
      input := j.input ++ j.unread.take (min n (k.capacity - j.input.length))
      unread := j.unread.drop (min n (k.capacity - j.input.length)) } := by
    rw [Inbox.fill, if_neg (by rw [h.open']; simp), ← hj, if_neg hlen]
  rw [hfill]
  refine ⟨new, later, hrest, ⟨?_, hreads.open', hreads.promise⟩, hdue⟩
  rw [List.append_assoc, List.take_append_drop, hreads.bytes]

/-- However the stream is cut into reads, a drain takes in some more of the messages. -/
theorem drain_reads (hmax : k.payloadMax < 2 ^ 32) (reads : List ℕ) (h : Reads k handled rest i)
    (hfits : ∀ m ∈ rest, m.Fits k.payloadMax) :
    ∃ new later, rest = new ++ later ∧ Reads k (handled ++ new) later (i.drain k q reads) ∧
      (i.drain k q reads).due = queued k q new i.due := by
  induction reads generalizing i handled rest with
  | nil =>
    obtain ⟨new, later, h1, h2, h3, -⟩ := parse_reads (q := q) hmax h hfits
    exact ⟨new, later, h1, h2, h3⟩
  | cons n reads ih =>
    obtain ⟨new, later, hrest, hreads, hdue⟩ := fill_reads (q := q) hmax n h hfits
    obtain ⟨new', later', hlater, hreads', hdue'⟩ := ih hreads fun m hm ↦
      hfits m (by rw [hrest]; simp [hm])
    refine ⟨new ++ new', later', by rw [hrest, hlater, List.append_assoc], ?_, ?_⟩
    · rwa [List.append_assoc] at hreads'
    · rw [queued_append, ← hdue]
      exact hdue'

end Reading

section Order

variable {k q} {messages handled new later : List Message} {queue : List Due}

/-- The two ways of queueing that keep the queue in order: behind its equals, or at the end where
a message promises its own time. -/
structure Orderly (k : Kind) : Prop where
  small : k.payloadMax < 2 ^ 32
  behind : (∀ d queue, k.enqueue d queue = insertBehind Due.due d queue) ∨
    (∀ d queue, k.enqueue d queue = queue ++ [d]) ∧ ∀ m, k.Carries m → k.promises m = some m.time

theorem timePromise_of_carries {m : Message} (h : m.type ≠ 1) : timePromise m = none :=
  if_neg fun hm ↦ h hm.1

theorem orderly_cosim : Orderly cosim where
  small := by decide
  behind := by
    refine .inr ⟨fun _ _ ↦ rfl, fun m hm ↦ ?_⟩
    have htype : m.type ≠ 1 := by
      rw [hm.1]
      decide
    exact congrArg (fun p ↦ some (Option.getD p m.time)) (timePromise_of_carries htype)

theorem orderly_netsim : Orderly netsim where
  small := by decide
  behind := .inl fun _ _ ↦ rfl

theorem orderly_bfin : Orderly bfin where
  small := by decide
  behind := by
    refine .inr ⟨fun _ _ ↦ rfl, fun m hm ↦ ?_⟩
    have htype : m.type ≠ 1 := by
      rw [hm.1]
      decide
    exact congrArg (fun p ↦ some (Option.getD p m.time)) (timePromise_of_carries htype)

def Bounded (k : Kind) (q promise : ℤ) (queue : List Due) : Prop :=
  (∀ d queue, k.enqueue d queue = insertBehind Due.due d queue) ∨
    ∀ d ∈ queue, d.due ≤ promise + q

theorem queued_behind (hk : Orderly k) (h : Conforms k q (handled ++ (new ++ later)))
    (hbound : Bounded k q (largest k 0 handled) queue) :
    queued k q new queue = ((carried k new).map (dueOf q)).foldl
        (fun queue d ↦ insertBehind Due.due d queue) queue ∧
      Bounded k q (largest k 0 (handled ++ new)) (queued k q new queue) := by
  induction new generalizing handled queue with
  | nil => exact ⟨rfl, by rwa [List.append_nil]⟩
  | cons m new ih =>
    have hassoc : handled ++ (m :: new ++ later) = handled ++ [m] ++ (new ++ later) := by simp
    have hgrow : largest k 0 handled ≤ largest k 0 (handled ++ [m]) := by
      rw [largest_append]
      exact le_largest _ _
    have hstep : queued k q [m] queue =
          ((carried k [m]).map (dueOf q)).foldl (fun queue d ↦ insertBehind Due.due d queue) queue ∧
        Bounded k q (largest k 0 (handled ++ [m])) (queued k q [m] queue) := by
      unfold queued carried
      by_cases hc : k.Carries m
      · rw [List.filter_cons_of_pos (by simpa using hc)]
        have hkeeps := h.largest_le (m := m) (by simp) hc
        have hqueue : (∀ d queue, k.enqueue d queue = insertBehind Due.due d queue) ∨
            (∀ d ∈ queue, d.due ≤ m.time + q) ∧ (∀ d queue, k.enqueue d queue = queue ++ [d]) ∧
              k.promises m = some m.time := by
          rcases hbound with hb | hb
          · exact .inl hb
          · refine hk.behind.imp_right fun ⟨happend, hpromise⟩ ↦ ⟨?_, happend, hpromise m hc⟩
            intro d hd
            have := hb d hd
            omega
        rcases hqueue with hbehind | ⟨hqueue, happend, hpromise⟩
        · exact ⟨hbehind _ _, .inl hbehind⟩
        · have hstamp : m.time ≤ largest k 0 (handled ++ [m]) := by
            rw [largest_append]
            refine (le_foldl_max _ _).2 m.time ?_
            simp [hpromise]
          refine ⟨(happend _ _).trans (insertBehind_of_le hqueue).symm, .inr ?_⟩
          intro d hd
          rw [List.foldl_cons, List.filter_nil, List.foldl_nil, happend] at hd
          rcases List.mem_append.mp hd with hd | hd
          · have := hqueue d hd
            omega
          · obtain rfl := List.mem_singleton.mp hd
            change m.time + q ≤ _
            omega
      · rw [List.filter_cons_of_neg (by simpa using hc)]
        refine ⟨rfl, hbound.imp_right fun hb d hd ↦ ?_⟩
        have := hb d hd
        omega
    obtain ⟨hone, hbound'⟩ := hstep
    obtain ⟨hrest, hbound''⟩ := ih (hassoc ▸ h) hbound'
    have hcons : queued k q (m :: new) queue = queued k q new (queued k q [m] queue) :=
      queued_append [m] new queue
    refine ⟨?_, ?_⟩
    · rw [hcons, hrest, hone, ← List.foldl_append, ← List.map_append, ← carried_append]
      rfl
    · rw [hcons]
      rwa [List.append_assoc] at hbound''

theorem order_queued (hk : Orderly k) (h : Conforms k q (handled ++ (new ++ later)))
    (hbound : Bounded k q (largest k 0 handled) queue) {done : List Due}
    (horder : StableSort Due.due ((carried k handled).map (dueOf q)) (done ++ queue))
    (hdone : ∀ d ∈ done, d.due ≤ largest k 0 handled + q) :
    StableSort Due.due ((carried k (handled ++ new)).map (dueOf q))
        (done ++ queued k q new queue) ∧
      ∀ d ∈ queued k q new queue, d ∈ queue ∨ largest k 0 handled + q ≤ d.due := by
  have hnew : ∀ d ∈ (carried k new).map (dueOf q), largest k 0 handled + q ≤ d.due := by
    intro d hd
    obtain ⟨m, hm, rfl⟩ := List.mem_map.mp hd
    have hm' := List.mem_filter.mp hm
    have hkeeps := h.largest_le (List.mem_append_left _ hm'.1) (by simpa using hm'.2)
    change _ ≤ m.time + q
    omega
  rw [(queued_behind hk h hbound).1]
  refine ⟨?_, ?_⟩
  · rw [carried_append, List.map_append]
    exact horder.insertAll _ fun x hx y hy ↦ (hdone y hy).trans (hnew x hx)
  · intro d hd
    rcases mem_foldl_insertBehind.mp hd with hd | hd
    · exact .inr (hnew d hd)
    · exact .inl hd

end Order

end Cdj2000Emulator.Cosim.Receiver
