import Mathlib.Data.List.Basic

namespace Cdj2000Emulator.Library.Framing

variable {α β σ : Type*}

/-- What a reader does at the head of its buffer. -/
inductive Verdict
  /-- The buffer could still become a frame. -/
  | wait
  /-- One element is no part of a frame. -/
  | pass
  | frame (n : ℕ)
deriving DecidableEq

/-- A decision that takes only what is in the buffer. -/
structure Look (α : Type*) where
  verdict : List α → Verdict
  nil : verdict [] = .wait
  fits : ∀ {b n}, verdict b = .frame n → 0 < n ∧ n ≤ b.length

/-- A part of a stream. -/
inductive Item (α : Type*)
  | loose (a : α)
  | frame (f : List α)
deriving DecidableEq

def Item.content : Item α → List α
  | .loose a => [a]
  | .frame f => f

/-- What has come out of a buffer and what is left of it. -/
@[ext] structure Scanned (σ α β : Type*) where
  state : σ
  out : List β
  rest : List α

variable (look : Look α) (emit : σ → Item α → σ × List β)

/-- The loop over a buffer, one part of it each time. -/
@[simp] def scanFuel : ℕ → σ → List α → Scanned σ α β
  | 0, s, b => ⟨s, [], b⟩
  | fuel + 1, s, b =>
    match look.verdict b, b with
    | .wait, b => ⟨s, [], b⟩
    | .pass, [] => ⟨s, [], []⟩
    | .pass, a :: b =>
      let first := emit s (.loose a)
      let last := scanFuel fuel first.1 b
      ⟨last.state, first.2 ++ last.out, last.rest⟩
    | .frame n, b =>
      let first := emit s (.frame (b.take n))
      let last := scanFuel fuel first.1 (b.drop n)
      ⟨last.state, first.2 ++ last.out, last.rest⟩

/-- Every part takes at least one element. -/
def scan (s : σ) (b : List α) : Scanned σ α β := scanFuel look emit b.length s b

/-- The parts of a stream one after the other. -/
def run : σ → List (Item α) → σ × List β
  | s, [] => (s, [])
  | s, item :: items =>
    let first := emit s item
    let last := run first.1 items
    (last.1, first.2 ++ last.2)

/-- The parts of a stream. -/
def items (b : List α) : List (Item α) := (scan look (fun _ item ↦ ((), [item])) () b).out

/-- What waits at a stream's end. -/
def held (b : List α) : List α := (scan look (fun _ item ↦ ((), [item])) () b).rest

variable {look emit}

theorem Look.cons_of_pass {b : List α} (h : look.verdict b = .pass) : ∃ a t, b = a :: t := by
  cases b with
  | nil => cases look.nil.symm.trans h
  | cons a t => exact ⟨a, t, rfl⟩

/-- Buffers are taken apart as the loop does it. -/
theorem Look.induct {motive : List α → Prop} (look : Look α)
    (wait : ∀ b, look.verdict b = .wait → motive b)
    (pass : ∀ a b, look.verdict (a :: b) = .pass → motive b → motive (a :: b))
    (frame : ∀ b n, look.verdict b = .frame n → motive (b.drop n) → motive b) (b : List α) : motive b := by
  induction size : b.length using Nat.strongRecOn generalizing b with
  | _ size ih =>
    cases h : look.verdict b with
    | wait => exact wait b h
    | pass =>
      obtain ⟨a, t, rfl⟩ := Look.cons_of_pass h
      exact pass a t h (ih t.length (by simp only [List.length_cons] at size; omega) t rfl)
    | frame n =>
      have := look.fits h
      exact frame b n h (ih (b.drop n).length (by rw [List.length_drop]; omega) _ rfl)

theorem scanFuel_congr (s : σ) (b : List α) {f g : ℕ} (hf : b.length ≤ f) (hg : b.length ≤ g) :
    scanFuel look emit f s b = scanFuel look emit g s b := by
  induction f generalizing g s b with
  | zero =>
    have empty : b = [] := List.length_eq_zero_iff.mp (by omega)
    subst empty
    cases g with
    | zero => rfl
    | succ g => simp only [scanFuel, look.nil]
  | succ f ih =>
    cases g with
    | zero =>
      have empty : b = [] := List.length_eq_zero_iff.mp (by omega)
      subst empty
      simp only [scanFuel, look.nil]
    | succ g =>
      cases hv : look.verdict b with
      | wait => simp only [scanFuel, hv]
      | pass =>
        obtain ⟨a, t, rfl⟩ := Look.cons_of_pass hv
        rw [List.length_cons] at hf hg
        simp only [scanFuel, hv]
        have same := fun s ↦ ih s t (g := g) (by omega) (by omega)
        rw [same]
      | frame n =>
        have := look.fits hv
        have fewer : (b.drop n).length ≤ f ∧ (b.drop n).length ≤ g := by rw [List.length_drop]; omega
        have same := fun s ↦ ih s (b.drop n) (g := g) fewer.1 fewer.2
        simp only [scanFuel, hv]
        rw [same]

theorem scanFuel_of_le (s : σ) (b : List α) {fuel : ℕ} (h : b.length ≤ fuel) :
    scanFuel look emit fuel s b = scan look emit s b :=
  scanFuel_congr s b h (Nat.le_refl _)

theorem scan_wait {s : σ} {b : List α} (h : look.verdict b = .wait) : scan look emit s b = ⟨s, [], b⟩ := by
  rw [← scanFuel_of_le s b (Nat.le_succ _)]
  simp only [scanFuel, h]

theorem scan_pass {s : σ} {a : α} {b : List α} (h : look.verdict (a :: b) = .pass) :
    scan look emit s (a :: b) =
      ⟨(scan look emit (emit s (.loose a)).1 b).state,
        (emit s (.loose a)).2 ++ (scan look emit (emit s (.loose a)).1 b).out,
        (scan look emit (emit s (.loose a)).1 b).rest⟩ := by
  rw [scan, List.length_cons]
  simp only [scanFuel, h]
  rfl

theorem scan_frame {s : σ} {b : List α} {n : ℕ} (h : look.verdict b = .frame n) :
    scan look emit s b =
      ⟨(scan look emit (emit s (.frame (b.take n))).1 (b.drop n)).state,
        (emit s (.frame (b.take n))).2 ++ (scan look emit (emit s (.frame (b.take n))).1 (b.drop n)).out,
        (scan look emit (emit s (.frame (b.take n))).1 (b.drop n)).rest⟩ := by
  have := look.fits h
  rw [← scanFuel_of_le s b (Nat.le_succ _)]
  simp only [scanFuel, h]
  rw [scanFuel_of_le _ (b.drop n) (by rw [List.length_drop]; omega)]

theorem verdict_rest (s : σ) (b : List α) : look.verdict (scan look emit s b).rest = .wait := by
  induction b using look.induct generalizing s with
  | wait b h => rwa [scan_wait h]
  | pass a b h ih =>
    rw [scan_pass h]
    exact ih _
  | frame b n h ih =>
    rw [scan_frame h]
    exact ih _

theorem items_wait {b : List α} (h : look.verdict b = .wait) : items look b = [] := by rw [items, scan_wait h]

theorem items_pass {a : α} {b : List α} (h : look.verdict (a :: b) = .pass) :
    items look (a :: b) = .loose a :: items look b := by
  rw [items, scan_pass h]
  rfl

theorem items_frame {b : List α} {n : ℕ} (h : look.verdict b = .frame n) :
    items look b = .frame (b.take n) :: items look (b.drop n) := by
  rw [items, scan_frame h]
  rfl

theorem held_wait {b : List α} (h : look.verdict b = .wait) : held look b = b := by rw [held, scan_wait h]

theorem held_pass {a : α} {b : List α} (h : look.verdict (a :: b) = .pass) : held look (a :: b) = held look b := by
  rw [held, scan_pass h]
  rfl

theorem held_frame {b : List α} {n : ℕ} (h : look.verdict b = .frame n) : held look b = held look (b.drop n) := by
  rw [held, scan_frame h]
  rfl

/-- Every element of a stream is in a part of it or waits. -/
theorem content_items (b : List α) : (items look b).flatMap Item.content ++ held look b = b := by
  induction b using look.induct with
  | wait b h => rw [items_wait h, held_wait h, List.flatMap_nil, List.nil_append]
  | pass a b h ih =>
    rw [items_pass h, held_pass h, List.flatMap_cons, List.append_assoc, ih]
    rfl
  | frame b n h ih =>
    rw [items_frame h, held_frame h, List.flatMap_cons, List.append_assoc, ih]
    exact List.take_append_drop n b

/-- A frame among the parts is one that stood at the head of the buffer. -/
theorem frame_mem_items {b f : List α} (h : .frame f ∈ items look b) :
    ∃ rest n, look.verdict rest = .frame n ∧ f = rest.take n := by
  induction b using look.induct with
  | wait b waits =>
    rw [items_wait waits] at h
    cases h
  | pass a b passes ih =>
    rw [items_pass passes, List.mem_cons] at h
    exact ih (h.resolve_left fun same ↦ by cases same)
  | frame b n frames ih =>
    rw [items_frame frames, List.mem_cons] at h
    rcases h with same | later
    · exact ⟨b, n, frames, Item.frame.inj same⟩
    · exact ih later

/-- The loop handles the parts in their order. -/
theorem scan_eq_run (s : σ) (b : List α) :
    scan look emit s b = ⟨(run emit s (items look b)).1, (run emit s (items look b)).2, held look b⟩ := by
  induction b using look.induct generalizing s with
  | wait b h =>
    rw [scan_wait h, items_wait h, held_wait h]
    rfl
  | pass a b h ih =>
    rw [scan_pass h, ih, items_pass h, held_pass h]
    rfl
  | frame b n h ih =>
    rw [scan_frame h, ih, items_frame h, held_frame h]
    rfl

theorem run_append (s : σ) (xs ys : List (Item α)) :
    run emit s (xs ++ ys) = ((run emit (run emit s xs).1 ys).1,
      (run emit s xs).2 ++ (run emit (run emit s xs).1 ys).2) := by
  induction xs generalizing s with
  | nil => rfl
  | cons x xs ih => simp only [List.cons_append, run, ih, List.append_assoc]

/-- What the first reader takes, the second one takes too, however the stream goes on. -/
def Extends (l₁ l₂ : Look α) : Prop :=
  ∀ b c, l₁.verdict b ≠ .wait → l₂.verdict (b ++ c) = l₁.verdict b

variable {l₁ l₂ : Look α}

theorem scan_append (h : Extends l₁ l₂) (s : σ) (b c : List α) :
    scan l₂ emit s (b ++ c) =
      ⟨(scan l₂ emit (scan l₁ emit s b).state ((scan l₁ emit s b).rest ++ c)).state,
        (scan l₁ emit s b).out ++ (scan l₂ emit (scan l₁ emit s b).state ((scan l₁ emit s b).rest ++ c)).out,
        (scan l₂ emit (scan l₁ emit s b).state ((scan l₁ emit s b).rest ++ c)).rest⟩ := by
  induction b using l₁.induct generalizing s with
  | wait b hv => rw [scan_wait hv, List.nil_append]
  | pass a b hv ih =>
    have grown := (h (a :: b) c (by simp [hv])).trans hv
    rw [List.cons_append] at grown ⊢
    rw [scan_pass grown, scan_pass hv, ih]
    simp only [List.append_assoc]
  | frame b n hv ih =>
    have grown := (h b c (by simp [hv])).trans hv
    have inside := l₁.fits hv
    rw [scan_frame grown, scan_frame hv, List.take_append_of_le_length inside.2,
      List.drop_append_of_le_length inside.2, ih]
    simp only [List.append_assoc]

/-- The buffer fed in pieces, what is left of it each time put before the next piece. -/
def feeds (look : Look α) (emit : σ → Item α → σ × List β) :
    σ → List α → List (List α) → Scanned σ α β
  | s, pending, [] => ⟨s, [], pending⟩
  | s, pending, data :: chunks =>
    let first := scan look emit s (pending ++ data)
    let last := feeds look emit first.state first.rest chunks
    ⟨last.state, first.out ++ last.out, last.rest⟩

theorem held_append (h : Extends look look) (b c : List α) : held look (b ++ c) = held look (held look b ++ c) := by
  rw [held, scan_append h]
  rfl

/-- Where nothing is left that the second reader would take, both take the same. -/
theorem scan_agree (h : Extends l₁ l₂) (s : σ) {b : List α} (waits : l₂.verdict (held l₁ b) = .wait) :
    scan l₂ emit s b = scan l₁ emit s b := by
  have rest : (scan l₁ emit s b).rest = held l₁ b := by rw [scan_eq_run]
  have whole : scan l₂ emit s (b ++ []) = _ := scan_append h s b []
  rw [List.append_nil, List.append_nil, rest, scan_wait waits, List.append_nil, ← rest] at whole
  exact whole

/-- A stream comes out the same however it is cut, where both readers wait for the same at every cut. -/
theorem feeds_of_agree (h₁ : Extends l₁ l₁) (h : Extends l₁ l₂) (s : σ) {pending : List α}
    (waits : l₂.verdict pending = .wait)
    {chunks : List (List α)}
    (agree : ∀ i, 0 < i → i < chunks.length →
    l₂.verdict (held l₁ (pending ++ (chunks.take i).flatten)) = .wait) :
    feeds l₂ emit s pending chunks = scan l₂ emit s (pending ++ chunks.flatten) := by
  induction chunks generalizing s pending with
  | nil => rw [feeds, List.flatten_nil, List.append_nil, scan_wait waits]
  | cons data chunks ih =>
    simp only [feeds]
    cases chunks with
    | nil => simp [feeds]
    | cons next chunks =>
      have cut : l₂.verdict (held l₁ (pending ++ data)) = .wait := by
        simpa using agree 1 Nat.one_pos (by simp)
      have rest : (scan l₁ emit s (pending ++ data)).rest = held l₁ (pending ++ data) := by rw [scan_eq_run]
      have later : ∀ i, 0 < i → i < (next :: chunks).length →
          l₂.verdict (held l₁ (held l₁ (pending ++ data) ++ ((next :: chunks).take i).flatten)) = .wait := by
        intro i _ hi
        have := agree (i + 1) (Nat.succ_pos i) (Nat.succ_lt_succ hi)
        rwa [List.take_succ_cons, List.flatten_cons, ← List.append_assoc, held_append h₁] at this
      rw [scan_agree h s cut, rest, ih _ cut later, List.flatten_cons (l := data), ← List.append_assoc,
        scan_append h s (pending ++ data), rest]

theorem feeds_eq (h : Extends look look) (s : σ) {pending : List α} (waits : look.verdict pending = .wait)
    (chunks : List (List α)) : feeds look emit s pending chunks = scan look emit s (pending ++ chunks.flatten) :=
  feeds_of_agree h h s waits fun _ _ _ ↦ verdict_rest _ _

end Cdj2000Emulator.Library.Framing
