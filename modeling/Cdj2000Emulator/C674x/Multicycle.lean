import Cdj2000Emulator.C674x.Effects
import Mathlib.Data.List.Pairwise

namespace Cdj2000Emulator.C674x.Multicycle

open Effects

/-- A call of one of the `cdj_c674x_packet_*` functions. -/
inductive Request
  | nop (count : ℕ)
  | idle
  | load
  | multi (cycles : ℕ)
  deriving DecidableEq

namespace Request

def ask (t : Timing) : Request → Option Timing
  | nop count => t.packetNop count
  | idle => t.packetIdle
  | load => t.packetProtectedLoad
  | multi cycles => t.packetMulticycle cycles

def weight : Request → ℕ
  | nop count => count
  | idle => 1
  | load => 5
  | multi cycles => cycles

def Generates : Request → Prop
  | nop count => 1 < count
  | idle => True
  | load => True
  | multi cycles => 1 < cycles

/-- Whether two may stand in one packet. -/
def Compatible (r q : Request) : Prop :=
  ¬r.Generates ∨ ¬q.Generates ∨ r = q ∧ (r = load ∨ ∃ count, r = nop count)

theorem Compatible.symm {r q : Request} (h : r.Compatible q) : q.Compatible r := by
  rcases h with hr | hq | ⟨rfl, hkind⟩
  · exact .inr (.inl hr)
  · exact .inl hq
  · exact .inr (.inr ⟨rfl, hkind⟩)

instance : Std.Symm Compatible := ⟨fun _ _ ↦ Compatible.symm⟩

theorem generates_of_weight {r : Request} (h : 1 < r.weight) : r.Generates := by
  cases r with
  | nop count => exact h
  | idle => exact absurd h (by decide)
  | load => trivial
  | multi cycles => exact h

theorem weight_of_generates {r : Request} (h : r.Generates) (hne : r ≠ idle) : 1 < r.weight := by
  cases r with
  | nop count => exact h
  | idle => exact absurd rfl hne
  | load => decide
  | multi cycles => exact h

/-- Two different generators may not stand together. -/
theorem incompatible {r q : Request} (hr : r.Generates) (hq : q.Generates) (hne : r ≠ q) : ¬r.Compatible q := by
  rintro (hnot | hnot | ⟨hsame, -⟩)
  · exact hnot hr
  · exact hnot hq
  · exact hne hsame

end Request

/-- The cycles of the longest, and one for the issue. -/
def lasts {α : Type} (weight : α → ℕ) (l : List α) : ℕ := l.foldr (fun r m ↦ max (weight r) m) 1

section Lasts

variable {α : Type} {weight : α → ℕ} {l m : List α} {a : α}

theorem one_le_lasts (l : List α) : 1 ≤ lasts weight l := by
  induction l with
  | nil => exact Nat.le_refl 1
  | cons a l ih => exact ih.trans (Nat.le_max_right _ _)

theorem lasts_cons : lasts weight (a :: l) = max (weight a) (lasts weight l) := rfl

theorem lasts_append (l m : List α) : lasts weight (l ++ m) = max (lasts weight l) (lasts weight m) := by
  induction l with
  | nil => exact (Nat.max_eq_right (one_le_lasts m)).symm
  | cons a l ih =>
    change max (weight a) (lasts weight (l ++ m)) = max (max (weight a) (lasts weight l)) (lasts weight m)
    rw [ih, Nat.max_assoc]

theorem one_lt_lasts : 1 < lasts weight l ↔ ∃ a ∈ l, 1 < weight a := by
  induction l with
  | nil => simp [lasts]
  | cons a l ih =>
    change 1 < max (weight a) (lasts weight l) ↔ _
    have hmax : 1 < max (weight a) (lasts weight l) ↔ 1 < weight a ∨ 1 < lasts weight l := by omega
    rw [hmax, ih]
    simp

theorem weight_le_lasts (h : a ∈ l) : weight a ≤ lasts weight l := by
  induction l with
  | nil => cases h
  | cons b l ih =>
    rcases List.mem_cons.mp h with rfl | h
    · exact Nat.le_max_left _ _
    · exact (ih h).trans (Nat.le_max_right _ _)

theorem lasts_perm (h : l.Perm m) : lasts weight l = lasts weight m := by
  unfold lasts
  exact h.foldr_eq' (fun a _ b _ c ↦ by rw [Nat.max_left_comm]) 1

end Lasts

section Accounting

variable {t t' : Timing} {l rest : List Request} {r : Request}

/-- What the timing record says of the requests it has accepted. -/
structure Records (t : Timing) (l : List Request) : Prop where
  cycles : t.cycles = lasts Request.weight l
  idle : t.idle = true ↔ .idle ∈ l
  protect : t.protect = true ↔ .load ∈ l
  nop : ∀ count, 1 < count → (t.nop = count ↔ .nop count ∈ l)
  compatible : l.Pairwise Request.Compatible

theorem records_start : Records .start [] :=
  ⟨rfl, by simp [Timing.start], by simp [Timing.start], fun count h ↦ by simp [Timing.start]; omega, .nil⟩

theorem Records.generator_iff (h : Records t l) : t.generator = true ↔ ∃ q ∈ l, q.Generates := by
  unfold Timing.generator
  rw [decide_eq_true_eq, h.cycles, one_lt_lasts, h.idle]
  constructor
  · rintro (⟨q, hq, hlong⟩ | hidle)
    · exact ⟨q, hq, Request.generates_of_weight hlong⟩
    · exact ⟨.idle, hidle, trivial⟩
  · rintro ⟨q, hq, hgen⟩
    by_cases hidle : q = .idle
    · exact .inr (hidle ▸ hq)
    · exact .inl ⟨q, hq, Request.weight_of_generates hgen hidle⟩

theorem Records.long (h : Records t l) {q : Request} (hq : q ∈ l) (hgen : q.Generates) (hidle : t.idle = false) :
    1 < t.cycles := by
  rw [h.cycles]
  refine one_lt_lasts.mpr ⟨q, hq, Request.weight_of_generates hgen fun heq ↦ ?_⟩
  rw [heq, ← h.idle, hidle] at hq
  cases hq

/-- A request accepted beside those before it. -/
theorem Records.add (h : Records t l) (hcycles : t'.cycles = max t.cycles r.weight)
    (hidle : t'.idle = true ↔ t.idle = true ∨ r = .idle)
    (hprotect : t'.protect = true ↔ t.protect = true ∨ r = .load)
    (hnop : ∀ count, 1 < count → (t'.nop = count ↔ t.nop = count ∨ r = .nop count))
    (hcompatible : ∀ q ∈ l, q.Compatible r) : Records t' (l ++ [r]) where
  cycles := by
    rw [hcycles, lasts_append, h.cycles]
    change max _ _ = max _ (max r.weight 1)
    have : 1 ≤ lasts Request.weight l := one_le_lasts l
    omega
  idle := by
    rw [hidle, h.idle, List.mem_append, List.mem_singleton, eq_comm]
  protect := by
    rw [hprotect, h.protect, List.mem_append, List.mem_singleton, eq_comm]
  nop count hcount := by
    rw [hnop count hcount, h.nop count hcount, List.mem_append, List.mem_singleton, eq_comm]
  compatible := by
    rw [List.pairwise_append]
    exact ⟨h.compatible, List.pairwise_singleton _ _, fun q hq x hx ↦
      List.mem_singleton.mp hx ▸ hcompatible q hq⟩

theorem Records.quiet (h : Records t l) (hquiet : t.generator = false) (q : Request) (hq : q ∈ l) : ¬q.Generates :=
  fun hgen ↦ by
    have := h.generator_iff.mpr ⟨q, hq, hgen⟩
    rw [hquiet] at this
    cases this

theorem Records.askNop (h : Records t l) (count : ℕ) :
    match t.packetNop count with
    | some t' => Records t' (l ++ [.nop count])
    | none => ∃ q ∈ l, ¬q.Compatible (.nop count) := by
  unfold Timing.packetNop
  by_cases hcount : 1 < count
  case neg =>
    rw [if_neg hcount]
    refine h.add rfl (by simp [Timing.extend]) (by simp [Timing.extend]) (fun c hc ↦ ?_) fun q _ ↦
      .inr (.inl hcount)
    have hne : ¬Request.nop count = .nop c := fun heq ↦ hcount (Request.nop.inj heq ▸ hc)
    simp [Timing.extend, hne]
  rw [if_pos hcount]
  cases hidle : t.idle with
  | true =>
    exact ⟨.idle, h.idle.mp hidle, Request.incompatible trivial hcount (by simp)⟩
  | false =>
    by_cases hother : 1 < t.cycles ∧ t.nop ≠ count
    · rw [if_pos (.inr hother)]
      obtain ⟨q, hq, hlong⟩ := one_lt_lasts.mp (h.cycles ▸ hother.1)
      refine ⟨q, hq, Request.incompatible (Request.generates_of_weight hlong) hcount fun heq ↦ hother.2 ?_⟩
      exact (h.nop count hcount).mpr (heq ▸ hq)
    · have hsame (hlong : 1 < t.cycles) : t.nop = count := not_not.mp fun hne ↦ hother ⟨hlong, hne⟩
      rw [if_neg (by simp [hother])]
      refine h.add rfl ?_ (by simp [Timing.extend]) (fun c hc ↦ ?_) fun q hq ↦ ?_
      · simp [Timing.extend, hidle]
      · change count = c ↔ t.nop = c ∨ Request.nop count = .nop c
        refine ⟨fun heq ↦ .inr (heq ▸ rfl), ?_⟩
        rintro (hold | heq)
        · rw [← hsame (h.long ((h.nop c hc).mp hold) hc hidle), hold]
        · exact Request.nop.inj heq
      · by_cases hgen : q.Generates
        · have hmem := (h.nop count hcount).mp (hsame (h.long hq hgen hidle))
          by_cases heq : q = .nop count
          · exact .inr (.inr ⟨heq, .inr ⟨count, heq⟩⟩)
          · exact h.compatible.forall hq hmem heq
        · exact .inl hgen

/-- The function accepts a request exactly beside compatible ones. -/
theorem Records.ask (h : Records t l) (r : Request) :
    match r.ask t with
    | some t' => Records t' (l ++ [r])
    | none => ∃ q ∈ l, ¬q.Compatible r := by
  cases r with
  | nop count => exact h.askNop count
  | idle =>
    change match t.packetIdle with
      | some t' => Records t' (l ++ [.idle])
      | none => ∃ q ∈ l, ¬q.Compatible .idle
    unfold Timing.packetIdle
    cases hgen : t.generator with
    | true =>
      obtain ⟨q, hq, hgenerates⟩ := h.generator_iff.mp hgen
      refine ⟨q, hq, ?_⟩
      rintro (hnot | hnot | ⟨rfl, hnot | ⟨count, hnot⟩⟩)
      · exact hnot hgenerates
      · exact hnot trivial
      · cases hnot
      · cases hnot
    | false =>
      refine h.add ?_ (by simp) (by simp) (by simp) fun q hq ↦ .inl (h.quiet hgen q hq)
      have := t.positive
      change t.cycles = max t.cycles 1
      omega
  | load =>
    change match t.packetProtectedLoad with
      | some t' => Records t' (l ++ [.load])
      | none => ∃ q ∈ l, ¬q.Compatible .load
    unfold Timing.packetProtectedLoad
    cases hprotect : t.protect with
    | true =>
      have hmem := h.protect.mp hprotect
      refine h.add ?_ (by simp) (by simp [hprotect]) (by simp) fun q hq ↦ ?_
      · rw [h.cycles]
        exact (Nat.max_eq_left (weight_le_lasts hmem)).symm
      · by_cases heq : q = .load
        · exact .inr (.inr ⟨heq, .inl heq⟩)
        · exact h.compatible.forall hq hmem heq
    | false =>
      cases hgen : t.generator with
      | true =>
        obtain ⟨q, hq, hgenerates⟩ := h.generator_iff.mp hgen
        refine ⟨q, hq, Request.incompatible hgenerates trivial fun heq ↦ ?_⟩
        rw [heq, ← h.protect, hprotect] at hq
        cases hq
      | false =>
        refine h.add ?_ (by simp) (by simp) (by simp) fun q hq ↦ .inl (h.quiet hgen q hq)
        have hshort : ¬1 < t.cycles := by
          unfold Timing.generator at hgen
          simp only [decide_eq_false_iff_not, not_or] at hgen
          exact hgen.1
        change 5 = max t.cycles 5
        omega
  | multi cycles =>
    change match t.packetMulticycle cycles with
      | some t' => Records t' (l ++ [.multi cycles])
      | none => ∃ q ∈ l, ¬q.Compatible (.multi cycles)
    unfold Timing.packetMulticycle
    by_cases hboth : 1 < cycles ∧ t.generator = true
    · rw [if_pos hboth]
      obtain ⟨q, hq, hgenerates⟩ := h.generator_iff.mp hboth.2
      refine ⟨q, hq, ?_⟩
      rintro (hnot | hnot | ⟨rfl, hnot | ⟨count, hnot⟩⟩)
      · exact hnot hgenerates
      · exact hnot hboth.1
      · cases hnot
      · cases hnot
    · rw [if_neg hboth]
      refine h.add rfl (by simp [Timing.extend]) (by simp [Timing.extend]) (by simp [Timing.extend]) fun q hq ↦ ?_
      by_cases hlong : 1 < cycles
      · have hquiet : t.generator = false := by simpa [hlong] using hboth
        exact .inl (h.quiet hquiet q hq)
      · exact .inr (.inl hlong)

/-- A packet's requests are all accepted when every two are compatible, and the longest
sets its duration. -/
theorem ask_all (h : Records t l) (rest : List Request) :
    match rest.foldlM (fun t r ↦ r.ask t) t with
    | some t' => Records t' (l ++ rest)
    | none => ¬(l ++ rest).Pairwise Request.Compatible := by
  induction rest generalizing t l with
  | nil =>
    rw [List.append_nil]
    exact h
  | cons r rest ih =>
    have hr := h.ask r
    rw [List.foldlM_cons]
    cases hask : r.ask t with
    | none =>
      rw [hask] at hr
      obtain ⟨q, hq, hnot⟩ := hr
      intro hall
      exact hnot ((List.pairwise_append.mp hall).2.2 q hq r List.mem_cons_self)
    | some t' =>
      rw [hask] at hr
      have hrest := ih hr
      rw [List.append_assoc] at hrest
      exact hrest

end Accounting

/-- What may ask for cycles in a packet. -/
inductive Generator
  | nop (count : ℕ)
  | idle
  | branch (n : ℕ)
  | addkpc (n : ℕ)
  | callp
  | load
  deriving DecidableEq

namespace Generator

/-- The packet's cycles on its account. -/
def weight : Generator → ℕ
  | nop count => count
  | idle => 1
  | branch n | addkpc n => n + 1
  | callp => 6
  | load => 5

/-- The instructions that generate a multicycle NOP: NOP n with n above one, and the others
for all values of n, regardless of predication. -/
def Generates : Generator → Prop
  | nop count => 1 < count
  | _ => True

instance : DecidablePred Generates
  | nop count => inferInstanceAs (Decidable (1 < count))
  | idle | branch _ | addkpc _ | callp | load => .isTrue trivial

def MayShare (g h : Generator) : Prop :=
  ¬g.Generates ∨ ¬h.Generates ∨ g = h ∧
    match g with
    | nop _ | load => True
    | _ => False

instance : DecidableRel MayShare := fun g h ↦ by
  unfold MayShare
  cases g <;> infer_instance

/-- What the code asks of the packet for it. -/
def request (enabled : Bool) : Generator → Option Request
  | nop count => some (.nop count)
  | idle => some .idle
  | branch n => some (.multi (n + 1))
  | addkpc n => if enabled then some (.multi (n + 1)) else none
  | callp => some (.multi 6)
  | load => some .load

def counts (enabled : Bool) : Generator → Bool
  | branch n => n ≠ 0
  | addkpc n => enabled && n ≠ 0
  | _ => true

end Generator

/-- The header's rule: the duration of a packet, or its rejection. -/
def rule (gs : List Generator) : Option ℕ :=
  if gs.Pairwise Generator.MayShare then some (lasts Generator.weight gs) else none

/-- What the code makes of the requests of a packet. -/
def accounted (requests : List Request) : Option ℕ :=
  (requests.foldlM (fun t (r : Request) ↦ r.ask t) Timing.start).map (·.cycles)

section Rule

variable {gs hs : List Generator} {g h : Generator}

theorem accounted_eq (requests : List Request) :
    (requests.Pairwise Request.Compatible → accounted requests = some (lasts Request.weight requests)) ∧
    (¬requests.Pairwise Request.Compatible → accounted requests = none) := by
  have hall := ask_all records_start requests
  unfold accounted
  cases hfold : requests.foldlM (fun t (r : Request) ↦ r.ask t) Timing.start with
  | none =>
    rw [hfold] at hall
    exact ⟨fun hcompatible ↦ absurd hcompatible hall, fun _ ↦ rfl⟩
  | some t =>
    rw [hfold] at hall
    exact ⟨fun _ ↦ congrArg some hall.cycles, fun hnot ↦ absurd hall.compatible hnot⟩

theorem mayShare_symm (h' : g.MayShare h) : h.MayShare g := by
  rcases h' with hg | hh | ⟨rfl, hkind⟩
  · exact .inr (.inl hg)
  · exact .inl hh
  · exact .inr (.inr ⟨rfl, hkind⟩)

/-- The rule looks at the instructions only, in any order. -/
theorem rule_perm (h' : gs.Perm hs) : rule gs = rule hs := by
  unfold rule
  simp only [h'.pairwise_iff (fun {_ _} ↦ mayShare_symm), lasts_perm h']

def counted (l : List (Generator × Bool)) : List Generator := (l.filter fun x ↦ x.1.counts x.2).map (·.1)
def hidden (l : List (Generator × Bool)) : List Generator := (l.filter fun x ↦ !x.1.counts x.2).map (·.1)

theorem counted_hidden (l : List (Generator × Bool)) : (counted l ++ hidden l).Perm (l.map (·.1)) := by
  unfold counted hidden
  rw [← List.map_append]
  exact (List.filter_append_perm _ l).map _

theorem hidden_solitary {l : List (Generator × Bool)} (hg : g ∈ hidden l) :
    g.Generates ∧ 1 ≤ g.weight ∧ ∀ h : Generator, h.MayShare g ↔ ¬h.Generates := by
  unfold hidden at hg
  obtain ⟨⟨g', enabled⟩, hmem, rfl⟩ := List.mem_map.mp hg
  have hnot := (List.mem_filter.mp hmem).2
  cases g' with
  | nop count => cases hnot
  | idle => cases hnot
  | callp => cases hnot
  | load => cases hnot
  | branch n =>
    refine ⟨trivial, Nat.le_add_left 1 n, fun h ↦ ⟨?_, .inl⟩⟩
    rintro (hquiet | hquiet | ⟨rfl, hkind⟩)
    · exact hquiet
    · exact absurd trivial hquiet
    · exact hkind.elim
  | addkpc n =>
    refine ⟨trivial, Nat.le_add_left 1 n, fun h ↦ ⟨?_, .inl⟩⟩
    rintro (hquiet | hquiet | ⟨rfl, hkind⟩)
    · exact hquiet
    · exact absurd trivial hquiet
    · exact hkind.elim

theorem compatible_iff (x y : Generator × Bool) :
    (∀ r ∈ x.1.request x.2, ∀ q ∈ y.1.request y.2, r.Compatible q) ↔
      (x.1.counts x.2 = true → y.1.counts y.2 = true → x.1.MayShare y.1) := by
  obtain ⟨g, e⟩ := x
  obtain ⟨h, e'⟩ := y
  cases g <;> cases h <;> cases e <;> cases e' <;>
    simp [Generator.request, Generator.counts, Generator.MayShare, Request.Compatible, Request.Generates,
      Generator.Generates]
  all_goals omega

theorem request_weight (g : Generator) (enabled : Bool) :
    match g.request enabled with
    | some r => r.weight = if g.counts enabled then g.weight else 1
    | none => g.counts enabled = false := by
  cases g with
  | nop count => rfl
  | idle => rfl
  | callp => rfl
  | load => rfl
  | branch n =>
    change n + 1 = if (decide (n ≠ 0)) = true then n + 1 else 1
    split_ifs with hn
    · rfl
    · simpa using hn
  | addkpc n =>
    cases enabled with
    | false => rfl
    | true =>
      change n + 1 = if (decide (n ≠ 0)) = true then n + 1 else 1
      split_ifs with hn
      · rfl
      · simpa using hn

theorem lasts_counted (l : List (Generator × Bool)) :
    lasts Request.weight (l.filterMap fun x ↦ x.1.request x.2) = lasts Generator.weight (counted l) := by
  induction l with
  | nil => rfl
  | cons x l ih =>
    have hx := request_weight x.1 x.2
    have hone : 1 ≤ lasts Request.weight (l.filterMap fun x ↦ x.1.request x.2) := one_le_lasts _
    have hcons : counted (x :: l) = if x.1.counts x.2 = true then x.1 :: counted l else counted l := by
      unfold counted
      rw [List.filter_cons]
      split_ifs
      · rfl
      · rfl
    rw [List.filterMap_cons, hcons]
    cases hr : x.1.request x.2 with
    | none =>
      rw [hr] at hx
      simp only [hx, Bool.false_eq_true, if_false]
      exact ih
    | some r =>
      rw [hr] at hx
      simp only at hx
      rw [lasts_cons]
      split_ifs at hx ⊢
      · rw [hx, ih, lasts_cons]
      · rw [hx, ← ih]
        exact Nat.max_eq_right hone

theorem accounted_counted (l : List (Generator × Bool)) :
    accounted (l.filterMap fun x ↦ x.1.request x.2) = rule (counted l) := by
  have hpairwise : (l.filterMap fun x ↦ x.1.request x.2).Pairwise Request.Compatible ↔
      (counted l).Pairwise Generator.MayShare := by
    unfold counted
    rw [List.pairwise_filterMap, List.pairwise_map, List.pairwise_filter]
    refine List.Pairwise.iff fun x y ↦ ?_
    exact (compatible_iff x y).symm.symm
  unfold rule
  split_ifs with h
  · rw [(accounted_eq _).1 (hpairwise.mpr h), lasts_counted]
  · exact (accounted_eq _).2 (h ∘ hpairwise.mp)

theorem counted_rule_iff (l : List (Generator × Bool)) :
    rule (counted l) = rule (l.map (·.1)) ↔
      hidden l = [] ∨ ¬(counted l).Pairwise Generator.MayShare ∨
        ∃ g, hidden l = [g] ∧ g.weight = 1 ∧ ∀ h ∈ counted l, ¬h.Generates := by
  rw [← rule_perm (counted_hidden l)]
  by_cases hnone : hidden l = []
  · rw [hnone, List.append_nil]
    exact ⟨fun _ ↦ .inl rfl, fun _ ↦ rfl⟩
  by_cases hcounted : (counted l).Pairwise Generator.MayShare
  case neg =>
    have hall : ¬(counted l ++ hidden l).Pairwise Generator.MayShare :=
        fun h ↦ hcounted (List.pairwise_append.mp h).1
    unfold rule
    rw [if_neg hcounted, if_neg hall]
    exact ⟨fun _ ↦ .inr (.inl hcounted), fun _ ↦ rfl⟩
  have hshare : (counted l ++ hidden l).Pairwise Generator.MayShare ↔
      ∃ g, hidden l = [g] ∧ ∀ h ∈ counted l, ¬h.Generates := by
    rw [List.pairwise_append]
    constructor
    · rintro ⟨-, hhidden, hcross⟩
      obtain ⟨g, rest, heq⟩ := List.exists_cons_of_ne_nil hnone
      have hg : g ∈ hidden l := heq ▸ List.mem_cons_self
      refine ⟨g, ?_, fun h hh ↦ ((hidden_solitary hg).2.2 h).mp (hcross h hh g hg)⟩
      cases rest with
      | nil => exact heq
      | cons g' rest =>
        have hg' : g' ∈ hidden l := heq ▸ List.mem_cons_of_mem g List.mem_cons_self
        rw [heq] at hhidden
        have hboth := (List.pairwise_cons.mp hhidden).1 g' List.mem_cons_self
        exact absurd (hidden_solitary hg).1 (((hidden_solitary hg').2.2 g).mp hboth)
    · rintro ⟨g, heq, hquiet⟩
      have hg : g ∈ hidden l := heq ▸ List.mem_singleton_self g
      refine ⟨hcounted, heq ▸ List.pairwise_singleton _ _, fun h hh g' hg' ↦ ?_⟩
      exact ((hidden_solitary hg').2.2 h).mpr (hquiet h hh)
  have hquiet (h : ∀ g ∈ counted l, ¬g.Generates) : lasts Generator.weight (counted l) = 1 := by
    have hone : 1 ≤ lasts Generator.weight (counted l) := one_le_lasts _
    have hlong : ¬1 < lasts Generator.weight (counted l) := by
      rw [one_lt_lasts]
      rintro ⟨g, hg, hweight⟩
      refine h g hg ?_
      cases g with
      | nop count => exact hweight
      | _ => trivial
    omega
  unfold rule
  rw [if_pos hcounted]
  by_cases hall : (counted l ++ hidden l).Pairwise Generator.MayShare
  · rw [if_pos hall, lasts_append]
    obtain ⟨g, heq, hsilent⟩ := hshare.mp hall
    have hg : g ∈ hidden l := heq ▸ List.mem_singleton_self g
    have hpositive := (hidden_solitary hg).2.1
    rw [hquiet hsilent, heq, lasts_cons, show lasts Generator.weight [] = 1 from rfl]
    constructor
    · intro hsame
      have hweight := Option.some_inj.mp hsame
      exact .inr (.inr ⟨g, rfl, by omega, hsilent⟩)
    · rintro (hempty | hbroken | ⟨g', hsame, hweight, -⟩)
      · cases hempty
      · exact absurd hcounted hbroken
      · rw [List.singleton_inj.mp hsame, hweight]
        rfl
  · rw [if_neg hall]
    constructor
    · intro hsame
      cases hsame
    · rintro (hempty | hbroken | ⟨g, heq, -, hsilent⟩)
      · exact absurd hempty hnone
      · exact absurd hcounted hbroken
      · exact absurd (hshare.mpr ⟨g, heq, hsilent⟩) hall

end Rule

end Cdj2000Emulator.C674x.Multicycle
