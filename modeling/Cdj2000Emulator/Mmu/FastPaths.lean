import Cdj2000Emulator.Mmu.Model

namespace Cdj2000Emulator.Mmu

open Library.Traces Function

theorem lt_trans_le {x y z : Addr} (h : x < y) (h' : y ≤ z) : x < z := by bv_omega

variable {g : Implicit} {t : Table} {a : Access} {w : Walk} {i : Fin 16} {s s' : State}

def Alone (t : Table) (addr : Addr) : Prop :=
  ∀ i j, (t.entry i).covers addr = true → (t.entry j).covers addr = true → i = j

theorem visit_not (h : (t.entry i).covers a.addr = false) : visit t a w i = w := if_neg (Bool.eq_false_iff.mp h)

theorem visit_covers (h : (t.entry i).covers a.addr = true) :
    visit t a w i = ⟨w.hits + 1, w.faults ||| 1#32 <<< i.val, w.refused || !permits (t.entry i).data a, some i⟩ :=
  if_pos h

theorem visits_not {l : List (Fin 16)} (h : ∀ j ∈ l, (t.entry j).covers a.addr = false) :
    l.foldl (visit t a) w = w := by
  induction l generalizing w with
  | nil => rfl
  | cons j l ih =>
    rw [List.foldl_cons, visit_not (h j List.mem_cons_self)]
    exact ih fun k hk ↦ h k (List.mem_cons_of_mem _ hk)

theorem walk_alone (halone : Alone t a.addr) (hi : (t.entry i).covers a.addr = true) :
    walk t a = ⟨1, 1#32 <<< i.val, !permits (t.entry i).data a, some i⟩ := by
  obtain ⟨before, after, hsplit⟩ := List.mem_iff_append.mp (List.mem_finRange i)
  have hnodup := List.nodup_finRange 16
  rw [hsplit, List.nodup_append, List.nodup_cons] at hnodup
  obtain ⟨-, ⟨hafter, -⟩, hbefore⟩ := hnodup
  have hother (j : Fin 16) (hne : j ≠ i) : (t.entry j).covers a.addr = false :=
    Bool.eq_false_iff.mpr fun h ↦ hne (halone j i h hi)
  unfold walk
  rw [hsplit, List.foldl_append, List.foldl_cons,
    visits_not fun j hj ↦ hother j (hbefore j hj i List.mem_cons_self), visit_covers hi,
    visits_not fun j hj ↦ hother j fun h ↦ hafter (h ▸ hj)]
  exact congrArg (Walk.mk 1 · _ _) BitVec.zero_or

/-- What a walk with one hit says of the last one. -/
structure Tells (t : Table) (a : Access) (w : Walk) : Prop where
  none : w.hits = 0 → w.faults = 0
  one : ∀ i, w.hits = 1 → w.lastHit = some i → (t.entry i).covers a.addr = true ∧ w.faults = 1#32 <<< i.val

theorem Tells.visit (h : Tells t a w) : Tells t a (visit t a w i) := by
  cases hi : (t.entry i).covers a.addr with
  | false =>
    rw [visit_not hi]
    exact h
  | true =>
    rw [visit_covers hi]
    refine ⟨fun h0 ↦ absurd h0 (Nat.succ_ne_zero _), fun j h1 hj ↦ ?_⟩
    obtain rfl := Option.some.inj hj
    have h0 : w.hits = 0 := Nat.succ.inj h1
    exact ⟨hi, by rw [h.none h0]; exact BitVec.zero_or⟩

theorem tells_walk : Tells t a (walk t a) := by
  have hfold (l : List (Fin 16)) (w : Walk) (h : Tells t a w) : Tells t a (l.foldl (visit t a) w) := by
    induction l generalizing w with
    | nil => exact h
    | cons j l ih => exact ih _ h.visit
  exact hfold _ _ ⟨fun _ ↦ rfl, fun i h ↦ absurd h (Nat.zero_ne_one)⟩

/-- A single page that grants the access leaves it to the implicit rules. -/
theorem checkPlain_alone (hon : t.enabled = true) (halone : Alone t a.addr) (hi : (t.entry i).covers a.addr = true)
    (hok : permits (t.entry i).data a = true) : checkPlain g t a = g.settle a 1 (1#32 <<< i.val) := by
  rw [checkPlain, if_pos hon, walk_alone halone hi, conclude, hok]
  rfl

theorem okBits_getLsbD (data : BitVec 32) : (okBits data).getLsbD (2 * a.supv.toNat + a.write.toNat) =
    permits data a := by
  unfold okBits permits
  cases a.supv <;> cases a.write <;> cases data.getLsbD 2 <;> cases data.getLsbD 3 <;> cases data.getLsbD 4 <;>
    cases clean data <;> rfl

/-- What a window stands for. -/
inductive Window (t : Table) (f : Fast) : Prop
  | empty : f.lo = f.hi → Window t f
  | below : t.enabled = false → f.hi = 0xff000000 → Window t f
  | page (i : Fin 16) : t.enabled = true → (t.entry i).valid = true → f.lo = (t.entry i).lo →
      f.hi ≤ (t.entry i).hi →
      f.hi ≤ mmrBase → f.ok = okBits (t.entry i).data → Window t f

/-- Memos and windows stand for pages of the tables. -/
structure Remembers (s : State) : Prop where
  memo : ∀ inst m, s.memo inst = some m →
    (s.table inst).enabled = true ∧ ∃ i, ((s.table inst).entry i).valid = true ∧ m = .ofEntry (s.table inst) i
  fast : ∀ inst, Window (s.table inst) (s.fast inst)

theorem belowMmrs_le (hi : Addr) : belowMmrs hi ≤ hi ∧ belowMmrs hi ≤ mmrBase := by
  unfold belowMmrs
  split_ifs with h
  · exact ⟨BitVec.le_of_lt h, BitVec.le_refl _⟩
  · exact ⟨BitVec.le_refl _, BitVec.not_lt.mp h⟩

theorem window_below {inst : Bool} {f : Fast} (hoff : t.enabled = false) :
    Window t (publish inst 0 0xff000000 0 true f) := by
  refine .below hoff ?_
  have hbelow : ¬(inL1 0 = true ∧ (0x100000 < belowMmrs 0xff000000 - 0 ∨ inst ≠ codeBank 0)) :=
    fun h ↦ absurd h.1 (by decide)
  unfold publish
  rw [if_neg (by decide), if_neg hbelow]
  rfl

theorem window_publish {inst : Bool} {f : Fast} (hon : t.enabled = true) (hvalid : (t.entry i).valid = true) :
    Window t (publish inst (t.entry i).lo (t.entry i).hi (t.entry i).data false f) := by
  unfold publish
  split_ifs with hout hbank hall
  · exact .empty rfl
  · exact .empty rfl
  · exact hall.elim
  · obtain ⟨hhi, htop⟩ := belowMmrs_le (t.entry i).hi
    exact .page i hon hvalid rfl hhi htop rfl

theorem remembers_start {table : Bool → Table} : Remembers (.start table) where
  memo _ _ h := nomatch h
  fast _ := .empty rfl

theorem remembers_write {table : Bool → Table} : Remembers (s.write table) where
  memo _ _ h := nomatch h
  fast _ := .empty rfl

namespace Remembers

theorem published {inst all : Bool} {lo hi : Addr} {data : BitVec 32} (h : Remembers s)
    (hwindow : Window (s.table inst) (publish inst lo hi data all (s.fast inst))) :
    Remembers (s.published inst lo hi data all) := by
  refine ⟨h.memo, fun k ↦ ?_⟩
  by_cases hk : k = inst
  · subst hk
    have hself : (s.published k lo hi data all).fast k = publish k lo hi data all (s.fast k) := update_self ..
    rw [hself]
    exact hwindow
  · have hother : (s.published inst lo hi data all).fast k = s.fast k := update_of_ne hk ..
    rw [hother]
    exact h.fast k

theorem remember {inst : Bool} (h : Remembers s) (hon : (s.table inst).enabled = true)
    (hvalid : ((s.table inst).entry i).valid = true) : Remembers (s.remember inst i (1#32 <<< i.val)) := by
  have hmemo : Remembers { s with memo := update s.memo inst (some (.ofEntry (s.table inst) i)) } := by
    refine ⟨fun k m hm ↦ ?_, h.fast⟩
    change update s.memo inst _ k = some m at hm
    by_cases hk : k = inst
    · subst hk
      rw [update_self] at hm
      exact ⟨hon, i, hvalid, (Option.some.inj hm).symm⟩
    · rw [update_of_ne hk] at hm
      exact h.memo k m hm
  exact hmemo.published (window_publish hon hvalid)

end Remembers

theorem valid_of_covers {e : Entry} {addr : Addr} (h : e.covers addr = true) : e.valid = true := by
  unfold Entry.covers at h
  rw [Bool.and_eq_true, Bool.and_eq_true] at h
  exact h.1.1

theorem remembers_search (h : Remembers s) (hon : (s.table a.inst).enabled = true) :
    Remembers (s.search g a).1 ∧ (s.search g a).1.table = s.table ∧
      (s.search g a).2 = conclude g a (walk (s.table a.inst) a) := by
  unfold State.search
  dsimp only
  cases hlast : (walk (s.table a.inst) a).lastHit with
  | none => exact ⟨h, rfl, rfl⟩
  | some i =>
    dsimp only
    split_ifs with hone
    · obtain ⟨hcovers, hfaults⟩ := tells_walk.one i hone.1 hlast
      rw [hfaults]
      exact ⟨h.remember hon (valid_of_covers hcovers), rfl, rfl⟩
    · exact ⟨h, rfl, rfl⟩

/-- Where a shortcut lets an access through, no second page covers the address, and the window keeps to its L1 bank. -/
structure Clear (s : State) (a : Access) : Prop where
  window : s.fastOk a = true → ((s.table a.inst).enabled = true → Alone (s.table a.inst) a.addr) ∧ a.RightBank
  memo : ∀ m, s.memoHit a = some m → Alone (s.table a.inst) a.addr

theorem covers_of_window {f : Fast} (hvalid : (t.entry i).valid = true) (hlo : f.lo = (t.entry i).lo)
    (hhi : f.hi ≤ (t.entry i).hi) (hfrom : f.lo ≤ a.addr) (hto : a.addr < f.hi) :
    (t.entry i).covers a.addr = true := by
  unfold Entry.covers
  rw [hvalid, Bool.true_and, Bool.and_eq_true, decide_eq_true_eq, decide_eq_true_eq]
  exact ⟨hlo ▸ hfrom, lt_trans_le hto hhi⟩

/-- The walk lets through what the window does. -/
theorem checkPlain_of_window (hs : Remembers s) (hclear : Clear s a) (hok : s.fastOk a = true) :
    checkPlain g (s.table a.inst) a = .granted := by
  obtain ⟨halone, hbank⟩ := hclear.window hok
  unfold State.fastOk at hok
  simp only [Bool.and_eq_true, decide_eq_true_eq] at hok
  obtain ⟨⟨⟨hfrom, hto⟩, haligned⟩, hbit⟩ := hok
  cases hs.fast a.inst with
  | empty h => exact absurd hto (BitVec.not_lt.mpr (h ▸ hfrom))
  | below hoff hhi =>
    have hbelow : a.addr < mmrBase := BitVec.lt_trans (hhi ▸ hto) (by decide)
    rw [checkPlain, hoff, if_neg Bool.false_ne_true]
    exact g.passes a 0 haligned hbelow hbank
  | page i hon hvalid hlo hhi htop hbits =>
    have hcovers := covers_of_window hvalid hlo hhi hfrom hto
    have hpermits : permits ((s.table a.inst).entry i).data a = true := by
      rw [← okBits_getLsbD, ← hbits]
      exact hbit
    rw [checkPlain_alone hon (halone hon) hcovers hpermits]
    exact g.passes a _ haligned (lt_trans_le hto htop) hbank

theorem checkPlain_of_memo {m : Memo} (hs : Remembers s) (hclear : Clear s a) (hhit : s.memoHit a = some m) :
    checkPlain g (s.table a.inst) a = g.settle a 1 m.mask := by
  obtain ⟨hmemo, hanswers⟩ := Option.filter_eq_some_iff.mp hhit
  obtain ⟨hon, i, hvalid, rfl⟩ := hs.memo a.inst m hmemo
  unfold Memo.answers at hanswers
  simp only [Bool.and_eq_true, decide_eq_true_eq] at hanswers
  obtain ⟨⟨hfrom, hto⟩, hpermits⟩ := hanswers
  have hcovers : ((s.table a.inst).entry i).covers a.addr = true := by
    unfold Entry.covers
    rw [hvalid, Bool.true_and, Bool.and_eq_true, decide_eq_true_eq, decide_eq_true_eq]
    exact ⟨hfrom, hto⟩
  exact checkPlain_alone hon (hclear.memo _ hhit) hcovers hpermits

theorem access_plain (hs : Remembers s) (hclear : Clear s a) : Remembers (s.access g a).1 ∧
    (s.access g a).1.table = s.table ∧ (s.access g a).2 = checkPlain g (s.table a.inst) a := by
  unfold State.access
  cases hok : s.fastOk a with
  | true => exact ⟨hs, rfl, (checkPlain_of_window hs hclear hok).symm⟩
  | false =>
    rw [if_neg Bool.false_ne_true]
    unfold State.check
    cases hon : (s.table a.inst).enabled with
    | false =>
      refine ⟨hs.published (window_below hon), rfl, ?_⟩
      rw [checkPlain, hon, if_neg Bool.false_ne_true]
      rfl
    | true =>
      rw [Bool.not_true, if_neg Bool.false_ne_true]
      cases hhit : s.memoHit a with
      | some m => exact ⟨hs, rfl, (checkPlain_of_memo hs hclear hhit).symm⟩
      | none =>
        obtain ⟨hremembers, htable, houtcome⟩ := remembers_search hs hon
        refine ⟨hremembers, htable, ?_⟩
        rw [checkPlain, if_pos hon]
        exact houtcome

def ClearStep (g : Implicit) (s : State) (x : Event × Option Outcome) (s' : State) : Prop :=
  Step g s x s' ∧ ∀ a, x.1 = .access a → Clear s a

theorem step_plain {x : Event × Option Outcome} (hs : Remembers s) (h : ClearStep g s x s') :
    Remembers s' ∧ PlainStep g s.table x s'.table := by
  obtain ⟨e, out⟩ := x
  obtain ⟨hstep, hclear⟩ := h
  cases e with
  | write table =>
    obtain ⟨rfl, hout⟩ := hstep
    exact ⟨remembers_write, rfl, hout⟩
  | access a =>
    obtain ⟨rfl, hout⟩ := hstep
    obtain ⟨hremembers, htable, houtcome⟩ := access_plain hs (hclear a rfl)
    exact ⟨hremembers, htable, hout.trans (congrArg some houtcome)⟩

/-- With memo and window every access ends as it does by the walk. -/
theorem fast_paths_agree {table : Bool → Table} {run : List (Event × Option Outcome)}
    (h : Path (ClearStep g) (.start table) run s) : Path (PlainStep g) table run s.table := by
  have hstep (s : State) (x : Event × Option Outcome) (s' : State) (w : Bool → Table)
      (hs : Remembers s ∧ s.table = w)
      (hx : ClearStep g s x s') : ∃ w', Path (PlainStep g) w [x] w' ∧ Remembers s' ∧ s'.table = w' := by
    obtain ⟨hremembers, rfl⟩ := hs
    obtain ⟨hremembers', hplain⟩ := step_plain hremembers hx
    exact ⟨s'.table, .single hplain, hremembers', rfl⟩
  obtain ⟨w', hpath, -, rfl⟩ := h.simulate hstep ⟨remembers_start, rfl⟩
  rw [List.flatMap_singleton'] at hpath
  exact hpath

def gdb : Implicit where
  settle a hits faults :=
    if !a.aligned then .raised a.inst .misaligned faults
    else if mmrBase ≤ a.addr then
      if a.inst then .raised a.inst .miss faults else if !a.supv || a.dag1 then .hardware else .granted
    else if inL1 a.addr then if a.inst = codeBank a.addr then .granted else .raised a.inst .violation faults
    else if hits = 1 then .granted
    else .raised a.inst .miss faults
  passes a faults haligned hbelow hbank := by
    rw [haligned, Bool.not_true, if_neg Bool.false_ne_true, if_neg (BitVec.not_le.mpr hbelow)]
    split_ifs with hl1 hwrong
    · rfl
    · exact absurd (hbank hl1) hwrong
    · rfl
    · exact absurd rfl ‹_›

def pages (e₀ e₁ : Entry) (_ : Bool) : Table :=
    ⟨2, fun i ↦ if i.val = 0 then e₀ else if i.val = 1 then e₁ else ⟨0, 0⟩⟩

def wordRead (addr : Addr) : Access := ⟨addr, false, false, 4, 0x8000, false⟩

/-- One page of four megabytes, read twice. -/
theorem fast_paths_agree_window : ∃ run s, Path (PlainStep gdb) (pages ⟨0, 0x30001⟩ ⟨0, 0⟩) run s ∧
    run = [(.access (wordRead 0), some .granted), (.access (wordRead 0x1000), some .granted)] := by
  have halone (addr : Addr) : Alone (pages ⟨0, 0x30001⟩ ⟨0, 0⟩ false) addr := by
    have hfirst : ∀ i, ((pages ⟨0, 0x30001⟩ ⟨0, 0⟩ false).entry i).valid = true → i = 0 := by decide +kernel
    intro i j hi hj
    rw [hfirst i (valid_of_covers hi), hfirst j (valid_of_covers hj)]
  have hclear (s : State) (hs : s.table = pages ⟨0, 0x30001⟩ ⟨0, 0⟩) (addr : Addr) (hlow : inL1 addr = false) :
      Clear s (wordRead addr) := by
    refine ⟨fun _ ↦ ⟨fun _ ↦ ?_, fun h ↦ absurd h (Bool.eq_false_iff.mp hlow)⟩, fun _ _ ↦ ?_⟩
    · rw [hs]
      exact halone addr
    · rw [hs]
      exact halone addr
  have hrun : Path (ClearStep gdb) (.start (pages ⟨0, 0x30001⟩ ⟨0, 0⟩))
      [(.access (wordRead 0), some .granted), (.access (wordRead 0x1000), some .granted)] _ :=
    .cons ⟨⟨rfl, by decide +kernel⟩, fun a ha ↦ Event.access.inj ha ▸ hclear _ rfl 0 rfl⟩
      (.cons ⟨⟨rfl, by decide +kernel⟩, fun a ha ↦ Event.access.inj ha ▸ hclear _ rfl 0x1000 rfl⟩ .nil)
  exact ⟨_, _, fast_paths_agree hrun, rfl⟩

/-- After a read that is let through, the window lets through one that the walk does not. -/
theorem granted_after {table : Bool → Table} {a b : Access} {e : Excp} {faults : BitVec 32}
    (ha : ((State.start table).access gdb a).2 = .granted)
    (hb : (((State.start table).access gdb a).1.access gdb b).2 = .granted)
    (hplain : checkPlain gdb (table b.inst) b = .raised b.inst e faults) :
    ∃ run s, Path (Step gdb) (.start table) run s ∧ ∀ u, ¬Path (PlainStep gdb) table run u := by
  refine ⟨[(.access a, some .granted), (.access b, some .granted)], _,
    .cons ⟨rfl, congrArg some ha.symm⟩ (.cons ⟨rfl, congrArg some hb.symm⟩ .nil), fun u h ↦ ?_⟩
  cases h with
  | cons hfirst hrest =>
    cases hrest with
    | cons hsecond _ =>
      obtain ⟨rfl, -⟩ := hfirst
      have hout := Option.some.inj hsecond.2
      rw [hplain] at hout
      exact Outcome.noConfusion hout

/-- A small page inside a large one, and a page that ends in the instruction bank. -/
theorem window_hides : (∃ run s, Path (Step gdb) (.start (pages ⟨0, 0x30001⟩ ⟨0x1000, 1⟩)) run s ∧
      ∀ u, ¬Path (PlainStep gdb) (pages ⟨0, 0x30001⟩ ⟨0x1000, 1⟩) run u) ∧
    ∃ run s, Path (Step gdb) (.start (pages ⟨0xff9ffc00, 0x10001⟩ ⟨0, 0⟩)) run s ∧
      ∀ u, ¬Path (PlainStep gdb) (pages ⟨0xff9ffc00, 0x10001⟩ ⟨0, 0⟩) run u :=
  ⟨granted_after (a := wordRead 0) (b := wordRead 0x1000) (by decide +kernel) (by decide +kernel)
      (by decide +kernel : _ = Outcome.raised false .multipleHits 3),
    granted_after (a := wordRead 0xff9ffc00) (b := wordRead 0xffa00000) (by decide +kernel) (by decide +kernel)
      (by decide +kernel : _ = Outcome.raised false .violation 1)⟩

end Cdj2000Emulator.Mmu
