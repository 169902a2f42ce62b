import Cdj2000Emulator.SportLink.Shelf

namespace Cdj2000Emulator.SportLink

open Library Library.Bytes Library.Traces Function

variable {cfg : Config} {s t : Link} {w w' : Shelf} {f : Frame} {n : ℕ} {i : Fin 16}

/-- The rings hold what is on the shelf. -/
structure Agrees (cfg : Config) (s : Link) (w : Shelf) : Prop where
  ring : ∀ i, ∃ q, (s.slot i).ring.Holds cfg.depth q ∧ q.map (load (s.slot i).len) = w.unread (s.slot i).len
  newest : ∀ i, (s.slot i).len ≠ 0 → w.newest (s.slot i).len =
    some (load (s.slot i).len ((s.slot i).ring.entry ((s.slot i).ring.newest cfg.depth)))
  distinct : ∀ i j, (s.slot i).len ≠ 0 → (s.slot j).len = (s.slot i).len → j = i
  held : ∀ n, n ∈ w.held ↔ n ≠ 0 ∧ ∃ i, (s.slot i).len = n
  nodup : w.held.Nodup
  unheld : ∀ n, n ∉ w.held → w.unread n = []
  wire : ∀ record, w.newest statusLen = some record → s.wireW29 = halfword record 29 ∧
    s.wireW30 = halfword record 30
  silent : w.newest statusLen = none → s.wireW29 = 0

namespace Link

theorem holder_some (h : s.holder n = some i) : (s.slot i).len = n := by
  have hfound := List.find?_some h
  exact eq_of_beq hfound

theorem holder_none (h : s.holder n = none) (i : Fin 16) : (s.slot i).len ≠ n := by
  intro hi
  exact absurd (beq_iff_eq.mpr hi) (List.find?_eq_none.mp h i (List.mem_finRange i))

theorem slot_hear : (s.hear f).slot = s.slot := by
  unfold hear
  split <;> rfl

theorem setSlot_same {slot : Slot} : (s.setSlot i slot).slot i = slot := update_self ..

theorem setSlot_of_ne {slot : Slot} {j : Fin 16} (h : j ≠ i) : (s.setSlot i slot).slot j = s.slot j :=
  update_of_ne h ..

end Link

namespace Agrees

theorem init : Agrees cfg Link.init Shelf.empty where
  ring _ := ⟨[], MarkedRing.holds_nil cfg.depth_pos (fun _ ↦ rfl) rfl rfl, rfl⟩
  newest _ h := absurd rfl h
  distinct _ _ h := absurd rfl h
  held n := by
    refine iff_of_false List.not_mem_nil ?_
    rintro ⟨hn, _, rfl⟩
    exact hn rfl
  nodup := List.nodup_nil
  unheld _ _ := rfl
  wire _ h := absurd h (by simp [Shelf.empty])
  silent _ := rfl

variable (h : Agrees cfg s w)

include h

theorem zero_unread : w.unread 0 = [] := h.unheld 0 fun h0 ↦ ((h.held 0).mp h0).1 rfl

theorem unread_of_no_holder (hnone : s.holder n = none) : n ∉ w.held := by
  intro hn
  obtain ⟨-, i, hi⟩ := (h.held n).mp hn
  exact Link.holder_none hnone i hi

theorem perm_held (hfull : ∀ i, (s.slot i).len ≠ 0) :
    w.held.Perm ((List.finRange 16).map fun i ↦ (s.slot i).len) := by
  have hnodup : ((List.finRange 16).map fun i ↦ (s.slot i).len).Nodup :=
    (List.nodup_finRange 16).map_on fun i _ j _ heq ↦ (h.distinct i j (hfull i) heq.symm).symm
  refine (List.perm_ext_iff_of_nodup h.nodup hnodup).mpr fun n ↦ ?_
  rw [h.held, List.mem_map]
  constructor
  · rintro ⟨-, i, hi⟩
    exact ⟨i, List.mem_finRange i, hi⟩
  · rintro ⟨i, -, rfl⟩
    exact ⟨hfull i, i, rfl⟩

theorem length_held_lt (hi : (s.slot i).len = 0) : w.held.length < 16 := by
  have hsubset : w.held ⊆ ((List.finRange 16).erase i).map fun j ↦ (s.slot j).len := by
    intro n hn
    obtain ⟨hn, j, hj⟩ := (h.held n).mp hn
    have hne : j ≠ i := by
      rintro rfl
      exact hn (hj.symm.trans hi)
    exact List.mem_map.mpr ⟨j, (List.mem_erase_of_ne hne).mpr (List.mem_finRange j), hj⟩
  have hle := (List.subperm_of_subset h.nodup hsubset).length_le
  rw [List.length_map, List.length_erase_of_mem (List.mem_finRange i), List.length_finRange] at hle
  omega

theorem opened (hi : (s.slot i).len = 0) (hnone : ∀ j, (s.slot j).len ≠ n) :
    n ∉ w.held ∧ Shelf.Takes cfg w (.opened n) { w with held := n :: w.held } := by
  have hheld : n ∉ w.held := by
    intro hmem
    obtain ⟨-, j, hj⟩ := (h.held n).mp hmem
    exact hnone j hj
  exact ⟨hheld, .opened hheld (h.length_held_lt hi)⟩

theorem kept {w₁ : Shelf} {q : List Buffer} {rest : List Frame} (hq : (s.slot i).ring.Holds cfg.depth q)
    (hrest : rest = (if q.length = cfg.depth then q.tail else q).map (load f.length))
    (hunread : w₁.unread = w.unread) (hnewest : w₁.newest = w.newest) (hnodup : w₁.held.Nodup)
    (hheld : ∀ n, n ∈ w₁.held ↔ n = f.length ∨ n ∈ w.held) (hf : f.length ≠ 0)
    (hi : (s.slot i).len = f.length ∨ (s.slot i).len = 0) (hother : ∀ j, (s.slot j).len = f.length → j = i) :
    Agrees cfg ((s.setSlot i (Link.pushed cfg f (s.slot i))).hear f) (w₁.kept f rest) := by
  have hslot (j : Fin 16) : ((s.setSlot i (Link.pushed cfg f (s.slot i))).hear f).slot j =
      if j = i then Link.pushed cfg f (s.slot i) else s.slot j := by
    rw [Link.slot_hear]
    exact update_apply ..
  have hne {j : Fin 16} (hj : j ≠ i) : (s.slot j).len ≠ f.length := fun heq ↦ hj (hother j heq)
  have hlen : (Link.pushed cfg f (s.slot i)).len = f.length := rfl
  refine ⟨?_, ?_, ?_, ?_, hnodup, ?_, ?_, ?_⟩
  · intro j
    rw [hslot]
    by_cases hj : j = i
    · rw [if_pos hj, hlen, Shelf.unread_kept, if_pos rfl, hrest]
      refine ⟨_, hq.push (store f), ?_⟩
      rw [List.map_append, List.map_singleton, load_store]
    · rw [if_neg hj, Shelf.unread_kept, if_neg (hne hj), hunread]
      exact h.ring j
  · intro j
    rw [hslot]
    by_cases hj : j = i
    · rw [if_pos hj, hlen, Shelf.newest_kept, if_pos rfl]
      intro _
      refine congrArg some ?_
      exact load_store.symm.trans (congrArg (load f.length) (hq.entry_newest_push (store f)).symm)
    · rw [if_neg hj, Shelf.newest_kept, if_neg (hne hj), hnewest]
      exact h.newest j
  · intro j k
    rw [hslot, hslot]
    by_cases hj : j = i
    · by_cases hk : k = i
      · exact fun _ _ ↦ hk.trans hj.symm
      · rw [if_pos hj, if_neg hk, hlen]
        exact fun _ heq ↦ absurd heq (hne hk)
    · by_cases hk : k = i
      · rw [if_neg hj, if_pos hk, hlen]
        exact fun _ heq ↦ absurd heq.symm (hne hj)
      · rw [if_neg hj, if_neg hk]
        exact h.distinct j k
  · intro n
    refine (hheld n).trans ?_
    rw [h.held]
    constructor
    · rintro (rfl | ⟨hn, j, hj⟩)
      · exact ⟨hf, i, by rw [hslot, if_pos rfl, hlen]⟩
      · refine ⟨hn, j, ?_⟩
        rw [hslot]
        by_cases hji : j = i
        · subst hji
          rw [if_pos rfl, hlen]
          exact (hi.resolve_right fun h0 ↦ hn (hj.symm.trans h0)).symm.trans hj
        · rw [if_neg hji]
          exact hj
    · rintro ⟨hn, j, hj⟩
      rw [hslot] at hj
      by_cases hji : j = i
      · rw [if_pos hji, hlen] at hj
        exact .inl hj.symm
      · rw [if_neg hji] at hj
        exact .inr ⟨hn, j, hj⟩
  · intro n hn
    have hout : ¬(n = f.length ∨ n ∈ w.held) := fun hin ↦ hn ((hheld n).mpr hin)
    rw [Shelf.unread_kept, if_neg fun heq ↦ hout (.inl heq), hunread]
    exact h.unheld n fun hin ↦ hout (.inr hin)
  · intro record hrecord
    rw [Shelf.newest_kept] at hrecord
    by_cases hstatus : f.length = statusLen
    · rw [if_pos hstatus.symm] at hrecord
      rw [Link.hear, if_pos hstatus, Option.some.inj hrecord]
      exact ⟨rfl, rfl⟩
    · rw [if_neg fun heq ↦ hstatus heq.symm, hnewest] at hrecord
      rw [Link.hear, if_neg hstatus]
      exact h.wire record hrecord
  · intro hrecord
    rw [Shelf.newest_kept] at hrecord
    by_cases hstatus : f.length = statusLen
    · rw [if_pos hstatus.symm] at hrecord
      cases hrecord
    · rw [if_neg fun heq ↦ hstatus heq.symm, hnewest] at hrecord
      rw [Link.hear, if_neg hstatus]
      exact h.silent hrecord

theorem deposit (hf : f.length ≠ 0) (hi : (s.slot i).len = f.length ∨
    (s.slot i).len = 0 ∧ ∀ j, (s.slot j).len ≠ f.length) :
    ∃ w', w.Follows cfg (s.deposit cfg i f).2 w' ∧ Agrees cfg (s.deposit cfg i f).1 w' ∧
      arrivals (s.deposit cfg i f).2 = [f] := by
  obtain ⟨q, hq, hmap⟩ := h.ring i
  have hother (j : Fin 16) (hj : (s.slot j).len = f.length) : j = i := by
    obtain hown | ⟨-, hnone⟩ := hi
    · exact h.distinct i j (hown ▸ hf) (hj.trans hown.symm)
    · exact absurd hj (hnone j)
  obtain ⟨w₁, hopen, hunread, hnewest, hnodup, hheld⟩ : ∃ w₁ : Shelf,
      w.Follows cfg (if (s.slot i).len = f.length then [] else [.opened f.length]) w₁ ∧ w₁.unread = w.unread ∧
        w₁.newest = w.newest ∧ w₁.held.Nodup ∧ ∀ n, n ∈ w₁.held ↔ n = f.length ∨ n ∈ w.held := by
    by_cases hown : (s.slot i).len = f.length
    · rw [if_pos hown]
      refine ⟨w, .nil, rfl, rfl, h.nodup, fun n ↦ ⟨.inr, ?_⟩⟩
      rintro (rfl | hn)
      · exact (h.held _).mpr ⟨hf, i, hown⟩
      · exact hn
    · rw [if_neg hown]
      obtain ⟨hzero, hnone⟩ := hi.resolve_left hown
      obtain ⟨hheld, hstep⟩ := h.opened hzero hnone
      exact ⟨_, .single hstep, rfl, rfl, List.nodup_cons.mpr ⟨hheld, h.nodup⟩, fun n ↦ List.mem_cons⟩
  have hqueue : q.map (load f.length) = w₁.unread f.length := by
    rw [hunread]
    obtain hown | ⟨hzero, hnone⟩ := hi
    · rw [← hown]
      exact hmap
    · rw [hzero, h.zero_unread, List.map_eq_nil_iff] at hmap
      rw [hmap, h.unheld _ (h.opened hzero hnone).1]
      rfl
  have hput : (s.slot i).ring.put % cfg.depth = (s.slot i).ring.put := Nat.mod_eq_of_lt hq.put_lt
  have hstored : w₁.Takes cfg (.stored f (if (s.slot i).ring.fresh ((s.slot i).ring.put % cfg.depth) then
      some (load f.length ((s.slot i).ring.entry ((s.slot i).ring.put % cfg.depth))) else none))
      (w₁.kept f ((if q.length = cfg.depth then q.tail else q).map (load f.length))) := by
    have hin := (hheld f.length).mpr (.inl rfl)
    rw [hput, hq.fresh_put]
    by_cases hfull : q.length = cfg.depth
    · have hhead := hq.entry_put hfull
      rw [decide_eq_true hfull, if_pos rfl, if_pos hfull]
      rw [hhead] at hqueue
      refine .overwrote hin hqueue.symm ?_ length_load
      rw [List.length_map, List.length_tail, hfull]
      exact Nat.sub_add_cancel cfg.depth_pos
    · rw [decide_eq_false hfull, if_neg Bool.false_ne_true, if_neg hfull, hqueue]
      refine .stored hin ?_
      rw [← hqueue, List.length_map]
      exact Nat.lt_of_le_of_ne hq.size hfull
  refine ⟨_, hopen.snoc hstored, ?_, ?_⟩
  · exact h.kept hq rfl hunread hnewest hnodup hheld hf (hi.imp_right And.left) hother
  · change arrivals (_ ++ [Label.stored f _]) = [f]
    rw [arrivals_append]
    split <;> rfl

theorem unread_iff : (s.slot i).ring.unread cfg.depth = true ↔ w.unread (s.slot i).len ≠ [] := by
  obtain ⟨q, hq, hmap⟩ := h.ring i
  rw [hq.unread_eq, decide_eq_true_eq, ← hmap]
  exact not_congr List.map_eq_nil_iff.symm

theorem recycle (hlen : (s.slot i).len ≠ 0) (hstatus : (s.slot i).len ≠ statusLen)
    (hread : w.unread (s.slot i).len = []) :
    Agrees cfg (s.recycle i)
      { w with held := w.held.erase (s.slot i).len, newest := update w.newest (s.slot i).len none } := by
  have hslot (j : Fin 16) : (s.recycle i).slot j = if j = i then { len := 0, ring := (s.slot i).ring.clear }
      else s.slot j := update_apply ..
  have hne {j : Fin 16} (hj : j ≠ i) : (s.slot j).len ≠ (s.slot i).len := fun heq ↦ hj (h.distinct i j hlen heq)
  refine ⟨?_, ?_, ?_, ?_, h.nodup.erase _, ?_, ?_, ?_⟩
  · intro j
    rw [hslot]
    by_cases hj : j = i
    · rw [if_pos hj]
      exact ⟨[], MarkedRing.holds_clear cfg.depth_pos, h.zero_unread.symm⟩
    · rw [if_neg hj]
      exact h.ring j
  · intro j
    rw [hslot]
    by_cases hj : j = i
    · rw [if_pos hj]
      exact fun h0 ↦ absurd rfl h0
    · rw [if_neg hj]
      intro h0
      exact (update_of_ne (hne hj) ..).trans (h.newest j h0)
  · intro j k
    rw [hslot, hslot]
    by_cases hj : j = i
    · rw [if_pos hj]
      exact fun h0 ↦ absurd rfl h0
    · by_cases hk : k = i
      · rw [if_neg hj, if_pos hk]
        exact fun h0 heq ↦ absurd heq.symm h0
      · rw [if_neg hj, if_neg hk]
        exact h.distinct j k
  · intro n
    rw [h.nodup.mem_erase_iff, h.held]
    constructor
    · rintro ⟨hn, hpos, j, hj⟩
      refine ⟨hpos, j, ?_⟩
      have hji : j ≠ i := by
        rintro rfl
        exact hn hj.symm
      rw [hslot, if_neg hji]
      exact hj
    · rintro ⟨hn, j, hj⟩
      rw [hslot] at hj
      by_cases hji : j = i
      · rw [if_pos hji] at hj
        exact absurd hj.symm hn
      · rw [if_neg hji] at hj
        exact ⟨hj ▸ hne hji, hn, j, hj⟩
  · intro n hn
    by_cases hsame : n = (s.slot i).len
    · rw [hsame]
      exact hread
    · exact h.unheld n fun hin ↦ hn ((List.mem_erase_of_ne hsame).mpr hin)
  · intro record hrecord
    exact h.wire record ((update_of_ne hstatus.symm ..).symm.trans hrecord)
  · intro hrecord
    exact h.silent ((update_of_ne hstatus.symm ..).symm.trans hrecord)

theorem accept (hf : f.length ≠ 0) : ∃ w', w.Follows cfg (s.accept cfg f).2 w' ∧
    Agrees cfg (s.accept cfg f).1 w' ∧
    arrivals (s.accept cfg f).2 = [f] := by
  unfold Link.accept
  cases hown : s.holder f.length with
  | some i => exact h.deposit hf (.inl (Link.holder_some hown))
  | none =>
    have hnone := Link.holder_none hown
    cases hzero : s.holder 0 with
    | some i => exact h.deposit hf (.inr ⟨Link.holder_some hzero, hnone⟩)
    | none =>
      have hfull := Link.holder_none hzero
      rw [Option.none_or]
      cases hidle : s.idle cfg with
      | some i =>
        have hfound := List.find?_some hidle
        rw [Bool.and_eq_true, bne_iff_ne, Bool.not_eq_true'] at hfound
        have hread : w.unread (s.slot i).len = [] := by
          by_contra hne
          exact absurd (h.unread_iff.mpr hne) (Bool.eq_false_iff.mp hfound.2)
        have hfree := h.recycle (hfull i) hfound.1 hread
        have hslot (j : Fin 16) : (s.recycle i).slot j = if j = i then { len := 0, ring := (s.slot i).ring.clear }
            else s.slot j := update_apply ..
        have hempty : ((s.recycle i).slot i).len = 0 := by rw [hslot, if_pos rfl]
        have hothers (j : Fin 16) : ((s.recycle i).slot j).len ≠ f.length := by
          rw [hslot]
          by_cases hj : j = i
          · rw [if_pos hj]
            exact hf.symm
          · rw [if_neg hj]
            exact hnone j
        obtain ⟨w', hfollows, hagrees, harrivals⟩ := hfree.deposit hf (.inr ⟨hempty, hothers⟩)
        have hheld := (h.held _).mpr ⟨hfull i, i, rfl⟩
        exact ⟨w', .cons (.recycled hheld hread hfound.1) hfollows, hagrees, harrivals⟩
      | none =>
        refine ⟨w, .single (.turnedAway ?_ ?_ ?_), h, rfl⟩
        · intro hin
          obtain ⟨-, j, hj⟩ := (h.held _).mp hin
          exact hnone j hj
        · rw [(h.perm_held hfull).length_eq, List.length_map, List.length_finRange]
        · intro n hn
          obtain ⟨-, j, rfl⟩ := (h.held n).mp hn
          have hbusy := List.find?_eq_none.mp hidle j (List.mem_finRange j)
          rw [Bool.and_eq_true, bne_iff_ne, Bool.not_eq_true', not_and, Bool.not_eq_false] at hbusy
          by_cases hstatus : (s.slot j).len = statusLen
          · exact .inr hstatus
          · exact .inl (h.unread_iff.mp (hbusy hstatus))

theorem taken {entry : ℕ} {q : List Buffer} {rest : List Frame}
    (hq : ((s.slot i).ring.take cfg.depth entry).Holds cfg.depth q) (hrest : rest = q.map (load (s.slot i).len))
    (hn : (s.slot i).len ≠ 0) :
    Agrees cfg (s.setSlot i { s.slot i with ring := (s.slot i).ring.take cfg.depth entry })
      { w with unread := update w.unread (s.slot i).len rest } := by
  have hslot (j : Fin 16) : (s.setSlot i { s.slot i with ring := (s.slot i).ring.take cfg.depth entry }).slot j =
      if j = i then { s.slot i with ring := (s.slot i).ring.take cfg.depth entry } else s.slot j := update_apply ..
  have hlen (j : Fin 16) : ((s.setSlot i { s.slot i with ring := (s.slot i).ring.take cfg.depth entry }).slot j).len =
      (s.slot j).len := by
    rw [hslot]
    by_cases hj : j = i
    · rw [if_pos hj, hj]
    · rw [if_neg hj]
  refine ⟨?_, ?_, ?_, ?_, h.nodup, ?_, h.wire, h.silent⟩
  · intro j
    rw [hlen, hslot]
    by_cases hj : j = i
    · subst hj
      rw [if_pos rfl]
      exact ⟨q, hq, hrest.symm.trans (update_self (s.slot j).len rest w.unread).symm⟩
    · rw [if_neg hj]
      by_cases h0 : (s.slot j).len = (s.slot i).len
      · exact absurd (h.distinct i j hn h0) hj
      · obtain ⟨q', hq', hmap⟩ := h.ring j
        exact ⟨q', hq', hmap.trans (update_of_ne h0 ..).symm⟩
  · intro j
    rw [hlen, hslot]
    by_cases hj : j = i
    · subst hj
      rw [if_pos rfl]
      exact h.newest j
    · rw [if_neg hj]
      exact h.newest j
  · intro j k
    rw [hlen, hlen]
    exact h.distinct j k
  · intro n
    simp only [hlen]
    exact h.held n
  · intro n hout
    have hne : n ≠ (s.slot i).len := fun heq ↦ hout ((h.held n).mpr ⟨heq ▸ hn, i, heq.symm⟩)
    exact (update_of_ne hne ..).trans (h.unheld n hout)

theorem announces (ha : s.announces cfg n = true) : w.Announces n := by
  rw [Link.announces, Bool.and_eq_true, Bool.and_eq_true, bne_iff_ne, beq_iff_eq] at ha
  obtain ⟨⟨-, hne⟩, hlen⟩ := ha
  cases hnewest : w.newest statusLen with
  | none => exact absurd (h.silent hnewest) hne
  | some record =>
    obtain ⟨h29, h30⟩ := h.wire record hnewest
    exact ⟨record, hnewest, h29 ▸ hne, h30 ▸ hlen⟩

/-- The label of a receive that is answered out of the rings. -/
theorem take (hn : n ≠ 0) :
    ∃ w', w.Takes cfg (Link.outcome true n (s.take cfg n).2) w' ∧ Agrees cfg (s.take cfg n).1 w' := by
  unfold Link.take
  cases hholder : s.holder n with
  | none => exact ⟨w, .refused (h.unheld n (h.unread_of_no_holder hholder)), h⟩
  | some i =>
    obtain rfl := Link.holder_some hholder
    obtain ⟨q, hq, hmap⟩ := h.ring i
    dsimp only
    cases q with
    | cons a rest =>
      obtain ⟨holdest, hentry, htaken⟩ := hq.oldest_cons rfl
      rw [holdest]
      refine ⟨_, .handed length_load ?_, h.taken htaken rfl hn⟩
      rw [← hmap, ← hentry]
      rfl
    | nil =>
      rw [hq.oldest_nil rfl]
      dsimp only
      by_cases hstale : (cfg.freshOnly || ((s.slot i).len != statusLen && !s.announces cfg (s.slot i).len)) = true
      · rw [if_pos hstale]
        exact ⟨w, .refused hmap.symm, h⟩
      · rw [if_neg hstale]
        have hsame : update w.unread (s.slot i).len [] = w.unread := by
          have hempty : w.unread (s.slot i).len = [] := hmap.symm
          rw [← hempty, update_eq_self]
        have hagrees := h.taken (hq.take_newest rfl) rfl hn
        rw [List.map_nil, hsame] at hagrees
        rw [Bool.or_eq_true, not_or, Bool.and_eq_true, not_and, bne_iff_ne, Bool.not_eq_true', Bool.not_eq_false]
          at hstale
        refine ⟨w, .repeated length_load hmap.symm (h.newest i hn) (Bool.eq_false_iff.mpr hstale.1) ?_, hagrees⟩
        by_cases hstatus : (s.slot i).len = statusLen
        · exact .inl hstatus
        · exact .inr (h.announces (hstale.2 hstatus))

end Agrees

end Cdj2000Emulator.SportLink
