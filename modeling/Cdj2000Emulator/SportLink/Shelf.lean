import Cdj2000Emulator.SportLink.Model
import Cdj2000Emulator.Library.Traces

namespace Cdj2000Emulator.SportLink

open Library Library.Bytes Library.Traces Function

section Histories

variable (history history' : List Label)

def arrivals : List Frame :=
  history.filterMap fun
    | .stored f _ | .turnedAway f => some f
    | _ => none

/-- The arrivals of one length that found a place. -/
def storedOf (n : ℕ) : List Frame :=
  history.filterMap fun
    | .stored f _ => if f.length = n then some f else none
    | _ => none

def goneOf (n : ℕ) : List Frame :=
  history.filterMap fun
    | .stored _ (some lost) => if lost.length = n then some lost else none
    | .handed m f => if m = n then some f else none
    | _ => none

def freshOf (n : ℕ) : List Frame :=
  history.filterMap fun
    | .handed m f => if m = n then some f else none
    | _ => none

def givenOf : List Frame :=
  history.filterMap fun
    | .handed _ f | .repeated _ f | .raw f => some f
    | _ => none

theorem givenOf_append : givenOf (history ++ history') = givenOf history ++ givenOf history' :=
  List.filterMap_append

theorem arrivals_append : arrivals (history ++ history') = arrivals history ++ arrivals history' :=
  List.filterMap_append

theorem freshOf_sublist (n : ℕ) : (freshOf history n).Sublist (goneOf history n) := by
  induction history with
  | nil => exact .refl _
  | cons l history ih =>
    rw [freshOf, goneOf, ← List.singleton_append, List.filterMap_append, List.filterMap_append]
    refine List.Sublist.append ?_ ih
    cases l with
    | handed m f => exact .refl _
    | _ => exact List.nil_sublist _

theorem storedOf_sublist (n : ℕ) : (storedOf history n).Sublist ((arrivals history).filter (·.length = n)) := by
  induction history with
  | nil => exact .refl _
  | cons l history ih =>
    rw [storedOf, arrivals, ← List.singleton_append, List.filterMap_append, List.filterMap_append, List.filter_append]
    refine List.Sublist.append ?_ ih
    cases l with
    | stored f lost =>
      by_cases hn : f.length = n
      · simp [hn]
      · simp [hn]
    | _ => exact List.nil_sublist _

end Histories

/-- What MAIN has sent as it should be kept: the lengths that hold a place, the unread frames of each length, the oldest
first, and the newest of each. -/
structure Shelf where
  held : List ℕ
  unread : ℕ → List Frame
  newest : ℕ → Option Frame

namespace Shelf

variable {cfg : Config} {w w' : Shelf} {history : List Label} {n : ℕ}

def empty : Shelf := { held := [], unread := fun _ ↦ [], newest := fun _ ↦ none }

def Announces (w : Shelf) (n : ℕ) : Prop :=
  ∃ record, w.newest statusLen = some record ∧ halfword record 29 ≠ 0 ∧ halfword record 30 * 2 = n

def kept (f : Frame) (rest : List Frame) (w : Shelf) : Shelf :=
  { w with unread := update w.unread f.length (rest ++ [f]), newest := update w.newest f.length (some f) }

theorem unread_kept {f : Frame} {rest : List Frame} :
    (w.kept f rest).unread n = if n = f.length then rest ++ [f] else w.unread n := update_apply ..

theorem newest_kept {f : Frame} {rest : List Frame} :
    (w.kept f rest).newest n = if n = f.length then some f else w.newest n := update_apply ..

/-- A frame is lost for a newer one of its length only as the oldest of as many as are kept, or when it arrives while
sixteen other lengths hold all the places and none of them can go. It is handed over fresh in its turn, and again only
as the newest of its length. -/
inductive Takes (cfg : Config) : Shelf → Label → Shelf → Prop
  | opened {w : Shelf} {n : ℕ} : n ∉ w.held → w.held.length < 16 →
      Takes cfg w (.opened n) { w with held := n :: w.held }
  | recycled {w : Shelf} {n : ℕ} : n ∈ w.held → w.unread n = [] → n ≠ statusLen →
      Takes cfg w (.recycled n) { w with held := w.held.erase n, newest := update w.newest n none }
  | stored {w : Shelf} {f : Frame} : f.length ∈ w.held → (w.unread f.length).length < cfg.depth →
      Takes cfg w (.stored f none) (w.kept f (w.unread f.length))
  | overwrote {w : Shelf} {f lost : Frame} {rest : List Frame} : f.length ∈ w.held →
      w.unread f.length = lost :: rest → rest.length + 1 = cfg.depth → lost.length = f.length →
      Takes cfg w (.stored f (some lost)) (w.kept f rest)
  | turnedAway {w : Shelf} {f : Frame} : f.length ∉ w.held → w.held.length = 16 →
      (∀ n ∈ w.held, w.unread n ≠ [] ∨ n = statusLen) → Takes cfg w (.turnedAway f) w
  | handed {w : Shelf} {n : ℕ} {f : Frame} {rest : List Frame} : f.length = n → w.unread n = f :: rest →
      Takes cfg w (.handed n f) { w with unread := update w.unread n rest }
  | repeated {w : Shelf} {n : ℕ} {f : Frame} : f.length = n → w.unread n = [] → w.newest n = some f →
      cfg.freshOnly = false → n = statusLen ∨ w.Announces n → Takes cfg w (.repeated n f) w
  | refused {w : Shelf} {n : ℕ} : w.unread n = [] → Takes cfg w (.refused n) w

abbrev Follows (cfg : Config) : Shelf → List Label → Shelf → Prop := Path (Takes cfg)

theorem queue_step {l : Label} (h : Takes cfg w l w') :
    w.unread n ++ storedOf [l] n = goneOf [l] n ++ w'.unread n := by
  cases h with
  | opened | recycled | turnedAway | repeated | refused => exact List.append_nil _
  | @stored f _ _ =>
    by_cases hn : f.length = n
    · subst hn
      simp [storedOf, goneOf, kept]
    · simp [storedOf, goneOf, kept, hn, update_of_ne (Ne.symm hn)]
  | @overwrote f lost rest _ hhead _ hlen =>
    by_cases hn : f.length = n
    · subst hn
      simp [storedOf, goneOf, kept, hhead, hlen]
    · simp [storedOf, goneOf, kept, hlen, hn, update_of_ne (Ne.symm hn)]
  | @handed m f rest _ hhead =>
    by_cases hn : m = n
    · subst hn
      simp [storedOf, goneOf, hhead]
    · simp [storedOf, goneOf, hn, update_of_ne (Ne.symm hn)]

/-- The frames of one length go in the order in which they were stored. -/
theorem Follows.queue (h : Follows cfg w history w') :
    w.unread n ++ storedOf history n = goneOf history n ++ w'.unread n := by
  induction h with
  | nil => exact List.append_nil _
  | @cons w _ _ l es hs _ ih =>
    have hstored : storedOf (l :: es) n = storedOf [l] n ++ storedOf es n := by
      rw [storedOf, ← List.singleton_append, List.filterMap_append]
      rfl
    have hgone : goneOf (l :: es) n = goneOf [l] n ++ goneOf es n := by
      rw [goneOf, ← List.singleton_append, List.filterMap_append]
      rfl
    rw [hstored, hgone, ← List.append_assoc, queue_step hs, List.append_assoc, ih, List.append_assoc]

/-- What is kept has arrived. -/
structure Known (w : Shelf) (frames : List Frame) : Prop where
  unread : ∀ n, ∀ f ∈ w.unread n, f ∈ frames
  newest : ∀ n f, w.newest n = some f → f ∈ frames

variable {frames : List Frame}

theorem Known.mono {frames' : List Frame} (h : w.Known frames) (hsub : ∀ f ∈ frames, f ∈ frames') :
    w.Known frames' :=
  ⟨fun n f hf ↦ hsub f (h.unread n f hf), fun n f hf ↦ hsub f (h.newest n f hf)⟩

theorem Known.kept {f : Frame} {rest : List Frame} (h : w.Known frames) (hrest : ∀ g ∈ rest, g ∈ frames) :
    (w.kept f rest).Known (frames ++ [f]) where
  unread n g hg := by
    rw [unread_kept] at hg
    split_ifs at hg with hn
    · exact (List.mem_append.mp hg).elim (fun h ↦ List.mem_append_left _ (hrest g h)) (List.mem_append_right _)
    · exact List.mem_append_left _ (h.unread n g hg)
  newest n g hg := by
    rw [newest_kept] at hg
    split_ifs at hg with hn
    · exact List.mem_append_right _ (Option.some.inj hg ▸ List.mem_singleton_self f)
    · exact List.mem_append_left _ (h.newest n g hg)

theorem Known.takes {l : Label} (h : w.Known frames) (ht : Takes cfg w l w') :
    w'.Known (frames ++ arrivals [l]) ∧ ∀ f ∈ givenOf [l], f ∈ frames := by
  have hnone {f : Frame} (hf : f ∈ ([] : List Frame)) : f ∈ frames := absurd hf List.not_mem_nil
  have hleft (f : Frame) (hf : f ∈ frames) : f ∈ frames ++ arrivals [l] := List.mem_append_left _ hf
  cases ht with
  | opened => exact ⟨⟨(h.mono hleft).unread, (h.mono hleft).newest⟩, fun _ ↦ hnone⟩
  | turnedAway => exact ⟨h.mono hleft, fun _ ↦ hnone⟩
  | refused => exact ⟨h.mono hleft, fun _ ↦ hnone⟩
  | recycled =>
    refine ⟨⟨fun n f hf ↦ hleft f (h.unread n f hf), fun n f hf ↦ ?_⟩, fun _ ↦ hnone⟩
    dsimp only at hf
    rw [update_apply] at hf
    split_ifs at hf with hn
    exact hleft f (h.newest n f hf)
  | @stored f _ _ => exact ⟨h.kept (h.unread f.length), fun _ ↦ hnone⟩
  | @overwrote f lost rest _ hhead =>
    exact ⟨h.kept fun g hg ↦ h.unread f.length g (hhead ▸ List.mem_cons_of_mem lost hg), fun _ ↦ hnone⟩
  | @handed n f rest _ hhead =>
    have hin (g : Frame) (hg : g ∈ f :: rest) : g ∈ frames := h.unread n g (hhead ▸ hg)
    refine ⟨⟨fun m g hg ↦ hleft g ?_, fun m g hg ↦ hleft g (h.newest m g hg)⟩, fun g hg ↦ ?_⟩
    · dsimp only at hg
      rw [update_apply] at hg
      split_ifs at hg with hm
      · exact hin g (List.mem_cons_of_mem f hg)
      · exact h.unread m g hg
    · exact hin g (List.mem_singleton.mp hg ▸ List.mem_cons_self)
  | @repeated n f _ _ hnewest =>
    exact ⟨h.mono hleft, fun g hg ↦ h.newest n g (List.mem_singleton.mp hg ▸ hnewest)⟩

theorem Follows.known (h : Follows cfg w history w') (hw : w.Known frames) :
    ∀ f ∈ givenOf history, f ∈ frames ++ arrivals history := by
  induction h generalizing frames with
  | nil => exact fun f hf ↦ absurd hf List.not_mem_nil
  | @cons _ _ _ l ls ht _ ih =>
    obtain ⟨hnext, hgiven⟩ := hw.takes ht
    intro f hf
    rw [← List.singleton_append, givenOf_append, List.mem_append] at hf
    rw [← List.singleton_append, arrivals_append, ← List.append_assoc]
    rcases hf with hfirst | hlater
    · exact List.mem_append_left _ (List.mem_append_left _ (hgiven f hfirst))
    · exact ih hnext f hlater

theorem known_empty : empty.Known [] := ⟨fun _ _ h ↦ h, fun _ _ h ↦ absurd h (by simp [empty])⟩

theorem Follows.fresh_sublist (h : Follows cfg empty history w') (n : ℕ) :
    (freshOf history n).Sublist ((arrivals history).filter (·.length = n)) := by
  have hqueue : storedOf history n = goneOf history n ++ w'.unread n := h.queue
  have hgone : (goneOf history n).Sublist (storedOf history n) := by
    rw [hqueue]
    exact List.sublist_append_left _ _
  exact (freshOf_sublist history n).trans (hgone.trans (storedOf_sublist history n))

end Shelf

end Cdj2000Emulator.SportLink
