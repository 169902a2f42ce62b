import Cdj2000Emulator.Link.Grants

namespace Cdj2000Emulator.Link.Rounds

open Library.Stateful Library.Stateful.Machine
open Ethernet SyncHub Grants

variable {fails : ℕ → Bool} {hub hub' : Hub} {replay : Replay} {horizon : ℤ} {frame : Frame}
  {target : Option (Frame × Frame)}

def place (hub : Hub) : Option Replay × ℤ × ℕ × ℕ :=
  (hub.replay, hub.replayOrigin, hub.replayIndex, hub.replayLap)

theorem keeps_sendFrames {receivers : List ℕ} {stamp : ℤ} {origin : Origin} :
    Keeps place (sendFrames fails receivers stamp origin frame) := by
  refine keeps_forM (fun deck hub ↦ ?_) receivers
  unfold sendMsg
  split_ifs <;> rfl

def played (hub : Hub) (replay : Replay) : ℕ :=
  hub.replayLap * replay.frames.length + hub.replayIndex

theorem keeps_broadcast {due : ℤ} : Keeps place (broadcast fails target due frame) := by
  refine keeps_get fun hub ↦ ?_
  split
  next => exact keeps_fail
  next =>
    split
    next => exact keeps_pure
    next => exact (keeps_require.bind fun _ _ ↦ rfl).bind fun _ ↦ keeps_sendFrames

theorem place_play {due : ℤ} {result : Except Exception Unit}
    (h : play fails target due frame hub = (hub', result)) : place hub' = place hub.advance :=
  keeps_broadcast.eq_of_run h

theorem played_advance (recorded : hub.replay = some replay) :
    played hub.advance replay = played hub replay + 1 := by
  unfold played Hub.advance
  simp only [recorded, Option.any_some]
  split_ifs with last
  · have full := (of_decide_eq_true last).1
    change (hub.replayLap + 1) * replay.frames.length + 0 = _
    rw [Nat.succ_mul]
    omega
  · rfl

def laps (hub : Hub) (replay : Replay) (horizon : ℤ) : ℕ :=
  ⌈((horizon - hub.replayOrigin + 1 : ℤ) : ℚ) / (replay.span * second)⌉.toNat

theorem le_int {n : ℤ} {q : ℚ} (h : (n : ℚ) ≤ q) : n ≤ int q := by
  have whole : int (n : ℚ) = n := by
    unfold int
    split_ifs <;> simp
  exact whole ▸ int_mono h

theorem lap_lt_of_due {due : ℤ} (order : InTimeOrder replay) (recorded : hub.replay = some replay)
    (next : hub.replayDue = some due) (soon : due ≤ horizon) :
    hub.replayIndex < replay.frames.length ∧ hub.replayLap < laps hub replay horizon := by
  simp only [Hub.replayDue, Hub.next, recorded, Option.bind_some, Option.map_map,
    Option.map_eq_some_iff, Function.comp] at next
  obtain ⟨⟨offset, frame⟩, at_index, rfl⟩ := next
  obtain ⟨short, at_index⟩ := List.getElem?_eq_some_iff.mp at_index
  have member : (offset, frame) ∈ replay.frames := at_index ▸ List.getElem_mem short
  have start : 0 ≤ offset := order.starts _ member
  have positive : 0 < replay.span * second :=
    mul_pos (start.trans_lt (order.within _ member)) second_pos
  refine ⟨short, not_le.mp fun late ↦ absurd soon (not_le.mpr ?_)⟩
  have reach : ((horizon - hub.replayOrigin + 1 : ℤ) : ℚ) ≤
      (offset + hub.replayLap * replay.span) * second := by
    have enough : ((horizon - hub.replayOrigin + 1 : ℤ) : ℚ) / (replay.span * second) ≤
        hub.replayLap :=
      (Int.le_ceil _).trans (by exact_mod_cast (Int.self_le_toNat _).trans (Int.ofNat_le.mpr late))
    rw [div_le_iff₀ positive] at enough
    nlinarith [mul_nonneg start second_pos.le]
  have whole := le_int reach
  dsimp only
  omega

theorem playUpTo_done (order : InTimeOrder replay) (rounds : ℕ) (recorded : hub.replay = some replay)
    (enough : laps hub replay horizon * replay.frames.length < rounds + played hub replay)
    (h : playUpTo fails horizon target rounds hub = (hub', .ok ())) :
    ∀ due, hub'.replayDue = some due → horizon < due := by
  induction rounds generalizing hub with
  | zero =>
    cases h
    intro due next
    refine not_le.mp fun soon ↦ ?_
    obtain ⟨short, early⟩ := lap_lt_of_due order recorded next soon
    have before : (hub'.replayLap + 1) * replay.frames.length ≤
        laps hub' replay horizon * replay.frames.length := Nat.mul_le_mul_right _ early
    rw [Nat.succ_mul] at before
    unfold played at enough
    omega
  | succ rounds ih =>
    obtain ⟨_, _, ⟨⟩, h⟩ := bind_ok.mp h
    rcases next : hub.next with _ | ⟨due, frame⟩
    · rw [next] at h
      cases h
      intro due due_next
      rw [Hub.replayDue, next] at due_next
      cases due_next
    · rw [next] at h
      dsimp only at h
      split_ifs at h with late
      · cases h
        intro due' next'
        rw [Hub.replayDue, next] at next'
        exact Option.some_inj.mp next' ▸ late
      · obtain ⟨_, hub₁, first, rest⟩ := bind_ok.mp h
        have moved := place_play first
        simp only [place, Prod.mk.injEq] at moved
        obtain ⟨same, origin, index, lap⟩ := moved
        have ahead := played_advance recorded
        have from_origin : hub.advance.replayOrigin = hub.replayOrigin := by
          unfold Hub.advance
          simp only
          split_ifs <;> rfl
        refine ih (same.trans ((advance_fields hub).2.2.2.2.trans recorded)) ?_ rest
        unfold laps played at enough ahead ⊢
        rw [origin, from_origin, index, lap]
        omega

theorem pushReplay_done (order : InTimeOrder replay) (recorded : hub.replay = some replay)
    (connected : hub.clients ≠ []) (h : pushReplay fails hub = (hub', .ok ())) :
    ∀ due, hub'.replayDue = some due →
      (((hub.clients.map (·.t)).foldl max 0 + second : ℕ) : ℤ) < due := by
  obtain ⟨_, _, ⟨⟩, h⟩ := bind_ok.mp h
  rw [recorded] at h
  dsimp only at h
  rw [if_neg connected] at h
  refine playUpTo_done order _ recorded ?_ h
  unfold laps rounds
  rw [Nat.mul_add, Nat.mul_comm]
  omega

end Cdj2000Emulator.Link.Rounds
