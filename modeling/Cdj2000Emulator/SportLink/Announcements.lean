import Cdj2000Emulator.SportLink.Deliveries
import Cdj2000Emulator.SportLink.Records

namespace Cdj2000Emulator.SportLink

open Library Library.Bytes Library.Traces

variable {setup : Setup} {s t : Sport} {f held record : Frame} {i k n : ℕ}

section Fields

theorem getD_set (b : Byte) (h : i < record.length) :
    (record.set i b).getD k 0 = if k = i then b else record.getD k 0 := by
  rw [List.getD_eq_getElem?_getD, List.getElem?_set, List.getD_eq_getElem?_getD]
  by_cases hk : k = i
  · rw [if_pos hk.symm, if_pos hk, if_pos h, Option.getD_some]
  · rw [if_neg (Ne.symm hk), if_neg hk]

theorem length_setHalfword {value : BitVec 16} : (setHalfword i value record).length = record.length := by
  rw [setHalfword, List.length_set, List.length_set]

theorem halfword_setHalfword {value : BitVec 16} (h : 2 * i + 1 < record.length) :
    halfword (setHalfword i value record) k = if k = i then value.toNat else halfword record k := by
  unfold halfword setHalfword
  rw [getD_set _ (by rw [List.length_set]; exact h), getD_set _ (by omega),
    getD_set _ (by rw [List.length_set]; exact h),
    getD_set _ (by omega)]
  by_cases hk : k = i
  · subst hk
    rw [if_neg (by omega), if_pos rfl, if_pos rfl, if_pos rfl, BitVec.toNat_setWidth, BitVec.toNat_setWidth,
      BitVec.toNat_ushiftRight, Nat.shiftRight_eq_div_pow]
    have := value.isLt
    omega
  · rw [if_neg (by omega), if_neg (by omega), if_neg (by omega), if_neg (by omega), if_neg hk]

theorem halfword_stamp (h : record.length = statusLen) (hk : k ≠ 31) :
    halfword (stamp record) k = halfword record k := by
  have hlen : 2 * 31 + 1 < record.length := h ▸ (by decide)
  rw [stamp, halfword_setHalfword hlen, if_neg hk]

theorem valid_stamp (h : record.length = statusLen) : Valid (stamp record) := by
  have hlen : 2 * 31 + 1 < record.length := h ▸ (by decide)
  have htake : (stamp record).take 62 = record.take 62 := by
    unfold stamp setHalfword
    rw [List.take_set_of_le (by decide), List.take_set_of_le (by decide)]
  rw [Valid, htake, stamp, halfword_setHalfword hlen, if_pos rfl]

theorem announcing_iff : announcing record = true ↔ halfword record 29 ≠ 0 := by
  unfold announcing halfword
  rw [bne_iff_ne, not_iff_not]
  refine BitVec.or_eq_zero_iff.trans ⟨?_, fun h ↦ ?_⟩
  · rintro ⟨h58, h59⟩
    rw [h58, h59]
    rfl
  · change (record.getD 58 0).toNat + 256 * (record.getD 59 0).toNat = 0 at h
    obtain ⟨h58, h59⟩ : (record.getD 58 0).toNat = 0 ∧ (record.getD 59 0).toNat = 0 := by omega
    exact ⟨BitVec.eq_of_toNat_eq h58, BitVec.eq_of_toNat_eq h59⟩

variable {b₅₈ b₅₉ b₆₀ b₆₁ : Byte}

theorem length_setAnnounce : (setAnnounce b₅₈ b₅₉ b₆₀ b₆₁ record).length = record.length := by
  rw [setAnnounce, List.length_set, List.length_set, List.length_set, List.length_set]

theorem getD_setAnnounce (h : record.length = statusLen) :
    (setAnnounce b₅₈ b₅₉ b₆₀ b₆₁ record).getD k 0 =
    if k = 61 then b₆₁ else if k = 60 then b₆₀ else if k = 59 then b₅₉ else if k = 58 then b₅₈
    else record.getD k 0 := by
  have hlen : 61 < record.length := h ▸ (by decide)
  rw [setAnnounce, getD_set _ (by simp only [List.length_set]; omega),
    getD_set _ (by simp only [List.length_set]; omega),
    getD_set _ (by simp only [List.length_set]; omega), getD_set _ (by omega)]

/-- The fields that are not the announcement are left alone. -/
theorem halfword_setAnnounce (h : record.length = statusLen) (hk : k ≤ 28) :
    halfword (setAnnounce b₅₈ b₅₉ b₆₀ b₆₁ record) k = halfword record k := by
  unfold halfword
  rw [getD_setAnnounce h, getD_setAnnounce h]
  repeat rw [if_neg (by omega)]

theorem halfword_carry (held : Frame) (h : record.length = statusLen) :
    halfword (carryAnnounce held record) 29 = halfword held 29 ∧
    halfword (carryAnnounce held record) 30 = halfword held 30 := by
  rw [carryAnnounce, halfword_stamp (length_setAnnounce.trans h) (by decide),
    halfword_stamp (length_setAnnounce.trans h) (by decide)]
  unfold halfword
  rw [getD_setAnnounce h, getD_setAnnounce h, getD_setAnnounce h, getD_setAnnounce h]
  exact ⟨rfl, rfl⟩

theorem not_announcing_clear (h : record.length = statusLen) : announcing (clearAnnounce record) = false := by
  refine Bool.eq_false_iff.mpr fun ha ↦ announcing_iff.mp ha ?_
  rw [clearAnnounce, halfword_stamp (length_setAnnounce.trans h) (by decide)]
  unfold halfword
  rw [getD_setAnnounce h, getD_setAnnounce h]
  rfl

/-- A record as MAIN sent it, but for its announcement. -/
structure Like (f record : Frame) : Prop where
  length : record.length = statusLen
  fields : ∀ i ≤ 28, halfword record i = halfword f i
  valid : Valid f → Valid record

theorem Like.refl (h : f.length = statusLen) : Like f f := ⟨h, fun _ _ ↦ rfl, id⟩

theorem length_stamp : (stamp record).length = record.length := length_setHalfword

theorem Like.setAnnounce (h : Like f record) : Like f (stamp (setAnnounce b₅₈ b₅₉ b₆₀ b₆₁ record)) where
  length := length_stamp.trans (length_setAnnounce.trans h.length)
  fields i hi := by
    rw [halfword_stamp (length_setAnnounce.trans h.length) (by omega), halfword_setAnnounce h.length hi]
    exact h.fields i hi
  valid _ := valid_stamp (length_setAnnounce.trans h.length)

theorem Like.carry (h : Like f record) : Like f (carryAnnounce held record) := h.setAnnounce

theorem Like.clear (h : Like f record) : Like f (clearAnnounce record) := h.setAnnounce

end Fields

theorem length_take {cfg : Config} {link : Link} {fresh : Bool} (h : (link.take cfg n).2 = some (f, fresh)) :
    f.length = n := by
  unfold Link.take at h
  cases hholder : link.holder n with
  | none =>
    rw [hholder] at h
    cases h
  | some i =>
    rw [hholder] at h
    dsimp only at h
    cases holdest : (link.slot i).ring.oldest cfg.depth with
    | some entry =>
      rw [holdest] at h
      cases h
      exact length_load
    | none =>
      rw [holdest] at h
      dsimp only at h
      split at h
      · cases h
      · cases h
        exact length_load

theorem length_answer {cfg : Config} {link : Link} {fresh : Bool} (h : (link.answer cfg n).2 = some (f, fresh)) :
    f.length = n := by
  unfold Link.answer at h
  split_ifs at h with hframed hraw
  · exact length_take h
  · cases h
    exact List.length_take_of_le hraw

namespace Sport

def Same (s t : Sport) : Prop := t.last = s.last ∧ t.haveLast = s.haveLast ∧ t.pending = s.pending

/-- The ways that a reception can go while announcements are carried on. -/
inductive Effect (setup : Setup) (s t : Sport) : Option Delivery → Prop
  | nothing : Same s t → Effect setup s t none
  | zeros {addr : BitVec 32} : Same s t → Effect setup s t (some ⟨.zeros, addr, List.replicate 200 0⟩)
  | canned {addr : BitVec 32} {bytes : Frame} : Same s t → s.haveLast = false →
      Effect setup s t (some ⟨.canned, addr, bytes⟩)
  | again : Same s t → s.haveLast = true → Effect setup s t (some ⟨.last, statusBuffer, s.last⟩)
  | record {f : Frame} : f.length = statusLen → t.last = s.dress setup f → t.haveLast = true →
      t.pending = (announcing (s.dress setup f) || s.pending) →
      Effect setup s t (some ⟨.sent f, statusBuffer, s.dress setup f⟩)
  | payload {f : Frame} {addr : BitVec 32} : ¬(f.length = statusLen ∧ addr = statusBuffer) →
      t.last = (if s.haveLast then clearAnnounce s.last else s.last) → t.haveLast = s.haveLast →
        t.pending = false →
      Effect setup s t (some ⟨.sent f, addr, f⟩)

theorem noteRecord_fields (s : Sport) (link : Link) (record : Frame) :
    ({ s with link := link }.noteRecord record).last = record ∧
    ({ s with link := link }.noteRecord record).haveLast = true ∧
    ({ s with link := link }.noteRecord record).pending = (announcing record || s.pending) := by
  unfold noteRecord
  cases h : announcing record with
  | false => exact ⟨rfl, rfl, rfl⟩
  | true => exact ⟨rfl, rfl, rfl⟩

/-- With announcements carried on, no record is held in place. -/
theorem read_sticky (s : Sport) (addr : BitVec 32) (n : ℕ) (canned : Option Frame) (hsticky : setup.sticky = true) :
    s.read setup addr n canned = s.readLive setup addr n canned := by
  refine if_neg ?_
  unfold holds
  rw [hsticky]
  simp

theorem effect_readLive (s : Sport) (addr : BitVec 32) (n : ℕ) (canned : Option Frame)
    (hsticky : setup.sticky = true) :
    Effect setup s (s.readLive setup addr n canned).1 (s.readLive setup addr n canned).2 := by
  unfold readLive
  split
  · rename_i link f fresh hanswer
    obtain rfl := length_answer (congrArg Prod.snd hanswer)
    dsimp only
    split_ifs with hstatus
    · obtain ⟨hlen, rfl⟩ := hstatus
      obtain ⟨hlast, hhave, hpending⟩ := noteRecord_fields s link (s.dress setup f)
      exact .record hlen hlast hhave hpending
    · refine .payload hstatus ?_ rfl rfl
      change (if (setup.sticky || setup.oneshot) && s.haveLast then clearAnnounce s.last else s.last) = _
      rw [hsticky, Bool.true_or, Bool.true_and]
  · dsimp only
    split_ifs with hagain hquiet
    · obtain ⟨-, -, rfl, hhave⟩ := hagain
      exact .again ⟨rfl, rfl, rfl⟩ hhave
    · exact .nothing ⟨rfl, rfl, rfl⟩
    · cases canned with
      | none => exact .nothing ⟨rfl, rfl, rfl⟩
      | some bytes => exact .canned ⟨rfl, rfl, rfl⟩ (Bool.eq_false_iff.mpr fun h ↦ hquiet (.inr h))

theorem effect_of_receives {x : Reception × Option Delivery} (hsticky : setup.sticky = true)
    (h : Receives setup s x t) :
    Effect setup s t x.2 := by
  obtain ⟨e, result⟩ := x
  obtain ⟨-, hstep⟩ := h
  cases e with
  | poll bytes =>
    obtain ⟨rfl, rfl⟩ := Prod.mk.inj hstep
    exact .nothing ⟨rfl, rfl, rfl⟩
  | inject f =>
    obtain ⟨rfl, rfl⟩ := Prod.mk.inj hstep
    exact .nothing ⟨rfl, rfl, rfl⟩
  | housekeeping addr =>
    obtain ⟨rfl, rfl⟩ := Prod.mk.inj hstep
    exact .zeros ⟨rfl, rfl, rfl⟩
  | receive addr n canned =>
    have hlive := effect_readLive s addr n canned hsticky
    rw [← read_sticky s addr n canned hsticky] at hlive
    have hread : s.read setup addr n canned = (t, result) := hstep
    rw [hread] at hlive
    exact hlive

/-- The last record is one that MAIN sent, and what it announces has not been delivered. -/
structure Keeps (sent : List Frame) (s : Sport) : Prop where
  last : s.haveLast = true → ∃ f ∈ sent, Like f s.last
  pending : s.pending = true ↔ s.haveLast = true ∧ announcing s.last = true

/-- An announcement that has not been spent. -/
structure Open (s : Sport) (h₂₉ h₃₀ : ℕ) : Prop where
  pending : s.pending = true
  count : halfword s.last 29 = h₂₉
  words : halfword s.last 30 = h₃₀

variable {sent : List Frame} {h₂₉ h₃₀ : ℕ}

theorem keeps_init : Keeps sent init where
  last h := absurd h Bool.false_ne_true
  pending := iff_of_false Bool.false_ne_true fun h ↦ Bool.false_ne_true h.1

theorem Keeps.same (h : Keeps sent s) (hsame : Same s t) : Keeps sent t := by
  obtain ⟨hlast, hhave, hpending⟩ := hsame
  refine ⟨?_, ?_⟩
  · rw [hhave, hlast]
    exact h.last
  · rw [hpending, hhave, hlast]
    exact h.pending

theorem Keeps.mono {sent' : List Frame} (h : Keeps sent s) (hsub : ∀ f ∈ sent, f ∈ sent') : Keeps sent' s := by
  refine ⟨fun hhave ↦ ?_, h.pending⟩
  obtain ⟨f, hf, hlike⟩ := h.last hhave
  exact ⟨f, hsub f hf, hlike⟩

theorem Open.same (h : Open s h₂₉ h₃₀) (hsame : Same s t) : Open t h₂₉ h₃₀ := by
  obtain ⟨hlast, -, hpending⟩ := hsame
  exact ⟨hpending.trans h.pending, hlast ▸ h.count, hlast ▸ h.words⟩

theorem dress_cases (hsticky : setup.sticky = true) (hw13 : setup.w13 = none) (h : Keeps sent s) :
    (s.dress setup f = f ∧ (announcing f = true ∨ s.pending = false)) ∨
    (s.dress setup f = carryAnnounce s.last f ∧ announcing f = false ∧ s.pending = true) := by
  unfold dress forceW13
  rw [hw13, hsticky, Bool.true_and]
  cases hpending : s.pending with
  | false => exact .inl ⟨by rw [Bool.and_false, Bool.false_and]; exact if_neg Bool.false_ne_true, .inr rfl⟩
  | true =>
    rw [(h.pending.mp hpending).1]
    cases announcing f with
    | true => exact .inl ⟨rfl, .inl rfl⟩
    | false => exact .inr ⟨rfl, rfl, rfl⟩

theorem like_dress (hsticky : setup.sticky = true) (hw13 : setup.w13 = none) (h : Keeps sent s)
    (hf : f.length = statusLen) : Like f (s.dress setup f) := by
  obtain ⟨hsame, -⟩ | ⟨hcarried, -⟩ := dress_cases (f := f) hsticky hw13 h
  · rw [hsame]
    exact .refl hf
  · rw [hcarried]
    exact (Like.refl hf).carry

/-- An announcement that has not been spent goes out with every record, or gives way to MAIN's next one. -/
theorem announced_dress (hsticky : setup.sticky = true) (hw13 : setup.w13 = none) (h : Keeps sent s)
    (hf : f.length = statusLen) (hpending : s.pending = true) :
    halfword (s.dress setup f) 29 ≠ 0 ∧
    (halfword (s.dress setup f) 29 = halfword s.last 29 ∧ halfword (s.dress setup f) 30 = halfword s.last 30 ∨
      s.dress setup f = f) := by
  obtain ⟨hsame, hannouncing⟩ | ⟨hcarried, -⟩ := dress_cases (f := f) hsticky hw13 h
  · refine ⟨?_, .inr hsame⟩
    rw [hsame]
    exact announcing_iff.mp (hannouncing.resolve_right (by rw [hpending]; exact Bool.noConfusion))
  · obtain ⟨hcount, hwords⟩ := halfword_carry s.last hf
    rw [hcarried, hcount, hwords]
    exact ⟨announcing_iff.mp (h.pending.mp hpending).2, .inl ⟨rfl, rfl⟩⟩

def sentOf (ds : List Delivery) : List Frame :=
  ds.filterMap fun d ↦ match d.source with
    | .sent f => some f
    | _ => none

theorem givenOf_outcome {framed : Bool} {result : Option (Frame × Bool)} :
    givenOf [Link.outcome framed n result] = (result.map Prod.fst).toList := by
  obtain _ | ⟨f, fresh⟩ := result
  · rfl
  · cases framed <;> cases fresh <;> rfl

theorem link_readLive (s : Sport) (addr : BitVec 32) (n : ℕ) (canned : Option Frame) :
    (s.readLive setup addr n canned).1.link = (s.link.receive setup.cfg n).1 ∧
    ∀ f ∈ sentOf (s.readLive setup addr n canned).2.toList, f ∈ givenOf (s.link.receive setup.cfg n).2 := by
  unfold Link.receive
  rw [givenOf_outcome]
  unfold readLive
  split
  · rename_i link f fresh hanswer
    rw [hanswer]
    dsimp only
    split_ifs with hstatus
    · refine ⟨?_, fun _ h ↦ h⟩
      unfold noteRecord
      dsimp only
      split_ifs <;> rfl
    · exact ⟨rfl, fun _ h ↦ h⟩
  · rename_i link hanswer
    rw [hanswer]
    dsimp only
    split_ifs with hagain hquiet
    · exact ⟨rfl, fun _ h ↦ h⟩
    · exact ⟨rfl, fun _ h ↦ h⟩
    · cases canned <;> exact ⟨rfl, fun _ h ↦ h⟩

theorem link_receives {x : Reception × Option Delivery} (hsticky : setup.sticky = true) (h : Receives setup s x t) :
    ∃ es, Path (Step setup.cfg) s.link es t.link ∧ received es = x.1.event.toList.flatMap Event.bytes ∧
      ∀ f ∈ sentOf x.2.toList, f ∈ givenOf (history es) := by
  obtain ⟨e, result⟩ := x
  obtain ⟨hallowed, hstep⟩ := h
  cases e with
  | poll bytes =>
    obtain ⟨rfl, rfl⟩ := Prod.mk.inj hstep
    exact ⟨[(.poll bytes, (s.link.poll setup.cfg bytes).2)], .single ⟨hallowed _ rfl, rfl⟩, rfl,
      fun _ h ↦ absurd h List.not_mem_nil⟩
  | inject f =>
    obtain ⟨rfl, rfl⟩ := Prod.mk.inj hstep
    exact ⟨[(.inject f, (s.link.inject setup.cfg f).2)], .single ⟨hallowed _ rfl, rfl⟩, rfl,
      fun _ h ↦ absurd h List.not_mem_nil⟩
  | housekeeping addr =>
    obtain ⟨rfl, rfl⟩ := Prod.mk.inj hstep
    exact ⟨[], .nil, rfl, fun _ h ↦ absurd h List.not_mem_nil⟩
  | receive addr n canned =>
    have hread : s.readLive setup addr n canned = (t, result) := (read_sticky s addr n canned hsticky).symm.trans hstep
    obtain ⟨hlink, hgiven⟩ := @link_readLive setup s addr n canned
    rw [hread] at hlink hgiven
    refine ⟨[(.receive n, (s.link.receive setup.cfg n).2)], .single ⟨hallowed _ rfl, ?_⟩, rfl, ?_⟩
    · rw [hlink]
      rfl
    · rw [history, List.flatMap_singleton]
      exact hgiven

theorem keeps_step {d : Option Delivery} (hsticky : setup.sticky = true) (hw13 : setup.w13 = none) (h : Keeps sent s)
    (he : Effect setup s t d) : Keeps (sent ++ sentOf d.toList) t := by
  cases he with
  | nothing hsame | zeros hsame | canned hsame _ | again hsame _ =>
    exact (h.same hsame).mono fun f hf ↦ List.mem_append_left _ hf
  | @record f hf hlast hhave hpending =>
    refine ⟨fun _ ↦ ⟨f, List.mem_append_right _ List.mem_cons_self, ?_⟩, ?_⟩
    · rw [hlast]
      exact like_dress hsticky hw13 h hf
    · rw [hpending, hhave, hlast, Bool.or_eq_true]
      constructor
      · rintro (ha | hp)
        · exact ⟨rfl, ha⟩
        · exact ⟨rfl, announcing_iff.mpr (announced_dress hsticky hw13 h hf hp).1⟩
      · exact fun ha ↦ .inl ha.2
  | @payload f addr _ hlast hhave hpending =>
    refine ⟨fun hkept ↦ ?_, ?_⟩
    · rw [hhave] at hkept
      obtain ⟨g, hg, hlike⟩ := h.last hkept
      rw [hlast, if_pos hkept]
      exact ⟨g, List.mem_append_left _ hg, hlike.clear⟩
    · rw [hpending, hhave]
      refine iff_of_false Bool.false_ne_true ?_
      rintro ⟨hkept, ha⟩
      obtain ⟨g, -, hlike⟩ := h.last hkept
      rw [hlast, if_pos hkept, not_announcing_clear hlike.length] at ha
      exact Bool.false_ne_true ha

end Sport

section Runs

variable {run : List (Reception × Option Delivery)} {sent : List Frame} {ds before mid after : List Delivery}
  {opener d : Delivery} {h₂₉ h₃₀ : ℕ}

def deliveries (run : List (Reception × Option Delivery)) : List Delivery := run.filterMap (·.2)

def incoming (run : List (Reception × Option Delivery)) : List Byte :=
  run.flatMap fun x ↦ x.1.event.toList.flatMap Event.bytes

def Announced (h₂₉ h₃₀ : ℕ) (since : List Delivery) (d : Delivery) : Prop :=
  halfword d.bytes 29 = h₂₉ ∧ halfword d.bytes 30 = h₃₀ ∨ ∃ x ∈ since, ∃ f, x.source = .sent f ∧
    halfword f 29 ≠ 0 ∧
    halfword d.bytes 29 = halfword f 29 ∧ halfword d.bytes 30 = halfword f 30

/-- The rest of the record is as MAIN sent it, now or, when the last record is given again, before. -/
def AsSent (sent : List Frame) (d : Delivery) : Prop :=
  ∃ f, (d.source = .sent f ∨ d.source = .last ∧ f ∈ sent) ∧ Like f d.bytes

theorem deliveries_cons (x : Reception × Option Delivery) : deliveries (x :: run) = x.2.toList ++ deliveries run := by
  rw [deliveries, List.filterMap_cons]
  cases x.2 <;> rfl

theorem sentOf_append (ds ds' : List Delivery) : Sport.sentOf (ds ++ ds') = Sport.sentOf ds ++ Sport.sentOf ds' :=
  List.filterMap_append

theorem link_path (hsticky : setup.sticky = true) (h : Path (Receives setup) s run t) :
    ∃ es, Path (Step setup.cfg) s.link es t.link ∧ received es = incoming run ∧
      ∀ f ∈ Sport.sentOf (deliveries run), f ∈ givenOf (history es) := by
  induction h with
  | nil => exact ⟨[], .nil, rfl, fun _ h ↦ absurd h List.not_mem_nil⟩
  | @cons _ _ _ x run hx _ ih =>
    obtain ⟨first, hfirst, hbytes, hgiven⟩ := Sport.link_receives hsticky hx
    obtain ⟨later, hlater, hbytes', hgiven'⟩ := ih
    refine ⟨first ++ later, hfirst.append hlater, ?_, fun f hf ↦ ?_⟩
    · rw [received, List.flatMap_append, ← received, ← received, hbytes, hbytes']
      rfl
    · rw [history, List.flatMap_append, ← history, ← history, givenOf_append, List.mem_append]
      rw [deliveries_cons, sentOf_append, List.mem_append] at hf
      exact hf.imp (hgiven f) (hgiven' f)

/-- What MAIN is said to have sent is among the frames that have come in whole. -/
theorem arrived_path {frames : List Frame} (hsticky : setup.sticky = true) (h : Path (Receives setup) Sport.init run t)
    (hframes : ∀ f ∈ frames, WellFormed f) (hstream : incoming run <+: stream frames) :
    ∃ arrived more, frames = arrived ++ more ∧ incoming run = stream arrived ++ t.link.linkIn ∧
      ∀ f ∈ Sport.sentOf (deliveries run), f ∈ arrived := by
  obtain ⟨es, hlink, hbytes, hgiven⟩ := link_path hsticky h
  rw [← hbytes] at hstream ⊢
  obtain ⟨w, done, more, hfollows, rfl, hdone, hsum, -⟩ := run_settled hlink (.init hframes) (fun _ ↦ rfl) hstream
  exact ⟨_, more, hdone, hsum, fun f hf ↦ hfollows.known Shelf.known_empty f (hgiven f hf)⟩

theorem announced_step (hsticky : setup.sticky = true) (hw13 : setup.w13 = none) (hs : s.Keeps sent)
    (hopen : s.Open h₂₉ h₃₀) (he : Sport.Effect setup s t (some d)) (hd : d.IsStatus) :
    halfword d.bytes 29 ≠ 0 ∧ Announced h₂₉ h₃₀ [d] d ∧ AsSent sent d ∧
      t.Open (halfword d.bytes 29) (halfword d.bytes 30) := by
  obtain ⟨hhave, ha⟩ := hs.pending.mp hopen.pending
  cases he with
  | zeros => exact absurd (List.length_replicate.symm.trans hd.2) (by decide)
  | canned _ hnone => exact absurd (hhave.symm.trans hnone) Bool.noConfusion
  | again hsame _ =>
    obtain ⟨f, hf, hlike⟩ := hs.last hhave
    exact ⟨announcing_iff.mp ha, .inl ⟨hopen.count, hopen.words⟩, ⟨f, .inr ⟨rfl, hf⟩, hlike⟩,
      Sport.Open.same ⟨hopen.pending, rfl, rfl⟩ hsame⟩
  | @record f hf hlast _ hpending =>
    obtain ⟨hne, hcarried⟩ := Sport.announced_dress hsticky hw13 hs hf hopen.pending
    refine ⟨hne, ?_, ⟨f, .inl rfl, Sport.like_dress hsticky hw13 hs hf⟩, ⟨?_, by rw [hlast], by rw [hlast]⟩⟩
    · obtain ⟨hcount, hwords⟩ | hsame := hcarried
      · exact .inl ⟨hcount.trans hopen.count, hwords.trans hopen.words⟩
      · refine .inr ⟨_, List.mem_singleton_self _, f, rfl, ?_, congrArg (halfword · 29) hsame,
          congrArg (halfword · 30) hsame⟩
        rw [hsame] at hne
        exact hne
    · rw [hpending, hopen.pending, Bool.or_true]
  | payload hnot => exact absurd ⟨hd.2, hd.1⟩ hnot

/-- A delivery that is not from the link changes nothing. -/
theorem other_step (hsticky : setup.sticky = true) (hw13 : setup.w13 = none) (hs : s.Keeps sent)
    (he : Sport.Effect setup s t (some d)) (hd : ¬d.IsStatus) (hlink : d.FromLink → d.IsStatus) :
    Sport.Same s t := by
  cases he with
  | zeros hsame | canned hsame _ | again hsame _ => exact hsame
  | record hf => exact absurd ⟨rfl, (Sport.like_dress hsticky hw13 hs hf).length⟩ hd
  | payload => exact absurd (hlink ⟨Source.noConfusion, Source.noConfusion⟩) hd

/-- While an announcement has not been spent, every record has it, or that of a newer one. -/
theorem announced_path (hsticky : setup.sticky = true) (hw13 : setup.w13 = none) (h : Path (Receives setup) s run t)
    (hs : s.Keeps sent) (hopen : s.Open h₂₉ h₃₀) (hds : deliveries run = mid ++ d :: after)
    (hmid : ∀ x ∈ mid, x.FromLink → x.IsStatus) (hd : d.IsStatus) :
    halfword d.bytes 29 ≠ 0 ∧ Announced h₂₉ h₃₀ (mid ++ [d]) d ∧ AsSent (sent ++ Sport.sentOf mid) d := by
  induction h generalizing sent h₂₉ h₃₀ mid with
  | nil => exact absurd hds (by simp [deliveries])
  | @cons s t u x run hx hpath ih =>
    have he := Sport.effect_of_receives hsticky hx
    have hkept := Sport.keeps_step hsticky hw13 hs he
    rw [deliveries_cons] at hds
    cases hx2 : x.2 with
    | none =>
      rw [hx2] at he hds
      cases he with
      | nothing hsame => exact ih (hs.same hsame) (hopen.same hsame) hds hmid
    | some y =>
      rw [hx2] at he hds hkept
      by_cases hy : y.IsStatus
      · obtain ⟨hne, hannounced, hsent, hopen'⟩ := announced_step hsticky hw13 hs hopen he hy
        cases mid with
        | nil =>
          obtain rfl : y = d := (List.cons.inj hds).1
          refine ⟨hne, hannounced, ?_⟩
          rw [Sport.sentOf, List.filterMap_nil, List.append_nil]
          exact hsent
        | cons x' mid =>
          obtain ⟨rfl, hrest⟩ := List.cons.inj hds
          obtain ⟨hne', hannounced', hsent'⟩ :=
            ih hkept hopen' hrest (fun x hx ↦ hmid x (List.mem_cons_of_mem _ hx))
          refine ⟨hne', ?_, ?_⟩
          · obtain ⟨hcount, hwords⟩ | ⟨z, hz, hfound⟩ := hannounced'
            · obtain ⟨hcount', hwords'⟩ | ⟨z, hz, f, hf, hf₂₉, hcount', hwords'⟩ := hannounced
              · exact .inl ⟨hcount.trans hcount', hwords.trans hwords'⟩
              · obtain rfl := List.mem_singleton.mp hz
                exact .inr ⟨z, List.mem_cons_self, f, hf, hf₂₉, hcount.trans hcount', hwords.trans hwords'⟩
            · exact .inr ⟨z, List.mem_cons_of_mem _ hz, hfound⟩
          · rw [List.append_assoc, ← sentOf_append] at hsent'
            exact hsent'
      · cases mid with
        | nil =>
          obtain rfl : y = d := (List.cons.inj hds).1
          exact absurd hd hy
        | cons x' mid =>
          obtain ⟨rfl, hrest⟩ := List.cons.inj hds
          have hsame := other_step hsticky hw13 hs he hy (hmid y List.mem_cons_self)
          obtain ⟨hne', hannounced', hsent'⟩ :=
            ih hkept (hopen.same hsame) hrest (fun x hx ↦ hmid x (List.mem_cons_of_mem _ hx))
          rw [List.append_assoc, ← sentOf_append] at hsent'
          refine ⟨hne', ?_, hsent'⟩
          exact hannounced'.imp_right fun ⟨z, hz, hfound⟩ ↦ ⟨z, List.mem_cons_of_mem _ hz, hfound⟩

theorem opened_step (hs : s.Keeps sent) (he : Sport.Effect setup s t (some opener)) (hlink : opener.FromLink)
    (hstatus : opener.IsStatus) (hne : halfword opener.bytes 29 ≠ 0) :
    t.Open (halfword opener.bytes 29) (halfword opener.bytes 30) := by
  cases he with
  | zeros => exact absurd rfl hlink.2
  | canned => exact absurd rfl hlink.1
  | again hsame hhave =>
    have hpending : s.pending = true := hs.pending.mpr ⟨hhave, announcing_iff.mpr hne⟩
    exact Sport.Open.same ⟨hpending, rfl, rfl⟩ hsame
  | record _ hlast _ hpending =>
    refine ⟨?_, by rw [hlast], by rw [hlast]⟩
    rw [hpending, announcing_iff.mpr hne, Bool.true_or]
  | payload hnot => exact absurd ⟨hstatus.2, hstatus.1⟩ hnot

/-- The rest of a run after a record with an announcement. -/
theorem opened_path (hsticky : setup.sticky = true) (hw13 : setup.w13 = none) (h : Path (Receives setup) s run t)
    (hs : s.Keeps sent) (hds : deliveries run = before ++ opener :: ds) (hlink : opener.FromLink)
    (hstatus : opener.IsStatus) (hne : halfword opener.bytes 29 ≠ 0) :
    ∃ u run', Path (Receives setup) u run' t ∧ deliveries run' = ds ∧
      u.Keeps (sent ++ Sport.sentOf (before ++ [opener])) ∧
      u.Open (halfword opener.bytes 29) (halfword opener.bytes 30) := by
  induction h generalizing sent before with
  | nil => exact absurd hds (by simp [deliveries])
  | @cons s u t x run hx hpath ih =>
    have he := Sport.effect_of_receives hsticky hx
    have hkept := Sport.keeps_step hsticky hw13 hs he
    rw [deliveries_cons] at hds
    cases hx2 : x.2 with
    | none =>
      rw [hx2] at hds he
      cases he with
      | nothing hsame => exact ih (hs.same hsame) hds
    | some y =>
      rw [hx2] at he hds hkept
      cases before with
      | nil =>
        obtain ⟨rfl, hrest⟩ := List.cons.inj hds
        exact ⟨u, run, hpath, hrest, hkept, opened_step hs he hlink hstatus hne⟩
      | cons x' before =>
        obtain ⟨rfl, hrest⟩ := List.cons.inj hds
        obtain ⟨v, run', hpath', hds', hkept', hopen⟩ := ih hkept hrest
        rw [List.append_assoc, ← sentOf_append] at hkept'
        exact ⟨v, run', hpath', hds', hkept', hopen⟩

/-- What a record carries after one with an announcement, when these frames have arrived. -/
structure Carries (arrived : List Frame) (before : List Delivery) (opener : Delivery) (mid : List Delivery)
    (d : Delivery) : Prop where
  announces : halfword d.bytes 29 ≠ 0
  announced : Announced (halfword opener.bytes 29) (halfword opener.bytes 30) (mid ++ [d]) d
  sent : AsSent (Sport.sentOf (before ++ opener :: mid)) d
  arrived : ∀ f ∈ Sport.sentOf (before ++ opener :: (mid ++ [d])), f ∈ arrived

/-- A link that carries announcements on keeps one with every record until something else is delivered. -/
theorem announcement_survives {frames : List Frame} (hsticky : setup.sticky = true) (hw13 : setup.w13 = none)
    (hframes : ∀ f ∈ frames, WellFormed f) (h : Path (Receives setup) Sport.init run t)
    (hstream : incoming run <+: stream frames) (hds : deliveries run = before ++ opener :: (mid ++ [d]))
    (hlink : opener.FromLink) (hstatus : opener.IsStatus) (hne : halfword opener.bytes 29 ≠ 0)
    (hmid : ∀ x ∈ mid, x.FromLink → x.IsStatus) (hd : d.IsStatus) :
    ∃ arrived more, frames = arrived ++ more ∧ incoming run = stream arrived ++ t.link.linkIn ∧
      Carries arrived before opener mid d := by
  have hinit : Sport.init.Keeps [] := Sport.keeps_init
  obtain ⟨u, run', hpath, hrest, hkept, hopen⟩ := opened_path hsticky hw13 h hinit hds hlink hstatus hne
  obtain ⟨hannounces, hannounced, hsent⟩ := announced_path hsticky hw13 hpath hkept hopen hrest hmid hd
  obtain ⟨arrived, more, hsplit, hbytes, harrived⟩ := arrived_path hsticky h hframes hstream
  refine ⟨arrived, more, hsplit, hbytes, hannounces, hannounced, ?_, hds ▸ harrived⟩
  rw [List.nil_append, ← sentOf_append, List.append_assoc] at hsent
  exact hsent

/-- A live link with the settings of the launchers. -/
def live : Setup where
  cfg := singly
  sticky := true
  oneshot := false
  hold := false
  holdMax := 0
  w13 := none
  peer := true

/-- A record that announces one payload of 18 bytes. -/
def noted : Frame := ((List.replicate 64 0).set 58 1).set 60 9

/-- A record that announces nothing. -/
def plain : Frame := List.replicate 64 0

/-- The state once a frame has come in whole. -/
def Sport.heard (f : Frame) (s : Sport) : Sport :=
  { s with
    link := { ({ s.link with linkIn := s.link.linkIn ++ encode f, framed := true }.accept singly f).1 with linkIn :=
      [] } }

theorem receives_frame (hempty : s.link.linkIn = []) (hf : WellFormed f) :
    Receives live s (.poll (encode f), none) (s.heard f) := by
  have hroom : s.link.linkIn.length + (encode f).length ≤ linkInSize := by
    have hmax : 8 + frameMax ≤ linkInSize := by decide
    have := hf.2
    rw [hempty, length_encode, List.length_nil]
    omega
  refine ⟨fun e he ↦ Option.some.inj he ▸ ⟨hroom, fun h ↦ absurd h Bool.false_ne_true⟩, ?_⟩
  unfold Sport.step Link.poll Link.split Sport.heard live
  dsimp only
  rw [hempty, List.nil_append, Link.splitFrom_frame (staged_encode hf), Link.splitFrom_short staged_nil]

/-- A record as it comes in and goes out. -/
def Sport.exchange (f : Frame) (s : Sport) : Sport × Option Delivery := (s.heard f).read live statusBuffer 64 none

theorem receives_exchange : Receives live (s.heard f) (.receive statusBuffer 64 none,
    (s.exchange f).2) (s.exchange f).1 :=
  ⟨fun e he ↦ Option.some.inj he ▸ ⟨by decide, fun _ ↦ by decide⟩, rfl⟩

theorem announcement_survives_noted : ∃ run t opener d arrived more, Path (Receives live) Sport.init run t ∧
    deliveries run = [opener, d] ∧ opener.bytes = noted ∧ d.source = .sent plain ∧
      [noted, plain] = arrived ++ more ∧
    incoming run = stream arrived ++ t.link.linkIn ∧ Carries arrived [] opener [] d := by
  have hwell (f : Frame) (hf : f.length = 64) : WellFormed f := ⟨hf ▸ (by decide), hf ▸ (by decide)⟩
  have hfirst : (Sport.init.exchange noted).2 = some ⟨.sent noted, statusBuffer, noted⟩ := by decide +kernel
  have hsecond : ((Sport.init.exchange noted).1.exchange plain).2 =
      some ⟨.sent plain, statusBuffer, carryAnnounce noted plain⟩ := by decide +kernel
  have hrun : Path (Receives live) Sport.init
      [(.poll (encode noted), none), (.receive statusBuffer 64 none, (Sport.init.exchange noted).2),
        (.poll (encode plain), none), (.receive statusBuffer 64 none, ((Sport.init.exchange noted).1.exchange plain).2)]
      ((Sport.init.exchange noted).1.exchange plain).1 :=
    .cons (receives_frame rfl (hwell noted (by decide))) (.cons receives_exchange
      (.cons (receives_frame (by decide +kernel) (hwell plain (by decide))) (.cons receives_exchange .nil)))
  have hds : deliveries [(Reception.poll (encode noted), none),
      (.receive statusBuffer 64 none, (Sport.init.exchange noted).2),
      (.poll (encode plain), none), (.receive statusBuffer 64 none, ((Sport.init.exchange noted).1.exchange plain).2)] =
      [] ++ ⟨.sent noted, statusBuffer, noted⟩ ::
        ([] ++ [⟨.sent plain, statusBuffer, carryAnnounce noted plain⟩]) := by
    rw [hfirst, hsecond]
    rfl
  have hframes : ∀ f ∈ [noted, plain], WellFormed f := by
    intro f hf
    rw [List.mem_pair] at hf
    rcases hf with rfl | rfl
    · exact hwell _ (by decide)
    · exact hwell _ (by decide)
  obtain ⟨arrived, more, hsplit, hbytes, hcarries⟩ := announcement_survives rfl rfl hframes hrun
    ⟨[], List.append_nil _⟩ hds ⟨by decide, by decide⟩ ⟨rfl, by decide⟩ (by decide)
    (fun _ h ↦ absurd h List.not_mem_nil) ⟨rfl, by decide +kernel⟩
  exact ⟨_, _, _, _, arrived, more, hrun, hds, rfl, rfl, hsplit, hbytes, hcarries⟩

/-- The first record of the file-based peer is not kept, so a plain one lands after it. -/
theorem canned_is_dropped : ∃ run t opener d, Path (Receives live) Sport.init run t ∧
    incoming run = stream [plain] ∧
    deliveries run = [opener, d] ∧ opener.IsStatus ∧ halfword opener.bytes 29 ≠ 0 ∧
      d.FromLink ∧ d.IsStatus ∧
    halfword d.bytes 30 ≠ halfword opener.bytes 30 ∧ ¬Carries [plain] [] opener [] d := by
  have hsecond : (Sport.init.exchange plain).2 = some ⟨.sent plain, statusBuffer, plain⟩ := by decide +kernel
  have hfirst : Receives live Sport.init
      (.receive statusBuffer 64 (some noted), some ⟨.canned, statusBuffer, noted⟩) Sport.init :=
    ⟨fun e he ↦ Option.some.inj he ▸ ⟨by decide, fun _ ↦ by decide⟩, rfl⟩
  have hrun : Path (Receives live) Sport.init [(.receive statusBuffer 64 (some noted),
      some ⟨.canned, statusBuffer, noted⟩),
      (.poll (encode plain), none), (.receive statusBuffer 64 none, (Sport.init.exchange plain).2)]
      (Sport.init.exchange plain).1 :=
    .cons hfirst (.cons (receives_frame rfl ⟨by decide, by decide⟩) (.cons receives_exchange .nil))
  rw [hsecond] at hrun
  exact ⟨_, _, ⟨.canned, statusBuffer, noted⟩, ⟨.sent plain, statusBuffer, plain⟩, hrun, rfl, rfl,
    ⟨rfl, by decide⟩,
    by decide, ⟨by decide, by decide⟩, ⟨rfl, by decide⟩, by decide, fun h ↦ absurd h.announces (by decide)⟩

end Runs

end Cdj2000Emulator.SportLink
