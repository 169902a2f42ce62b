import Cdj2000Emulator.Card.Put

namespace Cdj2000Emulator.Card

open Function Library.Bytes Library.Chains Library.Stateful

namespace Layout

variable {v : Layout} {upper : Str → Str} {s t : Fat32} {c d p count : ℕ} {l : List ℕ} {data : List Byte}
  {name path : Str} {e : Entry} {r : Raise}

theorem Fresh.length_le (h : v.Fresh s l) : l.length ≤ v.freeCount s := by
  refine (List.Nodup.subperm h.nodup fun c hc ↦ ?_).length_le
  obtain ⟨hin, hfree⟩ := h.free c hc
  rw [Inside] at hin
  rw [List.mem_filter, List.mem_range'_1]
  exact ⟨by omega, by rw [decide_eq_true_eq, hfree]⟩

end Layout

end Cdj2000Emulator.Card
