import Mathlib.Algebra.BigOperators.Group.List.Basic
import Mathlib.Algebra.Order.Group.Defs
import Mathlib.Algebra.Order.Group.Unbundled.Basic
import Mathlib.Order.Bounds.Basic

/-!
# The greatest sum of a suffix

A running sum that is cut off at zero from below, `m ↦ max (m + d) 0`, is the greatest sum of a
suffix of what was added, the empty suffix counted with sum zero. It comes up where something adds
up in one direction and is cancelled by the other: the recurrence is what a loop computes, the set
of sums is what it means.
-/

section

variable {α : Type*} [AddCommGroup α] [LinearOrder α]

/-- The sums of the suffixes of a list. -/
def suffixSums (l : List α) : Set α := { n | ∃ t, t <:+ l ∧ t.sum = n }

theorem isGreatest_suffixSums_nil : IsGreatest (suffixSums ([] : List α)) 0 := by
  refine ⟨⟨[], List.nil_suffix, List.sum_nil⟩, ?_⟩
  rintro n ⟨t, ht, rfl⟩
  rw [List.suffix_nil.1 ht, List.sum_nil]

variable [IsOrderedAddMonoid α]

/-- **The recurrence.** -/
theorem IsGreatest.suffixSums_concat {l : List α} {m : α} (h : IsGreatest (suffixSums l) m)
    (d : α) : IsGreatest (suffixSums (l ++ [d])) (max (m + d) 0) := by
  refine ⟨?_, ?_⟩
  · obtain ⟨t, ht, rfl⟩ := h.1
    rcases le_total (t.sum + d) 0 with hle | hle
    · exact ⟨[], List.nil_suffix, by rw [max_eq_right hle, List.sum_nil]⟩
    · have hsuffix : t ++ [d] <:+ l ++ [d] := by
        obtain ⟨r, rfl⟩ := ht
        exact ⟨r, (List.append_assoc ..).symm⟩
      refine ⟨t ++ [d], hsuffix, ?_⟩
      rw [max_eq_left hle, List.sum_append, List.sum_singleton]
  · rintro n ⟨t, ht, rfl⟩
    rcases List.suffix_concat_iff.1 ht with rfl | ⟨r, rfl, hr⟩
    · rw [List.sum_nil]
      exact le_max_right _ _
    · rw [List.sum_append, List.sum_singleton]
      exact le_trans (add_le_add_left (h.2 ⟨r, hr, rfl⟩) d) (le_max_left _ _)

omit [IsOrderedAddMonoid α] in
/-- The sum carried over is the sum of a block of the list. -/
theorem IsGreatest.add_lt {l : List α} {m d bound : α} (h : IsGreatest (suffixSums l) m)
    (hblocks : ∀ b, b <:+: l ++ [d] → b.sum < bound) : m + d < bound := by
  obtain ⟨t, ⟨r, rfl⟩, rfl⟩ := h.1
  have hlast := hblocks (t ++ [d]) ⟨r, [], by simp⟩
  rwa [List.sum_append, List.sum_singleton] at hlast

/-- A positive bound is reached by the sum of a suffix just when the sum carried over reaches it. -/
theorem IsGreatest.exists_suffix_iff {l : List α} {m : α} (h : IsGreatest (suffixSums l) m)
    (d : α) {b : α} (hb : 0 < b) :
    (∃ t, t <:+ l ++ [d] ∧ b ≤ t.sum) ↔ b ≤ m + d := by
  have hnext := h.suffixSums_concat d
  refine ⟨?_, ?_⟩
  · rintro ⟨t, ht, hle⟩
    rcases le_max_iff.1 (hle.trans (hnext.2 ⟨t, ht, rfl⟩)) with hle | hle
    · exact hle
    · exact absurd hb (not_lt.2 hle)
  · intro hle
    obtain ⟨t, ht, hsum⟩ := hnext.1
    exact ⟨t, ht, hsum ▸ hle.trans (le_max_left _ _)⟩

end
