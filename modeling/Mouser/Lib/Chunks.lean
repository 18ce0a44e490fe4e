import Mathlib.Data.List.Basic
import Mathlib.Data.List.Defs

/-!
# Splitting a list into chunks

`List.toChunks` is computed with arrays. It puts the first `n` elements into a chunk and goes on
with the rest; the last chunk may be shorter.
-/

namespace List

variable {α : Type*} {n : ℕ}

/-- The chunks that are done are kept as they are. -/
theorem toChunks_go_acc (xs : List α) (acc₁ : Array α) (acc₂ : Array (List α)) :
    toChunks.go n xs acc₁ acc₂ = acc₂.toList ++ toChunks.go n xs acc₁ #[] := by
  induction xs generalizing acc₁ acc₂ with
  | nil => simp [toChunks.go]
  | cons x xs ih =>
    rw [toChunks.go, toChunks.go]
    split
    · rw [ih, ih _ (Array.push #[] _)]
      simp
    · exact ih _ _

/-- A chunk is filled, and the rest goes on. -/
theorem toChunks_go_append (hn : 0 < n) {ys : List α} {acc : Array α}
    (h : acc.size + ys.length = n) (rest : List α) :
    toChunks.go n (ys ++ rest) acc #[] = (acc.toList ++ ys) :: rest.toChunks n := by
  induction ys generalizing acc with
  | nil =>
    cases rest with
    | nil => simp [toChunks.go, toChunks]
    | cons x rest =>
      obtain ⟨n, rfl⟩ := Nat.exists_eq_succ_of_ne_zero (Nat.ne_of_gt hn)
      rw [length_nil, Nat.add_zero] at h
      rw [nil_append, toChunks.go, if_pos (by simpa using h), toChunks_go_acc, toChunks]
      · simp
      · nofun
  | cons y ys ih =>
    rw [length_cons] at h
    rw [cons_append, toChunks.go, if_neg (by simp; omega), ih (by rw [Array.size_push]; omega)]
    simp

/-- What is left over is the last chunk. -/
theorem toChunks_go_of_le {ys : List α} {acc : Array α} (h : acc.size + ys.length ≤ n) :
    toChunks.go n ys acc #[] = [acc.toList ++ ys] := by
  induction ys generalizing acc with
  | nil => simp [toChunks.go]
  | cons y ys ih =>
    rw [length_cons] at h
    rw [toChunks.go, if_neg (by simp; omega), ih (by rw [Array.size_push]; omega)]
    simp

theorem toChunks_append {l : List α} (hn : 0 < n) (h : l.length = n) (rest : List α) :
    (l ++ rest).toChunks n = l :: rest.toChunks n := by
  obtain ⟨n, rfl⟩ := Nat.exists_eq_succ_of_ne_zero (Nat.ne_of_gt hn)
  cases l with
  | nil => cases h
  | cons a l =>
    rw [length_cons] at h
    rw [cons_append, toChunks]
    · refine toChunks_go_append hn ?_ rest
      rw [← h]
      exact Nat.add_comm 1 _
    · nofun

theorem toChunks_of_length_le {l : List α} (hl : l ≠ []) (h : l.length ≤ n) :
    l.toChunks n = [l] := by
  cases l with
  | nil => exact absurd rfl hl
  | cons a l =>
    rw [length_cons] at h
    obtain ⟨n, rfl⟩ := Nat.exists_eq_succ_of_ne_zero (by omega : n ≠ 0)
    rw [toChunks]
    · refine toChunks_go_of_le ?_
      rw [Nat.add_comm]
      exact h
    · nofun

/-- There are as many chunks as it takes. -/
theorem length_toChunks (hn : 0 < n) (l : List α) :
    (l.toChunks n).length = (l.length + (n - 1)) / n := by
  -- The induction is on the chunks: all of them but the last have `n` elements.
  induction hlength : l.length using Nat.strongRecOn generalizing l with
  | _ k ih =>
    rcases Nat.lt_or_ge n k with hlt | hle
    · have htake : (l.take n).length = n := by
        rw [length_take]
        omega
      have hrest := ih (k - n) (by omega) (l.drop n) (by rw [length_drop, hlength])
      have hk : k + (n - 1) = k - n + (n - 1) + n := by omega
      conv_lhs => rw [← take_append_drop n l]
      rw [toChunks_append hn htake, length_cons, hrest, hk, Nat.add_div_right _ hn]
    · rcases Nat.eq_zero_or_pos k with rfl | hpos
      · rw [eq_nil_of_length_eq_zero hlength, Nat.zero_add, Nat.div_eq_of_lt (by omega)]
        rfl
      · have hne : l ≠ [] := ne_nil_of_length_pos (by omega)
        rw [toChunks_of_length_le hne (by omega), length_singleton]
        exact (Nat.div_eq_of_lt_le (by omega) (by omega)).symm

end List
