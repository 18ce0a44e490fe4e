import Mathlib.Data.Int.Basic

/-!
# Division to the nearest integer

`Int.roundDiv m S` is the nearest integer to `m / S`, the upper one where `m / S` is half way
between two. That choice is what keeps it from commuting with a reflection:
`Int.roundDiv_reflect_iff` says that it does just when `m / S` is not half way.

Scaling by `D / S` and back by `S / D` loses nothing when the scale between is the finer one
(`Int.roundDiv_scale_back`): the first rounding is off by at most half a step of the coarser one.
-/

/-- The nearest integer to `m / S`, the upper one half way. -/
def Int.roundDiv (m S : Int) : Int := (m + S / 2) / S

theorem Int.ediv_eq_of_bounds {m S q : Int} (hlo : S * q ≤ m) (hhi : m < S * q + S) :
    m / S = q := by
  have hS : 0 < S := by omega
  have hle : q ≤ m / S := (Int.le_ediv_iff_mul_le hS).2 (by rwa [Int.mul_comm])
  have hlt : m / S < q + 1 :=
    Int.ediv_lt_of_lt_mul hS (by rwa [Int.mul_comm, Int.mul_add, Int.mul_one])
  omega

/-- Rounding keeps an interval that starts and ends at multiples. -/
theorem Int.roundDiv_bounds {m S D : Int} (hS : 0 < S) (hlo : 0 ≤ m) (hhi : m ≤ S * D) :
    0 ≤ m.roundDiv S ∧ m.roundDiv S ≤ D := by
  refine ⟨Int.ediv_nonneg (by omega) (by omega), ?_⟩
  have hlt : m.roundDiv S < D + 1 := by
    refine Int.ediv_lt_of_lt_mul hS ?_
    rw [Int.mul_comm, Int.mul_add]
    omega
  omega

/-- The quotient and the remainder decide what is rounded to. -/
theorem Int.roundDiv_eq {m S : Int} (hS : 0 < S) :
    m.roundDiv S = if m % S + S / 2 < S then m / S else m / S + 1 := by
  have hm := Int.mul_ediv_add_emod m S
  have hlo := Int.emod_nonneg m (Int.ne_of_gt hS)
  have hhi := Int.emod_lt_of_pos m hS
  split
  · exact Int.ediv_eq_of_bounds (by omega) (by omega)
  · exact Int.ediv_eq_of_bounds (by rw [Int.mul_add]; omega) (by rw [Int.mul_add]; omega)

theorem Int.roundDiv_mono {m n S : Int} (hS : 0 < S) (h : m ≤ n) : m.roundDiv S ≤ n.roundDiv S :=
  Int.ediv_le_ediv hS (by omega)

/-- Rounding keeps a multiple. -/
theorem Int.roundDiv_mul {S D : Int} (hS : 0 < S) : (S * D).roundDiv S = D :=
  Int.ediv_eq_of_bounds (by omega) (by omega)

/-- How far rounding is off. -/
theorem Int.roundDiv_error {m S : Int} (hS : 0 < S) :
    S / 2 - S < S * m.roundDiv S - m ∧ S * m.roundDiv S - m ≤ S / 2 := by
  have hm := Int.mul_ediv_add_emod (m + S / 2) S
  have hlo := Int.emod_nonneg (m + S / 2) (Int.ne_of_gt hS)
  have hhi := Int.emod_lt_of_pos (m + S / 2) hS
  rw [Int.roundDiv]
  omega

/-- **To a finer scale and back.** -/
theorem Int.roundDiv_scale_back {p S D : Int} (hS : 0 < S) (hSD : S ≤ D) :
    ((p * D).roundDiv S * S).roundDiv D = p := by
  rcases Int.lt_or_eq_of_le hSD with hlt | rfl
  · obtain ⟨hlo, hhi⟩ := Int.roundDiv_error (m := p * D) hS
    rw [Int.mul_comm S] at hlo hhi
    -- the error is less than half a step of the way back
    refine Int.ediv_eq_of_bounds ?_ ?_
    · rw [Int.mul_comm D]
      omega
    · rw [Int.mul_comm D]
      omega
  · rw [Int.mul_comm p, Int.roundDiv_mul hS, Int.mul_comm p, Int.roundDiv_mul hS]

/-- **Rounding and reflection** commute except half way. -/
theorem Int.roundDiv_reflect_iff {m S D : Int} (hS : 0 < S) :
    (S * D - m).roundDiv S = D - m.roundDiv S ↔ 2 * (m % S) ≠ S := by
  have hm := Int.mul_ediv_add_emod m S
  have hlo := Int.emod_nonneg m (Int.ne_of_gt hS)
  have hhi := Int.emod_lt_of_pos m hS
  have hdown : (S * D - m).roundDiv S = if m % S ≤ S / 2 then D - m / S else D - m / S - 1 := by
    split
    · exact Int.ediv_eq_of_bounds (by rw [Int.mul_sub]; omega) (by rw [Int.mul_sub]; omega)
    · exact Int.ediv_eq_of_bounds (by rw [Int.mul_sub, Int.mul_sub]; omega)
        (by rw [Int.mul_sub, Int.mul_sub]; omega)
  rw [hdown, Int.roundDiv_eq hS]
  split <;> split <;> omega
