import Mathlib.Algebra.Group.Nat.Defs
import Mathlib.Data.List.Lex
import Mathlib.Data.Set.Function
import Mathlib.Order.Interval.Set.Defs
import Mathlib.Order.Monotone.Basic

/-!
# Fixed-width positional notation and the lexicographic order

Numbers of the same width in digits are compared as their digit strings are, from the left. Two
facts carry this over to text made of several fields: strings with fronts of the same length are
compared at the fronts first, and a rendering that keeps the order of the symbols keeps that of the
strings.
-/

namespace Digits

variable {α β : Type*} [LinearOrder α] [LinearOrder β]

/-! ## The lexicographic order -/

/-- Strings with fronts of the same length are compared at the fronts, then behind them. -/
theorem append_lt_append_iff {a b c d : List α} (h : a.length = b.length) :
    a ++ c < b ++ d ↔ a < b ∨ a = b ∧ c < d := by
  induction a generalizing b with
  | nil =>
    cases List.length_eq_zero_iff.1 h.symm
    simp
  | cons x a ih =>
    cases b with
    | nil => cases h
    | cons y b =>
      rw [List.length_cons, List.length_cons, Nat.add_right_cancel_iff] at h
      simp only [List.cons_append, List.cons_lt_cons_iff, List.cons.injEq, ih h]
      tauto

omit [LinearOrder α] in
theorem append_eq_append_iff {a b c d : List α} (h : a.length = b.length) :
    a ++ c = b ++ d ↔ a = b ∧ c = d :=
  ⟨fun heq => List.append_inj heq h, fun ⟨hab, hcd⟩ => by rw [hab, hcd]⟩

/-- **Symbols of the same width**: writing each symbol as a group of `width` others, in the same
order, keeps the order of strings of the same length. -/
theorem flatMap_lt_flatMap_iff {f : α → List β} {width : ℕ} {s : Set α}
    (hwidth : ∀ x, (f x).length = width) (hf : StrictMonoOn f s) {a b : List α}
    (ha : ∀ x ∈ a, x ∈ s) (hb : ∀ x ∈ b, x ∈ s) (h : a.length = b.length) :
    a.flatMap f < b.flatMap f ↔ a < b := by
  induction a generalizing b with
  | nil =>
    cases List.length_eq_zero_iff.1 h.symm
    exact iff_of_false (lt_irrefl _) (lt_irrefl _)
  | cons x a ih =>
    cases b with
    | nil => cases h
    | cons y b =>
      rw [List.length_cons, List.length_cons, Nat.add_right_cancel_iff] at h
      rw [List.forall_mem_cons] at ha hb
      have htail : a.flatMap f < b.flatMap f ↔ a < b := ih ha.2 hb.2 h
      rw [List.flatMap_cons, List.flatMap_cons,
        append_lt_append_iff ((hwidth x).trans (hwidth y).symm), List.cons_lt_cons_iff,
        hf.lt_iff_lt ha.1 hb.1, hf.injOn.eq_iff ha.1 hb.1, htail]

/-- A rendering of symbols that keeps their order keeps the order of their strings. -/
theorem map_lt_map_iff {f : α → β} {s : Set α} (hf : StrictMonoOn f s) {a b : List α}
    (ha : ∀ x ∈ a, x ∈ s) (hb : ∀ x ∈ b, x ∈ s) : a.map f < b.map f ↔ a < b := by
  induction a generalizing b with
  | nil => cases b <;> simp
  | cons x a ih =>
    cases b with
    | nil => simp
    | cons y b =>
      rw [List.forall_mem_cons] at ha hb
      rw [List.map_cons, List.map_cons, List.cons_lt_cons_iff, List.cons_lt_cons_iff,
        hf.lt_iff_lt ha.1 hb.1, hf.injOn.eq_iff ha.1 hb.1, ih ha.2 hb.2]

/-! ## Positional notation -/

/-- The last `k` digits of `n` to the base `b`, most significant first. -/
def fixed (b : ℕ) : ℕ → ℕ → List ℕ
  | 0, _ => []
  | k + 1, n => fixed b k (n / b) ++ [n % b]

@[simp] theorem length_fixed (b k n : ℕ) : (fixed b k n).length = k := by
  induction k generalizing n with
  | zero => rfl
  | succ k ih => rw [fixed, List.length_append, ih, List.length_singleton]

theorem lt_of_mem_fixed {b k n d : ℕ} (hb : 0 < b) (h : d ∈ fixed b k n) : d < b := by
  induction k generalizing n with
  | zero => cases h
  | succ k ih =>
    rcases List.mem_append.1 h with h | h
    · exact ih h
    · rw [List.mem_singleton.1 h]
      exact Nat.mod_lt _ hb

/-- A quotient and a remainder, compared in this order. -/
theorem div_lt_or_mod_lt_iff {b m n : ℕ} :
    m < n ↔ m / b < n / b ∨ m / b = n / b ∧ m % b < n % b := by
  have hm := Nat.div_add_mod m b
  have hn := Nat.div_add_mod n b
  refine ⟨?_, ?_⟩
  · intro hlt
    rcases (Nat.div_le_div_right (c := b) hlt.le).lt_or_eq with hdiv | hdiv
    · exact .inl hdiv
    · rw [hdiv] at hm
      exact .inr ⟨hdiv, by omega⟩
  · rintro (hdiv | ⟨hdiv, hmod⟩)
    · by_contra hle
      exact absurd (Nat.div_le_div_right (c := b) (not_lt.1 hle)) (not_le.2 hdiv)
    · rw [hdiv] at hm
      omega

/-- Fixed-width digits to the base `b` determine a number below `b ^ k`. -/
theorem fixed_inj {b k m n : ℕ} (hm : m < b ^ k) (hn : n < b ^ k) :
    fixed b k m = fixed b k n ↔ m = n := by
  induction k generalizing m n with
  | zero =>
    rw [Nat.pow_zero, Nat.lt_one_iff] at hm hn
    exact iff_of_true rfl (hm.trans hn.symm)
  | succ k ih =>
    rw [Nat.pow_succ'] at hm hn
    rw [fixed, fixed, append_eq_append_iff (by simp), ih (Nat.div_lt_of_lt_mul hm)
      (Nat.div_lt_of_lt_mul hn), List.singleton_inj]
    refine ⟨?_, fun h => h ▸ ⟨rfl, rfl⟩⟩
    rintro ⟨hdiv, hmod⟩
    rw [← Nat.div_add_mod m b, hdiv, hmod, Nat.div_add_mod]

/-- **Fixed-width digits are ordered as the numbers are.** -/
theorem fixed_lt_fixed_iff {b k m n : ℕ} (hm : m < b ^ k) (hn : n < b ^ k) :
    fixed b k m < fixed b k n ↔ m < n := by
  induction k generalizing m n with
  | zero =>
    rw [Nat.pow_zero, Nat.lt_one_iff] at hm hn
    rw [hm, hn]
    exact iff_of_false (lt_irrefl _) (lt_irrefl _)
  | succ k ih =>
    rw [Nat.pow_succ'] at hm hn
    have hm' := Nat.div_lt_of_lt_mul hm
    have hn' := Nat.div_lt_of_lt_mul hn
    have hlast : [m % b] < [n % b] ↔ m % b < n % b := by
      simp [List.cons_lt_cons_iff]
    rw [fixed, fixed, append_lt_append_iff (by simp), ih hm' hn', fixed_inj hm' hn', hlast,
      ← div_lt_or_mod_lt_iff]

/-! ## Numerals without leading zeros -/

theorem digitChar_injOn : Set.InjOn Nat.digitChar (Set.Iio 16) := by
  have hall : ∀ i < 16, ∀ j < 16, i.digitChar = j.digitChar → i = j := by decide
  exact fun i hi j hj h => hall i hi j hj h

/-- The digits of a numeral. -/
theorem mem_toDigits {b n : ℕ} {c : Char} (hb : 1 < b) (h : c ∈ Nat.toDigits b n) :
    ∃ d < b, c = d.digitChar := by
  induction n using Nat.strong_induction_on with
  | _ n ih =>
    rw [Nat.toDigits_eq_if hb] at h
    split at h
    · next hlt => exact ⟨n, hlt, List.mem_singleton.1 h⟩
    · next hle =>
      rcases List.mem_append.1 h with h | h
      · exact ih (n / b) (Nat.div_lt_self (by omega) hb) h
      · exact ⟨n % b, Nat.mod_lt _ (by omega), List.mem_singleton.1 h⟩

theorem toDigits_concat_ne {b n : ℕ} {c d : Char} : Nat.toDigits b n ++ [d] ≠ [c] := by
  intro h
  have hlen := congrArg List.length h
  rw [List.length_append, List.length_singleton, List.length_singleton] at hlen
  exact Nat.toDigits_ne_nil (List.length_eq_zero_iff.1 (Nat.add_right_cancel hlen))

/-- **A numeral determines its number.** -/
theorem toDigits_injective {b : ℕ} (hb : 1 < b) (hb16 : b ≤ 16) :
    Function.Injective (Nat.toDigits b) := by
  intro m n h
  induction m using Nat.strong_induction_on generalizing n with
  | _ m ih =>
    have hlast : ∀ {i j : ℕ}, i < b → j < b → i.digitChar = j.digitChar → i = j := by
      intro i j hi hj heq
      exact digitChar_injOn (Set.mem_Iio.2 (by omega)) (Set.mem_Iio.2 (by omega)) heq
    rw [Nat.toDigits_eq_if hb (n := m), Nat.toDigits_eq_if hb (n := n)] at h
    split at h
    · next hm =>
      split at h
      · next hn => exact hlast hm hn (List.singleton_inj.1 h)
      · exact absurd h.symm toDigits_concat_ne
    · next hm =>
      split at h
      · exact absurd h toDigits_concat_ne
      · have hpos : 0 < b := by omega
        obtain ⟨hfront, hdigit⟩ := List.append_inj' h rfl
        have hdiv := ih (m / b) (Nat.div_lt_self (by omega) hb) hfront
        have hmod := hlast (Nat.mod_lt m hpos) (Nat.mod_lt n hpos) (List.singleton_inj.1 hdigit)
        rw [← Nat.div_add_mod m b, ← Nat.div_add_mod n b, hdiv, hmod]

end Digits
