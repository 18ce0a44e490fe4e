import Mouser.Lib.Machine

/-!
# Fair runs

An infinite run of a machine is a `schedule` of its inputs, and it is fair when every input comes
again and again. `Machine.rests_of_fair` is the rule for what a fair run comes to: when every step
that changes the state makes a measure smaller, there is a state after which nothing changes.
-/

/-- Every input comes again and again. -/
def Fair {ι : Type*} (schedule : ℕ → ι) : Prop := ∀ i n, ∃ m, n ≤ m ∧ schedule m = i

/-- The first `n` inputs of a schedule. -/
def inputs {ι : Type*} (schedule : ℕ → ι) (n : ℕ) : List ι := (List.range n).map schedule

theorem inputs_succ {ι : Type*} (schedule : ℕ → ι) (n : ℕ) :
    inputs schedule (n + 1) = inputs schedule n ++ [schedule n] := by
  rw [inputs, List.range_succ, List.map_append]
  rfl

namespace Machine

variable {σ ι ο : Type*} (M : Machine σ ι ο)

/-- No input changes the state. -/
def Rests (s : σ) : Prop := ∀ i, (M.step s i).1 = s

variable {M} {s : σ} {schedule : ℕ → ι}

/-- From a state that an input changes, a fair run goes on to a change. -/
theorem exists_change (hfair : Fair schedule) {n : ℕ} {i : ι}
    (hi : (M.step (M.exec s (inputs schedule n)) i).1 ≠ M.exec s (inputs schedule n)) :
    ∃ m, n ≤ m ∧ M.exec s (inputs schedule m) = M.exec s (inputs schedule n) ∧
      (M.step (M.exec s (inputs schedule m)) (schedule m)).1 ≠ M.exec s (inputs schedule m) := by
  obtain ⟨last, hle, rfl⟩ := hfair i n
  -- The first change is at the input that was to come, or before it.
  by_contra hnone
  have hsame : ∀ k, M.exec s (inputs schedule (n + k)) = M.exec s (inputs schedule n) := by
    intro k
    induction k with
    | zero => rfl
    | succ k ih =>
      rw [← Nat.add_assoc, inputs_succ, exec_concat]
      by_contra hchange
      exact hnone ⟨n + k, Nat.le_add_right n k, ih, ih ▸ hchange⟩
  obtain ⟨k, rfl⟩ := Nat.exists_eq_add_of_le hle
  exact hnone ⟨n + k, hle, hsame k, (hsame k).symm ▸ hi⟩

/-- **What a fair run comes to.** -/
theorem rests_of_fair {I : σ → Prop} {m : σ → ℕ} (h0 : I s)
    (hkeep : ∀ t i, I t → I (M.step t i).1)
    (hless : ∀ t i, I t → (M.step t i).1 = t ∨ m (M.step t i).1 < m t)
    (hfair : Fair schedule) : ∃ n, M.Rests (M.exec s (inputs schedule n)) := by
  have hrun : ∀ n, I (M.exec s (inputs schedule n)) := fun n => M.inv_exec h0 hkeep _
  suffices h : ∀ size n, m (M.exec s (inputs schedule n)) ≤ size →
      ∃ n, M.Rests (M.exec s (inputs schedule n)) from h _ 0 (Nat.le_refl _)
  intro size
  induction size with
  | zero =>
    intro n hsize
    refine ⟨n, ?_⟩
    intro i
    rcases hless _ i (hrun n) with hsame | hlt
    · exact hsame
    · exact absurd (Nat.lt_of_lt_of_le hlt hsize) (Nat.not_lt_zero _)
  | succ size ih =>
    intro n hsize
    by_cases hrests : M.Rests (M.exec s (inputs schedule n))
    · exact ⟨n, hrests⟩
    · rw [Rests, not_forall] at hrests
      obtain ⟨i, hi⟩ := hrests
      obtain ⟨m, -, hsame, hchange⟩ := exists_change hfair hi
      refine ih (m + 1) ?_
      rw [inputs_succ, exec_concat]
      rcases hless _ (schedule m) (hrun m) with hrest | hlt
      · exact absurd hrest hchange
      · rw [hsame] at hlt ⊢
        omega

end Machine
