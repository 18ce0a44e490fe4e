import Mouser.Lib.Machine

/-!
# Requests that are outstanding

A machine that issues requests and later makes use of their answers keeps the requests that are
outstanding in its state. `Machine.Requests` says what its steps do to them: what is held after a
step has been issued by it, or was held before it and the step left it alone. Then what is held at
the end of a run was issued by the last step that had to do with its key
(`Machine.Requests.open_of_holds`), and between two uses under one key it was issued again
(`Machine.Requests.issued_since`): no request is used twice.
-/

namespace Machine

variable {σ ι ο κ ρ : Type*}

/-- Requests under the keys `κ`, each with a record of what was asked for. -/
structure Requests (M : Machine σ ι ο) (κ ρ : Type*) where
  issues : Entry σ ι ο → κ → ρ → Prop
  uses : Entry σ ι ο → κ → Prop
  holds : σ → κ → ρ → Prop
  holds_step : ∀ s i k r, holds (M.step s i).1 k r →
    issues (M.entry s i) k r ∨
    (holds s k r ∧ (∀ r', ¬ issues (M.entry s i) k r') ∧ ¬ uses (M.entry s i) k)
  holds_of_uses : ∀ s i k, uses (M.entry s i) k → ∃ r, holds s k r
  not_issues : ∀ e k, uses e k → ∀ r, ¬ issues e k r

namespace Requests

variable {M : Machine σ ι ο} (R : M.Requests κ ρ) {s : σ} {k : κ} {r : ρ}

/-- The last step that had to do with `k` issued the request. -/
def Open (tr : List (Entry σ ι ο)) (k : κ) (r : ρ) : Prop :=
  ∃ earlier e later, tr = earlier ++ e :: later ∧ R.issues e k r ∧
    ∀ x ∈ later, (∀ r', ¬ R.issues x k r') ∧ ¬ R.uses x k

theorem open_concat {tr : List (Entry σ ι ο)} {e : Entry σ ι ο} (h : R.issues e k r) :
    R.Open (tr ++ [e]) k r :=
  ⟨tr, e, [], rfl, h, List.forall_mem_nil _⟩

/-- A step that leaves the key alone leaves the request open. -/
theorem Open.concat {tr : List (Entry σ ι ο)} {e : Entry σ ι ο} (h : R.Open tr k r)
    (hissues : ∀ r', ¬ R.issues e k r') (huses : ¬ R.uses e k) : R.Open (tr ++ [e]) k r := by
  obtain ⟨earlier, x, later, rfl, hx, hlater⟩ := h
  refine ⟨earlier, x, later ++ [e], by simp, hx, ?_⟩
  intro y hy
  rcases List.mem_append.1 hy with hy | hy
  · exact hlater y hy
  · rw [List.mem_singleton.1 hy]
    exact ⟨hissues, huses⟩

/-- **What is held was issued last.** -/
theorem open_of_holds (h0 : ∀ k r, ¬ R.holds s k r) (is : List ι)
    (h : R.holds (M.exec s is) k r) : R.Open (M.trace s is) k r := by
  refine M.induct (P := fun tr t => R.holds t k r → R.Open tr k r) (G := fun _ => True)
    (fun h => absurd h (h0 k r)) ?_ is (fun _ _ => trivial) h
  intro tr t i ih _ hnext
  rcases R.holds_step t i k r hnext with hissues | ⟨hheld, hissues, huses⟩
  · exact R.open_concat hissues
  · exact (ih hheld).concat R hissues huses

/-- What is open behind a use of its key was issued behind it. -/
theorem issued_since {earlier mid : List (Entry σ ι ο)} {e : Entry σ ι ο} (huse : R.uses e k)
    (h : R.Open (earlier ++ e :: mid) k r) : ∃ x ∈ mid, R.issues x k r := by
  obtain ⟨earlier', x, later, heq, hx, hlater⟩ := h
  rcases List.append_eq_append_iff.1 heq with ⟨rest, rfl, hrest⟩ | ⟨rest, rfl, hrest⟩
  · cases rest with
    | nil =>
      obtain ⟨rfl, -⟩ := List.cons.inj hrest
      exact absurd hx (R.not_issues e k huse r)
    | cons y rest =>
      obtain ⟨-, rfl⟩ := List.cons.inj hrest
      exact ⟨x, List.mem_append_right _ (.head _), hx⟩
  · cases rest with
    | nil =>
      obtain ⟨rfl, -⟩ := List.cons.inj hrest
      exact absurd hx (R.not_issues x k huse r)
    | cons y rest =>
      obtain ⟨-, rfl⟩ := List.cons.inj hrest
      exact absurd huse (hlater e (List.mem_append_right _ (.head _))).2

/-- **A request is used once.** -/
theorem issued_between (h0 : ∀ k r, ¬ R.holds s k r) {is : List ι}
    {earlier mid later : List (Entry σ ι ο)} {x y : Entry σ ι ο}
    (h : M.trace s is = earlier ++ x :: mid ++ y :: later) (hx : R.uses x k) (hy : R.uses y k) :
    ∃ z ∈ mid, ∃ r, R.issues z k r := by
  obtain ⟨js, i, ks, rfl, htr, rfl⟩ := M.trace_eq_append_cons h
  obtain ⟨r, hheld⟩ := R.holds_of_uses _ _ _ hy
  have hopen := R.open_of_holds h0 js hheld
  rw [htr] at hopen
  obtain ⟨z, hz, hissues⟩ := R.issued_since hx hopen
  exact ⟨z, hz, r, hissues⟩

end Requests

end Machine
