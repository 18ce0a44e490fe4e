import Mathlib.Data.List.Basic
import Mathlib.Tactic.TypeStar

/-!
# What a channel carries

A lossless FIFO channel between two parties stands for the steps that one of them has made and the
other has still to follow. `Carries step a q b` says that the messages of the queue `q`, in their
order, lead from the view `a` of the party at its head to the view `b` of the party at its end, each
by `step`. Sending a message moves the view at the end (`Carries.concat`), receiving one the view at
the head (`Carries.of_cons`), and over an empty channel the two views agree (`carries_nil`).

`Repeats answer pos q` is for a channel over which one list of messages is sent again and again:
`pos` messages of the list at its head have been received.
-/

/-- The messages of a queue lead from one view to the other. -/
inductive Carries {σ τ : Type*} (step : σ → τ → σ → Prop) : σ → List τ → σ → Prop where
  | nil (a : σ) : Carries step a [] a
  | cons {a b c : σ} {x : τ} {q : List τ} (h : step a x b) (hq : Carries step b q c) :
    Carries step a (x :: q) c

namespace Carries

variable {σ τ : Type*} {step : σ → τ → σ → Prop} {a b c : σ} {x : τ} {q q' : List τ}

theorem of_cons (h : Carries step a (x :: q) c) : ∃ b, step a x b ∧ Carries step b q c := by
  cases h with
  | cons hx hq => exact ⟨_, hx, hq⟩

theorem append (h : Carries step a q b) (h' : Carries step b q' c) :
    Carries step a (q ++ q') c := by
  induction h with
  | nil a => exact h'
  | cons hx _ ih => exact .cons hx (ih h')

theorem concat (h : Carries step a q b) (hx : step b x c) : Carries step a (q ++ [x]) c :=
  h.append (.cons hx (.nil c))

/-- What every step relates, the whole queue relates. -/
theorem rel {R : σ → σ → Prop} (hrefl : ∀ a, R a a) (htrans : ∀ a b c, R a b → R b c → R a c)
    (hstep : ∀ a x b, step a x b → R a b) (h : Carries step a q b) : R a b := by
  induction h with
  | nil a => exact hrefl a
  | cons hx _ ih => exact htrans _ _ _ (hstep _ _ _ hx) ih

end Carries

@[simp] theorem carries_nil {σ τ : Type*} {step : σ → τ → σ → Prop} {a b : σ} :
    Carries step a [] b ↔ a = b := by
  refine ⟨?_, ?_⟩
  · intro h
    cases h
    rfl
  · rintro rfl
    exact .nil a

/-- The queue holds what is left of `answer` behind its first `pos` messages, and whole answers
after it. -/
inductive Repeats {τ : Type*} (answer : List τ) : ℕ → List τ → Prop where
  | nil : Repeats answer 0 []
  | rest {pos : ℕ} {q : List τ} (hpos : pos < answer.length) (h : Repeats answer 0 q) :
    Repeats answer pos (answer.drop pos ++ q)

namespace Repeats

variable {τ : Type*} {answer q : List τ} {pos : ℕ} {x : τ}

/-- The answer is sent once more. -/
theorem append (hne : answer ≠ []) (h : Repeats answer pos q) :
    Repeats answer pos (q ++ answer) := by
  induction h with
  | nil =>
    have h : Repeats answer 0 (answer.drop 0 ++ []) := .rest (List.length_pos_of_ne_nil hne) .nil
    rwa [List.drop_zero, List.append_nil] at h
  | rest hpos _ ih =>
    rw [List.append_assoc]
    exact .rest hpos ih

/-- A message is received: it is the next one of the answer. -/
theorem of_cons (h : Repeats answer pos (x :: q)) :
    ∃ later, answer.drop pos = x :: later ∧ Repeats answer ((pos + 1) % answer.length) q := by
  generalize hqueue : x :: q = queue at h
  cases h with
  | nil => cases hqueue
  | @rest _ tail hpos htail =>
    rw [List.drop_eq_getElem_cons hpos] at hqueue ⊢
    rw [List.cons_append] at hqueue
    obtain ⟨rfl, rfl⟩ := List.cons.inj hqueue
    refine ⟨_, rfl, ?_⟩
    rcases Nat.lt_or_ge (pos + 1) answer.length with hnext | hlast
    · rw [Nat.mod_eq_of_lt hnext]
      exact .rest hnext htail
    · have hend : pos + 1 = answer.length := Nat.le_antisymm hpos hlast
      rw [List.drop_of_length_le hlast, hend, Nat.mod_self]
      exact htail

end Repeats
