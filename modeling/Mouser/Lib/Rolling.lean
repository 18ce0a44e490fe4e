import Mathlib.Data.List.Basic
import Mathlib.Tactic.TypeStar

/-!
# Functions of a list that are rolled over its pieces

A digest is computed piece by piece: a state that is updated with one piece after the other, and
that is finalized into the value. `Rolling.Computes` is what such an interface promises, that the
pieces do not matter, and `Rolling.Over` says which list a state has been rolled over.
-/

/-- A state that is updated with pieces of a list. -/
structure Rolling (H α β : Type*) where
  new : H
  update : H → List α → H
  finalize : H → β

namespace Rolling

variable {H α β : Type*} (r : Rolling H α β)

/-- However the list is cut, its value is `f` of it. -/
def Computes (f : List α → β) : Prop :=
  ∀ chunks : List (List α), r.finalize (chunks.foldl r.update r.new) = f chunks.flatten

/-- The state that `xs` leads to, in some pieces. -/
def Over (h : H) (xs : List α) : Prop :=
  ∃ chunks : List (List α), h = chunks.foldl r.update r.new ∧ chunks.flatten = xs

variable {r} {h : H} {xs : List α}

theorem over_new (r : Rolling H α β) : r.Over r.new [] := ⟨[], rfl, rfl⟩

theorem Over.update (hover : r.Over h xs) (chunk : List α) :
    r.Over (r.update h chunk) (xs ++ chunk) := by
  obtain ⟨chunks, rfl, rfl⟩ := hover
  exact ⟨chunks ++ [chunk], by rw [List.foldl_concat], by rw [List.flatten_concat]⟩

theorem Over.finalize {f : List α → β} (hover : r.Over h xs) (hf : r.Computes f) :
    r.finalize h = f xs := by
  obtain ⟨chunks, rfl, rfl⟩ := hover
  exact hf chunks

/-- The state that keeps the list. -/
def keep (f : List α → β) : Rolling (List α) α β where
  new := []
  update := List.append
  finalize := f

theorem keep_computes (f : List α → β) : (keep f).Computes f := by
  intro chunks
  have hfold : ∀ start : List α, chunks.foldl List.append start = start ++ chunks.flatten := by
    induction chunks with
    | nil => simp
    | cons chunk chunks ih =>
      intro start
      rw [List.foldl_cons, ih, List.flatten_cons]
      exact List.append_assoc ..
  exact congrArg f (hfold [])

end Rolling
