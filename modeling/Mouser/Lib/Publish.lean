import Mathlib.Data.Nat.Notation
import Mathlib.Logic.Function.Basic
import Mathlib.Tactic.TypeStar

/-!
# Publishing views of a shared state

Several tasks change a shared state and put up a view of it for others to read. A task that has
changed the state owes a publication: it builds the view in one step and puts it up in a later one,
and any other task may run between the two.

On a `Board` the views carry the number of the writes they have seen. `Board.Fresh` is what holds of
a board on which no view was put up over a newer one: the view that is up is current, or some task
has still to build, or some task holds the current view. So once no task has anything left to do,
the view that is up is the view of the current state (`Fresh.up_eq`).
-/

/-- A shared state, and what is shown of it. -/
structure Board (ι σ ν : Type*) where
  state : σ
  /-- How often the state was written. -/
  writes : ℕ
  /-- The tasks that have still to build the view. -/
  owes : ι → Bool
  /-- The view a task has built and not put up, and the writes it has seen. -/
  held : ι → Option (ℕ × ν)
  /-- The view that is up, and the writes it has seen. -/
  up : ν
  seen : ℕ

namespace Board

variable {ι σ ν : Type*} (view : σ → ν) (b : Board ι σ ν)

/-- The board on which the view of `state` is up. -/
def start (state : σ) (owes : ι → Bool) : Board ι σ ν where
  state := state
  writes := 0
  owes := owes
  held := fun _ => none
  up := view state
  seen := 0

/-- The state changes, and no one owes its view. -/
def alter (f : σ → σ) : Board ι σ ν := { b with state := f b.state }

/-- Task `i` has nothing to build and nothing to put up. -/
def Quiet (i : ι) : Prop := b.owes i = false ∧ b.held i = none

/-- The view in the hand of task `i` is older than the view that is up. -/
def Late (i : ι) : Prop := ∃ n ∈ (b.held i).map Prod.fst, n < b.seen

instance (i : ι) : Decidable (b.Quiet i) :=
  decidable_of_iff (b.owes i = false ∧ (b.held i).isNone) (by simp [Quiet])

instance (i : ι) : Decidable (b.Late i) :=
  match h : b.held i with
  | some (n, _) => decidable_of_iff (n < b.seen) (by simp [Late, h])
  | none => isFalse (by simp [Late, h])

section

variable [DecidableEq ι]

/-- The state changes, and task `i` owes its view. -/
def write (f : σ → σ) (i : ι) : Board ι σ ν :=
  { b with state := f b.state, writes := b.writes + 1, owes := Function.update b.owes i true }

def build (i : ι) : Board ι σ ν :=
  { b with
    owes := Function.update b.owes i false
    held := Function.update b.held i (some (b.writes, view b.state)) }

def put (i : ι) : Board ι σ ν :=
  match b.held i with
  | some (n, v) => { b with held := Function.update b.held i none, up := v, seen := n }
  | none => b

end

/-- No view was put up over a newer one. -/
structure Fresh : Prop where
  seenLe : b.seen ≤ b.writes
  heldLe : ∀ i n v, b.held i = some (n, v) → n ≤ b.writes
  up : b.seen = b.writes → b.up = view b.state
  held : ∀ i v, b.held i = some (b.writes, v) → v = view b.state
  current : b.seen = b.writes ∨ (∃ i, b.owes i = true) ∨ ∃ i v, b.held i = some (b.writes, v)

variable {view b}

theorem fresh_start (state : σ) (owes : ι → Bool) : (start view state owes).Fresh view where
  seenLe := Nat.le_refl _
  heldLe := nofun
  up _ := rfl
  held := nofun
  current := .inl rfl

/-- A state that no one has to show is not current only if it looks different. -/
theorem Fresh.alter (h : b.Fresh view) {f : σ → σ} (hf : view (f b.state) = view b.state) :
    (b.alter f).Fresh view where
  seenLe := h.seenLe
  heldLe := h.heldLe
  up hseen := (h.up hseen).trans hf.symm
  held i v hv := (h.held i v hv).trans hf.symm
  current := h.current

/-- **A quiet board is current.** -/
theorem Fresh.up_eq (h : b.Fresh view) (hquiet : ∀ i, b.Quiet i) : b.up = view b.state := by
  rcases h.current with hup | ⟨i, howes⟩ | ⟨i, v, hheld⟩
  · exact h.up hup
  · rw [(hquiet i).1] at howes
    cases howes
  · rw [(hquiet i).2] at hheld
    cases hheld

section

variable [DecidableEq ι]

/-- A write makes every view old, and leaves one to be built. -/
theorem Fresh.write (h : b.Fresh view) (f : σ → σ) (i : ι) : (b.write f i).Fresh view where
  seenLe := Nat.le_succ_of_le h.seenLe
  heldLe j n v hv := Nat.le_succ_of_le (h.heldLe j n v hv)
  up hseen := absurd h.seenLe (by have : b.seen = b.writes + 1 := hseen; omega)
  held j v hv := absurd (h.heldLe j _ v hv) (Nat.not_succ_le_self _)
  current := .inr (.inl ⟨i, by simp [Board.write]⟩)

theorem Fresh.build (h : b.Fresh view) (i : ι) : (b.build view i).Fresh view where
  seenLe := h.seenLe
  heldLe j n v hv := by
    by_cases hj : j = i
    · subst hj
      simp only [Board.build, Function.update_self, Option.some.injEq, Prod.mk.injEq] at hv
      exact Nat.le_of_eq hv.1.symm
    · exact h.heldLe j n v (by simpa [Board.build, hj] using hv)
  up := h.up
  held j v hv := by
    by_cases hj : j = i
    · subst hj
      simp only [Board.build, Function.update_self, Option.some.injEq, Prod.mk.injEq] at hv
      exact hv.2.symm
    · exact h.held j v (by simpa [Board.build, hj] using hv)
  current := .inr (.inr ⟨i, view b.state, by simp [Board.build]⟩)

/-- A view that is not late may be put up. -/
theorem Fresh.put (h : b.Fresh view) {i : ι} (hlate : ¬ b.Late i) : (b.put i).Fresh view := by
  unfold Board.put
  split
  · next n v hheld =>
    have hseen : b.seen ≤ n := by simpa [Late, hheld] using hlate
    have hn : n ≤ b.writes := h.heldLe i n v hheld
    refine ⟨hn, ?_, ?_, ?_, ?_⟩
    · intro j m w hw
      by_cases hj : j = i
      · simp [hj] at hw
      · exact h.heldLe j m w (by simpa [hj] using hw)
    · intro hcurrent
      exact h.held i v (hheld.trans (congrArg (fun k => some (k, v)) hcurrent))
    · intro j w hw
      by_cases hj : j = i
      · simp [hj] at hw
      · exact h.held j w (by simpa [hj] using hw)
    · -- Unless this was the current view, whoever has to show the state is another task.
      by_cases hcurrent : n = b.writes
      · exact .inl hcurrent
      · rcases h.current with hup | howes | ⟨j, w, hw⟩
        · exact absurd (hup ▸ hseen) (by omega)
        · exact .inr (.inl howes)
        · have hj : j ≠ i := by
            rintro rfl
            rw [hheld] at hw
            cases hw
            exact hcurrent rfl
          exact .inr (.inr ⟨j, w, by simpa [hj] using hw⟩)
  · exact h

end

end Board
