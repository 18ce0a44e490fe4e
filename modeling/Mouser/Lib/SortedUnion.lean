import Mathlib.Data.List.Nodup
import Mathlib.Data.List.Perm.Basic
import Mathlib.Order.Lattice

/-!
# Sets kept as sorted lists

A set that is kept as a list in the order of a key is determined by its elements
(`Ascending.ext`), so a union that is built up in any order is the same list. `addMissing` is the
union of two lists, and `sort` puts it in order.
-/

namespace SortedUnion

variable {α κ : Type*} [LinearOrder κ] {key : α → κ} {l m : List α}

/-- In the order of the key, and no key twice. -/
def Ascending (key : α → κ) (l : List α) : Prop := l.Pairwise fun a b => key a < key b

/-- A stable sort by the key. -/
def sort (key : α → κ) (l : List α) : List α := l.mergeSort fun a b => key a ≤ key b

@[simp] theorem mem_sort {x : α} : x ∈ sort key l ↔ x ∈ l := List.mem_mergeSort

theorem Ascending.nodup (h : Ascending key l) : l.Nodup :=
  h.imp fun hlt heq => absurd (congrArg key heq) hlt.ne

/-- **Two lists in order with the same elements are equal.** -/
theorem Ascending.ext (hl : Ascending key l) (hm : Ascending key m) (h : ∀ x, x ∈ l ↔ x ∈ m) :
    l = m := by
  have hperm := (List.perm_ext_iff_of_nodup hl.nodup hm.nodup).2 h
  exact hperm.eq_of_pairwise (fun a b _ _ hab hba => absurd hab hba.asymm) hl hm

/-- A list without duplicates is put in order. -/
theorem ascending_sort (hkey : Function.Injective key) (h : l.Nodup) :
    Ascending key (sort key l) := by
  have hsorted : (sort key l).Pairwise fun a b => decide (key a ≤ key b) = true := by
    refine List.pairwise_mergeSort ?_ ?_ l
    · intro a b c hab hbc
      exact decide_eq_true ((of_decide_eq_true hab).trans (of_decide_eq_true hbc))
    · intro a b
      simpa using le_total (key a) (key b)
  have hnodup : (sort key l).Nodup := (List.mergeSort_perm l _).nodup_iff.2 h
  refine hsorted.imp₂ (fun a b hle hne => ?_) hnodup
  exact lt_of_le_of_ne (of_decide_eq_true hle) (hkey.ne hne)

variable [DecidableEq α]

/-- Push the elements that are not there yet. -/
def addMissing (l m : List α) : List α :=
  m.foldl (fun acc x => if x ∈ acc then acc else acc ++ [x]) l

theorem mem_addMissing {x : α} : x ∈ addMissing l m ↔ x ∈ l ∨ x ∈ m := by
  induction m generalizing l with
  | nil => simp [addMissing]
  | cons y m ih =>
    have hstep : addMissing l (y :: m) = addMissing (if y ∈ l then l else l ++ [y]) m := rfl
    rw [hstep, ih]
    split
    · next hy =>
      rw [List.mem_cons]
      refine ⟨fun h => h.imp_right .inr, ?_⟩
      rintro (h | rfl | h)
      · exact .inl h
      · exact .inl hy
      · exact .inr h
    · simp [or_assoc]

theorem nodup_addMissing (h : l.Nodup) (m : List α) : (addMissing l m).Nodup := by
  induction m generalizing l with
  | nil => exact h
  | cons y m ih =>
    have hstep : addMissing l (y :: m) = addMissing (if y ∈ l then l else l ++ [y]) m := rfl
    rw [hstep]
    refine ih ?_
    split
    · exact h
    · next hy => exact List.concat_eq_append ▸ h.concat hy

end SortedUnion
