import Mathlib.Data.List.Basic
import Mathlib.Data.List.Infix

/-!
# Items that several tasks put on their way

One source makes items, a list at a time, and gives each list to a task; the task puts its items on
their way one by one, in the order of its list, and the tasks put in any order among each other.
`Handout.made` is what the source made and `Handout.put` what the tasks have put, both in order;
`Handout.due` is what is still to be put, oldest first, with the task that has it.

`Handout.InOrder` says of a kind of items that they were put in the order in which they were made.
Making items keeps it, and putting one keeps it if no older item of the kind is due
(`Handout.InOrder.hand`).
-/

structure Handout (τ α : Type*) where
  made : List α
  due : List (τ × α)
  put : List α

namespace Handout

variable {τ α : Type*} [DecidableEq τ]

/-- Nothing was made yet. -/
def empty : Handout τ α := ⟨[], [], []⟩

/-- The source makes `as` and gives them to `t`. -/
def give (h : Handout τ α) (t : τ) (as : List α) : Handout τ α :=
  { h with made := h.made ++ as, due := h.due ++ as.map (t, ·) }

/-- Task `t` puts `a`, the oldest item that it has. -/
def hand (h : Handout τ α) (t : τ) (a : α) : Handout τ α :=
  { h with due := h.due.eraseP (·.1 = t), put := h.put ++ [a] }

/-- What `t` has still to put. -/
def pending (h : Handout τ α) (t : τ) : List α := (h.due.filter (·.1 = t)).map (·.2)

/-- The task that has the oldest due item of kind `p`. -/
def oldest (h : Handout τ α) (p : α → Bool) : Option τ := (h.due.find? (p ·.2)).map (·.1)

/-! ## What a task has to put -/

@[simp] theorem pending_empty (t : τ) : (empty : Handout τ α).pending t = [] := rfl

theorem pending_give (h : Handout τ α) (t u : τ) (as : List α) :
    (h.give t as).pending u = h.pending u ++ if t = u then as else [] := by
  unfold pending give
  rw [List.filter_append, List.map_append, List.filter_map, List.map_map]
  by_cases htu : t = u <;> simp [htu, Function.comp_def]

/-- The due items, taken apart at the first one of `t`. -/
theorem due_of_pending {h : Handout τ α} {t : τ} {a : α} {rest : List α}
    (hp : h.pending t = a :: rest) :
    ∃ before after, h.due = before ++ (t, a) :: after ∧ (∀ d ∈ before, d.1 ≠ t) ∧
      (after.filter (·.1 = t)).map (·.2) = rest := by
  obtain ⟨d, ds, hd, rfl, hds⟩ := List.map_eq_cons_iff.1 hp
  obtain ⟨before, after, hdue, hbefore, ht, hafter⟩ := List.filter_eq_cons_iff.1 hd
  obtain ⟨u, a⟩ := d
  obtain rfl : u = t := by simpa using ht
  refine ⟨before, after, hdue, ?_, by rw [hafter, hds]⟩
  intro d hd
  simpa using hbefore d hd

theorem due_hand {h : Handout τ α} {t : τ} {before after : List (τ × α)} {a : α}
    (hdue : h.due = before ++ (t, a) :: after) (hbefore : ∀ d ∈ before, d.1 ≠ t) (b : α) :
    (h.hand t b).due = before ++ after := by
  unfold hand
  rw [hdue, List.eraseP_append_right _ (by simpa using hbefore), List.eraseP_cons_of_pos (by simp)]

theorem pending_hand_self {h : Handout τ α} {t : τ} {a : α} {rest : List α}
    (hp : h.pending t = a :: rest) : (h.hand t a).pending t = rest := by
  obtain ⟨before, after, hdue, hbefore, hrest⟩ := due_of_pending hp
  have hnone : before.filter (·.1 = t) = [] := by simpa using hbefore
  rw [pending, due_hand hdue hbefore, List.filter_append, hnone, List.nil_append, hrest]

theorem pending_hand_other {h : Handout τ α} {t u : τ} {a : α} {rest : List α}
    (hp : h.pending t = a :: rest) (hu : u ≠ t) : (h.hand t a).pending u = h.pending u := by
  obtain ⟨before, after, hdue, hbefore, -⟩ := due_of_pending hp
  have hskip : ((t, a) :: after).filter (·.1 = u) = after.filter (·.1 = u) :=
    List.filter_cons_of_neg (by simpa using hu.symm)
  unfold pending
  rw [due_hand hdue hbefore, hdue, List.filter_append, List.filter_append, hskip]

/-- What is read off the items put so far. -/
theorem filterMap_put_hand {β : Type*} (h : Handout τ α) (t : τ) (a : α) (f : α → Option β) :
    (h.hand t a).put.filterMap f = h.put.filterMap f ++ (f a).toList := by
  refine List.filterMap_append.trans (congrArg _ ?_)
  rw [List.filterMap_cons]
  cases f a <;> rfl

/-! ## The order of a kind of items -/

/-- The items of kind `p` were put in the order in which they were made, and none was left out. -/
def InOrder (h : Handout τ α) (p : α → Bool) : Prop :=
  h.put.filter p ++ (h.due.map (·.2)).filter p = h.made.filter p

namespace InOrder

variable {h : Handout τ α} {p : α → Bool}

omit [DecidableEq τ] in
theorem empty (p : α → Bool) : (empty : Handout τ α).InOrder p := rfl

omit [DecidableEq τ] in
theorem give (ho : h.InOrder p) (t : τ) (as : List α) : (h.give t as).InOrder p := by
  have hmap : (as.map (t, ·)).map (·.2) = as := by
    rw [List.map_map]
    exact List.map_id as
  change h.put.filter p ++ ((h.due ++ as.map (t, ·)).map (·.2)).filter p = (h.made ++ as).filter p
  rw [List.map_append, hmap, List.filter_append, List.filter_append, ← List.append_assoc, ho]

/-- Putting an item keeps the order of its kind if no older item of the kind is due. -/
theorem hand (ho : h.InOrder p) {t : τ} {a : α} {rest : List α} (hp : h.pending t = a :: rest)
    (hturn : p a = true → h.oldest p = some t) : (h.hand t a).InOrder p := by
  obtain ⟨before, after, hdue, hbefore, -⟩ := due_of_pending hp
  unfold InOrder at ho ⊢
  rw [due_hand hdue hbefore]
  change (h.put ++ [a]).filter p ++ _ = h.made.filter p
  rw [hdue, List.map_append, List.map_cons, List.filter_append] at ho
  rw [List.map_append, List.filter_append, List.filter_append, ← ho]
  cases ha : p a with
  | false => simp [ha]
  | true =>
    -- no item before this one is of the kind: the oldest would belong to another task
    have hnone : (before.map (·.2)).filter p = [] := by
      have hold := hturn ha
      rw [oldest, hdue, List.find?_append] at hold
      rw [List.filter_map, List.map_eq_nil_iff, List.filter_eq_nil_iff]
      intro d hd hpd
      have hfound : (before.find? (p ·.2)).isSome := List.find?_isSome.2 ⟨d, hd, hpd⟩
      obtain ⟨x, hx⟩ := Option.isSome_iff_exists.1 hfound
      rw [hx] at hold
      exact hbefore x (List.mem_of_find?_eq_some hx) (Option.some.inj hold)
    simp [ha, hnone]

section read

variable {β : Type*} {f : α → Option β}

omit [DecidableEq τ] in
/-- What is read off items of one kind only does not need the others. -/
theorem filterMap_filter_of (hf : ∀ a, p a = false → f a = none) (l : List α) :
    (l.filter p).filterMap f = l.filterMap f := by
  rw [List.filterMap_filter]
  refine List.filterMap_congr ?_
  intro a _
  cases ha : p a with
  | false => simp [hf a ha]
  | true => simp

omit [DecidableEq τ] in
/-- What was put is an initial part of what was made, whatever is read off the items. -/
theorem isPrefix (ho : h.InOrder p) (hf : ∀ a, p a = false → f a = none) :
    h.put.filterMap f <+: h.made.filterMap f := by
  refine ⟨(h.due.map (·.2)).filterMap f, ?_⟩
  rw [← filterMap_filter_of hf h.put, ← filterMap_filter_of hf (h.due.map (·.2)),
    ← List.filterMap_append, ho, filterMap_filter_of hf]

/-- When nothing is due, everything that was made was put. -/
theorem drained (ho : h.InOrder p) (hf : ∀ a, p a = false → f a = none)
    (hidle : ∀ t, h.pending t = []) : h.put.filterMap f = h.made.filterMap f := by
  have hdue : h.due = [] := by
    refine List.eq_nil_iff_forall_not_mem.2 ?_
    rintro ⟨t, a⟩ hd
    have hnil := List.map_eq_nil_iff.1 (hidle t)
    exact List.filter_eq_nil_iff.1 hnil _ hd (by simp)
  have hput : h.put.filter p = h.made.filter p := by
    unfold InOrder at ho
    rwa [hdue, List.map_nil, List.filter_nil, List.append_nil] at ho
  rw [← filterMap_filter_of hf, hput, filterMap_filter_of hf]

end read

end InOrder

end Handout
