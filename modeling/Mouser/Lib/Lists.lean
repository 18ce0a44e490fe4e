import Mathlib.Data.List.Basic
import Mathlib.Data.List.Chain
import Mathlib.Data.List.Forall2

/-!
# Updating lists

What an update of one element of a list leaves alone, what an update of all of them does and when
one that can fail succeeds, which of its elements is the last with a property, and how a list goes
on behind its last element.
-/

namespace List

variable {α β : Type*}

/-- A function that does not see the update of an element does not see that of the list. -/
theorem map_set_same {l : List α} {i : ℕ} {a b : α} (f : α → β) (ha : l[i]? = some a)
    (hf : f b = f a) : (l.set i b).map f = l.map f := by
  obtain ⟨hlt, rfl⟩ := List.getElem?_eq_some_iff.1 ha
  rw [List.map_set, hf, ← List.getElem_map f]
  · exact List.set_getElem_self _
  · rwa [List.length_map]

/-- The element behind a prefix is updated at the length of the prefix. -/
theorem modify_length_append (before : List α) (a : α) (rest : List α) (f : α → α) :
    (before ++ a :: rest).modify before.length f = before ++ f a :: rest := by
  induction before with
  | nil => rfl
  | cons b before ih =>
    rw [List.cons_append, List.length_cons, List.modify_succ_cons, ih]
    rfl

/-- An element of a list that has grown by one is an old one or the new one. -/
theorem getElem?_concat_eq_some {l : List α} {a b : α} {i : ℕ} (h : (l ++ [a])[i]? = some b) :
    l[i]? = some b ∨ (i = l.length ∧ b = a) := by
  rcases Nat.lt_trichotomy i l.length with hi | rfl | hi
  · rw [List.getElem?_append_left hi] at h
    exact .inl h
  · rw [List.getElem?_concat_length, Option.some.injEq] at h
    exact .inr ⟨rfl, h.symm⟩
  · obtain ⟨hlt, -⟩ := List.getElem?_eq_some_iff.1 h
    rw [List.length_append, List.length_singleton] at hlt
    omega

/-- Equal elements of a list without duplicates are at the same place. -/
theorem Nodup.eq_of_getElem? {l : List α} (h : l.Nodup) {i j : ℕ} {a : α} (hi : l[i]? = some a)
    (hj : l[j]? = some a) : i = j := by
  obtain ⟨hlt, -⟩ := List.getElem?_eq_some_iff.1 hi
  exact (List.getElem?_inj hlt h).1 (hi.trans hj.symm)

/-- A function that does not see an update of all the elements does not see that of the list. -/
theorem Forall₂.map_eq {R : α → α → Prop} {l l' : List α} (h : Forall₂ R l l') (f : α → β)
    (hf : ∀ a b, R a b → f b = f a) : l'.map f = l.map f := by
  have hmap : Forall₂ (· = ·) (l'.map f) (l.map f) := by
    rw [List.forall₂_map_left_iff, List.forall₂_map_right_iff]
    exact h.flip.imp fun b a hab => hf a b hab
  rwa [List.forall₂_eq_eq_eq] at hmap

/-- A list related to an append is one. -/
theorem Forall₂.exists_append_right {R : α → β → Prop} {l : List α} {m₁ m₂ : List β}
    (h : Forall₂ R l (m₁ ++ m₂)) :
    ∃ l₁ l₂, l = l₁ ++ l₂ ∧ Forall₂ R l₁ m₁ ∧ Forall₂ R l₂ m₂ :=
  ⟨_, _, (List.take_append_drop m₁.length l).symm, List.forall₂_take_append l m₁ m₂ h,
    List.forall₂_drop_append l m₁ m₂ h⟩

theorem Forall₂.append_append {R : α → β → Prop} {l₁ l₂ : List α} {m₁ m₂ : List β}
    (h₁ : Forall₂ R l₁ m₁) (h₂ : Forall₂ R l₂ m₂) : Forall₂ R (l₁ ++ l₂) (m₁ ++ m₂) :=
  List.rel_append h₁ h₂

theorem Forall₂.of_getElem?_left {R : α → β → Prop} {l : List α} {l' : List β}
    (h : Forall₂ R l l') {i : ℕ} {a : α} (ha : l[i]? = some a) : ∃ b, l'[i]? = some b ∧ R a b := by
  obtain ⟨hi, rfl⟩ := List.getElem?_eq_some_iff.1 ha
  have hi' : i < l'.length := by rwa [← h.length_eq]
  exact ⟨_, List.getElem?_eq_getElem hi', h.get hi hi'⟩

theorem Forall₂.of_getElem?_right {R : α → β → Prop} {l : List α} {l' : List β}
    (h : Forall₂ R l l') {i : ℕ} {b : β} (hb : l'[i]? = some b) :
    ∃ a, l[i]? = some a ∧ R a b :=
  h.flip.of_getElem?_left hb

/-- A function that can fail succeeds on a list when it does on the elements. -/
theorem exists_mapM_eq_ok {ε α β : Type*} {f : α → Except ε β} {R : α → β → Prop} {l : List α}
    (h : ∀ a ∈ l, ∃ b, f a = .ok b ∧ R a b) : ∃ bs, l.mapM f = .ok bs ∧ Forall₂ R l bs := by
  induction l with
  | nil => exact ⟨[], rfl, .nil⟩
  | cons a l ih =>
    obtain ⟨ha, hl⟩ := List.forall_mem_cons.1 h
    obtain ⟨b, hb, hab⟩ := ha
    obtain ⟨bs, hbs, hall⟩ := ih hl
    refine ⟨b :: bs, ?_, .cons hab hall⟩
    rw [List.mapM_cons, hb]
    dsimp only [bind, Except.bind]
    rw [hbs]
    rfl

/-- A prefix goes on with what comes next. -/
theorem IsPrefix.append_drop {l before next : List α} (h : before <+: l)
    (hnext : next <+: l.drop before.length) : before ++ next <+: l := by
  obtain ⟨rest, rfl⟩ := h
  rw [List.drop_left] at hnext
  exact (List.prefix_append_right_inj before).2 hnext

/-- A list has one last element with a property. -/
theorem eq_of_append_cons_of_last {P : α → Prop} {before before' after after' : List α} {x x' : α}
    (h : before ++ x :: after = before' ++ x' :: after') (hx : P x) (hx' : P x')
    (hafter : ∀ y ∈ after, ¬ P y) (hafter' : ∀ y ∈ after', ¬ P y) : x = x' ∧ after = after' := by
  rcases List.append_eq_append_iff.1 h with ⟨mid, -, hmid⟩ | ⟨mid, -, hmid⟩
  · cases mid with
    | nil => exact List.cons.inj hmid
    | cons y mid =>
      obtain ⟨-, rfl⟩ := List.cons.inj hmid
      exact absurd hx' (hafter x' (List.mem_append_right _ (.head _)))
  · cases mid with
    | nil =>
      obtain ⟨rfl, rfl⟩ := List.cons.inj hmid
      exact ⟨rfl, rfl⟩
    | cons y mid =>
      obtain ⟨-, rfl⟩ := List.cons.inj hmid
      exact absurd hx (hafter' x (List.mem_append_right _ (.head _)))

/-- A chain goes on behind its last element. -/
theorem isChain_cons_concat {R : α → α → Prop} {a x : α} {l : List α} :
    (a :: (l ++ [x])).IsChain R ↔ (a :: l).IsChain R ∧ R (l.getLastD a) x := by
  rw [← List.cons_append, List.isChain_append]
  simp [List.getLast?_cons]

end List
