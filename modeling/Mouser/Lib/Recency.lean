import Mathlib.Data.List.Nodup
import Mathlib.Data.List.Induction
import Mathlib.Tactic.TypeStar

/-!
# A bounded table that forgets its oldest key

The keys of a table with room for `cap` of them wait in a queue, oldest first. A key that enters
goes to the back, wherever it was before, and pushes keys out at the front until there is room for
it; a key can also leave from anywhere.

What the table is supposed to be is said by the history, the list of the keys that have entered:
`Aged` is a queue without duplicates whose keys stand in the order of their last entries. Leaving
keeps it (`Aged.sublist`), and so does entering (`Aged.enter`), which pushes out a key only when the
table is full and the key that enters is new, and then the one that entered longest ago
(`Aged.admits`).
-/

namespace Recency

variable {α : Type*}

/-- `b` has entered since `a` last did. -/
def Older (history : List α) (a b : α) : Prop :=
  ∃ before after, history = before ++ a :: after ∧ a ∉ after ∧ b ∈ after

/-- The queue is that of a table with room for `cap` keys, after the keys of the history have
entered. -/
structure Aged (cap : ℕ) (history queue : List α) : Prop where
  nodup : queue.Nodup
  length_le : queue.length ≤ cap
  ordered : queue.Pairwise (Older history)
  entered : ∀ a ∈ queue, a ∈ history

/-- What an entry of `a` leaves of a table. -/
structure Admits (cap : ℕ) (history queue queue' : List α) (a : α) : Prop where
  /-- The key that entered longest ago makes room, and no other. -/
  full : a ∉ queue → queue.length = cap →
    ∃ oldest ∈ queue, (∀ b ∈ queue, b ≠ oldest → Older history oldest b) ∧
      ∀ b, b ∈ queue' ↔ b = a ∨ b ∈ queue ∧ b ≠ oldest
  room : a ∈ queue ∨ queue.length < cap → ∀ b, b ∈ queue' ↔ b = a ∨ b ∈ queue

variable {cap : ℕ} {history queue queue' : List α} {a b c : α}

theorem Older.concat (h : Older history a b) (hne : a ≠ c) : Older (history ++ [c]) a b := by
  obtain ⟨before, after, rfl, ha, hb⟩ := h
  refine ⟨before, after ++ [c], by simp, ?_, List.mem_append_left _ hb⟩
  rw [List.mem_append, List.mem_singleton]
  rintro (h | h)
  · exact ha h
  · exact hne h

/-- What enters is younger than what has entered before. -/
theorem older_concat_self (h : a ∈ history) (hne : a ≠ c) : Older (history ++ [c]) a c := by
  induction history using List.reverseRecOn with
  | nil => cases h
  | append_singleton history b ih =>
    by_cases hab : a = b
    · subst hab
      exact ⟨history, [c], by simp, by simpa using hne, by simp⟩
    · have hmem : a ∈ history := by simpa [hab] using h
      obtain ⟨before, after, heq, ha, -⟩ := ih hmem
      cases after using List.reverseRecOn with
      | nil =>
        obtain ⟨-, hac⟩ := List.append_inj' heq rfl
        exact absurd (List.singleton_inj.1 hac).symm hne
      | append_singleton after d =>
        rw [← List.cons_append, ← List.append_assoc] at heq
        obtain ⟨rfl, -⟩ := List.append_inj' heq rfl
        refine ⟨before, after ++ [b, c], by simp, ?_, by simp⟩
        simp only [List.mem_append, not_or] at ha ⊢
        exact ⟨ha.1, by simp [hab, hne]⟩

/-- The order of the keys in the table is not seen. -/
theorem Admits.perm {table table' : List α} (h : Admits cap history queue queue' a)
    (hperm : queue.Perm table) (hperm' : queue'.Perm table') :
    Admits cap history table table' a := by
  constructor
  · intro hnew hlength
    obtain ⟨oldest, hmem, hold, hleft⟩ :=
      h.full (mt hperm.mem_iff.1 hnew) (hperm.length_eq.trans hlength)
    refine ⟨oldest, hperm.mem_iff.1 hmem, fun b hb => hold b (hperm.mem_iff.2 hb), fun b => ?_⟩
    rw [← hperm'.mem_iff, hleft, hperm.mem_iff]
  · intro hroom b
    rw [← hperm.mem_iff, ← hperm.length_eq] at hroom
    rw [← hperm'.mem_iff, h.room hroom, hperm.mem_iff]

theorem aged_nil (cap : ℕ) (history : List α) : Aged cap history [] :=
  ⟨.nil, Nat.zero_le _, .nil, by simp⟩

/-- Keys may leave from anywhere. -/
theorem Aged.sublist (h : Aged cap history queue) (hsub : queue'.Sublist queue) :
    Aged cap history queue' :=
  ⟨h.nodup.sublist hsub, Nat.le_trans hsub.length_le h.length_le, h.ordered.sublist hsub,
    fun a ha => h.entered a (hsub.subset ha)⟩

/-- A key that goes to the back is the youngest. -/
theorem Aged.concat (h : Aged cap history queue) (ha : a ∉ queue) (hroom : queue.length < cap) :
    Aged cap (history ++ [a]) (queue ++ [a]) := by
  have hne : ∀ b ∈ queue, b ≠ a := fun b hb hba => ha (hba ▸ hb)
  refine ⟨?_, ?_, ?_, ?_⟩
  · exact List.nodup_append.2 ⟨h.nodup, by simp, by simpa using hne⟩
  · rw [List.length_append, List.length_singleton]
    exact hroom
  · refine List.pairwise_append.2 ⟨?_, by simp, ?_⟩
    · refine List.Pairwise.imp_of_mem ?_ h.ordered
      intro b c hb _ hbc
      exact hbc.concat (hne b hb)
    · intro b hb c hc
      rw [List.mem_singleton.1 hc]
      exact older_concat_self (h.entered b hb) (hne b hb)
  · intro b hb
    rcases List.mem_append.1 hb with hb | hb
    · exact List.mem_append_left _ (h.entered b hb)
    · exact List.mem_append_right _ hb

section

variable [DecidableEq α]

/-- The queue when `a` has entered. -/
def enter (cap : ℕ) (queue : List α) (a : α) : List α :=
  let kept := queue.filter (· ≠ a)
  kept.drop (kept.length + 1 - cap) ++ [a]

/-- **An entry** keeps the queue in the order of the last entries. -/
theorem Aged.enter (h : Aged cap history queue) (hcap : 0 < cap) (a : α) :
    Aged cap (history ++ [a]) (enter cap queue a) := by
  refine (h.sublist ((List.drop_sublist _ _).trans List.filter_sublist)).concat ?_ ?_
  · intro ha
    simpa using (List.mem_filter.1 (List.mem_of_mem_drop ha)).2
  · rw [List.length_drop]
    omega

theorem filter_ne_of_notMem (h : a ∉ queue) : queue.filter (· ≠ a) = queue := by
  rw [List.filter_eq_self]
  intro b hb
  rw [decide_eq_true_eq]
  rintro rfl
  exact h hb

/-- **What an entry pushes out.** -/
theorem Aged.admits (h : Aged cap history queue) (hcap : 0 < cap) (a : α) :
    Admits cap history queue (Recency.enter cap queue a) a := by
  constructor
  · intro hnew hlength
    unfold Recency.enter
    dsimp only
    rw [filter_ne_of_notMem hnew, hlength, Nat.add_sub_cancel_left, List.drop_one]
    cases queue with
    | nil => exact absurd hlength (Nat.ne_of_lt hcap)
    | cons oldest rest =>
      obtain ⟨hold, -⟩ := List.pairwise_cons.1 h.ordered
      have hnot := (List.nodup_cons.1 h.nodup).1
      refine ⟨oldest, .head _, ?_, ?_⟩
      · intro b hb hne
        exact hold b ((List.mem_cons.1 hb).resolve_left hne)
      · intro b
        rw [List.tail_cons, List.mem_append, List.mem_singleton, List.mem_cons]
        constructor
        · rintro (hb | hb)
          · exact .inr ⟨.inr hb, fun hbo => hnot (hbo ▸ hb)⟩
          · exact .inl hb
        · rintro (hb | ⟨hb, hne⟩)
          · exact .inr hb
          · exact .inl (hb.resolve_left hne)
  · intro hroom b
    have hkept : (queue.filter (· ≠ a)).length < cap := by
      by_cases hmem : a ∈ queue
      · exact Nat.lt_of_lt_of_le
          (List.length_filter_lt_length_iff_exists.2 ⟨a, hmem, by simp⟩) h.length_le
      · rw [filter_ne_of_notMem hmem]
        exact hroom.resolve_left hmem
    unfold Recency.enter
    dsimp only
    rw [Nat.sub_eq_zero_of_le hkept, List.drop_zero, List.mem_append, List.mem_singleton,
      List.mem_filter]
    by_cases hba : b = a
    · simp [hba]
    · simp [hba]

end

end Recency
