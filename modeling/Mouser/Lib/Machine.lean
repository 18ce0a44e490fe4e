import Mathlib.Data.List.Induction
import Mathlib.Tactic.TypeStar

/-!
# Machines with outputs, and what holds along their runs

A component that answers every input with a new state and an output is a total step function
(`Machine`). A run is a list of inputs; `Machine.exec` is the state it ends in and
`Machine.trace` the list of its steps, each with the state before, the input, the output and the
state after. Nothing here knows what the states are: an interleaving of several tasks is a list of
inputs of the machine that holds them all, and an input that is not enabled leaves the state alone.

`Machine.induct` is the one induction over runs. An invariant of states is the case in which the
trace is not looked at (`Machine.inv_exec`), a property of every step is read off the state before
it (`Machine.inv_trace`), `Machine.forall₂_trace` is the rule for two machines that run side by
side, and `Machine.pairwise_emit` the rule for outputs that have to keep a relation between any two
of them, however far apart.
-/

/-- A deterministic machine: the new state and the output of each input. -/
structure Machine (σ ι ο : Type*) where
  step : σ → ι → σ × ο

namespace Machine

/-- One step of a run. -/
structure Entry (σ ι ο : Type*) where
  pre : σ
  input : ι
  output : ο
  post : σ

variable {σ ι ο β : Type*} (M : Machine σ ι ο)

/-- The step that input `i` makes from `s`. -/
def entry (s : σ) (i : ι) : Entry σ ι ο :=
  ⟨s, i, (M.step s i).2, (M.step s i).1⟩

/-- The state a run ends in. -/
def exec (s : σ) : List ι → σ
  | [] => s
  | i :: is => exec (M.step s i).1 is

/-- The steps of a run, in order. -/
def trace (s : σ) : List ι → List (Entry σ ι ο)
  | [] => []
  | i :: is => M.entry s i :: trace (M.step s i).1 is

@[simp] theorem entry_pre (s : σ) (i : ι) : (M.entry s i).pre = s := rfl
@[simp] theorem entry_input (s : σ) (i : ι) : (M.entry s i).input = i := rfl
@[simp] theorem entry_output (s : σ) (i : ι) : (M.entry s i).output = (M.step s i).2 := rfl
@[simp] theorem entry_post (s : σ) (i : ι) : (M.entry s i).post = (M.step s i).1 := rfl
@[simp] theorem exec_nil (s : σ) : M.exec s [] = s := rfl
@[simp] theorem exec_cons (s : σ) (i : ι) (is : List ι) :
    M.exec s (i :: is) = M.exec (M.step s i).1 is := rfl
@[simp] theorem trace_nil (s : σ) : M.trace s [] = [] := rfl
@[simp] theorem trace_cons (s : σ) (i : ι) (is : List ι) :
    M.trace s (i :: is) = M.entry s i :: M.trace (M.step s i).1 is := rfl

theorem exec_append (s : σ) (is js : List ι) :
    M.exec s (is ++ js) = M.exec (M.exec s is) js := by
  induction is generalizing s with
  | nil => rfl
  | cons i is ih => exact ih (M.step s i).1

theorem trace_append (s : σ) (is js : List ι) :
    M.trace s (is ++ js) = M.trace s is ++ M.trace (M.exec s is) js := by
  induction is generalizing s with
  | nil => rfl
  | cons i is ih => simp [ih]

/-- The trace of a part of a run, from its start, is a part of the trace. -/
theorem trace_prefix (s : σ) {is js : List ι} (h : js <+: is) : M.trace s js <+: M.trace s is := by
  obtain ⟨ks, rfl⟩ := h
  exact ⟨M.trace (M.exec s js) ks, (M.trace_append s js ks).symm⟩

theorem exec_concat (s : σ) (is : List ι) (i : ι) :
    M.exec s (is ++ [i]) = (M.step (M.exec s is) i).1 := by
  rw [exec_append, exec_cons, exec_nil]

theorem trace_concat (s : σ) (is : List ι) (i : ι) :
    M.trace s (is ++ [i]) = M.trace s is ++ [M.entry (M.exec s is) i] := by
  rw [trace_append, trace_cons, trace_nil]

/-- Every step of a trace is made by the machine. -/
theorem entry_of_mem {s : σ} {is : List ι} {e : Entry σ ι ο} (he : e ∈ M.trace s is) :
    e = M.entry e.pre e.input := by
  induction is generalizing s with
  | nil => cases he
  | cons i is ih =>
    rcases List.mem_cons.1 he with rfl | he
    · rfl
    · exact ih he

/-- The steps of a trace are the steps made after its prefixes. -/
theorem mem_trace_iff {s : σ} {is : List ι} {e : Entry σ ι ο} :
    e ∈ M.trace s is ↔ ∃ js i ks, is = js ++ i :: ks ∧ e = M.entry (M.exec s js) i := by
  refine ⟨?_, ?_⟩
  · intro he
    induction is generalizing s with
    | nil => cases he
    | cons i is ih =>
      rcases List.mem_cons.1 he with rfl | he
      · exact ⟨[], i, is, rfl, rfl⟩
      · obtain ⟨js, j, ks, rfl, rfl⟩ := ih he
        exact ⟨i :: js, j, ks, rfl, rfl⟩
  · rintro ⟨js, i, ks, rfl, rfl⟩
    rw [trace_append, trace_cons]
    exact List.mem_append_right _ (.head _)

/-- A step of a trace, with what is before it. -/
theorem trace_eq_append_cons {s : σ} {is : List ι} {before after : List (Entry σ ι ο)}
    {e : Entry σ ι ο} (h : M.trace s is = before ++ e :: after) :
    ∃ js i ks, is = js ++ i :: ks ∧ M.trace s js = before ∧ e = M.entry (M.exec s js) i := by
  induction before generalizing s is with
  | nil =>
    cases is with
    | nil => cases h
    | cons i is =>
      obtain ⟨rfl, -⟩ := List.cons.inj h
      exact ⟨[], i, is, rfl, rfl, rfl⟩
  | cons x before ih =>
    cases is with
    | nil => cases h
    | cons i is =>
      obtain ⟨rfl, hrest⟩ := List.cons.inj h
      obtain ⟨js, j, ks, rfl, rfl, rfl⟩ := ih hrest
      exact ⟨i :: js, j, ks, rfl, rfl, rfl⟩

/-! ## Rules for runs -/

/-- **Induction over a run.** A property of the trace so far and the state reached holds at the
end when it holds at the start and every step keeps it. `G` is what is known of each step. -/
theorem induct {P : List (Entry σ ι ο) → σ → Prop} {G : Entry σ ι ο → Prop} {s : σ}
    (h0 : P [] s)
    (hstep : ∀ tr t i, P tr t → G (M.entry t i) → P (tr ++ [M.entry t i]) (M.step t i).1)
    (is : List ι) (hG : ∀ e ∈ M.trace s is, G e) : P (M.trace s is) (M.exec s is) := by
  induction is using List.reverseRecOn with
  | nil => exact h0
  | append_singleton is i ih =>
    rw [trace_concat] at hG
    rw [trace_concat, exec_concat]
    exact hstep _ _ i (ih fun e he => hG e (List.mem_append_left _ he))
      (hG _ (List.mem_append_right _ (.head _)))

/-- An invariant that every allowed step keeps holds at the end of every run of allowed steps. -/
theorem inv_exec_of {I : σ → Prop} {G : Entry σ ι ο → Prop} {s : σ} (h0 : I s)
    (hstep : ∀ t i, I t → G (M.entry t i) → I (M.step t i).1) (is : List ι)
    (hG : ∀ e ∈ M.trace s is, G e) : I (M.exec s is) :=
  M.induct (P := fun _ => I) h0 (fun _ t i h hg => hstep t i h hg) is hG

/-- An invariant that every step keeps holds at the end of every run. -/
theorem inv_exec {I : σ → Prop} {s : σ} (h0 : I s)
    (hstep : ∀ t i, I t → I (M.step t i).1) (is : List ι) : I (M.exec s is) :=
  M.inv_exec_of (G := fun _ => True) h0 (fun t i h _ => hstep t i h) is fun _ _ => trivial

/-- An invariant that every step keeps holds before every step of a run. -/
theorem inv_trace {I : σ → Prop} {s : σ} (h0 : I s)
    (hstep : ∀ t i, I t → I (M.step t i).1) {is : List ι} {e : Entry σ ι ο}
    (he : e ∈ M.trace s is) : I e.pre := by
  obtain ⟨js, i, ks, -, rfl⟩ := M.mem_trace_iff.1 he
  exact M.inv_exec h0 hstep js

/-- **Two runs in lockstep.** If related states answer an input and its image with related steps and
go to related states again, the steps of the two runs are related one by one. `G` is what is known
of each step of the first run. -/
theorem forall₂_trace {σ' ι' ο' : Type*} (M' : Machine σ' ι' ο') (f : ι → ι')
    {S : σ → σ' → Prop} {G : Entry σ ι ο → Prop} {R : Entry σ ι ο → Entry σ' ι' ο' → Prop}
    (hstep : ∀ t t' i, S t t' → G (M.entry t i) →
      S (M.step t i).1 (M'.step t' (f i)).1 ∧ R (M.entry t i) (M'.entry t' (f i)))
    {s : σ} {s' : σ'} (h : S s s') (is : List ι) (hG : ∀ e ∈ M.trace s is, G e) :
    List.Forall₂ R (M.trace s is) (M'.trace s' (is.map f)) := by
  induction is generalizing s s' with
  | nil => exact .nil
  | cons i is ih =>
    obtain ⟨hpost, hnow⟩ := hstep s s' i h (hG _ (.head _))
    exact .cons hnow (ih hpost fun e he => hG e (.tail _ he))

/-- **When a property holds all along a run.** If every step from where the property holds keeps
it exactly when the step is not a bad one, then it holds after every prefix of a run exactly when
no step of the run is bad. -/
theorem forall_prefix_iff {P : List (Entry σ ι ο) → σ → Prop} {D : Entry σ ι ο → Prop} {s : σ}
    (h0 : P [] s)
    (hstep : ∀ tr t i, P tr t → (P (tr ++ [M.entry t i]) (M.step t i).1 ↔ ¬ D (M.entry t i)))
    (is : List ι) :
    (∀ js, js <+: is → P (M.trace s js) (M.exec s js)) ↔ ∀ e ∈ M.trace s is, ¬ D e := by
  induction is using List.reverseRecOn with
  | nil => simpa [List.prefix_nil] using h0
  | append_singleton is i ih =>
    have hlast : ∀ h : P (M.trace s is) (M.exec s is),
        (P (M.trace s (is ++ [i])) (M.exec s (is ++ [i])) ↔ ¬ D (M.entry (M.exec s is) i)) := by
      intro h
      rw [trace_concat, exec_concat]
      exact hstep _ _ i h
    rw [trace_concat]
    refine ⟨?_, ?_⟩
    · intro h e he
      have hbefore : ∀ js, js <+: is → P (M.trace s js) (M.exec s js) := fun js hjs =>
        h js (hjs.trans (List.prefix_append is [i]))
      rcases List.mem_append.1 he with he | he
      · exact ih.1 hbefore e he
      · rw [List.mem_singleton.1 he]
        exact (hlast (hbefore is (List.prefix_refl is))).1 (h _ (List.prefix_refl _))
    · intro h js hjs
      have hbefore := ih.2 fun e he => h e (List.mem_append_left _ he)
      rcases List.prefix_concat_iff.1 hjs with rfl | hjs
      · exact (hlast (hbefore is (List.prefix_refl is))).2 (h _ (List.mem_append_right _ (.head _)))
      · exact hbefore js hjs

/-- **Outputs that keep a relation.** Each step emits a list of values. If a state remembers
(`P`) every value emitted before it, remembering is kept by every step, and what a step emits
is related to all that is remembered, then any two values of the whole run are related, in the
order in which they were emitted. -/
theorem pairwise_emit {R : β → β → Prop} {emit : Entry σ ι ο → List β} {P : σ → β → Prop}
    (hkeep : ∀ t i b, P t b → P (M.step t i).1 b)
    (hnew : ∀ t i, ∀ b ∈ emit (M.entry t i), P (M.step t i).1 b)
    (hrel : ∀ t i b, P t b → ∀ c ∈ emit (M.entry t i), R b c)
    (hone : ∀ t i, (emit (M.entry t i)).Pairwise R) (s : σ) (is : List ι) :
    ((M.trace s is).flatMap emit).Pairwise R := by
  suffices h : (∀ b ∈ (M.trace s is).flatMap emit, P (M.exec s is) b) ∧
      ((M.trace s is).flatMap emit).Pairwise R from h.2
  refine M.induct (P := fun tr t => (∀ b ∈ tr.flatMap emit, P t b) ∧
    (tr.flatMap emit).Pairwise R) (G := fun _ => True) ⟨by simp, by simp⟩ ?_ is
    fun _ _ => trivial
  rintro tr t i ⟨hP, hR⟩ -
  rw [List.flatMap_append, List.flatMap_singleton]
  refine ⟨?_, List.pairwise_append.2
    ⟨hR, hone t i, fun b hb c hc => hrel t i b (hP b hb) c hc⟩⟩
  intro b hb
  rcases List.mem_append.1 hb with hb | hb
  · exact hkeep t i b (hP b hb)
  · exact hnew t i b hb

end Machine
