import Mathlib.Algebra.BigOperators.Group.List.Basic
import Mouser.Lib.Lists
import Mouser.Lib.Machine

/-!
# Bounded queues that merge and drop

A queue takes items at its back and is handed over whole. An arriving item may be merged into the
last one, and when the queue is full another item is dropped for it: the first that may be dropped,
or the one in front.

What is handed over stands for what arrived, in order (`grouped`): each item handed over is what a
group of arrived ones was merged into, and only dropped groups are missing. A sum that merging keeps
is therefore handed over in full while nothing is dropped (`sum_conserved`).
-/

/-- How a queue merges and drops. -/
structure Coalescing (α : Type*) where
  capacity : ℕ
  /-- What the last item and the next one make together. -/
  merge : α → α → Option α
  droppable : α → Bool

namespace Coalescing

variable {α : Type*} (C : Coalescing α)

/-! ## Operations -/

/-- Drop the first item that may be dropped, or the one in front. -/
def overflow (queue : List α) : List α × Option α :=
  match queue.findIdx? C.droppable with
  | some i => (queue.eraseIdx i, queue[i]?)
  | none => (queue.tail, queue.head?)

/-- Append an item, at the cost of another one when the queue is full. -/
def push (queue : List α) (a : α) : List α × Option α :=
  if C.capacity ≤ queue.length then
    let (rest, dropped) := C.overflow queue
    (rest ++ [a], dropped)
  else (queue ++ [a], none)

/-- Merge an item into the last one, or append it. The second part is the dropped item. -/
def enqueue (queue : List α) (a : α) : List α × Option α :=
  match queue.getLast?.bind (C.merge · a) with
  | some merged => (queue.dropLast ++ [merged], none)
  | none => C.push queue a

/-- What can happen to a queue. -/
inductive Input (α : Type*) where
  | enqueue (a : α)
  | drain

/-- What comes out. -/
structure Output (α : Type*) where
  delivered : List α
  dropped : Option α

def machine : Machine (List α) (Input α) (Output α) where
  step queue
    | .enqueue a => ((C.enqueue queue a).1, ⟨[], (C.enqueue queue a).2⟩)
    | .drain => ([], ⟨queue, none⟩)

/-! ## What an arriving item does -/

/-- The ways in which a queue takes an item. -/
inductive Takes (queue : List α) (a : α) : List α × Option α → Prop
  | merged {front : List α} {last m : α} (hqueue : queue = front ++ [last])
      (hmerge : C.merge last a = some m) : Takes queue a (front ++ [m], none)
  | appended (hroom : queue.length < C.capacity) : Takes queue a (queue ++ [a], none)
  | displaced {before after : List α} {x : α} (hqueue : queue = before ++ x :: after)
      (hfull : C.capacity ≤ queue.length)
      (hmotion : C.droppable x = true ∨ before = [] ∧ ∀ y ∈ queue, C.droppable y = false) :
      Takes queue a (before ++ after ++ [a], some x)
  | empty (hqueue : queue = []) (hfull : C.capacity = 0) : Takes queue a ([a], none)

theorem overflow_takes {queue : List α} (hfull : C.capacity ≤ queue.length) (a : α) :
    C.Takes queue a ((C.overflow queue).1 ++ [a], (C.overflow queue).2) := by
  unfold overflow
  split
  · next i hi =>
    obtain ⟨hlt, hdrop, -⟩ := List.findIdx?_eq_some_iff_getElem.1 hi
    have hqueue : queue = queue.take i ++ queue[i] :: queue.drop (i + 1) := by
      rw [← List.drop_eq_getElem_cons hlt, List.take_append_drop]
    rw [List.eraseIdx_eq_take_drop_succ, List.getElem?_eq_getElem hlt]
    exact .displaced hqueue hfull (.inl hdrop)
  · next hnone =>
    cases queue with
    | nil => exact .empty rfl (Nat.le_zero.1 hfull)
    | cons x rest =>
      have hqueue : x :: rest = [] ++ x :: rest := rfl
      exact .displaced hqueue hfull (.inr ⟨rfl, List.findIdx?_eq_none_iff.1 hnone⟩)

theorem enqueue_takes (queue : List α) (a : α) : C.Takes queue a (C.enqueue queue a) := by
  unfold enqueue
  split
  · next m hmerge =>
    obtain ⟨last, hlast, hmerge⟩ := Option.bind_eq_some_iff.1 hmerge
    have hqueue := List.dropLast_append_getLast? last hlast
    exact .merged hqueue.symm hmerge
  · unfold push
    split
    · next hfull => exact C.overflow_takes hfull a
    · next hroom => exact .appended (not_le.1 hroom)

/-- **What is dropped**: one that may be dropped, unless the queue holds none. -/
theorem dropped_cases {queue : List α} {a x : α} (h : (C.enqueue queue a).2 = some x) :
    C.capacity ≤ queue.length ∧
      (C.droppable x = true ∨ queue.head? = some x ∧ ∀ y ∈ queue, C.droppable y = false) := by
  have htakes := C.enqueue_takes queue a
  generalize C.enqueue queue a = result at h htakes
  cases htakes with
  | merged | appended | empty => cases h
  | displaced hqueue hfull hmotion =>
    cases h
    refine ⟨hfull, hmotion.imp_right ?_⟩
    rintro ⟨rfl, hnone⟩
    exact ⟨by rw [hqueue]; rfl, hnone⟩

/-- A full queue that merges nothing and holds nothing to drop loses the item in front. -/
theorem dropped_of_full {queue : List α} {a : α} (hfull : C.capacity ≤ queue.length)
    (hmerge : ∀ x ∈ queue, C.merge x a = none) (hnone : ∀ x ∈ queue, C.droppable x = false) :
    (C.enqueue queue a).2 = queue.head? := by
  have hlast : queue.getLast?.bind (C.merge · a) = none := by
    rw [Option.bind_eq_none_iff]
    exact fun x hx => hmerge x (List.mem_of_getLast? hx)
  rw [enqueue, hlast, push, if_pos hfull, overflow, List.findIdx?_eq_none_iff.2 hnone]

/-! ## Marks -/

/-- The queue with marks that tell what its items come from: what is merged keeps the marks of
both. -/
def marked (ι : Type*) : Coalescing (α × List ι) where
  capacity := C.capacity
  merge a b := (C.merge a.1 b.1).map (·, a.2 ++ b.2)
  droppable a := C.droppable a.1

section
variable {ι : Type*}

theorem map_fst_overflow_marked (queue : List (α × List ι)) :
    ((C.marked ι).overflow queue).1.map Prod.fst = (C.overflow (queue.map Prod.fst)).1 := by
  have hidx : (queue.map Prod.fst).findIdx? C.droppable = queue.findIdx? (C.marked ι).droppable :=
    List.findIdx?_map
  rw [overflow, overflow, hidx]
  cases queue.findIdx? (C.marked ι).droppable with
  | some i => exact (List.eraseIdx_map Prod.fst queue i).symm
  | none => exact List.map_tail

/-- **The marks do not change the queue.** -/
theorem map_fst_enqueue_marked (queue : List (α × List ι)) (a : α × List ι) :
    ((C.marked ι).enqueue queue a).1.map Prod.fst = (C.enqueue (queue.map Prod.fst) a.1).1 := by
  have hmerge : (queue.map Prod.fst).getLast?.bind (C.merge · a.1) =
      (queue.getLast?.bind ((C.marked ι).merge · a)).map Prod.fst := by
    rw [List.getLast?_map]
    cases queue.getLast? with
    | none => rfl
    | some last => simp [marked, Option.map_map, Function.comp_def]
  rw [enqueue, enqueue, hmerge]
  cases queue.getLast?.bind ((C.marked ι).merge · a) with
  | some m => simp [List.map_dropLast]
  | none =>
    have hfull : (C.marked ι).capacity ≤ queue.length ↔
        C.capacity ≤ (queue.map Prod.fst).length := by
      rw [List.length_map]
      rfl
    simp only [push, hfull, Option.map_none]
    split <;> simp [C.map_fst_overflow_marked]

end

/-! ## The capacity -/

theorem length_enqueue {queue : List α} (hcapacity : 0 < C.capacity)
    (h : queue.length ≤ C.capacity) (a : α) : (C.enqueue queue a).1.length ≤ C.capacity := by
  have htakes := C.enqueue_takes queue a
  generalize C.enqueue queue a = result at htakes
  cases htakes with
  | merged hqueue =>
    rw [hqueue, List.length_append] at h
    rwa [List.length_append]
  | appended hroom => rwa [List.length_append, List.length_singleton]
  | displaced hqueue =>
    rw [hqueue, List.length_append, List.length_cons] at h
    rw [List.length_append, List.length_append, List.length_singleton]
    omega
  | empty _ hfull => omega

/-- **The capacity is kept.** -/
theorem length_le (hcapacity : 0 < C.capacity) (is : List (Input α)) :
    (C.machine.exec [] is).length ≤ C.capacity := by
  refine C.machine.inv_exec (I := fun queue => queue.length ≤ C.capacity) (Nat.zero_le _) ?_ is
  intro queue i h
  cases i with
  | enqueue a => exact C.length_enqueue hcapacity h a
  | drain => exact Nat.zero_le _

/-! ## The order -/

/-- The item that an input brings. -/
def Input.item? : Input α → Option α
  | .enqueue a => some a
  | .drain => none

/-- What has arrived, in order. -/
def arrived (tr : List (Machine.Entry (List α) (Input α) (Output α))) : List α :=
  tr.filterMap (·.input.item?)

/-- What has been handed over, in order. -/
def delivered (tr : List (Machine.Entry (List α) (Input α) (Output α))) : List α :=
  tr.flatMap (·.output.delivered)

/-- What has been dropped. -/
def dropped (tr : List (Machine.Entry (List α) (Input α) (Output α))) : List α :=
  tr.filterMap (·.output.dropped)

section
variable (tr : List (Machine.Entry (List α) (Input α) (Output α))) (queue : List α) (a : α)

@[simp] theorem arrived_enqueue :
    arrived (tr ++ [C.machine.entry queue (.enqueue a)]) = arrived tr ++ [a] := by
  rw [arrived, List.filterMap_append]
  rfl

@[simp] theorem arrived_drain : arrived (tr ++ [C.machine.entry queue .drain]) = arrived tr := by
  rw [arrived, List.filterMap_append]
  exact List.append_nil _

@[simp] theorem delivered_enqueue :
    delivered (tr ++ [C.machine.entry queue (.enqueue a)]) = delivered tr := by
  rw [delivered, List.flatMap_append]
  exact List.append_nil _

@[simp] theorem delivered_drain :
    delivered (tr ++ [C.machine.entry queue .drain]) = delivered tr ++ queue := by
  rw [delivered, List.flatMap_append, List.flatMap_singleton]
  rfl

@[simp] theorem dropped_enqueue :
    dropped (tr ++ [C.machine.entry queue (.enqueue a)]) =
      dropped tr ++ (C.enqueue queue a).2.toList := by
  rw [dropped, dropped, List.filterMap_append]
  congr 1

@[simp] theorem dropped_drain : dropped (tr ++ [C.machine.entry queue .drain]) = dropped tr := by
  rw [dropped, List.filterMap_append]
  exact List.append_nil _

end

/-- A group of items that arrived one after the other, and what they were merged into. -/
inductive Merged : List α → α → Prop
  | single (a : α) : Merged [a] a
  | snoc {group : List α} {last a m : α} (h : Merged group last)
      (hmerge : C.merge last a = some m) : Merged (group ++ [a]) m

/-- The items are what the groups were merged into, and the groups are in the order in which their
items arrived. -/
structure Grouped (groups : List (List α)) (arrived items : List α) : Prop where
  merged : List.Forall₂ C.Merged groups items
  sublist : groups.flatten.Sublist arrived

/-- What an arriving item does to the groups: only a dropped group goes. -/
theorem Takes.grouped {queue : List α} {a : α} {result : List α × Option α}
    (h : C.Takes queue a result) {before arrived : List α} {groups : List (List α)}
    (hgroups : C.Grouped groups arrived (before ++ queue)) :
    ∃ groups', C.Grouped groups' (arrived ++ [a]) (before ++ result.1) ∧
      (result.2 = none → groups'.flatten = groups.flatten ++ [a]) := by
  obtain ⟨hmerged, hsub⟩ := hgroups
  cases h with
  | @merged front last m hqueue hmerge =>
    rw [hqueue, ← List.append_assoc] at hmerged
    obtain ⟨gs, gl, rfl, hgs, hgl⟩ := hmerged.exists_append_right
    cases hgl with
    | @cons g _ _ _ hg hnil =>
      cases hnil
      refine ⟨gs ++ [g ++ [a]], ⟨?_, ?_⟩, fun _ => by simp⟩
      · rw [← List.append_assoc]
        exact hgs.append_append (.cons (hg.snoc hmerge) .nil)
      · have hflat : (gs ++ [g ++ [a]]).flatten = (gs ++ [g]).flatten ++ [a] := by simp
        rw [hflat]
        exact hsub.append (.refl _)
  | appended hroom =>
    refine ⟨groups ++ [[a]], ⟨?_, ?_⟩, fun _ => by simp⟩
    · rw [← List.append_assoc]
      exact hmerged.append_append (.cons (.single a) .nil)
    · rw [List.flatten_append]
      exact hsub.append (.refl _)
  | @displaced front after x hqueue =>
    rw [hqueue, ← List.append_assoc] at hmerged
    obtain ⟨gs, gl, rfl, hgs, hgl⟩ := hmerged.exists_append_right
    cases hgl with
    | @cons g _ ga _ hg hga =>
      refine ⟨gs ++ ga ++ [[a]], ⟨?_, ?_⟩, fun h => nomatch h⟩
      · rw [← List.append_assoc, ← List.append_assoc]
        exact (hgs.append_append hga).append_append (.cons (.single a) .nil)
      · have hskip : (gs ++ ga).flatten.Sublist (gs ++ g :: ga).flatten := by
          rw [List.flatten_append, List.flatten_append, List.flatten_cons]
          exact (List.Sublist.refl _).append (List.sublist_append_right _ _)
        rw [List.flatten_append]
        exact (hskip.trans hsub).append (.refl _)
  | empty hqueue hfull =>
    rw [hqueue, List.append_nil] at hmerged
    refine ⟨groups ++ [[a]], ⟨hmerged.append_append (.cons (.single a) .nil), ?_⟩,
      fun _ => by simp⟩
    rw [List.flatten_append]
    exact hsub.append (.refl _)

/-- **The order is kept.** What has been handed over and what is waiting are what groups of items
were merged into, in the order of arrival; nothing is missing while nothing is dropped. -/
theorem grouped (is : List (Input α)) :
    ∃ groups, C.Grouped groups (arrived (C.machine.trace [] is))
        (delivered (C.machine.trace [] is) ++ C.machine.exec [] is) ∧
      (dropped (C.machine.trace [] is) = [] →
        groups.flatten = arrived (C.machine.trace [] is)) := by
  refine C.machine.induct (G := fun _ => True)
    (P := fun tr queue => ∃ groups, C.Grouped groups (arrived tr) (delivered tr ++ queue) ∧
      (dropped tr = [] → groups.flatten = arrived tr))
    ⟨[], ⟨.nil, .refl _⟩, fun _ => rfl⟩ ?_ is fun _ _ => trivial
  rintro tr queue i ⟨groups, hgroups, hall⟩ -
  cases i with
  | enqueue a =>
    obtain ⟨groups', hgroups', hnext⟩ := (C.enqueue_takes queue a).grouped C hgroups
    rw [arrived_enqueue, delivered_enqueue, dropped_enqueue]
    refine ⟨groups', hgroups', fun hdropped => ?_⟩
    obtain ⟨hbefore, hnow⟩ := List.append_eq_nil_iff.1 hdropped
    rw [hnext (Option.toList_eq_nil_iff.1 hnow), hall hbefore]
  | drain =>
    have hpost : (C.machine.step queue .drain).1 = [] := rfl
    rw [arrived_drain, delivered_drain, dropped_drain, hpost, List.append_nil]
    exact ⟨groups, hgroups, hall⟩

/-! ## Sums that merging keeps -/

section
variable {M : Type*} [AddCommMonoid M] (weight : α → M)

/-- Whether an arriving item keeps the sum: if it is merged, into something that weighs as much as
both. -/
def KeepsWeight (queue : List α) (a : α) : Prop :=
  ∀ last m, queue.getLast? = some last → C.merge last a = some m → weight m = weight last + weight a

theorem Takes.sum_eq {queue : List α} {a : α} {result : List α × Option α}
    (h : C.Takes queue a result) (hkeeps : C.KeepsWeight weight queue a) (hnone : result.2 = none) :
    (result.1.map weight).sum = (queue.map weight).sum + weight a := by
  cases h with
  | @merged front last m hqueue hmerge =>
    have hlast : queue.getLast? = some last := by rw [hqueue, List.getLast?_concat]
    rw [hqueue, List.map_append, List.sum_append, List.map_append, List.sum_append,
      List.map_singleton, List.map_singleton, List.sum_singleton, List.sum_singleton,
      hkeeps last m hlast hmerge, add_assoc]
  | appended => simp
  | displaced => cases hnone
  | empty hqueue => simp [hqueue]

/-- **A sum is conserved** while nothing is dropped and every merge keeps it. -/
theorem sum_conserved (is : List (Input α))
    (hkeeps : ∀ e ∈ C.machine.trace [] is, ∀ a, e.input = .enqueue a →
      C.KeepsWeight weight e.pre a)
    (hdropped : dropped (C.machine.trace [] is) = []) :
    ((delivered (C.machine.trace [] is)).map weight).sum +
        ((C.machine.exec [] is).map weight).sum =
      ((arrived (C.machine.trace [] is)).map weight).sum := by
  refine C.machine.induct
    (G := fun e => e.output.dropped = none ∧
      ∀ a, e.input = .enqueue a → C.KeepsWeight weight e.pre a)
    (P := fun tr queue => ((delivered tr).map weight).sum + (queue.map weight).sum =
      ((arrived tr).map weight).sum) (by simp [delivered, arrived]) ?_ is ?_
  · rintro tr queue i hsum ⟨hnone, hkeep⟩
    cases i with
    | enqueue a =>
      have hnow := (C.enqueue_takes queue a).sum_eq C weight (hkeep a rfl) hnone
      have hpost : (C.machine.step queue (.enqueue a)).1 = (C.enqueue queue a).1 := rfl
      rw [arrived_enqueue, delivered_enqueue, hpost, hnow, ← add_assoc, hsum, List.map_append,
        List.sum_append, List.map_singleton, List.sum_singleton]
    | drain =>
      have hpost : (C.machine.step queue .drain).1 = [] := rfl
      rw [arrived_drain, delivered_drain, hpost, List.map_nil, List.sum_nil, add_zero,
        List.map_append, List.sum_append, hsum]
  · intro e he
    refine ⟨?_, hkeeps e he⟩
    cases hcase : e.output.dropped with
    | none => rfl
    | some x =>
      have hmem : x ∈ dropped (C.machine.trace [] is) := List.mem_filterMap.2 ⟨e, he, hcase⟩
      rw [hdropped] at hmem
      cases hmem

end

end Coalescing
