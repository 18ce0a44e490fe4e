import Mathlib.Algebra.Group.Prod
import Mathlib.Algebra.Group.Int.Defs
import Mouser.Core.Platform
import Mouser.Lib.Coalescing
import Mouser.Lib.FixedWidth

/-!
# The queue between the Windows hooks and the worker

The hooks may not block, so they only queue what they see and a worker takes the whole queue. Cursor
points replace each other, raw deltas are summed, and a full queue drops the first motion it holds.
A key or button transition is dropped when the queue holds no motion, which is meant for a
transition that arrives; `enqueueQueuedCaptureEvent` does it for a motion as well, and `QueueLaw`
fails there and nowhere else (`queueLaw_iff`).
-/

namespace Mouser

open Coalescing (Input Output arrived delivered dropped)

/-! ## The code -/

inductive QueuedCaptureEvent where
  | event (event : LocalInputEvent)
  | cursorPoint (x y : Int32)
  | rawMouseDelta (dx dy : Int32)
deriving DecidableEq

def maxCaptureQueue : ℕ := 256

/-- Replace-coalesce predicate. -/
def queuedCaptureEventIsCursor : QueuedCaptureEvent → Bool
  | .cursorPoint .. => true
  | .event (.cursorMoved ..) => true
  | _ => false

/-- Overflow-eviction predicate. -/
def queuedCaptureEventIsMotion (event : QueuedCaptureEvent) : Bool :=
  queuedCaptureEventIsCursor event ||
    match event with
    | .rawMouseDelta .. => true
    | _ => false

/-- The queue without one item, and that item. -/
def dropOneForOverflow (pending : List QueuedCaptureEvent) :
    List QueuedCaptureEvent × Option QueuedCaptureEvent :=
  match pending.findIdx? queuedCaptureEventIsMotion with
  | some idx => (pending.eraseIdx idx, pending[idx]?)
  | none => (pending.tail, pending.head?)

/-- What the trailing entry becomes when an event is coalesced with it: raw deltas are summed, an
absolute point takes the place of another. -/
def coalesce : QueuedCaptureEvent → QueuedCaptureEvent → Option QueuedCaptureEvent
  | .rawMouseDelta lastDx lastDy, .rawMouseDelta dx dy =>
    some (.rawMouseDelta (lastDx.saturatingAdd dx) (lastDy.saturatingAdd dy))
  | last, event =>
    if queuedCaptureEventIsCursor event ∧ queuedCaptureEventIsCursor last then some event else none

/-- Queue an event. The second part is what is evicted, which the code does not look at. -/
def enqueueQueuedCaptureEvent (pending : List QueuedCaptureEvent) (event : QueuedCaptureEvent) :
    List QueuedCaptureEvent × Option QueuedCaptureEvent :=
  match pending.getLast?.bind (coalesce · event) with
  | some last => (pending.dropLast ++ [last], none)
  | none =>
    if maxCaptureQueue ≤ pending.length then
      let (rest, evicted) := dropOneForOverflow pending
      (rest ++ [event], evicted)
    else (pending ++ [event], none)

/-- The hooks queue events and the worker takes them all (`wait_for_capture_events`). -/
def captureMachine :
    Machine (List QueuedCaptureEvent) (Input QueuedCaptureEvent) (Output QueuedCaptureEvent) where
  step pending
    | .enqueue event =>
      ((enqueueQueuedCaptureEvent pending event).1,
        ⟨[], (enqueueQueuedCaptureEvent pending event).2⟩)
    | .drain => ([], ⟨pending, none⟩)

/-! ## The queue as a coalescing queue -/

/-- The capture queue, as a queue that merges and drops. -/
def captureQueue : Coalescing QueuedCaptureEvent where
  capacity := maxCaptureQueue
  merge := coalesce
  droppable := queuedCaptureEventIsMotion

theorem enqueueQueuedCaptureEvent_eq (pending : List QueuedCaptureEvent)
    (event : QueuedCaptureEvent) :
    enqueueQueuedCaptureEvent pending event = captureQueue.enqueue pending event := by
  have hmerge : pending.getLast?.bind (captureQueue.merge · event) =
      pending.getLast?.bind (coalesce · event) := rfl
  have hdrop : captureQueue.overflow pending = dropOneForOverflow pending := rfl
  rw [enqueueQueuedCaptureEvent, Coalescing.enqueue, hmerge]
  cases pending.getLast?.bind (coalesce · event) with
  | some last => rfl
  | none =>
    exact (congrArg (fun r => if maxCaptureQueue ≤ pending.length then (r.1 ++ [event], r.2)
      else (pending ++ [event], none)) hdrop).symm

theorem captureMachine_eq : captureMachine = captureQueue.machine := by
  refine congrArg Machine.mk (funext fun pending => funext fun input => ?_)
  cases input with
  | enqueue event => simp only [enqueueQueuedCaptureEvent_eq]
  | drain => rfl

/-- What is merged is motion. -/
theorem isMotion_of_coalesce {last event merged : QueuedCaptureEvent}
    (h : coalesce last event = some merged) : queuedCaptureEventIsMotion last = true := by
  unfold coalesce at h
  split at h
  · rfl
  · split at h
    · next hcursor =>
      unfold queuedCaptureEventIsMotion
      rw [hcursor.2, Bool.true_or]
    · cases h

/-! ## Transitions -/

/-- A key or button changes its state. -/
def IsTransition : QueuedCaptureEvent → Prop
  | .event (.key ..) => True
  | .event (.button ..) => True
  | _ => False

theorem IsTransition.not_isMotion {event : QueuedCaptureEvent} (h : IsTransition event) :
    queuedCaptureEventIsMotion event = false := by
  unfold IsTransition at h
  split at h
  · rfl
  · rfl
  · cases h

/-- A motion finds a full queue without any motion, and a transition in front. -/
def Displaces (pending : List QueuedCaptureEvent) (event : QueuedCaptureEvent) : Prop :=
  queuedCaptureEventIsMotion event = true ∧ maxCaptureQueue ≤ pending.length ∧
    (∀ x ∈ pending, queuedCaptureEventIsMotion x = false) ∧
    ∃ t, pending.head? = some t ∧ IsTransition t

/-- **When a motion costs a transition.** -/
theorem displaces_iff {pending : List QueuedCaptureEvent} {event : QueuedCaptureEvent}
    (hmotion : queuedCaptureEventIsMotion event = true) :
    (∃ t, (enqueueQueuedCaptureEvent pending event).2 = some t ∧ IsTransition t) ↔
      Displaces pending event := by
  rw [enqueueQueuedCaptureEvent_eq]
  refine ⟨?_, ?_⟩
  · rintro ⟨t, ht, htransition⟩
    obtain ⟨hfull, hdrop | ⟨hhead, hnone⟩⟩ := captureQueue.dropped_cases ht
    · rw [show captureQueue.droppable t = false from htransition.not_isMotion] at hdrop
      cases hdrop
    · exact ⟨hmotion, hfull, hnone, t, hhead, htransition⟩
  · rintro ⟨-, hfull, hnone, t, hhead, htransition⟩
    have hmerge : ∀ x ∈ pending, captureQueue.merge x event = none := by
      intro x hx
      cases h : captureQueue.merge x event with
      | none => rfl
      | some merged =>
        have hx' := hnone x hx
        rw [isMotion_of_coalesce h] at hx'
        cases hx'
    exact ⟨t, (captureQueue.dropped_of_full hfull hmerge hnone).trans hhead, htransition⟩

/-! ## Raw movement -/

/-- The raw movement of an entry. -/
def rawDelta : QueuedCaptureEvent → ℤ × ℤ
  | .rawMouseDelta dx dy => (dx.toInt, dy.toInt)
  | _ => 0

/-- The sum of the raw movement of entries. -/
def rawSum (events : List QueuedCaptureEvent) : ℤ × ℤ := (events.map rawDelta).sum

/-- Whether a number fits into an `i32`. -/
def FitsI32 (n : ℤ) : Prop := -2 ^ 31 ≤ n ∧ n < 2 ^ 31

/-- A raw delta is added to a trailing one and a component of the sum does not fit. -/
def Saturates (pending : List QueuedCaptureEvent) (event : QueuedCaptureEvent) : Prop :=
  ∃ lastDx lastDy dx dy, pending.getLast? = some (.rawMouseDelta lastDx lastDy) ∧
    event = .rawMouseDelta dx dy ∧
    ¬ (FitsI32 (lastDx.toInt + dx.toInt) ∧ FitsI32 (lastDy.toInt + dy.toInt))

theorem toInt_saturatingAdd_of_fits {a b : Int32} (h : FitsI32 (a.toInt + b.toInt)) :
    (a.saturatingAdd b).toInt = a.toInt + b.toInt := by
  obtain ⟨hlo, hhi⟩ := h
  rw [Int32.toInt_saturatingAdd]
  omega

/-- A merge that saturates nothing keeps the movement. -/
theorem keepsWeight_of_not_saturates {pending : List QueuedCaptureEvent}
    {event : QueuedCaptureEvent} (h : ¬ Saturates pending event) :
    captureQueue.KeepsWeight rawDelta pending event := by
  intro last merged hlast hmerge
  have hmerge' : coalesce last event = some merged := hmerge
  unfold coalesce at hmerge'
  split at hmerge'
  · next lastDx lastDy dx dy =>
    cases hmerge'
    have hfits : FitsI32 (lastDx.toInt + dx.toInt) ∧ FitsI32 (lastDy.toInt + dy.toInt) := by
      by_contra hnot
      exact h ⟨lastDx, lastDy, dx, dy, hlast, rfl, hnot⟩
    simp only [rawDelta, toInt_saturatingAdd_of_fits hfits.1, toInt_saturatingAdd_of_fits hfits.2,
      Prod.mk_add_mk]
  · split at hmerge'
    · next hcursor =>
      cases hmerge'
      have hzero (e : QueuedCaptureEvent) (he : queuedCaptureEventIsCursor e = true) :
          rawDelta e = 0 := by
        cases e with
        | rawMouseDelta => cases he
        | event | cursorPoint => rfl
      rw [hzero _ hcursor.1, hzero _ hcursor.2, add_zero]
    · cases hmerge'

/-! ## The law of the queue -/

/-- What the queue is for, along a run from the empty queue. -/
structure QueueLaw (is : List (Input QueuedCaptureEvent)) : Prop where
  /-- It never holds more than its capacity. -/
  bounded : ∀ js, js <+: is → (captureMachine.exec [] js).length ≤ maxCaptureQueue
  /-- What is delivered, and what waits behind it, stands for captured events in their order, and
  for all of them while nothing is evicted. -/
  ordered : ∃ groups,
    captureQueue.Grouped groups (arrived (captureMachine.trace [] is))
      (delivered (captureMachine.trace [] is) ++ captureMachine.exec [] is) ∧
    (dropped (captureMachine.trace [] is) = [] →
      groups.flatten = arrived (captureMachine.trace [] is))
  /-- No transition is evicted for a motion. -/
  kept : ∀ e ∈ captureMachine.trace [] is, ∀ event, e.input = .enqueue event →
    queuedCaptureEventIsMotion event = true →
    ∀ t, e.output.dropped = some t → ¬ IsTransition t
  /-- The raw movement delivered, with what waits, is the movement captured. -/
  moved : dropped (captureMachine.trace [] is) = [] →
    (∀ e ∈ captureMachine.trace [] is, ∀ event, e.input = .enqueue event →
      ¬ Saturates e.pre event) →
    rawSum (delivered (captureMachine.trace [] is)) + rawSum (captureMachine.exec [] is) =
      rawSum (arrived (captureMachine.trace [] is))

/-- **The law holds in exactly the runs in which no motion displaces a transition.** -/
theorem queueLaw_iff (is : List (Input QueuedCaptureEvent)) :
    QueueLaw is ↔ ∀ e ∈ captureMachine.trace [] is, ∀ event, e.input = .enqueue event →
      ¬ Displaces e.pre event := by
  have hoption (e) (he : e ∈ captureMachine.trace [] is) (event : QueuedCaptureEvent)
      (hinput : e.input = .enqueue event) :
      e.output.dropped = (enqueueQueuedCaptureEvent e.pre event).2 := by
    rw [captureMachine.entry_of_mem he, Machine.entry_output, Machine.entry_pre, hinput]
    rfl
  refine ⟨?_, ?_⟩
  · intro hlaw e he event hinput hdisplaces
    obtain ⟨t, ht, htransition⟩ := (displaces_iff hdisplaces.1).2 hdisplaces
    exact hlaw.kept e he event hinput hdisplaces.1 t ((hoption e he event hinput).trans ht)
      htransition
  · intro hnot
    refine ⟨?_, ?_, ?_, ?_⟩
    · intro js _
      rw [captureMachine_eq]
      exact captureQueue.length_le (by decide) js
    · rw [captureMachine_eq]
      exact captureQueue.grouped is
    · intro e he event hinput hmotion t ht htransition
      rw [hoption e he event hinput] at ht
      exact hnot e he event hinput ((displaces_iff hmotion).1 ⟨t, ht, htransition⟩)
    · intro hdropped hsaturates
      rw [captureMachine_eq] at hdropped hsaturates ⊢
      exact captureQueue.sum_conserved rawDelta is
        (fun e he event hinput => keepsWeight_of_not_saturates (hsaturates e he event hinput))
        hdropped

/-! ## A motion that displaces a key -/

/-- Transitions are never coalesced: they fill the queue. -/
theorem exec_replicate {t : QueuedCaptureEvent} (ht : IsTransition t) {n : ℕ}
    (hn : n ≤ maxCaptureQueue) :
    captureMachine.exec [] (List.replicate n (.enqueue t)) = List.replicate n t := by
  induction n with
  | zero => rfl
  | succ n ih =>
    have hroom : (List.replicate n t).length < captureQueue.capacity := by
      rw [List.length_replicate]
      exact hn
    have hmerge : (List.replicate n t).getLast?.bind (captureQueue.merge · t) = none := by
      rw [Option.bind_eq_none_iff]
      intro x hx
      cases h : captureQueue.merge x t with
      | none => rfl
      | some merged =>
        have hx' := isMotion_of_coalesce h
        rw [List.eq_of_mem_replicate (List.mem_of_getLast? hx), ht.not_isMotion] at hx'
        cases hx'
    rw [List.replicate_succ', Machine.exec_concat, ih (Nat.le_of_succ_le hn), captureMachine_eq,
      List.replicate_succ']
    change (captureQueue.enqueue _ t).1 = _
    rw [Coalescing.enqueue, hmerge, Coalescing.push, if_neg (not_le.2 hroom)]

theorem displaces_replicate {t e : QueuedCaptureEvent} (ht : IsTransition t)
    (hmotion : queuedCaptureEventIsMotion e = true) :
    Displaces (List.replicate maxCaptureQueue t) e := by
  refine ⟨hmotion, List.length_replicate.ge, ?_, t, List.head?_replicate, ht⟩
  intro x hx
  rw [List.eq_of_mem_replicate hx]
  exact ht.not_isMotion

/-- A motion that comes when it displaces a transition breaks the law. -/
theorem not_queueLaw_of_displaces {js : List (Input QueuedCaptureEvent)}
    {event : QueuedCaptureEvent} (h : Displaces (captureMachine.exec [] js) event) :
    ¬ QueueLaw (js ++ [.enqueue event]) := by
  intro hlaw
  obtain ⟨t, ht, htransition⟩ := (displaces_iff h.1).2 h
  refine hlaw.kept (captureMachine.entry (captureMachine.exec [] js) (.enqueue event)) ?_ event rfl
    h.1 t ht htransition
  rw [Machine.trace_concat]
  exact List.mem_append_right _ (.head _)

/-- 256 times the A key, then a movement of the mouse. -/
def keysThenMotion : List (Input QueuedCaptureEvent) :=
  List.replicate maxCaptureQueue (.enqueue (.event (.key 0x04 true 0))) ++
    [.enqueue (.cursorPoint 1 1)]

theorem not_queueLaw_keysThenMotion : ¬ QueueLaw keysThenMotion := by
  have hkey : IsTransition (.event (.key 0x04 true 0)) := trivial
  have hpre := exec_replicate hkey le_rfl
  have hdisplaces :=
    displaces_replicate (t := .event (.key 0x04 true 0)) (e := .cursorPoint 1 1) hkey rfl
  rw [← hpre] at hdisplaces
  exact not_queueLaw_of_displaces hdisplaces

end Mouser
