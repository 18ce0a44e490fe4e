import Mouser.Engine.Counters
import Mouser.Engine.Decision
import Mouser.Engine.Runtime

/-!
# The engine as the sink of a capture adapter

A capture adapter hands each event to the sink of the runtime, which runs it through the core, sends
what there is to send, and answers with the core's decision.

`Drives` says when the event goes to the peer: on a source that has given input away, unless the
event is a cursor move that takes input back. What goes to the peer, the sink wants suppressed.
-/

namespace Mouser

/-- It carries input to the peer. -/
def Outgoing.isInput : Outgoing → Bool
  | .motion _ | .control (.keyEvent _) | .control (.pointerButton _) | .control (.scroll _) => true
  | .control _ => false

/-- What the actions put on `out_tx`. -/
def sent (acts : List Action) : List Outgoing := acts.filterMap Action.outgoing?

/-- The core, and what was put on `out_tx`. -/
structure CaptureSink where
  core : EngineCore
  out : List Outgoing

namespace CaptureSink

/-- Hand out the actions; the answer is the last decision among them. An injection is the last of
the actions of an event (`EngineCore.counts_localInput`), so its failure is a call of its own. -/
def dispatch (s : CaptureSink) (actions : List Action) : CaptureSink × Option CaptureDecision :=
  ({ s with out := s.out ++ sent actions }, (decisions actions).getLast?)

/-- Run one captured event through the core and apply the actions. -/
def feedLocal (s : CaptureSink) (event : LocalInputEvent) : CaptureSink × CaptureDecision :=
  let (core, actions) := s.core.onLocalInput event
  let (s, decision) := { s with core }.dispatch actions
  (s, decision.getD .passThrough)

def onEvent (s : CaptureSink) (event : LocalInputEvent) : CaptureSink × CaptureDecision :=
  s.feedLocal event

@[simp] theorem onEvent_core (s : CaptureSink) (event : LocalInputEvent) :
    (s.onEvent event).1.core = (s.core.onLocalInput event).1 := rfl

@[simp] theorem onEvent_out (s : CaptureSink) (event : LocalInputEvent) :
    (s.onEvent event).1.out = s.out ++ sent (s.core.onLocalInput event).2 := rfl

end CaptureSink

namespace EngineCore

/-- The event is input for the peer. -/
def Drives (s : EngineCore) (event : LocalInputEvent) : Prop :=
  s.role = .source ∧ s.isOwner = false ∧ ¬ s.TakesBack (.runtime (.localInput event))

/-- What comes of a local event: it is kept from the peer, or the peer gets it and the sink wants it
suppressed. -/
inductive DeliversLocal (s : EngineCore) (event : LocalInputEvent) (acts : List Action) : Prop
  | kept (hdrives : ¬ s.Drives event) (hsent : ∀ o ∈ sent acts, o.isInput = false)
  | driven (hdrives : s.Drives event) (hsent : ∃ o ∈ sent acts, o.isInput = true)
    (hdecision : (decisions acts).getLast?.getD .passThrough = .suppress)

section
variable {s : EngineCore} {event : LocalInputEvent}

theorem Drives.away (h : s.Drives event) : s.isOwner = false := h.2.1

theorem not_drives_of_isOwner (h : s.isOwner = true) : ¬ s.Drives event := by
  intro hdrives
  rw [hdrives.away] at h
  cases h

theorem not_drives_of_takesBack (h : s.TakesBack (.runtime (.localInput event))) :
    ¬ s.Drives event :=
  fun hdrives => hdrives.2.2 h

/-- Taking input back sends the transfer and no input. -/
theorem sent_reclaimLocal (t : EngineCore) (post : List Action) :
    ∀ o ∈ sent (t.reclaimLocal.2 ++ post), o.isInput = true → o ∈ sent post := by
  intro o ho hinput
  rw [sent, List.filterMap_append] at ho
  rcases List.mem_append.1 ho with ho | ho
  · obtain rfl := List.mem_singleton.1 ho
    cases hinput
  · exact ho

theorem delivers_reclaim {t : EngineCore} {post : List Action}
    (hback : s.TakesBack (.runtime (.localInput event))) (hpost : sent post = []) :
    DeliversLocal s event (t.reclaimLocal.2 ++ post) := by
  refine .kept (not_drives_of_takesBack hback) fun o ho => ?_
  rw [Bool.eq_false_iff]
  intro hinput
  have h := t.sent_reclaimLocal post o ho hinput
  rw [hpost] at h
  cases h

theorem delivers_cursorMoved (hrole : s.role = .source) (d : UInt32) (x y dx dy : Int32) :
    DeliversLocal s (.cursorMoved d x y dx dy) (s.onCursor x y dx dy s.isOwner).2 := by
  have hcases := s.onCursor_cases x y dx dy s.isOwner
  generalize s.onCursor x y dx dy s.isOwner = r at hcases ⊢
  generalize hown : s.isOwner = owns at hcases
  cases hcases with
  | crossed =>
    rw [crossToPeer_eq s hown]
    exact .kept (not_drives_of_isOwner hown) (by simp [sent, Action.outgoing?, Outgoing.isInput])
  | rearmed | passed =>
    exact .kept (not_drives_of_isOwner hown) fun o ho => absurd ho List.not_mem_nil
  | escaped hescape =>
    have h : DeliversLocal s (.cursorMoved d x y dx dy) (s.reclaimLocal.2 ++ []) :=
      delivers_reclaim ⟨hrole, hown, .inl hescape⟩ rfl
    rwa [List.append_nil] at h
  | pushed htravel =>
    have h : DeliversLocal s (.cursorMoved d x y dx dy)
        ((s.travelled dx dy).reclaimLocal.2 ++ []) :=
      delivers_reclaim ⟨hrole, hown, .inr (.inl htravel)⟩ rfl
    rwa [List.append_nil] at h
  | @returned t ht hback =>
    obtain ⟨x', y', hwarp, -⟩ := t.entryEdgeWarp_within
    exact delivers_reclaim ⟨hrole, hown, .inr (.inr hback.2.2)⟩ (by rw [hwarp]; rfl)
  | @moved t ht hescape htravel hback =>
    refine .driven ⟨hrole, hown, ?_⟩ ⟨_, .head _, rfl⟩ rfl
    rintro ⟨-, -, h | h | h⟩
    · exact hescape h
    · exact htravel h
    · rw [ht, Bool.and_eq_true] at hback
      exact hback h

theorem onLocalInput_delivers (s : EngineCore) (event : LocalInputEvent) :
    DeliversLocal s event (s.onLocalInput event).2 := by
  by_cases hrole : s.role = .source
  · cases event with
    | cursorMoved d x y dx dy =>
      have hcursor : s.onLocalInput (.cursorMoved d x y dx dy) = s.onCursor x y dx dy s.isOwner :=
        call_cursorMoved hrole d x y dx dy
      rw [hcursor]
      exact delivers_cursorMoved hrole d x y dx dy
    | key | button | scroll =>
      rw [onLocalInput_eq hrole rfl]
      cases hown : s.isOwner with
      | true => exact .kept (not_drives_of_isOwner hown) fun o ho => absurd ho List.not_mem_nil
      | false => exact .driven ⟨hrole, hown, id⟩ ⟨_, .head _, rfl⟩ rfl
  · rw [onLocalInput, if_pos hrole]
    exact .kept (fun h => hrole h.1) fun o ho => absurd ho List.not_mem_nil

end

end EngineCore

namespace CaptureSink

open EngineCore

/-- **What goes to the peer.** -/
theorem exists_isInput_iff (s : EngineCore) (event : LocalInputEvent) :
    (∃ o ∈ ((⟨s, []⟩ : CaptureSink).onEvent event).1.out, o.isInput = true) ↔ s.Drives event := by
  have hout : ((⟨s, []⟩ : CaptureSink).onEvent event).1.out = sent (s.onLocalInput event).2 := rfl
  rw [hout]
  cases s.onLocalInput_delivers event with
  | kept hdrives hsent =>
    refine iff_of_false ?_ hdrives
    rintro ⟨o, ho, hinput⟩
    rw [hsent o ho] at hinput
    cases hinput
  | driven hdrives hsent => exact iff_of_true hsent hdrives

/-- **What goes to the peer is suppressed.** -/
theorem onEvent_of_drives {s : CaptureSink} {event : LocalInputEvent}
    (h : s.core.Drives event) : (s.onEvent event).2 = .suppress := by
  have hdecision : (s.onEvent event).2 =
      (decisions (s.core.onLocalInput event).2).getLast?.getD .passThrough := rfl
  rw [hdecision]
  cases s.core.onLocalInput_delivers event with
  | kept hdrives => exact absurd h hdrives
  | driven _ _ hsuppress => exact hsuppress

end CaptureSink

end Mouser
