import Mouser.Mobile.Gestures

/-!
# Drags of the touchpad

A drag is the gesture engine's mode `dragging` and nothing else. A second finger, or another finger
in the place of the first, takes the mode away without a `dragEnd`, and no later call can make up
for it: a run that ends with all fingers up closes its drags exactly when no call loses one
(`dragsClosed_iff`).
-/

namespace Mouser

namespace Android

/-- Whether a drag is open after an event; `none` where the event comes out of turn: a start in an
open drag, an end without one, a click in an open drag. -/
def follow {α : Type*} (isOpen : Bool) : TouchpadEvent α → Option Bool
  | .dragStart => if isOpen then none else some true
  | .dragEnd => if isOpen then some false else none
  | .leftClick | .rightClick => if isOpen then none else some false
  | _ => some isOpen

/-- Whether a drag is open after events, if all of them come in turn. -/
def followAll {α : Type*} (events : List (TouchpadEvent α)) : Option Bool :=
  events.foldlM follow false

section
variable {α : Type*} [Field α] [LinearOrder α] [IsStrictOrderedRing α] [FloorRing α]
variable (g : Geometry α) (config : Config α)

/-- The events that calls emit. -/
def emitted (calls : List (Call α)) : List (TouchpadEvent α) :=
  ((GestureEngine.machine g config).trace .new calls).flatMap (·.output)

/-- The drags of a run are closed: starts and ends take turns, no click falls into an open drag, and
after a call without pointers no drag is open, nor the left button down that a client pressed. -/
structure DragsClosed (calls : List (Call α)) : Prop where
  inTurn : (followAll (emitted g config calls)).isSome = true
  closed : ∀ before now, before ++ [.pointers [] now] <+: calls →
    followAll (emitted g config (before ++ [.pointers [] now])) = some false
  released : ∀ before now, before ++ [.pointers [] now] <+: calls → ∀ client : MouserClient,
    MouserClient.leftDown (client.onEvents (emitted g config (before ++ [.pointers [] now]))) =
      false

end

section
variable {α : Type*}

/-- An event that is neither of a drag nor a click. -/
def TouchpadEvent.IsQuiet (event : TouchpadEvent α) : Prop :=
  ∀ isOpen, follow isOpen event = some isOpen

theorem followAll_append (events events' : List (TouchpadEvent α)) :
    followAll (events ++ events') = (followAll events).bind fun o => events'.foldlM follow o :=
  List.foldlM_append

theorem foldlM_follow_of_quiet {events : List (TouchpadEvent α)} (h : ∀ e ∈ events, e.IsQuiet)
    (isOpen : Bool) : events.foldlM follow isOpen = some isOpen := by
  induction events with
  | nil => rfl
  | cons event events ih =>
    rw [List.foldlM_cons, h event (.head _) isOpen]
    exact ih fun e he => h e (.tail _ he)

end

namespace MouserClient

section
variable {α : Type*} [Field α] [LinearOrder α] [FloorRing α]

/-- An event in turn leaves the left button down exactly in an open drag. -/
theorem leftAfter_onEvent (c : MouserClient) {event : TouchpadEvent α} {isOpen isOpen' : Bool}
    (h : follow isOpen event = some isOpen') :
    (c.onEvent event).2.foldl leftAfter (isOpen && c.isConnected) = (isOpen' && c.isConnected) ∧
      (c.onEvent event).1.isConnected = c.isConnected := by
  cases hconnected : c.isConnected with
  | false =>
    have hnone : c.onEvent event = (c, []) := if_neg (by simp [hconnected])
    rw [hnone]
    exact ⟨by simp, hconnected⟩
  | true =>
    cases event <;> cases isOpen <;> cases h <;>
      simp [onEvent, hconnected, moveBy, click, leftAfter, buttonLeft, buttonRight]

theorem leftDown_onEvents (c : MouserClient) {events : List (TouchpadEvent α)} {isOpen : Bool}
    (h : followAll events = some isOpen) :
    leftDown (c.onEvents events) = (isOpen && c.isConnected) := by
  suffices hfrom : ∀ (c : MouserClient) (o : Bool), events.foldlM follow o = some isOpen →
      (c.onEvents events).foldl leftAfter (o && c.isConnected) = (isOpen && c.isConnected) from
    hfrom c false h
  clear h c
  induction events with
  | nil =>
    intro c o h
    rw [Option.some.inj h]
    rfl
  | cons event events ih =>
    intro c o h
    rw [List.foldlM_cons] at h
    obtain ⟨o', hnow, hlater⟩ := Option.bind_eq_some_iff.1 h
    obtain ⟨hleft, hconnected⟩ := c.leftAfter_onEvent hnow
    rw [onEvents, List.foldl_append, hleft, ← hconnected]
    exact ih _ o' hlater

end

end MouserClient

namespace GestureEngine

section
variable {α : Type*} [Field α] [LinearOrder α]
variable (g : Geometry α) (config : Config α)

/-- The mode after a call, and what it emits. -/
inductive Effect (e : GestureEngine α) : Call α → Mode → List (TouchpadEvent α) → Prop
  | tick {now : Int64} {events : List (TouchpadEvent α)} (hquiet : ∀ ev ∈ events, ev.IsQuiet) :
    Effect e (.tick now) e.mode events
  | land {p : PointerSample α} {now : Int64} (hid : e.primaryId ≠ some p.id) :
    Effect e (.pointers [p] now) .pending []
  | drag {p : PointerSample α} {now : Int64} {events : List (TouchpadEvent α)}
    (hid : e.primaryId = some p.id) (hmode : e.mode = .dragging)
    (hquiet : ∀ ev ∈ events, ev.IsQuiet) : Effect e (.pointers [p] now) .dragging events
  | start {p : PointerSample α} {now : Int64} {events : List (TouchpadEvent α)}
    (hmode : e.mode ≠ .dragging) (hquiet : ∀ ev ∈ events, ev.IsQuiet) :
    Effect e (.pointers [p] now) .dragging (.dragStart :: events)
  | move {p : PointerSample α} {now : Int64} {mode : Mode} {events : List (TouchpadEvent α)}
    (hmode : e.mode ≠ .dragging) (hmode' : mode ≠ .dragging)
    (hquiet : ∀ ev ∈ events, ev.IsQuiet) : Effect e (.pointers [p] now) mode events
  | pair {a b : PointerSample α} {rest : List (PointerSample α)} {now : Int64} {mode : Mode}
    {events : List (TouchpadEvent α)} (hmode' : mode ≠ .dragging)
    (hquiet : ∀ ev ∈ events, ev.IsQuiet) : Effect e (.pointers (a :: b :: rest) now) mode events
  | lift {now : Int64} {events : List (TouchpadEvent α)} (hmode : e.mode ≠ .dragging)
    (hevents : events = [] ∨ events = [.leftClick] ∨ events = [.rightClick]) :
    Effect e (.pointers [] now) .none events
  | drop {now : Int64} (hmode : e.mode = .dragging) :
    Effect e (.pointers [] now) .none [.dragEnd]

theorem isQuiet_emitMove (raw : Offset α) (dt : Int64) :
    ∀ ev ∈ emitMove g config raw dt, ev.IsQuiet := by
  intro ev hev
  rw [List.mem_singleton.1 hev]
  intro isOpen
  rfl

theorem onAllUp_effect (e : GestureEngine α) (now : Int64) :
    Effect e (.pointers [] now) (e.onAllUp g config now).1.mode (e.onAllUp g config now).2 := by
  unfold onAllUp
  cases hmode : e.mode with
  | dragging => exact .drop hmode
  | pending =>
    dsimp only
    split
    · exact .lift (by simp [hmode]) (.inr (.inl rfl))
    · exact .lift (by simp [hmode]) (.inl rfl)
  | twoFinger =>
    dsimp only
    split
    · exact .lift (by simp [hmode]) (.inr (.inr rfl))
    · exact .lift (by simp [hmode]) (.inl rfl)
  | none | moving | scrolling | pinching => exact .lift (by simp [hmode]) (.inl rfl)

theorem oneFinger_effect (e : GestureEngine α) (p : PointerSample α) (now : Int64) :
    Effect e (.pointers [p] now) (e.oneFinger g config p now).1.mode
      (e.oneFinger g config p now).2 := by
  unfold oneFinger
  split
  · next hid => exact .land hid
  · next hid =>
    rw [not_not] at hid
    cases hmode : e.mode with
    | pending =>
      have hne : e.mode ≠ .dragging := by simp [hmode]
      dsimp only
      split
      · split
        · exact .start hne (isQuiet_emitMove g config _ _)
        · exact .move hne nofun (isQuiet_emitMove g config _ _)
      · exact .move hne nofun nofun
    | dragging => exact .drag hid hmode (isQuiet_emitMove g config _ _)
    | moving =>
      have hne : e.mode ≠ .dragging := by simp [hmode]
      exact .move hne nofun (isQuiet_emitMove g config _ _)
    | none | twoFinger | scrolling | pinching =>
      have hne : e.mode ≠ .dragging := by simp [hmode]
      exact .move hne nofun (isQuiet_emitMove g config _ _)

variable [IsStrictOrderedRing α] [FloorRing α]

theorem isQuiet_emitScroll (e : GestureEngine α) (delta : Offset α) :
    ∀ ev ∈ (e.emitScroll config delta).2, ev.IsQuiet := by
  intro ev hev isOpen
  rcases List.mem_cons.1 hev with rfl | hev
  · rfl
  · rw [List.eq_of_mem_replicate hev]
    rfl

theorem tick_effect (e : GestureEngine α) (now : Int64) :
    Effect e (.tick now) (e.tick g config).1.mode (e.tick g config).2 := by
  unfold GestureEngine.tick
  split
  · dsimp only
    split
    · exact .tick nofun
    · exact .tick (isQuiet_emitScroll config _ _)
  · exact .tick nofun

/-- The mode of a gesture of two fingers is no drag. -/
theorem decideMode_ne (e : GestureEngine α) (distance angle : α)
    (hmode : e.mode ≠ .dragging) : e.decideMode config distance angle ≠ .dragging := by
  unfold decideMode
  split
  · dsimp only
    split
    · nofun
    · split
      · nofun
      · nofun
  · exact hmode

theorem emitTwoFinger_mode (e : GestureEngine α) (dCentroid : Offset α)
    (distance dDistance dAngle : α) :
    (e.emitTwoFinger config dCentroid distance dDistance dAngle).1.mode = e.mode := by
  unfold emitTwoFinger
  split <;> rfl

theorem isQuiet_emitTwoFinger (e : GestureEngine α) (dCentroid : Offset α)
    (distance dDistance dAngle : α) :
    ∀ ev ∈ (e.emitTwoFinger config dCentroid distance dDistance dAngle).2, ev.IsQuiet := by
  unfold emitTwoFinger
  split
  · exact isQuiet_emitScroll config e dCentroid
  · intro ev hev isOpen
    rcases List.mem_append.1 hev with hev | hev
    · split at hev
      · rw [List.mem_singleton.1 hev]
        rfl
      · cases hev
    · split at hev
      · rw [List.mem_singleton.1 hev]
        rfl
      · cases hev
  · exact nofun

theorem twoFingers_effect (e : GestureEngine α) (a b : PointerSample α)
    (rest : List (PointerSample α)) (now : Int64) :
    Effect e (.pointers (a :: b :: rest) now) (e.twoFingers g config a b now).1.mode
      (e.twoFingers g config a b now).2 := by
  unfold twoFingers
  dsimp only
  split
  · exact .pair nofun nofun
  · next hentered =>
    have hne : e.mode ≠ .dragging := by
      rintro hdragging
      rw [hdragging] at hentered
      exact hentered ⟨nofun, nofun, nofun⟩
    refine .pair ?_ (isQuiet_emitTwoFinger config _ _ _ _ _)
    rw [emitTwoFinger_mode]
    exact decideMode_ne config _ _ _ hne

theorem step_effect (e : GestureEngine α) (call : Call α) :
    Effect e call (e.step g config call).1.mode (e.step g config call).2 := by
  cases call with
  | tick now => exact e.tick_effect g config now
  | pointers pointers now =>
    match pointers with
    | [] => exact e.onAllUp_effect g config now
    | [p] => exact e.oneFinger_effect g config p now
    | a :: b :: rest => exact e.twoFingers_effect g config a b rest now

end

end GestureEngine

/-! ## Lost drags -/

section
variable {α : Type*}

/-- A call that takes the mode away from a drag: a second finger, or another one. -/
def GestureEngine.LosesDrag (e : GestureEngine α) : Call α → Prop
  | .pointers [p] _ => e.mode = .dragging ∧ e.primaryId ≠ some p.id
  | .pointers (_ :: _ :: _) _ => e.mode = .dragging
  | _ => False

/-- The events so far came in turn, and a drag is open exactly in its mode. -/
def InStep (sofar : Option Bool) (e : GestureEngine α) : Prop :=
  sofar = some (decide (e.mode = .dragging))

/-- An event came out of turn, or a drag is open that is none any more. -/
def Lost (sofar : Option Bool) (e : GestureEngine α) : Prop :=
  sofar = none ∨ sofar = some true ∧ e.mode ≠ .dragging

open GestureEngine (Effect)

variable {e e' : GestureEngine α} {call : Call α} {events : List (TouchpadEvent α)}
  {sofar : Option Bool}

/-- A call that loses no drag stays in step. -/
theorem InStep.effect (h : InStep sofar e) (heff : Effect e call e'.mode events)
    (hkeeps : ¬ e.LosesDrag call) : InStep (sofar.bind fun o => events.foldlM follow o) e' := by
  rw [InStep] at h ⊢
  rw [h, Option.bind_some]
  generalize e'.mode = mode at heff
  cases heff with
  | tick hquiet => exact foldlM_follow_of_quiet hquiet _
  | land hid =>
    have hne : e.mode ≠ .dragging := fun hmode => hkeeps ⟨hmode, hid⟩
    rw [decide_eq_false hne]
    rfl
  | drag hid hmode hquiet =>
    rw [hmode]
    exact foldlM_follow_of_quiet hquiet _
  | start hmode hquiet =>
    rw [decide_eq_false hmode, List.foldlM_cons]
    exact foldlM_follow_of_quiet hquiet _
  | move hmode hmode' hquiet =>
    rw [decide_eq_false hmode, decide_eq_false hmode']
    exact foldlM_follow_of_quiet hquiet _
  | pair hmode' hquiet =>
    have hne : e.mode ≠ .dragging := fun hmode => hkeeps hmode
    rw [decide_eq_false hne, decide_eq_false hmode']
    exact foldlM_follow_of_quiet hquiet _
  | lift hmode hevents =>
    rw [decide_eq_false hmode]
    rcases hevents with rfl | rfl | rfl <;> rfl
  | drop hmode =>
    rw [hmode]
    rfl

/-- A call that loses a drag leaves it open. -/
theorem InStep.lost (h : InStep sofar e) (heff : Effect e call e'.mode events)
    (hloses : e.LosesDrag call) : Lost (sofar.bind fun o => events.foldlM follow o) e' := by
  have hmode : e.mode = .dragging := by
    unfold GestureEngine.LosesDrag at hloses
    split at hloses
    · exact hloses.1
    · exact hloses
    · exact hloses.elim
  rw [InStep, decide_eq_true hmode] at h
  rw [h, Option.bind_some, Lost]
  generalize e'.mode = mode at heff
  cases heff with
  | tick => exact hloses.elim
  | land hid => exact .inr ⟨rfl, nofun⟩
  | drag hid => exact absurd hid hloses.2
  | start hne => exact absurd hmode hne
  | move hne => exact absurd hmode hne
  | pair hmode' hquiet => exact .inr ⟨foldlM_follow_of_quiet hquiet _, hmode'⟩
  | lift => exact hloses.elim
  | drop => exact hloses.elim

/-- A drag that is lost stays so. -/
theorem Lost.effect (h : Lost sofar e) (heff : Effect e call e'.mode events) :
    Lost (sofar.bind fun o => events.foldlM follow o) e' := by
  rcases h with rfl | ⟨rfl, hne⟩
  · exact .inl rfl
  rw [Option.bind_some, Lost]
  generalize e'.mode = mode at heff
  cases heff with
  | tick hquiet => exact .inr ⟨foldlM_follow_of_quiet hquiet _, hne⟩
  | land => exact .inr ⟨rfl, nofun⟩
  | drag hid hmode => exact absurd hmode hne
  | start => exact .inl rfl
  | move _ hmode' hquiet => exact .inr ⟨foldlM_follow_of_quiet hquiet _, hmode'⟩
  | pair hmode' hquiet => exact .inr ⟨foldlM_follow_of_quiet hquiet _, hmode'⟩
  | lift _ hevents =>
    rcases hevents with rfl | rfl | rfl
    · exact .inr ⟨rfl, nofun⟩
    · exact .inl rfl
    · exact .inl rfl
  | drop hmode => exact absurd hmode hne

end

section
variable {α : Type*} [Field α] [LinearOrder α] [IsStrictOrderedRing α] [FloorRing α]
variable (g : Geometry α) (config : Config α)

open GestureEngine (machine new)

theorem emitted_concat (calls : List (Call α)) (call : Call α) :
    followAll (emitted g config (calls ++ [call])) =
      (followAll (emitted g config calls)).bind fun o =>
        (((machine g config).exec new calls).step g config call).2.foldlM follow o := by
  rw [emitted, Machine.trace_concat, List.flatMap_append, ← emitted, List.flatMap_singleton,
    followAll_append]
  rfl

/-- After every run, the drags are in step if no call has lost one, and one is lost otherwise. -/
theorem inStep_or_lost (calls : List (Call α)) :
    (∀ en ∈ (machine g config).trace new calls, ¬ en.pre.LosesDrag en.input) ∧
        InStep (followAll (emitted g config calls)) ((machine g config).exec new calls) ∨
      (¬ ∀ en ∈ (machine g config).trace new calls, ¬ en.pre.LosesDrag en.input) ∧
        Lost (followAll (emitted g config calls)) ((machine g config).exec new calls) := by
  induction calls using List.reverseRecOn with
  | nil => exact .inl ⟨fun _ hen => absurd hen List.not_mem_nil, rfl⟩
  | append_singleton calls call ih =>
    have heff := ((machine g config).exec new calls).step_effect g config call
    rw [emitted_concat, Machine.exec_concat, Machine.trace_concat]
    simp only [List.forall_mem_append, List.forall_mem_singleton, Machine.entry_pre,
      Machine.entry_input]
    rcases ih with ⟨hkept, hstep⟩ | ⟨hlost, hopen⟩
    · by_cases hloses : ((machine g config).exec new calls).LosesDrag call
      · exact .inr ⟨fun h => h.2 hloses, hstep.lost heff hloses⟩
      · exact .inl ⟨⟨hkept, hloses⟩, hstep.effect heff hloses⟩
    · exact .inr ⟨fun h => hlost h.1, hopen.effect heff⟩

/-- A part of a run closes its drags where the run does. -/
theorem DragsClosed.cut {before calls : List (Call α)} (h : DragsClosed g config calls)
    (hbefore : before <+: calls) : DragsClosed g config before where
  inTurn := by
    obtain ⟨rest, rfl⟩ := hbefore
    have hall := h.inTurn
    rw [emitted, Machine.trace_append, List.flatMap_append, ← emitted, followAll_append] at hall
    cases hturn : followAll (emitted g config before) with
    | none =>
      rw [hturn] at hall
      cases hall
    | some => rfl
  closed _ now hlift := h.closed _ now (hlift.trans hbefore)
  released _ now hlift := h.released _ now (hlift.trans hbefore)

/-- **Drags are closed exactly while none is lost.** -/
theorem dragsClosed_concat_iff (calls : List (Call α)) (now : Int64) :
    DragsClosed g config (calls ++ [.pointers [] now]) ↔
      ∀ en ∈ (machine g config).trace new calls, ¬ en.pre.LosesDrag en.input := by
  have hlift (en) (hen : en ∈ (machine g config).trace new (calls ++ [.pointers [] now])) :
      en ∈ (machine g config).trace new calls ∨ ¬ en.pre.LosesDrag en.input := by
    rw [Machine.trace_concat] at hen
    rcases List.mem_append.1 hen with hen | hen
    · exact .inl hen
    · rw [List.mem_singleton.1 hen]
      exact .inr id
  refine ⟨?_, ?_⟩
  · intro h
    rcases inStep_or_lost g config (calls ++ [.pointers [] now]) with ⟨hkept, -⟩ | ⟨-, hopen⟩
    · intro en hen
      rw [Machine.trace_concat] at hkept
      exact hkept en (List.mem_append_left _ hen)
    · have hclosed := h.closed calls now (List.prefix_refl _)
      rcases hopen with hnone | ⟨htrue, -⟩
      · rw [hnone] at hclosed
        cases hclosed
      · rw [htrue] at hclosed
        cases hclosed
  · intro hkept
    -- no prefix of the run has lost a drag, so each is in step
    have hinStep (before : List (Call α)) (hbefore : before <+: calls ++ [.pointers [] now]) :
        InStep (followAll (emitted g config before)) ((machine g config).exec new before) := by
      rcases inStep_or_lost g config before with ⟨-, hstep⟩ | ⟨hlost, -⟩
      · exact hstep
      · refine absurd (fun en hen => ?_) hlost
        have hmem := (Machine.trace_prefix _ new hbefore).subset hen
        exact (hlift en hmem).elim (hkept en) id
    have hclosed (before : List (Call α)) (t : Int64)
        (hbefore : before ++ [.pointers [] t] <+: calls ++ [.pointers [] now]) :
        followAll (emitted g config (before ++ [.pointers [] t])) = some false := by
      rw [hinStep _ hbefore, Machine.exec_concat]
      rfl
    refine ⟨?_, hclosed, ?_⟩
    · rw [hinStep _ (List.prefix_refl _)]
      rfl
    · intro before t hbefore client
      rw [client.leftDown_onEvents (hclosed before t hbefore), Bool.false_and]

end

/-- **Drags are closed while none is lost**, over the reals: a run closes its drags, at each of its
calls without pointers, if no call of it puts a second finger or another one on the surface in the
middle of a drag; and if one does, the run does not close its drags by the time all fingers are
up. -/
theorem dragsClosed_iff (config : Config ℝ) (calls : List (Call ℝ)) (now : Int64) :
    ((∀ en ∈ (GestureEngine.machine .real config).trace .new calls,
        ¬ en.pre.LosesDrag en.input) → DragsClosed .real config calls) ∧
      (DragsClosed .real config (calls ++ [.pointers [] now]) ↔
        ∀ en ∈ (GestureEngine.machine .real config).trace .new calls,
          ¬ en.pre.LosesDrag en.input) := by
  have hiff := dragsClosed_concat_iff .real config calls now
  exact ⟨fun hkept => (hiff.2 hkept).cut _ _ (List.prefix_append _ _), hiff⟩

/-! ## A second finger in a drag -/

/-- A finger. -/
def finger (id : Int64) (x y : ℝ) : PointerSample ℝ := ⟨id, ⟨x, y⟩⟩

/-- A tap, then a drag with a second finger in the middle of it. -/
def pinchedDrag : List (Call ℝ) :=
  [.pointers [finger 1 0 0] 0, .pointers [] 40, .pointers [finger 2 0 0] 120,
   .pointers [finger 2 40 0] 140, .pointers [finger 2 40 0, finger 3 60 0] 160]

/-- At the second finger the drag is on. -/
theorem pinchedDrag_mode :
    ((GestureEngine.machine .real (.default ℝ)).exec .new (pinchedDrag.take 4)).mode =
      .dragging := by
  simp [pinchedDrag, finger, GestureEngine.machine, GestureEngine.step,
    GestureEngine.onPointersChanged, GestureEngine.oneFinger, GestureEngine.onAllUp,
    GestureEngine.beginPrimary, GestureEngine.new, Config.default, Offset.sub, Geometry.real]
  rw [if_pos (by norm_num)]

/-- Its drag is not closed. -/
theorem not_dragsClosed_pinchedDrag :
    ¬ DragsClosed .real (.default ℝ) (pinchedDrag ++ [.pointers [] 200]) := by
  rw [dragsClosed_concat_iff]
  intro hkept
  have hentry := (GestureEngine.machine .real (.default ℝ)).mem_trace_iff (s := .new) |>.2
    ⟨pinchedDrag.take 4, _, [], (rfl : pinchedDrag = _), rfl⟩
  exact hkept _ hentry pinchedDrag_mode

end Android

end Mouser
