import Mouser.Engine.Sink
import Mouser.Linux.Capture
import Mouser.Mac.Capture
import Mouser.Windows.Capture

/-!
# Captured input is delivered once

An adapter lets an event through to this desktop or swallows it, and the engine behind it may send
the event to the peer. On Linux and macOS the adapter asks the engine first, which suppresses what
it sends; only the chord overrides the answer. On Windows the hook decides alone, before the engine
gets the event.

The engine knows nothing of the chord: on each platform an event is delivered twice exactly when it
is let through regardless of the engine and the engine drives the peer with it
(`deliveredOnce_iff`).
-/

namespace Mouser

/-! ## Adapters that ask the engine -/

/-- A capture adapter that hands each event to the sink and then decides. -/
structure Adapter (ρ : Type*) where
  new : ρ
  /-- The third part is whether the event is let through. -/
  decisionFor : CaptureSink → ρ → LocalInputEvent → CaptureSink × ρ × Bool
  /-- The event is let through whatever the sink answers. -/
  Forces : ρ → LocalInputEvent → Prop
  /-- The event as the sink gets it. -/
  seen : ρ → LocalInputEvent → LocalInputEvent
  sink_eq : ∀ sink r event, (decisionFor sink r event).1 = (sink.onEvent (seen r event)).1
  passes_iff : ∀ sink r event, (decisionFor sink r event).2.2 = true ↔
    Forces r event ∨ (sink.onEvent (seen r event)).2 = .passThrough
  drives_seen : ∀ (core : EngineCore) r event, core.Drives (seen r event) ↔ core.Drives event

/-- The chord forces pass-through already, or this key completes it. -/
def Linux.EmergencyReclaim.Forces (r : Linux.EmergencyReclaim) : LocalInputEvent → Prop
  | .key usage down _ => r.active = true ∨
    emergencyReclaimChordFromMods (updateModifier r.heldMods usage down) = true
  | _ => r.active = true

@[inherit_doc Linux.EmergencyReclaim.Forces]
def Mac.EmergencyReclaim.Forces (r : Mac.EmergencyReclaim) : LocalInputEvent → Prop
  | .key usage down mods => r.active = true ∨
    emergencyReclaimChordFromMods (mods ||| (r.updateCtrl usage down).heldCtrlBits) = true
  | _ => r.active = true

theorem Linux.EmergencyReclaim.observe_forces (r : Linux.EmergencyReclaim)
    (event : LocalInputEvent) : (r.observe event).2.2 = true ↔ r.Forces event := by
  cases event with
  | key usage down mods => simp [observe, Forces, updateKey]
  | cursorMoved | button | scroll => simp [observe, Forces]

theorem Mac.EmergencyReclaim.observe_forces (r : Mac.EmergencyReclaim)
    (event : LocalInputEvent) : (r.observe event).2 = true ↔ r.Forces event := by
  have hactive (usage down) : (r.updateCtrl usage down).active = r.active := by
    unfold updateCtrl
    split <;> rfl
  cases event with
  | key usage down mods =>
    simp only [observe, Forces]
    split
    · next hchord => simp [hchord]
    · next hchord => simp [hchord, hactive usage down]
  | cursorMoved | button | scroll => simp [observe, Forces]

theorem Mac.decisionFor_eq_keep_iff (sink : CaptureSink) (r : Mac.EmergencyReclaim)
    (event : LocalInputEvent) :
    (Mac.decisionFor CaptureSink.onEvent sink event r).2.2 = .keep ↔
      (r.observe event).2 = true ∨ (sink.onEvent event).2 = .passThrough := by
  rw [Mac.decisionFor]
  generalize r.observe event = observed
  generalize sink.onEvent event = answer
  obtain ⟨r, forcePass⟩ := observed
  obtain ⟨sink, decision⟩ := answer
  cases forcePass <;> cases decision <;> simp

theorem Linux.EmergencyReclaim.drives_observe (core : EngineCore) (r : Linux.EmergencyReclaim)
    (event : LocalInputEvent) : core.Drives (r.observe event).2.1 ↔ core.Drives event := by
  cases event <;> rfl

/-- `decision_for` of the Linux adapter. -/
def Linux.adapter : Adapter Linux.EmergencyReclaim where
  new := .new
  decisionFor sink r event :=
    let (reader, decision) := Linux.decisionFor CaptureSink.onEvent ⟨sink, r⟩ event
    (reader.sink, reader.reclaim, decision = .passThrough)
  Forces := Linux.EmergencyReclaim.Forces
  seen r event := (r.observe event).2.1
  sink_eq _ _ _ := rfl
  passes_iff sink r event := by
    rw [← r.observe_forces event]
    simp only [Linux.decisionFor]
    cases (r.observe event).2.2 <;> simp
  drives_seen core r event := r.drives_observe core event

/-- `decision_for` of the macOS adapter. -/
def Mac.adapter : Adapter Mac.EmergencyReclaim where
  new := .new
  decisionFor sink r event :=
    let (sink, r, result) := Mac.decisionFor CaptureSink.onEvent sink event r
    (sink, r, result = .keep)
  Forces := Mac.EmergencyReclaim.Forces
  seen _ event := event
  sink_eq sink r event := by
    simp only [Mac.decisionFor]
    split
    · rfl
    · split <;> rfl
  passes_iff sink r event := by
    rw [← r.observe_forces event, decide_eq_true_iff]
    exact Mac.decisionFor_eq_keep_iff sink r event
  drives_seen _ _ _ := .rfl

/-- What can happen to the engine and the adapter in front of it. -/
inductive AdapterInput where
  | captured (event : LocalInputEvent)
  /-- A tick, a frame or a datagram of the peer, or another call of the runtime. -/
  | call (c : Call)
  /-- The adapter starts anew. -/
  | restart

/-- What became of an input: whether it was let through, and what went on `out_tx`. -/
structure Delivery where
  passed : Bool
  out : List Outgoing

/-- It was let through, and it went to the peer. -/
def Delivery.Twice (d : Delivery) : Prop := d.passed = true ∧ ∃ o ∈ d.out, o.isInput = true

namespace Adapter

variable {ρ : Type*} (A : Adapter ρ)

/-- The engine behind the adapter. -/
def machine : Machine (EngineCore × ρ) AdapterInput Delivery where
  step s
    | .captured event =>
      let (sink, r, passed) := A.decisionFor ⟨s.1, []⟩ s.2 event
      ((sink.core, r), ⟨passed, sink.out⟩)
    | .call c =>
      let (core, acts) := s.1.call c
      ((core, s.2), ⟨false, sent acts⟩)
    | .restart => ((s.1, A.new), ⟨false, []⟩)

/-- No event that the adapter lets through goes to the peer. -/
def DeliversOnce (s : EngineCore × ρ) (is : List AdapterInput) : Prop :=
  ∀ e ∈ A.machine.trace s is, ∀ event, e.input = .captured event → ¬ e.output.Twice

/-- An event is delivered twice when it is forced through and drives the peer. -/
theorem twice_iff (s : EngineCore × ρ) (event : LocalInputEvent) :
    (A.machine.step s (.captured event)).2.Twice ↔ A.Forces s.2 event ∧ s.1.Drives event := by
  have hpassed : (A.machine.step s (.captured event)).2.passed = true ↔
      A.Forces s.2 event ∨
        ((⟨s.1, []⟩ : CaptureSink).onEvent (A.seen s.2 event)).2 = .passThrough :=
    A.passes_iff ⟨s.1, []⟩ s.2 event
  have hout : (A.machine.step s (.captured event)).2.out =
      ((⟨s.1, []⟩ : CaptureSink).onEvent (A.seen s.2 event)).1.out :=
    congrArg CaptureSink.out (A.sink_eq ⟨s.1, []⟩ s.2 event)
  rw [Delivery.Twice, hpassed, hout, CaptureSink.exists_isInput_iff, A.drives_seen]
  refine and_congr_left fun hdrives => or_iff_left fun hpass => ?_
  -- what drives the peer, the sink suppresses
  have hsuppress := CaptureSink.onEvent_of_drives (s := ⟨s.1, []⟩)
    ((A.drives_seen s.1 s.2 event).2 hdrives)
  rw [hsuppress] at hpass
  cases hpass

theorem deliversOnce_iff (s : EngineCore × ρ) (is : List AdapterInput) :
    A.DeliversOnce s is ↔ ∀ e ∈ A.machine.trace s is, ∀ event, e.input = .captured event →
      A.Forces e.pre.2 event → ¬ e.pre.1.Drives event := by
  refine forall₂_congr fun e he => forall₂_congr fun event hinput => ?_
  rw [A.machine.entry_of_mem he, Machine.entry_output, Machine.entry_pre, hinput, A.twice_iff,
    not_and]

end Adapter

/-! ## The hooks -/

namespace Windows

/-- The capture and the engine behind its sink. -/
structure Source (ι : Type*) where
  capture : Capture ι
  core : EngineCore

/-- What can happen to the hooks, their worker and the engine. What comes from a device bears the
report it comes from: a hook call and a movement at the raw-input window may bear the same one. -/
inductive Input (ι : Type*) where
  | keyboard (report : ι) (call : HookCall Kbdllhookstruct)
  | mouse (report : ι) (call : HookCall Msllhookstruct)
  | rawMouse (report : ι) (flags : UInt16) (lastX lastY : Int32)
  /-- The worker takes what is queued. -/
  | take
  /-- The worker processes the next event; `cursor` is where Windows says the cursor is. -/
  | process (cursor : Option (Int32 × Int32))
  | setRawInputActive (active : Bool)
  | prepare (displays : List DisplayBounds)
  | clear
  /-- A tick, a frame or a datagram of the peer, or another call of the runtime. -/
  | call (c : Call)

/-- What became of an input: the report whose message the next hook gets, and the reports that went
to the peer. -/
structure Output (ι : Type*) where
  passed : Option ι
  forwarded : List ι

variable {ι : Type*}

def HookResult.passed (result : HookResult) (report : ι) : Option ι :=
  if result = .callNext then some report else none

namespace Source

/-- The worker processes its next event, and the sink runs it through the engine. -/
def process (s : Source ι) (cursor : Option (Int32 × Int32)) : Source ι × Output ι :=
  match s.capture.processQueuedCaptureEvent cursor with
  | (capture, none) => ({ s with capture }, ⟨none, []⟩)
  | (capture, some (event, reports)) =>
    let (sink, _) := (⟨s.core, []⟩ : CaptureSink).onEvent event
    (⟨capture, sink.core⟩, ⟨none, if sink.out.any Outgoing.isInput then reports else []⟩)

def machine (ι : Type*) : Machine (Source ι) (Input ι) (Output ι) where
  step s
    | .keyboard report call =>
      let (capture, result) := s.capture.keyboardHook report call
      ({ s with capture }, ⟨result.passed report, []⟩)
    | .mouse report call =>
      let (capture, result) := s.capture.mouseHook report call
      ({ s with capture }, ⟨result.passed report, []⟩)
    | .rawMouse report flags lastX lastY =>
      ({ s with capture := s.capture.readRawMouse report flags lastX lastY }, ⟨none, []⟩)
    | .take => ({ s with capture := s.capture.waitForCaptureEvents }, ⟨none, []⟩)
    | .process cursor => s.process cursor
    | .setRawInputActive active =>
      ({ s with capture := s.capture.setRawInputActive active }, ⟨none, []⟩)
    | .prepare displays =>
      ({ s with capture := s.capture.prepareCaptureState displays }, ⟨none, []⟩)
    | .clear => ({ s with capture := s.capture.clearCaptureState }, ⟨none, []⟩)
    | .call c => ({ s with core := (s.core.call c).1 }, ⟨none, []⟩)

/-- No report that a hook lets through goes to the peer. -/
def DeliversOnce (s : Source ι) (is : List (Input ι)) : Prop :=
  ∀ report, ¬ ((∃ e ∈ (machine ι).trace s is, e.output.passed = some report) ∧
    ∃ e ∈ (machine ι).trace s is, report ∈ e.output.forwarded)

/-- A hook lets the report through. -/
def LetsThrough (s : Source ι) (report : ι) : Input ι → Prop
  | .keyboard r call => r = report ∧ s.capture.KeyboardPasses call
  | .mouse r call => r = report ∧ s.capture.MousePasses call
  | _ => False

/-- The worker processes an event that comes from the report, and a sink is installed for it. -/
def Handles (s : Source ι) (report : ι) (event : LocalInputEvent) : Input ι → Prop
  | .process cursor => s.capture.sink = true ∧ ∃ queued reports taken,
    s.capture.taken = (queued, reports) :: taken ∧ report ∈ reports ∧
      event = s.capture.resolve cursor queued
  | _ => False

theorem passed_eq_some_iff {result : HookResult} {r report : ι} :
    result.passed r = some report ↔ r = report ∧ result = .callNext := by
  cases result <;> simp [HookResult.passed]

theorem passed_iff (s : Source ι) (input : Input ι) (report : ι) :
    ((machine ι).step s input).2.passed = some report ↔ s.LetsThrough report input := by
  cases input with
  | keyboard r call =>
    rw [LetsThrough, ← s.capture.keyboardHook_eq_callNext_iff r call]
    exact passed_eq_some_iff
  | mouse r call =>
    rw [LetsThrough, ← s.capture.mouseHook_eq_callNext_iff r call]
    exact passed_eq_some_iff
  | process cursor =>
    have hnone : (s.process cursor).2.passed = none := by
      unfold process
      split <;> rfl
    refine iff_of_false (fun h => ?_) id
    rw [show ((machine ι).step s (.process cursor)).2.passed = none from hnone] at h
    cases h
  | rawMouse | take | setRawInputActive | prepare | clear | call => exact iff_of_false nofun id

theorem mem_forwarded_iff (s : Source ι) (input : Input ι) (report : ι) :
    report ∈ ((machine ι).step s input).2.forwarded ↔
      ∃ event, s.Handles report event input ∧ s.core.Drives event := by
  cases input with
  | process cursor =>
    have hstep : (machine ι).step s (.process cursor) = s.process cursor := rfl
    rw [hstep, process, Capture.processQueuedCaptureEvent]
    simp only [Handles]
    cases s.capture.taken with
    | nil => simp
    | cons entry taken =>
      obtain ⟨queued, reports⟩ := entry
      cases s.capture.sink with
      | false => simp
      | true =>
        have hinput := CaptureSink.exists_isInput_iff s.core (s.capture.resolve cursor queued)
        rw [← List.any_eq_true] at hinput
        simp only [if_true]
        split
        · next hany => simp [hinput.1 hany]
        · next hany => simp [mt hinput.2 hany]
  | keyboard | mouse | rawMouse | take | setRawInputActive | prepare | clear | call =>
    simp [machine, Handles]

theorem deliversOnce_iff (s : Source ι) (is : List (Input ι)) :
    s.DeliversOnce is ↔ ∀ e ∈ (machine ι).trace s is, ∀ report event,
      e.pre.Handles report event e.input →
      (∃ e' ∈ (machine ι).trace s is, e'.pre.LetsThrough report e'.input) →
      ¬ e.pre.core.Drives event := by
  have hpassed (report : ι) : (∃ e ∈ (machine ι).trace s is, e.output.passed = some report) ↔
      ∃ e ∈ (machine ι).trace s is, e.pre.LetsThrough report e.input := by
    refine exists_congr fun e => and_congr_right fun he => ?_
    rw [(machine ι).entry_of_mem he]
    exact passed_iff e.pre e.input report
  have hforwarded (report : ι) : (∃ e ∈ (machine ι).trace s is, report ∈ e.output.forwarded) ↔
      ∃ e ∈ (machine ι).trace s is, ∃ event, e.pre.Handles report event e.input ∧
        e.pre.core.Drives event := by
    refine exists_congr fun e => and_congr_right fun he => ?_
    rw [(machine ι).entry_of_mem he]
    exact mem_forwarded_iff e.pre e.input report
  unfold DeliversOnce
  simp only [hpassed, hforwarded]
  refine ⟨?_, ?_⟩
  · intro h e he report event hhandles hthrough hdrives
    exact h report ⟨hthrough, e, he, event, hhandles, hdrives⟩
  · rintro h report ⟨hthrough, e, he, event, hhandles, hdrives⟩
    exact h e he report event hhandles hthrough hdrives

end Source

end Windows

/-! ## All platforms -/

/-- **When captured input is delivered once.** In every run of the engine behind the Linux or the
macOS adapter, no event that is let through goes to the peer if and only if no event that the chord
forces through finds an engine that drives the peer with it. In every run of the engine behind the
Windows hooks and their queue, no report that a hook lets through goes to the peer if and only if no
queued event that comes from such a report is handed to an engine that drives the peer with it. -/
theorem deliveredOnce_iff (ι : Type*) :
    (∀ s is, Linux.adapter.DeliversOnce s is ↔
      ∀ e ∈ Linux.adapter.machine.trace s is, ∀ event, e.input = .captured event →
        e.pre.2.Forces event → ¬ e.pre.1.Drives event) ∧
    (∀ s is, Mac.adapter.DeliversOnce s is ↔
      ∀ e ∈ Mac.adapter.machine.trace s is, ∀ event, e.input = .captured event →
        e.pre.2.Forces event → ¬ e.pre.1.Drives event) ∧
    ∀ (s : Windows.Source ι) (is : List (Windows.Input ι)), s.DeliversOnce is ↔
      ∀ e ∈ (Windows.Source.machine ι).trace s is, ∀ report event,
        e.pre.Handles report event e.input →
        (∃ e' ∈ (Windows.Source.machine ι).trace s is, e'.pre.LetsThrough report e'.input) →
        ¬ e.pre.core.Drives event :=
  ⟨Linux.adapter.deliversOnce_iff, Mac.adapter.deliversOnce_iff,
    Windows.Source.deliversOnce_iff⟩

/-! ## The chord while the peer owns input -/

/-- A source with its peer on the right. -/
def chordSource : EngineCore := .newSource (.fill 1) (.fill 2) (.sideBySide 100 100 100 100)

/-- A move that crosses out. -/
def crossingMove : LocalInputEvent := .cursorMoved 0 98 50 5 0

def leftCtrlDown : LocalInputEvent := .key 0xE0 true leftCtrlBit

def rightCtrlDown : LocalInputEvent := .key 0xE4 true emergencyReclaimCtrlMask

/-- Crossing out, then both Ctrl keys. -/
def crossingThenChord : List AdapterInput :=
  [.captured crossingMove, .captured leftCtrlDown] ++ [.captured rightCtrlDown]

/-- The hook call of a Ctrl key that goes down. -/
def ctrlCall (right : Bool) : Windows.HookCall Windows.Kbdllhookstruct where
  code := 0
  wparam := 0x100
  info := some { scanCode := 0x1D, flags := if right then Windows.llkhfExtended else 0 }

/-- The passive poll crosses out, the hooks are installed, both Ctrl keys go down, and the worker
processes them. -/
def crossingThenHooks : List (Windows.Input ℕ) :=
  [.call (.runtime (.localInput crossingMove)), .prepare [], .keyboard 0 (ctrlCall false),
    .keyboard 1 (ctrlCall true), .take, .process none, .process none]

theorem Adapter.not_deliversOnce_of {ρ : Type*} (A : Adapter ρ) {s : EngineCore × ρ}
    {is : List AdapterInput} {event : LocalInputEvent}
    (hforces : A.Forces (A.machine.exec s is).2 event)
    (hdrives : (A.machine.exec s is).1.Drives event) :
    ¬ A.DeliversOnce s (is ++ [.captured event]) := by
  intro h
  rw [A.deliversOnce_iff, A.machine.trace_concat] at h
  exact h _ (List.mem_append_right _ (.head _)) event rfl hforces hdrives

/-- The key that completes the chord is typed on both machines. -/
theorem not_deliveredOnce_chord :
    ¬ Linux.adapter.DeliversOnce (chordSource, .new) crossingThenChord ∧
      ¬ Mac.adapter.DeliversOnce (chordSource, .new) crossingThenChord ∧
      ¬ (⟨.initial, chordSource⟩ : Windows.Source ℕ).DeliversOnce crossingThenHooks := by
  refine ⟨?_, ?_, ?_⟩
  · exact Linux.adapter.not_deliversOnce_of (.inr (by decide)) ⟨rfl, by decide, id⟩
  · exact Mac.adapter.not_deliversOnce_of (.inr (by decide)) ⟨rfl, by decide, id⟩
  · intro h
    refine h 1 ⟨⟨_, (Machine.mem_trace_iff _).2
      ⟨crossingThenHooks.take 3, _, crossingThenHooks.drop 4, rfl, rfl⟩, ?_⟩,
      ⟨_, (Machine.mem_trace_iff _).2
        ⟨crossingThenHooks.take 6, _, crossingThenHooks.drop 7, rfl, rfl⟩, ?_⟩⟩
    · decide
    · decide

end Mouser
