import Mathlib.Data.List.Basic
import Mouser.Capture.Chord
import Mouser.Lib.Machine

/-!
# Linux input capture

The reader thread polls every device, hands each event to the sink, and grabs or ungrabs the devices
at the end of a poll. Both Ctrl keys force pass-through from the chord on until neither is held.

The decision of a poll starts at pass-through, so that a poll without a suppressed event ungrabs the
devices, whatever the sink answered before: the devices stay grabbed exactly while every poll brings
an event that is suppressed (`staysGrabbed_iff`).
-/

namespace Mouser

namespace Linux

/-! ## The chord -/

/-- The modifiers that the capture has seen held, and whether the chord forces pass-through. -/
structure EmergencyReclaim where
  heldMods : UInt16
  active : Bool
deriving DecidableEq

namespace EmergencyReclaim

def new : EmergencyReclaim := ⟨0, false⟩

/-- The mask and the flag after a key event. -/
def updateKey (r : EmergencyReclaim) (usage : UInt16) (down : Bool) : EmergencyReclaim :=
  let heldMods := updateModifier r.heldMods usage down
  { heldMods, active := r.active || emergencyReclaimChordFromMods heldMods }

/-- The event as the sink gets it, and whether the chord forces pass-through. -/
def observe (r : EmergencyReclaim) (event : LocalInputEvent) :
    EmergencyReclaim × LocalInputEvent × Bool :=
  let wasActive := r.active
  let (r, event) :=
    match event with
    | .key usage down _ =>
      let r := r.updateKey usage down
      (r, LocalInputEvent.key usage down r.heldMods)
    | other => (r, other)
  let forcePass := wasActive || r.active
  let r :=
    if r.active ∧ r.heldMods &&& emergencyReclaimCtrlMask = 0 then { r with active := false } else r
  (r, event, forcePass)

end EmergencyReclaim

/-- The sink and the chord state of the reader thread. -/
structure Reader (σ : Type*) where
  sink : σ
  reclaim : EmergencyReclaim

section
variable {σ : Type*} (onEvent : σ → LocalInputEvent → σ × CaptureDecision)

/-- Hand an event to the sink; the chord overrides its answer. -/
def decisionFor (r : Reader σ) (event : LocalInputEvent) : Reader σ × CaptureDecision :=
  let (reclaim, event, forcePass) := r.reclaim.observe event
  let (sink, decision) := onEvent r.sink event
  ({ sink, reclaim }, if forcePass then .passThrough else decision)

/-! ## The reader loop -/

/-- One opened device. -/
structure CaptureDevice where
  path : String
  grabbed : Bool
deriving DecidableEq

/-- Grab or ungrab the devices that are not yet as the decision wants them. `grab` tells whether the
device at a path can be grabbed, or ungrabbed. -/
def applyDecision (grab : String → Bool → Bool) (devices : List CaptureDevice)
    (decision : CaptureDecision) : List CaptureDevice :=
  let wantGrab := decision = .suppress
  devices.map fun dev =>
    if dev.grabbed ≠ wantGrab then
      if grab dev.path wantGrab then { dev with grabbed := wantGrab } else dev
    else dev

/-- The loop of `drain_device`, from what it has accumulated. Each event read is given as what it
translates to, if anything. -/
def drainLoop (r : Reader σ) (decision : CaptureDecision) (readAny : Bool) :
    List (Option LocalInputEvent) → Reader σ × CaptureDecision × Bool
  | [] => (r, decision, readAny)
  | none :: batch => drainLoop r decision true batch
  | some event :: batch =>
    let (r, eventDecision) := decisionFor onEvent r event
    drainLoop r (if eventDecision = .suppress then .suppress else decision) true batch

/-- Feed a device's batch of pending events to the sink; `Suppress` wins. -/
def drainDevice (r : Reader σ) (batch : List (Option LocalInputEvent)) :
    Reader σ × CaptureDecision × Bool :=
  drainLoop onEvent r .passThrough false batch

/-- The loop over the devices, from what it has accumulated. -/
def pollLoop (r : Reader σ) (frame : CaptureDecision) (any : Bool) :
    List (List (Option LocalInputEvent)) → Reader σ × CaptureDecision × Bool
  | [] => (r, frame, any)
  | batch :: batches =>
    let (r, decision, readAny) := drainDevice onEvent r batch
    pollLoop r (if decision = .suppress then .suppress else frame) (any || readAny) batches

/-- The reader thread: its devices and what it hands from poll to poll. -/
structure ReaderThread (σ : Type*) where
  devices : List CaptureDevice
  reader : Reader σ

/-- One poll, over one batch for each device. -/
def poll (grab : String → Bool → Bool) (t : ReaderThread σ)
    (batches : List (List (Option LocalInputEvent))) : ReaderThread σ :=
  let batches := batches.take t.devices.length
  let (reader, frame, _) := pollLoop onEvent t.reader .passThrough false batches
  { devices := applyDecision grab t.devices frame, reader }

/-! ## What the sink answers -/

/-- What the sink answered to an event, and what the chord made of it. -/
structure Reply where
  answer : CaptureDecision
  decision : CaptureDecision
deriving DecidableEq

/-- The reply to one event. -/
def reply (r : Reader σ) (event : LocalInputEvent) : Reply where
  answer := (onEvent r.sink (r.reclaim.observe event).2.1).2
  decision := (decisionFor onEvent r event).2

/-- The replies to events one after the other. -/
def replies (r : Reader σ) : List LocalInputEvent → List Reply
  | [] => []
  | event :: events => reply onEvent r event :: replies (decisionFor onEvent r event).1 events

/-- The sink and the chord state after events. -/
def readerAfter (r : Reader σ) : List LocalInputEvent → Reader σ
  | [] => r
  | event :: events => readerAfter (decisionFor onEvent r event).1 events

/-- Whether some event was suppressed. -/
def suppresses (rs : List Reply) : Bool := rs.any (·.decision = .suppress)

theorem suppresses_eq_true {rs : List Reply} :
    suppresses rs = true ↔ ∃ reply ∈ rs, reply.decision = .suppress := by
  simp [suppresses]

theorem suppresses_cons (r : Reply) (rs : List Reply) :
    suppresses (r :: rs) = (decide (r.decision = .suppress) || suppresses rs) :=
  List.any_cons

theorem suppresses_append (rs rs' : List Reply) :
    suppresses (rs ++ rs') = (suppresses rs || suppresses rs') :=
  List.any_append

theorem replies_append (r : Reader σ) (events later : List LocalInputEvent) :
    replies onEvent r (events ++ later) =
      replies onEvent r events ++ replies onEvent (readerAfter onEvent r events) later := by
  induction events generalizing r with
  | nil => rfl
  | cons event events ih =>
    rw [List.cons_append, replies, ih]
    rfl

theorem readerAfter_append (r : Reader σ) (events later : List LocalInputEvent) :
    readerAfter onEvent r (events ++ later) =
      readerAfter onEvent (readerAfter onEvent r events) later := by
  induction events generalizing r with
  | nil => rfl
  | cons event events ih => exact ih _

/-! ## What a poll does -/

theorem drainLoop_eq (r : Reader σ) (decision : CaptureDecision) (readAny : Bool)
    (batch : List (Option LocalInputEvent)) :
    (drainLoop onEvent r decision readAny batch).1 = readerAfter onEvent r (batch.filterMap id) ∧
      (drainLoop onEvent r decision readAny batch).2.1 =
        if suppresses (replies onEvent r (batch.filterMap id)) then .suppress else decision := by
  induction batch generalizing r decision readAny with
  | nil => exact ⟨rfl, rfl⟩
  | cons read batch ih =>
    cases read with
    | none => exact ih r decision true
    | some event =>
      obtain ⟨hreader, hdecision⟩ := ih (decisionFor onEvent r event).1
        (if (decisionFor onEvent r event).2 = .suppress then .suppress else decision) true
      refine ⟨hreader, ?_⟩
      rw [drainLoop, hdecision]
      simp only [List.filterMap_cons, id, replies, suppresses_cons, reply]
      by_cases hnow : (decisionFor onEvent r event).2 = .suppress
      · simp [hnow]
      · simp [hnow]

theorem pollLoop_eq (r : Reader σ) (frame : CaptureDecision) (any : Bool)
    (batches : List (List (Option LocalInputEvent))) :
    (pollLoop onEvent r frame any batches).1 =
        readerAfter onEvent r (batches.flatten.filterMap id) ∧
      (pollLoop onEvent r frame any batches).2.1 =
        if suppresses (replies onEvent r (batches.flatten.filterMap id)) then .suppress
        else frame := by
  induction batches generalizing r frame any with
  | nil => exact ⟨rfl, rfl⟩
  | cons batch batches ih =>
    obtain ⟨hdrained, hdecision⟩ := drainLoop_eq onEvent r .passThrough false batch
    rw [List.flatten_cons, List.filterMap_append, readerAfter_append, replies_append,
      suppresses_append, pollLoop, drainDevice, ← hdrained]
    obtain ⟨hreader, hframe⟩ := ih (drainLoop onEvent r .passThrough false batch).1
      (if (drainLoop onEvent r .passThrough false batch).2.1 = .suppress then .suppress else frame)
      (any || (drainLoop onEvent r .passThrough false batch).2.2)
    refine ⟨hreader, hframe.trans ?_⟩
    rw [hdecision]
    cases suppresses (replies onEvent r (batch.filterMap id)) <;> simp

/-- The events of one poll, in the order in which the sink gets them. -/
def ReaderThread.events (t : ReaderThread σ) (batches : List (List (Option LocalInputEvent))) :
    List LocalInputEvent :=
  (batches.take t.devices.length).flatten.filterMap id

theorem poll_devices (grab : String → Bool → Bool) (t : ReaderThread σ)
    (batches : List (List (Option LocalInputEvent))) :
    (poll onEvent grab t batches).devices = applyDecision grab t.devices
      (if suppresses (replies onEvent t.reader (t.events batches)) then .suppress
        else .passThrough) :=
  congrArg (applyDecision grab t.devices) (pollLoop_eq onEvent t.reader .passThrough false _).2

/-- Where `EVIOCGRAB` succeeds, every device is as the decision wants it. -/
theorem grabbed_of_mem_applyDecision {grab : String → Bool → Bool}
    (hgrab : ∀ path want, grab path want = true) {devices : List CaptureDevice}
    {decision : CaptureDecision} {dev : CaptureDevice}
    (hdev : dev ∈ applyDecision grab devices decision) :
    dev.grabbed = true ↔ decision = .suppress := by
  obtain ⟨dev, -, rfl⟩ := List.mem_map.1 hdev
  simp only [hgrab, if_true]
  split
  · simp
  · next h => simpa using h

@[simp] theorem length_applyDecision (grab : String → Bool → Bool) (devices : List CaptureDevice)
    (decision : CaptureDecision) :
    (applyDecision grab devices decision).length = devices.length :=
  List.length_map _

/-! ## Runs -/

/-- The reader thread over its polls. The output of a poll is what the sink answered in it. -/
def readerMachine (grab : String → Bool → Bool) :
    Machine (ReaderThread σ) (List (List (Option LocalInputEvent))) (List Reply) where
  step t batches :=
    (poll onEvent grab t batches, replies onEvent t.reader (t.events batches))

/-- The most recent decision that the sink returned. -/
def lastAnswer (tr : List (Machine.Entry (ReaderThread σ)
    (List (List (Option LocalInputEvent))) (List Reply))) : Option CaptureDecision :=
  (tr.flatMap (·.output)).getLast?.map Reply.answer

/-- After every poll, if the most recent decision of the sink is to suppress, then all devices are
grabbed. -/
def StaysGrabbed (grab : String → Bool → Bool) (t : ReaderThread σ)
    (polls : List (List (List (Option LocalInputEvent)))) : Prop :=
  ∀ js, js <+: polls → lastAnswer ((readerMachine onEvent grab).trace t js) = some .suppress →
    ∀ dev ∈ ((readerMachine onEvent grab).exec t js).devices, dev.grabbed = true

theorem readerMachine_devices (grab : String → Bool → Bool) (t : ReaderThread σ)
    (polls : List (List (List (Option LocalInputEvent)))) :
    ((readerMachine onEvent grab).exec t polls).devices.length = t.devices.length := by
  refine (readerMachine onEvent grab).inv_exec
    (I := fun s => s.devices.length = t.devices.length) rfl (fun s batches h => ?_) polls
  have hstep : ((readerMachine onEvent grab).step s batches).1.devices =
      (poll onEvent grab s batches).devices := rfl
  rw [hstep, poll_devices, length_applyDecision, h]

/-- Without devices nothing is read, and the sink is never asked. -/
theorem ne_nil_of_lastAnswer {grab : String → Bool → Bool} {t : ReaderThread σ}
    {polls : List (List (List (Option LocalInputEvent)))} {decision : CaptureDecision}
    (h : lastAnswer ((readerMachine onEvent grab).trace t polls) = some decision) :
    t.devices ≠ [] := by
  intro hnil
  have hsilent : ((readerMachine onEvent grab).trace t polls).flatMap (·.output) = [] := by
    rw [List.flatMap_eq_nil_iff]
    intro e he
    obtain ⟨js, batches, ks, -, rfl⟩ := (readerMachine onEvent grab).mem_trace_iff.1 he
    have hdevices := readerMachine_devices onEvent grab t js
    rw [hnil, List.length_nil, List.length_eq_zero_iff] at hdevices
    have hevents : ((readerMachine onEvent grab).exec t js).events batches = [] := by
      rw [ReaderThread.events, hdevices]
      rfl
    rw [Machine.entry_output]
    exact congrArg (replies onEvent _) hevents
  rw [lastAnswer, hsilent] at h
  cases h

/-- **The devices stay grabbed exactly while every poll suppresses an event**: in every run over any
devices, with `EVIOCGRAB` succeeding, the promise holds if and only if each poll at whose end the
sink's most recent decision is to suppress has read an event that was suppressed, which the sink
answered so while the chord did not force pass-through. -/
theorem staysGrabbed_iff (grab : String → Bool → Bool) (hgrab : ∀ path want, grab path want = true)
    (t : ReaderThread σ) (polls : List (List (List (Option LocalInputEvent)))) :
    StaysGrabbed onEvent grab t polls ↔
      ∀ js batches, js ++ [batches] <+: polls →
        lastAnswer ((readerMachine onEvent grab).trace t (js ++ [batches])) = some .suppress →
        ∃ reply ∈ replies onEvent ((readerMachine onEvent grab).exec t js).reader
          (((readerMachine onEvent grab).exec t js).events batches),
          reply.decision = .suppress := by
  have hafter (js batches) : ((readerMachine onEvent grab).exec t (js ++ [batches])).devices =
      (poll onEvent grab ((readerMachine onEvent grab).exec t js) batches).devices := by
    rw [Machine.exec_concat]
    rfl
  refine ⟨?_, ?_⟩
  · intro hstays js batches hprefix hlast
    have hne : ((readerMachine onEvent grab).exec t (js ++ [batches])).devices ≠ [] := by
      intro hnil
      have hdevices := readerMachine_devices onEvent grab t (js ++ [batches])
      rw [hnil, List.length_nil] at hdevices
      exact ne_nil_of_lastAnswer onEvent hlast (List.length_eq_zero_iff.1 hdevices.symm)
    obtain ⟨dev, hdev⟩ := List.exists_mem_of_ne_nil _ hne
    have hgrabbed := hstays _ hprefix hlast dev hdev
    rw [hafter, poll_devices] at hdev
    rw [grabbed_of_mem_applyDecision hgrab hdev] at hgrabbed
    split at hgrabbed
    · next hsuppresses => exact suppresses_eq_true.1 hsuppresses
    · cases hgrabbed
  · intro hsuppressed js hprefix hlast dev hdev
    rcases List.eq_nil_or_concat js with rfl | ⟨js, batches, rfl⟩
    · cases hlast
    · rw [List.concat_eq_append] at hprefix hlast hdev
      rw [hafter, poll_devices,
        if_pos (suppresses_eq_true.2 (hsuppressed js batches hprefix hlast))] at hdev
      exact (grabbed_of_mem_applyDecision hgrab hdev).2 rfl

end

/-! ## A pause in the input -/

/-- A sink that always suppresses, as the engine does while it forwards. -/
def forwarding : Unit → LocalInputEvent → Unit × CaptureDecision := fun _ _ => ((), .suppress)

/-- One device, not grabbed. -/
def oneDevice : ReaderThread Unit where
  devices := [⟨"/dev/input/event0", false⟩]
  reader := ⟨(), .new⟩

theorem staysGrabbed_iff_oneDevice :
    StaysGrabbed forwarding (fun _ _ => true) oneDevice [[[some (.scroll 0 1)]], [[]]] ↔
      ∀ js batches, js ++ [batches] <+: [[[some (.scroll 0 1)]], [[]]] →
        lastAnswer ((readerMachine forwarding fun _ _ => true).trace oneDevice (js ++ [batches])) =
          some .suppress →
        ∃ reply ∈ replies forwarding
            ((readerMachine forwarding fun _ _ => true).exec oneDevice js).reader
            (((readerMachine forwarding fun _ _ => true).exec oneDevice js).events batches),
          reply.decision = .suppress :=
  staysGrabbed_iff forwarding (fun _ _ => true) (fun _ _ => rfl) oneDevice
    [[[some (.scroll 0 1)]], [[]]]

/-- A poll that reads nothing ungrabs the device. -/
theorem not_staysGrabbed_pause :
    ¬ StaysGrabbed forwarding (fun _ _ => true) oneDevice [[[some (.scroll 0 1)]], [[]]] := by
  intro h
  have hdev : (⟨"/dev/input/event0", false⟩ : CaptureDevice) ∈
      ((readerMachine forwarding fun _ _ => true).exec oneDevice
        [[[some (.scroll 0 1)]], [[]]]).devices := by
    decide
  cases h [[[some (.scroll 0 1)]], [[]]] (List.prefix_refl _) (by decide) _ hdev

end Linux

end Mouser
