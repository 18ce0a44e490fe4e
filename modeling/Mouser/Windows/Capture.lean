import Mouser.Capture.Chord
import Mouser.Windows.CaptureQueue
import Mouser.Windows.Hooks

/-!
# The Windows hooks and their worker

A hook queues what it captures and tells Windows at once whether the next hook gets the message. A
worker takes the queue and hands its events to the sink, whose answer is not looked at. So a hook
knows nothing of what the sink makes of an event: it lets through what it does not capture, and
everything once the chord has been seen (`keyboardHook_eq_callNext_iff`,
`mouseHook_eq_callNext_iff`).

Each queued event is marked with the device reports that it comes from, so that it can be told what
becomes of a report. The marks do not change what is queued (`map_fst_enqueue`).
-/

namespace Mouser

namespace Windows

/-! ## Displays -/

/-- A monitor in virtual-desktop pixels. -/
structure DisplayBounds where
  id : UInt32
  left : Int32
  top : Int32
  width : Int32
  height : Int32

namespace DisplayBounds

def containsVirtual (b : DisplayBounds) (x y : Int32) : Bool :=
  x ≥ b.left && x < b.left + b.width && y ≥ b.top && y < b.top + b.height

def virtualToLocal (b : DisplayBounds) (x y : Int32) : Int32 × Int32 := (x - b.left, y - b.top)

end DisplayBounds

def virtualPointToEvent (displays : List DisplayBounds) (x y dx dy : Int32) : LocalInputEvent :=
  match (displays.find? (·.containsVirtual x y)).or displays.head? with
  | some bounds =>
    let (lx, ly) := bounds.virtualToLocal x y
    .cursorMoved bounds.id lx ly dx dy
  | none => .cursorMoved 0 x y dx dy

/-! ## What the hooks and the worker share -/

/-- A queued event, marked with the device reports that it comes from. -/
abbrev Queued (ι : Type*) := QueuedCaptureEvent × List ι

/-- The statics of the capture, and what the worker has taken and not yet processed. -/
structure Capture (ι : Type*) where
  /-- Whether a sink is installed. -/
  sink : Bool
  displays : List DisplayBounds
  pending : List (Queued ι)
  captureMods : UInt16
  emergencyPassthrough : Bool
  rawInputActive : Bool
  rawDeviceAbsolute : Bool
  lastCapturePoint : Option (Int32 × Int32)
  taken : List (Queued ι)

namespace Capture

variable {ι : Type*}

def setRawInputActive (s : Capture ι) (active : Bool) : Capture ι :=
  { s with
    rawInputActive := active
    rawDeviceAbsolute := if active then s.rawDeviceAbsolute else false }

def clearCaptureState (s : Capture ι) : Capture ι :=
  { s.setRawInputActive false with
    captureMods := 0
    emergencyPassthrough := false
    pending := []
    lastCapturePoint := none
    sink := false
    displays := [] }

/-- Install a sink, unless one is installed. -/
def prepareCaptureState (s : Capture ι) (displays : List DisplayBounds) : Capture ι :=
  if s.sink then s
  else
    { s.setRawInputActive false with
      captureMods := 0
      emergencyPassthrough := false
      pending := []
      lastCapturePoint := none
      displays
      sink := true }

/-- The statics before anything is captured. -/
def initial : Capture ι where
  sink := false
  displays := []
  pending := []
  captureMods := 0
  emergencyPassthrough := false
  rawInputActive := false
  rawDeviceAbsolute := false
  lastCapturePoint := none
  taken := []

/-! ## The hooks -/

/-- Queue an event that comes from a report. -/
def enqueue (s : Capture ι) (report : ι) (event : QueuedCaptureEvent) : Capture ι :=
  { s with pending := ((captureQueue.marked ι).enqueue s.pending (event, [report])).1 }

/-- The queue is the one of the code. -/
theorem map_fst_enqueue (s : Capture ι) (report : ι) (event : QueuedCaptureEvent) :
    (s.enqueue report event).pending.map Prod.fst =
      (enqueueQueuedCaptureEvent (s.pending.map Prod.fst) event).1 := by
  rw [enqueueQueuedCaptureEvent_eq]
  exact captureQueue.map_fst_enqueue_marked s.pending (event, [report])

end Capture

/-- Whether the next hook gets the message. -/
inductive HookResult where
  | callNext
  /-- `LRESULT(1)` -/
  | swallow
deriving DecidableEq

def HookResult.ofPassThrough (passThrough : Bool) : HookResult :=
  if passThrough then .callNext else .swallow

/-- A call of a hook; `info` is what `lparam` points to, if it is not null. -/
structure HookCall (H : Type) where
  code : Int32
  wparam : UInt64
  info : Option H

structure Kbdllhookstruct where
  scanCode : UInt32
  flags : UInt32

structure Msllhookstruct where
  x : Int32
  y : Int32
  mouseData : UInt32
  flags : UInt32

def hookMessage (wparam : UInt64) : Option UInt32 :=
  if wparam.toNat < UInt32.size then some wparam.toUInt32 else none

/-- The message and the data of a call, after the checks that both hooks begin with. -/
def HookCall.parts {H : Type} (call : HookCall H) : Option (UInt32 × H) :=
  if call.code < 0 then none
  else
    match hookMessage call.wparam, call.info with
    | some message, some hook => some (message, hook)
    | _, _ => none

def isKeyMessage (message : UInt32) : Bool :=
  message = wmKeydown || message = wmKeyup || message = wmSyskeydown || message = wmSyskeyup

namespace Capture

variable {ι : Type*}

/-- The flag after a key event. -/
def observeEmergencyReclaim (s : Capture ι) (event : LocalInputEvent) : Capture ι × Bool :=
  let s := if isEmergencyReclaimEvent event then { s with emergencyPassthrough := true } else s
  (s, s.emergencyPassthrough)

def keyboardHook (s : Capture ι) (report : ι) (call : HookCall Kbdllhookstruct) :
    Capture ι × HookResult :=
  match call.parts with
  | none => (s, .callNext)
  | some (message, hook) =>
    if hook.flags &&& llkhfInjected ≠ 0 then (s, .callNext)
    else if !isKeyMessage message then (s, .callNext)
    else
      match keyboardEventFromParts s.captureMods message hook.scanCode hook.flags with
      | (captureMods, some event) =>
        let s := ({ s with captureMods }).enqueue report (.event event)
        let (s, passThrough) := s.observeEmergencyReclaim event
        (s, .ofPassThrough passThrough)
      | (captureMods, none) =>
        ({ s with captureMods }, .ofPassThrough s.emergencyPassthrough)

def mouseHook (s : Capture ι) (report : ι) (call : HookCall Msllhookstruct) :
    Capture ι × HookResult :=
  match call.parts with
  | none => (s, .callNext)
  | some (message, hook) =>
    if hook.flags &&& llmhfInjected ≠ 0 then (s, .callNext)
    else if message = wmMousemove then
      let s :=
        if !s.rawInputActive || s.rawDeviceAbsolute then
          s.enqueue report (.cursorPoint hook.x hook.y)
        else s
      (s, .ofPassThrough s.emergencyPassthrough)
    else
      match mouseEventFromParts message hook.mouseData hook.flags with
      | some event =>
        (s.enqueue report (.event event), .ofPassThrough s.emergencyPassthrough)
      | none => (s, .callNext)

/-- `MOUSE_MOVE_ABSOLUTE` -/
def mouseMoveAbsolute : UInt16 := 0x0001

/-- `read_raw_mouse`: the movement that a mouse reports to the raw-input window. -/
def readRawMouse (s : Capture ι) (report : ι) (flags : UInt16) (lastX lastY : Int32) :
    Capture ι :=
  if flags &&& mouseMoveAbsolute ≠ 0 then { s with rawDeviceAbsolute := true }
  else
    let s := { s with rawDeviceAbsolute := false }
    if lastX ≠ 0 ∨ lastY ≠ 0 then s.enqueue report (.rawMouseDelta lastX lastY) else s

/-! ## The worker -/

/-- The worker takes all that is queued, once it has processed what it took before. -/
def waitForCaptureEvents (s : Capture ι) : Capture ι :=
  match s.taken with
  | [] => { s with pending := [], taken := s.pending }
  | _ :: _ => s

/-- The movement from the last point to this one. -/
def cursorEventForVirtualPoint (s : Capture ι) (x y : Int32) : LocalInputEvent :=
  let (dx, dy) :=
    match s.lastCapturePoint with
    | some (px, py) => (x - px, y - py)
    | none => (0, 0)
  virtualPointToEvent s.displays x y dx dy

/-- A device's own movement, at the position of the cursor if Windows tells it. -/
def rawDeltaEvent (s : Capture ι) (cursor : Option (Int32 × Int32)) (dx dy : Int32) :
    LocalInputEvent :=
  let (x, y) := cursor.getD (0, 0)
  virtualPointToEvent s.displays x y dx dy

/-- What a queued event becomes when it is processed. -/
def resolve (s : Capture ι) (cursor : Option (Int32 × Int32)) :
    QueuedCaptureEvent → LocalInputEvent
  | .event event => event
  | .cursorPoint x y => s.cursorEventForVirtualPoint x y
  | .rawMouseDelta dx dy => s.rawDeltaEvent cursor dx dy

/-- The worker processes the next event it has taken. The second part is what the sink gets, if one
is installed, with the reports it comes from. -/
def processQueuedCaptureEvent (s : Capture ι) (cursor : Option (Int32 × Int32)) :
    Capture ι × Option (LocalInputEvent × List ι) :=
  match s.taken with
  | [] => (s, none)
  | (event, reports) :: taken =>
    let resolved := s.resolve cursor event
    let lastCapturePoint :=
      match event with
      | .cursorPoint x y => some (x, y)
      | _ => s.lastCapturePoint
    ({ s with taken, lastCapturePoint }, if s.sink then some (resolved, reports) else none)

/-! ## What the hooks let through -/

@[simp] theorem enqueue_emergencyPassthrough (s : Capture ι) (report : ι)
    (event : QueuedCaptureEvent) :
    (s.enqueue report event).emergencyPassthrough = s.emergencyPassthrough := rfl

theorem ofPassThrough_eq_callNext_iff {passThrough : Bool} :
    HookResult.ofPassThrough passThrough = .callNext ↔ passThrough = true := by
  cases passThrough <;> simp [HookResult.ofPassThrough]

@[simp] theorem observeEmergencyReclaim_snd (s : Capture ι) (event : LocalInputEvent) :
    (s.observeEmergencyReclaim event).2 =
      (s.emergencyPassthrough || isEmergencyReclaimEvent event) := by
  unfold observeEmergencyReclaim
  cases isEmergencyReclaimEvent event <;> simp

/-- The call is not one to capture, the chord has been seen, or this key completes it. -/
def KeyboardPasses (s : Capture ι) (call : HookCall Kbdllhookstruct) : Prop :=
  match call.parts with
  | none => True
  | some (message, hook) =>
    hook.flags &&& llkhfInjected ≠ 0 ∨ isKeyMessage message = false ∨
      s.emergencyPassthrough = true ∨
      ∃ event, (keyboardEventFromParts s.captureMods message hook.scanCode hook.flags).2 =
        some event ∧ isEmergencyReclaimEvent event = true

/-- The call is not one to capture, or the chord has been seen. -/
def MousePasses (s : Capture ι) (call : HookCall Msllhookstruct) : Prop :=
  match call.parts with
  | none => True
  | some (message, hook) =>
    hook.flags &&& llmhfInjected ≠ 0 ∨ s.emergencyPassthrough = true ∨
      message ≠ wmMousemove ∧ mouseEventFromParts message hook.mouseData hook.flags = none

/-- **What the keyboard hook lets through.** -/
theorem keyboardHook_eq_callNext_iff (s : Capture ι) (report : ι)
    (call : HookCall Kbdllhookstruct) :
    (s.keyboardHook report call).2 = .callNext ↔ s.KeyboardPasses call := by
  unfold keyboardHook KeyboardPasses
  cases call.parts with
  | none => simp
  | some parts =>
    obtain ⟨message, hook⟩ := parts
    dsimp only
    split
    · next hinjected => simp [hinjected]
    · next hinjected =>
      split
      · next hkey => simp_all
      · next hkey =>
        generalize keyboardEventFromParts s.captureMods message hook.scanCode hook.flags = parts
        obtain ⟨captureMods, event⟩ := parts
        cases event with
        | none => simp_all [ofPassThrough_eq_callNext_iff]
        | some event => simp_all [ofPassThrough_eq_callNext_iff]

/-- **What the mouse hook lets through.** -/
theorem mouseHook_eq_callNext_iff (s : Capture ι) (report : ι)
    (call : HookCall Msllhookstruct) :
    (s.mouseHook report call).2 = .callNext ↔ s.MousePasses call := by
  unfold mouseHook MousePasses
  cases call.parts with
  | none => simp
  | some parts =>
    obtain ⟨message, hook⟩ := parts
    dsimp only
    split
    · next hinjected => simp [hinjected]
    · next hinjected =>
      split
      · next hmove =>
        split <;> simp_all [ofPassThrough_eq_callNext_iff]
      · next hmove =>
        cases mouseEventFromParts message hook.mouseData hook.flags with
        | none => simp_all
        | some event => simp_all [ofPassThrough_eq_callNext_iff]

end Capture

end Windows

end Mouser
