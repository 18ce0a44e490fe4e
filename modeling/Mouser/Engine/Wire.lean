import Mouser.Engine.Core
import Mouser.Lib.Machine

/-!
# What the engine core does with the peer's frames and datagrams

`EngineCore.onControl` dispatches a control frame, `EngineCore.onMotion` takes a motion datagram,
and `EngineCore.onInjectionFailed` is the runtime's report that an injection did not go through.
A payload that does not decode is dropped. `Call` collects every call the runtime can make and
`EngineCore.machine` is the core as a machine over them.
-/

namespace Mouser

namespace EngineCore

/-- The answer to a transfer. -/
def ackFrame (ownerEpoch : UInt64) (accepted : Bool) (reason : Option String) : Action :=
  .sendControl (.ownershipAck (some { ownerEpoch, accepted, reason }))

/-- The accepted arm of `onTransfer`: the claim has been adopted as `ownership`. -/
def acceptTransfer (s : EngineCore) (ownership : Ownership) (owner : DeviceId) (epoch : UInt64) :
    EngineCore × List Action :=
  let s := { s with ownership, guard := .default, heldKeys := s.heldKeys.clear }
  let s := { s.resetOut with misses := 0, pendingAck := none }
  let s :=
    if owner = s.me then
      { s with
        inputAuth := s.inputAuth.authorizeEpoch epoch
        inputRate := .full
        crossOutArmed := if s.role = .source then false else s.crossOutArmed }
    else
      { s with
        inputAuth := s.inputAuth.revokeEpoch
        reclaimArmed := if s.role = .source then false else s.reclaimArmed }
  (s,
    [ackFrame epoch true none, .setCursorVisible (owner = s.me), .ownerChanged owner epoch] ++
      if s.role = .source then [.setCaptureMode s.captureMode] else [])

def onTransfer (s : EngineCore) (payload : Option OwnershipTransfer) :
    EngineCore × List Action :=
  match payload with
  | none => (s, [])
  | some t =>
    match toId t.recipient with
    | none => (s, [])
    | some owner =>
      if owner = s.me ∧ !s.inputAuth.canAcceptGrant then
        (s, [ackFrame t.ownerEpoch false (some "input not permitted")])
      else
        match s.ownership.observeWithReason owner t.ownerEpoch t.reason with
        | (ownership, .accepted owner epoch) => s.acceptTransfer ownership owner epoch
        | (ownership, .rejected _) =>
          ({ s with ownership }, [ackFrame t.ownerEpoch false (some "stale epoch")])

def onOwnershipAck (s : EngineCore) (payload : Option OwnershipAck) : EngineCore × List Action :=
  match payload with
  | none => (s, [])
  | some ack =>
    match s.pendingAck with
    | none => (s, [])
    | some pending =>
      if ack.ownerEpoch ≠ pending.epoch then (s, [])
      else
        let s := { s with pendingAck := none }
        if !ack.accepted then s.reclaimLocal
        else
          let (s, seq) := s.nextSeq
          (s, [.sendMotion
            { ownerEpoch := ack.ownerEpoch, seq, displayId := 0, x := s.peerX, y := s.peerY }])

/-- Is input of this epoch authorized right now? -/
def authorizeInject (s : EngineCore) (ownerEpoch : UInt64) : Bool :=
  s.isOwner && s.inputAuth.allowsEpoch ownerEpoch

def onKey (s : EngineCore) (payload : Option KeyEvent) : EngineCore × List Action :=
  match payload with
  | none => (s, [])
  | some k =>
    let (guard, fresh) := s.guard.acceptCtr k.ownerEpoch k.ctr s.epoch
    let s := { s with guard }
    if !fresh || !s.authorizeInject k.ownerEpoch then (s, [])
    else
      let (heldKeys, transition) := s.heldKeys.observe k.usage k.down
      let (inputRate, allowed) := s.inputRate.allowOne
      let s := { s with heldKeys, inputRate }
      -- only an auto-repeat is shed when the bucket is empty
      if transition = .repeat ∧ !allowed then (s, [])
      else (s, [.inject (.key k.usage k.down k.mods)])

def onButton (s : EngineCore) (payload : Option PointerButton) : EngineCore × List Action :=
  match payload with
  | none => (s, [])
  | some b =>
    let (guard, fresh) := s.guard.acceptCtr b.ownerEpoch b.ctr s.epoch
    let s := { s with guard }
    if !fresh || !s.authorizeInject b.ownerEpoch then (s, [])
    else
      ({ s with inputRate := s.inputRate.allowOne.1 }, [.inject (.button b.button b.down)])

def onScroll (s : EngineCore) (payload : Option Scroll) : EngineCore × List Action :=
  match payload with
  | none => (s, [])
  | some w =>
    let (guard, fresh) := s.guard.acceptCtr w.ownerEpoch w.ctr s.epoch
    let s := { s with guard }
    if !fresh || !s.authorizeInject w.ownerEpoch then (s, [])
    else
      let (inputRate, allowed) := s.inputRate.allowOne
      let s := { s with inputRate }
      if !allowed then (s, [])
      else
        let unit := match w.unit with
          | .detent120 => CoreScrollUnit.detent120
          | _ => CoreScrollUnit.logicalPixel
        (s, [.inject (.scroll w.dx w.dy unit)])

def onPing (s : EngineCore) (payload : Option Ping) : EngineCore × List Action :=
  let s := { s with misses := 0 }
  match payload with
  | none => (s, [])
  | some p => (s, [.sendControl (.pong (some ⟨p.id⟩))])

def onGoodbye (s : EngineCore) (_payload : Option Goodbye) : EngineCore × List Action :=
  if s.role = .source ∧ !s.isOwner then s.reclaimLocal else (s, [])

/-- Process a control frame from the peer. -/
def onControl (s : EngineCore) (frame : ControlFrame) : EngineCore × List Action :=
  match frame with
  | .ownershipTransfer payload => s.onTransfer payload
  | .ownershipAck payload => s.onOwnershipAck payload
  | .keyEvent payload => s.onKey payload
  | .pointerButton payload => s.onButton payload
  | .scroll payload => s.onScroll payload
  | .ping payload => s.onPing payload
  | .pong _ | .heartbeat _ => ({ s with misses := 0 }, [])
  | .goodbye payload => s.onGoodbye payload
  | .other _ => (s, [])

/-- Process a motion datagram from the peer. -/
def onMotion (s : EngineCore) (datagram : Datagram) : EngineCore × List Action :=
  match datagram with
  | .motion m =>
    let (guard, fresh) := s.guard.acceptSeq m.ownerEpoch m.seq s.epoch
    let s := { s with guard }
    if !fresh || !s.authorizeInject m.ownerEpoch then (s, [])
    else (s, [.inject (.moveCursor m.displayId m.x m.y)])
  | .motionRel _ | .unknown _ => (s, [])

/-- A platform injection failed after the core had authorized it. -/
def onInjectionFailed (s : EngineCore) : EngineCore × List Action :=
  let s := { s with
    inputAuth := (s.inputAuth.setInputAllowed false).revokeEpoch
    heldKeys := s.heldKeys.clear
    ownership := s.ownership.markInputBlocked }
  if !s.isOwner then (s, [])
  else
    match s.ownership.grantTo s.peer with
    | (_, none) => (s, [])
    | (ownership, some epoch) =>
      let s := { s.resetOut with
        ownership, guard := .default, heldKeys := s.heldKeys.clear }
      (s,
        [.sendControl (.ownershipTransfer (some
          { recipient := s.peer.bytes, ownerEpoch := epoch, layoutRev := 0, reason := .uiSelect })),
         .setCursorVisible false,
         .ownerChanged s.peer epoch])

end EngineCore

/-! ## Every call the runtime makes -/

/-- A call that is not a delivery from the peer. -/
inductive LocalCall where
  | localInput (event : LocalInputEvent)
  | tick
  | suppressUnavailable
  | injectionFailed
  | setPeerTrusted (trusted : Bool)
  | setInputAllowed (allowed : Bool)
deriving DecidableEq

/-- A call on the core. -/
inductive Call where
  | runtime (call : LocalCall)
  | control (frame : ControlFrame)
  | motion (datagram : Datagram)
deriving DecidableEq

namespace EngineCore

def callLocal (s : EngineCore) : LocalCall → EngineCore × List Action
  | .localInput event => s.onLocalInput event
  | .tick => s.onTick
  | .suppressUnavailable => s.onSuppressUnavailable
  | .injectionFailed => s.onInjectionFailed
  | .setPeerTrusted trusted => (s.setPeerTrusted trusted, [])
  | .setInputAllowed allowed => (s.setInputAllowed allowed, [])

def call (s : EngineCore) : Call → EngineCore × List Action
  | .runtime c => s.callLocal c
  | .control frame => s.onControl frame
  | .motion datagram => s.onMotion datagram

/-- The core as a machine: a run is any sequence of calls. -/
def machine : Machine EngineCore Call (List Action) := ⟨call⟩

end EngineCore

end Mouser
