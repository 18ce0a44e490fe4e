import Mouser.Engine.Types

/-!
# The engine core

The state machine of one side of a connection. It reads no clock and sends nothing: each call
returns the new state and the actions the runtime has to carry out. Plain `i32` addition and
negation are the wrapping operations of `Int32`; the `i64` arithmetic of `mapAxisFraction` cannot
overflow and is done in `Int`.
-/

namespace Mouser

/-- Heartbeat misses before the source declares the peer gone and reclaims. -/
def heartbeatMissLimit : UInt32 := 3

/-- Distance from the source edge before a reclaimed cursor may cross out again. -/
def edgeRearmMargin : Int32 := 8

/-- Smallest home-ward travel that forces an emergency reclaim. -/
def escapeMinTravel : Int32 := 64

/-- The state machine. -/
structure EngineCore where
  role : Role
  peer : DeviceId
  ownership : Ownership
  layout : EdgeLayout
  outCtr : UInt64
  outSeq : UInt32
  guard : ReplayGuard
  heldKeys : HeldKeys
  inputAuth : InputAuth
  inputRate : InputRate
  pendingAck : Option PendingAck
  peerX : Int32
  peerY : Int32
  reclaimArmed : Bool
  crossOutArmed : Bool
  misses : UInt32
  hbSeq : UInt64
  suppressBlocked : Bool
  escapeTravel : Int32

def clamp (v lo hi : Int32) : Int32 := min (max v lo) (max hi lo)

theorem toInt_clamp (v lo hi : Int32) :
    (clamp v lo hi).toInt = min (max v.toInt lo.toInt) (max hi.toInt lo.toInt) := by
  rw [clamp, Int32.toInt_min, Int32.toInt_max, Int32.toInt_max]

/-- Map a position on an axis of length `srcLen` to one of length `dstLen`, keeping the fraction. -/
def mapAxisFraction (pos srcLen dstLen : Int32) : Int32 :=
  let srcMax := max (srcLen.saturatingSub 1) 1
  let dstMax := max (dstLen.saturatingSub 1) 0
  let p := (pos.clampBetween 0 srcMax).toInt
  Int32.ofInt ((p * dstMax.toInt + srcMax.toInt.tdiv 2).tdiv srcMax.toInt)

namespace EngineCore

def new (role : Role) (me peer : DeviceId) (layout : EdgeLayout) : EngineCore :=
  { role
    peer
    ownership := .new me
    layout
    outCtr := 0
    outSeq := 0
    guard := .default
    heldKeys := .default
    inputAuth := .newTrusted
    inputRate := .full
    pendingAck := none
    peerX := 0
    peerY := 0
    reclaimArmed := true
    crossOutArmed := true
    misses := 0
    hbSeq := 0
    suppressBlocked := false
    escapeTravel := 0 }

def newSource (me peer : DeviceId) (layout : EdgeLayout) : EngineCore := new .source me peer layout

def newTarget (me peer : DeviceId) : EngineCore := new .target me peer (.sideBySide 0 0 0 0)

def me (s : EngineCore) : DeviceId := s.ownership.me

def owner (s : EngineCore) : DeviceId := s.ownership.owner

def epoch (s : EngineCore) : UInt64 := s.ownership.epoch

def isOwner (s : EngineCore) : Bool := s.ownership.isOwner

def setPeerTrusted (s : EngineCore) (trusted : Bool) : EngineCore :=
  { s with inputAuth := s.inputAuth.setPeerTrusted trusted }

def setInputAllowed (s : EngineCore) (allowed : Bool) : EngineCore :=
  { s with inputAuth := s.inputAuth.setInputAllowed allowed }

/-- The capture mode this node should be in right now. -/
def captureMode (s : EngineCore) : CaptureMode :=
  match s.role with
  | .target => .off
  | .source => if s.isOwner then .passiveEdge else .activeForward

/-- The actions applied once when the session starts. -/
def initialActions (s : EngineCore) : List Action :=
  [.setCursorVisible s.isOwner, .setCaptureMode s.captureMode]

def resetOut (s : EngineCore) : EngineCore := { s with outCtr := 0, outSeq := 0 }

def nextCtr (s : EngineCore) : EngineCore × UInt64 :=
  let ctr := s.outCtr.saturatingAdd 1
  ({ s with outCtr := ctr }, ctr)

def nextSeq (s : EngineCore) : EngineCore × UInt32 :=
  let seq := s.outSeq.saturatingAdd 1
  ({ s with outSeq := seq }, seq)

/-! ## Geometry -/

/-- Does the motion at `(x, y)` with delta `(dx, dy)` cross the edge the peer sits on? -/
def crossesOut (s : EngineCore) (x y dx dy : Int32) : Bool :=
  let maxX := max (s.layout.width.saturatingSub 1) 0
  let maxY := max (s.layout.height.saturatingSub 1) 0
  match s.layout.edge with
  | .right => x ≥ maxX.saturatingSub edgeRearmMargin && x.saturatingAdd dx ≥ maxX
  | .left => x ≤ edgeRearmMargin && x.saturatingAdd dx ≤ 0
  | .bottom => y ≥ maxY.saturatingSub edgeRearmMargin && y.saturatingAdd dy ≥ maxY
  | .top => y ≤ edgeRearmMargin && y.saturatingAdd dy ≤ 0

def localLeftCrossEdge (s : EngineCore) (x y : Int32) : Bool :=
  let maxX := max (s.layout.width.saturatingSub 1) 0
  let maxY := max (s.layout.height.saturatingSub 1) 0
  match s.layout.edge with
  | .right => x < maxX.saturatingSub edgeRearmMargin
  | .left => x > edgeRearmMargin
  | .bottom => y < maxY.saturatingSub edgeRearmMargin
  | .top => y > edgeRearmMargin

def localEscapeBack (s : EngineCore) (x y dx dy : Int32) : Bool :=
  let maxX := max (s.layout.width.saturatingSub 1) 0
  let maxY := max (s.layout.height.saturatingSub 1) 0
  match s.layout.edge with
  | .right => x ≤ edgeRearmMargin && dx < 0
  | .left => x ≥ maxX.saturatingSub edgeRearmMargin && dx > 0
  | .bottom => y ≤ edgeRearmMargin && dy < 0
  | .top => y ≥ maxY.saturatingSub edgeRearmMargin && dy > 0

/-- Warp the local cursor to the shared edge, at the fraction the peer cursor held. -/
def entryEdgeWarp (s : EngineCore) : Action :=
  let maxX := max (s.layout.width.saturatingSub 1) 0
  let maxY := max (s.layout.height.saturatingSub 1) 0
  let localY := mapAxisFraction s.peerY s.layout.peerHeight s.layout.height
  let localX := mapAxisFraction s.peerX s.layout.peerWidth s.layout.width
  match s.layout.edge with
  | .left => .inject (.warpCursor 0 0 localY)
  | .right => .inject (.warpCursor 0 maxX localY)
  | .top => .inject (.warpCursor 0 localX 0)
  | .bottom => .inject (.warpCursor 0 localX maxY)

/-- The component of the device delta that points back to this machine's screen. -/
def homewardDelta (s : EngineCore) (dx dy : Int32) : Int32 :=
  match s.layout.edge with
  | .left => dx
  | .right => -dx
  | .bottom => -dy
  | .top => dy

def escapeThreshold (s : EngineCore) : Int32 :=
  match s.layout.edge with
  | .left | .right => max s.layout.width escapeMinTravel
  | .top | .bottom => max s.layout.height escapeMinTravel

/-- Has the peer cursor returned to the near edge, moving toward us? -/
def crossesBack (s : EngineCore) (dx dy : Int32) : Bool :=
  match s.layout.edge with
  | .right => s.peerX ≤ 0 && dx < 0
  | .left => s.peerX ≥ s.layout.peerWidth.saturatingSub 1 && dx > 0
  | .bottom => s.peerY ≤ 0 && dy < 0
  | .top => s.peerY ≥ s.layout.peerHeight.saturatingSub 1 && dy > 0

def peerLeftEntryEdge (s : EngineCore) : Bool :=
  let maxX := max (s.layout.peerWidth.saturatingSub 1) 0
  let maxY := max (s.layout.peerHeight.saturatingSub 1) 0
  match s.layout.edge with
  | .right => s.peerX > 0
  | .left => s.peerX < maxX
  | .bottom => s.peerY > 0
  | .top => s.peerY < maxY

/-- Where the peer cursor enters when the local cursor crosses at `(x, y)`. -/
def entryPoint (s : EngineCore) (x y : Int32) : Int32 × Int32 :=
  let maxX := max (s.layout.peerWidth.saturatingSub 1) 0
  let maxY := max (s.layout.peerHeight.saturatingSub 1) 0
  match s.layout.edge with
  | .right => (0, mapAxisFraction y s.layout.height s.layout.peerHeight)
  | .left => (maxX, mapAxisFraction y s.layout.height s.layout.peerHeight)
  | .bottom => (mapAxisFraction x s.layout.width s.layout.peerWidth, 0)
  | .top => (mapAxisFraction x s.layout.width s.layout.peerWidth, maxY)

/-! ## Ownership changes -/

/-- The owner hands input to the peer because the cursor crossed the edge. -/
def crossToPeer (s : EngineCore) (x y : Int32) : EngineCore × List Action :=
  match s.ownership.grantTo s.peer with
  | (_, none) => (s, [.capture .passThrough])
  | (ownership, some epoch) =>
    let entry := s.entryPoint x y
    ({ s.resetOut with
        ownership
        guard := .default
        heldKeys := s.heldKeys.clear
        inputAuth := s.inputAuth.revokeEpoch
        pendingAck := some (.new epoch)
        peerX := entry.1
        peerY := entry.2
        reclaimArmed := false
        escapeTravel := 0 },
      [.setCaptureMode .activeForward,
       .sendControl (.ownershipTransfer (some
        { recipient := s.peer.bytes, ownerEpoch := epoch, layoutRev := 0, reason := .edgeCross })),
       .setCursorVisible false,
       .ownerChanged s.peer epoch,
       .capture .suppress])

/-- This machine takes input back. -/
def reclaimLocal (s : EngineCore) : EngineCore × List Action :=
  let (ownership, epoch) := s.ownership.reclaim
  ({ s.resetOut with
      ownership
      guard := .default
      heldKeys := s.heldKeys.clear
      inputAuth := s.inputAuth.revokeEpoch
      pendingAck := none
      reclaimArmed := true
      crossOutArmed := false },
    [.setCaptureMode .passiveEdge,
     .sendControl (.ownershipTransfer (some
      { recipient := s.me.bytes, ownerEpoch := epoch, layoutRev := 0, reason := .localReclaim })),
     .setCursorVisible true,
     .ownerChanged s.me epoch,
     .capture .passThrough])

/-! ## Local input -/

/-- The peer cursor after a device delta, kept inside the peer's screen; the move arms the
back-cross once it has left the edge the cursor entered by. -/
def movePeerCursor (s : EngineCore) (dx dy : Int32) : EngineCore :=
  let s := { s with
    peerX := clamp (s.peerX.saturatingAdd dx) 0 (max (s.layout.peerWidth.saturatingSub 1) 0)
    peerY := clamp (s.peerY.saturatingAdd dy) 0 (max (s.layout.peerHeight.saturatingSub 1) 0) }
  if !s.reclaimArmed && s.peerLeftEntryEdge then { s with reclaimArmed := true } else s

/-- The tail of `onCursor`: the peer cursor has moved and either crosses back or is forwarded. -/
def forwardCursor (s : EngineCore) (dx dy : Int32) : EngineCore × List Action :=
  if s.reclaimArmed && s.crossesBack dx dy then
    let warp := s.entryEdgeWarp
    let (s, actions) := s.reclaimLocal
    (s, actions ++ [warp])
  else
    let (s, seq) := s.nextSeq
    (s,
      [.sendMotion
        { ownerEpoch := s.epoch, seq, displayId := 0, x := s.peerX, y := s.peerY },
       .capture .suppress])

def onCursor (s : EngineCore) (x y dx dy : Int32) (owns : Bool) : EngineCore × List Action :=
  if owns then
    let wasCrossOutArmed := s.crossOutArmed
    if !wasCrossOutArmed && s.localLeftCrossEdge x y then
      ({ s with crossOutArmed := true }, [.capture .passThrough])
    else if wasCrossOutArmed && !s.suppressBlocked && s.crossesOut x y dx dy then
      s.crossToPeer x y
    else (s, [.capture .passThrough])
  else if s.localEscapeBack x y dx dy then s.reclaimLocal
  else
    let s := { s with escapeTravel := max (s.escapeTravel + s.homewardDelta dx dy) 0 }
    if s.escapeTravel ≥ s.escapeThreshold then s.reclaimLocal
    else (s.movePeerCursor dx dy).forwardCursor dx dy

/-- Process a captured local input event. -/
def onLocalInput (s : EngineCore) (event : LocalInputEvent) : EngineCore × List Action :=
  if s.role ≠ .source then (s, [.capture .passThrough])
  else
    let owns := s.isOwner
    match event with
    | .cursorMoved _ x y dx dy => s.onCursor x y dx dy owns
    | .key usage down mods =>
      if owns then (s, [.capture .passThrough])
      else
        let (s, ctr) := s.nextCtr
        (s,
          [.sendControl (.keyEvent (some { usage, down, mods, ownerEpoch := s.epoch, ctr })),
           .capture .suppress])
    | .button button down =>
      if owns then (s, [.capture .passThrough])
      else
        let (s, ctr) := s.nextCtr
        (s,
          [.sendControl (.pointerButton (some { button, down, ownerEpoch := s.epoch, ctr })),
           .capture .suppress])
    | .scroll dx dy =>
      if owns then (s, [.capture .passThrough])
      else
        let (s, ctr) := s.nextCtr
        (s,
          [.sendControl (.scroll (some
            { dx, dy, unit := .logicalPixel, ownerEpoch := s.epoch, ctr })),
           .capture .suppress])

/-! ## The suppression report and the heartbeat -/

/-- The platform reported that it cannot suppress local input. -/
def onSuppressUnavailable (s : EngineCore) : EngineCore × List Action :=
  if s.role ≠ .source then (s, [])
  else
    let s := { s with suppressBlocked := true }
    if s.isOwner then (s, []) else s.reclaimLocal

/-- The tail of `onTick`: one more heartbeat missed, and the source reclaims at the limit. -/
def tickMisses (s : EngineCore) (actions : List Action) : EngineCore × List Action :=
  let s := { s with misses := s.misses.saturatingAdd 1 }
  if s.role = .source ∧ !s.isOwner ∧ s.misses ≥ heartbeatMissLimit then
    let (s, reclaimed) := s.reclaimLocal
    (s, actions ++ reclaimed)
  else (s, actions)

/-- Advance time by one heartbeat interval. -/
def onTick (s : EngineCore) : EngineCore × List Action :=
  let s := { s with hbSeq := s.hbSeq.saturatingAdd 1 }
  let actions : List Action := [.sendControl (.heartbeat (some ⟨s.hbSeq⟩))]
  let s := { s with inputRate := s.inputRate.refill }
  match s.pendingAck with
  | some pending =>
    if pending.ticksLeft = 0 then
      let (s, reclaimed) := s.reclaimLocal
      (s, actions ++ reclaimed)
    else
      let pending := { pending with ticksLeft := pending.ticksLeft.saturatingSub 1 }
      tickMisses { s with pendingAck := some pending } actions
  | none => s.tickMisses actions

def focus (s : EngineCore) : FocusKind := s.ownership.focus

end EngineCore

end Mouser
