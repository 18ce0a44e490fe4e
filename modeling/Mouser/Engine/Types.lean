import Mathlib.Data.Finset.Insert
import Mathlib.Data.Finset.Erase
import Mouser.Core.Platform
import Mouser.Core.Ownership

/-!
# The engine's data types

The geometry of the crossing edge, the actions the core hands to the runtime, and the small pieces
of state it keeps for each peer: the replay guard, the keys held by the peer, the authorization of
the peer's input, its rate bucket and the grant that waits for an ack.
-/

namespace Mouser

/-- Heartbeat ticks to wait for a positive ownership ack before reclaiming. -/
def ownershipAckTicks : UInt8 := 2

/-- Most input events taken from the peer in one heartbeat window. -/
def inputRateBurst : UInt16 := 240

/-- Tokens put back on each heartbeat tick. -/
def inputRateRefill : UInt16 := 120

/-- The side of this machine the peer's screen sits on. -/
inductive Edge where
  | left
  | right
  | top
  | bottom
deriving DecidableEq

inductive Role where
  /-- Has the physical input; captures and forwards. -/
  | source
  /-- Injects received input; does not capture. -/
  | target
deriving DecidableEq

structure EdgeLayout where
  width : Int32
  height : Int32
  peerWidth : Int32
  peerHeight : Int32
  edge : Edge
deriving DecidableEq

def EdgeLayout.withEdge (width height peerWidth peerHeight : Int32) (edge : Edge) : EdgeLayout :=
  { width, height, peerWidth, peerHeight, edge }

/-- The peer on the right. -/
def EdgeLayout.sideBySide (width height peerWidth peerHeight : Int32) : EdgeLayout :=
  .withEdge width height peerWidth peerHeight .right

/-- A concrete injection. -/
inductive Inject where
  | moveCursor (displayId : UInt32) (x y : Int32)
  /-- Repositions this machine's own cursor, with no synthetic event. -/
  | warpCursor (displayId : UInt32) (x y : Int32)
  | button (button : UInt8) (down : Bool)
  | key (usage : UInt16) (down : Bool) (mods : UInt16)
  | scroll (dx dy : Int32) (unit : CoreScrollUnit)
deriving DecidableEq

/-- An instruction the runtime carries out. -/
inductive Action where
  | sendControl (frame : ControlFrame)
  | sendMotion (motion : PointerMotion)
  | inject (inject : Inject)
  | capture (decision : CaptureDecision)
  | setCaptureMode (mode : CaptureMode)
  | ownerChanged (owner : DeviceId) (epoch : UInt64)
  | setCursorVisible (visible : Bool)
deriving DecidableEq

/-! ## Anti-replay -/

/-- The last counter and sequence number seen in the epoch the guard is in. -/
structure ReplayGuard where
  epoch : UInt64
  lastCtr : Option UInt64
  lastSeq : Option UInt32
deriving DecidableEq

namespace ReplayGuard

def default : ReplayGuard := { epoch := 0, lastCtr := none, lastSeq := none }

/-- The guard moved to `epoch`, which forgets what it saw in any other. -/
def enter (g : ReplayGuard) (epoch : UInt64) : ReplayGuard :=
  if g.epoch ≠ epoch then { epoch, lastCtr := none, lastSeq := none } else g

/-- A field of the guard that holds the last value seen of one kind, with what writing it does. -/
structure Slot (α : Type) where
  last : ReplayGuard → Option α
  record : ReplayGuard → α → ReplayGuard
  last_record : ∀ g x, last (record g x) = some x
  epoch_record : ∀ g x, (record g x).epoch = g.epoch

def ctrSlot : Slot UInt64 where
  last := lastCtr
  record g ctr := { g with lastCtr := some ctr }
  last_record _ _ := rfl
  epoch_record _ _ := rfl

def seqSlot : Slot UInt32 where
  last := lastSeq
  record g seq := { g with lastSeq := some seq }
  last_record _ _ := rfl
  epoch_record _ _ := rfl

/-- Accept `x` iff its epoch is current and it is above the last value seen in that epoch. -/
def accept {α : Type} [LE α] [DecidableLE α] (g : ReplayGuard) (slot : Slot α) (epoch : UInt64)
    (x : α) (currentEpoch : UInt64) : ReplayGuard × Bool :=
  if epoch ≠ currentEpoch then (g, false)
  else
    let g := g.enter epoch
    if (slot.last g).any (x ≤ ·) then (g, false) else (slot.record g x, true)

/-- Accept a control event iff its epoch is current and `ctr` strictly increases. -/
def acceptCtr (g : ReplayGuard) (epoch ctr currentEpoch : UInt64) : ReplayGuard × Bool :=
  g.accept ctrSlot epoch ctr currentEpoch

/-- Accept a motion datagram iff its epoch is current and `seq` strictly increases. -/
def acceptSeq (g : ReplayGuard) (epoch : UInt64) (seq : UInt32) (currentEpoch : UInt64) :
    ReplayGuard × Bool :=
  g.accept seqSlot epoch seq currentEpoch

end ReplayGuard

/-! ## Held keys -/

/-- Whether a key event changes the held-key state. -/
inductive KeyTransition where
  | press
  | release
  | repeat
deriving DecidableEq

/-- The usages held by the peer in the current input epoch. -/
structure HeldKeys where
  keys : Finset UInt16

namespace HeldKeys

def default : HeldKeys := ⟨∅⟩

def observe (h : HeldKeys) (usage : UInt16) (down : Bool) : HeldKeys × KeyTransition :=
  if down then
    if usage ∈ h.keys then (h, .repeat) else (⟨insert usage h.keys⟩, .press)
  else (⟨h.keys.erase usage⟩, .release)

def clear (_ : HeldKeys) : HeldKeys := ⟨∅⟩

end HeldKeys

/-! ## Authorization -/

/-- Local authorization for the peer's input. -/
structure InputAuth where
  peerTrusted : Bool
  inputAllowed : Bool
  acceptedEpoch : Option UInt64
deriving DecidableEq

namespace InputAuth

def newTrusted : InputAuth := { peerTrusted := true, inputAllowed := true, acceptedEpoch := none }

def setPeerTrusted (a : InputAuth) (trusted : Bool) : InputAuth := { a with peerTrusted := trusted }

def setInputAllowed (a : InputAuth) (allowed : Bool) : InputAuth :=
  { a with inputAllowed := allowed }

def authorizeEpoch (a : InputAuth) (epoch : UInt64) : InputAuth :=
  { a with acceptedEpoch := some epoch }

def revokeEpoch (a : InputAuth) : InputAuth := { a with acceptedEpoch := none }

def allowsEpoch (a : InputAuth) (epoch : UInt64) : Bool :=
  a.peerTrusted && a.inputAllowed && (a.acceptedEpoch = some epoch)

def canAcceptGrant (a : InputAuth) : Bool := a.peerTrusted && a.inputAllowed

end InputAuth

/-! ## Rate cap -/

/-- A token bucket, refilled by the heartbeat tick. -/
structure InputRate where
  tokens : UInt16
deriving DecidableEq

namespace InputRate

def full : InputRate := ⟨inputRateBurst⟩

def refill (r : InputRate) : InputRate :=
  ⟨min (r.tokens.saturatingAdd inputRateRefill) inputRateBurst⟩

def allowOne (r : InputRate) : InputRate × Bool :=
  if r.tokens = 0 then (r, false) else (⟨r.tokens.saturatingSub 1⟩, true)

end InputRate

/-- A grant that waits for the peer's positive ack. -/
structure PendingAck where
  epoch : UInt64
  ticksLeft : UInt8
deriving DecidableEq

def PendingAck.new (epoch : UInt64) : PendingAck := { epoch, ticksLeft := ownershipAckTicks }

end Mouser
