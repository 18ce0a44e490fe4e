import Mathlib.Data.List.Basic
import Mouser.Protocol.Messages

/-!
# The messages that open a session

`Hello` and its answer on the interactive plane, and the `Hello` of the bulk plane. A set of
capabilities is listed in ascending order, each once.
-/

namespace Mouser

/-- The `Role` of the protocol. -/
inductive ElectionRole where
  | eligible
  | ineligible
  | unknown
deriving DecidableEq

inductive AckStatus where
  | accepted
  | rejected
  | pending
  | unknown
deriving DecidableEq

inductive Capability where
  | keyboard
  | mouse
  | clipboard
  | fileTransfer
  | webcam
  | audio
  | coordinatorEligible
  | remoteControlOnly
deriving DecidableEq

def Capability.number : Capability → ℕ
  | .keyboard => 0
  | .mouse => 1
  | .clipboard => 2
  | .fileTransfer => 3
  | .webcam => 4
  | .audio => 5
  | .coordinatorEligible => 6
  | .remoteControlOnly => 7

structure CapabilitySet where
  members : List Capability
  ascending : members.Pairwise fun a b => a.number < b.number
deriving DecidableEq

/-- `[01]`: who the sender is, and its proof that it is at the end of this connection. -/
structure Hello where
  deviceId : List UInt8
  name : String
  os : Os
  engineVersion : String
  capabilities : CapabilitySet
  role : ElectionRole
  sessionId : UInt64
  channelSig : List UInt8
deriving DecidableEq

/-- `[02]` -/
structure HelloAck where
  status : AckStatus
  reason : Option String
deriving DecidableEq

/-- `[04]`: which interactive session a bulk connection belongs to. -/
structure BulkHello where
  deviceId : List UInt8
  interactiveSessionId : UInt64
  channelSig : List UInt8
deriving DecidableEq

def typeHello : UInt16 := 0x01
def typeHelloAck : UInt16 := 0x02
def typeBulkHello : UInt16 := 0x04

end Mouser
