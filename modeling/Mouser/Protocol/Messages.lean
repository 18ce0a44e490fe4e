/-!
# Messages

The messages of the ownership, input and liveness groups, the frames that carry them, and the
messages of a file transfer and of a clipboard transfer. A frame is what `on_control` is handed: a
message type with the payload that `from_cbor` reads from the frame's bytes as the struct of that
type, `none` where the bytes do not decode. The enums keep their `Unknown` sentinel, since a
discriminant this build does not know decodes to it.
-/

namespace Mouser

inductive TransferReason where
  | edgeCross
  | hotkey
  | uiSelect
  | localReclaim
  | unknown
deriving DecidableEq

inductive FocusKind where
  | active
  | standby
  | disconnected
  | inputBlocked
  | unknown
deriving DecidableEq

inductive GoodbyeReason where
  | shutdown
  | sleep
  | userQuit
  | networkLeave
  | unknown
deriving DecidableEq

/-- The operating system a device advertises. -/
inductive Os where
  | macos
  | windows
  | linux
  | ios
  | android
  | unknown
deriving DecidableEq

inductive ScrollUnit where
  | detent120
  | logicalPixel
  | unknown
deriving DecidableEq

/-- `[30]`: ownership goes to the device of `recipient`, the wire field `to`, at `ownerEpoch`. The
field is a byte string of any length. -/
structure OwnershipTransfer where
  recipient : List UInt8
  ownerEpoch : UInt64
  layoutRev : UInt64
  reason : TransferReason
deriving DecidableEq

/-- `[31]`: the answer to an `OwnershipTransfer`. -/
structure OwnershipAck where
  ownerEpoch : UInt64
  accepted : Bool
  reason : Option String
deriving DecidableEq

/-- `[40]`: a key transition. -/
structure KeyEvent where
  usage : UInt16
  down : Bool
  mods : UInt16
  ownerEpoch : UInt64
  ctr : UInt64
deriving DecidableEq

/-- `[41]`: a pointer button transition. -/
structure PointerButton where
  button : UInt8
  down : Bool
  ownerEpoch : UInt64
  ctr : UInt64
deriving DecidableEq

/-- `[42]`: a scroll delta. -/
structure Scroll where
  dx : Int32
  dy : Int32
  unit : ScrollUnit
  ownerEpoch : UInt64
  ctr : UInt64
deriving DecidableEq

/-- `[05]` and `[06]`: a liveness probe and its echo. -/
structure Ping where
  id : UInt64
deriving DecidableEq

structure Pong where
  id : UInt64
deriving DecidableEq

/-- `[07]` -/
structure Heartbeat where
  seq : UInt64
deriving DecidableEq

/-- `[08]` -/
structure Goodbye where
  reason : GoodbyeReason
deriving DecidableEq

/-- A control frame, by message type. -/
inductive ControlFrame where
  | ownershipTransfer (payload : Option OwnershipTransfer)
  | ownershipAck (payload : Option OwnershipAck)
  | keyEvent (payload : Option KeyEvent)
  | pointerButton (payload : Option PointerButton)
  | scroll (payload : Option Scroll)
  | ping (payload : Option Ping)
  | pong (payload : Option Pong)
  | heartbeat (payload : Option Heartbeat)
  | goodbye (payload : Option Goodbye)
  /-- A message type the core does not handle. -/
  | other (msgType : UInt16)
deriving DecidableEq

/-- Absolute pointer motion, tag `0x01`. -/
structure PointerMotion where
  ownerEpoch : UInt64
  seq : UInt32
  displayId : UInt32
  x : Int32
  y : Int32
deriving DecidableEq

/-- Relative pointer motion, tag `0x02`. -/
structure PointerMotionRel where
  ownerEpoch : UInt64
  seq : UInt32
  dxAcc : Int64
  dyAcc : Int64
deriving DecidableEq

/-- A decoded motion datagram. -/
inductive Datagram where
  | motion (m : PointerMotion)
  | motionRel (m : PointerMotionRel)
  | unknown (tag : UInt8)
deriving DecidableEq

/-! ## File transfer -/

/-- One offered file, with the digest of its contents where the sender supplies it. -/
structure FileEntry where
  name : String
  size : UInt64
  sha256 : Option (List UInt8)
deriving DecidableEq

/-- `[60]` -/
structure FileOffer where
  transferId : UInt64
  files : List FileEntry
deriving DecidableEq

/-- The receiver holds `offset` bytes of the file. -/
structure ResumePoint where
  fileIndex : UInt32
  offset : UInt64
deriving DecidableEq

/-- `[61]` -/
structure FileAccept where
  transferId : UInt64
  resume : List ResumePoint
deriving DecidableEq

/-- `[62]` -/
structure FileReject where
  transferId : UInt64
  reason : String
deriving DecidableEq

/-- `[63]` -/
structure FileChunk where
  transferId : UInt64
  fileIndex : UInt32
  offset : UInt64
  data : List UInt8
deriving DecidableEq

/-- `[64]` The bytes of the file that are held without a gap. -/
structure FileAck where
  transferId : UInt64
  fileIndex : UInt32
  ackedThrough : UInt64
deriving DecidableEq

/-- `[65]` -/
structure FileDone where
  transferId : UInt64
  ok : Bool
deriving DecidableEq

/-! ## Clipboard -/

inductive ClipFormat where
  | utf8Text
  | html
  | png
  | uriList
  | rtf
  | unknown
deriving DecidableEq

/-- One representation of what was copied; `size` is the length of its canonical bytes. -/
structure ClipboardEntry where
  format : ClipFormat
  hash : List UInt8
  size : UInt64
deriving DecidableEq

/-- `[50]`: all representations of what was copied on the device `origin`. -/
structure ClipboardOffer where
  entries : List ClipboardEntry
  origin : List UInt8
deriving DecidableEq

/-- `[51]`: the bytes of one offered representation are wanted. -/
structure ClipboardPull where
  hash : List UInt8
  format : ClipFormat
deriving DecidableEq

/-- `[52]`: a part of the content with the given hash. -/
structure ClipboardData where
  hash : List UInt8
  format : ClipFormat
  offset : UInt64
  data : List UInt8
  last : Bool
deriving DecidableEq

end Mouser
