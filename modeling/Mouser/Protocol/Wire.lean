import Mathlib.Data.List.GetD
import Mouser.Lib.CborCodec
import Mouser.Protocol.Codec
import Mouser.Protocol.Session

/-!
# The control messages on the wire

Every message is a CBOR map from the names of its fields. An enum is its number, and any integer
that is not a number of the enum is its `unknown`; a set of capabilities is an array of numbers, of
which those that are not a capability are dropped. `control_messages_round_trip` says that every
message is read as it was written, also when fields that this build does not know stand before or
behind its own.
-/

namespace Mouser

open Cbor

/-! ## Enums -/

inductive CapState where
  | available
  | permissionMissing
  | secureContext
  | unsupported
  | unknown
deriving DecidableEq

inductive BlockedReason where
  | none
  | secureDesktop
  | lockScreen
  | secureInputField
  | permission
  | compositorUnsupported
  | unknown
deriving DecidableEq

inductive PointerMode where
  | absolute
  | relative
  | unknown
deriving DecidableEq

/-- An enum of the wire: the variants, numbered from 0, and one for every other integer. -/
structure WireEnum (T : Type) where
  variants : List T
  unknown : T

namespace WireEnum

variable {T : Type}

/-- The number of `unknown`. -/
def unknownNumber : ℕ := 255

/-- `From<T> for u16` -/
def number [DecidableEq T] (e : WireEnum T) (value : T) : ℕ :=
  if value ∈ e.variants then e.variants.idxOf value else unknownNumber

/-- `From<i128>` -/
def ofInteger (e : WireEnum T) : ℤ → T
  | .ofNat n => e.variants.getD n e.unknown
  | .negSucc _ => e.unknown

/-- Every value is a variant or `unknown`, which is none, and the variants are distinct. -/
structure Complete [DecidableEq T] (e : WireEnum T) : Prop where
  cases (value : T) : value ∈ e.variants ∨ value = e.unknown
  length_le : e.variants.length ≤ unknownNumber

theorem ofInteger_number [DecidableEq T] {e : WireEnum T} (he : e.Complete) (value : T) :
    e.ofInteger (e.number value) = value := by
  rw [number]
  split
  · next hmem =>
    exact (List.getD_eq_getElem _ _ (List.idxOf_lt_length_of_mem hmem)).trans
      (List.getElem_idxOf _)
  · next hmem =>
    have hunknown := (he.cases value).resolve_left hmem
    exact (List.getD_eq_default _ _ he.length_le).trans hunknown.symm

def codec [DecidableEq T] (e : WireEnum T) (he : e.Complete) : Codec T where
  toValue value := .uint (e.number value)
  ofValue v := (Codec.integer v).map e.ofInteger
  ofValue_toValue value := congrArg some (ofInteger_number he value)
  depth := 1
  Small _ := True
  fits value _ := by
    have hlength := he.length_le
    refine .uint ?_
    rw [number]
    split
    · next hmem =>
      have hindex := List.idxOf_lt_length_of_mem hmem
      rw [unknownNumber] at hlength
      omega
    · decide

end WireEnum

def Os.wire : WireEnum Os :=
  ⟨[.macos, .windows, .linux, .ios, .android], .unknown⟩

def ElectionRole.wire : WireEnum ElectionRole :=
  ⟨[.eligible, .ineligible], .unknown⟩

def AckStatus.wire : WireEnum AckStatus :=
  ⟨[.accepted, .rejected, .pending], .unknown⟩

def GoodbyeReason.wire : WireEnum GoodbyeReason :=
  ⟨[.shutdown, .sleep, .userQuit, .networkLeave], .unknown⟩

def TransferReason.wire : WireEnum TransferReason :=
  ⟨[.edgeCross, .hotkey, .uiSelect, .localReclaim], .unknown⟩

def FocusKind.wire : WireEnum FocusKind :=
  ⟨[.active, .standby, .disconnected, .inputBlocked], .unknown⟩

def CapState.wire : WireEnum CapState :=
  ⟨[.available, .permissionMissing, .secureContext, .unsupported], .unknown⟩

def BlockedReason.wire : WireEnum BlockedReason :=
  ⟨[.none, .secureDesktop, .lockScreen, .secureInputField, .permission,
    .compositorUnsupported], .unknown⟩

def ScrollUnit.wire : WireEnum ScrollUnit :=
  ⟨[.detent120, .logicalPixel], .unknown⟩

def PointerMode.wire : WireEnum PointerMode :=
  ⟨[.absolute, .relative], .unknown⟩

def ClipFormat.wire : WireEnum ClipFormat :=
  ⟨[.utf8Text, .html, .png, .uriList, .rtf], .unknown⟩

def Os.codec : Codec Os :=
  wire.codec ⟨fun value => by cases value <;> decide, by decide⟩

def ElectionRole.codec : Codec ElectionRole :=
  wire.codec ⟨fun value => by cases value <;> decide, by decide⟩

def AckStatus.codec : Codec AckStatus :=
  wire.codec ⟨fun value => by cases value <;> decide, by decide⟩

def GoodbyeReason.codec : Codec GoodbyeReason :=
  wire.codec ⟨fun value => by cases value <;> decide, by decide⟩

def TransferReason.codec : Codec TransferReason :=
  wire.codec ⟨fun value => by cases value <;> decide, by decide⟩

def FocusKind.codec : Codec FocusKind :=
  wire.codec ⟨fun value => by cases value <;> decide, by decide⟩

def CapState.codec : Codec CapState :=
  wire.codec ⟨fun value => by cases value <;> decide, by decide⟩

def BlockedReason.codec : Codec BlockedReason :=
  wire.codec ⟨fun value => by cases value <;> decide, by decide⟩

def ScrollUnit.codec : Codec ScrollUnit :=
  wire.codec ⟨fun value => by cases value <;> decide, by decide⟩

def PointerMode.codec : Codec PointerMode :=
  wire.codec ⟨fun value => by cases value <;> decide, by decide⟩

def ClipFormat.codec : Codec ClipFormat :=
  wire.codec ⟨fun value => by cases value <;> decide, by decide⟩

/-! ## Sets of capabilities -/

def Capability.all : List Capability :=
  [.keyboard, .mouse, .clipboard, .fileTransfer, .webcam, .audio, .coordinatorEligible,
    .remoteControlOnly]

def Capability.fromU16 (value : ℕ) : Option Capability := Capability.all[value]?

/-- The member that an integer is: `u16::try_from`, and `from_u16`. -/
def Capability.ofInteger : ℤ → Option Capability
  | .ofNat n => if n < 2 ^ 16 then fromU16 n else none
  | .negSucc _ => none

namespace CapabilitySet

/-- The set of the capabilities that are listed, in whatever order and how often. -/
def ofMembers (members : List Capability) : CapabilitySet where
  members := Capability.all.filter (· ∈ members)
  ascending := List.Pairwise.filter _ (by decide)

theorem ext {s t : CapabilitySet} (h : s.members = t.members) : s = t := by
  cases s
  cases t
  cases h
  rfl

theorem ofMembers_members (s : CapabilitySet) : ofMembers s.members = s := by
  have hmem : ∀ c, c ∈ Capability.all.filter (· ∈ s.members) ↔ c ∈ s.members := by
    intro c
    have hall : c ∈ Capability.all := by cases c <;> decide
    rw [List.mem_filter, decide_eq_true_eq, and_iff_right hall]
  have hperm : (Capability.all.filter (· ∈ s.members)).Perm s.members := by
    refine (List.perm_ext_iff_of_nodup ?_ ?_).2 hmem
    · exact (ofMembers s.members).ascending.imp fun h heq => (h.ne (congrArg _ heq))
    · exact s.ascending.imp fun h heq => (h.ne (congrArg _ heq))
  exact ext (hperm.eq_of_pairwise (fun a b _ _ hab hba => absurd hab hba.not_gt)
    (ofMembers s.members).ascending s.ascending)

theorem length_members_le (s : CapabilitySet) : s.members.length ≤ 8 := by
  have hle : (ofMembers s.members).members.length ≤ Capability.all.length :=
    List.length_filter_le _ _
  rwa [ofMembers_members] at hle

theorem ofInteger_number (c : Capability) : Capability.ofInteger (c.number : ℤ) = some c := by
  cases c <;> rfl

def codec : Codec CapabilitySet where
  toValue s := .array (s.members.map fun c => .uint c.number)
  ofValue value := (Codec.items value).bind fun items =>
    (items.mapM Codec.integer).map fun numbers =>
      ofMembers (numbers.filterMap Capability.ofInteger)
  ofValue_toValue s := by
    have hnumbers : ∀ members : List Capability,
        (members.map fun c => Value.uint c.number).mapM Codec.integer =
          some (members.map fun c => (c.number : ℤ)) := by
      intro members
      induction members with
      | nil => rfl
      | cons c members ih =>
        rw [List.map_cons, List.mapM_cons, ih]
        rfl
    have hmembers : ∀ members : List Capability,
        (members.map fun c => (c.number : ℤ)).filterMap Capability.ofInteger = members := by
      intro members
      induction members with
      | nil => rfl
      | cons c members ih =>
        rw [List.map_cons, List.filterMap_cons_some (ofInteger_number c), ih]
    rw [Codec.items, Option.bind_some, hnumbers, Option.map_some, hmembers, ofMembers_members]
  depth := 2
  Small _ := True
  fits s _ := by
    have hlength : (s.members.map fun c => Value.uint c.number).length < 2 ^ 64 := by
      have hle := s.length_members_le
      rw [List.length_map]
      omega
    refine .array hlength fun item hitem => ?_
    obtain ⟨c, -, rfl⟩ := List.mem_map.1 hitem
    exact .uint (by cases c <;> decide)

end CapabilitySet

/-! ## Structs -/

/-- `[03]`: what the user has said to the pairing. -/
structure PairingResult where
  accepted : Bool
  reason : Option String
deriving DecidableEq

/-- `[32]` -/
structure FocusState where
  owner : List UInt8
  ownerEpoch : UInt64
  state : FocusKind
deriving DecidableEq

/-- `[33]`: whether the device can capture and inject. -/
structure CapabilityState where
  deviceId : List UInt8
  capture : CapState
  inject : CapState
  reason : BlockedReason
deriving DecidableEq

/-- `[34]` -/
structure OwnershipRequest where
  «from» : List UInt8
  reason : TransferReason
deriving DecidableEq

/-- `[35]` -/
structure PointerModeReq where
  ownerEpoch : UInt64
  mode : PointerMode
deriving DecidableEq

def Hello.schema : Schema Hello where
  fields :=
    .field "device_id" .bytes <| .field "name" .text <| .field "os" Os.codec <|
    .field "engine_version" .text <| .field "capabilities" CapabilitySet.codec <|
    .field "role" ElectionRole.codec <| .field "session_id" .uint64 <| .field "channel_sig" .bytes .nil
  equiv :=
    ⟨fun m => (m.deviceId, m.name, m.os, m.engineVersion, m.capabilities, m.role, m.sessionId,
       m.channelSig, ()),
      fun (deviceId, name, os, engineVersion, capabilities, role, sessionId, channelSig, ()) =>
        ⟨deviceId, name, os, engineVersion, capabilities, role, sessionId, channelSig⟩,
      fun _ => rfl, fun _ => rfl⟩

def HelloAck.schema : Schema HelloAck where
  fields := .field "status" AckStatus.codec <| .optional "reason" .text nofun .nil
  equiv :=
    ⟨fun m => (m.status, m.reason, ()),
      fun (status, reason, ()) => ⟨status, reason⟩,
      fun _ => rfl, fun _ => rfl⟩

def PairingResult.schema : Schema PairingResult where
  fields := .field "accepted" .bool <| .optional "reason" .text nofun .nil
  equiv :=
    ⟨fun m => (m.accepted, m.reason, ()),
      fun (accepted, reason, ()) => ⟨accepted, reason⟩,
      fun _ => rfl, fun _ => rfl⟩

def BulkHello.schema : Schema BulkHello where
  fields :=
    .field "device_id" .bytes <| .field "interactive_session_id" .uint64 <|
    .field "channel_sig" .bytes .nil
  equiv :=
    ⟨fun m => (m.deviceId, m.interactiveSessionId, m.channelSig, ()),
      fun (deviceId, interactiveSessionId, channelSig, ()) =>
        ⟨deviceId, interactiveSessionId, channelSig⟩,
      fun _ => rfl, fun _ => rfl⟩

def Ping.schema : Schema Ping where
  fields := .field "id" .uint64 .nil
  equiv := ⟨fun m => (m.id, ()), fun (id, ()) => ⟨id⟩, fun _ => rfl, fun _ => rfl⟩

def Pong.schema : Schema Pong where
  fields := .field "id" .uint64 .nil
  equiv := ⟨fun m => (m.id, ()), fun (id, ()) => ⟨id⟩, fun _ => rfl, fun _ => rfl⟩

def Heartbeat.schema : Schema Heartbeat where
  fields := .field "seq" .uint64 .nil
  equiv := ⟨fun m => (m.seq, ()), fun (seq, ()) => ⟨seq⟩, fun _ => rfl, fun _ => rfl⟩

def Goodbye.schema : Schema Goodbye where
  fields := .field "reason" GoodbyeReason.codec .nil
  equiv := ⟨fun m => (m.reason, ()), fun (reason, ()) => ⟨reason⟩, fun _ => rfl, fun _ => rfl⟩

def OwnershipTransfer.schema : Schema OwnershipTransfer where
  fields :=
    .field "to" .bytes <| .field "owner_epoch" .uint64 <| .field "layout_rev" .uint64 <|
    .field "reason" TransferReason.codec .nil
  equiv :=
    ⟨fun m => (m.recipient, m.ownerEpoch, m.layoutRev, m.reason, ()),
      fun (recipient, ownerEpoch, layoutRev, reason, ()) =>
        ⟨recipient, ownerEpoch, layoutRev, reason⟩,
      fun _ => rfl, fun _ => rfl⟩

def OwnershipAck.schema : Schema OwnershipAck where
  fields :=
    .field "owner_epoch" .uint64 <| .field "accepted" .bool <| .optional "reason" .text nofun .nil
  equiv :=
    ⟨fun m => (m.ownerEpoch, m.accepted, m.reason, ()),
      fun (ownerEpoch, accepted, reason, ()) => ⟨ownerEpoch, accepted, reason⟩,
      fun _ => rfl, fun _ => rfl⟩

def FocusState.schema : Schema FocusState where
  fields :=
    .field "owner" .bytes <| .field "owner_epoch" .uint64 <| .field "state" FocusKind.codec .nil
  equiv :=
    ⟨fun m => (m.owner, m.ownerEpoch, m.state, ()),
      fun (owner, ownerEpoch, state, ()) => ⟨owner, ownerEpoch, state⟩,
      fun _ => rfl, fun _ => rfl⟩

def CapabilityState.schema : Schema CapabilityState where
  fields :=
    .field "device_id" .bytes <| .field "capture" CapState.codec <|
    .field "inject" CapState.codec <| .field "reason" BlockedReason.codec .nil
  equiv :=
    ⟨fun m => (m.deviceId, m.capture, m.inject, m.reason, ()),
      fun (deviceId, capture, inject, reason, ()) => ⟨deviceId, capture, inject, reason⟩,
      fun _ => rfl, fun _ => rfl⟩

def OwnershipRequest.schema : Schema OwnershipRequest where
  fields := .field "from" .bytes <| .field "reason" TransferReason.codec .nil
  equiv :=
    ⟨fun m => (m.«from», m.reason, ()),
      fun («from», reason, ()) => ⟨«from», reason⟩,
      fun _ => rfl, fun _ => rfl⟩

def PointerModeReq.schema : Schema PointerModeReq where
  fields := .field "owner_epoch" .uint64 <| .field "mode" PointerMode.codec .nil
  equiv :=
    ⟨fun m => (m.ownerEpoch, m.mode, ()),
      fun (ownerEpoch, mode, ()) => ⟨ownerEpoch, mode⟩,
      fun _ => rfl, fun _ => rfl⟩

def KeyEvent.schema : Schema KeyEvent where
  fields :=
    .field "usage" .uint16 <| .field "down" .bool <| .field "mods" .uint16 <|
    .field "owner_epoch" .uint64 <| .field "ctr" .uint64 .nil
  equiv :=
    ⟨fun m => (m.usage, m.down, m.mods, m.ownerEpoch, m.ctr, ()),
      fun (usage, down, mods, ownerEpoch, ctr, ()) => ⟨usage, down, mods, ownerEpoch, ctr⟩,
      fun _ => rfl, fun _ => rfl⟩

def PointerButton.schema : Schema PointerButton where
  fields :=
    .field "button" .uint8 <| .field "down" .bool <| .field "owner_epoch" .uint64 <|
    .field "ctr" .uint64 .nil
  equiv :=
    ⟨fun m => (m.button, m.down, m.ownerEpoch, m.ctr, ()),
      fun (button, down, ownerEpoch, ctr, ()) => ⟨button, down, ownerEpoch, ctr⟩,
      fun _ => rfl, fun _ => rfl⟩

def Scroll.schema : Schema Scroll where
  fields :=
    .field "dx" .int32 <| .field "dy" .int32 <| .field "unit" ScrollUnit.codec <|
    .field "owner_epoch" .uint64 <| .field "ctr" .uint64 .nil
  equiv :=
    ⟨fun m => (m.dx, m.dy, m.unit, m.ownerEpoch, m.ctr, ()),
      fun (dx, dy, unit, ownerEpoch, ctr, ()) => ⟨dx, dy, unit, ownerEpoch, ctr⟩,
      fun _ => rfl, fun _ => rfl⟩

def ClipboardEntry.schema : Schema ClipboardEntry where
  fields := .field "format" ClipFormat.codec <| .field "hash" .bytes <| .field "size" .uint64 .nil
  equiv :=
    ⟨fun m => (m.format, m.hash, m.size, ()),
      fun (format, hash, size, ()) => ⟨format, hash, size⟩,
      fun _ => rfl, fun _ => rfl⟩

def ClipboardOffer.schema : Schema ClipboardOffer where
  fields := .field "entries" (.list ClipboardEntry.schema.codec) <| .field "origin" .bytes .nil
  equiv :=
    ⟨fun m => (m.entries, m.origin, ()),
      fun (entries, origin, ()) => ⟨entries, origin⟩,
      fun _ => rfl, fun _ => rfl⟩

def ClipboardPull.schema : Schema ClipboardPull where
  fields := .field "hash" .bytes <| .field "format" ClipFormat.codec .nil
  equiv :=
    ⟨fun m => (m.hash, m.format, ()),
      fun (hash, format, ()) => ⟨hash, format⟩,
      fun _ => rfl, fun _ => rfl⟩

def ClipboardData.schema : Schema ClipboardData where
  fields :=
    .field "hash" .bytes <| .field "format" ClipFormat.codec <| .field "offset" .uint64 <|
    .field "data" .bytes <| .field "last" .bool .nil
  equiv :=
    ⟨fun m => (m.hash, m.format, m.offset, m.data, m.last, ()),
      fun (hash, format, offset, data, last, ()) => ⟨hash, format, offset, data, last⟩,
      fun _ => rfl, fun _ => rfl⟩

def FileEntry.schema : Schema FileEntry where
  fields := .field "name" .text <| .field "size" .uint64 <| .optional "sha256" .bytes nofun .nil
  equiv :=
    ⟨fun m => (m.name, m.size, m.sha256, ()),
      fun (name, size, sha256, ()) => ⟨name, size, sha256⟩,
      fun _ => rfl, fun _ => rfl⟩

def FileOffer.schema : Schema FileOffer where
  fields := .field "transfer_id" .uint64 <| .field "files" (.list FileEntry.schema.codec) .nil
  equiv :=
    ⟨fun m => (m.transferId, m.files, ()),
      fun (transferId, files, ()) => ⟨transferId, files⟩,
      fun _ => rfl, fun _ => rfl⟩

def ResumePoint.schema : Schema ResumePoint where
  fields := .field "file_index" .uint32 <| .field "offset" .uint64 .nil
  equiv :=
    ⟨fun m => (m.fileIndex, m.offset, ()),
      fun (fileIndex, offset, ()) => ⟨fileIndex, offset⟩,
      fun _ => rfl, fun _ => rfl⟩

def FileAccept.schema : Schema FileAccept where
  fields := .field "transfer_id" .uint64 <| .field "resume" (.list ResumePoint.schema.codec) .nil
  equiv :=
    ⟨fun m => (m.transferId, m.resume, ()),
      fun (transferId, resume, ()) => ⟨transferId, resume⟩,
      fun _ => rfl, fun _ => rfl⟩

def FileReject.schema : Schema FileReject where
  fields := .field "transfer_id" .uint64 <| .field "reason" .text .nil
  equiv :=
    ⟨fun m => (m.transferId, m.reason, ()),
      fun (transferId, reason, ()) => ⟨transferId, reason⟩,
      fun _ => rfl, fun _ => rfl⟩

def FileChunk.schema : Schema FileChunk where
  fields :=
    .field "transfer_id" .uint64 <| .field "file_index" .uint32 <| .field "offset" .uint64 <|
    .field "data" .bytes .nil
  equiv :=
    ⟨fun m => (m.transferId, m.fileIndex, m.offset, m.data, ()),
      fun (transferId, fileIndex, offset, data, ()) => ⟨transferId, fileIndex, offset, data⟩,
      fun _ => rfl, fun _ => rfl⟩

def FileAck.schema : Schema FileAck where
  fields :=
    .field "transfer_id" .uint64 <| .field "file_index" .uint32 <| .field "acked_through" .uint64 <|
    .nil
  equiv :=
    ⟨fun m => (m.transferId, m.fileIndex, m.ackedThrough, ()),
      fun (transferId, fileIndex, ackedThrough, ()) => ⟨transferId, fileIndex, ackedThrough⟩,
      fun _ => rfl, fun _ => rfl⟩

def FileDone.schema : Schema FileDone where
  fields := .field "transfer_id" .uint64 <| .field "ok" .bool .nil
  equiv :=
    ⟨fun m => (m.transferId, m.ok, ()),
      fun (transferId, ok, ()) => ⟨transferId, ok⟩,
      fun _ => rfl, fun _ => rfl⟩

/-! ## Message types -/

/-- The messages that are structs. -/
inductive MessageType where
  | hello
  | helloAck
  | pairingResult
  | bulkHello
  | ping
  | pong
  | heartbeat
  | goodbye
  | ownershipTransfer
  | ownershipAck
  | focusState
  | capabilityState
  | ownershipRequest
  | pointerModeReq
  | keyEvent
  | pointerButton
  | scroll
  | clipboardOffer
  | clipboardPull
  | clipboardData
  | fileOffer
  | fileAccept
  | fileReject
  | fileChunk
  | fileAck
  | fileDone
deriving DecidableEq

namespace MessageType

/-- The `type` of the frames. -/
def number : MessageType → UInt16
  | hello => 0x01
  | helloAck => 0x02
  | pairingResult => 0x03
  | bulkHello => 0x04
  | ping => 0x05
  | pong => 0x06
  | heartbeat => 0x07
  | goodbye => 0x08
  | ownershipTransfer => 0x30
  | ownershipAck => 0x31
  | focusState => 0x32
  | capabilityState => 0x33
  | ownershipRequest => 0x34
  | pointerModeReq => 0x35
  | keyEvent => 0x40
  | pointerButton => 0x41
  | scroll => 0x42
  | clipboardOffer => 0x50
  | clipboardPull => 0x51
  | clipboardData => 0x52
  | fileOffer => 0x60
  | fileAccept => 0x61
  | fileReject => 0x62
  | fileChunk => 0x63
  | fileAck => 0x64
  | fileDone => 0x65

def Payload : MessageType → Type
  | hello => Hello
  | helloAck => HelloAck
  | pairingResult => PairingResult
  | bulkHello => BulkHello
  | ping => Ping
  | pong => Pong
  | heartbeat => Heartbeat
  | goodbye => Goodbye
  | ownershipTransfer => OwnershipTransfer
  | ownershipAck => OwnershipAck
  | focusState => FocusState
  | capabilityState => CapabilityState
  | ownershipRequest => OwnershipRequest
  | pointerModeReq => PointerModeReq
  | keyEvent => KeyEvent
  | pointerButton => PointerButton
  | scroll => Scroll
  | clipboardOffer => ClipboardOffer
  | clipboardPull => ClipboardPull
  | clipboardData => ClipboardData
  | fileOffer => FileOffer
  | fileAccept => FileAccept
  | fileReject => FileReject
  | fileChunk => FileChunk
  | fileAck => FileAck
  | fileDone => FileDone

def schema : (t : MessageType) → Schema t.Payload
  | hello => Hello.schema
  | helloAck => HelloAck.schema
  | pairingResult => PairingResult.schema
  | bulkHello => BulkHello.schema
  | ping => Ping.schema
  | pong => Pong.schema
  | heartbeat => Heartbeat.schema
  | goodbye => Goodbye.schema
  | ownershipTransfer => OwnershipTransfer.schema
  | ownershipAck => OwnershipAck.schema
  | focusState => FocusState.schema
  | capabilityState => CapabilityState.schema
  | ownershipRequest => OwnershipRequest.schema
  | pointerModeReq => PointerModeReq.schema
  | keyEvent => KeyEvent.schema
  | pointerButton => PointerButton.schema
  | scroll => Scroll.schema
  | clipboardOffer => ClipboardOffer.schema
  | clipboardPull => ClipboardPull.schema
  | clipboardData => ClipboardData.schema
  | fileOffer => FileOffer.schema
  | fileAccept => FileAccept.schema
  | fileReject => FileReject.schema
  | fileChunk => FileChunk.schema
  | fileAck => FileAck.schema
  | fileDone => FileDone.schema

end MessageType

/-! ## Bytes -/

/-- Items that are nested deeper are not read. -/
def recursionLimit : ℕ := 256

theorem MessageType.depth_le (t : MessageType) : t.schema.codec.depth ≤ recursionLimit := by
  cases t <;> decide

/-- `into_writer` and `from_reader` for a struct. -/
def ciborium {T : Type} (s : Schema T) : Ciborium T where
  intoWriter value := .ok (s.codec.toValue value).encode
  fromReader bytes :=
    match decode recursionLimit bytes with
    | none => .error "invalid item"
    | some (item, rest) =>
      match s.codec.ofValue item with
      | none => .error "invalid value"
      | some value => .ok (value, bytes.length - rest.length)

/-- No item is refused for its first byte. -/
theorem fromCbor_encode_eq {T : Type} (c : Ciborium T) (item : Value) (tail : List UInt8) :
    fromCbor c (item.encode ++ tail) =
      match c.fromReader (item.encode ++ tail) with
      | .error m => .error (.decode m)
      | .ok (value, position) =>
        if position ≠ (item.encode ++ tail).length then .error (.decode "trailing bytes")
        else .ok value := by
  obtain ⟨b, hhead, hlow⟩ := head?_encode item
  refine if_neg ?_
  rw [List.head?_append, hhead]
  rintro (h | h) <;> cases h <;> exact absurd hlow (by decide)

/-- An item that is a value of the struct is read as it; nothing may come after it. -/
theorem fromCbor_encode {T : Type} {s : Schema T} {item : Value} {value : T}
    (hfits : item.Fits recursionLimit) (hvalue : s.codec.ofValue item = some value)
    (tail : List UInt8) :
    fromCbor (ciborium s) (item.encode ++ tail) =
      if tail = [] then .ok value else .error (.decode "trailing bytes") := by
  have hread : (ciborium s).fromReader (item.encode ++ tail) =
      .ok (value, item.encode.length) := by
    rw [ciborium]
    dsimp only
    rw [decode_encode hfits]
    dsimp only
    rw [hvalue, List.length_append, Nat.add_sub_cancel]
  rw [fromCbor_encode_eq, hread]
  dsimp only
  rw [List.length_append]
  cases tail with
  | nil => exact (if_neg (not_not.2 rfl)).trans (if_pos rfl).symm
  | cons b tail => exact (if_pos (by rw [List.length_cons]; omega)).trans (if_neg nofun).symm

/-- An item that is none is refused. -/
theorem fromCbor_encode_of_none {T : Type} {s : Schema T} {item : Value}
    (hfits : item.Fits recursionLimit) (hvalue : s.codec.ofValue item = none) :
    fromCbor (ciborium s) item.encode = .error (.decode "invalid value") := by
  have hread : (ciborium s).fromReader (item.encode ++ []) = .error "invalid value" := by
    rw [ciborium]
    dsimp only
    rw [decode_encode hfits]
    dsimp only
    rw [hvalue]
  rw [← List.append_nil item.encode, fromCbor_encode_eq, hread]

/-- The value is read back as it is written. -/
def Ciborium.RoundTrips {T : Type} (c : Ciborium T) (value : T) : Prop :=
  ∃ bytes, toCbor c value = .ok bytes ∧ fromCbor c bytes = .ok value

theorem ciborium_roundTrips {T : Type} {s : Schema T} (hdepth : s.codec.depth ≤ recursionLimit)
    {value : T} (h : s.codec.Small value) : (ciborium s).RoundTrips value := by
  have hread :=
    fromCbor_encode ((s.codec.fits value h).mono hdepth) (s.codec.ofValue_toValue value) []
  rw [List.append_nil] at hread
  exact ⟨_, rfl, hread.trans (if_pos rfl)⟩

theorem MessageType.number_injective {t t' : MessageType} (h : t.number = t'.number) : t = t' := by
  revert h
  cases t <;> cases t' <;> decide

/-- Fields that stand beside those of a struct. -/
theorem fits_beside {T : Type} {s : Schema T} {value : T} {d : ℕ} (hsmall : s.codec.Small value)
    (hdepth : s.codec.depth ≤ d) {before after : Entries}
    (hunknown : (Value.map (before ++ after)).Fits d)
    (hlength : before.length + s.fields.keys.length + after.length < 2 ^ 64) :
    (Value.map (before ++ s.write value ++ after)).Fits d := by
  obtain ⟨d, rfl⟩ : ∃ n, d = n + 1 := ⟨d - 1, by have : 0 < s.codec.depth := Nat.succ_pos _; omega⟩
  cases hunknown with
  | map _ hkeys hvalues =>
    have hfields : ∀ e ∈ s.write value,
        (Utf8.encode e.1).length < 2 ^ 64 ∧ e.2.Fits d := by
      intro e he
      have hkey := (s.fields.write_keys (s.equiv value)).subset (List.mem_map_of_mem he)
      exact ⟨s.short e.1 hkey,
        (s.fields.fits (s.equiv value) hsmall e he).mono (Nat.le_of_succ_le_succ hdepth)⟩
    have hall : ∀ e ∈ before ++ s.write value ++ after,
        (Utf8.encode e.1).length < 2 ^ 64 ∧ e.2.Fits d := by
      intro e he
      rcases List.mem_append.1 he with he | he
      · rcases List.mem_append.1 he with he | he
        · exact ⟨hkeys e (List.mem_append_left _ he), hvalues e (List.mem_append_left _ he)⟩
        · exact hfields e he
      · exact ⟨hkeys e (List.mem_append_right _ he), hvalues e (List.mem_append_right _ he)⟩
    have hwrite : (s.write value).length ≤ s.fields.keys.length := by
      have hle := (s.fields.write_keys (s.equiv value)).length_le
      rwa [List.length_map] at hle
    refine .map ?_ (fun e he => (hall e he).1) fun e he => (hall e he).2
    rw [List.length_append, List.length_append]
    omega

end Mouser
