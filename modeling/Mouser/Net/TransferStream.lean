import Mouser.Net.Handshake

/-!
# Messages of a transfer stream

`TransferStream::send_msg` frames what `to_cbor` has written, and `recv_msg` gives back the type and
the payload of a frame that `from_cbor` then reads.
-/

namespace Mouser

open Cbor

def FrameError.display : FrameError → String
  | .truncated => "frame truncated"
  | .tooLarge => "frame length out of range"

/-- What `send_message` sends, when the frame is not too large. -/
def bulkMessage (t : MessageType) (value : t.Payload) : Except String StreamMessage :=
  match toCbor (ciborium t.schema) value with
  | .error e => .error e.toString
  | .ok payload =>
    match encodeBulkFrame t.number 0 payload with
    | .error e => .error (LinkError.frame e.display).toString
    | .ok _ => .ok ⟨t.number, payload⟩

/-- `from_cbor`, with the text of the error. -/
def readAs (t : MessageType) (payload : List UInt8) : Except String t.Payload :=
  (fromCbor (ciborium t.schema) payload).mapError CodecError.toString

/-- The value can be written, in a frame of a bulk stream. -/
structure Sendable (t : MessageType) (value : t.Payload) : Prop where
  small : t.schema.codec.Small value
  length_le : 4 + (t.schema.codec.toValue value).encode.length ≤ maxBulkFrame

theorem Sendable.message {t : MessageType} {value : t.Payload} (h : Sendable t value) :
    ∃ m, bulkMessage t value = .ok m ∧ m.msgType = t.number ∧ readAs t m.payload = .ok value := by
  obtain ⟨payload, hwrite, hread⟩ := ciborium_roundTrips t.depth_le h.small
  have hpayload : payload = (t.schema.codec.toValue value).encode := (Except.ok.inj hwrite).symm
  refine ⟨⟨t.number, payload⟩, ?_, rfl, ?_⟩
  · rw [bulkMessage, hwrite]
    dsimp only
    have hlength : 4 + payload.length ≤ maxBulkFrame := hpayload ▸ h.length_le
    rw [encodeBulkFrame, encodeFrameCapped_ok.2 ⟨hlength, rfl⟩]
  · rw [readAs, hread]
    rfl

end Mouser
