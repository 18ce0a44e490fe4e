import Mouser.Clipboard.Driver
import Mouser.Clipboard.RoundTrip
import Mouser.Lib.Lists
import Mouser.Protocol.Codec
import Mouser.Protocol.Framing

/-!
# Which plane carries a clip

The size of a content decides on its plane three times: `chunk_data` cuts it into messages,
`is_control_data` looks at one message, on the sender's and on the receiver's side, and the frames
have their caps. The three agree (`routeFrames_chunkData`): the messages of a content that belongs
on the control stream are sent there, those of any other content are sent over the bulk plane, and
all of them fit. Without a bulk plane a content that belongs there is not sent; it is not offered
either (`supportedOffer_control`).
-/

namespace Mouser

def typeClipboardData : UInt16 := 0x52

/-! ## The frames of the messages -/

namespace ClipboardSession

variable {T : Type}

structure ControlFrame where
  ty : UInt16
  payload : List UInt8
deriving DecidableEq

def ControlFrame.encode (c : Ciborium T) (ty : UInt16) (value : T) : Option ControlFrame :=
  match toCbor c value with
  | .ok payload => some { ty, payload }
  | .error _ => none

/-- What the session hands to `handle_output`. -/
inductive ClipboardOutput where
  | control (frame : ControlFrame)
  | bulk (chunks : List ClipboardData)
deriving DecidableEq

/-- The loop of `route_clipboard_data`, with the frames that it encodes. -/
def routeFrames (c : Ciborium ClipboardData) (data : List ClipboardData) (bulkEnabled : Bool) :
    List ClipboardOutput :=
  let (outputs, bulk) := data.foldl (fun (outputs, bulk) chunk =>
    if isControlData chunk then
      match ControlFrame.encode c typeClipboardData chunk with
      | some frame => (outputs ++ [.control frame], bulk)
      | none => (outputs, bulk)
    else if bulkEnabled then (outputs, bulk ++ [chunk])
    else (outputs, bulk)) ([], [])
  if !bulk.isEmpty then outputs ++ [.bulk bulk] else outputs

/-- `Display` of an error of the codec. -/
def codecErrorText : CodecError → String
  | .encode m => s!"cbor encode: {m}"
  | .decode m => s!"cbor decode: {m}"

/-- `Display` of an error of a frame, as an error of the net. -/
def frameErrorText : FrameError → String
  | .truncated => "frame: frame truncated"
  | .tooLarge => "frame: frame length out of range"

def validateChunk (data : ClipboardData) (hash : List UInt8) (format : ClipFormat) :
    Except String Unit :=
  if data.hash ≠ hash then .error "clipboard bulk stream changed hash mid-transfer"
  else if data.format ≠ format then .error "clipboard bulk stream changed format mid-transfer"
  else if data.data.length > maxDataChunk then .error "clipboard bulk chunk exceeded 1 MiB"
  else .ok ()

/-- The frame of one message, as `send_msg` encodes it. -/
def bulkFrame (c : Ciborium ClipboardData) (chunk : ClipboardData) :
    Except String (List UInt8) := do
  let payload ← (toCbor c chunk).mapError codecErrorText
  (encodeBulkFrame typeClipboardData 0 payload).mapError frameErrorText

/-- The frames that `send_chunks_on_connection` writes to a stream that takes them all. -/
def sendChunks (c : Ciborium ClipboardData) : List ClipboardData →
    Except String (List (List UInt8))
  | [] => .ok []
  | first :: rest => do
    validateChunk first first.hash first.format
    (first :: rest).mapM fun chunk => do
      validateChunk chunk first.hash first.format
      bulkFrame c chunk

end ClipboardSession

/-! ## The messages of a content -/

namespace Streams

variable {hash : Hash} {format : ClipFormat} {offset : ℕ} {bytes : List UInt8}
  {chunks : List ClipboardData}

theorem flatten_data (h : Streams hash format offset bytes chunks) :
    (chunks.map (·.data)).flatten = bytes := by
  induction h with
  | last hlen => simp
  | more hlen hne h ih => rw [List.map_cons, List.flatten_cons, ih]

theorem length_data_le (h : Streams hash format offset bytes chunks) :
    ∀ chunk ∈ chunks, chunk.data.length ≤ maxDataChunk := by
  induction h with
  | last hlen => exact List.forall_mem_singleton.2 hlen
  | more hlen hne h ih => exact List.forall_mem_cons.2 ⟨hlen, ih⟩

/-- The messages of a content that does not belong on the control stream do not either. -/
theorem isControlData_eq_false (h : Streams hash format 0 bytes chunks)
    (hlen : bytes.length < 2 ^ 64) (hbulk : transportFor format bytes.length ≠ .control) :
    ∀ chunk ∈ chunks, isControlData chunk = false := by
  intro chunk hchunk
  have htail := h.mem_tail (by omega)
  cases h with
  | last =>
    obtain rfl := List.mem_singleton.1 hchunk
    simp [isControlData, hbulk]
  | more hlen hne h =>
    rcases List.mem_cons.1 hchunk with rfl | hchunk
    · simp [isControlData]
    · have hoffset : chunk.offset ≠ 0 := by
        intro hzero
        have hpos := htail chunk hchunk
        rw [hzero] at hpos
        exact absurd hpos (by decide)
      simp [isControlData, hoffset]

end Streams

theorem le_controlTextCap {format : ClipFormat} {size : ℕ}
    (h : transportFor format size = .control) : size ≤ controlTextCap := by
  unfold transportFor at h
  split at h
  · next hsmall =>
    simp only [Bool.and_eq_true, decide_eq_true_eq] at hsmall
    exact hsmall.2
  · cases h

/-- A message is judged as the content that it is a part of. -/
theorem isControlData_iff {hash : Hash} {format : ClipFormat} {bytes : List UInt8}
    (hlen : bytes.length < 2 ^ 64) {chunk : ClipboardData}
    (hchunk : chunk ∈ chunkData hash format bytes) :
    isControlData chunk = true ↔ transportFor format bytes.length = .control := by
  by_cases hcontrol : transportFor format bytes.length = .control
  · rw [chunkData, if_pos hcontrol, List.mem_singleton] at hchunk
    subst hchunk
    have hsmall := le_controlTextCap hcontrol
    simp [isControlData, hcontrol, hsmall]
  · have hfalse := (chunkData_streams hash format bytes).isControlData_eq_false hlen hcontrol chunk
      hchunk
    simp [hfalse, hcontrol]

namespace ClipboardSession

variable (c : Ciborium ClipboardData)

/-- What a message or a batch of the session becomes. -/
def encodeOutput : SessionOutput → List ClipboardOutput
  | .data chunk => ((ControlFrame.encode c typeClipboardData chunk).map .control).toList
  | .bulk chunks => [.bulk chunks]
  | .offer _ | .pull _ | .applied _ _ => []

/-- **The frames are those of the messages that the session routes.** -/
theorem routeFrames_eq (data : List ClipboardData) (bulkEnabled : Bool) :
    routeFrames c data bulkEnabled =
      (routeClipboardData data bulkEnabled).flatMap (encodeOutput c) := by
  have hloop : ∀ outputs bulk, data.foldl (fun (outputs, bulk) chunk =>
      if isControlData chunk then
        match ControlFrame.encode c typeClipboardData chunk with
        | some frame => (outputs ++ [.control frame], bulk)
        | none => (outputs, bulk)
      else if bulkEnabled then (outputs, bulk ++ [chunk])
      else (outputs, bulk)) (outputs, bulk) =
        (outputs ++ ((data.filter isControlData).map SessionOutput.data).flatMap (encodeOutput c),
          bulk ++ if bulkEnabled then data.filter (!isControlData ·) else []) := by
    induction data with
    | nil => simp
    | cons chunk data ih =>
      intro outputs bulk
      rw [List.foldl_cons, ih]
      cases hcontrol : isControlData chunk with
      | true =>
        cases hframe : ControlFrame.encode c typeClipboardData chunk <;>
          simp [hcontrol, hframe, encodeOutput]
      | false => cases bulkEnabled <;> simp [hcontrol]
  rw [routeFrames, hloop]
  simp only [routeClipboardData, List.nil_append, List.flatMap_append]
  by_cases hbulk : (if bulkEnabled then data.filter (!isControlData ·) else []) = []
  · simp [hbulk]
  · simp [hbulk, encodeOutput]

/-- Every message of a content belongs on the control stream, or none does. -/
theorem routeClipboardData_chunkData (hash : Hash) (format : ClipFormat) {bytes : List UInt8}
    (hlen : bytes.length < 2 ^ 64) (bulkEnabled : Bool) :
    routeClipboardData (chunkData hash format bytes) bulkEnabled =
      if transportFor format bytes.length = .control then
        (chunkData hash format bytes).map .data
      else if bulkEnabled then [.bulk (chunkData hash format bytes)] else [] := by
  have hjudged : ∀ chunk ∈ chunkData hash format bytes,
      isControlData chunk = decide (transportFor format bytes.length = .control) := by
    intro chunk hchunk
    rw [Bool.eq_iff_iff, isControlData_iff hlen hchunk, decide_eq_true_iff]
  have hne := (chunkData_streams hash format bytes).ne_nil
  by_cases hcontrol : transportFor format bytes.length = .control
  · have hall : (chunkData hash format bytes).filter isControlData = chunkData hash format bytes :=
      List.filter_eq_self.2 fun chunk h => by rw [hjudged chunk h, decide_eq_true hcontrol]
    have hnone : (chunkData hash format bytes).filter (!isControlData ·) = [] :=
      List.filter_eq_nil_iff.2 fun chunk h => by simp [hjudged chunk h, hcontrol]
    rw [routeClipboardData, hall, hnone, if_pos hcontrol]
    simp
  · have hnone : (chunkData hash format bytes).filter isControlData = [] :=
      List.filter_eq_nil_iff.2 fun chunk h => by simp [hjudged chunk h, hcontrol]
    have hall : (chunkData hash format bytes).filter (!isControlData ·) =
        chunkData hash format bytes :=
      List.filter_eq_self.2 fun chunk h => by simp [hjudged chunk h, hcontrol]
    rw [routeClipboardData, hall, hnone, if_neg hcontrol]
    cases bulkEnabled with
    | true => simp [hne]
    | false => simp

/-! ## The frames fit -/

variable {c}

/-- A message with a hash and a chunk is encoded, and its encoding is read as the message. -/
theorem toCbor_data (hc : c.WritesMaps ClipboardData.fields) {chunk : ClipboardData}
    (hhash : chunk.hash.length = 32) (hdata : chunk.data.length ≤ maxDataChunk) :
    ∃ payload, toCbor c chunk = .ok payload ∧ fromCbor c payload = .ok chunk ∧
      payload.length ≤ 155 + chunk.data.length := by
  refine ⟨Cbor.encodeMap chunk.fields, ?_, ?_, ?_⟩
  · rw [toCbor, hc.intoWriter_eq]
    rfl
  · have hmax : maxDataChunk < 2 ^ 64 := by decide
    exact fromCbor_encodeMap hc (by decide : 5 < 24)
      (ClipboardData.fits_fields (by omega) (by omega))
  · have hle := chunk.length_encodeMap_fields_le
    omega

theorem encode_data (hc : c.WritesMaps ClipboardData.fields) (chunk : ClipboardData)
    (hhash : chunk.hash.length = 32) (hdata : chunk.data.length ≤ controlTextCap) :
    ∃ payload frame, ControlFrame.encode c typeClipboardData chunk =
        some { ty := typeClipboardData, payload } ∧
      encodeFrame typeClipboardData 0 payload = .ok frame ∧ fromCbor c payload = .ok chunk := by
  have hcaps : controlTextCap ≤ maxDataChunk := by decide
  obtain ⟨payload, hto, hfrom, hlength⟩ := toCbor_data hc hhash (hdata.trans hcaps)
  have hfits : 155 + controlTextCap + 4 ≤ maxControlFrame := by decide
  refine ⟨payload, _, ?_, encodeFrameCapped_ok.2 ⟨by omega, rfl⟩, hfrom⟩
  rw [ControlFrame.encode, hto]

/-- The chunk is in the frame, which is within the cap of the bulk plane. -/
def BulkFrameOf (c : Ciborium ClipboardData) (chunk : ClipboardData) (frame : List UInt8) : Prop :=
  ∃ payload, encodeBulkFrame typeClipboardData 0 payload = .ok frame ∧
    fromCbor c payload = .ok chunk

theorem bulkFrame_data (hc : c.WritesMaps ClipboardData.fields) {chunk : ClipboardData}
    (hhash : chunk.hash.length = 32) (hdata : chunk.data.length ≤ maxDataChunk) :
    ∃ frame, bulkFrame c chunk = .ok frame ∧ BulkFrameOf c chunk frame := by
  obtain ⟨payload, hto, hfrom, hlength⟩ := toCbor_data hc hhash hdata
  have hfits : 155 + maxDataChunk + 4 ≤ maxBulkFrame := by decide
  have hframe : encodeBulkFrame typeClipboardData 0 payload = .ok _ :=
    encodeFrameCapped_ok.2 ⟨by omega, rfl⟩
  refine ⟨_, ?_, payload, hframe, hfrom⟩
  rw [bulkFrame, hto]
  dsimp only [Except.mapError, bind, Except.bind]
  rw [hframe]

/-- The messages of one content are all sent over the bulk plane. -/
theorem sendChunks_data (hc : c.WritesMaps ClipboardData.fields) (hash : Hash)
    (format : ClipFormat) {chunks : List ClipboardData}
    (h : ∀ chunk ∈ chunks, chunk.hash = hash.bytes ∧ chunk.format = format ∧
      chunk.data.length ≤ maxDataChunk) :
    ∃ frames, sendChunks c chunks = .ok frames ∧ List.Forall₂ (BulkFrameOf c) chunks frames := by
  have hvalid : ∀ chunk ∈ chunks, validateChunk chunk hash.bytes format = .ok () := by
    intro chunk hchunk
    obtain ⟨hhash, hformat, hdata⟩ := h chunk hchunk
    rw [validateChunk, if_neg (not_not.2 hhash), if_neg (not_not.2 hformat),
      if_neg (Nat.not_lt.2 hdata)]
  obtain ⟨frames, hframes, hall⟩ := List.exists_mapM_eq_ok (R := BulkFrameOf c) (l := chunks)
    (f := fun chunk => do
      validateChunk chunk hash.bytes format
      bulkFrame c chunk) (by
    intro chunk hchunk
    obtain ⟨hhash, -, hdata⟩ := h chunk hchunk
    rw [hvalid chunk hchunk]
    exact bulkFrame_data hc (hhash ▸ hash.length_eq) hdata)
  cases chunks with
  | nil => exact ⟨[], rfl, .nil⟩
  | cons first rest =>
    obtain ⟨hhash, hformat, -⟩ := h first (.head _)
    refine ⟨frames, ?_, hall⟩
    rw [sendChunks, hhash, hformat, hvalid first (.head _)]
    exact hframes

/-- **The three judgements agree.** A content of which every message belongs on the control stream
is one message, in one frame of the control stream, which the receiver decodes and accepts there. A
content of which no message belongs there is sent in frames of the bulk plane, one for each message,
or not at all without a bulk plane. The messages carry the content. -/
theorem routeFrames_chunkData (c : Ciborium ClipboardData) (hc : c.WritesMaps ClipboardData.fields)
    (hash : Hash) (format : ClipFormat) (bytes : List UInt8) (hlen : bytes.length < 2 ^ 64)
    (bulkEnabled : Bool) :
    let chunks := chunkData hash format bytes
    (chunks.map (·.data)).flatten = bytes ∧
    (∀ chunk ∈ chunks,
      isControlData chunk = true ↔ transportFor format bytes.length = .control) ∧
    (transportFor format bytes.length = .control →
      ∃ chunk payload frame, chunks = [chunk] ∧ chunk.data.length ≤ controlTextCap ∧
        routeFrames c chunks bulkEnabled =
          [.control { ty := typeClipboardData, payload }] ∧
        encodeFrame typeClipboardData 0 payload = .ok frame ∧
        decodeFrame frame =
          .ok ({ msgType := typeClipboardData, flags := 0, payload }, frame.length) ∧
        fromCbor c payload = .ok chunk) ∧
    (transportFor format bytes.length = .bulk →
      routeFrames c chunks bulkEnabled = (if bulkEnabled then [.bulk chunks] else []) ∧
      (∀ chunk ∈ chunks, chunk.data.length ≤ maxDataChunk) ∧
      ∃ frames, sendChunks c chunks = .ok frames ∧
        List.Forall₂ (BulkFrameOf c) chunks frames) := by
  intro chunks
  have hstreams := chunkData_streams hash format bytes
  have hroute := routeClipboardData_chunkData hash format hlen bulkEnabled
  refine ⟨hstreams.flatten_data, fun chunk => isControlData_iff hlen, ?_, ?_⟩
  · intro hcontrol
    have hchunks : chunks = [{ hash := hash.bytes, format, offset := 0, data := bytes
                               last := true }] := if_pos hcontrol
    obtain ⟨payload, frame, hpayload, hframe, hfrom⟩ :=
      encode_data hc { hash := hash.bytes, format, offset := 0, data := bytes, last := true }
        hash.length_eq (le_controlTextCap hcontrol)
    refine ⟨_, payload, frame, hchunks, le_controlTextCap hcontrol, ?_, hframe, ?_, hfrom⟩
    · rw [routeFrames_eq, hroute, if_pos hcontrol]
      change (chunks.map SessionOutput.data).flatMap (encodeOutput c) = _
      rw [hchunks]
      simp [encodeOutput, hpayload]
    · have hdecode := decodeFrame_encodeFrame hframe []
      rwa [List.append_nil] at hdecode
  · intro hbulk
    have hcontrol : transportFor format bytes.length ≠ .control := by simp [hbulk]
    refine ⟨?_, hstreams.length_data_le, ?_⟩
    · rw [routeFrames_eq, hroute, if_neg hcontrol]
      cases bulkEnabled <;> rfl
    · refine sendChunks_data hc hash format fun chunk hchunk => ?_
      obtain ⟨hhash, hformat, -⟩ := hstreams.mem (by omega) chunk hchunk
      exact ⟨hhash, hformat, hstreams.length_data_le chunk hchunk⟩

/-- The text `abc` is one frame of the control stream. -/
theorem routeFrames_chunkData_abc :
    ∃ payload frame, routeFrames ClipboardData.ciborium
        (chunkData Hash.ofAbc .utf8Text [97, 98, 99]) true =
          [.control { ty := typeClipboardData, payload }] ∧
      encodeFrame typeClipboardData 0 payload = .ok frame ∧
      fromCbor ClipboardData.ciborium payload = .ok ClipboardEngine.abcData := by
  obtain ⟨chunk, payload, frame, hchunks, -, hroute, hframe, -, hfrom⟩ :=
    (routeFrames_chunkData ClipboardData.ciborium ClipboardData.ciborium_writesMaps Hash.ofAbc
      .utf8Text [97, 98, 99] (by decide) true).2.2.1 (by decide)
  obtain rfl : ClipboardEngine.abcData = chunk := List.head_eq_of_cons_eq hchunks
  exact ⟨payload, frame, hroute, hframe, hfrom⟩

/-- Without a bulk plane an image of one byte is sent nowhere. -/
theorem routeFrames_png_of_control_only :
    ¬ ∀ (c : Ciborium ClipboardData), c.WritesMaps ClipboardData.fields →
      ∀ (hash : Hash) (format : ClipFormat) (bytes : List UInt8) (bulkEnabled : Bool),
        routeFrames c (chunkData hash format bytes) bulkEnabled ≠ [] := by
  intro h
  refine h ClipboardData.ciborium ClipboardData.ciborium_writesMaps Hash.ofAbc .png [137] false ?_
  rw [routeFrames_eq, routeClipboardData_chunkData _ _ (by decide), if_neg (by decide)]
  rfl

end ClipboardSession

/-- What cannot be sent is not offered. -/
theorem supportedOffer_control {offer offer' : ClipboardOffer}
    (h : supportedOffer offer false = some offer') :
    ∀ entry ∈ offer'.entries, transportFor entry.format entry.size.toNat = .control := by
  unfold supportedOffer at h
  dsimp only at h
  split at h
  · cases h
  · cases h
    intro entry hentry
    have hsupported := (List.mem_filter.1 hentry).2
    simpa [supportedEntry, controlEntry] using hsupported

end Mouser
