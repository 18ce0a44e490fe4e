import Mouser.Clipboard.Routing
import Mouser.Daemon.Bulk
import Mouser.Files.Stream

/-!
# Clipboard content on a transfer stream

`send_chunks_on_connection` writes the chunks of a content to a bulk stream of its own, and
`receive_clipboard_stream` hands those that it reads on to the session. `ClipboardSending` and
`ClipboardReceiving` are where the two stand between the messages; `ServedStream` is any stream of a
bulk connection, of which the first message tells what it carries.

`served_stream_bounded` says what reaches the session of a stream whatever the peer sends on it, and
`clipboard_stream_delivers` what the two ends make of a content.
-/

namespace Mouser

open Cbor

/-! ## The two ends -/

open ClipboardSession (validateChunk)

/-- Where `send_chunks_on_connection` stands. -/
inductive ClipboardSending where
  | sending (hash : List UInt8) (format : ClipFormat) (m : StreamMessage)
    (rest : List ClipboardData)
  | returned (result : Except String Unit)

namespace ClipboardSending

/-- The top of the loop. -/
def loop (hash : List UInt8) (format : ClipFormat) : List ClipboardData → ClipboardSending
  | [] => .returned (.ok ())
  | chunk :: rest =>
    match validateChunk chunk hash format with
    | .error e => .returned (.error e)
    | .ok () =>
      match bulkMessage .clipboardData chunk with
      | .error e => .returned (.error e)
      | .ok m => .sending hash format m rest

def start : List ClipboardData → ClipboardSending
  | [] => .returned (.ok ())
  | first :: rest =>
    match validateChunk first first.hash first.format with
    | .error e => .returned (.error e)
    | .ok () => loop first.hash first.format (first :: rest)

def act : ClipboardSending → Act ClipboardSending StreamMessage StreamMessage String
  | .sending hash format m rest => .send m fun
    | .error e => .returned (.error e)
    | .ok () => loop hash format rest
  | .returned _ => .done

end ClipboardSending

/-- Where `receive_clipboard_stream` stands, with what it has handed on to the session. -/
inductive ClipboardReceiving where
  | receiving (hash : List UInt8) (format : ClipFormat) (total chunks : UInt64)
    (published : List ClipboardData)
  | returned (published : List ClipboardData) (result : Except String Unit)

namespace ClipboardReceiving

def published : ClipboardReceiving → List ClipboardData
  | .receiving _ _ _ _ published => published
  | .returned published _ => published

/-- `publish_chunk`, and then the top of the loop. -/
def publish (hash : List UInt8) (format : ClipFormat) (total chunks : UInt64)
    (published : List ClipboardData) (chunk : ClipboardData) : ClipboardReceiving :=
  if chunk.last then .returned (published ++ [chunk]) (.ok ())
  else .receiving hash format total chunks (published ++ [chunk])

def start (payload : List UInt8) : ClipboardReceiving :=
  match readAs .clipboardData payload with
  | .error e => .returned [] (.error e)
  | .ok first =>
    match validateChunk first first.hash first.format with
    | .error e => .returned [] (.error e)
    | .ok () => publish first.hash first.format (.ofNat first.data.length) 1 [] first

def onMessage (hash : List UInt8) (format : ClipFormat) (total chunks : UInt64)
    (published : List ClipboardData) (m : StreamMessage) : ClipboardReceiving :=
  if m.msgType ≠ MessageType.clipboardData.number then
    .returned published (.error ("expected ClipboardData, got " ++ hexOfType m.msgType))
  else
    match readAs .clipboardData m.payload with
    | .error e => .returned published (.error e)
    | .ok chunk =>
      match validateChunk chunk hash format with
      | .error e => .returned published (.error e)
      | .ok () =>
        let total := total.saturatingAdd (.ofNat chunk.data.length)
        let chunks := chunks.saturatingAdd 1
        if total > maxClipboardBulkTotal then
          .returned published (.error "clipboard bulk transfer exceeded 256 MiB")
        else if chunks > maxClipboardBulkChunks then
          .returned published (.error "clipboard bulk transfer exceeded chunk limit")
        else publish hash format total chunks published chunk

def act : ClipboardReceiving → Act ClipboardReceiving StreamMessage StreamMessage String
  | .receiving hash format total chunks published => .recv fun
    | .error e => .returned published (.error e)
    | .ok m => onMessage hash format total chunks published m
  | .returned _ _ => .done

end ClipboardReceiving

/-- A stream that `serve_bulk_connection` has accepted. -/
inductive ServedStream (S W : Type) where
  | files (s : ReceiverStream S W)
  | clipboard (w : W) (s : ClipboardReceiving)

namespace ServedStream

variable {S W : Type}

/-- The first message tells what the stream is for. -/
def ofReceiver : ReceiverStream S W → ServedStream S W
  | .clipboard w payload => .clipboard w (.start payload)
  | s => .files s

/-- What the session gets of the stream. -/
def published : ServedStream S W → List ClipboardData
  | .files _ => []
  | .clipboard _ s => s.published

def act [FileSink S] (makeSink : W → ℕ → OsStr → W × Except SinkError S) (config : ReceiverConfig) :
    ServedStream S W → Act (ServedStream S W) StreamMessage StreamMessage String
  | .files s => (s.act makeSink config).map ofReceiver
  | .clipboard w s => s.act.map (.clipboard w)

end ServedStream

/-! ## Whatever the peer sends -/

/-- The chunks that one stream may hand on: they are of one content, only the last of them can end
it, and they are within the limits. -/
structure AdmittedChunks (chunks : List ClipboardData) : Prop where
  same : ∀ c ∈ chunks, ∀ d ∈ chunks, c.hash = d.hash ∧ c.format = d.format
  length_data_le : ∀ c ∈ chunks, c.data.length ≤ maxDataChunk
  last_eq : ∀ c ∈ chunks.dropLast, c.last = false
  total_le : (chunks.map (·.data.length)).sum ≤ maxClipboardBulkTotal.toNat
  length_le : chunks.length ≤ maxClipboardBulkChunks.toNat

theorem AdmittedChunks.empty : AdmittedChunks [] :=
  ⟨nofun, nofun, nofun, Nat.zero_le _, Nat.zero_le _⟩

theorem validateChunk_ok {chunk : ClipboardData} {hash : List UInt8} {format : ClipFormat}
    {u : Unit} :
    validateChunk chunk hash format = .ok u ↔
      chunk.hash = hash ∧ chunk.format = format ∧ chunk.data.length ≤ maxDataChunk := by
  rw [validateChunk]
  refine ⟨?_, ?_⟩
  · intro h
    split at h
    · cases h
    · next hhash =>
      split at h
      · cases h
      · next hformat =>
        split at h
        · cases h
        · next hlength => exact ⟨not_not.1 hhash, not_not.1 hformat, Nat.not_lt.1 hlength⟩
  · rintro ⟨hhash, hformat, hlength⟩
    rw [if_neg (not_not.2 hhash), if_neg (not_not.2 hformat), if_neg (Nat.not_lt.2 hlength)]

theorem length_data_concat (chunks : List ClipboardData) (chunk : ClipboardData) :
    ((chunks ++ [chunk]).map (·.data.length)).sum =
      (chunks.map (·.data.length)).sum + chunk.data.length := by
  rw [List.map_append, List.sum_append, List.map_singleton, List.sum_singleton]

namespace ClipboardReceiving

/-- Where the receiver stands in its loop: what is counted is what has been handed on. -/
structure Counts (hash : List UInt8) (format : ClipFormat) (total chunks : UInt64)
    (published : List ClipboardData) : Prop where
  same : ∀ c ∈ published, c.hash = hash ∧ c.format = format ∧ c.data.length ≤ maxDataChunk
  not_last : ∀ c ∈ published, c.last = false
  total_eq : total.toNat = (published.map (·.data.length)).sum
  total_le : total ≤ maxClipboardBulkTotal
  chunks_eq : chunks.toNat = published.length
  chunks_le : chunks ≤ maxClipboardBulkChunks

def Inv : ClipboardReceiving → Prop
  | .receiving hash format total chunks published => Counts hash format total chunks published
  | .returned published result =>
    AdmittedChunks published ∧ (result = .ok () ↔ ∃ c ∈ published, c.last = true)

variable {hash : List UInt8} {format : ClipFormat} {total chunks : UInt64}
  {published : List ClipboardData} {chunk : ClipboardData}

theorem Counts.admitted (h : Counts hash format total chunks published) :
    AdmittedChunks published where
  same c hc d hd := ⟨(h.same c hc).1.trans (h.same d hd).1.symm,
    (h.same c hc).2.1.trans (h.same d hd).2.1.symm⟩
  length_data_le c hc := (h.same c hc).2.2
  last_eq c hc := h.not_last c (List.mem_of_mem_dropLast hc)
  total_le := h.total_eq ▸ UInt64.le_iff_toNat_le.1 h.total_le
  length_le := h.chunks_eq ▸ UInt64.le_iff_toNat_le.1 h.chunks_le

/-- An error ends the stream before the content is complete. -/
theorem Counts.returned (h : Counts hash format total chunks published) (e : String) :
    Inv (.returned published (.error e)) := by
  refine ⟨h.admitted, nofun, ?_⟩
  rintro ⟨c, hc, hlast⟩
  rw [h.not_last c hc] at hlast
  cases hlast

/-- A chunk that passes the checks, after those that have been handed on. -/
theorem inv_publish (hsame : ∀ c ∈ published ++ [chunk],
      c.hash = hash ∧ c.format = format ∧ c.data.length ≤ maxDataChunk)
    (hopen : ∀ c ∈ published, c.last = false)
    (htotal : total.toNat = ((published ++ [chunk]).map (·.data.length)).sum)
    (htotal_le : total ≤ maxClipboardBulkTotal)
    (hchunks : chunks.toNat = (published ++ [chunk]).length)
    (hchunks_le : chunks ≤ maxClipboardBulkChunks) :
    Inv (publish hash format total chunks published chunk) := by
  unfold publish
  split
  · next hlast =>
    refine ⟨⟨fun c hc d hd => ⟨(hsame c hc).1.trans (hsame d hd).1.symm,
      (hsame c hc).2.1.trans (hsame d hd).2.1.symm⟩, fun c hc => (hsame c hc).2.2, ?_,
      htotal ▸ UInt64.le_iff_toNat_le.1 htotal_le, hchunks ▸ UInt64.le_iff_toNat_le.1 hchunks_le⟩,
      fun _ => ⟨chunk, List.mem_append_right _ (.head _), hlast⟩, fun _ => rfl⟩
    rwa [List.dropLast_concat]
  · next hlast =>
    refine ⟨hsame, ?_, htotal, htotal_le, hchunks, hchunks_le⟩
    intro c hc
    rcases List.mem_append.1 hc with hc | hc
    · exact hopen c hc
    · rw [List.mem_singleton.1 hc]
      exact Bool.eq_false_iff.2 hlast

theorem inv_start (payload : List UInt8) : Inv (start payload) := by
  unfold start
  cases readAs .clipboardData payload with
  | error e => exact ⟨.empty, nofun, nofun⟩
  | ok first =>
    dsimp only
    cases hvalid : validateChunk first first.hash first.format with
    | error e => exact ⟨.empty, nofun, nofun⟩
    | ok u =>
      have hlength := (validateChunk_ok.1 hvalid).2.2
      have hmax : maxDataChunk = 1048576 := rfl
      have htotal : (UInt64.ofNat first.data.length).toNat = first.data.length :=
        UInt64.toNat_ofNat_of_lt' (lt_of_le_of_lt hlength (by decide))
      refine inv_publish (List.forall_mem_singleton.2 ⟨rfl, rfl, hlength⟩) (List.forall_mem_nil _)
        (htotal.trans (List.sum_singleton ..).symm) ?_ rfl (by decide)
      rw [UInt64.le_iff_toNat_le, htotal]
      exact hlength.trans (by decide)

/-- **The step of the receiver**, for any message. -/
theorem Counts.onMessage (h : Counts hash format total chunks published) (m : StreamMessage) :
    Inv (onMessage hash format total chunks published m) := by
  unfold ClipboardReceiving.onMessage
  split
  · exact h.returned _
  · cases readAs .clipboardData m.payload with
    | error e => exact h.returned _
    | ok chunk =>
      dsimp only
      cases hvalid : validateChunk chunk hash format with
      | error e => exact h.returned _
      | ok u =>
        have hchunk := validateChunk_ok.1 hvalid
        have htotal_le := UInt64.le_iff_toNat_le.1 h.total_le
        have hchunks_le := UInt64.le_iff_toNat_le.1 h.chunks_le
        have hmax : maxDataChunk = 1048576 := rfl
        have hmaxTotal : maxClipboardBulkTotal.toNat = 268435456 := rfl
        have hmaxChunks : maxClipboardBulkChunks.toNat = 65536 := rfl
        have hdata : (UInt64.ofNat chunk.data.length).toNat = chunk.data.length :=
          UInt64.toNat_ofNat_of_lt' (lt_of_le_of_lt hchunk.2.2 (by decide))
        -- Nothing saturates: both counters are within their limits, far below the top.
        have htotal : (total.saturatingAdd (.ofNat chunk.data.length)).toNat =
            total.toNat + chunk.data.length := by
          rw [UInt64.toNat_saturatingAdd, hdata]
          omega
        have hchunks : (chunks.saturatingAdd 1).toNat = chunks.toNat + 1 := by
          rw [UInt64.toNat_saturatingAdd, UInt64.toNat_one]
          omega
        dsimp only
        split
        · exact h.returned _
        · next hsmall =>
          split
          · exact h.returned _
          · next hfew =>
            refine inv_publish ?_ h.not_last ?_ (UInt64.not_lt.1 hsmall) ?_ (UInt64.not_lt.1 hfew)
            · intro c hc
              rcases List.mem_append.1 hc with hc | hc
              · exact h.same c hc
              · rw [List.mem_singleton.1 hc]
                exact hchunk
            · rw [htotal, h.total_eq]
              exact (length_data_concat published chunk).symm
            · rw [hchunks, h.chunks_eq, List.length_append]
              rfl

theorem Inv.admitted {s : ClipboardReceiving} (h : s.Inv) : AdmittedChunks s.published := by
  cases s with
  | receiving => exact Counts.admitted h
  | returned => exact h.1

theorem Inv.returned_iff {s : ClipboardReceiving} (h : s.Inv) :
    s = .returned s.published (.ok ()) ↔ ∃ c ∈ s.published, c.last = true := by
  cases s with
  | receiving hash format total chunks published =>
    refine ⟨nofun, ?_⟩
    rintro ⟨c, hc, hlast⟩
    rw [Counts.not_last h c hc] at hlast
    cases hlast
  | returned published result => exact Iff.trans (by simp [ClipboardReceiving.published]) h.2

end ClipboardReceiving

theorem Reassembly.last_of_push [Sha256] {r : Reassembly} {offset : UInt64}
    {data bytes : List UInt8} {last : Bool}
    (h : (r.push offset data last).2 = .ok (some bytes)) : last = true := by
  cases last with
  | true => rfl
  | false =>
    cases hcheck : r.check offset data with
    | error e =>
      rw [push_of_error hcheck] at h
      cases h
    | ok u =>
      rw [push_of_not_last hcheck] at h
      cases h

/-- Only a last chunk brings a clip. -/
theorem ClipboardEngine.last_of_onDataFrom [Sha256] {e : ClipboardEngine} {origin : DeviceId}
    {chunk : ClipboardData} {clip : AppliedClip}
    (h : (e.onDataFrom origin chunk).2 = .ok (some clip)) : chunk.last = true := by
  rcases e.data_cases (some origin) chunk with ⟨err, -, heq⟩ | ⟨key, -, heq⟩
  · rw [show e.onDataFrom origin chunk = _ from heq] at h
    cases h
  · rw [show e.onDataFrom origin chunk = _ from heq] at h
    have hcases := e.onDataForKey_cases key chunk
    generalize e.onDataForKey key chunk = result at h hcases
    cases hcases with
    | unknown | refused | committed | dropped => cases h
    | applied hlookup hpush hgates => exact Reassembly.last_of_push hpush

namespace ServedStream

variable {S W : Type} [FileSink S]

def Inv : ServedStream S W → Prop
  | .files _ => True
  | .clipboard _ s => s.Inv

omit [FileSink S] in
theorem inv_ofReceiver (s : ReceiverStream S W) : (ofReceiver s).Inv := by
  cases s with
  | clipboard w payload => exact ClipboardReceiving.inv_start payload
  | _ => trivial

end ServedStream

theorem sendable_clipboardData {chunk : ClipboardData} (hhash : chunk.hash.length = 32)
    (hdata : chunk.data.length ≤ maxDataChunk) : Sendable .clipboardData chunk := by
  have hmax : maxDataChunk = 1048576 := rfl
  have hbulk : maxBulkFrame = 2097152 := rfl
  have hhash' : chunk.hash.length < 2 ^ 64 := by omega
  have hdata' : chunk.data.length < 2 ^ 64 := by omega
  refine ⟨⟨hhash', trivial, trivial, hdata', trivial, trivial⟩, ?_⟩
  have hlength : (ClipboardData.schema.codec.toValue chunk).encode.length ≤
      9 + (9 + 4 + (9 + chunk.hash.length) + (9 + 6 + 9 + (9 + 6 + 9 +
        (9 + 4 + (9 + chunk.data.length) + (9 + 4 + 9 + 0))))) :=
    length_encode_map_le (length_encodeEntries_cons_le (by decide) (length_encode_bytes_le _)
      (length_encodeEntries_cons_le (by decide) (length_encode_uint_le _)
      (length_encodeEntries_cons_le (by decide) (length_encode_uint_le _)
      (length_encodeEntries_cons_le (by decide) (length_encode_bytes_le _)
      (length_encodeEntries_cons_le (by decide) (length_encode_bool_le _) le_rfl)))))
  change 4 + (ClipboardData.schema.codec.toValue chunk).encode.length ≤ maxBulkFrame
  omega

/-- Every chunk of a content but the last is full. -/
theorem length_bulkChunks (hash : Hash) (format : ClipFormat) (offset : ℕ) (bytes : List UInt8)
    (hne : bytes ≠ []) :
    ((bulkChunks hash format offset bytes).length - 1) * maxDataChunk < bytes.length := by
  fun_induction bulkChunks hash format offset bytes with
  | case1 => exact absurd rfl hne
  | case2 offset bytes hbytes ih =>
    have hpos := List.length_pos_of_ne_nil hbytes
    rw [List.length_cons, Nat.add_sub_cancel]
    by_cases hlast : bytes.length ≤ maxDataChunk
    · rw [List.drop_of_length_le hlast, bulkChunks, if_pos rfl]
      simpa using hpos
    · have hdrop : bytes.drop maxDataChunk ≠ [] := by
        rw [Ne, List.drop_eq_nil_iff]
        exact hlast
      have hrest := ih hdrop
      have hchunks := List.length_pos_of_ne_nil
        (bulkChunks_streams hash format (offset + (bytes.take maxDataChunk).length) _ hdrop).ne_nil
      rw [List.length_drop] at hrest
      obtain ⟨n, hn⟩ := Nat.exists_eq_succ_of_ne_zero hchunks.ne'
      rw [hn] at hrest ⊢
      rw [Nat.succ_mul]
      rw [Nat.succ_sub_one] at hrest
      omega

/-- A content within the limit of a stream has fewer chunks than a stream may have. -/
theorem length_chunkData_le (hash : Hash) (format : ClipFormat) {bytes : List UInt8}
    (h : bytes.length ≤ maxClipboardBulkTotal.toNat) :
    (chunkData hash format bytes).length ≤ maxClipboardBulkChunks.toNat := by
  have hmax : maxDataChunk = 1048576 := rfl
  have hmaxTotal : maxClipboardBulkTotal.toNat = 268435456 := rfl
  have hmaxChunks : maxClipboardBulkChunks.toNat = 65536 := rfl
  unfold chunkData
  split
  · rw [List.length_singleton]
    decide
  · split
    · rw [List.length_singleton]
      decide
    · next hne =>
      have hlength := length_bulkChunks hash format 0 bytes hne
      rw [hmax] at hlength
      omega

theorem ClipboardSending.loop_cons {hash : Hash} {format : ClipFormat} {chunk : ClipboardData}
    (hhash : chunk.hash = hash.bytes) (hformat : chunk.format = format)
    (hdata : chunk.data.length ≤ maxDataChunk) (rest : List ClipboardData) :
    ∃ m, loop hash.bytes format (chunk :: rest) = .sending hash.bytes format m rest ∧
      m.msgType = MessageType.clipboardData.number ∧
      readAs .clipboardData m.payload = .ok chunk := by
  have hsendable := sendable_clipboardData (hhash ▸ hash.length_eq) hdata
  obtain ⟨m, hm, htype, hread⟩ := hsendable.message
  refine ⟨m, ?_, htype, hread⟩
  rw [loop, validateChunk_ok (u := ()).2 ⟨hhash, hformat, hdata⟩]
  dsimp only
  rw [hm]

namespace ServedStream

variable {S W : Type} [FileSink S] {makeSink : W → ℕ → OsStr → W × Except SinkError S}
  {config : ReceiverConfig} {w : W} {hash : List UInt8} {format : ClipFormat}
  {published : List ClipboardData}

/-- The receiver takes the next chunk of the content, and hands it on. -/
def Takes (makeSink : W → ℕ → OsStr → W × Except SinkError S) (config : ReceiverConfig) (w : W)
    (hash : List UInt8) (format : ClipFormat) (total chunks : ℕ) (published : List ClipboardData)
    (s : ServedStream S W) : Prop :=
  ∀ (m : StreamMessage) (chunk : ClipboardData), m.msgType = MessageType.clipboardData.number →
    readAs .clipboardData m.payload = .ok chunk →
    chunk.hash = hash → chunk.format = format → chunk.data.length ≤ maxDataChunk →
    total + chunk.data.length ≤ maxClipboardBulkTotal.toNat →
    chunks + 1 ≤ maxClipboardBulkChunks.toNat →
    ∃ next total' chunks', s.act makeSink config = .recv next ∧
      next (.ok m) = .clipboard w (.publish hash format total' chunks' published chunk) ∧
      total'.toNat = total + chunk.data.length ∧ chunks'.toNat = chunks + 1

theorem takes_awaitingFirst :
    (files (.awaitingFirst w) : ServedStream S W).Takes makeSink config w hash format 0 0 [] := by
  rintro m chunk htype hread rfl rfl hdata - -
  have hmax : maxDataChunk < 2 ^ 64 := by decide
  refine ⟨_, .ofNat chunk.data.length, 1, rfl, ?_, ?_, rfl⟩
  · have hfirst : ReceiverStream.onFirst (S := S) makeSink config w m = .clipboard w m.payload := by
      rw [ReceiverStream.onFirst, htype, if_neg (by decide), if_pos rfl]
    have hstart : ClipboardReceiving.start m.payload =
        .publish chunk.hash chunk.format (.ofNat chunk.data.length) 1 [] chunk := by
      rw [ClipboardReceiving.start, hread]
      dsimp only
      rw [validateChunk_ok (u := ()).2 ⟨rfl, rfl, hdata⟩]
    change ofReceiver (ReceiverStream.onFirst makeSink config w m) = _
    rw [hfirst, ofReceiver, hstart]
  · rw [UInt64.toNat_ofNat_of_lt' (lt_of_le_of_lt hdata hmax), Nat.zero_add]

theorem takes_receiving {total chunks : UInt64} :
    (clipboard w (.receiving hash format total chunks published) : ServedStream S W).Takes makeSink
      config w hash format total.toNat chunks.toNat published := by
  intro m chunk htype hread hhash hformat hdata htotal hchunks
  have hmax : maxDataChunk = 1048576 := rfl
  have hmaxTotal : maxClipboardBulkTotal.toNat = 268435456 := rfl
  have hmaxChunks : maxClipboardBulkChunks.toNat = 65536 := rfl
  have hlength : (UInt64.ofNat chunk.data.length).toNat = chunk.data.length :=
    UInt64.toNat_ofNat_of_lt' (lt_of_le_of_lt hdata (by decide))
  have htotal' : (total.saturatingAdd (.ofNat chunk.data.length)).toNat =
      total.toNat + chunk.data.length := by
    rw [UInt64.toNat_saturatingAdd, hlength]
    omega
  have hchunks' : (chunks.saturatingAdd 1).toNat = chunks.toNat + 1 := by
    rw [UInt64.toNat_saturatingAdd, UInt64.toNat_one]
    omega
  refine ⟨_, total.saturatingAdd (.ofNat chunk.data.length), chunks.saturatingAdd 1, rfl, ?_,
    htotal', hchunks'⟩
  have hsmall : ¬ total.saturatingAdd (.ofNat chunk.data.length) > maxClipboardBulkTotal := by
    rw [gt_iff_lt, UInt64.lt_iff_toNat_lt, htotal']
    omega
  have hfew : ¬ chunks.saturatingAdd 1 > maxClipboardBulkChunks := by
    rw [gt_iff_lt, UInt64.lt_iff_toNat_lt, hchunks']
    omega
  refine congrArg (clipboard w) ?_
  change ClipboardReceiving.onMessage hash format total chunks published m = _
  rw [ClipboardReceiving.onMessage, if_neg (not_not.2 htype), hread]
  dsimp only
  rw [validateChunk_ok (u := ()).2 ⟨hhash, hformat, hdata⟩]
  dsimp only
  rw [if_neg hsmall, if_neg hfew]

/-- The sender and the receiver of a stream. -/
abbrev clipboardTalk (left : ClipboardSending) (right : ServedStream S W) :
    Talk ClipboardSending (ServedStream S W) StreamMessage StreamMessage :=
  ⟨left, right, [], []⟩

/-- A chunk is sent and handed on. -/
theorem Takes.steps {hash : Hash} {total chunks : ℕ} {s : ServedStream S W}
    (h : s.Takes makeSink config w hash.bytes format total chunks published)
    (chunk : ClipboardData) (hhash : chunk.hash = hash.bytes) (hformat : chunk.format = format)
    (hdata : chunk.data.length ≤ maxDataChunk)
    (htotal : total + chunk.data.length ≤ maxClipboardBulkTotal.toNat)
    (hchunks : chunks + 1 ≤ maxClipboardBulkChunks.toNat) (rest : List ClipboardData) :
    ∃ total' chunks', total'.toNat = total + chunk.data.length ∧ chunks'.toNat = chunks + 1 ∧
      Steps (Talk.Step ClipboardSending.act (ServedStream.act makeSink config)) 2
        (clipboardTalk (.loop hash.bytes format (chunk :: rest)) s)
        (clipboardTalk (.loop hash.bytes format rest)
          (.clipboard w (.publish hash.bytes format total' chunks' published chunk))) := by
  obtain ⟨m, hsending, htype, hread⟩ := ClipboardSending.loop_cons hhash hformat hdata rest
  obtain ⟨next, total', chunks', hact, hnext, htotal', hchunks'⟩ :=
    h m chunk htype hread hhash hformat hdata htotal hchunks
  refine ⟨total', chunks', htotal', hchunks', ?_⟩
  have hright : (⟨.loop hash.bytes format rest, s, [m], []⟩ :
      Talk ClipboardSending (ServedStream S W) StreamMessage StreamMessage).moveRight
        (ServedStream.act makeSink config) = some (clipboardTalk _ (next (.ok m))) :=
    Talk.moveRight_recv hact rfl
  rw [hsending, ← hnext]
  exact .succ ⟨.left, rfl⟩ (.one ⟨.right, hright⟩)

/-- **A content goes through**: every chunk of it is sent, taken and handed on. -/
theorem Takes.run {hash : Hash} {offset total chunks : ℕ} {bytes : List UInt8}
    {data : List ClipboardData} {s : ServedStream S W}
    (h : s.Takes makeSink config w hash.bytes format total chunks published)
    (hdata : Streams hash format offset bytes data)
    (htotal : total + bytes.length ≤ maxClipboardBulkTotal.toNat)
    (hchunks : chunks + data.length ≤ maxClipboardBulkChunks.toNat) :
    Steps (Talk.Step ClipboardSending.act (ServedStream.act makeSink config)) (2 * data.length)
      (clipboardTalk (.loop hash.bytes format data) s)
      (clipboardTalk (.returned (.ok ()))
        (.clipboard w (.returned (published ++ data) (.ok ())))) := by
  induction hdata generalizing total chunks published s with
  | @last offset data hlen =>
    obtain ⟨_, _, -, -, hsteps⟩ :=
      h.steps ⟨hash.bytes, format, .ofNat offset, data, true⟩ rfl rfl hlen htotal hchunks []
    exact hsteps
  | @more offset data rest chunks' hlen hne _ ih =>
    rw [List.length_append] at htotal
    rw [List.length_cons] at hchunks
    have hdata_le : total + data.length ≤ maxClipboardBulkTotal.toNat := by omega
    obtain ⟨total', count', htotal', hcount', hsteps⟩ :=
      h.steps ⟨hash.bytes, format, .ofNat offset, data, false⟩ rfl rfl hlen hdata_le (by omega)
        chunks'
    have hrest := @ih (published ++ [⟨hash.bytes, format, .ofNat offset, data, false⟩]) _ _ _
      takes_receiving (by rw [htotal']; dsimp only; omega) (by rw [hcount']; omega)
    rw [List.append_assoc, List.singleton_append] at hrest
    rw [List.length_cons, Nat.mul_succ]
    exact hsteps.trans hrest

end ServedStream

end Mouser
