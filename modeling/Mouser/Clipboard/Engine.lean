import Mathlib.Data.List.MinMax
import Mouser.Clipboard.Canonical
import Mouser.Clipboard.Settings
import Mouser.Clipboard.Tracking
import Mouser.Lib.Machine

/-!
# The clipboard engine

`ClipboardEngine` is one device's side of the clipboard: what was copied is offered, an offer is
answered by a pull of its best representation, a pull by the chunks of the content, and the chunks
are put together and handed on as an `AppliedClip`. `OfferStep` and `DataStep` say all that an offer
and a chunk can do.
-/

namespace Mouser

/-- A text up to this size is sent in one message of the control stream. -/
def controlTextCap : ℕ := 64 * 1024

/-- One representation that the local clipboard holds, as the platform reported it. -/
structure LocalRepr where
  format : ClipFormat
  bytes : List UInt8
deriving DecidableEq

/-- A pulled content to be written to the clipboard. -/
structure AppliedClip where
  format : ClipFormat
  bytes : List UInt8
deriving DecidableEq

/-- Where the content that was offered is held. -/
class ClipContentSource (S : Type) where
  canonicalBytes : S → ClipFormat → Hash → Option (List UInt8)

/-- The content is held in a list. -/
structure MemContentSource where
  entries : List (ClipFormat × Hash × List UInt8)

namespace MemContentSource

def new : MemContentSource := ⟨[]⟩

def insert (s : MemContentSource) (format : ClipFormat) (hash : Hash) (bytes : List UInt8) :
    MemContentSource :=
  ⟨s.entries ++ [(format, hash, bytes)]⟩

instance : ClipContentSource MemContentSource where
  canonicalBytes s format hash :=
    (s.entries.find? fun (f, h, _) => f = format ∧ h = hash).map fun (_, _, bytes) => bytes

end MemContentSource

/-! ## Which plane carries a content -/

inductive Transport where
  | control
  | bulk
deriving DecidableEq

def isTextFormat : ClipFormat → Bool
  | .utf8Text | .html | .rtf | .uriList => true
  | .png | .unknown => false

def transportFor (format : ClipFormat) (canonicalSize : ℕ) : Transport :=
  if isTextFormat format && canonicalSize ≤ controlTextCap then .control else .bulk

/-- The loop of `chunk_data`, at `offset` with `bytes` still to be sent. -/
def bulkChunks (hash : Hash) (format : ClipFormat) (offset : ℕ) (bytes : List UInt8) :
    List ClipboardData :=
  if bytes = [] then []
  else
    { hash := hash.bytes
      format
      offset := .ofNat offset
      data := bytes.take maxDataChunk
      last := bytes.length ≤ maxDataChunk } ::
    bulkChunks hash format (offset + (bytes.take maxDataChunk).length) (bytes.drop maxDataChunk)
termination_by bytes.length
decreasing_by
  have hpos : 0 < bytes.length := List.length_pos_of_ne_nil ‹_›
  have hchunk : 0 < maxDataChunk := by decide
  rw [List.length_drop]
  omega

/-- The messages that carry a content, in order. -/
def chunkData (hash : Hash) (format : ClipFormat) (bytes : List UInt8) : List ClipboardData :=
  if transportFor format bytes.length = .control then
    [{ hash := hash.bytes, format, offset := 0, data := bytes, last := true }]
  else if bytes = [] then
    [{ hash := hash.bytes, format, offset := 0, data := [], last := true }]
  else bulkChunks hash format 0 bytes

/-! ## The engine -/

structure ClipboardEngine where
  deviceId : DeviceId
  localOs : Os
  settings : ClipboardSettings
  applied : AppliedLog
  pending : PendingPulls
  nowTick : UInt64

/-- The formats, the one that is pulled first before the others. -/
def preference : List ClipFormat := [.png, .rtf, .html, .uriList, .utf8Text]

def preferenceRank (format : ClipFormat) : Option ℕ := preference.findIdx? (· = format)

def parseDeviceId (bytes : List UInt8) : Except ClipboardError DeviceId :=
  match toId bytes with
  | some id => .ok id
  | none => .error (.protocol "origin is not 32 bytes")

def parseHash (bytes : List UInt8) : Except ClipboardError Hash :=
  match Hash.ofBytes bytes with
  | some hash => .ok hash
  | none => .error (.protocol "hash is not 32 bytes")

theorem parseDeviceId_eq_ok_iff {bytes : List UInt8} {id : DeviceId} :
    parseDeviceId bytes = .ok id ↔ bytes = id.bytes := by
  unfold parseDeviceId toId
  refine ⟨?_, ?_⟩
  · intro h
    split at h
    · next id' hid =>
      cases h
      split at hid
      · cases hid
        rfl
      · cases hid
    · cases h
  · rintro rfl
    rw [dif_pos id.length_eq]

theorem parseHash_eq_ok_iff {bytes : List UInt8} {hash : Hash} :
    parseHash bytes = .ok hash ↔ bytes = hash.bytes := by
  unfold parseHash Hash.ofBytes
  refine ⟨?_, ?_⟩
  · intro h
    split at h
    · next hash' hhash =>
      cases h
      split at hhash
      · cases hhash
        rfl
      · cases hhash
    · cases h
  · rintro rfl
    rw [dif_pos hash.length_eq]

namespace ClipboardEngine

def new (deviceId : DeviceId) (localOs : Os) (settings : ClipboardSettings) : ClipboardEngine where
  deviceId := deviceId
  localOs := localOs
  settings := settings
  applied := []
  pending := .empty
  nowTick := 0

def setSettings (e : ClipboardEngine) (settings : ClipboardSettings) : ClipboardEngine :=
  { e with settings }

section

variable [Sha256]

/-- The loop of `on_local_change`. -/
def offerEntries (settings : ClipboardSettings) (applied : AppliedLog) :
    List LocalRepr → AppliedLog × List ClipboardEntry
  | [] => (applied, [])
  | rep :: reps =>
    if !settings.formatEnabled rep.format then offerEntries settings applied reps
    else
      let hash := contentHash rep.format rep.bytes
      match applied.suppressOnce rep.format hash with
      -- the change was caused by a clip that was applied
      | (applied, true) => offerEntries settings applied reps
      | (applied, false) =>
        let (applied, entries) := offerEntries settings applied reps
        (applied,
          { format := rep.format
            hash := hash.bytes
            size := .ofNat (canonical rep.format rep.bytes).length } :: entries)

def onLocalChange (e : ClipboardEngine) (reps : List LocalRepr) :
    ClipboardEngine × Option ClipboardOffer :=
  if !e.settings.canOffer then (e, none)
  else
    let (applied, entries) := offerEntries e.settings e.applied reps
    ({ e with applied }, if entries = [] then none else some ⟨entries, e.deviceId.bytes⟩)

end

/-- The entry that is pulled: the first of the preferred format that the settings allow. -/
def bestEntry (e : ClipboardEngine) (offer : ClipboardOffer) : Option ClipboardEntry :=
  (((offer.entries.filter fun entry => e.settings.formatEnabled entry.format).filter
      fun entry => e.settings.withinAutoSyncLimit entry.size).filterMap
      fun entry => (preferenceRank entry.format).map fun rank => (rank, entry)).argmin
    (·.1) |>.map (·.2)

/-- The keys under which an offer of `origin` can be pulled. -/
def offeredKeys (origin : DeviceId) (offer : ClipboardOffer) : List PullKey :=
  offer.entries.filterMap fun entry =>
    (Hash.ofBytes entry.hash).map fun hash => { origin, format := entry.format, hash }

def supersedeOrigin (e : ClipboardEngine) (origin : DeviceId) (offer : ClipboardOffer) :
    ClipboardEngine :=
  { e with pending := e.pending.retainOriginOffer origin (offeredKeys origin offer) }

def onOffer (e : ClipboardEngine) (offer : ClipboardOffer) (peerOs : Os) :
    ClipboardEngine × Except ClipboardError (Option ClipboardPull) :=
  if !e.settings.canReceive then (e, .ok none)
  else
    match parseDeviceId offer.origin with
    | .error err => (e, .error err)
    | .ok origin =>
      if origin = e.deviceId then (e, .ok none)
      else if preferNativeSuppresses e.settings e.localOs peerOs then
        ({ e with pending := (e.pending.removeOrigin origin).1 }, .ok none)
      else
        let e := e.supersedeOrigin origin offer
        match e.bestEntry offer with
        | none => (e, .ok none)
        | some entry =>
          match parseHash entry.hash with
          | .error err => (e, .error err)
          | .ok hash =>
            let key : PullKey := { origin, format := entry.format, hash }
            ({ e with pending := e.pending.insert (.new key entry.size peerOs e.nowTick) },
              .ok (some { hash := hash.bytes, format := entry.format }))

def onPull {S : Type} [ClipContentSource S] (e : ClipboardEngine) (pull : ClipboardPull)
    (source : S) : Except ClipboardError (List ClipboardData) :=
  if !e.settings.canOffer then .ok []
  else if !e.settings.formatEnabled pull.format then .ok []
  else
    match parseHash pull.hash with
    | .error err => .error err
    | .ok hash =>
      match ClipContentSource.canonicalBytes source pull.format hash with
      | none => .ok []
      | some bytes => .ok (chunkData hash pull.format bytes)

section

variable [Sha256]

def onDataForKey (e : ClipboardEngine) (key : PullKey) (data : ClipboardData) :
    ClipboardEngine × Except ClipboardError (Option AppliedClip) :=
  match e.pending.getMut key with
  | none => (e, .error .unknownHash)
  | some ⟨pending, hkey⟩ =>
    match (pending.push data.offset data.data data.last).2 with
    | .ok (some bytes) =>
      let format := pending.key.format
      let e' := { e with pending := e.pending.remove key }
      -- a gate was closed while the chunks came in
      if !e.settings.canReceive || !e.settings.formatEnabled format ||
          preferNativeSuppresses e.settings e.localOs pending.peerOs then (e', .ok none)
      else
        ({ e' with applied := e.applied.record pending.key.origin format key.hash },
          .ok (some ⟨format, bytes⟩))
    | .ok none =>
      ({ e with
          pending := e.pending.update ⟨(pending.push data.offset data.data data.last).1, hkey⟩ },
        .ok none)
    | .error err => ({ e with pending := e.pending.remove key }, .error err)

def onData (e : ClipboardEngine) (data : ClipboardData) :
    ClipboardEngine × Except ClipboardError (Option AppliedClip) :=
  match parseHash data.hash with
  | .error err => (e, .error err)
  | .ok hash =>
    match e.pending.keyForData data.format hash with
    | .error err => (e, .error err)
    | .ok key => e.onDataForKey key data

def onDataFrom (e : ClipboardEngine) (origin : DeviceId) (data : ClipboardData) :
    ClipboardEngine × Except ClipboardError (Option AppliedClip) :=
  match parseHash data.hash with
  | .error err => (e, .error err)
  | .ok hash =>
    match e.pending.keyForOriginData origin data.format hash with
    | .error err => (e, .error err)
    | .ok key => e.onDataForKey key data

end

def abortPull (e : ClipboardEngine) (hash : Hash) : ClipboardEngine × Bool :=
  let (pending, removed) := e.pending.removeHash hash
  ({ e with pending }, removed)

def abortOrigin (e : ClipboardEngine) (origin : DeviceId) : ClipboardEngine × ℕ :=
  let (pending, removed) := e.pending.removeOrigin origin
  ({ e with pending }, removed)

def tick (e : ClipboardEngine) (nowTick : UInt64) : ClipboardEngine × ℕ :=
  let nowTick := max e.nowTick nowTick
  let (pending, expired) := e.pending.expireStalled nowTick
  ({ e with nowTick, pending }, expired)

/-- A pull is outstanding under the key. -/
def Outstanding (e : ClipboardEngine) (k : PullKey) : Prop :=
  ∃ p, e.pending.entries.lookup k = some p

/-- What is pulled is offered, and the settings allow it. -/
theorem bestEntry_mem {e : ClipboardEngine} {offer : ClipboardOffer} {entry : ClipboardEntry}
    (h : e.bestEntry offer = some entry) :
    entry ∈ offer.entries ∧ e.settings.formatEnabled entry.format = true := by
  obtain ⟨⟨rank, _⟩, hmin, rfl⟩ := Option.map_eq_some_iff.1 h
  obtain ⟨entry, hentry, hrank⟩ := List.mem_filterMap.1 (List.argmin_mem hmin)
  obtain ⟨_, -, heq⟩ := Option.map_eq_some_iff.1 hrank
  obtain ⟨-, rfl⟩ := Prod.mk.inj heq
  exact List.mem_filter.1 (List.mem_filter.1 hentry).1

theorem onLocalChange_frame [Sha256] (e : ClipboardEngine) (reps : List LocalRepr) :
    (e.onLocalChange reps).1.deviceId = e.deviceId ∧
      (e.onLocalChange reps).1.pending = e.pending := by
  unfold onLocalChange
  split <;> exact ⟨rfl, rfl⟩

/-- What becomes of a single representation. -/
theorem onLocalChange_single [Sha256] {e : ClipboardEngine} {format : ClipFormat}
    (hoffer : e.settings.canOffer = true) (hformat : e.settings.formatEnabled format = true)
    (bytes : List UInt8) :
    (e.onLocalChange [⟨format, bytes⟩]).2 =
      if e.applied.Pends format (contentHash format bytes) then none
      else some
        { entries := [{
            format
            hash := (contentHash format bytes).bytes
            size := .ofNat (canonical format bytes).length }]
          origin := e.deviceId.bytes } := by
  have hsnd := e.applied.suppressOnce_snd format (contentHash format bytes)
  unfold onLocalChange
  rw [hoffer, if_neg (by decide), offerEntries, hformat, if_neg (by decide)]
  dsimp only
  cases hlog : e.applied.suppressOnce format (contentHash format bytes) with
  | mk log suppressed =>
    rw [hlog] at hsnd
    cases suppressed with
    | true =>
      rw [if_pos (hsnd.1 rfl)]
      rfl
    | false =>
      rw [if_neg fun h => nomatch hsnd.2 h]
      rfl

/-! ## What an offer does -/

/-- The outcomes of `on_offer`. -/
inductive OfferStep (e : ClipboardEngine) (offer : ClipboardOffer) (peerOs : Os) :
    ClipboardEngine × Except ClipboardError (Option ClipboardPull) → Prop where
  | closed (h : e.settings.canReceive = false) : OfferStep e offer peerOs (e, .ok none)
  | malformed {err : ClipboardError} (h : parseDeviceId offer.origin = .error err) :
    OfferStep e offer peerOs (e, .error err)
  | reflected (h : parseDeviceId offer.origin = .ok e.deviceId) :
    OfferStep e offer peerOs (e, .ok none)
  | native {origin : DeviceId} (h : parseDeviceId offer.origin = .ok origin) :
    OfferStep e offer peerOs ({ e with pending := (e.pending.removeOrigin origin).1 }, .ok none)
  | nothing {origin : DeviceId} (h : parseDeviceId offer.origin = .ok origin) :
    OfferStep e offer peerOs (e.supersedeOrigin origin offer, .ok none)
  | badHash {origin : DeviceId} {err : ClipboardError}
    (h : parseDeviceId offer.origin = .ok origin) :
    OfferStep e offer peerOs (e.supersedeOrigin origin offer, .error err)
  | pulled {origin : DeviceId} {entry : ClipboardEntry} {hash : Hash}
    (h : parseDeviceId offer.origin = .ok origin) (hne : origin ≠ e.deviceId)
    (hbest : e.bestEntry offer = some entry) (hhash : parseHash entry.hash = .ok hash) :
    OfferStep e offer peerOs
      ({ e.supersedeOrigin origin offer with
          pending := (e.supersedeOrigin origin offer).pending.insert
            (.new { origin, format := entry.format, hash } entry.size peerOs e.nowTick) },
        .ok (some { hash := hash.bytes, format := entry.format }))

theorem onOffer_cases (e : ClipboardEngine) (offer : ClipboardOffer) (peerOs : Os) :
    OfferStep e offer peerOs (e.onOffer offer peerOs) := by
  unfold onOffer
  cases hreceive : e.settings.canReceive with
  | false => exact .closed hreceive
  | true =>
    rw [if_neg (by decide)]
    cases horigin : parseDeviceId offer.origin with
    | error err => exact .malformed horigin
    | ok origin =>
      dsimp only
      by_cases hne : origin = e.deviceId
      · rw [if_pos hne]
        exact .reflected (hne ▸ horigin)
      rw [if_neg hne]
      by_cases hnative : preferNativeSuppresses e.settings e.localOs peerOs = true
      · rw [if_pos hnative]
        exact .native horigin
      rw [if_neg hnative]
      cases hbest : (e.supersedeOrigin origin offer).bestEntry offer with
      | none => exact .nothing horigin
      | some entry =>
        dsimp only
        cases hhash : parseHash entry.hash with
        | error err => exact .badHash horigin
        | ok hash => exact .pulled horigin hne hbest hhash

/-- The settings let the offer in, and `entry` is what is pulled of it. -/
structure Accepts (e : ClipboardEngine) (offer : ClipboardOffer) (peerOs : Os) (origin : DeviceId)
    (entry : ClipboardEntry) (hash : Hash) : Prop where
  receive : e.settings.canReceive = true
  origin_eq : parseDeviceId offer.origin = .ok origin
  other : origin ≠ e.deviceId
  native : preferNativeSuppresses e.settings e.localOs peerOs = false
  best : e.bestEntry offer = some entry
  hash_eq : parseHash entry.hash = .ok hash

theorem Accepts.onOffer_eq {e : ClipboardEngine} {offer : ClipboardOffer} {peerOs : Os}
    {origin : DeviceId} {entry : ClipboardEntry} {hash : Hash}
    (h : e.Accepts offer peerOs origin entry hash) :
    e.onOffer offer peerOs =
      ({ e.supersedeOrigin origin offer with
          pending := (e.supersedeOrigin origin offer).pending.insert
            (.new { origin, format := entry.format, hash } entry.size peerOs e.nowTick) },
        .ok (some { hash := hash.bytes, format := entry.format })) := by
  have hbest : (e.supersedeOrigin origin offer).bestEntry offer = some entry := h.best
  unfold onOffer
  rw [h.receive, if_neg (by decide), h.origin_eq]
  dsimp only
  rw [if_neg h.other, h.native, if_neg (by decide), hbest]
  dsimp only
  rw [h.hash_eq]
  rfl

/-! ## What a chunk does -/

/-- The receive gates are open for the format. -/
structure GatesOpen (e : ClipboardEngine) (format : ClipFormat) (peerOs : Os) : Prop where
  receive : e.settings.canReceive = true
  format : e.settings.formatEnabled format = true
  native : preferNativeSuppresses e.settings e.localOs peerOs = false

theorem gatesOpen_iff {e : ClipboardEngine} {format : ClipFormat} {peerOs : Os} :
    e.GatesOpen format peerOs ↔ (!e.settings.canReceive || !e.settings.formatEnabled format ||
      preferNativeSuppresses e.settings e.localOs peerOs) = false := by
  refine ⟨?_, ?_⟩
  · rintro ⟨hreceive, hformat, hnative⟩
    rw [hreceive, hformat, hnative]
    rfl
  · intro h
    simp only [Bool.or_eq_false_iff, Bool.not_eq_false'] at h
    exact ⟨h.1.1, h.1.2, h.2⟩

theorem Accepts.gatesOpen_entry {e : ClipboardEngine} {offer : ClipboardOffer} {peerOs : Os}
    {origin : DeviceId} {entry : ClipboardEntry} {hash : Hash}
    (h : e.Accepts offer peerOs origin entry hash) : e.GatesOpen entry.format peerOs :=
  ⟨h.receive, (bestEntry_mem h.best).2, h.native⟩

variable [Sha256]

/-- The outcomes of `on_data_for_key`. -/
inductive DataStep (e : ClipboardEngine) (key : PullKey) (data : ClipboardData) :
    ClipboardEngine × Except ClipboardError (Option AppliedClip) → Prop where
  | unknown (h : e.pending.entries.lookup key = none) :
    DataStep e key data (e, .error .unknownHash)
  | refused {pending : Pending} {err : ClipboardError}
    (h : e.pending.entries.lookup key = some pending)
    (hpush : (pending.push data.offset data.data data.last).2 = .error err) :
    DataStep e key data ({ e with pending := e.pending.remove key }, .error err)
  | committed {pending : Pending} (hkey : pending.key = key)
    (h : e.pending.entries.lookup key = some pending)
    (hpush : (pending.push data.offset data.data data.last).2 = .ok none) :
    DataStep e key data
      ({ e with
          pending := e.pending.update ⟨(pending.push data.offset data.data data.last).1, hkey⟩ },
        .ok none)
  | dropped {pending : Pending} {bytes : List UInt8}
    (h : e.pending.entries.lookup key = some pending)
    (hpush : (pending.push data.offset data.data data.last).2 = .ok (some bytes))
    (hgates : ¬ e.GatesOpen key.format pending.peerOs) :
    DataStep e key data ({ e with pending := e.pending.remove key }, .ok none)
  | applied {pending : Pending} {bytes : List UInt8}
    (h : e.pending.entries.lookup key = some pending)
    (hpush : (pending.push data.offset data.data data.last).2 = .ok (some bytes))
    (hgates : e.GatesOpen key.format pending.peerOs) :
    DataStep e key data
      ({ e with
          pending := e.pending.remove key
          applied := e.applied.record key.origin key.format key.hash },
        .ok (some ⟨key.format, bytes⟩))

theorem onDataForKey_cases (e : ClipboardEngine) (key : PullKey) (data : ClipboardData) :
    DataStep e key data (e.onDataForKey key data) := by
  unfold onDataForKey
  cases hget : e.pending.getMut key with
  | none => exact .unknown (PendingPulls.getMut_eq_none.1 hget)
  | some found =>
    obtain ⟨pending, rfl⟩ := found
    have hlookup := PendingPulls.getMut_eq_some.1 hget
    dsimp only
    cases hpush : (pending.push data.offset data.data data.last).2 with
    | error err => exact .refused hlookup hpush
    | ok result =>
      cases result with
      | none => exact .committed rfl hlookup hpush
      | some bytes =>
        dsimp only
        cases hgates : !e.settings.canReceive || !e.settings.formatEnabled pending.key.format ||
            preferNativeSuppresses e.settings e.localOs pending.peerOs with
        | true =>
          refine .dropped hlookup hpush fun h => ?_
          rw [gatesOpen_iff, hgates] at h
          cases h
        | false => exact .applied hlookup hpush (gatesOpen_iff.2 hgates)

section outstanding

variable {e : ClipboardEngine} {key : PullKey} {data : ClipboardData} {pending : Pending}
  (h : e.pending.entries.lookup key = some pending)

include h

theorem onDataForKey_refused {err : ClipboardError}
    (hpush : (pending.push data.offset data.data data.last).2 = .error err) :
    e.onDataForKey key data = ({ e with pending := e.pending.remove key }, .error err) := by
  have hget : e.pending.getMut key = some ⟨pending, e.pending.keyed _ _ h⟩ :=
    PendingPulls.getMut_eq_some.2 h
  rw [onDataForKey, hget]
  dsimp only
  rw [hpush]

theorem onDataForKey_committed
    (hpush : (pending.push data.offset data.data data.last).2 = .ok none) :
    e.onDataForKey key data =
      ({ e with
          pending := e.pending.update
            ⟨(pending.push data.offset data.data data.last).1, e.pending.keyed key pending h⟩ },
        .ok none) := by
  have hget : e.pending.getMut key = some ⟨pending, e.pending.keyed _ _ h⟩ :=
    PendingPulls.getMut_eq_some.2 h
  rw [onDataForKey, hget]
  dsimp only
  rw [hpush]

theorem onDataForKey_applied {bytes : List UInt8}
    (hpush : (pending.push data.offset data.data data.last).2 = .ok (some bytes))
    (hgates : e.GatesOpen key.format pending.peerOs) :
    e.onDataForKey key data =
      ({ e with
          pending := e.pending.remove key
          applied := e.applied.record key.origin key.format key.hash },
        .ok (some ⟨key.format, bytes⟩)) := by
  obtain rfl := e.pending.keyed _ _ h
  have hget : e.pending.getMut pending.key = some ⟨pending, rfl⟩ :=
    PendingPulls.getMut_eq_some.2 h
  rw [onDataForKey, hget]
  dsimp only
  rw [hpush]
  dsimp only
  rw [gatesOpen_iff.1 hgates, if_neg (by decide)]

end outstanding

/-- What a chunk leaves under the keys: the pull it is for stays only if the chunk is committed. -/
theorem lookup_of_lookup_onDataForKey {e : ClipboardEngine} {key k : PullKey}
    {data : ClipboardData} {q : Pending}
    (h : (e.onDataForKey key data).1.pending.entries.lookup k = some q) :
    (k ≠ key ∧ e.pending.entries.lookup k = some q) ∨
    (k = key ∧ (e.onDataForKey key data).2 = .ok none ∧ ∃ p,
      e.pending.entries.lookup k = some p ∧ q.peerOs = p.peerOs ∧ q.reasm.size = p.reasm.size) := by
  have hremoved : (e.pending.remove key).entries.lookup k = some q →
      k ≠ key ∧ e.pending.entries.lookup k = some q := by
    intro h
    rwa [PendingPulls.lookup_remove, Option.ite_none_left_eq_some] at h
  have hcases := e.onDataForKey_cases key data
  generalize e.onDataForKey key data = result at h hcases
  cases hcases with
  | unknown hnone =>
    refine .inl ⟨?_, h⟩
    rintro rfl
    rw [hnone] at h
    cases h
  | refused hlookup hpush => exact .inl (hremoved h)
  | dropped hlookup hpush hgates => exact .inl (hremoved h)
  | applied hlookup hpush hgates => exact .inl (hremoved h)
  | @committed pending hkey hlookup hpush =>
    rw [PendingPulls.lookup_update] at h
    by_cases hk : k = key
    · rw [if_pos hk] at h
      obtain rfl := Option.some.inj h
      exact .inr ⟨hk, rfl, pending, hk ▸ hlookup, rfl, (Reassembly.push_fst ..).2.2⟩
    · rw [if_neg hk] at h
      exact .inl ⟨hk, h⟩

end ClipboardEngine

end Mouser
