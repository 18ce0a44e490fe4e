import Mathlib.Data.List.AList
import Mouser.Clipboard.Reassembly
import Mouser.Core.Device

/-!
# Outstanding pulls and applied clips

The pulls that a device has outstanding are held by origin, format and hash, in a map and in a queue
of their keys by age; a pull is for the key that it is held under. `lookup_remove` and its like say
what each operation leaves in the map. The clips that were applied are remembered, so that each is
left out once when the platform reports the change of the clipboard.
-/

namespace Mouser

def maxPendingPulls : ℕ := 64

def maxAppliedClips : ℕ := 128

/-- The ticks after which a pull is given up. -/
def pullStallTicks : UInt64 := 30

structure PullKey where
  origin : DeviceId
  format : ClipFormat
  hash : Hash
deriving DecidableEq

/-- A pull that is outstanding. -/
structure Pending where
  key : PullKey
  peerOs : Os
  deadlineTick : UInt64
  reasm : Reassembly
  format_eq : reasm.format = key.format
  hash_eq : reasm.hash = key.hash

namespace Pending

def new (key : PullKey) (size : UInt64) (peerOs : Os) (nowTick : UInt64) : Pending where
  key := key
  peerOs := peerOs
  deadlineTick := nowTick.saturatingAdd pullStallTicks
  reasm := .new key.format key.hash size
  format_eq := rfl
  hash_eq := rfl

def push [Sha256] (p : Pending) (offset : UInt64) (data : List UInt8) (last : Bool) :
    Pending × Except ClipboardError (Option (List UInt8)) :=
  ({ p with
      reasm := (p.reasm.push offset data last).1
      format_eq := (Reassembly.push_fst ..).1.trans p.format_eq
      hash_eq := (Reassembly.push_fst ..).2.1.trans p.hash_eq },
    (p.reasm.push offset data last).2)

def isStalled (p : Pending) (nowTick : UInt64) : Bool := nowTick ≥ p.deadlineTick

end Pending

/-- The map of the outstanding pulls. -/
abbrev PullMap := AList fun _ : PullKey => Pending

structure PendingPulls where
  entries : PullMap
  order : List PullKey
  keyed : ∀ key pending, entries.lookup key = some pending → pending.key = key

namespace PendingPulls

/-- `PendingPulls::default` -/
def empty : PendingPulls where
  entries := ∅
  order := []
  keyed := by
    intro key pending h
    rw [AList.lookup_empty] at h
    cases h

/-- What a part of the map says is said by the map. -/
theorem keyed_of_lookup {entries : PullMap} (p : PendingPulls)
    (h : ∀ key pending, entries.lookup key = some pending → p.entries.lookup key = some pending)
    (key : PullKey) (pending : Pending) (hlookup : entries.lookup key = some pending) :
    pending.key = key :=
  p.keyed key pending (h key pending hlookup)

theorem lookup_of_lookup_erase {entries : PullMap} {key k : PullKey} {pending : Pending}
    (h : (entries.erase key).lookup k = some pending) :
    k ≠ key ∧ entries.lookup k = some pending := by
  by_cases hk : k = key
  · rw [hk, AList.lookup_erase] at h
    cases h
  · rw [AList.lookup_erase_ne hk] at h
    exact ⟨hk, h⟩

def remove (p : PendingPulls) (key : PullKey) : PendingPulls where
  entries := p.entries.erase key
  order := p.order.filter (· ≠ key)
  keyed := p.keyed_of_lookup fun _ _ h => (lookup_of_lookup_erase h).2

/-- The loop of `insert` with the loop of `evict_oldest` in it: keys are taken from the front of the
queue until there is room. A key that is not in the map makes none. -/
def makeRoom (entries : PullMap) : List PullKey → PullMap × List PullKey
  | [] => (entries, [])
  | key :: order =>
    if entries.keys.length < maxPendingPulls then (entries, key :: order)
    else makeRoom (entries.erase key) order

theorem lookup_of_lookup_makeRoom {entries : PullMap} {order : List PullKey} {k : PullKey}
    {pending : Pending} (h : (makeRoom entries order).1.lookup k = some pending) :
    entries.lookup k = some pending := by
  induction order generalizing entries with
  | nil => exact h
  | cons key order ih =>
    rw [makeRoom] at h
    split at h
    · exact h
    · exact (lookup_of_lookup_erase (ih h)).2

def insert (p : PendingPulls) (pending : Pending) : PendingPulls :=
  let removed := p.remove pending.key
  let room := makeRoom removed.entries removed.order
  { entries := room.1.insert pending.key pending
    order := room.2 ++ [pending.key]
    keyed := by
      intro key q h
      by_cases hk : key = pending.key
      · rw [hk, AList.lookup_insert] at h
        rw [hk, Option.some.inj h]
      · rw [AList.lookup_insert_ne hk] at h
        exact removed.keyed key q (lookup_of_lookup_makeRoom h) }

def getMut (p : PendingPulls) (key : PullKey) : Option { pending : Pending // pending.key = key } :=
  match h : p.entries.lookup key with
  | none => none
  | some pending => some ⟨pending, p.keyed key pending h⟩

/-- The pull under `key` has been changed through `get_mut`. -/
def update (p : PendingPulls) {key : PullKey}
    (pending : { pending : Pending // pending.key = key }) : PendingPulls where
  entries := p.entries.insert key pending
  order := p.order
  keyed := by
    intro k q hq
    by_cases hk : k = key
    · rw [hk, AList.lookup_insert] at hq
      rw [hk, ← Option.some.inj hq, pending.2]
    · rw [AList.lookup_insert_ne hk] at hq
      exact p.keyed k q hq

/-- The pulls whose keys are among `keys` are removed, one by one. -/
def removeAll (p : PendingPulls) : List PullKey → PendingPulls
  | [] => p
  | key :: keys => (p.remove key).removeAll keys

def removeHash (p : PendingPulls) (hash : Hash) : PendingPulls × Bool :=
  let keys := p.entries.keys.filter (·.hash = hash)
  (p.removeAll keys, !keys.isEmpty)

def removeOrigin (p : PendingPulls) (origin : DeviceId) : PendingPulls × ℕ :=
  let keys := p.entries.keys.filter (·.origin = origin)
  (p.removeAll keys, keys.length)

def retainOriginOffer (p : PendingPulls) (origin : DeviceId) (offered : List PullKey) :
    PendingPulls :=
  p.removeAll (p.entries.keys.filter fun key => key.origin = origin ∧ key ∉ offered)

def expireStalled (p : PendingPulls) (nowTick : UInt64) : PendingPulls × ℕ :=
  let keys := (p.entries.entries.filter (·.2.isStalled nowTick)).map (·.1)
  (p.removeAll keys, keys.length)

def keyForOriginData (p : PendingPulls) (origin : DeviceId) (format : ClipFormat) (hash : Hash) :
    Except ClipboardError PullKey :=
  let key : PullKey := { origin, format, hash }
  if key ∈ p.entries then .ok key
  else if p.entries.keys.any fun candidate => candidate.origin = origin ∧ candidate.hash = hash then
    .error (.protocol "data format mismatch")
  else .error .unknownHash

def keyForData (p : PendingPulls) (format : ClipFormat) (hash : Hash) :
    Except ClipboardError PullKey :=
  match p.entries.keys.filter fun key => key.format = format ∧ key.hash = hash with
  | [] =>
    if p.entries.keys.any (·.hash = hash) then .error (.protocol "data format mismatch")
    else .error .unknownHash
  | [first] => .ok first
  | _ :: _ :: _ => .error (.protocol "ambiguous clipboard data origin")

/-! ## What the operations leave -/

variable (p : PendingPulls) (k : PullKey)

@[simp] theorem lookup_empty : empty.entries.lookup k = none := AList.lookup_empty k

theorem lookup_remove (key : PullKey) :
    (p.remove key).entries.lookup k = if k = key then none else p.entries.lookup k := by
  by_cases hk : k = key
  · rw [if_pos hk, hk]
    exact AList.lookup_erase _ _
  · rw [if_neg hk]
    exact AList.lookup_erase_ne hk

theorem lookup_removeAll (keys : List PullKey) :
    (p.removeAll keys).entries.lookup k = if k ∈ keys then none else p.entries.lookup k := by
  induction keys generalizing p with
  | nil => rfl
  | cons key keys ih =>
    rw [removeAll, ih, lookup_remove]
    by_cases hk : k = key
    · simp [hk]
    · simp [hk]

theorem lookup_removeAll_filter (f : PullKey → Bool) :
    (p.removeAll (p.entries.keys.filter f)).entries.lookup k =
      if f k = true then none else p.entries.lookup k := by
  rw [lookup_removeAll]
  by_cases hf : f k = true
  · rw [if_pos hf]
    split
    · rfl
    · next h =>
      rw [List.mem_filter, AList.mem_keys.symm, not_and] at h
      exact AList.lookup_eq_none.2 fun hk => h hk hf
  · rw [if_neg hf, if_neg]
    exact fun h => hf (List.mem_filter.1 h).2

theorem lookup_removeHash (hash : Hash) :
    (p.removeHash hash).1.entries.lookup k =
      if k.hash = hash then none else p.entries.lookup k := by
  rw [removeHash, lookup_removeAll_filter]
  simp

theorem lookup_removeOrigin (origin : DeviceId) :
    (p.removeOrigin origin).1.entries.lookup k =
      if k.origin = origin then none else p.entries.lookup k := by
  rw [removeOrigin, lookup_removeAll_filter]
  simp

theorem lookup_retainOriginOffer (origin : DeviceId) (offered : List PullKey) :
    (p.retainOriginOffer origin offered).entries.lookup k =
      if k.origin = origin ∧ k ∉ offered then none else p.entries.lookup k := by
  rw [retainOriginOffer, lookup_removeAll_filter]
  simp

theorem lookup_of_lookup_expireStalled {nowTick : UInt64} {pending : Pending}
    (h : (p.expireStalled nowTick).1.entries.lookup k = some pending) :
    p.entries.lookup k = some pending := by
  rw [expireStalled, lookup_removeAll, Option.ite_none_left_eq_some] at h
  exact h.2

@[simp] theorem lookup_insert_self (pending : Pending) :
    (p.insert pending).entries.lookup pending.key = some pending :=
  AList.lookup_insert _

theorem lookup_of_lookup_insert {pending q : Pending}
    (h : (p.insert pending).entries.lookup k = some q) :
    (k = pending.key ∧ q = pending) ∨ (k ≠ pending.key ∧ p.entries.lookup k = some q) := by
  by_cases hk : k = pending.key
  · rw [hk, lookup_insert_self] at h
    exact .inl ⟨hk, (Option.some.inj h).symm⟩
  · rw [insert, AList.lookup_insert_ne hk] at h
    exact .inr ⟨hk, (lookup_of_lookup_erase (lookup_of_lookup_makeRoom h)).2⟩

theorem lookup_update {key : PullKey} (pending : { pending : Pending // pending.key = key }) :
    (p.update pending).entries.lookup k =
      if k = key then some pending.1 else p.entries.lookup k := by
  by_cases hk : k = key
  · rw [if_pos hk, hk]
    exact AList.lookup_insert _
  · rw [if_neg hk]
    exact AList.lookup_insert_ne hk

variable {p}

theorem getMut_eq_some {key : PullKey} {pending : { pending : Pending // pending.key = key }} :
    p.getMut key = some pending ↔ p.entries.lookup key = some pending.1 := by
  unfold getMut
  split
  · next h => simp [h]
  · next q h => simp [h, Subtype.ext_iff]

theorem getMut_eq_none {key : PullKey} :
    p.getMut key = none ↔ p.entries.lookup key = none := by
  unfold getMut
  split
  · next h => simp [h]
  · next q h => simp [h]

theorem keyForOriginData_eq_ok {origin : DeviceId} {format : ClipFormat} {hash : Hash}
    {key : PullKey} : p.keyForOriginData origin format hash = .ok key ↔
      key = { origin, format, hash } ∧ ∃ pending, p.entries.lookup key = some pending := by
  unfold keyForOriginData
  by_cases hmem : ({ origin, format, hash } : PullKey) ∈ p.entries
  · rw [if_pos hmem]
    refine ⟨?_, ?_⟩
    · intro h
      cases h
      exact ⟨rfl, Option.isSome_iff_exists.1 (AList.lookup_isSome.2 hmem)⟩
    · rintro ⟨rfl, -⟩
      rfl
  · rw [if_neg hmem]
    refine ⟨?_, ?_⟩
    · intro h
      split at h <;> cases h
    · rintro ⟨rfl, pending, h⟩
      rw [AList.lookup_eq_none.2 hmem] at h
      cases h

end PendingPulls

/-! ## Applied clips -/

/-- A clip that was applied, and whether the change of the clipboard that it causes has still to be
left out. -/
structure AppliedMarker where
  origin : DeviceId
  format : ClipFormat
  hash : Hash
  suppressNext : Bool
deriving DecidableEq

/-- The last clips that were applied, oldest first. -/
abbrev AppliedLog := List AppliedMarker

namespace AppliedLog

def record (log : AppliedLog) (origin : DeviceId) (format : ClipFormat) (hash : Hash) :
    AppliedLog :=
  let kept := log.filter fun m => ¬ (m.origin = origin ∧ m.format = format ∧ m.hash = hash)
  -- the oldest make room for the new one
  kept.drop (kept.length + 1 - maxAppliedClips) ++ [{ origin, format, hash, suppressNext := true }]

/-- The marker that leaves out a change of the clipboard to this content. -/
def Suppresses (format : ClipFormat) (hash : Hash) (m : AppliedMarker) : Bool :=
  m.suppressNext && m.format = format && m.hash = hash

/-- The first such marker is spent. -/
def suppressOnce (log : AppliedLog) (format : ClipFormat) (hash : Hash) : AppliedLog × Bool :=
  match log.findIdx? (Suppresses format hash) with
  | none => (log, false)
  | some i => (log.modify i fun m => { m with suppressNext := false }, true)

/-- Some marker leaves the content out. -/
def Pends (log : AppliedLog) (format : ClipFormat) (hash : Hash) : Prop :=
  ∃ m ∈ log, Suppresses format hash m = true

instance (log : AppliedLog) (format : ClipFormat) (hash : Hash) :
    Decidable (log.Pends format hash) :=
  inferInstanceAs (Decidable (∃ m ∈ log, Suppresses format hash m = true))

theorem suppressOnce_snd (log : AppliedLog) (format : ClipFormat) (hash : Hash) :
    (log.suppressOnce format hash).2 = true ↔ log.Pends format hash := by
  unfold suppressOnce Pends
  split
  · next h =>
    rw [List.findIdx?_eq_none_iff] at h
    refine ⟨nofun, ?_⟩
    rintro ⟨m, hm, hs⟩
    rw [h m hm] at hs
    cases hs
  · next i h =>
    obtain ⟨hlt, hs, -⟩ := List.findIdx?_eq_some_iff_getElem.1 h
    exact ⟨fun _ => ⟨_, List.getElem_mem hlt, hs⟩, fun _ => rfl⟩

theorem pends_record (log : AppliedLog) (origin : DeviceId) (format : ClipFormat) (hash : Hash) :
    (log.record origin format hash).Pends format hash :=
  ⟨_, List.mem_append_right _ (.head _), by simp [Suppresses]⟩

end AppliedLog

end Mouser
