import Mouser.Clipboard.Tracking
import Mouser.Lib.Machine
import Mouser.Lib.Recency

/-!
# The oldest pull makes room

The map of the outstanding pulls and the queue of their keys are kept in step by hand, in every
operation. `Bounded` says that they are: the queue has the keys of the map, as a `Recency` table of
`MAX_PENDING_PULLS` has them after the pulls that were inserted. An operation that removes pulls
leaves a part of the queue, and `insert` is the table's entry (`order_insert`).

The log of the applied clips is another such table, in one list.
-/

namespace Mouser

/-- A call on the outstanding pulls. The lookups read only. -/
inductive PullCall where
  | insert (pending : Pending)
  | remove (key : PullKey)
  | removeHash (hash : Hash)
  | removeOrigin (origin : DeviceId)
  | retainOriginOffer (origin : DeviceId) (offered : List PullKey)
  | expireStalled (nowTick : UInt64)
  /-- `get_mut`, and a chunk for the pull that it finds. -/
  | push (key : PullKey) (offset : UInt64) (data : List UInt8) (last : Bool)
  | keyForOriginData (origin : DeviceId) (format : ClipFormat) (hash : Hash)
  | keyForData (format : ClipFormat) (hash : Hash)

/-- The keys under which pulls were inserted, in order. -/
def inserted (calls : List PullCall) : List PullKey :=
  calls.filterMap fun
    | .insert pending => some pending.key
    | _ => none

namespace PendingPulls

section

variable [Sha256]

def call (p : PendingPulls) : PullCall → PendingPulls
  | .insert pending => p.insert pending
  | .remove key => p.remove key
  | .removeHash hash => (p.removeHash hash).1
  | .removeOrigin origin => (p.removeOrigin origin).1
  | .retainOriginOffer origin offered => p.retainOriginOffer origin offered
  | .expireStalled nowTick => (p.expireStalled nowTick).1
  | .push key offset data last =>
    match p.getMut key with
    | none => p
    | some ⟨pending, hkey⟩ => p.update ⟨(pending.push offset data last).1, hkey⟩
  | .keyForOriginData .. | .keyForData .. => p

def machine : Machine PendingPulls PullCall Unit := ⟨fun p c => (p.call c, ())⟩

end

/-- The queue and the map have the same keys, the ones that `history` leaves. -/
structure Bounded (history : List PullKey) (p : PendingPulls) : Prop where
  keys : p.order.Perm p.entries.keys
  aged : Recency.Aged maxPendingPulls history p.order

variable {p : PendingPulls} {history : List PullKey}

/-! ## Removals -/

theorem perm_erase {entries : PullMap} {order : List PullKey} (h : order.Perm entries.keys)
    (key : PullKey) : (order.filter (· ≠ key)).Perm (entries.erase key).keys := by
  rw [AList.keys_erase, entries.keys_nodup.erase_eq_filter]
  have hsame : entries.keys.filter (· ≠ key) = entries.keys.filter (· != key) := by
    refine List.filter_congr fun k _ => ?_
    by_cases hk : k = key <;> simp [hk]
  rw [← hsame]
  exact h.filter _

theorem Bounded.remove (h : Bounded history p) (key : PullKey) : Bounded history (p.remove key) :=
  ⟨perm_erase h.keys key, h.aged.sublist List.filter_sublist⟩

theorem Bounded.removeAll (h : Bounded history p) (keys : List PullKey) :
    Bounded history (p.removeAll keys) := by
  induction keys generalizing p with
  | nil => exact h
  | cons key keys ih => exact ih (h.remove key)

/-! ## Room for a pull -/

/-- Keys leave at the front until there is room. -/
theorem makeRoom_eq {entries : PullMap} {order : List PullKey} (hperm : order.Perm entries.keys)
    (hnodup : order.Nodup) :
    (makeRoom entries order).2 = order.drop (order.length + 1 - maxPendingPulls) ∧
      (makeRoom entries order).2.Perm (makeRoom entries order).1.keys := by
  induction order generalizing entries with
  | nil => exact ⟨by simp [makeRoom], hperm⟩
  | cons key order ih =>
    rw [makeRoom, ← hperm.length_eq]
    split
    · next hroom =>
      rw [Nat.sub_eq_zero_of_le hroom]
      exact ⟨rfl, hperm⟩
    · next hfull =>
      have hnot := (List.nodup_cons.1 hnodup).1
      have herase := perm_erase hperm key
      rw [List.filter_cons_of_neg (by simp), Recency.filter_ne_of_notMem hnot] at herase
      obtain ⟨hdrop, hkeys⟩ := ih herase (List.nodup_cons.1 hnodup).2
      refine ⟨?_, hkeys⟩
      have hmore : (key :: order).length + 1 - maxPendingPulls =
          (order.length + 1 - maxPendingPulls) + 1 := by
        rw [List.length_cons] at hfull ⊢
        omega
      rw [hdrop, hmore, List.drop_succ_cons]

/-- **`insert` is an entry of the table.** -/
theorem order_insert (h : Bounded history p) (pending : Pending) :
    (p.insert pending).order = Recency.enter maxPendingPulls p.order pending.key ∧
      (p.insert pending).order.Perm (p.insert pending).entries.keys := by
  have hremoved := h.remove pending.key
  obtain ⟨hdrop, hkeys⟩ := makeRoom_eq hremoved.keys hremoved.aged.nodup
  have horder : (p.insert pending).order =
      (makeRoom (p.remove pending.key).entries (p.remove pending.key).order).2 ++ [pending.key] :=
    rfl
  refine ⟨by rw [horder, hdrop]; rfl, ?_⟩
  have hnew : pending.key ∉
      (makeRoom (p.remove pending.key).entries (p.remove pending.key).order).1.keys := by
    rw [← hkeys.mem_iff, hdrop]
    intro hmem
    simpa [PendingPulls.remove] using (List.mem_filter.1 (List.mem_of_mem_drop hmem)).2
  have hentries : (p.insert pending).entries.keys = pending.key ::
      (makeRoom (p.remove pending.key).entries (p.remove pending.key).order).1.keys := by
    have hinsert : (p.insert pending).entries =
        (makeRoom (p.remove pending.key).entries (p.remove pending.key).order).1.insert
          pending.key pending := rfl
    rw [hinsert, AList.keys_insert, List.erase_of_not_mem hnew]
  rw [horder, hentries]
  exact (List.perm_append_singleton _ _).trans (hkeys.cons _)

theorem Bounded.insert (h : Bounded history p) (pending : Pending) :
    Bounded (history ++ [pending.key]) (p.insert pending) := by
  obtain ⟨horder, hkeys⟩ := order_insert h pending
  refine ⟨hkeys, ?_⟩
  rw [horder]
  exact h.aged.enter (by decide) pending.key

/-- A chunk changes no key. -/
theorem Bounded.update (h : Bounded history p) {key : PullKey} (hmem : key ∈ p.entries)
    (pending : { pending : Pending // pending.key = key }) :
    Bounded history (p.update pending) := by
  refine ⟨?_, h.aged⟩
  have hkeys : (p.update pending).entries.keys = key :: p.entries.keys.erase key :=
    AList.keys_insert ..
  rw [hkeys]
  exact h.keys.trans (List.perm_cons_erase (AList.mem_keys.1 hmem))

/-! ## Every run -/

theorem bounded_empty (history : List PullKey) : Bounded history empty :=
  ⟨.nil, Recency.aged_nil _ _⟩

section

variable [Sha256]

/-- **The step lemma.** Every call keeps the queue and the map in step. -/
theorem Bounded.call (h : Bounded history p) (c : PullCall) :
    Bounded (history ++ inserted [c]) (p.call c) := by
  have hkeep : ∀ {q : PendingPulls}, Bounded history q → Bounded (history ++ []) q := by
    intro q hq
    rwa [List.append_nil]
  cases c with
  | insert pending => exact h.insert pending
  | remove key => exact hkeep (h.remove key)
  | removeHash | removeOrigin | retainOriginOffer | expireStalled => exact hkeep (h.removeAll _)
  | push key offset data last =>
    refine hkeep ?_
    rw [PendingPulls.call]
    split
    · exact h
    · next pending hkey hget =>
      exact h.update (AList.lookup_isSome.1 (by rw [getMut_eq_some.1 hget]; rfl)) _
  | keyForOriginData | keyForData => exact hkeep h

theorem bounded_exec (calls : List PullCall) :
    Bounded (inserted calls) (machine.exec empty calls) := by
  induction calls using List.reverseRecOn with
  | nil => exact bounded_empty []
  | append_singleton calls c ih =>
    rw [machine.exec_concat, inserted, List.filterMap_append]
    exact ih.call c

end

end PendingPulls

/-! ## Applied clips -/

/-- A call on the log. -/
inductive AppliedCall where
  | record (origin : DeviceId) (format : ClipFormat) (hash : Hash)
  | suppressOnce (format : ClipFormat) (hash : Hash)

/-- What a marker is recorded under. -/
def AppliedMarker.key (m : AppliedMarker) : DeviceId × ClipFormat × Hash :=
  (m.origin, m.format, m.hash)

/-- The keys that were recorded, in order. -/
def recorded (calls : List AppliedCall) : List (DeviceId × ClipFormat × Hash) :=
  calls.filterMap fun
    | .record origin format hash => some (origin, format, hash)
    | .suppressOnce .. => none

namespace AppliedLog

def call (log : AppliedLog) : AppliedCall → AppliedLog
  | .record origin format hash => log.record origin format hash
  | .suppressOnce format hash => (log.suppressOnce format hash).1

def machine : Machine AppliedLog AppliedCall Unit := ⟨fun log c => (log.call c, ())⟩

/-- **`record` is an entry of the table.** -/
theorem keys_record (log : AppliedLog) (origin : DeviceId) (format : ClipFormat) (hash : Hash) :
    (log.record origin format hash).map AppliedMarker.key =
      Recency.enter maxAppliedClips (log.map AppliedMarker.key) (origin, format, hash) := by
  have hkept : (log.filter fun m =>
      ¬ (m.origin = origin ∧ m.format = format ∧ m.hash = hash)).map AppliedMarker.key =
        (log.map AppliedMarker.key).filter (· ≠ (origin, format, hash)) := by
    rw [List.filter_map]
    refine congrArg _ (List.filter_congr fun m _ => ?_)
    simp [AppliedMarker.key]
  unfold record Recency.enter
  dsimp only
  rw [List.map_append, List.map_drop, ← hkept, List.length_map]
  rfl

/-- A marker that is spent stays in the log. -/
theorem keys_suppressOnce (log : AppliedLog) (format : ClipFormat) (hash : Hash) :
    (log.suppressOnce format hash).1.map AppliedMarker.key = log.map AppliedMarker.key := by
  unfold suppressOnce
  split
  · rfl
  · next i _ =>
    refine List.ext_getElem? fun j => ?_
    rw [List.getElem?_map, List.getElem?_modify, List.getElem?_map]
    cases log[j]? with
    | none => rfl
    | some m => split <;> rfl

theorem aged_exec (calls : List AppliedCall) :
    Recency.Aged maxAppliedClips (recorded calls)
      ((machine.exec [] calls).map AppliedMarker.key) := by
  induction calls using List.reverseRecOn with
  | nil => exact Recency.aged_nil _ _
  | append_singleton calls c ih =>
    rw [machine.exec_concat, recorded, List.filterMap_append]
    cases c with
    | record origin format hash =>
      have hkeys := keys_record (machine.exec [] calls) origin format hash
      have h := ih.enter (by decide) (origin, format, hash)
      rw [← hkeys] at h
      exact h
    | suppressOnce format hash =>
      have hkeys := keys_suppressOnce (machine.exec [] calls) format hash
      rw [← hkeys] at ih
      have hnone : recorded [.suppressOnce format hash] = [] := rfl
      rw [← recorded, ← recorded, hnone, List.append_nil]
      exact ih

end AppliedLog

/-! ## Both tables -/

/-- What `insert` leaves of the map is as the table admits it. -/
theorem PendingPulls.mem_insert [Sha256] {history : List PullKey} {p : PendingPulls}
    (h : p.Bounded history) (pending : Pending) :
    Recency.Admits maxPendingPulls history p.entries.keys (p.insert pending).entries.keys
      pending.key := by
  obtain ⟨horder, hkeys⟩ := order_insert h pending
  have hadmits := h.aged.admits (by decide) pending.key
  rw [← horder] at hadmits
  exact hadmits.perm h.keys hkeys

/-- **The tables of the clipboard are bounded, and the oldest key makes room.** After any calls, the
queue of the pulls and their map have the same keys, without duplicates and at most 64 of them; a
pull that is inserted under a new key into the full map pushes out the key that was inserted longest
ago and no other, and in every other case none. The log of the applied clips has at most 128 keys
without duplicates, and forgets in the same way. -/
theorem oldest_makes_room [Sha256] (calls : List PullCall) (applied : List AppliedCall) :
    let p := PendingPulls.machine.exec .empty calls
    let log := AppliedLog.machine.exec [] applied
    (p.order.Nodup ∧ p.order.Perm p.entries.keys ∧ p.entries.keys.length ≤ 64 ∧
      ∀ pending : Pending, Recency.Admits 64 (inserted calls) p.entries.keys
        (p.insert pending).entries.keys pending.key) ∧
    (log.map AppliedMarker.key).Nodup ∧ log.length ≤ 128 ∧
      ∀ origin format hash, Recency.Admits 128 (recorded applied) (log.map AppliedMarker.key)
        ((log.record origin format hash).map AppliedMarker.key) (origin, format, hash) := by
  intro p log
  have hp := PendingPulls.bounded_exec calls
  have hlog := AppliedLog.aged_exec applied
  refine ⟨⟨hp.aged.nodup, hp.keys, ?_, fun pending => PendingPulls.mem_insert hp pending⟩,
    hlog.nodup, ?_, ?_⟩
  · exact hp.keys.length_eq.symm.trans_le hp.aged.length_le
  · rw [← List.length_map AppliedMarker.key]
    exact hlog.length_le
  · intro origin format hash
    rw [AppliedLog.keys_record]
    exact hlog.admits (by decide) _

end Mouser
