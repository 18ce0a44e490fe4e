import Mathlib.Data.Finset.Max
import Mouser.State.SharedState

/-!
# The history of an honest cluster

Every change of an honest cluster is the genesis change or a layout edit, with puts that are known
in full (`editPuts`). `History.Honest` says how the changes hang together: an edit's revision is
above that of every edit that its author had, and is no more than the number of changes that its
author had; objects are made once; and an edit that uses an entry made before has the edit that
made it in its past. What a replica reads from a document with such changes follows.
-/

namespace Mouser

namespace Automerge

variable {A : Automerge} [LawfulAutomerge A] {d : A.Doc} {o : A.Obj} {k : String}

/-- The values of a register when no transaction is open. -/
theorem mem_getAll_of_committed (hp : A.pending d = []) {v : Value A.Obj} :
    v ∈ A.getAll d o k ↔ ∃ c, A.Left (A.changes d) o k c v := by
  rw [LawfulAutomerge.mem_getAll, hp, lastPut_nil]

/-- A commit loses no change. -/
theorem changes_subset_commit (d : A.Doc) : A.changes d ⊆ A.changes (A.commit d) := by
  by_cases hp : A.pending d = []
  · rw [LawfulAutomerge.commit_empty d hp]
  · obtain ⟨c, -, hchanges, -⟩ := LawfulAutomerge.commit_change d hp
    rw [hchanges]
    exact Finset.subset_insert c _

/-- A register with one value. -/
theorem get_eq_some {w : Value A.Obj} (hmem : w ∈ A.getAll d o k)
    (hall : ∀ v ∈ A.getAll d o k, v = w) : A.get d o k = some w := by
  cases h : A.get d o k with
  | none =>
    rw [LawfulAutomerge.get_none d o k h] at hmem
    cases hmem
  | some v => rw [hall v (LawfulAutomerge.get_mem d o k v h)]

/-- A register with no value. -/
theorem get_eq_none (hnone : ∀ v, v ∉ A.getAll d o k) : A.get d o k = none := by
  cases h : A.get d o k with
  | none => rfl
  | some v => exact absurd (LawfulAutomerge.get_mem d o k v h) (hnone v)

end Automerge

/-- The changes are counted with the one that the open transaction will be. -/
theorem SharedState.historyChangeCount_eq_card {A : Automerge} [LawfulAutomerge A]
    (s : SharedState A) : s.historyChangeCount = (A.changes (A.commit s.doc)).card := by
  obtain ⟨hnodup, hmem⟩ := LawfulAutomerge.getChanges (A := A) s.doc
  rw [SharedState.historyChangeCount, ← List.toFinset_card_of_nodup hnodup]
  congr 1
  ext c
  rw [List.mem_toFinset, hmem]

/-- The one put at a key is the one that lasts. -/
theorem lastPut_of_mem {Obj : Type} [DecidableEq Obj] {ps : List (Put Obj)} {o : Obj} {k : String}
    {v : Value Obj} (hmem : ⟨o, k, v⟩ ∈ ps)
    (hone : ∀ p ∈ ps, p.obj = o → p.key = k → p.value = v) : lastPut ps o k = some v := by
  cases h : lastPut ps o k with
  | none => exact absurd ⟨rfl, rfl⟩ (lastPut_eq_none.1 h _ hmem)
  | some w => exact congrArg some (hone _ (mem_of_lastPut h) rfl rfl)

/-! ## Keys -/

theorem length_deviceIdHex (id : DeviceId) : (deviceIdHex id).toList.length = 64 := by
  rw [deviceIdHex, String.toList_ofList, length_hex, id.length_eq]

theorem length_lwwKey (s : LayoutStamp) : (lwwKey s).toList.length = 85 := by
  rw [lwwKey, String.toList_ofList, List.length_append, length_paddedDec, List.length_cons,
    length_deviceIdHex]

/-- The kinds of keys that an edit puts at are told apart by their lengths. -/
theorem deviceIdHex_ne {id : DeviceId} {k : String} (h : k.toList.length ≠ 64) :
    deviceIdHex id ≠ k := by
  rintro rfl
  exact h (length_deviceIdHex id)

theorem lwwKey_ne {s : LayoutStamp} {k : String} (h : k.toList.length ≠ 85) : lwwKey s ≠ k := by
  rintro rfl
  exact h (length_lwwKey s)

theorem keyLayoutEdits_ne_lww : keyLayoutEdits ≠ keyLayoutLww := by decide

theorem keyMonitors_ne_lww : keyMonitors ≠ keyLayoutLww := by decide

theorem keyMonitors_ne_edits : keyMonitors ≠ keyLayoutEdits := by decide

/-! ## Edits -/

/-- A layout edit. -/
structure EditInfo (A : Automerge) where
  device : DeviceId
  stamp : LayoutStamp
  monitors : List Monitor
  entry : A.Obj
  edits : A.Obj
  edit : A.Obj
  /-- The entry of the device was made by this edit. -/
  fresh : Bool

/-- What an edit puts. -/
def editPuts {A : Automerge} (layout : A.Obj) (e : EditInfo A) : List (Put A.Obj) :=
  (if e.fresh then
    [⟨layout, deviceIdHex e.device, .map e.entry⟩, ⟨e.entry, keyLayoutEdits, .map e.edits⟩]
  else []) ++
  [⟨e.edits, lwwKey e.stamp, .map e.edit⟩,
   ⟨e.edit, keyMonitors, .list (e.monitors.map Monitor.fields)⟩,
   ⟨e.entry, keyLayoutLww, .scalar (encodeLww e.stamp)⟩,
   ⟨A.root, keyLayoutLww, .scalar (encodeLww e.stamp)⟩,
   ⟨e.entry, keyMonitors, .list (e.monitors.map Monitor.fields)⟩]

section editPuts

variable {A : Automerge} {layout : A.Obj} {e : EditInfo A} {p : Put A.Obj}

/-- The puts of an edit, by their keys. -/
inductive IsEditPut (layout : A.Obj) (e : EditInfo A) : Put A.Obj → Prop
  | entry (hfresh : e.fresh = true) :
    IsEditPut layout e ⟨layout, deviceIdHex e.device, .map e.entry⟩
  | edits (hfresh : e.fresh = true) : IsEditPut layout e ⟨e.entry, keyLayoutEdits, .map e.edits⟩
  | edit : IsEditPut layout e ⟨e.edits, lwwKey e.stamp, .map e.edit⟩
  | monitors : IsEditPut layout e ⟨e.edit, keyMonitors, .list (e.monitors.map Monitor.fields)⟩
  | entryStamp : IsEditPut layout e ⟨e.entry, keyLayoutLww, .scalar (encodeLww e.stamp)⟩
  | rootStamp : IsEditPut layout e ⟨A.root, keyLayoutLww, .scalar (encodeLww e.stamp)⟩
  | legacy : IsEditPut layout e ⟨e.entry, keyMonitors, .list (e.monitors.map Monitor.fields)⟩

theorem mem_editPuts : p ∈ editPuts layout e ↔ IsEditPut layout e p := by
  constructor
  · intro h
    rcases List.mem_append.1 h with h | h
    · split at h
      · next hfresh =>
        rcases List.mem_cons.1 h with rfl | h
        · exact .entry hfresh
        · rw [List.mem_singleton.1 h]
          exact .edits hfresh
      · cases h
    · simp only [List.mem_cons, List.not_mem_nil, or_false] at h
      rcases h with rfl | rfl | rfl | rfl | rfl
      · exact .edit
      · exact .monitors
      · exact .entryStamp
      · exact .rootStamp
      · exact .legacy
  · intro h
    unfold editPuts
    cases h with
    | entry hfresh | edits hfresh => simp [hfresh]
    | _ => simp

namespace IsEditPut

theorem at_lww (h : IsEditPut layout e p) (hkey : p.key = keyLayoutLww) :
    p.value = .scalar (encodeLww e.stamp) ∧ (p.obj = A.root ∨ p.obj = e.entry) := by
  cases h with
  | entryStamp => exact ⟨rfl, .inr rfl⟩
  | rootStamp => exact ⟨rfl, .inl rfl⟩
  | entry => exact absurd hkey (deviceIdHex_ne (by decide))
  | edit => exact absurd hkey (lwwKey_ne (by decide))
  | edits => exact absurd hkey keyLayoutEdits_ne_lww
  | monitors | legacy => exact absurd hkey keyMonitors_ne_lww

theorem at_device (h : IsEditPut layout e p) {id : DeviceId} (hkey : p.key = deviceIdHex id) :
    e.fresh = true ∧ e.device = id ∧ p.obj = layout ∧ p.value = .map e.entry := by
  cases h with
  | entry hfresh => exact ⟨hfresh, deviceIdHex_injective hkey, rfl, rfl⟩
  | edit => exact absurd hkey (lwwKey_ne (by rw [length_deviceIdHex]; decide))
  | edits | monitors | entryStamp | rootStamp | legacy =>
    exact absurd hkey.symm (deviceIdHex_ne (by simp only; decide))

theorem at_edits (h : IsEditPut layout e p) (hkey : p.key = keyLayoutEdits) :
    e.fresh = true ∧ p.obj = e.entry ∧ p.value = .map e.edits := by
  cases h with
  | edits hfresh => exact ⟨hfresh, rfl, rfl⟩
  | entry => exact absurd hkey (deviceIdHex_ne (by decide))
  | edit => exact absurd hkey (lwwKey_ne (by decide))
  | entryStamp | rootStamp => exact absurd hkey.symm keyLayoutEdits_ne_lww
  | monitors | legacy => exact absurd hkey keyMonitors_ne_edits

theorem at_stamp (h : IsEditPut layout e p) {s : LayoutStamp} (hkey : p.key = lwwKey s) :
    e.stamp = s ∧ p.obj = e.edits ∧ p.value = .map e.edit := by
  cases h with
  | edit => exact ⟨lwwKey_injective hkey, rfl, rfl⟩
  | entry => exact absurd hkey (deviceIdHex_ne (by rw [length_lwwKey]; decide))
  | edits | monitors | entryStamp | rootStamp | legacy =>
    exact absurd hkey.symm (lwwKey_ne (by simp only; decide))

theorem at_monitors (h : IsEditPut layout e p) (hkey : p.key = keyMonitors) :
    p.value = .list (e.monitors.map Monitor.fields) ∧ (p.obj = e.edit ∨ p.obj = e.entry) := by
  cases h with
  | monitors => exact ⟨rfl, .inl rfl⟩
  | legacy => exact ⟨rfl, .inr rfl⟩
  | entry => exact absurd hkey (deviceIdHex_ne (by decide))
  | edit => exact absurd hkey (lwwKey_ne (by decide))
  | edits => exact absurd hkey.symm keyMonitors_ne_edits
  | entryStamp | rootStamp => exact absurd hkey.symm keyMonitors_ne_lww

theorem key_ne_layout (h : IsEditPut layout e p) : p.key ≠ keyLayout := by
  cases h with
  | entry => exact deviceIdHex_ne (by decide)
  | edit => exact lwwKey_ne (by decide)
  | edits | monitors | entryStamp | rootStamp | legacy => simp only; decide

end IsEditPut

end editPuts

/-! ## Histories -/

/-- The changes of a cluster, and what its edits are. -/
structure History (A : Automerge) where
  /-- The map of the layouts. -/
  layout : A.Obj
  genesis : A.Change
  all : Set A.Change
  info : A.Change → EditInfo A

namespace History

variable {A : Automerge}

/-- The change is an edit. -/
def IsEdit (H : History A) (c : A.Change) : Prop := c ∈ H.all ∧ c ≠ H.genesis

/-- How the changes of an honest cluster hang together. -/
structure Honest (H : History A) : Prop where
  genesis_mem : H.genesis ∈ H.all
  past_genesis : A.past H.genesis = ∅
  /-- The genesis change makes the map of the layouts and stamps the document with no edit. -/
  puts_genesis : ∀ p ∈ A.puts H.genesis, p.obj = A.root ∧
    (p.key = keyLayout → p.value = .map H.layout) ∧
    (p.key = keyLayoutLww → p.value = .scalar (encodeLww noEdit))
  makes_layout : ⟨A.root, keyLayout, .map H.layout⟩ ∈ A.puts H.genesis
  puts_edit : ∀ c, H.IsEdit c → A.puts c = editPuts H.layout (H.info c)
  past_all : ∀ c ∈ H.all, ∀ c' ∈ A.past c, c' ∈ H.all
  genesis_past : ∀ c, H.IsEdit c → H.genesis ∈ A.past c
  rev_lt : ∀ c, H.IsEdit c → ∀ c' ∈ A.past c, c' ≠ H.genesis →
    (H.info c').stamp.rev.toNat < (H.info c).stamp.rev.toNat
  rev_pos : ∀ c, H.IsEdit c → 0 < (H.info c).stamp.rev.toNat
  rev_le : ∀ c, H.IsEdit c → (H.info c).stamp.rev.toNat ≤ (A.past c).card
  over_past : ∀ c ∈ H.all, ∀ o k, ∀ c' ∈ A.overwrites c o k, c' ∈ A.past c ∧
    lastPut (A.puts c) o k ≠ none
  /-- An entry is made only where there is none. -/
  over_layout : ∀ c ∈ H.all, ∀ k, A.overwrites c H.layout k = ∅
  stamp_inj : ∀ c c', H.IsEdit c → H.IsEdit c' → (H.info c).stamp = (H.info c').stamp → c = c'
  makes_once : ∀ c ∈ H.all, ∀ c' ∈ H.all, ∀ p ∈ A.puts c, ∀ p' ∈ A.puts c', ∀ o,
    p.value = .map o → p'.value = .map o → c = c' ∧ p = p'
  not_root : ∀ c ∈ H.all, ∀ p ∈ A.puts c, p.value ≠ .map A.root
  reused : ∀ c, H.IsEdit c → (H.info c).fresh = false → ∃ c' ∈ A.past c, c' ≠ H.genesis ∧
    (H.info c').fresh = true ∧ (H.info c').entry = (H.info c).entry ∧
    (H.info c').edits = (H.info c).edits ∧ (H.info c').device = (H.info c).device

namespace Honest

variable {H : History A} (h : H.Honest) {c c' : A.Change}

include h

/-! ### The objects of an edit -/

theorem isEditPut (hc : H.IsEdit c) {p : Put A.Obj} (hp : p ∈ A.puts c) :
    IsEditPut H.layout (H.info c) p := by
  rw [h.puts_edit c hc] at hp
  exact mem_editPuts.1 hp

theorem mem_puts (hc : H.IsEdit c) {p : Put A.Obj} (hp : IsEditPut H.layout (H.info c) p) :
    p ∈ A.puts c := by
  rw [h.puts_edit c hc]
  exact mem_editPuts.2 hp

/-- The edit that made the entry. -/
theorem exists_maker (hc : H.IsEdit c) : ∃ c', H.IsEdit c' ∧ (c' = c ∨ c' ∈ A.past c) ∧
    (H.info c').fresh = true ∧ (H.info c').entry = (H.info c).entry ∧
    (H.info c').edits = (H.info c).edits ∧ (H.info c').device = (H.info c).device := by
  cases hfresh : (H.info c).fresh with
  | true => exact ⟨c, hc, .inl rfl, hfresh, rfl, rfl, rfl⟩
  | false =>
    obtain ⟨c', hpast, hne, hrest⟩ := h.reused c hc hfresh
    exact ⟨c', ⟨h.past_all c hc.1 c' hpast, hne⟩, .inr hpast, hrest⟩

/-- Two edits of one entry are of one device, and have one map of edits. -/
theorem entry_inj (hc : H.IsEdit c) (hc' : H.IsEdit c')
    (hentry : (H.info c).entry = (H.info c').entry) :
    (H.info c).device = (H.info c').device ∧ (H.info c).edits = (H.info c').edits := by
  obtain ⟨m, hm, -, hfresh, hme, hmedits, hmdevice⟩ := h.exists_maker hc
  obtain ⟨m', hm', -, hfresh', hme', hmedits', hmdevice'⟩ := h.exists_maker hc'
  obtain ⟨rfl, -⟩ := h.makes_once m hm.1 m' hm'.1 _ (h.mem_puts hm (.entry hfresh)) _
    (h.mem_puts hm' (.entry hfresh')) (H.info c).entry (by rw [hme]) (by rw [hme', hentry])
  exact ⟨hmdevice.symm.trans hmdevice', hmedits.symm.trans hmedits'⟩

/-- An edit makes no object that another edit makes at a key of another kind. -/
theorem entry_ne_edit (hc : H.IsEdit c) (hc' : H.IsEdit c') :
    (H.info c).entry ≠ (H.info c').edit := by
  intro heq
  obtain ⟨m, hm, -, hfresh, hme, -, -⟩ := h.exists_maker hc
  obtain ⟨-, hput⟩ := h.makes_once m hm.1 c' hc'.1 _ (h.mem_puts hm (.entry hfresh)) _
    (h.mem_puts hc' .edit) (H.info c').edit (by rw [hme, heq]) rfl
  exact deviceIdHex_ne (by rw [length_lwwKey]; decide) (congrArg Put.key hput)

theorem layout_ne_root : H.layout ≠ A.root := by
  intro heq
  exact h.not_root _ h.genesis_mem _ h.makes_layout (by rw [heq])

theorem edit_ne_root (hc : H.IsEdit c) : (H.info c).edit ≠ A.root := by
  intro heq
  exact h.not_root c hc.1 _ (h.mem_puts hc .edit) (by rw [heq])

theorem edits_ne_root (hc : H.IsEdit c) : (H.info c).edits ≠ A.root := by
  intro heq
  obtain ⟨m, hm, -, hfresh, -, hedits, -⟩ := h.exists_maker hc
  exact h.not_root m hm.1 _ (h.mem_puts hm (.edits hfresh)) (by rw [hedits, heq])

theorem entry_ne_root (hc : H.IsEdit c) : (H.info c).entry ≠ A.root := by
  intro heq
  obtain ⟨m, hm, -, hfresh, hme, -, -⟩ := h.exists_maker hc
  exact h.not_root m hm.1 _ (h.mem_puts hm (.entry hfresh)) (by rw [hme, heq])

theorem ne_layout (hc : H.IsEdit c) :
    (H.info c).entry ≠ H.layout ∧ (H.info c).edits ≠ H.layout := by
  obtain ⟨m, hm, -, hfresh, hme, hmedits, -⟩ := h.exists_maker hc
  refine ⟨?_, ?_⟩
  · intro heq
    exact hm.2 (h.makes_once m hm.1 _ h.genesis_mem _ (h.mem_puts hm (.entry hfresh)) _
      h.makes_layout H.layout (by rw [hme, heq]) rfl).1
  · intro heq
    exact hm.2 (h.makes_once m hm.1 _ h.genesis_mem _ (h.mem_puts hm (.edits hfresh)) _
      h.makes_layout H.layout (by rw [hmedits, heq]) rfl).1

/-! ### The stamps of an edit -/

/-- What an edit leaves in the registers. -/
theorem lastPut_lww (hc : H.IsEdit c) {o : A.Obj} (ho : o = A.root ∨ o = (H.info c).entry) :
    lastPut (A.puts c) o keyLayoutLww = some (.scalar (encodeLww (H.info c).stamp)) := by
  have hmem : ⟨o, keyLayoutLww, .scalar (encodeLww (H.info c).stamp)⟩ ∈ A.puts c := by
    rcases ho with rfl | rfl
    · exact h.mem_puts hc .rootStamp
    · exact h.mem_puts hc .entryStamp
  exact lastPut_of_mem hmem fun p hp _ hkey => ((h.isEditPut hc hp).at_lww hkey).1

theorem lww_of_lastPut (hc : H.IsEdit c) {o : A.Obj} {v : Value A.Obj}
    (hput : lastPut (A.puts c) o keyLayoutLww = some v) :
    v = .scalar (encodeLww (H.info c).stamp) ∧ (o = A.root ∨ o = (H.info c).entry) :=
  (h.isEditPut hc (mem_of_lastPut hput)).at_lww rfl

end Honest

/-! ## What a replica reads -/

/-- A replica of the cluster, between two calls. -/
structure Replica (H : History A) (s : SharedState A) : Prop where
  committed : A.pending s.doc = []
  known : ∀ c ∈ A.known s.doc, c ∈ H.all
  genesis : H.genesis ∈ A.changes s.doc

/-- The replica has the edit. -/
def Has (H : History A) (s : SharedState A) (c : A.Change) : Prop :=
  c ∈ A.changes s.doc ∧ c ≠ H.genesis

namespace Replica

variable [LawfulAutomerge A] {H : History A} {s : SharedState A} (hr : Replica H s)

include hr

theorem all {c : A.Change} (hc : c ∈ A.changes s.doc) : c ∈ H.all :=
  hr.known c (LawfulAutomerge.changes_known s.doc hc)

theorem isEdit {c : A.Change} (hc : H.Has s c) : H.IsEdit c := ⟨hr.all hc.1, hc.2⟩

theorem historyChangeCount_eq : s.historyChangeCount = (A.changes s.doc).card := by
  rw [SharedState.historyChangeCount_eq_card, LawfulAutomerge.commit_empty s.doc hr.committed]

/-- The revision of an edit is below the number of changes. -/
theorem rev_lt_count (h : H.Honest) {c : A.Change} (hc : H.Has s c) :
    (H.info c).stamp.rev.toNat < s.historyChangeCount := by
  rw [hr.historyChangeCount_eq]
  refine (h.rev_le c (hr.isEdit hc)).trans_lt (Finset.card_lt_card ?_)
  refine (Finset.ssubset_iff_of_subset (LawfulAutomerge.past_subset s.doc c hc.1)).2 ?_
  exact ⟨c, hc.1, LawfulAutomerge.not_mem_past c⟩

/-- The cap does not bind. -/
theorem candidate_stamp (h : H.Honest) {c : A.Change} (hc : H.Has s c) :
    SharedState.candidate? (A := A) s.causalLayoutRevCap (.scalar (encodeLww (H.info c).stamp)) =
      some (H.info c).stamp := by
  refine SharedState.candidate?_encodeLww ?_
  have hcount := hr.rev_lt_count h hc
  have hmax := (H.info c).stamp.rev.toNat_lt
  rw [UInt64.le_iff_toNat_le, SharedState.causalLayoutRevCap, UInt64.toNat_ofNatClamp]
  omega

/-- The values of a register are the stamps of its edits, and of none in the document's own. -/
theorem lww_of_mem (h : H.Honest) {o : A.Obj} {v : Value A.Obj}
    (hv : v ∈ A.getAll s.doc o keyLayoutLww) :
    v = .scalar (encodeLww noEdit) ∨
      ∃ c, H.Has s c ∧ (o = A.root ∨ o = (H.info c).entry) ∧
        v = .scalar (encodeLww (H.info c).stamp) := by
  obtain ⟨c, hc, hput, -⟩ := (Automerge.mem_getAll_of_committed hr.committed).1 hv
  by_cases hgenesis : c = H.genesis
  · subst hgenesis
    obtain ⟨-, -, hstamp⟩ := h.puts_genesis _ (mem_of_lastPut hput)
    exact .inl (hstamp rfl)
  · obtain ⟨hstamp, hobj⟩ := h.lww_of_lastPut ⟨hr.all hc, hgenesis⟩ hput
    exact .inr ⟨c, ⟨hc, hgenesis⟩, hobj, hstamp⟩

/-- **No edit is lost.** The register has the stamp of an edit that is no lower: an edit overwrites
only lower ones. -/
theorem exists_lww (h : H.Honest) {o : A.Obj} {c : A.Change} (hc : H.Has s c)
    (ho : o = A.root ∨ o = (H.info c).entry) :
    ∃ c', H.Has s c' ∧ (o = A.root ∨ o = (H.info c').entry) ∧
      (H.info c).stamp ≤ (H.info c').stamp ∧
      .scalar (encodeLww (H.info c').stamp) ∈ A.getAll s.doc o keyLayoutLww := by
  classical
  -- the greatest of the register's edits is not overwritten
  obtain ⟨c', hc', hmax⟩ := Finset.exists_max_image
    ((A.changes s.doc).filter fun c => c ≠ H.genesis ∧ (o = A.root ∨ o = (H.info c).entry))
    (fun c => (H.info c).stamp) ⟨c, Finset.mem_filter.2 ⟨hc.1, hc.2, ho⟩⟩
  obtain ⟨hmem, hne, ho'⟩ := Finset.mem_filter.1 hc'
  have hedit := hr.isEdit ⟨hmem, hne⟩
  refine ⟨c', ⟨hmem, hne⟩, ho', hmax c (Finset.mem_filter.2 ⟨hc.1, hc.2, ho⟩), ?_⟩
  refine (Automerge.mem_getAll_of_committed hr.committed).2
    ⟨c', hmem, h.lastPut_lww hedit ho', ?_⟩
  intro later hlater hover
  obtain ⟨hpast, hput⟩ := h.over_past later (hr.all hlater) o keyLayoutLww c' hover
  by_cases hgenesis : later = H.genesis
  · rw [hgenesis, h.past_genesis] at hpast
    exact absurd hpast (Finset.notMem_empty _)
  have hlateredit : H.IsEdit later := ⟨hr.all hlater, hgenesis⟩
  have hlt := h.rev_lt later hlateredit c' hpast hne
  obtain ⟨v, hv⟩ := Option.ne_none_iff_exists'.1 hput
  have hle := hmax later
    (Finset.mem_filter.2 ⟨hlater, hgenesis, (h.lww_of_lastPut hlateredit hv).2⟩)
  have hrev := LayoutStamp.rev_le_of_le hle
  omega

/-- **The register of the document or of an entry** resolves to the greatest of its edits. -/
theorem resolved_at (h : H.Honest) (o : A.Obj) :
    (∀ c, H.Has s c → (o = A.root ∨ o = (H.info c).entry) →
        (H.info c).stamp ≤ s.resolvedLwwAt o) ∧
      (s.resolvedLwwAt o = noEdit ∨
        ∃ c, H.Has s c ∧ (o = A.root ∨ o = (H.info c).entry) ∧
          (H.info c).stamp = s.resolvedLwwAt o) := by
  obtain ⟨-, hall, hfound⟩ := s.resolvedLwwAt_spec o
  refine ⟨?_, ?_⟩
  · intro c hc ho
    obtain ⟨c', hc', -, hle, hmem⟩ := hr.exists_lww h hc ho
    exact hle.trans (hall _ hmem _ (hr.candidate_stamp h hc'))
  · rcases hfound with hnone | ⟨v, hv, hcand⟩
    · exact .inl hnone
    · rcases hr.lww_of_mem h hv with rfl | ⟨c, hc, ho, rfl⟩
      · have hcap : SharedState.candidate? (A := A) s.causalLayoutRevCap
            (.scalar (encodeLww noEdit)) = some noEdit :=
          SharedState.candidate?_encodeLww (UInt64.le_iff_toNat_le.2 (Nat.zero_le _))
        exact .inl (Option.some.inj (hcand.symm.trans hcap))
      · exact .inr ⟨c, hc, ho, Option.some.inj ((hr.candidate_stamp h hc).symm.trans hcand)⟩

/-! ### The maps of a device -/

/-- A key at which one change puts. -/
theorem get_of_once (h : H.Honest) {o : A.Obj} {k : String} {v : Value A.Obj} {c : A.Change}
    (hc : c ∈ A.changes s.doc) (hput : lastPut (A.puts c) o k = some v)
    (honce : ∀ c' ∈ H.all, ∀ w, lastPut (A.puts c') o k = some w → c' = c) :
    A.get s.doc o k = some v := by
  refine Automerge.get_eq_some ((Automerge.mem_getAll_of_committed hr.committed).2
    ⟨c, hc, hput, ?_⟩) ?_
  · intro later hlater hover
    obtain ⟨hpast, hagain⟩ := h.over_past later (hr.all hlater) o k c hover
    obtain ⟨w, hw⟩ := Option.ne_none_iff_exists'.1 hagain
    rw [honce later (hr.all hlater) w hw] at hpast
    exact LawfulAutomerge.not_mem_past c hpast
  · intro w hw
    obtain ⟨c', hc', hput', -⟩ := (Automerge.mem_getAll_of_committed hr.committed).1 hw
    rw [honce c' (hr.all hc') w hput'] at hput'
    exact Option.some.inj (hput'.symm.trans hput)

theorem get_layout (h : H.Honest) : A.get s.doc A.root keyLayout = some (.map H.layout) := by
  refine hr.get_of_once h hr.genesis (lastPut_of_mem h.makes_layout ?_) ?_
  · intro p hp _ hkey
    exact (h.puts_genesis p hp).2.1 hkey
  · intro c hc w hput
    by_contra hne
    exact (h.isEditPut ⟨hc, hne⟩ (mem_of_lastPut hput)).key_ne_layout rfl

/-- The entries of a device are those that its edits made. -/
theorem mem_entries (h : H.Honest) {device : DeviceId} {v : Value A.Obj} :
    v ∈ A.getAll s.doc H.layout (deviceIdHex device) ↔
      ∃ c, H.Has s c ∧ (H.info c).fresh = true ∧ (H.info c).device = device ∧
        v = .map (H.info c).entry := by
  rw [Automerge.mem_getAll_of_committed hr.committed]
  constructor
  · rintro ⟨c, hc, hput, -⟩
    have hne : c ≠ H.genesis := by
      rintro rfl
      exact h.layout_ne_root (h.puts_genesis _ (mem_of_lastPut hput)).1
    obtain ⟨hfresh, hdevice, -, hv⟩ :=
      (h.isEditPut ⟨hr.all hc, hne⟩ (mem_of_lastPut hput)).at_device rfl
    exact ⟨c, ⟨hc, hne⟩, hfresh, hdevice, hv⟩
  · rintro ⟨c, hc, hfresh, rfl, rfl⟩
    have hedit := hr.isEdit hc
    refine ⟨c, hc.1, lastPut_of_mem (h.mem_puts hedit (.entry hfresh)) ?_, ?_⟩
    · intro p hp _ hkey
      exact ((h.isEditPut hedit hp).at_device hkey).2.2.2
    · intro later hlater hover
      rw [h.over_layout later (hr.all hlater)] at hover
      exact Finset.notMem_empty _ hover

theorem get_edits (h : H.Honest) {c : A.Change} (hc : H.Has s c) :
    A.get s.doc (H.info c).entry keyLayoutEdits = some (.map (H.info c).edits) := by
  obtain ⟨m, hm, hmem, hfresh, hentry, hedits, -⟩ := h.exists_maker (hr.isEdit hc)
  have hmdoc : m ∈ A.changes s.doc := by
    rcases hmem with rfl | hpast
    · exact hc.1
    · exact LawfulAutomerge.past_subset s.doc c hc.1 hpast
  rw [← hentry, ← hedits]
  refine hr.get_of_once h hmdoc (lastPut_of_mem (h.mem_puts hm (.edits hfresh)) ?_) ?_
  · intro p hp _ hkey
    exact ((h.isEditPut hm hp).at_edits hkey).2.2
  · intro c' hc' w hput
    have hne : c' ≠ H.genesis := by
      rintro rfl
      exact h.entry_ne_root hm (h.puts_genesis _ (mem_of_lastPut hput)).1
    obtain ⟨hfresh', hobj, -⟩ := (h.isEditPut ⟨hc', hne⟩ (mem_of_lastPut hput)).at_edits rfl
    exact (h.makes_once c' hc' m hm.1 _ (h.mem_puts ⟨hc', hne⟩ (.entry hfresh')) _
      (h.mem_puts hm (.entry hfresh)) (H.info m).entry (congrArg Value.map hobj.symm) rfl).1

theorem get_edit (h : H.Honest) {c : A.Change} (hc : H.Has s c) :
    A.get s.doc (H.info c).edits (lwwKey (H.info c).stamp) = some (.map (H.info c).edit) := by
  have hedit := hr.isEdit hc
  refine hr.get_of_once h hc.1 (lastPut_of_mem (h.mem_puts hedit .edit) ?_) ?_
  · intro p hp _ hkey
    exact ((h.isEditPut hedit hp).at_stamp hkey).2.2
  · intro c' hc' w hput
    have hne : c' ≠ H.genesis := by
      rintro rfl
      exact h.edits_ne_root hedit (h.puts_genesis _ (mem_of_lastPut hput)).1
    exact h.stamp_inj c' c ⟨hc', hne⟩ hedit
      ((h.isEditPut ⟨hc', hne⟩ (mem_of_lastPut hput)).at_stamp rfl).1

theorem get_monitors (h : H.Honest) {c : A.Change} (hc : H.Has s c) :
    A.get s.doc (H.info c).edit keyMonitors =
      some (.list ((H.info c).monitors.map Monitor.fields)) := by
  have hedit := hr.isEdit hc
  refine hr.get_of_once h hc.1 (lastPut_of_mem (h.mem_puts hedit .monitors) ?_) ?_
  · intro p hp _ hkey
    exact ((h.isEditPut hedit hp).at_monitors hkey).1
  · intro c' hc' w hput
    have hne : c' ≠ H.genesis := by
      rintro rfl
      exact h.edit_ne_root hedit (h.puts_genesis _ (mem_of_lastPut hput)).1
    have hedit' : H.IsEdit c' := ⟨hc', hne⟩
    rcases ((h.isEditPut hedit' (mem_of_lastPut hput)).at_monitors rfl).2 with hobj | hobj
    · exact (h.makes_once c' hc' c hedit.1 _ (h.mem_puts hedit' .edit) _ (h.mem_puts hedit .edit)
        (H.info c).edit (congrArg Value.map hobj.symm) rfl).1
    · exact absurd hobj.symm (h.entry_ne_edit hedit' hedit)

/-- The monitors under the stamp of an edit. -/
theorem layoutForStamp_eq (h : H.Honest) {c : A.Change} (hc : H.Has s c) :
    s.layoutForStamp (H.info c).entry (lwwKey (H.info c).stamp) =
      .ok (some (H.info c).monitors) := by
  have hread : (((H.info c).monitors.map Monitor.fields).map Monitor.ofFields) =
      (H.info c).monitors := by
    rw [List.map_map]
    refine (List.map_congr_left fun m _ => ?_).trans (List.map_id _)
    exact Monitor.ofFields_fields m
  simp only [SharedState.layoutForStamp, SharedState.optMapChild, SharedState.monitorsAt,
    SharedState.optListChild, hr.get_edits h hc, hr.get_edit h hc, hr.get_monitors h hc, hread]
  rfl

/-! ### The layout of a device -/

/-- A device without an edit has no layout. -/
theorem layout_of_none (h : H.Honest) {device : DeviceId}
    (hnone : ∀ c, H.Has s c → (H.info c).device ≠ device) : s.layout device = .ok [] := by
  have hempty : ∀ v, v ∉ A.getAll s.doc H.layout (deviceIdHex device) := by
    intro v hv
    obtain ⟨c, hc, -, hdevice, -⟩ := (hr.mem_entries h).1 hv
    exact hnone c hc hdevice
  have hnil := List.eq_nil_iff_forall_not_mem.2 hempty
  simp only [SharedState.layout, SharedState.optMapChild, SharedState.mapChildConflicts,
    hr.get_layout h, hnil, SharedState.mapIds, SharedState.bestEntry, List.foldl_nil,
    Automerge.get_eq_none hempty]

/-- **The layout of a device** is the monitors of its greatest edit. -/
theorem layout_of_greatest (h : H.Honest) {c : A.Change} (hc : H.Has s c)
    (hmax : ∀ c', H.Has s c' → (H.info c').device = (H.info c).device →
      (H.info c').stamp ≤ (H.info c).stamp) :
    s.layout (H.info c).device = .ok (H.info c).monitors := by
  have hedit := hr.isEdit hc
  obtain ⟨ids, hids, hvalues⟩ := @SharedState.mapIds_of_maps A
    (deviceIdHex (H.info c).device)
    (A.getAll s.doc H.layout (deviceIdHex (H.info c).device)) (by
      intro v hv
      obtain ⟨c', -, -, -, rfl⟩ := (hr.mem_entries h).1 hv
      exact ⟨_, rfl⟩)
  have hentries : ∀ e, e ∈ ids ↔
      ∃ c', H.Has s c' ∧ (H.info c').fresh = true ∧ (H.info c').device = (H.info c).device ∧
        e = (H.info c').entry := by
    intro e
    have hmem : e ∈ ids ↔ .map e ∈ A.getAll s.doc H.layout (deviceIdHex (H.info c).device) := by
      rw [← hvalues]
      simp
    rw [hmem, hr.mem_entries h]
    simp
  -- the entry of the greatest edit is among them, and resolves to its stamp
  obtain ⟨m, hm, hmem, hfresh, hmentry, -, hmdevice⟩ := h.exists_maker hedit
  have hmdoc : H.Has s m := by
    rcases hmem with rfl | hpast
    · exact hc
    · exact ⟨LawfulAutomerge.past_subset s.doc c hc.1 hpast, hm.2⟩
  have hentry : (H.info c).entry ∈ ids :=
    (hentries _).2 ⟨m, hmdoc, hfresh, hmdevice, hmentry.symm⟩
  have hle := (hr.resolved_at h (H.info c).entry).1 c hc (.inr rfl)
  have hpos : (s.resolvedLwwAt (H.info c).entry).rev ≠ 0 := by
    intro hzero
    have hrev := LayoutStamp.rev_le_of_le hle
    have hpos := h.rev_pos c hedit
    rw [hzero, UInt64.toNat_zero] at hrev
    omega
  rcases s.bestEntry_spec ids with ⟨-, hall⟩ | ⟨e, he, hbest, hrev, hgreatest⟩
  · exact absurd (hall _ hentry) hpos
  -- and the best entry resolves to no greater stamp
  obtain ⟨f, hf, hffresh, hfdevice, rfl⟩ := (hentries e).1 he
  rcases (hr.resolved_at h (H.info f).entry).2 with hnone | ⟨b, hb, hbentry, hbstamp⟩
  · rw [hnone] at hrev
    exact absurd rfl hrev
  rcases hbentry with hroot | hbentry
  · exact absurd hroot (h.entry_ne_root (hr.isEdit hf))
  have hbdevice : (H.info b).device = (H.info c).device :=
    (h.entry_inj (hr.isEdit hb) (hr.isEdit hf) hbentry.symm).1.trans hfdevice
  have heq : (H.info b).stamp = (H.info c).stamp := by
    refine le_antisymm (hmax b hb hbdevice) ?_
    rw [hbstamp]
    exact hle.trans (hgreatest _ hentry hpos)
  obtain rfl := h.stamp_inj b c (hr.isEdit hb) hedit heq
  rw [← hbstamp, hbentry] at hbest
  simp only [SharedState.layout, SharedState.optMapChild, SharedState.mapChildConflicts,
    hr.get_layout h, hids, hbest, hr.layoutForStamp_eq h hb]

end Replica

end History

end Mouser
