import Mouser.State.Automerge
import Mouser.State.Codec
import Mouser.Lib.FixedWidth

/-!
# The shared layout

`SharedState` wraps a replicated document. `setLayout` writes a device's monitors under the stamp of
the edit, and the stamp in two registers, the device's own and the one of the whole document.
`layout` reads the device's register and returns the monitors that its greatest stamp is on. A
stamp's revision counts for no more than the number of changes in the document.
-/

namespace Mouser

/-- One monitor rectangle. -/
structure Monitor where
  displayId : UInt32
  x : Int32
  y : Int32
  w : UInt32
  h : UInt32
  scaleMilli : UInt32
  rotation : UInt16
deriving DecidableEq

inductive StateError where
  | schema (message : String)
  | automerge (e : ApplyError)
  | decode (message : String)
deriving DecidableEq

def keyDevices : String := "devices"
def keyLayout : String := "layout"
def keyAliases : String := "aliases"
def keyInputPrefs : String := "input_prefs"
def keyLayoutLww : String := "layout_lww"
def keyLayoutEdits : String := "edits"
def keyMonitors : String := "monitors"

/-- The value that a stamp has in a register. -/
def encodeLww (stamp : LayoutStamp) : Scalar := .str (lwwKey stamp)

/-- The stamp of no edit. -/
def noEdit : LayoutStamp := { rev := 0, editor := .fill 0 }

/-! ## Monitors as items of a list -/

/-- The fields that `write_monitors` puts for a monitor. -/
def Monitor.fields (m : Monitor) : List (String × Scalar) :=
  [("display_id", .uint m.displayId.toUInt64),
   ("x", .int m.x.toInt64),
   ("y", .int m.y.toInt64),
   ("w", .uint m.w.toUInt64),
   ("h", .uint m.h.toUInt64),
   ("scale_milli", .uint m.scaleMilli.toUInt64),
   ("rotation", .uint m.rotation.toUInt64)]

/-- An unsigned integer, however it is stored. -/
def scalarU64 : Scalar → Option UInt64
  | .uint n => some n
  | .int n => if 0 ≤ n then some n.toUInt64 else none
  | .str _ => none

def scalarI64 : Scalar → Option Int64
  | .uint n => some n.toInt64
  | .int n => some n
  | .str _ => none

def u64At (item : List (String × Scalar)) (key : String) : UInt64 :=
  ((item.lookup key).bind scalarU64).getD 0

def i64At (item : List (String × Scalar)) (key : String) : Int64 :=
  ((item.lookup key).bind scalarI64).getD 0

/-- The monitor that `monitors_at` reads from an item. -/
def Monitor.ofFields (item : List (String × Scalar)) : Monitor where
  displayId := (u64At item "display_id").toUInt32
  x := (i64At item "x").toInt32
  y := (i64At item "y").toInt32
  w := (u64At item "w").toUInt32
  h := (u64At item "h").toUInt32
  scaleMilli := (u64At item "scale_milli").toUInt32
  rotation := (u64At item "rotation").toUInt16

@[simp] theorem Monitor.ofFields_fields (m : Monitor) : Monitor.ofFields m.fields = m := by
  simp [ofFields, fields, u64At, i64At, List.lookup_cons, scalarU64, scalarI64]

/-- The replicated document. -/
structure SharedState (A : Automerge) where
  doc : A.Doc

namespace SharedState

variable {A : Automerge}

/-- The change that all documents start with. -/
def genesisDoc (A : Automerge) (genesisActor : A.Actor) : A.Doc :=
  let doc := A.empty genesisActor
  let doc := (A.putMap doc A.root keyDevices).1
  let doc := (A.putMap doc A.root keyLayout).1
  let doc := (A.putMap doc A.root keyAliases).1
  let doc := (A.putMap doc A.root keyInputPrefs).1
  let doc := A.put doc A.root keyLayoutLww (encodeLww noEdit)
  A.commit doc

/-- An empty document, of a fresh actor. -/
def new (genesisActor actor : A.Actor) : SharedState A :=
  { doc := A.fork (genesisDoc A genesisActor) actor }

/-! ## Maps -/

def ensureMap (s : SharedState A) (parent : A.Obj) (key : String) :
    SharedState A × Except StateError A.Obj :=
  match A.get s.doc parent key with
  | some (.map id) => (s, .ok id)
  | some (.list _) => (s, .error (.schema (key ++ " is not a map")))
  | some (.scalar _) | none =>
    ({ doc := (A.putMap s.doc parent key).1 }, .ok (A.putMap s.doc parent key).2)

def mapChild (s : SharedState A) (parent : A.Obj) (key : String) :
    SharedState A × Except StateError A.Obj :=
  s.ensureMap parent key

def optMapChild (s : SharedState A) (parent : A.Obj) (key : String) :
    Except StateError (Option A.Obj) :=
  match A.get s.doc parent key with
  | some (.map id) => .ok (some id)
  | some (.list _) => .error (.schema (key ++ " is not a map"))
  | some (.scalar _) | none => .ok none

/-- The maps among the values of a key. -/
def mapIds (key : String) : List (Value A.Obj) → Except StateError (List A.Obj)
  | [] => .ok []
  | .map id :: values => (mapIds key values).map (id :: ·)
  | .list _ :: _ => .error (.schema (key ++ " is not a map"))
  | .scalar _ :: values => mapIds key values

def mapChildConflicts (s : SharedState A) (parent : A.Obj) (key : String) :
    Except StateError (List A.Obj) :=
  mapIds key (A.getAll s.doc parent key)

def optListChild (s : SharedState A) (parent : A.Obj) (key : String) :
    Except StateError (Option (List (List (String × Scalar)))) :=
  match A.get s.doc parent key with
  | some (.list items) => .ok (some items)
  | some (.map _) => .error (.schema (key ++ " is not a list"))
  | some (.scalar _) | none => .ok none

/-! ## The layout register -/

/-- Number of changes in the document. -/
def historyChangeCount (s : SharedState A) : ℕ := (A.getChanges s.doc).length

def causalLayoutRevCap (s : SharedState A) : UInt64 := .ofNatClamp s.historyChangeCount

/-- The stamp that a value of a register stands for, its revision capped. -/
def candidate? (cap : UInt64) (value : Value A.Obj) : Option LayoutStamp :=
  match value with
  | .scalar (.str text) => (decodeLww text).map fun cand => { cand with rev := min cand.rev cap }
  | _ => none

/-- The body of the loop over the values of a register. -/
def keepGreater (best : LayoutStamp) : Option LayoutStamp → LayoutStamp
  | some cand => if cand > best then cand else best
  | none => best

theorem keepGreater_spec (best : LayoutStamp) (cand : Option LayoutStamp) :
    best ≤ keepGreater best cand ∧ (∀ c, cand = some c → c ≤ keepGreater best cand) ∧
      (keepGreater best cand = best ∨ cand = some (keepGreater best cand)) := by
  cases cand with
  | none => exact ⟨le_refl best, nofun, .inl rfl⟩
  | some c =>
    simp only [keepGreater]
    by_cases h : c > best
    · rw [if_pos h]
      refine ⟨h.le, ?_, .inr rfl⟩
      rintro _ ⟨⟩
      exact le_refl c
    · rw [if_neg h]
      refine ⟨le_refl best, ?_, .inl rfl⟩
      rintro _ ⟨⟩
      exact not_lt.1 h

/-- The greatest stamp of a register. -/
def resolvedLwwAt (s : SharedState A) (parent : A.Obj) : LayoutStamp :=
  let cap := s.causalLayoutRevCap
  (A.getAll s.doc parent keyLayoutLww).foldl
    (fun best value => keepGreater best (candidate? cap value)) noEdit

/-- What the loop over the values of a register finds. -/
theorem foldl_keepGreater {α : Type} (f : α → Option LayoutStamp) (vs : List α) (b : LayoutStamp) :
    b ≤ vs.foldl (fun best v => keepGreater best (f v)) b ∧
      (∀ v ∈ vs, ∀ cand, f v = some cand →
        cand ≤ vs.foldl (fun best v => keepGreater best (f v)) b) ∧
      (vs.foldl (fun best v => keepGreater best (f v)) b = b ∨
        ∃ v ∈ vs, f v = some (vs.foldl (fun best v => keepGreater best (f v)) b)) := by
  induction vs generalizing b with
  | nil => exact ⟨le_refl b, List.forall_mem_nil _, .inl rfl⟩
  | cons v vs ih =>
    rw [List.foldl_cons]
    obtain ⟨hle, hall, hfound⟩ := ih (keepGreater b (f v))
    obtain ⟨hb, hv, hstep⟩ := keepGreater_spec b (f v)
    refine ⟨hb.trans hle, List.forall_mem_cons.2 ⟨?_, hall⟩, ?_⟩
    · intro cand hcand
      exact (hv cand hcand).trans hle
    · rcases hfound with heq | ⟨w, hw, hfw⟩
      · rw [heq]
        rcases hstep with hsame | hnew
        · exact .inl hsame
        · exact .inr ⟨v, .head _, hnew⟩
      · exact .inr ⟨w, .tail _ hw, hfw⟩

/-- **What `resolvedLwwAt` finds**: the greatest of the capped stamps. -/
theorem resolvedLwwAt_spec (s : SharedState A) (parent : A.Obj) :
    noEdit ≤ s.resolvedLwwAt parent ∧
      (∀ v ∈ A.getAll s.doc parent keyLayoutLww, ∀ cand,
        candidate? s.causalLayoutRevCap v = some cand → cand ≤ s.resolvedLwwAt parent) ∧
      (s.resolvedLwwAt parent = noEdit ∨ ∃ v ∈ A.getAll s.doc parent keyLayoutLww,
        candidate? s.causalLayoutRevCap v = some (s.resolvedLwwAt parent)) :=
  foldl_keepGreater _ _ _

/-- A register whose stamps are all matched in another resolves to no greater stamp. -/
theorem resolvedLwwAt_le {s s' : SharedState A} {parent parent' : A.Obj}
    (h : ∀ v ∈ A.getAll s.doc parent keyLayoutLww, ∀ cand,
      candidate? s.causalLayoutRevCap v = some cand →
      ∃ v' ∈ A.getAll s'.doc parent' keyLayoutLww, ∃ cand',
        candidate? s'.causalLayoutRevCap v' = some cand' ∧ cand ≤ cand') :
    s.resolvedLwwAt parent ≤ s'.resolvedLwwAt parent' := by
  obtain ⟨hno, hall, -⟩ := s'.resolvedLwwAt_spec parent'
  rcases (s.resolvedLwwAt_spec parent).2.2 with hnone | ⟨v, hv, hcand⟩
  · rw [hnone]
    exact hno
  · obtain ⟨v', hv', cand', hcand', hle⟩ := h v hv _ hcand
    exact hle.trans (hall v' hv' cand' hcand')

/-- A stamp that the cap does not bind. -/
theorem candidate?_encodeLww {stamp : LayoutStamp} {cap : UInt64} (h : stamp.rev ≤ cap) :
    candidate? (A := A) cap (.scalar (encodeLww stamp)) = some stamp := by
  have hmin : min stamp.rev cap = stamp.rev := if_pos h
  simp only [candidate?, encodeLww, decodeLww_lwwKey, Option.map_some, hmin]

def layoutRev (s : SharedState A) : UInt64 := (s.resolvedLwwAt A.root).rev

def layoutEditorHex (s : SharedState A) : String := deviceIdHex (s.resolvedLwwAt A.root).editor

def resolvedLwwKeyAt (s : SharedState A) (parent : A.Obj) : Option String :=
  let resolved := s.resolvedLwwAt parent
  if resolved.rev = 0 then none else some (lwwKey resolved)

/-! ## The layout of a device -/

def writeMonitors (s : SharedState A) (entry : A.Obj) (monitors : List Monitor) : SharedState A :=
  { doc := A.putList s.doc entry keyMonitors (monitors.map Monitor.fields) }

def putStamp (s : SharedState A) (parent : A.Obj) (stamp : LayoutStamp) : SharedState A :=
  { doc := A.put s.doc parent keyLayoutLww (encodeLww stamp) }

def commit (s : SharedState A) : SharedState A := { doc := A.commit s.doc }

/-- Replace a device's monitors. -/
def setLayout (s : SharedState A) (device editor : DeviceId) (monitors : List Monitor) :
    SharedState A × Except StateError Unit :=
  match s.mapChild A.root keyLayout with
  | (s, .error e) => (s, .error e)
  | (s, .ok layout) =>
    match s.ensureMap layout (deviceIdHex device) with
    | (s, .error e) => (s, .error e)
    | (s, .ok entry) =>
      let stamp : LayoutStamp := { rev := s.layoutRev.saturatingAdd 1, editor }
      match s.ensureMap entry keyLayoutEdits with
      | (s, .error e) => (s, .error e)
      | (s, .ok edits) =>
        match s.ensureMap edits (lwwKey stamp) with
        | (s, .error e) => (s, .error e)
        | (s, .ok edit) =>
          let s := s.writeMonitors edit monitors
          let s := s.putStamp entry stamp
          let s := s.putStamp A.root stamp
          let s := s.writeMonitors entry monitors
          (s.commit, .ok ())

def monitorsAt (s : SharedState A) (entry : A.Obj) : Except StateError (List Monitor) :=
  match s.optListChild entry keyMonitors with
  | .error e => .error e
  | .ok none => .ok []
  | .ok (some items) => .ok (items.map Monitor.ofFields)

def layoutForStamp (s : SharedState A) (entry : A.Obj) (stamp : String) :
    Except StateError (Option (List Monitor)) :=
  match s.optMapChild entry keyLayoutEdits with
  | .error e => .error e
  | .ok none => .ok none
  | .ok (some edits) =>
    match s.optMapChild edits stamp with
    | .error e => .error e
    | .ok none => .ok none
    | .ok (some edit) => (s.monitorsAt edit).map some

/-- The entry with the greatest stamp; one without an edit does not count. -/
def bestEntry (s : SharedState A) (entries : List A.Obj) : Option (LayoutStamp × A.Obj) :=
  entries.foldl (fun best entry =>
    let cand := s.resolvedLwwAt entry
    if cand.rev = 0 then best
    else if best.all (cand > ·.1) then some (cand, entry) else best) none

/-- **What `bestEntry` finds.** -/
theorem bestEntry_spec (s : SharedState A) (entries : List A.Obj) :
    (s.bestEntry entries = none ∧ ∀ e ∈ entries, (s.resolvedLwwAt e).rev = 0) ∨
      ∃ e ∈ entries, s.bestEntry entries = some (s.resolvedLwwAt e, e) ∧
        (s.resolvedLwwAt e).rev ≠ 0 ∧
        ∀ e' ∈ entries, (s.resolvedLwwAt e').rev ≠ 0 → s.resolvedLwwAt e' ≤ s.resolvedLwwAt e := by
  induction entries using List.reverseRecOn with
  | nil => exact .inl ⟨rfl, List.forall_mem_nil _⟩
  | append_singleton entries entry ih =>
    have hstep : s.bestEntry (entries ++ [entry]) =
        if (s.resolvedLwwAt entry).rev = 0 then s.bestEntry entries
        else if (s.bestEntry entries).all (s.resolvedLwwAt entry > ·.1) then
          some (s.resolvedLwwAt entry, entry)
        else s.bestEntry entries := by
      rw [bestEntry, List.foldl_concat]
      rfl
    rw [hstep]
    by_cases hzero : (s.resolvedLwwAt entry).rev = 0
    · rw [if_pos hzero]
      rcases ih with ⟨hnone, hall⟩ | ⟨e, he, hsome, hrev, hmax⟩
      · refine .inl ⟨hnone, ?_⟩
        intro e he
        rcases List.mem_append.1 he with he | he
        · exact hall e he
        · rw [List.mem_singleton.1 he, hzero]
      · refine .inr ⟨e, List.mem_append_left _ he, hsome, hrev, ?_⟩
        intro e' he' hrev'
        rcases List.mem_append.1 he' with he' | he'
        · exact hmax e' he' hrev'
        · rw [List.mem_singleton.1 he'] at hrev'
          exact absurd hzero hrev'
    · rw [if_neg hzero]
      refine .inr ?_
      rcases ih with ⟨hnone, hall⟩ | ⟨e, he, hsome, hrev, hmax⟩
      · rw [hnone]
        refine ⟨entry, List.mem_append_right _ (.head _), rfl, hzero, ?_⟩
        intro e' he' hrev'
        rcases List.mem_append.1 he' with he' | he'
        · exact absurd (hall e' he') hrev'
        · rw [List.mem_singleton.1 he']
      · rw [hsome, Option.all_some]
        by_cases hgt : s.resolvedLwwAt entry > s.resolvedLwwAt e
        · rw [if_pos (decide_eq_true hgt)]
          refine ⟨entry, List.mem_append_right _ (.head _), rfl, hzero, ?_⟩
          intro e' he' hrev'
          rcases List.mem_append.1 he' with he' | he'
          · exact (hmax e' he' hrev').trans hgt.le
          · rw [List.mem_singleton.1 he']
        · rw [if_neg (by simpa using hgt)]
          refine ⟨e, List.mem_append_left _ he, rfl, hrev, ?_⟩
          intro e' he' hrev'
          rcases List.mem_append.1 he' with he' | he'
          · exact hmax e' he' hrev'
          · rw [List.mem_singleton.1 he']
            exact not_lt.1 hgt

/-- Values that are all maps. -/
theorem mapIds_of_maps (key : String) {values : List (Value A.Obj)}
    (h : ∀ v ∈ values, ∃ id, v = .map id) :
    ∃ ids, mapIds key values = .ok ids ∧ ids.map Value.map = values := by
  induction values with
  | nil => exact ⟨[], rfl, rfl⟩
  | cons v values ih =>
    obtain ⟨⟨id, rfl⟩, hrest⟩ := List.forall_mem_cons.1 h
    obtain ⟨ids, hids, hmap⟩ := ih hrest
    exact ⟨id :: ids, by rw [mapIds, hids]; rfl, by rw [List.map_cons, hmap]⟩

/-- The monitors of a device; none if it has no layout. -/
def layout (s : SharedState A) (device : DeviceId) : Except StateError (List Monitor) :=
  match s.optMapChild A.root keyLayout with
  | .error e => .error e
  | .ok none => .ok []
  | .ok (some layout) =>
    match s.mapChildConflicts layout (deviceIdHex device) with
    | .error e => .error e
    | .ok entries =>
      match s.bestEntry entries with
      | some (winner, entry) =>
        match s.layoutForStamp entry (lwwKey winner) with
        | .error e => .error e
        | .ok (some monitors) => .ok monitors
        | .ok none => s.monitorsAt entry
      | none =>
        match s.optMapChild layout (deviceIdHex device) with
        | .error e => .error e
        | .ok none => .ok []
        | .ok (some entry) =>
          match s.resolvedLwwKeyAt entry with
          | none => s.monitorsAt entry
          | some stamp =>
            match s.layoutForStamp entry stamp with
            | .error e => .error e
            | .ok (some monitors) => .ok monitors
            | .ok none => s.monitorsAt entry

/-! ## Changes of other replicas -/

/-- The loop of `applyChanges`, with what it remembers: whether an item decoded, and the first
error. -/
def applyItems (s : SharedState A) (sawValidChange : Bool) (firstDecodeError : Option StateError) :
    List (Except StateError A.Change) → SharedState A × Except StateError Unit
  | [] =>
    (s, if sawValidChange then .ok ()
      else match firstDecodeError with
        | some e => .error e
        | none => .ok ())
  | .ok change :: items =>
    match A.applyChange s.doc change with
    | (doc, .ok ()) | (doc, .error .duplicateSeqNumber) =>
      applyItems { doc } true firstDecodeError items
    | (doc, .error .other) => ({ doc }, .error (.automerge .other))
  | .error e :: items => applyItems s sawValidChange (firstDecodeError.or (some e)) items

/-- Apply the changes that the items decode to. -/
def applyChanges (s : SharedState A) (items : List (Except StateError A.Change)) :
    SharedState A × Except StateError Unit :=
  s.applyItems false none items

/-- Merge another document into this one. -/
def merge (s other : SharedState A) : SharedState A × Except StateError Unit :=
  match A.merge s.doc other.doc with
  | (doc, .ok ()) => ({ doc }, .ok ())
  | (doc, .error e) => ({ doc }, .error (.automerge e))

end SharedState

end Mouser
