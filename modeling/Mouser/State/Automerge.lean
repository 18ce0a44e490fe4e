import Mathlib.Data.Finset.Lattice.Basic
import Mathlib.Data.Finset.Insert
import Mathlib.Data.Finset.Card

/-!
# The replicated document

The shared state is kept in a document of the Automerge library, which is not part of the source.
`Automerge` is what the state needs of it: the calls, and the parts of a document that they are
about. A document is a set of changes, each with the changes that its author had (`past`), what it
puts (`puts`) and the changes whose values it `overwrites`; the puts of the open transaction are
`pending`. `LawfulAutomerge` is what the library says of the calls in these terms: a register has
every value that was put there and that no change of the document overwrites, and a local put
overwrites the values that its author saw.
-/

namespace Mouser

inductive Scalar where
  | str (s : String)
  | uint (n : UInt64)
  | int (n : Int64)
deriving DecidableEq

/-- What a register can hold. A list is given with its items, which are maps of scalars: the state
writes a list in one transaction and never touches it again. -/
inductive Value (Obj : Type) where
  | scalar (s : Scalar)
  | map (id : Obj)
  | list (items : List (List (String × Scalar)))
deriving DecidableEq

/-- A value put at a key of a map. -/
structure Put (Obj : Type) where
  obj : Obj
  key : String
  value : Value Obj
deriving DecidableEq

/-- The put has to do with the object. -/
def Put.Mentions {Obj : Type} (p : Put Obj) (o : Obj) : Prop := p.obj = o ∨ p.value = .map o

/-- Why a change is not applied. -/
inductive ApplyError where
  | duplicateSeqNumber
  | other
deriving DecidableEq

/-- A document library. -/
structure Automerge where
  Actor : Type
  Obj : Type
  Change : Type
  Doc : Type
  [decidableEqObj : DecidableEq Obj]
  [decidableEqChange : DecidableEq Change]
  root : Obj
  /-- `AutoCommit::new().with_actor`. -/
  empty : Actor → Doc
  /-- `fork`, to the fresh actor it draws. -/
  fork : Doc → Actor → Doc
  getAll : Doc → Obj → String → List (Value Obj)
  get : Doc → Obj → String → Option (Value Obj)
  put : Doc → Obj → String → Scalar → Doc
  /-- `put_object` of a map. -/
  putMap : Doc → Obj → String → Doc × Obj
  /-- `put_object` of a list, and the calls that fill it. -/
  putList : Doc → Obj → String → List (List (String × Scalar)) → Doc
  commit : Doc → Doc
  /-- `get_changes(&[])`. -/
  getChanges : Doc → List Change
  applyChange : Doc → Change → Doc × Except ApplyError Unit
  merge : Doc → Doc → Doc × Except ApplyError Unit
  /-- The changes that the document is made of. -/
  changes : Doc → Finset Change
  /-- These, and those that wait for a change they depend on. -/
  known : Doc → Finset Change
  /-- The puts of the open transaction. -/
  pending : Doc → List (Put Obj)
  actor : Doc → Actor
  /-- All that the change depends on. -/
  past : Change → Finset Change
  puts : Change → List (Put Obj)
  /-- The changes whose value at the key the change overwrites. -/
  overwrites : Change → Obj → String → Finset Change
  /-- Who made the object. -/
  maker : Obj → Option Actor

attribute [instance] Automerge.decidableEqObj Automerge.decidableEqChange

/-- What a list of puts leaves at a key. -/
def lastPut {Obj : Type} [DecidableEq Obj] (ps : List (Put Obj)) (o : Obj) (k : String) :
    Option (Value Obj) :=
  (ps.filter fun p => p.obj = o ∧ p.key = k).getLast?.map Put.value

namespace Automerge

variable (A : Automerge)

/-- A value of the key that no change of the set overwrites. -/
def Left (D : Finset A.Change) (o : A.Obj) (k : String) (c : A.Change) (v : Value A.Obj) : Prop :=
  c ∈ D ∧ lastPut (A.puts c) o k = some v ∧ ∀ c' ∈ D, c ∉ A.overwrites c' o k

end Automerge

/-- What the library says of its calls. -/
class LawfulAutomerge (A : Automerge) : Prop where
  changes_empty : ∀ a, A.changes (A.empty a) = ∅ ∧ A.known (A.empty a) = ∅ ∧
    A.pending (A.empty a) = []
  /-- A fork is a copy, for another actor. -/
  fork : ∀ d a, A.changes (A.fork d a) = A.changes (A.commit d) ∧
    A.known (A.fork d a) = A.known (A.commit d) ∧ A.pending (A.fork d a) = [] ∧
    A.actor (A.fork d a) = a
  /-- All values of a register. -/
  mem_getAll : ∀ d o k v, v ∈ A.getAll d o k ↔
    match lastPut (A.pending d) o k with
    | some w => v = w
    | none => ∃ c, A.Left (A.changes d) o k c v
  /-- One of them is the value that `get` returns. -/
  get_mem : ∀ d o k v, A.get d o k = some v → v ∈ A.getAll d o k
  get_none : ∀ d o k, A.get d o k = none → A.getAll d o k = []
  /-- To put the one value that is there already may do nothing. -/
  put : ∀ d o k s, A.changes (A.put d o k s) = A.changes d ∧ A.known (A.put d o k s) = A.known d ∧
    A.actor (A.put d o k s) = A.actor d ∧
    (A.pending (A.put d o k s) = A.pending d ++ [⟨o, k, .scalar s⟩] ∨
      A.getAll d o k = [.scalar s] ∧ A.pending (A.put d o k s) = A.pending d)
  putMap : ∀ d o k, A.changes (A.putMap d o k).1 = A.changes d ∧
    A.known (A.putMap d o k).1 = A.known d ∧ A.actor (A.putMap d o k).1 = A.actor d ∧
    A.pending (A.putMap d o k).1 = A.pending d ++ [⟨o, k, .map (A.putMap d o k).2⟩]
  putList : ∀ d o k items, A.changes (A.putList d o k items) = A.changes d ∧
    A.known (A.putList d o k items) = A.known d ∧ A.actor (A.putList d o k items) = A.actor d ∧
    A.pending (A.putList d o k items) = A.pending d ++ [⟨o, k, .list items⟩]
  /-- An object that is made is new to the document, and names its maker. -/
  putMap_new : ∀ d o k, A.maker (A.putMap d o k).2 = some (A.actor d) ∧
    (∀ c ∈ A.changes d, ∀ p ∈ A.puts c, ¬ p.Mentions (A.putMap d o k).2) ∧
    ∀ p ∈ A.pending d, ¬ p.Mentions (A.putMap d o k).2
  maker_root : A.maker A.root = none
  commit_empty : ∀ d, A.pending d = [] → A.changes (A.commit d) = A.changes d
  /-- The open transaction becomes a change. It depends on all that the document had, and overwrites
  the values that it saw. -/
  commit_change : ∀ d, A.pending d ≠ [] → ∃ c, c ∉ A.changes d ∧
    A.changes (A.commit d) = insert c (A.changes d) ∧ A.puts c = A.pending d ∧
    A.past c = A.changes d ∧
    ∀ o k c', c' ∈ A.overwrites c o k ↔
      lastPut (A.pending d) o k ≠ none ∧ ∃ v, A.Left (A.changes d) o k c' v
  commit : ∀ d, A.known (A.commit d) = A.known d ∪ A.changes (A.commit d) ∧
    A.actor (A.commit d) = A.actor d ∧ A.pending (A.commit d) = []
  /-- The open transaction is committed first. -/
  getChanges : ∀ d, (A.getChanges d).Nodup ∧ ∀ c, c ∈ A.getChanges d ↔ c ∈ A.changes (A.commit d)
  /-- A document has all that its changes depend on. -/
  past_subset : ∀ d, ∀ c ∈ A.changes d, A.past c ⊆ A.changes d
  /-- Changes do not depend on each other in a circle. -/
  past_acyclic : ∃ depth : A.Change → ℕ, ∀ c, ∀ c' ∈ A.past c, depth c' < depth c
  /-- A change overwrites values that it saw. -/
  over_past : ∀ c o k, A.overwrites c o k ⊆ A.past c
  changes_known : ∀ d, A.changes d ⊆ A.known d
  applyChange : ∀ d c, A.changes (A.commit d) ⊆ A.changes (A.applyChange d c).1 ∧
    A.known (A.applyChange d c).1 ⊆ insert c (A.known (A.commit d)) ∧
    A.actor (A.applyChange d c).1 = A.actor d ∧ A.pending (A.applyChange d c).1 = []
  merge : ∀ d e, A.changes (A.commit d) ⊆ A.changes (A.merge d e).1 ∧
    A.known (A.merge d e).1 ⊆ A.known (A.commit d) ∪ A.changes (A.commit e) ∧
    A.actor (A.merge d e).1 = A.actor d ∧ A.pending (A.merge d e).1 = []

theorem LawfulAutomerge.not_mem_past {A : Automerge} [LawfulAutomerge A] (c : A.Change) :
    c ∉ A.past c := by
  obtain ⟨depth, hdepth⟩ := LawfulAutomerge.past_acyclic (A := A)
  exact fun hc => lt_irrefl _ (hdepth c c hc)

section lastPut

variable {Obj : Type} [DecidableEq Obj] {o : Obj} {k : String}

@[simp] theorem lastPut_nil : lastPut [] o k = (none : Option (Value Obj)) := rfl

/-- What the next put leaves. -/
theorem lastPut_concat (ps : List (Put Obj)) (p : Put Obj) :
    lastPut (ps ++ [p]) o k = if p.obj = o ∧ p.key = k then some p.value else lastPut ps o k := by
  unfold lastPut
  by_cases hp : p.obj = o ∧ p.key = k <;> simp [List.filter_append, hp]

/-- What is left at a key was put there. -/
theorem mem_of_lastPut {ps : List (Put Obj)} {v : Value Obj} (h : lastPut ps o k = some v) :
    ⟨o, k, v⟩ ∈ ps := by
  obtain ⟨p, hp, rfl⟩ := Option.map_eq_some_iff.1 h
  obtain ⟨hmem, hat⟩ := List.mem_filter.1 (List.mem_of_getLast? hp)
  obtain ⟨rfl, rfl⟩ : p.obj = o ∧ p.key = k := of_decide_eq_true hat
  exact hmem

theorem lastPut_eq_none {ps : List (Put Obj)} :
    lastPut ps o k = none ↔ ∀ p ∈ ps, ¬ (p.obj = o ∧ p.key = k) := by
  unfold lastPut
  rw [Option.map_eq_none_iff, List.getLast?_eq_none_iff, List.filter_eq_nil_iff]
  simp

end lastPut

end Mouser
