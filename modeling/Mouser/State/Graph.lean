import Mathlib.Data.Finset.Dedup
import Mathlib.Data.List.MinMax
import Mouser.State.Automerge

/-!
# A document library

A change carries its past, and a document is a list of changes that has the past of each of them.
What the library says of its calls holds of this one (`Graph.automerge`), so that the theorems about
the shared state have documents to speak of.
-/

namespace Mouser

namespace Graph

inductive Obj where
  | root
  | made (actor n : ℕ)
deriving DecidableEq

/-- A list of changes, each with its author, its puts and its past. -/
inductive Log where
  | nil
  | cons (actor : ℕ) (puts : List (Put Obj)) (past rest : Log)
deriving DecidableEq

structure Change where
  actor : ℕ
  puts : List (Put Obj)
  past : Log
deriving DecidableEq

namespace Log

def toList : Log → List Change
  | nil => []
  | cons actor puts past rest => { actor, puts, past } :: rest.toList

def ofList : List Change → Log
  | [] => nil
  | c :: cs => cons c.actor c.puts c.past (ofList cs)

@[simp] theorem toList_ofList (cs : List Change) : (ofList cs).toList = cs := by
  induction cs with
  | nil => rfl
  | cons c cs ih => rw [ofList, toList, ih]

@[simp] theorem ofList_toList (log : Log) : ofList log.toList = log := by
  induction log with
  | nil => rfl
  | cons actor puts past rest _ ih => rw [toList, ofList, ih]

def size : Log → ℕ
  | nil => 0
  | cons _ _ past rest => past.size + rest.size + 1

theorem size_past_lt {log : Log} {c : Change} (hc : c ∈ log.toList) : c.past.size < log.size := by
  induction log with
  | nil => cases hc
  | cons actor puts past rest _ ih =>
    rw [size]
    rcases List.mem_cons.1 hc with rfl | hc
    · show past.size < _
      omega
    · have hlt := ih hc
      omega

/-- The changes whose value at the key a change of the log overwrites. -/
def overwritten (o : Obj) (k : String) : Log → List Change
  | nil => []
  | cons _ puts past rest =>
    (if lastPut puts o k = none then []
      else past.toList.filter fun c => lastPut c.puts o k ≠ none ∧ c ∉ past.overwritten o k) ++
    rest.overwritten o k

end Log

/-- The changes whose value at the key is left. -/
def left (cs : List Change) (o : Obj) (k : String) : List Change :=
  cs.filter fun c => lastPut c.puts o k ≠ none ∧ c ∉ (Log.ofList cs).overwritten o k

def overwrites (c : Change) (o : Obj) (k : String) : List Change :=
  if lastPut c.puts o k = none then [] else left c.past.toList o k

theorem overwrites_subset {c : Change} {o : Obj} {k : String} :
    overwrites c o k ⊆ c.past.toList := by
  rw [overwrites]
  split
  · exact List.nil_subset _
  · exact List.filter_subset_self _

theorem mem_overwritten {o : Obj} {k : String} {cs : List Change} {c : Change} :
    c ∈ (Log.ofList cs).overwritten o k ↔ ∃ c' ∈ cs, c ∈ overwrites c' o k := by
  induction cs with
  | nil => simp [Log.ofList, Log.overwritten]
  | cons c' cs ih =>
    rw [Log.ofList, Log.overwritten, List.mem_append, ih]
    simp [overwrites, left]

theorem mem_left {o : Obj} {k : String} {cs : List Change} {c : Change} :
    c ∈ left cs o k ↔ c ∈ cs ∧ lastPut c.puts o k ≠ none ∧ ∀ c' ∈ cs, c ∉ overwrites c' o k := by
  simp [left, mem_overwritten]

/-! ## Objects -/

def Obj.number : Obj → ℕ
  | root => 0
  | made _ n => n

/-- The greatest number of an object that the put has to do with. -/
def putNumber (p : Put Obj) : ℕ :=
  match p.value with
  | .map o => max p.obj.number o.number
  | .scalar _ | .list _ => p.obj.number

/-- A number that no object of the puts has. -/
def nextNumber (ps : List (Put Obj)) : ℕ := (ps.map putNumber).foldr max 0 + 1

theorem not_mentions_next {ps : List (Put Obj)} {p : Put Obj} (hp : p ∈ ps) (actor : ℕ) :
    ¬ p.Mentions (.made actor (nextNumber ps)) := by
  have hnumber : putNumber p ≤ (ps.map putNumber).foldr max 0 :=
    List.le_max_of_le' 0 (List.mem_map_of_mem hp) le_rfl
  rintro (hobj | hv)
  · have hself : p.obj.number ≤ putNumber p := by
      unfold putNumber
      split
      · exact le_max_left _ _
      · exact le_rfl
      · exact le_rfl
    rw [hobj, Obj.number, nextNumber] at hself
    omega
  · have hself : nextNumber ps ≤ putNumber p := by
      rw [putNumber, hv]
      exact le_max_right _ _
    rw [nextNumber] at hself
    omega

/-! ## Documents -/

structure Doc where
  actor : ℕ
  /-- The newest first. -/
  changes : List Change
  /-- Changes that wait for a change they depend on. -/
  queue : List Change
  pending : List (Put Obj)
  nodup : changes.Nodup
  closed : ∀ c ∈ changes, ∀ c' ∈ c.past.toList, c' ∈ changes

namespace Doc

theorem not_mem_past (c : Change) : c ∉ c.past.toList :=
  fun hc => lt_irrefl _ (Log.size_past_lt hc)

/-- The change that the open transaction is. -/
def change (d : Doc) : Change :=
  { actor := d.actor, puts := d.pending, past := .ofList d.changes }

theorem change_not_mem (d : Doc) : d.change ∉ d.changes := by
  intro hc
  refine not_mem_past d.change ?_
  rw [change, Log.toList_ofList]
  exact hc

def commit (d : Doc) : Doc :=
  if d.pending = [] then d
  else
    { d with
      changes := d.change :: d.changes
      pending := []
      nodup := List.nodup_cons.2 ⟨d.change_not_mem, d.nodup⟩
      closed := by
        intro c hc c' hc'
        rcases List.mem_cons.1 hc with rfl | hc
        · rw [change, Log.toList_ofList] at hc'
          exact .tail _ hc'
        · exact .tail _ (d.closed c hc c' hc') }

/-- The change, if its past is there. -/
def add (d : Doc) (c : Change) : Doc :=
  if h : ∀ c' ∈ c.past.toList, c' ∈ d.changes then
    { d with
      changes := d.changes.insert c
      nodup := d.nodup.insert
      closed := by
        intro a ha c' hc'
        rw [List.mem_insert_iff] at ha ⊢
        rcases ha with rfl | ha
        · exact .inr (h c' hc')
        · exact .inr (d.closed a ha c' hc') }
  else d

/-- Add the changes that wait, as far as they can be. -/
def drain (d : Doc) : Doc :=
  (List.replicate d.queue.length d.queue).flatten.foldl add d

def applyChange (d : Doc) (c : Change) : Doc :=
  if ∀ c' ∈ c.past.toList, c' ∈ d.commit.changes then (d.commit.add c).drain
  else { d.commit with queue := c :: d.commit.queue }

/-- The changes of both. -/
def union (d e : Doc) : Doc :=
  { d with
    changes := d.changes ∪ e.changes
    nodup := e.nodup.union _
    closed := by
      intro c hc c' hc'
      rw [List.mem_union_iff] at hc ⊢
      rcases hc with hc | hc
      · exact .inl (d.closed c hc c' hc')
      · exact .inr (e.closed c hc c' hc') }

def merge (d e : Doc) : Doc := (d.commit.union e.commit).drain

def fork (d : Doc) (actor : ℕ) : Doc := { d.commit with actor }

/-- The values of a register. -/
def getAll (d : Doc) (o : Obj) (k : String) : List (Value Obj) :=
  match lastPut d.pending o k with
  | some v => [v]
  | none => (left d.changes o k).filterMap fun c => lastPut c.puts o k

def put (d : Doc) (o : Obj) (k : String) (v : Value Obj) : Doc :=
  { d with pending := d.pending ++ [⟨o, k, v⟩] }

/-- The next object. -/
def next (d : Doc) : Obj :=
  .made d.actor (nextNumber (d.changes.flatMap Change.puts ++ d.pending))

end Doc

def automerge : Automerge where
  Actor := ℕ
  Obj := Obj
  Change := Change
  Doc := Doc
  root := .root
  empty actor :=
    { actor, changes := [], queue := [], pending := [], nodup := .nil, closed := nofun }
  fork := Doc.fork
  getAll := Doc.getAll
  get d o k := (d.getAll o k).head?
  put d o k s := d.put o k (.scalar s)
  putMap d o k := (d.put o k (.map d.next), d.next)
  putList d o k items := d.put o k (.list items)
  commit := Doc.commit
  getChanges d := d.commit.changes
  applyChange d c := (d.applyChange c, .ok ())
  merge d e := (d.merge e, .ok ())
  changes d := d.changes.toFinset
  known d := d.changes.toFinset ∪ d.queue.toFinset
  pending := Doc.pending
  actor := Doc.actor
  past c := c.past.toList.toFinset
  puts := Change.puts
  overwrites c o k := (overwrites c o k).toFinset
  maker
    | .root => none
    | .made actor _ => some actor

/-! ## What it does -/

namespace Doc

theorem mem_add {d : Doc} {c a : Change} (ha : a ∈ (d.add c).changes) : a ∈ d.changes ∨ a = c := by
  unfold add at ha
  split at ha
  · exact (List.mem_insert_iff.1 ha).symm
  · exact .inl ha

theorem subset_add (d : Doc) (c : Change) : d.changes ⊆ (d.add c).changes := by
  intro a ha
  unfold add
  split
  · exact List.mem_insert_of_mem ha
  · exact ha

/-- A document with the same author and no open transaction. -/
structure After (d d' : Doc) (added : List Change) : Prop where
  changes : d.changes ⊆ d'.changes
  known : ∀ c ∈ d'.changes, c ∈ d.changes ∨ c ∈ added
  actor : d'.actor = d.actor
  pending : d'.pending = d.pending
  queue : d'.queue = d.queue

theorem after_add (d : Doc) (c : Change) : After d (d.add c) [c] := by
  refine ⟨d.subset_add c, fun a ha => (mem_add ha).imp_right List.mem_singleton.2, ?_, ?_, ?_⟩ <;>
    · unfold add
      split <;> rfl

theorem after_foldl (d : Doc) (cs : List Change) : After d (cs.foldl add d) cs := by
  induction cs generalizing d with
  | nil => exact ⟨List.Subset.refl _, fun c hc => .inl hc, rfl, rfl, rfl⟩
  | cons c cs ih =>
    have hone := d.after_add c
    have hrest := ih (d.add c)
    refine ⟨List.Subset.trans hone.changes hrest.changes, ?_, hrest.actor.trans hone.actor,
      hrest.pending.trans hone.pending, hrest.queue.trans hone.queue⟩
    intro a ha
    rcases hrest.known a ha with ha | ha
    · rcases hone.known a ha with ha | ha
      · exact .inl ha
      · rw [List.mem_singleton.1 ha]
        exact .inr (.head _)
    · exact .inr (.tail _ ha)

theorem after_drain (d : Doc) : After d d.drain d.queue := by
  obtain ⟨hchanges, hknown, hactor, hpending, hqueue⟩ :=
    d.after_foldl (List.replicate d.queue.length d.queue).flatten
  refine ⟨hchanges, ?_, hactor, hpending, hqueue⟩
  intro c hc
  refine (hknown c hc).imp_right ?_
  intro hmem
  obtain ⟨cs, hcs, hc⟩ := List.mem_flatten.1 hmem
  rw [List.eq_of_mem_replicate hcs] at hc
  exact hc

theorem commit_of_pending {d : Doc} (h : d.pending = []) : d.commit = d := if_pos h

theorem changes_commit {d : Doc} (h : d.pending ≠ []) :
    d.commit.changes = d.change :: d.changes := by
  rw [commit, if_neg h]

theorem subset_commit (d : Doc) : d.changes.toFinset ⊆ d.commit.changes.toFinset := by
  by_cases h : d.pending = []
  · rw [commit_of_pending h]
  · rw [changes_commit h, List.toFinset_cons]
    exact Finset.subset_insert _ _

theorem mem_overwrites_change {d : Doc} {o : Obj} {k : String} {c : Change} :
    c ∈ overwrites d.change o k ↔ lastPut d.pending o k ≠ none ∧ c ∈ left d.changes o k := by
  rw [overwrites, change, Log.toList_ofList]
  split
  · next h => simp [h]
  · next h => simp [h]

theorem pending_commit (d : Doc) : d.commit.pending = [] := by
  unfold commit
  split
  · next h => exact h
  · rfl

theorem actor_commit (d : Doc) : d.commit.actor = d.actor := by
  unfold commit
  split <;> rfl

theorem queue_commit (d : Doc) : d.commit.queue = d.queue := by
  unfold commit
  split <;> rfl

theorem mem_getAll_of_some {d : Doc} {o : Obj} {k : String} {v w : Value Obj}
    (h : lastPut d.pending o k = some w) : v ∈ d.getAll o k ↔ v = w := by
  rw [getAll, h]
  exact List.mem_singleton

theorem mem_getAll_of_none {d : Doc} {o : Obj} {k : String} {v : Value Obj}
    (h : lastPut d.pending o k = none) :
    v ∈ d.getAll o k ↔ ∃ c, c ∈ left d.changes o k ∧ lastPut c.puts o k = some v := by
  rw [getAll, h]
  exact List.mem_filterMap

theorem applyChange_spec (d : Doc) (c : Change) :
    d.commit.changes.toFinset ⊆ (d.applyChange c).changes.toFinset ∧
      (d.applyChange c).changes.toFinset ∪ (d.applyChange c).queue.toFinset ⊆
        insert c (d.commit.changes.toFinset ∪ d.commit.queue.toFinset) ∧
      (d.applyChange c).actor = d.actor ∧ (d.applyChange c).pending = [] := by
  unfold applyChange
  split
  · have hadd := d.commit.after_add c
    have hdrain := (d.commit.add c).after_drain
    refine ⟨?_, ?_, ?_, ?_⟩
    · intro a ha
      exact List.mem_toFinset.2 (hdrain.changes (hadd.changes (List.mem_toFinset.1 ha)))
    · intro a ha
      simp only [Finset.mem_union, List.mem_toFinset, Finset.mem_insert] at ha ⊢
      rw [hdrain.queue, hadd.queue] at ha
      rcases ha with ha | ha
      · rcases hdrain.known a ha with ha | ha
        · rcases hadd.known a ha with ha | ha
          · exact .inr (.inl ha)
          · exact .inl (List.mem_singleton.1 ha)
        · rw [hadd.queue] at ha
          exact .inr (.inr ha)
      · exact .inr (.inr ha)
    · rw [hdrain.actor, hadd.actor, d.actor_commit]
    · rw [hdrain.pending, hadd.pending, d.pending_commit]
  · refine ⟨subset_rfl, ?_, d.actor_commit, d.pending_commit⟩
    intro a ha
    simp only [Finset.mem_union, List.mem_toFinset, Finset.mem_insert, List.mem_cons] at ha ⊢
    tauto

theorem merge_spec (d e : Doc) :
    d.commit.changes.toFinset ⊆ (d.merge e).changes.toFinset ∧
      (d.merge e).changes.toFinset ∪ (d.merge e).queue.toFinset ⊆
        d.commit.changes.toFinset ∪ d.commit.queue.toFinset ∪ e.commit.changes.toFinset ∧
      (d.merge e).actor = d.actor ∧ (d.merge e).pending = [] := by
  have hdrain := (d.commit.union e.commit).after_drain
  refine ⟨?_, ?_, ?_, ?_⟩
  · intro a ha
    exact List.mem_toFinset.2
      (hdrain.changes (List.mem_union_iff.2 (.inl (List.mem_toFinset.1 ha))))
  · intro a ha
    simp only [Finset.mem_union, List.mem_toFinset] at ha ⊢
    rcases ha with ha | ha
    · rcases hdrain.known a ha with ha | ha
      · exact (List.mem_union_iff.1 ha).imp_left .inl
      · exact .inl (.inr ha)
    · rw [merge, hdrain.queue] at ha
      exact .inl (.inr ha)
  · rw [merge, hdrain.actor]
    exact d.actor_commit
  · rw [merge, hdrain.pending]
    exact d.pending_commit

end Doc

theorem left_iff {cs : List Change} {o : Obj} {k : String} {c : Change} {v : Value Obj} :
    automerge.Left cs.toFinset o k c v ↔ c ∈ left cs o k ∧ lastPut c.puts o k = some v := by
  rw [mem_left]
  constructor
  · rintro ⟨hc, hput, hover⟩
    have hne : lastPut c.puts o k ≠ none := by
      rw [show lastPut c.puts o k = some v from hput]
      exact Option.some_ne_none v
    exact ⟨⟨List.mem_toFinset.1 hc, hne, fun c' hc' hmem =>
      hover c' (List.mem_toFinset.2 hc') (List.mem_toFinset.2 hmem)⟩, hput⟩
  · rintro ⟨⟨hc, -, hover⟩, hput⟩
    exact ⟨List.mem_toFinset.2 hc, hput, fun c' hc' hmem =>
      hover c' (List.mem_toFinset.1 hc') (List.mem_toFinset.1 hmem)⟩

instance : LawfulAutomerge automerge where
  changes_empty _ := ⟨rfl, rfl, rfl⟩
  fork d a := by
    refine ⟨rfl, rfl, d.pending_commit, rfl⟩
  mem_getAll d o k v := by
    cases h : lastPut (automerge.pending d) o k with
    | some w => exact Doc.mem_getAll_of_some h
    | none => exact (Doc.mem_getAll_of_none h).trans (exists_congr fun c => left_iff.symm)
  get_mem d o k v h := List.mem_of_head? h
  get_none d o k h := List.head?_eq_none_iff.1 h
  put d o k s := ⟨rfl, rfl, rfl, .inl rfl⟩
  putMap d o k := ⟨rfl, rfl, rfl, rfl⟩
  putList d o k items := ⟨rfl, rfl, rfl, rfl⟩
  putMap_new d o k := by
    refine ⟨rfl, ?_, ?_⟩
    · intro c hc p hp
      exact not_mentions_next
        (List.mem_append_left _ (List.mem_flatMap.2 ⟨c, List.mem_toFinset.1 hc, hp⟩)) d.actor
    · intro p hp
      exact not_mentions_next (List.mem_append_right _ hp) d.actor
  maker_root := rfl
  commit_empty d h := by
    show d.commit.changes.toFinset = _
    rw [Doc.commit_of_pending h]
    rfl
  commit_change d h := by
    have hcommit := Doc.changes_commit h
    refine ⟨d.change, ?_, ?_, rfl, ?_, ?_⟩
    · exact fun hc => d.change_not_mem (List.mem_toFinset.1 hc)
    · show d.commit.changes.toFinset = _
      rw [hcommit, List.toFinset_cons]
      rfl
    · show (Log.ofList d.changes).toList.toFinset = _
      rw [Log.toList_ofList]
      rfl
    · intro o k c
      refine List.mem_toFinset.trans (Doc.mem_overwrites_change.trans (and_congr_right fun _ => ?_))
      refine ⟨?_, ?_⟩
      · intro hleft
        obtain ⟨v, hv⟩ := Option.ne_none_iff_exists'.1 (mem_left.1 hleft).2.1
        exact ⟨v, left_iff.2 ⟨hleft, hv⟩⟩
      · rintro ⟨v, hleft⟩
        exact (left_iff.1 hleft).1
  commit d := by
    refine ⟨?_, d.actor_commit, d.pending_commit⟩
    show d.commit.changes.toFinset ∪ d.commit.queue.toFinset =
      d.changes.toFinset ∪ d.queue.toFinset ∪ d.commit.changes.toFinset
    rw [d.queue_commit, Finset.union_right_comm, Finset.union_eq_right.2 d.subset_commit]
  getChanges d := ⟨d.commit.nodup, fun c => List.mem_toFinset.symm⟩
  past_subset d c hc c' hc' :=
    List.mem_toFinset.2 (d.closed c (List.mem_toFinset.1 hc) c' (List.mem_toFinset.1 hc'))
  past_acyclic := ⟨fun c => c.past.size, fun _ _ hc => Log.size_past_lt (List.mem_toFinset.1 hc)⟩
  over_past c o k c' hc' := List.mem_toFinset.2 (overwrites_subset (List.mem_toFinset.1 hc'))
  changes_known d := Finset.subset_union_left
  applyChange d c := d.applyChange_spec c
  merge d e := d.merge_spec e

end Graph

end Mouser
