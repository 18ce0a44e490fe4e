import Mouser.Lib.Machine
import Mouser.State.Edit
import Mouser.State.Graph

/-!
# Convergence of the layout

A cluster of replicas, each with the editor id of its device, and the calls that they make: edits,
merges, and changes that one replica has taken from others. Along every run the changes of all
replicas are one honest history (`Replicas.Sound`), so that replicas with the same changes report
the same layout.
-/

namespace Mouser

open Automerge

/-! ## Replicas of one history -/

/-- Every device with an edit has a greatest one. -/
theorem History.layout_cases {A : Automerge} (H : History A) (s : SharedState A)
    (device : DeviceId) :
    (∀ c, H.Has s c → (H.info c).device ≠ device) ∨
      ∃ c, H.Has s c ∧ (H.info c).device = device ∧
        ∀ c', H.Has s c' → (H.info c').device = (H.info c).device →
          (H.info c').stamp ≤ (H.info c).stamp := by
  classical
  rcases ((A.changes s.doc).filter
    fun c => c ≠ H.genesis ∧ (H.info c).device = device).eq_empty_or_nonempty with hempty | hne
  · refine .inl ?_
    intro c hc hdevice
    refine Finset.notMem_empty c ?_
    rw [← hempty]
    exact Finset.mem_filter.2 ⟨hc.1, hc.2, hdevice⟩
  · obtain ⟨c, hc, hmax⟩ := Finset.exists_max_image _ (fun c => (H.info c).stamp) hne
    obtain ⟨hmem, hgenesis, rfl⟩ := Finset.mem_filter.1 hc
    refine .inr ⟨c, ⟨hmem, hgenesis⟩, rfl, ?_⟩
    intro c' hc' hdevice
    exact hmax c' (Finset.mem_filter.2 ⟨hc'.1, hc'.2, hdevice⟩)

namespace History.Replica

variable {A : Automerge} [LawfulAutomerge A] {H : History A} {s s' : SharedState A}

/-- More changes resolve to no lower stamp. -/
theorem resolved_root_le (h : H.Honest) (hr : Replica H s) (hr' : Replica H s')
    (hsub : A.changes s.doc ⊆ A.changes s'.doc) :
    s.resolvedLwwAt A.root ≤ s'.resolvedLwwAt A.root := by
  rcases (hr.resolved_at h A.root).2 with hnone | ⟨c, hc, ho, hstamp⟩
  · rw [hnone]
    exact (s'.resolvedLwwAt_spec A.root).1
  · rw [← hstamp]
    exact (hr'.resolved_at h A.root).1 c ⟨hsub hc.1, hc.2⟩ ho

/-- **Replicas with the same changes** report the same. -/
theorem converge (h : H.Honest) (hr : Replica H s) (hr' : Replica H s')
    (hsame : A.changes s.doc = A.changes s'.doc) :
    s.resolvedLwwAt A.root = s'.resolvedLwwAt A.root ∧
      ∀ device, s.layout device = s'.layout device := by
  have hhas : ∀ c, H.Has s c ↔ H.Has s' c := by
    intro c
    rw [Has, Has, hsame]
  refine ⟨le_antisymm (hr.resolved_root_le h hr' hsame.subset)
    (hr'.resolved_root_le h hr hsame.symm.subset), ?_⟩
  intro device
  rcases H.layout_cases s device with hnone | ⟨c, hc, rfl, hmax⟩
  · rw [hr.layout_of_none h hnone, hr'.layout_of_none h fun c hc => hnone c ((hhas c).2 hc)]
  · rw [hr.layout_of_greatest h hc hmax, hr'.layout_of_greatest h ((hhas c).1 hc)
      fun c' hc' => hmax c' ((hhas c').2 hc')]

end History.Replica

/-! ## The start -/

namespace SharedState

variable {A : Automerge}

/-- What the first change puts. -/
def genesisPuts (devices layout aliases inputPrefs : A.Obj) : List (Put A.Obj) :=
  [⟨A.root, keyDevices, .map devices⟩, ⟨A.root, keyLayout, .map layout⟩,
   ⟨A.root, keyAliases, .map aliases⟩, ⟨A.root, keyInputPrefs, .map inputPrefs⟩,
   ⟨A.root, keyLayoutLww, .scalar (encodeLww noEdit)⟩]

theorem mem_genesisPuts {devices layout aliases inputPrefs : A.Obj} {p : Put A.Obj}
    (hp : p ∈ genesisPuts devices layout aliases inputPrefs) : p.obj = A.root ∧
      (p.key = keyLayout → p.value = .map layout) ∧
      (p.key = keyLayoutLww → p.value = .scalar (encodeLww noEdit)) := by
  simp only [genesisPuts, List.mem_cons, List.not_mem_nil, or_false] at hp
  rcases hp with rfl | rfl | rfl | rfl | rfl <;>
    simp [keyDevices, keyLayout, keyAliases, keyInputPrefs, keyLayoutLww]

variable [LawfulAutomerge A]

theorem opened_genesis (genesisActor : A.Actor) : ∃ devices layout aliases inputPrefs doc,
    genesisDoc A genesisActor = A.commit doc ∧
      Opened (A.empty genesisActor) (genesisPuts devices layout aliases inputPrefs) doc := by
  obtain ⟨hchanges, -, hpending⟩ := LawfulAutomerge.changes_empty (A := A) genesisActor
  have ho₄ := ((((Opened.refl hpending).putMap A.root keyDevices).putMap A.root keyLayout).putMap
    A.root keyAliases).putMap A.root keyInputPrefs
  refine ⟨_, _, _, _, _, rfl, ho₄.put (k := keyLayoutLww) ?_⟩
  intro hmem
  obtain ⟨c, hc, -⟩ := (ho₄.mem_getAll (lastPut_eq_none.2 (by simp; decide))).1 hmem
  rw [hchanges] at hc
  exact Finset.notMem_empty c hc

/-- **The first change** is the same for all replicas, and a history of its own. -/
theorem exists_genesis (genesisActor : A.Actor) : ∃ H : History A, H.Honest ∧ H.all = {H.genesis} ∧
    ∀ actor : A.Actor, History.Replica H (SharedState.new genesisActor actor) ∧
      A.actor (SharedState.new genesisActor actor).doc = actor ∧
      A.changes (SharedState.new genesisActor actor).doc = {H.genesis} := by
  obtain ⟨hempty, hknowsNone, -⟩ := LawfulAutomerge.changes_empty (A := A) genesisActor
  obtain ⟨devices, layout, aliases, inputPrefs, doc, hdoc, ho⟩ := opened_genesis genesisActor
  obtain ⟨c, -, hchanges, hknown, -, hcommitted, hputs, hpast, hover⟩ :=
    ho.commit (List.cons_ne_nil _ _)
  rw [hempty] at hchanges hknown hpast hover
  rw [hknowsNone, Finset.empty_union] at hknown
  let H : History A :=
    { layout
      genesis := c
      all := {c}
      info := fun _ => { device := .fill 0, stamp := noEdit, monitors := [], entry := A.root,
                         edits := A.root, edit := A.root, fresh := false } }
  have honly : ∀ a ∈ H.all, a = c := fun _ ha => ha
  have hnoedit : ∀ c', ¬ H.IsEdit c' := fun c' hc' => hc'.2 hc'.1
  refine ⟨H, ?_, rfl, ?_⟩
  · refine
      { genesis_mem := rfl
        past_genesis := hpast
        puts_genesis := fun p hp => mem_genesisPuts (by rw [← hputs]; exact hp)
        makes_layout := by
          show _ ∈ A.puts c
          rw [hputs]
          exact .tail _ (.head _)
        puts_edit := fun c' hc' => absurd hc' (hnoedit c')
        past_all := ?_
        genesis_past := fun c' hc' => absurd hc' (hnoedit c')
        rev_lt := fun c' hc' => absurd hc' (hnoedit c')
        rev_pos := fun c' hc' => absurd hc' (hnoedit c')
        rev_le := fun c' hc' => absurd hc' (hnoedit c')
        over_past := ?_
        over_layout := ?_
        stamp_inj := fun c' _ hc' => absurd hc' (hnoedit c')
        makes_once := ?_
        not_root := ?_
        reused := fun c' hc' => absurd hc' (hnoedit c') }
    · intro a ha c' hc'
      rw [honly a ha, hpast] at hc'
      exact absurd hc' (Finset.notMem_empty c')
    · intro a ha o k c' hc'
      rw [honly a ha] at hc'
      obtain ⟨-, v, hmem, -⟩ := hover o k c' hc'
      exact absurd hmem (Finset.notMem_empty c')
    · intro a ha k
      refine Finset.eq_empty_of_forall_notMem ?_
      intro c' hc'
      rw [honly a ha] at hc'
      obtain ⟨-, v, hmem, -⟩ := hover layout k c' hc'
      exact absurd hmem (Finset.notMem_empty c')
    · intro a ha b hb p hp p' hp' o hv hv'
      rw [honly a ha, hputs] at hp
      rw [honly b hb, hputs] at hp'
      exact ⟨(honly a ha).trans (honly b hb).symm, ho.once p hp p' hp' o hv hv'⟩
    · intro a ha p hp hv
      rw [honly a ha, hputs] at hp
      exact (ho.new p hp _ hv).ne_root rfl
  · intro actor
    obtain ⟨hfchanges, hfknown, hfpending, hfactor⟩ :=
      LawfulAutomerge.fork (A := A) (genesisDoc A genesisActor) actor
    obtain ⟨hcknown, -, -⟩ := LawfulAutomerge.commit (A := A) (A.commit doc)
    rw [hdoc, LawfulAutomerge.commit_empty _ hcommitted, hchanges] at hfchanges
    rw [hdoc, hcknown, LawfulAutomerge.commit_empty _ hcommitted, hknown, hchanges,
      Finset.union_self] at hfknown
    rw [hdoc] at hfpending hfactor
    rw [SharedState.new, hdoc]
    refine ⟨⟨hfpending, ?_, ?_⟩, hfactor, hfchanges⟩
    · intro a ha
      rw [hfknown] at ha
      exact Finset.mem_singleton.1 ha
    · rw [hfchanges]
      exact Finset.mem_singleton_self c

end SharedState

/-! ## Changes of other replicas -/

namespace SharedState

variable {A : Automerge}

/-- The replica `s'` is `s` with changes of others. -/
structure Grows (s s' : SharedState A) (known : Set A.Change) : Prop where
  changes : A.changes s.doc ⊆ A.changes s'.doc
  known : ∀ c ∈ A.known s'.doc, c ∈ A.known s.doc ∨ c ∈ known
  actor : A.actor s'.doc = A.actor s.doc
  committed : A.pending s'.doc = []

theorem Grows.trans {s s' s'' : SharedState A} {known known' : Set A.Change}
    (h : Grows s s' known) (h' : Grows s' s'' known') : Grows s s'' (known ∪ known') := by
  refine ⟨h.changes.trans h'.changes, ?_, h'.actor.trans h.actor, h'.committed⟩
  intro c hc
  rcases h'.known c hc with hc | hc
  · exact (h.known c hc).imp_right .inl
  · exact .inr (.inr hc)

theorem Grows.mono {s s' : SharedState A} {known known' : Set A.Change} (h : Grows s s' known)
    (hsub : known ⊆ known') : Grows s s' known' :=
  ⟨h.changes, fun c hc => (h.known c hc).imp_right (@hsub c), h.actor, h.committed⟩

variable [LawfulAutomerge A]

theorem applyChange_grows {s : SharedState A} (hs : A.pending s.doc = []) (change : A.Change) :
    Grows s { doc := (A.applyChange s.doc change).1 } {change} := by
  obtain ⟨hchanges, hknown, hactor, hcommitted⟩ := LawfulAutomerge.applyChange (A := A) s.doc change
  obtain ⟨hcknown, -, -⟩ := LawfulAutomerge.commit (A := A) s.doc
  rw [LawfulAutomerge.commit_empty _ hs] at hchanges hcknown
  rw [hcknown, Finset.union_eq_left.2 (LawfulAutomerge.changes_known s.doc)] at hknown
  refine ⟨hchanges, ?_, hactor, hcommitted⟩
  intro c hc
  exact (Finset.mem_insert.1 (hknown hc)).symm

theorem applyItems_grows {s : SharedState A} (hs : A.pending s.doc = []) (sawValidChange : Bool)
    (firstDecodeError : Option StateError) (items : List (Except StateError A.Change)) :
    Grows s (s.applyItems sawValidChange firstDecodeError items).1 {c | .ok c ∈ items} := by
  induction items generalizing s sawValidChange firstDecodeError with
  | nil => exact ⟨subset_rfl, fun c hc => .inl hc, rfl, hs⟩
  | cons item items ih =>
    cases item with
    | error e => exact (ih hs sawValidChange (firstDecodeError.or (some e))).mono fun c => .tail _
    | ok change =>
      have hone := applyChange_grows hs change
      have hsub : ({change} ∪ {c | .ok c ∈ items} : Set A.Change) ⊆
          {c | .ok c ∈ (.ok change :: items : List (Except StateError A.Change))} := by
        rintro c (rfl | hc)
        · exact .head _
        · exact .tail _ hc
      rw [applyItems]
      split
      · next h =>
        rw [h] at hone
        exact (hone.trans (ih hone.committed true firstDecodeError)).mono hsub
      · next h =>
        rw [h] at hone
        exact (hone.trans (ih hone.committed true firstDecodeError)).mono hsub
      · next h =>
        rw [h] at hone
        exact hone.mono (Set.subset_union_left.trans hsub)

theorem merge_grows {s : SharedState A} (hs : A.pending s.doc = []) (other : SharedState A) :
    Grows s (s.merge other).1 {c | c ∈ A.changes (A.commit other.doc)} := by
  obtain ⟨hchanges, hknown, hactor, hcommitted⟩ := LawfulAutomerge.merge (A := A) s.doc other.doc
  obtain ⟨hcknown, -, -⟩ := LawfulAutomerge.commit (A := A) s.doc
  rw [LawfulAutomerge.commit_empty _ hs] at hchanges hcknown
  rw [hcknown, Finset.union_eq_left.2 (LawfulAutomerge.changes_known s.doc)] at hknown
  have hdoc : (s.merge other).1.doc = (A.merge s.doc other.doc).1 := by
    rw [merge]
    split
    · next h => rw [h]
    · next h => rw [h]
  refine ⟨by rw [hdoc]; exact hchanges, ?_, by rw [hdoc, hactor], by rw [hdoc, hcommitted]⟩
  intro c hc
  rw [hdoc] at hc
  exact Finset.mem_union.1 (hknown hc)

end SharedState

/-! ## The cluster -/

/-- A call on a replica of the cluster. Changes are taken from what a replica has, by their place
there; where there is none, the bytes do not decode. -/
inductive ClusterCall (ι : Type) where
  | setLayout (i : ι) (device : DeviceId) (monitors : List Monitor)
  | merge (i j : ι)
  | applyChanges (i : ι) (items : List (ι × ℕ))

namespace Replicas

variable {A : Automerge} {ι : Type}

/-- The item that is delivered. -/
def delivered (S : ι → SharedState A) (item : ι × ℕ) : Except StateError A.Change :=
  match (A.getChanges (S item.1).doc)[item.2]? with
  | some change => .ok change
  | none => .error (.decode "truncated change")

def step [DecidableEq ι] (editor : ι → DeviceId) (S : ι → SharedState A) :
    ClusterCall ι → (ι → SharedState A) × Except StateError Unit
  | .setLayout i device monitors =>
    let r := (S i).setLayout device (editor i) monitors
    (Function.update S i r.1, r.2)
  | .merge i j =>
    let r := (S i).merge (S j)
    (Function.update S i r.1, r.2)
  | .applyChanges i items =>
    let r := (S i).applyChanges (items.map (delivered S))
    (Function.update S i r.1, r.2)

/-- The replicas of a cluster, under the editor ids of their devices. -/
def machine [DecidableEq ι] (A : Automerge) (editor : ι → DeviceId) :
    Machine (ι → SharedState A) (ClusterCall ι) (Except StateError Unit) :=
  ⟨step editor⟩

/-- All replicas start with the same first change. -/
def start (genesisActor : A.Actor) (actor : ι → A.Actor) : ι → SharedState A :=
  fun i => .new genesisActor (actor i)

/-- An edit that was made in a run: the change that came of it, and its stamp. -/
structure LayoutEdit (A : Automerge) where
  made : Finset A.Change
  device : DeviceId
  stamp : LayoutStamp
  monitors : List Monitor

/-- The edit of a step. -/
def layoutEdit? (editor : ι → DeviceId)
    (e : Machine.Entry (ι → SharedState A) (ClusterCall ι) (Except StateError Unit)) :
    Option (LayoutEdit A) :=
  match e.input with
  | .setLayout i device monitors =>
    some
      { made := A.changes (e.post i).doc \ A.changes (e.pre i).doc
        device
        stamp := { rev := (e.pre i).layoutRev.saturatingAdd 1, editor := editor i }
        monitors }
  | .merge _ _ | .applyChanges _ _ => none

/-- The edits of a run. -/
def edits (editor : ι → DeviceId)
    (tr : List (Machine.Entry (ι → SharedState A) (ClusterCall ι) (Except StateError Unit))) :
    List (LayoutEdit A) :=
  tr.filterMap (layoutEdit? editor)

/-! ### One history -/

/-- The replicas of the cluster have changes of one honest history, whose edits are those of the
run. -/
structure Sound (actor : ι → A.Actor) (editor : ι → DeviceId) (H : History A)
    (es : List (LayoutEdit A)) (S : ι → SharedState A) : Prop where
  honest : H.Honest
  replica : ∀ i, History.Replica H (S i)
  own : ∀ i, H.Own (S i) (editor i)
  actor : ∀ i, A.actor (S i).doc = actor i
  logged : ∀ c, H.IsEdit c → ∃ e ∈ es, e.made = {c}
  edits : ∀ e ∈ es, ∃ c, H.IsEdit c ∧ e.made = {c} ∧ (H.info c).device = e.device ∧
    (H.info c).stamp = e.stamp ∧ (H.info c).monitors = e.monitors

variable {actor : ι → A.Actor} {editor : ι → DeviceId} {H : History A}
  {es : List (LayoutEdit A)} {S : ι → SharedState A} {i : ι}

theorem exists_sound_start [LawfulAutomerge A] (genesisActor : A.Actor) (actor : ι → A.Actor)
    (editor : ι → DeviceId) :
    ∃ H, Sound actor editor H [] (start genesisActor actor) := by
  obtain ⟨H, hhonest, hall, hnew⟩ := SharedState.exists_genesis (A := A) genesisActor
  have hnoedit : ∀ c, ¬ H.IsEdit c := by
    intro c hc
    have honly := hc.1
    rw [hall] at honly
    exact hc.2 honly
  refine ⟨H, hhonest, fun i => (hnew (actor i)).1, ?_, fun i => (hnew (actor i)).2.1,
    fun c hc => absurd hc (hnoedit c), nofun⟩
  intro i
  refine ⟨fun c hc => absurd hc (hnoedit c), ?_⟩
  intro c hc p hp o ho _
  refine ⟨c, ?_, p, hp, ho⟩
  rw [hall] at hc
  rw [hc]
  exact (hnew (actor i)).1.genesis

namespace Sound

/-! ### What the replicas read -/

/-- The change of an edit that a replica has. -/
theorem exists_change (h : Sound actor editor H es S) {e : LayoutEdit A} (he : e ∈ es)
    (hmade : e.made ⊆ A.changes (S i).doc) :
    ∃ c, H.Has (S i) c ∧ (H.info c).device = e.device ∧ (H.info c).stamp = e.stamp ∧
      (H.info c).monitors = e.monitors := by
  obtain ⟨c, hc, hsingle, hrest⟩ := h.edits e he
  rw [hsingle, Finset.singleton_subset_iff] at hmade
  exact ⟨c, ⟨hmade, hc.2⟩, hrest⟩

/-- The edit of a change that a replica has. -/
theorem exists_edit [LawfulAutomerge A] (h : Sound actor editor H es S) {c : A.Change}
    (hc : H.Has (S i) c) :
    ∃ e ∈ es, e.made ⊆ A.changes (S i).doc ∧ (H.info c).device = e.device ∧
      (H.info c).stamp = e.stamp := by
  obtain ⟨e, he, hmade⟩ := h.logged c ((h.replica i).isEdit hc)
  obtain ⟨c', -, hmade', hdevice, hstamp, -⟩ := h.edits e he
  obtain rfl : c = c' := Finset.singleton_injective (hmade.symm.trans hmade')
  refine ⟨e, he, ?_, hdevice, hstamp⟩
  rw [hmade, Finset.singleton_subset_iff]
  exact hc.1

/-- The layout of a device is that of its greatest edit. -/
theorem layout_eq [LawfulAutomerge A] (h : Sound actor editor H es S) {e : LayoutEdit A}
    (he : e ∈ es) (hmade : e.made ⊆ A.changes (S i).doc)
    (hmax : ∀ e' ∈ es, e'.made ⊆ A.changes (S i).doc → e'.device = e.device → e'.stamp ≤ e.stamp) :
    (S i).layout e.device = .ok e.monitors := by
  obtain ⟨c, hc, hdevice, hstamp, hmonitors⟩ := h.exists_change he hmade
  rw [← hdevice, ← hmonitors]
  refine (h.replica i).layout_of_greatest h.honest hc ?_
  intro c' hc' hdevice'
  obtain ⟨e', he', hmade', hd, hs⟩ := h.exists_edit hc'
  rw [hs, hstamp]
  exact hmax e' he' hmade' (by rw [← hd, hdevice', hdevice])

theorem layout_eq_nil [LawfulAutomerge A] (h : Sound actor editor H es S) {device : DeviceId}
    (hnone : ∀ e ∈ es, e.made ⊆ A.changes (S i).doc → e.device ≠ device) :
    (S i).layout device = .ok [] := by
  refine (h.replica i).layout_of_none h.honest ?_
  intro c hc hdevice
  obtain ⟨e, he, hmade, hd, -⟩ := h.exists_edit hc
  exact hnone e he hmade (hd.symm.trans hdevice)

/-! ### Calls -/

/-- An item that is delivered is a change of the history. -/
theorem delivered_mem [LawfulAutomerge A] (h : Sound actor editor H es S)
    {items : List (ι × ℕ)} {c : A.Change} (hc : .ok c ∈ items.map (delivered S)) : c ∈ H.all := by
  obtain ⟨item, -, heq⟩ := List.mem_map.1 hc
  unfold delivered at heq
  split at heq
  · next hget =>
    cases heq
    obtain ⟨-, hmem⟩ := LawfulAutomerge.getChanges (A := A) (S item.1).doc
    have hchange := (hmem c).1 (List.mem_of_getElem? hget)
    rw [LawfulAutomerge.commit_empty _ (h.replica item.1).committed] at hchange
    exact (h.replica item.1).all hchange
  · cases heq

variable [DecidableEq ι]

/-- A replica that takes changes of the history. -/
theorem grows (h : Sound actor editor H es S) {s' : SharedState A} {known : Set A.Change}
    (hg : SharedState.Grows (S i) s' known) (hknown : ∀ c ∈ known, c ∈ H.all) :
    Sound actor editor H es (Function.update S i s') := by
  refine ⟨h.honest, ?_, ?_, ?_, h.logged, h.edits⟩
  · refine (Function.forall_update_iff S fun _ s => History.Replica H s).2
      ⟨?_, fun j _ => h.replica j⟩
    refine ⟨hg.committed, ?_, hg.changes (h.replica i).genesis⟩
    intro c hc
    rcases hg.known c hc with hold | hnew
    · exact (h.replica i).known c hold
    · exact hknown c hnew
  · refine (Function.forall_update_iff S fun j s => H.Own s (editor j)).2 ⟨?_, fun j _ => h.own j⟩
    refine ⟨fun c hc heditor => hg.changes ((h.own i).edits c hc heditor), ?_⟩
    intro c hc p hp o ho hmaker
    rw [hg.actor] at hmaker
    obtain ⟨c', hc', hrest⟩ := (h.own i).objects c hc p hp o ho hmaker
    exact ⟨c', hg.changes hc', hrest⟩
  · exact (Function.forall_update_iff S fun j s => A.actor s.doc = actor j).2
      ⟨hg.actor.trans (h.actor i), fun j _ => h.actor j⟩

variable [LawfulAutomerge A]

/-- A replica that makes an edit. -/
theorem edited (h : Sound actor editor H es S) (hactor : Function.Injective actor)
    (heditor : Function.Injective editor) {s' : SharedState A} {c : A.Change} {e : EditInfo A}
    (he : H.Edited (S i) s' c e) (hi : e.stamp.editor = editor i) :
    Sound actor editor (H.extend c e)
      (es ++ [{ made := A.changes s'.doc \ A.changes (S i).doc, device := e.device,
                stamp := e.stamp, monitors := e.monitors }]) (Function.update S i s') := by
  have hr := h.replica i
  have hown : H.Own (S i) e.stamp.editor := by
    rw [hi]
    exact h.own i
  have hc := he.not_mem_all h.honest hr hown
  have hmade : A.changes s'.doc \ A.changes (S i).doc = {c} := by
    rw [he.changes, Finset.insert_sdiff_cancel he.not_mem]
  refine ⟨he.honest h.honest hr hown, ?_, ?_, ?_, ?_, ?_⟩
  · exact (Function.forall_update_iff S fun _ s => History.Replica (H.extend c e) s).2
      ⟨he.replica_self hr, fun j _ => (h.replica j).extend⟩
  · refine (Function.forall_update_iff S fun j s => (H.extend c e).Own s (editor j)).2
      ⟨he.own_self (h.own i) hc, fun j hj => ?_⟩
    refine he.own_other h.honest hr (h.own j) hc ?_ ?_
    · rw [hi]
      exact fun heq => hj (heditor heq).symm
    · rw [h.actor, h.actor]
      exact fun heq => hj (hactor heq).symm
  · exact (Function.forall_update_iff S fun j s => A.actor s.doc = actor j).2
      ⟨he.actor.trans (h.actor i), fun j _ => h.actor j⟩
  · intro c' hc'
    rcases History.isEdit_extend hc' with rfl | hold
    · exact ⟨_, List.mem_append_right _ (.head _), hmade⟩
    · obtain ⟨ed, hed, heq⟩ := h.logged c' hold
      exact ⟨ed, List.mem_append_left _ hed, heq⟩
  · intro ed hed
    rcases List.mem_append.1 hed with hold | hnew
    · obtain ⟨c', hc', hrest⟩ := h.edits ed hold
      refine ⟨c', ⟨History.mem_extend.2 (.inr hc'.1), hc'.2⟩, ?_⟩
      rw [History.extend_info_of_mem hc hc'.1]
      exact hrest
    · rw [List.mem_singleton.1 hnew]
      refine ⟨c, (he.replica_self hr).isEdit (he.has_self hr), hmade, ?_⟩
      rw [History.extend_info_self]
      exact ⟨rfl, rfl, rfl⟩

/-- **A call** leaves one honest history, and every replica has what it had. -/
theorem step (h : Sound actor editor H es S) (hactor : Function.Injective actor)
    (heditor : Function.Injective editor) (hcount : ∀ i, (S i).historyChangeCount < 2 ^ 64)
    (call : ClusterCall ι) :
    ∃ H', Sound actor editor H'
        (es ++ (layoutEdit? editor ((machine A editor).entry S call)).toList)
        (Replicas.step editor S call).1 ∧
      ∀ j, History.Replica H' (S j) ∧
        A.changes (S j).doc ⊆ A.changes ((Replicas.step editor S call).1 j).doc := by
  have hgrows : ∀ {i s' known}, SharedState.Grows (S i) s' known → ∀ j,
      History.Replica H (S j) ∧ A.changes (S j).doc ⊆ A.changes (Function.update S i s' j).doc := by
    intro i s' known hg j
    refine ⟨h.replica j, ?_⟩
    exact (Function.forall_update_iff S fun j s => A.changes (S j).doc ⊆ A.changes s.doc).2
      ⟨hg.changes, fun _ _ => subset_rfl⟩ j
  cases call with
  | setLayout i device monitors =>
    obtain ⟨-, c, e, he, rfl, hstamp, rfl⟩ :=
      (h.replica i).setLayout_edited h.honest (hcount i) device (editor i) monitors
    have hi : e.stamp.editor = editor i := by rw [hstamp]
    have hedit : layoutEdit? editor
        ((machine A editor).entry S (.setLayout i e.device e.monitors)) =
        some { made := A.changes ((S i).setLayout e.device (editor i) e.monitors).1.doc \
                 A.changes (S i).doc
               device := e.device, stamp := e.stamp, monitors := e.monitors } := by
      simp only [layoutEdit?, machine, Replicas.step, Machine.entry, Function.update_self, hstamp]
    rw [hedit]
    refine ⟨H.extend c e, h.edited hactor heditor he hi, ?_⟩
    intro j
    refine ⟨(h.replica j).extend, ?_⟩
    refine (Function.forall_update_iff S fun j s => A.changes (S j).doc ⊆ A.changes s.doc).2
      ⟨?_, fun _ _ => subset_rfl⟩ j
    rw [he.changes]
    exact Finset.subset_insert c _
  | merge i j =>
    have hg := SharedState.merge_grows (h.replica i).committed (S j)
    refine ⟨H, ?_, hgrows hg⟩
    rw [show layoutEdit? editor ((machine A editor).entry S (.merge i j)) = none from rfl,
      Option.toList_none, List.append_nil]
    refine h.grows hg ?_
    intro c hc
    have hmem : c ∈ A.changes (A.commit (S j).doc) := hc
    rw [LawfulAutomerge.commit_empty _ (h.replica j).committed] at hmem
    exact (h.replica j).all hmem
  | applyChanges i items =>
    have hg := SharedState.applyItems_grows (h.replica i).committed false none
      (items.map (delivered S))
    refine ⟨H, ?_, hgrows hg⟩
    rw [show layoutEdit? editor ((machine A editor).entry S (.applyChanges i items)) = none
      from rfl, Option.toList_none, List.append_nil]
    exact h.grows hg fun c hc => h.delivered_mem hc

end Sound

/-! ### Runs -/

variable [DecidableEq ι] [LawfulAutomerge A]

theorem exists_sound {genesisActor : A.Actor} (hactor : Function.Injective actor)
    (heditor : Function.Injective editor) (calls : List (ClusterCall ι))
    (hcount : ∀ e ∈ (machine A editor).trace (start genesisActor actor) calls,
      ∀ i, (e.pre i).historyChangeCount < 2 ^ 64) :
    ∃ H, Sound actor editor H
      (edits editor ((machine A editor).trace (start genesisActor actor) calls))
      ((machine A editor).exec (start genesisActor actor) calls) := by
  refine (machine A editor).induct (P := fun tr S => ∃ H, Sound actor editor H (edits editor tr) S)
    (exists_sound_start genesisActor actor editor) ?_ calls hcount
  rintro tr S call ⟨H, h⟩ hcount
  obtain ⟨H', h', -⟩ := h.step hactor heditor hcount call
  refine ⟨H', ?_⟩
  rw [edits, List.filterMap_append, List.filterMap_cons, List.filterMap_nil]
  cases hedit : layoutEdit? editor ((machine A editor).entry S call) with
  | none =>
    rw [hedit] at h'
    exact h'
  | some e =>
    rw [hedit] at h'
    exact h'

/-- Before every step of a run there is one honest history. -/
theorem exists_sound_pre {genesisActor : A.Actor} (hactor : Function.Injective actor)
    (heditor : Function.Injective editor) {calls : List (ClusterCall ι)}
    (hcount : ∀ e ∈ (machine A editor).trace (start genesisActor actor) calls,
      ∀ i, (e.pre i).historyChangeCount < 2 ^ 64)
    {e : Machine.Entry (ι → SharedState A) (ClusterCall ι) (Except StateError Unit)}
    (he : e ∈ (machine A editor).trace (start genesisActor actor) calls) :
    (∃ H es, Sound actor editor H es e.pre) ∧ e = (machine A editor).entry e.pre e.input := by
  obtain ⟨js, call, ks, rfl, rfl⟩ := (machine A editor).mem_trace_iff.1 he
  refine ⟨?_, rfl⟩
  have hbefore : ∀ e ∈ (machine A editor).trace (start genesisActor actor) js,
      ∀ i, (e.pre i).historyChangeCount < 2 ^ 64 := fun e he =>
    hcount e ((Machine.trace_prefix _ _ (List.prefix_append js (call :: ks))).subset he)
  obtain ⟨H, h⟩ := exists_sound hactor heditor js hbefore
  exact ⟨H, _, h⟩

/-- **Layout convergence.** Replicas with the same changes report the same, and that is what the
greatest edit among the changes wrote; the revision never goes down, and an edit raises it and is
the resolved one. -/
theorem layout_converges {genesisActor : A.Actor} (hactor : Function.Injective actor)
    (heditor : Function.Injective editor) (calls : List (ClusterCall ι))
    (hcount : ∀ e ∈ (machine A editor).trace (start genesisActor actor) calls,
      ∀ i, (e.pre i).historyChangeCount < 2 ^ 64) :
    let tr := (machine A editor).trace (start genesisActor actor) calls
    let S := (machine A editor).exec (start genesisActor actor) calls
    (∀ i j, A.changes (S i).doc = A.changes (S j).doc →
      (S i).layoutRev = (S j).layoutRev ∧ (S i).layoutEditorHex = (S j).layoutEditorHex ∧
        ∀ device, (S i).layout device = (S j).layout device) ∧
    (∀ i, ∀ e ∈ edits editor tr, e.made ⊆ A.changes (S i).doc →
      (∀ e' ∈ edits editor tr, e'.made ⊆ A.changes (S i).doc → e'.device = e.device →
        e'.stamp ≤ e.stamp) → (S i).layout e.device = .ok e.monitors) ∧
    (∀ i device, (∀ e ∈ edits editor tr, e.made ⊆ A.changes (S i).doc → e.device ≠ device) →
      (S i).layout device = .ok []) ∧
    (∀ e ∈ tr, ∀ i, (e.pre i).layoutRev ≤ (e.post i).layoutRev) ∧
    ∀ e ∈ tr, ∀ i device monitors, e.input = .setLayout i device monitors →
      e.output = .ok () ∧ (e.pre i).layoutRev < (e.post i).layoutRev ∧
        (e.post i).resolvedLwwAt A.root =
          { rev := (e.pre i).layoutRev.saturatingAdd 1, editor := editor i } ∧
        (e.post i).layout device = .ok monitors ∧
        ∃ c, A.changes (e.post i).doc \ A.changes (e.pre i).doc = {c} ∧
          ⟨A.root, keyLayoutLww, .scalar (encodeLww ((e.post i).resolvedLwwAt A.root))⟩ ∈
            A.puts c := by
  intro tr S
  obtain ⟨H, h⟩ := exists_sound hactor heditor calls hcount
  refine ⟨?_, ?_, ?_, ?_, ?_⟩
  · intro i j hsame
    obtain ⟨hroot, hlayout⟩ := (h.replica i).converge h.honest (h.replica j) hsame
    exact ⟨congrArg LayoutStamp.rev hroot,
      congrArg (fun stamp : LayoutStamp => deviceIdHex stamp.editor) hroot, hlayout⟩
  · intro i e he hmade hmax
    exact h.layout_eq he hmade hmax
  · intro i device hnone
    exact h.layout_eq_nil hnone
  · intro e he i
    obtain ⟨⟨H, es, h⟩, hentry⟩ := exists_sound_pre hactor heditor hcount he
    obtain ⟨H', h', hkept⟩ := h.step hactor heditor (hcount e he) e.input
    obtain ⟨hpre, hsub⟩ := hkept i
    have hle := hpre.resolved_root_le h'.honest (h'.replica i) hsub
    rw [hentry]
    exact UInt64.le_iff_toNat_le.2 (LayoutStamp.rev_le_of_le hle)
  · intro e he i device monitors hinput
    obtain ⟨⟨H, es, h⟩, hentry⟩ := exists_sound_pre hactor heditor hcount he
    obtain ⟨hok, c, info, hedited, hdevice, hstamp, hmonitors⟩ :=
      (h.replica i).setLayout_edited h.honest (hcount e he i) device (editor i) monitors
    have hown : H.Own (e.pre i) info.stamp.editor := by
      rw [hstamp]
      exact h.own i
    have hpost : e.post i = ((e.pre i).setLayout device (editor i) monitors).1 := by
      rw [hentry, hinput]
      exact Function.update_self ..
    have hresolved := hedited.resolved h.honest (h.replica i) hown
    rw [hpost]
    refine ⟨?_, ?_, hresolved.trans hstamp, ?_, c, ?_, ?_⟩
    · rw [hentry, hinput]
      exact hok
    · rw [UInt64.lt_iff_toNat_lt, SharedState.layoutRev, SharedState.layoutRev, hresolved,
        hedited.rev]
      exact Nat.lt_succ_self _
    · have hlayout := hedited.layout_eq h.honest (h.replica i) hown
      rw [hdevice, hmonitors] at hlayout
      exact hlayout
    · rw [hedited.changes, Finset.insert_sdiff_cancel hedited.not_mem]
    · rw [hresolved]
      exact hedited.mem_puts .rootStamp

/-- The editors of two devices. -/
def twoEditors (b : Bool) : DeviceId := .fill (if b then 1 else 2)

/-- Two concurrent edits of one device, exchanged. -/
def twoCalls : List (ClusterCall Bool) :=
  [.setLayout true (.fill 1) [], .setLayout false (.fill 1) [], .merge true false,
   .applyChanges false [(true, 0), (true, 1)]]

def twoStart : Bool → SharedState Graph.automerge :=
  start (A := Graph.automerge) (2 : ℕ) Bool.toNat

theorem layout_converges_two :
    let S := (machine Graph.automerge twoEditors).exec twoStart twoCalls
    Graph.automerge.changes (S true).doc = Graph.automerge.changes (S false).doc ∧
      (S true).layoutRev = (S false).layoutRev ∧
      (S true).layoutEditorHex = (S false).layoutEditorHex ∧
      ∀ device, (S true).layout device = (S false).layout device := by
  have hsame : Graph.automerge.changes
      ((machine Graph.automerge twoEditors).exec twoStart twoCalls true).doc =
      Graph.automerge.changes
        ((machine Graph.automerge twoEditors).exec twoStart twoCalls false).doc := by
    decide +kernel
  have hactor : Function.Injective Bool.toNat := by decide
  exact ⟨hsame, (layout_converges (A := Graph.automerge) hactor (by decide) twoCalls
    (by decide +kernel)).1 true false hsame⟩

end Replicas

end Mouser
