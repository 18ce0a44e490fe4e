import Mouser.State.History

/-!
# A layout edit of a replica

What `setLayout` does to a replica of an honest cluster. The open transaction grows put by put
(`Automerge.Opened`) to the puts of an edit: its entry is one that the device has or, where the
device has none, a new one, and its revision is one above that of every edit of the replica. The
history with that change is honest again (`Edited.honest`).
-/

namespace Mouser

namespace Automerge

variable {A : Automerge}

/-- An object that the document's author made and that no change of it has. -/
structure New (d : A.Doc) (o : A.Obj) : Prop where
  maker : A.maker o = some (A.actor d)
  not_mentions : ∀ c ∈ A.changes d, ∀ p ∈ A.puts c, ¬ p.Mentions o

/-- The document is `d` with an open transaction, which makes only new objects and each of them
once. -/
structure Opened (d : A.Doc) (ps : List (Put A.Obj)) (d' : A.Doc) : Prop where
  changes : A.changes d' = A.changes d
  known : A.known d' = A.known d
  actor : A.actor d' = A.actor d
  pending : A.pending d' = ps
  new : ∀ p ∈ ps, ∀ o, p.value = .map o → New d o
  once : ∀ p ∈ ps, ∀ p' ∈ ps, ∀ o, p.value = .map o → p'.value = .map o → p = p'

variable {d d' : A.Doc} {ps : List (Put A.Obj)} {o : A.Obj} {k : String}

theorem Opened.refl (hp : A.pending d = []) : Opened d [] d :=
  ⟨rfl, rfl, rfl, hp, nofun, nofun⟩

/-- The next put makes no object. -/
theorem Opened.concat (h : Opened d ps d') {d'' : A.Doc} {p : Put A.Obj}
    (hchanges : A.changes d'' = A.changes d') (hknown : A.known d'' = A.known d')
    (hactor : A.actor d'' = A.actor d') (hpending : A.pending d'' = A.pending d' ++ [p])
    (hp : ∀ o, p.value ≠ .map o) : Opened d (ps ++ [p]) d'' := by
  have hold : ∀ {q o}, q ∈ ps ++ [p] → q.value = .map o → q ∈ ps := by
    intro q o hq hv
    rcases List.mem_append.1 hq with hq | hq
    · exact hq
    · rw [List.mem_singleton.1 hq] at hv
      exact absurd hv (hp o)
  refine ⟨hchanges.trans h.changes, hknown.trans h.known, hactor.trans h.actor,
    by rw [hpending, h.pending], ?_, ?_⟩
  · intro q hq o hv
    exact h.new q (hold hq hv) o hv
  · intro q hq q' hq' o hv hv'
    exact h.once q (hold hq hv) q' (hold hq' hv') o hv hv'

theorem New.not_left (h : New d o) {c : A.Change} {v : Value A.Obj} :
    ¬ A.Left (A.changes d) o k c v := by
  rintro ⟨hc, hput, -⟩
  exact h.not_mentions c hc _ (mem_of_lastPut hput) (.inl rfl)

variable [LawfulAutomerge A]

theorem New.ne_root (h : New d o) : o ≠ A.root := by
  rintro rfl
  exact Option.some_ne_none _ (h.maker.symm.trans LawfulAutomerge.maker_root)

namespace Opened

/-- The next put makes a new object. -/
theorem putMap (h : Opened d ps d') (o : A.Obj) (k : String) :
    Opened d (ps ++ [⟨o, k, .map (A.putMap d' o k).2⟩]) (A.putMap d' o k).1 := by
  obtain ⟨hchanges, hknown, hactor, hpending⟩ := LawfulAutomerge.putMap d' o k
  obtain ⟨hmaker, hnew, hps⟩ := LawfulAutomerge.putMap_new d' o k
  rw [h.changes] at hnew
  rw [h.pending] at hps
  refine ⟨hchanges.trans h.changes, hknown.trans h.known, hactor.trans h.actor,
    by rw [hpending, h.pending], ?_, ?_⟩
  · intro q hq o' hv
    rcases List.mem_append.1 hq with hq | hq
    · exact h.new q hq o' hv
    · rw [List.mem_singleton.1 hq] at hv
      cases hv
      exact ⟨by rw [hmaker, h.actor], hnew⟩
  · intro q hq q' hq' o' hv hv'
    rcases List.mem_append.1 hq with hq | hq
    · rcases List.mem_append.1 hq' with hq' | hq'
      · exact h.once q hq q' hq' o' hv hv'
      · rw [List.mem_singleton.1 hq'] at hv'
        cases hv'
        exact absurd (.inr hv) (hps q hq)
    · rw [List.mem_singleton.1 hq] at hv ⊢
      cases hv
      rcases List.mem_append.1 hq' with hq' | hq'
      · exact absurd (.inr hv') (hps q' hq')
      · exact (List.mem_singleton.1 hq').symm

theorem putList (h : Opened d ps d') (o : A.Obj) (k : String)
    (items : List (List (String × Scalar))) :
    Opened d (ps ++ [⟨o, k, .list items⟩]) (A.putList d' o k items) := by
  obtain ⟨hchanges, hknown, hactor, hpending⟩ := LawfulAutomerge.putList d' o k items
  exact h.concat hchanges hknown hactor hpending (fun _ => nofun)

/-- To put a value that the register does not have. -/
theorem put (h : Opened d ps d') {x : Scalar} (hnew : .scalar x ∉ A.getAll d' o k) :
    Opened d (ps ++ [⟨o, k, .scalar x⟩]) (A.put d' o k x) := by
  obtain ⟨hchanges, hknown, hactor, hpending⟩ := LawfulAutomerge.put d' o k x
  rcases hpending with hput | ⟨hsame, -⟩
  · exact h.concat hchanges hknown hactor hput (fun _ => nofun)
  · rw [hsame] at hnew
    exact absurd (List.mem_singleton.2 rfl) hnew

/-- The values of a register that the transaction did not touch. -/
theorem mem_getAll (h : Opened d ps d') (hnone : lastPut ps o k = none) {v : Value A.Obj} :
    v ∈ A.getAll d' o k ↔ ∃ c, A.Left (A.changes d) o k c v := by
  rw [LawfulAutomerge.mem_getAll, h.pending, hnone, h.changes]

theorem get_eq_none (h : Opened d ps d') (hnone : lastPut ps o k = none)
    (hleft : ∀ c v, ¬ A.Left (A.changes d) o k c v) : A.get d' o k = none := by
  refine Automerge.get_eq_none ?_
  intro v hv
  obtain ⟨c, hc⟩ := (h.mem_getAll hnone).1 hv
  exact hleft c v hc

/-- The transaction becomes a change. -/
theorem commit (h : Opened d ps d') (hne : ps ≠ []) :
    ∃ c, c ∉ A.changes d ∧ A.changes (A.commit d') = insert c (A.changes d) ∧
      A.known (A.commit d') = A.known d ∪ insert c (A.changes d) ∧
      A.actor (A.commit d') = A.actor d ∧ A.pending (A.commit d') = [] ∧ A.puts c = ps ∧
      A.past c = A.changes d ∧ ∀ o k c', c' ∈ A.overwrites c o k →
        lastPut ps o k ≠ none ∧ ∃ v, A.Left (A.changes d) o k c' v := by
  obtain ⟨c, hnot, hchanges, hputs, hpast, hover⟩ :=
    LawfulAutomerge.commit_change d' (by rw [h.pending]; exact hne)
  obtain ⟨hknown, hactor, hcommitted⟩ := LawfulAutomerge.commit (A := A) d'
  rw [h.changes] at hnot hchanges hpast hover
  rw [h.pending] at hputs hover
  rw [h.known, hchanges] at hknown
  exact ⟨c, hnot, hchanges, hknown, hactor.trans h.actor, hcommitted, hputs, hpast,
    fun o k c' => (hover o k c').1⟩

end Opened

end Automerge

namespace SharedState

variable {A : Automerge} {s : SharedState A} {parent : A.Obj} {key : String}

theorem ensureMap_of_some {id : A.Obj} (h : A.get s.doc parent key = some (.map id)) :
    s.ensureMap parent key = (s, .ok id) := by
  rw [ensureMap, h]

/-- A map that is made. -/
theorem exists_ensureMap [LawfulAutomerge A] {d : A.Doc} {ps : List (Put A.Obj)}
    (ho : Automerge.Opened d ps s.doc) (hnone : lastPut ps parent key = none)
    (hleft : ∀ c v, ¬ A.Left (A.changes d) parent key c v) :
    ∃ s' id, s.ensureMap parent key = (s', .ok id) ∧
      Automerge.Opened d (ps ++ [⟨parent, key, .map id⟩]) s'.doc := by
  refine ⟨{ doc := (A.putMap s.doc parent key).1 }, (A.putMap s.doc parent key).2, ?_,
    ho.putMap parent key⟩
  rw [ensureMap, ho.get_eq_none hnone hleft]

/-- The steps of `setLayout`, where all its maps are there or made. -/
theorem setLayout_eq {s s₁ s₂ s₃ : SharedState A} {layout entry edits edit : A.Obj}
    {device editor : DeviceId} {monitors : List Monitor} {stamp : LayoutStamp}
    (hlayout : s.mapChild A.root keyLayout = (s, .ok layout))
    (hentry : s.ensureMap layout (deviceIdHex device) = (s₁, .ok entry))
    (hstamp : stamp = { rev := s₁.layoutRev.saturatingAdd 1, editor })
    (hedits : s₁.ensureMap entry keyLayoutEdits = (s₂, .ok edits))
    (hedit : s₂.ensureMap edits (lwwKey stamp) = (s₃, .ok edit)) :
    s.setLayout device editor monitors =
      (((((s₃.writeMonitors edit monitors).putStamp entry stamp).putStamp A.root
        stamp).writeMonitors entry monitors).commit, .ok ()) := by
  subst hstamp
  simp only [setLayout, hlayout, hentry, hedits, hedit]

end SharedState

namespace History

open Automerge

variable {A : Automerge} {H : History A} {s : SharedState A}

/-- Where an edit of the device goes: a new entry if the device has none, or one of its entries. -/
structure EntryOf (H : History A) (s : SharedState A) (device : DeviceId) (entry edits : A.Obj)
    (fresh : Bool) : Prop where
  new : fresh = true → New s.doc entry ∧ New s.doc edits ∧
    ∀ c v, ¬ A.Left (A.changes s.doc) H.layout (deviceIdHex device) c v
  old : fresh = false → ∃ c, H.Has s c ∧ (H.info c).fresh = true ∧ (H.info c).entry = entry ∧
    (H.info c).edits = edits ∧ (H.info c).device = device

/-- What an edit puts for its entry. -/
def entryPuts (H : History A) (device : DeviceId) (entry edits : A.Obj) (fresh : Bool) :
    List (Put A.Obj) :=
  if fresh then
    [⟨H.layout, deviceIdHex device, .map entry⟩, ⟨entry, keyLayoutEdits, .map edits⟩]
  else []

theorem editPuts_ne_nil {layout : A.Obj} {e : EditInfo A} : editPuts layout e ≠ [] :=
  List.append_ne_nil_of_right_ne_nil _ (List.cons_ne_nil _ _)

/-- A key that no entry is put at. -/
theorem lastPut_entryPuts {device : DeviceId} {entry edits : A.Obj} {fresh : Bool} {o : A.Obj}
    {k : String} (hdevice : ∀ id, deviceIdHex id ≠ k) (hedits : keyLayoutEdits ≠ k) :
    lastPut (entryPuts H device entry edits fresh) o k = none := by
  refine lastPut_eq_none.2 ?_
  rintro p hp ⟨-, rfl⟩
  cases fresh with
  | false => cases hp
  | true =>
    rcases List.mem_cons.1 hp with rfl | hp
    · exact hdevice device rfl
    · rw [List.mem_singleton.1 hp] at hedits
      exact hedits rfl

/-- The replica `s'` is `s` with one more edit. -/
structure Edited (H : History A) (s s' : SharedState A) (c : A.Change) (e : EditInfo A) :
    Prop where
  not_mem : c ∉ A.changes s.doc
  changes : A.changes s'.doc = insert c (A.changes s.doc)
  known : A.known s'.doc = insert c (A.known s.doc)
  actor : A.actor s'.doc = A.actor s.doc
  committed : A.pending s'.doc = []
  puts : A.puts c = editPuts H.layout e
  past : A.past c = A.changes s.doc
  overwrites : ∀ o k c', c' ∈ A.overwrites c o k →
    lastPut (A.puts c) o k ≠ none ∧ ∃ v, A.Left (A.changes s.doc) o k c' v
  rev : e.stamp.rev.toNat = s.layoutRev.toNat + 1
  entry : EntryOf H s e.device e.entry e.edits e.fresh
  new : ∀ p ∈ A.puts c, ∀ o, p.value = .map o → New s.doc o
  once : ∀ p ∈ A.puts c, ∀ p' ∈ A.puts c, ∀ o, p.value = .map o → p'.value = .map o → p = p'

/-! ### The history with the edit -/

/-- The history with one more edit. -/
def extend (H : History A) (c : A.Change) (e : EditInfo A) : History A :=
  { H with all := insert c H.all, info := fun c' => if c' = c then e else H.info c' }

/-- The replica has all that its device made. -/
structure Own (H : History A) (s : SharedState A) (editor : DeviceId) : Prop where
  edits : ∀ c, H.IsEdit c → (H.info c).stamp.editor = editor → c ∈ A.changes s.doc
  objects : ∀ c ∈ H.all, ∀ p ∈ A.puts c, ∀ o, p.Mentions o → A.maker o = some (A.actor s.doc) →
    ∃ c' ∈ A.changes s.doc, ∃ p' ∈ A.puts c', p'.Mentions o

theorem Own.not_mentions {editor : DeviceId} (hown : H.Own s editor) {o : A.Obj}
    (hnew : New s.doc o) {c : A.Change} (hc : c ∈ H.all) {p : Put A.Obj} (hp : p ∈ A.puts c) :
    ¬ p.Mentions o := by
  intro hmention
  obtain ⟨c', hc', p', hp', hmention'⟩ := hown.objects c hc p hp o hmention hnew.maker
  exact hnew.not_mentions c' hc' p' hp' hmention'

section extend

variable {c c' : A.Change} {e : EditInfo A}

theorem mem_extend : c' ∈ (H.extend c e).all ↔ c' = c ∨ c' ∈ H.all := Set.mem_insert_iff

theorem extend_info_self : (H.extend c e).info c = e := if_pos rfl

theorem extend_info_of_mem (hc : c ∉ H.all) (hc' : c' ∈ H.all) :
    (H.extend c e).info c' = H.info c' := by
  refine if_neg ?_
  rintro rfl
  exact hc hc'

theorem isEdit_extend (hc : (H.extend c e).IsEdit c') : c' = c ∨ H.IsEdit c' := by
  rcases mem_extend.1 hc.1 with heq | hmem
  · exact .inl heq
  · exact .inr ⟨hmem, hc.2⟩

/-- Replicas of the history are replicas of the longer one. -/
theorem Replica.extend (hr : Replica H s) : Replica (H.extend c e) s :=
  ⟨hr.committed, fun c' hc' => mem_extend.2 (.inr (hr.known c' hc')), hr.genesis⟩

end extend

namespace Edited

variable {s' : SharedState A} {c : A.Change} {e : EditInfo A} (he : Edited H s s' c e)

include he

theorem isEditPut {p : Put A.Obj} (hp : p ∈ A.puts c) : IsEditPut H.layout e p := by
  rw [he.puts] at hp
  exact mem_editPuts.1 hp

theorem mem_puts {p : Put A.Obj} (hp : IsEditPut H.layout e p) : p ∈ A.puts c := by
  rw [he.puts]
  exact mem_editPuts.2 hp

/-- No other replica made the change. -/
theorem not_mem_all (h : H.Honest) (hr : Replica H s) (hown : H.Own s e.stamp.editor) :
    c ∉ H.all := by
  intro hc
  have hedit : H.IsEdit c := by
    refine ⟨hc, ?_⟩
    rintro rfl
    exact he.not_mem hr.genesis
  obtain ⟨hstamp, -⟩ := (h.isEditPut hedit (he.mem_puts .rootStamp)).at_lww rfl
  have heq : e.stamp = (H.info c).stamp :=
    lwwKey_injective (Scalar.str.inj (Value.scalar.inj hstamp))
  exact he.not_mem (hown.edits c hedit (congrArg LayoutStamp.editor heq).symm)

theorem replica_self (hr : Replica H s) : Replica (H.extend c e) s' := by
  refine ⟨he.committed, ?_, ?_⟩
  · intro c' hc'
    rw [he.known] at hc'
    rcases Finset.mem_insert.1 hc' with hnew | hold
    · exact mem_extend.2 (.inl hnew)
    · exact mem_extend.2 (.inr (hr.known c' hold))
  · rw [he.changes]
    exact Finset.mem_insert_of_mem hr.genesis

theorem has_self (hr : Replica H s) : (H.extend c e).Has s' c := by
  refine ⟨?_, ?_⟩
  · rw [he.changes]
    exact Finset.mem_insert_self c _
  · intro heq
    refine he.not_mem ?_
    rw [show c = H.genesis from heq]
    exact hr.genesis

/-- The device that made the edit has it. -/
theorem own_self {editor : DeviceId} (hown : H.Own s editor) (hc : c ∉ H.all) :
    (H.extend c e).Own s' editor := by
  have hsub : A.changes s.doc ⊆ A.changes s'.doc := by
    rw [he.changes]
    exact Finset.subset_insert c _
  have hmem : c ∈ A.changes s'.doc := by
    rw [he.changes]
    exact Finset.mem_insert_self c _
  refine ⟨?_, ?_⟩
  · intro c' hc' heditor
    rcases isEdit_extend hc' with rfl | hold
    · exact hmem
    · rw [extend_info_of_mem hc hold.1] at heditor
      exact hsub (hown.edits c' hold heditor)
  · intro c' hc' p hp o ho hmaker
    rw [he.actor] at hmaker
    rcases mem_extend.1 hc' with rfl | hold
    · exact ⟨c', hmem, p, hp, ho⟩
    · obtain ⟨c'', hc'', hrest⟩ := hown.objects c' hold p hp o ho hmaker
      exact ⟨c'', hsub hc'', hrest⟩

end Edited

theorem Replica.ne_layout_of_new (h : H.Honest) (hr : Replica H s) {o : A.Obj}
    (hnew : New s.doc o) : o ≠ H.layout := by
  rintro rfl
  exact hnew.not_mentions H.genesis hr.genesis _ h.makes_layout (.inr rfl)

variable [LawfulAutomerge A]

theorem EntryOf.ne_root (h : H.Honest) (hr : Replica H s) {device : DeviceId} {entry edits : A.Obj}
    {fresh : Bool} (he : EntryOf H s device entry edits fresh) :
    entry ≠ A.root ∧ edits ≠ A.root := by
  cases fresh with
  | true => exact ⟨(he.new rfl).1.ne_root, (he.new rfl).2.1.ne_root⟩
  | false =>
    obtain ⟨c, hc, -, rfl, rfl, -⟩ := he.old rfl
    exact ⟨h.entry_ne_root (hr.isEdit hc), h.edits_ne_root (hr.isEdit hc)⟩

theorem EntryOf.ne_layout (h : H.Honest) (hr : Replica H s) {device : DeviceId}
    {entry edits : A.Obj} {fresh : Bool} (he : EntryOf H s device entry edits fresh) :
    entry ≠ H.layout ∧ edits ≠ H.layout := by
  cases fresh with
  | true => exact ⟨hr.ne_layout_of_new h (he.new rfl).1, hr.ne_layout_of_new h (he.new rfl).2.1⟩
  | false =>
    obtain ⟨c, hc, -, rfl, rfl, -⟩ := he.old rfl
    exact h.ne_layout (hr.isEdit hc)

/-- An object of the entry is new, or is in the document. -/
theorem EntryOf.known (h : H.Honest) (hr : Replica H s) {device : DeviceId} {entry edits : A.Obj}
    {fresh : Bool} (hof : EntryOf H s device entry edits fresh) {o : A.Obj}
    (ho : o = entry ∨ o = edits) :
    New s.doc o ∨ ∃ c' ∈ A.changes s.doc, ∃ p ∈ A.puts c', p.Mentions o := by
  cases fresh with
  | true =>
    refine .inl ?_
    rcases ho with rfl | rfl
    · exact (hof.new rfl).1
    · exact (hof.new rfl).2.1
  | false =>
    obtain ⟨m, hm, hfresh, rfl, rfl, -⟩ := hof.old rfl
    have hput := h.mem_puts (hr.isEdit hm) (.edits hfresh)
    refine .inr ⟨m, hm.1, _, hput, ?_⟩
    rcases ho with rfl | rfl
    · exact .inl rfl
    · exact .inr rfl

namespace Replica

/-! ### The next revision -/

/-- The cap of a transaction is that of the replica, or one more. -/
theorem cap_le_of_opened (hr : Replica H s) {s' : SharedState A} {ps : List (Put A.Obj)}
    (ho : Opened s.doc ps s'.doc) : s.historyChangeCount ≤ s'.historyChangeCount := by
  rw [hr.historyChangeCount_eq, SharedState.historyChangeCount_eq_card, ← ho.changes]
  exact Finset.card_le_card (changes_subset_commit s'.doc)

/-- The revision is read in a transaction that has made the entry, and is the same there. -/
theorem layoutRev_of_opened (h : H.Honest) (hr : Replica H s) {s' : SharedState A}
    {ps : List (Put A.Obj)} (ho : Opened s.doc ps s'.doc)
    (hroot : lastPut ps A.root keyLayoutLww = none) : s'.layoutRev = s.layoutRev := by
  have hmem : ∀ v, v ∈ A.getAll s'.doc A.root keyLayoutLww ↔
      v ∈ A.getAll s.doc A.root keyLayoutLww := by
    intro v
    rw [ho.mem_getAll hroot, mem_getAll_of_committed hr.committed]
  have hcand : ∀ v ∈ A.getAll s.doc A.root keyLayoutLww,
      SharedState.candidate? s'.causalLayoutRevCap v =
        SharedState.candidate? s.causalLayoutRevCap v := by
    intro v hv
    rcases hr.lww_of_mem h hv with rfl | ⟨c, hc, -, rfl⟩
    · rw [SharedState.candidate?_encodeLww (UInt64.le_iff_toNat_le.2 (Nat.zero_le _)),
        SharedState.candidate?_encodeLww (UInt64.le_iff_toNat_le.2 (Nat.zero_le _))]
    · rw [hr.candidate_stamp h hc]
      refine SharedState.candidate?_encodeLww ?_
      have hcount := hr.rev_lt_count h hc
      have hle := hr.cap_le_of_opened ho
      have hmax := (H.info c).stamp.rev.toNat_lt
      rw [UInt64.le_iff_toNat_le, SharedState.causalLayoutRevCap, UInt64.toNat_ofNatClamp]
      omega
  refine congrArg LayoutStamp.rev (le_antisymm ?_ ?_)
  · refine SharedState.resolvedLwwAt_le fun v hv cand hc => ?_
    have hv' := (hmem v).1 hv
    exact ⟨v, hv', cand, (hcand v hv').symm.trans hc, le_refl cand⟩
  · refine SharedState.resolvedLwwAt_le fun v hv cand hc => ?_
    exact ⟨v, (hmem v).2 hv, cand, (hcand v hv).trans hc, le_refl cand⟩

theorem rev_le_layoutRev (h : H.Honest) (hr : Replica H s) {c : A.Change} (hc : H.Has s c) :
    (H.info c).stamp.rev.toNat ≤ s.layoutRev.toNat :=
  LayoutStamp.rev_le_of_le ((hr.resolved_at h A.root).1 c hc (.inl rfl))

theorem layoutRev_lt_count (h : H.Honest) (hr : Replica H s) :
    s.layoutRev.toNat < s.historyChangeCount := by
  rcases (hr.resolved_at h A.root).2 with hnone | ⟨c, hc, -, hstamp⟩
  · rw [SharedState.layoutRev, hnone, hr.historyChangeCount_eq]
    exact Finset.card_pos.2 ⟨H.genesis, hr.genesis⟩
  · rw [SharedState.layoutRev, ← hstamp]
    exact hr.rev_lt_count h hc

theorem toNat_next (h : H.Honest) (hr : Replica H s) (hcount : s.historyChangeCount < 2 ^ 64) :
    (s.layoutRev.saturatingAdd 1).toNat = s.layoutRev.toNat + 1 := by
  have hlt := hr.layoutRev_lt_count h
  have hone : (1 : UInt64).toNat = 1 := rfl
  rw [UInt64.toNat_saturatingAdd, hone]
  omega

/-- A stamp with a greater revision is in no register. -/
theorem not_left_of_greater (h : H.Honest) (hr : Replica H s) {stamp : LayoutStamp}
    (hrev : s.layoutRev.toNat < stamp.rev.toNat) {o : A.Obj} {c : A.Change} :
    ¬ A.Left (A.changes s.doc) o keyLayoutLww c (.scalar (encodeLww stamp)) := by
  intro hleft
  have henc : ∀ {a b : LayoutStamp}, (.scalar (encodeLww a) : Value A.Obj) = .scalar (encodeLww b) →
      a = b := fun hab => lwwKey_injective (Scalar.str.inj (Value.scalar.inj hab))
  rcases hr.lww_of_mem h ((mem_getAll_of_committed hr.committed).2 ⟨c, hleft⟩) with
    heq | ⟨c', hc', -, heq⟩
  · rw [henc heq] at hrev
    exact absurd hrev (Nat.not_lt_zero _)
  · have hle := hr.rev_le_layoutRev h hc'
    rw [henc heq] at hrev
    omega

/-- Nor is there an edit under it. -/
theorem not_left_stamp (h : H.Honest) (hr : Replica H s) {stamp : LayoutStamp}
    (hrev : s.layoutRev.toNat < stamp.rev.toNat) {o : A.Obj} (ho : o ≠ A.root) {c : A.Change}
    {v : Value A.Obj} : ¬ A.Left (A.changes s.doc) o (lwwKey stamp) c v := by
  rintro ⟨hc, hput, -⟩
  have hne : c ≠ H.genesis := by
    rintro rfl
    exact ho (h.puts_genesis _ (mem_of_lastPut hput)).1
  obtain ⟨hstamp, -⟩ := (h.isEditPut ⟨hr.all hc, hne⟩ (mem_of_lastPut hput)).at_stamp rfl
  have hle := hr.rev_le_layoutRev h ⟨hc, hne⟩
  rw [hstamp] at hle
  omega

/-! ### The entry -/

/-- The first steps of `setLayout`: the entry of the device. -/
theorem exists_entry (h : H.Honest) (hr : Replica H s) (device : DeviceId) :
    ∃ s₁ s₂ entry edits fresh, s.mapChild A.root keyLayout = (s, .ok H.layout) ∧
      s.ensureMap H.layout (deviceIdHex device) = (s₁, .ok entry) ∧
      s₁.layoutRev = s.layoutRev ∧ s₁.ensureMap entry keyLayoutEdits = (s₂, .ok edits) ∧
      Opened s.doc (entryPuts H device entry edits fresh) s₂.doc ∧
      EntryOf H s device entry edits fresh := by
  have hlayout : s.mapChild A.root keyLayout = (s, .ok H.layout) :=
    SharedState.ensureMap_of_some (hr.get_layout h)
  have hs : Opened s.doc [] s.doc := .refl hr.committed
  cases hget : A.get s.doc H.layout (deviceIdHex device) with
  | some v =>
    -- an entry that the device has
    obtain ⟨c, hc, hfresh, hdevice, rfl⟩ :=
      (hr.mem_entries h).1 (LawfulAutomerge.get_mem s.doc _ _ v hget)
    exact ⟨s, s, (H.info c).entry, (H.info c).edits, false, hlayout,
      SharedState.ensureMap_of_some hget, rfl, SharedState.ensureMap_of_some (hr.get_edits h hc),
      hs, nofun, fun _ => ⟨c, hc, hfresh, rfl, rfl, hdevice⟩⟩
  | none =>
    -- a new one
    have hnone : ∀ c v, ¬ A.Left (A.changes s.doc) H.layout (deviceIdHex device) c v := by
      intro c v hleft
      have hmem := (mem_getAll_of_committed hr.committed).2 ⟨c, hleft⟩
      rw [LawfulAutomerge.get_none s.doc _ _ hget] at hmem
      cases hmem
    obtain ⟨s₁, entry, hmake₁, ho₁⟩ := SharedState.exists_ensureMap hs lastPut_nil hnone
    have hentry : New s.doc entry := ho₁.new _ (.head _) entry rfl
    have hroot : lastPut [⟨H.layout, deviceIdHex device, .map entry⟩] A.root keyLayoutLww =
        (none : Option (Value A.Obj)) := by
      refine lastPut_eq_none.2 ?_
      rintro p hp ⟨hobj, -⟩
      rw [List.mem_singleton.1 hp] at hobj
      exact h.layout_ne_root hobj
    have hedits : lastPut [⟨H.layout, deviceIdHex device, .map entry⟩] entry keyLayoutEdits =
        (none : Option (Value A.Obj)) := by
      refine lastPut_eq_none.2 ?_
      rintro p hp ⟨-, hkey⟩
      rw [List.mem_singleton.1 hp] at hkey
      exact deviceIdHex_ne (by decide) hkey
    obtain ⟨s₂, edits, hmake₂, ho₂⟩ :=
      SharedState.exists_ensureMap ho₁ hedits fun c v => hentry.not_left
    exact ⟨s₁, s₂, entry, edits, true, hlayout, hmake₁, hr.layoutRev_of_opened h ho₁ hroot, hmake₂,
      ho₂, fun _ => ⟨hentry, ho₂.new _ (.tail _ (.head _)) edits rfl, hnone⟩, nofun⟩

/-- The last steps of `setLayout`: no register has the stamp yet. -/
theorem opened_edit (h : H.Honest) (hr : Replica H s) {s₃ : SharedState A} {e : EditInfo A}
    (hrev : s.layoutRev.toNat < e.stamp.rev.toNat) (hroot : e.entry ≠ A.root)
    (ho : Opened s.doc (entryPuts H e.device e.entry e.edits e.fresh ++
      [⟨e.edits, lwwKey e.stamp, .map e.edit⟩]) s₃.doc) :
    Opened s.doc (editPuts H.layout e)
      ((((s₃.writeMonitors e.edit e.monitors).putStamp e.entry e.stamp).putStamp A.root
        e.stamp).writeMonitors e.entry e.monitors).doc := by
  have ho₄ := ho.putList e.edit keyMonitors (e.monitors.map Monitor.fields)
  have hnone : ∀ o, lastPut (entryPuts H e.device e.entry e.edits e.fresh ++
      [⟨e.edits, lwwKey e.stamp, .map e.edit⟩] ++
      [⟨e.edit, keyMonitors, .list (e.monitors.map Monitor.fields)⟩]) o keyLayoutLww = none := by
    intro o
    rw [lastPut_concat, if_neg (fun hat => keyMonitors_ne_lww hat.2), lastPut_concat,
      if_neg (fun hat => lwwKey_ne (by decide) hat.2)]
    exact lastPut_entryPuts (fun id => deviceIdHex_ne (by decide)) keyLayoutEdits_ne_lww
  have hnew₄ : .scalar (encodeLww e.stamp) ∉
      A.getAll (s₃.writeMonitors e.edit e.monitors).doc e.entry keyLayoutLww := by
    intro hmem
    obtain ⟨c, hc⟩ := (ho₄.mem_getAll (hnone e.entry)).1 hmem
    exact hr.not_left_of_greater h hrev hc
  have ho₅ := ho₄.put hnew₄
  have hnone₅ : lastPut (entryPuts H e.device e.entry e.edits e.fresh ++
      [⟨e.edits, lwwKey e.stamp, .map e.edit⟩] ++
      [⟨e.edit, keyMonitors, .list (e.monitors.map Monitor.fields)⟩] ++
      [⟨e.entry, keyLayoutLww, .scalar (encodeLww e.stamp)⟩]) A.root keyLayoutLww = none := by
    rw [lastPut_concat, if_neg (fun hat => hroot hat.1)]
    exact hnone A.root
  have hnew₅ : .scalar (encodeLww e.stamp) ∉
      A.getAll ((s₃.writeMonitors e.edit e.monitors).putStamp e.entry e.stamp).doc A.root
        keyLayoutLww := by
    intro hmem
    obtain ⟨c, hc⟩ := (ho₅.mem_getAll hnone₅).1 hmem
    exact hr.not_left_of_greater h hrev hc
  have ho₇ := (ho₅.put hnew₅).putList e.entry keyMonitors (e.monitors.map Monitor.fields)
  simp only [List.append_assoc] at ho₇
  exact ho₇

/-- **An edit of an honest replica** succeeds. -/
theorem setLayout_edited (h : H.Honest) (hr : Replica H s)
    (hcount : s.historyChangeCount < 2 ^ 64) (device editor : DeviceId) (monitors : List Monitor) :
    (s.setLayout device editor monitors).2 = .ok () ∧
      ∃ c e, Edited H s (s.setLayout device editor monitors).1 c e ∧ e.device = device ∧
        e.stamp = { rev := s.layoutRev.saturatingAdd 1, editor } ∧ e.monitors = monitors := by
  obtain ⟨s₁, s₂, entry, edits, fresh, hlayout, hentry, hsame, hedits, ho₂, hof⟩ :=
    hr.exists_entry h device
  obtain ⟨hentryroot, heditsroot⟩ := hof.ne_root h hr
  let stamp : LayoutStamp := { rev := s.layoutRev.saturatingAdd 1, editor }
  have hnext : stamp.rev.toNat = s.layoutRev.toNat + 1 := hr.toNat_next h hcount
  have hrev : s.layoutRev.toNat < stamp.rev.toNat := by omega
  obtain ⟨s₃, edit, hedit, ho₃⟩ := SharedState.exists_ensureMap ho₂
    (lastPut_entryPuts (fun id => deviceIdHex_ne (by rw [length_lwwKey]; decide))
      (lwwKey_ne (by decide)).symm)
    (fun c v => hr.not_left_stamp h hrev heditsroot)
  let e : EditInfo A := { device, stamp, monitors, entry, edits, edit, fresh }
  have ho₇ := hr.opened_edit h (e := e) hrev hentryroot ho₃
  obtain ⟨c, hnot, hchanges, hknown, hactor, hcommitted, hputs, hpast, hover⟩ :=
    ho₇.commit editPuts_ne_nil
  have hstamp : stamp = { rev := s₁.layoutRev.saturatingAdd 1, editor } := by rw [hsame]
  rw [SharedState.setLayout_eq hlayout hentry hstamp hedits hedit]
  refine ⟨rfl, c, e, ⟨hnot, hchanges, hknown.trans ?_, hactor, hcommitted, hputs, hpast, ?_, hnext,
    hof, by rw [hputs]; exact ho₇.new, by rw [hputs]; exact ho₇.once⟩, rfl, rfl, rfl⟩
  · rw [Finset.union_insert, Finset.union_eq_left.2 (LawfulAutomerge.changes_known s.doc)]
  · intro o k c' hc'
    rw [hputs]
    exact hover o k c' hc'

end Replica

/-! ### The history with the edit stays honest -/

namespace Edited

variable {s' : SharedState A} {c : A.Change} {e : EditInfo A} (he : Edited H s s' c e)

include he

/-- The edit overwrites nothing in the map of the layouts. -/
theorem over_layout (h : H.Honest) (hr : Replica H s) (k : String) :
    A.overwrites c H.layout k = ∅ := by
  refine Finset.eq_empty_of_forall_notMem ?_
  intro c' hover
  obtain ⟨hput, v, hleft⟩ := he.overwrites H.layout k c' hover
  obtain ⟨w, hw⟩ := Option.ne_none_iff_exists'.1 hput
  obtain ⟨hentry, hedits⟩ := he.entry.ne_layout h hr
  have hedit := he.isEditPut (mem_of_lastPut hw)
  generalize hobj : H.layout = o at hedit
  cases hedit with
  | entry hfresh => exact (he.entry.new hfresh).2.2 c' v hleft
  | edits | entryStamp | legacy => exact hentry hobj.symm
  | edit => exact hedits hobj.symm
  | monitors => exact hr.ne_layout_of_new h (he.new _ (he.mem_puts .edit) _ rfl) hobj.symm
  | rootStamp => exact h.layout_ne_root hobj

/-- The edit is greater than every edit of the replica. -/
theorem rev_lt_of_has (h : H.Honest) (hr : Replica H s) {c' : A.Change} (hc' : H.Has s c') :
    (H.info c').stamp.rev.toNat < e.stamp.rev.toNat := by
  have hle := hr.rev_le_layoutRev h hc'
  have hrev := he.rev
  omega

/-- No edit before it has its stamp: the replica has all of its editor's. -/
theorem stamp_ne (h : H.Honest) (hr : Replica H s) (hown : H.Own s e.stamp.editor) {c' : A.Change}
    (hc' : H.IsEdit c') : (H.info c').stamp ≠ e.stamp := by
  intro heq
  have hlt := he.rev_lt_of_has h hr ⟨hown.edits c' hc' (congrArg LayoutStamp.editor heq), hc'.2⟩
  rw [heq] at hlt
  exact lt_irrefl _ hlt

theorem extend_stamp_inj (h : H.Honest) (hr : Replica H s) (hown : H.Own s e.stamp.editor)
    (a b : A.Change) (ha : (H.extend c e).IsEdit a) (hb : (H.extend c e).IsEdit b)
    (hstamp : ((H.extend c e).info a).stamp = ((H.extend c e).info b).stamp) : a = b := by
  have hinfo : ∀ {c'}, c' ∈ H.all → (H.extend c e).info c' = H.info c' :=
    extend_info_of_mem (he.not_mem_all h hr hown)
  rcases isEdit_extend ha with hnew | hold
  · rcases isEdit_extend hb with hnew' | hold'
    · rw [hnew, hnew']
    · rw [hnew, extend_info_self, hinfo hold'.1] at hstamp
      exact absurd hstamp.symm (he.stamp_ne h hr hown hold')
  · rcases isEdit_extend hb with hnew' | hold'
    · rw [hnew', extend_info_self, hinfo hold.1] at hstamp
      exact absurd hstamp (he.stamp_ne h hr hown hold)
    · rw [hinfo hold.1, hinfo hold'.1] at hstamp
      exact h.stamp_inj a b hold hold' hstamp

omit [LawfulAutomerge A] in
/-- The edit makes no object that is there. -/
theorem extend_makes_once (h : H.Honest) (hown : H.Own s e.stamp.editor) :
    ∀ a ∈ (H.extend c e).all, ∀ b ∈ (H.extend c e).all, ∀ p ∈ A.puts a, ∀ p' ∈ A.puts b, ∀ o,
      p.value = .map o → p'.value = .map o → a = b ∧ p = p' := by
  intro a ha b hb p hp p' hp' o hv hv'
  rcases mem_extend.1 ha with hnew | hold
  · rw [hnew] at hp
    rcases mem_extend.1 hb with hnew' | hold'
    · rw [hnew'] at hp'
      exact ⟨hnew.trans hnew'.symm, he.once p hp p' hp' o hv hv'⟩
    · exact absurd (.inr hv') (hown.not_mentions (he.new p hp _ hv) hold' hp')
  · rcases mem_extend.1 hb with hnew' | hold'
    · rw [hnew'] at hp'
      exact absurd (.inr hv) (hown.not_mentions (he.new p' hp' _ hv') hold hp)
    · exact h.makes_once a hold b hold' p hp p' hp' o hv hv'

theorem extend_reused (h : H.Honest) (hr : Replica H s) (hown : H.Own s e.stamp.editor)
    (c' : A.Change) (hc' : (H.extend c e).IsEdit c')
    (hfresh : ((H.extend c e).info c').fresh = false) :
    ∃ m ∈ A.past c', m ≠ H.genesis ∧ ((H.extend c e).info m).fresh = true ∧
      ((H.extend c e).info m).entry = ((H.extend c e).info c').entry ∧
      ((H.extend c e).info m).edits = ((H.extend c e).info c').edits ∧
      ((H.extend c e).info m).device = ((H.extend c e).info c').device := by
  have hinfo : ∀ {c'}, c' ∈ H.all → (H.extend c e).info c' = H.info c' :=
    extend_info_of_mem (he.not_mem_all h hr hown)
  rcases isEdit_extend hc' with rfl | hold
  · rw [extend_info_self] at hfresh ⊢
    obtain ⟨m, hm, hmfresh, hmentry, hmedits, hmdevice⟩ := he.entry.old hfresh
    rw [he.past]
    refine ⟨m, hm.1, hm.2, ?_⟩
    rw [hinfo (hr.all hm.1)]
    exact ⟨hmfresh, hmentry, hmedits, hmdevice⟩
  · rw [hinfo hold.1] at hfresh ⊢
    obtain ⟨m, hm, hne, hrest⟩ := h.reused c' hold hfresh
    exact ⟨m, hm, hne, by rw [hinfo (h.past_all c' hold.1 m hm)]; exact hrest⟩

/-- **The history with the edit is honest.** -/
theorem honest (h : H.Honest) (hr : Replica H s) (hown : H.Own s e.stamp.editor) :
    (H.extend c e).Honest := by
  have hc := he.not_mem_all h hr hown
  have hinfo : ∀ {c'}, c' ∈ H.all → (H.extend c e).info c' = H.info c' := extend_info_of_mem hc
  refine
    { genesis_mem := mem_extend.2 (.inr h.genesis_mem)
      past_genesis := h.past_genesis
      puts_genesis := h.puts_genesis
      makes_layout := h.makes_layout
      puts_edit := ?_
      past_all := ?_
      genesis_past := ?_
      rev_lt := ?_
      rev_pos := ?_
      rev_le := ?_
      over_past := ?_
      over_layout := ?_
      stamp_inj := he.extend_stamp_inj h hr hown
      makes_once := he.extend_makes_once h hown
      not_root := ?_
      reused := he.extend_reused h hr hown }
  · intro c' hc'
    rcases isEdit_extend hc' with rfl | hold
    · rw [extend_info_self]
      exact he.puts
    · rw [hinfo hold.1]
      exact h.puts_edit c' hold
  · intro c' hc' past hpast
    rcases mem_extend.1 hc' with rfl | hold
    · rw [he.past] at hpast
      exact mem_extend.2 (.inr (hr.all hpast))
    · exact mem_extend.2 (.inr (h.past_all c' hold past hpast))
  · intro c' hc'
    rcases isEdit_extend hc' with rfl | hold
    · rw [he.past]
      exact hr.genesis
    · exact h.genesis_past c' hold
  · intro c' hc' past hpast hne
    rcases isEdit_extend hc' with rfl | hold
    · rw [he.past] at hpast
      rw [extend_info_self, hinfo (hr.all hpast)]
      exact he.rev_lt_of_has h hr ⟨hpast, hne⟩
    · rw [hinfo hold.1, hinfo (h.past_all c' hold.1 past hpast)]
      exact h.rev_lt c' hold past hpast hne
  · intro c' hc'
    rcases isEdit_extend hc' with rfl | hold
    · rw [extend_info_self, he.rev]
      exact Nat.succ_pos _
    · rw [hinfo hold.1]
      exact h.rev_pos c' hold
  · intro c' hc'
    rcases isEdit_extend hc' with rfl | hold
    · rw [extend_info_self, he.rev, he.past, ← hr.historyChangeCount_eq]
      exact hr.layoutRev_lt_count h
    · rw [hinfo hold.1]
      exact h.rev_le c' hold
  · intro c' hc' o k past hover
    rcases mem_extend.1 hc' with rfl | hold
    · obtain ⟨hput, v, hleft⟩ := he.overwrites o k past hover
      rw [he.past]
      exact ⟨hleft.1, hput⟩
    · exact h.over_past c' hold o k past hover
  · intro c' hc' k
    rcases mem_extend.1 hc' with rfl | hold
    · exact he.over_layout h hr k
    · exact h.over_layout c' hold k
  · intro c' hc' p hp hv
    rcases mem_extend.1 hc' with rfl | hold
    · exact (he.new p hp _ hv).ne_root rfl
    · exact h.not_root c' hold p hp hv

/-! ### Objects of the edit -/

/-- An object that the edit has to do with is new, or is in the document. -/
theorem mentions (h : H.Honest) (hr : Replica H s) {p : Put A.Obj} (hp : p ∈ A.puts c) {o : A.Obj}
    (ho : p.Mentions o) :
    o = A.root ∨ New s.doc o ∨ ∃ c' ∈ A.changes s.doc, ∃ p' ∈ A.puts c', p'.Mentions o := by
  rcases ho with hobj | hv
  · cases he.isEditPut hp with
    | entry =>
      exact .inr (.inr ⟨H.genesis, hr.genesis, _, h.makes_layout, .inr (congrArg Value.map hobj)⟩)
    | edits | entryStamp | legacy => exact .inr (he.entry.known h hr (.inl hobj.symm))
    | edit => exact .inr (he.entry.known h hr (.inr hobj.symm))
    | monitors =>
      refine .inr (.inl ?_)
      rw [← show e.edit = o from hobj]
      exact he.new _ (he.mem_puts .edit) _ rfl
    | rootStamp => exact .inl hobj.symm
  · exact .inr (.inl (he.new p hp o hv))

/-- Another device made nothing. -/
theorem own_other (h : H.Honest) (hr : Replica H s) {t : SharedState A} {editor : DeviceId}
    (hown : H.Own t editor) (hc : c ∉ H.all) (heditor : e.stamp.editor ≠ editor)
    (hactor : A.actor s.doc ≠ A.actor t.doc) : (H.extend c e).Own t editor := by
  refine ⟨?_, ?_⟩
  · intro c' hc' heq
    rcases isEdit_extend hc' with rfl | hold
    · rw [extend_info_self] at heq
      exact absurd heq heditor
    · rw [extend_info_of_mem hc hold.1] at heq
      exact hown.edits c' hold heq
  · intro c' hc' p hp o ho hmaker
    rcases mem_extend.1 hc' with rfl | hold
    · rcases he.mentions h hr hp ho with rfl | hnew | ⟨c'', hc'', p'', hp'', ho''⟩
      · exact absurd (hmaker.symm.trans LawfulAutomerge.maker_root) (Option.some_ne_none _)
      · exact absurd (Option.some.inj (hnew.maker.symm.trans hmaker)) hactor
      · exact hown.objects c'' (hr.all hc'') p'' hp'' o ho'' hmaker
    · exact hown.objects c' hold p hp o ho hmaker

/-! ### What the replica reads after the edit -/

/-- The edit is the greatest of the replica. -/
theorem greatest (h : H.Honest) (hr : Replica H s) (hc : c ∉ H.all) {c' : A.Change}
    (hc' : (H.extend c e).Has s' c') : ((H.extend c e).info c').stamp ≤ e.stamp := by
  obtain ⟨hmem, hne⟩ := hc'
  rw [he.changes] at hmem
  rcases Finset.mem_insert.1 hmem with rfl | hold
  · rw [extend_info_self]
  · rw [extend_info_of_mem hc (hr.all hold)]
    have hle := hr.rev_le_layoutRev h ⟨hold, hne⟩
    have hrev := he.rev
    exact LayoutStamp.le_iff.2 (.inl (by omega))

/-- **The edit is the resolved one.** -/
theorem resolved (h : H.Honest) (hr : Replica H s) (hown : H.Own s e.stamp.editor) :
    s'.resolvedLwwAt A.root = e.stamp := by
  have hc := he.not_mem_all h hr hown
  have hr' := he.replica_self hr
  obtain ⟨hall, hfound⟩ := hr'.resolved_at (he.honest h hr hown) A.root
  have hle := hall c (he.has_self hr) (.inl rfl)
  rw [extend_info_self] at hle
  refine le_antisymm ?_ hle
  rcases hfound with hnone | ⟨c', hc', -, hstamp⟩
  · rw [hnone]
    exact LayoutStamp.le_iff.2 (.inl (by rw [he.rev]; exact Nat.succ_pos _))
  · rw [← hstamp]
    exact he.greatest h hr hc hc'

theorem layout_eq (h : H.Honest) (hr : Replica H s) (hown : H.Own s e.stamp.editor) :
    s'.layout e.device = .ok e.monitors := by
  have hc := he.not_mem_all h hr hown
  have hread := (he.replica_self hr).layout_of_greatest (he.honest h hr hown) (he.has_self hr)
    fun c' hc' _ => by
      rw [extend_info_self]
      exact he.greatest h hr hc hc'
  rw [extend_info_self] at hread
  exact hread

end Edited

end History

end Mouser
