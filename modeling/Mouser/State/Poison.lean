import Mouser.Lib.Machine
import Mouser.State.Graph
import Mouser.State.History

/-!
# Hostile revisions

A replica that takes changes of any kind: a register may hold any revision, and the one reported is
the greatest, each counted for no more than the number of changes. What is reported depends on the
changes alone. It goes down only where a change writes over a revision one that is lower than it and
than the number of changes (`Keeps`): `u64::MAX` is reported as the number of changes of the replica
that reads it, and a peer with fewer changes writes a revision over it that goes by its own.
-/

namespace Mouser

namespace Automerge

variable {A : Automerge} {d d' d'' : A.Doc} {o : A.Obj} {k : String}

/-- The document `d'` is `d` with more in its transaction, but no layout stamp. -/
structure Quiet (d d' : A.Doc) : Prop where
  changes : A.changes d' = A.changes d
  lastPut : ∀ o, lastPut (A.pending d') o keyLayoutLww = lastPut (A.pending d) o keyLayoutLww
  open_of : A.pending d ≠ [] → A.pending d' ≠ []

theorem Quiet.refl (d : A.Doc) : Quiet d d := ⟨rfl, fun _ => rfl, id⟩

theorem Quiet.trans (h : Quiet d d') (h' : Quiet d' d'') : Quiet d d'' :=
  ⟨h'.changes.trans h.changes, fun o => (h'.lastPut o).trans (h.lastPut o), h'.open_of ∘ h.open_of⟩

/-- One more put, at another key. -/
theorem Quiet.concat {p : Put A.Obj} (hchanges : A.changes d' = A.changes d)
    (hpending : A.pending d' = A.pending d ++ [p]) (hkey : p.key ≠ keyLayoutLww) : Quiet d d' := by
  refine ⟨hchanges, ?_, ?_⟩
  · intro o
    rw [hpending, lastPut_concat, if_neg (fun hat => hkey hat.2)]
  · intro _
    rw [hpending]
    exact List.concat_ne_nil p _

variable [LawfulAutomerge A]

/-- A commit changes no value. -/
theorem mem_getAll_commit {v : Value A.Obj} :
    v ∈ A.getAll (A.commit d) o k ↔ v ∈ A.getAll d o k := by
  obtain ⟨-, -, hcommitted⟩ := LawfulAutomerge.commit (A := A) d
  rw [mem_getAll_of_committed hcommitted]
  by_cases hp : A.pending d = []
  · rw [LawfulAutomerge.commit_empty d hp, mem_getAll_of_committed hp]
  obtain ⟨c, hnot, hchanges, hputs, hpast, hover⟩ := LawfulAutomerge.commit_change d hp
  rw [LawfulAutomerge.mem_getAll, hchanges]
  have hold : ∀ c' ∈ A.changes d, c ∉ A.overwrites c' o k := by
    intro c' hc' hmem
    exact hnot (LawfulAutomerge.past_subset d c' hc' (LawfulAutomerge.over_past c' o k hmem))
  cases hput : lastPut (A.pending d) o k with
  | some w =>
    constructor
    · rintro ⟨c', hc', hv, hleft⟩
      rcases Finset.mem_insert.1 hc' with rfl | hmem
      · rw [hputs, hput] at hv
        exact (Option.some.inj hv).symm
      · refine absurd ((hover o k c').2 ⟨?_, v, hmem, hv, ?_⟩)
          (hleft c (Finset.mem_insert_self c _))
        · rw [hput]
          exact Option.some_ne_none w
        · exact fun c'' hc'' => hleft c'' (Finset.mem_insert_of_mem hc'')
    · rintro rfl
      refine ⟨c, Finset.mem_insert_self c _, by rw [hputs, hput], ?_⟩
      intro c' hc' hmem
      rcases Finset.mem_insert.1 hc' with rfl | hc'
      · exact LawfulAutomerge.not_mem_past c' (LawfulAutomerge.over_past c' o k hmem)
      · exact hold c' hc' hmem
  | none =>
    constructor
    · rintro ⟨c', hc', hv, hleft⟩
      rcases Finset.mem_insert.1 hc' with rfl | hmem
      · rw [hputs, hput] at hv
        cases hv
      · exact ⟨c', hmem, hv, fun c'' hc'' => hleft c'' (Finset.mem_insert_of_mem hc'')⟩
    · rintro ⟨c', hc', hv, hleft⟩
      refine ⟨c', Finset.mem_insert_of_mem hc', hv, ?_⟩
      intro c'' hc'' hmem
      rcases Finset.mem_insert.1 hc'' with rfl | hc''
      · exact ((hover o k c').1 hmem).1 hput
      · exact hleft c'' hc'' hmem

/-- The changes with the one that the open transaction will be. -/
theorem card_commit (d : A.Doc) :
    (A.changes (A.commit d)).card =
      if A.pending d = [] then (A.changes d).card else (A.changes d).card + 1 := by
  split
  · next hp => rw [LawfulAutomerge.commit_empty d hp]
  · next hp =>
    obtain ⟨c, hnot, hchanges, -⟩ := LawfulAutomerge.commit_change d hp
    rw [hchanges, Finset.card_insert_of_notMem hnot]

theorem Quiet.mem_getAll (h : Quiet d d') {v : Value A.Obj} :
    v ∈ A.getAll d' o keyLayoutLww ↔ v ∈ A.getAll d o keyLayoutLww := by
  rw [LawfulAutomerge.mem_getAll, LawfulAutomerge.mem_getAll, h.lastPut, h.changes]

theorem Quiet.card_le (h : Quiet d d') :
    (A.changes (A.commit d)).card ≤ (A.changes (A.commit d')).card := by
  rw [card_commit, card_commit, h.changes]
  split
  · split <;> omega
  · next hp => rw [if_neg (h.open_of hp)]

end Automerge

namespace SharedState

open Automerge

variable {A : Automerge} {s s' : SharedState A}

/-! ## What is reported -/

/-- The stamp that a value stands for. -/
def stampIn (value : Value A.Obj) : Option LayoutStamp :=
  match value with
  | .scalar (.str text) => decodeLww text
  | _ => none

theorem candidate?_eq (cap : UInt64) (value : Value A.Obj) :
    candidate? cap value =
      (stampIn value).map fun cand => { cand with rev := min cand.rev cap } := by
  cases value with
  | scalar x => cases x <;> rfl
  | map | list => rfl

theorem stampIn_encodeLww (stamp : LayoutStamp) :
    stampIn (A := A) (.scalar (encodeLww stamp)) = some stamp :=
  decodeLww_lwwKey stamp

theorem toNat_min_cap (rev : UInt64) (s : SharedState A) :
    (min rev s.causalLayoutRevCap).toNat = min rev.toNat s.historyChangeCount := by
  have hmax := rev.toNat_lt
  rw [UInt64.toNat_min, causalLayoutRevCap, UInt64.toNat_ofNatClamp]
  omega

/-- Every stamp of the register counts. -/
theorem le_layoutRev {v : Value A.Obj} (hv : v ∈ A.getAll s.doc A.root keyLayoutLww)
    {stamp : LayoutStamp} (hstamp : stampIn v = some stamp) :
    min stamp.rev.toNat s.historyChangeCount ≤ s.layoutRev.toNat := by
  have hcand := (s.resolvedLwwAt_spec A.root).2.1 v hv
    { stamp with rev := min stamp.rev s.causalLayoutRevCap } (by rw [candidate?_eq, hstamp]; rfl)
  rw [← toNat_min_cap]
  exact LayoutStamp.rev_le_of_le hcand

/-- What is reported is one of them. -/
theorem layoutRev_cases (s : SharedState A) :
    s.layoutRev.toNat = 0 ∨ ∃ v ∈ A.getAll s.doc A.root keyLayoutLww, ∃ stamp,
      stampIn v = some stamp ∧ s.layoutRev.toNat = min stamp.rev.toNat s.historyChangeCount := by
  rcases (s.resolvedLwwAt_spec A.root).2.2 with hnone | ⟨v, hv, hcand⟩
  · exact .inl (by rw [layoutRev, hnone]; rfl)
  · rw [candidate?_eq] at hcand
    obtain ⟨stamp, hstamp, heq⟩ := Option.map_eq_some_iff.1 hcand
    refine .inr ⟨v, hv, stamp, hstamp, ?_⟩
    rw [layoutRev, ← heq, toNat_min_cap]

theorem layoutRev_le_count (s : SharedState A) : s.layoutRev.toNat ≤ s.historyChangeCount := by
  rcases s.layoutRev_cases with hzero | ⟨v, -, stamp, -, heq⟩
  · omega
  · omega

/-- A register whose stamps are all matched in another. -/
theorem layoutRev_le
    (h : ∀ v ∈ A.getAll s.doc A.root keyLayoutLww, ∀ stamp, stampIn v = some stamp →
      ∃ v' ∈ A.getAll s'.doc A.root keyLayoutLww, ∃ stamp', stampIn v' = some stamp' ∧
        min stamp.rev.toNat s.historyChangeCount ≤ min stamp'.rev.toNat s'.historyChangeCount) :
    s.layoutRev.toNat ≤ s'.layoutRev.toNat := by
  rcases s.layoutRev_cases with hzero | ⟨v, hv, stamp, hstamp, heq⟩
  · omega
  · obtain ⟨v', hv', stamp', hstamp', hle⟩ := h v hv stamp hstamp
    have hcount := le_layoutRev hv' hstamp'
    omega

/-- The changes of a replica, as it hands them out. -/
def changeSet (s : SharedState A) : Finset A.Change := A.changes (A.commit s.doc)

variable [LawfulAutomerge A]

/-- **The same changes, the same revision.** -/
theorem layoutRev_le_of_changeSet_eq (h : s.changeSet = s'.changeSet) :
    s.layoutRev.toNat ≤ s'.layoutRev.toNat := by
  refine layoutRev_le ?_
  intro v hv stamp hstamp
  refine ⟨v, ?_, stamp, hstamp, ?_⟩
  · rw [← mem_getAll_commit] at hv ⊢
    obtain ⟨-, -, hp⟩ := LawfulAutomerge.commit (A := A) s.doc
    obtain ⟨-, -, hp'⟩ := LawfulAutomerge.commit (A := A) s'.doc
    rw [mem_getAll_of_committed hp, show A.changes (A.commit s.doc) = _ from h] at hv
    exact (mem_getAll_of_committed hp').2 hv
  · rw [historyChangeCount_eq_card, historyChangeCount_eq_card,
      show A.changes (A.commit s.doc) = _ from h]
    rfl

/-! ## Edits -/

theorem layoutRev_le_of_quiet (h : Quiet s.doc s'.doc) :
    s.layoutRev.toNat ≤ s'.layoutRev.toNat := by
  refine layoutRev_le ?_
  intro v hv stamp hstamp
  refine ⟨v, h.mem_getAll.2 hv, stamp, hstamp, ?_⟩
  have hcard := h.card_le
  rw [historyChangeCount_eq_card, historyChangeCount_eq_card]
  omega

theorem ensureMap_quiet (s : SharedState A) (parent : A.Obj) (key : String)
    (hkey : key ≠ keyLayoutLww) : Quiet s.doc (s.ensureMap parent key).1.doc := by
  obtain ⟨hchanges, -, -, hpending⟩ := LawfulAutomerge.putMap (A := A) s.doc parent key
  unfold ensureMap
  split
  · exact .refl s.doc
  · exact .refl s.doc
  · exact .concat hchanges hpending hkey
  · exact .concat hchanges hpending hkey

theorem writeMonitors_quiet (s : SharedState A) (entry : A.Obj) (monitors : List Monitor) :
    Quiet s.doc (s.writeMonitors entry monitors).doc := by
  obtain ⟨hchanges, -, -, hpending⟩ :=
    LawfulAutomerge.putList (A := A) s.doc entry keyMonitors (monitors.map Monitor.fields)
  exact .concat hchanges hpending keyMonitors_ne_lww

/-- The register after a put. -/
theorem mem_getAll_putStamp (s : SharedState A) (parent : A.Obj) (stamp : LayoutStamp)
    {v : Value A.Obj} : v ∈ A.getAll (s.putStamp parent stamp).doc parent keyLayoutLww ↔
      v = .scalar (encodeLww stamp) := by
  obtain ⟨hchanges, -, -, hput | ⟨hsame, hpending⟩⟩ :=
    LawfulAutomerge.put (A := A) s.doc parent keyLayoutLww (encodeLww stamp)
  · rw [LawfulAutomerge.mem_getAll, putStamp, hput, lastPut_concat, if_pos ⟨rfl, rfl⟩]
  · have hiff : v ∈ A.getAll (s.putStamp parent stamp).doc parent keyLayoutLww ↔
        v ∈ A.getAll s.doc parent keyLayoutLww := by
      rw [LawfulAutomerge.mem_getAll, LawfulAutomerge.mem_getAll, putStamp, hpending, hchanges]
    rw [hiff, hsame, List.mem_singleton]

/-- What an edit writes over. -/
theorem changes_putStamp (s : SharedState A) (parent : A.Obj) (stamp : LayoutStamp) :
    A.changes (s.putStamp parent stamp).doc = A.changes s.doc :=
  (LawfulAutomerge.put (A := A) s.doc parent keyLayoutLww (encodeLww stamp)).1

/-- The last steps of an edit: its stamp is the register, and its change is counted. -/
theorem le_layoutRev_stamped (s : SharedState A) (entry edit : A.Obj) (stamp : LayoutStamp)
    (monitors : List Monitor) :
    min stamp.rev.toNat ((A.changes s.doc).card + 1) ≤
      (((((s.writeMonitors edit monitors).putStamp entry stamp).putStamp A.root
        stamp).writeMonitors entry monitors).commit).layoutRev.toNat := by
  have hquiet := (((s.writeMonitors edit monitors).putStamp entry stamp).putStamp A.root
    stamp).writeMonitors_quiet entry monitors
  have hopen : A.pending ((((s.writeMonitors edit monitors).putStamp entry stamp).putStamp A.root
      stamp).writeMonitors entry monitors).doc ≠ [] := by
    obtain ⟨-, -, -, hpending⟩ := LawfulAutomerge.putList (A := A)
      (((s.writeMonitors edit monitors).putStamp entry stamp).putStamp A.root stamp).doc entry
      keyMonitors (monitors.map Monitor.fields)
    rw [writeMonitors, hpending]
    exact List.concat_ne_nil _ _
  have hchanges := hquiet.changes
  rw [changes_putStamp, changes_putStamp, (s.writeMonitors_quiet edit monitors).changes] at hchanges
  have hmem := (mem_getAll_commit.trans hquiet.mem_getAll).2
    ((mem_getAll_putStamp _ A.root stamp).2 rfl)
  have hle := le_layoutRev (s := SharedState.commit _) hmem (stampIn_encodeLww stamp)
  obtain ⟨-, -, hcommitted⟩ := LawfulAutomerge.commit (A := A)
    ((((s.writeMonitors edit monitors).putStamp entry stamp).putStamp A.root stamp).writeMonitors
      entry monitors).doc
  rw [historyChangeCount_eq_card, commit, card_commit, if_pos hcommitted, card_commit,
    if_neg hopen, hchanges] at hle
  exact hle

/-- **An edit never lowers the revision**, whatever the document holds. -/
theorem layoutRev_le_setLayout (s : SharedState A) (device editor : DeviceId)
    (monitors : List Monitor) :
    s.layoutRev.toNat ≤ (s.setLayout device editor monitors).1.layoutRev.toNat := by
  unfold setLayout
  have hlayout := s.ensureMap_quiet A.root keyLayout (by decide)
  split
  · next s₀ e heq =>
    rw [show s.ensureMap A.root keyLayout = _ from heq] at hlayout
    exact layoutRev_le_of_quiet hlayout
  next s₀ layout heq =>
  rw [show s.ensureMap A.root keyLayout = _ from heq] at hlayout
  have hentry := s₀.ensureMap_quiet layout (deviceIdHex device) (deviceIdHex_ne (by decide))
  split
  · next s₁ e heq =>
    rw [heq] at hentry
    exact layoutRev_le_of_quiet (hlayout.trans hentry)
  next s₁ entry heq =>
  rw [heq] at hentry
  have hs₁ := hlayout.trans hentry
  have hedits := s₁.ensureMap_quiet entry keyLayoutEdits keyLayoutEdits_ne_lww
  dsimp only
  split
  · next s₂ e heq =>
    rw [heq] at hedits
    exact layoutRev_le_of_quiet (hs₁.trans hedits)
  next s₂ edits heq =>
  rw [heq] at hedits
  have hedit := s₂.ensureMap_quiet edits
    (lwwKey { rev := s₁.layoutRev.saturatingAdd 1, editor }) (lwwKey_ne (by decide))
  split
  · next s₃ e heq =>
    rw [heq] at hedit
    exact layoutRev_le_of_quiet (hs₁.trans (hedits.trans hedit))
  next s₃ edit heq =>
  rw [heq] at hedit
  -- the new stamp is above what was read, and is not counted for less
  have hle := s₃.le_layoutRev_stamped entry edit
    { rev := s₁.layoutRev.saturatingAdd 1, editor } monitors
  have hpre := layoutRev_le_of_quiet hs₁
  have hcount := s₁.layoutRev_le_count
  have hsame : A.changes s₃.doc = A.changes s₁.doc := (hedits.trans hedit).changes
  rw [historyChangeCount_eq_card, card_commit, ← hsame] at hcount
  have hnext := UInt64.le_iff_toNat_le.1 (UInt64.le_saturatingAdd s₁.layoutRev 1)
  have hcard : s₁.layoutRev.toNat ≤ (A.changes s₃.doc).card + 1 := by
    split at hcount <;> omega
  exact hpre.trans ((le_min hnext hcard).trans hle)

/-! ## Changes of others -/

/-- The stamp that a change writes to the layout register. -/
def writes (c : A.Change) : Option LayoutStamp :=
  (lastPut (A.puts c) A.root keyLayoutLww).bind stampIn

/-- No change that `D'` has and `D` has not writes a lower revision over one of the layout register,
lower than it and than `n`. -/
def Keeps (n : ℕ) (D D' : Finset A.Change) : Prop :=
  ∀ c' ∈ D', c' ∉ D → ∀ c ∈ A.overwrites c' A.root keyLayoutLww, ∀ stamp ∈ writes c,
    ∃ stamp' ∈ writes c', min stamp.rev.toNat n ≤ stamp'.rev.toNat

instance (n : ℕ) (D D' : Finset A.Change) : Decidable (Keeps n D D') :=
  inferInstanceAs (Decidable (∀ c' ∈ D', c' ∉ D → ∀ c ∈ A.overwrites c' A.root keyLayoutLww,
    ∀ stamp ∈ writes c, ∃ stamp' ∈ writes c', min stamp.rev.toNat n ≤ stamp'.rev.toNat))

/-- **The register keeps what it counts for**: the changes that overwrite a stamp, and those that
overwrite these, write no less. -/
theorem exists_left_of_keeps {n : ℕ} {D D' : Finset A.Change} (hsub : D ⊆ D')
    (hpast : ∀ c ∈ D, A.past c ⊆ D) (hkeeps : Keeps n D D') {c : A.Change} {v : Value A.Obj}
    (hc : A.Left D A.root keyLayoutLww c v) {stamp : LayoutStamp}
    (hstamp : stampIn v = some stamp) :
    ∃ c' v', A.Left D' A.root keyLayoutLww c' v' ∧ ∃ stamp', stampIn v' = some stamp' ∧
      min stamp.rev.toNat n ≤ stamp'.rev.toNat := by
  classical
  obtain ⟨depth, hdepth⟩ := LawfulAutomerge.past_acyclic (A := A)
  have hself : c ∈ D'.filter fun c' => (c' = c ∨ c' ∉ D) ∧
      ∃ stamp' ∈ writes c', min stamp.rev.toNat n ≤ stamp'.rev.toNat := by
    refine Finset.mem_filter.2 ⟨hsub hc.1, .inl rfl, stamp, ?_, min_le_left _ _⟩
    rw [writes, hc.2.1]
    exact hstamp
  -- the last of them is not overwritten
  obtain ⟨last, hlast, hmax⟩ := Finset.exists_max_image _ depth ⟨c, hself⟩
  obtain ⟨hmem, hnew, stamp', hwrites, hle⟩ := Finset.mem_filter.1 hlast
  obtain ⟨v', hput, hstamp'⟩ := Option.bind_eq_some_iff.1 hwrites
  refine ⟨last, v', ⟨hmem, hput, ?_⟩, stamp', hstamp', hle⟩
  intro c' hc' hover
  have hbefore := LawfulAutomerge.over_past c' A.root keyLayoutLww hover
  have hcnew : c' ∉ D := by
    intro hold
    rcases hnew with rfl | hnot
    · exact hc.2.2 c' hold hover
    · exact hnot (hpast c' hold hbefore)
  obtain ⟨stamp'', hwrites', hle'⟩ := hkeeps c' hc' hcnew last hover stamp' hwrites
  have hagain := hmax c' (Finset.mem_filter.2 ⟨hc', .inr hcnew, stamp'', hwrites', by omega⟩)
  have hlt := hdepth c' last hbefore
  omega

theorem layoutRev_le_of_keeps (hsub : s.changeSet ⊆ s'.changeSet)
    (hkeeps : Keeps s.historyChangeCount s.changeSet s'.changeSet) :
    s.layoutRev.toNat ≤ s'.layoutRev.toNat := by
  obtain ⟨-, -, hp⟩ := LawfulAutomerge.commit (A := A) s.doc
  obtain ⟨-, -, hp'⟩ := LawfulAutomerge.commit (A := A) s'.doc
  have hcard := Finset.card_le_card hsub
  refine layoutRev_le ?_
  intro v hv stamp hstamp
  obtain ⟨c, hc⟩ := (mem_getAll_of_committed hp).1 (mem_getAll_commit.2 hv)
  obtain ⟨c', v', hleft, stamp', hstamp', hle⟩ := exists_left_of_keeps hsub
    (LawfulAutomerge.past_subset (A.commit s.doc)) hkeeps hc hstamp
  refine ⟨v', mem_getAll_commit.1 ((mem_getAll_of_committed hp').2 ⟨c', hleft⟩), stamp', hstamp',
    ?_⟩
  rw [changeSet, changeSet, ← historyChangeCount_eq_card, ← historyChangeCount_eq_card] at hcard
  omega

theorem changeSet_applyItems (s : SharedState A) (sawValidChange : Bool)
    (firstDecodeError : Option StateError) (items : List (Except StateError A.Change)) :
    s.changeSet ⊆ (s.applyItems sawValidChange firstDecodeError items).1.changeSet := by
  induction items generalizing s sawValidChange firstDecodeError with
  | nil => exact subset_rfl
  | cons item items ih =>
    cases item with
    | error e => exact ih s sawValidChange (firstDecodeError.or (some e))
    | ok change =>
      obtain ⟨hchanges, -⟩ := LawfulAutomerge.applyChange (A := A) s.doc change
      have hone : s.changeSet ⊆ A.changes (A.commit (A.applyChange s.doc change).1) :=
        hchanges.trans (changes_subset_commit _)
      rw [applyItems]
      split
      · next h =>
        rw [h] at hone
        exact hone.trans (ih _ true firstDecodeError)
      · next h =>
        rw [h] at hone
        exact hone.trans (ih _ true firstDecodeError)
      · next h =>
        rw [h] at hone
        exact hone

/-- The condition is sharp: a change that is written over the whole register lowers the revision
just where it does not keep what the register counts for. -/
theorem layoutRev_lt_iff_of_over {c : A.Change} {stamp' : LayoutStamp}
    (hadd : s'.changeSet = insert c s.changeSet) (hnew : c ∉ s.changeSet)
    (hover : ∀ c', c' ∈ A.overwrites c A.root keyLayoutLww ↔
      ∃ v, A.Left s.changeSet A.root keyLayoutLww c' v)
    (hwrites : writes c = some stamp') :
    s'.layoutRev.toNat < s.layoutRev.toNat ↔
      ¬ Keeps s.historyChangeCount s.changeSet s'.changeSet := by
  have hsub : s.changeSet ⊆ s'.changeSet := by
    rw [hadd]
    exact Finset.subset_insert c _
  obtain ⟨-, -, hp⟩ := LawfulAutomerge.commit (A := A) s.doc
  obtain ⟨-, -, hp'⟩ := LawfulAutomerge.commit (A := A) s'.doc
  constructor
  · intro hlt hkeeps
    exact absurd (layoutRev_le_of_keeps hsub hkeeps) (by omega)
  · intro hkeeps
    -- the new stamp is all that the register holds
    have hle : s'.layoutRev.toNat ≤ stamp'.rev.toNat := by
      rcases s'.layoutRev_cases with hzero | ⟨v, hv, stamp, hstamp, heq⟩
      · omega
      obtain ⟨c', hmem, hput, hleft⟩ := (mem_getAll_of_committed hp').1 (mem_getAll_commit.2 hv)
      rw [show A.changes (A.commit s'.doc) = _ from hadd] at hmem hleft
      rcases Finset.mem_insert.1 hmem with rfl | hold
      · rw [writes, hput, Option.bind_some, hstamp] at hwrites
        rw [heq, Option.some.inj hwrites]
        exact min_le_left _ _
      · refine absurd ((hover c').2 ⟨v, hold, hput, ?_⟩) (hleft c (Finset.mem_insert_self c _))
        exact fun c'' hc'' => hleft c'' (Finset.mem_insert_of_mem hc'')
    -- and is below one that it is written over
    unfold Keeps at hkeeps
    push Not at hkeeps
    obtain ⟨c', hc', hnot, c₀, hc₀, stamp, hstamp, hlow⟩ := hkeeps
    rw [hadd] at hc'
    obtain rfl : c' = c := (Finset.mem_insert.1 hc').resolve_right hnot
    obtain ⟨v, hleft⟩ := (hover c₀).1 hc₀
    have hin : stampIn v = some stamp := by
      rw [Option.mem_def, writes, hleft.2.1, Option.bind_some] at hstamp
      exact hstamp
    have hcounts := le_layoutRev
      (mem_getAll_commit.1 ((mem_getAll_of_committed hp).2 ⟨c₀, hleft⟩)) hin
    have hlt := hlow stamp' hwrites
    omega

end SharedState

/-! ## Runs -/

/-- A call on a replica. The items are what the bytes of a peer decode to. -/
inductive StateCall (A : Automerge) where
  | setLayout (device editor : DeviceId) (monitors : List Monitor)
  | applyChanges (items : List (Except StateError A.Change))

namespace SharedState

open Automerge

variable {A : Automerge}

def step (s : SharedState A) : StateCall A → SharedState A × Except StateError Unit
  | .setLayout device editor monitors => s.setLayout device editor monitors
  | .applyChanges items => s.applyChanges items

def machine (A : Automerge) : Machine (SharedState A) (StateCall A) (Except StateError Unit) :=
  ⟨step⟩

/-- **The revision never goes down**, in a run whose changes keep what the register counts for; and
replicas with the same changes report the same. -/
theorem layoutRev_never_decreases [LawfulAutomerge A] (s : SharedState A)
    (calls : List (StateCall A))
    (hkeeps : ∀ e ∈ (machine A).trace s calls, ∀ items, e.input = .applyChanges items →
      Keeps e.pre.historyChangeCount e.pre.changeSet e.post.changeSet) :
    (∀ e ∈ (machine A).trace s calls, e.pre.layoutRev ≤ e.post.layoutRev) ∧
      ∀ s' : SharedState A, s'.changeSet = ((machine A).exec s calls).changeSet →
        s'.layoutRev = ((machine A).exec s calls).layoutRev := by
  refine ⟨?_, ?_⟩
  · intro e he
    have hentry := (machine A).entry_of_mem he
    have hkeep := hkeeps e he
    rw [UInt64.le_iff_toNat_le]
    cases hinput : e.input with
    | setLayout device editor monitors =>
      rw [hentry, hinput]
      exact e.pre.layoutRev_le_setLayout device editor monitors
    | applyChanges items =>
      have hpost : e.post = (e.pre.applyChanges items).1 := by rw [hentry, hinput]; rfl
      refine layoutRev_le_of_keeps ?_ (hkeep items hinput)
      rw [hpost]
      exact changeSet_applyItems e.pre false none items
  · intro s' hsame
    exact UInt64.toNat_inj.1 (le_antisymm (layoutRev_le_of_changeSet_eq hsame)
      (layoutRev_le_of_changeSet_eq hsame.symm))

/-! ### A poisoned revision -/

def fresh (actor : ℕ) : SharedState Graph.automerge := .new (A := Graph.automerge) (0 : ℕ) actor

/-- A hostile change: a stamp with the greatest revision. -/
def poison : Graph.Change where
  actor := 3
  puts := [⟨.root, keyLayoutLww, .scalar (encodeLww { rev := .maxValue, editor := .fill 250 })⟩]
  past := .ofList (fresh 3).doc.changes

/-- A peer that edits the layout over it. -/
def peer : SharedState Graph.automerge :=
  (machine Graph.automerge).exec (fresh 2)
    [.applyChanges [.ok poison], .setLayout (.fill 2) (.fill 2) []]

/-- A replica with three edits of its own takes the hostile change, and then the peer's. -/
def victimCalls : List (StateCall Graph.automerge) :=
  [.setLayout (.fill 1) (.fill 1) [], .setLayout (.fill 1) (.fill 1) [],
   .setLayout (.fill 1) (.fill 1) [], .applyChanges [.ok poison],
   .applyChanges ((Graph.automerge.getChanges peer.doc).map .ok)]

theorem poison_rolls_back :
    ((machine Graph.automerge).exec (fresh 1) victimCalls.dropLast).layoutRev = 5 ∧
      ((machine Graph.automerge).exec (fresh 1) victimCalls).layoutRev = 4 ∧
      ¬ ∀ e ∈ (machine Graph.automerge).trace (fresh 1) victimCalls,
        e.pre.layoutRev ≤ e.post.layoutRev := by
  decide +kernel

theorem layoutRev_never_decreases_poison :
    ((machine Graph.automerge).trace (fresh 1) (victimCalls.take 4)).Forall fun e =>
      e.pre.layoutRev ≤ e.post.layoutRev := by
  have hkeeps : ∀ e ∈ (machine Graph.automerge).trace (fresh 1) (victimCalls.take 4),
      Keeps e.pre.historyChangeCount e.pre.changeSet e.post.changeSet := by
    decide +kernel
  exact List.forall_iff_forall_mem.2 (layoutRev_never_decreases (fresh 1) (victimCalls.take 4)
    fun e he _ _ => hkeeps e he).1

end SharedState

end Mouser
