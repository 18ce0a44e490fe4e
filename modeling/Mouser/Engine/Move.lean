import Mouser.Engine.Effect

/-!
# What a call does to ownership

`Move` is the view of a call that two connected cores have of each other: the owner and the epoch
it leaves, the claims and the answers it sends. A call keeps ownership, mints the next epoch, or
adopts or refuses the claim it was handed. `move_of_effect` reads a move off the effect of a call,
on a core that satisfies the invariant `Solo`.
-/

namespace Mouser

/-- The control frames among the actions of a call. -/
def frames (acts : List Action) : List ControlFrame :=
  acts.filterMap fun
    | .sendControl f => some f
    | _ => none

/-- The ownership claims among the frames. -/
def transfers (fs : List ControlFrame) : List OwnershipTransfer :=
  fs.filterMap fun
    | .ownershipTransfer payload => payload
    | _ => none

/-- The answers among the frames. -/
def answers (fs : List ControlFrame) : List OwnershipAck :=
  fs.filterMap fun
    | .ownershipAck payload => payload
    | _ => none

@[simp] theorem frames_append (as bs : List Action) : frames (as ++ bs) = frames as ++ frames bs :=
  List.filterMap_append

@[simp] theorem transfers_append (fs gs : List ControlFrame) :
    transfers (fs ++ gs) = transfers fs ++ transfers gs :=
  List.filterMap_append

@[simp] theorem answers_append (fs gs : List ControlFrame) :
    answers (fs ++ gs) = answers fs ++ answers gs :=
  List.filterMap_append

theorem transfers_cons (f : ControlFrame) (fs : List ControlFrame) :
    transfers (f :: fs) = (Call.control f).transfer?.toList ++ transfers fs := by
  cases f with
  | ownershipTransfer payload => cases payload <;> rfl
  | _ => rfl

theorem answers_cons (f : ControlFrame) (fs : List ControlFrame) :
    answers (f :: fs) = (Call.control f).ack?.toList ++ answers fs := by
  cases f with
  | ownershipAck payload => cases payload <;> rfl
  | _ => rfl

theorem mem_frames {acts : List Action} {f : ControlFrame} :
    f ∈ frames acts ↔ .sendControl f ∈ acts := by
  unfold frames
  rw [List.mem_filterMap]
  refine ⟨?_, ?_⟩
  · rintro ⟨a, ha, h⟩
    cases a with
    | sendControl g =>
      cases h
      exact ha
    | _ => cases h
  · intro h
    exact ⟨_, h, rfl⟩

theorem mem_transfers {fs : List ControlFrame} {t : OwnershipTransfer} :
    t ∈ transfers fs ↔ .ownershipTransfer (some t) ∈ fs := by
  unfold transfers
  rw [List.mem_filterMap]
  refine ⟨?_, ?_⟩
  · rintro ⟨f, hf, h⟩
    cases f with
    | ownershipTransfer payload =>
      cases h
      exact hf
    | _ => cases h
  · intro h
    exact ⟨_, h, rfl⟩

theorem mem_answers {fs : List ControlFrame} {a : OwnershipAck} :
    a ∈ answers fs ↔ .ownershipAck (some a) ∈ fs := by
  unfold answers
  rw [List.mem_filterMap]
  refine ⟨?_, ?_⟩
  · rintro ⟨f, hf, h⟩
    cases f with
    | ownershipAck payload =>
      cases h
      exact hf
    | _ => cases h
  · intro h
    exact ⟨_, h, rfl⟩

/-- Quiet actions carry no claim and no answer. -/
theorem frames_of_quiet {acts : List Action} (h : ∀ a ∈ acts, a.isQuiet = true) :
    transfers (frames acts) = [] ∧ answers (frames acts) = [] := by
  refine ⟨List.eq_nil_iff_forall_not_mem.2 ?_, List.eq_nil_iff_forall_not_mem.2 ?_⟩
  · intro t ht
    cases h _ (mem_frames.1 (mem_transfers.1 ht))
  · intro a ha
    cases h _ (mem_frames.1 (mem_answers.1 ha))

/-- A claim is no answer. -/
theorem Call.ack?_of_transfer? {c : Call} {t : OwnershipTransfer} (h : c.transfer? = some t) :
    c.ack? = none := by
  unfold Call.transfer? at h
  split at h
  · rfl
  · cases h

/-- An input frame is neither a claim nor an answer. -/
theorem ControlFrame.no_ownership_of_ctr {f : ControlFrame} {p : UInt64 × UInt64}
    (h : f.ctr? = some p) : (Call.control f).transfer? = none ∧ (Call.control f).ack? = none := by
  cases f with
  | ownershipTransfer | ownershipAck => cases h
  | _ => exact ⟨rfl, rfl⟩

namespace EngineCore

/-- What ties the owner and the waiting grant of one core together: only a source waits for an
ack, of the grant of its current epoch to the peer. -/
structure Solo (s : EngineCore) : Prop where
  peer_ne : s.peer ≠ s.me
  owner : s.owner = s.me ∨ s.owner = s.peer
  pending : ∀ e, s.pendingEpoch = some e → e = s.epoch ∧ s.owner = s.peer ∧ s.role = .source

/-- How an epoch is minted: for whom, with which reason, and which grant waits for an ack then. -/
inductive Mint (s : EngineCore) (c : Call) (s' : EngineCore) : DeviceId → TransferReason → Prop
  | edgeCross (hrole : s.role = .source) (hown : s.owner = s.me)
      (hp : s'.pendingEpoch = some s'.epoch) : Mint s c s' s.peer .edgeCross
  | uiSelect (hc : c = .runtime .injectionFailed) (hown : s.owner = s.me)
      (hp : s'.pendingEpoch = none) : Mint s c s' s.peer .uiSelect
  | localReclaim (hrole : s.role = .source) (hp : s'.pendingEpoch = none) :
      Mint s c s' s.me .localReclaim

/-- What a call does to ownership, and the claims and answers it sends. -/
inductive Move (s : EngineCore) (c : Call) (s' : EngineCore) :
    List OwnershipTransfer → List OwnershipAck → Prop
  | keep (howner : s'.owner = s.owner) (hepoch : s'.epoch = s.epoch)
      (hc : ∀ t, c.transfer? = some t → toId t.recipient = none)
      (hp : (s'.pendingEpoch = s.pendingEpoch ∧
          ∀ a, c.ack? = some a → s.pendingEpoch ≠ some a.ownerEpoch) ∨
        (s'.pendingEpoch = none ∧ ∃ a, c.ack? = some a ∧ a.accepted = true ∧
          s.pendingEpoch = some a.ownerEpoch)) :
      Move s c s' [] []
  | mint {t owner} (hto : t.recipient = owner.bytes) (hwho : Mint s c s' owner t.reason)
      (hepoch : s'.epoch = s.epoch.saturatingAdd 1) (ht : t.ownerEpoch = s'.epoch)
      (howner : s'.owner = owner) (hc : c.transfer? = none) : Move s c s' [t] []
  | adopt {t owner} (hc : c.transfer? = some t) (hto : toId t.recipient = some owner)
      (had : s.ownership.Adopts owner t.ownerEpoch (t.reason = .localReclaim))
      (howner : s'.owner = owner) (hepoch : s'.epoch = t.ownerEpoch)
      (hp : s'.pendingEpoch = none) : Move s c s' [] [⟨t.ownerEpoch, true, none⟩]
  | refuse {t owner reason} (hc : c.transfer? = some t) (hto : toId t.recipient = some owner)
      (hwhy : owner = s.me ∨ ¬ s.epoch < t.ownerEpoch) (hs : s' = s) :
      Move s c s' [] [⟨t.ownerEpoch, false, some reason⟩]

section move

variable {s s' : EngineCore} {c : Call} {acts : List Action}

theorem pendingEpoch_eq_none : s.pendingEpoch = none ↔ s.pendingAck = none :=
  Option.map_eq_none_iff

theorem SameOwnership.owner (h : SameOwnership s s') : s'.owner = s.owner :=
  congrArg Ownership.owner h.ownership

theorem SameOwnership.epoch (h : SameOwnership s s') : s'.epoch = s.epoch :=
  congrArg Ownership.epoch h.ownership

/-- A call that carries neither a claim nor an answer and keeps ownership. -/
theorem Move.ofSame (hs : SameOwnership s s') (hc : c.transfer? = none) (ha : c.ack? = none) :
    Move s c s' [] [] :=
  .keep hs.owner hs.epoch (by simp [hc]) (.inl ⟨hs.pendingEpoch, by simp [ha]⟩)

theorem move_of_reclaim {t : EngineCore} (hs : Solo s) (hc : c.transfer? = none)
    (ht : SameHandoff s t) (hwhy : (s.role = .source ∧ s.isOwner = false) ∨ s.pendingAck ≠ none) :
    Move s c t.reclaimLocal.1 (transfers (frames t.reclaimLocal.2))
      (answers (frames t.reclaimLocal.2)) := by
  have hrole : s.role = .source := by
    rcases hwhy with ⟨h, -⟩ | h
    · exact h
    · obtain ⟨p, hp⟩ := Option.ne_none_iff_exists'.1 h
      exact (hs.pending p.epoch (by simp [pendingEpoch, hp])).2.2
  have hme : t.me = s.me := ht.device.me
  have hepoch : t.reclaimLocal.1.epoch = s.epoch.saturatingAdd 1 :=
    congrArg (UInt64.saturatingAdd · 1) ht.toSameOwnership.epoch
  exact .mint (congrArg DeviceId.bytes hme) (.localReclaim hrole rfl) hepoch rfl ht.device.me hc

/-- **The move of a call.** -/
theorem move_of_effect (hs : Solo s) (heff : Effect s c s' acts) :
    Move s c s' (transfers (frames acts)) (answers (frames acts)) := by
  cases heff with
  | quiet hc hh ha =>
    rw [(frames_of_quiet ha).1, (frames_of_quiet ha).2]
    refine .keep hh.owner hh.epoch hc.transfer (.inl ⟨hh.pendingEpoch, ?_⟩)
    intro a ha hp
    obtain ⟨p, hp, he⟩ := Option.map_eq_some_iff.1 hp
    exact hc.ack a p ha hp he.symm
  | cross hrole hown =>
    rw [crossToPeer_eq s hown, Ownership.grantTo_of_isOwner hown]
    exact .mint rfl (.edgeCross hrole (Ownership.isOwner_iff.1 hown) rfl) rfl rfl rfl rfl
  | reclaim pre post hc ht hwhy hpre hpost =>
    rw [frames_append, frames_append, transfers_append, transfers_append, answers_append,
      answers_append, (frames_of_quiet hpre).1, (frames_of_quiet hpre).2,
      (frames_of_quiet hpost).1, (frames_of_quiet hpost).2, List.append_nil, List.append_nil]
    exact move_of_reclaim hs hc ht hwhy
  | @adopt t owner hto hauth had =>
    rw [acceptTransfer_actions]
    have hown : (s.acceptTransfer (s.ownership.adopt owner t.ownerEpoch
        (t.reason = .localReclaim)).1 owner t.ownerEpoch).1.ownership =
          (s.ownership.adopt owner t.ownerEpoch (t.reason = .localReclaim)).1 :=
      acceptTransfer_ownership ..
    have hmove := Move.adopt (s := s) (c := .control (.ownershipTransfer (some t))) rfl hto had
      (congrArg Ownership.owner hown) (congrArg Ownership.epoch hown)
      (pendingEpoch_eq_none.2 (acceptTransfer_pendingAck ..))
    split <;> exact hmove
  | refuse hto hwhy =>
    refine .refuse rfl hto ?_ rfl
    rcases hwhy with ⟨ho, -⟩ | hnot
    · exact .inl ho
    · exact .inr fun hlt => hnot (.inl hlt)
  | settle hp he hacc hh ha =>
    rw [(frames_of_quiet ha).1, (frames_of_quiet ha).2]
    refine .keep hh.owner hh.epoch (by simp [Call.transfer?])
      (.inr ⟨hh.pendingEpoch, _, rfl, hacc, ?_⟩)
    rw [pendingEpoch, hp, he]
    rfl
  | inputCtr hf hh hg hheld ha =>
    obtain ⟨hc, ha'⟩ := ControlFrame.no_ownership_of_ctr hf
    rcases ha with rfl | ⟨i, rfl, -⟩ <;> exact .ofSame hh hc ha'
  | inputSeq hh hg hheld ha =>
    rcases ha with rfl | ⟨rfl, -⟩ <;> exact .ofSame hh rfl rfl
  | failed =>
    cases hown : s.isOwner with
    | false =>
      rw [onInjectionFailed_of_not_isOwner s hown]
      exact .keep rfl rfl (by simp [Call.transfer?]) (.inl ⟨rfl, by simp [Call.ack?]⟩)
    | true =>
      have hme : s.owner = s.me := Ownership.isOwner_iff.1 hown
      -- the owner waits for no ack, so the grant it makes here leaves none waiting
      have hnone : s.pendingEpoch = none := by
        by_contra h
        obtain ⟨e, he⟩ := Option.ne_none_iff_exists'.1 h
        exact hs.peer_ne ((hs.pending e he).2.1.symm.trans hme)
      rw [onInjectionFailed_of_isOwner s hown, Ownership.grantTo_of_isOwner hown]
      exact .mint rfl (.uiSelect rfl hme hnone) rfl rfl rfl rfl
  | trusted | allowed =>
    exact .keep rfl rfl (by simp [Call.transfer?]) (.inl ⟨rfl, by simp [Call.ack?]⟩)

end move

end EngineCore

end Mouser
