import Mouser.Engine.Move

/-!
# One direction of a connection

A link relates a core `G` that sends claims, the core `R` it is connected to, the claims in flight
from `G` to `R` and the answers in flight from `R` to `G`. Every claim is unanswered and in flight,
or answered with the answer in flight, or settled; `Link` says what the epochs in flight have to do
with the two views. Each call of either core keeps the link (`Link.grantor`, `Link.receiver`).
-/

namespace Mouser

namespace EngineCore

/-- The two cores are each other's peer, in the two roles. -/
structure Joined (G R : EngineCore) : Prop where
  peer : G.peer = R.me
  peer' : R.peer = G.me
  ne : G.me ≠ R.me
  role : G.role = .source ↔ R.role = .target

theorem Joined.symm {G R : EngineCore} (h : Joined G R) : Joined R G := by
  refine ⟨h.peer', h.peer, h.ne.symm, ?_⟩
  have := h.role
  cases hg : G.role <;> cases hr : R.role <;> simp_all

theorem Joined.device {G R G' R' : EngineCore} (h : Joined G R) (hG : SameDevice G G')
    (hR : SameDevice R R') : Joined G' R' where
  peer := by rw [hG.peer, hR.me, h.peer]
  peer' := by rw [hR.peer, hG.me, h.peer']
  ne := by rw [hG.me, hR.me]; exact h.ne
  role := by rw [hG.role, hR.role]; exact h.role

/-- What a claim of `G` says: a grant to `R`, or, from the source, a reclaim for `G` itself. -/
def Claims (G R : EngineCore) (t : OwnershipTransfer) : Prop :=
  (t.recipient = R.me.bytes ∧ t.reason ≠ .localReclaim) ∨
    (t.recipient = G.me.bytes ∧ G.role = .source)

theorem Claims.toId {G R : EngineCore} {t : OwnershipTransfer} (h : Claims G R t) :
    ∃ owner, toId t.recipient = some owner ∧ (owner = R.me ∨ owner = G.me) := by
  rcases h with ⟨h, -⟩ | ⟨h, -⟩
  · exact ⟨R.me, by rw [h, toId_bytes], .inl rfl⟩
  · exact ⟨G.me, by rw [h, toId_bytes], .inr rfl⟩

/-- Where the last claim of `G` is: there was none, `R` has gone past it or agrees with it, it is in
flight, or its refusal is. -/
def Settled (G R : EngineCore) (claims : List OwnershipTransfer) (acks : List OwnershipAck) :
    Prop :=
  G.epoch = 0 ∨ G.epoch < R.epoch ∨ (G.epoch = R.epoch ∧ G.owner = R.owner) ∨
    (∃ t ∈ claims, t.ownerEpoch = G.epoch) ∨
    (G.owner = R.me ∧ ∃ a ∈ acks, a.ownerEpoch = G.epoch ∧ a.accepted = false)

/-- The epochs in flight on a link, in the order in which they were minted. -/
def epochs (claims : List OwnershipTransfer) (acks : List OwnershipAck) : List UInt64 :=
  acks.map (·.ownerEpoch) ++ claims.map (·.ownerEpoch)

structure Link (G R : EngineCore) (claims : List OwnershipTransfer) (acks : List OwnershipAck) :
    Prop where
  sorted : (epochs claims acks).Pairwise (· < ·)
  le_epoch : ∀ e ∈ epochs claims acks, e ≤ G.epoch
  claim : ∀ t ∈ claims, Claims G R t
  current : ∀ t ∈ claims, t.ownerEpoch = G.epoch → t.recipient = G.owner.bytes
  settled : Settled G R claims acks
  /-- A target that owns input is behind the source and behind every claim in flight. -/
  behind : R.role = .target → R.owner = R.me →
    R.epoch ≤ G.epoch ∧ ∀ t ∈ claims, R.epoch < t.ownerEpoch

/-- The refusal of a grant that no one waits for an answer of. -/
def LosesRefusal (s : EngineCore) (c : Call) : Prop :=
  ∃ a, c.ack? = some a ∧ a.accepted = false ∧ a.ownerEpoch = s.epoch ∧ s.owner ≠ s.me ∧
    s.pendingAck = none

instance (s : EngineCore) (c : Call) : Decidable (LosesRefusal s c) :=
  match h : c.ack? with
  | none => .isFalse fun ⟨a, ha, _⟩ => by rw [h] at ha; cases ha
  | some a =>
    decidable_of_iff (a.accepted = false ∧ a.ownerEpoch = s.epoch ∧ s.owner ≠ s.me ∧
        s.pendingAck = none)
      ⟨fun h' => ⟨a, h, h'⟩, fun ⟨b, hb, h'⟩ => by rw [h] at hb; cases hb; exact h'⟩

section link

variable {G R s' : EngineCore} {c : Call} {claims new : List OwnershipTransfer}
  {acks answers : List OwnershipAck}

theorem Link.claim_epoch_le (h : Link G R claims acks) {t : OwnershipTransfer} (ht : t ∈ claims) :
    t.ownerEpoch ≤ G.epoch :=
  h.le_epoch _ (List.mem_append_right _ (List.mem_map_of_mem ht))

/-- A claim that is adopted is above the receiver's epoch: no tie is ever won. -/
theorem Link.adopts_lt (h : Link G R claims acks) (hj : Joined G R) (hR : Solo R)
    {t : OwnershipTransfer} {owner : DeviceId} (ht : t ∈ claims)
    (hto : toId t.recipient = some owner)
    (had : R.ownership.Adopts owner t.ownerEpoch (t.reason = .localReclaim)) :
    R.epoch < t.ownerEpoch := by
  rcases had with hlt | ⟨heq, -, hrec, hlow⟩
  · exact hlt
  -- a tie needs a reclaim, which the source makes for itself against a target that owns input
  have hrec' : t.reason = .localReclaim := of_decide_eq_true hrec
  rcases h.claim t ht with ⟨-, hne⟩ | ⟨hrecip, hsource⟩
  · exact absurd hrec' hne
  · rw [hrecip, toId_bytes] at hto
    cases hto
    have hown : R.owner = R.me := by
      rcases hR.owner with ho | ho
      · exact ho
      · exact absurd (ho.trans hj.peer') hlow.ne'
    exact (h.behind (hj.role.1 hsource) hown).2 t ht

theorem epochs_sublist (claims : List OwnershipTransfer) (before acks : List OwnershipAck) :
    (epochs claims acks).Sublist (epochs claims (before ++ acks)) := by
  unfold epochs
  rw [List.map_append, List.append_assoc]
  exact List.sublist_append_right _ _

/-- A claim in flight is above every claim before it and below every claim after it. -/
theorem epochs_cons (t : OwnershipTransfer) (claims : List OwnershipTransfer)
    (acks : List OwnershipAck) (b : Bool) (reason : Option String) :
    epochs claims (acks ++ [⟨t.ownerEpoch, b, reason⟩]) = epochs (t :: claims) acks := by
  simp [epochs]

theorem Mint.recipient {t : OwnershipTransfer} {owner : DeviceId} (hj : Joined G R)
    (hwho : Mint G c s' owner t.reason) (hto : t.recipient = owner.bytes) : Claims G R t := by
  generalize hr : t.reason = reason at hwho
  cases hwho with
  | edgeCross | uiSelect => exact .inl ⟨by rw [hto, hj.peer], by rw [hr]; decide⟩
  | localReclaim hrole => exact .inr ⟨hto, hrole⟩

/-- **The sender's step.** Whatever the sender of claims does, the link holds for what it leaves,
if the step loses no refusal. A claim of the other side that the step adopts is one of the other
side's own view. -/
theorem Link.grantor {G' : EngineCore} (h : Link G R claims (c.ack?.toList ++ acks))
    (hj : Joined G R) (hG : Solo G) (hlt : G.epoch < UInt64.maxValue)
    (hm : Move G c G' new answers) (hd : SameDevice G G') (hk : ¬ LosesRefusal G c)
    (hin : ∀ t owner, c.transfer? = some t → toId t.recipient = some owner →
      G.ownership.Adopts owner t.ownerEpoch (t.reason = .localReclaim) →
        G.epoch < t.ownerEpoch ∧ t.ownerEpoch ≤ R.epoch ∧
          (t.ownerEpoch = R.epoch → owner = R.owner)) :
    Link G' R (claims ++ new) acks := by
  have hsub := epochs_sublist claims c.ack?.toList acks
  have hsorted := h.sorted.sublist hsub
  have hle : ∀ e ∈ epochs claims acks, e ≤ G.epoch := fun e he => h.le_epoch e (hsub.subset he)
  have hclaim : ∀ t, Claims G R t → Claims G' R t := by
    intro t ht
    rcases ht with ht | ⟨ht, hr⟩
    · exact .inl ht
    · exact .inr ⟨by rw [hd.me]; exact ht, by rw [hd.role]; exact hr⟩
  cases hm with
  | keep howner hepoch hc hp =>
    rw [List.append_nil]
    refine ⟨hsorted, fun e he => hepoch ▸ hle e he, fun t ht => hclaim t (h.claim t ht), ?_, ?_, ?_⟩
    · rw [hepoch, howner]
      exact h.current
    · unfold Settled
      rw [hepoch, howner]
      rcases h.settled with h0 | h0 | h0 | h0 | ⟨hown, a, ha, hae, hacc⟩
      · exact .inl h0
      · exact .inr (.inl h0)
      · exact .inr (.inr (.inl h0))
      · exact .inr (.inr (.inr (.inl h0)))
      rcases List.mem_append.1 ha with ha | ha
      · -- the refusal of the current grant is the answer just delivered
        exfalso
        have hca : c.ack? = some a := Option.mem_toList.1 ha
        rcases hp with ⟨-, hno⟩ | ⟨-, b, hb, hbacc, -⟩
        · have hnone : G.pendingEpoch = none := by
            by_contra hsome
            obtain ⟨e, he⟩ := Option.ne_none_iff_exists'.1 hsome
            exact hno a hca (by rw [he, hae, (hG.pending e he).1])
          exact hk ⟨a, hca, hacc, hae, by rw [hown]; exact hj.ne.symm,
            pendingEpoch_eq_none.1 hnone⟩
        · rw [hca] at hb
          cases hb
          rw [hacc] at hbacc
          cases hbacc
      · exact .inr (.inr (.inr (.inr ⟨hown, a, ha, hae, hacc⟩)))
    · rw [hepoch]
      exact h.behind
  | @mint t owner hto hwho hepoch ht howner hc =>
    have hgrow : G.epoch < G'.epoch := by
      rw [hepoch]
      exact UInt64.lt_saturatingAdd_one hlt
    have happ : epochs (claims ++ [t]) acks = epochs claims acks ++ [t.ownerEpoch] := by
      simp [epochs]
    refine ⟨?_, ?_, ?_, ?_, ?_, ?_⟩
    · rw [happ]
      refine List.pairwise_append.2 ⟨hsorted, List.pairwise_singleton _ _, ?_⟩
      intro e he e' he'
      rw [List.mem_singleton.1 he', ht]
      exact UInt64.lt_of_le_of_lt (hle e he) hgrow
    · intro e he
      rw [happ] at he
      rcases List.mem_append.1 he with he | he
      · exact UInt64.le_trans (hle e he) (UInt64.le_of_lt hgrow)
      · rw [List.mem_singleton.1 he, ht]
        exact UInt64.le_refl _
    · intro u hu
      rcases List.mem_append.1 hu with hu | hu
      · exact hclaim u (h.claim u hu)
      · rw [List.mem_singleton.1 hu]
        exact hclaim t (hwho.recipient hj hto)
    · intro u hu hue
      rcases List.mem_append.1 hu with hu | hu
      · have := UInt64.lt_of_le_of_lt (h.claim_epoch_le hu) hgrow
        rw [hue] at this
        exact absurd this (UInt64.lt_irrefl _)
      · rw [List.mem_singleton.1 hu, hto, howner]
    · exact .inr (.inr (.inr (.inl ⟨t, by simp, ht⟩)))
    · intro hr ho
      obtain ⟨h1, h2⟩ := h.behind hr ho
      refine ⟨UInt64.le_trans h1 (UInt64.le_of_lt hgrow), ?_⟩
      intro u hu
      rcases List.mem_append.1 hu with hu | hu
      · exact h2 u hu
      · rw [List.mem_singleton.1 hu, ht]
        exact UInt64.lt_of_le_of_lt h1 hgrow
  | @adopt t owner hc hto had howner hepoch hp =>
    obtain ⟨hgrow, hle', hsame⟩ := hin t owner hc hto had
    rw [← hepoch] at hgrow hle' hsame
    rw [List.append_nil]
    refine ⟨hsorted, fun e he => UInt64.le_trans (hle e he) (UInt64.le_of_lt hgrow),
      fun u hu => hclaim u (h.claim u hu), ?_, ?_, ?_⟩
    · intro u hu hue
      have := UInt64.lt_of_le_of_lt (h.claim_epoch_le hu) hgrow
      rw [hue] at this
      exact absurd this (UInt64.lt_irrefl _)
    · by_cases heq : G'.epoch = R.epoch
      · exact .inr (.inr (.inl ⟨heq, howner.trans (hsame heq)⟩))
      · exact .inr (.inl (UInt64.lt_of_le_of_ne hle' heq))
    · intro hr ho
      obtain ⟨h1, h2⟩ := h.behind hr ho
      exact ⟨UInt64.le_trans h1 (UInt64.le_of_lt hgrow), h2⟩
  | refuse hc hto hwhy hs =>
    have hack : c.ack? = none := Call.ack?_of_transfer? hc
    subst hs
    rw [List.append_nil]
    rw [hack] at h
    exact h

/-- A call that hands over no claim of the sender. -/
theorem Link.no_transfer (h : Link G R (c.transfer?.toList ++ claims) acks)
    (hc : ∀ t, c.transfer? = some t → toId t.recipient = none) : c.transfer? = none := by
  cases ht : c.transfer? with
  | none => rfl
  | some t =>
    obtain ⟨owner, hto, -⟩ := (h.claim t (by simp [ht])).toId
    rw [hc t ht] at hto
    cases hto

/-- Refusing the sender's current claim settles it: the receiver has gone past it, agrees with it,
or its refusal is now in flight. -/
theorem Link.settled_of_refused {t : OwnershipTransfer} {owner : DeviceId} {reason : Option String}
    (h : Link G R (t :: claims) acks) (hj : Joined G R) (hR : Solo R)
    (hto : toId t.recipient = some owner) (hwhy : owner = R.me ∨ ¬ R.epoch < t.ownerEpoch)
    (he : t.ownerEpoch = G.epoch) {acks' : List OwnershipAck}
    (hack : ⟨t.ownerEpoch, false, reason⟩ ∈ acks') : Settled G R claims acks' := by
  have hrecip := h.current t (.head _) he
  rw [hrecip, toId_bytes] at hto
  cases hto
  by_cases hown : G.owner = R.me
  · exact .inr (.inr (.inr (.inr ⟨hown, _, hack, he, rfl⟩)))
  have hle : G.epoch ≤ R.epoch := by
    rw [← he]
    exact UInt64.not_lt.1 (hwhy.resolve_left hown)
  by_cases heq : G.epoch = R.epoch
  · refine .inr (.inr (.inl ⟨heq, ?_⟩))
    rcases h.claim t (.head _) with ⟨hr, -⟩ | ⟨hr, hsource⟩
    · exact absurd (DeviceId.bytes_injective (hrecip.symm.trans hr)) hown
    · -- a reclaim of the source; a target that owned input would be behind it
      have hme : G.owner = G.me := DeviceId.bytes_injective (hrecip.symm.trans hr)
      rcases hR.owner with ho | ho
      · have hlt := (h.behind (hj.role.1 hsource) ho).2 t (.head _)
        rw [he, heq] at hlt
        exact absurd hlt (UInt64.lt_irrefl _)
      · rw [ho, hj.peer', hme]
  · exact .inr (.inl (UInt64.lt_of_le_of_ne hle heq))

/-- **The receiver's step.** Whatever the receiver of claims does, the link holds for what it
leaves. -/
theorem Link.receiver {R' : EngineCore} (h : Link G R (c.transfer?.toList ++ claims) acks)
    (hj : Joined G R) (hR : Solo R) (hlt : R.epoch < UInt64.maxValue)
    (hm : Move R c R' new answers) (hd : SameDevice R R') : Link G R' claims (acks ++ answers) := by
  have hclaim : ∀ t, Claims G R t → Claims G R' t := by
    intro t ht
    unfold Claims
    rw [hd.me]
    exact ht
  cases hm with
  | keep howner hepoch hc hp =>
    rw [h.no_transfer hc] at h
    rw [List.append_nil]
    refine ⟨h.sorted, h.le_epoch, fun t ht => hclaim t (h.claim t ht), h.current, ?_, ?_⟩
    · unfold Settled
      rw [hepoch, howner, hd.me]
      exact h.settled
    · rw [hd.role, howner, hd.me, hepoch]
      exact h.behind
  | @mint t owner hto hwho hepoch ht howner hc =>
    rw [hc] at h
    rw [List.append_nil]
    have hgrow : R.epoch < R'.epoch := by
      rw [hepoch]
      exact UInt64.lt_saturatingAdd_one hlt
    refine ⟨h.sorted, h.le_epoch, fun t ht => hclaim t (h.claim t ht), h.current, ?_, ?_⟩
    · rcases h.settled with h0 | h0 | ⟨h0, -⟩ | h0 | ⟨h0, h1⟩
      · exact .inl h0
      · exact .inr (.inl (UInt64.lt_trans h0 hgrow))
      · exact .inr (.inl (h0 ▸ hgrow))
      · exact .inr (.inr (.inr (.inl h0)))
      · exact .inr (.inr (.inr (.inr ⟨by rw [hd.me]; exact h0, h1⟩)))
    · -- a target mints for its peer only
      intro hr ho
      rw [hd.role] at hr
      rw [hd.me, howner] at ho
      generalize t.reason = reason at hwho
      cases hwho with
      | edgeCross hs | localReclaim hs =>
        rw [hr] at hs
        cases hs
      | uiSelect => exact absurd ho hR.peer_ne
  | @adopt t owner hc hto had howner hepoch hp =>
    rw [hc, Option.toList_some, List.singleton_append] at h
    have hmem : t ∈ t :: claims := .head _
    have hgrow := h.adopts_lt hj hR hmem hto had
    rw [← hepoch] at hgrow
    refine ⟨?_, ?_, fun u hu => hclaim u (h.claim u (.tail _ hu)),
      fun u hu => h.current u (.tail _ hu), ?_, ?_⟩
    · rw [epochs_cons]
      exact h.sorted
    · rw [epochs_cons]
      exact h.le_epoch
    · rcases h.settled with h0 | h0 | ⟨h0, -⟩ | ⟨u, hu, hue⟩ | ⟨h0, a, ha, h1⟩
      · exact .inl h0
      · exact .inr (.inl (UInt64.lt_trans h0 hgrow))
      · exact .inr (.inl (h0 ▸ hgrow))
      · rcases List.mem_cons.1 hu with rfl | hu
        · -- the claim delivered is the sender's current one
          have hrecip := h.current u hmem hue
          rw [hrecip, toId_bytes] at hto
          cases hto
          exact .inr (.inr (.inl ⟨by rw [hepoch, hue], howner.symm⟩))
        · exact .inr (.inr (.inr (.inl ⟨u, hu, hue⟩)))
      · exact .inr (.inr (.inr (.inr
          ⟨by rw [hd.me]; exact h0, a, List.mem_append_left _ ha, h1⟩)))
    · intro _ _
      rw [hepoch]
      refine ⟨h.claim_epoch_le hmem, ?_⟩
      intro u hu
      have hsorted := (List.pairwise_append.1 h.sorted).2.1
      rw [List.map_cons, List.pairwise_cons] at hsorted
      exact hsorted.1 _ (List.mem_map_of_mem hu)
  | @refuse t owner reason hc hto hwhy hs =>
    rw [hc, Option.toList_some, List.singleton_append] at h
    subst hs
    have hmem : t ∈ t :: claims := .head _
    have hnack : (⟨t.ownerEpoch, false, some reason⟩ : OwnershipAck) ∈
        acks ++ [⟨t.ownerEpoch, false, some reason⟩] := by simp
    refine ⟨?_, ?_, fun u hu => h.claim u (.tail _ hu), fun u hu => h.current u (.tail _ hu), ?_,
      fun hr ho => ⟨(h.behind hr ho).1, fun u hu => (h.behind hr ho).2 u (.tail _ hu)⟩⟩
    · rw [epochs_cons]
      exact h.sorted
    · rw [epochs_cons]
      exact h.le_epoch
    · rcases h.settled with h0 | h0 | h0 | ⟨u, hu, hue⟩ | ⟨h0, a, ha, h1⟩
      · exact .inl h0
      · exact .inr (.inl h0)
      · exact .inr (.inr (.inl h0))
      · rcases List.mem_cons.1 hu with rfl | hu
        · -- the claim refused is the sender's current one
          exact h.settled_of_refused hj hR hto hwhy hue hnack
        · exact .inr (.inr (.inr (.inl ⟨u, hu, hue⟩)))
      · exact .inr (.inr (.inr (.inr ⟨h0, a, List.mem_append_left _ ha, h1⟩)))

/-- The owner stays one of the two devices, and only a source waits for an ack. -/
theorem Solo.move {s : EngineCore} (hs : Solo s) (hd : SameDevice s s')
    (hm : Move s c s' new answers)
    (hin : ∀ t owner, c.transfer? = some t → toId t.recipient = some owner →
      owner = s.me ∨ owner = s.peer) : Solo s' := by
  refine ⟨by rw [hd.peer, hd.me]; exact hs.peer_ne, ?_, ?_⟩
  · rw [hd.peer, hd.me]
    cases hm with
    | keep howner => rw [howner]; exact hs.owner
    | @mint t owner hto hwho hepoch ht howner =>
      rw [howner]
      generalize t.reason = reason at hwho
      cases hwho with
      | edgeCross | uiSelect => exact .inr rfl
      | localReclaim => exact .inl rfl
    | @adopt t owner hc hto had howner => rw [howner]; exact hin t owner hc hto
    | refuse hc hto hwhy hs' => rw [hs']; exact hs.owner
  · intro e he
    rw [hd.peer, hd.role]
    cases hm with
    | keep howner hepoch hc hp =>
      rw [howner, hepoch]
      rcases hp with ⟨hp, -⟩ | ⟨hp, -⟩
      · exact hs.pending e (hp ▸ he)
      · rw [hp] at he
        cases he
    | @mint t owner hto hwho hepoch ht howner =>
      rw [howner]
      generalize t.reason = reason at hwho
      cases hwho with
      | edgeCross hr _ hp =>
        rw [hp] at he
        cases he
        exact ⟨rfl, rfl, hr⟩
      | uiSelect _ _ hp | localReclaim _ hp =>
        rw [hp] at he
        cases he
    | adopt hc hto had howner hepoch hp =>
      rw [hp] at he
      cases he
    | refuse hc hto hwhy hs' =>
      subst hs'
      exact hs.pending e he

/-- An epoch never goes down, and while it stays the owner stays, if every claim adopted is above
the core's epoch. -/
theorem Move.epoch_le {s : EngineCore} (hm : Move s c s' new answers)
    (hlt : s.epoch < UInt64.maxValue)
    (hin : ∀ t owner, c.transfer? = some t → toId t.recipient = some owner →
      s.ownership.Adopts owner t.ownerEpoch (t.reason = .localReclaim) → s.epoch < t.ownerEpoch) :
    s.epoch < s'.epoch ∨ (s'.epoch = s.epoch ∧ s'.owner = s.owner) := by
  cases hm with
  | keep howner hepoch => exact .inr ⟨hepoch, howner⟩
  | mint hto hwho hepoch =>
    rw [hepoch]
    exact .inl (UInt64.lt_saturatingAdd_one hlt)
  | adopt hc hto had howner hepoch =>
    rw [hepoch]
    exact .inl (hin _ _ hc hto had)
  | refuse hc hto hwhy hs =>
    subst hs
    exact .inr ⟨rfl, rfl⟩

/-- A refused claim of epoch `e` is undone, or its refusal is still in flight: the core has gone
past it, or owns input itself. -/
def RolledBack (s : EngineCore) (e : UInt64) (acks : List OwnershipAck) : Prop :=
  e ≤ s.epoch ∧
    ((∃ a ∈ acks, a.ownerEpoch = e ∧ a.accepted = false) ∨ e < s.epoch ∨ s.owner = s.me)

/-- **A refusal is not forgotten.** A step that loses no refusal leaves every refused claim
undone. -/
theorem RolledBack.move {s : EngineCore} {e : UInt64}
    (h : RolledBack s e (c.ack?.toList ++ acks)) (hs : Solo s) (hm : Move s c s' new answers)
    (hd : SameDevice s s') (hk : ¬ LosesRefusal s c)
    (hgrow : s.epoch < s'.epoch ∨ (s'.epoch = s.epoch ∧ s'.owner = s.owner)) :
    RolledBack s' e acks := by
  obtain ⟨hle, hwhy⟩ := h
  rcases hgrow with hgrow | ⟨hepoch, howner⟩
  · have hlt := UInt64.lt_of_le_of_lt hle hgrow
    exact ⟨UInt64.le_of_lt hlt, .inr (.inl hlt)⟩
  unfold RolledBack
  rw [hepoch, howner, hd.me]
  refine ⟨hle, ?_⟩
  rcases hwhy with ⟨a, ha, hae, hacc⟩ | hlt | hown
  · rcases List.mem_append.1 ha with ha | ha
    · -- the refusal is delivered in this step
      right
      have hca : c.ack? = some a := Option.mem_toList.1 ha
      by_cases hlt : e < s.epoch
      · exact .inl hlt
      have heq : a.ownerEpoch = s.epoch := by
        rw [hae]
        exact UInt64.le_antisymm hle (UInt64.not_lt.1 hlt)
      by_contra hno
      have hne : s.owner ≠ s.me := fun ho => hno (.inr ho)
      -- the claim is the current one, so an ack for it is pending, and the step reclaims
      have hpend : s.pendingEpoch = some s.epoch := by
        cases hp : s.pendingEpoch with
        | none => exact absurd ⟨a, hca, hacc, heq, hne, pendingEpoch_eq_none.1 hp⟩ hk
        | some e' => rw [(hs.pending e' hp).1]
      cases hm with
      | keep _ _ _ hp =>
        rcases hp with ⟨-, hp⟩ | ⟨-, b, hb, hbacc, -⟩
        · exact hp a hca (by rw [hpend, heq])
        · rw [hca] at hb
          cases hb
          rw [hacc] at hbacc
          cases hbacc
      | @mint t owner hto hwho _ _ howner' =>
        generalize t.reason = reason at hwho
        cases hwho with
        | edgeCross _ ho | uiSelect _ ho => exact hne ho
        | localReclaim => exact hne (howner.symm.trans howner')
      | adopt hc | refuse hc =>
        rw [Call.ack?_of_transfer? hc] at hca
        cases hca
    · exact .inl ⟨a, ha, hae, hacc⟩
  · exact .inr (.inl hlt)
  · exact .inr (.inr hown)

/-- A target mints only when an injection fails. -/
theorem Move.target_sends_nothing {s : EngineCore} (hm : Move s c s' new answers)
    (hr : s.role = .target) (hc : c ≠ .runtime .injectionFailed) : new = [] := by
  cases hm with
  | keep | adopt | refuse => rfl
  | @mint t owner _ hwho =>
    generalize t.reason = reason at hwho
    cases hwho with
    | uiSelect hf => exact absurd hf hc
    | edgeCross hs | localReclaim hs =>
      rw [hr] at hs
      cases hs

/-- Only a claim is answered. -/
theorem Move.answers_eq_nil {s : EngineCore} (hm : Move s c s' new answers)
    (hc : c.transfer? = none) : answers = [] := by
  cases hm with
  | keep | mint => rfl
  | adopt h | refuse h =>
    rw [hc] at h
    cases h

/-- Answering a claim moves its epoch from the claims in flight to the answers in flight. -/
theorem Move.epochs_subset {s : EngineCore} (hm : Move s c s' new answers)
    (claims : List OwnershipTransfer) (acks : List OwnershipAck) :
    epochs claims (acks ++ answers) ⊆ epochs (c.transfer?.toList ++ claims) acks := by
  cases hm with
  | keep | mint =>
    rw [List.append_nil]
    unfold epochs
    rw [List.map_append]
    exact List.append_subset.2 ⟨List.subset_append_left _ _, fun _ he =>
      List.mem_append_right _ (List.mem_append_right _ he)⟩
  | adopt hc | refuse hc =>
    rw [epochs_cons, hc]
    exact List.Subset.refl _

end link

/-- Only the acceptance of a grant sets the accepted epoch. -/
theorem Effect.acceptedEpoch {s s' : EngineCore} {c : Call} {acts : List Action} {e : UInt64}
    (h : Effect s c s' acts) (he : s'.inputAuth.acceptedEpoch = some e) :
    s.inputAuth.acceptedEpoch = some e ∨
      ∃ t, c.transfer? = some t ∧ toId t.recipient = some s.me ∧ t.ownerEpoch = e := by
  cases h with
  | quiet hc hs => exact .inl (hs.inputAuth ▸ he)
  | cross hrole hown =>
    rw [crossToPeer_eq s hown] at he
    cases he
  | reclaim => cases he
  | @adopt t owner hto =>
    rw [acceptTransfer_adopt_inputAuth] at he
    split at he
    · next ho =>
      subst ho
      exact .inr ⟨t, rfl, hto, Option.some.inj he⟩
    · cases he
  | refuse | trusted | allowed => exact .inl he
  | settle hp hae hacc hs => exact .inl (hs.inputAuth ▸ he)
  | inputCtr hf hs => exact .inl (hs.inputAuth ▸ he)
  | inputSeq hs => exact .inl (hs.inputAuth ▸ he)
  | failed =>
    rw [onInjectionFailed_acceptedEpoch] at he
    cases he

end EngineCore

end Mouser
