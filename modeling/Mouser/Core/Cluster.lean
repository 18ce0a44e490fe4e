import Mathlib.Data.Finset.Insert
import Mathlib.Logic.Function.Basic
import Mouser.Core.Claims

/-!
# Several devices over one ownership token

Every device runs the ownership state machine. The claims that it mints are sent to all others, and
each claim can reach each device at any time and more than once.

Reclaims alone always lead to one owner, the lowest id of the greatest epoch (`reclaims_converge`).
A grant is never displaced at its epoch, so with grants it depends on the claims of the greatest
epoch whether the devices come to agree; `agree_iff` says when they do.
-/

namespace Mouser

/-- The views of the devices, the claims minted so far, and those each device has minted or
received. -/
structure Cluster where
  views : DeviceId → Ownership
  minted : List Claim
  heard : DeviceId → List Claim

inductive ClusterEvent where
  | grantTo (d target : DeviceId)
  | reclaim (d : DeviceId)
  /-- A claim that was minted reaches a device. -/
  | deliver (d : DeviceId) (c : Claim)

namespace Cluster

/-- Every device has just booted. -/
def boot : Cluster := ⟨Ownership.new, [], fun _ => []⟩

/-- Device `d` has seen the claim `c`, which leaves it the view `o`. -/
def learn (s : Cluster) (d : DeviceId) (o : Ownership) (c : Claim) : Cluster :=
  { s with
    views := Function.update s.views d o
    heard := Function.update s.heard d (s.heard d ++ [c]) }

/-- Device `d` has minted the claim `c`. -/
def mint (s : Cluster) (d : DeviceId) (o : Ownership) (c : Claim) : Cluster :=
  { s.learn d o c with minted := s.minted ++ [c] }

def onGrantTo (s : Cluster) (d target : DeviceId) : Cluster :=
  match (s.views d).grantTo target with
  | (o, some epoch) => s.mint d o { minter := d, owner := target, epoch, isReclaim := false }
  | (_, none) => s

def onReclaim (s : Cluster) (d : DeviceId) : Cluster :=
  let (o, epoch) := (s.views d).reclaim
  s.mint d o { minter := d, owner := d, epoch, isReclaim := true }

def onDeliver (s : Cluster) (d : DeviceId) (c : Claim) : Cluster :=
  if c ∈ s.minted then s.learn d ((s.views d).observe c.owner c.epoch c.isReclaim).1 c else s

/-- The events of the devices in `devices`. -/
def step (devices : Finset DeviceId) (s : Cluster) : ClusterEvent → Cluster
  | .grantTo d target => if d ∈ devices then s.onGrantTo d target else s
  | .reclaim d => if d ∈ devices then s.onReclaim d else s
  | .deliver d c => if d ∈ devices then s.onDeliver d c else s

def machine (devices : Finset DeviceId) : Machine Cluster ClusterEvent Unit :=
  ⟨fun s e => (s.step devices e, ())⟩

/-- The event mints at the last epoch, where the addition saturates. -/
def Saturates (s : Cluster) : ClusterEvent → Prop
  | .grantTo d _ => (s.views d).isOwner = true ∧ (s.views d).epoch = .maxValue
  | .reclaim d => (s.views d).epoch = .maxValue
  | .deliver .. => False

instance (s : Cluster) (e : ClusterEvent) : Decidable (s.Saturates e) := by
  cases e <;> unfold Saturates <;> infer_instance

/-- Every claim has reached every device but the one that minted it. -/
def Delivered (devices : Finset DeviceId) (s : Cluster) : Prop :=
  ∀ c ∈ s.minted, ∀ d ∈ devices, d ≠ c.minter → c ∈ s.heard d

/-- All devices hold one owner and one epoch. -/
def Agree (devices : Finset DeviceId) (s : Cluster) : Prop :=
  ∀ d ∈ devices, ∀ d' ∈ devices,
    (s.views d).owner = (s.views d').owner ∧ (s.views d).epoch = (s.views d').epoch

/-- Some claim of the greatest epoch names the device that every grant of this epoch names, and the
lowest one that reclaimed in it, if any did. -/
def Settled (claims : List Claim) : Prop :=
  ∃ c ∈ claims, (∀ c' ∈ claims, c'.epoch ≤ c.epoch) ∧
    (∀ g ∈ claims, g.epoch = c.epoch → g.isReclaim = false → g.owner = c.owner) ∧
    ∀ r ∈ claims, r.epoch = c.epoch → r.isReclaim = true →
      c.owner ≤ r.owner ∧
        ∃ w ∈ claims, w.epoch = c.epoch ∧ w.isReclaim = true ∧ w.owner = c.owner

/-- The claim `c` is the best of `claims`: no other has a greater epoch, or the same epoch and a
lower owner. -/
def Best (c : Claim) (claims : List Claim) : Prop :=
  c ∈ claims ∧ ∀ c' ∈ claims, c'.epoch < c.epoch ∨ c'.epoch = c.epoch ∧ c.owner ≤ c'.owner

/-! ## One step -/

/-- What ties the views to the claims. -/
structure Inv (devices : Finset DeviceId) (s : Cluster) : Prop where
  me : ∀ d, (s.views d).me = d
  fits : ∀ d, (s.heard d = [] ∧ s.views d = .new d) ∨ (s.views d).Fits d (s.heard d)
  heard : ∀ d, ∀ c ∈ s.heard d, c ∈ s.minted
  minter : ∀ c ∈ s.minted, c.minter ∈ devices ∧ c ∈ s.heard c.minter
  epoch : ∀ c ∈ s.minted, 0 < c.epoch

theorem inv_boot (devices : Finset DeviceId) : Inv devices boot :=
  ⟨fun _ => rfl, fun _ => .inl ⟨rfl, rfl⟩, fun _ => List.forall_mem_nil _, List.forall_mem_nil _,
    List.forall_mem_nil _⟩

section step

variable {devices : Finset DeviceId} {s : Cluster} {d : DeviceId}

theorem learn_views_self (o : Ownership) (c : Claim) : (s.learn d o c).views d = o :=
  Function.update_self ..

theorem learn_heard_self (o : Ownership) (c : Claim) :
    (s.learn d o c).heard d = s.heard d ++ [c] :=
  Function.update_self ..

theorem learn_views_of_ne {d' : DeviceId} (h : d' ≠ d) (o : Ownership) (c : Claim) :
    (s.learn d o c).views d' = s.views d' :=
  Function.update_of_ne h ..

theorem learn_heard_of_ne {d' : DeviceId} (h : d' ≠ d) (o : Ownership) (c : Claim) :
    (s.learn d o c).heard d' = s.heard d' :=
  Function.update_of_ne h ..

/-- What was heard stays heard. -/
theorem mem_learn_heard {c' : Claim} {d' : DeviceId} (h : c' ∈ s.heard d') (o : Ownership)
    (c : Claim) : c' ∈ (s.learn d o c).heard d' := by
  by_cases hd : d' = d
  · rw [hd, learn_heard_self]
    exact List.mem_append_left _ (hd ▸ h)
  · rw [learn_heard_of_ne hd]
    exact h

/-- A device sees a claim, of its own or one that was minted before. -/
theorem Inv.learn (h : Inv devices s) {o : Ownership} {c : Claim} {minted : List Claim}
    (hme : o.me = d) (hfits : o.Fits d (s.heard d ++ [c])) (hold : s.minted ⊆ minted)
    (hc : c ∈ minted)
    (hnew : ∀ c' ∈ minted, c' ∈ s.minted ∨ c' = c ∧ c.minter = d ∧ d ∈ devices ∧ 0 < c.epoch) :
    Inv devices { s.learn d o c with minted } := by
  refine ⟨?_, ?_, ?_, ?_, ?_⟩ <;> dsimp only
  · intro d'
    by_cases hd : d' = d
    · rw [hd, learn_views_self, hme]
    · rw [learn_views_of_ne hd]
      exact h.me d'
  · intro d'
    by_cases hd : d' = d
    · rw [hd, learn_views_self, learn_heard_self]
      exact .inr hfits
    · rw [learn_views_of_ne hd, learn_heard_of_ne hd]
      exact h.fits d'
  · intro d' c' hc'
    by_cases hd : d' = d
    · rw [hd, learn_heard_self] at hc'
      rcases List.mem_append.1 hc' with hc' | hc'
      · exact hold (h.heard d c' hc')
      · rw [List.mem_singleton.1 hc']
        exact hc
    · rw [learn_heard_of_ne hd] at hc'
      exact hold (h.heard d' c' hc')
  · intro c' hc'
    rcases hnew c' hc' with hc' | ⟨rfl, rfl, hd, -⟩
    · exact ⟨(h.minter c' hc').1, mem_learn_heard (h.minter c' hc').2 o c⟩
    · rw [learn_heard_self]
      exact ⟨hd, List.mem_append_right _ (.head _)⟩
  · intro c' hc'
    rcases hnew c' hc' with hc' | ⟨rfl, -, -, hpos⟩
    · exact h.epoch c' hc'
    · exact hpos

/-- What a device has heard is not above its view. -/
theorem Inv.heard_le (h : Inv devices s) (d : DeviceId) :
    ∀ c ∈ s.heard d, c.epoch ≤ (s.views d).epoch := by
  rcases h.fits d with ⟨hnil, -⟩ | hfits
  · rw [hnil]
    exact List.forall_mem_nil _
  · exact hfits.greatest

theorem Inv.mint (h : Inv devices s) (hd : d ∈ devices) {o : Ownership} {c : Claim}
    (hme : o.me = d) (hminter : c.minter = d)
    (hclaim : o.owner = c.owner ∧ o.epoch = c.epoch ∧ o.reclaimOrigin = c.isReclaim)
    (hlt : (s.views d).epoch < c.epoch) : Inv devices (s.mint d o c) := by
  have hpos : 0 < c.epoch := UInt64.lt_of_le_of_lt UInt64.zero_le hlt
  refine h.learn hme ?_ (List.subset_append_left _ _) (List.mem_append_right _ (.head _)) ?_
  · exact Ownership.fits_new hclaim fun c' hc' => UInt64.lt_of_le_of_lt (h.heard_le d c' hc') hlt
  · intro c' hc'
    rcases List.mem_append.1 hc' with hc' | hc'
    · exact .inl hc'
    · exact .inr ⟨List.mem_singleton.1 hc', hminter, hd, hpos⟩

theorem Inv.onGrantTo (h : Inv devices s) (hd : d ∈ devices) {target : DeviceId}
    (hsat : ¬ s.Saturates (.grantTo d target)) : Inv devices (s.onGrantTo d target) := by
  unfold Cluster.onGrantTo
  by_cases howner : (s.views d).isOwner = true
  · have hne : (s.views d).epoch ≠ .maxValue := fun hmax => hsat ⟨howner, hmax⟩
    rw [Ownership.grantTo_of_isOwner howner]
    exact h.mint hd (h.me d) rfl ⟨rfl, rfl, rfl⟩
      (UInt64.lt_saturatingAdd_one (UInt64.lt_maxValue_of_ne hne))
  · rw [Ownership.grantTo, if_pos (by simpa using howner)]
    exact h

theorem Inv.onReclaim (h : Inv devices s) (hd : d ∈ devices) (hsat : ¬ s.Saturates (.reclaim d)) :
    Inv devices (s.onReclaim d) :=
  h.mint hd (h.me d) rfl ⟨h.me d, rfl, rfl⟩
    (UInt64.lt_saturatingAdd_one (UInt64.lt_maxValue_of_ne hsat))

theorem Inv.onDeliver (h : Inv devices s) (d : DeviceId) (c : Claim) :
    Inv devices (s.onDeliver d c) := by
  unfold Cluster.onDeliver
  split
  · rename_i hc
    refine h.learn ?_ ?_ (List.Subset.refl _) hc fun _ => .inl
    · rw [Ownership.observe_me, h.me]
    · rcases h.fits d with ⟨hnil, hview⟩ | hfits
      -- the first claim that a device sees is above its epoch 0
      · have hlt : (s.views d).epoch < c.epoch := by
          rw [hview]
          exact h.epoch c hc
        rw [Ownership.observe, if_pos hlt, hnil]
        exact Ownership.fits_new ⟨rfl, rfl, rfl⟩ (List.forall_mem_nil _)
      · refine hfits.observe ?_
        rintro rfl
        exact (h.minter c hc).2
  · exact h

theorem Inv.step (h : Inv devices s) {e : ClusterEvent} (hsat : ¬ s.Saturates e) :
    Inv devices (s.step devices e) := by
  cases e with
  | grantTo d target =>
    by_cases hd : d ∈ devices
    · rw [Cluster.step, if_pos hd]
      exact h.onGrantTo hd hsat
    · rw [Cluster.step, if_neg hd]
      exact h
  | reclaim d =>
    by_cases hd : d ∈ devices
    · rw [Cluster.step, if_pos hd]
      exact h.onReclaim hd hsat
    · rw [Cluster.step, if_neg hd]
      exact h
  | deliver d c =>
    by_cases hd : d ∈ devices
    · rw [Cluster.step, if_pos hd]
      exact h.onDeliver d c
    · rw [Cluster.step, if_neg hd]
      exact h

end step

section run

variable {devices : Finset DeviceId} {s : Cluster}

theorem inv_exec {events : List ClusterEvent}
    (hsat : ∀ e ∈ (machine devices).trace boot events, ¬ e.pre.Saturates e.input) :
    Inv devices ((machine devices).exec boot events) :=
  (machine devices).inv_exec_of (inv_boot devices) (fun _ _ h hsat => h.step hsat) events hsat

/-- Where nothing was minted, every device owns its input as at boot. -/
theorem Inv.view_new (h : Inv devices s) (hnil : s.minted = []) (d : DeviceId) :
    s.heard d = [] ∧ s.views d = .new d := by
  rcases h.fits d with hnew | hfits
  · exact hnew
  · obtain ⟨c, hc, -⟩ := hfits.claim
    have hmem := h.heard d c hc
    rw [hnil] at hmem
    cases hmem

/-- A device has heard every claim once all are delivered. -/
theorem Inv.mem_heard (h : Inv devices s) (hdel : s.Delivered devices) {d : DeviceId}
    (hd : d ∈ devices) {c : Claim} (hc : c ∈ s.minted) : c ∈ s.heard d := by
  by_cases hm : d = c.minter
  · rw [hm]
    exact (h.minter c hc).2
  · exact hdel c hc d hd hm

/-- Once all claims are delivered and there is one, every view is one of them. -/
theorem Inv.fits_delivered (h : Inv devices s) (hdel : s.Delivered devices) {c : Claim}
    (hc : c ∈ s.minted) {d : DeviceId} (hd : d ∈ devices) : (s.views d).Fits d (s.heard d) := by
  rcases h.fits d with ⟨hnil, -⟩ | hfits
  · have hmem := h.mem_heard hdel hd hc
    rw [hnil] at hmem
    cases hmem
  · exact hfits

/-! ## When the devices agree -/

/-- The owner that every device holds once the claims are settled. -/
theorem Inv.view_eq (h : Inv devices s) (hdel : s.Delivered devices) {c : Claim}
    (hc : c ∈ s.minted) (hmax : ∀ c' ∈ s.minted, c'.epoch ≤ c.epoch)
    (hgrants : ∀ g ∈ s.minted, g.epoch = c.epoch → g.isReclaim = false → g.owner = c.owner)
    (hreclaims : ∀ r ∈ s.minted, r.epoch = c.epoch → r.isReclaim = true → c.owner ≤ r.owner ∧
      ∃ w ∈ s.minted, w.epoch = c.epoch ∧ w.isReclaim = true ∧ w.owner = c.owner)
    {d : DeviceId} (hd : d ∈ devices) :
    (s.views d).owner = c.owner ∧ (s.views d).epoch = c.epoch := by
  have hfits := h.fits_delivered hdel hc hd
  obtain ⟨v, hv, howner, hepoch, horigin⟩ := hfits.claim
  have hvm : v ∈ s.minted := h.heard d v hv
  have heq : (s.views d).epoch = c.epoch := by
    refine UInt64.le_antisymm ?_ (hfits.greatest c (h.mem_heard hdel hd hc))
    rw [hepoch]
    exact hmax v hvm
  refine ⟨?_, heq⟩
  rw [howner]
  cases hkind : v.isReclaim with
  | false => exact hgrants v hvm (hepoch.symm.trans heq) hkind
  | true =>
    obtain ⟨hle, w, hw, hwe, hwr, hwo⟩ := hreclaims v hvm (hepoch.symm.trans heq) hkind
    refine le_antisymm ?_ hle
    -- the winner of the reclaims has reached the device
    have hlow := hfits.lowest (horigin.trans hkind) w (h.mem_heard hdel hd hw) (hwe.trans heq.symm)
      hwr
    rw [howner, hwo] at hlow
    exact hlow

/-- Agreement of the devices leaves the claims settled: the minters of the claims of the greatest
epoch hold their own kind of claim. -/
theorem Inv.settled (h : Inv devices s) (hdel : s.Delivered devices) (hne : s.minted ≠ [])
    (hagree : s.Agree devices) : Settled s.minted := by
  obtain ⟨c₀, hc₀⟩ := List.exists_mem_of_ne_nil _ hne
  have hd₀ := (h.minter c₀ hc₀).1
  have hfits := h.fits_delivered hdel hc₀ hd₀
  obtain ⟨c, hc, howner, hepoch, -⟩ := hfits.claim
  have hsame : ∀ d ∈ devices, (s.views d).owner = c.owner ∧ (s.views d).epoch = c.epoch := by
    intro d hd
    obtain ⟨ho, he⟩ := hagree d hd _ hd₀
    exact ⟨ho.trans howner, he.trans hepoch⟩
  refine ⟨c, h.heard _ c hc, ?_, ?_, ?_⟩
  · intro c' hc'
    rw [← hepoch]
    exact hfits.greatest c' (h.mem_heard hdel hd₀ hc')
  · intro g hg hge hgrant
    obtain ⟨hm, hheard⟩ := h.minter g hg
    obtain ⟨ho, he⟩ := hsame _ hm
    have hown := (h.fits_delivered hdel hg hm).own g hheard rfl (hge.trans he.symm)
    rw [← hown.2 hgrant, ho]
  · intro r hr hre hreclaim
    obtain ⟨hm, hheard⟩ := h.minter r hr
    obtain ⟨ho, he⟩ := hsame _ hm
    have hfitsr := h.fits_delivered hdel hr hm
    have horigin := (hfitsr.own r hheard rfl (hre.trans he.symm)).1.trans hreclaim
    obtain ⟨w, hw, hwo, hwe, hwr⟩ := hfitsr.claim
    refine ⟨?_, w, h.heard _ w hw, hwe.symm.trans he, hwr.symm.trans horigin, hwo.symm.trans ho⟩
    rw [← ho]
    exact hfitsr.lowest horigin r hheard (hre.trans he.symm) hreclaim

/-- **When one owner is left.** In every run in which no epoch saturates, once every claim has
reached every device, the devices hold one owner and one epoch exactly when the claims are settled,
or when there is no claim and at most one device. -/
theorem agree_iff (devices : Finset DeviceId) (events : List ClusterEvent)
    (hsat : ∀ e ∈ (machine devices).trace boot events, ¬ e.pre.Saturates e.input)
    (hdel : ((machine devices).exec boot events).Delivered devices) :
    ((machine devices).exec boot events).Agree devices ↔
      (((machine devices).exec boot events).minted = [] ∧
        (devices : Set DeviceId).Subsingleton) ∨
      Settled ((machine devices).exec boot events).minted := by
  have h := inv_exec hsat
  generalize (machine devices).exec boot events = s at *
  refine ⟨?_, ?_⟩
  · intro hagree
    by_cases hnil : s.minted = []
    · refine .inl ⟨hnil, ?_⟩
      intro d hd d' hd'
      have howner := (hagree d hd d' hd').1
      rwa [(h.view_new hnil d).2, (h.view_new hnil d').2] at howner
    · exact .inr (h.settled hdel hnil hagree)
  · rintro (⟨-, hone⟩ | ⟨c, hc, hmax, hgrants, hreclaims⟩)
    · intro d hd d' hd'
      rw [hone hd hd']
      exact ⟨rfl, rfl⟩
    · intro d hd d' hd'
      obtain ⟨ho, he⟩ := h.view_eq hdel hc hmax hgrants hreclaims hd
      obtain ⟨ho', he'⟩ := h.view_eq hdel hc hmax hgrants hreclaims hd'
      exact ⟨ho.trans ho'.symm, he.trans he'.symm⟩

/-- A grant that reaches everybody. -/
def handover : List ClusterEvent :=
  [.grantTo (.fill 1) (.fill 2), .deliver (.fill 2) ⟨.fill 1, .fill 2, 1, false⟩]

theorem agree_handover :
    ((machine {.fill 1, .fill 2}).exec boot handover).Delivered {.fill 1, .fill 2} ∧
      ((machine {.fill 1, .fill 2}).exec boot handover).Agree {.fill 1, .fill 2} := by
  have hdel : ((machine {.fill 1, .fill 2}).exec boot handover).Delivered {.fill 1, .fill 2} := by
    unfold Delivered
    decide +kernel
  have hsettled : Settled ((machine {.fill 1, .fill 2}).exec boot handover).minted := by
    unfold Settled
    decide +kernel
  have hsat : ∀ e ∈ (machine {.fill 1, .fill 2}).trace boot handover,
      ¬ e.pre.Saturates e.input := by
    decide +kernel
  have h := agree_iff _ handover hsat hdel
  exact ⟨hdel, h.2 (.inr hsettled)⟩

/-- The second device owns input and hands it to the third while the first takes it back. -/
def grantAndReclaim : List ClusterEvent :=
  [.grantTo (.fill 1) (.fill 2),
    .deliver (.fill 2) ⟨.fill 1, .fill 2, 1, false⟩,
    .deliver (.fill 3) ⟨.fill 1, .fill 2, 1, false⟩,
    .grantTo (.fill 2) (.fill 3), .reclaim (.fill 1),
    .deliver (.fill 1) ⟨.fill 2, .fill 3, 2, false⟩,
    .deliver (.fill 3) ⟨.fill 2, .fill 3, 2, false⟩,
    .deliver (.fill 2) ⟨.fill 1, .fill 1, 2, true⟩,
    .deliver (.fill 3) ⟨.fill 1, .fill 1, 2, true⟩]

/-- Both claims are of epoch 2, and neither displaces the other: the first device keeps input and
the others have given it to the third. -/
theorem grantAndReclaim_two_owners :
    let s := (machine {.fill 1, .fill 2, .fill 3}).exec boot grantAndReclaim
    (∀ e ∈ (machine {.fill 1, .fill 2, .fill 3}).trace boot grantAndReclaim,
      ¬ e.pre.Saturates e.input) ∧
    s.Delivered {.fill 1, .fill 2, .fill 3} ∧
    (s.views (.fill 1)).owner = .fill 1 ∧ (s.views (.fill 3)).owner = .fill 3 ∧
    ¬ s.Agree {.fill 1, .fill 2, .fill 3} := by
  have hdel : ((machine {.fill 1, .fill 2, .fill 3}).exec boot grantAndReclaim).Delivered
      {.fill 1, .fill 2, .fill 3} := by
    unfold Delivered
    decide +kernel
  have hsat : ∀ e ∈ (machine {.fill 1, .fill 2, .fill 3}).trace boot grantAndReclaim,
      ¬ e.pre.Saturates e.input := by
    decide +kernel
  have hfirst : (((machine {.fill 1, .fill 2, .fill 3}).exec boot grantAndReclaim).views
      (.fill 1)).owner = .fill 1 := by
    decide +kernel
  have hthird : (((machine {.fill 1, .fill 2, .fill 3}).exec boot grantAndReclaim).views
      (.fill 3)).owner = .fill 3 := by
    decide +kernel
  refine ⟨hsat, hdel, hfirst, hthird, ?_⟩
  intro hagree
  have hsame := (hagree (.fill 1) (by decide +kernel) (.fill 3) (by decide +kernel)).1
  rw [hfirst, hthird] at hsame
  exact absurd hsame (by decide +kernel)

/-! ## Reclaims converge -/

/-- The event is no grant. -/
def OnlyReclaims : ClusterEvent → Prop
  | .grantTo .. => False
  | .reclaim _ | .deliver .. => True

/-- All claims are reclaims, each for the device that minted it. -/
def Reclaimed (s : Cluster) : Prop :=
  ∀ c ∈ s.minted, c.isReclaim = true ∧ c.owner = c.minter

theorem Reclaimed.step (h : s.Reclaimed) {e : ClusterEvent} (he : OnlyReclaims e) :
    (s.step devices e).Reclaimed := by
  cases e with
  | grantTo d target => exact he.elim
  | reclaim d =>
    by_cases hd : d ∈ devices
    · rw [Cluster.step, if_pos hd]
      intro c hc
      rcases List.mem_append.1 hc with hc | hc
      · exact h c hc
      · rw [List.mem_singleton.1 hc]
        exact ⟨rfl, rfl⟩
    · rw [Cluster.step, if_neg hd]
      exact h
  | deliver d c =>
    by_cases hd : d ∈ devices
    · rw [Cluster.step, if_pos hd, Cluster.onDeliver]
      split <;> exact h
    · rw [Cluster.step, if_neg hd]
      exact h

theorem reclaimed_exec {events : List ClusterEvent} (honly : ∀ e ∈ events, OnlyReclaims e) :
    ((machine devices).exec boot events).Reclaimed := by
  induction events using List.reverseRecOn with
  | nil => exact List.forall_mem_nil _
  | append_singleton events e ih =>
    rw [Machine.exec_concat]
    exact (ih fun e' he' => honly e' (List.mem_append_left _ he')).step
      (honly e (List.mem_append_right _ (.head _)))

/-- A view over reclaims is the best of them. -/
theorem Inv.best (h : Inv devices s) (hr : s.Reclaimed) {d : DeviceId}
    (hfits : (s.views d).Fits d (s.heard d)) :
    ∃ c, Best c (s.heard d) ∧ (s.views d).owner = c.owner ∧ (s.views d).epoch = c.epoch := by
  obtain ⟨c, hc, howner, hepoch, horigin⟩ := hfits.claim
  refine ⟨c, ⟨hc, ?_⟩, howner, hepoch⟩
  intro c' hc'
  rcases UInt64.lt_or_eq_of_le (hfits.greatest c' hc') with hlt | heq
  · exact .inl (hepoch ▸ hlt)
  · refine .inr ⟨heq.trans hepoch, ?_⟩
    rw [← howner]
    exact hfits.lowest (horigin.trans (hr c (h.heard d c hc)).1) c' hc' heq
      (hr c' (h.heard d c' hc')).1

/-- The best of some claims is the best of any part of them that has it. -/
theorem Best.mono {claims claims' : List Claim} {c : Claim} (h : Best c claims)
    (hsub : claims' ⊆ claims) (hc : c ∈ claims') : Best c claims' :=
  ⟨hc, fun c' hc' => h.2 c' (hsub hc')⟩

/-- Two best claims of the same list have one owner and one epoch. -/
theorem Best.eq {claims : List Claim} {c c' : Claim} (h : Best c claims) (h' : Best c' claims) :
    c.owner = c'.owner ∧ c.epoch = c'.epoch := by
  rcases h.2 c' h'.1 with hlt | ⟨heq, hle⟩
  · rcases h'.2 c h.1 with hlt' | ⟨heq', -⟩
    · exact absurd (UInt64.lt_trans hlt hlt') (UInt64.lt_irrefl _)
    · exact absurd heq'.symm (UInt64.ne_of_lt hlt)
  · rcases h'.2 c h.1 with hlt' | ⟨-, hle'⟩
    · exact absurd heq.symm (UInt64.ne_of_lt hlt')
    · exact ⟨le_antisymm hle hle', heq.symm⟩

/-- **Reclaims converge.** In every run of reclaims and deliveries in which no epoch saturates, each
device holds the best of the claims that it minted or received, or has seen none and owns its own
input. Once one was minted and all are delivered, every device holds the best of them all. -/
theorem reclaims_converge (devices : Finset DeviceId) (events : List ClusterEvent)
    (honly : ∀ e ∈ events, OnlyReclaims e)
    (hsat : ∀ e ∈ (machine devices).trace boot events, ¬ e.pre.Saturates e.input) :
    (∀ d,
      (((machine devices).exec boot events).heard d = [] ∧
        ((machine devices).exec boot events).views d = .new d) ∨
      ∃ c, Best c (((machine devices).exec boot events).heard d) ∧
        (((machine devices).exec boot events).views d).owner = c.owner ∧
        (((machine devices).exec boot events).views d).epoch = c.epoch) ∧
    (((machine devices).exec boot events).Delivered devices →
      ((machine devices).exec boot events).minted ≠ [] →
      ∃ c, Best c ((machine devices).exec boot events).minted ∧ c.owner = c.minter ∧
        ∀ d ∈ devices, (((machine devices).exec boot events).views d).owner = c.owner ∧
          (((machine devices).exec boot events).views d).epoch = c.epoch) := by
  have h := inv_exec hsat
  have hr : ((machine devices).exec boot events).Reclaimed := reclaimed_exec honly
  generalize (machine devices).exec boot events = s at *
  refine ⟨?_, ?_⟩
  · intro d
    rcases h.fits d with hnew | hfits
    · exact .inl hnew
    · exact .inr (h.best hr hfits)
  · intro hdel hne
    obtain ⟨c₀, hc₀⟩ := List.exists_mem_of_ne_nil _ hne
    have hbest : ∀ d ∈ devices, ∃ c, Best c s.minted ∧
        (s.views d).owner = c.owner ∧ (s.views d).epoch = c.epoch := by
      intro d hd
      obtain ⟨c, hc, hview⟩ := h.best hr (h.fits_delivered hdel hc₀ hd)
      exact ⟨c, hc.mono (fun c' hc' => h.mem_heard hdel hd hc') (h.heard d c hc.1), hview⟩
    obtain ⟨c, hc, -⟩ := hbest _ (h.minter c₀ hc₀).1
    refine ⟨c, hc, (hr c hc.1).2, ?_⟩
    intro d hd
    obtain ⟨c', hc', howner, hepoch⟩ := hbest d hd
    obtain ⟨ho, he⟩ := hc'.eq hc
    exact ⟨howner.trans ho, hepoch.trans he⟩

/-- Two devices reclaim at once, and each sees the other's claim. -/
def reclaimTwice : List ClusterEvent :=
  [.reclaim (.fill 1), .reclaim (.fill 2),
    .deliver (.fill 1) ⟨.fill 2, .fill 2, 1, true⟩, .deliver (.fill 2) ⟨.fill 1, .fill 1, 1, true⟩]

theorem reclaims_converge_reclaimTwice :
    (∀ e ∈ reclaimTwice, OnlyReclaims e) ∧
    ((machine {.fill 1, .fill 2}).exec boot reclaimTwice).Delivered {.fill 1, .fill 2} ∧
    ∃ c, Best c ((machine {.fill 1, .fill 2}).exec boot reclaimTwice).minted ∧
      c.owner = c.minter ∧
      ∀ d ∈ ({.fill 1, .fill 2} : Finset DeviceId),
        (((machine {.fill 1, .fill 2}).exec boot reclaimTwice).views d).owner = c.owner ∧
        (((machine {.fill 1, .fill 2}).exec boot reclaimTwice).views d).epoch = c.epoch := by
  have honly : ∀ e ∈ reclaimTwice, OnlyReclaims e := by
    simp [reclaimTwice, OnlyReclaims]
  have hsat : ∀ e ∈ (machine {.fill 1, .fill 2}).trace boot reclaimTwice,
      ¬ e.pre.Saturates e.input := by
    decide +kernel
  have hdel :
      ((machine {.fill 1, .fill 2}).exec boot reclaimTwice).Delivered {.fill 1, .fill 2} := by
    unfold Delivered
    decide +kernel
  have hne : ((machine {.fill 1, .fill 2}).exec boot reclaimTwice).minted ≠ [] := by
    decide +kernel
  have h := reclaims_converge _ reclaimTwice honly hsat
  exact ⟨honly, hdel, h.2 hdel hne⟩

end run

end Cluster

end Mouser
