import Mouser.Core.Ownership
import Mouser.Lib.Machine

/-!
# Claims and the view they leave

A claim is what a grant or a reclaim puts on the wire: who owns input from which epoch on, and
whether the owner took it. `Ownership.Fits` says what a view has to do with the claims that its
device minted or received, in whatever order they came: it is one of them, of the greatest epoch,
the lowest id among reclaims, and a device's own claim is not displaced by one of the other kind.

An epoch is minted with a saturating addition. `Ownership.mintsAbove_iff` says that a new claim
supersedes the view it was minted from exactly below the top of the type.
-/

namespace Mouser

/-- A claim, with the device that minted it. -/
structure Claim where
  minter : DeviceId
  owner : DeviceId
  epoch : UInt64
  isReclaim : Bool
deriving DecidableEq

namespace Ownership

/-- The view takes the claim over. -/
def Accepts (o : Ownership) (owner : DeviceId) (epoch : UInt64) (isReclaim : Bool) : Prop :=
  (o.observe owner epoch isReclaim).2 = .accepted owner epoch

theorem accepts_of_lt {o : Ownership} {epoch : UInt64} (h : o.epoch < epoch) (owner : DeviceId)
    (isReclaim : Bool) : o.Accepts owner epoch isReclaim := by
  rw [Accepts, observe, if_pos h]
  rfl

theorem observe_me (o : Ownership) (owner : DeviceId) (epoch : UInt64) (isReclaim : Bool) :
    (o.observe owner epoch isReclaim).1.me = o.me := by
  rcases o.observe_cases owner epoch isReclaim with ⟨-, heq⟩ | ⟨-, r, heq⟩
  · rw [heq]
    rfl
  · rw [heq]

/-! ## The claims behind a view -/

/-- The view of device `d` and the claims it minted or received. -/
structure Fits (o : Ownership) (d : DeviceId) (heard : List Claim) : Prop where
  /-- The view is one of the claims. -/
  claim : ∃ c ∈ heard, o.owner = c.owner ∧ o.epoch = c.epoch ∧ o.reclaimOrigin = c.isReclaim
  greatest : ∀ c ∈ heard, c.epoch ≤ o.epoch
  lowest : o.reclaimOrigin = true → ∀ c ∈ heard, c.epoch = o.epoch → c.isReclaim = true →
    o.owner ≤ c.owner
  own : ∀ c ∈ heard, c.minter = d → c.epoch = o.epoch →
    o.reclaimOrigin = c.isReclaim ∧ (c.isReclaim = false → o.owner = c.owner)

/-- A claim above everything heard so far, adopted as it stands. -/
theorem fits_new {o : Ownership} {d : DeviceId} {heard : List Claim} {c : Claim}
    (hclaim : o.owner = c.owner ∧ o.epoch = c.epoch ∧ o.reclaimOrigin = c.isReclaim)
    (habove : ∀ c' ∈ heard, c'.epoch < c.epoch) : o.Fits d (heard ++ [c]) := by
  obtain ⟨howner, hepoch, horigin⟩ := hclaim
  have honly : ∀ c' ∈ heard ++ [c], c'.epoch = o.epoch → c' = c := by
    intro c' hc' heq
    rcases List.mem_append.1 hc' with hc' | hc'
    · exact absurd (heq.trans hepoch) (UInt64.ne_of_lt (habove c' hc'))
    · exact List.mem_singleton.1 hc'
  refine ⟨⟨c, by simp, howner, hepoch, horigin⟩, ?_, ?_, ?_⟩
  · intro c' hc'
    rw [hepoch]
    rcases List.mem_append.1 hc' with hc' | hc'
    · exact UInt64.le_of_lt (habove c' hc')
    · rw [List.mem_singleton.1 hc']
      exact UInt64.le_rfl
  · intro _ c' hc' heq _
    rw [honly c' hc' heq, howner]
  · intro c' hc' _ heq
    rw [honly c' hc' heq]
    exact ⟨horigin, fun _ => howner⟩

/-- The view adopts the claim or stays, and fits the claims with it. A claim of its own has been
heard before. -/
theorem Fits.observe {o : Ownership} {d : DeviceId} {heard : List Claim} (h : o.Fits d heard)
    {c : Claim} (hown : c.minter = d → c ∈ heard) :
    (o.observe c.owner c.epoch c.isReclaim).1.Fits d (heard ++ [c]) := by
  rcases o.observe_cases c.owner c.epoch c.isReclaim with ⟨had, heq⟩ | ⟨hnot, r, heq⟩
  · rw [heq]
    rcases had with hlt | ⟨hepoch, horigin, hreclaim, hlt⟩
    · refine fits_new ⟨rfl, rfl, rfl⟩ ?_
      intro c' hc'
      exact UInt64.lt_of_le_of_lt (h.greatest c' hc') hlt
    -- a lower id wins the tie between two reclaims
    · refine ⟨⟨c, by simp, rfl, rfl, rfl⟩, ?_, ?_, ?_⟩
      · intro c' hc'
        rcases List.mem_append.1 hc' with hc' | hc'
        · exact hepoch ▸ h.greatest c' hc'
        · rw [List.mem_singleton.1 hc']
          exact UInt64.le_rfl
      · intro _ c' hc' heq' hr
        rcases List.mem_append.1 hc' with hc' | hc'
        · exact hlt.le.trans (h.lowest horigin c' hc' (heq'.trans hepoch) hr)
        · rw [List.mem_singleton.1 hc']
          exact le_rfl
      · intro c' hc' hminter heq'
        have hr : c'.isReclaim = true := by
          rcases List.mem_append.1 hc' with hc' | hc'
          · exact (h.own c' hc' hminter (heq'.trans hepoch)).1.symm.trans horigin
          · rw [List.mem_singleton.1 hc']
            exact hreclaim
        rw [hr]
        exact ⟨hreclaim, nofun⟩
  · rw [heq]
    have hge : ¬ o.epoch < c.epoch := fun hlt => hnot (.inl hlt)
    obtain ⟨c₀, hc₀, hmatch⟩ := h.claim
    refine ⟨⟨c₀, List.mem_append_left _ hc₀, hmatch⟩, ?_, ?_, ?_⟩
    · intro c' hc'
      rcases List.mem_append.1 hc' with hc' | hc'
      · exact h.greatest c' hc'
      · rw [List.mem_singleton.1 hc']
        exact UInt64.not_lt.1 hge
    · intro horigin c' hc' heq' hr
      rcases List.mem_append.1 hc' with hc' | hc'
      · exact h.lowest horigin c' hc' heq' hr
      · obtain rfl := List.mem_singleton.1 hc'
        refine not_lt.1 fun hlt => ?_
        exact hnot (.inr ⟨heq', horigin, hr, hlt⟩)
    · intro c' hc' hminter heq'
      rcases List.mem_append.1 hc' with hc' | hc'
      · exact h.own c' hc' hminter heq'
      · obtain rfl := List.mem_singleton.1 hc'
        exact h.own c' (hown hminter) hminter heq'

/-! ## A minted epoch supersedes -/

/-- A call on the ownership state machine. -/
inductive Op where
  | grantTo (target : DeviceId)
  | reclaim
  | observe (owner : DeviceId) (epoch : UInt64) (isReclaim : Bool)

/-- The state machine; a mint returns the epoch. -/
def machine : Machine Ownership Op (Option UInt64) where
  step o
    | .grantTo target => o.grantTo target
    | .reclaim => (o.reclaim.1, some o.reclaim.2)
    | .observe owner epoch isReclaim => ((o.observe owner epoch isReclaim).1, none)

/-- What is minted now is above the view, and a device that still holds the view accepts it. -/
structure MintsAbove (o : Ownership) : Prop where
  reclaim : o.epoch < o.reclaim.2
  grantTo : ∀ target epoch, (o.grantTo target).2 = some epoch → o.epoch < epoch
  accepted : ∀ q : Ownership, q.owner = o.owner → q.epoch = o.epoch →
    q.Accepts o.me o.reclaim.2 true ∧
      ∀ target epoch, (o.grantTo target).2 = some epoch → q.Accepts target epoch false

theorem grantTo_epoch {o : Ownership} {target : DeviceId} {epoch : UInt64}
    (h : (o.grantTo target).2 = some epoch) : epoch = o.epoch.saturatingAdd 1 := by
  unfold Ownership.grantTo at h
  split at h
  · cases h
  · exact (Option.some.inj h).symm

/-- **A minted epoch supersedes** the view it is minted from exactly below `u64::MAX`, in every
state that the calls can reach. -/
theorem mintsAbove_iff (me : DeviceId) (ops : List Op) :
    let o := machine.exec (.new me) ops
    MintsAbove o ↔ o.epoch ≠ .maxValue := by
  intro o
  refine ⟨?_, ?_⟩
  · intro h hmax
    have hlt := h.reclaim
    rw [reclaim_snd, hmax] at hlt
    exact absurd hlt (by decide)
  · intro hne
    have hlt := UInt64.lt_saturatingAdd_one (UInt64.lt_maxValue_of_ne hne)
    have hgrant : ∀ target epoch, (o.grantTo target).2 = some epoch → o.epoch < epoch := by
      intro target epoch h
      rw [grantTo_epoch h]
      exact hlt
    refine ⟨hlt, hgrant, ?_⟩
    intro q _ hepoch
    refine ⟨accepts_of_lt (hepoch ▸ hlt) _ _, ?_⟩
    intro target epoch h
    exact accepts_of_lt (hepoch ▸ hgrant target epoch h) _ _

/-- A peer's grant at the last epoch, which is adopted like any other. -/
def lastEpoch : List Op := [.observe (.fill 2) .maxValue false]

/-- The device cannot take input back then. -/
theorem lastEpoch_locked :
    let o := machine.exec (.new (.fill 1)) lastEpoch
    ¬ MintsAbove o ∧ o.owner = .fill 2 ∧ o.reclaim.2 = o.epoch ∧
      ¬ o.Accepts (.fill 1) o.reclaim.2 true := by
  intro o
  refine ⟨?_, ?_, ?_, ?_⟩
  · intro h
    exact absurd h.reclaim (by decide)
  · rfl
  · rfl
  · unfold Accepts
    decide

end Ownership

end Mouser
