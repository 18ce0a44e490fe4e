import Mouser.Core.Device
import Mouser.Lib.FixedWidth
import Mouser.Protocol.Messages

/-!
# The ownership state machine

One device owns input at a time. A view is the owner it believes in and the epoch at which that
owner took over; the owner hands over by minting the next epoch (`Ownership.grantTo`), a device
takes over by minting it for itself (`Ownership.reclaim`), and a claim seen on the wire is adopted
when its epoch is greater, or when it is a reclaim that wins the tie against a reclaim
(`Ownership.observe`).
-/

namespace Mouser

inductive RejectReason where
  | staleEpoch
  | lostTiebreak
  | equalEpochNotReclaim
deriving DecidableEq

inductive OwnershipUpdate where
  | accepted (owner : DeviceId) (epoch : UInt64)
  | rejected (reason : RejectReason)
deriving DecidableEq

/-- The local view of input ownership. -/
structure Ownership where
  me : DeviceId
  owner : DeviceId
  epoch : UInt64
  focus : FocusKind
  /-- Whether `(owner, epoch)` came from a reclaim and not from a grant. -/
  reclaimOrigin : Bool
deriving DecidableEq

namespace Ownership

/-- The view at boot: a device owns its own input, at epoch 0. -/
def new (me : DeviceId) : Ownership :=
  { me, owner := me, epoch := 0, focus := .active, reclaimOrigin := false }

def isOwner (o : Ownership) : Bool := o.owner = o.me

/-- The owner mints the next epoch for `target`; `none` from a device that is not the owner. -/
def grantTo (o : Ownership) (target : DeviceId) : Ownership × Option UInt64 :=
  if !o.isOwner then (o, none)
  else
    let newEpoch := o.epoch.saturatingAdd 1
    ({ o with
        owner := target
        epoch := newEpoch
        focus := if target = o.me then .active else .standby
        reclaimOrigin := false }, some newEpoch)

/-- The device mints the next epoch for itself. -/
def reclaim (o : Ownership) : Ownership × UInt64 :=
  let newEpoch := o.epoch.saturatingAdd 1
  ({ o with owner := o.me, epoch := newEpoch, focus := .active, reclaimOrigin := true }, newEpoch)

def adopt (o : Ownership) (owner : DeviceId) (epoch : UInt64) (isReclaim : Bool) :
    Ownership × OwnershipUpdate :=
  ({ o with
      owner := owner
      epoch := epoch
      focus := if owner = o.me then .active else .standby
      reclaimOrigin := isReclaim }, .accepted owner epoch)

/-- Apply a claim seen on the wire. -/
def observe (o : Ownership) (owner : DeviceId) (epoch : UInt64) (isReclaim : Bool) :
    Ownership × OwnershipUpdate :=
  if epoch > o.epoch then o.adopt owner epoch isReclaim
  else if epoch = o.epoch ∧ owner ≠ o.owner then
    if !(o.reclaimOrigin && isReclaim) then (o, .rejected .equalEpochNotReclaim)
    else if owner < o.owner then o.adopt owner epoch isReclaim
    else (o, .rejected .lostTiebreak)
  else (o, .rejected .staleEpoch)

/-- `observe`, keyed on the wire reason. -/
def observeWithReason (o : Ownership) (owner : DeviceId) (epoch : UInt64)
    (reason : TransferReason) : Ownership × OwnershipUpdate :=
  o.observe owner epoch (reason = .localReclaim)

def markInputBlocked (o : Ownership) : Ownership := { o with focus := .inputBlocked }

def markDisconnected (o : Ownership) : Ownership := { o with focus := .disconnected }

/-! ## What each operation can do -/

theorem isOwner_iff {o : Ownership} : o.isOwner = true ↔ o.owner = o.me := by
  simp [isOwner]

theorem grantTo_of_isOwner {o : Ownership} (h : o.isOwner = true) (target : DeviceId) :
    o.grantTo target =
      ({ o with
          owner := target
          epoch := o.epoch.saturatingAdd 1
          focus := if target = o.me then .active else .standby
          reclaimOrigin := false }, some (o.epoch.saturatingAdd 1)) := by
  simp [grantTo, h]

@[simp] theorem reclaim_me (o : Ownership) : o.reclaim.1.me = o.me := rfl
@[simp] theorem reclaim_owner (o : Ownership) : o.reclaim.1.owner = o.me := rfl
@[simp] theorem reclaim_epoch (o : Ownership) : o.reclaim.1.epoch = o.epoch.saturatingAdd 1 := rfl
@[simp] theorem reclaim_reclaimOrigin (o : Ownership) : o.reclaim.1.reclaimOrigin = true := rfl
@[simp] theorem reclaim_snd (o : Ownership) : o.reclaim.2 = o.epoch.saturatingAdd 1 := rfl

/-- When a claim is adopted: its epoch is greater, or it wins the tie between two reclaims. -/
def Adopts (o : Ownership) (owner : DeviceId) (epoch : UInt64) (isReclaim : Bool) : Prop :=
  o.epoch < epoch ∨
    (epoch = o.epoch ∧ o.reclaimOrigin = true ∧ isReclaim = true ∧ owner < o.owner)

/-- A claim is either adopted as it stands or leaves the view alone. -/
theorem observe_cases (o : Ownership) (owner : DeviceId) (epoch : UInt64) (isReclaim : Bool) :
    (o.Adopts owner epoch isReclaim ∧
      o.observe owner epoch isReclaim = o.adopt owner epoch isReclaim) ∨
    (¬ o.Adopts owner epoch isReclaim ∧
      ∃ r, o.observe owner epoch isReclaim = (o, .rejected r)) := by
  unfold observe Adopts
  by_cases hgt : epoch > o.epoch
  · exact .inl ⟨.inl hgt, if_pos hgt⟩
  rw [if_neg hgt]
  have hgt' : ¬ o.epoch < epoch := hgt
  by_cases heq : epoch = o.epoch ∧ owner ≠ o.owner
  · rw [if_pos heq]
    cases hr : (o.reclaimOrigin && isReclaim) with
    | false =>
      refine .inr ⟨?_, _, if_pos rfl⟩
      rintro (h | ⟨-, h1, h2, -⟩)
      · exact hgt' h
      · rw [h1, h2] at hr
        exact Bool.noConfusion hr
    | true =>
      obtain ⟨h1, h2⟩ := Bool.and_eq_true_iff.1 hr
      rw [if_neg (by decide)]
      by_cases hlt : owner < o.owner
      · exact .inl ⟨.inr ⟨heq.1, h1, h2, hlt⟩, if_pos hlt⟩
      · exact .inr ⟨by simp [hgt', hlt], _, if_neg hlt⟩
  · rw [if_neg heq]
    refine .inr ⟨?_, _, rfl⟩
    rintro (h | ⟨he, -, -, hlt⟩)
    · exact hgt' h
    · exact heq ⟨he, hlt.ne⟩

end Ownership

end Mouser
