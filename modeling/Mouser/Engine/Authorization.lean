import Mouser.Engine.Effect

/-!
# Injection authorization

`accepted_epoch` is set by one operation only, the acceptance of a transfer that names this
device, and every operation that moves ownership or the epoch clears or renews it. So input of the
peer is injected only under a grant that was accepted earlier and has not been undone since
(`GrantedSince`).
-/

namespace Mouser

/-- The `owner_epoch` of the input a call delivers. -/
def Call.ownerEpoch? : Call → Option UInt64
  | .control f => f.ctr?.map Prod.fst
  | .motion (.motion m) => some m.ownerEpoch
  | _ => none

namespace EngineCore

/-- The step accepted a transfer of epoch `e` that names this device. -/
def AcceptsGrant (e : UInt64) (en : Machine.Entry EngineCore Call (List Action)) : Prop :=
  ∃ t, en.input = .control (.ownershipTransfer (some t)) ∧ toId t.recipient = some en.pre.me ∧
    t.ownerEpoch = e ∧ ackFrame e true none ∈ en.output

/-- The step minted a grant or a reclaim, reported a failed injection, or accepted a transfer that
names another device. -/
def Revokes (en : Machine.Entry EngineCore Call (List Action)) : Prop :=
  (∃ t, .sendControl (.ownershipTransfer t) ∈ en.output) ∨
    en.input = .runtime .injectionFailed ∨
    ∃ t owner, en.input = .control (.ownershipTransfer (some t)) ∧
      toId t.recipient = some owner ∧ owner ≠ en.pre.me ∧
      ackFrame t.ownerEpoch true none ∈ en.output

/-- A grant of epoch `e` was accepted, and no later step revoked it. -/
def GrantedSince (e : UInt64) (steps : List (Machine.Entry EngineCore Call (List Action))) : Prop :=
  ∃ before en after, steps = before ++ en :: after ∧ AcceptsGrant e en ∧
    ∀ en' ∈ after, ¬ Revokes en'

theorem GrantedSince.concat {e : UInt64}
    {steps : List (Machine.Entry EngineCore Call (List Action))}
    {en : Machine.Entry EngineCore Call (List Action)} (h : GrantedSince e steps)
    (hen : ¬ Revokes en) : GrantedSince e (steps ++ [en]) := by
  obtain ⟨before, g, after, rfl, hg, hafter⟩ := h
  refine ⟨before, g, after ++ [en], by simp, hg, ?_⟩
  intro x hx
  rcases List.mem_append.1 hx with hx | hx
  · exact hafter x hx
  · rwa [List.mem_singleton.1 hx]

/-- An accepted epoch is the current one, this device is the owner, and the grant stands. -/
def Authorized (steps : List (Machine.Entry EngineCore Call (List Action))) (s : EngineCore) :
    Prop :=
  ∀ e, s.inputAuth.acceptedEpoch = some e → s.isOwner = true ∧ s.epoch = e ∧ GrantedSince e steps

section step

variable {s s' : EngineCore} {c : Call} {acts : List Action}
  {steps : List (Machine.Entry EngineCore Call (List Action))}

/-- Quiet actions on a call that reports no failed injection revoke nothing. -/
theorem not_revokes_of_quiet (hc : c ≠ .runtime .injectionFailed)
    (ha : ∀ a ∈ acts, a.isQuiet = true) : ¬ Revokes ⟨s, c, acts, s'⟩ := by
  rintro (⟨t, ht⟩ | h | ⟨t, owner, -, -, -, ht⟩)
  · cases ha _ ht
  · exact hc h
  · cases ha _ ht

/-- A call that keeps ownership and revokes nothing keeps the state authorized. -/
theorem Authorized.keep (h : Authorized steps s) (ho : s'.ownership = s.ownership)
    (hacc : s'.inputAuth.acceptedEpoch = s.inputAuth.acceptedEpoch)
    (hrev : ¬ Revokes ⟨s, c, acts, s'⟩) : Authorized (steps ++ [⟨s, c, acts, s'⟩]) s' := by
  intro e he
  obtain ⟨hown, hepoch, hg⟩ := h e (hacc ▸ he)
  refine ⟨?_, ?_, hg.concat hrev⟩
  · simpa only [isOwner, ho] using hown
  · simpa only [EngineCore.epoch, ho] using hepoch

/-- A call that leaves no accepted epoch keeps the state authorized. -/
theorem Authorized.of_revoked (hacc : s'.inputAuth.acceptedEpoch = none) :
    Authorized steps s' := by
  intro e he
  rw [hacc] at he
  cases he

/-- **One step.** Every call keeps an accepted epoch tied to a standing grant. -/
theorem Authorized.effect (h : Authorized steps s) (heff : Effect s c s' acts) :
    Authorized (steps ++ [⟨s, c, acts, s'⟩]) s' := by
  cases heff with
  | quiet hc hs ha =>
    exact h.keep hs.ownership (by rw [hs.inputAuth]) (not_revokes_of_quiet hc.not_failed ha)
  | cross hrole hown =>
    rw [crossToPeer_eq s hown]
    exact .of_revoked rfl
  | reclaim => exact .of_revoked rfl
  | @adopt t owner hto =>
    by_cases ho : owner = s.me
    · subst ho
      intro e he
      rw [acceptTransfer_adopt_inputAuth, if_pos rfl] at he
      cases he
      refine ⟨?_, ?_, steps, _, [], rfl, ⟨t, rfl, hto, rfl, ?_⟩, by simp⟩
      · simp [isOwner, Ownership.isOwner_iff, Ownership.adopt, me]
      · simp [EngineCore.epoch, Ownership.adopt]
      · rw [acceptTransfer_actions]
        simp
    · refine .of_revoked ?_
      rw [acceptTransfer_adopt_inputAuth, if_neg ho]
      rfl
  | refuse => exact h.keep rfl rfl (by simp [Revokes, ackFrame])
  | settle hp he hacc hs ha =>
    exact h.keep hs.ownership (by rw [hs.inputAuth]) (not_revokes_of_quiet (by simp) ha)
  | inputCtr hf hs hg hh ha =>
    refine h.keep hs.ownership (by rw [hs.inputAuth]) ?_
    rcases ha with rfl | ⟨i, rfl, -⟩ <;> simp [Revokes, ackFrame]
  | inputSeq hs hg hh ha =>
    refine h.keep hs.ownership (by rw [hs.inputAuth]) ?_
    rcases ha with rfl | ⟨rfl, -⟩ <;> simp [Revokes, ackFrame]
  | failed => exact .of_revoked s.onInjectionFailed_acceptedEpoch
  | trusted | allowed => exact h.keep rfl rfl (by simp [Revokes])

end step

/-- The epoch of injected input is an authorized one. -/
theorem Injected.authorized {s s' : EngineCore} {c : Call} {i : Inject} (h : Injected s i c s') :
    ∃ e, c.ownerEpoch? = some e ∧ s.authorizeInject e = true := by
  cases h with
  | reliable hf _ _ _ _ hauth => exact ⟨_, by simp [Call.ownerEpoch?, hf], hauth⟩
  | cursor _ _ _ _ hauth => exact ⟨_, rfl, hauth⟩

/-- In every run an accepted epoch is tied to a standing grant. -/
theorem authorized_exec (role : Role) (me peer : DeviceId) (layout : EdgeLayout)
    (calls : List Call) :
    Authorized (machine.trace (new role me peer layout) calls)
      (machine.exec (new role me peer layout) calls) := by
  refine machine.induct (P := Authorized) (G := fun _ => True) (.of_revoked rfl) ?_ calls
    fun _ _ => trivial
  intro steps s c h _
  exact h.effect (s.call_effect c)

/-- **Injection authorization.** After any run, a call injects a key, a button, a scroll or a
cursor move only while this device is the owner, the peer is trusted and input is allowed, and
only for input of the current epoch, which is the epoch of a grant that was accepted earlier and
has not been revoked since. In every reachable state an accepted epoch is the current one and this
device is the owner. -/
theorem injection_authorized (role : Role) (me peer : DeviceId) (layout : EdgeLayout)
    (calls : List Call) :
    let s := machine.exec (new role me peer layout) calls
    let steps := machine.trace (new role me peer layout) calls
    (∀ c, ∀ i ∈ injects (s.call c).2, i.ofPeer = true →
      s.owner = s.me ∧ s.inputAuth.peerTrusted = true ∧ s.inputAuth.inputAllowed = true ∧
        c.ownerEpoch? = some s.epoch ∧ GrantedSince s.epoch steps) ∧
    ∀ e, s.inputAuth.acceptedEpoch = some e → s.owner = s.me ∧ s.epoch = e := by
  intro s steps
  have hauth : Authorized steps s := authorized_exec role me peer layout calls
  refine ⟨?_, ?_⟩
  · intro c i hi hp
    obtain ⟨e, hce, he⟩ : ∃ e, c.ownerEpoch? = some e ∧ s.authorizeInject e = true :=
      ((s.call_effect c).injected (mem_injects.1 hi) hp).2.authorized
    have hacc := acceptedEpoch_of_authorizeInject he
    obtain ⟨-, hepoch, hg⟩ := hauth e hacc
    subst hepoch
    simp only [authorizeInject, InputAuth.allowsEpoch, Bool.and_eq_true] at he
    exact ⟨Ownership.isOwner_iff.1 he.1, he.2.1.1, he.2.1.2, hce, hg⟩
  · intro e he
    obtain ⟨hown, hepoch, -⟩ := hauth e he
    exact ⟨Ownership.isOwner_iff.1 hown, hepoch⟩

end EngineCore

end Mouser
