import Mouser.Engine.Effect

/-!
# Anti-replay

The replay guard is wiped by every grant, every reclaim and every accepted transfer, and a tie
between two reclaims moves ownership without raising the epoch. What keeps an old frame out all
the same is a property of the whole state (`Past`): as long as the epoch of an injected frame is
the current one, either the device is still authorized at that epoch and the guard remembers the
frame, or it can no longer become authorized at that epoch, since no claim that names it can win a
tie there. The property holds at every epoch, the saturated one included.
-/

namespace Mouser

/-! ## What the guard remembers -/

namespace ReplayGuard

section slot

variable {α : Type} [LE α] [DecidableLE α] {g : ReplayGuard} {slot : Slot α} {e cur : UInt64}
  {x : α}

/-- The guard has seen a value of at least `x`. -/
def Saw {α : Type} [LE α] (slot : Slot α) (x : α) (g : ReplayGuard) : Prop :=
  ∃ last, slot.last g = some last ∧ x ≤ last

theorem enter_epoch (g : ReplayGuard) (e : UInt64) : (g.enter e).epoch = e := by
  unfold enter
  split
  · rfl
  · next h => exact not_not.1 h

theorem enter_self (h : g.epoch = e) : g.enter e = g :=
  if_neg (not_not.2 h)

/-- A check at the guard's own epoch records the value or leaves the guard alone. -/
theorem accept_cases (g : ReplayGuard) (slot : Slot α) (e : UInt64) (x : α) :
    (g.accept slot e x g.epoch).1 = g ∨
      ((g.accept slot e x g.epoch).2 = true ∧ e = g.epoch ∧
        (g.accept slot e x g.epoch).1 = slot.record g x) := by
  unfold accept
  split
  · exact .inl rfl
  · next he =>
    rw [enter_self (not_not.1 he).symm]
    dsimp only
    split
    · exact .inl rfl
    · exact .inr ⟨rfl, not_not.1 he, rfl⟩

theorem accept_epoch (g : ReplayGuard) (slot : Slot α) (e : UInt64) (x : α) :
    (g.accept slot e x g.epoch).1.epoch = g.epoch := by
  rcases accept_cases g slot e x with h | ⟨-, -, h⟩
  · rw [h]
  · rw [h, slot.epoch_record]

/-- What was seen stays seen when a value of another kind is checked. -/
theorem Saw.accept_other {β : Type} [LE β] {seen : Slot β} {y : β} (h : Saw seen y g)
    (hother : ∀ g x, seen.last (slot.record g x) = seen.last g) (e : UInt64) (x : α) :
    Saw seen y (g.accept slot e x g.epoch).1 := by
  rcases accept_cases g slot e x with heq | ⟨-, -, heq⟩
  · rwa [heq]
  · obtain ⟨last, hlast, hy⟩ := h
    exact ⟨last, by rw [heq, hother, hlast], hy⟩

variable [LT α] [Std.IsLinearOrder α] [Std.LawfulOrderLT α]

/-- A value that is accepted belongs to the current epoch, is above all that the guard remembers
of that epoch, and is remembered. -/
theorem accept_true (h : (g.accept slot e x cur).2 = true) :
    e = cur ∧ (g.accept slot e x cur).1.epoch = e ∧ Saw slot x (g.accept slot e x cur).1 ∧
      ∀ y, g.epoch = e → Saw slot y g → y < x := by
  unfold accept at h ⊢
  split at h
  · cases h
  · next he =>
    rw [if_neg he]
    dsimp only at h ⊢
    split at h
    · cases h
    · next hl =>
      rw [if_neg hl]
      refine ⟨not_not.1 he, ?_, ⟨x, slot.last_record _ x, Std.le_refl x⟩, ?_⟩
      · rw [slot.epoch_record]
        exact enter_epoch g e
      · rintro y hg ⟨last, hlast, hy⟩
        rw [enter_self hg, hlast] at hl
        have hlt : ¬ x ≤ last := by simpa using hl
        exact Std.lt_of_le_of_lt hy (Std.not_le.1 hlt)

/-- What was seen stays seen when a value of the same kind is checked. -/
theorem Saw.accept {y : α} (h : Saw slot y g) (e : UInt64) (x : α) :
    Saw slot y (g.accept slot e x g.epoch).1 := by
  rcases accept_cases g slot e x with heq | ⟨hacc, he, -⟩
  · rwa [heq]
  · obtain ⟨-, -, ⟨last, hlast, hx⟩, hnew⟩ := accept_true hacc
    have hyx : y < x := hnew y he.symm h
    exact ⟨last, hlast, Std.le_trans (Std.le_of_lt hyx) hx⟩

end slot

/-- What the guard knows of its epoch is not lost by another check at that epoch. -/
structure Lasting (seen : ReplayGuard → Prop) : Prop where
  ctr : ∀ g e ctr, seen g → seen (g.acceptCtr e ctr g.epoch).1
  seq : ∀ g e seq, seen g → seen (g.acceptSeq e seq g.epoch).1

theorem sawCtr_lasting (ctr : UInt64) : Lasting (Saw ctrSlot ctr) where
  ctr _ e c h := h.accept e c
  seq _ e q h := h.accept_other (fun _ _ => rfl) e q

theorem sawSeq_lasting (seq : UInt32) : Lasting (Saw seqSlot seq) where
  ctr _ e c h := h.accept_other (fun _ _ => rfl) e c
  seq _ e q h := h.accept e q

end ReplayGuard

namespace EngineCore

open ReplayGuard (Saw Lasting ctrSlot seqSlot)

/-! ## What the state remembers -/

/-- A frame of epoch `e`, which the guard remembers by `seen`, can never be injected again. -/
structure Past (seen : ReplayGuard → Prop) (e : UInt64) (s : EngineCore) : Prop where
  le_epoch : e ≤ s.epoch
  /-- No claim that names this device wins a tie at the frame's epoch. -/
  no_tie : e = s.epoch → ¬ s.me < s.owner ∨ s.ownership.reclaimOrigin = false
  guarded : e = s.epoch → s.inputAuth.acceptedEpoch = some e → s.guard.epoch = e ∧ seen s.guard

section past

variable {s s' : EngineCore} {seen : ReplayGuard → Prop} {e : UInt64} {c : Call}
  {acts : List Action}

/-- A past frame stays past when ownership does not move and the guard stays within its epoch. -/
theorem Past.of_sameOwnership (h : Past seen e s) (hs : SameOwnership s s')
    (hg : e = s.epoch → s.guard.epoch = e → seen s.guard → s'.guard.epoch = e ∧ seen s'.guard) :
    Past seen e s' := by
  have hepoch : s'.epoch = s.epoch := congrArg Ownership.epoch hs.ownership
  refine ⟨hepoch ▸ h.le_epoch, ?_, ?_⟩
  · intro he
    have h1 := h.no_tie (he.trans hepoch)
    simpa only [me, owner, hs.ownership] using h1
  · intro he hacc
    have he' := he.trans hepoch
    obtain ⟨h1, h2⟩ := h.guarded he' (by rw [← hs.inputAuth]; exact hacc)
    exact hg he' h1 h2

theorem Past.of_sameHandoff (h : Past seen e s) (hs : SameHandoff s s') : Past seen e s' :=
  h.of_sameOwnership hs.toSameOwnership fun _ h1 h2 => by
    rw [hs.guard]
    exact ⟨h1, h2⟩

/-- A past frame stays past when the device mints an epoch: nothing is accepted any more, and the
minted claim either names this device or is no reclaim. -/
theorem Past.of_mint (h : Past seen e s) (hepoch : s'.epoch = s.epoch.saturatingAdd 1)
    (htie : ¬ s'.me < s'.owner ∨ s'.ownership.reclaimOrigin = false)
    (hacc : s'.inputAuth.acceptedEpoch = none) : Past seen e s' where
  le_epoch := hepoch ▸ UInt64.le_trans h.le_epoch (UInt64.le_saturatingAdd _ _)
  no_tie _ := htie
  guarded _ h' := by
    rw [hacc] at h'
    cases h'

theorem Past.reclaimLocal (h : Past seen e s) : Past seen e s.reclaimLocal.1 :=
  h.of_mint rfl (.inl (lt_irrefl s.me)) rfl

/-- A past frame stays past when a claim of the peer is adopted. -/
theorem Past.acceptTransfer (h : Past seen e s) {owner : DeviceId} {epoch : UInt64} {r : Bool}
    (had : s.ownership.Adopts owner epoch r) :
    Past seen e (s.acceptTransfer (s.ownership.adopt owner epoch r).1 owner epoch).1 := by
  have hadopt : (s.acceptTransfer (s.ownership.adopt owner epoch r).1 owner epoch).1.ownership =
      (s.ownership.adopt owner epoch r).1 := acceptTransfer_ownership ..
  rcases had with hlt | ⟨heq, hro, -, hlow⟩
  · -- the epoch grows past the frame's
    have hnew : e < (s.acceptTransfer (s.ownership.adopt owner epoch r).1 owner epoch).1.epoch := by
      rw [EngineCore.epoch, hadopt]
      exact UInt64.lt_of_le_of_lt h.le_epoch hlt
    exact ⟨UInt64.le_of_lt hnew, fun he => absurd (he ▸ hnew) (UInt64.lt_irrefl _),
      fun he => absurd (he ▸ hnew) (UInt64.lt_irrefl _)⟩
  · -- a tie: the owner only goes down, so it does not come back to this device
    subst heq
    refine ⟨by rw [EngineCore.epoch, hadopt]; exact h.le_epoch, ?_, ?_⟩
    · intro he
      rw [EngineCore.epoch, hadopt] at he
      rw [EngineCore.me, EngineCore.owner, hadopt]
      rcases h.no_tie he with h1 | h1
      · exact .inl fun h2 => h1 (h2.trans hlow)
      · rw [h1] at hro
        cases hro
    · intro he hacc
      rw [EngineCore.epoch, hadopt] at he
      have hne : owner ≠ s.me := by
        rintro rfl
        rcases h.no_tie he with h1 | h1
        · exact h1 hlow
        · rw [h1] at hro
          cases hro
      rw [acceptTransfer_adopt_inputAuth, if_neg hne] at hacc
      cases hacc

/-- **A past frame stays past.** Whatever is called, what can never be injected again stays so. -/
theorem Past.effect (hl : Lasting seen) (h : Past seen e s) (heff : Effect s c s' acts) :
    Past seen e s' := by
  cases heff with
  | quiet hc hs => exact h.of_sameHandoff hs
  | cross hrole hown hx =>
    rw [crossToPeer_eq s hown, Ownership.grantTo_of_isOwner hown]
    exact h.of_mint rfl (.inr rfl) rfl
  | reclaim pre post hc ht => exact (h.of_sameHandoff ht).reclaimLocal
  | adopt hto hauth had => exact h.acceptTransfer had
  | refuse => exact h
  | settle hp he hacc hs =>
    have h' : Past seen e { s with pendingAck := none } := ⟨h.le_epoch, h.no_tie, h.guarded⟩
    exact h'.of_sameHandoff hs
  | inputCtr hf hs hg =>
    refine h.of_sameOwnership hs ?_
    intro he hge hseen
    have hcur : s.epoch = s.guard.epoch := he.symm.trans hge.symm
    rw [hg, hcur]
    exact ⟨(ReplayGuard.accept_epoch ..).trans hge, hl.ctr _ _ _ hseen⟩
  | inputSeq hs hg =>
    refine h.of_sameOwnership hs ?_
    intro he hge hseen
    have hcur : s.epoch = s.guard.epoch := he.symm.trans hge.symm
    rw [hg, hcur]
    exact ⟨(ReplayGuard.accept_epoch ..).trans hge, hl.seq _ _ _ hseen⟩
  | failed =>
    cases hown : s.isOwner with
    | false =>
      rw [onInjectionFailed_of_not_isOwner s hown]
      exact ⟨h.le_epoch, h.no_tie, fun _ h' => by cases h'⟩
    | true =>
      rw [onInjectionFailed_of_isOwner s hown, Ownership.grantTo_of_isOwner hown]
      exact h.of_mint rfl (.inr rfl) rfl
  | trusted | allowed => exact ⟨h.le_epoch, h.no_tie, h.guarded⟩

/-- What is injected now is past from now on. -/
theorem Past.of_injected (hs : SameOwnership s s') (he : e = s.epoch)
    (hauth : s.authorizeInject e = true) (hg : s'.guard.epoch = e) (hseen : seen s'.guard) :
    Past seen e s' := by
  have hown : s.owner = s.me := by
    unfold authorizeInject at hauth
    exact Ownership.isOwner_iff.1 (Bool.and_eq_true_iff.1 hauth).1
  have hepoch : s'.epoch = s.epoch := congrArg Ownership.epoch hs.ownership
  refine ⟨?_, fun _ => .inl ?_, fun _ _ => ⟨hg, hseen⟩⟩
  · rw [hepoch, he]
    exact UInt64.le_refl _
  · have h : ¬ s.me < s.owner := hown ▸ lt_irrefl s.me
    simpa only [me, owner, hs.ownership] using h

end past

/-! ## What is injected in a run -/

/-- `a` comes before `b` in the lexicographic order. -/
def Before {α : Type} [LT α] (a b : UInt64 × α) : Prop := a.1 < b.1 ∨ (a.1 = b.1 ∧ a.2 < b.2)

/-- The `(owner_epoch, ctr)` of the step's frame, once for every key, button or scroll that the
step injects. -/
def injectedCtr (e : Machine.Entry EngineCore Call (List Action)) : List (UInt64 × UInt64) :=
  match e.input with
  | .control f => ((injects e.output).filter Inject.isReliable).filterMap fun _ => f.ctr?
  | _ => []

/-- The `(owner_epoch, seq)` of the step's datagram, once for every cursor move that the step
injects. -/
def injectedSeq (e : Machine.Entry EngineCore Call (List Action)) : List (UInt64 × UInt32) :=
  match e.input with
  | .motion (.motion m) =>
    ((injects e.output).filter fun i => i.ofPeer && !i.isReliable).map fun _ =>
      (m.ownerEpoch, m.seq)
  | _ => []

section emitted

variable {en : Machine.Entry EngineCore Call (List Action)}

/-- A step emits the pair of the frame it let through, or none. -/
theorem injectedCtr_cases (h : Effect en.pre en.input en.post en.output) :
    injectedCtr en = [] ∨ ∃ e ctr, injectedCtr en = [(e, ctr)] ∧ SameOwnership en.pre en.post ∧
      en.post.guard = (en.pre.guard.acceptCtr e ctr en.pre.epoch).1 ∧
      (en.pre.guard.acceptCtr e ctr en.pre.epoch).2 = true ∧ en.pre.authorizeInject e = true := by
  obtain ⟨s, c, acts, s'⟩ := en
  dsimp only at h ⊢
  by_cases hex : ∃ i ∈ injects acts, i.isReliable = true
  · obtain ⟨i, hi, hr⟩ := hex
    obtain ⟨rfl, hinj⟩ := h.injected (mem_injects.1 hi) (Inject.ofPeer_of_isReliable hr)
    cases hinj with
    | @reliable f e ctr _ hf _ hs hg hacc hauth =>
      refine .inr ⟨e, ctr, ?_, hs, hg, hacc, hauth⟩
      simp [injectedCtr, injects, hr, hf]
    | cursor hi =>
      rw [hi] at hr
      cases hr
  · left
    have hnone : (injects acts).filter Inject.isReliable = [] :=
      List.filter_eq_nil_iff.2 fun i hi hr => hex ⟨i, hi, hr⟩
    cases c <;> simp [injectedCtr, hnone]

/-- A step emits the pair of the datagram it let through, or none. -/
theorem injectedSeq_cases (h : Effect en.pre en.input en.post en.output) :
    injectedSeq en = [] ∨ ∃ e seq, injectedSeq en = [(e, seq)] ∧ SameOwnership en.pre en.post ∧
      en.post.guard = (en.pre.guard.acceptSeq e seq en.pre.epoch).1 ∧
      (en.pre.guard.acceptSeq e seq en.pre.epoch).2 = true ∧ en.pre.authorizeInject e = true := by
  obtain ⟨s, c, acts, s'⟩ := en
  dsimp only at h ⊢
  by_cases hex : ∃ i ∈ injects acts, i.ofPeer = true ∧ i.isReliable = false
  · obtain ⟨i, hi, hp, hr⟩ := hex
    obtain ⟨rfl, hinj⟩ := h.injected (mem_injects.1 hi) hp
    cases hinj with
    | reliable _ hi =>
      rw [hr] at hi
      cases hi
    | @cursor m _ hi hs hg hacc hauth =>
      refine .inr ⟨m.ownerEpoch, m.seq, ?_, hs, hg, hacc, hauth⟩
      simp [injectedSeq, injects, hp, hr]
  · left
    have hnone : (injects acts).filter (fun i => i.ofPeer && !i.isReliable) = [] :=
      List.filter_eq_nil_iff.2 fun i hi hr => hex ⟨i, hi, by simpa using hr⟩
    match c with
    | .motion (.motion m) => simp [injectedSeq, hnone]
    | .motion (.motionRel _) | .motion (.unknown _) | .control _ | .runtime _ => rfl

/-- Every injection of the peer's input is accounted for by the pair of a frame or a datagram. -/
theorem injected_length (h : Effect en.pre en.input en.post en.output) :
    ((injects en.output).filter Inject.ofPeer).length =
      (injectedCtr en).length + (injectedSeq en).length := by
  obtain ⟨s, c, acts, s'⟩ := en
  dsimp only at h ⊢
  by_cases hex : ∃ i ∈ injects acts, i.ofPeer = true
  · obtain ⟨i, hi, hp⟩ := hex
    obtain ⟨rfl, hinj⟩ := h.injected (mem_injects.1 hi) hp
    cases hinj with
    | reliable hf hr => simp [injectedCtr, injectedSeq, injects, hp, hr, hf]
    | cursor hi =>
      subst hi
      rfl
  · have hall : ∀ i ∈ injects acts, i.ofPeer = false := fun i hi =>
      Bool.eq_false_iff.2 fun hp => hex ⟨i, hi, hp⟩
    have hpeer : (injects acts).filter Inject.ofPeer = [] :=
      List.filter_eq_nil_iff.2 fun i hi hp => hex ⟨i, hi, hp⟩
    have hctr : (injects acts).filter Inject.isReliable = [] :=
      List.filter_eq_nil_iff.2 fun i hi hr => hex ⟨i, hi, Inject.ofPeer_of_isReliable hr⟩
    have hseq : (injects acts).filter (fun i => i.ofPeer && !i.isReliable) = [] :=
      List.filter_eq_nil_iff.2 fun i hi hr => by simp [hall i hi] at hr
    match c with
    | .motion (.motion m) => simp [injectedCtr, injectedSeq, hpeer, hseq]
    | .control f => simp [injectedCtr, injectedSeq, hpeer, hctr]
    | .motion (.motionRel _) | .motion (.unknown _) | .runtime _ => rw [hpeer]; rfl

end emitted

/-- Past frames are remembered by the pair they carry: the rule `Machine.pairwise_emit` at a kind
of value that the guard keeps in `slot`. -/
theorem emit_pairwise {α : Type} [LE α] [DecidableLE α] [LT α] [Std.IsLinearOrder α]
    [Std.LawfulOrderLT α] {slot : ReplayGuard.Slot α}
    {emit : Machine.Entry EngineCore Call (List Action) → List (UInt64 × α)}
    (hlast : ∀ x, Lasting (Saw slot x))
    (hemit : ∀ en, Effect en.pre en.input en.post en.output → emit en = [] ∨
      ∃ e x, emit en = [(e, x)] ∧ SameOwnership en.pre en.post ∧
        en.post.guard = (en.pre.guard.accept slot e x en.pre.epoch).1 ∧
        (en.pre.guard.accept slot e x en.pre.epoch).2 = true ∧ en.pre.authorizeInject e = true)
    (s : EngineCore) (calls : List Call) :
    ((machine.trace s calls).flatMap emit).Pairwise Before := by
  refine machine.pairwise_emit (P := fun t (b : UInt64 × α) => Past (Saw slot b.2) b.1 t)
    ?_ ?_ ?_ ?_ s calls
  · intro t c b hb
    exact hb.effect (hlast b.2) (t.call_effect c)
  · intro t c b hb
    rcases hemit (machine.entry t c) (t.call_effect c) with hnil | ⟨e, x, heq, hs, hg, hacc, hauth⟩
    · rw [hnil] at hb
      cases hb
    · rw [heq, List.mem_singleton] at hb
      obtain ⟨he, hge, hsaw, -⟩ := ReplayGuard.accept_true hacc
      cases hb
      rw [← hg] at hge hsaw
      exact .of_injected hs he hauth hge hsaw
  · intro t c b hb d hd
    rcases hemit (machine.entry t c) (t.call_effect c) with hnil | ⟨e, x, heq, hs, hg, hacc, hauth⟩
    · rw [hnil] at hd
      cases hd
    · rw [heq, List.mem_singleton] at hd
      cases hd
      obtain ⟨rfl, -, -, hnew⟩ := ReplayGuard.accept_true hacc
      by_cases heb : b.1 = t.epoch
      · have hallow : t.inputAuth.acceptedEpoch = some t.epoch :=
          acceptedEpoch_of_authorizeInject hauth
        obtain ⟨hge, hsaw⟩ := hb.guarded heb (heb ▸ hallow)
        exact .inr ⟨heb, hnew b.2 (hge.trans heb) hsaw⟩
      · exact .inl (UInt64.lt_of_le_of_ne hb.le_epoch heb)
  · intro t c
    rcases hemit (machine.entry t c) (t.call_effect c) with hnil | ⟨e, x, heq, -⟩
    · rw [hnil]
      exact .nil
    · rw [heq]
      exact List.pairwise_singleton _ _

/-- **Anti-replay over whole runs.** In every run of a core of either role, the pairs
`(owner_epoch, ctr)` of the frames that led to a key, button or scroll injection are strictly
increasing, so are the pairs `(owner_epoch, seq)` of the datagrams that led to a cursor move, and
these are all the injections of the peer's input. -/
theorem injected_strictly_increasing (role : Role) (me peer : DeviceId) (layout : EdgeLayout)
    (calls : List Call) :
    let steps := machine.trace (new role me peer layout) calls
    (steps.flatMap injectedCtr).Pairwise Before ∧ (steps.flatMap injectedSeq).Pairwise Before ∧
      ∀ en ∈ steps, ((injects en.output).filter Inject.ofPeer).length =
        (injectedCtr en).length + (injectedSeq en).length := by
  intro steps
  refine ⟨emit_pairwise ReplayGuard.sawCtr_lasting (fun _ => injectedCtr_cases) _ calls,
    emit_pairwise ReplayGuard.sawSeq_lasting (fun _ => injectedSeq_cases) _ calls, ?_⟩
  intro en hen
  have heff := en.pre.call_effect en.input
  rw [machine.entry_of_mem hen] at heff ⊢
  exact injected_length heff

end EngineCore

end Mouser
