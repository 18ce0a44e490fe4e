import Mouser.Engine.Handoff
import Mouser.Engine.Cursor

/-!
# The motion of one epoch

The motion of an epoch is numbered by a `u32` that does not go on at its top: the sender saturates
there, and the receiver takes a number that it has seen for a repetition. `motion_injected_iff` says
that this is the end of the motion: all of it is injected just when there is no more of it than
there are numbers, and the permission stands when it comes.
-/

namespace Mouser

/-- The motion datagrams among the actions of a call. -/
def motions (acts : List Action) : List PointerMotion :=
  acts.filterMap fun
    | .sendMotion m => some m
    | _ => none

/-- The motion that a call delivers. -/
def Call.motion? : Call → Option PointerMotion
  | .motion (.motion m) => some m
  | _ => none

theorem Call.eq_motion {c : Call} {m : PointerMotion} (h : c.motion? = some m) :
    c = .motion (.motion m) := by
  unfold Call.motion? at h
  split at h
  · cases h
    rfl
  · cases h

/-- A claim that is adopted names a new owner or a new epoch. -/
theorem Ownership.Adopts.moves {o : Ownership} {owner : DeviceId} {epoch : UInt64} {r : Bool}
    (h : o.Adopts owner epoch r) : ¬ (owner = o.owner ∧ epoch = o.epoch) := by
  rintro ⟨rfl, rfl⟩
  rcases h with hgreater | ⟨-, -, -, hwins⟩
  · exact UInt64.lt_irrefl _ hgreater
  · exact lt_irrefl _ hwins

namespace EngineCore

open ReplayGuard (lastIn ctrSlot seqSlot)

/-! ## The source -/

/-- The call makes a source that has given input away send motion: a cursor sample, or the answer to
its grant, after which it sends where the cursor of the peer is. -/
def samples (s : EngineCore) : Call → Bool
  | .runtime (.localInput (.cursorMoved ..)) => true
  | .control (.ownershipAck (some ack)) => s.pendingEpoch = some ack.ownerEpoch
  | _ => false

/-- What a call does to the numbers of the motion. -/
inductive Moves (s : EngineCore) (c : Call) (s' : EngineCore) (acts : List Action) : Prop
  | sent {m : PointerMotion} (hc : s.samples c = true) (hacts : motions acts = [m])
    (hepoch : m.ownerEpoch = s.epoch) (hseq : m.seq = s.outSeq.saturatingAdd 1)
    (hout : s'.outSeq = m.seq)
  | kept (hc : s.samples c = false) (hacts : motions acts = []) (hout : s'.outSeq = s.outSeq)

variable {e : UInt64} {s : EngineCore}

/-- A source that takes input back is the owner then. -/
theorem Forwarding.reclaim_owner (h : Forwarding e s) {t : EngineCore} (hme : t.me = s.me) :
    t.reclaimLocal.1.owner ≠ s.owner := by
  intro howner
  have haway := h.away
  rw [isOwner, Ownership.isOwner, decide_eq_false_iff_not] at haway
  exact haway (howner.symm.trans hme)

theorem Forwarding.same (h : Forwarding e s) {t : EngineCore} (hs : SameOwnership s t) :
    Forwarding e t := by
  refine ⟨hs.role.trans h.role, ?_, ?_, ?_⟩
  · rw [isOwner, hs.ownership]
    exact h.away
  · rw [epoch, hs.ownership]
    exact h.epoch_eq
  · rw [hs.pendingEpoch]
    exact h.pending

theorem Forwarding.moves_cursor (h : Forwarding e s) (d : UInt32) (x y dx dy : Int32)
    (howner : (s.onCursor x y dx dy false).1.owner = s.owner) :
    Moves s (.runtime (.localInput (.cursorMoved d x y dx dy)))
        (s.onCursor x y dx dy false).1 (s.onCursor x y dx dy false).2 ∧
      Forwarding e (s.onCursor x y dx dy false).1 := by
  have htravel : SameHandoff s (s.travelled dx dy) := ⟨⟨rfl, rfl, rfl, rfl, rfl, rfl⟩, rfl, rfl⟩
  have hmoved := htravel.trans ((s.travelled dx dy).movePeerCursor_same dx dy)
  have hseq : ((s.travelled dx dy).movePeerCursor dx dy).outSeq = s.outSeq :=
    movePeerCursor_outSeq ..
  have hcases := s.onCursor_cases x y dx dy false
  generalize s.onCursor x y dx dy false = r at howner hcases ⊢
  cases hcases with
  | escaped => exact absurd howner (h.reclaim_owner rfl)
  | pushed => exact absurd howner (h.reclaim_owner rfl)
  | returned ht =>
    rw [← ht] at hmoved
    exact absurd howner (h.reclaim_owner (congrArg Ownership.me hmoved.ownership))
  | @moved t ht =>
    rw [← ht] at hmoved hseq
    have hforwarding := h.same hmoved.toSameOwnership
    refine ⟨.sent rfl rfl (congrArg Ownership.epoch hmoved.ownership) ?_ rfl, ?_⟩
    · change t.outSeq.saturatingAdd 1 = _
      rw [hseq]
    · exact ⟨hforwarding.role, hforwarding.away, hforwarding.epoch_eq, hforwarding.pending⟩

/-- The steps that do not send motion keep what a source that has given input away is. -/
theorem Forwarding.moves_kept (h : Forwarding e s) {c : Call} {s' : EngineCore} {acts : List Action}
    (hc : s.samples c = false) (hs : SameOwnership s s') (hacts : motions acts = [])
    (hout : s'.outSeq = s.outSeq) : Moves s c s' acts ∧ Forwarding e s' :=
  ⟨.kept hc hacts hout, h.same hs⟩

theorem Forwarding.moves_localInput (h : Forwarding e s) (event : LocalInputEvent)
    (howner : (s.onLocalInput event).1.owner = s.owner) :
    Moves s (.runtime (.localInput event)) (s.onLocalInput event).1 (s.onLocalInput event).2 ∧
      Forwarding e (s.onLocalInput event).1 := by
  have haway := h.away
  cases event with
  | cursorMoved d x y dx dy =>
    rw [EngineCore.onLocalInput, if_neg (not_not.2 h.role)] at howner ⊢
    dsimp only at howner ⊢
    rw [haway] at howner ⊢
    exact h.moves_cursor d x y dx dy howner
  | key | button | scroll =>
    rw [EngineCore.onLocalInput, if_neg (not_not.2 h.role)]
    dsimp only
    rw [haway]
    exact h.moves_kept rfl ⟨rfl, rfl, rfl, rfl, rfl, rfl⟩ rfl rfl

theorem Forwarding.moves_tick (h : Forwarding e s) (howner : s.onTick.1.owner = s.owner) :
    Moves s (.runtime .tick) s.onTick.1 s.onTick.2 ∧ Forwarding e s.onTick.1 := by
  -- a silent peer makes the source take input back
  have hmisses : ∀ (t : EngineCore) (acts : List Action), SameOwnership s t → motions acts = [] →
      t.outSeq = s.outSeq → (t.tickMisses acts).1.owner = s.owner →
        Moves s (.runtime .tick) (t.tickMisses acts).1 (t.tickMisses acts).2 ∧
          Forwarding e (t.tickMisses acts).1 := by
    intro t acts hs hacts hout howner
    unfold tickMisses at howner ⊢
    dsimp only at howner ⊢
    split at howner
    · exact absurd howner (h.reclaim_owner (congrArg Ownership.me hs.ownership))
    · next hstays =>
      rw [if_neg hstays]
      exact h.moves_kept rfl
        ⟨hs.role, hs.peer, hs.layout, hs.ownership, hs.inputAuth, hs.pendingEpoch⟩ hacts hout
  cases hp : s.pendingAck with
  | some p =>
    simp only [EngineCore.onTick, hp] at howner ⊢
    by_cases hlate : p.ticksLeft = 0
    · rw [if_pos hlate] at howner
      exact absurd howner (h.reclaim_owner rfl)
    · rw [if_neg hlate] at howner ⊢
      refine hmisses _ _ ⟨rfl, rfl, rfl, rfl, rfl, ?_⟩ rfl rfl howner
      rw [pendingEpoch, pendingEpoch, hp]
      rfl
  | none =>
    simp only [EngineCore.onTick, hp] at howner ⊢
    refine hmisses _ _ ⟨rfl, rfl, rfl, rfl, rfl, ?_⟩ rfl rfl howner
    rw [pendingEpoch, pendingEpoch, hp]

theorem Forwarding.moves_transfer (h : Forwarding e s) (payload : Option OwnershipTransfer)
    (howner : (s.onTransfer payload).1.owner = s.owner)
    (hepoch : (s.onTransfer payload).1.epoch = s.epoch) :
    Moves s (.control (.ownershipTransfer payload)) (s.onTransfer payload).1
        (s.onTransfer payload).2 ∧ Forwarding e (s.onTransfer payload).1 := by
  have hkept : ∀ acts, motions acts = [] →
      Moves s (.control (.ownershipTransfer payload)) s acts ∧ Forwarding e s := fun acts hacts =>
    h.moves_kept rfl (.refl s) hacts rfl
  have hcases := s.onTransfer_cases payload
  generalize s.onTransfer payload = result at hcases howner hepoch
  cases hcases with
  | unread => exact hkept _ rfl
  | refused => exact hkept _ rfl
  | adopted hto hauth had =>
    rw [EngineCore.owner, acceptTransfer_ownership] at howner
    rw [epoch, acceptTransfer_ownership] at hepoch
    exact absurd ⟨howner, hepoch⟩ had.moves

theorem Forwarding.moves_ownershipAck (h : Forwarding e s) (payload : Option OwnershipAck)
    (howner : (s.onOwnershipAck payload).1.owner = s.owner) :
    Moves s (.control (.ownershipAck payload)) (s.onOwnershipAck payload).1
        (s.onOwnershipAck payload).2 ∧ Forwarding e (s.onOwnershipAck payload).1 := by
  cases payload with
  | none => exact h.moves_kept rfl (.refl s) rfl rfl
  | some ack =>
    cases hp : s.pendingAck with
    | none =>
      simp only [onOwnershipAck, hp]
      exact h.moves_kept (by simp [samples, pendingEpoch, hp]) (.refl s) rfl rfl
    | some p =>
      simp only [onOwnershipAck, hp] at howner ⊢
      by_cases hother : ack.ownerEpoch = p.epoch
      · rw [if_neg (not_not.2 hother)] at howner ⊢
        cases hacc : ack.accepted with
        | false =>
          rw [hacc] at howner
          exact absurd howner (h.reclaim_owner rfl)
        | true =>
          have hepoch : p.epoch = e := h.pending _ (by rw [pendingEpoch, hp]; rfl)
          refine ⟨.sent ?_ rfl (hother.trans (hepoch.trans h.epoch_eq.symm)) rfl rfl,
            h.role, h.away, h.epoch_eq, by intro p hp; cases hp⟩
          simp [samples, pendingEpoch, hp, hother]
      · rw [if_pos hother]
        refine h.moves_kept ?_ (.refl s) rfl rfl
        simpa [samples, pendingEpoch, hp] using Ne.symm hother

theorem Forwarding.moves_control (h : Forwarding e s) (f : ControlFrame)
    (howner : (s.onControl f).1.owner = s.owner) (hepoch : (s.onControl f).1.epoch = s.epoch) :
    Moves s (.control f) (s.onControl f).1 (s.onControl f).2 ∧ Forwarding e (s.onControl f).1 := by
  cases f with
  | ownershipTransfer payload => exact h.moves_transfer payload howner hepoch
  | ownershipAck payload => exact h.moves_ownershipAck payload howner
  | keyEvent payload =>
    cases payload with
    | none => exact h.moves_kept rfl (.refl s) rfl rfl
    | some k =>
      simp only [onControl, onKey]
      split
      · exact h.moves_kept rfl ⟨rfl, rfl, rfl, rfl, rfl, rfl⟩ rfl rfl
      · split <;> exact h.moves_kept rfl ⟨rfl, rfl, rfl, rfl, rfl, rfl⟩ rfl rfl
  | pointerButton payload =>
    cases payload with
    | none => exact h.moves_kept rfl (.refl s) rfl rfl
    | some b =>
      simp only [onControl, onButton]
      split <;> exact h.moves_kept rfl ⟨rfl, rfl, rfl, rfl, rfl, rfl⟩ rfl rfl
  | scroll payload =>
    cases payload with
    | none => exact h.moves_kept rfl (.refl s) rfl rfl
    | some w =>
      simp only [onControl, onScroll]
      split
      · exact h.moves_kept rfl ⟨rfl, rfl, rfl, rfl, rfl, rfl⟩ rfl rfl
      · split <;> exact h.moves_kept rfl ⟨rfl, rfl, rfl, rfl, rfl, rfl⟩ rfl rfl
  | ping payload =>
    cases payload <;> exact h.moves_kept rfl ⟨rfl, rfl, rfl, rfl, rfl, rfl⟩ rfl rfl
  | pong | heartbeat | other => exact h.moves_kept rfl ⟨rfl, rfl, rfl, rfl, rfl, rfl⟩ rfl rfl
  | goodbye payload =>
    have haway : s.role = .source ∧ (!s.isOwner) = true := ⟨h.role, by rw [h.away]; rfl⟩
    simp only [onControl, onGoodbye, if_pos haway] at howner
    exact absurd howner (h.reclaim_owner rfl)

/-- **The step of the source.** -/
theorem Forwarding.moves (h : Forwarding e s) (c : Call) (howner : (s.call c).1.owner = s.owner)
    (hepoch : (s.call c).1.epoch = s.epoch) :
    Moves s c (s.call c).1 (s.call c).2 ∧ Forwarding e (s.call c).1 := by
  cases c with
  | control f => exact h.moves_control f howner hepoch
  | motion d =>
    cases d with
    | motion m =>
      simp only [call, onMotion]
      split <;> exact h.moves_kept rfl ⟨rfl, rfl, rfl, rfl, rfl, rfl⟩ rfl rfl
    | motionRel | unknown => exact h.moves_kept rfl (.refl s) rfl rfl
  | runtime c =>
    cases c with
    | localInput event => exact h.moves_localInput event howner
    | tick => exact h.moves_tick howner
    | suppressUnavailable =>
      simp only [call, callLocal, onSuppressUnavailable, if_neg (not_not.2 h.role)] at howner
      have haway : ({ s with suppressBlocked := true } : EngineCore).isOwner = false := h.away
      rw [haway] at howner
      exact absurd howner (h.reclaim_owner rfl)
    | injectionFailed =>
      simp only [call, callLocal, onInjectionFailed_of_not_isOwner s h.away]
      exact ⟨.kept rfl rfl rfl, h.role, h.away, h.epoch_eq, h.pending⟩
    | setPeerTrusted | setInputAllowed =>
      exact ⟨.kept rfl rfl rfl, h.role, h.away, h.epoch_eq, h.pending⟩

/-! ## The run of the source -/

/-- The call leaves input where it is. -/
def Stays (en : Machine.Entry EngineCore Call (List Action)) : Prop :=
  en.post.owner = en.pre.owner ∧ en.post.epoch = en.pre.epoch

instance (en : Machine.Entry EngineCore Call (List Action)) : Decidable (Stays en) :=
  inferInstanceAs (Decidable (_ ∧ _))

/-- The motion that the source sends over `calls`. -/
def sentMotion (s : EngineCore) (calls : List Call) : List PointerMotion :=
  (machine.trace s calls).flatMap fun en => motions en.output

/-- How much motion the source is made to send over `calls`. -/
def sampleCount (s : EngineCore) (calls : List Call) : ℕ :=
  (machine.trace s calls).countP fun en => en.pre.samples en.input

/-- The motion of the epoch `e` is numbered from `k + 1` on, up to the top of the numbers. -/
inductive Numbered (e : UInt64) : ℕ → List PointerMotion → Prop
  | nil (k : ℕ) : Numbered e k []
  | cons {k : ℕ} {m : PointerMotion} {ms : List PointerMotion} (hepoch : m.ownerEpoch = e)
    (hseq : m.seq.toNat = min (k + 1) (2 ^ 32 - 1)) (hrest : Numbered e (k + 1) ms) :
    Numbered e k (m :: ms)

/-- **The run of the source.** -/
theorem Forwarding.numbered (h : Forwarding e s) {k : ℕ}
    (hout : s.outSeq.toNat = min k (2 ^ 32 - 1)) {calls : List Call}
    (hstays : ∀ en ∈ machine.trace s calls, Stays en) :
    Numbered e k (s.sentMotion calls) ∧ (s.sentMotion calls).length = s.sampleCount calls := by
  induction calls generalizing s k with
  | nil => exact ⟨.nil k, rfl⟩
  | cons c calls ih =>
    rw [Machine.trace_cons, List.forall_mem_cons] at hstays
    obtain ⟨hmoves, hforwarding⟩ := h.moves c hstays.1.1 hstays.1.2
    have hsent : s.sentMotion (c :: calls) =
        motions (s.call c).2 ++ (s.call c).1.sentMotion calls := by
      simp [sentMotion, machine]
    have hcount : s.sampleCount (c :: calls) =
        (s.call c).1.sampleCount calls + if s.samples c then 1 else 0 := by
      rw [sampleCount, Machine.trace_cons, List.countP_cons]
      rfl
    rw [hsent, hcount]
    cases hmoves with
    | @sent m hc hacts hepoch hseq hout' =>
      have hnext : m.seq.toNat = min (k + 1) (2 ^ 32 - 1) := by
        rw [hseq, UInt32.toNat_saturatingAdd, hout, UInt32.toNat_one]
        omega
      obtain ⟨hnumbered, hlength⟩ := ih hforwarding (by rw [hout', hnext]) hstays.2
      rw [hacts, hc, List.length_append, hlength]
      exact ⟨.cons (hepoch.trans h.epoch_eq) hnext hnumbered, by simp [Nat.add_comm]⟩
    | kept hc hacts hout' =>
      obtain ⟨hnumbered, hlength⟩ := ih hforwarding (by rw [hout', hout]) hstays.2
      rw [hacts, hc, List.nil_append]
      exact ⟨hnumbered, hlength⟩

/-! ## The target -/

/-- The target owns input at the epoch `e`, and no grant of its own waits for an answer. -/
structure Holding (e : UInt64) (t : EngineCore) : Prop where
  owns : t.isOwner = true
  epoch_eq : t.epoch = e
  settled : t.pendingEpoch = none
  peer_ne : t.peer ≠ t.me

/-- What a call does to the last motion that the target has seen. -/
inductive Takes (e : UInt64) (t : EngineCore) (c : Call) (t' : EngineCore) (acts : List Action) :
    Prop
  | motion {m : PointerMotion} (hc : c = .motion (.motion m))
    (hguard : t'.guard = (t.guard.acceptSeq m.ownerEpoch m.seq t.epoch).1)
    (hacts : acts =
      if (t.guard.acceptSeq m.ownerEpoch m.seq t.epoch).2 && t.authorizeInject m.ownerEpoch then
        [.inject (.moveCursor m.displayId m.x m.y)]
      else [])
  | kept (hc : c.motion? = none) (hlast : lastIn seqSlot e t'.guard = lastIn seqSlot e t.guard)

variable {t : EngineCore}

theorem Holding.same (h : Holding e t) {t' : EngineCore} (hs : SameOwnership t t') :
    Holding e t' := by
  refine ⟨?_, hs.epoch.trans h.epoch_eq, hs.pendingEpoch.trans h.settled, ?_⟩
  · rw [isOwner, hs.ownership]
    exact h.owns
  · rw [hs.peer, me, hs.ownership]
    exact h.peer_ne

/-- The owner does not stay the owner when it gives input to the peer. -/
theorem Holding.not_granted (h : Holding e t) : (t.ownership.grantTo t.peer).1.owner ≠ t.owner := by
  rw [Ownership.grantTo_of_isOwner h.owns, owner, Ownership.isOwner_iff.1 h.owns]
  exact h.peer_ne

/-- Where the target is after the handoff. -/
theorem Handoff.holding {s₀ t₀ : EngineCore} {event : LocalInputEvent} (h : Handoff s₀ event t₀ e)
    (hpeer : t₀.peer = s₀.me) : Holding e (t₀.onControl (grant t₀.me e)).1 := by
  obtain ⟨hreceiving, -, -, hsettled⟩ := h.target
  have hdevice := t₀.call_device (.control (grant t₀.me e))
  refine ⟨(Bool.and_eq_true_iff.1 hreceiving.authorized).1, hreceiving.epoch_eq, ?_, ?_⟩
  · rw [pendingEpoch, hsettled]
    rfl
  · intro hself
    exact h.ne (hpeer.symm.trans (hdevice.peer.symm.trans (hself.trans hdevice.me)))

/-- A call that brings no motion and leaves input where it is. -/
theorem Holding.effect (h : Holding e t) {c : Call} {t' : EngineCore} {acts : List Action}
    (heff : Effect t c t' acts) (hm : c.motion? = none) (howner : t'.owner = t.owner)
    (hepoch : t'.epoch = t.epoch) : Takes e t c t' acts ∧ Holding e t' := by
  cases heff with
  | quiet hc hs ha => exact ⟨.kept hm (by rw [hs.guard]), h.same hs.toSameOwnership⟩
  | cross hrole hown =>
    rw [crossToPeer_eq t hown] at howner
    exact absurd howner h.not_granted
  | reclaim pre post hc ht hwhy hpre hpost =>
    rcases hwhy with ⟨-, haway⟩ | hwaits
    · rw [h.owns] at haway
      cases haway
    · exact absurd (Option.map_eq_none_iff.1 h.settled) hwaits
  | adopt hto hauth had =>
    rw [EngineCore.owner, acceptTransfer_ownership] at howner
    rw [epoch, acceptTransfer_ownership] at hepoch
    exact absurd ⟨howner, hepoch⟩ had.moves
  | refuse => exact ⟨.kept hm rfl, h⟩
  | settle hp =>
    rw [Option.map_eq_none_iff.1 h.settled] at hp
    cases hp
  | inputCtr hf hs hg =>
    refine ⟨.kept hm ?_, h.same hs⟩
    rw [hg, h.epoch_eq]
    exact ReplayGuard.lastIn_accept_other ctrSlot t.guard e _ seqSlot (fun _ _ => rfl) _
  | inputSeq => cases hm
  | failed =>
    rw [onInjectionFailed_of_isOwner t h.owns] at howner
    exact absurd howner h.not_granted
  | trusted | allowed => exact ⟨.kept hm rfl, h.owns, h.epoch_eq, h.settled, h.peer_ne⟩

/-- **The step of the target.** -/
theorem Holding.takes (h : Holding e t) (c : Call) (hstays : Stays (machine.entry t c)) :
    Takes e t c (t.call c).1 (t.call c).2 ∧ Holding e (t.call c).1 := by
  cases hm : c.motion? with
  | none => exact h.effect (t.call_effect c) hm hstays.1 hstays.2
  | some m =>
    obtain rfl := Call.eq_motion hm
    refine ⟨.motion rfl ?_ ?_, h.same ?_⟩
    · simp only [call, onMotion]
      split <;> rfl
    · have hauth : ({ t with guard := (t.guard.acceptSeq m.ownerEpoch m.seq t.epoch).1 } :
          EngineCore).authorizeInject m.ownerEpoch = t.authorizeInject m.ownerEpoch := rfl
      simp only [call, onMotion, hauth]
      cases (t.guard.acceptSeq m.ownerEpoch m.seq t.epoch).2 <;>
        cases t.authorizeInject m.ownerEpoch <;> rfl
    · simp only [call, onMotion]
      split <;> exact ⟨rfl, rfl, rfl, rfl, rfl, rfl⟩

/-! ## The run of the target -/

/-- The number of the last motion that the target has seen, 0 before the first. -/
def seenSeq (e : UInt64) (t : EngineCore) : ℕ :=
  (lastIn seqSlot e t.guard).elim 0 UInt32.toNat

theorem Handoff.seenSeq {s₀ t₀ : EngineCore} {event : LocalInputEvent} (h : Handoff s₀ event t₀ e) :
    seenSeq e (t₀.onControl (grant t₀.me e)).1 = 0 := by
  obtain ⟨-, hguard, -⟩ := h.target
  unfold EngineCore.seenSeq
  rw [hguard, ReplayGuard.lastIn_default fun _ => rfl, Option.elim_none]

/-- The motion that the step delivers, if any, is injected. -/
def Moved (en : Machine.Entry EngineCore Call (List Action)) : Prop :=
  ∀ m, en.input.motion? = some m → en.output = [.inject (.moveCursor m.displayId m.x m.y)]

/-- The motion that the step delivers, if any, finds the target authorizing the epoch. -/
def Permitted (e : UInt64) (en : Machine.Entry EngineCore Call (List Action)) : Prop :=
  en.input.motion? ≠ none → en.pre.authorizeInject e = true

/-- The next motion is injected just when there is a number for it. -/
theorem Takes.moved_iff {k : ℕ} {m : PointerMotion} {t' : EngineCore} {acts : List Action}
    (htakes : Takes e t (.motion (.motion m)) t' acts) (hcurrent : t.epoch = e)
    (hseen : seenSeq e t = min k (2 ^ 32 - 1)) (hepoch : m.ownerEpoch = e)
    (hseq : m.seq.toNat = min (k + 1) (2 ^ 32 - 1)) :
    (acts = [.inject (.moveCursor m.displayId m.x m.y)] ↔
        k < 2 ^ 32 - 1 ∧ t.authorizeInject e = true) ∧
      seenSeq e t' = min (k + 1) (2 ^ 32 - 1) := by
  cases htakes with
  | kept hc => cases hc
  | @motion m' hc hguard hacts =>
    cases hc
    rw [hepoch, hcurrent, ReplayGuard.acceptSeq] at hguard hacts
    obtain ⟨hfresh, hlast⟩ := t.guard.accept_current seqSlot e m.seq
    -- the number is above the last one just when it is not the top a second time
    have hnew : (lastIn seqSlot e t.guard).any (m.seq ≤ ·) = decide (¬ k < 2 ^ 32 - 1) := by
      unfold seenSeq at hseen
      cases hprevious : lastIn seqSlot e t.guard with
      | none =>
        rw [hprevious, Option.elim_none] at hseen
        simp
        omega
      | some last =>
        rw [hprevious, Option.elim_some] at hseen
        rw [Option.any_some, decide_eq_decide, UInt32.le_iff_toNat_le]
        omega
    rw [hnew] at hfresh hlast
    unfold seenSeq at hseen ⊢
    rw [hguard, hlast, hacts, hfresh]
    by_cases hroom : k < 2 ^ 32 - 1
    · rw [decide_eq_false (not_not.2 hroom)]
      cases t.authorizeInject e with
      | false => simp [hseq]
      | true => simpa [hseq] using hroom
    · simp only [hroom, not_false_eq_true, decide_true, Bool.not_true, Bool.false_and, if_true,
        false_and, iff_false, hseen]
      refine ⟨nofun, ?_⟩
      omega

/-- **The run of the target.** -/
theorem Holding.moved_iff (h : Holding e t) {k : ℕ} {ms : List PointerMotion}
    (hseen : seenSeq e t = min k (2 ^ 32 - 1)) (hnumbered : Numbered e k ms) {calls : List Call}
    (hstays : ∀ en ∈ machine.trace t calls, Stays en)
    (hdelivered : calls.filterMap Call.motion? = ms) :
    (∀ en ∈ machine.trace t calls, Moved en) ↔
      ms.length ≤ 2 ^ 32 - 1 - k ∧ ∀ en ∈ machine.trace t calls, Permitted e en := by
  induction calls generalizing t k ms with
  | nil =>
    rw [List.filterMap_nil] at hdelivered
    rw [← hdelivered, Machine.trace_nil]
    simp
  | cons c calls ih =>
    rw [Machine.trace_cons, List.forall_mem_cons] at hstays
    rw [Machine.trace_cons, List.forall_mem_cons, List.forall_mem_cons]
    obtain ⟨htakes, hholding⟩ := h.takes c hstays.1
    cases hm : c.motion? with
    | none =>
      rw [List.filterMap_cons_none hm] at hdelivered
      have hseen' : seenSeq e (t.call c).1 = min k (2 ^ 32 - 1) := by
        cases htakes with
        | motion hc =>
          rw [hc] at hm
          cases hm
        | kept hc hlast =>
          unfold seenSeq at hseen ⊢
          rw [hlast, hseen]
      have hmoved : Moved (machine.entry t c) := by
        intro m hm'
        cases hm.symm.trans hm'
      have hpermitted : Permitted e (machine.entry t c) := fun hm' => absurd hm hm'
      have hrest := ih hholding hseen' hnumbered hstays.2 hdelivered
      constructor
      · rintro ⟨-, hlater⟩
        obtain ⟨hroom, hpermitted'⟩ := hrest.1 hlater
        exact ⟨hroom, hpermitted, hpermitted'⟩
      · rintro ⟨hroom, -, hpermitted'⟩
        exact ⟨hmoved, hrest.2 ⟨hroom, hpermitted'⟩⟩
    | some m =>
      obtain rfl := Call.eq_motion hm
      rw [List.filterMap_cons_some hm] at hdelivered
      cases hnumbered with
      | nil => cases hdelivered
      | @cons _ m' ms hepoch hseq hnumbered =>
        obtain ⟨rfl, hlater⟩ := List.cons.inj hdelivered
        obtain ⟨hout, hseen'⟩ := htakes.moved_iff h.epoch_eq hseen hepoch hseq
        have hrest := ih hholding hseen' hnumbered hstays.2 hlater
        have hmoved : Moved (machine.entry t (.motion (.motion m))) ↔
            (t.call (.motion (.motion m))).2 = [.inject (.moveCursor m.displayId m.x m.y)] := by
          refine ⟨fun hmoved => hmoved m rfl, ?_⟩
          rintro hacts _ ⟨⟩
          exact hacts
        have hpermitted : Permitted e (machine.entry t (.motion (.motion m))) ↔
            t.authorizeInject e = true :=
          ⟨fun hpermitted => hpermitted nofun, fun hauth _ => hauth⟩
        rw [hmoved, hout, hpermitted, List.length_cons]
        constructor
        · rintro ⟨⟨hroom, hauth⟩, hlater⟩
          obtain ⟨hroom', hpermitted'⟩ := hrest.1 hlater
          exact ⟨by omega, hauth, hpermitted'⟩
        · rintro ⟨hroom, hauth, hpermitted'⟩
          exact ⟨⟨by omega, hauth⟩, hrest.2 ⟨by omega, hpermitted'⟩⟩

/-- **Motion goes on for as long as there are numbers.** -/
theorem motion_injected_iff {s₀ t₀ : EngineCore} {event : LocalInputEvent}
    (h : Handoff s₀ event t₀ e) (hpeer : t₀.peer = s₀.me) (calls deliveries : List Call)
    (hsource : ∀ en ∈ machine.trace (s₀.onLocalInput event).1 calls, Stays en)
    (htarget : ∀ en ∈ machine.trace (t₀.onControl (grant t₀.me e)).1 deliveries, Stays en)
    (hdelivered : deliveries.filterMap Call.motion? =
      (s₀.onLocalInput event).1.sentMotion calls) :
    (∀ en ∈ machine.trace (t₀.onControl (grant t₀.me e)).1 deliveries, Moved en) ↔
      (s₀.onLocalInput event).1.sampleCount calls ≤ 2 ^ 32 - 1 ∧
        ∀ en ∈ machine.trace (t₀.onControl (grant t₀.me e)).1 deliveries, Permitted e en := by
  obtain ⟨hforwarding, -, hseq⟩ := h.source
  obtain ⟨hnumbered, hlength⟩ := hforwarding.numbered (k := 0) (by rw [hseq]; rfl) hsource
  rw [← hlength]
  exact (h.holding hpeer).moved_iff h.seenSeq hnumbered htarget hdelivered

/-- The cursor of the peer is where it was. -/
def rest : Call := .runtime (.localInput (.cursorMoved 0 960 540 0 0))

/-- Two samples, and the answer to the grant between them. -/
theorem motion_injected_iff_rest :
    (∀ en ∈ machine.trace (rightTarget.onControl (grant rightTarget.me 1)).1
        [.motion (.motion ⟨1, 1, 0, 0, 500⟩), .runtime .tick, .motion (.motion ⟨1, 2, 0, 0, 500⟩),
          .motion (.motion ⟨1, 3, 0, 0, 500⟩)], Moved en) ↔
      (leftSource.onLocalInput pushRight).1.sampleCount
          [rest, .control (.ownershipAck (some ⟨1, true, none⟩)), rest] ≤ 2 ^ 32 - 1 ∧
        ∀ en ∈ machine.trace (rightTarget.onControl (grant rightTarget.me 1)).1
          [.motion (.motion ⟨1, 1, 0, 0, 500⟩), .runtime .tick, .motion (.motion ⟨1, 2, 0, 0, 500⟩),
            .motion (.motion ⟨1, 3, 0, 0, 500⟩)], Permitted 1 en :=
  motion_injected_iff handoff_right rfl _ _ (by decide +kernel) (by decide +kernel)
    (by decide +kernel)

theorem not_zero_ge_escapeThreshold (s : EngineCore) : ¬ (0 : Int32) ≥ s.escapeThreshold := by
  have hmax : ∀ n : Int32, ¬ max n escapeMinTravel ≤ 0 := by
    intro n hle
    rw [Int32.le_iff_toInt_le, Int32.toInt_max] at hle
    have hmin : escapeMinTravel.toInt = 64 := rfl
    have hzero : (0 : Int32).toInt = 0 := rfl
    omega
  unfold escapeThreshold
  split <;> exact hmax _

/-- A cursor that does not move does not bring input back. -/
theorem Forwarding.still (h : Forwarding e s) (htravel : s.escapeTravel = 0) (d : UInt32)
    (x y : Int32) :
    Stays (machine.entry s (.runtime (.localInput (.cursorMoved d x y 0 0)))) ∧
      (s.onLocalInput (.cursorMoved d x y 0 0)).1.escapeTravel = 0 := by
  have hhome : s.homewardDelta 0 0 = 0 := by
    unfold homewardDelta
    split <;> rfl
  have htravelled : s.travelled 0 0 = s := by
    unfold travelled
    rw [hhome, htravel]
    cases s
    cases htravel
    rfl
  have hescape : s.localEscapeBack x y 0 0 = false := by
    unfold localEscapeBack
    split <;> exact Bool.and_false _
  have hback : ∀ t : EngineCore, t.crossesBack 0 0 = false := by
    intro t
    unfold crossesBack
    split <;> exact Bool.and_false _
  have hcall : s.onLocalInput (.cursorMoved d x y 0 0) =
      (s.movePeerCursor 0 0).forwardCursor 0 0 := by
    rw [EngineCore.onLocalInput, if_neg (not_not.2 h.role)]
    dsimp only
    rw [h.away, onCursor_away, hescape, htravelled, htravel,
      if_neg s.not_zero_ge_escapeThreshold]
    rfl
  have hforward : (s.movePeerCursor 0 0).forwardCursor 0 0 =
      ((s.movePeerCursor 0 0).nextSeq.1,
        [.sendMotion
          { ownerEpoch := (s.movePeerCursor 0 0).epoch
            seq := (s.movePeerCursor 0 0).nextSeq.2
            displayId := 0
            x := (s.movePeerCursor 0 0).peerX
            y := (s.movePeerCursor 0 0).peerY },
         .capture .suppress]) := by
    rw [forwardCursor, hback, Bool.and_false]
    rfl
  have hsame := s.movePeerCursor_same 0 0
  have hkept : (s.movePeerCursor 0 0).escapeTravel = s.escapeTravel := by
    unfold movePeerCursor
    dsimp only
    split <;> rfl
  refine ⟨⟨?_, ?_⟩, ?_⟩
  · show (s.onLocalInput (.cursorMoved d x y 0 0)).1.owner = s.owner
    rw [hcall, hforward]
    exact congrArg Ownership.owner hsame.ownership
  · show (s.onLocalInput (.cursorMoved d x y 0 0)).1.epoch = s.epoch
    rw [hcall, hforward]
    exact congrArg Ownership.epoch hsame.ownership
  · rw [hcall, hforward]
    exact hkept.trans htravel

theorem Forwarding.still_run (h : Forwarding e s) (htravel : s.escapeTravel = 0) (d : UInt32)
    (x y : Int32) (k : ℕ) :
    (∀ en ∈ machine.trace s (List.replicate k (.runtime (.localInput (.cursorMoved d x y 0 0)))),
        Stays en) ∧
      s.sampleCount (List.replicate k (.runtime (.localInput (.cursorMoved d x y 0 0)))) = k := by
  induction k generalizing s with
  | zero => exact ⟨by simp, rfl⟩
  | succ k ih =>
    obtain ⟨hstays, htravel'⟩ := h.still htravel d x y
    obtain ⟨hlater, hcount⟩ := ih (h.moves _ hstays.1 hstays.2).2 htravel'
    unfold sampleCount at hcount ⊢
    rw [List.replicate_succ, Machine.trace_cons, List.forall_mem_cons, List.countP_cons]
    exact ⟨⟨hstays, hlater⟩, congrArg (· + 1) hcount⟩

/-- Motion moves neither ownership nor the permission. -/
theorem Receiving.motion (h : Receiving e t) (ms : List PointerMotion) :
    ∀ en ∈ machine.trace t (ms.map fun m => .motion (.motion m)), Stays en ∧ Permitted e en := by
  induction ms generalizing t with
  | nil => simp
  | cons m ms ih =>
    have hsame : SameOwnership t (t.onMotion (.motion m)).1 := by
      simp only [onMotion]
      split <;> exact ⟨rfl, rfl, rfl, rfl, rfl, rfl⟩
    rw [List.map_cons, Machine.trace_cons, List.forall_mem_cons]
    exact ⟨⟨⟨hsame.owner, hsame.epoch⟩, fun _ => h.authorized⟩, ih (h.same hsame)⟩

/-- One sample more than there are numbers. -/
def tooManySamples : List Call :=
  List.replicate (2 ^ 32) (.runtime (.localInput (.cursorMoved 0 960 540 0 0)))

/-- The motion that the source sends for them, in its order. -/
def tooMuchMotion : List Call :=
  ((leftSource.onLocalInput pushRight).1.sentMotion tooManySamples).map fun m =>
    .motion (.motion m)

/-- The target drops motion that comes in order, with ownership and the permission where they
were. -/
theorem motion_freezes :
    (∀ en ∈ machine.trace (leftSource.onLocalInput pushRight).1 tooManySamples, Stays en) ∧
      (∀ en ∈ machine.trace (rightTarget.onControl (grant rightTarget.me 1)).1 tooMuchMotion,
        Stays en ∧ Permitted 1 en) ∧
      ∃ en ∈ machine.trace (rightTarget.onControl (grant rightTarget.me 1)).1 tooMuchMotion,
        ¬ Moved en := by
  obtain ⟨hforwarding, -, hseq⟩ := handoff_right.source
  obtain ⟨hstays, hcount⟩ := hforwarding.still_run rfl 0 960 540 (2 ^ 32)
  obtain ⟨hnumbered, hlength⟩ := hforwarding.numbered (k := 0) (by rw [hseq]; rfl) hstays
  have htarget := handoff_right.target.1.motion
    ((leftSource.onLocalInput pushRight).1.sentMotion tooManySamples)
  have hdelivered : tooMuchMotion.filterMap Call.motion? =
      (leftSource.onLocalInput pushRight).1.sentMotion tooManySamples := by
    rw [tooMuchMotion, List.filterMap_map]
    exact List.filterMap_some
  refine ⟨hstays, htarget, ?_⟩
  by_contra hall
  push Not at hall
  have hroom := (((handoff_right.holding rfl).moved_iff handoff_right.seenSeq hnumbered
    (fun en hen => (htarget en hen).1) hdelivered).1 hall).1
  rw [hlength, hcount] at hroom
  omega

end EngineCore

end Mouser
