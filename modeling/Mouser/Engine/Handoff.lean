import Mouser.Engine.AntiReplay
import Mouser.Engine.HeldInput
import Mouser.Engine.Move

/-!
# Input forwarded after a handoff

A source has crossed to its peer, and the peer has accepted the grant (`Handoff`). From then on the
source forwards its input, numbered from 1, and the target checks each number against the last one
it has seen. `handoff_faithful` is what becomes of the keys and buttons.
-/

namespace Mouser

namespace ReplayGuard

section

variable {α : Type} [LE α] [DecidableLE α] (slot : Slot α) (g : ReplayGuard) (e : UInt64) (x : α)

/-- The last value that the guard remembers of the epoch `e`. -/
def lastIn (slot : Slot α) (e : UInt64) (g : ReplayGuard) : Option α := slot.last (g.enter e)

/-- A check at the current epoch: the value is accepted, and remembered, if it is above the last
one. -/
theorem accept_current :
    (g.accept slot e x e).2 = !(lastIn slot e g).any (x ≤ ·) ∧
      lastIn slot e (g.accept slot e x e).1 =
        if (lastIn slot e g).any (x ≤ ·) then lastIn slot e g else some x := by
  unfold accept lastIn
  rw [if_neg (not_not.2 rfl)]
  dsimp only
  split
  · next hseen =>
    rw [hseen, enter_self (enter_epoch g e)]
    exact ⟨rfl, rfl⟩
  · next hnew =>
    rw [Bool.not_eq_true] at hnew
    rw [hnew, enter_self ((slot.epoch_record _ _).trans (enter_epoch g e)), slot.last_record]
    exact ⟨rfl, rfl⟩

/-- A check of a value of another kind. -/
theorem lastIn_accept_other {β : Type} [LE β] [DecidableLE β] (seen : Slot β)
    (hother : ∀ g x, seen.last (slot.record g x) = seen.last g) (e' : UInt64) :
    lastIn seen e (g.accept slot e' x e).1 = lastIn seen e g := by
  unfold accept lastIn
  split
  · rfl
  · next he =>
    rw [not_not.1 he]
    dsimp only
    split
    · rw [enter_self (enter_epoch g e)]
    · rw [enter_self ((slot.epoch_record _ _).trans (enter_epoch g e)), hother]

end

theorem lastIn_default {α : Type} [LE α] [DecidableLE α] {slot : Slot α}
    (hslot : ∀ e, slot.last ⟨e, none, none⟩ = none) (e : UInt64) :
    lastIn slot e .default = none := by
  unfold lastIn enter
  split
  · exact hslot e
  · exact hslot 0

end ReplayGuard

theorem InputRate.tokens_of_not_allowed {r : InputRate} (h : r.allowOne.2 = false) :
    r.tokens = 0 := by
  unfold InputRate.allowOne at h
  split at h
  · next hzero => exact hzero
  · cases h

/-- What a key or a button asks the target to inject. -/
def LocalInputEvent.inject? : LocalInputEvent → Option Inject
  | .key usage down mods => some (.key usage down mods)
  | .button b down => some (.button b down)
  | _ => none

namespace EngineCore

open ReplayGuard (lastIn ctrSlot seqSlot)

/-- The frame with which a source grants input to its peer at the edge. -/
def grant (peer : DeviceId) (e : UInt64) : ControlFrame :=
  .ownershipTransfer (some
    { recipient := peer.bytes, ownerEpoch := e, layoutRev := 0, reason := .edgeCross })

/-- The source `s₀` crosses at `event` to the device of `t₀`, which accepts the grant, of the
epoch `e`. -/
structure Handoff (s₀ : EngineCore) (event : LocalInputEvent) (t₀ : EngineCore) (e : UInt64) :
    Prop where
  role : s₀.role = .source
  ne : s₀.me ≠ t₀.me
  granted : .sendControl (grant t₀.me e) ∈ (s₀.onLocalInput event).2
  accepted : ackFrame e true none ∈ (t₀.onControl (grant t₀.me e)).2

/-- The source has given input away at the epoch `e`. -/
structure Forwarding (e : UInt64) (s : EngineCore) : Prop where
  role : s.role = .source
  away : s.isOwner = false
  epoch_eq : s.epoch = e
  pending : ∀ e', s.pendingEpoch = some e' → e' = e

/-- The target owns input at the epoch `e`, and the peer may control it. -/
structure Receiving (e : UInt64) (t : EngineCore) : Prop where
  epoch_eq : t.epoch = e
  authorized : t.authorizeInject e = true

namespace Handoff

variable {s₀ t₀ : EngineCore} {event : LocalInputEvent} {e : UInt64}

/-- Where the source is after the handoff. -/
theorem source (h : Handoff s₀ event t₀ e) :
    Forwarding e (s₀.onLocalInput event).1 ∧ (s₀.onLocalInput event).1.outCtr = 0 ∧
      (s₀.onLocalInput event).1.outSeq = 0 := by
  have heff := s₀.onLocalInput_effect event
  have hgranted := h.granted
  generalize hcall : s₀.onLocalInput event = result at heff hgranted
  obtain ⟨s, acts⟩ := result
  cases heff with
  | quiet hc hs hquiet =>
    have hloud := hquiet _ hgranted
    cases hloud
  | @cross d x y dx dy hrole hown hx =>
    rw [crossToPeer_eq s₀ hown] at hgranted
    obtain ⟨hpeer, hepoch⟩ : t₀.me.bytes = s₀.peer.bytes ∧ e = s₀.epoch.saturatingAdd 1 := by
      simpa [grant] using hgranted
    have hto : toId t₀.me.bytes = toId s₀.peer.bytes := congrArg toId hpeer
    rw [toId_bytes, toId_bytes, Option.some.injEq] at hto
    rw [crossToPeer_eq s₀ hown]
    refine ⟨⟨hrole, ?_, ?_, ?_⟩, rfl, rfl⟩
    · refine (s₀.grantTo_isOwner hown).trans (decide_eq_false ?_)
      rw [← hto]
      exact h.ne.symm
    · rw [hepoch, epoch, Ownership.grantTo_of_isOwner hown]
      rfl
    · intro e' he'
      rw [hepoch]
      exact (Option.some.inj he').symm
  | reclaim pre post hc ht hwhy hpre hpost =>
    rcases List.mem_append.1 hgranted with hgranted | hgranted
    · rcases List.mem_append.1 hgranted with hgranted | hgranted
      · cases hpre _ hgranted
      · simp [grant, reclaimLocal] at hgranted
    · cases hpost _ hgranted

/-- Where the target is after the handoff. -/
theorem target (h : Handoff s₀ event t₀ e) :
    Receiving e (t₀.onControl (grant t₀.me e)).1 ∧
      (t₀.onControl (grant t₀.me e)).1.guard = .default ∧
      (t₀.onControl (grant t₀.me e)).1.heldKeys = .default ∧
      (t₀.onControl (grant t₀.me e)).1.pendingAck = none := by
  have haccepted := h.accepted
  have hto : toId t₀.me.bytes = some t₀.me := toId_bytes t₀.me
  have hrefused : ∀ reason, ackFrame e true none ∉ [ackFrame e false (some reason)] := by
    intro reason hmem
    cases List.mem_singleton.1 hmem
  rw [grant, onControl] at haccepted ⊢
  cases hallowed : t₀.inputAuth.canAcceptGrant with
  | false =>
    simp only [onTransfer, hto, hallowed] at haccepted
    exact absurd haccepted (hrefused _)
  | true =>
    rcases t₀.ownership.observe_cases t₀.me e (TransferReason.edgeCross = .localReclaim) with
      ⟨had, -⟩ | ⟨-, r, hobserve⟩
    · rw [onTransfer_of_adopts hto (fun _ => hallowed) had]
      obtain ⟨htrusted, hinput⟩ := Bool.and_eq_true_iff.1 hallowed
      refine ⟨⟨?_, ?_⟩, acceptTransfer_guard .., acceptTransfer_heldKeys ..,
        acceptTransfer_pendingAck ..⟩
      · rw [epoch, acceptTransfer_ownership]
        rfl
      · rw [authorizeInject, isOwner, acceptTransfer_ownership, acceptTransfer_adopt_inputAuth,
          if_pos rfl]
        simp [Ownership.isOwner, Ownership.adopt, InputAuth.allowsEpoch, InputAuth.authorizeEpoch,
          me, htrusted, hinput]
    · simp only [onTransfer, hto, hallowed, Ownership.observeWithReason, hobserve] at haccepted
      exact absurd haccepted (hrefused _)

end Handoff

/-! ## The keys and buttons of the source -/

/-- The frames that the source sends for `events`. -/
def framesOf (s : EngineCore) (events : List LocalInputEvent) : List ControlFrame :=
  (machine.trace s (events.map fun event => .runtime (.localInput event))).flatMap fun en =>
    frames en.output

/-- The frames carry the events, in the epoch `e`, numbered from `k + 1` on. -/
inductive Carried (e : UInt64) : ℕ → List LocalInputEvent → List ControlFrame → Prop
  | nil (k : ℕ) : Carried e k [] []
  | cons {k : ℕ} {event : LocalInputEvent} {i : Inject} {f : ControlFrame} {ctr : UInt64}
    {events : List LocalInputEvent} {frames : List ControlFrame} (hevent : event.inject? = some i)
    (hf : f.inject? = some i) (hctr : f.ctr? = some (e, ctr)) (hnumber : ctr.toNat = k + 1)
    (hrest : Carried e (k + 1) events frames) :
    Carried e k (event :: events) (f :: frames)

variable {e : UInt64}

/-- **The step of the source.** A key or a button is forwarded with the next number. -/
theorem Forwarding.onLocalInput {s : EngineCore} (h : Forwarding e s) {event : LocalInputEvent}
    {i : Inject} (hevent : event.inject? = some i) :
    ∃ f s', s.onLocalInput event = (s', [.sendControl f, .capture .suppress]) ∧
      f.inject? = some i ∧ f.ctr? = some (e, s.outCtr.saturatingAdd 1) ∧ Forwarding e s' ∧
      s'.outCtr = s.outCtr.saturatingAdd 1 := by
  obtain ⟨hrole, haway, rfl, hpending⟩ := h
  have hsource : ¬ s.role ≠ .source := not_not.2 hrole
  cases event with
  | cursorMoved | scroll => cases hevent
  | key usage down mods =>
    cases hevent
    refine ⟨.keyEvent (some
        { usage, down, mods, ownerEpoch := s.epoch, ctr := s.outCtr.saturatingAdd 1 }),
      { s with outCtr := s.outCtr.saturatingAdd 1 }, ?_, rfl, rfl,
      ⟨hrole, haway, rfl, hpending⟩, rfl⟩
    rw [EngineCore.onLocalInput, if_neg hsource]
    dsimp only
    rw [haway]
    rfl
  | button button down =>
    cases hevent
    refine ⟨.pointerButton (some
        { button, down, ownerEpoch := s.epoch, ctr := s.outCtr.saturatingAdd 1 }),
      { s with outCtr := s.outCtr.saturatingAdd 1 }, ?_, rfl, rfl,
      ⟨hrole, haway, rfl, hpending⟩, rfl⟩
    rw [EngineCore.onLocalInput, if_neg hsource]
    dsimp only
    rw [haway]
    rfl

/-- **The run of the source.** -/
theorem Forwarding.carried {s : EngineCore} (h : Forwarding e s) {events : List LocalInputEvent}
    (hevents : ∀ event ∈ events, event.inject? ≠ none)
    (hfew : s.outCtr.toNat + events.length < 2 ^ 64 - 1) :
    Carried e s.outCtr.toNat events (s.framesOf events) := by
  induction events generalizing s with
  | nil => exact .nil _
  | cons event events ih =>
    obtain ⟨i, hi⟩ := Option.ne_none_iff_exists'.1 (hevents event (.head _))
    obtain ⟨f, s', hcall, hf, hctr, hforward, hout⟩ := h.onLocalInput hi
    rw [List.length_cons] at hfew
    have hnumber : (s.outCtr.saturatingAdd 1).toNat = s.outCtr.toNat + 1 := by
      refine UInt64.toNat_saturatingAdd_one ?_
      rw [UInt64.lt_iff_toNat_lt, UInt64.toNat_maxValue]
      omega
    have hrest := ih hforward (fun event hevent => hevents event (.tail _ hevent)) (by
      rw [hout, hnumber]
      omega)
    have hframes : s.framesOf (event :: events) = f :: s'.framesOf events := by
      have hstep : machine.step s (.runtime (.localInput event)) =
          (s', [.sendControl f, .capture .suppress]) := hcall
      simp [framesOf, hstep, frames]
    rw [hframes]
    rw [hout, hnumber] at hrest
    exact .cons hi hf hctr hnumber hrest

/-! ## The keys and buttons of the target -/

/-- The step injects what the event asks for, or it sheds a press of a key that is held already,
with the bucket empty. -/
inductive Follows (event : LocalInputEvent) (en : Machine.Entry EngineCore Call (List Action)) :
    Prop
  | injected {i : Inject} (hevent : event.inject? = some i) (hout : en.output = [.inject i])
  | shed {usage mods : UInt16} (hevent : event = .key usage true mods)
    (hheld : usage ∈ en.pre.heldKeys.keys) (hempty : en.pre.inputRate.tokens = 0)
    (hout : en.output = [])

/-- The target has seen no number above `k`. -/
def SeenUpTo (e : UInt64) (k : ℕ) (t : EngineCore) : Prop :=
  ∀ last, lastIn ctrSlot e t.guard = some last → last.toNat ≤ k

variable {t : EngineCore} {k : ℕ}

/-- A number that is above all that was seen is accepted, and seen. -/
theorem Receiving.accepts (h : Receiving e t) (hseen : SeenUpTo e k t) {ctr : UInt64}
    (hnumber : ctr.toNat = k + 1) :
    (t.guard.acceptCtr e ctr t.epoch).2 = true ∧
      lastIn ctrSlot e (t.guard.acceptCtr e ctr t.epoch).1 = some ctr := by
  have hfresh : (lastIn ctrSlot e t.guard).any (ctr ≤ ·) = false := by
    cases hlast : lastIn ctrSlot e t.guard with
    | none => rfl
    | some last =>
      have hle := hseen last hlast
      rw [Option.any_some, decide_eq_false_iff_not, UInt64.le_iff_toNat_le]
      omega
  rw [h.epoch_eq, ReplayGuard.acceptCtr, (t.guard.accept_current ctrSlot e ctr).1,
    (t.guard.accept_current ctrSlot e ctr).2, hfresh]
  exact ⟨rfl, rfl⟩

/-- What the guard lets through is not dropped. -/
theorem Receiving.passes (h : Receiving e t) {guard : ReplayGuard} :
    ¬ (!true || !({ t with guard } : EngineCore).authorizeInject e) = true := by
  have hauth : ({ t with guard } : EngineCore).authorizeInject e = true := h.authorized
  rw [hauth]
  decide

/-- **The step of the target.** The next frame is injected, or it is an auto-repeat that is shed. -/
theorem Receiving.onFrame (h : Receiving e t) (hseen : SeenUpTo e k t) {event : LocalInputEvent}
    {i : Inject} {f : ControlFrame} {ctr : UInt64} (hevent : event.inject? = some i)
    (hf : f.inject? = some i) (hctr : f.ctr? = some (e, ctr)) (hnumber : ctr.toNat = k + 1) :
    Follows event (machine.entry t (.control f)) ∧ Receiving e (t.onControl f).1 ∧
      SeenUpTo e (k + 1) (t.onControl f).1 ∧ (t.onControl f).1.pendingAck = t.pendingAck := by
  obtain ⟨hfresh, hlast⟩ := h.accepts hseen hnumber
  have hkeep : ∀ last, some ctr = some last → last.toNat ≤ k + 1 := by
    rintro _ ⟨⟩
    exact Nat.le_of_eq hnumber
  cases f with
  | keyEvent payload =>
    cases payload with
    | none => cases hf
    | some key =>
      cases hctr
      cases hf
      have hcall : t.onControl (.keyEvent (some key)) =
          ({ t with
              guard := (t.guard.acceptCtr key.ownerEpoch key.ctr t.epoch).1
              heldKeys := (t.heldKeys.observe key.usage key.down).1
              inputRate := t.inputRate.allowOne.1 },
            if (t.heldKeys.observe key.usage key.down).2 = .repeat ∧
              (!t.inputRate.allowOne.2) = true then []
            else [.inject (.key key.usage key.down key.mods)]) := by
        simp only [onControl, onKey, hfresh]
        rw [if_neg h.passes]
        split <;> rfl
      refine ⟨?_, ?_, ?_, by rw [hcall]⟩
      · have hout : (machine.entry t (.control (.keyEvent (some key)))).output =
            (t.onControl (.keyEvent (some key))).2 := rfl
        rw [hcall] at hout
        split at hout
        · next hshed =>
          obtain ⟨hdown, hheld, -⟩ := observe_repeat hshed.1
          refine .shed (?_ : event = .key key.usage true key.mods) hheld ?_ hout
          · cases event with
            | cursorMoved | scroll | button => cases hevent
            | key usage down mods =>
              cases hevent
              rw [← hdown]
          · exact InputRate.tokens_of_not_allowed (by simpa using hshed.2)
        · exact .injected hevent hout
      · rw [hcall]
        exact ⟨h.epoch_eq, h.authorized⟩
      · rw [hcall]
        intro last hlast'
        exact hkeep last (hlast.symm.trans hlast')
  | pointerButton payload =>
    cases payload with
    | none => cases hf
    | some b =>
      cases hctr
      cases hf
      have hcall : t.onControl (.pointerButton (some b)) =
          ({ t with
              guard := (t.guard.acceptCtr b.ownerEpoch b.ctr t.epoch).1
              inputRate := t.inputRate.allowOne.1 }, [.inject (.button b.button b.down)]) := by
        simp only [onControl, onButton, hfresh]
        rw [if_neg h.passes]
      refine ⟨.injected hevent (congrArg Prod.snd hcall), ?_, ?_, by rw [hcall]⟩
      · rw [hcall]
        exact ⟨h.epoch_eq, h.authorized⟩
      · rw [hcall]
        intro last hlast'
        exact hkeep last (hlast.symm.trans hlast')
  | scroll payload =>
    cases payload with
    | none => cases hf
    | some w =>
      cases hf
      cases event <;> cases hevent
  | _ => cases hctr

/-- A tick of the target injects nothing, and leaves input where it is. -/
theorem Receiving.onTick (h : Receiving e t) (hsettled : t.pendingAck = none) :
    injects t.onTick.2 = [] ∧ Receiving e t.onTick.1 ∧ t.onTick.1.guard = t.guard ∧
      t.onTick.1.pendingAck = none ∧ t.onTick.1.heldKeys = t.heldKeys := by
  have hown : t.isOwner = true := (Bool.and_eq_true_iff.1 h.authorized).1
  have hcall : t.onTick =
      ({ t with
          hbSeq := t.hbSeq.saturatingAdd 1
          inputRate := t.inputRate.refill
          misses := t.misses.saturatingAdd 1 },
        [.sendControl (.heartbeat (some ⟨t.hbSeq.saturatingAdd 1⟩))]) := by
    simp only [EngineCore.onTick, hsettled, tickMisses]
    refine if_neg ?_
    rintro ⟨-, haway, -⟩
    have haway' : (!t.isOwner) = true := haway
    rw [hown] at haway'
    cases haway'
  rw [hcall]
  exact ⟨rfl, ⟨h.epoch_eq, h.authorized⟩, rfl, hsettled, rfl⟩

/-- **The run of the target.** Every event is followed by a step of its own, in their order, and the
ticks between them inject nothing. -/
theorem Receiving.follows {events : List LocalInputEvent} {frames : List ControlFrame}
    (h : Receiving e t) (hseen : SeenUpTo e k t) (hsettled : t.pendingAck = none)
    (hcarried : Carried e k events frames) {calls : List Call}
    (hdelivered : calls.filter (· ≠ .runtime .tick) = frames.map .control) :
    List.Forall₂ Follows events
        ((machine.trace t calls).filter fun en => en.input ≠ .runtime .tick) ∧
      ∀ en ∈ machine.trace t calls, en.input = .runtime .tick → injects en.output = [] := by
  induction calls generalizing t k events frames with
  | nil =>
    cases hcarried with
    | nil =>
      rw [Machine.trace_nil]
      exact ⟨.nil, List.forall_mem_nil _⟩
    | cons => cases hdelivered
  | cons c calls ih =>
    by_cases hc : c = .runtime .tick
    · subst hc
      obtain ⟨hquiet, hreceiving, hguard, hsettled', -⟩ := h.onTick hsettled
      have hseen' : SeenUpTo e k t.onTick.1 := by
        unfold SeenUpTo
        rw [hguard]
        exact hseen
      rw [List.filter_cons_of_neg (by simp)] at hdelivered
      obtain ⟨hfollows, hticks⟩ := ih hreceiving hseen' hsettled' hcarried hdelivered
      rw [Machine.trace_cons, List.filter_cons_of_neg (by simp)]
      refine ⟨hfollows, ?_⟩
      intro en hen htick
      rcases List.mem_cons.1 hen with rfl | hen
      · exact hquiet
      · exact hticks en hen htick
    · rw [List.filter_cons_of_pos (by simpa using hc)] at hdelivered
      cases hcarried with
      | nil => cases hdelivered
      | @cons _ event i f ctr events frames hevent hf hctr hnumber hrest =>
        rw [List.map_cons] at hdelivered
        obtain ⟨rfl, hlater⟩ := List.cons.inj hdelivered
        obtain ⟨hfollow, hreceiving, hseen', hpending⟩ :=
          h.onFrame hseen hevent hf hctr hnumber
        obtain ⟨hfollows, hticks⟩ := ih hreceiving hseen' (hpending.trans hsettled) hrest hlater
        rw [Machine.trace_cons, List.filter_cons_of_pos (by simp)]
        refine ⟨.cons hfollow hfollows, ?_⟩
        intro en hen htick
        rcases List.mem_cons.1 hen with rfl | hen
        · cases htick
        · exact hticks en hen htick

/-! ## The held keys -/

/-- The held keys are those whose last injected transition was a press. -/
def HeldPressed (steps : List (Machine.Entry EngineCore Call (List Action))) (t : EngineCore) :
    Prop :=
  ∀ u, u ∈ t.heldKeys.keys ↔ lastOf (.key u) (injectedTransitions steps) = some true

/-- Which keys are held after a key event. -/
theorem mem_observe_iff {hk : HeldKeys} {u v : UInt16} {down : Bool} :
    v ∈ (hk.observe u down).1.keys ↔ (v = u ∧ down = true) ∨ (v ≠ u ∧ v ∈ hk.keys) := by
  refine ⟨mem_observe, ?_⟩
  unfold HeldKeys.observe
  rintro (⟨rfl, rfl⟩ | ⟨hne, hv⟩)
  · rw [if_pos rfl]
    split
    · next hv => exact hv
    · exact Finset.mem_insert_self _ _
  · split
    · split
      · exact hv
      · exact Finset.mem_insert_of_mem hv
    · exact Finset.mem_erase.2 ⟨hne, hv⟩

section held

variable {steps : List (Machine.Entry EngineCore Call (List Action))}

/-- A step that moves no key. -/
theorem HeldPressed.same (h : HeldPressed steps t) {c : Call} {acts : List Action}
    {t' : EngineCore} (hheld : t'.heldKeys = t.heldKeys)
    (hnone : ∀ u, lastOf (.key u) ((injects acts).filterMap Inject.transition?) = none) :
    HeldPressed (steps ++ [⟨t, c, acts, t'⟩]) t' := by
  intro u
  rw [lastOf_injected_concat, hnone, hheld]
  exact h u

theorem HeldPressed.key (h : HeldPressed steps t) (key : KeyEvent) :
    HeldPressed (steps ++ [machine.entry t (.control (.keyEvent (some key)))])
      (t.onControl (.keyEvent (some key))).1 := by
  cases hadmits : t.admits (.keyEvent (some key)) with
  | false =>
    obtain ⟨hheld, hout⟩ := onKey_refused hadmits
    refine h.same hheld ?_
    intro u
    show lastOf (.key u) ((injects (t.onKey (some key)).2).filterMap _) = none
    rw [hout]
    rfl
  | true =>
    obtain ⟨hheld, hout⟩ := onKey_admitted hadmits
    rcases hout with hout | ⟨hout, hrepeat⟩
    · intro u
      have hlast : lastOf (.key u) (injectedTransitions
          (steps ++ [machine.entry t (.control (.keyEvent (some key)))])) =
          (lastOf (.key u) [(.key key.usage, key.down)]).or
            (lastOf (.key u) (injectedTransitions steps)) := by
        refine (lastOf_injected_concat (.key u)).trans ?_
        show (lastOf (.key u) ((injects (t.onKey (some key)).2).filterMap _)).or _ = _
        rw [hout]
        rfl
      have hkeys : (t.onControl (.keyEvent (some key))).1.heldKeys =
          (t.heldKeys.observe key.usage key.down).1 := hheld
      rw [hlast, hkeys, mem_observe_iff]
      by_cases hu : u = key.usage
      · subst hu
        simp
      · rw [lastOf_other fun hsame => hu (Switch.key.inj hsame).symm]
        simp only [hu, false_and, false_or, ne_eq, not_false_eq_true, true_and]
        exact h u
    · obtain ⟨-, -, hsame⟩ := observe_repeat hrepeat
      refine h.same (hheld.trans hsame) ?_
      intro u
      show lastOf (.key u) ((injects (t.onKey (some key)).2).filterMap _) = none
      rw [hout]
      rfl

theorem HeldPressed.button (h : HeldPressed steps t) (b : PointerButton) :
    HeldPressed (steps ++ [machine.entry t (.control (.pointerButton (some b)))])
      (t.onControl (.pointerButton (some b))).1 := by
  obtain ⟨hheld, hout⟩ := onButton_spec t b
  refine h.same hheld ?_
  intro u
  show lastOf (.key u) ((injects (t.onButton (some b)).2).filterMap _) = none
  rw [hout]
  have hne : Switch.button b.button ≠ .key u := nofun
  split
  · exact lastOf_other hne _
  · rfl

end held

/-- Input frames and ticks: the calls of a target to which only keys and buttons are forwarded. -/
inductive IsInput : Call → Prop
  | tick : IsInput (.runtime .tick)
  | key (key : KeyEvent) : IsInput (.control (.keyEvent (some key)))
  | button (b : PointerButton) : IsInput (.control (.pointerButton (some b)))

theorem onKey_same (t : EngineCore) (key : KeyEvent) : SameOwnership t (t.onKey (some key)).1 := by
  simp only [onKey]
  split
  · exact ⟨rfl, rfl, rfl, rfl, rfl, rfl⟩
  · split <;> exact ⟨rfl, rfl, rfl, rfl, rfl, rfl⟩

theorem onButton_same (t : EngineCore) (b : PointerButton) :
    SameOwnership t (t.onButton (some b)).1 := by
  simp only [onButton]
  split <;> exact ⟨rfl, rfl, rfl, rfl, rfl, rfl⟩

theorem Receiving.same (h : Receiving e t) {t' : EngineCore} (hs : SameOwnership t t') :
    Receiving e t' := by
  refine ⟨(congrArg Ownership.epoch hs.ownership).trans h.epoch_eq, ?_⟩
  rw [authorizeInject, isOwner, hs.ownership, hs.inputAuth]
  exact h.authorized

/-- **The run of the held keys.** -/
theorem Receiving.held (h : Receiving e t) (hsettled : t.pendingAck = none)
    (hnone : t.heldKeys = .default) {calls : List Call} (hcalls : ∀ c ∈ calls, IsInput c) :
    HeldPressed (machine.trace t calls) (machine.exec t calls) := by
  refine (machine.induct (P := fun steps t => HeldPressed steps t ∧ Receiving e t ∧
    t.pendingEpoch = none) (G := fun en => IsInput en.input) ⟨?_, h, ?_⟩ ?_ calls ?_).1
  · intro u
    rw [hnone]
    simp [HeldKeys.default, injectedTransitions]
  · rw [pendingEpoch, hsettled]
    rfl
  · rintro steps t c ⟨hheld, hreceiving, hpending⟩ hinput
    have hinput' : IsInput c := hinput
    cases hinput' with
    | tick =>
      obtain ⟨hquiet, hreceiving', -, hsettled', hsame⟩ :=
        hreceiving.onTick (Option.map_eq_none_iff.1 hpending)
      have hstep : machine.step t (.runtime .tick) = t.onTick := rfl
      refine ⟨hheld.same hsame ?_, hreceiving', ?_⟩
      · intro u
        rw [hstep, hquiet]
        rfl
      · rw [hstep, pendingEpoch, hsettled']
        rfl
    | key key =>
      exact ⟨hheld.key key, hreceiving.same (t.onKey_same key),
        (t.onKey_same key).pendingEpoch.trans hpending⟩
    | button b =>
      exact ⟨hheld.button b, hreceiving.same (t.onButton_same b),
        (t.onButton_same b).pendingEpoch.trans hpending⟩
  · intro en hen
    obtain ⟨js, c, ks, rfl, rfl⟩ := machine.mem_trace_iff.1 hen
    exact hcalls c (List.mem_append_right _ (.head _))

/-- Frames that carry keys and buttons are input. -/
theorem Carried.isInput {events : List LocalInputEvent} {frames : List ControlFrame}
    (h : Carried e k events frames) : ∀ f ∈ frames, IsInput (.control f) := by
  induction h with
  | nil => exact nofun
  | @cons k event i f ctr events frames hevent hf hctr hnumber hrest ih =>
    refine List.forall_mem_cons.2 ⟨?_, ih⟩
    match f with
    | .keyEvent (some key) => exact .key key
    | .pointerButton (some b) => exact .button b
    | .scroll (some w) =>
      cases hf
      cases event <;> cases hevent
    | .keyEvent none | .pointerButton none | .scroll none | .ownershipTransfer _
    | .ownershipAck _ | .ping _ | .pong _ | .heartbeat _ | .goodbye _ | .other _ => cases hctr

/-- The keys and buttons of the source are followed by the target: each event by a step of its own,
in their order; a tick injects nothing; and all along the held keys are those whose last injected
transition was a press. -/
structure Faithful (events : List LocalInputEvent) (t : EngineCore) (calls : List Call) : Prop where
  follows : List.Forall₂ Follows events
    ((machine.trace t calls).filter fun en => en.input ≠ .runtime .tick)
  ticks : ∀ en ∈ machine.trace t calls, en.input = .runtime .tick → injects en.output = []
  held : ∀ before, before <+: calls →
    HeldPressed (machine.trace t before) (machine.exec t before)

/-- **Forwarded input is faithful.** -/
theorem handoff_faithful {s₀ t₀ : EngineCore} {event : LocalInputEvent} (h : Handoff s₀ event t₀ e)
    (events : List LocalInputEvent) (hkinds : ∀ event ∈ events, event.inject? ≠ none)
    (hfew : events.length < 2 ^ 64 - 1) (calls : List Call)
    (hdelivered : calls.filter (· ≠ .runtime .tick) =
      ((s₀.onLocalInput event).1.framesOf events).map .control) :
    Faithful events (t₀.onControl (grant t₀.me e)).1 calls := by
  obtain ⟨hforwarding, hctr, -⟩ := h.source
  obtain ⟨hreceiving, hguard, hheld, hsettled⟩ := h.target
  have hcarried := hforwarding.carried hkinds (by rw [hctr]; simpa using hfew)
  rw [hctr, UInt64.toNat_zero] at hcarried
  have hseen : SeenUpTo e 0 (t₀.onControl (grant t₀.me e)).1 := by
    unfold SeenUpTo
    rw [hguard, ReplayGuard.lastIn_default fun _ => rfl]
    exact nofun
  have hinput : ∀ c ∈ calls, IsInput c := by
    intro c hc
    by_cases htick : c = .runtime .tick
    · rw [htick]
      exact .tick
    · have hmem : c ∈ calls.filter (· ≠ .runtime .tick) :=
        List.mem_filter.2 ⟨hc, by simpa using htick⟩
      rw [hdelivered] at hmem
      obtain ⟨f, hf, rfl⟩ := List.mem_map.1 hmem
      exact hcarried.isInput f hf
  obtain ⟨hfollows, hticks⟩ := hreceiving.follows hseen hsettled hcarried hdelivered
  refine ⟨hfollows, hticks, ?_⟩
  intro before hbefore
  exact hreceiving.held hsettled hheld fun c hc => hinput c (hbefore.subset hc)

/-- A source on the left of its peer, and the target that is its peer. -/
def leftSource : EngineCore := newSource (.fill 1) (.fill 2) (.sideBySide 1920 1080 1920 1080)

def rightTarget : EngineCore := newTarget (.fill 2) (.fill 1)

/-- The cursor pushes against the right edge. -/
def pushRight : LocalInputEvent := .cursorMoved 0 1919 500 5 0

theorem handoff_right : Handoff leftSource pushRight rightTarget 1 :=
  ⟨rfl, by decide +kernel, by decide +kernel, by decide +kernel⟩

/-- A key is pressed, repeated and released, with a click between. -/
theorem handoff_faithful_click :
    Faithful [.key 4 true 0, .key 4 true 0, .button 0 true, .button 0 false, .key 4 false 0]
      (rightTarget.onControl (grant rightTarget.me 1)).1
      [.control (.keyEvent (some ⟨4, true, 0, 1, 1⟩)),
       .runtime .tick,
       .control (.keyEvent (some ⟨4, true, 0, 1, 2⟩)),
       .control (.pointerButton (some ⟨0, true, 1, 3⟩)),
       .control (.pointerButton (some ⟨0, false, 1, 4⟩)),
       .control (.keyEvent (some ⟨4, false, 0, 1, 5⟩))] :=
  handoff_faithful handoff_right _ (by decide +kernel) (by decide) _ (by decide +kernel)

end EngineCore

end Mouser
