import Mouser.Engine.Cursor
import Mouser.Engine.Move

/-!
# The counters of forwarded input

A forwarded key, button or scroll carries the epoch and the next value of `outCtr`, which every
change of ownership sets back to zero. The peer drops a frame whose counter is not above the last
one of its epoch, so within one epoch the counters have to go up. `Recounts` is the call that breaks
this: it sets the counter back without a new epoch, which happens at the last epoch and in a tie
between reclaims, or it forwards an event when the counter is at its end. `Counts` says what any
other call does.
-/

namespace Mouser

/-- The epochs and the counters of the input frames among the actions, in order. -/
def counters (acts : List Action) : List (UInt64 × UInt64) :=
  (frames acts).filterMap ControlFrame.ctr?

@[simp] theorem counters_append (as bs : List Action) :
    counters (as ++ bs) = counters as ++ counters bs := by
  rw [counters, frames_append, List.filterMap_append]
  rfl

/-- Nothing comes after an injection. -/
def InjectsLast (acts : List Action) : Prop := injects acts.dropLast = []

theorem injectsLast_of_none {acts : List Action} (h : injects acts = []) : InjectsLast acts :=
  List.eq_nil_of_subset_nil (h ▸ List.filterMap_subset _ (List.dropLast_subset acts))

theorem InjectsLast.append {pre post : List Action} (hpre : injects pre = [])
    (hpost : InjectsLast post) : InjectsLast (pre ++ post) := by
  unfold InjectsLast at hpost ⊢
  rw [List.dropLast_append]
  split
  · exact injectsLast_of_none hpre
  · rw [injects, List.filterMap_append]
    exact congrArg₂ _ hpre hpost

theorem InjectsLast.tail {a : Action} {acts : List Action} (h : InjectsLast (a :: acts)) :
    InjectsLast acts := by
  cases acts with
  | nil => rfl
  | cons b acts =>
    unfold InjectsLast at h ⊢
    rw [List.dropLast_cons_cons, injects, List.filterMap_cons] at h
    split at h
    · exact h
    · cases h

theorem InjectsLast.eq_nil {i : Inject} {acts : List Action}
    (h : InjectsLast (.inject i :: acts)) : acts = [] := by
  cases acts with
  | nil => rfl
  | cons b acts => cases h

/-- The counters go up within each epoch. -/
def CountsUp (cs : List (UInt64 × UInt64)) : Prop := cs.Pairwise fun a b => a.1 = b.1 → a.2 < b.2

instance (cs : List (UInt64 × UInt64)) : Decidable (CountsUp cs) :=
  inferInstanceAs (Decidable (cs.Pairwise _))

namespace EngineCore

/-- The event is forwarded as an input frame while the peer owns input. -/
def Forwards (s : EngineCore) : Call → Prop
  | .runtime (.localInput (.key ..)) | .runtime (.localInput (.button ..))
  | .runtime (.localInput (.scroll ..)) => s.role = .source ∧ s.isOwner = false
  | _ => False

/-- The call takes input back: the grant was refused or never answered, the peer is silent or has
left, local input cannot be suppressed, or the cursor comes home. -/
def TakesBack (s : EngineCore) : Call → Prop
  | .runtime (.localInput (.cursorMoved _ x y dx dy)) =>
    let t := { s with escapeTravel := max (s.escapeTravel + s.homewardDelta dx dy) 0 }
    s.role = .source ∧ s.isOwner = false ∧ (s.localEscapeBack x y dx dy = true ∨
      t.escapeTravel ≥ t.escapeThreshold ∨ ((t.movePeerCursor dx dy).reclaimArmed = true ∧
        (t.movePeerCursor dx dy).crossesBack dx dy = true))
  | .runtime .tick =>
    (∃ p, s.pendingAck = some p ∧ p.ticksLeft = 0) ∨
      s.role = .source ∧ s.isOwner = false ∧ s.misses.saturatingAdd 1 ≥ heartbeatMissLimit
  | .runtime .suppressUnavailable | .control (.goodbye _) => s.role = .source ∧ s.isOwner = false
  | .control (.ownershipAck (some ack)) =>
    ack.accepted = false ∧ s.pendingEpoch = some ack.ownerEpoch
  | _ => False

/-- The call breaks the order of the counters of an epoch in which input was forwarded. -/
def Recounts (s : EngineCore) (c : Call) : Prop :=
  s.outCtr ≠ 0 ∧
    ((s.epoch = .maxValue ∧ s.TakesBack c) ∨ (s.outCtr = .maxValue ∧ s.Forwards c) ∨
      ∃ t owner, c = .control (.ownershipTransfer (some t)) ∧ toId t.recipient = some owner ∧
        t.ownerEpoch = s.epoch ∧
        s.ownership.Adopts owner t.ownerEpoch (t.reason = .localReclaim))

/-- A call that brings no claim does not recount before the epoch or the counter is at its end. -/
theorem not_recounts {s : EngineCore} {c : Call} (hc : c.transfer? = none)
    (hepoch : s.epoch ≠ .maxValue) (hctr : s.outCtr ≠ .maxValue) : ¬ s.Recounts c := by
  rintro ⟨-, ⟨hmax, -⟩ | ⟨hmax, -⟩ | ⟨t, owner, rfl, -⟩⟩
  · exact hepoch hmax
  · exact hctr hmax
  · cases hc

/-- What a call does to the counter. If it injects anything, it does so last. -/
inductive Counts (s : EngineCore) (c : Call) (s' : EngineCore) (acts : List Action) : Prop
  | forwarded (hc : s.Forwards c) (hepoch : s'.epoch = s.epoch) (hown : s'.isOwner = s.isOwner)
      (hctr : s'.outCtr = s.outCtr.saturatingAdd 1)
      (hacts : counters acts = [(s.epoch, s.outCtr.saturatingAdd 1)]) (hlast : InjectsLast acts)
  | kept (hepoch : s'.epoch = s.epoch) (hown : s'.isOwner = s.isOwner)
      (hctr : s'.outCtr = s.outCtr) (hacts : counters acts = []) (hlast : InjectsLast acts)
  /-- A new epoch was minted, by a device that takes input back or gives it away. -/
  | minted (hc : s.TakesBack c ∨ s.isOwner = true) (hepoch : s'.epoch = s.epoch.saturatingAdd 1)
      (hctr : s'.outCtr = 0) (hacts : counters acts = []) (hlast : InjectsLast acts)
  | adopted {t owner} (hc : c = .control (.ownershipTransfer (some t)))
      (hto : toId t.recipient = some owner)
      (had : s.ownership.Adopts owner t.ownerEpoch (t.reason = .localReclaim))
      (hepoch : s'.epoch = t.ownerEpoch) (hctr : s'.outCtr = 0) (hacts : counters acts = [])
      (hlast : InjectsLast acts)

section calls

variable {s : EngineCore} {c : Call}

theorem counts_reclaim {t : EngineCore} (pre post : List Action) (ht : t.epoch = s.epoch)
    (hc : s.TakesBack c) (hpre : counters pre = []) (hpost : counters post = [])
    (hinj : injects pre = []) (hlast : InjectsLast post) :
    Counts s c t.reclaimLocal.1 (pre ++ t.reclaimLocal.2 ++ post) := by
  refine .minted (.inl hc) ?_ rfl ?_ ?_
  · change t.epoch.saturatingAdd 1 = s.epoch.saturatingAdd 1
    rw [ht]
  · rw [counters_append, counters_append, hpre, hpost]
    rfl
  · refine .append ?_ hlast
    rw [injects, List.filterMap_append]
    exact congrArg₂ _ hinj rfl

theorem counts_cross (hown : s.isOwner = true) (x y : Int32) :
    Counts s c (s.crossToPeer x y).1 (s.crossToPeer x y).2 := by
  rw [crossToPeer_eq s hown, Ownership.grantTo_of_isOwner hown]
  exact .minted (.inr hown) rfl rfl rfl rfl

theorem counters_entryEdgeWarp (s : EngineCore) : counters [s.entryEdgeWarp] = [] := by
  unfold entryEdgeWarp
  dsimp only
  split <;> rfl

theorem movePeerCursor_counter (s : EngineCore) (dx dy : Int32) :
    (s.movePeerCursor dx dy).ownership = s.ownership ∧
      (s.movePeerCursor dx dy).outCtr = s.outCtr := by
  unfold movePeerCursor
  dsimp only
  split <;> exact ⟨rfl, rfl⟩

theorem counts_cursorMoved (s : EngineCore) (d : UInt32) (x y dx dy : Int32)
    (hrole : s.role = .source) :
    Counts s (.runtime (.localInput (.cursorMoved d x y dx dy)))
      (s.onCursor x y dx dy s.isOwner).1 (s.onCursor x y dx dy s.isOwner).2 := by
  have hmove := movePeerCursor_counter (s.travelled dx dy) dx dy
  have hcases := s.onCursor_cases x y dx dy s.isOwner
  generalize s.onCursor x y dx dy s.isOwner = r at hcases ⊢
  generalize hown : s.isOwner = owns at hcases
  cases hcases with
  | crossed => exact counts_cross hown x y
  | rearmed | passed => exact .kept rfl rfl rfl rfl rfl
  | escaped hescape => exact counts_reclaim [] [] rfl ⟨hrole, hown, .inl hescape⟩ rfl rfl rfl rfl
  | pushed htravel =>
    exact counts_reclaim [] [] (t := s.travelled dx dy) rfl ⟨hrole, hown, .inr (.inl htravel)⟩ rfl
      rfl rfl rfl
  | @returned t ht hback =>
    rw [← ht] at hmove
    exact counts_reclaim [] [t.entryEdgeWarp] (congrArg Ownership.epoch hmove.1)
      ⟨hrole, hown, .inr (.inr hback.2.2)⟩ rfl t.counters_entryEdgeWarp rfl rfl
  | moved ht =>
    rw [← ht] at hmove
    exact .kept (congrArg Ownership.epoch hmove.1) (congrArg Ownership.isOwner hmove.1) hmove.2 rfl
      rfl

theorem counts_localInput (s : EngineCore) (event : LocalInputEvent) :
    Counts s (.runtime (.localInput event)) (s.onLocalInput event).1 (s.onLocalInput event).2 := by
  unfold onLocalInput
  split
  · exact .kept rfl rfl rfl rfl rfl
  · next hrole =>
    have hrole : s.role = .source := not_not.1 hrole
    cases event with
    | cursorMoved d x y dx dy => exact counts_cursorMoved s d x y dx dy hrole
    | key | button | scroll =>
      dsimp only
      split
      · exact .kept rfl rfl rfl rfl rfl
      · next hown => exact .forwarded ⟨hrole, by simpa using hown⟩ rfl rfl rfl rfl rfl

theorem counts_tickMisses {t : EngineCore} {acts : List Action} (ht : t.epoch = s.epoch)
    (hown : t.isOwner = s.isOwner) (hctr : t.outCtr = s.outCtr) (hacts : counters acts = [])
    (hinj : injects acts = [])
    (hc : t.role = .source → t.isOwner = false → t.misses.saturatingAdd 1 ≥ heartbeatMissLimit →
      s.TakesBack c) :
    Counts s c (t.tickMisses acts).1 (t.tickMisses acts).2 := by
  unfold tickMisses
  dsimp only
  split
  · next h =>
    obtain ⟨hrole, hown, hmisses⟩ := h
    have hown : (!t.isOwner) = true := hown
    have hback := hc hrole (by simpa using hown) hmisses
    have hcount := counts_reclaim (t := { t with misses := t.misses.saturatingAdd 1 }) acts []
      ht hback hacts rfl hinj rfl
    rwa [List.append_nil] at hcount
  · exact .kept ht hown hctr hacts (injectsLast_of_none hinj)

theorem counts_tick (s : EngineCore) : Counts s (.runtime .tick) s.onTick.1 s.onTick.2 := by
  unfold onTick
  dsimp only
  split
  · next p hp =>
    split
    · next hlate =>
      have hcount := counts_reclaim (s := s) (c := .runtime .tick)
        (t := { s with hbSeq := s.hbSeq.saturatingAdd 1, inputRate := s.inputRate.refill })
        [.sendControl (.heartbeat (some ⟨s.hbSeq.saturatingAdd 1⟩))] [] rfl
        (.inl ⟨p, hp, hlate⟩) rfl rfl rfl rfl
      rwa [List.append_nil] at hcount
    · exact counts_tickMisses rfl rfl rfl rfl rfl fun h1 h2 h3 => .inr ⟨h1, h2, h3⟩
  · exact counts_tickMisses rfl rfl rfl rfl rfl fun h1 h2 h3 => .inr ⟨h1, h2, h3⟩

theorem counts_suppressUnavailable (s : EngineCore) :
    Counts s (.runtime .suppressUnavailable) s.onSuppressUnavailable.1
      s.onSuppressUnavailable.2 := by
  unfold onSuppressUnavailable
  split
  · exact .kept rfl rfl rfl rfl rfl
  · next hrole =>
    dsimp only
    split
    · exact .kept rfl rfl rfl rfl rfl
    · next hown =>
      exact counts_reclaim [] [] (t := { s with suppressBlocked := true }) rfl
        ⟨not_not.1 hrole, Bool.eq_false_iff.2 hown⟩ rfl rfl rfl rfl

theorem counts_injectionFailed (s : EngineCore) :
    Counts s (.runtime .injectionFailed) s.onInjectionFailed.1 s.onInjectionFailed.2 := by
  cases hown : s.isOwner with
  | false =>
    rw [onInjectionFailed_of_not_isOwner s hown]
    exact .kept rfl rfl rfl rfl rfl
  | true =>
    rw [onInjectionFailed_of_isOwner s hown, Ownership.grantTo_of_isOwner hown]
    exact .minted (.inr hown) rfl rfl rfl rfl

theorem acceptTransfer_outCtr (s : EngineCore) (o : Ownership) (owner : DeviceId)
    (epoch : UInt64) : (s.acceptTransfer o owner epoch).1.outCtr = 0 := by
  by_cases hme : owner = o.me <;> simp [acceptTransfer, hme, me, resetOut]

theorem acceptTransfer_counters (s : EngineCore) (o : Ownership) (owner : DeviceId)
    (epoch : UInt64) : counters (s.acceptTransfer o owner epoch).2 = [] := by
  rw [acceptTransfer_actions, counters_append]
  split <;> rfl

theorem acceptTransfer_injects (s : EngineCore) (o : Ownership) (owner : DeviceId)
    (epoch : UInt64) : injects (s.acceptTransfer o owner epoch).2 = [] := by
  rw [acceptTransfer_actions, injects, List.filterMap_append]
  split <;> rfl

theorem counts_transfer (s : EngineCore) (payload : Option OwnershipTransfer) :
    Counts s (.control (.ownershipTransfer payload)) (s.onTransfer payload).1
      (s.onTransfer payload).2 := by
  have hcases := s.onTransfer_cases payload
  generalize s.onTransfer payload = result at hcases
  cases hcases with
  | unread => exact .kept rfl rfl rfl rfl rfl
  | refused => exact .kept rfl rfl rfl rfl rfl
  | adopted hto hauth had =>
    refine .adopted rfl hto had ?_ (acceptTransfer_outCtr ..) (acceptTransfer_counters ..)
      (injectsLast_of_none (acceptTransfer_injects ..))
    rw [epoch, acceptTransfer_ownership]
    rfl

theorem counts_ownershipAck (s : EngineCore) (payload : Option OwnershipAck) :
    Counts s (.control (.ownershipAck payload)) (s.onOwnershipAck payload).1
      (s.onOwnershipAck payload).2 := by
  cases payload with
  | none => exact .kept rfl rfl rfl rfl rfl
  | some ack =>
    simp only [onOwnershipAck]
    split
    · exact .kept rfl rfl rfl rfl rfl
    · next p hp =>
      split
      · exact .kept rfl rfl rfl rfl rfl
      · next he =>
        split
        · next hacc =>
          refine counts_reclaim [] [] (t := { s with pendingAck := none }) rfl
            ⟨by simpa using hacc, ?_⟩ rfl rfl rfl rfl
          rw [pendingEpoch, hp, Option.map_some, not_not.1 he]
        · exact .kept rfl rfl rfl rfl rfl

theorem counts_control (s : EngineCore) (f : ControlFrame) :
    Counts s (.control f) (s.onControl f).1 (s.onControl f).2 := by
  cases f with
  | ownershipTransfer p => exact counts_transfer s p
  | ownershipAck p => exact counts_ownershipAck s p
  | keyEvent p =>
    cases p with
    | none => exact .kept rfl rfl rfl rfl rfl
    | some k =>
      simp only [onControl, onKey]
      split
      · exact .kept rfl rfl rfl rfl rfl
      · split <;> exact .kept rfl rfl rfl rfl rfl
  | pointerButton p =>
    cases p with
    | none => exact .kept rfl rfl rfl rfl rfl
    | some b =>
      simp only [onControl, onButton]
      split <;> exact .kept rfl rfl rfl rfl rfl
  | scroll p =>
    cases p with
    | none => exact .kept rfl rfl rfl rfl rfl
    | some w =>
      simp only [onControl, onScroll]
      split
      · exact .kept rfl rfl rfl rfl rfl
      · split <;> exact .kept rfl rfl rfl rfl rfl
  | ping p => cases p <;> exact .kept rfl rfl rfl rfl rfl
  | pong | heartbeat | other => exact .kept rfl rfl rfl rfl rfl
  | goodbye p =>
    simp only [onControl, onGoodbye]
    split
    · next h =>
      refine counts_reclaim [] [] rfl ?_ rfl rfl rfl rfl
      exact ⟨h.1, by simpa using h.2⟩
    · exact .kept rfl rfl rfl rfl rfl

theorem counts_motion (s : EngineCore) (d : Datagram) :
    Counts s (.motion d) (s.onMotion d).1 (s.onMotion d).2 := by
  cases d with
  | motion m =>
    simp only [onMotion]
    split <;> exact .kept rfl rfl rfl rfl rfl
  | motionRel | unknown => exact .kept rfl rfl rfl rfl rfl

/-- **What a call does to the counter.** -/
theorem call_counts (s : EngineCore) (c : Call) : Counts s c (s.call c).1 (s.call c).2 := by
  match c with
  | .runtime (.localInput event) => exact counts_localInput s event
  | .runtime .tick => exact counts_tick s
  | .runtime .suppressUnavailable => exact counts_suppressUnavailable s
  | .runtime .injectionFailed => exact counts_injectionFailed s
  | .runtime (.setPeerTrusted _) | .runtime (.setInputAllowed _) => exact .kept rfl rfl rfl rfl rfl
  | .control f => exact counts_control s f
  | .motion d => exact counts_motion s d

theorem call_injectsLast (s : EngineCore) (c : Call) : InjectsLast (s.call c).2 := by
  cases s.call_counts c <;> assumption

end calls

/-! ## The counters of a run -/

/-- What the frames sent so far have to do with the counter: none is of a later epoch, those of this
epoch are not above the counter, and a device that owns input has forwarded nothing in its epoch. -/
structure Counted (cs : List (UInt64 × UInt64)) (s : EngineCore) : Prop where
  countsUp : CountsUp cs
  bound : ∀ p ∈ cs, p.1 < s.epoch ∨ p.1 = s.epoch ∧ p.2 ≤ s.outCtr
  owner : s.isOwner = true → s.outCtr = 0

theorem Counted.new (role : Role) (me peer : DeviceId) (layout : EdgeLayout) :
    Counted [] (new role me peer layout) :=
  ⟨.nil, List.forall_mem_nil _, fun _ => rfl⟩

/-- A call that does not recount keeps the counters going up. -/
theorem Counted.call {cs : List (UInt64 × UInt64)} {s : EngineCore} (h : Counted cs s) {c : Call}
    (hc : ¬ s.Recounts c) : Counted (cs ++ counters (s.call c).2) (s.call c).1 := by
  -- the counter starts again, and what was sent is of an earlier epoch or at zero
  have hrestart : ∀ s' : EngineCore, s'.outCtr = 0 → counters (s.call c).2 = [] →
      s.epoch ≤ s'.epoch → (s.outCtr ≠ 0 → s.epoch < s'.epoch) →
      Counted (cs ++ counters (s.call c).2) s' := by
    intro s' hctr hacts hle hlt
    rw [hacts, List.append_nil]
    refine ⟨h.countsUp, ?_, fun _ => hctr⟩
    intro p hp
    rcases h.bound p hp with hp | ⟨hp, hp2⟩
    · exact .inl (UInt64.lt_of_lt_of_le hp hle)
    · rw [hp]
      by_cases hzero : s.outCtr = 0
      · rcases UInt64.lt_or_eq_of_le hle with hle | hle
        · exact .inl hle
        · exact .inr ⟨hle, by rwa [hctr, ← hzero]⟩
      · exact .inl (hlt hzero)
  cases s.call_counts c with
  | forwarded hfwd hepoch hown hctr hacts =>
    have hlt : s.outCtr < s.outCtr.saturatingAdd 1 := by
      refine UInt64.lt_saturatingAdd_one (UInt64.lt_maxValue_of_ne ?_)
      intro hmax
      exact hc ⟨by rw [hmax]; decide, .inr (.inl ⟨hmax, hfwd⟩)⟩
    rw [hacts]
    refine ⟨?_, ?_, ?_⟩
    · refine List.pairwise_append.2 ⟨h.countsUp, List.pairwise_singleton .., ?_⟩
      intro p hp q hq heq
      obtain rfl := List.mem_singleton.1 hq
      rcases h.bound p hp with hp | ⟨-, hp⟩
      · exact absurd heq (UInt64.ne_of_lt hp)
      · exact UInt64.lt_of_le_of_lt hp hlt
    · intro p hp
      rw [hepoch, hctr]
      rcases List.mem_append.1 hp with hp | hp
      · refine (h.bound p hp).imp_right ?_
        rintro ⟨hp, hp2⟩
        exact ⟨hp, UInt64.le_of_lt (UInt64.lt_of_le_of_lt hp2 hlt)⟩
      · obtain rfl := List.mem_singleton.1 hp
        exact .inr ⟨rfl, UInt64.le_rfl⟩
    · intro howner
      rw [hown] at howner
      obtain ⟨-, hnot⟩ : s.role = .source ∧ s.isOwner = false := by
        unfold Forwards at hfwd
        split at hfwd
        · exact hfwd
        · exact hfwd
        · exact hfwd
        · exact hfwd.elim
      rw [howner] at hnot
      cases hnot
  | kept hepoch hown hctr hacts =>
    rw [hacts, List.append_nil]
    refine ⟨h.countsUp, ?_, ?_⟩
    · rw [hepoch, hctr]
      exact h.bound
    · rw [hown, hctr]
      exact h.owner
  | minted hwhy hepoch hctr hacts =>
    refine hrestart _ hctr hacts (by rw [hepoch]; exact UInt64.le_saturatingAdd _ _) ?_
    intro hzero
    have hback : s.TakesBack c := hwhy.resolve_right fun hown => hzero (h.owner hown)
    rw [hepoch]
    refine UInt64.lt_saturatingAdd_one (UInt64.lt_maxValue_of_ne ?_)
    intro hmax
    exact hc ⟨hzero, .inl ⟨hmax, hback⟩⟩
  | @adopted t owner heq hto had hepoch hctr hacts =>
    refine hrestart _ hctr hacts ?_ ?_
    · rw [hepoch]
      rcases had with hlt | ⟨htie, -⟩
      · exact UInt64.le_of_lt hlt
      · exact UInt64.le_of_eq htie.symm
    · intro hzero
      rw [hepoch]
      rcases had with hlt | htie
      · exact hlt
      · exact absurd ⟨hzero, .inr (.inr ⟨t, owner, heq, hto, htie.1, .inr htie⟩)⟩ hc

end EngineCore

end Mouser
