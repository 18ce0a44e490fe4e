import Mouser.Engine.Effect

/-!
# Keys and buttons across a handoff

The core injects every admitted press and release, except an auto-repeat that the rate cap sheds,
and it injects a release only when the peer sends one: the held-key set is cleared at a handoff
without releasing what it holds, and buttons are not tracked at all. So whether a key stays down
after a handoff is decided by the peer's frames alone, and `noStuckInput_iff` says how.
-/

namespace Mouser

/-- What a press holds down. -/
inductive Switch where
  | key (usage : UInt16)
  | button (button : UInt8)
deriving DecidableEq

/-- The switch an injection moves, and whether down. -/
def Inject.transition? : Inject → Option (Switch × Bool)
  | .key usage down _ => some (.key usage, down)
  | .button b down => some (.button b, down)
  | _ => none

/-- The switch an input frame moves, and whether down. -/
def ControlFrame.transition? : ControlFrame → Option (Switch × Bool)
  | .keyEvent (some k) => some (.key k.usage, k.down)
  | .pointerButton (some b) => some (.button b.button, b.down)
  | _ => none

/-- The last direction in which the transitions moved the switch. -/
def lastOf (x : Switch) (ts : List (Switch × Bool)) : Option Bool :=
  ((ts.filter fun t => t.1 = x).map Prod.snd).getLast?

theorem lastOf_append (x : Switch) (as bs : List (Switch × Bool)) :
    lastOf x (as ++ bs) = (lastOf x bs).or (lastOf x as) := by
  unfold lastOf
  rw [List.filter_append, List.map_append, List.getLast?_append]

@[simp] theorem lastOf_nil (x : Switch) : lastOf x [] = none := rfl

@[simp] theorem lastOf_self (x : Switch) (b : Bool) : lastOf x [(x, b)] = some b := by
  simp [lastOf]

theorem lastOf_other {x y : Switch} (h : y ≠ x) (b : Bool) : lastOf x [(y, b)] = none := by
  simp [lastOf, h]

namespace EngineCore

/-- The frame goes past the guard and is authorized. -/
def admits (s : EngineCore) (f : ControlFrame) : Bool :=
  match f.ctr? with
  | some (e, ctr) => (s.guard.acceptCtr e ctr s.epoch).2 && s.authorizeInject e
  | none => false

/-- The transition a call asks for, when its frame is admitted. -/
def admitted (s : EngineCore) : Call → List (Switch × Bool)
  | .control f => if s.admits f then f.transition?.toList else []
  | _ => []

def injectedTransitions (steps : List (Machine.Entry EngineCore Call (List Action))) :
    List (Switch × Bool) :=
  steps.flatMap fun en => (injects en.output).filterMap Inject.transition?

def admittedTransitions (steps : List (Machine.Entry EngineCore Call (List Action))) :
    List (Switch × Bool) :=
  steps.flatMap fun en => en.pre.admitted en.input

/-! ## One step -/

section step

variable {s : EngineCore}

/-- The test with which the three input handlers drop a frame. -/
theorem admits_eq {f : ControlFrame} {e ctr : UInt64} (hf : f.ctr? = some (e, ctr)) :
    (!(s.guard.acceptCtr e ctr s.epoch).2 || !s.authorizeInject e) = !s.admits f := by
  rw [admits, hf, Bool.not_and]

/-- A key frame that is not admitted does nothing to the held keys. -/
theorem onKey_refused {k : KeyEvent} (h : s.admits (.keyEvent (some k)) = false) :
    (s.onKey (some k)).1.heldKeys = s.heldKeys ∧ (s.onKey (some k)).2 = [] := by
  have hdrop := admits_eq (s := s) (f := .keyEvent (some k)) rfl
  rw [h] at hdrop
  simp only [onKey]
  split
  · exact ⟨rfl, rfl⟩
  · next hkeep => exact absurd hdrop hkeep

/-- An admitted key frame updates the held keys, and is injected unless it repeats a held key. -/
theorem onKey_admitted {k : KeyEvent} (h : s.admits (.keyEvent (some k)) = true) :
    (s.onKey (some k)).1.heldKeys = (s.heldKeys.observe k.usage k.down).1 ∧
      ((s.onKey (some k)).2 = [.inject (.key k.usage k.down k.mods)] ∨
        ((s.onKey (some k)).2 = [] ∧ (s.heldKeys.observe k.usage k.down).2 = .repeat)) := by
  have hkeep := admits_eq (s := s) (f := .keyEvent (some k)) rfl
  rw [h] at hkeep
  simp only [onKey]
  split
  · next hdrop => exact absurd (hkeep.symm.trans hdrop) (by decide)
  · split
    · next hr => exact ⟨rfl, .inr ⟨rfl, hr.1⟩⟩
    · exact ⟨rfl, .inl rfl⟩

/-- A button frame leaves the held keys alone, and is injected exactly when admitted. -/
theorem onButton_spec (s : EngineCore) (b : PointerButton) :
    (s.onButton (some b)).1.heldKeys = s.heldKeys ∧
      (s.onButton (some b)).2 =
        if s.admits (.pointerButton (some b)) then [.inject (.button b.button b.down)] else [] := by
  have hdrop := admits_eq (s := s) (f := .pointerButton (some b)) rfl
  cases h : s.admits (.pointerButton (some b)) with
  | false =>
    rw [h] at hdrop
    simp only [onButton]
    split
    · exact ⟨rfl, rfl⟩
    · next hkeep => exact absurd hdrop hkeep
  | true =>
    rw [h] at hdrop
    simp only [onButton]
    split
    · next hd => exact absurd (hdrop.symm.trans hd) (by decide)
    · exact ⟨rfl, rfl⟩

variable {s' : EngineCore} {c : Call} {acts : List Action}

/-- Quiet actions move no switch. -/
theorem transitions_of_quiet (h : ∀ a ∈ acts, a.isQuiet = true) :
    (injects acts).filterMap Inject.transition? = [] := by
  refine List.filterMap_eq_nil_iff.2 ?_
  intro i hi
  have hq := h _ (mem_injects.1 hi)
  cases i <;> first | rfl | cases hq

theorem admitted_other (hc : ∀ f, c = .control f → f.transition? = none) : s.admitted c = [] := by
  match c with
  | .control f =>
    rw [admitted, hc f rfl]
    split <;> rfl
  | .runtime _ | .motion _ => rfl

/-- A call that is no key or button frame moves no switch, and adds no held key. -/
theorem Effect.other (h : Effect s c s' acts)
    (hc : ∀ f, c = .control f → f.transition? = none) :
    (injects acts).filterMap Inject.transition? = [] ∧ s'.heldKeys.keys ⊆ s.heldKeys.keys := by
  cases h with
  | quiet hc hs ha => exact ⟨transitions_of_quiet ha, by rw [hs.heldKeys]⟩
  | cross hrole hown =>
    rw [crossToPeer_eq s hown]
    exact ⟨rfl, Finset.empty_subset _⟩
  | @reclaim _ t pre post hc ht hwhy hpre hpost =>
    refine ⟨?_, Finset.empty_subset _⟩
    have happ : ∀ as bs : List Action, injects (as ++ bs) = injects as ++ injects bs := fun _ _ =>
      List.filterMap_append
    rw [happ, happ, List.filterMap_append, List.filterMap_append, transitions_of_quiet hpre,
      transitions_of_quiet hpost]
    rfl
  | adopt =>
    rw [acceptTransfer_actions, acceptTransfer_heldKeys]
    refine ⟨?_, Finset.empty_subset _⟩
    split <;> rfl
  | refuse => exact ⟨rfl, Finset.Subset.refl _⟩
  | settle hp he hacc hs ha => exact ⟨transitions_of_quiet ha, by rw [hs.heldKeys]⟩
  | @inputCtr f e ctr _ _ hf hs hg hh ha =>
    have hf' := hc f rfl
    refine ⟨?_, ?_⟩
    · rcases ha with rfl | ⟨i, rfl, hi, -⟩
      · rfl
      · match f with
        | .scroll (some w) => cases hi; rfl
        | .keyEvent (some k) | .pointerButton (some b) => cases hf'
    · rcases hh with hh | ⟨k, rfl⟩
      · rw [hh]
      · cases hf'
  | inputSeq hs hg hh ha =>
    rw [hh]
    refine ⟨?_, Finset.Subset.refl _⟩
    rcases ha with rfl | ⟨rfl, -⟩ <;> rfl
  | failed =>
    cases hown : s.isOwner with
    | false =>
      rw [onInjectionFailed_of_not_isOwner s hown]
      exact ⟨rfl, Finset.empty_subset _⟩
    | true =>
      rw [onInjectionFailed_of_isOwner s hown]
      exact ⟨rfl, Finset.empty_subset _⟩
  | trusted | allowed => exact ⟨rfl, Finset.Subset.refl _⟩

end step

/-! ## The injected and the admitted transitions agree -/

/-- The last injected transition of every switch is the last admitted one, and a held key is one
whose last injected transition is a press. -/
structure Tracks (steps : List (Machine.Entry EngineCore Call (List Action))) (s : EngineCore) :
    Prop where
  agree : ∀ x, lastOf x (injectedTransitions steps) = lastOf x (admittedTransitions steps)
  held : ∀ u ∈ s.heldKeys.keys, lastOf (.key u) (injectedTransitions steps) = some true

section tracks

variable {s s' : EngineCore} {c : Call} {acts : List Action}
  {steps : List (Machine.Entry EngineCore Call (List Action))}

theorem lastOf_injected_concat (x : Switch) :
    lastOf x (injectedTransitions (steps ++ [⟨s, c, acts, s'⟩])) =
      (lastOf x ((injects acts).filterMap Inject.transition?)).or
        (lastOf x (injectedTransitions steps)) := by
  unfold injectedTransitions
  rw [List.flatMap_append, List.flatMap_singleton, lastOf_append]

theorem lastOf_admitted_concat (x : Switch) :
    lastOf x (admittedTransitions (steps ++ [⟨s, c, acts, s'⟩])) =
      (lastOf x (s.admitted c)).or (lastOf x (admittedTransitions steps)) := by
  unfold admittedTransitions
  rw [List.flatMap_append, List.flatMap_singleton, lastOf_append]

/-- A step that injects what it admits, and holds no more keys than before. -/
theorem Tracks.same (h : Tracks steps s)
    (heq : (injects acts).filterMap Inject.transition? = s.admitted c)
    (hheld : ∀ u ∈ s'.heldKeys.keys, lastOf (.key u) (s.admitted c) = some true ∨
      (u ∈ s.heldKeys.keys ∧ lastOf (.key u) (s.admitted c) = none)) :
    Tracks (steps ++ [⟨s, c, acts, s'⟩]) s' := by
  refine ⟨?_, ?_⟩
  · intro x
    rw [lastOf_injected_concat, lastOf_admitted_concat, heq, h.agree]
  · intro u hu
    rw [lastOf_injected_concat, heq]
    rcases hheld u hu with hl | ⟨hold, hl⟩
    · rw [hl]
      rfl
    · rw [hl]
      exact h.held u hold

/-- A key held after a key event was pressed by it, or was held before and is another key. -/
theorem mem_observe {hk : HeldKeys} {u v : UInt16} {down : Bool}
    (h : v ∈ (hk.observe u down).1.keys) : (v = u ∧ down = true) ∨ (v ≠ u ∧ v ∈ hk.keys) := by
  unfold HeldKeys.observe at h
  split at h
  · next hd =>
    by_cases hv : v = u
    · exact .inl ⟨hv, hd⟩
    · right
      split at h
      · exact ⟨hv, h⟩
      · exact ⟨hv, Finset.mem_of_mem_insert_of_ne h hv⟩
  · exact .inr ⟨Finset.ne_of_mem_erase h, Finset.mem_of_mem_erase h⟩

/-- Only a press of a held key is a repeat, and it changes nothing. -/
theorem observe_repeat {hk : HeldKeys} {u : UInt16} {down : Bool}
    (h : (hk.observe u down).2 = .repeat) :
    down = true ∧ u ∈ hk.keys ∧ (hk.observe u down).1 = hk := by
  unfold HeldKeys.observe at h ⊢
  split at h
  · next hd =>
    split at h
    · next hu =>
      rw [if_pos hd, if_pos hu]
      exact ⟨hd, hu, rfl⟩
    · cases h
  · cases h

theorem Tracks.key (h : Tracks steps s) (k : KeyEvent) :
    Tracks (steps ++ [⟨s, .control (.keyEvent (some k)), (s.onKey (some k)).2,
      (s.onKey (some k)).1⟩]) (s.onKey (some k)).1 := by
  cases hadm : s.admits (.keyEvent (some k)) with
  | false =>
    obtain ⟨hheld, hacts⟩ := onKey_refused hadm
    have hnone : s.admitted (.control (.keyEvent (some k))) = [] := by simp [admitted, hadm]
    refine h.same (by rw [hacts, hnone]; rfl) fun u hu => .inr ⟨hheld ▸ hu, by rw [hnone]; rfl⟩
  | true =>
    obtain ⟨hheld, hacts⟩ := onKey_admitted hadm
    have hone : s.admitted (.control (.keyEvent (some k))) = [(.key k.usage, k.down)] := by
      simp [admitted, hadm, ControlFrame.transition?]
    rcases hacts with hacts | ⟨hacts, hrep⟩
    · refine h.same (by rw [hacts, hone]; rfl) ?_
      intro u hu
      rw [hheld] at hu
      rw [hone]
      rcases mem_observe hu with ⟨rfl, hd⟩ | ⟨hne, hold⟩
      · left
        rw [hd, lastOf_self]
      · exact .inr ⟨hold, lastOf_other (fun heq => hne (Switch.key.inj heq).symm) _⟩
    · -- a shed repeat: the key is held, so its last injected transition is a press already
      obtain ⟨hd, hu, hsame⟩ := observe_repeat hrep
      have hlast := h.held k.usage hu
      refine ⟨?_, ?_⟩
      · intro x
        rw [lastOf_injected_concat, lastOf_admitted_concat, hacts, hone, hd]
        by_cases hx : .key k.usage = x
        · subst hx
          rw [lastOf_self]
          exact hlast
        · rw [lastOf_other hx]
          exact h.agree x
      · intro u hu'
        rw [lastOf_injected_concat, hacts]
        rw [hheld, hsame] at hu'
        exact h.held u hu'

theorem Tracks.button (h : Tracks steps s) (b : PointerButton) :
    Tracks (steps ++ [⟨s, .control (.pointerButton (some b)), (s.onButton (some b)).2,
      (s.onButton (some b)).1⟩]) (s.onButton (some b)).1 := by
  obtain ⟨hheld, hacts⟩ := onButton_spec s b
  refine h.same ?_ fun u hu => .inr ⟨hheld ▸ hu, ?_⟩
  · rw [hacts, admitted]
    split <;> rfl
  · rw [admitted]
    split
    · exact lastOf_other (fun heq => by cases heq) _
    · rfl

theorem Tracks.other (h : Tracks steps s) (heff : Effect s c s' acts)
    (hc : ∀ f, c = .control f → f.transition? = none) :
    Tracks (steps ++ [⟨s, c, acts, s'⟩]) s' := by
  obtain ⟨hinj, hsub⟩ := heff.other hc
  have hadm := admitted_other (s := s) hc
  refine h.same (by rw [hinj, hadm]) fun u hu => .inr ⟨hsub hu, by rw [hadm]; rfl⟩

end tracks

/-- **One step.** Every call keeps the injected and the admitted transitions in agreement. -/
theorem Tracks.call {steps : List (Machine.Entry EngineCore Call (List Action))} {s : EngineCore}
    (h : Tracks steps s) (c : Call) : Tracks (steps ++ [machine.entry s c]) (s.call c).1 := by
  match c with
  | .control (.keyEvent (some k)) => exact h.key k
  | .control (.pointerButton (some b)) => exact h.button b
  | .control (.keyEvent none) | .control (.pointerButton none) | .control (.scroll _)
  | .control (.ownershipTransfer _) | .control (.ownershipAck _) | .control (.ping _)
  | .control (.pong _) | .control (.heartbeat _) | .control (.goodbye _) | .control (.other _) =>
    refine h.other (s.call_effect _) ?_
    intro f hf
    cases hf
    rfl
  | .runtime _ | .motion _ => exact h.other (s.call_effect _) fun f hf => by cases hf

theorem tracks_exec (me peer : DeviceId) (calls : List Call) :
    Tracks (machine.trace (newTarget me peer) calls) (machine.exec (newTarget me peer) calls) :=
  machine.induct (P := Tracks) (G := fun _ => True) ⟨fun _ => rfl, fun _ hu => by cases hu⟩
    (fun _ _ c h _ => h.call c) calls fun _ _ => trivial

/-! ## Losing authorization -/

/-- The step ends the device's authorization. -/
def Loses (en : Machine.Entry EngineCore Call (List Action)) : Prop :=
  en.pre.inputAuth.acceptedEpoch ≠ none ∧ en.post.inputAuth.acceptedEpoch = none

/-- The call takes authorization away: an injection fails, or a transfer to another device is
adopted. -/
def GivesUp (s : EngineCore) (c : Call) : Prop :=
  s.inputAuth.acceptedEpoch ≠ none ∧
    (c = .runtime .injectionFailed ∨
      ∃ t owner, c = .control (.ownershipTransfer (some t)) ∧ toId t.recipient = some owner ∧
        owner ≠ s.me ∧ s.ownership.Adopts owner t.ownerEpoch (t.reason = .localReclaim))

/-- A target that waits for no ack. -/
def IsTarget (s : EngineCore) : Prop := s.role = .target ∧ s.pendingAck = none

theorem IsTarget.call {s : EngineCore} (h : IsTarget s) (c : Call) : IsTarget (s.call c).1 := by
  refine ⟨(s.call_device c).role.trans h.1, ?_⟩
  have heff := s.call_effect c
  have hepoch : s.pendingEpoch = none := congrArg (Option.map PendingAck.epoch) h.2
  generalize (s.call c).1 = s', (s.call c).2 = acts at heff
  cases heff with
  | quiet hc hs => exact Option.map_eq_none_iff.1 (hs.pendingEpoch.trans hepoch)
  | cross hrole =>
    rw [h.1] at hrole
    cases hrole
  | reclaim => rfl
  | adopt => exact acceptTransfer_pendingAck ..
  | refuse | trusted | allowed => exact h.2
  | settle hp he hacc hs => exact Option.map_eq_none_iff.1 hs.pendingEpoch
  | inputCtr hf hs => exact Option.map_eq_none_iff.1 (hs.pendingEpoch.trans hepoch)
  | inputSeq hs => exact Option.map_eq_none_iff.1 (hs.pendingEpoch.trans hepoch)
  | failed => rw [onInjectionFailed_pendingAck, h.2]

/-- A target loses its authorization in no other way. -/
theorem IsTarget.loses_iff {s : EngineCore} (h : IsTarget s) (c : Call) :
    Loses (machine.entry s c) ↔ GivesUp s c := by
  refine ⟨?_, ?_⟩
  · rintro ⟨hpre, hpost⟩
    refine ⟨hpre, ?_⟩
    change s.inputAuth.acceptedEpoch ≠ none at hpre
    change (s.call c).1.inputAuth.acceptedEpoch = none at hpost
    have heff := s.call_effect c
    generalize (s.call c).1 = s', (s.call c).2 = acts at heff hpost
    cases heff with
    | quiet hc hs => exact absurd (hs.inputAuth ▸ hpost) hpre
    | cross hrole =>
      rw [h.1] at hrole
      cases hrole
    | reclaim pre post hc ht hwhy =>
      rcases hwhy with ⟨hrole, -⟩ | hp
      · rw [h.1] at hrole
        cases hrole
      · exact absurd h.2 hp
    | @adopt t owner hto hauth had =>
      by_cases ho : owner = s.me
      · rw [acceptTransfer_adopt_inputAuth, if_pos ho] at hpost
        cases hpost
      · exact .inr ⟨t, owner, rfl, hto, ho, had⟩
    | refuse | trusted | allowed => exact absurd hpost hpre
    | settle hp he hacc hs => exact absurd (hs.inputAuth ▸ hpost) hpre
    | inputCtr hf hs => exact absurd (hs.inputAuth ▸ hpost) hpre
    | inputSeq hs => exact absurd (hs.inputAuth ▸ hpost) hpre
    | failed => exact .inl rfl
  · rintro ⟨hpre, rfl | ⟨t, owner, rfl, hto, hne, had⟩⟩
    · exact ⟨hpre, s.onInjectionFailed_acceptedEpoch⟩
    · refine ⟨hpre, ?_⟩
      have hcall : (machine.entry s (.control (.ownershipTransfer (some t)))).post =
          (s.onTransfer (some t)).1 := rfl
      rw [hcall, onTransfer_of_adopts hto (fun ho => absurd ho hne) had,
        acceptTransfer_adopt_inputAuth, if_neg hne]
      rfl

/-- **No stuck input.** Whenever a step of the run ends the device's authorization, the last
injected transition of every key and button, in that step or before, is not a press. -/
def NoStuckInput (start : EngineCore) (calls : List Call) : Prop :=
  ∀ before c after, calls = before ++ c :: after →
    Loses (machine.entry (machine.exec start before) c) →
      ∀ x, lastOf x (injectedTransitions (machine.trace start (before ++ [c]))) ≠ some true

/-- Whenever a call of the run takes authorization away, the peer has released, by frames that
were admitted, all that it had pressed by frames that were admitted. -/
def ReleasedByPeer (start : EngineCore) (calls : List Call) : Prop :=
  ∀ before c after, calls = before ++ c :: after → GivesUp (machine.exec start before) c →
    ∀ x, lastOf x (admittedTransitions (machine.trace start before)) ≠ some true

/-- **Nothing stays down exactly when the peer released it.** -/
theorem noStuckInput_iff (me peer : DeviceId) (calls : List Call) :
    NoStuckInput (newTarget me peer) calls ↔ ReleasedByPeer (newTarget me peer) calls := by
  -- a step that loses authorization moves no switch itself
  have hstep : ∀ before c, GivesUp (machine.exec (newTarget me peer) before) c → ∀ x,
      lastOf x (injectedTransitions (machine.trace (newTarget me peer) (before ++ [c]))) =
        lastOf x (admittedTransitions (machine.trace (newTarget me peer) before)) := by
    intro before c hg x
    have hc : ∀ f, c = .control f → f.transition? = none := by
      rcases hg.2 with rfl | ⟨t, owner, rfl, -⟩
      · exact fun f hf => by cases hf
      · intro f hf
        cases hf
        rfl
    have hinj := ((machine.exec (newTarget me peer) before).call_effect c).other hc
    rw [machine.trace_concat, ← (tracks_exec me peer before).agree x]
    exact (lastOf_injected_concat x).trans (congrArg (fun ts => (lastOf x ts).or _) hinj.1)
  have htarget : ∀ before, IsTarget (machine.exec (newTarget me peer) before) :=
    machine.inv_exec (I := IsTarget) ⟨rfl, rfl⟩ fun t c h => h.call c
  refine ⟨?_, ?_⟩
  · intro h before c after heq hg x
    rw [← hstep before c hg x]
    exact h before c after heq (((htarget before).loses_iff c).2 hg) x
  · intro h before c after heq hl x
    have hg := ((htarget before).loses_iff c).1 hl
    rw [hstep before c hg x]
    exact h before c after heq hg x

/-- The target accepts a grant, injects a key press, and accepts the peer's reclaim. -/
def keyHeldOver : List Call :=
  [.control (.ownershipTransfer (some ⟨(DeviceId.fill 2).bytes, 1, 0, .edgeCross⟩)),
   .control (.keyEvent (some ⟨4, true, 0, 1, 1⟩)),
   .control (.ownershipTransfer (some ⟨(DeviceId.fill 1).bytes, 2, 0, .localReclaim⟩))]

/-- In that run the key stays down. -/
theorem keyHeldOver_stuck : ¬ NoStuckInput (newTarget (.fill 2) (.fill 1)) keyHeldOver := by
  intro h
  have hkey := h (keyHeldOver.take 2) _ [] rfl (by unfold Loses; decide +kernel) (.key 4)
  revert hkey
  decide +kernel

end EngineCore

end Mouser
