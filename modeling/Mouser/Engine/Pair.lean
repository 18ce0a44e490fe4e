import Mathlib.Logic.Function.Basic
import Mouser.Engine.Link

/-!
# Two connected cores

A source and a target, each the other's peer, joined by a lossless FIFO queue of control frames in
each direction. An event is a call of the runtime on one side, the delivery of the oldest frame in
flight to a side, or a motion datagram, which may be any at any time. Every interleaving is a list
of events of `Pair.machine`.
-/

namespace Mouser

def Role.other : Role → Role
  | .source => .target
  | .target => .source

@[simp] theorem Role.other_other (side : Role) : side.other.other = side := by
  cases side <;> rfl

theorem Role.other_ne (side : Role) : side.other ≠ side := by
  cases side <;> decide

structure Pair where
  engine : Role → EngineCore
  /-- The control frames in flight to a side, oldest first. -/
  inbox : Role → List ControlFrame

inductive PairEvent where
  | call (side : Role) (call : LocalCall)
  | deliver (side : Role)
  | motion (side : Role) (datagram : Datagram)
deriving DecidableEq

/-- The side that acts. -/
def PairEvent.side : PairEvent → Role
  | .call side _ | .deliver side | .motion side _ => side

namespace Pair

/-- Both cores at boot, with nothing in flight. -/
def start (source target : DeviceId) (layout : EdgeLayout) : Pair where
  engine
    | .source => .newSource source target layout
    | .target => .newTarget target source
  inbox _ := []

/-- The call an event makes on its side, and the frames then still in flight to that side; none
for a delivery when nothing is in flight. -/
def callOf (p : Pair) : PairEvent → Option (Call × List ControlFrame)
  | .call side c => some (.runtime c, p.inbox side)
  | .motion side d => some (.motion d, p.inbox side)
  | .deliver side =>
    match p.inbox side with
    | [] => none
    | f :: rest => some (.control f, rest)

/-- The side makes the call, and the frames it sends join the other side's inbox. -/
def perform (p : Pair) (side : Role) (c : Call) (rest : List ControlFrame) : Pair × List Action :=
  let (s, acts) := (p.engine side).call c
  ({ engine := Function.update p.engine side s
     inbox := Function.update (Function.update p.inbox side rest) side.other
      (p.inbox side.other ++ frames acts) }, acts)

def step (p : Pair) (ev : PairEvent) : Pair × List Action :=
  match p.callOf ev with
  | none => (p, [])
  | some (c, rest) => p.perform ev.side c rest

def machine : Machine Pair PairEvent (List Action) := ⟨step⟩

/-! ## One event -/

section perform

variable (p : Pair) (side : Role) (c : Call) (rest : List ControlFrame)

@[simp] theorem perform_engine :
    (p.perform side c rest).1.engine side = ((p.engine side).call c).1 := by
  simp [perform]

@[simp] theorem perform_engine_other :
    (p.perform side c rest).1.engine side.other = p.engine side.other := by
  simp [perform, Function.update_of_ne side.other_ne]

@[simp] theorem perform_inbox : (p.perform side c rest).1.inbox side = rest := by
  simp [perform, Function.update_of_ne side.other_ne.symm]

@[simp] theorem perform_inbox_other :
    (p.perform side c rest).1.inbox side.other =
      p.inbox side.other ++ frames ((p.engine side).call c).2 := by
  simp [perform]

@[simp] theorem perform_snd : (p.perform side c rest).2 = ((p.engine side).call c).2 := rfl

end perform

/-- A property of both sides, from the side that acts and the other. -/
theorem forall_side {P : Role → Prop} (side : Role) (h : P side) (h' : P side.other) :
    ∀ r, P r := by
  intro r
  cases side <;> cases r <;> assumption

section callOf

variable {p : Pair} {ev : PairEvent} {c : Call} {rest : List ControlFrame}

theorem step_of_callOf (h : p.callOf ev = some (c, rest)) :
    p.step ev = p.perform ev.side c rest := by
  rw [step, h]

theorem step_of_idle (h : p.callOf ev = none) : p.step ev = (p, []) := by
  rw [step, h]

/-- What an event does is a call with nothing delivered, or the delivery of the oldest frame. -/
theorem callOf_cases (h : p.callOf ev = some (c, rest)) :
    (p.inbox ev.side = rest ∧ c.transfer? = none ∧ c.ack? = none) ∨
      ∃ f, c = .control f ∧ p.inbox ev.side = f :: rest := by
  cases ev with
  | call | motion =>
    cases h
    exact .inl ⟨rfl, rfl, rfl⟩
  | deliver side =>
    right
    cases hin : p.inbox side with
    | nil => simp [callOf, hin] at h
    | cons f fs =>
      simp only [callOf, hin, Option.some.injEq, Prod.mk.injEq] at h
      obtain ⟨rfl, rfl⟩ := h
      exact ⟨f, rfl, hin⟩

/-- The claims in flight to the acting side are the one delivered and those left. -/
theorem transfers_inbox (h : p.callOf ev = some (c, rest)) :
    transfers (p.inbox ev.side) = c.transfer?.toList ++ transfers rest := by
  rcases callOf_cases h with ⟨hin, hc, -⟩ | ⟨f, rfl, hin⟩
  · rw [hin, hc]
    rfl
  · rw [hin, transfers_cons]

theorem answers_inbox (h : p.callOf ev = some (c, rest)) :
    answers (p.inbox ev.side) = c.ack?.toList ++ answers rest := by
  rcases callOf_cases h with ⟨hin, -, hc⟩ | ⟨f, rfl, hin⟩
  · rw [hin, hc]
    rfl
  · rw [hin, answers_cons]

/-- Only a call of the runtime reports a failed injection. -/
theorem callOf_injectionFailed (h : p.callOf ev = some (.runtime .injectionFailed, rest)) :
    ev = .call ev.side .injectionFailed := by
  cases ev with
  | call side c =>
    cases h
    rfl
  | motion => cases h
  | deliver side => cases hin : p.inbox side <;> simp [callOf, hin] at h

/-- No event changes the id of a side. -/
theorem step_me (p : Pair) (ev : PairEvent) (side : Role) :
    ((p.step ev).1.engine side).me = (p.engine side).me := by
  cases hc : p.callOf ev with
  | none => rw [step_of_idle hc]
  | some cr =>
    rw [step_of_callOf hc]
    revert side
    refine forall_side ev.side ?_ ?_
    · rw [perform_engine]
      exact ((p.engine ev.side).call_device cr.1).me
    · rw [perform_engine_other]

end callOf

/-! ## The invariant -/

open EngineCore (Joined Solo Link Move LosesRefusal)

/-- Both cores keep their own invariant, and each direction is a link. -/
structure Inv (p : Pair) : Prop where
  role : ∀ side, (p.engine side).role = side
  joined : ∀ side, Joined (p.engine side) (p.engine side.other)
  solo : ∀ side, Solo (p.engine side)
  link : ∀ side, Link (p.engine side) (p.engine side.other) (transfers (p.inbox side.other))
    (answers (p.inbox side))

theorem link_start (source target : DeviceId) (layout : EdgeLayout) (side : Role) :
    Link ((start source target layout).engine side) ((start source target layout).engine side.other)
      [] [] where
  sorted := .nil
  le_epoch := by simp [EngineCore.epochs]
  claim := by simp
  current := by simp
  settled := .inl (by cases side <;> rfl)
  behind _ _ := ⟨by cases side <;> exact UInt64.le_refl _, by simp⟩

theorem inv_start {source target : DeviceId} (hne : source ≠ target) (layout : EdgeLayout) :
    Inv (start source target layout) where
  role side := by cases side <;> rfl
  joined side := by
    cases side
    · exact ⟨rfl, rfl, hne, (by decide : Role.source = .source ↔ Role.target = .target)⟩
    · exact ⟨rfl, rfl, hne.symm, (by decide : Role.target = .source ↔ Role.source = .target)⟩
  solo side := by
    cases side
    · exact ⟨hne.symm, .inl rfl, fun _ h => nomatch h⟩
    · exact ⟨hne, .inl rfl, fun _ h => nomatch h⟩
  link side := link_start source target layout side

section event

variable {p : Pair} {ev : PairEvent} {c : Call} {rest : List ControlFrame}

/-- The claims of the other side on their way to the acting side, with the one it is handed. -/
theorem Inv.link_in (h : Inv p) (hc : p.callOf ev = some (c, rest)) :
    Link (p.engine ev.side.other) (p.engine ev.side) (c.transfer?.toList ++ transfers rest)
      (answers (p.inbox ev.side.other)) := by
  have hl := h.link ev.side.other
  rwa [Role.other_other, transfers_inbox hc] at hl

/-- The claims of the acting side, with the answer it is handed. -/
theorem Inv.link_out (h : Inv p) (hc : p.callOf ev = some (c, rest)) :
    Link (p.engine ev.side) (p.engine ev.side.other) (transfers (p.inbox ev.side.other))
      (c.ack?.toList ++ answers rest) := by
  have hl := h.link ev.side
  rwa [answers_inbox hc] at hl

theorem Inv.move (h : Inv p) (ev : PairEvent) (c : Call) :
    Move (p.engine ev.side) c ((p.engine ev.side).call c).1
      (transfers (frames ((p.engine ev.side).call c).2))
      (answers (frames ((p.engine ev.side).call c).2)) :=
  EngineCore.move_of_effect (h.solo ev.side) ((p.engine ev.side).call_effect c)

/-- A claim that the acting side adopts is above its epoch and part of the other side's view. -/
theorem Inv.adopts (h : Inv p) (hc : p.callOf ev = some (c, rest)) {t : OwnershipTransfer}
    {owner : DeviceId} (ht : c.transfer? = some t) (hto : toId t.recipient = some owner)
    (had : (p.engine ev.side).ownership.Adopts owner t.ownerEpoch (t.reason = .localReclaim)) :
    (p.engine ev.side).epoch < t.ownerEpoch ∧ t.ownerEpoch ≤ (p.engine ev.side.other).epoch ∧
      (t.ownerEpoch = (p.engine ev.side.other).epoch → owner = (p.engine ev.side.other).owner) := by
  have hin := h.link_in hc
  have hmem : t ∈ c.transfer?.toList ++ transfers rest := by simp [ht]
  refine ⟨hin.adopts_lt (h.joined ev.side).symm (h.solo ev.side) hmem hto had,
    hin.claim_epoch_le hmem, ?_⟩
  intro he
  have hrecip := hin.current t hmem he
  rw [hrecip, toId_bytes] at hto
  exact (Option.some.inj hto).symm

/-- **One event keeps the invariant**, if no epoch saturates and no refusal is lost. -/
theorem Inv.perform (h : Inv p) (hc : p.callOf ev = some (c, rest))
    (hlt : (p.engine ev.side).epoch < UInt64.maxValue)
    (hk : ¬ LosesRefusal (p.engine ev.side) c) : Inv (p.perform ev.side c rest).1 := by
  have hm := h.move ev c
  have hd := (p.engine ev.side).call_device c
  have hd' := (p.engine ev.side.other).device_refl
  have hj := h.joined ev.side
  refine ⟨forall_side ev.side ?_ ?_, forall_side ev.side ?_ ?_, forall_side ev.side ?_ ?_,
    forall_side ev.side ?_ ?_⟩
  · rw [perform_engine, hd.role, h.role]
  · rw [perform_engine_other, h.role]
  · rw [perform_engine, perform_engine_other]
    exact hj.device hd hd'
  · rw [Role.other_other, perform_engine, perform_engine_other]
    exact hj.symm.device hd' hd
  · rw [perform_engine]
    refine (h.solo ev.side).move hd hm ?_
    intro t owner ht hto
    obtain ⟨owner', hto', hwho⟩ := ((h.link_in hc).claim t (by simp [ht])).toId
    rw [hto] at hto'
    cases hto'
    rw [hj.peer]
    exact hwho
  · rw [perform_engine_other]
    exact h.solo ev.side.other
  · rw [perform_engine, perform_engine_other, perform_inbox, perform_inbox_other, transfers_append]
    exact (h.link_out hc).grantor hj (h.solo ev.side) hlt hm hd hk fun t owner ht hto had =>
      h.adopts hc ht hto had
  · rw [Role.other_other, perform_engine, perform_engine_other, perform_inbox, perform_inbox_other,
      answers_append]
    exact (h.link_in hc).receiver hj.symm (h.solo ev.side) hlt hm hd

/-- With nothing in flight the two views agree, unless neither side has ever moved. -/
theorem Inv.agree (h : Inv p) (hempty : ∀ side, p.inbox side = []) :
    ((p.engine .source).epoch = 0 ∧ (p.engine .target).epoch = 0) ∨
      ((p.engine .source).owner = (p.engine .target).owner ∧
        (p.engine .source).epoch = (p.engine .target).epoch) := by
  have hsettled : ∀ side : Role, (p.engine side).epoch = 0 ∨
      (p.engine side).epoch < (p.engine side.other).epoch ∨
      ((p.engine side).epoch = (p.engine side.other).epoch ∧
        (p.engine side).owner = (p.engine side.other).owner) := by
    intro side
    rcases (h.link side).settled with h0 | h0 | h0 | ⟨t, ht, -⟩ | ⟨-, a, ha, -⟩
    · exact .inl h0
    · exact .inr (.inl h0)
    · exact .inr (.inr h0)
    · rw [hempty] at ht
      cases ht
    · rw [hempty] at ha
      cases ha
  have hs := hsettled .source
  have ht := hsettled .target
  simp only [Role.other, UInt64.lt_iff_toNat_lt, ← UInt64.toNat_inj] at hs ht ⊢
  have hzero : (0 : UInt64).toNat = 0 := rfl
  rcases hs with hs | hs | hs
  · rcases ht with ht | ht | ht
    · exact .inl ⟨hs, ht⟩
    · omega
    · exact .inr ⟨ht.2.symm, ht.1.symm⟩
  · rcases ht with ht | ht | ht <;> omega
  · exact .inr ⟨hs.2, hs.1⟩

end event

end Pair

end Mouser
