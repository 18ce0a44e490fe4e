import Mathlib.Data.List.Basic
import Mathlib.Data.List.Nodup
import Mouser.Lib.Machine

/-!
# The two lanes of pointer motion

The sender task reads the motion plane before each sample. While datagrams work it overwrites the
slot, from which the pump takes the newest sample and sends it; once the pump has published that
datagrams do not work, samples go over the control stream. `transmitted_sublist` says that the
samples of both lanes come in the order in which they were sent.

The pump learns that the plane is gone from the sample it has already taken, and ends: that sample
is lost, and so is one that is in the slot or that the sender is about to put there. If the last
sample is among them, nothing replaces it. `lastTransmitted_iff` says that this is so exactly when
the send fails after the sender has read the plane for the last time.
-/

namespace Mouser

/-! ## The code -/

inductive MotionPlane where
  | datagram
  | controlFallback
deriving DecidableEq

inductive SendDatagramError where
  | tooLarge
  | unsupportedByPeer
  | disabled
  | connectionLost
deriving DecidableEq

/-- What the pump does after a send. -/
inductive PumpAction where
  | «continue»
  | fallback
  | exit
deriving DecidableEq

def classify : SendDatagramError → PumpAction
  | .tooLarge => .continue
  | .unsupportedByPeer => .fallback
  | .disabled => .fallback
  | .connectionLost => .exit

/-- The plane that is published, and whether the pump keeps looping. -/
def react (plane : MotionPlane) : PumpAction → MotionPlane × Bool
  | .continue => (plane, true)
  | .fallback => (.controlFallback, false)
  | .exit => (plane, false)

/-- Where the pump is in its loop. -/
inductive Pump (β : Type*) where
  /-- `rx.changed().await`. -/
  | waiting
  /-- `connection.send_datagram_wait(bytes).await`. -/
  | sending (sample : β)
  | ended
deriving DecidableEq

/-- The sender task, the slot and the pump. -/
structure MotionLanes (β : Type*) where
  /-- The samples that the sender has not received yet. -/
  queue : List β
  /-- The sample in the sender's hand, and what it read of the plane for it. -/
  hand : Option (MotionPlane × β)
  slot : Option β
  /-- Whether the slot was written since the pump last looked. -/
  changed : Bool
  pump : Pump β
  plane : MotionPlane
  /-- What has gone out, over either lane. -/
  transmitted : List β

/-- One step of one of the two tasks. -/
inductive LaneStep where
  /-- The sender receives a sample and reads the plane. -/
  | read
  /-- The sender passes it to the lane it has read. -/
  | write
  /-- The pump takes what is in the slot. -/
  | take
  /-- The pump's send returns. -/
  | finish (error : Option SendDatagramError)
deriving DecidableEq

namespace MotionLanes

variable {β : Type*}

/-- A new connection, and the samples that will be sent. -/
def start (samples : List β) : MotionLanes β where
  queue := samples
  hand := none
  slot := none
  changed := false
  pump := .waiting
  plane := .datagram
  transmitted := []

/-- A step that its task cannot make leaves everything as it is. -/
def step (s : MotionLanes β) : LaneStep → MotionLanes β
  | .read =>
    match s.hand, s.queue with
    | none, sample :: queue => { s with queue, hand := some (s.plane, sample) }
    | _, _ => s
  | .write =>
    match s.hand with
    | some (.controlFallback, sample) =>
      { s with hand := none, transmitted := s.transmitted ++ [sample] }
    | some (.datagram, sample) => { s with hand := none, slot := some sample, changed := true }
    | none => s
  | .take =>
    match s.pump, s.changed with
    | .waiting, true =>
      match s.slot with
      | some sample => { s with changed := false, pump := .sending sample }
      | none => { s with changed := false }
    | _, _ => s
  | .finish error =>
    match s.pump with
    | .sending sample =>
      match error with
      | none => { s with pump := .waiting, transmitted := s.transmitted ++ [sample] }
      | some err =>
        let (plane, keep) := react s.plane (classify err)
        { s with plane, pump := if keep then .waiting else .ended }
    | _ => s

def machine (β : Type*) : Machine (MotionLanes β) LaneStep Unit where
  step s i := (s.step i, ())

/-- Both tasks have nothing to do. -/
def Idle (s : MotionLanes β) : Prop :=
  s.queue = [] ∧ s.hand = none ∧ (s.pump = .ended ∨ s.pump = .waiting ∧ s.changed = false)

/-! ## What is under way -/

/-- The sample in the slot that the pump has not looked at. -/
def unseen (s : MotionLanes β) : List β := if s.changed then s.slot.toList else []

/-- The samples that the pump may still send. -/
def carried (s : MotionLanes β) : List β :=
  match s.pump with
  | .waiting => s.unseen
  | .sending sample => sample :: s.unseen
  | .ended => []

/-- The sample in the sender's hand. -/
def held (s : MotionLanes β) : List β := s.hand.toList.map Prod.snd

/-- What has gone out and what may still go out, from the first sample to the last. -/
def lanes (s : MotionLanes β) : List β := s.transmitted ++ s.carried ++ s.held

/-! ## Steps -/

/-- What a step can do. -/
inductive Moves (s : MotionLanes β) : LaneStep → MotionLanes β → Prop
  | stay {i : LaneStep} (hi : ∀ error sample, i = .finish error → s.pump ≠ .sending sample) :
    Moves s i s
  | read {sample : β} {queue : List β} (hhand : s.hand = none)
      (hqueue : s.queue = sample :: queue) :
    Moves s .read { s with queue, hand := some (s.plane, sample) }
  | writeControl {sample : β} (hhand : s.hand = some (.controlFallback, sample)) :
    Moves s .write { s with hand := none, transmitted := s.transmitted ++ [sample] }
  | writeSlot {sample : β} (hhand : s.hand = some (.datagram, sample)) :
    Moves s .write { s with hand := none, slot := some sample, changed := true }
  | take {sample : β} (hpump : s.pump = .waiting) (hchanged : s.changed = true)
    (hslot : s.slot = some sample) :
    Moves s .take { s with changed := false, pump := .sending sample }
  | takeNothing (hpump : s.pump = .waiting) (hslot : s.slot = none) :
    Moves s .take { s with changed := false }
  | sent {sample : β} (hpump : s.pump = .sending sample) :
    Moves s (.finish none) { s with pump := .waiting, transmitted := s.transmitted ++ [sample] }
  | failed {sample : β} (hpump : s.pump = .sending sample) (err : SendDatagramError) :
    Moves s (.finish (some err))
      { s with plane := (react s.plane (classify err)).1
               pump := if (react s.plane (classify err)).2 then .waiting else .ended }

theorem step_moves (s : MotionLanes β) (i : LaneStep) : Moves s i (s.step i) := by
  unfold step
  split
  · split
    · next hhand hqueue => exact .read hhand hqueue
    · exact .stay nofun
  · split
    · next hhand => exact .writeControl hhand
    · next hhand => exact .writeSlot hhand
    · exact .stay nofun
  · split
    · next hpump hchanged =>
      split
      · next hslot => exact .take hpump hchanged hslot
      · next hslot => exact .takeNothing hpump hslot
    · exact .stay nofun
  · split
    · next hpump =>
      split
      · exact .sent hpump
      · next err => exact .failed hpump err
    · next hnot => exact .stay fun _ sample _ => hnot sample

/-! ## The order -/

/-- `samples` is what was to be sent, and what is under way is in its order. Over the control stream
nothing goes while the pump runs. -/
structure InOrder (samples : List β) (s : MotionLanes β) : Prop where
  sublist : ∃ taken, samples = taken ++ s.queue ∧ s.lanes.Sublist taken
  ended_of_hand : ∀ sample, s.hand = some (.controlFallback, sample) → s.pump = .ended
  ended_of_plane : s.plane = .controlFallback → s.pump = .ended

theorem InOrder.step {samples : List β} {s : MotionLanes β} (h : InOrder samples s)
    (i : LaneStep) : InOrder samples (s.step i) := by
  obtain ⟨⟨taken, hsamples, hsub⟩, hhand', hplane⟩ := h
  have hmoves := s.step_moves i
  generalize s.step i = s' at hmoves
  cases hmoves with
  | stay => exact ⟨⟨taken, hsamples, hsub⟩, hhand', hplane⟩
  | @read sample queue hhand hqueue =>
    refine ⟨⟨taken ++ [sample], ?_, ?_⟩, ?_, hplane⟩
    · rw [hsamples, hqueue, List.append_assoc]
      rfl
    · have hheld : s.held = [] := by simp [held, hhand]
      rw [lanes, hheld, List.append_nil] at hsub
      exact hsub.append (.refl _)
    · intro sample' h
      exact hplane (Prod.mk.inj (Option.some.inj h)).1
  | @writeControl sample hhand =>
    have hpump := hhand' sample hhand
    refine ⟨⟨taken, hsamples, ?_⟩, nofun, hplane⟩
    simpa [lanes, carried, held, hpump, hhand] using hsub
  | @writeSlot sample hhand =>
    -- The sample takes the place of one that the pump has not seen.
    refine ⟨⟨taken, hsamples, .trans ?_ hsub⟩, nofun, hplane⟩
    cases hpump : s.pump <;> simp [lanes, carried, held, unseen, hpump, hhand]
  | @take sample hpump hchanged hslot =>
    refine ⟨⟨taken, hsamples, ?_⟩, fun sample' h => ?_, fun h => ?_⟩
    · simpa [lanes, carried, held, unseen, hpump, hchanged, hslot] using hsub
    · exact absurd (hhand' sample' h) (by simp [hpump])
    · exact absurd (hplane h) (by simp [hpump])
  | takeNothing hpump hslot =>
    refine ⟨⟨taken, hsamples, ?_⟩, hhand', hplane⟩
    simpa [lanes, carried, held, unseen, hpump, hslot] using hsub
  | @sent sample hpump =>
    refine ⟨⟨taken, hsamples, ?_⟩, fun sample' h => ?_, fun h => ?_⟩
    · simpa [lanes, carried, held, unseen, hpump] using hsub
    · exact absurd (hhand' sample' h) (by simp [hpump])
    · exact absurd (hplane h) (by simp [hpump])
  | @failed sample hpump err =>
    have hdrop : ∀ kept, kept = s.unseen ∨ kept = [] →
        (s.transmitted ++ kept ++ s.held).Sublist s.lanes := by
      rintro kept (rfl | rfl) <;> simp [lanes, carried, hpump]
    refine ⟨⟨taken, hsamples, .trans ?_ hsub⟩, fun sample' h => ?_, fun h => ?_⟩
    · refine hdrop _ ?_
      cases err <;> simp [carried, classify, react, unseen]
    · exact absurd (hhand' sample' h) (by simp [hpump])
    · cases err with
      | tooLarge | connectionLost => exact absurd (hplane h) (by simp [hpump])
      | unsupportedByPeer | disabled => rfl

theorem start_inOrder (samples : List β) : InOrder samples (start samples) :=
  ⟨⟨[], rfl, .refl _⟩, nofun, nofun⟩

theorem exec_inOrder (samples : List β) (is : List LaneStep) :
    InOrder samples ((machine β).exec (start samples) is) :=
  (machine β).inv_exec (I := InOrder samples) (start_inOrder samples) (fun _ i h => h.step i) is

/-- **The samples go out in their order**, over both lanes and whatever the sends return. -/
theorem transmitted_sublist (samples : List β) (is : List LaneStep) :
    ((machine β).exec (start samples) is).transmitted.Sublist samples := by
  obtain ⟨taken, hsamples, hsub⟩ := (exec_inOrder samples is).sublist
  have hlanes : ((machine β).exec (start samples) is).transmitted.Sublist taken := by
    refine .trans ?_ hsub
    rw [lanes, List.append_assoc]
    exact List.sublist_append_left _ _
  have htaken : taken.Sublist samples := by
    rw [hsamples]
    exact List.sublist_append_left _ _
  exact hlanes.trans htaken

/-! ## The last sample -/

/-- The send of a datagram fails after the sender has read the plane for the last time. -/
def FailsLate (e : Machine.Entry (MotionLanes β) LaneStep Unit) : Prop :=
  (∃ sample error, e.pre.pump = .sending sample ∧ e.input = .finish (some error)) ∧
    e.pre.queue = []

/-- Sends that fail only because the plane is gone. -/
def PlaneErrors (is : List LaneStep) : Prop :=
  ∀ error, .finish (some error) ∈ is → error = .unsupportedByPeer ∨ error = .disabled

/-- While datagrams work, the last sample read is the last one under way. -/
structure Flows (samples : List β) (s : MotionLanes β) : Prop where
  running : s.pump ≠ .ended
  last : ∃ taken, samples = taken ++ s.queue ∧ s.lanes.getLast? = taken.getLast?

/-- After the plane was given up in time, the last sample goes over the control stream. -/
structure Kept (samples : List β) (s : MotionLanes β) : Prop where
  ended : s.pump = .ended
  fallback : s.plane = .controlFallback
  last : ∀ sample, samples.getLast? = some sample →
    s.queue.getLast? = some sample ∨ s.hand = some (.controlFallback, sample) ∨
      sample ∈ s.transmitted

/-- After the plane was given up too late, nothing is sent any more. -/
structure Lost (samples : List β) (s : MotionLanes β) : Prop where
  ended : s.pump = .ended
  queue_eq : s.queue = []
  hand_ne : ∀ sample, s.hand ≠ some (.controlFallback, sample)
  last : ∀ sample, samples.getLast? = some sample → sample ∉ s.transmitted

theorem start_flows (samples : List β) : Flows samples (start samples) :=
  ⟨nofun, [], rfl, rfl⟩

/-- No step but a failing send ends the flow. -/
theorem Flows.step {samples : List β} {s : MotionLanes β} (h : Flows samples s)
    (hord : InOrder samples s) {i : LaneStep}
    (hi : ∀ sample error, s.pump = .sending sample → i ≠ .finish (some error)) :
    Flows samples (s.step i) := by
  obtain ⟨hrunning, taken, hsamples, hlast⟩ := h
  have hmoves := s.step_moves i
  generalize s.step i = s' at hmoves
  cases hmoves with
  | stay => exact ⟨hrunning, taken, hsamples, hlast⟩
  | @read sample queue hhand hqueue =>
    refine ⟨hrunning, taken ++ [sample], ?_, ?_⟩
    · rw [hsamples, hqueue, List.append_assoc]
      rfl
    · simp [lanes, held]
  | writeControl hhand => exact absurd (hord.ended_of_hand _ hhand) hrunning
  | @writeSlot sample hhand =>
    have hbefore : s.lanes.getLast? = some sample := by
      rw [lanes, held, hhand]
      exact List.getLast?_concat
    refine ⟨hrunning, taken, hsamples, .trans ?_ (hbefore.symm.trans hlast)⟩
    cases hpump : s.pump with
    | waiting | sending => simp [lanes, carried, held, unseen]
    | ended => exact absurd hpump hrunning
  | @take sample hpump hchanged hslot =>
    refine ⟨nofun, taken, hsamples, hlast ▸ ?_⟩
    simp [lanes, carried, held, unseen, hpump, hchanged, hslot]
  | takeNothing hpump hslot =>
    refine ⟨hrunning, taken, hsamples, hlast ▸ ?_⟩
    simp [lanes, carried, held, unseen, hpump, hslot]
  | @sent sample hpump =>
    refine ⟨nofun, taken, hsamples, hlast ▸ ?_⟩
    simp [lanes, carried, held, unseen, hpump]
  | failed hpump err => exact absurd rfl (hi _ err hpump)

/-- A send that fails with a sample still to be read: the last one will see that the plane is
gone. -/
theorem Flows.kept {samples : List β} {s : MotionLanes β} (h : Flows samples s) {sample : β}
    (hpump : s.pump = .sending sample) {err : SendDatagramError}
    (herr : err = .unsupportedByPeer ∨ err = .disabled) (hqueue : s.queue ≠ []) :
    Kept samples (s.step (.finish (some err))) := by
  obtain ⟨-, taken, hsamples, -⟩ := h
  have hlast : samples.getLast? = s.queue.getLast? := by
    rw [hsamples, List.getLast?_append_of_ne_nil _ hqueue]
  rcases herr with rfl | rfl <;>
    simp only [MotionLanes.step, hpump] <;>
    exact ⟨rfl, rfl, fun sample hsample => .inl (hlast.symm.trans hsample)⟩

/-- A send that fails with nothing left to read: the last sample is among those that are lost. -/
theorem Flows.lost {samples : List β} {s : MotionLanes β} (h : Flows samples s)
    (hord : InOrder samples s) (hnodup : samples.Nodup) {sample : β}
    (hpump : s.pump = .sending sample) {err : SendDatagramError}
    (herr : err = .unsupportedByPeer ∨ err = .disabled) (hqueue : s.queue = []) :
    Lost samples (s.step (.finish (some err))) := by
  obtain ⟨-, taken, hsamples, hlast⟩ := h
  obtain ⟨⟨taken', hsamples', hsub⟩, hhand, -⟩ := hord
  rw [hqueue, List.append_nil] at hsamples hsamples'
  rw [← hsamples] at hlast
  rw [← hsamples'] at hsub
  have hlanes : s.lanes = s.transmitted ++ (sample :: s.unseen ++ s.held) := by
    rw [lanes, carried, hpump, List.append_assoc]
  have hnot : ∀ last, samples.getLast? = some last → last ∉ s.transmitted := by
    intro last hsample hmem
    have hdisjoint := List.disjoint_of_nodup_append (hlanes ▸ hsub.nodup hnodup)
    rw [hlanes, List.getLast?_append_of_ne_nil _ (by simp)] at hlast
    exact hdisjoint hmem (List.mem_of_getLast? (hlast.trans hsample))
  have hhand' : ∀ sample, s.hand ≠ some (.controlFallback, sample) := by
    intro sample' h
    have hended := hhand sample' h
    rw [hpump] at hended
    cases hended
  rcases herr with rfl | rfl <;>
    simp only [MotionLanes.step, hpump] <;>
    exact ⟨rfl, hqueue, hhand', hnot⟩

theorem Kept.step {samples : List β} {s : MotionLanes β} (h : Kept samples s) (i : LaneStep) :
    Kept samples (s.step i) := by
  obtain ⟨hended, hplane, hlast⟩ := h
  have hmoves := s.step_moves i
  generalize s.step i = s' at hmoves
  cases hmoves with
  | stay => exact ⟨hended, hplane, hlast⟩
  | @read sample queue hhand hqueue =>
    refine ⟨hended, hplane, fun last hsample => ?_⟩
    rcases hlast last hsample with h | h | h
    · rw [hqueue] at h
      cases queue with
      | nil =>
        rw [List.getLast?_singleton, Option.some.injEq] at h
        exact .inr (.inl (by rw [hplane, h]))
      | cons => exact .inl h
    · rw [hhand] at h
      cases h
    · exact .inr (.inr h)
  | writeControl hhand =>
    refine ⟨hended, hplane, fun last hsample => ?_⟩
    rcases hlast last hsample with h | h | h
    · exact .inl h
    · rw [hhand] at h
      cases h
      exact .inr (.inr (List.mem_append_right _ (.head _)))
    · exact .inr (.inr (List.mem_append_left _ h))
  | writeSlot hhand =>
    refine ⟨hended, hplane, fun last hsample => ?_⟩
    rcases hlast last hsample with h | h | h
    · exact .inl h
    · rw [hhand] at h
      cases h
    · exact .inr (.inr h)
  | take hpump | takeNothing hpump | sent hpump | failed hpump =>
    rw [hended] at hpump
    cases hpump

theorem Lost.step {samples : List β} {s : MotionLanes β} (h : Lost samples s) (i : LaneStep) :
    Lost samples (s.step i) := by
  obtain ⟨hended, hempty, hhand', hlast⟩ := h
  have hmoves := s.step_moves i
  generalize s.step i = s' at hmoves
  cases hmoves with
  | stay => exact ⟨hended, hempty, hhand', hlast⟩
  | read _ hqueue =>
    rw [hempty] at hqueue
    cases hqueue
  | writeControl hhand => exact absurd hhand (hhand' _)
  | writeSlot => exact ⟨hended, hempty, nofun, hlast⟩
  | take hpump | takeNothing hpump | sent hpump | failed hpump =>
    rw [hended] at hpump
    cases hpump

/-- The phase that a run is in, and whether a send has failed too late. -/
inductive Phase (samples : List β)
    (tr : List (Machine.Entry (MotionLanes β) LaneStep Unit)) (s : MotionLanes β) : Prop
  | flows (h : Flows samples s) (hlate : ∀ e ∈ tr, ¬ FailsLate e)
  | kept (h : Kept samples s) (hlate : ∀ e ∈ tr, ¬ FailsLate e)
  | lost (h : Lost samples s) (hlate : ∃ e ∈ tr, FailsLate e)

theorem exec_phase {samples : List β} (hnodup : samples.Nodup) {is : List LaneStep}
    (herrors : PlaneErrors is) :
    Phase samples ((machine β).trace (start samples) is)
      ((machine β).exec (start samples) is) := by
  refine ((machine β).induct
    (G := fun e => ∀ error, e.input = .finish (some error) →
      error = .unsupportedByPeer ∨ error = .disabled)
    (P := fun tr s => InOrder samples s ∧ Phase samples tr s)
    ⟨start_inOrder samples, .flows (start_flows samples) fun _ he => absurd he List.not_mem_nil⟩
    ?_ is ?_).2
  · rintro tr s i ⟨hord, hphase⟩ herr
    have hconcat (hnow : ¬ FailsLate ((machine β).entry s i)) (h : ∀ e ∈ tr, ¬ FailsLate e) :
        ∀ e ∈ tr ++ [(machine β).entry s i], ¬ FailsLate e := by
      rw [List.forall_mem_append]
      exact ⟨h, List.forall_mem_singleton.2 hnow⟩
    have hended (h : s.pump = .ended) : ¬ FailsLate ((machine β).entry s i) := by
      rintro ⟨⟨sample, error, hpump, -⟩, -⟩
      exact absurd (h.symm.trans hpump) nofun
    refine ⟨hord.step i, ?_⟩
    cases hphase with
    | flows h hlate =>
      by_cases hfail : ∃ sample error, s.pump = .sending sample ∧ i = .finish (some error)
      · obtain ⟨sample, error, hpump, rfl⟩ := hfail
        by_cases hqueue : s.queue = []
        · refine .lost (h.lost hord hnodup hpump (herr error rfl) hqueue)
            ⟨_, List.mem_append_right _ (.head _), ⟨sample, error, hpump, rfl⟩, hqueue⟩
        · exact .kept (h.kept hpump (herr error rfl) hqueue) (hconcat (fun h => hqueue h.2) hlate)
      · refine .flows (h.step hord fun sample error hpump hi => hfail ⟨sample, error, hpump, hi⟩)
          (hconcat (fun h => hfail h.1) hlate)
    | kept h hlate => exact .kept (h.step i) (hconcat (hended h.ended) hlate)
    | lost h hlate =>
      obtain ⟨e, he, hlate⟩ := hlate
      exact .lost (h.step i) ⟨e, List.mem_append_left _ he, hlate⟩
  · intro e he error hinput
    obtain ⟨js, i, ks, rfl, rfl⟩ := (machine β).mem_trace_iff.1 he
    refine herrors error ?_
    rw [← hinput]
    exact List.mem_append_right _ (.head _)

/-- Once both tasks have nothing to do, the last sample has gone out, unless it was lost. -/
theorem mem_transmitted_of_idle {samples : List β} {s : MotionLanes β} (hidle : s.Idle)
    (h : Flows samples s ∨ Kept samples s) {sample : β} (hsample : samples.getLast? = some sample) :
    sample ∈ s.transmitted := by
  obtain ⟨hqueue, hhand, hpump⟩ := hidle
  rcases h with ⟨hrunning, taken, hsamples, hlast⟩ | ⟨-, -, hlast⟩
  · obtain ⟨hwaiting, hchanged⟩ := hpump.resolve_left hrunning
    have hlanes : s.lanes = s.transmitted := by
      simp [lanes, carried, held, unseen, hwaiting, hchanged, hhand]
    rw [hqueue, List.append_nil] at hsamples
    rw [hlanes, ← hsamples, hsample] at hlast
    exact List.mem_of_getLast? hlast
  · rcases hlast sample hsample with h | h | h
    · rw [hqueue] at h
      cases h
    · rw [hhand] at h
      cases h
    · exact h

/-- A send fails only when there is a sample. -/
theorem ne_nil_of_failsLate {samples : List β} {is : List LaneStep}
    {e : Machine.Entry (MotionLanes β) LaneStep Unit}
    (he : e ∈ (machine β).trace (start samples) is) (hlate : FailsLate e) : samples ≠ [] := by
  rintro rfl
  obtain ⟨⟨sample, error, hpump, -⟩, -⟩ := hlate
  obtain ⟨js, i, ks, -, rfl⟩ := (machine β).mem_trace_iff.1 he
  obtain ⟨taken, hsamples, hsub⟩ := (exec_inOrder [] js).sublist
  have htaken : taken = [] := (List.append_eq_nil_iff.1 hsamples.symm).1
  rw [htaken, List.sublist_nil, lanes, carried] at hsub
  rw [Machine.entry_pre] at hpump
  rw [hpump] at hsub
  simp at hsub

end MotionLanes

/-! ## Every list of samples -/

open MotionLanes

section
variable {α : Type*}

/-- A connection over which `samples` are to be sent, each with its place in the list. -/
def runtimeLanes (samples : List α) : MotionLanes (α × ℕ) := .start samples.zipIdx

/-- What the lanes are for, after a run: the samples transmitted are a subsequence of those sent,
and once both tasks have nothing to do the last sample is one of them. -/
structure SurvivesDegrade (samples : List α) (is : List LaneStep) : Prop where
  ordered : (((machine _).exec (runtimeLanes samples) is).transmitted.map Prod.fst).Sublist samples
  last : ((machine _).exec (runtimeLanes samples) is).Idle →
    ∀ sample, samples.zipIdx.getLast? = some sample →
      sample ∈ ((machine _).exec (runtimeLanes samples) is).transmitted

/-- **The last sample survives exactly when no send fails too late**: in every run in which sends
fail only because the plane is gone. -/
theorem survivesDegrade_iff (samples : List α) (is : List LaneStep) (herrors : PlaneErrors is) :
    SurvivesDegrade samples is ↔
      (((machine _).exec (runtimeLanes samples) is).Idle →
        ∀ e ∈ (machine _).trace (runtimeLanes samples) is, ¬ FailsLate e) := by
  have hnodup : samples.zipIdx.Nodup := by
    refine .of_map Prod.snd ?_
    rw [List.zipIdx_map_snd]
    exact List.nodup_range'
  have hphase := exec_phase hnodup herrors
  refine ⟨?_, ?_⟩
  · intro hsurvives hidle
    cases hphase with
    | flows _ hlate | kept _ hlate => exact hlate
    | lost h hlate =>
      obtain ⟨e, he, hlate⟩ := hlate
      have hne := ne_nil_of_failsLate he hlate
      have hlast := List.getLast?_eq_some_getLast hne
      exact absurd (hsurvives.last hidle _ hlast) (h.last _ hlast)
  · intro hlate
    refine ⟨?_, fun hidle sample hsample => ?_⟩
    · have hsub := (transmitted_sublist samples.zipIdx is).map Prod.fst
      rwa [List.zipIdx_map_fst] at hsub
    · refine mem_transmitted_of_idle hidle ?_ hsample
      cases hphase with
      | flows h => exact .inl h
      | kept h => exact .inr h
      | lost _ hlost =>
        obtain ⟨e, he, hfails⟩ := hlost
        exact absurd hfails (hlate hidle e he)

/-- The pump's send fails while the last sample is under way. -/
def lateFailure : List LaneStep := [.read, .write, .take, .finish (some .disabled)]

theorem survivesDegrade_iff_lateFailure :
    SurvivesDegrade [()] lateFailure ↔
      (((machine _).exec (runtimeLanes [()]) lateFailure).Idle →
        ∀ e ∈ (machine _).trace (runtimeLanes [()]) lateFailure, ¬ FailsLate e) :=
  survivesDegrade_iff [()] lateFailure fun error h => by
    simp only [lateFailure, List.mem_cons, LaneStep.finish.injEq, Option.some.injEq] at h
    tauto

theorem not_survivesDegrade_lateFailure : ¬ SurvivesDegrade [()] lateFailure := by
  intro h
  have hidle : ((machine _).exec (runtimeLanes [()]) lateFailure).Idle := ⟨rfl, rfl, .inl rfl⟩
  exact List.not_mem_nil (h.last hidle ((), 0) rfl)

end

end Mouser
