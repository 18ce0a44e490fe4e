import Mouser.Engine.Announce
import Mouser.Engine.Capture
import Mouser.Engine.Counters
import Mouser.Engine.Runtime
import Mouser.Lib.Handout

/-!
# The order in which the tasks hand out what the core produces

The core makes its actions under the mutex, one call after the other, and each task puts its own
actions on the channels when it comes to it. `Ledger` keeps beside the runtime what the core made,
what was put, and what is still due, oldest first.

Nothing makes a task wait for another that holds older actions, so a channel can get the values of
two calls in the wrong order. `Ledger.order_kept` says what holds of the runs in which no task
overtakes another, and `swapped_order` is a run in which one does.
-/

namespace Mouser

def Action.mode? : Action → Option CaptureMode
  | .setCaptureMode mode => some mode
  | _ => none

namespace EngineCore

section step

variable {s s' : EngineCore} {c : Call} {acts : List Action}

/-- A target never waits for an ack, and is told no mode. -/
theorem Effect.target (heff : Effect s c s' acts) (hr : s.role = .target)
    (hp : s.pendingEpoch = none) : lastMode acts = none ∧ s'.pendingEpoch = none := by
  have hnot : s.role ≠ .source := by
    rw [hr]
    exact nofun
  have hpend : s.pendingAck = none := pendingEpoch_eq_none.1 hp
  cases heff with
  | quiet hc hs ha => exact ⟨lastMode_of_quiet ha, hs.pendingEpoch.trans hp⟩
  | cross hrole => exact absurd hrole hnot
  | reclaim pre post hc ht hwhy =>
    rcases hwhy with ⟨hrole, -⟩ | hwait
    · exact absurd hrole hnot
    · exact absurd hpend hwait
  | adopt =>
    refine ⟨?_, ?_⟩
    · rw [acceptTransfer_actions, if_neg hnot]
      rfl
    · rw [pendingEpoch, acceptTransfer_pendingAck]
      rfl
  | refuse => exact ⟨rfl, hp⟩
  | settle hsome =>
    rw [hpend] at hsome
    cases hsome
  | inputCtr hf hs hg hh ha =>
    refine ⟨?_, hs.pendingEpoch.trans hp⟩
    rcases ha with rfl | ⟨i, rfl, -⟩ <;> rfl
  | inputSeq hs hg hh ha =>
    refine ⟨?_, hs.pendingEpoch.trans hp⟩
    rcases ha with rfl | ⟨rfl, -⟩ <;> rfl
  | failed =>
    refine ⟨onInjectionFailed_lastMode s, ?_⟩
    rw [pendingEpoch, onInjectionFailed_pendingAck]
    exact hp
  | trusted | allowed => exact ⟨rfl, hp⟩

end step

/-- A call that reports no failed injection does not drift, if the peer is another device. -/
theorem not_drifts {s : EngineCore} {c : Call} (hpeer : s.peer ≠ s.me)
    (hc : c ≠ .runtime .injectionFailed) : ¬ s.Drifts c := by
  rintro ⟨-, ⟨heq, -⟩ | ⟨heq, -⟩⟩
  · exact hc heq
  · exact hpeer heq

/-- What the core has made so far says where it is: the last mode and the last owner are its own,
and the counters go up. -/
structure Told (acts : List Action) (s : EngineCore) : Prop where
  mode : lastMode acts = some s.captureMode
  owner : (lastOwner acts).or (some (s.me, 0)) = some (s.owner, s.epoch)
  counted : Counted (counters acts) s
  target : s.role = .target → s.pendingEpoch = none

theorem told_start (role : Role) (me peer : DeviceId) (layout : EdgeLayout) :
    Told (new role me peer layout).initialActions (new role me peer layout) :=
  ⟨rfl, rfl, .new role me peer layout, fun _ => rfl⟩

theorem Told.call {acts : List Action} {s : EngineCore} (h : Told acts s) {c : Call}
    (hd : s.role = .source → ¬ s.Drifts c) (hr : ¬ s.Recounts c) :
    Told (acts ++ (s.call c).2) (s.call c).1 := by
  have heff := s.call_effect c
  have hdev := s.call_device c
  refine ⟨?_, ?_, ?_, ?_⟩
  · rw [lastMode_append, h.mode]
    cases hrole : s.role with
    | source => exact heff.mode hrole (hd hrole)
    | target =>
      rw [(heff.target hrole (h.target hrole)).1, captureMode, captureMode, hdev.role, hrole]
      rfl
  · rw [lastOwner_append, Option.or_assoc, hdev.me, h.owner]
    exact heff.owner
  · rw [counters_append]
    exact h.counted.call hr
  · intro hrole
    rw [hdev.role] at hrole
    exact (heff.target hrole (h.target hrole)).2

end EngineCore

/-! ## The tasks -/

/-- The channels that actions are put on. -/
inductive Channel where
  | out
  | mode
  | owner
deriving DecidableEq

def Action.channel? : Action → Option Channel
  | .sendControl _ | .sendMotion _ => some .out
  | .setCaptureMode _ => some .mode
  | .ownerChanged .. => some .owner
  | .inject _ | .capture _ | .setCursorVisible _ => none

def Action.isFor (ch : Channel) (act : Action) : Bool := act.channel? = some ch

/-- The epoch and the counter of an input frame on `out_tx`. -/
def Outgoing.ctr? : Outgoing → Option (UInt64 × UInt64)
  | .control frame => frame.ctr?
  | .motion _ => none

namespace Runtime

/-- The call that a step makes on the core, and the task that makes it. -/
def call? (s : Runtime) : RuntimeEvent → Option (RuntimeTask × Call)
  | .dispatch t injected =>
    match s.pending t with
    | .inject _ :: _ => if injected then none else some (t, .runtime .injectionFailed)
    | _ => none
  | .mode setMode canSuppress =>
    if s.pending .mode = [] ∧ s.modes.head? = some .activeForward ∧
        (!setMode || !canSuppress) = true then
      some (.mode, .runtime .suppressUnavailable)
    else none
  | e => e.call?.filter fun p => s.pending p.1 = []

/-- The action that a step hands out, and the task that has it. -/
def hand? (s : Runtime) : RuntimeEvent → Option (RuntimeTask × Action)
  | .dispatch t _ => (s.pending t).head?.map (t, ·)
  | _ => none

end Runtime

/-- The runtime, and a record of what its core has made and its tasks have put. -/
structure Ledger where
  runtime : Runtime
  work : Handout RuntimeTask Action

namespace Ledger

def start (core : EngineCore) (thread : ℕ) : Ledger where
  runtime := .start core thread
  work := Handout.empty.give (.local thread) core.initialActions

/-- A step of the runtime, recorded. -/
def step (l : Ledger) (e : RuntimeEvent) : Ledger where
  runtime := l.runtime.step e
  work :=
    let work := match l.runtime.hand? e with
      | some (t, act) => l.work.hand t act
      | none => l.work
    match l.runtime.call? e with
    | some (t, c) => work.give t (l.runtime.core.call c).2
    | none => work

def machine : Machine Ledger RuntimeEvent Unit := ⟨fun l e => (l.step e, ())⟩

/-- All tasks have handed out what they got. -/
def Idle (l : Ledger) : Prop := ∀ t, l.runtime.pending t = []

/-- What was put on `mode_tx`, in order. -/
def queuedModes (l : Ledger) : List CaptureMode := l.work.put.filterMap Action.mode?

/-- The channels get the actions in the order in which the core makes them, and what they got last
is true when all tasks are idle. -/
structure KeepsOrder (l : Ledger) : Prop where
  out : l.runtime.out <+: l.work.made.filterMap Action.outgoing?
  modes : l.queuedModes <+: l.work.made.filterMap Action.mode?
  owners : l.runtime.owners <+: l.work.made.filterMap Action.owner?
  mode : l.Idle → l.queuedModes.getLast? = some l.runtime.core.captureMode
  /-- Before the first update the embedder has the owner and the epoch of the start. -/
  owner : l.Idle → l.runtime.owners.getLast?.or (some (l.runtime.core.me, 0)) =
    some (l.runtime.core.owner, l.runtime.core.epoch)
  counters : CountsUp (l.runtime.out.filterMap Outgoing.ctr?)

/-- The action that is handed out is the oldest of its channel that is due. -/
def InTurn (l : Ledger) (e : RuntimeEvent) : Prop :=
  ∀ p ∈ l.runtime.hand? e, ∀ ch ∈ p.2.channel?, l.work.oldest (·.isFor ch) = some p.1

/-- A step that keeps the order: its task does not overtake another, and the call on the core
neither moves ownership without telling the mode nor breaks the order of the counters. -/
structure Orderly (l : Ledger) (e : RuntimeEvent) : Prop where
  turn : l.InTurn e
  drifts : ∀ p ∈ l.runtime.call? e, l.runtime.core.role = .source → ¬ l.runtime.core.Drifts p.2
  recounts : ∀ p ∈ l.runtime.call? e, ¬ l.runtime.core.Recounts p.2

instance (l : Ledger) (e : RuntimeEvent) : Decidable (l.InTurn e) := by
  unfold InTurn
  infer_instance

/-! ## One step -/

/-- What a step does to the record. -/
inductive Moved (l : Ledger) (e : RuntimeEvent) : Ledger → Prop
  /-- The task was not idle, or had nothing to do. -/
  | still {modes} (hmodes : modes <:+ l.runtime.modes) :
      Moved l e ⟨{ l.runtime with modes }, l.work⟩
  | called {t c modes} (hcall : l.runtime.call? e = some (t, c)) (hidle : l.runtime.pending t = [])
      (hmodes : modes <:+ l.runtime.modes) :
      Moved l e
        ⟨{ l.runtime with
            core := (l.runtime.core.call c).1
            pending := Function.update l.runtime.pending t (l.runtime.core.call c).2
            modes },
          l.work.give t (l.runtime.core.call c).2⟩
  | handed {t act rest} (hhand : l.runtime.hand? e = some (t, act))
      (hact : l.runtime.pending t = act :: rest) :
      Moved l e
        ⟨{ l.runtime with
            pending := Function.update l.runtime.pending t rest
            out := l.runtime.out ++ act.outgoing?.toList
            modes := l.runtime.modes ++ act.mode?.toList
            owners := l.runtime.owners ++ act.owner?.toList },
          l.work.hand t act⟩
  /-- An injection failed. -/
  | failed {t i rest} (hcall : l.runtime.call? e = some (t, .runtime .injectionFailed))
      (hact : l.runtime.pending t = .inject i :: rest) :
      Moved l e
        ⟨{ l.runtime with
            core := (l.runtime.core.call (.runtime .injectionFailed)).1
            pending := Function.update l.runtime.pending t
              ((l.runtime.core.call (.runtime .injectionFailed)).2 ++ rest) },
          (l.work.hand t (.inject i)).give t (l.runtime.core.call (.runtime .injectionFailed)).2⟩

theorem run_moved {l : Ledger} {e : RuntimeEvent} {t : RuntimeTask} {c : Call}
    (hstep : l.runtime.step e = l.runtime.run t c) (hhand : l.runtime.hand? e = none)
    (hcall : l.runtime.call? e = (some (t, c)).filter fun p => l.runtime.pending p.1 = []) :
    l.Moved e (l.step e) := by
  by_cases hidle : l.runtime.pending t = []
  · have hcall' : l.runtime.call? e = some (t, c) := by simp [hcall, hidle]
    rw [step, hhand, hcall', hstep, Runtime.run_of_idle hidle]
    exact .called hcall' hidle (List.suffix_refl _)
  · have hcall' : l.runtime.call? e = none := by simp [hcall, hidle]
    rw [step, hhand, hcall', hstep, Runtime.run_of_busy hidle]
    exact .still (List.suffix_refl _)

theorem mode_moved (l : Ledger) (setMode canSuppress : Bool) :
    l.Moved (.mode setMode canSuppress) (l.step (.mode setMode canSuppress)) := by
  have hstep : l.runtime.step (.mode setMode canSuppress) =
      l.runtime.onMode setMode canSuppress := rfl
  have hhand : l.runtime.hand? (.mode setMode canSuppress) = none := rfl
  unfold Runtime.onMode at hstep
  split at hstep
  · next mode rest hidle hmodes =>
    have hrest : rest <:+ l.runtime.modes := hmodes ▸ List.suffix_cons ..
    split at hstep
    · next hfails =>
      rw [Bool.and_eq_true, decide_eq_true_eq] at hfails
      have hcall : l.runtime.call? (.mode setMode canSuppress) =
          some (.mode, .runtime .suppressUnavailable) :=
        if_pos ⟨hidle, by rw [hmodes, hfails.1]; rfl, hfails.2⟩
      rw [step, hhand, hcall, hstep, Runtime.run_of_idle (by exact hidle)]
      exact .called hcall hidle hrest
    · next hfails =>
      have hcall : l.runtime.call? (.mode setMode canSuppress) = none := by
        refine if_neg ?_
        rintro ⟨-, hmode, hfail⟩
        rw [hmodes] at hmode
        exact hfails (by rw [Option.some.inj hmode, hfail]; rfl)
      rw [step, hhand, hcall, hstep]
      exact .still hrest
  · next hnot =>
    have hcall : l.runtime.call? (.mode setMode canSuppress) = none := by
      refine if_neg ?_
      rintro ⟨hidle, hmode, -⟩
      obtain ⟨rest, hrest⟩ := List.head?_eq_some_iff.1 hmode
      exact hnot _ _ hidle hrest
    rw [step, hhand, hcall, hstep]
    exact .still (List.suffix_refl _)

theorem dispatch_moved (l : Ledger) (t : RuntimeTask) (injected : Bool) :
    l.Moved (.dispatch t injected) (l.step (.dispatch t injected)) := by
  have hstep : l.runtime.step (.dispatch t injected) = l.runtime.onDispatch t injected := rfl
  cases hact : l.runtime.pending t with
  | nil =>
    have hhand : l.runtime.hand? (.dispatch t injected) = none := by simp [Runtime.hand?, hact]
    have hcall : l.runtime.call? (.dispatch t injected) = none := by simp [Runtime.call?, hact]
    rw [step, hhand, hcall, hstep, Runtime.onDispatch, hact]
    exact .still (List.suffix_refl _)
  | cons act rest =>
    have hhand : l.runtime.hand? (.dispatch t injected) = some (t, act) := by
      simp [Runtime.hand?, hact]
    cases act with
    | sendControl | sendMotion | setCaptureMode | ownerChanged | setCursorVisible | capture =>
      have hcall : l.runtime.call? (.dispatch t injected) = none := by simp [Runtime.call?, hact]
      have hhanded := Moved.handed hhand hact
      simp only [Action.outgoing?, Action.mode?, Action.owner?, Option.toList_none,
        Option.toList_some, List.append_nil] at hhanded
      rw [step, hhand, hcall, hstep, Runtime.onDispatch, hact]
      exact hhanded
    | inject i =>
      cases injected with
      | true =>
        have hcall : l.runtime.call? (.dispatch t true) = none := by simp [Runtime.call?, hact]
        have hhanded := Moved.handed hhand hact
        simp only [Action.outgoing?, Action.mode?, Action.owner?, Option.toList_none,
          List.append_nil] at hhanded
        rw [step, hhand, hcall, hstep, Runtime.onDispatch, hact]
        exact hhanded
      | false =>
        have hcall : l.runtime.call? (.dispatch t false) =
            some (t, .runtime .injectionFailed) := by
          simp [Runtime.call?, hact]
        have hfailed := Moved.failed hcall hact
        rw [step, hhand, hcall, hstep, Runtime.onDispatch, hact]
        dsimp only
        rw [if_neg (by decide), Function.update_idem]
        exact hfailed

/-- **One step of the record.** -/
theorem step_moved (l : Ledger) (e : RuntimeEvent) : l.Moved e (l.step e) := by
  cases e with
  | localInput | control | fallback | motion | tick => exact run_moved rfl rfl rfl
  | mode setMode canSuppress => exact l.mode_moved setMode canSuppress
  | dispatch t injected => exact l.dispatch_moved t injected

/-! ## Runs -/

/-- The record fits the runtime, and no task has anything to do after an injection. -/
structure Records (l : Ledger) : Prop where
  pending : ∀ t, l.runtime.pending t = l.work.pending t
  last : ∀ t, InjectsLast (l.runtime.pending t)
  out : l.runtime.out = l.work.put.filterMap Action.outgoing?
  modes : l.runtime.modes <:+ l.queuedModes
  owners : l.runtime.owners = l.work.put.filterMap Action.owner?

theorem records_start (core : EngineCore) (thread : ℕ) : Records (start core thread) := by
  have hpending : ∀ t, (Runtime.start core thread).pending t =
      if .local thread = t then core.initialActions else [] := by
    intro t
    change Function.update (fun _ => []) (.local thread) core.initialActions t = _
    by_cases ht : t = .local thread
    · rw [ht, Function.update_self, if_pos rfl]
    · rw [Function.update_of_ne ht, if_neg (Ne.symm ht)]
  refine ⟨?_, ?_, rfl, List.suffix_refl _, rfl⟩
  · intro t
    change _ = (Handout.empty.give (.local thread) core.initialActions).pending t
    rw [Handout.pending_give, Handout.pending_empty, List.nil_append]
    exact hpending t
  · intro t
    change InjectsLast ((Runtime.start core thread).pending t)
    rw [hpending]
    split <;> rfl

/-- A task with a new list of actions, in the runtime and in the record. -/
theorem Records.update {l : Ledger} (h : Records l) {t : RuntimeTask} {acts : List Action}
    (work : Handout RuntimeTask Action) (hlast : InjectsLast acts) (ht : work.pending t = acts)
    (hother : ∀ u, u ≠ t → work.pending u = l.work.pending u) (u : RuntimeTask) :
    Function.update l.runtime.pending t acts u = work.pending u ∧
      InjectsLast (Function.update l.runtime.pending t acts u) := by
  by_cases hu : u = t
  · rw [hu, Function.update_self]
    exact ⟨ht.symm, hlast⟩
  · rw [Function.update_of_ne hu, hother u hu]
    exact ⟨h.pending u, h.last u⟩

theorem Records.step {l : Ledger} (h : Records l) (e : RuntimeEvent) : Records (l.step e) := by
  have hmove := l.step_moved e
  generalize l.step e = l' at hmove
  cases hmove with
  | still hmodes => exact ⟨h.pending, h.last, h.out, hmodes.trans h.modes, h.owners⟩
  | @called t c modes hcall hidle hmodes =>
    have hnew := h.update (l.work.give t (l.runtime.core.call c).2)
      (l.runtime.core.call_injectsLast c)
      (by rw [Handout.pending_give, ← h.pending, hidle, if_pos rfl, List.nil_append])
      (fun u hu => by rw [Handout.pending_give, if_neg hu.symm, List.append_nil])
    exact ⟨fun u => (hnew u).1, fun u => (hnew u).2, h.out, hmodes.trans h.modes, h.owners⟩
  | @handed t act rest hhand hact =>
    have hpend : l.work.pending t = act :: rest := h.pending t ▸ hact
    have hnew := h.update (l.work.hand t act) (hact ▸ h.last t).tail
      (Handout.pending_hand_self hpend) fun u hu => Handout.pending_hand_other hpend hu
    refine ⟨fun u => (hnew u).1, fun u => (hnew u).2, ?_, ?_, ?_⟩
    · rw [Handout.filterMap_put_hand, ← h.out]
    · rw [queuedModes, Handout.filterMap_put_hand]
      obtain ⟨taken, htaken⟩ := h.modes
      exact ⟨taken, by rw [← List.append_assoc, htaken]; rfl⟩
    · rw [Handout.filterMap_put_hand, ← h.owners]
  | @failed t i rest hcall hact =>
    obtain rfl : rest = [] := (hact ▸ h.last t).eq_nil
    have hpend : l.work.pending t = [.inject i] := h.pending t ▸ hact
    have hnew := h.update
      ((l.work.hand t (.inject i)).give t (l.runtime.core.call (.runtime .injectionFailed)).2)
      (l.runtime.core.call_injectsLast (.runtime .injectionFailed))
      (by rw [Handout.pending_give, Handout.pending_hand_self hpend, if_pos rfl, List.nil_append])
      (fun u hu => by
        rw [Handout.pending_give, Handout.pending_hand_other hpend hu, if_neg hu.symm,
          List.append_nil])
    rw [List.append_nil]
    -- an injection is put on no channel
    have hput : ∀ {β : Type} (f : Action → Option β), f (.inject i) = none →
        (l.work.hand t (.inject i)).put.filterMap f = l.work.put.filterMap f := by
      intro β f hf
      rw [Handout.filterMap_put_hand, hf]
      exact List.append_nil _
    refine ⟨fun u => (hnew u).1, fun u => (hnew u).2, ?_, ?_, ?_⟩
    · exact h.out.trans (hput Action.outgoing? rfl).symm
    · change l.runtime.modes <:+ (l.work.hand t (.inject i)).put.filterMap Action.mode?
      rw [hput Action.mode? rfl]
      exact h.modes
    · exact h.owners.trans (hput Action.owner? rfl).symm

/-- What holds along a run of steps that keep the order. -/
structure Inv (l : Ledger) : Prop where
  records : Records l
  order : ∀ ch, l.work.InOrder (·.isFor ch)
  told : EngineCore.Told l.work.made l.runtime.core

theorem inv_start (role : Role) (me peer : DeviceId) (layout : EdgeLayout) (thread : ℕ) :
    Inv (start (.new role me peer layout) thread) :=
  ⟨records_start _ thread, fun _ => (Handout.InOrder.empty _).give _ _,
    EngineCore.told_start role me peer layout⟩

theorem Inv.step {l : Ledger} (h : Inv l) {e : RuntimeEvent} (he : l.Orderly e) :
    Inv (l.step e) := by
  have hrecords := h.records.step e
  have hmove := l.step_moved e
  generalize l.step e = l' at hrecords hmove
  refine ⟨hrecords, ?_, ?_⟩
  · intro ch
    cases hmove with
    | still => exact h.order ch
    | called => exact (h.order ch).give _ _
    | @handed t act rest hhand hact =>
      refine (h.order ch).hand (h.records.pending t ▸ hact) ?_
      intro hfor
      exact he.turn _ hhand ch (of_decide_eq_true hfor)
    | @failed t i rest hcall hact =>
      refine ((h.order ch).hand (h.records.pending t ▸ hact) ?_).give _ _
      exact nofun
  · cases hmove with
    | still | handed => exact h.told
    | called hcall => exact h.told.call (he.drifts _ hcall) (he.recounts _ hcall)
    | failed hcall => exact h.told.call (he.drifts _ hcall) (he.recounts _ hcall)

/-- What each channel carries is read off the actions of the channel. -/
theorem reads_isFor (act : Action) :
    (act.isFor .out = false → act.outgoing? = none) ∧ (act.isFor .mode = false → act.mode? = none) ∧
      (act.isFor .owner = false → act.owner? = none) := by
  cases act <;> simp [Action.isFor, Action.channel?, Action.outgoing?, Action.mode?, Action.owner?]

theorem counters_eq (acts : List Action) :
    counters acts = (acts.filterMap Action.outgoing?).filterMap Outgoing.ctr? := by
  unfold counters frames
  rw [List.filterMap_filterMap, List.filterMap_filterMap]
  refine List.filterMap_congr ?_
  intro act _
  cases act <;> rfl

theorem Inv.keepsOrder {l : Ledger} (h : Inv l) : KeepsOrder l := by
  have hout := (h.order .out).isPrefix fun act => (reads_isFor act).1
  have hmodes := (h.order .mode).isPrefix fun act => (reads_isFor act).2.1
  have howners := (h.order .owner).isPrefix fun act => (reads_isFor act).2.2
  have hdrained : l.Idle → ∀ t, l.work.pending t = [] := fun hidle t =>
    (h.records.pending t).symm.trans (hidle t)
  refine ⟨?_, hmodes, ?_, ?_, ?_, ?_⟩
  · rwa [h.records.out]
  · rwa [h.records.owners]
  · intro hidle
    rw [queuedModes, (h.order .mode).drained (fun act => (reads_isFor act).2.1) (hdrained hidle)]
    exact h.told.mode
  · intro hidle
    rw [h.records.owners,
      (h.order .owner).drained (fun act => (reads_isFor act).2.2) (hdrained hidle)]
    exact h.told.owner
  · have hcounts := h.told.counted.countsUp
    rw [counters_eq] at hcounts
    rw [h.records.out]
    exact hcounts.sublist (hout.sublist.filterMap _)

/-- **The runtime keeps the order of the core**, in every run in which no task overtakes another and
the core neither moves ownership without telling the mode nor breaks the order of the counters. -/
theorem order_kept (role : Role) (me peer : DeviceId) (layout : EdgeLayout) (thread : ℕ)
    (events : List RuntimeEvent)
    (h : ∀ en ∈ machine.trace (start (.new role me peer layout) thread) events,
      en.pre.Orderly en.input) :
    KeepsOrder (machine.exec (start (.new role me peer layout) thread) events) := by
  have hinv := machine.inv_exec_of (I := Inv) (G := fun en => en.pre.Orderly en.input)
    (inv_start role me peer layout thread) (fun l e hl he => hl.step he) events h
  exact hinv.keepsOrder

section

/-- The source of the examples, its peer on the right. -/
def exampleSource : EngineCore := .newSource (.fill 1) (.fill 2) (.sideBySide 100 100 100 100)

/-- The cursor crosses out and two keys are pressed, on one thread; the peer's heartbeat and a tick
come in between. -/
def inTurn : List RuntimeEvent :=
  [.dispatch (.local 0) true, .dispatch (.local 0) true,
    .localInput 0 (.cursorMoved 0 98 50 5 0), .dispatch (.local 0) true, .mode true true,
    .control (.heartbeat (some ⟨1⟩)), .dispatch (.local 0) true, .tick,
    .dispatch (.local 0) true, .dispatch .ticker true, .dispatch (.local 0) true,
    .dispatch (.local 0) true, .localInput 0 (.key 4 true 0), .dispatch (.local 0) true,
    .dispatch (.local 0) true, .localInput 0 (.key 5 true 0), .dispatch (.local 0) true,
    .dispatch (.local 0) true]

theorem inTurn_keepsOrder :
    let l := start exampleSource 0
    (∀ en ∈ machine.trace l inTurn, en.pre.Orderly en.input) ∧
      KeepsOrder (machine.exec l inTurn) := by
  intro l
  have hsteps : ∀ en ∈ machine.trace l inTurn, en.pre.InTurn en.input ∧
      en.pre.runtime.core.peer ≠ en.pre.runtime.core.me ∧
      ∀ p ∈ en.pre.runtime.call? en.input, p.2 ≠ .runtime .injectionFailed ∧
        p.2.transfer? = none ∧ en.pre.runtime.core.epoch ≠ .maxValue ∧
          en.pre.runtime.core.outCtr ≠ .maxValue := by
    decide +kernel
  have horderly : ∀ en ∈ machine.trace l inTurn, en.pre.Orderly en.input := by
    intro en hen
    obtain ⟨hturn, hpeer, hcall⟩ := hsteps en hen
    refine ⟨hturn, ?_, ?_⟩
    · intro p hp _
      exact EngineCore.not_drifts hpeer (hcall p hp).1
    · intro p hp
      obtain ⟨-, htransfer, hepoch, hctr⟩ := hcall p hp
      exact EngineCore.not_recounts htransfer hepoch hctr
  exact ⟨horderly, order_kept .source (.fill 1) (.fill 2) (.sideBySide 100 100 100 100) 0 inTurn
    horderly⟩

/-- The peer leaves while the crossing is being handed out, and the control task is done first. -/
def swapped : List RuntimeEvent :=
  [.dispatch (.local 0) true, .dispatch (.local 0) true,
    .localInput 0 (.cursorMoved 0 98 50 5 0), .control (.goodbye none),
    .dispatch .control true, .dispatch .control true, .dispatch .control true,
    .dispatch .control true, .dispatch .control true, .dispatch (.local 0) true,
    .dispatch (.local 0) true, .dispatch (.local 0) true, .dispatch (.local 0) true,
    .dispatch (.local 0) true]

/-- All tasks are idle at the end of that run. The core owns input, and what the channels got last
says that the peer does. -/
theorem swapped_order :
    let l := machine.exec (start exampleSource 0) swapped
    ¬ KeepsOrder l ∧ l.Idle ∧ l.runtime.core.captureMode = .passiveEdge ∧
      l.queuedModes.getLast? = some .activeForward ∧
      l.runtime.owners = [(.fill 1, 2), (.fill 2, 1)] := by
  intro l
  have hdue : l.work.due = [] := by decide +kernel
  have hidle : l.Idle := by
    intro t
    have hrecords := machine.inv_exec (records_start exampleSource 0)
      (fun l e h => h.step e) swapped
    rw [hrecords.pending t, Handout.pending, hdue]
    rfl
  have hmode : l.runtime.core.captureMode = .passiveEdge := by decide +kernel
  have hlast : l.queuedModes.getLast? = some .activeForward := by decide +kernel
  refine ⟨?_, hidle, hmode, hlast, by decide +kernel⟩
  intro h
  have hkept := h.mode hidle
  rw [hmode, hlast] at hkept
  cases hkept

end

end Ledger

end Mouser
