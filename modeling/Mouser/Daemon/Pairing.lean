import Mathlib.Data.Finset.Insert
import Mouser.Daemon.Store
import Mouser.Lib.Machine

/-!
# The inbound pairing flow

`accept_trusted` accepts connections until one is of a trusted peer. For an untrusted peer it
publishes a prompt with the channel's short authentication string (`request_pairing`) and waits for
the user's decision (`pair_via_ui`). The serve loop runs it as one arm of a select, so it can be
dropped at any await. Decisions come from `command_loop` through an unbounded queue that belongs to
the bridge, not to the prompt.
-/

namespace Mouser

/-- A verified inbound connection, numbered in the order of acceptance. -/
structure InboundConn where
  serial : Nat
deriving DecidableEq

/-- Where `accept_trusted` is suspended. -/
inductive AcceptPhase where
  /-- It is not running: it has returned, or another arm of the select won. -/
  | stopped
  /-- In `accept_interactive`. -/
  | accepting
  /-- In `pairing_name`, on behalf of an untrusted peer. -/
  | naming (conn : InboundConn) (peer : DeviceId) (sas : String)
  /-- In `next_pairing_decision`, with the prompt of the peer published. -/
  | prompting (conn : InboundConn) (peer : DeviceId)
deriving DecidableEq

/-- The prompt shown to the user. -/
structure PairingDto where
  peerId : String
  name : String
  sas : String
deriving DecidableEq

structure PairingFlow where
  phase : AcceptPhase
  /-- How many connections were accepted. -/
  accepts : Nat
  pairing : Option PairingDto
  /-- Approve and deny decisions that `next_pairing_decision` has not taken: the peer id as the UI
  sent it, and whether it approves. -/
  decisions : List (String × Bool)
  trusted : Finset DeviceId

inductive PairingEvent where
  /-- The select starts a fresh `accept_trusted`. -/
  | start
  /-- Another arm wins, and the future is dropped. -/
  | cancel
  /-- A connection comes in, with what `peer_device_id`, `sas` and the trust store say of it. -/
  | accept (peer : Option DeviceId) (sas : Option String) (readable : Bool)
  /-- The endpoint fails. -/
  | acceptError
  /-- `pairing_name` is done. -/
  | named (name : String)
  /-- An `ApprovePairing` or `DenyPairing` reaches `command_loop`. -/
  | command (peerId : String) (approved : Bool)
  /-- The prompt takes the next decision; an approval is written to the trust store. -/
  | decide (writable : Bool)
  /-- The wait times out, or the queue is closed, with no decision in it. -/
  | giveUp
  /-- `Trust` and `ResetData` change the trust store. -/
  | trust (peer : DeviceId)
  | resetData
deriving DecidableEq

inductive PairingOutput where
  | published (prompt : PairingDto)
  | decided (conn : InboundConn) (approved : Bool)
  | returned (conn : InboundConn)
  | closed (conn : InboundConn)
  | failed
deriving DecidableEq

namespace PairingFlow

def boot (trusted : Finset DeviceId) : PairingFlow where
  phase := .stopped
  accepts := 0
  pairing := none
  decisions := []
  trusted := trusted

/-- Drop the future; a published prompt is cleared by its guard. -/
def drop (s : PairingFlow) : PairingFlow :=
  match s.phase with
  | .prompting .. => { s with phase := .stopped, pairing := none }
  | _ => { s with phase := .stopped }

/-- The body of the loop of `accept_trusted`, up to the first await of `pair_via_ui`. -/
def onAccept (s : PairingFlow) (peer : Option DeviceId) (sas : Option String) (readable : Bool) :
    PairingFlow × List PairingOutput :=
  match s.phase with
  | .accepting =>
    let conn : InboundConn := ⟨s.accepts⟩
    let s := { s with accepts := s.accepts + 1 }
    match peer with
    | none => (s, [.closed conn])
    | some peer =>
      if !readable then ({ s with phase := .stopped }, [.failed])
      else if peer ∈ s.trusted then ({ s with phase := .stopped }, [.returned conn])
      else
        match sas with
        | none => ({ s with phase := .stopped }, [.failed])
        | some sas => ({ s with phase := .naming conn peer sas }, [])
  | _ => (s, [])

/-- `request_pairing`, and the guard that clears it. -/
def onNamed (s : PairingFlow) (name : String) : PairingFlow × List PairingOutput :=
  match s.phase with
  | .naming conn peer sas =>
    let prompt := { peerId := formatDeviceId peer, name, sas }
    ({ s with phase := .prompting conn peer, pairing := some prompt }, [.published prompt])
  | _ => (s, [])

/-- One turn of the decision loop of `pair_via_ui`, and what `accept_trusted` does with the
result. A decision for another peer is dropped. -/
def onDecide (s : PairingFlow) (writable : Bool) : PairingFlow × List PairingOutput :=
  match s.phase, s.decisions with
  | .prompting conn peer, (id, approved) :: rest =>
    let s := { s with decisions := rest }
    if id = formatDeviceId peer then
      let s := { s with pairing := none }
      if approved then
        if writable then
          ({ s with phase := .stopped, trusted := insert peer s.trusted },
            [.decided conn true, .returned conn])
        else ({ s with phase := .stopped }, [.decided conn true, .failed])
      else ({ s with phase := .accepting }, [.decided conn false, .closed conn])
    else (s, [])
  | _, _ => (s, [])

def onGiveUp (s : PairingFlow) : PairingFlow × List PairingOutput :=
  match s.phase, s.decisions with
  | .prompting conn _, [] =>
    ({ s with phase := .accepting, pairing := none }, [.closed conn])
  | _, _ => (s, [])

def step (s : PairingFlow) : PairingEvent → PairingFlow × List PairingOutput
  | .start => (if s.phase = .stopped then { s with phase := .accepting } else s, [])
  | .cancel => (s.drop, [])
  | .accept peer sas readable => s.onAccept peer sas readable
  | .acceptError =>
    if s.phase = .accepting then ({ s with phase := .stopped }, [.failed]) else (s, [])
  | .named name => s.onNamed name
  | .command peerId approved => ({ s with decisions := s.decisions ++ [(peerId, approved)] }, [])
  | .decide writable => s.onDecide writable
  | .giveUp => s.onGiveUp
  | .trust peer => ({ s with trusted := insert peer s.trusted }, [])
  | .resetData => ({ s with trusted := ∅ }, [])

def machine : Machine PairingFlow PairingEvent (List PairingOutput) := ⟨step⟩

/-! ## Which command a decision came from -/

/-- A step of the flow. -/
abbrev Step := Machine.Entry PairingFlow PairingEvent (List PairingOutput)

/-- What a step makes of the list of commands whose decisions are in the queue: a command is added
to it, and a step that takes a decision out takes the command it came from. -/
def enqueue (queue : List Step) (en : Step) : List Step :=
  match en.input with
  | .command .. => queue ++ [en]
  | _ => if en.post.decisions.length < en.pre.decisions.length then queue.tail else queue

/-- The steps of the commands whose decisions are still in the queue, oldest first. -/
def pending (steps : List Step) : List Step :=
  steps.foldl enqueue []

/-- The next decision in the queue came from a command for the peer that arrived while the prompt
of the connection was pending. -/
def PromptedHead (steps : List Step) (conn : InboundConn) (peer : DeviceId)
    (approved : Bool) : Prop :=
  ∃ cmd, (pending steps).head? = some cmd ∧
    cmd.input = .command (formatDeviceId peer) approved ∧ cmd.pre.phase = .prompting conn peer

/-- **A decision counts only for the prompt the user saw.** -/
structure DecidedByPrompt (start : PairingFlow) (events : List PairingEvent) : Prop where
  /-- A connection is approved or denied only by a command of its own prompt. -/
  decided : ∀ before ev after conn approved, events = before ++ ev :: after →
    .decided conn approved ∈ ((machine.exec start before).step ev).2 →
      ∃ peer, PromptedHead (machine.trace start before) conn peer approved
  /-- A connection is returned only if its peer was trusted when it came in, or by an approval of
  its own prompt. -/
  returned : ∀ before ev after conn, events = before ++ ev :: after →
    .returned conn ∈ ((machine.exec start before).step ev).2 →
      (∃ peer sas, ev = .accept (some peer) sas true ∧
        peer ∈ (machine.exec start before).trusted) ∨
      ∃ peer, PromptedHead (machine.trace start before) conn peer true
  /-- A peer becomes trusted only by a `Trust` command, or by an approval of a prompt for it. -/
  trusted : ∀ before ev after peer, events = before ++ ev :: after →
    peer ∉ (machine.exec start before).trusted →
    peer ∈ ((machine.exec start before).step ev).1.trusted →
      ev = .trust peer ∨ ∃ conn, PromptedHead (machine.trace start before) conn peer true

/-- No prompt is published while the queue holds a decision for its peer. -/
def PublishesOnFresh (s : PairingFlow) (ev : PairingEvent) : Prop :=
  ∀ name conn peer sas, ev = .named name → s.phase = .naming conn peer sas →
    ∀ d ∈ s.decisions, d.1 ≠ formatDeviceId peer

/-! ## What one step does -/

/-- What a step to `t` can do to the queue, the prompt and the trust store, and what it can say. -/
inductive Effect (s : PairingFlow) (ev : PairingEvent) (t : PairingFlow)
    (out : List PairingOutput) : Prop
  /-- The queue stays as it is, and no prompt is published. -/
  | quiet (hev : ∀ id approved, ev ≠ .command id approved)
      (hqueue : t.decisions = s.decisions)
      (hphase : ∀ conn peer, t.phase = .prompting conn peer → s.phase = .prompting conn peer)
      (hdecided : ∀ conn approved, .decided conn approved ∉ out)
      (hreturned : ∀ conn, .returned conn ∈ out →
        ∃ peer sas, ev = .accept (some peer) sas true ∧ peer ∈ s.trusted)
      (htrusted : ∀ peer ∈ t.trusted, peer ∈ s.trusted ∨ ev = .trust peer)
  | published {name : String} {conn : InboundConn} {peer : DeviceId} {sas : String}
      (hev : ev = .named name) (hnaming : s.phase = .naming conn peer sas)
      (hphase : t.phase = .prompting conn peer) (hqueue : t.decisions = s.decisions)
      (htrusted : t.trusted = s.trusted) (hout : ∃ prompt, out = [.published prompt])
  | queued {id : String} {approved : Bool} (hev : ev = .command id approved)
      (hphase : t.phase = s.phase) (hqueue : t.decisions = s.decisions ++ [(id, approved)])
      (htrusted : t.trusted = s.trusted) (hout : out = [])
  /-- A decision for another peer is dropped. -/
  | skipped {writable : Bool} {d : String × Bool} (hev : ev = .decide writable)
      (hphase : t.phase = s.phase) (hqueue : s.decisions = d :: t.decisions)
      (htrusted : t.trusted = s.trusted) (hout : out = [])
  | decided {writable : Bool} {conn : InboundConn} {peer : DeviceId} {approved : Bool}
      (hev : ev = .decide writable) (hprompting : s.phase = .prompting conn peer)
      (hqueue : s.decisions = (formatDeviceId peer, approved) :: t.decisions)
      (hphase : ∀ conn peer, t.phase ≠ .prompting conn peer)
      (hdecided : ∀ c a, .decided c a ∈ out → c = conn ∧ a = approved)
      (hreturned : ∀ c, .returned c ∈ out → c = conn ∧ approved = true)
      (htrusted : ∀ p ∈ t.trusted, p ∈ s.trusted ∨ p = peer ∧ approved = true)

theorem onAccept_effect (s : PairingFlow) (peer : Option DeviceId) (sas : Option String)
    (readable : Bool) :
    s.Effect (.accept peer sas readable) (s.onAccept peer sas readable).1
      (s.onAccept peer sas readable).2 := by
  cases hphase : s.phase with
  | accepting =>
    cases peer with
    | none => apply Effect.quiet <;> simp [onAccept, hphase]
    | some peer =>
      cases readable with
      | false => apply Effect.quiet <;> simp [onAccept, hphase]
      | true =>
        by_cases hpeer : peer ∈ s.trusted
        · apply Effect.quiet <;> simp [onAccept, hphase, hpeer]
        · cases sas <;> apply Effect.quiet <;> simp [onAccept, hphase, hpeer]
  | _ => apply Effect.quiet <;> simp [onAccept, hphase]

theorem onDecide_effect (s : PairingFlow) (writable : Bool) :
    s.Effect (.decide writable) (s.onDecide writable).1 (s.onDecide writable).2 := by
  cases hphase : s.phase with
  | prompting conn peer =>
    cases hqueue : s.decisions with
    | nil => apply Effect.quiet <;> simp [onDecide, hphase, hqueue]
    | cons d rest =>
      obtain ⟨id, approved⟩ := d
      by_cases hid : id = formatDeviceId peer
      · subst hid
        have hrest : s.decisions = (formatDeviceId peer, approved) ::
            (s.onDecide writable).1.decisions := by
          cases approved <;> cases writable <;> simp [onDecide, hphase, hqueue]
        apply Effect.decided rfl hphase hrest <;> cases approved <;> cases writable <;>
          simp +contextual [onDecide, hphase, hqueue, or_comm]
      · have hskip : s.onDecide writable = ({ s with decisions := rest }, []) := by
          simp [onDecide, hphase, hqueue, hid]
        rw [hskip]
        exact .skipped rfl rfl hqueue rfl rfl
  | _ => apply Effect.quiet <;> simp [onDecide, hphase]

/-- Every step has one of the effects. -/
theorem step_effect (s : PairingFlow) (ev : PairingEvent) :
    s.Effect ev (s.step ev).1 (s.step ev).2 := by
  cases ev with
  | start => by_cases h : s.phase = .stopped <;> apply Effect.quiet <;> simp [step, h]
  | cancel => cases h : s.phase <;> apply Effect.quiet <;> simp [step, drop, h]
  | accept peer sas readable => exact onAccept_effect s peer sas readable
  | acceptError => by_cases h : s.phase = .accepting <;> apply Effect.quiet <;> simp [step, h]
  | named name =>
    cases hphase : s.phase with
    | naming conn peer sas => apply Effect.published rfl hphase <;> simp [step, onNamed, hphase]
    | _ => apply Effect.quiet <;> simp [step, onNamed, hphase]
  | command id approved => exact .queued rfl rfl rfl rfl rfl
  | decide writable => exact onDecide_effect s writable
  | giveUp =>
    cases h : s.phase <;> cases hd : s.decisions <;> apply Effect.quiet <;>
      simp [step, onGiveUp, h, hd]
  | trust peer => apply Effect.quiet <;> simp +contextual [step, or_comm, eq_comm]
  | resetData => apply Effect.quiet <;> simp [step]

/-! ## Decisions and the prompts they were made for -/

/-- Every decision in the queue for the peer whose prompt is pending was made for that prompt. -/
structure Attributed (steps : List Step) (s : PairingFlow) : Prop where
  queue : (pending steps).map (·.input) = s.decisions.map fun d => .command d.1 d.2
  prompted : ∀ conn peer, s.phase = .prompting conn peer → ∀ cmd ∈ pending steps,
    ∀ approved, cmd.input = .command (formatDeviceId peer) approved →
      cmd.pre.phase = .prompting conn peer

theorem attributed_boot (trusted : Finset DeviceId) : Attributed [] (boot trusted) where
  queue := rfl
  prompted := by intro conn peer h; cases h

section

variable {steps : List Step} {s : PairingFlow} {ev : PairingEvent}

theorem pending_of_command {id : String} {approved : Bool} :
    pending (steps ++ [machine.entry s (.command id approved)]) =
      pending steps ++ [machine.entry s (.command id approved)] := by
  simp [pending, enqueue]

theorem pending_of_other (hev : ∀ id approved, ev ≠ .command id approved) :
    pending (steps ++ [machine.entry s ev]) =
      if (s.step ev).1.decisions.length < s.decisions.length then (pending steps).tail
      else pending steps := by
  cases ev with
  | command id approved => exact absurd rfl (hev id approved)
  | _ => simp [pending, enqueue, machine]; rfl

theorem pending_of_kept (hev : ∀ id approved, ev ≠ .command id approved)
    (hqueue : (s.step ev).1.decisions = s.decisions) :
    pending (steps ++ [machine.entry s ev]) = pending steps := by
  rw [pending_of_other hev, hqueue, if_neg (Nat.lt_irrefl _)]

theorem pending_of_taken {d : String × Bool} (hev : ∀ id approved, ev ≠ .command id approved)
    (hqueue : s.decisions = d :: (s.step ev).1.decisions) :
    pending (steps ++ [machine.entry s ev]) = (pending steps).tail := by
  rw [pending_of_other hev, hqueue, if_pos (by simp)]

theorem attributed_step (h : Attributed steps s) (hfresh : PublishesOnFresh s ev) :
    Attributed (steps ++ [machine.entry s ev]) (s.step ev).1 := by
  cases step_effect s ev with
  | quiet hev hqueue hphase =>
    refine ⟨?_, ?_⟩
    · rw [pending_of_kept hev hqueue, hqueue]
      exact h.queue
    · rw [pending_of_kept hev hqueue]
      intro conn peer hpost
      exact h.prompted conn peer (hphase conn peer hpost)
  | @published name conn peer sas hev hnaming hphase hqueue =>
    have hother : ∀ id approved, ev ≠ .command id approved := by simp [hev]
    refine ⟨?_, ?_⟩
    · rw [pending_of_kept hother hqueue, hqueue]
      exact h.queue
    · -- A command for the peer in the queue would have left a decision for it there.
      intro conn' peer' hpost cmd hcmd approved hinput
      rw [hphase] at hpost
      obtain ⟨rfl, rfl⟩ := AcceptPhase.prompting.inj hpost
      rw [pending_of_kept hother hqueue] at hcmd
      have hmem : cmd.input ∈ s.decisions.map fun d => PairingEvent.command d.1 d.2 :=
        h.queue ▸ List.mem_map_of_mem hcmd
      obtain ⟨d, hd, hdinput⟩ := List.mem_map.1 hmem
      rw [hinput] at hdinput
      exact absurd (PairingEvent.command.inj hdinput).1 (hfresh name conn peer sas hev hnaming d hd)
  | @queued id approved hev hphase hqueue =>
    subst hev
    refine ⟨?_, ?_⟩
    · rw [pending_of_command, List.map_append, h.queue, hqueue, List.map_append]
      rfl
    · intro conn peer hpost cmd hcmd a hinput
      rw [hphase] at hpost
      rw [pending_of_command] at hcmd
      rcases List.mem_append.1 hcmd with hcmd | hcmd
      · exact h.prompted conn peer hpost cmd hcmd a hinput
      · rw [List.mem_singleton.1 hcmd]
        exact hpost
  | skipped hev hphase hqueue =>
    have hother : ∀ id approved, ev ≠ .command id approved := by simp [hev]
    refine ⟨?_, ?_⟩
    · rw [pending_of_taken hother hqueue, List.map_tail, h.queue, hqueue]
      rfl
    · intro conn peer hpost cmd hcmd
      rw [hphase] at hpost
      rw [pending_of_taken hother hqueue] at hcmd
      exact h.prompted conn peer hpost cmd (List.mem_of_mem_tail hcmd)
  | decided hev hprompting hqueue hphase =>
    have hother : ∀ id approved, ev ≠ .command id approved := by simp [hev]
    refine ⟨?_, ?_⟩
    · rw [pending_of_taken hother hqueue, List.map_tail, h.queue, hqueue]
      rfl
    · intro conn peer hpost
      exact absurd hpost (hphase conn peer)

/-- The decision that the prompt takes was made for it. -/
theorem Attributed.head {conn : InboundConn} {peer : DeviceId} {approved : Bool}
    {rest : List (String × Bool)} (h : Attributed steps s)
    (hprompting : s.phase = .prompting conn peer)
    (hqueue : s.decisions = (formatDeviceId peer, approved) :: rest) :
    PromptedHead steps conn peer approved := by
  have hmap := h.queue
  rw [hqueue] at hmap
  obtain ⟨cmd, cmds, hpending, hinput, -⟩ := List.map_eq_cons_iff.1 hmap
  refine ⟨cmd, by rw [hpending]; rfl, hinput, ?_⟩
  exact h.prompted conn peer hprompting cmd (hpending ▸ .head _) approved hinput

end

/-- The queue is attributed after every run that publishes prompts on a queue without decisions
for their peers. -/
theorem attributed_run (trusted : Finset DeviceId) (events : List PairingEvent)
    (h : ∀ en ∈ machine.trace (boot trusted) events, PublishesOnFresh en.pre en.input) :
    Attributed (machine.trace (boot trusted) events) (machine.exec (boot trusted) events) :=
  machine.induct (G := fun en => PublishesOnFresh en.pre en.input) (attributed_boot trusted)
    (fun _ _ _ hinv hfresh => attributed_step hinv hfresh) events h

/-- **Decisions belong to prompts, when prompts are published on a fresh queue.** In every run in
which no prompt is published while a decision for its peer is in the queue, connections are decided
and returned, and peers trusted, only by commands that arrived while their prompt was pending. -/
theorem decided_by_prompt (trusted : Finset DeviceId) (events : List PairingEvent)
    (h : ∀ en ∈ machine.trace (boot trusted) events, PublishesOnFresh en.pre en.input) :
    DecidedByPrompt (boot trusted) events := by
  have hinv : ∀ before ev after, events = before ++ ev :: after →
      Attributed (machine.trace (boot trusted) before) (machine.exec (boot trusted) before) := by
    intro before ev after hev
    have hbefore : before <+: events := ⟨ev :: after, hev.symm⟩
    exact attributed_run trusted before fun en hen =>
      h en ((machine.trace_prefix _ hbefore).subset hen)
  refine ⟨?_, ?_, ?_⟩
  · intro before ev after conn approved hev hout
    have hbefore := hinv before ev after hev
    cases step_effect (machine.exec (boot trusted) before) ev with
    | quiet _ _ _ hdecided => exact absurd hout (hdecided conn approved)
    | published _ _ _ _ _ hprompt => grind
    | queued _ _ _ _ hsilent => simp [hsilent] at hout
    | skipped _ _ _ _ hsilent => simp [hsilent] at hout
    | @decided _ _ peer _ _ hprompting hqueue _ hdecided =>
      obtain ⟨rfl, rfl⟩ := hdecided conn approved hout
      exact ⟨peer, hbefore.head hprompting hqueue⟩
  · intro before ev after conn hev hout
    have hbefore := hinv before ev after hev
    cases step_effect (machine.exec (boot trusted) before) ev with
    | quiet _ _ _ _ hreturned => exact .inl (hreturned conn hout)
    | published _ _ _ _ _ hprompt => grind
    | queued _ _ _ _ hsilent => simp [hsilent] at hout
    | skipped _ _ _ _ hsilent => simp [hsilent] at hout
    | @decided _ _ peer _ _ hprompting hqueue _ _ hreturned =>
      obtain ⟨rfl, rfl⟩ := hreturned conn hout
      exact .inr ⟨peer, hbefore.head hprompting hqueue⟩
  · intro before ev after peer hev hpre hpost
    have hbefore := hinv before ev after hev
    cases step_effect (machine.exec (boot trusted) before) ev with
    | quiet _ _ _ _ _ htrusted => exact .inl ((htrusted peer hpost).resolve_left hpre)
    | published _ _ _ _ hsame => exact absurd (hsame ▸ hpost) hpre
    | queued _ _ _ hsame => exact absurd (hsame ▸ hpost) hpre
    | skipped _ _ _ hsame => exact absurd (hsame ▸ hpost) hpre
    | @decided _ conn _ _ _ hprompting hqueue _ _ _ htrusted =>
      obtain ⟨rfl, rfl⟩ := (htrusted peer hpost).resolve_left hpre
      exact .inr ⟨conn, hbefore.head hprompting hqueue⟩

/-- An untrusted peer comes in, is shown to the user, and is approved. -/
def approval (peer : DeviceId) : List PairingEvent :=
  [.start, .accept (some peer) (some "493 027") true, .named "laptop",
    .command (formatDeviceId peer) true, .decide true]

/-- The approved connection was approved by its own prompt. -/
theorem approval_by_prompt : DecidedByPrompt (boot ∅) (approval (.fill 1)) :=
  decided_by_prompt ∅ (approval (.fill 1)) (by
    simp [approval, boot, machine, Machine.entry, step, onAccept, onNamed, PublishesOnFresh])

/-- The approval of a prompt that has timed out stays in the queue. -/
def lateApproval (peer : DeviceId) : List PairingEvent :=
  [.start, .accept (some peer) (some "493 027") true, .named "laptop", .giveUp,
    .command (formatDeviceId peer) true]

/-- **A late approval trusts the peer's next connection**, whose prompt nobody answered: it has its
own channel, and its own authentication string. -/
theorem lateApproval_trusts : ¬ DecidedByPrompt (boot ∅) (lateApproval (.fill 1) ++
    [.accept (some (.fill 1)) (some "118 664") true, .named "laptop", .decide true]) := by
  intro h
  obtain ⟨peer, cmd, hhead, -, hphase⟩ := h.decided
    (lateApproval (.fill 1) ++ [.accept (some (.fill 1)) (some "118 664") true, .named "laptop"])
    (.decide true) [] ⟨1⟩ true rfl (by
      simp [lateApproval, boot, machine, step, onAccept, onNamed, onGiveUp, onDecide])
  -- The command came in while no prompt was pending.
  have hcmd : cmd.pre.phase = .accepting := by
    simp [lateApproval, pending, enqueue, boot, machine, Machine.entry, step, onAccept, onNamed,
      onGiveUp] at hhead
    simp [← hhead]
  rw [hcmd] at hphase
  cases hphase

end PairingFlow

end Mouser
