import Mouser.Daemon.LoopInv

/-!
# The steps of a daemon

`Outcome` is what comes of a step: the invariant holds, a session begins only as `Begins` says, and
the phases go as in `ServeLoop`. Each handler has its theorem, and `outcome_step` is assembled from
them.
-/

namespace Mouser

open Discovery (SocketAddr)

namespace Serving

section

variable {Settings : Type} {C : Crypto} {event : ServingEvent Settings}

/-! ### Dials -/

/-- What a dial of a peer has come to; a connection is one on which it has presented its
certificate. -/
structure DialOf (C : Crypto) (event : ServingEvent Settings) (peer : DeviceId)
    (outcome : DialOutcome) : Prop where
  trying : ∀ d, outcome = .trying d → d.peer = peer
  connected : outcome = .connected → ∃ leaf sessionId reason,
    event = .dialed (.ok (leaf, sessionId)) reason ∧ C.deviceIdFromCert leaf = .ok peer

theorem dialOf_start {now : ℕ} {peer : DeviceId} {addrs : List SocketAddr} :
    DialOf C event peer (CandidateDial.start now peer addrs) := by
  cases addrs with
  | nil => exact ⟨nofun, nofun⟩
  | cons addr rest =>
    refine ⟨fun d h => ?_, nofun⟩
    cases h
    rfl

theorem dialOf_onTimeout {d : CandidateDial} {now : ℕ} :
    DialOf C event d.peer (d.onTimeout now) := by
  unfold CandidateDial.onTimeout
  split
  · exact dialOf_start
  · refine ⟨fun d' h => ?_, nofun⟩
    cases h
    rfl

theorem dialOf_onResult {d : CandidateDial} {now : ℕ}
    {result : Except LinkError (List UInt8 × UInt64)} {reason : String} :
    DialOf C (.dialed result reason : ServingEvent Settings) d.peer
      (d.onResult C now (result.map (·.1))) := by
  cases result with
  | error e => exact dialOf_start
  | ok conn =>
    obtain ⟨leaf, sessionId⟩ := conn
    change DialOf C _ d.peer (d.onResult C now (.ok leaf))
    unfold CandidateDial.onResult
    dsimp only
    split
    · next hpin =>
      exact ⟨nofun, fun _ => ⟨leaf, sessionId, reason, rfl,
        Redial.deviceIdFromCert_of_checkPin hpin⟩⟩
    · exact dialOf_start

end

section

variable {Settings : Type} [ToUppercase]

/-! ### What a step does -/

/-- What comes of a step: the loop makes steps of its own, and a session begins only so. -/
structure Outcome (C : Crypto) (asked trusted : DeviceId → Prop) (s : Serving)
    (event : ServingEvent Settings) (t : Serving) : Prop where
  inv : Inv asked trusted t
  begins : ∀ peer canControl, t.loop.phase = .session peer canControl →
    s.loop.phase = .session peer canControl ∨ Begins C trusted s event peer canControl
  runs : ∃ evs, t.loop = (ServeLoop.machine Settings).exec s.loop evs

variable {C : Crypto} {asked known trusted : DeviceId → Prop} {s t : Serving}
  {event : ServingEvent Settings} {loop : ServeLoop}

theorem outcome_stays (h : Inv asked trusted t) (hloop : t.loop = s.loop) :
    Outcome C asked trusted s event t :=
  ⟨h, fun _ _ hphase => .inl (hloop ▸ hphase), ⟨[], hloop⟩⟩

theorem outcome_enter (hloop : LoopInv asked loop) (hphase : Elsewhere loop.phase)
    (hruns : ∃ evs, loop = (ServeLoop.machine Settings).exec s.loop evs) :
    Outcome C asked trusted s event (t.enter loop) := by
  refine ⟨inv_enter hloop hphase, fun peer canControl hsession => ?_, ?_⟩
  · rw [enter_loop] at hsession
    rw [hsession] at hphase
    exact hphase.elim
  · rw [enter_loop]
    exact hruns

/-- The loop makes a step in its phase, from a state that differs from `s` elsewhere. -/
theorem outcome_samePhase {u : Serving} (h : Inv asked known u)
    (huloop : u.loop = s.loop) (hle : ∀ p, known p → trusted p) (hloop : LoopInv asked t.loop)
    (hphase : t.loop.phase = s.loop.phase) (hfuture : t.future = u.future) (hbulk : t.bulk = u.bulk)
    (hruns : ∃ evs, t.loop = (ServeLoop.machine Settings).exec s.loop evs) :
    Outcome C asked trusted s event t := by
  obtain ⟨evs, hevs⟩ := hruns
  obtain ⟨hid, hrole⟩ := hevs ▸ device_exec s.loop evs
  refine ⟨⟨hloop, ?_, ?_⟩, fun peer canControl hsession => .inl (hphase ▸ hsession), evs, hevs⟩
  · have hready := h.ready.mono hle
    unfold Ready at hready ⊢
    rwa [hphase, hfuture, hid, hrole, ← huloop]
  · rw [hbulk, hphase, ← huloop]
    exact h.bulk

theorem outcome_follow (h : Inv asked known t)
    (hle : ∀ p, known p → trusted p) (htloop : t.loop = s.loop) (hloop : LoopInv asked loop)
    (hphase : loop.phase = s.loop.phase ∨ Elsewhere loop.phase)
    (hruns : ∃ evs, loop = (ServeLoop.machine Settings).exec s.loop evs) :
    Outcome C asked trusted s event (t.follow loop) := by
  unfold follow
  split
  · next hsame => exact outcome_samePhase h htloop hle hloop (htloop ▸ hsame) rfl rfl hruns
  · next hmoved =>
    exact outcome_enter hloop (hphase.resolve_left (htloop ▸ hmoved)) hruns

theorem outcome_join (hloop : LoopInv asked loop) {peer : DeviceId} {canControl : Bool}
    (hphase : loop.phase = .session peer canControl)
    (hbegins : Begins C trusted s event peer canControl) (sessionId : UInt64)
    (hruns : ∃ evs, loop = (ServeLoop.machine Settings).exec s.loop evs) :
    Outcome C asked trusted s event (t.join loop sessionId) := by
  refine ⟨inv_join hloop hphase sessionId, fun p c hsession => .inr ?_, ?_⟩
  · rw [join_loop hphase, hphase] at hsession
    cases hsession
    exact hbegins
  · rw [join_loop hphase]
    exact hruns

/-! ### The redial -/

/-- A redial that goes on knows of its peer what it has to. -/
theorem redialReady_step {c : RedialConfig} {r : Redial} {step : RedialEvent} {before after : Prop}
    (h : RedialReady before r.phase) (hle : before → after)
    (hcheck : step = .trust (.ok true) → after) :
    (∃ result, (r.step c step).1.phase = .ended result) ∨
      RedialReady after (r.step c step).1.phase := by
  have hgoes := Redial.goes_step (c := c) r step
  generalize r.step c step = result at hgoes
  have hkeep : RedialReady after r.phase := h.mono hle
  cases hgoes with
  | stays | elapses => exact .inr hkeep
  | checks hphase htrust => exact .inr (hcheck htrust)
  | stops | dialed | accepted => exact .inl ⟨_, rfl⟩
  | begins hphase | triesNext hphase =>
    rw [hphase] at hkeep
    exact .inr hkeep
  | givesUp | wakes => exact .inr trivial

/-- How a redial ends with a connection. -/
theorem redial_reconnected {c : RedialConfig} {r : Redial} {step : RedialEvent} {known : Prop}
    {peerId : Option DeviceId} {canControl : Bool} (h : RedialReady known r.phase)
    (hend : (r.step c step).1.phase = .ended (.reconnected peerId canControl)) :
    known ∧ (canControl = true → ∃ leaf, step = .dialed (.ok leaf) ∧
        c.crypto.deviceIdFromCert leaf = .ok c.peerId) ∧
      (canControl = false → step = .accepted (.ok (some c.peerId)) ∧ c.acceptInbound = true) := by
  have hgaveUp : ∀ rest, (r.tryNext c rest).1.phase ≠ .ended (.reconnected peerId canControl) := by
    intro rest
    cases rest <;> exact fun hend => by cases hend
  have hsame : r.phase ≠ .ended (.reconnected peerId canControl) := by
    intro hphase
    rw [hphase] at h
    exact h
  unfold Redial.step at hend
  split at hend
  · exact absurd hend hsame
  · exact absurd hend hsame
  · next answer hphase =>
    match answer with
    | .ok true | .ok false | .error _ => cases hend
  · split at hend
    · exact absurd hend hsame
    · exact absurd hend (hgaveUp _)
  · next leaf _ _ _ hphase =>
    split at hend
    · exact absurd hend (hgaveUp _)
    · next hpin =>
      cases hend
      rw [hphase] at h
      exact ⟨h, fun _ => ⟨leaf, rfl, Redial.deviceIdFromCert_of_checkPin hpin⟩, by simp⟩
  · exact absurd hend (hgaveUp _)
  · split at hend
    · exact absurd hend (hgaveUp _)
    · exact absurd hend hsame
  · next answer _ _ _ hphase =>
    split at hend
    · next haccept =>
      cases answer with
      | error e => cases hend
      | ok id =>
        rw [Redial.onAccepted] at hend
        split at hend
        · next hid =>
          cases hend
          subst hid
          rw [hphase] at h
          exact ⟨h, by simp, fun _ => ⟨rfl, haccept⟩⟩
        · cases hend
    · exact absurd hend hsame
  -- The other events end a redial without a connection.
  all_goals first
    | exact absurd hend hsame
    | cases hend
    | (split at hend
       · cases hend
       · exact absurd hend hsame)

/-- What a step of the daemon is, for the redial in it. -/
structure Drives (trusted : DeviceId → Prop) (s : Serving) (event : ServingEvent Settings)
    (peer : DeviceId) (step : RedialEvent) : Prop where
  trust : step = .trust (.ok true) → trusted peer
  dialed : ∀ leaf, step = .dialed (.ok leaf) → ∃ sessionId reason,
    event = .dialed (.ok (leaf, sessionId)) reason
  accepted : ∀ p, step = .accepted (.ok (some p)) → ∃ ev sessionId,
    event = .inbound ev sessionId ∧ s.flow.result ev = some (.ok p)

theorem outcome_stepRedial {r : Redial} {peer : DeviceId}
    {acceptInbound : Bool} {step : RedialEvent} (h : Inv asked known t) (htloop : t.loop = s.loop)
    (hphase : s.loop.phase = .redialing peer acceptInbound) (hfuture : t.future = .redial r)
    (hle : ∀ p, known p → trusted p) (hdrives : Drives trusted s event peer step)
    (sessionId : UInt64) :
    Outcome C asked trusted s event (t.stepRedial C r step sessionId) := by
  have hready : RedialReady (known peer) r.phase := by
    have hready := h.ready
    rwa [htloop, hphase, hfuture] at hready
  have hnext := redialReady_step (c := redialConfig C peer acceptInbound) hready (hle peer)
    hdrives.trust
  have hend : ∀ peerId canControl, (r.step (redialConfig C peer acceptInbound) step).1.phase =
      .ended (.reconnected peerId canControl) → known peer ∧
        (canControl = true → ∃ leaf, step = .dialed (.ok leaf) ∧
          C.deviceIdFromCert leaf = .ok peer) ∧
        (canControl = false → step = .accepted (.ok (some peer)) ∧ acceptInbound = true) :=
    fun _ _ => redial_reconnected hready
  have hloop : LoopInv asked s.loop := htloop ▸ h.loop
  unfold stepRedial
  rw [htloop, hphase]
  dsimp only
  generalize r.step (redialConfig C peer acceptInbound) step = result at hnext hend ⊢
  obtain ⟨r', outputs⟩ := result
  dsimp only at hnext hend ⊢
  split
  · next peerId hr =>
    obtain ⟨hknown, hdialed, -⟩ := hend peerId true hr
    obtain ⟨leaf, hstep, hleaf⟩ := hdialed rfl
    obtain ⟨sid, reason, hevent⟩ := hdrives.dialed leaf hstep
    have hsession : s.loop.onDialed.phase = .session peer true := by
      rw [ServeLoop.onDialed, hphase]
      rfl
    exact outcome_join hloop.onDialed hsession
      ⟨hle peer hknown, fun _ => ⟨leaf, sid, reason, hevent, hleaf⟩, by simp⟩ sessionId
      ⟨[.dialed], rfl⟩
  · next peerId hr =>
    obtain ⟨hknown, -, haccepted⟩ := hend peerId false hr
    obtain ⟨hstep, haccept⟩ := haccepted rfl
    have hevent := hdrives.accepted peer hstep
    obtain rfl : acceptInbound = true := haccept
    have hnone : s.loop.sourceIntent = none :=
      hloop.intent_eq_none fun p => by simp [hphase, Pursues]
    have hsession : (s.loop.onAccepted peer).phase = .session peer false := by
      rw [ServeLoop.onAccepted, hphase]
      simp [ServeLoop.startSession]
    exact outcome_join (hloop.onAccepted peer) hsession
      ⟨hle peer hknown, by simp, fun _ => ⟨hnone, hevent⟩⟩ sessionId ⟨[.accepted peer], rfl⟩
  · split
    · next answer =>
      exact outcome_follow h hle htloop (hloop.onCheckTrust answer)
        (elsewhere_onCheckTrust _ _) ⟨[.checkTrust answer], rfl⟩
    · exact outcome_follow h hle htloop hloop.takeDisconnect (elsewhere_takeDisconnect _)
        ⟨[.takeDisconnect], rfl⟩
  · exact outcome_follow h hle htloop hloop.onCtrlC (elsewhere_onCtrlC _) ⟨[.ctrlC], rfl⟩
  · next hcontrols hreceives hdisconnected hshutdown =>
    have hready' : RedialReady (trusted peer) r'.phase := by
      refine hnext.resolve_left ?_
      rintro ⟨result, hr⟩
      cases result with
      | reconnected peerId canControl =>
        cases canControl with
        | true => exact hcontrols peerId hr
        | false => exact hreceives peerId hr
      | disconnected => exact hdisconnected hr
      | shutdown => exact hshutdown hr
    split
    · have hloop' : (s.loop.onDialFailed "").phase = .redialing peer acceptInbound := by
        rw [ServeLoop.onDialFailed, hphase]
        rfl
      refine ⟨⟨hloop.onDialFailed "", ?_, ?_⟩, fun p c hsession => ?_, [.dialFailed ""], rfl⟩
      · rw [settle_loop, settle_future, hloop']
        exact hready'
      · have hbulk := h.bulk
        rw [htloop, hphase] at hbulk
        rw [settle_loop, settle_bulk, hloop']
        exact hbulk
      · rw [settle_loop, hloop'] at hsession
        cases hsession
    · refine outcome_stays ⟨hloop, ?_, ?_⟩ rfl
      · rw [settle_loop, settle_future, hphase]
        exact hready'
      · have hbulk := h.bulk
        rwa [htloop] at hbulk

theorem outcome_redial {r : Redial} {step : RedialEvent}
    (h : Inv asked known t) (htloop : t.loop = s.loop) (hfuture : t.future = .redial r)
    (hle : ∀ p, known p → trusted p)
    (hdrives : ∀ peer acceptInbound, s.loop.phase = .redialing peer acceptInbound →
      Drives trusted s event peer step) (sessionId : UInt64) :
    Outcome C asked trusted s event (t.stepRedial C r step sessionId) := by
  obtain ⟨peer, acceptInbound, hphase⟩ := h.redialing hfuture
  rw [htloop] at hphase
  exact outcome_stepRedial h htloop hphase hfuture hle (hdrives peer acceptInbound hphase) sessionId

/-! ### The select of `next_connection` -/

theorem outcome_reselect (h : Inv asked trusted t) (htloop : t.loop = s.loop)
    (hphase : t.loop.phase = .waiting) (n : UInt32) :
    Outcome C asked trusted s event (t.reselect n) :=
  outcome_stays (inv_reselect h.loop hphase (h.bulk_eq_none (by simp [hphase])) n) htloop

/-- The select goes on with another state of its automatic dial. -/
theorem outcome_select (h : Inv asked trusted s) (hphase : s.loop.phase = .waiting) (n : UInt32)
    {dial : AutoDial} (hdial : ∀ d, dial = .dialing d → trusted d.peer ∧
      (s.loop.role = .source ∨ s.loop.role = .auto ∧ s.loop.id < d.peer)) :
    Outcome C asked trusted s event { s with future := .select n dial } := by
  refine outcome_stays ⟨h.loop, ?_, h.bulk⟩ rfl
  rw [hphase]
  exact hdial

theorem outcome_onAutoFailed (h : Inv asked trusted s) (hphase : s.loop.phase = .waiting)
    (n : UInt32) : Outcome C asked trusted s event (s.onAutoFailed n) := by
  unfold onAutoFailed
  split
  · exact outcome_select h hphase n (by simp)
  · exact outcome_reselect h rfl hphase _

theorem outcome_onAutoDial (h : Inv asked trusted s) (hphase : s.loop.phase = .waiting) (n : UInt32)
    {peer : DeviceId} (htrusted : trusted peer)
    (hmay : s.loop.role = .source ∨ s.loop.role = .auto ∧ s.loop.id < peer) (sessionId : UInt64)
    {outcome : DialOutcome} (hdial : DialOf C event peer outcome) :
    Outcome C asked trusted s event (s.onAutoDial n peer sessionId outcome) := by
  cases outcome with
  | trying d =>
    refine outcome_select h hphase n fun d' hd' => ?_
    cases hd'
    rw [hdial.trying d rfl]
    exact ⟨htrusted, hmay⟩
  | connected =>
    have hrole : s.loop.role ≠ .target := by
      rcases hmay with hrole | ⟨hrole, -⟩ <;> simp [hrole]
    have hsession : (s.loop.onDiscovered peer).phase = .session peer true := by
      rw [ServeLoop.onDiscovered, hphase]
      dsimp only
      rw [if_pos hrole]
      rfl
    have hcontrol : MayControl asked s.loop peer := hmay.imp_right .inl
    exact outcome_join (h.loop.onDiscovered hcontrol) hsession
      ⟨htrusted, fun _ => hdial.connected rfl, by simp⟩ sessionId ⟨[.discovered peer], rfl⟩
  | failed => exact outcome_onAutoFailed h hphase n

theorem dialable_eq_some {id peer : DeviceId} {force : Bool} {trusts : DeviceId → Bool}
    {advert : Discovery.PeerAdvert} {addrs : List SocketAddr}
    (h : dialable id force trusts advert = some (peer, addrs)) :
    trusts peer = true ∧ (force = true ∨ id < peer) := by
  unfold dialable at h
  split at h
  · cases h
  · split at h
    · cases h
    · split at h
      · cases h
      · next hlower =>
        split at h
        · cases h
        · next htrusts =>
          split at h
          · cases h
          · cases h
            simp only [Bool.and_eq_true, Bool.not_eq_true', decide_eq_true_eq, not_and, not_le]
              at hlower
            refine ⟨by simpa using htrusts, ?_⟩
            cases force with
            | true => exact .inl rfl
            | false => exact .inr (hlower rfl)

theorem outcome_onScan (h : Inv asked trusted s) (hphase : s.loop.phase = .waiting)
    (hrole : s.loop.role ≠ .target) (hstore : ∀ p ∈ s.flow.trusted, trusted p) (n : UInt32)
    (peers : List Discovery.PeerAdvert) (failure : Option String) :
    Outcome C asked trusted s event (s.onScan n peers failure) := by
  unfold onScan
  dsimp only
  split
  · exact outcome_stays h rfl
  · next peer addrs hfound =>
    obtain ⟨advert, -, hdialable⟩ := List.exists_of_findSome?_eq_some hfound
    obtain ⟨htrusts, hmay⟩ := dialable_eq_some hdialable
    have hmem := mem_of_trusts (of_decide_eq_true htrusts)
    refine outcome_onAutoDial h hphase n (hstore peer hmem) ?_ 0 dialOf_start
    rcases hmay with hforce | hlower
    · exact .inl (of_decide_eq_true hforce)
    · cases hcase : s.loop.role with
      | source => exact .inl rfl
      | auto => exact .inr ⟨rfl, hlower⟩
      | target => exact absurd hcase hrole

/-! ### The dial of a Connect -/

/-- The dial of a Connect fails, in a loop that has taken it from `s`. -/
theorem outcome_refuse (hloop : LoopInv asked t.loop) {peer : DeviceId}
    (hphase : t.loop.phase = .dialing peer) (hbulk : t.bulk = none) (n : UInt32) (reason : String)
    (hruns : ∃ evs, t.loop = (ServeLoop.machine Settings).exec s.loop evs) :
    Outcome C asked trusted s event (t.refuse n reason) := by
  have hfailed : (t.loop.onDialFailed reason).phase = .waiting := by
    rw [ServeLoop.onDialFailed, hphase]
  obtain ⟨evs, hevs⟩ := hruns
  have hinv : Inv asked trusted (t.refuse n reason) :=
    inv_reselect (s := { t with loop := t.loop.onDialFailed reason }) (hloop.onDialFailed reason)
      hfailed hbulk n
  refine ⟨hinv, fun p c hsession => ?_, evs ++ [.dialFailed reason], ?_⟩
  · rw [refuse, reselect_loop, hfailed] at hsession
    cases hsession
  · rw [Machine.exec_concat, ← hevs]
    rfl

theorem outcome_onRequest (h : Inv asked trusted s) (hphase : s.loop.phase = .waiting)
    (hstore : ∀ p ∈ s.flow.trusted, trusted p) (n : UInt32) {target : DeviceId}
    {rest : List DeviceId} (hconnects : s.loop.connects = target :: rest)
    (failure : Option String) : Outcome C asked trusted s event (s.onRequest n target failure) := by
  have hloop := h.loop.takeConnect
  have hdialing : s.loop.takeConnect.phase = .dialing target := by
    rw [ServeLoop.takeConnect, hconnects, hphase]
  have hbulk := h.bulk_eq_none (by simp [hphase])
  have hruns : ∃ evs, s.loop.takeConnect = (ServeLoop.machine Settings).exec s.loop evs :=
    ⟨[.takeConnect], rfl⟩
  unfold onRequest
  dsimp only
  split
  · next htrusts =>
    refine ⟨⟨hloop, ?_, ?_⟩, fun p c hsession => ?_, hruns⟩
    · rw [settle_loop, settle_future, hdialing]
      exact ⟨hstore target (mem_of_trusts htrusts), by simp⟩
    · rw [settle_loop, settle_bulk, hdialing, hbulk]
      rfl
    · rw [settle_loop, hdialing] at hsession
      cases hsession
  all_goals
    apply outcome_refuse
    · exact hloop
    · exact hdialing
    · exact hbulk
    · exact hruns

theorem outcome_onRequestedDial (h : Inv asked trusted s) {peer : DeviceId}
    (hphase : s.loop.phase = .dialing peer) (htrusted : trusted peer) (n : UInt32)
    (sessionId : UInt64) (reason : String) {outcome : DialOutcome}
    (hdial : DialOf C event peer outcome) :
    Outcome C asked trusted s event (s.onRequestedDial n sessionId reason outcome) := by
  cases outcome with
  | trying d =>
    have hready : Ready trusted s.loop s.loop.phase (.request n (.dialing d)) := by
      rw [hphase]
      refine ⟨htrusted, fun d' hd' => ?_⟩
      cases hd'
      exact hdial.trying d rfl
    exact outcome_stays ⟨h.loop, hready, h.bulk⟩ rfl
  | connected =>
    have hsession : s.loop.onDialed.phase = .session peer true := by
      rw [ServeLoop.onDialed, hphase]
      rfl
    exact outcome_join h.loop.onDialed hsession
      ⟨htrusted, fun _ => hdial.connected rfl, by simp⟩ sessionId ⟨[.dialed], rfl⟩
  | failed =>
    exact outcome_refuse h.loop hphase (h.bulk_eq_none (by simp [hphase])) n reason ⟨[], rfl⟩

/-! ### Every event -/

theorem outcome_onInbound (h : Inv asked known s)
    (hle : ∀ p, known p → trusted p) {step : PairingEvent} {sessionId : UInt64}
    (hstore : OutOfSession s → ∀ p ∈ s.flow.trusted, trusted p)
    (hstored : OutOfSession s → ∀ p ∈ (s.onInbound C step sessionId).flow.trusted, trusted p) :
    Outcome C asked trusted s (.inbound step sessionId : ServingEvent Settings)
      (s.onInbound C step sessionId) := by
  have hstepped : Inv asked known { s with flow := (s.flow.step step).1 } :=
    ⟨h.loop, h.ready, h.bulk⟩
  unfold onInbound at hstored ⊢
  dsimp only at hstored ⊢
  split
  · next hawaited =>
    rw [if_pos hawaited] at hstored
    split
    · exact outcome_stays (hstepped.mono hle) rfl
    · next peer n dial hresult hfuture =>
      rw [hresult, hfuture] at hstored
      have hphase := h.waiting hfuture
      have hnone : s.loop.sourceIntent = none :=
        h.loop.intent_eq_none fun p => by simp [hphase, Pursues]
      have hsession : (s.loop.onAccepted peer).phase = .session peer false := by
        rw [ServeLoop.onAccepted, hphase]
        rfl
      have hout : OutOfSession s := by simp [OutOfSession, hphase]
      have hpeer : trusted peer :=
        (mem_of_result hresult).elim (hstore hout peer) fun hmem =>
          hstored hout peer ((join_trusted _ _ sessionId).symm ▸ hmem)
      exact outcome_join (h.loop.onAccepted peer) hsession
        ⟨hpeer, by simp, fun _ => ⟨hnone, step, sessionId, rfl, hresult⟩⟩ sessionId
        ⟨[.accepted peer], rfl⟩
    · next n dial hresult hfuture =>
      exact outcome_reselect (s := s) (hstepped.mono hle) rfl (h.waiting hfuture) n
    · next peer r hresult hfuture =>
      refine outcome_redial (s := s) hstepped rfl hfuture hle (fun _ _ _ => ?_) sessionId
      refine ⟨by simp, by simp, fun p hp => ?_⟩
      cases hp
      exact ⟨step, sessionId, rfl, hresult⟩
    · next r hresult hfuture =>
      exact outcome_redial (s := s) hstepped rfl hfuture hle (fun _ _ _ => by constructor <;> simp)
        sessionId
    · exact outcome_stays (hstepped.mono hle) rfl
  · exact outcome_stays (h.mono hle) rfl

theorem outcome_onElapse (h : Inv asked known s) (hle : ∀ p, known p → trusted p) (millis : ℕ) :
    Outcome C asked trusted s event (s.onElapse C millis) := by
  have helapsed : Inv asked known { s with now := s.now + millis } := ⟨h.loop, h.ready, h.bulk⟩
  unfold onElapse
  dsimp only
  split
  · next r hfuture =>
    exact outcome_redial (s := s) helapsed rfl hfuture hle (fun _ _ _ => by constructor <;> simp) 0
  · exact outcome_stays (helapsed.mono hle) rfl

theorem outcome_onTakeConnect (h : Inv asked trusted s)
    (hstore : OutOfSession s → ∀ p ∈ s.flow.trusted, trusted p) (failure : Option String) :
    Outcome C asked trusted s event (s.onTakeConnect failure) := by
  unfold onTakeConnect
  split
  · next n dial target rest hfuture hconnects =>
    have hphase := h.waiting hfuture
    exact outcome_onRequest h hphase (hstore (by simp [OutOfSession, hphase])) n hconnects failure
  · next hfuture =>
    have hphase : s.loop.phase ≠ .waiting := fun hwaiting => by
      have hready := h.ready
      rw [hfuture, hwaiting] at hready
      exact hready
    exact outcome_follow h (fun _ => id) rfl h.loop.takeConnect (elsewhere_takeConnect hphase)
      ⟨[.takeConnect], rfl⟩
  · exact outcome_stays h rfl

theorem outcome_onTakeDisconnect (h : Inv asked known s) (hle : ∀ p, known p → trusted p) :
    Outcome C asked trusted s event (s.onTakeDisconnect C) := by
  unfold onTakeDisconnect
  split
  · next r _ _ hfuture _ =>
    exact outcome_redial (s := s) h rfl hfuture hle (fun _ _ _ => by constructor <;> simp) 0
  · exact outcome_follow h hle rfl h.loop.takeDisconnect (elsewhere_takeDisconnect _)
      ⟨[.takeDisconnect], rfl⟩
  · exact outcome_stays (h.mono hle) rfl

theorem outcome_onLook (h : Inv asked known s) (hle : ∀ p, known p → trusted p)
    (advert : Option Discovery.PeerAdvert) :
    Outcome C asked trusted s event (s.onLook C advert) := by
  unfold onLook
  split
  · next r hfuture =>
    exact outcome_redial (s := s) h rfl hfuture hle (fun _ _ _ => by constructor <;> simp) 0
  · next n since peer hfuture hphase =>
    obtain ⟨target, htarget, hknown, -⟩ := h.dialing hfuture
    cases hphase.symm.trans htarget
    split
    · exact outcome_stays (h.mono hle) rfl
    · exact outcome_onRequestedDial (h.mono hle) hphase (hle peer hknown) n 0 "" dialOf_start
  · exact outcome_stays (h.mono hle) rfl

theorem outcome_onExpired (h : Inv asked trusted s) :
    Outcome C asked trusted s event s.onExpired := by
  unfold onExpired
  split
  · next n since peer hfuture hphase =>
    split
    · exact outcome_refuse h.loop hphase (h.bulk_eq_none (by simp [hphase])) n _ ⟨[], rfl⟩
    · exact outcome_stays h rfl
  · exact outcome_stays h rfl

theorem outcome_onDialed (h : Inv asked known s) (hle : ∀ p, known p → trusted p)
    (result : Except LinkError (List UInt8 × UInt64)) (reason : String) :
    Outcome C asked trusted s (.dialed result reason : ServingEvent Settings)
      (s.onDialed C result reason) := by
  have hnow : Inv asked trusted s := h.mono hle
  unfold onDialed
  dsimp only
  split
  · next n d hfuture =>
    obtain ⟨htrusted, hmay⟩ := hnow.autoDialing hfuture
    exact outcome_onAutoDial hnow (h.waiting hfuture) n htrusted hmay _ dialOf_onResult
  · next n d hfuture =>
    obtain ⟨peer, hphase, htrusted, hpeer⟩ := hnow.dialing hfuture
    cases hpeer d rfl
    exact outcome_onRequestedDial hnow hphase htrusted n _ reason dialOf_onResult
  · next r hfuture =>
    refine outcome_redial (s := s) h rfl hfuture hle (fun _ _ _ => ?_) _
    refine ⟨by simp, fun leaf hleaf => ?_, by simp⟩
    match result with
    | .ok (_, sessionId) =>
      cases hleaf
      exact ⟨sessionId, reason, rfl⟩
    | .error e => cases hleaf
  · exact outcome_stays hnow rfl

theorem outcome_onTimeout (h : Inv asked known s) (hle : ∀ p, known p → trusted p)
    (reason : String) : Outcome C asked trusted s event (s.onTimeout C reason) := by
  have hnow : Inv asked trusted s := h.mono hle
  unfold onTimeout
  split
  · next n d hfuture =>
    obtain ⟨htrusted, hmay⟩ := hnow.autoDialing hfuture
    exact outcome_onAutoDial hnow (h.waiting hfuture) n htrusted hmay 0 dialOf_onTimeout
  · next n d hfuture =>
    obtain ⟨peer, hphase, htrusted, hpeer⟩ := hnow.dialing hfuture
    cases hpeer d rfl
    exact outcome_onRequestedDial hnow hphase htrusted n 0 reason dialOf_onTimeout
  · next r hfuture =>
    exact outcome_redial (s := s) h rfl hfuture hle (fun _ _ _ => by constructor <;> simp) 0
  · exact outcome_stays hnow rfl

theorem outcome_onWake (h : Inv asked known s) (hle : ∀ p, known p → trusted p) :
    Outcome C asked trusted s event (s.onWake C) := by
  unfold onWake
  split
  · next n wake hfuture =>
    split
    · exact outcome_reselect (h.mono hle) rfl (h.waiting hfuture) _
    · exact outcome_stays (h.mono hle) rfl
  · next r hfuture =>
    exact outcome_redial (s := s) h rfl hfuture hle (fun _ _ _ => by constructor <;> simp) 0
  · exact outcome_stays (h.mono hle) rfl

theorem outcome_onCheck (h : Inv asked known s) (hle : ∀ p, known p → trusted p)
    (hstore : OutOfSession s → ∀ p ∈ s.flow.trusted, trusted p) (failure : Option String) :
    Outcome C asked trusted s event (s.onCheck C failure) := by
  unfold onCheck
  split
  · next r peer acceptInbound hfuture hphase =>
    refine outcome_stepRedial (s := s) h rfl hphase hfuture hle ?_ 0
    refine ⟨fun htrust => ?_, by simp, by simp⟩
    exact hstore (by simp [OutOfSession, hphase]) peer
      (mem_of_trusts (RedialEvent.trust.inj htrust))
  · exact outcome_stays (h.mono hle) rfl

theorem outcome_onCtrlC (h : Inv asked known s) (hle : ∀ p, known p → trusted p) :
    Outcome C asked trusted s event (s.onCtrlC C) := by
  unfold onCtrlC
  split
  · next r hfuture =>
    exact outcome_redial (s := s) h rfl hfuture hle (fun _ _ _ => by constructor <;> simp) 0
  · exact outcome_follow h hle rfl h.loop.onCtrlC (elsewhere_onCtrlC _) ⟨[.ctrlC], rfl⟩
  · exact outcome_follow h hle rfl h.loop.onCtrlC (elsewhere_onCtrlC _) ⟨[.ctrlC], rfl⟩
  · exact outcome_stays (h.mono hle) rfl

/-- **One step of the daemon.** -/
theorem outcome_step {before : DeviceId → Prop} (h : Inv before known s)
    (hbefore : ∀ p, before p → asked p)
    (hasked : ∀ live failure writable cleared reset peerId peer,
      event = .command live failure writable cleared reset (.connect peerId) →
      decodeDeviceId peerId.toList = some peer → asked peer)
    (hle : ∀ p, known p → trusted p)
    (hstore : OutOfSession s → ∀ p ∈ s.flow.trusted, trusted p)
    (hstored : OutOfSession s → ∀ p ∈ (s.step C event).flow.trusted, trusted p) :
    Outcome C asked trusted s event (s.step C event) := by
  replace h : Inv asked known s := ⟨h.loop.mono hbefore, h.ready, h.bulk⟩
  have hnow : Inv asked trusted s := h.mono hle
  cases event with
  | elapse millis => exact outcome_onElapse h hle millis
  | command live failure writable cleared reset c =>
    have hloop := h.loop.onCommand live (s.trusts failure) (cleared && reset) c
      fun peerId peer hc => hasked live failure writable cleared reset peerId peer (hc ▸ rfl)
    exact outcome_samePhase hnow rfl (fun _ => id)
      ⟨hloop.connects, hloop.dials, hloop.intent, hloop.refuses, hloop.controls, hloop.shown⟩
      (phase_onCommand _ _ _ _ c) rfl rfl
      ⟨[.command live (s.trusts failure) (cleared && reset) c], rfl⟩
  | trustPeer peer => exact outcome_stays ⟨hnow.loop, hnow.ready, hnow.bulk⟩ rfl
  | takeConnect failure => exact outcome_onTakeConnect hnow hstore failure
  | takeDisconnect => exact outcome_onTakeDisconnect h hle
  | scan peers failure =>
    rw [step]
    split
    · next n hfuture =>
      split
      · exact outcome_stays hnow rfl
      · next hrole =>
        have hphase := h.waiting hfuture
        exact outcome_onScan hnow hphase hrole (hstore (by simp [OutOfSession, hphase])) n peers
          failure
    · exact outcome_stays hnow rfl
  | registryClosed =>
    rw [step]
    split
    · next n hfuture =>
      split
      · exact outcome_stays hnow rfl
      · exact outcome_onAutoFailed hnow (h.waiting hfuture) n
    · exact outcome_stays hnow rfl
  | look advert => exact outcome_onLook h hle advert
  | expired => exact outcome_onExpired hnow
  | dialed result reason => exact outcome_onDialed h hle result reason
  | timeout reason => exact outcome_onTimeout h hle reason
  | wake => exact outcome_onWake h hle
  | check failure => exact outcome_onCheck h hle hstore failure
  | inbound step sessionId => exact outcome_onInbound h hle hstore hstored
  | ownerUpdate ownerId epoch =>
    exact outcome_samePhase hnow rfl (fun _ => id) (h.loop.onOwnerUpdate ownerId epoch)
      (phase_onOwnerUpdate _ _ _) rfl rfl ⟨[.ownerUpdate ownerId epoch], rfl⟩
  | lost reason =>
    exact outcome_follow h hle rfl (h.loop.onLost reason) (elsewhere_onLost _ reason)
      ⟨[.lost reason], rfl⟩
  | resume =>
    exact outcome_follow h hle rfl h.loop.onResume (elsewhere_onResume _) ⟨[.resume], rfl⟩
  | ctrlC => exact outcome_onCtrlC h hle

end

end Serving

end Mouser
