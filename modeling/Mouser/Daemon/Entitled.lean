import Mouser.Daemon.LoopStep

/-!
# Whom a daemon is in a session with

`session_entitled` traces every session of a daemon back to the trust store and, where the daemon
controls the peer, to its role or to the user; `serving_published` says what the other tasks and
the UI are told of it. Both hold in every run, whatever the network, the registry, the users and the
other processes do.
-/

namespace Mouser

namespace Serving

section

variable {Settings : Type}

/-! ## What a run says of a peer -/

abbrev Entry (Settings : Type) := Machine.Entry Serving (ServingEvent Settings) Unit

/-- The user has asked to connect to the peer. -/
def Asked [ToUppercase] (tr : List (Entry Settings)) (peer : DeviceId) : Prop :=
  ∃ e ∈ tr, ∃ live failure writable cleared reset peerId,
    e.input = .command live failure writable cleared reset (.connect peerId) ∧
      decodeDeviceId peerId.toList = some peer

/-- The peer was in the trust store, and there has been no session since. -/
def TrustedSince (tr : List (Entry Settings)) (peer : DeviceId) : Prop :=
  ∃ before e after, tr = before ++ e :: after ∧
    (peer ∈ e.pre.flow.trusted ∨ peer ∈ e.post.flow.trusted) ∧
    ∀ x ∈ e :: after, OutOfSession x.pre

theorem TrustedSince.concat {tr : List (Entry Settings)} {peer : DeviceId}
    (h : TrustedSince tr peer) {e : Entry Settings} (he : OutOfSession e.pre) :
    TrustedSince (tr ++ [e]) peer := by
  obtain ⟨before, x, after, rfl, hpeer, hout⟩ := h
  refine ⟨before, x, after ++ [e], by simp, hpeer, fun y hy => ?_⟩
  rw [← List.cons_append] at hy
  rcases List.mem_append.1 hy with hy | hy
  · exact hout y hy
  · rwa [List.mem_singleton.1 hy]

end

section

variable {Settings : Type} [ToUppercase] {C : Crypto} {s : Serving}

/-! ## Runs -/

theorem outcome_entry {tr : List (Entry Settings)}
    (h : Inv (Asked tr) (fun p => OutOfSession s ∧ TrustedSince tr p) s)
    (event : ServingEvent Settings) :
    Outcome C (Asked (tr ++ [(machine Settings C).entry s event]))
      (TrustedSince (tr ++ [(machine Settings C).entry s event])) s event (s.step C event) := by
  refine outcome_step h ?_ ?_ ?_ ?_ ?_
  · rintro p ⟨e, he, hp⟩
    exact ⟨e, List.mem_append_left _ he, hp⟩
  · intro live failure writable cleared reset peerId peer hevent hpeer
    exact ⟨_, List.mem_append_right _ (.head _), live, failure, writable, cleared, reset, peerId,
      hevent, hpeer⟩
  · rintro p ⟨hout, hp⟩
    exact hp.concat hout
  · intro hout p hp
    exact ⟨tr, _, [], rfl, .inl hp, List.forall_mem_singleton.2 hout⟩
  · intro hout p hp
    exact ⟨tr, _, [], rfl, .inr hp, List.forall_mem_singleton.2 hout⟩

theorem inv_trace (C : Crypto) (id : DeviceId) (role : ServeRole) (store : Finset DeviceId)
    (events : List (ServingEvent Settings)) :
    Inv (Asked ((machine Settings C).trace (boot id role store) events))
      (fun p => OutOfSession ((machine Settings C).exec (boot id role store) events) ∧
        TrustedSince ((machine Settings C).trace (boot id role store) events) p)
      ((machine Settings C).exec (boot id role store) events) :=
  (machine Settings C).induct
    (P := fun tr s => Inv (Asked tr) (fun p => OutOfSession s ∧ TrustedSince tr p) s)
    (G := fun _ => True) (s := boot id role store) (inv_boot id role store)
    (fun _ _ event h _ => (outcome_entry h event).inv.outOfSession) events fun _ _ => trivial

/-- The loop of the daemon is that of `ServeLoop`: what it does is a run of it. -/
theorem runs_loop (C : Crypto) (id : DeviceId) (role : ServeRole) (store : Finset DeviceId)
    (events : List (ServingEvent Settings)) :
    ∃ evs, ((machine Settings C).exec (boot id role store) events).loop =
      (ServeLoop.machine Settings).exec (.boot id role) evs := by
  induction events using List.reverseRecOn with
  | nil => exact ⟨[], rfl⟩
  | append_singleton events event ih =>
    obtain ⟨evs, hevs⟩ := ih
    obtain ⟨more, hmore⟩ := (outcome_entry (inv_trace C id role store events) event).runs
    refine ⟨evs ++ more, ?_⟩
    rw [Machine.exec_concat, Machine.exec_append, ← hevs]
    exact hmore

theorem device_run (C : Crypto) (id : DeviceId) (role : ServeRole) (store : Finset DeviceId)
    (events : List (ServingEvent Settings)) :
    ((machine Settings C).exec (boot id role store) events).loop.id = id ∧
      ((machine Settings C).exec (boot id role store) events).loop.role = role := by
  obtain ⟨evs, hevs⟩ := runs_loop C id role store events
  rw [hevs]
  exact device_exec (.boot id role) evs

/-- **Whom a daemon is in a session with, and why.** In every run of a daemon, a session begins only
with a peer that was in the trust store at a moment after the last session. A peer that the daemon
controls has answered a dial, with a certificate of its own, and the role of the daemon lets it
control this peer or the user has asked for it; a peer that controls the daemon is one that
`accept_trusted` has returned while the daemon pursued nobody. -/
theorem session_entitled (C : Crypto) (id : DeviceId) (role : ServeRole) (store : Finset DeviceId)
    (events : List (ServingEvent Settings)) (before after : List (Entry Settings))
    (e : Entry Settings)
    (htrace : (machine Settings C).trace (boot id role store) events = before ++ e :: after)
    (peer : DeviceId) (canControl : Bool) (hsession : e.post.loop.phase = .session peer canControl)
    (hbegins : e.pre.loop.phase ≠ .session peer canControl) :
    TrustedSince (before ++ [e]) peer ∧
      (canControl = true →
        (∃ leaf sessionId reason, e.input = .dialed (.ok (leaf, sessionId)) reason ∧
          C.deviceIdFromCert leaf = .ok peer) ∧
        (role = .source ∨ role = .auto ∧ id < peer ∨ Asked (before ++ [e]) peer)) ∧
      (canControl = false → e.pre.loop.sourceIntent = none ∧ ∃ step sessionId,
        e.input = .inbound step sessionId ∧ e.pre.flow.result step = some (.ok peer)) := by
  obtain ⟨js, event, ks, -, rfl, rfl⟩ := (machine Settings C).trace_eq_append_cons htrace
  have houtcome := outcome_entry (C := C) (inv_trace C id role store js) event
  have hbegun := (houtcome.begins peer canControl hsession).resolve_left hbegins
  refine ⟨hbegun.trusted, fun hcontrols => ⟨hbegun.dialed hcontrols, ?_⟩, hbegun.accepted⟩
  have hcontrolled : Controls peer (.session peer canControl) := ⟨rfl, hcontrols⟩
  rw [← hsession] at hcontrolled
  have hmay := houtcome.inv.loop.controls peer hcontrolled
  have hdevice := device_run C id role store (js ++ [event])
  rw [Machine.exec_concat] at hdevice
  obtain ⟨hid, hrole⟩ :
      (step C ((machine Settings C).exec (boot id role store) js) event).loop.id = id ∧
      (step C ((machine Settings C).exec (boot id role store) js) event).loop.role = role := hdevice
  rwa [MayControl, hid, hrole] at hmay

/-- **What a daemon says of its session.** In every reachable state, the bulk acceptor expects the
peer of the session and nobody outside of one, and the UI is shown a connection only during a
session and then with its peer. While the daemon pursues a peer, the user has asked for it, and
until it stops it is in a session that it controls with this peer, has lost one, or redials it
without accepting anybody. -/
theorem serving_published (C : Crypto) (id : DeviceId) (role : ServeRole) (store : Finset DeviceId)
    (events : List (ServingEvent Settings)) :
    let tr := (machine Settings C).trace (boot id role store) events
    let s := (machine Settings C).exec (boot id role store) events
    (∀ peer, s.bulk.map (·.peerId) = some peer ↔
      ∃ canControl, s.loop.phase = .session peer canControl) ∧
    (s.loop.connection.state = .connected → ∃ peer canControl,
      s.loop.phase = .session peer canControl ∧
        s.loop.connection.peerId = some (formatDeviceId peer)) ∧
    ∀ peer, s.loop.sourceIntent = some peer → Asked tr peer ∧ Pursues peer s.loop.phase := by
  have hinv := inv_trace C id role store events
  refine ⟨fun peer => ?_, hinv.loop.shown, hinv.loop.intent⟩
  have hbulk := hinv.bulk
  rw [hbulk]
  split
  · next p canControl hphase =>
    rw [Option.some_inj, hphase]
    constructor
    · rintro rfl
      exact ⟨canControl, rfl⟩
    · rintro ⟨c, h⟩
      cases h
      rfl
  · next hphase =>
    refine ⟨nofun, ?_⟩
    rintro ⟨c, h⟩
    exact (hphase peer c h).elim

end

/-- The user of a daemon in the target role connects to the desk, up to the answer of the desk. -/
def connecting : List (ServingEvent Unit) :=
  [.command (fun _ => true) none true false false (.connect (formatDeviceId (.fill 1))),
    .takeConnect none, .look (some Redial.deskAdvert)]

/-- The answer, on a connection with the certificate of the desk. -/
def answered : ServingEvent Unit :=
  .dialed (.ok (bareCertificate (List.replicate 32 1), 7)) ""

theorem session_entitled_connect :
    let _ : ToUppercase := .asciiOnly
    let M := machine Unit plainCrypto
    let s := boot (.fill 2) .target {.fill 1}
    TrustedSince (M.trace s connecting ++ [M.entry (M.exec s connecting) answered]) (.fill 1) := by
  intro _ M s
  exact (session_entitled plainCrypto (.fill 2) .target {.fill 1} (connecting ++ [answered])
    (M.trace s connecting) [] (M.entry (M.exec s connecting) answered) (M.trace_concat s _ _)
    (.fill 1) true (by decide +kernel) (by decide +kernel)).1

end Serving

end Mouser
