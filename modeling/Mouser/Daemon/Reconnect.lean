import Mouser.Daemon.Trust
import Mouser.Engine.Discovery
import Mouser.Lib.FixedWidth
import Mouser.Lib.Machine
import Mouser.Net.Handshake
import Mathlib.Algebra.Order.BigOperators.Group.Finset

/-!
# The redial of a lost peer

`redial_until_reconnected` checks the trust of the peer, waits until the registry knows an address
of it, dials the addresses one after another and, after a failure, sleeps for a delay that grows
with the attempts. `Redial.machine` is that loop with a clock: time passes between any two of its
steps, and what it waits for may come, fail or stay away.

`redial_spaced` bounds how often a peer is dialed, and `redial_checked` says what is known of the
peer each time.
-/

namespace Mouser

/-! ## The delays -/

/-- In milliseconds, as all times here. -/
def baseBackoff : ℕ := 250

def maxBackoff : ℕ := 30000

def jitterPercent : ℕ := 20

/-- Capped exponential backoff; the factor and the product are computed in 128 bits. -/
def reconnectBackoff (attempt : UInt32) : ℕ :=
  let shift := min attempt.toNat 16
  let factor := if shift < 128 then 2 ^ shift else 2 ^ 128 - 1
  let millis := min (baseBackoff * factor) (2 ^ 128 - 1)
  let capped := min millis maxBackoff
  if capped < 2 ^ 64 then capped else 2 ^ 64 - 1

/-- One byte of the hash. -/
def jitterRound (hash : UInt64) (byte : UInt8) : UInt64 :=
  (hash ^^^ byte.toUInt64) * 0x00000100000001b3

def stableJitter (peerId : DeviceId) (attempt : UInt32) : UInt64 :=
  (Framing.leBytes 4 attempt.toNat).foldl jitterRound
    (peerId.bytes.foldl jitterRound 0xcbf29ce484222325)

def reconnectDelay (attempt : UInt32) (peerId : DeviceId) : ℕ :=
  let span := jitterPercent * 2 + 1
  let jitter := (stableJitter peerId attempt).toNat % span
  let pct := 100 - jitterPercent + jitter
  let jittered := min (reconnectBackoff attempt * pct) (2 ^ 64 - 1) / 100
  min jittered maxBackoff

theorem reconnectBackoff_eq (attempt : UInt32) :
    reconnectBackoff attempt = min (250 * 2 ^ min attempt.toNat 16) 30000 := by
  have hshift : min attempt.toNat 16 ≤ 16 := Nat.min_le_right _ _
  have hpow : 2 ^ min attempt.toNat 16 ≤ 2 ^ 16 := Nat.pow_le_pow_right (by decide) hshift
  unfold reconnectBackoff baseBackoff maxBackoff
  dsimp only
  have hcapped : min (min (250 * 2 ^ min attempt.toNat 16) (2 ^ 128 - 1)) 30000 =
      min (250 * 2 ^ min attempt.toNat 16) 30000 := by omega
  rw [if_pos (show min attempt.toNat 16 < 128 by omega), hcapped, if_pos (by omega)]

theorem reconnectDelay_le (attempt : UInt32) (peerId : DeviceId) :
    reconnectDelay attempt peerId ≤ 30000 := Nat.min_le_right _ _

/-- A delay is at most a fifth shorter than the backoff. -/
theorem le_reconnectDelay (attempt : UInt32) (peerId : DeviceId) :
    reconnectBackoff attempt * 80 / 100 ≤ reconnectDelay attempt peerId := by
  have hle : reconnectBackoff attempt ≤ 30000 := by
    rw [reconnectBackoff_eq]
    exact Nat.min_le_right _ _
  unfold reconnectDelay jitterPercent maxBackoff
  dsimp only
  generalize (stableJitter peerId attempt).toNat % (20 * 2 + 1) = jitter
  refine le_min ?_ (by omega)
  refine Nat.div_le_div_right (le_min (Nat.mul_le_mul_left _ (by omega)) (by omega))

/-- The delays after the first seven are near the longest one. -/
theorem le_reconnectDelay_of_le {attempt : UInt32} (h : 7 ≤ attempt.toNat) (peerId : DeviceId) :
    24000 ≤ reconnectDelay attempt peerId := by
  have hpow : 2 ^ 7 ≤ 2 ^ min attempt.toNat 16 := Nat.pow_le_pow_right (by decide) (by omega)
  have hbackoff : reconnectBackoff attempt = 30000 := by
    rw [reconnectBackoff_eq]
    omega
  have hle := le_reconnectDelay attempt peerId
  rwa [hbackoff] at hle

/-! ## The loop -/

open Discovery (SocketAddr peerSocketAddrs)

inductive ReconnectEnd where
  /-- With the id that the connection gives of its peer. -/
  | reconnected (peerId : Option DeviceId) (canControl : Bool)
  | disconnected
  | shutdown
deriving DecidableEq

/-- Where `redial_until_reconnected` stands. -/
inductive RedialPhase where
  | checking
  /-- `wait_for_peer_addr` -/
  | resolving
  /-- `connect_interactive_any` tries `addr` since that time, and `accept_from` waits beside it. -/
  | dialing (since : ℕ) (addr : SocketAddr) (rest : List SocketAddr)
  | sleeping (wake : ℕ)
  | ended (result : ReconnectEnd)
deriving DecidableEq

structure Redial where
  now : ℕ
  attempt : UInt32
  phase : RedialPhase
deriving DecidableEq

/-- The arguments of a redial. -/
structure RedialConfig where
  crypto : Crypto
  peerId : DeviceId
  acceptInbound : Bool
  /-- There is a bridge to a UI. -/
  ui : Bool

inductive RedialEvent where
  | elapse (millis : ℕ)
  | trust (trusted : Except String Bool)
  /-- An advertisement of the registry, or none. -/
  | look (advert : Option Discovery.PeerAdvert)
  /-- A dial has failed, or has a connection on which the peer has presented the certificate. -/
  | dialed (result : Except LinkError (List UInt8))
  | timeout
  /-- `accept_trusted` has a connection, or has failed. -/
  | accepted (peerId : Except String (Option DeviceId))
  | wake
  | disconnect
  | ctrlC

inductive RedialOutput where
  | dial (addr : SocketAddr)
  /-- A connection of somebody else is closed. -/
  | close
  | connecting
  | connectError (reason : String)
deriving DecidableEq

namespace Redial

/-- `DIAL_ATTEMPT_TIMEOUT` -/
def dialAttemptTimeout : ℕ := 6000

variable (c : RedialConfig)

/-- A redial that has begun, and has told the UI. -/
def start (now : ℕ) : Redial := ⟨now, 0, .checking⟩

/-- What the UI is told, if there is one. -/
def tell (output : RedialOutput) : List RedialOutput := if c.ui then [output] else []

def onTrust (s : Redial) : Except String Bool → Redial × List RedialOutput
  | .ok true => ({ s with phase := .resolving }, [])
  | .ok false =>
    ({ s with phase := .ended .disconnected },
      tell c (.connectError ("peer " ++ formatDeviceId c.peerId ++ " is no longer trusted")))
  | .error e =>
    ({ s with phase := .ended .disconnected },
      tell c (.connectError ("trust check failed for " ++ formatDeviceId c.peerId ++ ": " ++ e)))

/-- The attempt has failed. -/
def giveUp (s : Redial) : Redial × List RedialOutput :=
  ({ s with
      attempt := s.attempt.saturatingAdd 1
      phase := .sleeping (s.now + reconnectDelay s.attempt c.peerId) },
    tell c .connecting)

/-- The next candidate of `connect_interactive_any`. -/
def tryNext (s : Redial) : List SocketAddr → Redial × List RedialOutput
  | [] => s.giveUp c
  | addr :: rest => ({ s with phase := .dialing s.now addr rest }, [.dial addr])

/-- `accept_from` has an answer. -/
def onAccepted (s : Redial) : Except String (Option DeviceId) → Redial × List RedialOutput
  | .ok peerId =>
    if peerId = some c.peerId then
      ({ s with phase := .ended (.reconnected peerId false) }, [])
    else ((s.giveUp c).1, .close :: (s.giveUp c).2)
  | .error _ => s.giveUp c

/-- The addresses of what `find` returns of the registry. -/
def candidates [ToUppercase] (advert : Option Discovery.PeerAdvert) : List SocketAddr :=
  match advert with
  | none => []
  | some advert =>
    if decodeDeviceId advert.id.toList = some c.peerId then peerSocketAddrs advert else []

def step [ToUppercase] (s : Redial) (event : RedialEvent) : Redial × List RedialOutput :=
  match event, s.phase with
  | _, .ended _ => (s, [])
  | .elapse millis, _ => ({ s with now := s.now + millis }, [])
  | .trust trusted, .checking => s.onTrust c trusted
  | .look advert, .resolving =>
    match candidates c advert with
    | [] => (s, [])
    | addr :: rest => s.tryNext c (addr :: rest)
  | .dialed (.ok leaf), .dialing _ _ rest =>
    match c.crypto.checkPin (.pinned c.peerId) leaf with
    | .error _ => s.tryNext c rest
    | .ok () =>
      ({ s with phase := .ended (.reconnected (c.crypto.deviceIdFromCert leaf).toOption true) }, [])
  | .dialed (.error _), .dialing _ _ rest => s.tryNext c rest
  | .timeout, .dialing since _ rest =>
    if since + dialAttemptTimeout ≤ s.now then s.tryNext c rest else (s, [])
  | .accepted result, .dialing _ _ _ => if c.acceptInbound then s.onAccepted c result else (s, [])
  | .wake, .sleeping wake => if wake ≤ s.now then ({ s with phase := .checking }, []) else (s, [])
  | .disconnect, .resolving | .disconnect, .dialing _ _ _ | .disconnect, .sleeping _ =>
    if c.ui then ({ s with phase := .ended .disconnected }, []) else (s, [])
  | .ctrlC, .resolving | .ctrlC, .dialing _ _ _ | .ctrlC, .sleeping _ =>
    ({ s with phase := .ended .shutdown }, [])
  | _, _ => (s, [])

def machine [ToUppercase] : Machine Redial RedialEvent (List RedialOutput) := ⟨step c⟩

/-! ## One step -/

/-- No address is dialed. -/
def Silent (outputs : List RedialOutput) : Prop := ∀ addr, .dial addr ∉ outputs

/-- What a step of the loop can do. -/
inductive Goes [ToUppercase] (s : Redial) (event : RedialEvent) :
    Redial × List RedialOutput → Prop where
  | stays : Goes s event (s, [])
  | elapses (millis : ℕ) : Goes s event ({ s with now := s.now + millis }, [])
  | checks (hphase : s.phase = .checking) (htrust : event = .trust (.ok true)) :
    Goes s event ({ s with phase := .resolving }, [])
  | stops {result : ReconnectEnd} {outputs : List RedialOutput} (hsilent : Silent outputs)
    (hstopped : ∀ peerId canControl, result ≠ .reconnected peerId canControl) :
    Goes s event ({ s with phase := .ended result }, outputs)
  | begins {advert : Discovery.PeerAdvert} {addr : SocketAddr} {rest : List SocketAddr}
    (hphase : s.phase = .resolving) (hlook : event = .look (some advert))
    (hpeer : decodeDeviceId advert.id.toList = some c.peerId)
    (haddrs : peerSocketAddrs advert = addr :: rest) :
    Goes s event ({ s with phase := .dialing s.now addr rest }, [.dial addr])
  | triesNext {since : ℕ} {addr addr' : SocketAddr} {rest : List SocketAddr}
    (hphase : s.phase = .dialing since addr (addr' :: rest)) :
    Goes s event ({ s with phase := .dialing s.now addr' rest }, [.dial addr'])
  | givesUp {since : ℕ} {addr : SocketAddr} {rest : List SocketAddr} {outputs : List RedialOutput}
    (hphase : s.phase = .dialing since addr rest) (hsilent : Silent outputs) :
    Goes s event ((s.giveUp c).1, outputs)
  | dialed {since : ℕ} {addr : SocketAddr} {rest : List SocketAddr}
    (hphase : s.phase = .dialing since addr rest) :
    Goes s event ({ s with phase := .ended (.reconnected (some c.peerId) true) }, [])
  | accepted (haccept : c.acceptInbound = true) :
    Goes s event ({ s with phase := .ended (.reconnected (some c.peerId) false) }, [])
  | wakes {wake : ℕ} (hphase : s.phase = .sleeping wake) (hwake : wake ≤ s.now) :
    Goes s event ({ s with phase := .checking }, [])

theorem silent_nil : Silent [] := fun _ => List.not_mem_nil

theorem silent_tell {output : RedialOutput} (h : ∀ addr, output ≠ .dial addr) :
    Silent (tell c output) := by
  intro addr hmem
  unfold tell at hmem
  split at hmem
  · exact h addr (List.mem_singleton.1 hmem).symm
  · cases hmem

theorem silent_connecting : Silent (tell c .connecting) := by
  refine silent_tell c fun addr h => ?_
  cases h

theorem silent_connectError (reason : String) : Silent (tell c (.connectError reason)) := by
  refine silent_tell c fun addr h => ?_
  cases h

variable {c} {s : Redial}

theorem goes_tryNext [ToUppercase] {event : RedialEvent} {since : ℕ} {addr : SocketAddr}
    {rest : List SocketAddr} (hphase : s.phase = .dialing since addr rest) :
    Goes c s event (s.tryNext c rest) := by
  cases rest with
  | nil => exact .givesUp hphase (silent_connecting c)
  | cons addr' rest => exact .triesNext hphase

/-- The certificate that a pinned dial has accepted is the peer's. -/
theorem deviceIdFromCert_of_checkPin {C : Crypto} {id : DeviceId} {leaf : List UInt8} {u : Unit}
    (h : C.checkPin (.pinned id) leaf = .ok u) : C.deviceIdFromCert leaf = .ok id := by
  unfold Crypto.checkPin at h
  split at h
  · cases h
  · next observed hobserved =>
    dsimp only at h
    split at h
    · cases h
    · next hsame => rw [hobserved, not_not.1 hsame]

theorem goes_step [ToUppercase] (s : Redial) (event : RedialEvent) :
    Goes c s event (s.step c event) := by
  unfold step
  split
  · exact .stays
  · exact .elapses _
  · next trusted hphase =>
    match trusted with
    | .ok true => exact .checks hphase rfl
    | .ok false => exact .stops (silent_connectError c _) nofun
    | .error e => exact .stops (silent_connectError c _) nofun
  · next advert hphase =>
    split
    · exact .stays
    · next addr rest hcandidates =>
      unfold candidates at hcandidates
      split at hcandidates
      · cases hcandidates
      · split at hcandidates
        · next advert hpeer => exact .begins hphase rfl hpeer hcandidates
        · cases hcandidates
  · next leaf _ _ _ hphase =>
    split
    · exact goes_tryNext hphase
    · next hpin =>
      rw [deviceIdFromCert_of_checkPin hpin]
      exact .dialed hphase
  · next hphase => exact goes_tryNext hphase
  · next hphase =>
    split
    · exact goes_tryNext hphase
    · exact .stays
  · next result _ _ _ hphase =>
    split
    · next haccept =>
      cases result with
      | error e => exact .givesUp hphase (silent_connecting c)
      | ok peerId =>
        rw [onAccepted]
        split
        · next hpeer =>
          rw [hpeer]
          exact .accepted haccept
        · refine .givesUp hphase fun addr hmem => ?_
          rcases List.mem_cons.1 hmem with hmem | hmem
          · cases hmem
          · exact silent_connecting c addr hmem
    · exact .stays
  · next wake hphase =>
    split
    · next hwake => exact .wakes hphase hwake
    · exact .stays
  · split
    · exact .stops silent_nil nofun
    · exact .stays
  · split
    · exact .stops silent_nil nofun
    · exact .stays
  · split
    · exact .stops silent_nil nofun
    · exact .stays
  · exact .stops silent_nil nofun
  · exact .stops silent_nil nofun
  · exact .stops silent_nil nofun
  · exact .stays

/-! ## How often a peer is dialed -/

abbrev Entry := Machine.Entry Redial RedialEvent (List RedialOutput)

/-- The first address of an attempt is dialed. -/
def Begins (e : Entry) : Prop := e.pre.phase = .resolving ∧ ∃ addr, .dial addr ∈ e.output

instance (e : Entry) : Decidable (Begins e) :=
  decidable_of_iff (e.pre.phase = .resolving ∧
    (e.output.any fun output => match output with | .dial _ => true | _ => false) = true) <| by
    refine and_congr_right fun _ => List.any_eq_true.trans ⟨?_, ?_⟩
    · rintro ⟨output, hmem, hdial⟩
      cases output with
      | dial addr => exact ⟨addr, hmem⟩
      | close | connecting | connectError => cases hdial
    · rintro ⟨addr, hmem⟩
      exact ⟨_, hmem, rfl⟩

/-- When the attempts of a run began. -/
def attemptTimes (tr : List Entry) : List ℕ := (tr.filter (Begins ·)).map (·.pre.now)

/-- The delay after attempt `i`, counted from 0. -/
def delayAfter (peerId : DeviceId) (i : ℕ) : ℕ := reconnectDelay (.ofNatClamp i) peerId

/-- Each time is later than the one before it by the delay between them. -/
def Spaced (d : ℕ → ℕ) (times : List ℕ) : Prop :=
  ∀ i t t', times[i]? = some t → times[i + 1]? = some t' → t + d i ≤ t'

/-- The last time was at least its delay ago. -/
def Rested (d : ℕ → ℕ) (times : List ℕ) (now : ℕ) : Prop :=
  ∀ i t, times.length = i + 1 → times[i]? = some t → t + d i ≤ now

theorem Spaced.concat {d : ℕ → ℕ} {times : List ℕ} (h : Spaced d times) {now : ℕ}
    (hrested : Rested d times now) : Spaced d (times ++ [now]) := by
  intro i t t' ht ht'
  rcases Nat.lt_or_ge (i + 1) times.length with hlt | hge
  · rw [List.getElem?_append_left (by omega)] at ht
    rw [List.getElem?_append_left hlt] at ht'
    exact h i t t' ht ht'
  · have hi := (List.getElem?_eq_some_iff.1 ht').1
    rw [List.length_append, List.length_singleton] at hi
    have hlength : times.length = i + 1 := by omega
    rw [List.getElem?_append_left (by omega)] at ht
    rw [← hlength, List.getElem?_concat_length] at ht'
    cases ht'
    exact hrested i t hlength ht

theorem Rested.mono {d : ℕ → ℕ} {times : List ℕ} {now later : ℕ} (h : Rested d times now)
    (hle : now ≤ later) : Rested d times later :=
  fun i t hi ht => (h i t hi ht).trans hle

/-- The delays in between add up. -/
theorem Spaced.sum_le {d : ℕ → ℕ} {times : List ℕ} (h : Spaced d times) {j n t t' : ℕ}
    (ht : times[j]? = some t) (ht' : times[j + n]? = some t') :
    t + ∑ i ∈ Finset.range n, d (j + i) ≤ t' := by
  induction n generalizing t' with
  | zero =>
    rw [Nat.add_zero, ht] at ht'
    cases ht'
    exact le_rfl
  | succ n ih =>
    have hlt : j + n < times.length := by
      have := (List.getElem?_eq_some_iff.1 ht').1
      omega
    have hmid := List.getElem?_eq_getElem hlt
    have hbefore := ih hmid
    have hlast := h (j + n) _ t' hmid ht'
    rw [Finset.sum_range_succ]
    omega

/-- How far the delays before attempt `i` fall short of 24 seconds each, all together. -/
def shortfall (i : ℕ) : ℕ := ∑ k ∈ Finset.range (min i 7), (24000 - 200 * 2 ^ k)

theorem shortfall_le (i : ℕ) : shortfall i ≤ 142600 :=
  calc shortfall i ≤ ∑ k ∈ Finset.range 7, (24000 - 200 * 2 ^ k) :=
        Finset.sum_le_sum_of_subset (Finset.range_mono (Nat.min_le_right _ _))
    _ = 142600 := by decide

/-- The count of the attempts, one further. -/
theorem saturatingAdd_ofNatClamp (i : ℕ) :
    (UInt32.ofNatClamp i).saturatingAdd 1 = .ofNatClamp (i + 1) := by
  rw [← UInt32.toNat_inj, UInt32.toNat_saturatingAdd, UInt32.toNat_ofNatClamp,
    UInt32.toNat_ofNatClamp, UInt32.toNat_one]
  omega

theorem le_delayAfter_add (peerId : DeviceId) (i : ℕ) :
    24000 + shortfall i ≤ delayAfter peerId i + shortfall (i + 1) := by
  rcases Nat.lt_or_ge i 7 with hearly | hlate
  · have hattempt : (UInt32.ofNatClamp i).toNat = i := by
      rw [UInt32.toNat_ofNatClamp]
      omega
    have hpow : 2 ^ i ≤ 2 ^ 6 := Nat.pow_le_pow_right (by decide) (by omega)
    have hbackoff : reconnectBackoff (.ofNatClamp i) = 250 * 2 ^ i := by
      rw [reconnectBackoff_eq, hattempt, Nat.min_eq_left (show i ≤ 16 by omega)]
      omega
    have hdelay := le_reconnectDelay (.ofNatClamp i) peerId
    have hsum : shortfall (i + 1) = shortfall i + (24000 - 200 * 2 ^ i) := by
      rw [shortfall, shortfall, Nat.min_eq_left (by omega), Nat.min_eq_left (by omega),
        Finset.sum_range_succ]
    rw [hbackoff] at hdelay
    rw [delayAfter, hsum]
    omega
  · have hattempt : 7 ≤ (UInt32.ofNatClamp i).toNat := by
      rw [UInt32.toNat_ofNatClamp]
      omega
    have hsame : shortfall (i + 1) = shortfall i := by
      rw [shortfall, shortfall, Nat.min_eq_right hlate, Nat.min_eq_right (by omega)]
    have hdelay := le_reconnectDelay_of_le hattempt peerId
    rw [delayAfter, hsame]
    omega

theorem le_sum_delayAfter (peerId : DeviceId) (j n : ℕ) :
    24000 * n + shortfall j ≤
      ∑ i ∈ Finset.range n, delayAfter peerId (j + i) + shortfall (j + n) := by
  induction n with
  | zero => simp
  | succ n ih =>
    have hnext := le_delayAfter_add peerId (j + n)
    rw [Finset.sum_range_succ, ← Nat.add_assoc j n 1]
    omega

/-- Where a redial of a peer stands, when its attempts began at these times. -/
structure Paced (peerId : DeviceId) (times : List ℕ) (s : Redial) : Prop where
  spaced : Spaced (delayAfter peerId) times
  attempt : match s.phase with
    | .checking | .resolving =>
      s.attempt = .ofNatClamp times.length ∧ Rested (delayAfter peerId) times s.now
    | .sleeping wake =>
      s.attempt = .ofNatClamp times.length ∧ Rested (delayAfter peerId) times wake
    | .dialing _ _ _ => ∃ i, times.length = i + 1 ∧ s.attempt = .ofNatClamp i ∧
      ∀ t, times[i]? = some t → t ≤ s.now
    | .ended _ => True

theorem attemptTimes_concat (tr : List Entry) (e : Entry) :
    attemptTimes (tr ++ [e]) = attemptTimes tr ++ if Begins e then [e.pre.now] else [] := by
  by_cases h : Begins e <;> simp [attemptTimes, h]

section

variable [ToUppercase]

theorem attemptTimes_of_silent {tr : List Entry} {event : RedialEvent}
    (h : Silent (s.step c event).2) :
    attemptTimes (tr ++ [(machine c).entry s event]) = attemptTimes tr := by
  rw [attemptTimes_concat, if_neg, List.append_nil]
  rintro ⟨-, addr, hmem⟩
  exact h addr hmem

theorem attemptTimes_of_not_resolving {tr : List Entry} {event : RedialEvent}
    (h : s.phase ≠ .resolving) :
    attemptTimes (tr ++ [(machine c).entry s event]) = attemptTimes tr := by
  rw [attemptTimes_concat, if_neg, List.append_nil]
  exact fun hbegins => h hbegins.1

/-- **The step of a paced redial.** -/
theorem Paced.step {tr : List Entry} (h : s.Paced c.peerId (attemptTimes tr))
    (event : RedialEvent) :
    (s.step c event).1.Paced c.peerId (attemptTimes (tr ++ [(machine c).entry s event])) := by
  obtain ⟨hspaced, hattempt⟩ := h
  have hgoes := goes_step (c := c) s event
  have hsilent : Silent (s.step c event).2 →
      attemptTimes (tr ++ [(machine c).entry s event]) = attemptTimes tr := attemptTimes_of_silent
  have hpre : s.phase ≠ .resolving →
      attemptTimes (tr ++ [(machine c).entry s event]) = attemptTimes tr :=
    attemptTimes_of_not_resolving
  have hentry : Begins ((machine c).entry s event) ↔
      s.phase = .resolving ∧ ∃ addr, .dial addr ∈ (s.step c event).2 := Iff.rfl
  have hconcat := attemptTimes_concat tr ((machine c).entry s event)
  generalize s.step c event = result at hgoes hsilent hentry
  cases hgoes with
  | stays =>
    rw [hsilent silent_nil]
    exact ⟨hspaced, hattempt⟩
  | elapses millis =>
    rw [hsilent silent_nil]
    refine ⟨hspaced, ?_⟩
    dsimp only
    split at hattempt
    · exact ⟨hattempt.1, hattempt.2.mono (Nat.le_add_right _ _)⟩
    · exact ⟨hattempt.1, hattempt.2.mono (Nat.le_add_right _ _)⟩
    · exact hattempt
    · obtain ⟨i, hlength, hi, hle⟩ := hattempt
      exact ⟨i, hlength, hi, fun t ht => Nat.le_add_right_of_le (hle t ht)⟩
    · trivial
  | checks hphase htrust =>
    rw [hsilent silent_nil]
    rw [hphase] at hattempt
    exact ⟨hspaced, hattempt⟩
  | stops hquiet hstopped =>
    rw [hsilent hquiet]
    exact ⟨hspaced, trivial⟩
  | @begins advert addr rest hphase hlook hpeer haddrs =>
    have hbegins : Begins ((machine c).entry s event) := hentry.2 ⟨hphase, addr, .head _⟩
    rw [if_pos hbegins] at hconcat
    rw [hconcat]
    rw [hphase] at hattempt
    obtain ⟨hcount, hrested⟩ := hattempt
    refine ⟨hspaced.concat hrested, (attemptTimes tr).length, ?_, hcount, fun t ht => ?_⟩
    · rw [List.length_append, List.length_singleton]
    · rw [Machine.entry_pre, List.getElem?_concat_length] at ht
      cases ht
      exact le_rfl
  | triesNext hphase =>
    rw [hpre (by rw [hphase]; exact nofun)]
    rw [hphase] at hattempt
    exact ⟨hspaced, hattempt⟩
  | givesUp hphase hquiet =>
    rw [hsilent hquiet]
    rw [hphase] at hattempt
    obtain ⟨i, hlength, hi, hle⟩ := hattempt
    refine ⟨hspaced, ?_, fun k t hk ht => ?_⟩
    · change s.attempt.saturatingAdd 1 = _
      rw [hi, saturatingAdd_ofNatClamp, hlength]
    · obtain rfl : k = i := by omega
      rw [hi]
      exact Nat.add_le_add_right (hle t ht) _
  | dialed hphase =>
    rw [hsilent silent_nil]
    exact ⟨hspaced, trivial⟩
  | accepted haccept =>
    rw [hsilent silent_nil]
    exact ⟨hspaced, trivial⟩
  | wakes hphase hwake =>
    rw [hsilent silent_nil]
    rw [hphase] at hattempt
    exact ⟨hspaced, hattempt.1, hattempt.2.mono hwake⟩

/-- **A lost peer is not dialed too often.** In every run of a redial, between two attempts lie all
the delays of the attempts before the later one, and `n` attempts take at least 24 seconds each, but
for 142.6 seconds that the first seven take less. -/
theorem redial_spaced (c : RedialConfig) (now : ℕ) (events : List RedialEvent) (j n t t' : ℕ)
    (ht : (attemptTimes ((machine c).trace (start now) events))[j]? = some t)
    (ht' : (attemptTimes ((machine c).trace (start now) events))[j + n]? = some t') :
    t + ∑ i ∈ Finset.range n, reconnectDelay (.ofNatClamp (j + i)) c.peerId ≤ t' ∧
      t + 24000 * n ≤ t' + 142600 := by
  have hpaced := (machine c).induct
    (P := fun tr s => s.Paced c.peerId (attemptTimes tr)) (G := fun _ => True) (s := start now)
    ⟨nofun, rfl, nofun⟩ (fun tr s event h _ => h.step event) events fun _ _ => trivial
  have hsum := hpaced.spaced.sum_le ht ht'
  refine ⟨hsum, ?_⟩
  have hdelays := le_sum_delayAfter c.peerId j n
  have hshort := shortfall_le (j + n)
  omega

end

/-- The desk, as the laptop sees it. -/
def deskAdvert : Discovery.PeerAdvert where
  id := formatDeviceId (.fill 1)
  name := "desk"
  os := "linux"
  ver := "0.1.0"
  iport := 4000
  bport := 4001
  caps := "keyboard,mouse"
  role := "eligible"
  dw := 0
  dh := 0
  addrs := [.v4 #v[192, 168, 1, 2]]

/-- The desk does not answer the first time, and the second attempt is made as soon as it may be. -/
def twoAttempts : List RedialEvent :=
  [.trust (.ok true), .look (some deskAdvert), .dialed (.error (.connect "refused")), .elapse 300,
    .wake, .trust (.ok true), .look (some deskAdvert)]

def redialDesk : RedialConfig := ⟨plainCrypto, .fill 1, false, true⟩

theorem redial_spaced_twoAttempts :
    0 + ∑ i ∈ Finset.range 1, reconnectDelay (.ofNatClamp (0 + i)) redialDesk.peerId ≤ 300 ∧
      0 + 24000 * 1 ≤ 300 + 142600 := by
  let _ : ToUppercase := .asciiOnly
  exact redial_spaced redialDesk 0 twoAttempts 0 1 0 300 (by decide +kernel) (by decide +kernel)

/-! ## Who is dialed -/

/-- The loop does not sleep. -/
def Awake (e : Entry) : Prop := ∀ wake, e.pre.phase ≠ .sleeping wake

/-- The peer has been found trusted, and the loop has not slept since. -/
def TrustedSince (tr : List Entry) : Prop :=
  ∃ before check after, tr = before ++ check :: after ∧ check.input = .trust (.ok true) ∧
    ∀ e ∈ after, Awake e

/-- After that, the address was one of the advertisement of the peer, and the loop has not slept
since either. -/
def KnownAt [ToUppercase] (peerId : DeviceId) (tr : List Entry) (addr : SocketAddr) : Prop :=
  ∃ before look after advert, tr = before ++ look :: after ∧ TrustedSince before ∧
    look.input = .look (some advert) ∧ decodeDeviceId advert.id.toList = some peerId ∧
    addr ∈ peerSocketAddrs advert ∧ ∀ e ∈ look :: after, Awake e

theorem TrustedSince.concat {tr : List Entry} (h : TrustedSince tr) {e : Entry} (he : Awake e) :
    TrustedSince (tr ++ [e]) := by
  obtain ⟨before, check, after, rfl, htrust, hawake⟩ := h
  refine ⟨before, check, after ++ [e], by simp, htrust, fun x hx => ?_⟩
  rcases List.mem_append.1 hx with hx | hx
  · exact hawake x hx
  · rwa [List.mem_singleton.1 hx]

section

variable [ToUppercase]

theorem KnownAt.concat {peerId : DeviceId} {tr : List Entry} {addr : SocketAddr}
    (h : KnownAt peerId tr addr) {e : Entry} (he : Awake e) : KnownAt peerId (tr ++ [e]) addr := by
  obtain ⟨before, look, after, advert, rfl, htrust, hlook, hpeer, haddr, hawake⟩ := h
  refine ⟨before, look, after ++ [e], advert, by simp, htrust, hlook, hpeer, haddr, fun x hx => ?_⟩
  rw [← List.cons_append] at hx
  rcases List.mem_append.1 hx with hx | hx
  · exact hawake x hx
  · rwa [List.mem_singleton.1 hx]

/-- What is known of the peer, by where the loop stands. -/
def Checked (c : RedialConfig) (tr : List Entry) (s : Redial) : Prop :=
  match s.phase with
  | .checking | .sleeping _ => True
  | .resolving => TrustedSince tr
  | .dialing _ addr rest => ∀ a ∈ addr :: rest, KnownAt c.peerId tr a
  | .ended (.reconnected peerId canControl) =>
    peerId = some c.peerId ∧ (canControl = false → c.acceptInbound = true)
  | .ended _ => True

/-- **The step of a checked redial**, and the addresses that it dials. -/
theorem Checked.step {tr : List Entry} (h : Checked c tr s) (event : RedialEvent) :
    Checked c (tr ++ [(machine c).entry s event]) (s.step c event).1 ∧
      ∀ addr, .dial addr ∈ (s.step c event).2 →
        KnownAt c.peerId (tr ++ [(machine c).entry s event]) addr := by
  have hgoes := goes_step (c := c) s event
  have hinput : ((machine c).entry s event).input = event := rfl
  have hpre : ((machine c).entry s event).pre = s := rfl
  generalize (machine c).entry s event = e at hinput hpre ⊢
  have hawake : (∀ wake, s.phase ≠ .sleeping wake) → Awake e := fun hs => by rwa [Awake, hpre]
  generalize s.step c event = result at hgoes
  -- Where the phase stays, what is known of it stays too.
  have hkeep : ∀ now, Checked c (tr ++ [e]) { s with now } := by
    intro now
    unfold Checked at h ⊢
    dsimp only
    split at h
    · trivial
    · trivial
    · next hphase => exact h.concat (hawake (by rw [hphase]; exact nofun))
    · next hphase => exact fun a ha => (h a ha).concat (hawake (by rw [hphase]; exact nofun))
    · exact h
    · trivial
  cases hgoes with
  | stays => exact ⟨hkeep s.now, fun addr hmem => absurd hmem (silent_nil addr)⟩
  | elapses millis =>
    exact ⟨hkeep (s.now + millis), fun addr hmem => absurd hmem (silent_nil addr)⟩
  | checks hphase htrust =>
    exact ⟨⟨tr, e, [], rfl, hinput.trans htrust, nofun⟩,
      fun addr hmem => absurd hmem (silent_nil addr)⟩
  | @stops result outputs hquiet hstopped =>
    refine ⟨?_, fun addr hmem => absurd hmem (hquiet addr)⟩
    cases result with
    | reconnected peerId canControl => exact absurd rfl (hstopped peerId canControl)
    | disconnected => trivial
    | shutdown => trivial
  | @begins advert addr rest hphase hlook hpeer haddrs =>
    rw [Checked, hphase] at h
    have hknown : ∀ a ∈ addr :: rest, KnownAt c.peerId (tr ++ [e]) a := by
      intro a ha
      refine ⟨tr, e, [], advert, rfl, h, hinput.trans hlook, hpeer, haddrs ▸ ha, ?_⟩
      rw [List.forall_mem_singleton]
      exact hawake (by rw [hphase]; exact nofun)
    refine ⟨hknown, fun a ha => ?_⟩
    cases List.mem_singleton.1 ha
    exact hknown addr (.head _)
  | @triesNext since addr addr' rest hphase =>
    rw [Checked, hphase] at h
    have hknown : ∀ a ∈ addr' :: rest, KnownAt c.peerId (tr ++ [e]) a := fun a ha =>
      (h a (.tail _ ha)).concat (hawake (by rw [hphase]; exact nofun))
    refine ⟨hknown, fun a ha => ?_⟩
    cases List.mem_singleton.1 ha
    exact hknown addr' (.head _)
  | givesUp hphase hquiet => exact ⟨trivial, fun addr hmem => absurd hmem (hquiet addr)⟩
  | dialed hphase => exact ⟨⟨rfl, nofun⟩, fun addr hmem => absurd hmem (silent_nil addr)⟩
  | accepted haccept =>
    exact ⟨⟨rfl, fun _ => haccept⟩, fun addr hmem => absurd hmem (silent_nil addr)⟩
  | wakes hphase hwake => exact ⟨trivial, fun addr hmem => absurd hmem (silent_nil addr)⟩

theorem checked_trace (c : RedialConfig) (now : ℕ) (events : List RedialEvent) :
    Checked c ((machine c).trace (start now) events) ((machine c).exec (start now) events) :=
  (machine c).induct (P := Checked c) (G := fun _ => True) (s := start now) trivial
    (fun _ _ event h _ => (h.step event).1) events fun _ _ => trivial

/-- **Only the trusted peer is dialed.** In every run of a redial, an address is dialed only when
the peer has been found trusted, and then the address been advertised by it, with no sleep in
between or since. A redial ends connected only with a connection of the peer itself: one that it has
dialed, or, where this is allowed, one that it has accepted and does not control. -/
theorem redial_checked (c : RedialConfig) (now : ℕ) (events : List RedialEvent) :
    (∀ before e after addr, (machine c).trace (start now) events = before ++ e :: after →
      .dial addr ∈ e.output → KnownAt c.peerId (before ++ [e]) addr) ∧
    ∀ peerId canControl,
      ((machine c).exec (start now) events).phase = .ended (.reconnected peerId canControl) →
      peerId = some c.peerId ∧ (canControl = false → c.acceptInbound = true) := by
  refine ⟨fun before e after addr htrace hdial => ?_, fun peerId canControl hend => ?_⟩
  · obtain ⟨js, event, ks, -, rfl, rfl⟩ := (machine c).trace_eq_append_cons htrace
    exact ((checked_trace c now js).step event).2 addr hdial
  · have hchecked := checked_trace c now events
    rwa [Checked, hend] at hchecked

end

end Redial

end Mouser
