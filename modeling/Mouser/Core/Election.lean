import Mathlib.Data.Multiset.Basic
import Mathlib.Data.Multiset.ZeroCons
import Mouser.Core.Device
import Mouser.Lib.FixedWidth
import Mouser.Lib.Machine

/-!
# The election of a coordinator

A coordinator holds a lease of a term, and a node follows the lease it knows of: a higher term
supersedes a lower one, and within a term the lower id supersedes the higher. The machine reads no
clock. The caller passes `now`, and times and durations are counted in nanoseconds of the node's own
monotonic clock.

`Leads` says what the lease that a node follows has to do with the leases it got. It does not speak
of their order, so nodes that got the same leases follow the same one (`leases_converge`).
-/

namespace Mouser

abbrev Duration := ℕ

/-- A point of a node's own clock. -/
abbrev Instant := ℕ

def Duration.fromMillis (ms : ℕ) : Duration := ms * 1000000

def defaultTtl : Duration := .fromMillis 6000

def maxTtl : Duration := .fromMillis 30000

/-- A coordinator lease, as carried on the wire. -/
structure Lease where
  holder : DeviceId
  term : UInt64
  ttl : Duration
deriving DecidableEq

/-- What the engine does after an event. -/
inductive ElectionEvent where
  | none
  | claim (candidate : DeviceId) (term : UInt64)
  | yield (sender : DeviceId) (term : UInt64)
  | renewLease (lease : Lease)
deriving DecidableEq

/-- The believed coordinator, with the local deadline of its lease. -/
structure Held where
  holder : DeviceId
  term : UInt64
  ttl : Duration
  deadline : Instant
deriving DecidableEq

structure Election where
  me : DeviceId
  held : Option Held
  /-- The highest term this device has issued or observed. -/
  seenTerm : UInt64
deriving DecidableEq

namespace Election

def new (me : DeviceId) : Election := { me, held := none, seenTerm := 0 }

def coordinator (e : Election) : Option DeviceId := e.held.map (·.holder)

def term (e : Election) : Option UInt64 := e.held.map (·.term)

def isCoordinator (e : Election) : Bool := e.coordinator = some e.me

def deadline (e : Election) : Option Instant := e.held.map (·.deadline)

/-- An advertised duration is cut at the cap, and zero stands for the default. -/
def clampTtl (ttl : Duration) : Duration := if ttl = 0 then defaultTtl else min ttl maxTtl

/-- A higher term wins, and within a term the lower id. -/
def supersedes (term : UInt64) (holder : DeviceId) (otherTerm : UInt64) (otherHolder : DeviceId) :
    Bool :=
  if term ≠ otherTerm then term > otherTerm else holder < otherHolder

/-- Apply a received `CoordinatorLease`. -/
def onLease (e : Election) (lease : Lease) (now : Instant) : Election × ElectionEvent :=
  let priorSeen := e.seenTerm
  let e := { e with seenTerm := max e.seenTerm lease.term }
  let ttl := clampTtl lease.ttl
  match e.held with
  | some current =>
    if current.holder = lease.holder ∧ lease.term ≥ current.term then
      let renewed : Held :=
        { holder := lease.holder, term := max lease.term current.term, ttl, deadline := now + ttl }
      ({ e with held := some renewed }, .none)
    else if supersedes lease.term lease.holder current.term current.holder then
      let wasMe := current.holder = e.me
      let relinquishedTerm := current.term
      let adopted : Held :=
        { holder := lease.holder, term := lease.term, ttl, deadline := now + ttl }
      let e := { e with held := some adopted }
      if wasMe then (e, .yield e.me relinquishedTerm) else (e, .none)
    else (e, .none)
  | none =>
    -- a lease below a term already seen is stale, and must not bring a coordinator back
    if lease.term < priorSeen then (e, .none)
    else
      let adopted : Held :=
        { holder := lease.holder, term := lease.term, ttl, deadline := now + ttl }
      ({ e with held := some adopted }, .none)

def currentLease (held : Held) : Lease :=
  { holder := held.holder, term := held.term, ttl := held.ttl }

/-- Apply a received `CoordinatorClaim`: a campaign is no lease, so the holder abdicates or defends
and nobody else is believed in because of it. -/
def onClaim (e : Election) (candidate : DeviceId) (term : UInt64) (_now : Instant) :
    Election × ElectionEvent :=
  let e := { e with seenTerm := max e.seenTerm term }
  match e.held with
  | none => (e, .none)
  | some current =>
    if current.holder ≠ e.me then (e, .none)
    else if supersedes term candidate current.term current.holder then
      ({ e with held := none }, .yield e.me current.term)
    else (e, .renewLease (currentLease current))

/-- Apply a received `CoordinatorYield`, which drops the lease of exactly that holder and term. -/
def onYield (e : Election) (sender : DeviceId) (term : UInt64) : Election × ElectionEvent :=
  let e := { e with seenTerm := max e.seenTerm term }
  match e.held with
  | some current =>
    if current.holder = sender ∧ current.term = term then ({ e with held := none }, .none)
    else (e, .none)
  | none => (e, .none)

/-- Advance time: an expired lease is dropped, and the holder renews a third of the ttl after the
last renewal. -/
def tick (e : Election) (now : Instant) : Election × ElectionEvent :=
  match e.held with
  | none => (e, .none)
  | some current =>
    if now ≥ current.deadline then ({ e with held := none }, .none)
    else if current.holder = e.me ∧ now ≥ current.deadline - current.ttl + current.ttl / 3 then
      let renewed := { current with deadline := now + current.ttl }
      ({ e with held := some renewed }, .renewLease (currentLease renewed))
    else (e, .none)

/-- Whether a campaign is legitimate: there is no valid coordinator, or it is this device, or its id
is higher. -/
def mayCampaign (e : Election) (now : Instant) : Bool :=
  match e.held with
  | none => true
  | some current => now ≥ current.deadline || current.holder = e.me || e.me < current.holder

/-- Start a campaign: take the lease provisionally at a new term. -/
def startClaim (e : Election) (now : Instant) : Election × ElectionEvent :=
  if !e.mayCampaign now then (e, .none)
  else
    let term := e.seenTerm.saturatingAdd 1
    let ttl := (e.held.map (·.ttl)).getD defaultTtl
    let held : Held := { holder := e.me, term, ttl, deadline := now + ttl }
    ({ e with seenTerm := term, held := some held }, .claim e.me term)

/-- A call on the machine. -/
inductive Call where
  | lease (lease : Lease) (now : Instant)
  | claim (candidate : DeviceId) (term : UInt64) (now : Instant)
  | yield (sender : DeviceId) (term : UInt64)
  | tick (now : Instant)
  | startClaim (now : Instant)

def call (e : Election) : Call → Election × ElectionEvent
  | .lease lease now => e.onLease lease now
  | .claim candidate term now => e.onClaim candidate term now
  | .yield sender term => e.onYield sender term
  | .tick now => e.tick now
  | .startClaim now => e.startClaim now

def machine : Machine Election Call ElectionEvent := ⟨call⟩

/-! ## The lease a node follows -/

/-- `(term, holder)` wins against `(other, otherHolder)`, or they are the same. -/
def AtLeast (term : UInt64) (holder : DeviceId) (other : UInt64) (otherHolder : DeviceId) : Prop :=
  other < term ∨ (other = term ∧ holder ≤ otherHolder)

theorem AtLeast.refl (term : UInt64) (holder : DeviceId) : AtLeast term holder term holder :=
  .inr ⟨rfl, le_rfl⟩

theorem AtLeast.trans {t₁ t₂ t₃ : UInt64} {h₁ h₂ h₃ : DeviceId} (h : AtLeast t₁ h₁ t₂ h₂)
    (h' : AtLeast t₂ h₂ t₃ h₃) : AtLeast t₁ h₁ t₃ h₃ := by
  rcases h with hlt | ⟨rfl, hle⟩
  · rcases h' with hlt' | ⟨rfl, -⟩
    · exact .inl (UInt64.lt_trans hlt' hlt)
    · exact .inl hlt
  · rcases h' with hlt' | ⟨rfl, hle'⟩
    · exact .inl hlt'
    · exact .inr ⟨rfl, hle.trans hle'⟩

theorem AtLeast.antisymm {t₁ t₂ : UInt64} {h₁ h₂ : DeviceId} (h : AtLeast t₁ h₁ t₂ h₂)
    (h' : AtLeast t₂ h₂ t₁ h₁) : t₁ = t₂ ∧ h₁ = h₂ := by
  rcases h with hlt | ⟨rfl, hle⟩
  · rcases h' with hlt' | ⟨rfl, -⟩
    · exact absurd (UInt64.lt_trans hlt hlt') (UInt64.lt_irrefl _)
    · exact absurd hlt (UInt64.lt_irrefl _)
  · rcases h' with hlt' | ⟨-, hle'⟩
    · exact absurd hlt' (UInt64.lt_irrefl _)
    · exact ⟨rfl, le_antisymm hle hle'⟩

/-- What supersedes is at least as good. -/
theorem atLeast_of_supersedes {t₁ t₂ : UInt64} {h₁ h₂ : DeviceId}
    (h : supersedes t₁ h₁ t₂ h₂ = true) : AtLeast t₁ h₁ t₂ h₂ := by
  unfold supersedes at h
  split at h
  · exact .inl (of_decide_eq_true h)
  · next heq => exact .inr ⟨(not_not.1 heq).symm, (of_decide_eq_true h).le⟩

/-- What does not supersede is no better. -/
theorem atLeast_of_not_supersedes {t₁ t₂ : UInt64} {h₁ h₂ : DeviceId}
    (h : ¬ supersedes t₁ h₁ t₂ h₂ = true) : AtLeast t₂ h₂ t₁ h₁ := by
  unfold supersedes at h
  split at h
  · next hne =>
    have hle : t₁ ≤ t₂ := UInt64.not_lt.1 fun hlt => h (decide_eq_true hlt)
    exact .inl (UInt64.lt_of_le_of_ne hle hne)
  · next heq => exact .inr ⟨not_not.1 heq, not_lt.1 fun hlt => h (decide_eq_true hlt)⟩

/-- `(term, holder)` is the best of the leases. -/
structure Leads (term : UInt64) (holder : DeviceId) (leases : List Lease) : Prop where
  lease : ∃ l ∈ leases, l.holder = holder ∧ l.term = term
  best : ∀ l ∈ leases, AtLeast term holder l.term l.holder

/-- One more lease, which wins or loses against the best so far. -/
theorem Leads.concat {term term' : UInt64} {holder holder' : DeviceId} {leases : List Lease}
    {l : Lease} (h : Leads term holder leases)
    (hnext : (holder' = l.holder ∧ term' = l.term ∧ AtLeast l.term l.holder term holder) ∨
      (holder' = holder ∧ term' = term ∧ AtLeast term holder l.term l.holder)) :
    Leads term' holder' (leases ++ [l]) := by
  rcases hnext with ⟨rfl, rfl, hwins⟩ | ⟨rfl, rfl, hloses⟩
  · refine ⟨⟨l, by simp, rfl, rfl⟩, ?_⟩
    intro l' hl'
    rcases List.mem_append.1 hl' with hl' | hl'
    · exact hwins.trans (h.best l' hl')
    · rw [List.mem_singleton.1 hl']
      exact .refl _ _
  · obtain ⟨l₀, hl₀, heq⟩ := h.lease
    refine ⟨⟨l₀, List.mem_append_left _ hl₀, heq⟩, ?_⟩
    intro l' hl'
    rcases List.mem_append.1 hl' with hl' | hl'
    · exact h.best l' hl'
    · rw [List.mem_singleton.1 hl']
      exact hloses

/-- A node that follows a lease goes on with the better one. -/
theorem onLease_of_held {e : Election} {current : Held} (h : e.held = some current) (lease : Lease)
    (now : Instant) : ∃ held, (e.onLease lease now).1.held = some held ∧
      ((held.holder = lease.holder ∧ held.term = lease.term ∧
          AtLeast lease.term lease.holder current.term current.holder) ∨
        (held.holder = current.holder ∧ held.term = current.term ∧
          AtLeast current.term current.holder lease.term lease.holder)) := by
  simp only [onLease, h]
  split
  -- a renewal, which keeps the greater term
  · next hsame =>
    obtain ⟨hholder, hle⟩ := hsame
    refine ⟨_, rfl, .inl ?_⟩
    refine ⟨rfl, UInt64.max_eq_left_of_le hle, ?_⟩
    rcases UInt64.lt_or_eq_of_le hle with hlt | heq
    · exact .inl hlt
    · exact .inr ⟨heq, hholder.ge⟩
  · split
    · next hwins =>
      have hleast := atLeast_of_supersedes hwins
      split <;> exact ⟨_, rfl, .inl ⟨rfl, rfl, hleast⟩⟩
    · next hloses => exact ⟨current, rfl, .inr ⟨rfl, rfl, atLeast_of_not_supersedes hloses⟩⟩

/-- A node without a coordinator follows a lease that is not stale. -/
theorem onLease_of_not_held {e : Election} (h : e.held = none) {lease : Lease}
    (hfresh : ¬ lease.term < e.seenTerm) (now : Instant) :
    (e.onLease lease now).1.held = some
      { holder := lease.holder
        term := lease.term
        ttl := clampTtl lease.ttl
        deadline := now + clampTtl lease.ttl } := by
  simp only [onLease, h]
  rw [if_neg hfresh]

/-- The calls that hand a node leases. -/
def deliveries (received : List (Lease × Instant)) : List Call :=
  received.map fun r => .lease r.1 r.2

/-- **A node follows the best lease it got.** -/
theorem leads_exec (me : DeviceId) (received : List (Lease × Instant)) (hne : received ≠ []) :
    ∃ held, (machine.exec (new me) (deliveries received)).held = some held ∧
      Leads held.term held.holder (received.map Prod.fst) := by
  induction received using List.reverseRecOn with
  | nil => exact absurd rfl hne
  | append_singleton received r ih =>
    rw [deliveries, List.map_append, List.map_singleton, Machine.exec_concat, List.map_append,
      List.map_singleton]
    cases received with
    | nil =>
      have hfresh : ¬ r.1.term < (new me).seenTerm := UInt64.not_lt.2 UInt64.zero_le
      refine ⟨_, onLease_of_not_held rfl hfresh r.2, ⟨⟨r.1, .head _, rfl, rfl⟩, ?_⟩⟩
      intro l hl
      rw [List.mem_singleton.1 hl]
      exact .refl _ _
    | cons r₀ received =>
      obtain ⟨current, hcurrent, hleads⟩ := ih (List.cons_ne_nil _ _)
      obtain ⟨held, hheld, hnext⟩ := onLease_of_held hcurrent r.1 r.2
      exact ⟨held, hheld, hleads.concat hnext⟩

/-- **Nodes that got the same leases agree.** Whatever the order, the repetitions and the times at
which new nodes get the leases, each follows the highest term and within it the lowest holder. -/
theorem leases_converge {ι : Type*} (me : ι → DeviceId) (leases : Multiset Lease) (hne : leases ≠ 0)
    (received : ι → List (Lease × Instant))
    (hsame : ∀ i l, l ∈ (received i).map Prod.fst ↔ l ∈ leases) :
    ∃ best ∈ leases,
      (∀ l ∈ leases, l.term < best.term ∨ (l.term = best.term ∧ best.holder ≤ l.holder)) ∧
      ∀ i, (machine.exec (new (me i)) (deliveries (received i))).coordinator = some best.holder ∧
        (machine.exec (new (me i)) (deliveries (received i))).term = some best.term := by
  -- what any one node makes of the leases names the best of them
  have hnode : ∀ (d : DeviceId) (rs : List (Lease × Instant)),
      (∀ l, l ∈ rs.map Prod.fst ↔ l ∈ leases) →
      ∃ held, (machine.exec (new d) (deliveries rs)).held = some held ∧
        Leads held.term held.holder (rs.map Prod.fst) := by
    intro d rs hrs
    refine leads_exec d rs ?_
    rintro rfl
    obtain ⟨l, hl⟩ := Multiset.exists_mem_of_ne_zero hne
    exact absurd ((hrs l).2 hl) List.not_mem_nil
  obtain ⟨held, -, hleads⟩ := hnode (.fill 0) (leases.toList.map fun l => (l, 0)) (by simp)
  obtain ⟨best, hbest, hholder, hterm⟩ := hleads.lease
  have hfirst : ∀ l, l ∈ (leases.toList.map fun l => (l, 0)).map Prod.fst ↔ l ∈ leases := by simp
  refine ⟨best, (hfirst best).1 hbest, ?_, ?_⟩
  · intro l hl
    rw [hterm, hholder]
    exact hleads.best l ((hfirst l).2 hl)
  · intro i
    obtain ⟨held', hheld', hleads'⟩ := hnode (me i) (received i) (hsame i)
    obtain ⟨l', hl', hholder', hterm'⟩ := hleads'.lease
    have h₁ := hleads.best l' ((hfirst l').2 ((hsame i l').1 hl'))
    have h₂ := hleads'.best best ((hsame i best).2 ((hfirst best).1 hbest))
    rw [hholder', hterm'] at h₁
    rw [hholder, hterm] at h₂
    obtain ⟨hsameTerm, hsameHolder⟩ := h₁.antisymm h₂
    rw [coordinator, term, hheld', hholder, hterm, hsameTerm, hsameHolder]
    exact ⟨rfl, rfl⟩

/-- Two nodes that get two leases of one term in both orders, one of them twice. -/
theorem leases_converge_bothOrders :
    let low : Lease := ⟨.fill 1, 5, 0⟩
    let high : Lease := ⟨.fill 2, 5, .fromMillis 100⟩
    (machine.exec (new (.fill 7)) (deliveries [(high, 10), (low, 20)])).coordinator =
      (machine.exec (new (.fill 8)) (deliveries [(low, 3), (high, 4), (low, 9)])).coordinator := by
  intro low high
  obtain ⟨best, -, -, hall⟩ := leases_converge (fun b : Bool => .fill (if b then 7 else 8))
    {low, high} (Multiset.cons_ne_zero)
    (fun b => if b then [(high, 10), (low, 20)] else [(low, 3), (high, 4), (low, 9)]) (by
      intro b l
      cases b <;> simp [or_comm])
  exact (hall true).1.trans (hall false).1.symm

end Election

end Mouser
