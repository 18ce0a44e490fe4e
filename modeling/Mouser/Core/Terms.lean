import Mouser.Core.Election

/-!
# Terms

The term of the coordinator a node believes in is at most `seen_term`, and `seen_term` never goes
back. `Advances` says what a call does to both. A term once believed in is a bound for every later
one, also where the belief was dropped in between (`Passed`), so the terms a node follows are in
order (`term_monotone`).

Without a coordinator a lease is measured against the terms seen, with one against the lease held.
That is where the order of a yield and a lease shows (`yield_lease_order`). A campaign mints its
term with a saturating addition (`claim_outranks_iff`).
-/

namespace Mouser

namespace Election

variable {e e' : Election} {t : UInt64} {now : Instant}

/-! ## The terms seen -/

@[simp] theorem onLease_seenTerm (e : Election) (lease : Lease) (now : Instant) :
    (e.onLease lease now).1.seenTerm = max e.seenTerm lease.term := by
  unfold onLease
  dsimp only
  split
  · split
    · rfl
    · split
      · split <;> rfl
      · rfl
  · split <;> rfl

@[simp] theorem onClaim_seenTerm (e : Election) (candidate : DeviceId) (term : UInt64)
    (now : Instant) : (e.onClaim candidate term now).1.seenTerm = max e.seenTerm term := by
  unfold onClaim
  dsimp only
  split
  · rfl
  · split
    · rfl
    · split <;> rfl

@[simp] theorem onYield_seenTerm (e : Election) (sender : DeviceId) (term : UInt64) :
    (e.onYield sender term).1.seenTerm = max e.seenTerm term := by
  unfold onYield
  dsimp only
  split
  · split <;> rfl
  · rfl

theorem startClaim_of_not_mayCampaign (h : e.mayCampaign now = false) :
    e.startClaim now = (e, .none) := by
  rw [startClaim, h]
  rfl

theorem startClaim_of_mayCampaign (h : e.mayCampaign now = true) :
    e.startClaim now =
      ({ e with
          seenTerm := e.seenTerm.saturatingAdd 1
          held := some
            { holder := e.me
              term := e.seenTerm.saturatingAdd 1
              ttl := (e.held.map (·.ttl)).getD defaultTtl
              deadline := now + (e.held.map (·.ttl)).getD defaultTtl } },
        .claim e.me (e.seenTerm.saturatingAdd 1)) := by
  rw [startClaim, h]
  rfl

theorem AtLeast.term_le {t₁ t₂ : UInt64} {h₁ h₂ : DeviceId} (h : AtLeast t₁ h₁ t₂ h₂) :
    t₂ ≤ t₁ := by
  rcases h with hlt | ⟨rfl, -⟩
  · exact UInt64.le_of_lt hlt
  · exact UInt64.le_rfl

/-! ## What is followed after a call -/

/-- The term that is followed has been seen. -/
def TermSeen (e : Election) : Prop := ∀ h, e.held = some h → h.term ≤ e.seenTerm

/-- What a call does to the terms: what is followed after it was followed before, under no higher
term, or no term above it had been seen. -/
structure Advances (e e' : Election) : Prop where
  seen : e.seenTerm ≤ e'.seenTerm
  termSeen : e'.TermSeen
  held : ∀ h', e'.held = some h' →
    (∃ h, e.held = some h ∧ h.term ≤ h'.term) ∨ e.seenTerm ≤ h'.term

/-- The lease stays as it is, or is dropped. -/
theorem Advances.of_held (hseen : e.seenTerm ≤ e'.seenTerm) (h : e.TermSeen)
    (hheld : e'.held = e.held ∨ e'.held = none) : e.Advances e' := by
  have hbefore : ∀ h', e'.held = some h' → e.held = some h' := by
    intro h' hh'
    rcases hheld with heq | heq
    · exact heq ▸ hh'
    · rw [heq] at hh'
      cases hh'
  refine ⟨hseen, ?_, ?_⟩
  · intro h' hh'
    exact UInt64.le_trans (h h' (hbefore h' hh')) hseen
  · intro h' hh'
    exact .inl ⟨h', hbefore h' hh', UInt64.le_rfl⟩

theorem advances_onLease (h : e.TermSeen) (lease : Lease) (now : Instant) :
    e.Advances (e.onLease lease now).1 := by
  have hseen : e.seenTerm ≤ (e.onLease lease now).1.seenTerm := by
    rw [onLease_seenTerm]
    exact UInt64.le_max_left _ _
  cases hheld : e.held with
  | none =>
    by_cases hstale : lease.term < e.seenTerm
    · refine .of_held hseen h (.inr ?_)
      simp only [onLease, hheld]
      rw [if_pos hstale]
    · have hnew := onLease_of_not_held hheld hstale now
      refine ⟨hseen, ?_, ?_⟩
      · intro h' hh'
        rw [hnew] at hh'
        cases hh'
        rw [onLease_seenTerm]
        exact UInt64.le_max_right _ _
      · intro h' hh'
        rw [hnew] at hh'
        cases hh'
        exact .inr (UInt64.not_lt.1 hstale)
  | some current =>
    obtain ⟨held, hnew, hcases⟩ := onLease_of_held hheld lease now
    have hle : current.term ≤ held.term ∧ held.term ≤ max e.seenTerm lease.term := by
      rcases hcases with ⟨-, hterm, hleast⟩ | ⟨-, hterm, -⟩
      · rw [hterm]
        exact ⟨hleast.term_le, UInt64.le_max_right _ _⟩
      · rw [hterm]
        exact ⟨UInt64.le_rfl, UInt64.le_trans (h current hheld) (UInt64.le_max_left _ _)⟩
    refine ⟨hseen, ?_, ?_⟩
    · intro h' hh'
      rw [hnew] at hh'
      cases hh'
      rw [onLease_seenTerm]
      exact hle.2
    · intro h' hh'
      rw [hnew] at hh'
      cases hh'
      exact .inl ⟨current, hheld, hle.1⟩

/-- A claim installs nobody. -/
theorem onClaim_held (e : Election) (candidate : DeviceId) (term : UInt64) (now : Instant) :
    (e.onClaim candidate term now).1.held = e.held ∨
      (e.onClaim candidate term now).1.held = none := by
  unfold onClaim
  dsimp only
  split
  · exact .inl rfl
  · split
    · exact .inl rfl
    · split
      · exact .inr rfl
      · exact .inl rfl

theorem onYield_held (e : Election) (sender : DeviceId) (term : UInt64) :
    (e.onYield sender term).1.held = e.held ∨ (e.onYield sender term).1.held = none := by
  unfold onYield
  dsimp only
  split
  · split
    · exact .inr rfl
    · exact .inl rfl
  · exact .inl rfl

theorem advances_onClaim (h : e.TermSeen) (candidate : DeviceId) (term : UInt64) (now : Instant) :
    e.Advances (e.onClaim candidate term now).1 := by
  refine .of_held ?_ h (e.onClaim_held candidate term now)
  rw [onClaim_seenTerm]
  exact UInt64.le_max_left _ _

theorem advances_onYield (h : e.TermSeen) (sender : DeviceId) (term : UInt64) :
    e.Advances (e.onYield sender term).1 := by
  refine .of_held ?_ h (e.onYield_held sender term)
  rw [onYield_seenTerm]
  exact UInt64.le_max_left _ _

theorem advances_tick (h : e.TermSeen) (now : Instant) : e.Advances (e.tick now).1 := by
  unfold tick
  split
  · exact .of_held UInt64.le_rfl h (.inl rfl)
  · next current hheld =>
    split
    · exact .of_held UInt64.le_rfl h (.inr rfl)
    · split
      -- a renewal moves the deadline only
      · have hterm := h current hheld
        refine ⟨UInt64.le_rfl, ?_, ?_⟩
        · intro h' hh'
          cases hh'
          exact hterm
        · intro h' hh'
          cases hh'
          exact .inl ⟨current, hheld, UInt64.le_rfl⟩
      · exact .of_held UInt64.le_rfl h (.inl rfl)

theorem advances_startClaim (h : e.TermSeen) (now : Instant) :
    e.Advances (e.startClaim now).1 := by
  cases hmay : e.mayCampaign now with
  | false =>
    rw [startClaim_of_not_mayCampaign hmay]
    exact .of_held UInt64.le_rfl h (.inl rfl)
  | true =>
    rw [startClaim_of_mayCampaign hmay]
    refine ⟨UInt64.le_saturatingAdd _ _, ?_, ?_⟩
    · intro h' hh'
      cases hh'
      exact UInt64.le_rfl
    · intro h' hh'
      cases hh'
      exact .inr (UInt64.le_saturatingAdd _ _)

/-- **One call.** -/
theorem advances_call (h : e.TermSeen) (c : Call) : e.Advances (e.call c).1 := by
  cases c with
  | lease lease now => exact advances_onLease h lease now
  | claim candidate term now => exact advances_onClaim h candidate term now
  | yield sender term => exact advances_onYield h sender term
  | tick now => exact advances_tick h now
  | startClaim now => exact advances_startClaim h now

/-! ## Terms in order -/

/-- The node has believed in a coordinator of term `t`, or of a higher one. -/
structure Passed (e : Election) (t : UInt64) : Prop where
  seen : t ≤ e.seenTerm
  held : ∀ h, e.held = some h → t ≤ h.term

theorem TermSeen.passed (hseen : e.TermSeen) {h : Held} (hheld : e.held = some h) :
    e.Passed h.term := by
  refine ⟨hseen h hheld, ?_⟩
  intro h' hh'
  rw [hheld] at hh'
  cases hh'
  exact UInt64.le_rfl

theorem Passed.advances (hpassed : e.Passed t) (h : e.Advances e') : e'.Passed t := by
  refine ⟨UInt64.le_trans hpassed.seen h.seen, ?_⟩
  intro h' hh'
  rcases h.held h' hh' with ⟨h₀, hh₀, hle⟩ | hle
  · exact UInt64.le_trans (hpassed.held h₀ hh₀) hle
  · exact UInt64.le_trans hpassed.seen hle

/-- A lease below a term that was believed in changes nothing of what is followed. -/
theorem Passed.onLease_held (hpassed : e.Passed t) {lease : Lease} (hlt : lease.term < t)
    (now : Instant) : (e.onLease lease now).1.held = e.held := by
  cases hheld : e.held with
  | none =>
    have hstale : lease.term < e.seenTerm := UInt64.lt_of_lt_of_le hlt hpassed.seen
    simp only [onLease, hheld]
    rw [if_pos hstale]
  | some current =>
    have hbelow : lease.term < current.term :=
      UInt64.lt_of_lt_of_le hlt (hpassed.held current hheld)
    have hrenews : ¬ (current.holder = lease.holder ∧ lease.term ≥ current.term) := by
      rintro ⟨-, hge⟩
      exact UInt64.not_lt.2 hge hbelow
    have hwins : ¬ supersedes lease.term lease.holder current.term current.holder = true := by
      intro hwins
      exact UInt64.not_lt.2 (atLeast_of_supersedes hwins).term_le hbelow
    simp only [onLease, hheld]
    rw [if_neg hrenews, if_neg hwins]

theorem termSeen_new (me : DeviceId) : (new me).TermSeen := nofun

/-- The terms that are followed have been seen, all along a run. -/
theorem termSeen_exec (hseen : e.TermSeen) (calls : List Call) :
    (machine.exec e calls).TermSeen :=
  machine.inv_exec hseen (fun _ c h => (advances_call h c).termSeen) calls

theorem Passed.exec (hseen : e.TermSeen) (h : e.Passed t) (calls : List Call) :
    (machine.exec e calls).Passed t := by
  refine (machine.inv_exec (I := fun e => e.TermSeen ∧ e.Passed t) ⟨hseen, h⟩ ?_ calls).2
  rintro e c ⟨hseen, h⟩
  have hadvances := advances_call hseen c
  exact ⟨hadvances.termSeen, h.advances hadvances⟩

/-- **The coordinator's term never goes back**, whatever is called and through whatever gap without
a coordinator, and it has been seen. No lease is adopted later whose term is below one that was
believed in. -/
theorem term_monotone (me : DeviceId) (before after : List Call) :
    let e := machine.exec (new me) before
    let e' := machine.exec e after
    (∀ t, e.term = some t → t ≤ e.seenTerm) ∧
      (∀ t t', e.term = some t → e'.term = some t' → t ≤ t') ∧
      ∀ t lease now, e.term = some t → lease.term < t →
        (e'.onLease lease now).1.held = e'.held := by
  intro e e'
  have hseen : e.TermSeen := termSeen_exec (termSeen_new me) before
  have hpassed : ∀ t, e.term = some t → e.Passed t ∧ e'.Passed t := by
    intro t ht
    obtain ⟨h, hheld, rfl⟩ := Option.map_eq_some_iff.1 ht
    exact ⟨hseen.passed hheld, (hseen.passed hheld).exec hseen after⟩
  refine ⟨?_, ?_, ?_⟩
  · intro t ht
    exact (hpassed t ht).1.seen
  · intro t t' ht ht'
    obtain ⟨h', hheld', rfl⟩ := Option.map_eq_some_iff.1 ht'
    exact (hpassed t ht).2.held h' hheld'
  · intro t lease now ht hlt
    exact (hpassed t ht).2.onLease_held hlt now

/-! ## A yield and a better lease -/

/-- What a node that follows `current` makes of a lease that supersedes it. -/
theorem onLease_of_supersedes {current : Held} (h : e.held = some current) {lease : Lease}
    (hwins : supersedes lease.term lease.holder current.term current.holder = true)
    (now : Instant) : ∃ held, (e.onLease lease now).1.held = some held ∧
      held.holder = lease.holder ∧ held.term = lease.term := by
  obtain ⟨held, hheld, ⟨hholder, hterm, -⟩ | ⟨hholder, hterm, hleast⟩⟩ :=
    onLease_of_held h lease now
  · exact ⟨held, hheld, hholder, hterm⟩
  -- nothing wins and loses
  · obtain ⟨ht, hh⟩ := (atLeast_of_supersedes hwins).antisymm hleast
    exact ⟨held, hheld, hholder.trans hh.symm, hterm.trans ht.symm⟩

theorem onYield_of_held {current : Held} (h : e.held = some current) :
    (e.onYield current.holder current.term).1.held = none := by
  simp only [onYield, h, and_self, if_true]

theorem onYield_of_other {current : Held} (h : e.held = some current) {sender : DeviceId}
    {term : UInt64} (hne : ¬ (current.holder = sender ∧ current.term = term)) :
    (e.onYield sender term).1.held = some current := by
  simp only [onYield, h]
  rw [if_neg hne]

/-- A node that a superseding lease and its old coordinator's yield reach follows the lease, if the
lease is the first. -/
theorem onYield_onLease {current : Held} (h : e.held = some current) {lease : Lease}
    (hwins : supersedes lease.term lease.holder current.term current.holder = true)
    (now : Instant) :
    let e' := ((e.onLease lease now).1.onYield current.holder current.term).1
    e'.coordinator = some lease.holder ∧ e'.term = some lease.term := by
  intro e'
  obtain ⟨held, hheld, hholder, hterm⟩ := onLease_of_supersedes h hwins now
  have hother : ¬ (held.holder = current.holder ∧ held.term = current.term) := by
    rw [hholder, hterm]
    rintro ⟨hsameHolder, hsameTerm⟩
    rw [supersedes, if_neg (not_not.2 hsameTerm), hsameHolder] at hwins
    exact lt_irrefl _ (of_decide_eq_true hwins)
  have hkept : e'.held = some held := onYield_of_other hheld hother
  rw [coordinator, Election.term, hkept, ← hholder, ← hterm]
  exact ⟨rfl, rfl⟩

/-- If the yield is the first, the node follows the lease exactly when no higher term was seen. -/
theorem onLease_onYield {current : Held} (h : e.held = some current) (hseen : e.TermSeen)
    (lease : Lease) (now : Instant) :
    let e' := ((e.onYield current.holder current.term).1.onLease lease now).1
    if lease.term < e.seenTerm then e'.held = none
    else e'.coordinator = some lease.holder ∧ e'.term = some lease.term := by
  intro e'
  have hdropped := onYield_of_held h
  have hsame : (e.onYield current.holder current.term).1.seenTerm = e.seenTerm := by
    rw [onYield_seenTerm]
    exact UInt64.max_eq_left_of_le (hseen current h)
  split
  · next hstale =>
    rw [← hsame] at hstale
    simp only [e', onLease, hdropped]
    rw [if_pos hstale]
  · next hfresh =>
    rw [← hsame] at hfresh
    have hnew := onLease_of_not_held hdropped hfresh now
    rw [coordinator, Election.term, hnew]
    exact ⟨rfl, rfl⟩

/-- **A yield and a superseding lease** leave the same coordinator in either order exactly when the
lease is not stale, i.e. when no term above its own was seen. A stale one is followed where it comes
first, and leaves no coordinator where the yield does. -/
theorem yield_lease_order (me : DeviceId) (calls : List Call) (current : Held) (lease : Lease)
    (now now' : Instant) :
    let e := machine.exec (new me) calls
    let yieldFirst := ((e.onYield current.holder current.term).1.onLease lease now).1
    let leaseFirst := ((e.onLease lease now').1.onYield current.holder current.term).1
    e.held = some current →
    supersedes lease.term lease.holder current.term current.holder = true →
      (leaseFirst.coordinator = some lease.holder ∧ leaseFirst.term = some lease.term) ∧
      ((yieldFirst.coordinator = leaseFirst.coordinator ∧ yieldFirst.term = leaseFirst.term) ↔
        e.seenTerm ≤ lease.term) ∧
      (lease.term < e.seenTerm → yieldFirst.coordinator = none) := by
  intro e yieldFirst leaseFirst h hwins
  have hseen : e.TermSeen := termSeen_exec (termSeen_new me) calls
  have hlease : leaseFirst.coordinator = some lease.holder ∧ leaseFirst.term = some lease.term :=
    onYield_onLease h hwins now'
  have hyield := onLease_onYield h hseen lease now
  refine ⟨hlease, ?_, ?_⟩
  · rw [hlease.1, hlease.2]
    by_cases hstale : lease.term < e.seenTerm
    · rw [if_pos hstale] at hyield
      refine iff_of_false ?_ (UInt64.not_le.2 hstale)
      rintro ⟨hcoordinator, -⟩
      rw [coordinator, hyield] at hcoordinator
      cases hcoordinator
    · rw [if_neg hstale] at hyield
      exact iff_of_true hyield (UInt64.not_lt.1 hstale)
  · intro hstale
    rw [if_pos hstale] at hyield
    rw [coordinator, hyield]
    rfl

theorem yield_lease_order_renewed :
    let e := machine.exec (new (.fill 7)) [.lease ⟨.fill 5, 1, 0⟩ 0]
    ((e.onYield (.fill 5) 1).1.onLease ⟨.fill 6, 2, 0⟩ 2).1.coordinator =
      ((e.onLease ⟨.fill 6, 2, 0⟩ 3).1.onYield (.fill 5) 1).1.coordinator :=
  ((yield_lease_order (.fill 7) [.lease ⟨.fill 5, 1, 0⟩ 0] ⟨.fill 5, 1, defaultTtl, defaultTtl⟩
    ⟨.fill 6, 2, 0⟩ 2 3 (by decide) (by decide)).2.1.2 (by decide)).1

/-- A node that follows device 5 under term 1, and heard of a campaign under term 9. -/
def heardClaim : List Call := [.lease ⟨.fill 5, 1, 0⟩ 0, .claim (.fill 8) 9 1]

/-- A lease of term 2 takes it over only if it comes before the yield. -/
theorem heardClaim_order :
    let e := machine.exec (new (.fill 7)) heardClaim
    let lease : Lease := ⟨.fill 6, 2, 0⟩
    e.coordinator = some (.fill 5) ∧ e.term = some 1 ∧
      supersedes lease.term lease.holder 1 (.fill 5) = true ∧
      ((e.onLease lease 2).1.onYield (.fill 5) 1).1.coordinator = some (.fill 6) ∧
      ((e.onYield (.fill 5) 1).1.onLease lease 2).1.coordinator = none := by
  decide

/-! ## A campaign -/

/-- The term of a lease or a claim that a peer sent. -/
def heard? : Call → Option UInt64
  | .lease l _ => some l.term
  | .claim _ t _ => some t
  | .yield _ _ | .tick _ | .startClaim _ => none

/-- The term that the node claims. -/
def claimed? : ElectionEvent → Option UInt64
  | .claim _ t => some t
  | .none | .yield _ _ | .renewLease _ => none

/-- The terms of the leases and claims that were heard, and of the claims that were issued. -/
def history (steps : List (Machine.Entry Election Call ElectionEvent)) : List UInt64 :=
  steps.flatMap fun step => (heard? step.input).toList ++ (claimed? step.output).toList

theorem seenTerm_of_heard {c : Call} (h : heard? c = some t) : t ≤ (e.call c).1.seenTerm := by
  cases c with
  | lease lease now =>
    cases h
    rw [call, onLease_seenTerm]
    exact UInt64.le_max_right _ _
  | claim candidate term now =>
    cases h
    rw [call, onClaim_seenTerm]
    exact UInt64.le_max_right _ _
  | yield sender term => cases h
  | tick now => cases h
  | startClaim now => cases h

/-- Only a campaign claims. -/
theorem claimed_eq_some {c : Call} (h : claimed? (e.call c).2 = some t) :
    ∃ now, c = .startClaim now ∧ e.mayCampaign now = true ∧ t = e.seenTerm.saturatingAdd 1 := by
  cases c with
  | lease lease now =>
    simp only [call, onLease] at h
    split at h
    · split at h
      · cases h
      · split at h
        · split at h <;> cases h
        · cases h
    · split at h <;> cases h
  | claim candidate term now =>
    simp only [call, onClaim] at h
    split at h
    · cases h
    · split at h
      · cases h
      · split at h <;> cases h
  | yield sender term =>
    simp only [call, onYield] at h
    split at h
    · split at h <;> cases h
    · cases h
  | tick now =>
    simp only [call, tick] at h
    split at h
    · cases h
    · split at h
      · cases h
      · split at h <;> cases h
  | startClaim now =>
    cases hmay : e.mayCampaign now with
    | false =>
      rw [call, startClaim_of_not_mayCampaign hmay] at h
      cases h
    | true =>
      rw [call, startClaim_of_mayCampaign hmay] at h
      cases h
      exact ⟨now, rfl, hmay, rfl⟩

theorem seenTerm_of_claimed {c : Call} (h : claimed? (e.call c).2 = some t) :
    t ≤ (e.call c).1.seenTerm := by
  obtain ⟨now, rfl, hmay, rfl⟩ := claimed_eq_some h
  rw [call, startClaim_of_mayCampaign hmay]
  exact UInt64.le_rfl

/-- Every term of the history has been seen. -/
theorem history_le (me : DeviceId) (calls : List Call) :
    ∀ t ∈ history (machine.trace (new me) calls),
      t ≤ (machine.exec (new me) calls).seenTerm := by
  suffices h : (machine.exec (new me) calls).TermSeen ∧
      ∀ t ∈ history (machine.trace (new me) calls),
        t ≤ (machine.exec (new me) calls).seenTerm from h.2
  refine machine.induct
    (P := fun steps e => e.TermSeen ∧ ∀ t ∈ history steps, t ≤ e.seenTerm)
    (G := fun _ => True) ⟨termSeen_new me, by simp [history]⟩ ?_ calls fun _ _ => trivial
  rintro steps e c ⟨hseen, hle⟩ -
  have hadvances := advances_call hseen c
  refine ⟨hadvances.termSeen, ?_⟩
  intro t ht
  rw [history, List.flatMap_append, List.flatMap_singleton, List.mem_append, List.mem_append,
    Option.mem_toList, Option.mem_toList] at ht
  rcases ht with ht | ht | ht
  · exact UInt64.le_trans (hle t ht) hadvances.seen
  · exact seenTerm_of_heard ht
  · exact seenTerm_of_claimed ht

/-- **A claim outranks history** exactly where no lease or claim that was heard or issued had the
term `u64::MAX`: after any calls, a campaign that may be made then claims a term above all of
them. -/
theorem claim_outranks_iff (me : DeviceId) (calls : List Call) (now : Instant) :
    let e := machine.exec (new me) calls
    let past := history (machine.trace (new me) calls)
    (∀ candidate term, (e.startClaim now).2 = .claim candidate term → ∀ t ∈ past, t < term) ↔
      (e.mayCampaign now = true → .maxValue ∉ past) := by
  intro e past
  refine ⟨?_, ?_⟩
  · intro h hmay hmem
    have hlt := h _ _ (congrArg Prod.snd (startClaim_of_mayCampaign hmay)) _ hmem
    rw [UInt64.lt_iff_toNat_lt, UInt64.toNat_saturatingAdd, UInt64.toNat_maxValue] at hlt
    omega
  · intro h candidate term hclaim t ht
    have hclaimed : claimed? (e.call (.startClaim now)).2 = some term := by
      rw [call, hclaim]
      rfl
    obtain ⟨_, heq, hmay, rfl⟩ := claimed_eq_some hclaimed
    cases heq
    have hle := UInt64.le_iff_toNat_le.1 (history_le me calls t ht)
    have hne : t ≠ .maxValue := fun hmax => h hmay (hmax ▸ ht)
    have hmax := UInt64.lt_iff_toNat_lt.1 (UInt64.lt_maxValue_of_ne hne)
    have hone : (1 : UInt64).toNat = 1 := rfl
    rw [UInt64.toNat_maxValue] at hmax
    -- where `seen_term` is at the top, a claim stays there
    rw [UInt64.lt_iff_toNat_lt, UInt64.toNat_saturatingAdd, hone]
    change t.toNat ≤ e.seenTerm.toNat at hle
    omega

/-- A peer's campaign under the last term. -/
def lastTerm : List Call := [.claim (.fill 2) .maxValue 0]

/-- The node claims that term again. -/
theorem lastTerm_claimed :
    let e := machine.exec (new (.fill 1)) lastTerm
    (e.startClaim 1).2 = .claim (.fill 1) .maxValue ∧
      ¬ ∀ t ∈ history (machine.trace (new (.fill 1)) lastTerm), t < .maxValue := by
  refine ⟨by decide, ?_⟩
  intro hbelow
  have hmem : .maxValue ∈ history (machine.trace (new (.fill 1)) lastTerm) := by decide
  exact absurd (hbelow _ hmem) (by decide)

end Election

end Mouser
