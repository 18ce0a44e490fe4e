import Mouser.Core.Terms
import Mouser.Lib.Lists

/-!
# Renewal of a lease

A coordinator renews its lease at the first tick that comes a third of the lease time or more after
it took or renewed it (`HoldsFrom.tick_early`, `HoldsFrom.tick_due`). If no two ticks are two thirds
of the lease time apart, the tick that renews comes before the deadline, so the lease is kept for as
long as the ticks go on (`renews_in_time`).
-/

namespace Mouser

namespace Election

variable {e : Election} {lease : Lease} {start now : Instant}

/-- The calls that advance time. -/
def ticks (times : List Instant) : List Call := times.map .tick

/-- The time at which the step renews the lease, if it does. -/
def renewal? (step : Machine.Entry Election Call ElectionEvent) : Option Instant :=
  match step.input, step.output with
  | .tick now, .renewLease _ => some now
  | _, _ => none

def renewals (steps : List (Machine.Entry Election Call ElectionEvent)) : List Instant :=
  steps.filterMap renewal?

/-- The times do not go back, and each is less than `gap` after the one before it. -/
def Paced (gap : Duration) (times : List Instant) : Prop :=
  times.IsChain fun a b => a ≤ b ∧ b < a + gap

instance (gap : Duration) (times : List Instant) : Decidable (Paced gap times) :=
  inferInstanceAs (Decidable (times.IsChain fun a b => a ≤ b ∧ b < a + gap))

/-- The node holds the lease, which it took or last renewed at `start`. -/
structure HoldsFrom (e : Election) (lease : Lease) (start : Instant) : Prop where
  holder : lease.holder = e.me
  held : e.held = some
    { holder := lease.holder, term := lease.term, ttl := lease.ttl, deadline := start + lease.ttl }

theorem HoldsFrom.isCoordinator (h : e.HoldsFrom lease start) : e.isCoordinator = true := by
  rw [Election.isCoordinator, coordinator, h.held, ← h.holder]
  exact decide_eq_true rfl

/-- A campaign takes the lease. -/
theorem holdsFrom_startClaim {candidate : DeviceId} {term : UInt64} {held : Held}
    (hclaim : (e.startClaim start).2 = .claim candidate term)
    (hheld : (e.startClaim start).1.held = some held) :
    (e.startClaim start).1.HoldsFrom ⟨candidate, term, held.ttl⟩ start := by
  cases hmay : e.mayCampaign start with
  | false =>
    rw [startClaim_of_not_mayCampaign hmay] at hclaim
    cases hclaim
  | true =>
    rw [startClaim_of_mayCampaign hmay] at hclaim hheld ⊢
    cases hclaim
    cases hheld
    exact ⟨rfl, rfl⟩

/-! ## One tick -/

/-- The point of renewal, as the code gets at it from the deadline. -/
theorem renewAt_eq (start ttl : ℕ) : start + ttl - ttl + ttl / 3 = start + ttl / 3 := by omega

/-- A tick before the point of renewal does nothing. -/
theorem HoldsFrom.tick_early (h : e.HoldsFrom lease start) (hnow : now < start + lease.ttl / 3) :
    e.tick now = (e, .none) := by
  have hdeadline : now < start + lease.ttl :=
    hnow.trans_le (Nat.add_le_add_left (Nat.div_le_self _ _) _)
  simp only [tick, h.held]
  rw [if_neg (Nat.not_le.2 hdeadline), renewAt_eq, if_neg]
  rintro ⟨-, hdue⟩
  exact Nat.not_le.2 hnow hdue

/-- A tick from there to the deadline renews the lease. -/
theorem HoldsFrom.tick_due (h : e.HoldsFrom lease start) (hdue : start + lease.ttl / 3 ≤ now)
    (hnow : now < start + lease.ttl) :
    (e.tick now).1.HoldsFrom lease now ∧ (e.tick now).2 = .renewLease lease := by
  simp only [tick, h.held]
  rw [if_neg (Nat.not_le.2 hnow), renewAt_eq, if_pos ⟨h.holder, hdue⟩]
  exact ⟨⟨h.holder, rfl⟩, rfl⟩

/-- The last time is before the point of renewal, or it is that of the last renewal. -/
def Recent (ttl start last : ℕ) : Prop := last < start + ttl / 3 ∨ last = start

/-- What comes less than two thirds of the lease time later comes before the deadline. -/
theorem Recent.lt_deadline {ttl start last now : ℕ} (h : Recent ttl start last)
    (hnow : now < last + (ttl - ttl / 3)) : now < start + ttl := by
  rcases h with hearly | rfl
  · omega
  · omega

theorem HoldsFrom.tick (h : e.HoldsFrom lease start) {last : Instant}
    (hrecent : Recent lease.ttl start last) (hnow : now < last + (lease.ttl - lease.ttl / 3)) :
    (now < start + lease.ttl / 3 ∧ e.tick now = (e, .none)) ∨
      (start + lease.ttl / 3 ≤ now ∧ now < start + lease.ttl ∧
        (e.tick now).1.HoldsFrom lease now ∧ (e.tick now).2 = .renewLease lease) := by
  have hdeadline := hrecent.lt_deadline hnow
  rcases Nat.lt_or_ge now (start + lease.ttl / 3) with hearly | hdue
  · exact .inl ⟨hearly, h.tick_early hearly⟩
  · exact .inr ⟨hdue, hdeadline, h.tick_due hdue hdeadline⟩

/-! ## A schedule of ticks -/

/-- What the ticks have left of a lease that was taken at `start`. -/
structure Renewing (e : Election) (lease : Lease) (start : Instant) (times : List Instant) :
    Prop where
  holds : (machine.exec e (ticks times)).HoldsFrom lease
    ((renewals (machine.trace e (ticks times))).getLastD start)
  recent : Recent lease.ttl ((renewals (machine.trace e (ticks times))).getLastD start)
    (times.getLastD start)
  spaced : (start :: renewals (machine.trace e (ticks times))).IsChain
    fun a b => a + lease.ttl / 3 ≤ b ∧ b < a + lease.ttl

theorem ticks_concat (times : List Instant) (now : Instant) :
    ticks (times ++ [now]) = ticks times ++ [.tick now] := by
  rw [ticks, List.map_append, List.map_singleton]
  rfl

theorem renewal?_of_none (h : (e.tick now).2 = .none) :
    renewal? (machine.entry e (.tick now)) = none := by
  simp [renewal?, machine, call, h]

theorem renewal?_of_renewLease (h : (e.tick now).2 = .renewLease lease) :
    renewal? (machine.entry e (.tick now)) = some now := by
  simp [renewal?, machine, call, h]

/-- One more tick adds the renewal that it makes. -/
theorem renewals_concat (e : Election) (times : List Instant) (now : Instant) :
    renewals (machine.trace e (ticks (times ++ [now]))) =
      renewals (machine.trace e (ticks times)) ++
        (renewal? (machine.entry (machine.exec e (ticks times)) (.tick now))).toList := by
  rw [ticks_concat, Machine.trace_concat, renewals, List.filterMap_append]
  cases hlast : renewal? (machine.entry (machine.exec e (ticks times)) (.tick now)) with
  | none => rw [List.filterMap_cons_none hlast]; rfl
  | some start => rw [List.filterMap_cons_some hlast]; rfl

theorem renewals_early {times : List Instant}
    (h : ((machine.exec e (ticks times)).tick now).2 = .none) :
    renewals (machine.trace e (ticks (times ++ [now]))) =
      renewals (machine.trace e (ticks times)) := by
  rw [renewals_concat, renewal?_of_none h]
  exact List.append_nil _

theorem renewals_due {times : List Instant}
    (h : ((machine.exec e (ticks times)).tick now).2 = .renewLease lease) :
    renewals (machine.trace e (ticks (times ++ [now]))) =
      renewals (machine.trace e (ticks times)) ++ [now] := by
  rw [renewals_concat, renewal?_of_renewLease h]
  rfl

theorem Renewing.concat {times : List Instant} (h : e.Renewing lease start times)
    (hnow : now < times.getLastD start + (lease.ttl - lease.ttl / 3)) :
    e.Renewing lease start (times ++ [now]) := by
  rcases h.holds.tick h.recent hnow with ⟨hearly, hquiet⟩ | ⟨hdue, hdeadline, hholds, hevent⟩
  · have hsame := renewals_early (congrArg Prod.snd hquiet)
    have hstate : machine.exec e (ticks (times ++ [now])) = machine.exec e (ticks times) := by
      rw [ticks_concat, Machine.exec_concat]
      exact congrArg Prod.fst hquiet
    refine ⟨?_, ?_, ?_⟩
    · rw [hstate, hsame]
      exact h.holds
    · rw [hsame, List.getLastD_concat]
      exact .inl hearly
    · rw [hsame]
      exact h.spaced
  · have hnew := renewals_due hevent
    refine ⟨?_, ?_, ?_⟩
    · rw [hnew, List.getLastD_concat, ticks_concat, Machine.exec_concat]
      exact hholds
    · rw [hnew, List.getLastD_concat, List.getLastD_concat]
      exact .inr rfl
    · rw [hnew, List.isChain_cons_concat]
      exact ⟨h.spaced, hdue, hdeadline⟩

/-- **A schedule of ticks** that are close enough keeps the lease. -/
theorem renewing_of_paced (h : e.HoldsFrom lease start) {times : List Instant}
    (hpaced : Paced (lease.ttl - lease.ttl / 3) (start :: times)) :
    e.Renewing lease start times := by
  induction times using List.reverseRecOn with
  | nil => exact ⟨h, .inr rfl, .singleton _⟩
  | append_singleton times now ih =>
    obtain ⟨hbefore, -, hnow⟩ := List.isChain_cons_concat.1 hpaced
    exact (ih hbefore).concat hnow

/-- **A live coordinator keeps its lease.** After a campaign that took the lease, and ticks at times
that do not go back and whose gaps are shorter than two thirds of the lease time, it is still the
coordinator; from the claim or a renewal to the next renewal it takes at least a third of the lease
time, and less than the lease time; and a tick a third or more after the last of these renews. -/
theorem renews_in_time (e : Election) (start : Instant) (candidate : DeviceId) (term : UInt64)
    (held : Held) (times : List Instant)
    (hclaim : (e.startClaim start).2 = .claim candidate term)
    (hheld : (e.startClaim start).1.held = some held)
    (hpaced : Paced (held.ttl - held.ttl / 3) (start :: times)) :
    let claimed := (e.startClaim start).1
    (∀ before after, times = before ++ after →
      (machine.exec claimed (ticks before)).isCoordinator = true) ∧
    (start :: renewals (machine.trace claimed (ticks times))).IsChain
      (fun a b => a + held.ttl / 3 ≤ b ∧ b < a + held.ttl) ∧
    ∀ before now after, times = before ++ now :: after →
      (renewals (machine.trace claimed (ticks before))).getLastD start + held.ttl / 3 ≤ now →
      ((machine.exec claimed (ticks before)).tick now).2 =
        .renewLease ⟨candidate, term, held.ttl⟩ := by
  intro claimed
  have hstart := holdsFrom_startClaim hclaim hheld
  have hinit : ∀ before after, times = before ++ after →
      claimed.Renewing ⟨candidate, term, held.ttl⟩ start before := by
    rintro before after rfl
    rw [Paced, ← List.cons_append] at hpaced
    exact renewing_of_paced hstart hpaced.left_of_append
  refine ⟨?_, ?_, ?_⟩
  · intro before after heq
    exact (hinit before after heq).holds.isCoordinator
  · exact (hinit times [] (List.append_nil times).symm).spaced
  · rintro before now after rfl hdue
    have hrenewing := hinit before (now :: after) rfl
    rw [List.append_cons, Paced, ← List.cons_append] at hpaced
    obtain ⟨-, -, hnow⟩ := List.isChain_cons_concat.1 hpaced.left_of_append
    rcases hrenewing.holds.tick hrenewing.recent hnow with ⟨hearly, -⟩ | ⟨-, -, -, hevent⟩
    · exact absurd hdue (Nat.not_le.2 hearly)
    · exact hevent

/-- A lease time of nine, and gaps of up to five. -/
theorem renews_in_time_nine :
    let held : Held := ⟨.fill 1, 1, 9, 9⟩
    let e : Election := ⟨.fill 1, some held, 0⟩
    let claimed := (e.startClaim 0).1
    (machine.exec claimed (ticks [2, 7, 9, 14])).isCoordinator = true ∧
      renewals (machine.trace claimed (ticks [2, 7, 9, 14])) = [7, 14] :=
  ⟨(renews_in_time ⟨.fill 1, some ⟨.fill 1, 1, 9, 9⟩, 0⟩ 0 (.fill 1) 1 ⟨.fill 1, 1, 9, 9⟩
    [2, 7, 9, 14] (by decide) (by decide) (by decide)).1 [2, 7, 9, 14] [] rfl, by decide⟩

end Election

end Mouser
