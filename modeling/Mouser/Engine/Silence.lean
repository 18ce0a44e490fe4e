import Mouser.Engine.Move
import Mouser.Engine.Turn

/-!
# A silent peer

The heartbeat counts two things: the ticks since the peer was last heard of (`misses`) and the ticks
that a grant has waited for its ack (`pendingAck`). Neither count is put back by a step that leaves
input with a silent peer, so such a peer keeps input for two ticks at most; and a grant is
answered, undone or taken back by the third, whatever heartbeats arrive.
-/

namespace Mouser

namespace EngineCore

/-- The step delivered an ack of the grant of epoch `e`. -/
def Answers (e : UInt64) (en : Machine.Entry EngineCore Call (List Action)) : Prop :=
  ∃ ack, en.input = .control (.ownershipAck (some ack)) ∧ ack.ownerEpoch = e

theorem Idles.isTick {s : EngineCore} {c : Call} (h : s.Idles c) : c.isTick = false := by
  by_contra hc
  refine h.1 ?_
  unfold Call.isTick at hc
  split at hc
  · rfl
  · exact absurd rfl hc

theorem isTick_of_isAlive {c : Call} (h : c.isAlive = true) : c.isTick = false := by
  unfold Call.isAlive at h
  split at h <;> first | rfl | cases h

/-! ## Heartbeats missed -/

section misses

variable {s : EngineCore} {c : Call}

/-- A step that neither hears of the peer nor takes input back counts every tick. -/
theorem misses_call (hrole : s.role = .source) (hstays : (s.call c).1.isOwner = false)
    (halive : c.isAlive = false) (haccepts : ¬ Accepts (machine.entry s c)) :
    (c.isTick = false ∧ (s.call c).1.misses = s.misses) ∨
      (c.isTick = true ∧ (s.call c).1.misses = s.misses.saturatingAdd 1 ∧
        s.misses.saturatingAdd 1 < heartbeatMissLimit) := by
  have hturn := s.call_turn c
  have hme := (s.call_device c).me
  generalize (s.call c).1 = s' at hturn hme hstays ⊢
  cases hturn with
  | kept hc hl => exact .inl ⟨hc.isTick, congrArg Latches.misses hl⟩
  | alive hc =>
    rw [hc] at halive
    cases halive
  | ticked _ hm hl =>
    have haway : s.isOwner = false :=
      (isOwner_of_owner (congrArg Latches.owner hl) hme).symm.trans hstays
    exact .inr ⟨rfl, congrArg Latches.misses hl, hm hrole haway⟩
  | reclaimed _ _ _ hl =>
    rw [isOwner_of_me (congrArg Latches.owner hl) hme] at hstays
    cases hstays
  | adopted hto hauth had => exact absurd (accepts_of_adopts hto hauth had) haccepts
  | settled _ _ hl | handed _ hl | rearmed _ _ _ hl | crossed _ _ _ hl | moved _ _ _ _ _ _ hl =>
    exact .inl ⟨rfl, congrArg Latches.misses hl⟩

/-- A silent peer has input for two ticks at most. -/
theorem ticks_of_silent (hrole : s.role = .source) (calls : List Call)
    (hsilent : ∀ en ∈ machine.trace s calls,
      en.post.isOwner = false ∧ en.input.isAlive = false ∧ ¬ Accepts en) :
    ticks (machine.trace s calls) < 3 := by
  have hlimit : heartbeatMissLimit.toNat = 3 := rfl
  have hone : (1 : UInt32).toNat = 1 := rfl
  have hcount := machine.induct
    (P := fun tr t => t.role = .source ∧ ticks tr ≤ t.misses.toNat ∧
      (0 < ticks tr → t.misses.toNat < 3))
    (G := fun en => en.post.isOwner = false ∧ en.input.isAlive = false ∧ ¬ Accepts en)
    ⟨hrole, Nat.zero_le _, fun h => absurd h (lt_irrefl 0)⟩
    (fun tr t i ht hi => by
      refine ⟨(t.call_device i).role.trans ht.1, ?_⟩
      rw [ticks_concat]
      rcases misses_call ht.1 hi.1 hi.2.1 hi.2.2 with ⟨htick, hm⟩ | ⟨htick, hm, hlt⟩
      · rw [htick, show (machine.step t i).1.misses = _ from hm]
        exact ht.2
      · have hsum := UInt32.toNat_saturatingAdd t.misses 1
        rw [UInt32.lt_iff_toNat_lt, hlimit] at hlt
        rw [htick, show (machine.step t i).1.misses = _ from hm]
        have hle := ht.2.1
        simp only [Bool.toNat_true]
        omega)
    calls hsilent
  omega

end misses

/-! ## The grant that waits -/

/-- Input is away, and the grant of epoch `e` waits for its ack for `n` more ticks. -/
structure Awaits (e : UInt64) (n : ℕ) (s : EngineCore) : Prop where
  away : s.isOwner = false
  pending : ∃ left, s.pendingAck = some ⟨e, left⟩ ∧ left.toNat = n

section awaits

variable {s : EngineCore} {c : Call} {e : UInt64} {n : ℕ}

theorem awaits_of_crosses (hrole : s.role = .source) (hpeer : s.peer ≠ s.me)
    (hcross : s.Crosses c) : Awaits (s.epoch.saturatingAdd 1) 2 (s.call c).1 :=
  ⟨not_isOwner_of_crosses hrole hpeer hcross, ownershipAckTicks,
    congrArg Latches.pendingAck (latches_of_crosses hrole hcross), rfl⟩

/-- A step that does not end the wait counts every tick. -/
theorem Awaits.call (h : Awaits e n s) (hanswers : ¬ Answers e (machine.entry s c))
    (haccepts : ¬ Accepts (machine.entry s c)) (hreclaims : ¬ Reclaims (machine.entry s c)) :
    ∃ m, n = m + c.isTick.toNat ∧ Awaits e m (s.call c).1 := by
  have hback : ¬ (s.call c).1.isOwner = true := fun hnow =>
    (accepts_or_reclaims h.away hnow).elim haccepts hreclaims
  have hturn := s.call_turn c
  have hme := (s.call_device c).me
  have haway := h.away
  obtain ⟨left, hp, hn⟩ := h.pending
  generalize (s.call c).1 = s' at hturn hme hback ⊢
  have haway' := Bool.eq_false_iff.2 hback
  cases hturn with
  | kept hc hl =>
    exact ⟨n, by simp [hc.isTick], haway', left,
      (congrArg Latches.pendingAck hl).trans hp, hn⟩
  | alive hc hl =>
    exact ⟨n, by simp [isTick_of_isAlive hc], haway', left,
      (congrArg Latches.pendingAck hl).trans hp, hn⟩
  | moved _ _ _ _ _ _ hl =>
    exact ⟨n, rfl, haway', left, (congrArg Latches.pendingAck hl).trans hp, hn⟩
  | settled hq he =>
    rw [hp] at hq
    cases hq
    exact absurd ⟨_, rfl, he⟩ hanswers
  | ticked hlate _ hl =>
    have hleft : left ≠ 0 := hlate _ hp
    have hpos : 0 < left.toNat := Nat.pos_of_ne_zero fun h0 => hleft (UInt8.toNat_inj.1 h0)
    refine ⟨n - 1, by simp only [Call.isTick, Bool.toNat_true]; omega, haway',
      left.saturatingSub 1, ?_, ?_⟩
    · have hpending : s'.pendingAck = s.pendingAck.map PendingAck.tick :=
        congrArg Latches.pendingAck hl
      rw [hpending, hp]
      rfl
    · rw [UInt8.toNat_saturatingSub, hn]
      rfl
  | reclaimed _ _ _ hl => exact absurd (isOwner_of_me (congrArg Latches.owner hl) hme) hback
  | adopted hto hauth had => exact absurd (accepts_of_adopts hto hauth had) haccepts
  | handed hown | rearmed hown | crossed _ hown =>
    rw [hown] at haway
    cases haway

/-- A grant waits for two ticks at most. -/
theorem ticks_of_unanswered (hrole : s.role = .source) (hpeer : s.peer ≠ s.me)
    (hcross : s.Crosses c) (calls : List Call)
    (hwaits : ∀ en ∈ machine.trace (s.call c).1 calls,
      ¬ Answers (s.epoch.saturatingAdd 1) en ∧ ¬ Accepts en ∧ ¬ Reclaims en) :
    ticks (machine.trace (s.call c).1 calls) < 3 := by
  obtain ⟨m, hm, -⟩ := machine.induct
    (P := fun tr t => ∃ m, 2 = m + ticks tr ∧ Awaits (s.epoch.saturatingAdd 1) m t)
    (G := fun en => ¬ Answers (s.epoch.saturatingAdd 1) en ∧ ¬ Accepts en ∧ ¬ Reclaims en)
    ⟨2, rfl, awaits_of_crosses hrole hpeer hcross⟩
    (fun tr t i ⟨m, hm, hawaits⟩ hi => by
      obtain ⟨m', hm', hawaits'⟩ := hawaits.call hi.1 hi.2.1 hi.2.2
      exact ⟨m', by rw [ticks_concat]; omega, hawaits'⟩)
    calls hwaits
  omega

end awaits

/-- **The silence of the peer is bounded.** In every run of a source: a part of the run after every
step of which input is away, and in which the peer is not heard of, has fewer than three ticks; and
so has, after a crossing to another device, a part in which the grant is not acked, no claim is
accepted and nothing is taken back. -/
theorem silence_bounded (s : EngineCore) (hrole : s.role = .source) :
    (∀ calls, (∀ en ∈ machine.trace s calls,
        en.post.isOwner = false ∧ en.input.isAlive = false ∧ ¬ Accepts en) →
      ticks (machine.trace s calls) < 3) ∧
    (s.peer ≠ s.me → ∀ c, s.Crosses c → ∀ calls,
      (∀ en ∈ machine.trace (s.call c).1 calls,
        ¬ Answers (s.epoch.saturatingAdd 1) en ∧ ¬ Accepts en ∧ ¬ Reclaims en) →
      ticks (machine.trace (s.call c).1 calls) < 3) :=
  ⟨fun calls => ticks_of_silent hrole calls,
    fun hpeer _ hcross calls => ticks_of_unanswered hrole hpeer hcross calls⟩

theorem reclaims_iff (en : Machine.Entry EngineCore Call (List Action)) :
    Reclaims en ↔ ∃ t ∈ transfers (frames en.output), t.reason = .localReclaim := by
  simp only [Reclaims, mem_transfers, mem_frames]

/-- A step without an ack or a claim answers nothing. -/
theorem not_answers_of_none {e : UInt64} {en : Machine.Entry EngineCore Call (List Action)}
    (hack : en.input.ack? = none) (hclaim : en.input.transfer? = none) :
    ¬ Answers e en ∧ ¬ Accepts en := by
  refine ⟨?_, ?_⟩
  · rintro ⟨ack, ha, -⟩
    rw [ha] at hack
    cases hack
  · rintro ⟨t, ht, -⟩
    rw [ht] at hclaim
    cases hclaim

/-- A crossing, and a silent peer. -/
theorem silence_bounded_crossed :
    let s := newSource (.fill 1) (.fill 2) (.sideBySide 100 100 100 100)
    let c : Call := .runtime (.localInput (.cursorMoved 0 98 50 5 0))
    let silent : List Call := [.runtime .tick, .runtime (.localInput (.scroll 0 1)), .runtime .tick]
    let alive : List Call := [.runtime .tick, .control (.heartbeat (some ⟨1⟩)), .runtime .tick]
    ticks (machine.trace (s.call c).1 silent) < 3 ∧
      ticks (machine.trace (s.call c).1 alive) < 3 := by
  intro s c silent alive
  refine ⟨(silence_bounded (s.call c).1 rfl).1 silent ?_, (silence_bounded s rfl).2 (by decide) c
    ⟨by decide, by decide, by decide, by decide⟩ alive ?_⟩
  · intro en hen
    have hstays : ∀ x ∈ machine.trace (s.call c).1 silent,
        x.post.isOwner = false ∧ x.input.isAlive = false ∧
          x.input.ack? = none ∧ x.input.transfer? = none := by decide
    obtain ⟨hpost, halive, hack, hclaim⟩ := hstays en hen
    exact ⟨hpost, halive, (not_answers_of_none (e := 0) hack hclaim).2⟩
  · intro en hen
    have hwaits : ∀ x ∈ machine.trace (s.call c).1 alive,
        x.input.ack? = none ∧ x.input.transfer? = none ∧
          ¬ ∃ t ∈ transfers (frames x.output), t.reason = .localReclaim := by decide
    obtain ⟨hack, hclaim, hreclaims⟩ := hwaits en hen
    obtain ⟨hanswers, haccepts⟩ := not_answers_of_none hack hclaim
    exact ⟨hanswers, haccepts, fun h => hreclaims ((reclaims_iff en).1 h)⟩

/-- A source that is its own peer crosses again while it waits, and the wait starts anew. -/
theorem waits_for_itself :
    let s := newSource (.fill 1) (.fill 1) (.sideBySide 100 100 100 100)
    let c : Call := .runtime (.localInput (.cursorMoved 0 98 50 5 0))
    s.Crosses c ∧ ¬ ∀ calls,
      (∀ en ∈ machine.trace (s.call c).1 calls,
        ¬ Answers (s.epoch.saturatingAdd 1) en ∧ ¬ Accepts en ∧ ¬ Reclaims en) →
      ticks (machine.trace (s.call c).1 calls) < 3 := by
  intro s c
  refine ⟨⟨by decide, by decide, by decide, by decide⟩, fun h => ?_⟩
  have hcalls := h [.runtime .tick, c, .runtime .tick, .runtime .tick]
  have hwaits : ∀ x ∈ machine.trace (s.call c).1
        [.runtime .tick, c, .runtime .tick, .runtime .tick],
      x.input.ack? = none ∧ x.input.transfer? = none ∧
        ¬ ∃ t ∈ transfers (frames x.output), t.reason = .localReclaim := by decide
  refine absurd (hcalls ?_) (by decide)
  intro en hen
  obtain ⟨hack, hclaim, hreclaims⟩ := hwaits en hen
  obtain ⟨hanswers, haccepts⟩ := not_answers_of_none hack hclaim
  exact ⟨hanswers, haccepts, fun h => hreclaims ((reclaims_iff en).1 h)⟩

end EngineCore

end Mouser
