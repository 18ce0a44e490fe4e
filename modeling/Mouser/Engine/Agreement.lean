import Mouser.Engine.Pair

/-!
# Agreement on the owner

With nothing in flight, the two cores hold the same owner and epoch: always, when no injection
fails (`handoff_agreement`), and otherwise as long as no refusal is lost (`views_agree`). A refusal
is lost when it answers a grant for whose answer its grantor does not wait: the grant that follows a
failed injection records no pending ack, the grant that follows a crossing does.
-/

namespace Mouser

namespace Pair

open EngineCore (Solo Link Move RolledBack)

/-! ## The history of a run -/

/-- In these steps the side sent the claim. -/
def Sent (steps : List (Machine.Entry Pair PairEvent (List Action))) (side : Role)
    (t : OwnershipTransfer) : Prop :=
  ∃ en ∈ steps, en.input.side = side ∧ .sendControl (.ownershipTransfer (some t)) ∈ en.output

/-- In these steps a claim of the side was answered with a refusal. -/
def Refused (steps : List (Machine.Entry Pair PairEvent (List Action))) (side : Role)
    (epoch : UInt64) : Prop :=
  ∃ en ∈ steps, en.input.side = side.other ∧ ∃ reason,
    .sendControl (.ownershipAck (some ⟨epoch, false, reason⟩)) ∈ en.output

/-- The event delivers the refusal of a grant for whose answer no one waits: the side it is
delivered to is not the owner, is at the epoch refused, and has no ack pending. -/
def LosesRefusal (p : Pair) (ev : PairEvent) : Prop :=
  ∃ c rest, p.callOf ev = some (c, rest) ∧ (p.engine ev.side).LosesRefusal c

instance (p : Pair) (ev : PairEvent) : Decidable (p.LosesRefusal ev) :=
  match h : p.callOf ev with
  | none => .isFalse fun ⟨c, rest, hc, _⟩ => by rw [h] at hc; cases hc
  | some (c, rest) =>
    decidable_of_iff ((p.engine ev.side).LosesRefusal c)
      ⟨fun h' => ⟨c, rest, h, h'⟩, fun ⟨_, _, hc, h'⟩ => by rw [h] at hc; cases hc; exact h'⟩

section history

variable {steps : List (Machine.Entry Pair PairEvent (List Action))}
  {en : Machine.Entry Pair PairEvent (List Action)} {side : Role}

theorem sent_concat {t : OwnershipTransfer} :
    Sent (steps ++ [en]) side t ↔ Sent steps side t ∨
      (en.input.side = side ∧ t ∈ transfers (frames en.output)) := by
  simp only [Sent, List.mem_append, List.mem_singleton, or_and_right, exists_or, exists_eq_left,
    mem_transfers, mem_frames]

theorem refused_concat {epoch : UInt64} :
    Refused (steps ++ [en]) side epoch ↔ Refused steps side epoch ∨
      (en.input.side = side.other ∧
        ∃ reason, ⟨epoch, false, reason⟩ ∈ answers (frames en.output)) := by
  simp only [Refused, List.mem_append, List.mem_singleton, or_and_right, exists_or,
    exists_eq_left, mem_answers, mem_frames]

end history

/-- What a run leaves behind: a side that sent a claim has moved, and every claim that was refused
is undone, or its refusal is in flight. -/
structure History (steps : List (Machine.Entry Pair PairEvent (List Action))) (p : Pair) :
    Prop where
  inv : Inv p
  sent : ∀ side t, Sent steps side t → (p.engine side).epoch ≠ 0
  refused : ∀ side epoch, Refused steps side epoch →
    RolledBack (p.engine side) epoch (answers (p.inbox side))

section event

variable {steps : List (Machine.Entry Pair PairEvent (List Action))} {p : Pair} {ev : PairEvent}
  {c : Call} {rest : List ControlFrame}

/-- The epoch of the acting side never goes down. -/
theorem Inv.epoch_le (h : Inv p) (hc : p.callOf ev = some (c, rest))
    (hlt : (p.engine ev.side).epoch < UInt64.maxValue) :
    (p.engine ev.side).epoch < ((p.engine ev.side).call c).1.epoch ∨
      (((p.engine ev.side).call c).1.epoch = (p.engine ev.side).epoch ∧
        ((p.engine ev.side).call c).1.owner = (p.engine ev.side).owner) :=
  (h.move ev c).epoch_le hlt fun _ _ ht hto had => (h.adopts hc ht hto had).1

/-- The epoch of a claim that was just sent is the one the sender is left at. -/
theorem Inv.epoch_of_sent (h : Inv p) {t : OwnershipTransfer}
    (ht : t ∈ transfers (frames ((p.engine ev.side).call c).2)) :
    t.ownerEpoch = ((p.engine ev.side).call c).1.epoch ∧
      ((p.engine ev.side).call c).1.epoch = (p.engine ev.side).epoch.saturatingAdd 1 := by
  have hm := h.move ev c
  generalize transfers (frames ((p.engine ev.side).call c).2) = new at hm ht
  generalize answers (frames ((p.engine ev.side).call c).2) = ans at hm
  cases hm with
  | keep | adopt | refuse => cases ht
  | mint hto hwho hepoch heq =>
    rw [List.mem_singleton.1 ht]
    exact ⟨heq, hepoch⟩

/-- **One event keeps the history.** -/
theorem History.step (h : History steps p) (ev : PairEvent)
    (hlt : (p.engine ev.side).epoch < UInt64.maxValue) (hk : ¬ p.LosesRefusal ev) :
    History (steps ++ [machine.entry p ev]) (p.step ev).1 := by
  cases hc : p.callOf ev with
  | none =>
    have hout : (machine.entry p ev).output = [] := congrArg Prod.snd (step_of_idle hc)
    rw [step_of_idle hc]
    refine ⟨h.inv, ?_, ?_⟩
    · intro side t ht
      rcases sent_concat.1 ht with ht | ⟨-, ht⟩
      · exact h.sent side t ht
      · rw [hout] at ht
        cases ht
    · intro side e he
      rcases refused_concat.1 he with he | ⟨-, reason, he⟩
      · exact h.refused side e he
      · rw [hout] at he
        cases he
  | some cr =>
    obtain ⟨c, rest⟩ := cr
    have hk' : ¬ (p.engine ev.side).LosesRefusal c := fun hl => hk ⟨c, rest, hc, hl⟩
    have hinv := h.inv.perform hc hlt hk'
    have hgrow := h.inv.epoch_le hc hlt
    have hout : (machine.entry p ev).output = ((p.engine ev.side).call c).2 :=
      congrArg Prod.snd (step_of_callOf hc)
    rw [step_of_callOf hc]
    refine ⟨hinv, forall_side ev.side ?_ ?_, forall_side ev.side ?_ ?_⟩
    · -- the acting side sent the claim before, or sends it now
      intro t ht
      rw [perform_engine]
      rcases sent_concat.1 ht with ht | ⟨-, ht⟩
      · rcases hgrow with hgrow | ⟨heq, -⟩
        · exact UInt64.ne_zero_of_lt hgrow
        · rw [heq]
          exact h.sent ev.side t ht
      · rw [hout] at ht
        rw [(h.inv.epoch_of_sent ht).2]
        exact UInt64.ne_zero_of_lt (UInt64.lt_saturatingAdd_one hlt)
    · intro t ht
      rw [perform_engine_other]
      rcases sent_concat.1 ht with ht | ⟨hside, -⟩
      · exact h.sent ev.side.other t ht
      · exact absurd hside.symm ev.side.other_ne
    · intro e he
      rw [perform_engine, perform_inbox]
      rcases refused_concat.1 he with he | ⟨hside, -⟩
      · have hback := h.refused ev.side e he
        rw [answers_inbox hc] at hback
        exact hback.move (h.inv.solo ev.side) (h.inv.move ev c)
          ((p.engine ev.side).call_device c) hk' hgrow
      · exact absurd hside.symm ev.side.other_ne
    · -- a refusal of the other side's claim joins its inbox
      intro e he
      rw [perform_engine_other, perform_inbox_other, answers_append]
      rcases refused_concat.1 he with he | ⟨-, reason, he⟩
      · obtain ⟨hle, hwhy⟩ := h.refused ev.side.other e he
        refine ⟨hle, hwhy.imp_left ?_⟩
        rintro ⟨a, ha, hae⟩
        exact ⟨a, List.mem_append_left _ ha, hae⟩
      · rw [hout] at he
        have hmem := List.mem_append_right (answers (p.inbox ev.side.other)) he
        refine ⟨?_, .inl ⟨_, hmem, rfl, rfl⟩⟩
        have hl := hinv.link ev.side.other
        rw [Role.other_other, perform_engine_other, perform_inbox_other, answers_append] at hl
        exact hl.le_epoch e (List.mem_append_left _ (List.mem_map_of_mem hmem))

theorem history_start {source target : DeviceId} (hne : source ≠ target) (layout : EdgeLayout) :
    History [] (start source target layout) where
  inv := inv_start hne layout
  sent := by simp [Sent]
  refused := by simp [Refused]

/-- With nothing in flight, and something sent, the two views agree. -/
theorem History.agree (h : History steps p) (hempty : ∀ side, p.inbox side = [])
    (hsent : ∃ side t, Sent steps side t) :
    (p.engine .source).owner = (p.engine .target).owner ∧
      (p.engine .source).epoch = (p.engine .target).epoch := by
  rcases h.inv.agree hempty with ⟨hs, ht⟩ | hagree
  · obtain ⟨side, t, hst⟩ := hsent
    have hne := h.sent side t hst
    cases side
    · exact absurd hs hne
    · exact absurd ht hne
  · exact hagree

end event

/-- **A refused grant is rolled back, unless its refusal is lost.** Take any run of a source and a
target with distinct ids, injection failures included, in which no refusal is lost and no epoch
saturates. When nothing is in flight after a claim was sent, the two sides hold the same owner and
epoch; no side holds on to a claim that was refused; and they do not each take the other for the
owner. -/
theorem views_agree (source target : DeviceId) (layout : EdgeLayout) (events : List PairEvent)
    (hne : source ≠ target)
    (hk : ∀ en ∈ machine.trace (start source target layout) events, ¬ en.pre.LosesRefusal en.input)
    (hlt : ∀ en ∈ machine.trace (start source target layout) events,
      (en.pre.engine en.input.side).epoch < UInt64.maxValue) :
    let p := machine.exec (start source target layout) events
    let steps := machine.trace (start source target layout) events
    (∀ side, p.inbox side = []) → (∃ side t, Sent steps side t) →
      ((p.engine .source).owner = (p.engine .target).owner ∧
        (p.engine .source).epoch = (p.engine .target).epoch) ∧
      (∀ side epoch, Refused steps side epoch →
        ¬ ((p.engine side).epoch = epoch ∧ (p.engine side).owner ≠ (p.engine side).me)) ∧
      ¬ ((p.engine .source).owner = (p.engine .target).me ∧
        (p.engine .target).owner = (p.engine .source).me) := by
  intro p steps hempty hsent
  have h : History steps p := machine.induct (P := History)
    (G := fun en => ¬ en.pre.LosesRefusal en.input ∧
      (en.pre.engine en.input.side).epoch < UInt64.maxValue)
    (history_start hne layout) (fun _ _ ev h hg => h.step ev hg.2 hg.1) events
    fun en hen => ⟨hk en hen, hlt en hen⟩
  have hagree := h.agree hempty hsent
  refine ⟨hagree, ?_, ?_⟩
  · intro side e he hholds
    obtain ⟨-, ⟨a, ha, -⟩ | hpast | hown⟩ := h.refused side e he
    · rw [hempty side] at ha
      cases ha
    · rw [hholds.1] at hpast
      exact UInt64.lt_irrefl _ hpast
    · exact hholds.2 hown
  · intro hboth
    exact (h.inv.joined .source).ne (hboth.2.symm.trans (hagree.1.symm.trans hboth.1))

/-- The cursor crosses out; the target accepts the grant, and the source gets the answer. -/
def crossing : List PairEvent :=
  [.call .source (.localInput (.cursorMoved 0 98 50 5 0)), .deliver .target, .deliver .source]

/-- After the crossing an injection fails on the target, and the source takes input back. -/
def givenBack : List PairEvent :=
  crossing ++ [.call .target .injectionFailed, .deliver .source, .deliver .target]

/-- In that run no refusal is lost, and the two sides agree at the end. -/
theorem givenBack_agrees :
    let p := machine.exec (start (.fill 1) (.fill 2) (.sideBySide 100 100 100 100)) givenBack
    (p.engine .source).owner = (p.engine .target).owner ∧
      (p.engine .source).epoch = (p.engine .target).epoch :=
  (views_agree (.fill 1) (.fill 2) (.sideBySide 100 100 100 100) givenBack (by decide)
    (by decide +kernel) (by decide +kernel) (fun side => by cases side <;> decide +kernel)
    ⟨.source, ⟨(DeviceId.fill 2).bytes, 1, 0, .edgeCross⟩, _, .head _, rfl, by decide +kernel⟩).1

/-- The same run on a source that does not permit input: it refuses the grant that gives input
back. -/
def refusedGiveBack : List PairEvent :=
  .call .source (.setInputAllowed false) :: givenBack

/-- At the end nothing is in flight, and each side takes the other for the owner. -/
theorem refusedGiveBack_disagrees :
    let p := machine.exec (start (.fill 1) (.fill 2) (.sideBySide 100 100 100 100)) refusedGiveBack
    let steps :=
      machine.trace (start (.fill 1) (.fill 2) (.sideBySide 100 100 100 100)) refusedGiveBack
    (∀ side, p.inbox side = []) ∧ (∃ side t, Sent steps side t) ∧
      (p.engine .source).owner = .fill 2 ∧ (p.engine .source).epoch = 1 ∧
      (p.engine .target).owner = .fill 1 ∧ (p.engine .target).epoch = 2 := by
  refine ⟨fun side => by cases side <;> decide +kernel,
    ⟨.source, ⟨(DeviceId.fill 2).bytes, 1, 0, .edgeCross⟩, _, .tail _ (.head _), rfl,
      by decide +kernel⟩, ?_⟩
  decide +kernel

/-! ## Without injection failures -/

/-- What holds along a run without injection failures: only the source sends claims and only the
target answers, so a grant whose answer has come in has no other answer in flight. -/
structure OneWay (steps : List (Machine.Entry Pair PairEvent (List Action))) (p : Pair) :
    Prop where
  noClaim : transfers (p.inbox .source) = []
  noAnswer : answers (p.inbox .target) = []
  answered : (p.engine .source).owner ≠ (p.engine .source).me →
    (p.engine .source).pendingEpoch = none →
      (p.engine .source).epoch ∉
        EngineCore.epochs (transfers (p.inbox .target)) (answers (p.inbox .source))
  epoch_le : (p.engine .target).epoch ≤ (p.engine .source).epoch
  inFlight : ∀ t ∈ transfers (p.inbox .target), Sent steps .source t
  granted : ∀ e, (p.engine .target).inputAuth.acceptedEpoch = some e →
    ∃ t, Sent steps .source t ∧ toId t.recipient = some (p.engine .target).me ∧ t.ownerEpoch = e

section oneWay

variable {steps : List (Machine.Entry Pair PairEvent (List Action))} {p : Pair} {ev : PairEvent}
  {c : Call} {rest : List ControlFrame}

/-- No refusal is lost: a refusal that is delivered answers a claim that still waits. -/
theorem OneWay.not_losesRefusal (h : OneWay steps p) : ¬ p.LosesRefusal ev := by
  rintro ⟨c, rest, hc, a, ha, -, hae, hne, hp⟩
  have hmem : a ∈ answers (p.inbox ev.side) := by
    rw [answers_inbox hc]
    simp [ha]
  cases hside : ev.side with
  | target =>
    rw [hside, h.noAnswer] at hmem
    cases hmem
  | source =>
    rw [hside] at hmem hae hne hp
    refine h.answered hne (EngineCore.pendingEpoch_eq_none.2 hp) ?_
    rw [← hae]
    exact List.mem_append_left _ (List.mem_map_of_mem hmem)

theorem Sent.concat {side : Role} {t : OwnershipTransfer}
    {en : Machine.Entry Pair PairEvent (List Action)} (h : Sent steps side t) :
    Sent (steps ++ [en]) side t :=
  sent_concat.2 (.inl h)

/-- The source acts. -/
theorem OneWay.source (h : OneWay steps p) (hinv : Inv p) (hside : ev.side = .source)
    (hc : p.callOf ev = some (c, rest)) (hf : c ≠ .runtime .injectionFailed)
    (hlt : (p.engine .source).epoch < UInt64.maxValue) :
    OneWay (steps ++ [machine.entry p ev]) (p.perform .source c rest).1 := by
  have hm := hinv.move ev c
  have hgrow := hinv.epoch_le hc (hside ▸ hlt)
  have hlink := hinv.link_out hc
  have hclaims := transfers_inbox hc
  have hacks := answers_inbox hc
  have hout : (machine.entry p ev).output = ((p.engine ev.side).call c).2 :=
    congrArg Prod.snd (step_of_callOf hc)
  have hd := (p.engine ev.side).call_device c
  rw [hside] at hm hgrow hlink hclaims hacks hout hd
  have hE : (p.perform .source c rest).1.engine .target = p.engine .target :=
    perform_engine_other p .source c rest
  have hI : (p.perform .source c rest).1.inbox .target =
      p.inbox .target ++ frames ((p.engine .source).call c).2 :=
    perform_inbox_other p .source c rest
  rw [h.noClaim] at hclaims
  obtain ⟨htr, hrest⟩ := List.append_eq_nil_iff.1 hclaims.symm
  have hnone : c.transfer? = none := Option.toList_eq_nil_iff.1 htr
  have hans := hm.answers_eq_nil hnone
  refine ⟨?_, ?_, ?_, ?_, ?_, ?_⟩
  · rw [perform_inbox, hrest]
  · rw [hI, answers_append, hans, h.noAnswer]
    rfl
  · rw [hI, transfers_append, perform_inbox, perform_engine]
    intro hne hp
    generalize transfers (frames ((p.engine .source).call c).2) = new at hm
    generalize answers (frames ((p.engine .source).call c).2) = ans at hm
    have hsub := EngineCore.epochs_sublist (transfers (p.inbox .target)) c.ack?.toList
      (answers rest)
    cases hm with
    | keep howner hepoch _ hpend =>
      rw [List.append_nil, hepoch]
      rcases hpend with ⟨hsame, -⟩ | ⟨-, a, ha, -, hap⟩
      · rw [howner, hd.me] at hne
        have hnot := h.answered hne (hsame.symm.trans hp)
        rw [hacks] at hnot
        exact fun hmem => hnot (hsub.subset hmem)
      · -- the answer just delivered was the only one at this epoch
        have hae : a.ownerEpoch = (p.engine .source).epoch := ((hinv.solo .source).pending _ hap).1
        have hsorted := hlink.sorted
        rw [ha, Option.toList_some, List.singleton_append, EngineCore.epochs, List.map_cons,
          List.cons_append, List.pairwise_cons, hae] at hsorted
        exact fun hmem => UInt64.lt_irrefl _ (hsorted.1 _ hmem)
    | @mint t owner hto hwho hepoch ht howner =>
      exfalso
      generalize t.reason = reason at hwho
      cases hwho with
      | edgeCross _ _ hp' =>
        rw [hp] at hp'
        cases hp'
      | uiSelect hf' => exact hf hf'
      | localReclaim => exact hne (howner.trans hd.me.symm)
    | adopt ht | refuse ht =>
      rw [hnone] at ht
      cases ht
  · rw [hE, perform_engine]
    rcases hgrow with hgrow | ⟨heq, -⟩
    · exact UInt64.le_trans h.epoch_le (UInt64.le_of_lt hgrow)
    · rw [heq]
      exact h.epoch_le
  · intro t ht
    rw [hI, transfers_append] at ht
    rcases List.mem_append.1 ht with ht | ht
    · exact (h.inFlight t ht).concat
    · exact sent_concat.2 (.inr ⟨hside, by rw [hout]; exact ht⟩)
  · rw [hE]
    intro e he
    obtain ⟨t, ht, hte⟩ := h.granted e he
    exact ⟨t, ht.concat, hte⟩

/-- The target acts. -/
theorem OneWay.target (h : OneWay steps p) (hinv : Inv p) (hside : ev.side = .target)
    (hc : p.callOf ev = some (c, rest)) (hf : c ≠ .runtime .injectionFailed) :
    OneWay (steps ++ [machine.entry p ev]) (p.perform .target c rest).1 := by
  have hm := hinv.move ev c
  have hlink := hinv.link_in hc
  have hclaims := transfers_inbox hc
  have hacks := answers_inbox hc
  have hd := (p.engine ev.side).call_device c
  have heff := (p.engine ev.side).call_effect c
  rw [hside] at hm hlink hclaims hacks hd heff
  have hE : (p.perform .target c rest).1.engine .source = p.engine .source :=
    perform_engine_other p .target c rest
  have hI : (p.perform .target c rest).1.inbox .source =
      p.inbox .source ++ frames ((p.engine .target).call c).2 :=
    perform_inbox_other p .target c rest
  have hnew := hm.target_sends_nothing (hinv.role .target) hf
  rw [h.noAnswer] at hacks
  refine ⟨?_, ?_, ?_, ?_, ?_, ?_⟩
  · rw [hI, transfers_append, hnew, h.noClaim]
    rfl
  · rw [perform_inbox]
    exact (List.append_eq_nil_iff.1 hacks.symm).2
  · rw [hE, hI, answers_append, perform_inbox]
    intro hne hp hmem
    refine h.answered hne hp ?_
    rw [hclaims]
    exact hm.epochs_subset _ _ hmem
  · rw [hE, perform_engine]
    generalize transfers (frames ((p.engine .target).call c).2) = new at hm hnew
    generalize answers (frames ((p.engine .target).call c).2) = ans at hm
    cases hm with
    | keep _ hepoch =>
      rw [hepoch]
      exact h.epoch_le
    | mint => cases hnew
    | adopt ht _ _ _ hepoch =>
      rw [hepoch]
      exact hlink.claim_epoch_le (by simp [ht])
    | refuse _ _ _ hs =>
      rw [hs]
      exact h.epoch_le
  · intro t ht
    rw [perform_inbox] at ht
    exact (h.inFlight t (by rw [hclaims]; exact List.mem_append_right _ ht)).concat
  · rw [perform_engine]
    intro e he
    rw [hd.me]
    rcases heff.acceptedEpoch he with hold | ⟨t, ht, hto, hte⟩
    · obtain ⟨t, ht, hte⟩ := h.granted e hold
      exact ⟨t, ht.concat, hte⟩
    · exact ⟨t, (h.inFlight t (by rw [hclaims, ht]; simp)).concat, hto, hte⟩

/-- **One event keeps traffic one-way**, if it reports no failed injection. -/
theorem OneWay.step (h : OneWay steps p) (hinv : Inv p) (ev : PairEvent)
    (hf : ∀ side, ev ≠ .call side .injectionFailed)
    (hlt : (p.engine ev.side).epoch < UInt64.maxValue) :
    OneWay (steps ++ [machine.entry p ev]) (p.step ev).1 := by
  cases hc : p.callOf ev with
  | none =>
    rw [step_of_idle hc]
    refine ⟨h.noClaim, h.noAnswer, h.answered, h.epoch_le, fun t ht => (h.inFlight t ht).concat,
      ?_⟩
    intro e he
    obtain ⟨t, ht, hte⟩ := h.granted e he
    exact ⟨t, ht.concat, hte⟩
  | some cr =>
    obtain ⟨c, rest⟩ := cr
    have hf' : c ≠ .runtime .injectionFailed := by
      rintro rfl
      exact hf ev.side (callOf_injectionFailed hc)
    rw [step_of_callOf hc]
    cases hside : ev.side with
    | source => exact h.source hinv hside hc hf' (hside ▸ hlt)
    | target => exact h.target hinv hside hc hf'

theorem oneWay_start (source target : DeviceId) (layout : EdgeLayout) :
    OneWay [] (start source target layout) where
  noClaim := rfl
  noAnswer := rfl
  answered h := absurd rfl h
  epoch_le := UInt64.le_refl _
  inFlight _ ht := by cases ht
  granted _ he := by cases he

end oneWay

/-- **Handoff agreement.** Take any run of a source and a target with distinct ids in which no
injection fails and no epoch saturates. The target's epoch never passes the source's; the target is
authorized to inject only at an epoch for which the source sent it a grant; and when nothing is in
flight, the source has never sent a claim or the two sides hold the same owner and epoch. -/
theorem handoff_agreement (source target : DeviceId) (layout : EdgeLayout)
    (events : List PairEvent) (hne : source ≠ target)
    (hf : ∀ ev ∈ events, ∀ side, ev ≠ .call side .injectionFailed)
    (hlt : ∀ en ∈ machine.trace (start source target layout) events,
      (en.pre.engine en.input.side).epoch < UInt64.maxValue) :
    let p := machine.exec (start source target layout) events
    let steps := machine.trace (start source target layout) events
    (p.engine .target).epoch ≤ (p.engine .source).epoch ∧
      (∀ epoch, (p.engine .target).authorizeInject epoch = true →
        ∃ t, Sent steps .source t ∧ toId t.recipient = some target ∧ t.ownerEpoch = epoch) ∧
      ((∀ side, p.inbox side = []) → (∀ t, ¬ Sent steps .source t) ∨
        ((p.engine .source).owner = (p.engine .target).owner ∧
          (p.engine .source).epoch = (p.engine .target).epoch)) := by
  intro p steps
  have hrun : (History steps p ∧ OneWay steps p) ∧ (p.engine .target).me = target := by
    refine machine.induct (P := fun steps p => (History steps p ∧ OneWay steps p) ∧
      (p.engine .target).me = target)
      (G := fun en => (∀ side, en.input ≠ .call side .injectionFailed) ∧
        (en.pre.engine en.input.side).epoch < UInt64.maxValue)
      ⟨⟨history_start hne layout, oneWay_start source target layout⟩, rfl⟩ ?_ events ?_
    · rintro steps p ev ⟨⟨hh, ho⟩, hme⟩ ⟨hf, hlt⟩
      exact ⟨⟨hh.step ev hlt ho.not_losesRefusal, ho.step hh.inv ev hf hlt⟩,
        (p.step_me ev .target).trans hme⟩
    · intro en hen
      refine ⟨?_, hlt en hen⟩
      obtain ⟨js, ev, ks, heq, rfl⟩ := machine.mem_trace_iff.1 hen
      exact hf ev (by simp [heq])
  obtain ⟨⟨hh, ho⟩, hme⟩ := hrun
  refine ⟨ho.epoch_le, ?_, ?_⟩
  · intro e he
    rw [← hme]
    exact ho.granted e (EngineCore.acceptedEpoch_of_authorizeInject he)
  · intro hempty
    by_cases hsent : ∃ t, Sent steps .source t
    · obtain ⟨t, ht⟩ := hsent
      exact .inr (hh.agree hempty ⟨.source, t, ht⟩)
    · exact .inl fun t ht => hsent ⟨t, ht⟩

/-- After a crossing the two sides agree, and the target is authorized by the source's grant. -/
theorem crossing_agrees :
    let p := machine.exec (start (.fill 1) (.fill 2) (.sideBySide 100 100 100 100)) crossing
    let steps := machine.trace (start (.fill 1) (.fill 2) (.sideBySide 100 100 100 100)) crossing
    (p.engine .target).epoch ≤ (p.engine .source).epoch ∧
      (∃ t, Sent steps .source t ∧ toId t.recipient = some (.fill 2) ∧ t.ownerEpoch = 1) ∧
      ((∀ t, ¬ Sent steps .source t) ∨ ((p.engine .source).owner = (p.engine .target).owner ∧
        (p.engine .source).epoch = (p.engine .target).epoch)) := by
  obtain ⟨hle, hsent, hagree⟩ := handoff_agreement (.fill 1) (.fill 2)
    (.sideBySide 100 100 100 100) crossing (by decide) (by simp [crossing]) (by decide +kernel)
  exact ⟨hle, hsent 1 (by decide +kernel), hagree fun side => by cases side <;> decide +kernel⟩

end Pair

end Mouser
