import Mouser.Engine.Effect

/-!
# What the embedder is told of ownership

`SetCursorVisible` and `OwnerChanged` are the two actions by which an embedder follows ownership.
Each operation that mints or adopts an epoch makes its own list of actions; `Effect.owner` and
`Effect.visible` say once for all of them that no change goes untold, and `announced` that what was
told last is the state along every run.
-/

namespace Mouser

/-- What `Action.ownerChanged` tells the embedder. -/
def Action.owner? : Action → Option (DeviceId × UInt64)
  | .ownerChanged owner epoch => some (owner, epoch)
  | _ => none

/-- What `Action.setCursorVisible` tells the embedder. -/
def Action.visible? : Action → Option Bool
  | .setCursorVisible visible => some visible
  | _ => none

/-- The last owner and epoch the actions announce. -/
def lastOwner (acts : List Action) : Option (DeviceId × UInt64) :=
  (acts.filterMap Action.owner?).getLast?

theorem lastOwner_append (as bs : List Action) :
    lastOwner (as ++ bs) = (lastOwner bs).or (lastOwner as) := by
  unfold lastOwner
  rw [List.filterMap_append, List.getLast?_append]

/-- Quiet actions announce no owner. -/
theorem lastOwner_of_quiet {acts : List Action} (h : ∀ a ∈ acts, a.isQuiet = true) :
    lastOwner acts = none := by
  have hnil : acts.filterMap Action.owner? = [] := by
    refine List.filterMap_eq_nil_iff.2 ?_
    intro a ha
    have hq := h a ha
    cases a with
    | ownerChanged => cases hq
    | _ => rfl
  rw [lastOwner, hnil]
  rfl

/-- The last visibility of the cursor that the actions set. -/
def lastVisible (acts : List Action) : Option Bool :=
  (acts.filterMap Action.visible?).getLast?

theorem lastVisible_append (as bs : List Action) :
    lastVisible (as ++ bs) = (lastVisible bs).or (lastVisible as) := by
  unfold lastVisible
  rw [List.filterMap_append, List.getLast?_append]

/-- Quiet actions leave the cursor as it is. -/
theorem lastVisible_of_quiet {acts : List Action} (h : ∀ a ∈ acts, a.isQuiet = true) :
    lastVisible acts = none := by
  have hnil : acts.filterMap Action.visible? = [] := by
    refine List.filterMap_eq_nil_iff.2 ?_
    intro a ha
    have hq := h a ha
    cases a with
    | setCursorVisible => cases hq
    | _ => rfl
  rw [lastVisible, hnil]
  rfl

/-- The last value told is one of the actions. -/
theorem mem_of_lastOwner {acts : List Action} {owner : DeviceId} {epoch : UInt64}
    (h : lastOwner acts = some (owner, epoch)) : .ownerChanged owner epoch ∈ acts := by
  obtain ⟨a, ha, hown⟩ := List.mem_filterMap.1 (List.mem_of_getLast? h)
  cases a with
  | ownerChanged =>
    cases hown
    exact ha
  | _ => cases hown

theorem mem_of_lastVisible {acts : List Action} {visible : Bool}
    (h : lastVisible acts = some visible) : .setCursorVisible visible ∈ acts := by
  obtain ⟨a, ha, hvis⟩ := List.mem_filterMap.1 (List.mem_of_getLast? h)
  cases a with
  | setCursorVisible =>
    cases hvis
    exact ha
  | _ => cases hvis

namespace EngineCore

section step

variable {s s' : EngineCore} {c : Call} {acts : List Action}

/-- Every change of the owner or the epoch is announced. -/
theorem Effect.owner (heff : Effect s c s' acts) :
    (lastOwner acts).or (some (s.owner, s.epoch)) = some (s'.owner, s'.epoch) := by
  have hsame : s'.ownership = s.ownership → lastOwner acts = none →
      (lastOwner acts).or (some (s.owner, s.epoch)) = some (s'.owner, s'.epoch) := by
    intro ho hl
    rw [hl, EngineCore.owner, epoch, EngineCore.owner, epoch, ho]
    rfl
  cases heff with
  | quiet hc hs ha => exact hsame hs.ownership (lastOwner_of_quiet ha)
  | cross hrole hown =>
    rw [crossToPeer_eq s hown, Ownership.grantTo_of_isOwner hown]
    rfl
  | reclaim pre post hc ht hwhy hpre hpost =>
    rw [lastOwner_append, lastOwner_append, lastOwner_of_quiet hpre, lastOwner_of_quiet hpost]
    rfl
  | adopt =>
    rw [acceptTransfer_actions, lastOwner_append]
    simp only [EngineCore.owner, epoch, acceptTransfer_ownership]
    split <;> rfl
  | refuse => exact hsame rfl rfl
  | settle hp he hacc hs ha => exact hsame hs.ownership (lastOwner_of_quiet ha)
  | inputCtr hf hs hg hh ha =>
    refine hsame hs.ownership ?_
    rcases ha with rfl | ⟨i, rfl, -⟩ <;> rfl
  | inputSeq hs hg hh ha =>
    refine hsame hs.ownership ?_
    rcases ha with rfl | ⟨rfl, -⟩ <;> rfl
  | failed =>
    cases hown : s.isOwner with
    | false =>
      rw [onInjectionFailed_of_not_isOwner s hown]
      rfl
    | true =>
      rw [onInjectionFailed_of_isOwner s hown, Ownership.grantTo_of_isOwner hown]
      rfl
  | trusted | allowed => rfl

/-- Whether the cursor shows is whether the device owns input; a crossing hides it, which is right
because the peer is another device. -/
theorem Effect.visible (heff : Effect s c s' acts) (hne : s.peer ≠ s.me) :
    (lastVisible acts).or (some s.isOwner) = some s'.isOwner := by
  have hsame : s'.ownership = s.ownership → lastVisible acts = none →
      (lastVisible acts).or (some s.isOwner) = some s'.isOwner := by
    intro ho hl
    rw [hl, isOwner, isOwner, ho]
    rfl
  cases heff with
  | quiet hc hs ha => exact hsame hs.ownership (lastVisible_of_quiet ha)
  | cross hrole hown =>
    rw [s.crossToPeer_isOwner hown, crossToPeer_eq s hown, decide_eq_false hne]
    rfl
  | @reclaim _ t pre post hc ht hwhy hpre hpost =>
    have hown : t.reclaimLocal.1.isOwner = true := Ownership.isOwner_iff.2 rfl
    rw [lastVisible_append, lastVisible_append, lastVisible_of_quiet hpre,
      lastVisible_of_quiet hpost, hown]
    rfl
  | adopt =>
    rw [acceptTransfer_actions, lastVisible_append]
    simp only [isOwner, acceptTransfer_ownership]
    split <;> rfl
  | refuse => exact hsame rfl rfl
  | settle hp he hacc hs ha => exact hsame hs.ownership (lastVisible_of_quiet ha)
  | inputCtr hf hs hg hh ha =>
    refine hsame hs.ownership ?_
    rcases ha with rfl | ⟨i, rfl, -⟩ <;> rfl
  | inputSeq hs hg hh ha =>
    refine hsame hs.ownership ?_
    rcases ha with rfl | ⟨rfl, -⟩ <;> rfl
  | failed =>
    cases hown : s.isOwner with
    | false =>
      rw [onInjectionFailed_of_not_isOwner s hown]
      exact congrArg some hown.symm
    | true =>
      rw [s.onInjectionFailed_isOwner hown, onInjectionFailed_of_isOwner s hown,
        decide_eq_false hne]
      rfl
  | trusted | allowed => rfl

/-- The two announcements come together. -/
theorem Effect.announces (heff : Effect s c s' acts) :
    lastVisible acts = none ↔ lastOwner acts = none := by
  have hquiet : ∀ as : List Action, (∀ a ∈ as, a.isQuiet = true) →
      (lastVisible as = none ↔ lastOwner as = none) := fun as ha =>
    iff_of_true (lastVisible_of_quiet ha) (lastOwner_of_quiet ha)
  cases heff with
  | quiet hc hs ha => exact hquiet _ ha
  | cross hrole hown =>
    rw [crossToPeer_eq s hown]
    exact iff_of_false nofun nofun
  | reclaim pre post hc ht hwhy hpre hpost =>
    rw [lastVisible_append, lastVisible_append, lastOwner_append, lastOwner_append,
      lastVisible_of_quiet hpost, lastOwner_of_quiet hpost]
    exact iff_of_false nofun nofun
  | adopt =>
    rw [acceptTransfer_actions]
    split <;> exact iff_of_false nofun nofun
  | refuse => exact iff_of_true rfl rfl
  | settle hp he hacc hs ha => exact hquiet _ ha
  | inputCtr hf hs hg hh ha => rcases ha with rfl | ⟨i, rfl, -⟩ <;> exact iff_of_true rfl rfl
  | inputSeq hs hg hh ha => rcases ha with rfl | ⟨rfl, -⟩ <;> exact iff_of_true rfl rfl
  | failed =>
    cases hown : s.isOwner with
    | false =>
      rw [onInjectionFailed_of_not_isOwner s hown]
      exact iff_of_true rfl rfl
    | true =>
      rw [onInjectionFailed_of_isOwner s hown]
      exact iff_of_false nofun nofun
  | trusted | allowed => exact iff_of_true rfl rfl

end step

/-- The owner and the epoch are not those of before. -/
def MovesOwnership (en : Machine.Entry EngineCore Call (List Action)) : Prop :=
  (en.post.owner, en.post.epoch) ≠ (en.pre.owner, en.pre.epoch)

/-- A step that moves ownership tells both the owner and the visibility. -/
theorem MovesOwnership.told {en : Machine.Entry EngineCore Call (List Action)}
    (hen : en = machine.entry en.pre en.input) (h : MovesOwnership en) :
    .ownerChanged en.post.owner en.post.epoch ∈ en.output ∧
      ∃ visible, .setCursorVisible visible ∈ en.output := by
  have heff : Effect en.pre en.input en.post en.output := by
    have hcall := en.pre.call_effect en.input
    rw [hen]
    exact hcall
  have howner := heff.owner
  cases hlast : lastOwner en.output with
  | none =>
    rw [hlast] at howner
    exact absurd (Option.some.inj howner).symm h
  | some told =>
    rw [hlast] at howner
    obtain rfl : told = (en.post.owner, en.post.epoch) := Option.some.inj howner
    have hvisible : lastVisible en.output ≠ none := fun hnone => by
      rw [heff.announces.1 hnone] at hlast
      cases hlast
    obtain ⟨visible, hv⟩ := Option.ne_none_iff_exists'.1 hvisible
    exact ⟨mem_of_lastOwner hlast, visible, mem_of_lastVisible hv⟩

/-- What was told so far: the visibility is ownership, and the owner told last is the owner, or
nothing was told and nothing moved. -/
structure Announced (acts : List Action)
    (steps : List (Machine.Entry EngineCore Call (List Action)))
    (s : EngineCore) : Prop where
  peer_ne : s.peer ≠ s.me
  visible : lastVisible acts = some s.isOwner
  owner : lastOwner acts = some (s.owner, s.epoch) ∨
    (lastOwner acts = none ∧ ∀ en ∈ steps, ¬ MovesOwnership en)

theorem Announced.call {acts : List Action}
    {steps : List (Machine.Entry EngineCore Call (List Action))} {s : EngineCore}
    (h : Announced acts steps s) (c : Call) :
    Announced (acts ++ (s.call c).2) (steps ++ [machine.entry s c]) (s.call c).1 := by
  have heff := s.call_effect c
  have hdev := s.call_device c
  refine ⟨by rw [hdev.peer, hdev.me]; exact h.peer_ne, ?_, ?_⟩
  · rw [lastVisible_append, h.visible]
    exact heff.visible h.peer_ne
  · have howner := heff.owner
    rw [lastOwner_append]
    cases hlast : lastOwner (s.call c).2 with
    | some told =>
      rw [hlast] at howner
      exact .inl howner
    | none =>
      rw [hlast, Option.none_or] at howner
      have hsame := Option.some.inj howner
      rcases h.owner with htold | ⟨hnone, hquiet⟩
      · exact .inl (by rw [htold, hsame]; rfl)
      · refine .inr ⟨hnone, ?_⟩
        intro en hen
        rcases List.mem_append.1 hen with hen | hen
        · exact hquiet en hen
        · rw [List.mem_singleton.1 hen]
          exact fun hmoved => hmoved hsame.symm

/-- **The embedder is told every change of ownership.** After every run of a core whose peer is
another device the visibility set last is whether it owns input, the owner told last, once
ownership has moved, is the owner with its epoch, and every step that moves ownership tells both. -/
theorem announced (role : Role) (me peer : DeviceId) (layout : EdgeLayout) (hne : peer ≠ me)
    (calls : List Call) :
    let start := new role me peer layout
    let s := machine.exec start calls
    let steps := machine.trace start calls
    let acts := start.initialActions ++ steps.flatMap (·.output)
    lastVisible acts = some s.isOwner ∧
      ((∃ en ∈ steps, MovesOwnership en) → lastOwner acts = some (s.owner, s.epoch)) ∧
      ∀ en ∈ steps, MovesOwnership en →
        .ownerChanged en.post.owner en.post.epoch ∈ en.output ∧
          ∃ visible, .setCursorVisible visible ∈ en.output := by
  intro start s steps acts
  have h : Announced acts steps s := by
    refine machine.induct (P := fun tr t =>
      Announced (start.initialActions ++ tr.flatMap (·.output)) tr t)
      (G := fun _ => True) ?_ ?_ calls fun _ _ => trivial
    · exact ⟨hne, rfl, .inr ⟨rfl, by simp⟩⟩
    · intro tr t c ht _
      rw [List.flatMap_append, ← List.append_assoc, List.flatMap_singleton]
      exact ht.call c
  refine ⟨h.visible, ?_, ?_⟩
  · rintro ⟨en, hen, hmoves⟩
    rcases h.owner with htold | ⟨-, hquiet⟩
    · exact htold
    · exact absurd hmoves (hquiet en hen)
  · intro en hen hmoves
    exact hmoves.told (machine.entry_of_mem hen)

/-- A source that crosses out and loses the grant when the peer leaves. -/
theorem announced_crossAndGoodbye :
    let start := newSource (.fill 1) (.fill 2) (.sideBySide 100 100 100 100)
    let calls : List Call := [.runtime (.localInput (.cursorMoved 0 98 50 5 0)),
      .control (.goodbye (some ⟨.shutdown⟩))]
    let s := machine.exec start calls
    let acts := start.initialActions ++ (machine.trace start calls).flatMap (·.output)
    lastVisible acts = some s.isOwner ∧ lastOwner acts = some (.fill 1, 2) := by
  intro start calls s acts
  obtain ⟨hvisible, howner, -⟩ := announced .source (.fill 1) (.fill 2)
    (.sideBySide 100 100 100 100) (by decide) calls
  refine ⟨hvisible, (howner ?_).trans (by decide)⟩
  exact ⟨_, .head _, by unfold MovesOwnership; decide⟩

end EngineCore

end Mouser
