import Mouser.Engine.Authorization
import Mouser.Engine.Turn

/-!
# The rate cap

The peer's scrolls and auto-repeats take a token each and are shed when there is none; the other
input takes one where there is one and is never shed. A tick puts tokens back, and an accepted grant
fills the bucket. What is in the bucket is the potential: every throttled injection is paid for by
the token that it takes (`throttled_paid`), so a part of a run has no more of them than the bucket
held and the ticks put back.
-/

namespace Mouser

namespace InputRate

theorem toNat_allowOne (r : InputRate) :
    r.allowOne.1.tokens.toNat + r.allowOne.2.toNat = r.tokens.toNat := by
  have hone : (1 : UInt16).toNat = 1 := rfl
  unfold allowOne
  split
  · rfl
  · next h =>
    have hpos : 0 < r.tokens.toNat := Nat.pos_of_ne_zero fun h0 => h (UInt16.toNat_inj.1 h0)
    dsimp only
    rw [UInt16.toNat_saturatingSub, hone, Bool.toNat_true]
    omega

theorem toNat_refill (r : InputRate) :
    r.refill.tokens.toNat = min (r.tokens.toNat + 120) 240 := by
  have hrefill : inputRateRefill.toNat = 120 := rfl
  have hburst : inputRateBurst.toNat = 240 := rfl
  rw [refill, UInt16.toNat_min, UInt16.toNat_saturatingAdd, hrefill, hburst]
  omega

end InputRate

namespace EngineCore

/-- The injection is throttled: a scroll, or a key that goes down while it is held. -/
def isThrottled (s : EngineCore) : Inject → Bool
  | .scroll .. => true
  | .key usage down _ => down && usage ∈ s.heldKeys.keys
  | _ => false

/-- The throttled injections of a run. -/
def throttled (steps : List (Machine.Entry EngineCore Call (List Action))) : List Inject :=
  steps.flatMap fun en => (injects en.output).filter en.pre.isThrottled

section step

variable {s : EngineCore} {c : Call}

/-! ## The bucket -/

/-- What a call does to the bucket. -/
inductive Rates (s : EngineCore) (c : Call) (s' : EngineCore) : Prop
  | kept (h : s'.inputRate = s.inputRate)
  | charged (h : s'.inputRate = s.inputRate.allowOne.1)
  | refilled (hc : c.isTick = true) (h : s'.inputRate = s.inputRate.refill)
  | granted {e : UInt64} (hgrant : AcceptsGrant e (machine.entry s c)) (h : s'.inputRate = .full)

theorem movePeerCursor_inputRate (s : EngineCore) (dx dy : Int32) :
    (s.movePeerCursor dx dy).inputRate = s.inputRate := by
  unfold movePeerCursor
  dsimp only
  split <;> rfl

theorem onCursor_inputRate (s : EngineCore) (x y dx dy : Int32) (owns : Bool) :
    (s.onCursor x y dx dy owns).1.inputRate = s.inputRate := by
  have hmove := movePeerCursor_inputRate (s.travelled dx dy) dx dy
  have hcases := s.onCursor_cases x y dx dy owns
  generalize s.onCursor x y dx dy owns = r at hcases ⊢
  cases hcases with
  | crossed =>
    rw [crossToPeer]
    split <;> rfl
  | rearmed | passed | escaped | pushed => rfl
  | returned ht | moved ht =>
    subst ht
    exact hmove

theorem onLocalInput_inputRate (s : EngineCore) (event : LocalInputEvent) :
    (s.onLocalInput event).1.inputRate = s.inputRate := by
  unfold onLocalInput
  split
  · rfl
  · cases event with
    | cursorMoved d x y dx dy => exact s.onCursor_inputRate x y dx dy s.isOwner
    | key | button | scroll =>
      dsimp only
      split <;> rfl

theorem onTick_inputRate (s : EngineCore) : s.onTick.1.inputRate = s.inputRate.refill := by
  have hmisses : ∀ (t : EngineCore) (acts : List Action),
      (t.tickMisses acts).1.inputRate = t.inputRate := by
    intro t acts
    unfold tickMisses
    dsimp only
    split <;> rfl
  cases hp : s.pendingAck with
  | none =>
    simp only [onTick, hp]
    exact hmisses _ _
  | some p =>
    simp only [onTick, hp]
    split
    · rfl
    · exact hmisses _ _

theorem rates_local (s : EngineCore) (c : LocalCall) :
    Rates s (.runtime c) (s.callLocal c).1 := by
  cases c with
  | localInput event => exact .kept (s.onLocalInput_inputRate event)
  | tick => exact .refilled rfl s.onTick_inputRate
  | suppressUnavailable =>
    refine .kept ?_
    change s.onSuppressUnavailable.1.inputRate = s.inputRate
    unfold onSuppressUnavailable
    split
    · rfl
    · dsimp only
      split <;> rfl
  | injectionFailed =>
    refine .kept ?_
    cases hown : s.isOwner with
    | true => rw [callLocal, onInjectionFailed_of_isOwner s hown]
    | false => rw [callLocal, onInjectionFailed_of_not_isOwner s hown]
  | setPeerTrusted | setInputAllowed => exact .kept rfl

theorem acceptTransfer_inputRate (s : EngineCore) (o : Ownership) (owner : DeviceId)
    (epoch : UInt64) :
    (s.acceptTransfer o owner epoch).1.inputRate =
      if owner = o.me then .full else s.inputRate := by
  by_cases h : owner = o.me <;> cases hrole : s.role <;>
    simp [acceptTransfer, me, resetOut, h, hrole]

theorem rates_transfer (s : EngineCore) (payload : Option OwnershipTransfer) :
    Rates s (.control (.ownershipTransfer payload)) (s.onTransfer payload).1 := by
  have hcases := s.onTransfer_cases payload
  generalize s.onTransfer payload = result at hcases
  cases hcases with
  | unread => exact .kept rfl
  | refused => exact .kept rfl
  | @adopted t owner hto hauth had =>
    obtain ⟨t', ht', hack⟩ := accepts_of_adopts hto hauth had
    cases ht'
    have hrate := s.acceptTransfer_inputRate
      (s.ownership.adopt owner t.ownerEpoch (t.reason = .localReclaim)).1 owner t.ownerEpoch
    by_cases ho : owner = s.me
    · exact .granted ⟨t, rfl, ho ▸ hto, rfl, hack⟩ (hrate.trans (if_pos ho))
    · exact .kept (hrate.trans (if_neg ho))

theorem rates_control (s : EngineCore) (f : ControlFrame) :
    Rates s (.control f) (s.onControl f).1 := by
  cases f with
  | ownershipTransfer payload => exact rates_transfer s payload
  | ownershipAck payload =>
    refine .kept ?_
    simp only [onControl, onOwnershipAck]
    split
    · rfl
    · split
      · rfl
      · split
        · rfl
        · split <;> rfl
  | keyEvent payload =>
    cases payload with
    | none => exact .kept rfl
    | some k =>
      simp only [onControl, onKey]
      split
      · exact .kept rfl
      · split <;> exact .charged rfl
  | pointerButton payload =>
    cases payload with
    | none => exact .kept rfl
    | some b =>
      simp only [onControl, onButton]
      split
      · exact .kept rfl
      · exact .charged rfl
  | scroll payload =>
    cases payload with
    | none => exact .kept rfl
    | some w =>
      simp only [onControl, onScroll]
      split
      · exact .kept rfl
      · split <;> exact .charged rfl
  | ping payload => cases payload <;> exact .kept rfl
  | goodbye payload =>
    simp only [onControl, onGoodbye]
    split <;> exact .kept rfl
  | pong | heartbeat | other => exact .kept rfl

theorem call_rates (s : EngineCore) (c : Call) : Rates s c (s.call c).1 := by
  cases c with
  | runtime c => exact rates_local s c
  | control f => exact rates_control s f
  | motion d =>
    refine .kept ?_
    cases d with
    | motion m =>
      simp only [call, onMotion]
      split <;> rfl
    | motionRel | unknown => rfl

/-- The bucket never holds more than a burst. -/
theorem tokens_call (h : s.inputRate.tokens.toNat ≤ 240) :
    (s.call c).1.inputRate.tokens.toNat ≤ 240 := by
  cases s.call_rates c with
  | kept hr => rwa [hr]
  | charged hr =>
    have hpaid := s.inputRate.toNat_allowOne
    rw [hr]
    omega
  | refilled _ hr =>
    rw [hr, InputRate.toNat_refill]
    omega
  | granted _ hr =>
    rw [hr]
    decide

/-! ## What is paid -/

/-- Every throttled injection takes a token. -/
theorem throttled_paid {i : Inject} (hi : i ∈ injects (s.call c).2)
    (hthrottled : s.isThrottled i = true) :
    injects (s.call c).2 = [i] ∧ s.inputRate.allowOne.2 = true ∧
      (s.call c).1.inputRate = s.inputRate.allowOne.1 := by
  have hpeer : i.ofPeer = true := by
    cases i with
    | warpCursor => cases hthrottled
    | _ => rfl
  obtain ⟨hacts, hinjected⟩ := (s.call_effect c).injected (mem_injects.1 hi) hpeer
  refine ⟨by rw [hacts]; rfl, ?_⟩
  cases hinjected with
  | cursor hm =>
    rw [hm] at hthrottled
    cases hthrottled
  | @reliable f e ctr _ hf _ _ _ hacc hauth =>
    change (s.onControl f).2 = _ at hacts
    change _ ∧ (s.onControl f).1.inputRate = _
    cases f with
    | keyEvent payload =>
      cases payload with
      | none => cases hf
      | some k =>
        simp only [onControl, onKey] at hacts ⊢
        split at hacts
        · cases hacts
        · next hfresh =>
          rw [if_neg hfresh]
          split at hacts
          · cases hacts
          · next hshed =>
            rw [if_neg hshed]
            cases hacts
            obtain ⟨hdown, hheld⟩ := Bool.and_eq_true_iff.1 hthrottled
            have hrepeat : (s.heldKeys.observe k.usage k.down).2 = .repeat := by
              rw [HeldKeys.observe, if_pos hdown, if_pos (of_decide_eq_true hheld)]
            exact ⟨by simpa using fun h => hshed ⟨hrepeat, h⟩, rfl⟩
    | pointerButton payload =>
      cases payload with
      | none => cases hf
      | some b =>
        simp only [onControl, onButton] at hacts
        split at hacts <;> cases hacts
        cases hthrottled
    | scroll payload =>
      cases payload with
      | none => cases hf
      | some w =>
        simp only [onControl, onScroll] at hacts ⊢
        split at hacts
        · cases hacts
        · next hfresh =>
          rw [if_neg hfresh]
          split at hacts
          · cases hacts
          · next hshed =>
            rw [if_neg hshed]
            exact ⟨by simpa using hshed, rfl⟩
    | _ => cases hf

/-- **One step.** What is injected is paid for by the bucket. -/
theorem throttled_call (hgrant : ∀ e, ¬ AcceptsGrant e (machine.entry s c)) :
    ((injects (s.call c).2).filter s.isThrottled).length + (s.call c).1.inputRate.tokens.toNat ≤
      s.inputRate.tokens.toNat + 120 * c.isTick.toNat := by
  have hpaid := s.inputRate.toNat_allowOne
  by_cases hnone : ∃ i ∈ injects (s.call c).2, s.isThrottled i = true
  · obtain ⟨i, hi, hthrottled⟩ := hnone
    obtain ⟨hone, hallowed, hr⟩ := throttled_paid hi hthrottled
    rw [hallowed, Bool.toNat_true] at hpaid
    rw [hone, hr, List.filter_cons_of_pos hthrottled]
    simp only [List.filter_nil, List.length_cons, List.length_nil]
    omega
  · have hfilter : (injects (s.call c).2).filter s.isThrottled = [] :=
      List.filter_eq_nil_iff.2 fun i hi ht => hnone ⟨i, hi, ht⟩
    rw [hfilter, List.length_nil]
    cases s.call_rates c with
    | kept hr =>
      rw [hr]
      omega
    | charged hr =>
      rw [hr]
      omega
    | refilled hc hr =>
      rw [hr, InputRate.toNat_refill, hc, Bool.toNat_true]
      omega
    | granted hg => exact absurd hg (hgrant _)

end step

/-- **The rate cap.** In every part of a run with `k` ticks in which no grant is accepted, no more
than `240 + 120 * k` scrolls and auto-repeats are injected. -/
theorem throttled_le (role : Role) (me peer : DeviceId) (layout : EdgeLayout)
    (before calls : List Call) :
    let s := machine.exec (new role me peer layout) before
    let steps := machine.trace s calls
    (∀ en ∈ steps, ∀ e, ¬ AcceptsGrant e en) →
      (throttled steps).length ≤ 240 + 120 * ticks steps := by
  intro s steps hgrant
  have hstart : (new role me peer layout).inputRate.tokens.toNat ≤ 240 := Nat.le_refl 240
  have hfull : s.inputRate.tokens.toNat ≤ 240 :=
    machine.inv_exec (I := fun t => t.inputRate.tokens.toNat ≤ 240) hstart
      (fun _ _ h => tokens_call h) before
  have hrun : (throttled steps).length + (machine.exec s calls).inputRate.tokens.toNat ≤
      s.inputRate.tokens.toNat + 120 * ticks steps := machine.induct
    (P := fun tr t => (throttled tr).length + t.inputRate.tokens.toNat ≤
      s.inputRate.tokens.toNat + 120 * ticks tr)
    (G := fun en => ∀ e, ¬ AcceptsGrant e en) (by simp [throttled, ticks])
    (fun tr t i ht hi => by
      have hstep : _ + (machine.step t i).1.inputRate.tokens.toNat ≤ _ := throttled_call hi
      have hsplit : throttled (tr ++ [machine.entry t i]) =
          throttled tr ++ (injects (t.call i).2).filter t.isThrottled := by
        rw [throttled, List.flatMap_append, ← throttled, List.flatMap_singleton]
        rfl
      rw [hsplit, List.length_append, ticks_concat]
      omega)
    calls hgrant
  omega

/-- A key that is held and repeated, and a scroll. -/
theorem throttled_le_repeated :
    let grant : Call := .control (.ownershipTransfer (some
      ⟨(DeviceId.fill 1).bytes, 1, 0, .edgeCross⟩))
    let calls : List Call := [.control (.keyEvent (some ⟨4, true, 0, 1, 1⟩)),
      .control (.keyEvent (some ⟨4, true, 0, 1, 2⟩)), .runtime .tick,
      .control (.scroll (some ⟨0, 1, .logicalPixel, 1, 3⟩))]
    let steps := machine.trace
      (machine.exec (new .target (.fill 1) (.fill 2) (.sideBySide 0 0 0 0)) [grant]) calls
    (throttled steps).length ≤ 240 + 120 * ticks steps ∧ (throttled steps).length = 2 := by
  intro grant calls steps
  refine ⟨throttled_le .target (.fill 1) (.fill 2) (.sideBySide 0 0 0 0) [grant] calls ?_,
    by decide⟩
  have hclaims : ∀ en ∈ steps, en.input.transfer? = none := by decide
  rintro en hen e ⟨t, ht, -⟩
  have hnone := hclaims en hen
  rw [ht] at hnone
  cases hnone

end EngineCore

end Mouser
