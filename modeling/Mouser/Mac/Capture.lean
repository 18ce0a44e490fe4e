import Mathlib.Data.List.Nodup
import Mathlib.Data.List.Perm.Basic
import Mouser.Lib.Machine
import Mouser.Mac.Keymap

/-!
# macOS input capture

A tap hands each event to the sink, and its own chord state can override the answer. A modifier
transition comes as a `FlagsChanged` that names the key and not the direction: the tap tells the
direction by toggling its own set of held key codes, which starts empty.

So a tap's set is what is held now, against what was held when the tap was created
(`against_of_create`): its reports are true exactly when nothing was held then (`reportsTrue_iff`).
-/

namespace Mouser

namespace Mac

/-! ## The chord -/

/-- The Ctrl keys that the tap has seen go down, and whether the chord forces pass-through. -/
structure EmergencyReclaim where
  heldCtrlBits : UInt16
  active : Bool
deriving DecidableEq

def ctrlBit (usage : UInt16) : Option UInt16 :=
  if usage = 0xE0 then some leftCtrlBit
  else if usage = 0xE4 then some rightCtrlBit
  else none

namespace EmergencyReclaim

def new : EmergencyReclaim := ⟨0, false⟩

def updateCtrl (r : EmergencyReclaim) (usage : UInt16) (down : Bool) : EmergencyReclaim :=
  match ctrlBit usage with
  | none => r
  | some bit =>
    { r with heldCtrlBits := if down then r.heldCtrlBits ||| bit else r.heldCtrlBits &&& ~~~bit }

/-- The state after an event, and whether the chord forces pass-through. -/
def observe (r : EmergencyReclaim) (event : LocalInputEvent) : EmergencyReclaim × Bool :=
  let wasActive := r.active
  let r :=
    match event with
    | .key usage down mods =>
      let r := r.updateCtrl usage down
      if emergencyReclaimChordFromMods (mods ||| r.heldCtrlBits) then { r with active := true }
      else r
    | _ => r
  let forcePass := wasActive || r.active
  let r := if r.active ∧ r.heldCtrlBits = 0 then { r with active := false } else r
  (r, forcePass)

end EmergencyReclaim

/-- What the tap does with an event. -/
inductive CallbackResult where
  | keep
  | drop
deriving DecidableEq

/-- Hand an event to the sink; the chord overrides its answer. -/
def decisionFor {σ : Type*} (onEvent : σ → LocalInputEvent → σ × CaptureDecision) (sink : σ)
    (ev : LocalInputEvent) (reclaim : EmergencyReclaim) : σ × EmergencyReclaim × CallbackResult :=
  let (reclaim, forcePass) := reclaim.observe ev
  let (sink, decision) := onEvent sink ev
  if forcePass then (sink, reclaim, .keep)
  else
    match decision with
    | .passThrough => (sink, reclaim, .keep)
    | .suppress => (sink, reclaim, .drop)

/-! ## The held key codes of a tap -/

/-- `Vec::swap_remove`: the last element takes the place of the one removed. -/
def swapRemove {α : Type*} (held : List α) (pos : Nat) : List α :=
  match held.getLast? with
  | none => []
  | some last => (held.set pos last).dropLast

/-- The momentary modifiers that a capture has seen go down. -/
structure ModifierState where
  held : List UInt16

namespace ModifierState

def new : ModifierState := ⟨[]⟩

/-- Toggle a key code; the answer is whether it is now down. -/
def toggle (s : ModifierState) (keycode : UInt16) : ModifierState × Bool :=
  match s.held.idxOf? keycode with
  | some pos => (⟨swapRemove s.held pos⟩, false)
  | none => (⟨s.held ++ [keycode]⟩, true)

/-- The mask of the modifiers held. -/
def modifierBits (s : ModifierState) : UInt16 :=
  s.held.foldl (fun bits keycode =>
    match (cgkeycodeToHidUsage keycode).bind modifierBit with
    | some usage => bits ||| usage
    | none => bits) 0

end ModifierState

/-- The usage and the direction of a `FlagsChanged`, for a key that is forwarded. -/
def flagsChangedEvent (keycode : UInt16) (state : ModifierState) :
    ModifierState × Option (UInt16 × Bool) :=
  match cgkeycodeToModifierFlag keycode with
  | none => (state, none)
  | some _ =>
    match cgkeycodeToHidUsage keycode with
    | none => (state, none)
    | some usage =>
      let (state, down) := state.toggle keycode
      (state, some (usage, down))

/-- What `handle_flags_changed` makes of the key code field of an event. -/
def resolveFlagsChanged (state : ModifierState) (keycode : Int) :
    ModifierState × Option LocalInputEvent :=
  if 0 ≤ keycode ∧ keycode ≤ 0xFFFF then
    match flagsChangedEvent (UInt16.ofNat keycode.toNat) state with
    | (state, some (usage, down)) => (state, some (.key usage down state.modifierBits))
    | (state, none) => (state, none)
  else (state, none)

/-! ## A tap's set -/

theorem swapRemove_perm {α : Type*} {held : List α} {pos : Nat} (h : pos < held.length) :
    (swapRemove held pos).Perm (held.eraseIdx pos) := by
  rcases List.eq_nil_or_concat held with rfl | ⟨init, last, rfl⟩
  · exact absurd h (Nat.not_lt_zero pos)
  rw [List.concat_eq_append] at h ⊢
  have hswap : swapRemove (init ++ [last]) pos = ((init ++ [last]).set pos last).dropLast := by
    rw [swapRemove, List.getLast?_concat]
  rw [hswap]
  rw [List.length_append, List.length_singleton] at h
  rcases Nat.lt_succ_iff_lt_or_eq.1 h with hpos | rfl
  · rw [List.set_append_left _ _ hpos, List.dropLast_concat,
      List.eraseIdx_append_of_lt_length hpos]
    exact (List.set_perm_cons_eraseIdx hpos last).trans (List.perm_append_singleton _ _).symm
  · rw [List.eraseIdx_append_of_length_le (le_refl _)]
    simp

theorem swapRemove_map {α β : Type*} (f : α → β) (held : List α) (pos : Nat) :
    swapRemove (held.map f) pos = (swapRemove held pos).map f := by
  unfold swapRemove
  rw [List.getLast?_map]
  cases held.getLast? with
  | none => rfl
  | some last => simp [List.map_set, List.map_dropLast]

/-- The set of a tap holds the modifiers `held`, each once. -/
def ModifierState.Holds (s : ModifierState) (held : ModifierKey → Bool) : Prop :=
  ∃ keys : List ModifierKey, s.held = keys.map ModifierKey.keycode ∧ keys.Nodup ∧
    ∀ m, m ∈ keys ↔ held m = true

namespace ModifierState

theorem holds_new : new.Holds fun _ => false :=
  ⟨[], rfl, List.nodup_nil, by simp⟩

variable {s : ModifierState} {held : ModifierKey → Bool}

theorem Holds.toggle (h : s.Holds held) (m : ModifierKey) :
    (s.toggle m.keycode).1.Holds (Function.update held m !held m) ∧
      (s.toggle m.keycode).2 = !held m := by
  obtain ⟨keys, hkeys, hnodup, hmem⟩ := h
  have hpos : s.held.idxOf? m.keycode = keys.idxOf? m := by
    rw [hkeys, List.idxOf?, List.idxOf?, List.findIdx?_map]
    congr 1
    funext k
    simp [keycode_injective.eq_iff]
  rw [ModifierState.toggle, hpos]
  cases hidx : keys.idxOf? m with
  | none =>
    have hup : m ∉ keys := List.idxOf?_eq_none_iff.1 hidx
    have hheld : held m = false := Bool.eq_false_iff.2 fun h => hup ((hmem m).2 h)
    refine ⟨⟨keys ++ [m], by simp [hkeys], ?_, ?_⟩, by simp [hheld]⟩
    · rw [List.nodup_append]
      exact ⟨hnodup, List.nodup_singleton m, by simpa using fun k hk => ne_of_mem_of_not_mem hk hup⟩
    · intro k
      rw [List.mem_append, List.mem_singleton, hmem, Function.update_apply]
      by_cases hk : k = m <;> simp [hk, hheld]
  | some pos =>
    obtain ⟨hlt, hget, -⟩ := List.idxOf?_eq_some_iff.1 hidx
    have hheld : held m = true := (hmem m).1 (hget ▸ List.getElem_mem hlt)
    have hperm : (swapRemove keys pos).Perm (keys.erase m) := by
      rw [List.erase_eq_eraseIdx, hidx]
      exact swapRemove_perm hlt
    refine ⟨⟨swapRemove keys pos, ?_, hperm.nodup_iff.2 (hnodup.erase m), ?_⟩, by simp [hheld]⟩
    · rw [hkeys]
      exact swapRemove_map _ _ _
    · intro k
      rw [hperm.mem_iff, hnodup.mem_erase_iff, hmem, Function.update_apply]
      by_cases hk : k = m <;> simp [hk, hheld]

theorem Holds.modifierBits (h : s.Holds held) : s.modifierBits = modifierMask held := by
  obtain ⟨keys, hkeys, -, hmem⟩ := h
  have hfold (bits : UInt16) (i : Nat) (ks : List ModifierKey) :
      ((ks.map ModifierKey.keycode).foldl (fun bits keycode =>
        match (cgkeycodeToHidUsage keycode).bind modifierBit with
        | some usage => bits ||| usage
        | none => bits) bits).toNat.testBit i = true ↔
        bits.toNat.testBit i = true ∨ ∃ m ∈ ks, m.index = i := by
    induction ks generalizing bits with
    | nil => simp
    | cons m ks ih =>
      rw [List.map_cons, List.foldl_cons, ih, cgkeycodeToHidUsage_keycode, Option.bind_some,
        m.modifierBit_usage, testBit_or_bit]
      simp [or_assoc]
  refine UInt16.toNat_inj.1 (Nat.eq_of_testBit_eq fun i => ?_)
  rw [Bool.eq_iff_iff, ModifierState.modifierBits, hkeys, hfold, testBit_modifierMask]
  simp [hmem]

/-- A `FlagsChanged` of a modifier is reported as a change of the tap's set. -/
theorem Holds.resolve (h : s.Holds held) (m : ModifierKey) :
    (resolveFlagsChanged s m.keycode.toNat).1.Holds (Function.update held m !held m) ∧
      (resolveFlagsChanged s m.keycode.toNat).2 =
        some (.key m.usage (!held m) (modifierMask (Function.update held m !held m))) := by
  obtain ⟨flag, hflag⟩ := Option.ne_none_iff_exists'.1 (cgkeycodeToModifierFlag_ne_none.2 ⟨m, rfl⟩)
  obtain ⟨hholds, hdown⟩ := h.toggle m
  have hevent : flagsChangedEvent m.keycode s =
      ((s.toggle m.keycode).1, some (m.usage, !held m)) := by
    rw [flagsChangedEvent, hflag, cgkeycodeToHidUsage_keycode, ← hdown]
  have hrange : 0 ≤ (m.keycode.toNat : Int) ∧ (m.keycode.toNat : Int) ≤ 0xFFFF := by
    have := m.keycode.toNat_lt
    omega
  have hresolve : resolveFlagsChanged s m.keycode.toNat = ((s.toggle m.keycode).1,
      some (.key m.usage (!held m) (s.toggle m.keycode).1.modifierBits)) := by
    rw [resolveFlagsChanged, if_pos hrange, Int.toNat_natCast, UInt16.ofNat_toNat, hevent]
  rw [hresolve]
  exact ⟨hholds, by rw [hholds.modifierBits]⟩

end ModifierState

/-! ## Taps over a history of the keyboard -/

/-- What happens: a modifier goes down or up, a tap is created or stopped. -/
inductive Happening where
  | key (m : ModifierKey) (down : Bool)
  | create (tap : Nat)
  | stop (tap : Nat)
deriving DecidableEq

/-- The modifiers physically held, and the taps that live. -/
structure Desk where
  held : ModifierKey → Bool
  taps : Nat → Option ModifierState

namespace Desk

/-- Nothing held, no tap. -/
def new : Desk := ⟨fun _ => false, fun _ => none⟩

/-- A key that is not where it was moves, and every living tap sees a `FlagsChanged`. -/
def key (d : Desk) (m : ModifierKey) (down : Bool) : Desk where
  held := Function.update d.held m down
  taps tap := (d.taps tap).map fun s => (resolveFlagsChanged s m.keycode.toNat).1

/-- What the taps report of it. -/
def reports (d : Desk) (m : ModifierKey) (tap : Nat) : Option (Option LocalInputEvent) :=
  (d.taps tap).map fun s => (resolveFlagsChanged s m.keycode.toNat).2

/-- One thing happens. Each tap starts with a state of its own. -/
def step (d : Desk) : Happening → Desk × (Nat → Option (Option LocalInputEvent))
  | .key m down => if d.held m = down then (d, fun _ => none) else (d.key m down, d.reports m)
  | .create tap => ({ d with taps := Function.update d.taps tap (some .new) }, fun _ => none)
  | .stop tap => ({ d with taps := Function.update d.taps tap none }, fun _ => none)

def machine : Machine Desk Happening (Nat → Option (Option LocalInputEvent)) := ⟨step⟩

/-- The desk after a history. -/
def after (history : List Happening) : Desk := machine.exec new history

end Desk

/-- Every `FlagsChanged` that a tap sees is reported, with the physical direction and with the mask
of the modifiers physically held. -/
def ReportsTrue (history : List Happening) : Prop :=
  ∀ e ∈ Desk.machine.trace .new history, ∀ m down tap report,
    e.input = .key m down → e.output tap = some report →
      report = some (.key m.usage down (modifierMask e.post.held))

/-- Every tap that lives when a modifier goes down or up was created while none was held. -/
def CreatedIdle (history : List Happening) : Prop :=
  ∀ before tap between m down rest,
    history = before ++ .create tap :: between ++ .key m down :: rest →
    .create tap ∉ between → .stop tap ∉ between →
    (Desk.after (before ++ .create tap :: between)).held m ≠ down →
    ∀ k, (Desk.after before).held k = false

namespace Desk

theorem after_concat (history : List Happening) (act : Happening) :
    after (history ++ [act]) = ((after history).step act).1 :=
  machine.exec_concat new history act

theorem step_key_of_eq {d : Desk} {m : ModifierKey} {down : Bool} (h : d.held m = down) :
    d.step (.key m down) = (d, fun _ => none) :=
  if_pos h

theorem step_key_of_ne {d : Desk} {m : ModifierKey} {down : Bool} (h : d.held m ≠ down) :
    d.step (.key m down) = (d.key m down, d.reports m) :=
  if_neg h

theorem entry_key_of_eq {d : Desk} {m : ModifierKey} {down : Bool} (h : d.held m = down) :
    machine.entry d (.key m down) = ⟨d, .key m down, fun _ => none, d⟩ :=
  congrArg (fun p => Machine.Entry.mk d (Happening.key m down) p.2 p.1) (step_key_of_eq h)

theorem entry_key_of_ne {d : Desk} {m : ModifierKey} {down : Bool} (h : d.held m ≠ down) :
    machine.entry d (.key m down) = ⟨d, .key m down, d.reports m, d.key m down⟩ :=
  congrArg (fun p => Machine.Entry.mk d (Happening.key m down) p.2 p.1) (step_key_of_ne h)

/-- Only its own creation and stop set up or end a tap. -/
theorem step_taps {d : Desk} {act : Happening} {tap : Nat} (hcreate : act ≠ .create tap)
    (hstop : act ≠ .stop tap) : ((d.step act).1.taps tap).isSome = (d.taps tap).isSome := by
  cases act with
  | key m down =>
    by_cases h : d.held m = down
    · rw [step_key_of_eq h]
    · rw [step_key_of_ne h, key, Option.isSome_map]
  | create t =>
    have ht : tap ≠ t := fun h => hcreate (h ▸ rfl)
    simp [step, ht]
  | stop t =>
    have ht : tap ≠ t := fun h => hstop (h ▸ rfl)
    simp [step, ht]

end Desk

/-- A living tap was created and not stopped since. -/
theorem exists_create {history : List Happening} (tap : Nat)
    (h : ((Desk.after history).taps tap).isSome = true) :
    ∃ before between, history = before ++ .create tap :: between ∧
      .create tap ∉ between ∧ .stop tap ∉ between := by
  induction history using List.reverseRecOn with
  | nil => cases h
  | append_singleton history act ih =>
    rw [Desk.after_concat] at h
    by_cases hcreate : act = .create tap
    · exact ⟨history, [], by rw [hcreate], List.not_mem_nil, List.not_mem_nil⟩
    by_cases hstop : act = .stop tap
    · rw [hstop] at h
      simp [Desk.step] at h
    · rw [Desk.step_taps hcreate hstop] at h
      obtain ⟨before, between, rfl, hc, hs⟩ := ih h
      refine ⟨before, between ++ [act], by simp, ?_, ?_⟩
      · simpa [hc] using Ne.symm hcreate
      · simpa [hs] using Ne.symm hstop

/-- A tap's set is what is held against what was held when the tap was created. -/
def Desk.Against (d : Desk) (tap : Nat) (before : ModifierKey → Bool) : Prop :=
  ∃ s, d.taps tap = some s ∧ s.Holds fun k => d.held k ^^ before k

/-- What happens to another tap leaves it so, and so does a key. -/
theorem Desk.Against.step {d : Desk} {tap : Nat} {before : ModifierKey → Bool} {act : Happening}
    (h : d.Against tap before) (hcreate : act ≠ .create tap) (hstop : act ≠ .stop tap) :
    (d.step act).1.Against tap before := by
  obtain ⟨s, hs, hholds⟩ := h
  cases act with
  | key m down =>
    by_cases hm : d.held m = down
    · rw [step_key_of_eq hm]
      exact ⟨s, hs, hholds⟩
    · rw [step_key_of_ne hm]
      refine ⟨(resolveFlagsChanged s m.keycode.toNat).1, by simp [key, hs], ?_⟩
      convert (hholds.resolve m).1 using 1
      funext k
      simp only [key, Function.update_apply]
      by_cases hk : k = m
      · have hdown : down = !d.held m := Bool.eq_not_of_ne (Ne.symm hm)
        simp [hk, hdown]
      · simp [hk]
  | create t =>
    have ht : tap ≠ t := fun h => hcreate (h ▸ rfl)
    exact ⟨s, by simpa [Desk.step, ht] using hs, hholds⟩
  | stop t =>
    have ht : tap ≠ t := fun h => hstop (h ▸ rfl)
    exact ⟨s, by simpa [Desk.step, ht] using hs, hholds⟩

theorem against_of_create (before : List Happening) {between : List Happening} {tap : Nat}
    (hcreate : .create tap ∉ between) (hstop : .stop tap ∉ between) :
    (Desk.after (before ++ .create tap :: between)).Against tap (Desk.after before).held := by
  induction between using List.reverseRecOn with
  | nil =>
    rw [Desk.after_concat]
    refine ⟨.new, by simp [Desk.step], ?_⟩
    convert ModifierState.holds_new using 1
    funext k
    exact Bool.xor_self _
  | append_singleton between act ih =>
    rw [List.mem_append, List.mem_singleton, not_or] at hcreate hstop
    rw [← List.cons_append, ← List.append_assoc, Desk.after_concat]
    exact (ih hcreate.1 hstop.1).step (Ne.symm hcreate.2) (Ne.symm hstop.2)

/-- A report is true exactly when nothing was held when its tap was created. -/
theorem report_eq_iff {d : Desk} {before : ModifierKey → Bool} {m : ModifierKey} {down : Bool}
    {s : ModifierState} (hm : d.held m ≠ down) (hholds : s.Holds fun k => d.held k ^^ before k) :
    (resolveFlagsChanged s m.keycode.toNat).2 =
        some (.key m.usage down (modifierMask (d.key m down).held)) ↔
      ∀ k, before k = false := by
  have hdown : down = !d.held m := Bool.eq_not_of_ne (Ne.symm hm)
  have hxor : ∀ a b : Bool, (a ^^ b) = a → b = false := by decide
  rw [(hholds.resolve m).2, hdown]
  refine ⟨?_, ?_⟩
  · intro h k
    obtain ⟨-, -, hmask⟩ := LocalInputEvent.key.inj (Option.some.inj h)
    have hk := congrFun (modifierMask_injective hmask) k
    simp only [Desk.key, Function.update_apply] at hk
    by_cases hkm : k = m
    · subst hkm
      exact hxor _ _ (by simpa using hk)
    · exact hxor _ _ (by simpa [hkm] using hk)
  · intro h
    simp only [h, Bool.xor_false]
    rfl

/-- The reports, by what happened before each key. -/
theorem reportsTrue_iff_forall {history : List Happening} :
    ReportsTrue history ↔ ∀ js m down rest tap s, history = js ++ .key m down :: rest →
      (Desk.after js).held m ≠ down → (Desk.after js).taps tap = some s →
      (resolveFlagsChanged s m.keycode.toNat).2 =
        some (.key m.usage down (modifierMask ((Desk.after js).key m down).held)) := by
  refine ⟨?_, ?_⟩
  · intro h js m down rest tap s hhistory hm hs
    have he := Desk.machine.mem_trace_iff (s := .new) |>.2 ⟨js, .key m down, rest, hhistory, rfl⟩
    rw [← Desk.after, Desk.entry_key_of_ne hm] at he
    exact h _ he m down tap _ rfl (by simp [Desk.reports, hs])
  · intro h e he m down tap report hinput hreport
    obtain ⟨js, act, rest, hhistory, rfl⟩ := Desk.machine.mem_trace_iff.1 he
    rw [Machine.entry_input] at hinput
    subst hinput
    rw [← Desk.after] at hreport ⊢
    by_cases hm : (Desk.after js).held m = down
    · rw [Desk.entry_key_of_eq hm] at hreport
      cases hreport
    · rw [Desk.entry_key_of_ne hm] at hreport ⊢
      obtain ⟨s, hs, rfl⟩ := Option.map_eq_some_iff.1 hreport
      exact h js m down rest tap s hhistory hm hs

/-- **The reports are true exactly for the taps created while no modifier was held**: in every
history of the keyboard and of the taps, each `FlagsChanged` is reported with its direction and the
modifiers held if and only if every tap that sees one was created with no modifier down. -/
theorem reportsTrue_iff (history : List Happening) :
    ReportsTrue history ↔ CreatedIdle history := by
  rw [reportsTrue_iff_forall]
  refine ⟨?_, ?_⟩
  · intro htrue before tap between m down rest hhistory hcreate hstop hm
    obtain ⟨s, hs, hholds⟩ := against_of_create before hcreate hstop
    exact (report_eq_iff hm hholds).1 (htrue _ m down rest tap s hhistory hm hs)
  · intro hidle js m down rest tap s hhistory hm hs
    obtain ⟨before, between, rfl, hcreate, hstop⟩ :=
      exists_create tap (by rw [hs, Option.isSome_some])
    obtain ⟨s', hs', hholds⟩ := against_of_create before hcreate hstop
    obtain rfl : s = s' := Option.some.inj (hs.symm.trans hs')
    have hnone := hidle before tap between m down rest hhistory hcreate hstop hm
    exact (report_eq_iff hm hholds).2 hnone

/-! ## A tap created with a key down -/

/-- Left Shift goes down, capture starts, and Left Shift goes up. -/
def shiftHeldOver : List Happening :=
  [.key .leftShift true, .create 0, .key .leftShift false]

/-- The release is reported as a press, with the bit set. -/
theorem not_reportsTrue_shiftHeldOver : ¬ ReportsTrue shiftHeldOver := by
  intro h
  have hreport := reportsTrue_iff_forall.1 h [.key .leftShift true, .create 0] .leftShift false []
    0 .new rfl (by decide) rfl
  rw [(ModifierState.holds_new.resolve .leftShift).2] at hreport
  cases hreport

end Mac

end Mouser
