import Mathlib.Data.Finset.Basic
import Mathlib.Data.Finset.Image
import Mouser.Linux.Capture
import Mouser.Linux.Keymap
import Mouser.Windows.Hooks

/-!
# The keys held on the target

A source reports each key with the modifiers it has seen held, and the target's injector presses the
modifiers of a report before a key goes down and releases them after a key goes up.

What the injector does follows the physical keyboard while nothing else is held when a key goes up:
a release under a modifier takes the modifier up on the target while the user still holds it, and
that is the only way to part (`follows_iff`). `KeySource` and `KeyTarget` are what the captures and
the injectors of Linux and Windows have in common.
-/

namespace Mouser

/-! ## Mapped keys -/

/-- A usage that the key maps know. -/
def Mapped (usage : UInt16) : Prop := (Linux.hidUsageToEvdevCode usage).isSome = true

/-- A key of the key maps. -/
@[ext]
structure MappedKey where
  usage : UInt16
  mapped : Mapped usage
deriving DecidableEq

/-- The maps of Linux and Windows know the same usages. -/
theorem isSome_hidUsageToScancode (usage : UInt16) :
    (Windows.hidUsageToScancode usage).isSome = (Linux.hidUsageToEvdevCode usage).isSome := by
  have htables : Windows.scancodes.map Prod.fst = Linux.hidToEvdev.map Prod.fst := rfl
  have hwindows : (Windows.hidUsageToScancode usage).isSome = true ↔
      usage ∈ Windows.scancodes.map Prod.fst := by
    rw [Windows.hidUsageToScancode, List.lookup_isSome_iff, List.mem_map]
    simp only [beq_iff_eq, @eq_comm _ usage]
  have hlinux : (Linux.hidUsageToEvdevCode usage).isSome = true ↔
      usage ∈ Linux.hidToEvdev.map Prod.fst := by
    rw [Linux.hidUsageToEvdevCode, List.findSome?_isSome_iff, List.mem_map]
    simp only [Option.isSome_ite]
  rw [Bool.eq_iff_iff, hwindows, htables, hlinux]

theorem mapped_usage (m : ModifierKey) : Mapped m.usage := by
  unfold Mapped
  cases m <;> decide

/-- The key of a modifier. -/
def ModifierKey.key (m : ModifierKey) : MappedKey := ⟨m.usage, mapped_usage m⟩

theorem ModifierKey.key_injective : Function.Injective ModifierKey.key := fun _ _ h =>
  ModifierKey.usage_injective (congrArg MappedKey.usage h)

/-- The modifiers of a mask, in bit order. -/
def modifierKeys (mods : UInt16) : List MappedKey :=
  (ModifierKey.all.filter fun m => mods &&& m.bit ≠ 0).map ModifierKey.key

theorem map_usage_modifierKeys (mods : UInt16) :
    (modifierKeys mods).map MappedKey.usage = modifierUsages mods := by
  rw [modifierKeys, List.map_map, modifierUsages_eq]
  rfl

theorem mem_modifierKeys {held : ModifierKey → Bool} {k : MappedKey} :
    k ∈ modifierKeys (modifierMask held) ↔ ∃ m, held m = true ∧ m.key = k := by
  simp only [modifierKeys, List.mem_map, List.mem_filter, ModifierKey.mem_all, true_and,
    decide_eq_true_iff, and_bit_ne_zero, testBit_modifierMask_index]

/-! ## Sources -/

/-- A capture that reports each key with the modifiers it has seen held. -/
structure KeySource where
  State : Type
  new : State
  /-- The modifiers seen held. -/
  mods : State → UInt16
  /-- What a key, as the source's keyboard sends it, makes of the state, and the event reported. -/
  capture : State → UInt16 → Bool → Bool → State × Option LocalInputEvent
  mods_new : mods new = 0
  capture_key : ∀ (s : State) (k : MappedKey) (down sys : Bool),
    mods (capture s k.usage down sys).1 = updateModifier (mods s) k.usage down ∧
      (capture s k.usage down sys).2 =
        some (.key k.usage down (updateModifier (mods s) k.usage down))

/-- The Linux reader thread: a key event of evdev, through the chord state. -/
def Linux.captureKey (r : Linux.EmergencyReclaim) (usage : UInt16) (down _sys : Bool) :
    Linux.EmergencyReclaim × Option LocalInputEvent :=
  match (Linux.hidUsageToEvdevCode usage).bind fun code =>
    Linux.keyToLocalEvent code (if down then 1 else 0) with
  | none => (r, none)
  | some event => ((r.observe event).1, some (r.observe event).2.1)

/-- The Windows keyboard hook: a message with the key's scan code. -/
def Windows.captureKey (mods : UInt16) (usage : UInt16) (down sys : Bool) :
    UInt16 × Option LocalInputEvent :=
  match Windows.hidUsageToScancode usage with
  | none => (mods, none)
  | some sc =>
    Windows.keyboardEventFromParts mods (Windows.keyMessage down sys) sc.code.toUInt32
      (Windows.keyFlags sc.extended down sys)

theorem Linux.captureKey_eq (r : Linux.EmergencyReclaim) (k : MappedKey) (down sys : Bool) :
    (Linux.captureKey r k.usage down sys).1.heldMods = updateModifier r.heldMods k.usage down ∧
      (Linux.captureKey r k.usage down sys).2 =
        some (.key k.usage down (updateModifier r.heldMods k.usage down)) := by
  obtain ⟨code, hcode⟩ := Option.isSome_iff_exists.1 k.mapped
  rw [Linux.captureKey, hcode, Option.bind_some, Linux.keyToLocalEvent_of hcode]
  refine ⟨?_, rfl⟩
  simp only [Linux.EmergencyReclaim.observe]
  split
  · rfl
  · rfl

theorem Windows.captureKey_eq (mods : UInt16) (k : MappedKey) (down sys : Bool) :
    (Windows.captureKey mods k.usage down sys).1 = updateModifier mods k.usage down ∧
      (Windows.captureKey mods k.usage down sys).2 =
        some (.key k.usage down (updateModifier mods k.usage down)) := by
  obtain ⟨sc, hsc⟩ := Option.isSome_iff_exists.1
    ((isSome_hidUsageToScancode k.usage).trans k.mapped)
  rw [Windows.captureKey, hsc]
  simp only [Windows.keyboardEventFromParts_of hsc, and_self]

/-- The two platforms of the injectors and captures. -/
inductive Platform where
  | linux
  | windows
deriving DecidableEq

def Platform.source : Platform → KeySource
  | .linux => {
      State := Linux.EmergencyReclaim
      new := .new
      mods := Linux.EmergencyReclaim.heldMods
      capture := Linux.captureKey
      mods_new := rfl
      capture_key := Linux.captureKey_eq }
  | .windows => {
      State := UInt16
      new := 0
      mods := id
      capture := Windows.captureKey
      mods_new := rfl
      capture_key := Windows.captureKey_eq }

/-! ## Targets -/

/-- The transitions that inject a key: the modifiers before it goes down, or after it goes up, in
reverse. -/
def injection {κ : Type} (code : MappedKey → κ) (k : MappedKey) (down : Bool) (mods : UInt16) :
    List (κ × Bool) :=
  if down then (modifierKeys mods).map (fun m => (code m, true)) ++ [(code k, true)]
  else (code k, false) :: (modifierKeys mods).reverse.map fun m => (code m, false)

/-- An injector: the transitions it makes on its virtual keyboard, if it does not fail. -/
structure KeyTarget where
  Code : Type
  [decEq : DecidableEq Code]
  code : MappedKey → Code
  key : UInt16 → Bool → UInt16 → Option (List (Code × Bool))
  code_injective : Function.Injective code
  key_eq : ∀ (k : MappedKey) (down : Bool) (mods : UInt16),
    key k.usage down mods = some (injection code k down mods)

instance (t : KeyTarget) : DecidableEq t.Code := t.decEq

/-- `UinputInjector::key`. -/
def Linux.key (usage : UInt16) (down : Bool) (mods : UInt16) : Option (List (UInt16 × Bool)) :=
  match Linux.hidUsageToEvdevCode usage with
  | none => none
  | some key =>
    let modifiers := Linux.modsToEvdev mods
    some (if down then modifiers.map (·, true) ++ [(key, true)]
      else (key, false) :: modifiers.reverse.map (·, false))

/-- `inject::key`: one key through `SendInput`. -/
def Windows.sendKey (usage : UInt16) (down : Bool) : Option (Windows.ScanCode × Bool) :=
  (Windows.hidUsageToScancode usage).map (·, down)

/-- `WinInjector::key`. -/
def Windows.key (usage : UInt16) (down : Bool) (mods : UInt16) :
    Option (List (Windows.ScanCode × Bool)) :=
  let modifiers := modifierUsages mods
  if down then do
    let ms ← modifiers.mapM (Windows.sendKey · true)
    let k ← Windows.sendKey usage true
    return ms ++ [k]
  else do
    let k ← Windows.sendKey usage false
    let ms ← modifiers.reverse.mapM (Windows.sendKey · false)
    return k :: ms

/-- The evdev code of a mapped key. -/
def Linux.code (k : MappedKey) : UInt16 := (Linux.hidUsageToEvdevCode k.usage).get k.mapped

/-- The scan code of a mapped key. -/
def Windows.code (k : MappedKey) : Windows.ScanCode :=
  (Windows.hidUsageToScancode k.usage).get ((isSome_hidUsageToScancode k.usage).trans k.mapped)

theorem Linux.hidUsageToEvdevCode_key (k : MappedKey) :
    Linux.hidUsageToEvdevCode k.usage = some (Linux.code k) :=
  (Option.some_get k.mapped).symm

theorem Windows.hidUsageToScancode_key (k : MappedKey) :
    Windows.hidUsageToScancode k.usage = some (Windows.code k) :=
  (Option.some_get _).symm

theorem Linux.key_eq (k : MappedKey) (down : Bool) (mods : UInt16) :
    Linux.key k.usage down mods = some (injection Linux.code k down mods) := by
  have hmods : Linux.modsToEvdev mods = (modifierKeys mods).map Linux.code := by
    rw [Linux.modsToEvdev, ← map_usage_modifierKeys, List.filterMap_map, ← List.filterMap_eq_map]
    exact List.filterMap_congr fun m _ => Linux.hidUsageToEvdevCode_key m
  rw [Linux.key, Linux.hidUsageToEvdevCode_key, hmods]
  cases down with
  | true => simp [injection]
  | false => simp [injection]

theorem Windows.key_eq (k : MappedKey) (down : Bool) (mods : UInt16) :
    Windows.key k.usage down mods = some (injection Windows.code k down mods) := by
  have hsend (k : MappedKey) (down : Bool) :
      Windows.sendKey k.usage down = some (Windows.code k, down) := by
    rw [Windows.sendKey, Windows.hidUsageToScancode_key]
    rfl
  have hmods (ms : List MappedKey) (down : Bool) :
      (ms.map MappedKey.usage).mapM (Windows.sendKey · down) =
        some (ms.map fun m => (Windows.code m, down)) := by
    induction ms with
    | nil => rfl
    | cons m ms ih => simp [hsend, ih]
  rw [Windows.key, ← map_usage_modifierKeys]
  cases down with
  | true => simp [injection, hsend, hmods]
  | false => simp [injection, hsend, hmods, ← List.map_reverse]

def Platform.target : Platform → KeyTarget
  | .linux => {
      Code := UInt16
      code := Linux.code
      key := Linux.key
      code_injective := fun k k' h => MappedKey.ext <|
        Linux.hidUsageToEvdevCode_inj (Linux.hidUsageToEvdevCode_key k)
          (h ▸ Linux.hidUsageToEvdevCode_key k')
      key_eq := Linux.key_eq }
  | .windows => {
      Code := Windows.ScanCode
      code := Windows.code
      key := Windows.key
      code_injective := fun k k' h => MappedKey.ext <|
        Windows.hidUsageToScancode_inj (Windows.hidUsageToScancode_key k)
          (h ▸ Windows.hidUsageToScancode_key k')
      key_eq := Windows.key_eq }

/-! ## The virtual keyboard -/

/-- The keys held after transitions. -/
def strokes {κ : Type} [DecidableEq κ] (held : Finset κ) (transitions : List (κ × Bool)) :
    Finset κ :=
  transitions.foldl (fun held t => if t.2 then insert t.1 held else held.erase t.1) held

section
variable {κ : Type} [DecidableEq κ] (held : Finset κ)

theorem strokes_append (ts ts' : List (κ × Bool)) :
    strokes held (ts ++ ts') = strokes (strokes held ts) ts' :=
  List.foldl_append

theorem strokes_down (keys : List κ) :
    strokes held (keys.map fun k => (k, true)) = held ∪ keys.toFinset := by
  induction keys generalizing held with
  | nil => simp [strokes]
  | cons k keys ih =>
    rw [List.map_cons, strokes, List.foldl_cons, ← strokes, ih]
    simp [Finset.insert_union]

theorem strokes_up (keys : List κ) :
    strokes held (keys.map fun k => (k, false)) = held \ keys.toFinset := by
  induction keys generalizing held with
  | nil => simp [strokes]
  | cons k keys ih =>
    rw [List.map_cons, strokes, List.foldl_cons, ← strokes, ih]
    simp [Finset.erase_sdiff_comm, Finset.sdiff_insert]

end

/-! ## Source and target -/

/-- A transition of the source's keyboard: with Alt held, Windows makes it a system one. -/
structure Transition where
  key : MappedKey
  down : Bool
  sys : Bool
deriving DecidableEq

/-- The keys physically held, the capture on the source, and the keys held on the target. -/
structure Desks (source : KeySource) (target : KeyTarget) where
  physical : Finset MappedKey
  capture : source.State
  held : Finset target.Code

namespace Desks

variable {source : KeySource} {target : KeyTarget}

def new : Desks source target := ⟨∅, source.new, ∅⟩

/-- The keys physically held after a transition. -/
def moved (physical : Finset MappedKey) (t : Transition) : Finset MappedKey :=
  if t.down then insert t.key physical else physical.erase t.key

/-- The report of a key, injected. -/
def inject (held : Finset target.Code) : Option LocalInputEvent → Finset target.Code
  | some (.key usage down mods) =>
    match target.key usage down mods with
    | some transitions => strokes held transitions
    | none => held
  | _ => held

/-- A key that is not where it was moves: it is captured, and its report is injected. -/
def step (d : Desks source target) (t : Transition) : Desks source target × Unit :=
  if (decide (t.key ∈ d.physical)) = t.down then (d, ())
  else
    let (capture, event) := source.capture d.capture t.key.usage t.down t.sys
    ({ physical := moved d.physical t, capture, held := inject d.held event }, ())

def machine (source : KeySource) (target : KeyTarget) :
    Machine (Desks source target) Transition Unit := ⟨step⟩

/-- The keys held on the target are the keys physically held. -/
def Follows (d : Desks source target) : Prop := d.held = d.physical.image target.code

/-- The capture has seen the modifiers that are held. -/
def Knows (d : Desks source target) : Prop :=
  source.mods d.capture = modifierMask fun m => m.key ∈ d.physical

/-- A key goes up while a modifier, another one, is held. -/
def ReleasesUnder (d : Desks source target) (t : Transition) : Prop :=
  t.down = false ∧ t.key ∈ d.physical ∧ ∃ m : ModifierKey, m.key ∈ d.physical ∧ m.key ≠ t.key

/-- The mask follows the keyboard. -/
theorem updateModifier_moved (physical : Finset MappedKey) (t : Transition) :
    updateModifier (modifierMask fun m => m.key ∈ physical) t.key.usage t.down =
      modifierMask fun m => m.key ∈ moved physical t := by
  have hmem (m : ModifierKey) : decide (m.key ∈ moved physical t) =
      if m.key = t.key then t.down else decide (m.key ∈ physical) := by
    unfold moved
    cases t.down <;> by_cases hm : m.key = t.key <;> simp [hm]
  simp only [hmem]
  by_cases hmod : ∃ m : ModifierKey, m.key = t.key
  · obtain ⟨m, hm⟩ := hmod
    have husage : t.key.usage = m.usage := congrArg MappedKey.usage hm.symm
    rw [husage, updateModifier_modifierMask]
    congr 1
    funext k
    simp only [Function.update_apply, ← hm, ModifierKey.key_injective.eq_iff]
  · have hne (m : ModifierKey) : m.key ≠ t.key := fun h => hmod ⟨m, h⟩
    have husage (m : ModifierKey) : m.usage ≠ t.key.usage := fun h => hne m (MappedKey.ext h)
    simp only [updateModifier_of_ne husage, hne, if_false]

theorem step_of_eq {d : Desks source target} {t : Transition}
    (h : (decide (t.key ∈ d.physical)) = t.down) : d.step t = (d, ()) :=
  if_pos h

/-- What a transition does, when the capture has seen the modifiers held. -/
theorem step_of_ne {d : Desks source target} {t : Transition}
    (h : (decide (t.key ∈ d.physical)) ≠ t.down) (hknows : d.Knows) :
    (d.step t).1.Knows ∧ (d.step t).1.physical = moved d.physical t ∧
      (d.step t).1.held = strokes d.held (injection target.code t.key t.down
        (modifierMask fun m => m.key ∈ moved d.physical t)) := by
  obtain ⟨hmods, hevent⟩ := source.capture_key d.capture t.key t.down t.sys
  rw [hknows, updateModifier_moved] at hmods hevent
  have hstep : (d.step t).1 = ⟨moved d.physical t,
      (source.capture d.capture t.key.usage t.down t.sys).1,
      inject d.held (source.capture d.capture t.key.usage t.down t.sys).2⟩ :=
    congrArg Prod.fst (if_neg h)
  rw [hstep]
  refine ⟨hmods, rfl, ?_⟩
  rw [hevent, inject, target.key_eq]

theorem image_modifierKeys {κ : Type} [DecidableEq κ] (code : MappedKey → κ) (mods : UInt16) :
    ((modifierKeys mods).map code).toFinset = (modifierKeys mods).toFinset.image code := by
  ext c
  simp

/-- A key that goes down presses no modifier that is not held. -/
theorem strokes_injection_down {d : Desks source target} (hfollows : d.Follows) {k : MappedKey}
    {held : ModifierKey → Bool} (hheld : ∀ m, held m = true → m.key ∈ insert k d.physical) :
    strokes d.held (injection target.code k true (modifierMask held)) =
      (insert k d.physical).image target.code := by
  have hsub : (modifierKeys (modifierMask held)).toFinset ⊆ insert k d.physical := by
    intro k' hk'
    obtain ⟨m, hm, rfl⟩ := mem_modifierKeys.1 (List.mem_toFinset.1 hk')
    exact hheld m hm
  have hmap : (modifierKeys (modifierMask held)).map (fun m => (target.code m, true)) =
      ((modifierKeys (modifierMask held)).map target.code).map fun c => (c, true) := by
    rw [List.map_map]
    rfl
  calc strokes d.held (injection target.code k true (modifierMask held))
      = insert (target.code k) (d.held ∪
          ((modifierKeys (modifierMask held)).map target.code).toFinset) := by
        rw [injection, if_pos rfl, strokes_append, hmap, strokes_down]
        rfl
    _ = (insert k d.physical ∪ (modifierKeys (modifierMask held)).toFinset).image target.code := by
        rw [hfollows, image_modifierKeys, Finset.image_union, Finset.image_insert,
          Finset.insert_union]
    _ = (insert k d.physical).image target.code := by
        rw [Finset.union_eq_left.2 hsub]

/-- A key that goes up leaves the others held exactly when no modifier was. -/
theorem strokes_injection_up {d : Desks source target} (hfollows : d.Follows) {k : MappedKey}
    {held : ModifierKey → Bool} (hheld : ∀ m, held m = true → m.key ∈ d.physical.erase k) :
    strokes d.held (injection target.code k false (modifierMask held)) =
      (d.physical.erase k).image target.code ↔ ∀ m, held m = false := by
  have hsub : (modifierKeys (modifierMask held)).toFinset ⊆ d.physical.erase k := by
    intro k' hk'
    obtain ⟨m, hm, rfl⟩ := mem_modifierKeys.1 (List.mem_toFinset.1 hk')
    exact hheld m hm
  have hmap : (modifierKeys (modifierMask held)).reverse.map (fun m => (target.code m, false)) =
      ((modifierKeys (modifierMask held)).map target.code).reverse.map fun c => (c, false) := by
    rw [← List.map_reverse, List.map_map]
    rfl
  have hstrokes : strokes d.held (injection target.code k false (modifierMask held)) =
      (d.physical.erase k \ (modifierKeys (modifierMask held)).toFinset).image target.code := by
    rw [injection, if_neg Bool.false_ne_true, hmap, strokes, List.foldl_cons, ← strokes, strokes_up,
      List.toFinset_reverse, image_modifierKeys, Finset.image_sdiff _ _ target.code_injective,
      Finset.image_erase target.code_injective, ← hfollows]
    rfl
  rw [hstrokes, (Finset.image_injective target.code_injective).eq_iff,
    Finset.sdiff_eq_self_iff_disjoint, Finset.disjoint_right]
  refine ⟨?_, ?_⟩
  · intro h m
    by_contra hm
    have hmem := List.mem_toFinset.2 (mem_modifierKeys.2 ⟨m, by simpa using hm, rfl⟩)
    exact h hmem (hsub hmem)
  · intro h k' hk'
    obtain ⟨m, hm, -⟩ := mem_modifierKeys.1 (List.mem_toFinset.1 hk')
    rw [h m] at hm
    cases hm

theorem knows_new : (new : Desks source target).Knows := by
  have hnone : (fun m : ModifierKey => decide (m.key ∈ (∅ : Finset MappedKey))) =
      fun _ => false := by
    funext m
    exact decide_eq_false (Finset.notMem_empty _)
  rw [Knows, new, source.mods_new, hnone]
  rfl

theorem Knows.step {d : Desks source target} (hknows : d.Knows) (t : Transition) :
    (d.step t).1.Knows := by
  by_cases hmoves : (decide (t.key ∈ d.physical)) = t.down
  · rwa [step_of_eq hmoves]
  · exact (step_of_ne hmoves hknows).1

/-- **One transition.** The target that follows goes on to do so exactly when the transition is not
a release under a modifier. -/
theorem step_follows_iff {d : Desks source target} {t : Transition} (hknows : d.Knows)
    (hfollows : d.Follows) : (d.step t).1.Follows ↔ ¬ d.ReleasesUnder t := by
  by_cases hmoves : (decide (t.key ∈ d.physical)) = t.down
  · rw [step_of_eq hmoves]
    refine iff_of_true hfollows ?_
    rintro ⟨hup, hheld, -⟩
    rw [hup, decide_eq_false_iff_not] at hmoves
    exact hmoves hheld
  · obtain ⟨-, hphysical, hheld⟩ := step_of_ne hmoves hknows
    rw [Follows, hheld, hphysical]
    cases hdown : t.down with
    | true =>
      have hmoved : moved d.physical t = insert t.key d.physical := if_pos hdown
      rw [hmoved]
      refine iff_of_true (strokes_injection_down hfollows fun m hm => of_decide_eq_true hm) ?_
      rintro ⟨hup, -⟩
      rw [hup] at hdown
      cases hdown
    | false =>
      have hmoved : moved d.physical t = d.physical.erase t.key :=
        if_neg (by rw [hdown]; exact Bool.false_ne_true)
      have hmem : t.key ∈ d.physical := by
        by_contra hmem
        exact hmoves (by rw [hdown, decide_eq_false hmem])
      rw [hmoved, strokes_injection_up hfollows fun m hm => of_decide_eq_true hm]
      simp only [decide_eq_false_iff_not, Finset.mem_erase, ReleasesUnder, hdown, hmem, true_and,
        not_exists, not_and, imp_not_comm]

end Desks

open Desks

/-- **The target follows the keyboard exactly while no key goes up under a modifier.** For each
source and target of Linux and Windows, and every history of presses and releases of mapped keys,
the keys held on the target are the keys physically held after every event if and only if no key is
released while another key, a modifier, is held. -/
theorem follows_iff (source target : Platform) (history : List Transition) :
    (∀ before, before <+: history →
      ((machine source.source target.target).exec .new before).Follows) ↔
      ∀ e ∈ (machine source.source target.target).trace .new history,
        ¬ e.pre.ReleasesUnder e.input := by
  have h := (machine source.source target.target).forall_prefix_iff
    (P := fun _ d => d.Knows ∧ d.Follows) (D := fun e => e.pre.ReleasesUnder e.input)
    ⟨knows_new, rfl⟩ ?_ history
  · rw [← h]
    refine forall₂_congr fun before _ => (and_iff_right ?_).symm
    exact (machine source.source target.target).inv_exec knows_new
      (fun _ t hknows => hknows.step t) before
  · rintro tr d t ⟨hknows, hfollows⟩
    exact (and_iff_right (hknows.step t)).trans (step_follows_iff hknows hfollows)

/-! ## A modifier kept held -/

/-- Left Shift goes down, A goes down and up, and Shift is still held. -/
def shiftKept : List Transition :=
  [⟨ModifierKey.leftShift.key, true, false⟩, ⟨⟨0x04, rfl⟩, true, false⟩,
   ⟨⟨0x04, rfl⟩, false, false⟩]

/-- The release of A takes Shift up on the target. -/
theorem not_follows_shiftKept :
    ¬ ∀ before, before <+: shiftKept →
      ((machine Platform.linux.source Platform.windows.target).exec .new before).Follows := by
  intro h
  have hheld : ModifierKey.leftShift.key ∈
      ((machine Platform.linux.source Platform.windows.target).exec .new shiftKept).physical := by
    decide +kernel
  have hshift := Finset.mem_image_of_mem Platform.windows.target.code hheld
  rw [← h _ (List.prefix_refl _)] at hshift
  have hup : Platform.windows.target.code ModifierKey.leftShift.key ∉
      ((machine Platform.linux.source Platform.windows.target).exec .new shiftKept).held := by
    decide +kernel
  exact hup hshift

end Mouser
