import Mouser.Clipboard.Driver

/-!
# A newer offer supersedes the older ones

When an offer reaches the engine and the engine receives, the pulls from its origin are ended that
it does not offer again. The driver drops an offer that has nothing this peer can transfer, and the
engine one that arrives while receiving is off; the older pulls then go on. `Latest.step_iff` says
which events keep the outstanding pulls in line with the most recent offers, and
`applied_in_last_offer` what is applied in a run of such events.
-/

namespace Mouser

namespace ClipboardEngine

/-! ## Which pulls are outstanding -/

theorem outstanding_of_tick {e : ClipboardEngine} {nowTick : UInt64} {k : PullKey}
    (h : (e.tick nowTick).1.Outstanding k) : e.Outstanding k := by
  obtain ⟨p, hp⟩ := h
  exact ⟨p, PendingPulls.lookup_of_lookup_expireStalled _ k hp⟩

theorem outstanding_of_onDataFrom [Sha256] {e : ClipboardEngine} {origin : DeviceId}
    {data : ClipboardData} {k : PullKey} (h : (e.onDataFrom origin data).1.Outstanding k) :
    e.Outstanding k := by
  obtain ⟨q, hq⟩ := h
  rcases e.data_cases (some origin) data with ⟨err, -, heq⟩ | ⟨key, -, heq⟩
  · exact ⟨q, (congrArg (fun r => r.1.pending.entries.lookup k) heq).symm.trans hq⟩
  · have hq' := (congrArg (fun r => r.1.pending.entries.lookup k) heq).symm.trans hq
    rcases lookup_of_lookup_onDataForKey hq' with ⟨-, hp⟩ | ⟨-, -, p, hp, -⟩
    · exact ⟨q, hp⟩
    · exact ⟨p, hp⟩

theorem onOffer_deviceId (e : ClipboardEngine) (offer : ClipboardOffer) (peerOs : Os) :
    (e.onOffer offer peerOs).1.deviceId = e.deviceId := by
  have hcases := e.onOffer_cases offer peerOs
  generalize e.onOffer offer peerOs = result at hcases
  cases hcases <;> rfl

theorem onOffer_of_not_canReceive {e : ClipboardEngine} (h : e.settings.canReceive = false)
    (offer : ClipboardOffer) (peerOs : Os) : e.onOffer offer peerOs = (e, .ok none) := by
  rw [onOffer, h]
  rfl

theorem outstanding_of_supersedeOrigin {e : ClipboardEngine} {origin : DeviceId}
    {offer : ClipboardOffer} {k : PullKey} (h : (e.supersedeOrigin origin offer).Outstanding k) :
    e.Outstanding k ∧ (k.origin = origin → k ∈ offeredKeys origin offer) := by
  obtain ⟨p, hp⟩ := h
  refine ⟨⟨p, lookup_of_lookup_supersedeOrigin hp⟩, ?_⟩
  intro horigin
  rw [supersedeOrigin, PendingPulls.lookup_retainOriginOffer, Option.ite_none_left_eq_some] at hp
  exact not_not.1 fun hnot => hp.1 ⟨horigin, hnot⟩

theorem mem_offeredKeys {origin : DeviceId} {offer : ClipboardOffer} {k : PullKey} :
    k ∈ offeredKeys origin offer ↔ k.origin = origin ∧
      ∃ entry ∈ offer.entries, entry.format = k.format ∧ parseHash entry.hash = .ok k.hash := by
  have hparse : ∀ bytes hash, Hash.ofBytes bytes = some hash ↔ parseHash bytes = .ok hash := by
    intro bytes hash
    unfold parseHash
    cases Hash.ofBytes bytes <;> simp
  simp only [offeredKeys, List.mem_filterMap, Option.map_eq_some_iff, hparse]
  refine ⟨?_, ?_⟩
  · rintro ⟨entry, hentry, hash, hhash, rfl⟩
    exact ⟨rfl, entry, hentry, rfl, hhash⟩
  · rintro ⟨rfl, entry, hentry, hformat, hhash⟩
    exact ⟨entry, hentry, k.hash, hhash, by rw [hformat]⟩

/-- An offer may leave the pull under `k`: it is from another device and for what the offer
offers, or is not from the origin of the offer and was there before. -/
structure Spared (e : ClipboardEngine) (offer : ClipboardOffer) (k : PullKey) : Prop where
  other : k.origin ≠ e.deviceId
  offered : parseDeviceId offer.origin = .ok k.origin → k ∈ offeredKeys k.origin offer
  before : parseDeviceId offer.origin ≠ .ok k.origin → e.Outstanding k

/-- **What an offer leaves outstanding**, while the device receives and has no pull from itself. -/
theorem outstanding_onOffer {e : ClipboardEngine} (hreceive : e.settings.canReceive = true)
    (hown : ∀ k, e.Outstanding k → k.origin ≠ e.deviceId) {offer : ClipboardOffer} {peerOs : Os}
    {k : PullKey} (h : (e.onOffer offer peerOs).1.Outstanding k) : e.Spared offer k := by
  have hcases := e.onOffer_cases offer peerOs
  generalize e.onOffer offer peerOs = result at h hcases
  have hsuperseded : ∀ {origin}, parseDeviceId offer.origin = .ok origin →
      (e.supersedeOrigin origin offer).Outstanding k → e.Spared offer k := by
    intro origin horigin hk
    obtain ⟨hbefore, hoffered⟩ := outstanding_of_supersedeOrigin hk
    refine ⟨hown k hbefore, ?_, fun _ => hbefore⟩
    intro hsame
    obtain rfl := Except.ok.inj (horigin.symm.trans hsame)
    exact hoffered rfl
  cases hcases with
  | closed hclosed =>
    rw [hreceive] at hclosed
    cases hclosed
  | malformed herr =>
    refine ⟨hown k h, ?_, fun _ => h⟩
    intro hsame
    exact nomatch herr.symm.trans hsame
  | reflected hself =>
    refine ⟨hown k h, ?_, fun _ => h⟩
    intro hsame
    exact absurd (Except.ok.inj (hself.symm.trans hsame)).symm (hown k h)
  | @native origin horigin =>
    obtain ⟨p, hp⟩ := h
    rw [PendingPulls.lookup_removeOrigin, Option.ite_none_left_eq_some] at hp
    refine ⟨hown k ⟨p, hp.2⟩, ?_, fun _ => ⟨p, hp.2⟩⟩
    intro hsame
    exact absurd (Except.ok.inj (horigin.symm.trans hsame)).symm hp.1
  | nothing horigin => exact hsuperseded horigin h
  | badHash horigin => exact hsuperseded horigin h
  | @pulled origin entry hash horigin hne hbest hhash =>
    obtain ⟨p, hp⟩ := h
    rcases PendingPulls.lookup_of_lookup_insert _ _ hp with ⟨rfl, -⟩ | ⟨-, hp⟩
    · refine ⟨hne, fun _ => ?_, fun hother => absurd horigin hother⟩
      exact mem_offeredKeys.2 ⟨rfl, entry, (bestEntry_mem hbest).1, rfl, hhash⟩
    · exact hsuperseded horigin ⟨p, hp⟩

end ClipboardEngine

namespace DriverEvent

/-- The offer that is received, if it names `origin` as its own. -/
def offerFrom (origin : DeviceId) : DriverEvent → Option ClipboardOffer
  | .control _ (.offer (some offer)) =>
    if parseDeviceId offer.origin = .ok origin then some offer else none
  | _ => none

end DriverEvent

/-- The most recent offer of `origin`. -/
def lastOffer (origin : DeviceId) (events : List DriverEvent) : Option ClipboardOffer :=
  (events.filterMap (·.offerFrom origin)).getLast?

theorem lastOffer_concat (origin : DeviceId) (events : List DriverEvent) (i : DriverEvent) :
    lastOffer origin (events ++ [i]) = (i.offerFrom origin).or (lastOffer origin events) := by
  rw [lastOffer, List.filterMap_append, List.getLast?_append, List.filterMap_cons]
  cases i.offerFrom origin <;> rfl

theorem supportedOffer_eq_some {offer offer' : ClipboardOffer} {bulkEnabled : Bool}
    (h : supportedOffer offer bulkEnabled = some offer') :
    offer'.origin = offer.origin ∧ ∀ entry ∈ offer'.entries, entry ∈ offer.entries := by
  unfold supportedOffer at h
  dsimp only at h
  split at h
  · cases h
  · cases h
    exact ⟨rfl, fun entry hentry => (List.mem_filter.1 hentry).1⟩

theorem applied_not_mem_route {data : List ClipboardData} {bulkEnabled : Bool}
    (clip : AppliedClip) (format : Option CoreClipFormat) :
    .applied clip format ∉ routeClipboardData data bulkEnabled := by
  intro h
  unfold routeClipboardData at h
  rcases List.mem_append.1 h with h | h
  · obtain ⟨chunk, -, heq⟩ := List.mem_map.1 h
    cases heq
  · generalize (if bulkEnabled then data.filter (!isControlData ·) else []) = bulk at h
    split at h
    · cases h
    · cases List.mem_singleton.1 h

namespace ClipboardDriver

open ClipboardEngine (offeredKeys abcOffer abcData)

/-! ## The most recent offers and the outstanding pulls -/

/-- The event is not an offer that is dropped, by the driver or by the engine, while a pull from its
origin is outstanding that it does not offer again. -/
def Heeds (d : ClipboardDriver) : DriverEvent → Prop
  | .control settings (.offer (some offer)) =>
    (settings.canReceive = true ∧ supportedOffer offer d.session.bulkEnabled ≠ none) ∨
    ∀ k, d.session.engine.Outstanding k → parseDeviceId offer.origin = .ok k.origin →
      k ∈ offeredKeys k.origin offer
  | _ => True

/-- Every pull is from another device, and for what its most recent offer offers. -/
structure Latest (d : ClipboardDriver) (events : List DriverEvent) : Prop where
  other : ∀ k, d.session.engine.Outstanding k → k.origin ≠ d.session.engine.deviceId
  offered : ∀ k, d.session.engine.Outstanding k →
    ∃ offer, lastOffer k.origin events = some offer ∧ k ∈ offeredKeys k.origin offer

variable {d d' : ClipboardDriver} {events : List DriverEvent} {i : DriverEvent}

/-- An event that is not an offer and starts no pull. -/
theorem Latest.quiet (h : Latest d events) (hoffer : ∀ origin, i.offerFrom origin = none)
    (hkeys : ∀ k, d'.session.engine.Outstanding k → d.session.engine.Outstanding k)
    (hself : d'.session.engine.deviceId = d.session.engine.deviceId) :
    Latest d' (events ++ [i]) where
  other k hk := hself ▸ h.other k (hkeys k hk)
  offered k hk := by
    rw [lastOffer_concat, hoffer, Option.none_or]
    exact h.offered k (hkeys k hk)

theorem Latest.of_offer (h : Latest d events) {settings : ClipboardSettings}
    {offer : ClipboardOffer} (hself : d'.session.engine.deviceId = d.session.engine.deviceId)
    (hspared : ∀ k, d'.session.engine.Outstanding k → d.session.engine.Spared offer k) :
    Latest d' (events ++ [.control settings (.offer (some offer))]) where
  other k hk := hself ▸ (hspared k hk).other
  offered k hk := by
    rw [lastOffer_concat, DriverEvent.offerFrom]
    by_cases hsame : parseDeviceId offer.origin = .ok k.origin
    · rw [if_pos hsame, Option.some_or]
      exact ⟨offer, rfl, (hspared k hk).offered hsame⟩
    · rw [if_neg hsame, Option.none_or]
      exact h.offered k ((hspared k hk).before hsame)

/-- An offer that does not reach the engine, or that the engine does not receive. -/
theorem onOffer_dropped {s : ClipboardSession} {offer : ClipboardOffer}
    (h : ¬ (s.engine.settings.canReceive = true ∧ supportedOffer offer s.bulkEnabled ≠ none)) :
    (s.onOffer offer).1 = s := by
  unfold ClipboardSession.onOffer
  cases hsupported : supportedOffer offer s.bulkEnabled with
  | none => rfl
  | some offer' =>
    cases hreceive : s.engine.settings.canReceive with
    | true => exact absurd ⟨hreceive, by rw [hsupported]; nofun⟩ h
    | false =>
      dsimp only
      rw [ClipboardEngine.onOffer_of_not_canReceive hreceive]

theorem Latest.step_offer (h : Latest d events) {settings : ClipboardSettings}
    {offer : ClipboardOffer} (hheeds : d.Heeds (.control settings (.offer (some offer)))) :
    Latest { d with session := ((d.session.setSettings settings).onOffer offer).1 }
      (events ++ [.control settings (.offer (some offer))]) := by
  by_cases hreached : settings.canReceive = true ∧
      supportedOffer offer d.session.bulkEnabled ≠ none
  · obtain ⟨hreceive, hsome⟩ := hreached
    obtain ⟨offer', hsupported⟩ := Option.ne_none_iff_exists'.1 hsome
    obtain ⟨horigin, hentries⟩ := supportedOffer_eq_some hsupported
    have hengine : ((d.session.setSettings settings).onOffer offer).1.engine =
        ((d.session.engine.setSettings settings).onOffer offer' d.session.peerOs).1 := by
      rw [ClipboardSession.onOffer, ClipboardSession.setSettings, hsupported]
    have hself := ClipboardEngine.onOffer_deviceId (d.session.engine.setSettings settings) offer'
      d.session.peerOs
    refine h.of_offer (by rw [hengine, hself]; rfl) ?_
    intro k hk
    rw [hengine] at hk
    obtain ⟨hother, hoffered, hbefore⟩ := ClipboardEngine.outstanding_onOffer
      (e := d.session.engine.setSettings settings) hreceive h.other hk
    rw [horigin] at hoffered hbefore
    refine ⟨hother, ?_, hbefore⟩
    intro hsame
    obtain ⟨-, entry, hentry, hformat, hhash⟩ :=
      ClipboardEngine.mem_offeredKeys.1 (hoffered hsame)
    exact ClipboardEngine.mem_offeredKeys.2
      ⟨rfl, entry, hentries entry hentry, hformat, hhash⟩
  · have hsession := onOffer_dropped (s := d.session.setSettings settings) hreached
    rw [hsession]
    refine h.of_offer rfl ?_
    -- what is outstanding is offered again
    exact fun k hk => ⟨h.other k hk, hheeds.resolve_left hreached k hk, fun _ => hk⟩

section

variable [Sha256]

/-! ## One step -/

/-- The outcomes of a step. -/
inductive DriverStep (d : ClipboardDriver) (i : DriverEvent) :
    ClipboardDriver × List SessionOutput → Prop where
  /-- No offer, and nothing of the peer's content. -/
  | quiet {d' : ClipboardDriver} {outputs : List SessionOutput}
    (hoffer : ∀ origin, i.offerFrom origin = none)
    (hkeys : ∀ k, d'.session.engine.Outstanding k → d.session.engine.Outstanding k)
    (hself : d'.session.engine.deviceId = d.session.engine.deviceId)
    (hpeer : d'.session.peerId = d.session.peerId)
    (happlied : ∀ clip format, .applied clip format ∉ outputs) : DriverStep d i (d', outputs)
  | offered {settings : ClipboardSettings} {offer : ClipboardOffer}
    (hi : i = .control settings (.offer (some offer))) :
    DriverStep d i ({ d with session := ((d.session.setSettings settings).onOffer offer).1 },
      ((d.session.setSettings settings).onOffer offer).2)
  | received {settings : ClipboardSettings} {data : ClipboardData}
    (hoffer : ∀ origin, i.offerFrom origin = none) :
    DriverStep d i ({ d with session := ((d.session.setSettings settings).applyData data).1 },
      ((d.session.setSettings settings).applyData data).2)

theorem onTick_cases (d : ClipboardDriver) (settings : ClipboardSettings) (clipboard : Clipboard) :
    DriverStep d (.tick settings clipboard) (d.onTick settings clipboard) := by
  have htick : ∀ k, (((d.session.setSettings settings).engine.tick
      (d.tick.saturatingAdd 1)).1).Outstanding k → d.session.engine.Outstanding k := by
    intro k hk
    exact ClipboardEngine.outstanding_of_tick hk
  have hnone : ∀ clip format, SessionOutput.applied clip format ∉ [] := fun _ _ => List.not_mem_nil
  unfold onTick
  dsimp only
  split
  · exact .quiet (fun _ => rfl) htick rfl rfl hnone
  · split
    · exact .quiet (fun _ => rfl) htick rfl rfl hnone
    · obtain ⟨hself, hpending⟩ := ClipboardEngine.onLocalChange_frame
        ((d.session.setSettings settings).engine.tick (d.tick.saturatingAdd 1)).1
        (ClipboardSession.snapshotLocal clipboard
          ((d.session.setSettings settings).engine.tick (d.tick.saturatingAdd 1)).1.settings).1
      unfold ClipboardSession.localOffer
      refine .quiet (fun _ => rfl) ?_ hself rfl ?_
      · rintro k ⟨p, hp⟩
        refine htick k ⟨p, ?_⟩
        rw [← hpending]
        exact hp
      · intro clip format hmem
        obtain ⟨offer, -, heq⟩ := List.mem_map.1 hmem
        cases heq

theorem step_cases (d : ClipboardDriver) (i : DriverEvent) : DriverStep d i (d.step i) := by
  -- an event that the session does not act on
  have hstill : ∀ settings, (∀ origin, i.offerFrom origin = none) →
      DriverStep d i ({ d with session := d.session.setSettings settings }, []) :=
    fun settings hoffer => .quiet hoffer (fun _ => id) rfl rfl fun _ _ => List.not_mem_nil
  cases i with
  | tick settings clipboard => exact onTick_cases d settings clipboard
  | bulk settings peerId data =>
    unfold step
    dsimp only
    split
    · exact .quiet (fun _ => rfl) (fun _ => id) rfl rfl fun _ _ => List.not_mem_nil
    · exact .received fun _ => rfl
  | control settings msg =>
    cases msg with
    | offer payload =>
      cases payload with
      | none => exact hstill settings fun _ => rfl
      | some offer => exact .offered rfl
    | pull payload =>
      cases payload with
      | none => exact hstill settings fun _ => rfl
      | some pull =>
        refine .quiet (fun _ => rfl) (fun _ => id) rfl rfl ?_
        intro clip format hmem
        unfold ClipboardSession.onPull at hmem
        split at hmem
        · exact applied_not_mem_route clip format hmem
        · cases hmem
    | other => exact hstill settings fun _ => rfl
    | data payload =>
      cases payload with
      | none => exact hstill settings fun _ => rfl
      | some data =>
        unfold step ClipboardSession.onControl
        dsimp only
        split
        · exact hstill settings fun _ => rfl
        · exact .received fun _ => rfl

theorem Latest.step (h : Latest d events) (hheeds : d.Heeds i) :
    Latest (d.step i).1 (events ++ [i]) := by
  have hcases := d.step_cases i
  generalize d.step i = result at hcases
  cases hcases with
  | quiet hoffer hkeys hself => exact h.quiet hoffer hkeys hself
  | offered hi =>
    subst hi
    exact h.step_offer hheeds
  | @received settings data hoffer =>
    have hkeys : ∀ k, (((d.session.engine.setSettings settings).onDataFrom d.session.peerId
        data).1).Outstanding k → d.session.engine.Outstanding k := by
      intro k hk
      have hbefore : (d.session.engine.setSettings settings).Outstanding k :=
        ClipboardEngine.outstanding_of_onDataFrom hk
      exact hbefore
    exact h.quiet hoffer hkeys
      ((d.session.engine.setSettings settings).onDataFrom_frame d.session.peerId data).1

/-- An event that is not heeded leaves a pull that the most recent offer does not offer. -/
theorem Latest.heeds (hafter : Latest (d.step i).1 (events ++ [i])) : d.Heeds i := by
  cases i with
  | tick settings clipboard => trivial
  | bulk settings peerId data => trivial
  | control settings msg =>
    cases msg with
    | pull payload => trivial
    | data payload => trivial
    | other => trivial
    | offer payload =>
      cases payload with
      | none => trivial
      | some offer =>
        refine or_iff_not_imp_left.2 fun hdropped k hk hsame => ?_
        have hsession := onOffer_dropped (s := d.session.setSettings settings) hdropped
        have hk' : (d.step (.control settings (.offer (some offer)))).1.session.engine.Outstanding
            k := by
          rw [show (d.step (.control settings (.offer (some offer)))).1.session =
            d.session.setSettings settings from hsession]
          exact hk
        obtain ⟨offer', hlast, hmem⟩ := hafter.offered k hk'
        rw [lastOffer_concat, DriverEvent.offerFrom, if_pos hsame, Option.some_or] at hlast
        obtain rfl := Option.some.inj hlast
        exact hmem

/-- **One step.** The pulls that are outstanding are still for what the most recent offers offer
exactly when the event is heeded. -/
theorem Latest.step_iff (h : Latest d events) :
    Latest (d.step i).1 (events ++ [i]) ↔ d.Heeds i :=
  ⟨Latest.heeds, h.step⟩

theorem step_peerId (d : ClipboardDriver) (i : DriverEvent) :
    (d.step i).1.session.peerId = d.session.peerId := by
  have hcases := d.step_cases i
  generalize d.step i = result at hcases
  cases hcases with
  | quiet hoffer hkeys hself hpeer => exact hpeer
  | received => rfl
  | @offered settings offer =>
    show ((d.session.setSettings settings).onOffer offer).1.peerId = d.session.peerId
    unfold ClipboardSession.onOffer
    split <;> rfl

/-- A clip is applied only for data of the peer, by the engine with the settings of the event. -/
theorem applied_of_step {clip : AppliedClip} {format : Option CoreClipFormat}
    (h : .applied clip format ∈ (d.step i).2) : ∃ settings data,
      ((d.session.engine.setSettings settings).onDataFrom d.session.peerId data).2 =
        .ok (some clip) := by
  have hcases := d.step_cases i
  generalize d.step i = result at h hcases
  cases hcases with
  | quiet hoffer hkeys hself hpeer happlied => exact absurd h (happlied clip format)
  | offered =>
    unfold ClipboardSession.onOffer at h
    split at h
    · cases h
    · dsimp only at h
      split at h
      · cases List.mem_singleton.1 h
      · cases h
      · cases h
  | @received settings data =>
    refine ⟨settings, data, ?_⟩
    unfold ClipboardSession.applyData at h
    dsimp only at h
    split at h
    · next clip' heq =>
      obtain ⟨rfl, -⟩ := SessionOutput.applied.inj (List.mem_singleton.1 h)
      exact heq
    · cases h
    · cases h

/-- **What is applied was offered last.** In every run of the driver in which no offer is dropped,
for it has nothing that this peer can transfer or receiving is off, while a pull from its origin is
outstanding that it does not offer again, every clip that is applied is for a representation of the
most recent offer of the peer. -/
theorem applied_in_last_offer (myId peerId : DeviceId) (localOs peerOs : Os) (bulkEnabled : Bool)
    (clipboard : Clipboard) (events : List DriverEvent)
    (hheeds : ∀ x ∈ machine.trace (new (.new myId peerId localOs peerOs bulkEnabled) clipboard)
      events, x.pre.Heeds x.input) :
    ∀ earlier i later, events = earlier ++ i :: later → ∀ clip format,
      .applied clip format ∈ (machine.step (machine.exec
        (new (.new myId peerId localOs peerOs bulkEnabled) clipboard) earlier) i).2 →
      ∃ offer, lastOffer peerId earlier = some offer ∧
        { origin := peerId, format := clip.format, hash := sha256 clip.bytes } ∈
          offeredKeys peerId offer := by
  rintro earlier i later rfl clip format happlied
  set d0 := new (.new myId peerId localOs peerOs bulkEnabled) clipboard with hd0
  have hlatest : Latest (machine.exec d0 earlier) earlier ∧
      (machine.exec d0 earlier).session.peerId = peerId := by
    rw [Machine.trace_append] at hheeds
    have hheeds' : ∀ x ∈ machine.trace d0 earlier, x.pre.Heeds x.input :=
      fun x hx => hheeds x (List.mem_append_left _ hx)
    clear happlied hheeds
    induction earlier using List.reverseRecOn with
    | nil =>
      have hnone : ∀ k, ¬ d0.session.engine.Outstanding k := by
        rintro k ⟨p, hp⟩
        exact nomatch (PendingPulls.lookup_empty k).symm.trans hp
      exact ⟨⟨fun k hk => absurd hk (hnone k), fun k hk => absurd hk (hnone k)⟩, rfl⟩
    | append_singleton earlier i ih =>
      rw [Machine.trace_concat] at hheeds'
      obtain ⟨hlatest, hpeer⟩ := ih fun x hx => hheeds' x (List.mem_append_left _ hx)
      rw [Machine.exec_concat]
      exact ⟨hlatest.step_iff.2 (hheeds' _ (List.mem_append_right _ (.head _))),
        (step_peerId _ i).trans hpeer⟩
  obtain ⟨hlatest, hpeer⟩ := hlatest
  obtain ⟨settings, data, hclip⟩ := applied_of_step happlied
  obtain ⟨hash, p, -, hlookup, -, hformat, hhash, -⟩ := ClipboardEngine.onDataFrom_applies hclip
  obtain ⟨offer, hoffer, hmem⟩ := hlatest.offered _ ⟨p, hlookup⟩
  rw [hpeer] at hoffer hmem
  rw [hformat, hhash]
  exact ⟨offer, hoffer, hmem⟩

end

/-! ## A text and an image -/

/-- The driver of the first device for the second. -/
def ofBulk (bulkEnabled : Bool) : ClipboardDriver :=
  new (.new (.fill 1) (.fill 2) .linux .windows bulkEnabled) ⟨none, fun _ => none⟩

def abcInput : DriverEvent := .control .initial (.offer (some abcOffer))

def abcDataInput : DriverEvent := .control .initial (.data (some abcData))

theorem applied_in_last_offer_abc :
    letI := Sha256.abc
    let outputs := (machine.step (machine.exec (ofBulk true) [abcInput]) abcDataInput).2
    .applied ⟨.utf8Text, [97, 98, 99]⟩ (some .utf8Text) ∈ outputs ∧
      ∃ offer, lastOffer (.fill 2) [abcInput] = some offer ∧
        { origin := .fill 2, format := .utf8Text, hash := sha256 [97, 98, 99] } ∈
          offeredKeys (.fill 2) offer := by
  let _ : Sha256 := Sha256.abc
  intro outputs
  have happlied : .applied ⟨.utf8Text, [97, 98, 99]⟩ (some .utf8Text) ∈ outputs := by
    decide +kernel
  refine ⟨happlied, ?_⟩
  refine applied_in_last_offer (.fill 1) (.fill 2) .linux .windows true ⟨none, fun _ => none⟩
    [abcInput, abcDataInput] ?_ [abcInput] abcDataInput [] rfl _ _ happlied
  rw [Machine.trace_cons, Machine.trace_cons, Machine.trace_nil]
  refine List.forall_mem_cons.2 ⟨.inl ⟨rfl, by decide⟩, List.forall_mem_cons.2 ⟨trivial, ?_⟩⟩
  exact List.forall_mem_nil _

/-- An image takes the place of the text. -/
def pngOffer : ClipboardOffer where
  entries := [{ format := .png, hash := Hash.ofEmpty.bytes, size := 0 }]
  origin := (DeviceId.fill 2).bytes

def sendOnly : ClipboardSettings := { ClipboardSettings.initial with direction := .sendOnly }

/-- The text is applied after the image was offered: receiving was off when it was, or there is no
bulk plane that could carry it. -/
theorem applied_after_pngOffer :
    letI := Sha256.abc
    let closed := [abcInput, .control sendOnly (.offer (some pngOffer))]
    let unsupported := [abcInput, .control .initial (.offer (some pngOffer))]
    lastOffer (.fill 2) closed = some pngOffer ∧ lastOffer (.fill 2) unsupported = some pngOffer ∧
      (∀ hash, { origin := .fill 2, format := .utf8Text, hash } ∉ offeredKeys (.fill 2) pngOffer) ∧
      .applied ⟨.utf8Text, [97, 98, 99]⟩ (some .utf8Text) ∈
        (machine.step (machine.exec (ofBulk true) closed) abcDataInput).2 ∧
      .applied ⟨.utf8Text, [97, 98, 99]⟩ (some .utf8Text) ∈
        (machine.step (machine.exec (ofBulk false) unsupported) abcDataInput).2 := by
  let _ : Sha256 := Sha256.abc
  intro closed unsupported
  refine ⟨by decide +kernel, by decide +kernel, ?_, by decide +kernel, by decide +kernel⟩
  intro hash hmem
  obtain ⟨-, entry, hentry, hformat, -⟩ := ClipboardEngine.mem_offeredKeys.1 hmem
  obtain rfl := List.mem_singleton.1 hentry
  cases hformat

end ClipboardDriver

end Mouser
