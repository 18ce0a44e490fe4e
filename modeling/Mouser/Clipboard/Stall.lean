import Mouser.Clipboard.Pulls
import Mouser.Lib.Lists

/-!
# When a pull is given up

A pull gets its deadline when its offer comes in, and no chunk moves it. So `tick` gives up a pull
`PULL_STALL_TICKS` after the offer, whether or not chunks are coming in (`tick_keeps_iff`): a clip
that takes longer than that is never received, however regularly its chunks arrive.

`Progresses` says of a pull that in every window of ticks shorter than the stall timeout a chunk of
it was accepted.
-/

namespace Mouser

namespace PendingPulls

variable (p : PendingPulls) (k : PullKey)

/-- A pull is given up when it is past its deadline. -/
theorem lookup_expireStalled (nowTick : UInt64) :
    (p.expireStalled nowTick).1.entries.lookup k =
      (p.entries.lookup k).filter fun q => !q.isStalled nowTick := by
  rw [expireStalled, lookup_removeAll]
  cases hlookup : p.entries.lookup k with
  | none => rw [Option.filter_none, ite_self]
  | some q =>
    have hmem : k ∈ (p.entries.entries.filter (·.2.isStalled nowTick)).map (·.1) ↔
        q.isStalled nowTick = true := by
      refine ⟨?_, ?_⟩
      · intro hk
        obtain ⟨⟨k', q'⟩, hq', rfl⟩ := List.mem_map.1 hk
        obtain ⟨hentry, hstalled⟩ := List.mem_filter.1 hq'
        have hlookup' := AList.mem_lookup_iff.2 hentry
        rw [hlookup] at hlookup'
        cases hlookup'
        exact hstalled
      · intro hstalled
        have hentry := AList.mem_lookup_iff.1 hlookup
        exact List.mem_map.2 ⟨⟨k, q⟩, List.mem_filter.2 ⟨hentry, hstalled⟩, rfl⟩
    rw [Option.filter_some]
    cases hstalled : q.isStalled nowTick with
    | true => rw [if_pos (hmem.2 hstalled), if_neg (by decide)]
    | false => rw [if_neg (by rw [hmem, hstalled]; decide), if_pos (by decide)]

end PendingPulls

namespace ClipboardEngine

section

variable {S : Type} [ClipContentSource S] [Sha256]

/-! ## The deadline of a pull -/

/-- The offer that issues a pull puts it in the map, with a deadline from the clock. -/
theorem lookup_of_issuesPull {e : ClipboardEngine} {i : ClipboardEvent S} {k : PullKey}
    {r : UInt64 × Os} (h : IssuesPull ((machine S).entry e i) k r) :
    (e.step i).1.pending.entries.lookup k = some (.new k r.1 r.2 e.nowTick) := by
  obtain ⟨offer, entry, hinput, horigin, hbest, hformat, hhash, hsize⟩ := h.offer
  obtain rfl : i = .offer offer r.2 := hinput
  have hpull : (e.onOffer offer r.2).2 = .ok (some { hash := k.hash.bytes, format := k.format }) :=
    ClipboardOutput.pull.inj h.pull
  change (e.onOffer offer r.2).1.pending.entries.lookup k = _
  have hcases := e.onOffer_cases offer r.2
  generalize e.onOffer offer r.2 = result at hpull hcases
  cases hcases with
  | closed => cases hpull
  | malformed => cases hpull
  | reflected => cases hpull
  | native => cases hpull
  | nothing => cases hpull
  | badHash => cases hpull
  | pulled horigin' hne hbest' hhash' =>
    rw [Machine.entry_pre] at hbest
    obtain rfl := Option.some.inj (hbest.symm.trans hbest')
    obtain rfl := Except.ok.inj (horigin.symm.trans horigin')
    obtain rfl := Except.ok.inj (hhash.symm.trans hhash')
    rw [← hsize, hformat]
    exact PendingPulls.lookup_insert_self ..

theorem deadline_offer {e : ClipboardEngine} {offer : ClipboardOffer} {peerOs : Os} {k : PullKey}
    {p : Pending} (h : (e.onOffer offer peerOs).1.pending.entries.lookup k = some p) :
    (∃ r, IssuesPull ((machine S).entry e (.offer offer peerOs)) k r) ∨
      e.pending.entries.lookup k = some p := by
  have hstep : e.step (S := S) (.offer offer peerOs) =
      ((e.onOffer offer peerOs).1, .pull (e.onOffer offer peerOs).2) := rfl
  have hcases := e.onOffer_cases offer peerOs
  generalize e.onOffer offer peerOs = result at h hcases hstep
  cases hcases with
  | closed => exact .inr h
  | malformed => exact .inr h
  | reflected => exact .inr h
  | native =>
    rw [PendingPulls.lookup_removeOrigin, Option.ite_none_left_eq_some] at h
    exact .inr h.2
  | nothing => exact .inr (lookup_of_lookup_supersedeOrigin h)
  | badHash => exact .inr (lookup_of_lookup_supersedeOrigin h)
  | @pulled origin entry hash horigin hne hbest hhash =>
    rcases PendingPulls.lookup_of_lookup_insert _ _ h with ⟨rfl, -⟩ | ⟨-, h⟩
    · exact .inl ⟨(entry.size, peerOs), ⟨offer, entry, rfl, horigin, hbest, rfl, hhash, rfl⟩,
        congrArg Prod.snd hstep⟩
    · exact .inr (lookup_of_lookup_supersedeOrigin h)

/-- No chunk moves the deadline of a pull. -/
theorem deadline_data {e : ClipboardEngine} {key k : PullKey} {data : ClipboardData} {p : Pending}
    (h : (e.onDataForKey key data).1.pending.entries.lookup k = some p) :
    ∃ q, e.pending.entries.lookup k = some q ∧ q.deadlineTick = p.deadlineTick := by
  have hremoved : (e.pending.remove key).entries.lookup k = some p →
      ∃ q, e.pending.entries.lookup k = some q ∧ q.deadlineTick = p.deadlineTick := by
    intro h
    rw [PendingPulls.lookup_remove, Option.ite_none_left_eq_some] at h
    exact ⟨p, h.2, rfl⟩
  have hcases := e.onDataForKey_cases key data
  generalize e.onDataForKey key data = result at h hcases
  cases hcases with
  | unknown => exact ⟨p, h, rfl⟩
  | refused => exact hremoved h
  | dropped => exact hremoved h
  | applied => exact hremoved h
  | @committed pending hkey hlookup hpush =>
    rw [PendingPulls.lookup_update] at h
    by_cases hk : k = key
    · rw [if_pos hk] at h
      obtain rfl := Option.some.inj h
      exact ⟨pending, hk ▸ hlookup, rfl⟩
    · rw [if_neg hk] at h
      exact ⟨p, h, rfl⟩

/-- A pull that a step finds in the map keeps its deadline, or the step issues it. -/
theorem deadline_step (e : ClipboardEngine) (i : ClipboardEvent S) {k : PullKey} {p : Pending}
    (h : (e.step i).1.pending.entries.lookup k = some p) :
    (∃ r, IssuesPull ((machine S).entry e i) k r) ∨
      ∃ q, e.pending.entries.lookup k = some q ∧ q.deadlineTick = p.deadlineTick := by
  have hchunk : ∀ origin data, (Option.elim origin (e.onData data)
      (e.onDataFrom · data)).1.pending.entries.lookup k = some p →
        ∃ q, e.pending.entries.lookup k = some q ∧ q.deadlineTick = p.deadlineTick := by
    intro origin data h
    rcases e.data_cases origin data with ⟨err, -, heq⟩ | ⟨key, -, heq⟩
    · rw [heq] at h
      exact ⟨p, h, rfl⟩
    · rw [heq] at h
      exact deadline_data h
  cases i with
  | offer offer peerOs =>
    rcases deadline_offer (S := S) h with hissues | h
    · exact .inl hissues
    · exact .inr ⟨p, h, rfl⟩
  | data data => exact .inr (hchunk none data h)
  | dataFrom origin data => exact .inr (hchunk (some origin) data h)
  | localChange reps =>
    change (e.onLocalChange reps).1.pending.entries.lookup k = some p at h
    rw [(e.onLocalChange_frame reps).2] at h
    exact .inr ⟨p, h, rfl⟩
  | pull pull source => exact .inr ⟨p, h, rfl⟩
  | setSettings settings => exact .inr ⟨p, h, rfl⟩
  | abortPull hash =>
    have h' := (PendingPulls.lookup_removeHash e.pending k hash).symm.trans h
    exact .inr ⟨p, (Option.ite_none_left_eq_some.1 h').2, rfl⟩
  | abortOrigin origin =>
    have h' := (PendingPulls.lookup_removeOrigin e.pending k origin).symm.trans h
    exact .inr ⟨p, (Option.ite_none_left_eq_some.1 h').2, rfl⟩
  | tick nowTick =>
    exact .inr ⟨p, PendingPulls.lookup_of_lookup_expireStalled e.pending k h, rfl⟩

variable (S) in
/-- The pulls, with their deadlines in place of what was asked for. Nothing uses them here. -/
def deadlines : (machine S).Requests PullKey UInt64 where
  issues x k d := (∃ r, IssuesPull x k r) ∧ d = x.pre.nowTick.saturatingAdd pullStallTicks
  uses _ _ := False
  holds e k d := ∃ p, e.pending.entries.lookup k = some p ∧ p.deadlineTick = d
  holds_step e i k d := by
    rintro ⟨p, hp, rfl⟩
    rcases deadline_step e i hp with ⟨r, hissues⟩ | ⟨q, hq, hdeadline⟩
    · have hnew := lookup_of_issuesPull hissues
      change ((machine S).step e i).1.pending.entries.lookup k = some p at hp
      have hp' := hp.symm.trans hnew
      cases hp'
      exact .inl ⟨⟨r, hissues⟩, rfl⟩
    · by_cases hissues : ∃ r, IssuesPull ((machine S).entry e i) k r
      · obtain ⟨r, hissues⟩ := hissues
        have hp' := hp.symm.trans (lookup_of_issuesPull hissues)
        cases hp'
        exact .inl ⟨⟨r, hissues⟩, rfl⟩
      · exact .inr ⟨⟨q, hq, hdeadline⟩, fun _ h => hissues h.1, not_false⟩
  holds_of_uses _ _ _ h := h.elim
  not_issues _ _ h := h.elim

/-! ## Progress -/

omit [ClipContentSource S] [Sha256] in
/-- The pull that a step adds a chunk to. -/
def acceptedKey? (x : Machine.Entry ClipboardEngine (ClipboardEvent S) ClipboardOutput) :
    Option PullKey :=
  match x.input, x.output with
  | .data data, .clip (.ok none) => (x.pre.dataKey none data).toOption
  | .dataFrom origin data, .clip (.ok none) => (x.pre.dataKey (some origin) data).toOption
  | _, _ => none

/-- The ticks at which a chunk of the pull was accepted. -/
def progressTicks (k : PullKey)
    (tr : List (Machine.Entry ClipboardEngine (ClipboardEvent S) ClipboardOutput)) : List UInt64 :=
  tr.filterMap fun x => if acceptedKey? x = some k then some x.pre.nowTick else none

/-- The pull was issued last at tick `t`, with the steps `later` since. -/
def PulledAt (tr : List (Machine.Entry ClipboardEngine (ClipboardEvent S) ClipboardOutput))
    (k : PullKey) (t : UInt64)
    (later : List (Machine.Entry ClipboardEngine (ClipboardEvent S) ClipboardOutput)) : Prop :=
  ∃ earlier x, tr = earlier ++ x :: later ∧ (∃ r, IssuesPull x k r) ∧ x.pre.nowTick = t ∧
    ∀ y ∈ later, ∀ r, ¬ IssuesPull y k r

/-- From the offer up to `nowTick`, a chunk was accepted in every window of ticks that is shorter
than the stall timeout. -/
def Progresses (tr : List (Machine.Entry ClipboardEngine (ClipboardEvent S) ClipboardOutput))
    (k : PullKey) (nowTick : UInt64) : Prop :=
  ∃ t later, PulledAt tr k t later ∧
    (t :: progressTicks k later ++ [nowTick]).IsChain
      fun a b => b.toNat < a.toNat + pullStallTicks.toNat

/-- What `tick` leaves of the pulls. -/
theorem tick_keeps_iff {e : ClipboardEngine} {k : PullKey} {p : Pending}
    (h : e.pending.entries.lookup k = some p) (nowTick : UInt64) :
    (e.step (S := S) (.tick nowTick)).1.Outstanding k ↔ max e.nowTick nowTick < p.deadlineTick := by
  have hlookup : (e.step (S := S) (.tick nowTick)).1.pending.entries.lookup k =
      (some p).filter fun q => !q.isStalled (max e.nowTick nowTick) := by
    rw [← h]
    exact PendingPulls.lookup_expireStalled e.pending k _
  rw [Outstanding, hlookup, Option.filter_some, Pending.isStalled]
  by_cases hstalled : max e.nowTick nowTick ≥ p.deadlineTick
  · simp [hstalled, UInt64.not_lt.2 hstalled]
  · simp [hstalled, UInt64.not_le.1 hstalled]

variable {deviceId : DeviceId} {localOs : Os} {settings : ClipboardSettings}
  {events : List (ClipboardEvent S)} {k : PullKey} {p : Pending}

/-- A pull that is outstanding was issued, and has its deadline from then. -/
theorem pulledAt_of_lookup
    (h : ((machine S).exec (new deviceId localOs settings) events).pending.entries.lookup k =
      some p) :
    ∃ t later, PulledAt ((machine S).trace (new deviceId localOs settings) events) k t later ∧
      p.deadlineTick = t.saturatingAdd pullStallTicks := by
  have h0 : ∀ k d, ¬ (deadlines S).holds (new deviceId localOs settings) k d := by
    rintro k d ⟨q, hq, -⟩
    exact nomatch (PendingPulls.lookup_empty k).symm.trans hq
  obtain ⟨earlier, x, later, htr, ⟨hissues, hdeadline⟩, hlater⟩ :=
    (deadlines S).open_of_holds h0 events (k := k) (r := p.deadlineTick) ⟨p, h, rfl⟩
  refine ⟨x.pre.nowTick, later, ⟨earlier, x, htr, hissues, rfl, ?_⟩, hdeadline⟩
  intro y hy r hissues
  exact (hlater y hy).1 _ ⟨⟨r, hissues⟩, rfl⟩

omit [ClipContentSource S] [Sha256] in
/-- A pull was issued last at one tick. -/
theorem PulledAt.tick_eq {tr later later' : List (Machine.Entry ClipboardEngine (ClipboardEvent S)
    ClipboardOutput)} {t t' : UInt64} (h : PulledAt tr k t later) (h' : PulledAt tr k t' later') :
    t = t' := by
  obtain ⟨earlier, x, rfl, hx, rfl, hlater⟩ := h
  obtain ⟨earlier', x', htr, hx', rfl, hlater'⟩ := h'
  obtain ⟨rfl, -⟩ := List.eq_of_append_cons_of_last (P := fun y => ∃ r, IssuesPull y k r) htr hx hx'
    (fun y hy ⟨r, hr⟩ => hlater y hy r hr) fun y hy ⟨r, hr⟩ => hlater' y hy r hr
  rfl

/-- In the run, no tick gives up a pull that progresses. -/
def KeepsProgressing (e : ClipboardEngine) (events : List (ClipboardEvent S)) : Prop :=
  ∀ before nowTick after, events = before ++ .tick nowTick :: after →
    ∀ k, ((machine S).exec e before).Outstanding k →
      Progresses ((machine S).trace e before) k (max ((machine S).exec e before).nowTick nowTick) →
        ((machine S).exec e (before ++ [.tick nowTick])).Outstanding k

/-- **When a progressing pull is kept.** No tick of a run gives up a pull that progresses, exactly
when every tick that finds one comes less than the stall timeout after the offer of the pull. -/
theorem keepsProgressing_iff (deviceId : DeviceId) (localOs : Os) (settings : ClipboardSettings)
    (events : List (ClipboardEvent S)) :
    let e := (machine S).exec (new deviceId localOs settings)
    let tr := (machine S).trace (new deviceId localOs settings)
    KeepsProgressing (new deviceId localOs settings) events ↔
      ∀ before nowTick after, events = before ++ .tick nowTick :: after →
        ∀ k, (e before).Outstanding k →
          Progresses (tr before) k (max (e before).nowTick nowTick) →
            ∀ t later, PulledAt (tr before) k t later →
              max (e before).nowTick nowTick < t.saturatingAdd pullStallTicks := by
  intro e tr
  have htick : ∀ (before : List (ClipboardEvent S)) nowTick k t later, (e before).Outstanding k →
      PulledAt (tr before) k t later → ((e (before ++ [.tick nowTick])).Outstanding k ↔
        max (e before).nowTick nowTick < t.saturatingAdd pullStallTicks) := by
    rintro before nowTick k t later ⟨p, hp⟩ hpulled
    obtain ⟨t', later', hpulled', hdeadline⟩ := pulledAt_of_lookup hp
    rw [hpulled.tick_eq hpulled', ← hdeadline]
    change ((machine S).exec _ (before ++ [.tick nowTick])).Outstanding k ↔ _
    rw [Machine.exec_concat]
    exact tick_keeps_iff (S := S) hp nowTick
  refine ⟨?_, ?_⟩
  · intro hkeeps before nowTick after hevents k hheld hprogress t later hpulled
    exact (htick before nowTick k t later hheld hpulled).1
      (hkeeps before nowTick after hevents k hheld hprogress)
  · intro hearly before nowTick after hevents k hheld hprogress
    obtain ⟨t, later, hpulled, hchain⟩ := hprogress
    exact (htick before nowTick k t later hheld hpulled).2
      (hearly before nowTick after hevents k hheld ⟨t, later, hpulled, hchain⟩ t later hpulled)

end

/-! ## A slow clip -/

/-- The first byte of `abc`. -/
def abcHead : ClipboardData where
  hash := Hash.ofAbc.bytes
  format := .utf8Text
  offset := 0
  data := [97]
  last := false

/-- A byte arrives at tick 20. -/
def slowEvents : List (ClipboardEvent MemContentSource) :=
  [.offer abcOffer .windows, .tick 20, .dataFrom (.fill 2) abcHead, .tick 30]

/-- The pull is given up at tick 30, ten ticks after its last progress. -/
theorem not_keepsProgressing_slow :
    letI := Sha256.abc
    ¬ KeepsProgressing (new (.fill 1) .linux .initial) slowEvents := by
  let _ : Sha256 := Sha256.abc
  let M := machine MemContentSource
  let e := new (.fill 1) .linux .initial
  let k : PullKey := { origin := .fill 2, format := .utf8Text, hash := Hash.ofAbc }
  let before : List (ClipboardEvent MemContentSource) :=
    [.offer abcOffer .windows, .tick 20, .dataFrom (.fill 2) abcHead]
  intro hkeeps
  have hissues : IssuesPull (M.entry e (.offer abcOffer .windows)) k (3, .windows) := by
    refine ⟨⟨abcOffer, _, rfl, by decide +kernel, rfl, rfl, by decide +kernel, rfl⟩, ?_⟩
    have hpull : (e.onOffer abcOffer .windows).2 =
        .ok (some { hash := k.hash.bytes, format := k.format }) := by decide +kernel
    exact congrArg ClipboardOutput.pull hpull
  have hpulled : PulledAt (M.trace e before) k 0 (M.trace (M.exec e [.offer abcOffer .windows])
      [.tick 20, .dataFrom (.fill 2) abcHead]) := by
    refine ⟨[], _, rfl, ⟨_, hissues⟩, rfl, ?_⟩
    intro y hy r hissues
    obtain ⟨offer, _, hinput, -⟩ := hissues.offer
    rcases List.mem_cons.1 hy with rfl | hy
    · cases hinput
    · rcases List.mem_cons.1 hy with rfl | hy
      · cases hinput
      · cases hy
  have hheld : ((M.exec e before).pending.entries.lookup k).isSome = true := by decide +kernel
  have hgone : ((M.exec e slowEvents).pending.entries.lookup k).isSome = false := by decide +kernel
  obtain ⟨p, hp⟩ := hkeeps before 30 [] rfl k (Option.isSome_iff_exists.1 hheld)
    ⟨0, _, hpulled, by decide +kernel⟩
  rw [show (M.exec e slowEvents).pending.entries.lookup k = some p from hp] at hgone
  cases hgone

end ClipboardEngine

end Mouser
