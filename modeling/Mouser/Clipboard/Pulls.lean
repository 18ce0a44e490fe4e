import Mouser.Clipboard.Engine
import Mouser.Lib.Outstanding

/-!
# What is applied was pulled

`ClipboardEngine.machine` takes the calls of the engine in any order, with any arguments. Its
requests are the pulls (`pulls`): an offer issues one, and a chunk that completes the content uses
it. So every clip that is handed on is for the pull that was issued last under its key, has the
length and the hash of the offer that issued it, and is the only one (`applies_pulled`).
-/

namespace Mouser

/-- A call of the engine; the content source of a pull is of type `S`. -/
inductive ClipboardEvent (S : Type) where
  | localChange (reps : List LocalRepr)
  | offer (offer : ClipboardOffer) (peerOs : Os)
  | pull (pull : ClipboardPull) (source : S)
  | data (data : ClipboardData)
  | dataFrom (origin : DeviceId) (data : ClipboardData)
  | setSettings (settings : ClipboardSettings)
  | abortPull (hash : Hash)
  | abortOrigin (origin : DeviceId)
  | tick (nowTick : UInt64)

/-- What a call returns. -/
inductive ClipboardOutput where
  | offer (offer : Option ClipboardOffer)
  | pull (result : Except ClipboardError (Option ClipboardPull))
  | chunks (result : Except ClipboardError (List ClipboardData))
  | clip (result : Except ClipboardError (Option AppliedClip))
  | aborted (some : Bool)
  | swept (count : ℕ)
  | nothing

namespace ClipboardEngine

theorem lookup_of_lookup_supersedeOrigin {e : ClipboardEngine} {origin : DeviceId}
    {offer : ClipboardOffer} {k : PullKey} {p : Pending}
    (h : (e.supersedeOrigin origin offer).pending.entries.lookup k = some p) :
    e.pending.entries.lookup k = some p := by
  rw [supersedeOrigin, PendingPulls.lookup_retainOriginOffer, Option.ite_none_left_eq_some] at h
  exact h.2

section

variable {S : Type} [ClipContentSource S] [Sha256]

def step (e : ClipboardEngine) : ClipboardEvent S → ClipboardEngine × ClipboardOutput
  | .localChange reps => ((e.onLocalChange reps).1, .offer (e.onLocalChange reps).2)
  | .offer offer peerOs => ((e.onOffer offer peerOs).1, .pull (e.onOffer offer peerOs).2)
  | .pull pull source => (e, .chunks (e.onPull pull source))
  | .data data => ((e.onData data).1, .clip (e.onData data).2)
  | .dataFrom origin data => ((e.onDataFrom origin data).1, .clip (e.onDataFrom origin data).2)
  | .setSettings settings => (e.setSettings settings, .nothing)
  | .abortPull hash => ((e.abortPull hash).1, .aborted (e.abortPull hash).2)
  | .abortOrigin origin => ((e.abortOrigin origin).1, .swept (e.abortOrigin origin).2)
  | .tick nowTick => ((e.tick nowTick).1, .swept (e.tick nowTick).2)

variable (S) in
def machine : Machine ClipboardEngine (ClipboardEvent S) ClipboardOutput where
  step := step

/-! ## The requests of a run -/

/-- The key that a chunk is for, from a known origin or from whichever has it outstanding. -/
def dataKey (e : ClipboardEngine) (origin : Option DeviceId) (data : ClipboardData) :
    Except ClipboardError PullKey :=
  match parseHash data.hash, origin with
  | .error err, _ => .error err
  | .ok hash, none => e.pending.keyForData data.format hash
  | .ok hash, some origin => e.pending.keyForOriginData origin data.format hash

/-- A chunk is refused, or it is for a key. -/
theorem data_cases (e : ClipboardEngine) (origin : Option DeviceId) (data : ClipboardData) :
    (∃ err, e.dataKey origin data = .error err ∧
      origin.elim (e.onData data) (e.onDataFrom · data) = (e, .error err)) ∨
    ∃ key, e.dataKey origin data = .ok key ∧
      origin.elim (e.onData data) (e.onDataFrom · data) = e.onDataForKey key data := by
  unfold dataKey
  cases origin with
  | none =>
    simp only [Option.elim_none, onData]
    cases parseHash data.hash with
    | error err => exact .inl ⟨err, rfl, rfl⟩
    | ok hash =>
      dsimp only
      cases e.pending.keyForData data.format hash with
      | error err => exact .inl ⟨err, rfl, rfl⟩
      | ok key => exact .inr ⟨key, rfl, rfl⟩
  | some origin =>
    simp only [Option.elim_some, onDataFrom]
    cases parseHash data.hash with
    | error err => exact .inl ⟨err, rfl, rfl⟩
    | ok hash =>
      dsimp only
      cases e.pending.keyForOriginData origin data.format hash with
      | error err => exact .inl ⟨err, rfl, rfl⟩
      | ok key => exact .inr ⟨key, rfl, rfl⟩

/-- What a chunk does not change. -/
theorem onDataFrom_frame (e : ClipboardEngine) (origin : DeviceId) (data : ClipboardData) :
    (e.onDataFrom origin data).1.deviceId = e.deviceId ∧
      (e.onDataFrom origin data).1.localOs = e.localOs ∧
      (e.onDataFrom origin data).1.settings = e.settings ∧
      (e.onDataFrom origin data).1.nowTick = e.nowTick := by
  rcases e.data_cases (some origin) data with ⟨err, -, heq⟩ | ⟨key, -, heq⟩
  · rw [show e.onDataFrom origin data = _ from heq]
    exact ⟨rfl, rfl, rfl, rfl⟩
  · rw [show e.onDataFrom origin data = _ from heq]
    have hcases := e.onDataForKey_cases key data
    generalize e.onDataForKey key data = result at hcases
    cases hcases <;> exact ⟨rfl, rfl, rfl, rfl⟩

/-- The step is an offer that issues the pull under `k`, for `r.1` bytes from a peer on `r.2`. -/
structure IssuesPull (x : Machine.Entry ClipboardEngine (ClipboardEvent S) ClipboardOutput)
    (k : PullKey) (r : UInt64 × Os) : Prop where
  offer : ∃ offer entry, x.input = .offer offer r.2 ∧ parseDeviceId offer.origin = .ok k.origin ∧
    x.pre.bestEntry offer = some entry ∧ entry.format = k.format ∧
    parseHash entry.hash = .ok k.hash ∧ entry.size = r.1
  pull : x.output = .pull (.ok (some { hash := k.hash.bytes, format := k.format }))

/-- The step hands on the clip of the pull under `k`. -/
structure AppliesPull (x : Machine.Entry ClipboardEngine (ClipboardEvent S) ClipboardOutput)
    (k : PullKey) : Prop where
  key : ∃ origin data, x.pre.dataKey origin data = .ok k ∧
    x.input = origin.elim (.data data) (.dataFrom · data)
  clip : ∃ clip, x.output = .clip (.ok (some clip))

/-- The pull under `k` is outstanding. -/
def HoldsPull (e : ClipboardEngine) (k : PullKey) (r : UInt64 × Os) : Prop :=
  ∃ p, e.pending.entries.lookup k = some p ∧ p.reasm.size = r.1 ∧ p.peerOs = r.2

/-- A step that takes pulls away and returns neither a pull nor a clip. -/
theorem holdsPull_step_of_lookup {e : ClipboardEngine} {i : ClipboardEvent S} {k : PullKey}
    {r : UInt64 × Os}
    (hlookup : ∀ p, (e.step i).1.pending.entries.lookup k = some p →
      e.pending.entries.lookup k = some p)
    (hpull : ∀ pull, (e.step i).2 ≠ .pull (.ok (some pull)))
    (hclip : ∀ clip, (e.step i).2 ≠ .clip (.ok (some clip)))
    (h : HoldsPull (e.step i).1 k r) :
    HoldsPull e k r ∧ (∀ r', ¬ IssuesPull ((machine S).entry e i) k r') ∧
      ¬ AppliesPull ((machine S).entry e i) k := by
  obtain ⟨p, hp, hr⟩ := h
  refine ⟨⟨p, hlookup p hp, hr⟩, ?_, ?_⟩
  · intro r' hissues
    exact hpull _ hissues.pull
  · intro happlies
    obtain ⟨clip, hout⟩ := happlies.clip
    exact hclip clip hout

theorem holdsPull_offer {e : ClipboardEngine} {offer : ClipboardOffer} {peerOs : Os} {k : PullKey}
    {r : UInt64 × Os} (h : HoldsPull (e.onOffer offer peerOs).1 k r) :
    IssuesPull ((machine S).entry e (.offer offer peerOs)) k r ∨
    (HoldsPull e k r ∧ (∀ r', ¬ IssuesPull ((machine S).entry e (.offer offer peerOs)) k r') ∧
      ¬ AppliesPull ((machine S).entry e (.offer offer peerOs)) k) := by
  have hstep : e.step (S := S) (.offer offer peerOs) =
      ((e.onOffer offer peerOs).1, .pull (e.onOffer offer peerOs).2) := rfl
  have hcases := e.onOffer_cases offer peerOs
  generalize hres : e.onOffer offer peerOs = result at h hcases hstep
  -- an outcome that only takes pulls away
  have hless : (∀ p, result.1.pending.entries.lookup k = some p →
      e.pending.entries.lookup k = some p) → (∀ pull, result.2 ≠ .ok (some pull)) →
      HoldsPull e k r ∧ (∀ r', ¬ IssuesPull ((machine S).entry e (.offer offer peerOs)) k r') ∧
        ¬ AppliesPull ((machine S).entry e (.offer offer peerOs)) k := by
    intro hlookup hpull
    refine holdsPull_step_of_lookup ?_ ?_ ?_ ?_
    · rw [hstep]
      exact hlookup
    · rw [hstep]
      exact fun pull hout => hpull pull (ClipboardOutput.pull.inj hout)
    · rw [hstep]
      nofun
    · rw [hstep]
      exact h
  cases hcases with
  | closed => exact .inr (hless (fun _ => id) nofun)
  | malformed => exact .inr (hless (fun _ => id) nofun)
  | reflected => exact .inr (hless (fun _ => id) nofun)
  | native =>
    refine .inr (hless ?_ nofun)
    intro p hp
    rw [PendingPulls.lookup_removeOrigin, Option.ite_none_left_eq_some] at hp
    exact hp.2
  | nothing => exact .inr (hless (fun _ => lookup_of_lookup_supersedeOrigin) nofun)
  | badHash => exact .inr (hless (fun _ => lookup_of_lookup_supersedeOrigin) nofun)
  | @pulled origin entry hash horigin hne hbest hhash =>
    obtain ⟨p, hp, hsize, hos⟩ := h
    rcases PendingPulls.lookup_of_lookup_insert _ _ hp with ⟨rfl, rfl⟩ | ⟨hk, hp⟩
    · refine .inl ⟨⟨offer, entry, ?_, horigin, hbest, rfl, hhash, hsize⟩, ?_⟩
      · rw [Machine.entry_input, ← hos]
        rfl
      · exact congrArg Prod.snd hstep
    · refine .inr ⟨⟨p, lookup_of_lookup_supersedeOrigin hp, hsize, hos⟩, ?_, ?_⟩
      · intro r' hissues
        obtain ⟨offer', entry', hinput, horigin', -⟩ := hissues.offer
        cases hinput
        have hpull := (congrArg Prod.snd hstep).symm.trans hissues.pull
        simp only [ClipboardOutput.pull.injEq, Except.ok.injEq, Option.some.injEq,
          ClipboardPull.mk.injEq] at hpull
        refine hk ?_
        cases k
        rw [horigin] at horigin'
        cases horigin'
        cases hpull.2
        cases Hash.bytes_injective hpull.1
        rfl
      · intro happlies
        obtain ⟨clip, hout⟩ := happlies.clip
        exact nomatch (congrArg Prod.snd hstep).symm.trans hout

theorem holdsPull_data {e : ClipboardEngine} (origin : Option DeviceId) {data : ClipboardData}
    {i : ClipboardEvent S} (hi : i = origin.elim (.data data) (.dataFrom · data)) {k : PullKey}
    {r : UInt64 × Os} (h : HoldsPull (e.step i).1 k r) :
    HoldsPull e k r ∧ (∀ r', ¬ IssuesPull ((machine S).entry e i) k r') ∧
      ¬ AppliesPull ((machine S).entry e i) k := by
  have hstep : e.step i = ((origin.elim (e.onData data) (e.onDataFrom · data)).1,
      .clip (origin.elim (e.onData data) (e.onDataFrom · data)).2) := by
    rw [hi]
    cases origin <;> rfl
  have hsame : ∀ origin' data', i = origin'.elim (.data data') (.dataFrom · data') →
      origin' = origin ∧ data' = data := by
    rw [hi]
    intro origin' data' heq
    cases origin <;> cases origin' <;> cases heq <;> exact ⟨rfl, rfl⟩
  rcases e.data_cases origin data with ⟨err, -, heq⟩ | ⟨key, hkey, heq⟩
  · rw [heq] at hstep
    refine holdsPull_step_of_lookup ?_ ?_ ?_ h
    · rw [hstep]
      exact fun _ => id
    · rw [hstep]
      nofun
    · rw [hstep]
      nofun
  · rw [heq] at hstep
    rw [hstep] at h
    obtain ⟨p, hp, hr⟩ := h
    have hissues : ∀ r', ¬ IssuesPull ((machine S).entry e i) k r' := by
      intro r' hissues
      exact nomatch (congrArg Prod.snd hstep).symm.trans hissues.pull
    rcases lookup_of_lookup_onDataForKey hp with ⟨hk, hp⟩ | ⟨-, hnone, q, hq, hos, hsize⟩
    · refine ⟨⟨p, hp, hr⟩, hissues, ?_⟩
      intro happlies
      obtain ⟨origin', data', hkey', hinput⟩ := happlies.key
      obtain ⟨rfl, rfl⟩ := hsame origin' data' hinput
      rw [Machine.entry_pre, hkey] at hkey'
      exact hk (Except.ok.inj hkey').symm
    · refine ⟨⟨q, hq, hsize ▸ hr.1, hos ▸ hr.2⟩, hissues, ?_⟩
      intro happlies
      obtain ⟨clip, hout⟩ := happlies.clip
      rw [Machine.entry_output] at hout
      have hclip := (congrArg Prod.snd hstep).symm.trans hout
      rw [hnone] at hclip
      cases hclip

/-- What is held after a call was issued by it, or it was held before and the call left it alone. -/
theorem holdsPull_step (e : ClipboardEngine) (i : ClipboardEvent S) (k : PullKey) (r : UInt64 × Os)
    (h : HoldsPull (e.step i).1 k r) :
    IssuesPull ((machine S).entry e i) k r ∨
    (HoldsPull e k r ∧ (∀ r', ¬ IssuesPull ((machine S).entry e i) k r') ∧
      ¬ AppliesPull ((machine S).entry e i) k) := by
  cases i with
  | offer offer peerOs => exact holdsPull_offer h
  | data data => exact .inr (holdsPull_data none rfl h)
  | dataFrom origin data => exact .inr (holdsPull_data (some origin) rfl h)
  | localChange reps =>
    refine .inr (holdsPull_step_of_lookup ?_ nofun nofun h)
    intro p hp
    have hpending : (e.onLocalChange reps).1.pending = e.pending := by
      unfold onLocalChange
      split <;> rfl
    rw [← hpending]
    exact hp
  | pull pull source => exact .inr (holdsPull_step_of_lookup (fun _ => id) nofun nofun h)
  | setSettings settings => exact .inr (holdsPull_step_of_lookup (fun _ => id) nofun nofun h)
  | abortPull hash =>
    refine .inr (holdsPull_step_of_lookup ?_ nofun nofun h)
    intro p hp
    have hp' := (PendingPulls.lookup_removeHash e.pending k hash).symm.trans hp
    exact (Option.ite_none_left_eq_some.1 hp').2
  | abortOrigin origin =>
    refine .inr (holdsPull_step_of_lookup ?_ nofun nofun h)
    intro p hp
    have hp' := (PendingPulls.lookup_removeOrigin e.pending k origin).symm.trans hp
    exact (Option.ite_none_left_eq_some.1 hp').2
  | tick nowTick =>
    refine .inr (holdsPull_step_of_lookup ?_ nofun nofun h)
    intro p hp
    exact PendingPulls.lookup_of_lookup_expireStalled e.pending k hp

omit [ClipContentSource S] [Sha256] in
theorem not_issuesPull_of_appliesPull
    (x : Machine.Entry ClipboardEngine (ClipboardEvent S) ClipboardOutput) (k : PullKey)
    (h : AppliesPull x k) (r : UInt64 × Os) : ¬ IssuesPull x k r := by
  intro hissues
  obtain ⟨clip, hout⟩ := h.clip
  exact nomatch hissues.pull.symm.trans hout

/-- A clip is handed on only for a pull that is outstanding. -/
theorem holdsPull_of_appliesPull (e : ClipboardEngine) (i : ClipboardEvent S) (k : PullKey)
    (h : AppliesPull ((machine S).entry e i) k) : ∃ r, HoldsPull e k r := by
  obtain ⟨origin, data, hkey, rfl⟩ := h.key
  obtain ⟨clip, hout⟩ := h.clip
  have hstep : (machine S).step e (origin.elim (.data data) (.dataFrom · data)) =
      ((origin.elim (e.onData data) (e.onDataFrom · data)).1,
        .clip (origin.elim (e.onData data) (e.onDataFrom · data)).2) := by
    cases origin <;> rfl
  rw [Machine.entry_output, hstep, ClipboardOutput.clip.injEq] at hout
  rcases e.data_cases origin data with ⟨err, -, heq⟩ | ⟨key, hkey', heq⟩
  · rw [heq] at hout
    cases hout
  · obtain rfl : key = k := Except.ok.inj (hkey'.symm.trans hkey)
    rw [heq] at hout
    have hcases := e.onDataForKey_cases key data
    generalize e.onDataForKey key data = result at hout hcases
    cases hcases with
    | applied hlookup => exact ⟨(_, _), _, hlookup, rfl, rfl⟩
    | unknown => cases hout
    | refused => cases hout
    | committed => cases hout
    | dropped => cases hout

variable (S) in
/-- The pulls of the engine are its requests. -/
def pulls : (machine S).Requests PullKey (UInt64 × Os) where
  issues := IssuesPull
  uses := AppliesPull
  holds := HoldsPull
  holds_step := holdsPull_step
  holds_of_uses := holdsPull_of_appliesPull
  not_issues := not_issuesPull_of_appliesPull

/-! ## Every clip is for a pull -/

/-- A chunk from `origin` that completes a clip: what it finds and what it leaves. -/
theorem onDataFrom_applies {e : ClipboardEngine} {origin : DeviceId} {data : ClipboardData}
    {clip : AppliedClip} (h : (e.onDataFrom origin data).2 = .ok (some clip)) :
    ∃ hash p, parseHash data.hash = .ok hash ∧
      e.pending.entries.lookup { origin, format := data.format, hash } = some p ∧
      e.GatesOpen data.format p.peerOs ∧ clip.format = data.format ∧ sha256 clip.bytes = hash ∧
      clip.bytes.length = p.reasm.size.toNat ∧
      (e.onDataFrom origin data).1 = { e with
        pending := e.pending.remove { origin, format := data.format, hash }
        applied := e.applied.record origin data.format hash } := by
  rcases e.data_cases (some origin) data with ⟨err, -, heq⟩ | ⟨key, hkey, heq⟩
  · exact nomatch (congrArg Prod.snd heq).symm.trans h
  · unfold dataKey at hkey
    cases hparse : parseHash data.hash with
    | error err =>
      rw [hparse] at hkey
      cases hkey
    | ok hash =>
      rw [hparse] at hkey
      obtain ⟨rfl, -⟩ := PendingPulls.keyForOriginData_eq_ok.1 hkey
      have heq' : e.onDataFrom origin data =
        e.onDataForKey { origin, format := data.format, hash } data := heq
      rw [heq'] at h ⊢
      have hcases := e.onDataForKey_cases { origin, format := data.format, hash } data
      generalize e.onDataForKey { origin, format := data.format, hash } data = result at h hcases ⊢
      cases hcases with
      | unknown => cases h
      | refused => cases h
      | committed => cases h
      | dropped => cases h
      | @applied p bytes hlookup hpush hgates =>
        cases h
        obtain ⟨-, hlength, hhash⟩ := Reassembly.push_completes hpush
        refine ⟨hash, p, rfl, hlookup, hgates, rfl, ?_, hlength, rfl⟩
        rw [hhash, p.hash_eq, e.pending.keyed _ _ hlookup]

/-- **What is applied was pulled.** In every run, a chunk completes a clip only for a pull that is
outstanding under its origin, format and hash, when the receive gates are open for it; the clip has
this hash and as many bytes as the offer says that issued the pull last, and the pull has not been
used since. Between two clips for one pull key a new pull was issued. -/
theorem applies_pulled (deviceId : DeviceId) (localOs : Os) (settings : ClipboardSettings)
    (events : List (ClipboardEvent S)) :
    let e := (machine S).exec (new deviceId localOs settings) events
    let tr := (machine S).trace (new deviceId localOs settings) events
    (∀ origin data clip, (e.onDataFrom origin data).2 = .ok (some clip) →
      ∃ hash size peerOs, parseHash data.hash = .ok hash ∧
        (pulls S).holds e { origin, format := data.format, hash } (size, peerOs) ∧
        (pulls S).Open tr { origin, format := data.format, hash } (size, peerOs) ∧
        e.GatesOpen data.format peerOs ∧ clip.format = data.format ∧
        sha256 clip.bytes = hash ∧ clip.bytes.length = size.toNat) ∧
    (∀ k earlier x mid y later, tr = earlier ++ x :: mid ++ y :: later → (pulls S).uses x k →
      (pulls S).uses y k → ∃ z ∈ mid, ∃ r, (pulls S).issues z k r) := by
  have h0 : ∀ k r, ¬ (pulls S).holds (new deviceId localOs settings) k r := by
    rintro k r ⟨p, hp, -⟩
    exact nomatch (PendingPulls.lookup_empty k).symm.trans hp
  intro e tr
  refine ⟨?_, ?_⟩
  · intro origin data clip happlied
    obtain ⟨hash, p, hparse, hlookup, hgates, hformat, hhash, hlength, -⟩ :=
      onDataFrom_applies happlied
    have hholds : (pulls S).holds e { origin, format := data.format, hash }
        (p.reasm.size, p.peerOs) := ⟨p, hlookup, rfl, rfl⟩
    exact ⟨hash, p.reasm.size, p.peerOs, hparse, hholds, (pulls S).open_of_holds h0 events hholds,
      hgates, hformat, hhash, hlength⟩
  · intro k earlier x mid y later htr hx hy
    exact (pulls S).issued_between h0 htr hx hy

end

/-! ## One clip -/

/-- The text `abc`, offered by the second device. -/
def abcOffer : ClipboardOffer where
  entries := [{ format := .utf8Text, hash := Hash.ofAbc.bytes, size := 3 }]
  origin := (DeviceId.fill 2).bytes

def abcData : ClipboardData where
  hash := Hash.ofAbc.bytes
  format := .utf8Text
  offset := 0
  data := [97, 98, 99]
  last := true

def abcEvents : List (ClipboardEvent MemContentSource) := [.offer abcOffer .windows]

theorem applies_pulled_abc :
    letI := Sha256.abc
    let e := (machine MemContentSource).exec (new (.fill 1) .linux .initial) abcEvents
    let tr := (machine MemContentSource).trace (new (.fill 1) .linux .initial) abcEvents
    (e.onDataFrom (.fill 2) abcData).2 = .ok (some ⟨.utf8Text, [97, 98, 99]⟩) ∧
      ∃ hash size peerOs, parseHash abcData.hash = .ok hash ∧
        (pulls MemContentSource).Open tr { origin := .fill 2, format := .utf8Text, hash }
          (size, peerOs) ∧ size.toNat = 3 := by
  let _ : Sha256 := Sha256.abc
  intro e tr
  have happlied : (e.onDataFrom (.fill 2) abcData).2 = .ok (some ⟨.utf8Text, [97, 98, 99]⟩) := by
    decide +kernel
  obtain ⟨hash, size, peerOs, hparse, -, hopen, -, -, -, hlength⟩ :=
    (applies_pulled (.fill 1) .linux .initial abcEvents).1 _ _ _ happlied
  exact ⟨happlied, hash, size, peerOs, hparse, hopen, hlength.symm⟩

end ClipboardEngine

end Mouser
