import Mouser.Files.Commit

/-!
# What an accepted offer gives

An offer is accepted when it is within the limits, every entry is valid and every sink opens with no
more bytes than its file has. `Accepts` is what is then known of each file, and `Accepts.inv` says
that the receiver starts in its invariant.
-/

namespace Mouser

/-! ## The limits -/

/-- The sizes add up to the total, unless it has reached the top of its type. -/
theorem checkSizes_ok {max : Option UInt64} {i : ℕ} {total sum : UInt64} {entries : List FileEntry}
    (h : checkSizes max i total entries = .ok sum) :
    sum.toNat = min (total.toNat + (entries.map (·.size.toNat)).sum) (2 ^ 64 - 1) := by
  induction entries generalizing i total with
  | nil =>
    cases h
    have := UInt64.toNat_lt sum
    simp only [List.map_nil, List.sum_nil]
    omega
  | cons entry entries ih =>
    rw [checkSizes] at h
    split at h
    · cases h
    · rw [ih h, UInt64.toNat_saturatingAdd, List.map_cons, List.sum_cons]
      omega

/-- The sum of the offered sizes. -/
def FileOffer.totalSize (offer : FileOffer) : ℕ := (offer.files.map (·.size.toNat)).sum

theorem totalSize_le {offer : FileOffer} {config : ReceiverConfig} {max : UInt64}
    (h : checkLimits offer config = none) (hmax : config.maxTotalBytes = some max)
    (htop : max < UInt64.maxValue) : offer.totalSize ≤ max.toNat := by
  unfold checkLimits at h
  split at h
  · cases h
  · split at h
    · cases h
    · next total hsizes =>
      have htotal := checkSizes_ok hsizes
      have hle : ¬ max < total := by
        rw [hmax, Option.map_eq_none_iff, Option.filter_eq_none_iff] at h
        simpa using h max rfl
      have hle' := UInt64.le_iff_toNat_le.1 (UInt64.not_lt.1 hle)
      have htop' := UInt64.lt_iff_toNat_lt.1 htop
      rw [UInt64.toNat_maxValue] at htop'
      rw [UInt64.toNat_zero, Nat.zero_add] at htotal
      unfold FileOffer.totalSize
      omega

/-! ## The entries -/

/-- Every plan is what `validate_entry` makes of its entry. -/
theorem validateEntries_ok {config : ReceiverConfig} {i : ℕ} {entries : List FileEntry}
    {plans : List (OsStr × Option Hash)} (h : validateEntries config i entries = .ok (.ok plans)) :
    plans.length = entries.length ∧ ∀ k entry plan, entries[k]? = some entry →
      plans[k]? = some plan → validateEntry (i + k) entry config = .ok (.ok plan) := by
  induction entries generalizing i plans with
  | nil =>
    cases h
    exact ⟨rfl, nofun⟩
  | cons entry entries ih =>
    rw [validateEntries] at h
    split at h
    · cases h
    · cases h
    · next first hfirst =>
      split at h
      · cases h
      · cases h
      · next rest hrest =>
        cases h
        obtain ⟨hlength, hall⟩ := ih hrest
        refine ⟨by rw [List.length_cons, List.length_cons, hlength], ?_⟩
        intro k e plan he hplan
        cases k with
        | zero =>
          cases he
          cases hplan
          exact hfirst
        | succ k =>
          rw [← Nat.succ_add_eq_add_succ]
          exact hall k e plan he hplan

/-- What is known of a valid entry: its path, and the digest, which the caller supplies, or the
offer, or both alike. -/
theorem validateEntry_ok {i : ℕ} {entry : FileEntry} {config : ReceiverConfig} {path : OsStr}
    {expected : Option Hash} (h : validateEntry i entry config = .ok (.ok (path, expected))) :
    resolveInQuarantine config.quarantine entry.name = .ok (.ok path) ∧
      ((entry.sha256 = none ∧ expected = (config.expectedHashes[i]?).join) ∨
        ∃ bytes inBand, entry.sha256 = some bytes ∧ Hash.ofBytes bytes = some inBand ∧
          (∀ outer, (config.expectedHashes[i]?).join = some outer → outer = inBand) ∧
          expected = some inBand) := by
  unfold validateEntry at h
  split at h
  · cases h
  · cases h
  · next safePath hpath =>
    rw [hpath]
    dsimp only at h
    split at h
    · cases h
    · next hnone =>
      cases h
      exact ⟨rfl, .inl ⟨Option.map_eq_none_iff.1 hnone, rfl⟩⟩
    · next inBand hinBand =>
      obtain ⟨bytes, hbytes, hhash⟩ := Option.map_eq_some_iff.1 hinBand
      split at h
      · cases h
      · next hagree =>
        cases h
        refine ⟨rfl, .inr ⟨bytes, inBand, hbytes, hhash, ?_⟩⟩
        cases houter : (config.expectedHashes[i]?).join with
        | none => exact ⟨nofun, rfl⟩
        | some outer =>
          rw [houter, Option.any_some, decide_eq_true_iff, not_not] at hagree
          rw [hagree]
          exact ⟨by rintro _ ⟨⟩; rfl, rfl⟩

/-- The digests that the caller or the offer names for file `i`. -/
def Supplied (config : ReceiverConfig) (i : ℕ) (entry : FileEntry) (digest : Hash) : Prop :=
  config.expectedHashes[i]? = some (some digest) ∨
    ∃ bytes, entry.sha256 = some bytes ∧ Hash.ofBytes bytes = some digest

/-- The digest of the plan is the one that was supplied, if one was. -/
theorem validateEntry_expected {i : ℕ} {entry : FileEntry} {config : ReceiverConfig} {path : OsStr}
    {expected : Option Hash} (h : validateEntry i entry config = .ok (.ok (path, expected)))
    (digest : Hash) : expected = some digest ↔ Supplied config i entry digest := by
  rw [Supplied, ← Option.join_eq_some_iff]
  obtain ⟨-, ⟨hnone, rfl⟩ | ⟨bytes, inBand, hbytes, hhash, hagree, rfl⟩⟩ := validateEntry_ok h
  · simp [hnone]
  · refine ⟨?_, ?_⟩
    · rintro ⟨⟩
      exact .inr ⟨bytes, hbytes, hhash⟩
    · rintro (houter | ⟨bytes', hbytes', hhash'⟩)
      · rw [hagree digest houter]
      · rw [hbytes] at hbytes'
        cases hbytes'
        rw [← hhash, hhash']

/-! ## The sinks -/

section

variable {S W : Type} [FileSink S]

/-- The resume points of files from index `i` on, by the bytes they hold: one for each that holds
something. -/
def resumePoints (i : ℕ) : List UInt64 → List ResumePoint
  | [] => []
  | held :: rest => (if 0 < held then [⟨.ofNat i, held⟩] else []) ++ resumePoints (i + 1) rest

/-- The file `slot` is opened for the entry and its plan, as file `i`. -/
structure Opens (makeSink : W → ℕ → OsStr → W × Except SinkError S) (i : ℕ) (entry : FileEntry)
    (plan : OsStr × Option Hash) (slot : Slot S) : Prop where
  size_eq : slot.size = entry.size
  acked_eq : slot.acked = FileSink.existingLen slot.sink
  le_size : slot.acked ≤ slot.size
  incomplete : slot.complete = false
  expected_eq : slot.expected = plan.2
  index : 0 < slot.acked → i < 2 ^ 32
  opened : ∃ w, (makeSink w i plan.1).2 = .ok slot.sink

theorem openSinks_ok {makeSink : W → ℕ → OsStr → W × Except SinkError S} {i : ℕ} {w w' : W}
    {entries : List FileEntry} {plans : List (OsStr × Option Hash)} {slots : List (Slot S)}
    {resume : List ResumePoint}
    (h : openSinks makeSink i w entries plans = (w', .ok (.ok (slots, resume)))) :
    resume = resumePoints i (slots.map (·.acked)) ∧ slots.length = plans.length ∧
      ∀ k slot, slots[k]? = some slot → ∃ entry plan, entries[k]? = some entry ∧
        plans[k]? = some plan ∧ Opens makeSink (i + k) entry plan slot := by
  induction plans generalizing i w entries slots resume with
  | nil =>
    simp only [openSinks] at h
    cases h
    exact ⟨rfl, rfl, nofun⟩
  | cons plan plans ih =>
    cases entries with
    | nil => cases h
    | cons entry entries =>
      obtain ⟨safePath, expected⟩ := plan
      rw [openSinks] at h
      split at h
      · cases h
      · next w₁ sink hmake =>
        dsimp only at h
        split at h
        · cases h
        · next hsize =>
          split at h
          · cases h
          · next hindex =>
            split at h
            · next w₂ rest points hrest =>
              cases h
              obtain ⟨hpoints, hlength, hall⟩ := ih hrest
              refine ⟨by rw [List.map_cons, resumePoints, hpoints], by simp [hlength], ?_⟩
              intro k slot hslot
              cases k with
              | zero =>
                cases hslot
                refine ⟨entry, _, rfl, rfl, rfl, rfl, UInt64.not_lt.1 hsize, rfl, rfl, ?_, w, ?_⟩
                · intro hheld
                  exact Nat.lt_of_not_le fun htop => hindex ⟨hheld, htop⟩
                · rw [Nat.add_zero, hmake]
              | succ k =>
                obtain ⟨e, plan, he, hplan, hopens⟩ := hall k slot hslot
                rw [Nat.succ_add_eq_add_succ] at hopens
                exact ⟨e, plan, he, hplan, hopens⟩
            · next hnot hrest =>
              cases h
              exact absurd rfl (hnot _ _)

/-- The sinks are opened when none fails or holds too much. -/
theorem openSinks_succeeds {makeSink : W → ℕ → OsStr → W × Except SinkError S} {i : ℕ} {w : W}
    {entries : List FileEntry} {plans : List (OsStr × Option Hash)}
    (hlength : plans.length = entries.length) (htop : i + entries.length < 2 ^ 32)
    (hopen : ∀ k entry, entries[k]? = some entry → ∀ w path, ∃ sink,
      (makeSink w (i + k) path).2 = .ok sink ∧ FileSink.existingLen sink ≤ entry.size) :
    ∃ w' slots resume, openSinks makeSink i w entries plans = (w', .ok (.ok (slots, resume))) := by
  induction plans generalizing i w entries with
  | nil => exact ⟨w, [], [], by rw [openSinks]⟩
  | cons plan plans ih =>
    cases entries with
    | nil => cases hlength
    | cons entry entries =>
      obtain ⟨safePath, expected⟩ := plan
      rw [List.length_cons] at htop
      cases hmake : makeSink w i safePath with
      | mk w₁ result =>
        obtain ⟨sink, hsink, hle⟩ := hopen 0 entry rfl w safePath
        rw [Nat.add_zero, hmake] at hsink
        cases hsink
        obtain ⟨w', slots, resume, hrest⟩ := ih (i := i + 1) (w := w₁) (Nat.succ.inj hlength)
          (by omega) fun k e he w path => by
            rw [Nat.succ_add_eq_add_succ]
            exact hopen (k + 1) e he w path
        rw [openSinks, hmake]
        dsimp only
        rw [if_neg (UInt64.not_lt.2 hle), if_neg (by omega), hrest]
        exact ⟨_, _, _, rfl⟩

/-- The receiver of files that have just been opened. -/
def Receiver.opened (offer : FileOffer) (config : ReceiverConfig) (slots : List (Slot S)) :
    Receiver S :=
  ⟨offer.transferId, config.quarantine, slots, false, false⟩

/-- How an offer comes to be accepted. -/
structure Accepts (makeSink : W → ℕ → OsStr → W × Except SinkError S) (offer : FileOffer)
    (config : ReceiverConfig) (w w' : W) (r : Receiver S) (m : FileAccept) (rest : List Outbound)
    (plans : List (OsStr × Option Hash)) (slots : List (Slot S)) (done : Option FileDone) :
    Prop where
  nonempty : offer.files ≠ []
  limits : checkLimits offer config = none
  plans_eq : validateEntries config 0 offer.files = .ok (.ok plans)
  opens : openSinks makeSink 0 w offer.files plans = (w', .ok (.ok (slots, m.resume)))
  id_eq : m.transferId = offer.transferId
  finalize : (Receiver.opened offer config slots).finalizeCompletedFiles = (r, done)
  rest_eq : rest = (done.map .done).toList

theorem acceptOffer_accepts {makeSink : W → ℕ → OsStr → W × Except SinkError S} {offer : FileOffer}
    {config : ReceiverConfig} {w w' : W} {r : Receiver S} {m : FileAccept} {rest : List Outbound}
    (h : acceptOffer makeSink offer config w = .ok (w', .ok (r, .accept m :: rest))) :
    ∃ plans slots done, Accepts makeSink offer config w w' r m rest plans slots done := by
  unfold acceptOffer at h
  dsimp only at h
  split at h
  · cases h
  · next hempty =>
    split at h
    · cases h
    · next hlimits =>
      split at h
      · cases h
      · cases h
      · next plans hplans =>
        split at h
        · cases h
        · cases h
        · next w₁ slots resume hopen =>
          cases hfinalize : (Receiver.opened offer config slots).finalizeCompletedFiles with
          | mk r' done =>
            rw [Receiver.opened] at hfinalize
            rw [hfinalize] at h
            cases h
            exact ⟨plans, slots, done, hempty, hlimits, hplans, hopen, rfl, hfinalize, rfl⟩

/-- A receiver that has not aborted has accepted. -/
theorem acceptOffer_accept {makeSink : W → ℕ → OsStr → W × Except SinkError S} {offer : FileOffer}
    {config : ReceiverConfig} {w w' : W} {r : Receiver S} {out : List Outbound}
    (h : acceptOffer makeSink offer config w = .ok (w', .ok (r, out))) :
    r.aborted = true ∨ ∃ m rest, out = .accept m :: rest := by
  unfold acceptOffer at h
  dsimp only at h
  split at h
  · cases h
  · split at h
    · cases h
      exact .inl rfl
    · split at h
      · cases h
      · cases h
        exact .inl rfl
      · split at h
        · cases h
        · cases h
          exact .inl rfl
        · cases h
          exact .inr ⟨_, _, rfl⟩

theorem acceptOffer_succeeds {makeSink : W → ℕ → OsStr → W × Except SinkError S}
    {offer : FileOffer} {config : ReceiverConfig} {w : W} {plans : List (OsStr × Option Hash)}
    (hempty : offer.files ≠ []) (hlimits : checkLimits offer config = none)
    (hplans : validateEntries config 0 offer.files = .ok (.ok plans))
    (htop : offer.files.length < 2 ^ 32)
    (hopen : ∀ k entry, offer.files[k]? = some entry → ∀ w path, ∃ sink,
      (makeSink w k path).2 = .ok sink ∧ FileSink.existingLen sink ≤ entry.size) :
    ∃ w' r m rest, acceptOffer makeSink offer config w = .ok (w', .ok (r, .accept m :: rest)) := by
  obtain ⟨hlength, -⟩ := validateEntries_ok hplans
  obtain ⟨w', slots, resume, hslots⟩ := openSinks_succeeds (w := w) (i := 0) hlength
    (by rwa [Nat.zero_add]) (by simpa using hopen)
  unfold acceptOffer
  rw [if_neg hempty, hlimits]
  dsimp only
  rw [hplans]
  dsimp only
  rw [hslots]
  exact ⟨_, _, _, _, rfl⟩

/-! ## The receiver that has accepted -/

/-- What is fixed of each file: its size and the digest that is expected of it. -/
def Receiver.files (r : Receiver S) : List (UInt64 × Option Hash) :=
  r.slots.map fun slot => (slot.size, slot.expected)

variable [Sha256] [SinkContent S] [LawfulFileSink S]

theorem Receiver.files_onChunk (r : Receiver S) (chunk : FileChunk) :
    (r.onChunk chunk).1.files = r.files := by
  have hcases := onChunk_cases r chunk
  generalize r.onChunk chunk = result at hcases
  cases hcases with
  | refused e => rfl
  | ended haborted => rfl
  | again hslot => rfl
  | failed hnext hwrite => exact map_putSlot _ hnext.found rfl
  | written hnext hwrite hfinalize =>
    have hfinal := (finalized hfinalize).slots.map_eq
      (fun slot : Slot S => (slot.size, slot.expected))
      fun slot slot' hf => Prod.ext hf.size_eq hf.expected_eq
    exact hfinal.trans (map_putSlot _ hnext.found rfl)

variable {makeSink : W → ℕ → OsStr → W × Except SinkError S} {offer : FileOffer}
  {config : ReceiverConfig} {w w' : W} {r : Receiver S} {m : FileAccept} {rest : List Outbound}
  {plans : List (OsStr × Option Hash)} {slots : List (Slot S)} {done : Option FileDone}

theorem Accepts.good (h : Accepts makeSink offer config w w' r m rest plans slots done) :
    ∀ slot ∈ slots, Receiver.Good slot := by
  obtain ⟨-, -, hopens⟩ := openSinks_ok h.opens
  intro slot hslot
  obtain ⟨k, hk⟩ := List.mem_iff_getElem?.1 hslot
  obtain ⟨entry, plan, -, -, ho⟩ := hopens k slot hk
  refine ⟨?_, ho.le_size, ?_⟩
  · rw [ho.acked_eq, LawfulFileSink.existingLen_eq]
  · rw [ho.incomplete]
    nofun

theorem Accepts.inv (h : Accepts makeSink offer config w w' r m rest plans slots done) : r.Inv :=
  (Receiver.finalized h.finalize).inv h.good rfl rfl

/-- The receiver has one file for each that is offered, of its size, and expects of it the digest
that was supplied. -/
structure Receiver.Serves (r : Receiver S) (offer : FileOffer) (config : ReceiverConfig) :
    Prop where
  length_eq : r.files.length = offer.files.length
  file : ∀ i entry size expected, offer.files[i]? = some entry →
    r.files[i]? = some (size, expected) →
    size = entry.size ∧ ∀ digest, expected = some digest ↔ Supplied config i entry digest

theorem Accepts.serves (h : Accepts makeSink offer config w w' r m rest plans slots done) :
    r.Serves offer config := by
  obtain ⟨-, hlength, hopens⟩ := openSinks_ok h.opens
  obtain ⟨hplans, hplan⟩ := validateEntries_ok h.plans_eq
  have hfiles : r.files = slots.map fun slot => (slot.size, slot.expected) :=
    (Receiver.finalized h.finalize).slots.map_eq _ fun _ _ hf => Prod.ext hf.size_eq hf.expected_eq
  refine ⟨by rw [hfiles, List.length_map, hlength, hplans], ?_⟩
  intro i entry size expected hentry hfile
  rw [hfiles, List.getElem?_map, Option.map_eq_some_iff] at hfile
  obtain ⟨slot, hslot, hpair⟩ := hfile
  cases hpair
  obtain ⟨entry', plan, hentry', hplan', ho⟩ := hopens i slot hslot
  rw [hentry] at hentry'
  cases hentry'
  refine ⟨ho.size_eq, ?_⟩
  have hvalid := hplan i entry plan hentry hplan'
  rw [ho.expected_eq]
  rw [Nat.zero_add] at hvalid
  exact validateEntry_expected hvalid

end

end Mouser
