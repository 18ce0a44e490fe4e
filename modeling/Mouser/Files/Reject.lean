import Mouser.Files.Targets

/-!
# What a rejected offer leaves behind

The limits, the names and the digests of an offer are checked before the first sink is opened. That
a file already holds more than is offered is only known once its own sink is open, after those of
the files before it. `rejected_unopened_iff` says that this is the one rejection that has opened
something.
-/

namespace Mouser

section

variable {S W : Type} [FileSink S] {makeSink : W → ℕ → OsStr → W × Except SinkError S}

/-- The sinks open one after the other, from index `i` on, up to one that holds more than the size
offered for its file. -/
inductive OpensTooLong (makeSink : W → ℕ → OsStr → W × Except SinkError S) :
    ℕ → W → List FileEntry → List (OsStr × Option Hash) → Prop
  | here {i w w' sink entry entries path expected plans}
      (hmake : makeSink w i path = (w', .ok sink))
      (hlong : entry.size < FileSink.existingLen sink) :
      OpensTooLong makeSink i w (entry :: entries) ((path, expected) :: plans)
  | later {i w w' sink entry entries path expected plans}
      (hmake : makeSink w i path = (w', .ok sink))
      (hfits : ¬ entry.size < FileSink.existingLen sink)
      (hindex : ¬ (0 < FileSink.existingLen sink ∧ 2 ^ 32 ≤ i))
      (hrest : OpensTooLong makeSink (i + 1) w' entries plans) :
      OpensTooLong makeSink i w (entry :: entries) ((path, expected) :: plans)

/-- A rejection while the sinks are opened comes from a file that holds too much, and something has
been opened then. -/
theorem openSinks_rejects {i : ℕ} {w w' : W × List OsStr} {entries : List FileEntry}
    {plans : List (OsStr × Option Hash)} {reason : String}
    (h : openSinks (recording makeSink) i w entries plans = (w', .ok (.error reason))) :
    OpensTooLong makeSink i w.1 entries plans ∧ w'.2 ≠ [] := by
  induction plans generalizing i w entries with
  | nil =>
    simp only [openSinks] at h
    cases h
  | cons plan plans ih =>
    cases entries with
    | nil => cases h
    | cons entry entries =>
      obtain ⟨safePath, expected⟩ := plan
      rw [openSinks, recording] at h
      cases hmake : makeSink w.1 i safePath with
      | mk w₁ result =>
        rw [hmake] at h
        cases result with
        | error e => cases h
        | ok sink =>
          dsimp only at h
          split at h
          · next hlong =>
            cases h
            exact ⟨.here hmake hlong, List.append_ne_nil_of_right_ne_nil _ (List.cons_ne_nil _ _)⟩
          · next hfits =>
            split at h
            · cases h
            · next hindex =>
              split at h
              · cases h
              · next w₂ result hnot hrest =>
                cases h
                obtain ⟨hlong, hopened⟩ := ih hrest
                exact ⟨.later hmake hfits hindex hlong, hopened⟩

/-- A file that holds too much has the offer rejected, after something was opened. -/
theorem OpensTooLong.rejects {i : ℕ} {w : W} {entries : List FileEntry}
    {plans : List (OsStr × Option Hash)} (h : OpensTooLong makeSink i w entries plans)
    (opened : List OsStr) : ∃ w' reason,
      openSinks (recording makeSink) i (w, opened) entries plans = (w', .ok (.error reason)) ∧
        w'.2 ≠ [] := by
  induction h generalizing opened with
  | @here i w w' sink entry entries path expected plans hmake hlong =>
    rw [openSinks, recording, hmake]
    dsimp only
    rw [if_pos hlong]
    exact ⟨_, _, rfl, List.append_ne_nil_of_right_ne_nil _ (List.cons_ne_nil _ _)⟩
  | @later i w w' sink entry entries path expected plans hmake hfits hindex hrest ih =>
    obtain ⟨w₂, reason, hreject, hopened⟩ := ih (opened ++ [path])
    rw [openSinks, recording, hmake]
    dsimp only
    rw [if_neg hfits, if_neg hindex, hreject]
    exact ⟨w₂, reason, rfl, hopened⟩

/-- If the answer is a `FileReject`, `make_sink` was not called. -/
def RejectsUnopened (makeSink : W → ℕ → OsStr → W × Except SinkError S) (offer : FileOffer)
    (config : ReceiverConfig) (w : W) : Prop :=
  ∀ w' opened r m rest, acceptOffer (recording makeSink) offer config (w, []) =
    .ok ((w', opened), .ok (r, .reject m :: rest)) → opened = []

/-- **When a rejected offer has opened nothing**: unless the offer passes every check that comes
before the sinks, and one of them turns out to hold more than is offered for its file. -/
theorem rejected_unopened_iff (makeSink : W → ℕ → OsStr → W × Except SinkError S)
    (offer : FileOffer) (config : ReceiverConfig) (w : W) :
    RejectsUnopened makeSink offer config w ↔
      ∀ plans, checkLimits offer config = none →
        validateEntries config 0 offer.files = .ok (.ok plans) →
        ¬ OpensTooLong makeSink 0 w offer.files plans := by
  refine ⟨?_, ?_⟩
  · intro h plans hlimits hplans hlong
    obtain ⟨⟨w', opened⟩, reason, hreject, hopened⟩ := hlong.rejects []
    refine hopened (h w' opened (.rejected offer.transferId config.quarantine)
      ⟨offer.transferId, reason⟩ [] ?_)
    have hfiles : offer.files ≠ [] := by
      intro hnil
      rw [hnil] at hlong
      cases hlong
    simp only [acceptOffer, if_neg hfiles, hlimits, hplans, hreject]
  · intro h w' opened r m rest haccept
    unfold acceptOffer at haccept
    dsimp only at haccept
    split at haccept
    · cases haccept
    · split at haccept
      · cases haccept
        rfl
      · next hlimits =>
        split at haccept
        · cases haccept
        · cases haccept
          rfl
        · next plans hplans =>
          split at haccept
          · cases haccept
          · next w₁ reason hreject =>
            exact absurd (openSinks_rejects hreject).1 (h plans hlimits hplans)
          · cases haccept

end

section

attribute [local instance] Sha256.abc

/-- The disk of a receiver that holds two bytes under the name of the second file. -/
def leftoverDisk : Disk :=
  Function.update emptyDisk (OsStr.new "/quarantine/b.txt") (some ⟨[120, 121], length_xy_lt⟩)

/-- A new file, and one of a single byte. -/
def shortOffer : FileOffer := ⟨7, [⟨"a.txt", 3, some Hash.ofAbc.bytes⟩, ⟨"b.txt", 1, none⟩]⟩

/-- The disk when both files have been opened. -/
def openedDisk : Disk :=
  Function.update (Function.update leftoverDisk (OsStr.new "/quarantine/a.txt")
    (some ⟨[], length_nil_lt⟩)) (OsStr.new "/quarantine/b.txt") (some ⟨[120, 121], length_xy_lt⟩)

/-- The offer is rejected for its second file, when the first has been created. -/
theorem leftover_opened :
    ¬ RejectsUnopened FsSink.openReceiveSink shortOffer quarantineConfig leftoverDisk ∧
      leftoverDisk (OsStr.new "/quarantine/a.txt") = none ∧
      openedDisk (OsStr.new "/quarantine/a.txt") = some ⟨[], length_nil_lt⟩ := by
  have hplans : validateEntries quarantineConfig 0 shortOffer.files =
      .ok (.ok [(OsStr.new "/quarantine/a.txt", some .ofAbc),
        (OsStr.new "/quarantine/b.txt", none)]) := by decide +kernel
  have hlimits : checkLimits shortOffer quarantineConfig = none := by decide +kernel
  have hreject : acceptOffer (recording FsSink.openReceiveSink) shortOffer quarantineConfig
        (leftoverDisk, []) =
      .ok ((openedDisk, [OsStr.new "/quarantine/a.txt", OsStr.new "/quarantine/b.txt"]),
        .ok (.rejected 7 (OsStr.new "/quarantine"),
          [.reject ⟨7, "file 1: existing 2 bytes exceed offered size 1"⟩])) := by
    unfold acceptOffer
    rw [if_neg (by decide), hlimits]
    dsimp only
    rw [hplans]
    rfl
  refine ⟨?_, by decide +kernel, by decide +kernel⟩
  intro h
  cases h _ _ _ _ _ hreject

end

end Mouser
