import Mouser.Clipboard.Pulls

/-!
# Applied clips are not echoed

When a clip is written to the clipboard, the platform reports a change, and the change is left out
once: the applied log holds the hash of the clip. The hash of the change is that of the canonical
form of the bytes that were applied. Those are canonical already, but the canonical form need not be
its own canonical form. `echo_suppressed_iff` says when the change is left out.
-/

namespace Mouser

/-- The digests of a CRLF and of an LF. -/
def Hash.ofCrlf : Hash where
  bytes :=
    [0x7e, 0xb7, 0x02, 0x57, 0x59, 0x3d, 0xa0, 0x6f, 0x68, 0x2a, 0x3d, 0xdd, 0xa5, 0x4a, 0x9d, 0x26,
     0x0d, 0x4f, 0xc5, 0x14, 0xf6, 0x45, 0x23, 0x7f, 0x5c, 0xa7, 0x4b, 0x08, 0xf8, 0xda, 0x61, 0xa6]
  length_eq := rfl

def Hash.ofLf : Hash where
  bytes :=
    [0x01, 0xba, 0x47, 0x19, 0xc8, 0x0b, 0x6f, 0xe9, 0x11, 0xb0, 0x91, 0xa7, 0xc0, 0x51, 0x24, 0xb6,
     0x4e, 0xee, 0xce, 0x96, 0x4e, 0x09, 0xc0, 0x58, 0xef, 0x8f, 0x98, 0x05, 0xda, 0xca, 0x54, 0x6b]
  length_eq := rfl

@[reducible] def Sha256.lineEnds : Sha256 :=
  .ofTable [([13, 10], Hash.ofCrlf), ([10], Hash.ofLf)] .ofEmpty

namespace ClipboardEngine

/-- **When an applied clip is not echoed.** A peer streams the canonical form of `bytes` under its
hash, and it is applied. The change that the platform reports is offered to no one exactly when the
device does not offer at all, a second pass over `bytes` changes nothing, or the marker of another
clip leaves the change out. No two contents that matter here have one hash (`hcol`). -/
theorem echo_suppressed_iff [Sha256] (e : ClipboardEngine) (origin : DeviceId)
    (data : ClipboardData) (format : ClipFormat) (bytes : List UInt8)
    (happlied : (e.onDataFrom origin data).2 = .ok (some ⟨format, canonical format bytes⟩))
    (hhash : data.hash = (contentHash format bytes).bytes)
    (hcol : contentHash format (canonical format bytes) = contentHash format bytes →
      canonical format (canonical format bytes) = canonical format bytes) :
    (canonical format (canonical format bytes) = canonical format bytes ↔ Stable format bytes) ∧
    (((e.onDataFrom origin data).1.onLocalChange [⟨format, canonical format bytes⟩]).2 = none ↔
      e.settings.canOffer = false ∨ Stable format bytes ∨
      ∃ m ∈ (e.onDataFrom origin data).1.applied, m.hash ≠ contentHash format bytes ∧
        AppliedLog.Suppresses format (contentHash format (canonical format bytes)) m = true) := by
  refine ⟨canonical_canonical_iff format bytes, ?_⟩
  obtain ⟨hash, p, hparse, -, hgates, hformat, -, -, hstate⟩ := onDataFrom_applies happlied
  rw [parseHash_eq_ok_iff.2 hhash] at hparse
  cases hparse
  have henabled : e.settings.formatEnabled format = true := by
    have hformat' : format = data.format := hformat
    rw [hformat']
    exact hgates.format
  have hpends : ((e.onDataFrom origin data).1.applied).Pends format
      (contentHash format (canonical format bytes)) ↔
      Stable format bytes ∨ ∃ m ∈ (e.onDataFrom origin data).1.applied,
        m.hash ≠ contentHash format bytes ∧
        AppliedLog.Suppresses format (contentHash format (canonical format bytes)) m = true := by
    refine ⟨?_, ?_⟩
    · rintro ⟨m, hm, hs⟩
      by_cases hsame : m.hash = contentHash format bytes
      · have hmhash : m.hash = contentHash format (canonical format bytes) := by
          simp only [AppliedLog.Suppresses, Bool.and_eq_true, decide_eq_true_eq] at hs
          exact hs.2
        exact .inl ((canonical_canonical_iff format bytes).1 (hcol (hmhash.symm.trans hsame)))
      · exact .inr ⟨m, hm, hsame, hs⟩
    · rintro (hstable | ⟨m, hm, -, hs⟩)
      · have hsame : contentHash format (canonical format bytes) = contentHash format bytes := by
          rw [contentHash, (canonical_canonical_iff format bytes).2 hstable, contentHash]
        rw [hsame, hstate, ← hformat]
        exact AppliedLog.pends_record _ _ _ _
      · exact ⟨m, hm, hs⟩
  have hsettings : (e.onDataFrom origin data).1.settings = e.settings := by
    rw [hstate]
  cases hoffer : e.settings.canOffer with
  | false =>
    refine ⟨fun _ => .inl rfl, fun _ => ?_⟩
    rw [onLocalChange, hsettings, hoffer]
    rfl
  | true =>
    rw [← hpends, onLocalChange_single (hsettings ▸ hoffer) (hsettings ▸ henabled)]
    simp

theorem echo_suppressed_abc :
    letI := Sha256.abc
    let e := (machine MemContentSource).exec (new (.fill 1) .linux .initial) abcEvents
    (e.onDataFrom (.fill 2) abcData).2 = .ok (some ⟨.utf8Text, canonical .utf8Text [97, 98, 99]⟩) ∧
      ((e.onDataFrom (.fill 2) abcData).1.onLocalChange
        [⟨.utf8Text, canonical .utf8Text [97, 98, 99]⟩]).2 = none := by
  let _ : Sha256 := Sha256.abc
  intro e
  have happlied : (e.onDataFrom (.fill 2) abcData).2 =
      .ok (some ⟨.utf8Text, canonical .utf8Text [97, 98, 99]⟩) := by
    decide +kernel
  have hhash : abcData.hash = (contentHash .utf8Text [97, 98, 99]).bytes := by
    decide +kernel
  have hstable : Stable .utf8Text [97, 98, 99] := by
    decide +kernel
  have h := echo_suppressed_iff e (.fill 2) abcData .utf8Text [97, 98, 99] happlied hhash
    (fun _ => (canonical_canonical_iff _ _).2 hstable)
  exact ⟨happlied, h.2.2 (.inr (.inl hstable))⟩

/-! ## A CR before a CRLF -/

/-- The text CR CR LF has been offered by the second device, whose canonical form is a CRLF. -/
def crCrLfEvents : List (ClipboardEvent MemContentSource) :=
  [.offer
    { entries := [{ format := .utf8Text, hash := Hash.ofCrlf.bytes, size := 2 }]
      origin := (DeviceId.fill 2).bytes } .windows]

def crCrLfData : ClipboardData where
  hash := Hash.ofCrlf.bytes
  format := .utf8Text
  offset := 0
  data := [13, 10]
  last := true

/-- It is applied, and offered back as an LF. -/
theorem crCrLf_echoed :
    letI := Sha256.lineEnds
    let e := (machine MemContentSource).exec (new (.fill 1) .linux .initial) crCrLfEvents
    (e.onDataFrom (.fill 2) crCrLfData).2 =
      .ok (some ⟨.utf8Text, canonical .utf8Text [13, 13, 10]⟩) ∧
    crCrLfData.hash = (contentHash .utf8Text [13, 13, 10]).bytes ∧
    canonical .utf8Text (canonical .utf8Text [13, 13, 10]) ≠ canonical .utf8Text [13, 13, 10] ∧
    ((e.onDataFrom (.fill 2) crCrLfData).1.onLocalChange
      [⟨.utf8Text, canonical .utf8Text [13, 13, 10]⟩]).2 =
      some
        { entries := [{ format := .utf8Text, hash := Hash.ofLf.bytes, size := 1 }]
          origin := (DeviceId.fill 1).bytes } := by
  refine ⟨?_, ?_, ?_, ?_⟩ <;> decide +kernel

end ClipboardEngine

end Mouser
