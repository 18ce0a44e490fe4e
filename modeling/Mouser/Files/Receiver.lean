import Mouser.Files.Path
import Mouser.Lib.FixedWidth
import Mouser.Lib.Machine
import Mouser.Protocol.Messages

/-!
# The receiver of a file transfer

`Receiver::accept_offer` checks an offer against the limits, then each entry, and only then opens
the sinks; `Receiver::on_chunk` commits the chunks that follow. The sinks are a parameter: what they
hold is behind the three operations of `FileSink`, and opening one (`make_sink`) acts on a state of
its own, such as the disk.
-/

namespace Mouser

/-- A SHA-256 digest. -/
structure Hash where
  bytes : List UInt8
  length_eq : bytes.length = 32

theorem Hash.bytes_injective : Function.Injective Hash.bytes := by
  rintro ⟨a, ha⟩ ⟨b, hb⟩ h
  cases h
  rfl

instance : DecidableEq Hash := Hash.bytes_injective.decidableEq

/-- `Hash::try_from` -/
def Hash.ofBytes (bytes : List UInt8) : Option Hash :=
  if h : bytes.length = 32 then some ⟨bytes, h⟩ else none

structure SinkError where
  message : String
deriving DecidableEq

/-- Where the receiver writes a file. -/
class FileSink (S : Type) where
  existingLen : S → UInt64
  writeAt : S → UInt64 → List UInt8 → S × Except SinkError Unit
  /-- The digest of everything written. -/
  finish : S → S × Except SinkError Hash

inductive FileError where
  | unknownTransfer (id : UInt64)
  | unknownFileIndex (i : UInt32)
  | chunkTooLarge (n : ℕ)
  | offsetOutOfRange (fileIndex : UInt32) (offset : UInt64)
  | protocol (message : String)
  | path (e : PathError)
  | sink (e : SinkError)
deriving DecidableEq

structure ReceiverConfig where
  quarantine : OsStr
  expectedHashes : List (Option Hash)
  maxFileSize : Option UInt64
  maxFiles : Option ℕ
  maxTotalBytes : Option UInt64

/-- The default limits. -/
def ReceiverConfig.new (quarantine : OsStr) : ReceiverConfig where
  quarantine := quarantine
  expectedHashes := []
  maxFileSize := some (64 * 1024 * 1024 * 1024)
  maxFiles := some 10000
  maxTotalBytes := some (256 * 1024 * 1024 * 1024)

/-- A message the receiver wants sent back. -/
inductive Outbound where
  | accept (m : FileAccept)
  | reject (m : FileReject)
  | ack (m : FileAck)
  | done (m : FileDone)
deriving DecidableEq

structure Slot (S : Type) where
  size : UInt64
  acked : UInt64
  complete : Bool
  sink : S
  expected : Option Hash
deriving DecidableEq

structure Receiver (S : Type) where
  transferId : UInt64
  quarantine : OsStr
  slots : List (Slot S)
  doneEmitted : Bool
  aborted : Bool
deriving DecidableEq

/-! ## Validation -/

/-- The loop of `check_limits`: the sum of the sizes, or the reason of the first that is too
large. -/
def checkSizes (maxFileSize : Option UInt64) (i : ℕ) (total : UInt64) :
    List FileEntry → Except String UInt64
  | [] => .ok total
  | entry :: entries =>
    match maxFileSize.filter (· < entry.size) with
    | some max => .error s!"file {i}: size {entry.size} exceeds max file size {max}"
    | none => checkSizes maxFileSize (i + 1) (total.saturatingAdd entry.size) entries

/-- The first bound that the offer violates. -/
def checkLimits (offer : FileOffer) (config : ReceiverConfig) : Option String :=
  match config.maxFiles.filter (· < offer.files.length) with
  | some max => some s!"offer lists {offer.files.length} files, exceeds max {max}"
  | none =>
    match checkSizes config.maxFileSize 0 0 offer.files with
    | .error reason => some reason
    | .ok total =>
      (config.maxTotalBytes.filter (· < total)).map fun max =>
        s!"total size {total} exceeds max {max}"

/-- The path and the digest of one offered file. A digest that the caller supplied comes before
that of the offer, and the two have to agree. -/
def validateEntry (i : ℕ) (entry : FileEntry) (config : ReceiverConfig) :
    Unwind (Except String (OsStr × Option Hash)) :=
  match resolveInQuarantine config.quarantine entry.name with
  | .error panic => .error panic
  | .ok (.error e) => .ok (.error s!"unsafe file name: {e.display}")
  | .ok (.ok safePath) =>
    let outOfBand := (config.expectedHashes[i]?).join
    match entry.sha256.map Hash.ofBytes with
    | some none => .ok (.error s!"file {i}: sha256 must be 32 bytes")
    | none => .ok (.ok (safePath, outOfBand))
    | some (some inBand) =>
      if outOfBand.any (· ≠ inBand) then
        .ok (.error s!"file {i}: offered sha256 disagrees with expected")
      else .ok (.ok (safePath, outOfBand.or inBand))

/-- The loop over the entries, from index `i` on. -/
def validateEntries (config : ReceiverConfig) (i : ℕ) :
    List FileEntry → Unwind (Except String (List (OsStr × Option Hash)))
  | [] => .ok (.ok [])
  | entry :: entries =>
    match validateEntry i entry config with
    | .error panic => .error panic
    | .ok (.error reason) => .ok (.error reason)
    | .ok (.ok plan) =>
      match validateEntries config (i + 1) entries with
      | .error panic => .error panic
      | .ok (.error reason) => .ok (.error reason)
      | .ok (.ok plans) => .ok (.ok (plan :: plans))

/-! ## Opening -/

section

variable {S W : Type} [FileSink S]

/-- The sinks opened for the validated files from index `i` on, and the points to resume from; or
the reason to reject the transfer. -/
def openSinks (makeSink : W → ℕ → OsStr → W × Except SinkError S) (i : ℕ) (w : W) :
    List FileEntry → List (OsStr × Option Hash) →
      W × Except FileError (Except String (List (Slot S) × List ResumePoint))
  | _, [] => (w, .ok (.ok ([], [])))
  | [], _ :: _ => (w, .error (.unknownFileIndex (.ofNatClamp i)))
  | entry :: entries, (safePath, expected) :: plans =>
    match makeSink w i safePath with
    | (w, .error e) => (w, .error (.sink e))
    | (w, .ok sink) =>
      let existing := FileSink.existingLen sink
      if entry.size < existing then
        (w, .ok (.error s!"file {i}: existing {existing} bytes exceed offered size {entry.size}"))
      else if 0 < existing ∧ 2 ^ 32 ≤ i then (w, .error (.protocol "file_index overflow"))
      else
        let point := if 0 < existing then [⟨.ofNat i, existing⟩] else []
        match openSinks makeSink (i + 1) w entries plans with
        | (w, .ok (.ok (slots, resume))) =>
          (w, .ok (.ok (⟨entry.size, existing, false, sink, expected⟩ :: slots, point ++ resume)))
        | (w, result) => (w, result)

/-! ## Finishing -/

/-- Finalize the files that have reached their size, up to the first that is not as expected. -/
def finalizeSlots : List (Slot S) → List (Slot S) × Bool
  | [] => ([], true)
  | slot :: slots =>
    if slot.complete ∨ slot.acked < slot.size then
      let (slots, ok) := finalizeSlots slots
      (slot :: slots, ok)
    else
      match FileSink.finish slot.sink with
      | (sink, .ok digest) =>
        if slot.expected.all (· = digest) then
          let (slots, ok) := finalizeSlots slots
          ({ slot with sink, complete := true } :: slots, ok)
        else ({ slot with sink } :: slots, false)
      | (sink, .error _) => ({ slot with sink } :: slots, false)

/-- `finalize_completed_files`, with the `FileDone` to send. -/
def Receiver.finalizeCompletedFiles (r : Receiver S) : Receiver S × Option FileDone :=
  match finalizeSlots r.slots with
  | (slots, false) =>
    ({ r with slots, aborted := true, doneEmitted := true }, some ⟨r.transferId, false⟩)
  | (slots, true) =>
    if !r.doneEmitted && slots.all (·.complete) then
      ({ r with slots, doneEmitted := true }, some ⟨r.transferId, true⟩)
    else ({ r with slots }, none)

/-- `Receiver::aborted`: the receiver of a transfer that was rejected. -/
def Receiver.rejected (transferId : UInt64) (quarantine : OsStr) : Receiver S where
  transferId := transferId
  quarantine := quarantine
  slots := []
  doneEmitted := true
  aborted := true

/-- Handle a `FileOffer`: validate everything, then open the sinks. -/
def acceptOffer (makeSink : W → ℕ → OsStr → W × Except SinkError S) (offer : FileOffer)
    (config : ReceiverConfig) (w : W) :
    Unwind (W × Except FileError (Receiver S × List Outbound)) :=
  let reject (w : W) (reason : String) : W × Except FileError (Receiver S × List Outbound) :=
    (w, .ok (.rejected offer.transferId config.quarantine, [.reject ⟨offer.transferId, reason⟩]))
  if offer.files = [] then .ok (w, .error (.protocol "offer lists no files"))
  else
    match checkLimits offer config with
    | some reason => .ok (reject w reason)
    | none =>
      match validateEntries config 0 offer.files with
      | .error panic => .error panic
      | .ok (.error reason) => .ok (reject w reason)
      | .ok (.ok plans) =>
        match openSinks makeSink 0 w offer.files plans with
        | (w, .error e) => .ok (w, .error e)
        | (w, .ok (.error reason)) => .ok (reject w reason)
        | (w, .ok (.ok (slots, resume))) =>
          let (recv, done) := Receiver.finalizeCompletedFiles
            ⟨offer.transferId, config.quarantine, slots, false, false⟩
          .ok (w, .ok (recv, .accept ⟨offer.transferId, resume⟩ :: (done.map .done).toList))

/-! ## Chunks -/

/-- The most bytes a chunk may carry. -/
def maxChunkSize : ℕ := 1024 * 1024

namespace Receiver

def abort (r : Receiver S) : Receiver S × FileDone :=
  ({ r with aborted := true, doneEmitted := true }, ⟨r.transferId, false⟩)

/-- The tail of `onChunk`: the chunk is the next one of the file `slot`, and is written. -/
def commitChunk (r : Receiver S) (i : UInt32) (slot : Slot S) (data : List UInt8) (stop : UInt64) :
    Receiver S × List Outbound :=
  match FileSink.writeAt slot.sink slot.acked data with
  | (sink, .error _) =>
    let (r, done) := { r with slots := r.slots.set i.toNat { slot with sink } }.abort
    (r, [.done done])
  | (sink, .ok ()) =>
    let r := { r with slots := r.slots.set i.toNat { slot with sink, acked := stop } }
    let (r, done) := r.finalizeCompletedFiles
    (r, .ack ⟨r.transferId, i, stop⟩ :: (done.map .done).toList)

/-- Handle a `FileChunk`: validate, write, and reply. -/
def onChunk (r : Receiver S) (chunk : FileChunk) :
    Receiver S × Except FileError (List Outbound) :=
  if chunk.transferId ≠ r.transferId then (r, .error (.unknownTransfer chunk.transferId))
  else if r.aborted then (r, .ok [])
  else if maxChunkSize < chunk.data.length then (r, .error (.chunkTooLarge chunk.data.length))
  else
    match r.slots[chunk.fileIndex.toNat]? with
    | none => (r, .error (.unknownFileIndex chunk.fileIndex))
    | some slot =>
      let again : List Outbound := [.ack ⟨r.transferId, chunk.fileIndex, slot.acked⟩]
      if slot.complete then (r, .ok again)
      else
        match chunk.offset.checkedAdd (.ofNat chunk.data.length) with
        | none => (r, .error (.offsetOutOfRange chunk.fileIndex chunk.offset))
        | some stop =>
          if slot.size < stop then
            (r, .error (.offsetOutOfRange chunk.fileIndex chunk.offset))
          -- a retransmission or a gap is answered with what is held
          else if chunk.offset ≠ slot.acked then (r, .ok again)
          else
            let (r, out) := r.commitChunk chunk.fileIndex slot chunk.data stop
            (r, .ok out)

def isComplete (r : Receiver S) : Bool :=
  !r.aborted && !r.slots.isEmpty && r.slots.all (·.complete)

def isTerminal (r : Receiver S) : Bool := r.isComplete || r.aborted

/-- The receiver as a machine: a run is any sequence of chunks. -/
def machine : Machine (Receiver S) FileChunk (Except FileError (List Outbound)) := ⟨onChunk⟩

end Receiver

/-! ## When an offer is handled without a panic -/

/-- The offer is within the limits, and the entries before index `i` are valid. -/
def Reaches (offer : FileOffer) (config : ReceiverConfig) (i : ℕ) : Prop :=
  checkLimits offer config = none ∧ ∀ j entry, j < i → offer.files[j]? = some entry →
    ∃ plan, validateEntry j entry config = .ok (.ok plan)

theorem validateEntry_returns {i : ℕ} {entry : FileEntry} {config : ReceiverConfig} :
    (validateEntry i entry config).Returns ↔ (sanitizeName entry.name).Returns := by
  rw [← @resolveInQuarantine_returns config.quarantine]
  unfold validateEntry
  cases resolveInQuarantine config.quarantine entry.name with
  | error p => simp
  | ok result =>
    cases result with
    | error e => simp
    | ok safePath =>
      simp only [returns_ok, iff_true]
      split
      · simp
      · simp
      · split <;> simp

/-- The loop panics just when the first entry that is not valid does. -/
theorem validateEntries_returns {config : ReceiverConfig} {i : ℕ} {entries : List FileEntry} :
    (validateEntries config i entries).Returns ↔ ∀ k entry, entries[k]? = some entry →
      (∀ j e, j < k → entries[j]? = some e →
        ∃ plan, validateEntry (i + j) e config = .ok (.ok plan)) →
      (sanitizeName entry.name).Returns := by
  induction entries generalizing i with
  | nil => simp [validateEntries]
  | cons first entries ih =>
    have hsplit : (∀ k entry, (first :: entries)[k]? = some entry →
        (∀ j e, j < k → (first :: entries)[j]? = some e →
          ∃ plan, validateEntry (i + j) e config = .ok (.ok plan)) →
        (sanitizeName entry.name).Returns) ↔
        (validateEntry i first config).Returns ∧
          ((∃ plan, validateEntry i first config = .ok (.ok plan)) →
            (validateEntries config (i + 1) entries).Returns) := by
      rw [ih, validateEntry_returns]
      refine ⟨?_, ?_⟩
      · intro h
        refine ⟨h 0 first rfl (by simp), ?_⟩
        intro hfirst k entry hk hbefore
        refine h (k + 1) entry hk ?_
        intro j e hj he
        cases j with
        | zero =>
          cases he
          exact hfirst
        | succ j =>
          rw [← Nat.succ_add_eq_add_succ]
          exact hbefore j e (by omega) he
      · rintro ⟨hfirst, hrest⟩ k entry hk hbefore
        cases k with
        | zero =>
          cases hk
          exact hfirst
        | succ k =>
          refine hrest (hbefore 0 first (by omega) rfl) k entry hk ?_
          intro j e hj he
          rw [Nat.succ_add_eq_add_succ]
          exact hbefore (j + 1) e (by omega) he
    rw [hsplit, validateEntries]
    cases validateEntry i first config with
    | error p => simp
    | ok result =>
      cases result with
      | error reason => simp
      | ok plan =>
        cases validateEntries config (i + 1) entries with
        | error p => simp
        | ok results => cases results <;> simp

/-- `accept_offer` panics just when the validation of its entries does. -/
theorem acceptOffer_returns {makeSink : W → ℕ → OsStr → W × Except SinkError S}
    {offer : FileOffer} {config : ReceiverConfig} {w : W} :
    (acceptOffer makeSink offer config w).Returns ↔
      (checkLimits offer config = none → (validateEntries config 0 offer.files).Returns) := by
  unfold acceptOffer
  split
  · next hempty => simp [hempty, validateEntries]
  · split
    · next hlimits => simp [hlimits]
    · next hlimits =>
      cases validateEntries config 0 offer.files with
      | error p => simp [hlimits]
      | ok result =>
        cases result with
        | error reason => simp
        | ok plans =>
          simp only [returns_ok, implies_true, iff_true]
          split <;> simp

end

/-- **Which hostile names crash the receiver.** `sanitize_name` and `resolve_in_quarantine` return
just for the names that are safe to check, and `accept_offer` returns just when every name that it
gets to is one of them. -/
theorem hostile_names_return (name : String) (quarantine : OsStr) {S W : Type} [FileSink S]
    (makeSink : W → ℕ → OsStr → W × Except SinkError S) (offer : FileOffer)
    (config : ReceiverConfig) (w : W) :
    ((sanitizeName name).Returns ↔ SafeToCheck name) ∧
    ((resolveInQuarantine quarantine name).Returns ↔ SafeToCheck name) ∧
    ((acceptOffer makeSink offer config w).Returns ↔
      ∀ i entry, offer.files[i]? = some entry → Reaches offer config i →
        SafeToCheck entry.name) := by
  refine ⟨sanitizeName_returns, ?_, ?_⟩
  · rw [resolveInQuarantine_returns, sanitizeName_returns]
  · rw [acceptOffer_returns, validateEntries_returns]
    simp only [Nat.zero_add, sanitizeName_returns, Reaches]
    refine ⟨?_, ?_⟩
    · rintro h i entry hi ⟨hlimits, hbefore⟩
      exact h hlimits i entry hi fun j e hj he => hbefore j e hj he
    · intro h hlimits i entry hi hbefore
      exact h i entry hi ⟨hlimits, fun j e hj he => hbefore j e hj he⟩

/-- Three letters of which the last takes two bytes are enough to crash the receiver. -/
theorem accented_name_panics :
    sanitizeName "abé" = .error .charBoundary ∧
      resolveInQuarantine (OsStr.new "/quarantine") "abé" = .error .charBoundary := by
  decide +kernel

end Mouser
