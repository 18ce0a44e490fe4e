import Mouser.Files.Sink
import Mouser.Lib.Lists

/-!
# What a chunk commits

`OnChunk` says once what `Receiver::on_chunk` can do with a chunk, and `Finishes` what
`finalize_completed_files` does to the files. `Receiver.Inv` is the invariant that both keep: every
file holds as many bytes as are acked, and the ones that are complete hold all of theirs, with the
digest that was expected.
-/

namespace Mouser

section

variable {S : Type} [FileSink S]

/-! ## The cases of a chunk -/

namespace Receiver

/-- The file `slot` of the receiver with its new sink. -/
def putSlot (r : Receiver S) (i : UInt32) (slot : Slot S) : Receiver S :=
  { r with slots := r.slots.set i.toNat slot }

omit [FileSink S] in
theorem map_putSlot {β : Type} {r : Receiver S} {i : UInt32} {slot slot' : Slot S} (f : Slot S → β)
    (hfound : r.slots[i.toNat]? = some slot) (hf : f slot' = f slot) :
    (r.putSlot i slot').slots.map f = r.slots.map f :=
  List.map_set_same f hfound hf

/-- The chunk is the next one of the file `slot`, and ends at `stop`. -/
structure Next (r : Receiver S) (chunk : FileChunk) (slot : Slot S) (stop : UInt64) : Prop where
  id_eq : chunk.transferId = r.transferId
  running : r.aborted = false
  small : chunk.data.length ≤ maxChunkSize
  found : r.slots[chunk.fileIndex.toNat]? = some slot
  incomplete : slot.complete = false
  offset_eq : chunk.offset = slot.acked
  stop_eq : stop.toNat = slot.acked.toNat + chunk.data.length
  fits : stop ≤ slot.size

/-- What the receiver does with a chunk, case by case. -/
inductive OnChunk (r : Receiver S) (chunk : FileChunk) :
    Receiver S × Except FileError (List Outbound) → Prop where
  | refused (e : FileError) : OnChunk r chunk (r, .error e)
  | ended (haborted : r.aborted = true) : OnChunk r chunk (r, .ok [])
  | again {slot : Slot S} (hslot : r.slots[chunk.fileIndex.toNat]? = some slot) :
    OnChunk r chunk (r, .ok [.ack ⟨r.transferId, chunk.fileIndex, slot.acked⟩])
  | failed {slot : Slot S} {stop : UInt64} {sink : S} {e : SinkError}
    (hnext : r.Next chunk slot stop)
    (hwrite : FileSink.writeAt slot.sink slot.acked chunk.data = (sink, .error e)) :
    OnChunk r chunk
      ((r.putSlot chunk.fileIndex { slot with sink }).abort.1, .ok [.done ⟨r.transferId, false⟩])
  | written {slot : Slot S} {stop : UInt64} {sink : S} {r' : Receiver S} {done : Option FileDone}
    (hnext : r.Next chunk slot stop)
    (hwrite : FileSink.writeAt slot.sink slot.acked chunk.data = (sink, .ok ()))
    (hfinalize :
      (r.putSlot chunk.fileIndex { slot with sink, acked := stop }).finalizeCompletedFiles =
        (r', done)) :
    OnChunk r chunk
      (r', .ok (.ack ⟨r.transferId, chunk.fileIndex, stop⟩ :: (done.map .done).toList))

theorem transferId_finalize (r : Receiver S) :
    r.finalizeCompletedFiles.1.transferId = r.transferId := by
  unfold finalizeCompletedFiles
  split
  · rfl
  · split <;> rfl

theorem Next.commitChunk {r : Receiver S} {chunk : FileChunk} {slot : Slot S} {stop : UInt64}
    (h : r.Next chunk slot stop) {r' : Receiver S} {out : List Outbound}
    (hcommit : r.commitChunk chunk.fileIndex slot chunk.data stop = (r', out)) :
    OnChunk r chunk (r', .ok out) := by
  unfold Receiver.commitChunk at hcommit
  split at hcommit
  · next sink e hwrite =>
    cases hcommit
    exact .failed h hwrite
  · next sink hwrite =>
    cases hfinalize : (r.putSlot chunk.fileIndex
        { slot with sink, acked := stop }).finalizeCompletedFiles with
    | mk r₁ done =>
      have hid := transferId_finalize (r.putSlot chunk.fileIndex { slot with sink, acked := stop })
      rw [hfinalize] at hid
      rw [putSlot] at hfinalize
      simp only [hfinalize] at hcommit
      cases hcommit
      rw [hid]
      exact .written h hwrite hfinalize

theorem onChunk_cases (r : Receiver S) (chunk : FileChunk) : OnChunk r chunk (r.onChunk chunk) := by
  unfold onChunk
  split
  · exact .refused _
  · next hid =>
    split
    · next haborted => exact .ended haborted
    · next haborted =>
      split
      · exact .refused _
      · next hlarge =>
        split
        · exact .refused _
        · next slot hslot =>
          dsimp only
          split
          · exact .again hslot
          · next hcomplete =>
            split
            · exact .refused _
            · next stop hstop =>
              split
              · exact .refused _
              · next hsize =>
                split
                · exact .again hslot
                · next hoffset =>
                  have hoffset' : chunk.offset = slot.acked := not_not.1 hoffset
                  refine Next.commitChunk ⟨not_not.1 hid, Bool.eq_false_iff.2 haborted,
                    Nat.le_of_not_lt hlarge, hslot, Bool.eq_false_iff.2 hcomplete, hoffset', ?_,
                    UInt64.not_lt.1 hsize⟩ rfl
                  have hlength : chunk.data.length < 2 ^ 64 :=
                    Nat.lt_of_le_of_lt (Nat.le_of_not_lt hlarge) (by decide)
                  rw [UInt64.checkedAdd_eq_some, UInt64.toNat_ofNat_of_lt' hlength] at hstop
                  rw [hstop, hoffset']

omit [FileSink S] in
/-- The end of a chunk that lies within the size of its file. -/
theorem checkedAdd_fits {c : FileChunk} {size : UInt64}
    (hfits : c.offset.toNat + c.data.length ≤ size.toNat) :
    ∃ stop, c.offset.checkedAdd (.ofNat c.data.length) = some stop ∧
      stop.toNat = c.offset.toNat + c.data.length ∧ ¬ size < stop := by
  have htop := size.toNat_lt
  have hlength : c.data.length < 2 ^ 64 :=
    Nat.lt_of_le_of_lt (Nat.le_trans (Nat.le_add_left _ _) hfits) htop
  have hstop : (UInt64.ofNat (c.offset.toNat + c.data.length)).toNat =
      c.offset.toNat + c.data.length :=
    UInt64.toNat_ofNat_of_lt' (Nat.lt_of_le_of_lt hfits htop)
  refine ⟨.ofNat (c.offset.toNat + c.data.length), ?_, hstop, ?_⟩
  · rw [UInt64.checkedAdd_eq_some, hstop, UInt64.toNat_ofNat_of_lt' hlength]
  · rw [UInt64.lt_iff_toNat_lt, hstop]
    exact Nat.not_lt.2 hfits

/-- A chunk of a file that lies within its size is not refused. -/
theorem onChunk_succeeds {r : Receiver S} {chunk : FileChunk} {slot : Slot S}
    (hid : chunk.transferId = r.transferId) (hsmall : chunk.data.length ≤ maxChunkSize)
    (hfound : r.slots[chunk.fileIndex.toNat]? = some slot)
    (hfits : chunk.offset.toNat + chunk.data.length ≤ slot.size.toNat) :
    ∃ out, (r.onChunk chunk).2 = .ok out := by
  obtain ⟨stop, hadd, -, hwithin⟩ := checkedAdd_fits hfits
  unfold onChunk
  rw [if_neg (not_not.2 hid)]
  split
  · exact ⟨_, rfl⟩
  · rw [if_neg (Nat.not_lt.2 hsmall), hfound]
    dsimp only
    split
    · exact ⟨_, rfl⟩
    · rw [hadd]
      dsimp only
      rw [if_neg hwithin]
      split <;> exact ⟨_, rfl⟩

/-- A chunk that lies within its file, and does not start at its end, is answered by an ack. -/
theorem onChunk_again {r : Receiver S} {c : FileChunk} {slot : Slot S}
    (hid : c.transferId = r.transferId) (hrunning : r.aborted = false)
    (hsmall : c.data.length ≤ maxChunkSize) (hslot : r.slots[c.fileIndex.toNat]? = some slot)
    (hne : c.offset ≠ slot.acked) (hfits : c.offset.toNat + c.data.length ≤ slot.size.toNat) :
    r.onChunk c = (r, .ok [.ack ⟨r.transferId, c.fileIndex, slot.acked⟩]) := by
  obtain ⟨stop, hadd, -, hwithin⟩ := checkedAdd_fits hfits
  unfold onChunk
  rw [if_neg (not_not.2 hid), hrunning, if_neg Bool.false_ne_true, if_neg (Nat.not_lt.2 hsmall),
    hslot]
  dsimp only
  split
  · rfl
  · rw [hadd]
    dsimp only
    rw [if_neg hwithin]

/-- The next chunk of a file is committed. -/
theorem Next.onChunk_eq {r : Receiver S} {chunk : FileChunk} {slot : Slot S} {stop : UInt64}
    (h : r.Next chunk slot stop) : r.onChunk chunk =
      ((r.commitChunk chunk.fileIndex slot chunk.data stop).1,
        .ok (r.commitChunk chunk.fileIndex slot chunk.data stop).2) := by
  have hlength : chunk.data.length < 2 ^ 64 := Nat.lt_of_le_of_lt h.small (by decide)
  have hstop : chunk.offset.checkedAdd (.ofNat chunk.data.length) = some stop := by
    rw [UInt64.checkedAdd_eq_some, UInt64.toNat_ofNat_of_lt' hlength, h.stop_eq, h.offset_eq]
  unfold onChunk
  rw [if_neg (not_not.2 h.id_eq), h.running, if_neg Bool.false_ne_true,
    if_neg (Nat.not_lt.2 h.small), h.found]
  dsimp only
  rw [h.incomplete, if_neg Bool.false_ne_true, hstop]
  dsimp only
  rw [if_neg (UInt64.not_lt.2 h.fits), if_neg (not_not.2 h.offset_eq)]

/-- A chunk that is written is acked, and the files are finished. -/
theorem Next.onChunk_written {r r' : Receiver S} {chunk : FileChunk} {slot : Slot S}
    {stop : UInt64} {sink : S} {done : Option FileDone} (h : r.Next chunk slot stop)
    (hwrite : FileSink.writeAt slot.sink slot.acked chunk.data = (sink, .ok ()))
    (hfinalize :
      (r.putSlot chunk.fileIndex { slot with sink, acked := stop }).finalizeCompletedFiles =
        (r', done)) :
    r.onChunk chunk =
      (r', .ok (.ack ⟨r.transferId, chunk.fileIndex, stop⟩ :: (done.map .done).toList)) := by
  have hid : r'.transferId = r.transferId := by
    have hsame := transferId_finalize (r.putSlot chunk.fileIndex { slot with sink, acked := stop })
    rwa [hfinalize] at hsame
  rw [putSlot] at hfinalize
  rw [h.onChunk_eq, Receiver.commitChunk, hwrite]
  simp only [hfinalize, hid]

/-! ## The sinks -/

/-- The sinks of the files. -/
def sinks (r : Receiver S) : List S := r.slots.map (·.sink)

theorem sinks_finalize (hfinish : ∀ s : S, (FileSink.finish s).1 = s) (r : Receiver S) :
    r.finalizeCompletedFiles.1.sinks = r.sinks := by
  have hslots : ∀ slots : List (Slot S),
      (finalizeSlots slots).1.map (·.sink) = slots.map (·.sink) := by
    intro slots
    induction slots with
    | nil => rfl
    | cons slot slots ih =>
      have hsink := hfinish slot.sink
      rw [finalizeSlots]
      split
      · exact congrArg (slot.sink :: ·) ih
      · split
        · next sink digest hresult =>
          rw [hresult] at hsink
          split
          · exact congrArg₂ (· :: ·) hsink ih
          · exact congrArg (· :: slots.map (·.sink)) hsink
        · next sink e hresult =>
          rw [hresult] at hsink
          exact congrArg (· :: slots.map (·.sink)) hsink
  have hall := hslots r.slots
  unfold finalizeCompletedFiles sinks
  split
  · next slots hresult =>
    rw [hresult] at hall
    exact hall
  · next slots hresult =>
    rw [hresult] at hall
    split <;> exact hall

/-- A chunk leaves the sinks alone, or it is written to that of its file. -/
theorem sinks_onChunk (hfinish : ∀ s : S, (FileSink.finish s).1 = s) (r : Receiver S)
    (chunk : FileChunk) : (r.onChunk chunk).1.sinks = r.sinks ∨
      ∃ slot, r.slots[chunk.fileIndex.toNat]? = some slot ∧ (r.onChunk chunk).1.sinks =
        r.sinks.set chunk.fileIndex.toNat (FileSink.writeAt slot.sink slot.acked chunk.data).1 := by
  have hcases := onChunk_cases r chunk
  generalize r.onChunk chunk = result at hcases
  cases hcases with
  | refused e => exact .inl rfl
  | ended haborted => exact .inl rfl
  | again hslot => exact .inl rfl
  | failed hnext hwrite =>
    refine .inr ⟨_, hnext.found, ?_⟩
    rw [hwrite]
    exact List.map_set
  | @written slot stop sink r' done hnext hwrite hfinalize =>
    have hsinks := sinks_finalize hfinish
      (r.putSlot chunk.fileIndex { slot with sink, acked := stop })
    rw [hfinalize] at hsinks
    refine .inr ⟨_, hnext.found, hsinks.trans ?_⟩
    rw [hwrite]
    exact List.map_set

/-- Nothing happens in a transfer that is aborted. -/
theorem onChunk_aborted {r : Receiver S} {chunk : FileChunk} (h : r.aborted = true) :
    (r.onChunk chunk).1 = r := by
  have hnext : ∀ {slot : Slot S} {stop : UInt64}, ¬ r.Next chunk slot stop := by
    intro slot stop hnext
    rw [hnext.running] at h
    cases h
  have hcases := onChunk_cases r chunk
  generalize r.onChunk chunk = result at hcases
  cases hcases with
  | refused e => rfl
  | ended haborted => rfl
  | again hslot => rfl
  | failed hn hwrite => exact absurd hn hnext
  | written hn hwrite hfinalize => exact absurd hn hnext

/-- A chunk that is refused changes nothing. -/
theorem onChunk_error {r : Receiver S} {chunk : FileChunk} {error : FileError}
    (h : (r.onChunk chunk).2 = .error error) : (r.onChunk chunk).1 = r := by
  have hcases := onChunk_cases r chunk
  generalize r.onChunk chunk = result at hcases h
  cases hcases with
  | refused e => rfl
  | ended haborted => rfl
  | again hslot => rfl
  | failed hnext hwrite => cases h
  | written hnext hwrite hfinalize => cases h

end Receiver

end

/-! ## Finishing the files -/

section

variable {S : Type} [Sha256] [FileSink S] [SinkContent S]

/-- The file holds what was expected of it. -/
def Slot.Intact (slot : Slot S) : Prop :=
  slot.acked = slot.size ∧ ∀ digest, slot.expected = some digest →
    sha256 (content slot.sink) = digest

/-- What `finalize_completed_files` does to one file. -/
structure Finishes (slot slot' : Slot S) : Prop where
  size_eq : slot'.size = slot.size
  acked_eq : slot'.acked = slot.acked
  expected_eq : slot'.expected = slot.expected
  content_eq : content slot'.sink = content slot.sink
  complete_of : slot.complete = true → slot'.complete = true
  newly : slot'.complete = true → slot.complete = false →
    slot.size ≤ slot.acked ∧ ∀ digest, slot.expected = some digest →
      sha256 (content slot.sink) = digest

omit [FileSink S] in
theorem Finishes.refl (slot : Slot S) : Finishes slot slot :=
  ⟨rfl, rfl, rfl, rfl, id, fun h hnot => absurd h (by simp [hnot])⟩

omit [FileSink S] in
/-- A file that is finished without its digest being accepted keeps its flag. -/
theorem Finishes.finished {slot : Slot S} {sink : S} (h : content sink = content slot.sink) :
    Finishes slot { slot with sink } :=
  ⟨rfl, rfl, rfl, h, id, fun hc hnot => absurd hc (by simp [hnot])⟩

variable [LawfulFileSink S]

theorem finalizeSlots_finishes (slots : List (Slot S)) :
    List.Forall₂ Finishes slots (finalizeSlots slots).1 := by
  have hrefl : ∀ rest : List (Slot S), List.Forall₂ Finishes rest rest :=
    fun rest => List.forall₂_same.2 fun slot _ => Finishes.refl slot
  induction slots with
  | nil => exact .nil
  | cons slot slots ih =>
    have hcontent : content (FileSink.finish slot.sink).1 = content slot.sink :=
      LawfulFileSink.content_finish slot.sink
    rw [finalizeSlots]
    split
    · exact .cons (.refl slot) ih
    · next hopen =>
      simp only [not_or, Bool.not_eq_true, UInt64.not_lt] at hopen
      split
      · next sink digest hfinish =>
        rw [hfinish] at hcontent
        split
        · next hmatch =>
          refine .cons ⟨rfl, rfl, rfl, hcontent, fun _ => rfl, ?_⟩ ih
          intro _ _
          refine ⟨hopen.2, ?_⟩
          intro expected hexpected
          rw [hexpected, Option.all_some, decide_eq_true_iff] at hmatch
          rw [hmatch, LawfulFileSink.finish_digest _ _ _ hfinish]
        · exact .cons (.finished hcontent) (hrefl slots)
      · next sink e hfinish =>
        rw [hfinish] at hcontent
        exact .cons (.finished hcontent) (hrefl slots)

omit [Sha256] [SinkContent S] [LawfulFileSink S] in
/-- When no file fails, all that have reached their size are complete. -/
theorem finalizeSlots_complete {slots : List (Slot S)} (h : (finalizeSlots slots).2 = true) :
    ∀ slot ∈ (finalizeSlots slots).1, slot.size ≤ slot.acked → slot.complete = true := by
  induction slots with
  | nil => simp [finalizeSlots]
  | cons slot slots ih =>
    rw [finalizeSlots] at h ⊢
    split at h
    · next hopen =>
      rw [if_pos hopen]
      rintro s hs hfull
      rcases List.mem_cons.1 hs with rfl | hs
      · exact hopen.resolve_right (UInt64.not_lt.2 hfull)
      · exact ih h s hs hfull
    · next hopen =>
      rw [if_neg hopen]
      split at h
      · next sink digest hfinish =>
        split at h
        · next hmatch =>
          rw [if_pos hmatch]
          rintro s hs hfull
          rcases List.mem_cons.1 hs with rfl | hs
          · rfl
          · exact ih h s hs hfull
        · cases h
      · cases h

omit [Sha256] [SinkContent S] [LawfulFileSink S] in
/-- No file fails if none that is finished is other than expected. -/
theorem finalizeSlots_ok {slots : List (Slot S)} (h : ∀ slot ∈ slots, slot.complete = false →
    slot.size ≤ slot.acked → ∃ digest, (FileSink.finish slot.sink).2 = .ok digest ∧
      ∀ expected, slot.expected = some expected → expected = digest) :
    (finalizeSlots slots).2 = true := by
  induction slots with
  | nil => rfl
  | cons slot slots ih =>
    have hrest := ih fun s hs => h s (.tail _ hs)
    rw [finalizeSlots]
    split
    · exact hrest
    · next hopen =>
      rw [not_or, UInt64.not_lt, Bool.not_eq_true] at hopen
      obtain ⟨digest, hfinish, hexpected⟩ := h slot (.head _) hopen.1 hopen.2
      cases hresult : FileSink.finish slot.sink with
      | mk sink result =>
        rw [hresult] at hfinish
        cases hfinish
        dsimp only
        rw [if_pos]
        · exact hrest
        · cases he : slot.expected with
          | none => rfl
          | some expected => simp [hexpected expected he]

/-! ## The invariant -/

namespace Receiver

/-- What `finalize_completed_files` makes of the receiver `r`. -/
structure Finalized (r r' : Receiver S) (done : Option FileDone) : Prop where
  id_eq : r'.transferId = r.transferId
  slots : List.Forall₂ Finishes r.slots r'.slots
  /-- It aborts, or it finishes every file that has its size. -/
  outcome : (done = some ⟨r.transferId, false⟩ ∧ r'.aborted = true ∧ r'.doneEmitted = true) ∨
    (r'.aborted = r.aborted ∧
      (∀ slot ∈ r'.slots, slot.size ≤ slot.acked → slot.complete = true) ∧
      ((done = some ⟨r.transferId, true⟩ ∧ r.doneEmitted = false ∧ r'.doneEmitted = true ∧
          ∀ slot ∈ r'.slots, slot.complete = true) ∨
        (done = none ∧ r'.doneEmitted = r.doneEmitted)))

theorem finalized {r r' : Receiver S} {done : Option FileDone}
    (h : r.finalizeCompletedFiles = (r', done)) : r.Finalized r' done := by
  have hslots := finalizeSlots_finishes r.slots
  have hcomplete := @finalizeSlots_complete S _ r.slots
  unfold finalizeCompletedFiles at h
  cases hresult : finalizeSlots r.slots with
  | mk slots ok =>
    rw [hresult] at hslots hcomplete h
    cases ok with
    | false =>
      cases h
      exact ⟨rfl, hslots, .inl ⟨rfl, rfl, rfl⟩⟩
    | true =>
      dsimp only at h
      split at h
      · next hall =>
        rw [Bool.and_eq_true, Bool.not_eq_true', List.all_eq_true] at hall
        cases h
        exact ⟨rfl, hslots, .inr ⟨rfl, hcomplete rfl, .inl ⟨rfl, hall.1, rfl, hall.2⟩⟩⟩
      · cases h
        exact ⟨rfl, hslots, .inr ⟨rfl, hcomplete rfl, .inr ⟨rfl, rfl⟩⟩⟩

omit [Sha256] [SinkContent S] [LawfulFileSink S] in
theorem aborted_finalize {r : Receiver S} (h : (finalizeSlots r.slots).2 = true) :
    r.finalizeCompletedFiles.1.aborted = r.aborted := by
  unfold finalizeCompletedFiles
  split
  · next hfailed =>
    rw [hfailed] at h
    cases h
  · split <;> rfl

/-- One file: it holds the bytes that are acked, and all that was expected once it is complete. -/
structure Good (slot : Slot S) : Prop where
  held : (content slot.sink).length = slot.acked.toNat
  le_size : slot.acked ≤ slot.size
  intact : slot.complete = true → slot.Intact

/-- The invariant of a receiver that has accepted its offer. -/
structure Inv (r : Receiver S) : Prop where
  good : ∀ slot ∈ r.slots, Good slot
  settled : r.aborted = false → ∀ slot ∈ r.slots, slot.size ≤ slot.acked → slot.complete = true
  done_of_aborted : r.aborted = true → r.doneEmitted = true
  complete_of_done : r.doneEmitted = true → r.aborted = false →
    ∀ slot ∈ r.slots, slot.complete = true

theorem Good.existingLen {slot : Slot S} (h : Good slot) :
    FileSink.existingLen slot.sink = slot.acked := by
  rw [← UInt64.toNat_inj, LawfulFileSink.existingLen_eq, h.held]

omit [FileSink S] [LawfulFileSink S] in
theorem Good.finishes {slot slot' : Slot S} (h : Good slot) (hf : Finishes slot slot') :
    Good slot' where
  held := by rw [hf.content_eq, hf.acked_eq, h.held]
  le_size := by
    rw [hf.acked_eq, hf.size_eq]
    exact h.le_size
  intact := by
    intro hcomplete
    rw [Slot.Intact, hf.acked_eq, hf.size_eq, hf.expected_eq, hf.content_eq]
    cases hbefore : slot.complete with
    | true => exact h.intact hbefore
    | false =>
      obtain ⟨hfull, hdigest⟩ := hf.newly hcomplete hbefore
      exact ⟨UInt64.le_antisymm h.le_size hfull, hdigest⟩

omit [FileSink S] [LawfulFileSink S] in
theorem Finalized.good {r r' : Receiver S} {done : Option FileDone} (h : r.Finalized r' done)
    (hgood : ∀ slot ∈ r.slots, Good slot) : ∀ slot ∈ r'.slots, Good slot := by
  intro slot' hslot'
  obtain ⟨i, hi⟩ := List.mem_iff_getElem?.1 hslot'
  obtain ⟨slot, hslot, hf⟩ := h.slots.of_getElem?_right hi
  exact (hgood slot (List.mem_of_getElem? hslot)).finishes hf

/-- A failed write leaves the file as it was. -/
theorem Good.failed {slot : Slot S} {sink : S} {offset : UInt64} {data : List UInt8} {e : SinkError}
    (h : Good slot) (hwrite : FileSink.writeAt slot.sink offset data = (sink, .error e)) :
    Good { slot with sink } := by
  have hcontent : content sink = content slot.sink :=
    LawfulFileSink.content_failed _ _ _ _ _ hwrite
  refine ⟨by rw [hcontent]; exact h.held, h.le_size, ?_⟩
  intro hcomplete
  obtain ⟨hfull, hdigest⟩ := h.intact hcomplete
  exact ⟨hfull, by rw [hcontent]; exact hdigest⟩

/-- What a successful write appends to the file. -/
theorem Good.content_written {slot : Slot S} {sink : S} {data : List UInt8} (h : Good slot)
    (hwrite : FileSink.writeAt slot.sink slot.acked data = (sink, .ok ())) :
    content sink = content slot.sink ++ data := by
  rw [← h.existingLen] at hwrite
  exact LawfulFileSink.content_written _ _ _ hwrite

theorem Good.written {r : Receiver S} {chunk : FileChunk} {slot : Slot S} {stop : UInt64} {sink : S}
    (h : Good slot) (hnext : r.Next chunk slot stop)
    (hwrite : FileSink.writeAt slot.sink slot.acked chunk.data = (sink, .ok ())) :
    Good { slot with sink, acked := stop } where
  held := by rw [h.content_written hwrite, List.length_append, h.held, hnext.stop_eq]
  le_size := hnext.fits
  intact := by
    intro hcomplete
    rw [hnext.incomplete] at hcomplete
    cases hcomplete

omit [FileSink S] [LawfulFileSink S] in
/-- The invariant holds once the files of a running transfer are finished. -/
theorem Finalized.inv {r r' : Receiver S} {done : Option FileDone} (h : r.Finalized r' done)
    (hgood : ∀ slot ∈ r.slots, Good slot) (hrunning : r.aborted = false)
    (hopen : r.doneEmitted = false) : r'.Inv := by
  have hgood' := h.good hgood
  rcases h.outcome with ⟨-, haborted, hdone⟩ | ⟨haborted, hsettled, hdone⟩
  · refine ⟨hgood', ?_, fun _ => hdone, ?_⟩
    · intro hnot
      rw [haborted] at hnot
      cases hnot
    · intro _ hnot
      rw [haborted] at hnot
      cases hnot
  · refine ⟨hgood', fun _ => hsettled, ?_, ?_⟩
    · intro hnot
      rw [haborted, hrunning] at hnot
      cases hnot
    · intro hemitted _
      rcases hdone with ⟨-, -, -, hall⟩ | ⟨-, hsame⟩
      · exact hall
      · rw [hsame, hopen] at hemitted
        cases hemitted

omit [FileSink S] [LawfulFileSink S] in
/-- A file that is not complete keeps the transfer from being done. -/
theorem Inv.open_of_next {r : Receiver S} {chunk : FileChunk} {slot : Slot S} {stop : UInt64}
    (h : r.Inv) (hnext : r.Next chunk slot stop) : r.doneEmitted = false := by
  by_contra hdone
  have hcomplete := h.complete_of_done (by simpa using hdone) hnext.running slot
    (List.mem_of_getElem? hnext.found)
  rw [hnext.incomplete] at hcomplete
  cases hcomplete

omit [FileSink S] [LawfulFileSink S] in
theorem good_putSlot {r : Receiver S} {i : UInt32} {slot : Slot S}
    (h : ∀ slot ∈ r.slots, Good slot) (hslot : Good slot) :
    ∀ s ∈ (r.putSlot i slot).slots, Good s := by
  intro s hs
  rcases List.mem_or_eq_of_mem_set hs with hs | rfl
  · exact h s hs
  · exact hslot

/-- **The step lemma of the receiver.** -/
theorem Inv.onChunk {r : Receiver S} (h : r.Inv) (chunk : FileChunk) : (r.onChunk chunk).1.Inv := by
  have hcases := onChunk_cases r chunk
  generalize r.onChunk chunk = result at hcases
  cases hcases with
  | refused e => exact h
  | ended haborted => exact h
  | again hslot => exact h
  | failed hnext hwrite =>
    have hgood := (h.good _ (List.mem_of_getElem? hnext.found)).failed hwrite
    exact ⟨good_putSlot h.good hgood, nofun, fun _ => rfl, nofun⟩
  | written hnext hwrite hfinalize =>
    have hgood := (h.good _ (List.mem_of_getElem? hnext.found)).written hnext hwrite
    exact (finalized hfinalize).inv (good_putSlot h.good hgood) hnext.running
      (h.open_of_next hnext)

end Receiver

end

end Mouser
