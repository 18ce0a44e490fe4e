import Mouser.Files.Begun
import Mouser.Files.Transfer
import Mouser.Lib.Fair

/-!
# A transfer of one file to the disk

`Transfer.machineOn` is a sender and a receiver whose sinks are on the disk. What an earlier
transfer has left under the name of a file is taken for its beginning: `OneFile.rejects` and
`OneFile.accepts` are the two ways in which the offer of one file is answered, and `Writes` is what
a receiver that has accepted it keeps of its sink.
-/

namespace Mouser

section

variable {Src : Type} [Sha256] [FileSource Src]

namespace Transfer

/-- `Transfer.receive` of a receiver whose sinks are on the disk. -/
def receiveOn (config : ReceiverConfig) (t : Transfer Src FsSink Disk) :
    Inbound → Transfer Src FsSink Disk × List Outbound
  | .offer m => t.receive FsSink.openReceiveSink config (.offer m)
  | .chunk m =>
    match t.receiver with
    | none => (t, [])
    | some r =>
      let (disk, r, result) := r.onChunkOn t.disk m
      ({ t with receiver := some r, disk, toSender := t.toSender ++ sentBack result },
        sentBack result)

def stepOn (config : ReceiverConfig) (t : Transfer Src FsSink Disk) :
    TransferEvent → Transfer Src FsSink Disk × List Outbound
  | .poll => (t.poll, [])
  | .receive =>
    match t.toReceiver with
    | [] => (t, [])
    | m :: rest => { t with toReceiver := rest }.receiveOn config m
  | .answer =>
    match t.toSender with
    | [] => (t, [])
    | m :: rest => ({ t with toSender := rest }.answer m, [])

/-- A transfer to the disk, as a machine. -/
def machineOn (config : ReceiverConfig) :
    Machine (Transfer Src FsSink Disk) TransferEvent (List Outbound) := ⟨stepOn config⟩

/-- The messages that are still to be handled and the bytes that are still to be sent, weighed so
that every step that does something makes it less. -/
def toDo (t : Transfer Src FsSink Disk) : ℕ :=
  4 * (t.sender.tracks.map fun track => track.size.toNat - track.sent.toNat).sum +
    3 * t.toReceiver.length + t.toSender.length

omit [Sha256] [FileSource Src] in
/-- How many bytes are still to be sent of the file. -/
theorem toDo_eq {t : Transfer Src FsSink Disk} {track : Track Src}
    (htracks : t.sender.tracks = [track]) : t.toDo =
      4 * (track.size.toNat - track.sent.toNat) + 3 * t.toReceiver.length + t.toSender.length := by
  simp [Transfer.toDo, htracks]

end Transfer

omit [Sha256] in
/-- Nothing is polled when all is sent. -/
theorem Sender.pollChunk_sent {s : Sender Src} (hall : ∀ t ∈ s.tracks, t.size ≤ t.sent) :
    s.pollChunk = (s, .ok none) := by
  have hpoll : ∀ (i : ℕ) (tracks : List (Track Src)), (∀ t ∈ tracks, t.size ≤ t.sent) →
      pollTracks s.transferId s.chunkSize i tracks = (tracks, .ok none) := by
    intro i tracks
    induction tracks generalizing i with
    | nil =>
      intro _
      rfl
    | cons t tracks ih =>
      intro htracks
      rw [pollTracks]
      dsimp only
      rw [if_pos (.inl (htracks t (.head _))), ih (i + 1) fun u hu => htracks u (.tail _ hu)]
  unfold Sender.pollChunk
  split
  · rfl
  · rw [hpoll 0 s.tracks hall]

omit [Sha256] [FileSource Src] in
theorem Sender.onDone_running {s : Sender Src} (h : s.aborted = false) (ok : Bool) :
    (s.onDone ⟨s.transferId, ok⟩).1 = { s with aborted := !ok } := by
  obtain ⟨id, tracks, chunkSize, accepted, aborted⟩ := s
  cases h
  cases ok <;> simp [Sender.onDone]

/-! ## The receiver of one file -/

namespace Receiver

/-- The receiver of one file, with what its sink holds. -/
def ofFile (id : UInt64) (quarantine : OsStr) (size : UInt64) (digest : Hash) (sink : FsSink)
    (acked : UInt64) : Receiver FsSink :=
  ⟨id, quarantine, [⟨size, acked, false, sink, some digest⟩], false, false⟩

/-- The receiver of one file that has its size. -/
def finished (id : UInt64) (quarantine : OsStr) (size : UInt64) (digest : Hash) (sink : FsSink) :
    Receiver FsSink :=
  if sha256 sink.hashed = digest then
    ⟨id, quarantine, [⟨size, size, true, sink, some digest⟩], true, false⟩
  else ⟨id, quarantine, [⟨size, size, false, sink, some digest⟩], true, true⟩

variable {id size acked : UInt64} {quarantine : OsStr} {digest : Hash} {sink : FsSink}

theorem finalize_ofFile_growing (h : acked < size) :
    (ofFile id quarantine size digest sink acked).finalizeCompletedFiles =
      (ofFile id quarantine size digest sink acked, none) := by
  simp [ofFile, finalizeCompletedFiles, finalizeSlots, h]

theorem finalize_ofFile_full :
    (ofFile id quarantine size digest sink size).finalizeCompletedFiles =
      (finished id quarantine size digest sink,
        some ⟨id, decide (sha256 sink.hashed = digest)⟩) := by
  have hfinish : FileSink.finish sink = (sink, .ok (sha256 sink.hashed)) := rfl
  by_cases hdigest : sha256 sink.hashed = digest
  · simp [ofFile, finished, finalizeCompletedFiles, finalizeSlots, hfinish, hdigest]
  · have hother : ¬ digest = sha256 sink.hashed := fun h => hdigest h.symm
    simp [ofFile, finished, finalizeCompletedFiles, finalizeSlots, hfinish, hdigest, hother]

end Receiver

/-- The sink of the file at `path` holds the first `acked` bytes of `stored`, and so does the
disk. -/
structure Writes (disk : Disk) (path : OsStr) (stored : List UInt8) (sink : FsSink)
    (acked : UInt64) : Prop where
  path_eq : sink.path = path
  hashed_eq : sink.hashed = stored.take acked.toNat
  file_eq : sink.file.1 = sink.hashed
  onDisk : sink.OnDisk disk
  within : acked.toNat ≤ stored.length

namespace Writes

variable {id size acked : UInt64} {quarantine path : OsStr} {digest : Hash} {sink : FsSink}
  {disk : Disk} {stored : List UInt8}

omit [Sha256] in
theorem mirrored (h : Writes disk path stored sink acked) : Mirrored [sink] disk := by
  refine ⟨?_, ?_, List.nodup_singleton _⟩
  · intro s hs
    cases List.mem_singleton.1 hs
    exact h.onDisk
  · intro s hs
    cases List.mem_singleton.1 hs
    exact h.file_eq

omit [Sha256] in
theorem length_hashed (h : Writes disk path stored sink acked) :
    sink.hashed.length = acked.toNat := by
  rw [h.hashed_eq, List.length_take, Nat.min_eq_left h.within]

omit [Sha256] in
/-- When all of it is there, it is on the disk. -/
theorem stored_eq (h : Writes disk path stored sink acked) (hfull : stored.length ≤ acked.toNat) :
    sink.hashed = stored ∧ ∃ file, disk path = some file ∧ file.1 = stored := by
  have hhashed := h.hashed_eq.trans (List.take_of_length_le hfull)
  refine ⟨hhashed, sink.file, ?_, h.file_eq.trans hhashed⟩
  rw [← h.path_eq]
  exact h.onDisk

/-- **The step of the receiver.** The chunk that is next is written, and acked. -/
theorem onChunkOn (h : Writes disk path stored sink acked) (hsize : size.toNat = stored.length)
    {c : FileChunk} {stop : UInt64} (hid : c.transferId = id) (hindex : c.fileIndex.toNat = 0)
    (hoffset : c.offset = acked) (hsmall : c.data.length ≤ maxChunkSize) (hne : c.data ≠ [])
    (hslice : c.data <+: stored.drop acked.toNat)
    (hstop : stop.toNat = acked.toNat + c.data.length) :
    ∃ disk' sink', Receiver.onChunkOn disk
        (.ofFile id quarantine size digest sink acked) c =
          (disk', (Receiver.ofFile id quarantine size digest sink' stop).finalizeCompletedFiles.1,
            .ok (.ack ⟨id, c.fileIndex, stop⟩ ::
              ((Receiver.ofFile id quarantine size digest sink' stop).finalizeCompletedFiles.2.map
                .done).toList)) ∧
      Writes disk' path stored sink' stop := by
  have hlength := hslice.length_le
  rw [List.length_drop] at hlength
  have hwithin := h.within
  have hpos := List.length_pos_iff.2 hne
  have hexisting : FileSink.existingLen sink = acked := by
    rw [← UInt64.toNat_inj]
    exact sink.len_eq.trans h.length_hashed
  have hlt := stop.toNat_lt
  cases hwrite : FileSink.writeAt sink acked c.data with
  | mk sink' result =>
    have hok := FaultlessSink.write_ok sink c.data (by
      show sink.hashed.length + c.data.length < 2 ^ 64
      rw [h.length_hashed]
      omega)
    rw [hexisting, hwrite] at hok
    cases hok
    have hcontent : sink'.hashed = sink.hashed ++ c.data :=
      LawfulFileSink.content_written sink sink' c.data (by rw [hexisting, hwrite])
    have hpath := FsSink.path_writeAt sink acked c.data
    have hfile := FsSink.file_writeAt h.file_eq acked c.data
    rw [hwrite] at hpath hfile
    have hnext : (Receiver.ofFile id quarantine size digest sink acked).Next c
        ⟨size, acked, false, sink, some digest⟩ stop := by
      refine ⟨hid, rfl, hsmall, ?_, rfl, hoffset, hstop, ?_⟩
      · rw [hindex]
        rfl
      · rw [UInt64.le_iff_toNat_le]
        show stop.toNat ≤ size.toNat
        omega
    have hput : (Receiver.ofFile id quarantine size digest sink acked).putSlot c.fileIndex
        ⟨size, stop, false, sink', some digest⟩ =
          .ofFile id quarantine size digest sink' stop := by
      rw [Receiver.putSlot, hindex]
      rfl
    have hchunk := hnext.onChunk_written hwrite (by rw [hput])
    obtain ⟨disk', hon, hmirrored, -, -⟩ := Receiver.onChunkOn_mirrored
      (r := .ofFile id quarantine size digest sink acked) h.mirrored c
    rw [hchunk] at hon hmirrored
    refine ⟨disk', sink', hon, hpath.trans h.path_eq, ?_, hfile, ?_, by omega⟩
    · rw [hcontent, h.hashed_eq, hstop, List.take_add, List.append_cancel_left_eq,
        List.prefix_iff_eq_take.1 hslice, List.length_take, List.length_drop]
      congr 1
      omega
    · refine hmirrored.onDisk sink' ?_
      rw [Receiver.sinks_finalize fun s : FsSink => rfl]
      exact .head _

end Writes

end

/-! ## The sender of one file -/

section

variable {Src : Type} [Sha256] [FileSource Src] [SourceContent Src] [LawfulFileSource Src]

/-- What is known of the sender of one file before it starts, and of how its offer is received. -/
structure OneFile (config : ReceiverConfig) (path : OsStr) (source : List UInt8)
    (s : Sender Src) : Prop where
  sound : s.Sound
  waiting : s.accepted = false
  track : ∃ t, s.tracks = [t] ∧ t.sent = 0 ∧ t.acked = 0 ∧ bytes t.src = source
  limits : checkLimits s.offer config = none
  valid : validateEntries config 0 s.offer.files = .ok (.ok [(path, some (sha256 source))])

/-- The digest of what the file becomes is that of its source. -/
def continues (existing source : List UInt8) : Bool :=
  sha256 (resumed existing source) = sha256 source

omit [Sha256] in
theorem length_resumed {existing source : List UInt8} (h : existing.length ≤ source.length) :
    (resumed existing source).length = source.length := by
  rw [resumed, List.length_append, List.length_drop]
  omega

omit [Sha256] in
theorem drop_resumed {existing source : List UInt8} {n : ℕ} (h : existing.length ≤ n) :
    (resumed existing source).drop n = source.drop n := by
  obtain ⟨k, rfl⟩ := Nat.exists_eq_add_of_le h
  rw [resumed, List.drop_length_add_append, List.drop_drop]

/-- The receiver of the file, once it has looked whether it is complete. -/
def receives (config : ReceiverConfig) (source : List UInt8) (s : Sender Src) (sink : FsSink)
    (acked : UInt64) : Receiver FsSink × Option FileDone :=
  (Receiver.ofFile s.transferId config.quarantine (.ofNat source.length) (sha256 source) sink
    acked).finalizeCompletedFiles

variable {config : ReceiverConfig} {path : OsStr} {source existing : List UInt8} {s : Sender Src}
  {disk : Disk} {sink : FsSink} {acked : UInt64}

namespace OneFile

omit [LawfulFileSource Src] in
theorem sources_eq (h : OneFile config path source s) : s.sources = [source] := by
  obtain ⟨t, htracks, -, -, rfl⟩ := h.track
  rw [Sender.sources, htracks]
  rfl

theorem toNat_length (h : OneFile config path source s) :
    (UInt64.ofNat source.length).toNat = source.length := by
  obtain ⟨t, -, -, -, rfl⟩ := h.track
  refine UInt64.toNat_ofNat_of_lt' ?_
  rw [← LawfulFileSource.len_eq]
  exact (FileSource.len t.src).toNat_lt

theorem offer_eq (h : OneFile config path source s) :
    ∃ entry, s.offer.files = [entry] ∧ entry.size = .ofNat source.length := by
  have hlength := h.toNat_length
  obtain ⟨t, htracks, -, -, rfl⟩ := h.track
  refine ⟨⟨t.name, t.size, t.sha256.map (·.bytes)⟩, ?_, ?_⟩
  · rw [Sender.offer, htracks]
    rfl
  · have ht : t ∈ s.tracks := htracks ▸ .head _
    rw [← UInt64.toNat_inj, hlength, h.sound.size_eq t ht, LawfulFileSource.len_eq]

/-- **The offer of a file that is shorter than what is there is rejected**, and nothing is
changed. -/
theorem rejects (h : OneFile config path source s)
    (hlong : source.length < (disk.bytes path).length) : ∃ reason,
      acceptOffer FsSink.openReceiveSink s.offer config disk =
        .ok (disk, .ok (.rejected s.transferId config.quarantine,
          [.reject ⟨s.transferId, reason⟩])) := by
  obtain ⟨entry, hfiles, hsize⟩ := h.offer_eq
  obtain ⟨sink, hopen, -, hhashed, hfile⟩ := FsSink.openReceiveSink_ok disk 0 path
  have hdisk : Function.update disk path (some sink.file) = disk := by
    cases hpath : disk path with
    | none =>
      rw [Disk.bytes, Disk.fileAt, hpath] at hlong
      exact absurd hlong (Nat.not_lt_zero _)
    | some file =>
      have hheld : sink.file = file := by
        refine Subtype.ext ?_
        rw [hfile, hhashed, Disk.bytes, Disk.fileAt, hpath]
        rfl
      rw [hheld, ← hpath, Function.update_eq_self]
  have hexisting : entry.size < FileSink.existingLen sink := by
    rw [UInt64.lt_iff_toNat_lt, hsize, h.toNat_length]
    show source.length < sink.len.toNat
    rwa [sink.len_eq, hhashed]
  unfold acceptOffer
  rw [if_neg (by rw [hfiles]; exact List.cons_ne_nil _ _), h.limits]
  dsimp only
  rw [h.valid, hfiles]
  dsimp only
  rw [openSinks, hopen]
  dsimp only
  rw [if_pos hexisting, hdisk]
  exact ⟨_, rfl⟩

/-- **The offer of any other file is accepted**, from the end of what is there. -/
theorem accepts (h : OneFile config path source s)
    (hshort : (disk.bytes path).length ≤ source.length) : ∃ disk' sink acked,
      acceptOffer FsSink.openReceiveSink s.offer config disk =
        .ok (disk', .ok ((receives config source s sink acked).1,
          .accept ⟨s.transferId, resumePoints 0 [acked]⟩ ::
            ((receives config source s sink acked).2.map .done).toList)) ∧
      Writes disk' path (resumed (disk.bytes path) source) sink acked ∧
      acked.toNat = (disk.bytes path).length := by
  obtain ⟨entry, hfiles, hsize⟩ := h.offer_eq
  obtain ⟨sink, hopen, hpath, hhashed, hfile⟩ := FsSink.openReceiveSink_ok disk 0 path
  have hlen : sink.len.toNat = (disk.bytes path).length := by rw [sink.len_eq, hhashed]
  have hexisting : ¬ entry.size < FileSink.existingLen sink := by
    rw [UInt64.lt_iff_toNat_lt, hsize, h.toNat_length, Nat.not_lt]
    exact hlen.trans_le hshort
  refine ⟨Function.update disk path (some sink.file), sink, sink.len, ?_,
    ⟨hpath, ?_, hfile, ?_, ?_⟩, hlen⟩
  · unfold acceptOffer
    rw [if_neg (by rw [hfiles]; exact List.cons_ne_nil _ _), h.limits]
    dsimp only
    rw [h.valid, hfiles]
    dsimp only
    rw [openSinks, hopen]
    dsimp only
    rw [if_neg hexisting, if_neg (by omega), hsize]
    rfl
  · rw [hhashed, hlen, resumed, List.take_left]
  · rw [FsSink.OnDisk, hpath, Function.update_self]
  · rw [hlen, length_resumed hshort]
    exact hshort

/-- The receiver waits for more, or has all of the file and reports whether it is its source. -/
theorem receives_cases (h : OneFile config path source s)
    (hshort : existing.length ≤ source.length)
    (hw : Writes disk path (resumed existing source) sink acked) :
    (acked.toNat < source.length ∧ receives config source s sink acked =
      (.ofFile s.transferId config.quarantine (.ofNat source.length) (sha256 source) sink acked,
        none)) ∨
    (acked = .ofNat source.length ∧ receives config source s sink acked =
      (.finished s.transferId config.quarantine (.ofNat source.length) (sha256 source) sink,
        some ⟨s.transferId, continues existing source⟩)) := by
  have hwithin := hw.within
  rw [length_resumed hshort] at hwithin
  rcases Nat.lt_or_eq_of_le hwithin with hlt | hfull
  · refine .inl ⟨hlt, Receiver.finalize_ofFile_growing ?_⟩
    rwa [UInt64.lt_iff_toNat_lt, h.toNat_length]
  · have hacked : acked = .ofNat source.length := by
      rw [← UInt64.toNat_inj, h.toNat_length, hfull]
    refine .inr ⟨hacked, ?_⟩
    obtain ⟨hhashed, -⟩ := hw.stored_eq (by rw [length_resumed hshort, hfull])
    rw [receives, hacked, Receiver.finalize_ofFile_full, hhashed]
    rfl

/-- The report is sent with the state that it is about. -/
theorem receives_done (h : OneFile config path source s) (hshort : existing.length ≤ source.length)
    (hw : Writes disk path (resumed existing source) sink acked) :
    ((receives config source s sink acked).1.doneEmitted = true ↔
      .done ⟨s.transferId, continues existing source⟩ ∈
        ((receives config source s sink acked).2.map Outbound.done).toList) ∧
    (∀ m ∈ ((receives config source s sink acked).2.map Outbound.done).toList,
      m = .done ⟨s.transferId, continues existing source⟩) ∧
    ((receives config source s sink acked).2.map Outbound.done).toList.length ≤ 1 := by
  rcases h.receives_cases hshort hw with ⟨-, hgrowing⟩ | ⟨-, hfinished⟩
  · rw [hgrowing]
    simp [Receiver.ofFile]
  · rw [hfinished, Receiver.finished]
    split <;> simp

/-- What the sender has of the file all along. -/
theorem same_track (h : OneFile config path source s) {s' : Sender Src} (hsame : s.Same s') :
    ∃ t, s'.tracks = [t] ∧ t.size.toNat = source.length := by
  obtain ⟨t, htracks, -, -, hbytes⟩ := h.track
  have hfiles := hsame.files_eq
  rw [htracks, List.map_singleton] at hfiles
  cases hs' : s'.tracks with
  | nil =>
    rw [hs'] at hfiles
    cases hfiles
  | cons t' rest =>
    rw [hs', List.map_cons] at hfiles
    obtain ⟨hfile, hrest⟩ := List.cons.inj hfiles
    rw [List.map_eq_nil_iff] at hrest
    subst hrest
    simp only [Track.file, Prod.mk.injEq] at hfile
    refine ⟨t', rfl, ?_⟩
    rw [(hsame.sound h.sound).size_eq t' (hs' ▸ .head _), LawfulFileSource.len_eq, hfile.2.1,
      hbytes]

end OneFile

end

end Mouser
