import Mouser.Files.Commit
import Mathlib.Logic.Function.Basic

/-!
# Sinks on a disk

The production sink writes to a file of the quarantine directory through a handle of its own, and
rolls its digest over what it writes itself; the file is never read again. A sink's `file` is what
its handle sees: `Receiver.attach` brings it up to date with the disk before a chunk, and
`Receiver.store` puts the file that was written back.
-/

namespace Mouser

/-- What a file holds; its length fits a `u64`. -/
def FileBytes : Type := { bytes : List UInt8 // bytes.length < 2 ^ 64 }
deriving DecidableEq

/-- The regular files of the disk, by path. -/
abbrev Disk : Type := OsStr → Option FileBytes

/-- The file that is opened under a path: the one that is there, or a new one. -/
def Disk.fileAt (disk : Disk) (path : OsStr) : FileBytes := (disk path).getD ⟨[], length_nil_lt⟩

/-- What the disk holds under a path. -/
def Disk.bytes (disk : Disk) (path : OsStr) : List UInt8 := (disk.fileAt path).1

/-- `write_all_at` on a file of the length `file`: bytes are overwritten, and a gap is filled with
zeros. -/
def writeAllAt (file : List UInt8) (offset : ℕ) (data : List UInt8) : List UInt8 :=
  if data = [] then file
  else file.take offset ++ List.replicate (offset - file.length) 0 ++ data ++
    file.drop (offset + data.length)

theorem length_writeAllAt_le (file : List UInt8) (offset : ℕ) (data : List UInt8) :
    (writeAllAt file offset data).length ≤ max file.length (offset + data.length) := by
  unfold writeAllAt
  split
  · exact Nat.le_max_left _ _
  · simp only [List.length_append, List.length_take, List.length_replicate, List.length_drop]
    omega

/-- A write at the end appends. -/
theorem writeAllAt_end (file data : List UInt8) :
    writeAllAt file file.length data = file ++ data := by
  unfold writeAllAt
  split
  · next h => rw [h, List.append_nil]
  · simp

structure FsSink where
  path : OsStr
  /-- What the file holds, as the handle sees it. -/
  file : FileBytes
  len : UInt64
  /-- What the digest has been rolled over. -/
  hashed : List UInt8
  len_eq : len.toNat = hashed.length

namespace FsSink

def existingLen (s : FsSink) : UInt64 := s.len

def writeAt (s : FsSink) (offset : UInt64) (data : List UInt8) : FsSink × Except SinkError Unit :=
  if offset ≠ s.len then
    (s, .error ⟨s!"non-contiguous write at {offset}, have {s.len} (gap or rewrite)"⟩)
  else if h : s.len.toNat + data.length < 2 ^ 64 then
    ({ s with
      file := ⟨writeAllAt s.file.1 s.len.toNat data, by
        have hle := length_writeAllAt_le s.file.1 s.len.toNat data
        have hfile := s.file.2
        omega⟩
      len := .ofNat (s.len.toNat + data.length)
      hashed := s.hashed ++ data
      len_eq := by
        rw [UInt64.toNat_ofNat_of_lt' h, s.len_eq, List.length_append] }, .ok ())
  -- the system refuses a write whose end is no file offset
  else (s, .error ⟨s!"write_all_at {offset}: File too large"⟩)

instance [Sha256] : FileSink FsSink where
  existingLen := existingLen
  writeAt := writeAt
  finish s := (s, .ok (sha256 s.hashed))

/-- The bytes a sink on disk answers for are those of its digest. -/
instance : SinkContent FsSink := ⟨hashed⟩

/-- `FsSink::open` of a regular file, or of a new one. -/
def openReceiveSink (disk : Disk) (_ : ℕ) (path : OsStr) : Disk × Except SinkError FsSink :=
  let file := disk.fileAt path
  (Function.update disk path (some file), .ok {
    path
    file
    len := .ofNat file.1.length
    hashed := file.1
    len_eq := UInt64.toNat_ofNat_of_lt' file.2 })

/-- Opening does not fail, and goes on with what is there. -/
theorem openReceiveSink_ok (disk : Disk) (i : ℕ) (path : OsStr) :
    ∃ sink, openReceiveSink disk i path = (Function.update disk path (some sink.file), .ok sink) ∧
      sink.path = path ∧ sink.hashed = disk.bytes path ∧ sink.file.1 = sink.hashed := by
  let file := disk.fileAt path
  exact ⟨⟨path, file, .ofNat file.1.length, file.1, UInt64.toNat_ofNat_of_lt' file.2⟩,
    rfl, rfl, rfl, rfl⟩

instance [Sha256] : LawfulFileSink FsSink where
  existingLen_eq s := s.len_eq
  content_written s s' data h := by
    have hwrite : s.writeAt s.len data = (s', .ok ()) := h
    rw [writeAt, if_neg (not_not.2 rfl)] at hwrite
    split at hwrite
    · cases hwrite
      rfl
    · cases hwrite
  content_failed s s' offset data e h := by
    simp only [FileSink.writeAt, writeAt] at h
    split at h
    · cases h
      rfl
    · split at h <;> cases h
      rfl
  content_finish _ := rfl
  finish_digest s s' digest h := by
    cases h
    rfl

instance [Sha256] : FaultlessSink FsSink where
  write_ok s data h := by
    have hfits : s.len.toNat + data.length < 2 ^ 64 := by
      rw [s.len_eq]
      exact h
    show (s.writeAt s.len data).2 = .ok ()
    rw [writeAt, if_neg (not_not.2 rfl), dif_pos hfits]
  finish_ok s := ⟨_, rfl⟩

theorem path_writeAt [Sha256] (s : FsSink) (offset : UInt64) (data : List UInt8) :
    (FileSink.writeAt s offset data).1.path = s.path := by
  simp only [FileSink.writeAt, writeAt]
  split
  · rfl
  · split <;> rfl

/-- A sink that has written all of its file goes on so. -/
theorem file_writeAt [Sha256] {s : FsSink} (h : s.file.1 = s.hashed) (offset : UInt64)
    (data : List UInt8) : (FileSink.writeAt s offset data).1.file.1 =
      (FileSink.writeAt s offset data).1.hashed := by
  simp only [FileSink.writeAt, writeAt]
  split
  · exact h
  · split
    · dsimp only
      rw [s.len_eq, ← h, writeAllAt_end]
    · exact h

/-- The handle sees what the disk holds. -/
def attach (s : FsSink) (disk : Disk) : FsSink := { s with file := (disk s.path).getD s.file }

/-- The file is as the handle sees it. -/
def OnDisk (s : FsSink) (disk : Disk) : Prop := disk s.path = some s.file

theorem OnDisk.attach {s : FsSink} {disk : Disk} (h : s.OnDisk disk) : s.attach disk = s := by
  rw [FsSink.attach, h]
  rfl

/-- A write to another file is not seen. -/
theorem OnDisk.update {s : FsSink} {disk : Disk} (h : s.OnDisk disk) {path : OsStr}
    (hne : s.path ≠ path) (file : Option FileBytes) :
    s.OnDisk (Function.update disk path file) := by
  rw [OnDisk, Function.update_of_ne hne]
  exact h

end FsSink

namespace Receiver

def attach (r : Receiver FsSink) (disk : Disk) : Receiver FsSink :=
  { r with slots := r.slots.map fun slot => { slot with sink := slot.sink.attach disk } }

/-- The disk once the sink of file `i` has written to it. -/
def store (r : Receiver FsSink) (disk : Disk) (i : UInt32) : Disk :=
  match r.slots[i.toNat]? with
  | none => disk
  | some slot => Function.update disk slot.sink.path (some slot.sink.file)

/-- `on_chunk` of a receiver whose sinks are on the disk. -/
def onChunkOn [Sha256] (disk : Disk) (r : Receiver FsSink) (chunk : FileChunk) :
    Disk × Receiver FsSink × Except FileError (List Outbound) :=
  let (r, result) := (r.attach disk).onChunk chunk
  (r.store disk chunk.fileIndex, r, result)

end Receiver

/-- The files of the sinks are on the disk as the sinks have written them, each in a file of its
own. -/
structure Mirrored (sinks : List FsSink) (disk : Disk) : Prop where
  onDisk : ∀ s ∈ sinks, s.OnDisk disk
  file_eq : ∀ s ∈ sinks, s.file.1 = s.hashed
  distinct : (sinks.map FsSink.path).Nodup

/-- Only the files of the sinks matter. -/
theorem Mirrored.frame {sinks : List FsSink} {disk disk' : Disk} (h : Mirrored sinks disk)
    (hagree : ∀ path ∈ sinks.map FsSink.path, disk' path = disk path) : Mirrored sinks disk' := by
  refine ⟨?_, h.file_eq, h.distinct⟩
  intro s hs
  rw [FsSink.OnDisk, hagree s.path (List.mem_map_of_mem hs)]
  exact h.onDisk s hs

/-- A sink that is opened at a path of its own. -/
theorem Mirrored.concat {sinks : List FsSink} {disk : Disk} (h : Mirrored sinks disk) {s : FsSink}
    (hfresh : s.path ∉ sinks.map FsSink.path) (hfile : s.file.1 = s.hashed) :
    Mirrored (sinks ++ [s]) (Function.update disk s.path (some s.file)) := by
  refine ⟨?_, ?_, ?_⟩
  · intro t ht
    rcases List.mem_append.1 ht with ht | ht
    · refine (h.onDisk t ht).update ?_ _
      intro hsame
      exact hfresh (hsame ▸ List.mem_map_of_mem ht)
    · rw [List.mem_singleton.1 ht, FsSink.OnDisk, Function.update_self]
  · intro t ht
    rcases List.mem_append.1 ht with ht | ht
    · exact h.file_eq t ht
    · rwa [List.mem_singleton.1 ht]
  · rw [List.map_append, List.map_singleton, List.nodup_append]
    refine ⟨h.distinct, by simp, ?_⟩
    rintro path hpath _ hlast rfl
    exact hfresh (List.mem_singleton.1 hlast ▸ hpath)

theorem Mirrored.write {sinks : List FsSink} {disk : Disk} (h : Mirrored sinks disk) {i : ℕ}
    {s s' : FsSink} (hs : sinks[i]? = some s) (hpath : s'.path = s.path)
    (hfile : s'.file.1 = s'.hashed) :
    Mirrored (sinks.set i s') (Function.update disk s.path (some s'.file)) := by
  refine ⟨?_, ?_, List.map_set_same FsSink.path hs hpath ▸ h.distinct⟩
  · intro t ht
    obtain ⟨j, hj⟩ := List.mem_iff_getElem?.1 ht
    rw [List.getElem?_set] at hj
    split at hj
    · split at hj
      · cases hj
        rw [FsSink.OnDisk, hpath, Function.update_self]
      · cases hj
    · next hij =>
      refine (h.onDisk t (List.mem_of_getElem? hj)).update ?_ _
      intro hsame
      have hpaths : ∀ {k : ℕ} {u : FsSink}, sinks[k]? = some u →
          (sinks.map FsSink.path)[k]? = some u.path := by
        intro k u hu
        rw [List.getElem?_map, hu]
        rfl
      exact hij (h.distinct.eq_of_getElem? (hpaths hs) (hsame ▸ hpaths hj))
  · intro t ht
    rcases List.mem_or_eq_of_mem_set ht with ht | rfl
    · exact h.file_eq t ht
    · exact hfile

namespace Receiver

variable {r : Receiver FsSink} {disk : Disk}

theorem attach_eq (h : Mirrored r.sinks disk) : r.attach disk = r := by
  have hslots :
      (r.slots.map fun slot => { slot with sink := slot.sink.attach disk }) = r.slots := by
    conv_rhs => rw [← List.map_id r.slots]
    refine List.map_congr_left ?_
    intro slot hslot
    rw [(h.onDisk slot.sink (List.mem_map_of_mem hslot)).attach]
    rfl
  rw [Receiver.attach, hslots]

/-- **The step lemma of a receiver on the disk.** A chunk is handled as if the files were the
receiver's alone, and no other file is touched. -/
theorem onChunkOn_mirrored [Sha256] (h : Mirrored r.sinks disk) (chunk : FileChunk) :
    ∃ disk', onChunkOn disk r chunk = (disk', r.onChunk chunk) ∧
      Mirrored (r.onChunk chunk).1.sinks disk' ∧
      (r.onChunk chunk).1.sinks.map FsSink.path = r.sinks.map FsSink.path ∧
      ∀ path, path ∉ r.sinks.map FsSink.path → disk' path = disk path := by
  refine ⟨(r.onChunk chunk).1.store disk chunk.fileIndex, ?_, ?_⟩
  · rw [Receiver.onChunkOn, attach_eq h]
  have hsinks := sinks_onChunk (fun s : FsSink => rfl) r chunk
  have hstore : ∀ {s : FsSink}, (r.onChunk chunk).1.sinks[chunk.fileIndex.toNat]? = some s →
      (r.onChunk chunk).1.store disk chunk.fileIndex =
        Function.update disk s.path (some s.file) := by
    intro s hs
    rw [sinks, List.getElem?_map, Option.map_eq_some_iff] at hs
    obtain ⟨slot, hslot, rfl⟩ := hs
    rw [store, hslot]
  rcases hsinks with hsame | ⟨slot, hslot, hset⟩
  · -- What is stored is what is on the disk.
    have hdisk : (r.onChunk chunk).1.store disk chunk.fileIndex = disk := by
      cases hs : (r.onChunk chunk).1.sinks[chunk.fileIndex.toNat]? with
      | none =>
        rw [sinks, List.getElem?_map, Option.map_eq_none_iff] at hs
        rw [store, hs]
      | some s =>
        rw [hstore hs, ← h.onDisk s (List.mem_of_getElem? (hsame ▸ hs)), Function.update_eq_self]
    rw [hdisk, hsame]
    exact ⟨h, rfl, fun path _ => rfl⟩
  · have hsink : r.sinks[chunk.fileIndex.toNat]? = some slot.sink := by
      rw [sinks, List.getElem?_map, hslot]
      rfl
    obtain ⟨hlt, -⟩ := List.getElem?_eq_some_iff.1 hsink
    have hpath := FsSink.path_writeAt slot.sink slot.acked chunk.data
    have hfile := FsSink.file_writeAt (h.file_eq slot.sink (List.mem_of_getElem? hsink)) slot.acked
      chunk.data
    have hwritten := hstore (by rw [hset, List.getElem?_set_self hlt])
    rw [hwritten, hpath, hset]
    refine ⟨h.write hsink hpath hfile, List.map_set_same _ hsink hpath, ?_⟩
    · intro path hnot
      refine Function.update_of_ne ?_ _ _
      rintro rfl
      exact hnot (List.mem_map_of_mem (List.mem_of_getElem? hsink))

end Receiver

end Mouser
