import Mouser.Files.Confine
import Mouser.Files.Lockstep

/-!
# The sources of a transfer

`prepare_sources` opens the files that are to be sent, checks their names and hashes them. A file is
read through `OpenFile`, in pieces that may be shorter than asked for. `prepareSources_ok` says what
is known of the sources: every name is one that a receiver takes, and every hash is that of what the
file holds.
-/

namespace Mouser

/-- A file that is open for reading, with the texts of its errors. -/
class OpenFile (F : Type) where
  /-- `metadata`: the length, and whether it is a regular file. -/
  metadata : F → Except String (UInt64 × Bool)
  /-- `read_at`: some of the bytes at the offset, of a number. -/
  readAt : F → UInt64 → ℕ → Except String (List UInt8)

/-- `DiskSource`, of a file whose length has been asked for. -/
structure DiskSource (F : Type) [OpenFile F] where
  file : F
  len : UInt64
  metadata_eq : OpenFile.metadata file = .ok (len, true)

instance {F : Type} [OpenFile F] : FileSource (DiskSource F) where
  len src := src.len
  readAt src offset want := (OpenFile.readAt src.file offset want).mapError fun e =>
    ⟨s!"read_at {offset}: " ++ e⟩

/-- Why the files cannot be sent. -/
inductive PrepareError where
  | noFiles
  | noFileName (path : OsStr)
  | unsafeName (name : String) (e : PathError)
  | opening (path : OsStr) (e : String)
  | metadata (path : OsStr) (e : String)
  | notRegular (path : OsStr)
  | hashing (message : String)
deriving DecidableEq

/-- The text of the error, for how a path is displayed and how a string is quoted. -/
def PrepareError.text (display : OsStr → String) (quote : String → String) :
    PrepareError → String
  | .noFiles => "no files supplied"
  | .noFileName path => display path ++ " has no UTF-8 file name"
  | .unsafeName name e => "unsafe file name " ++ quote name ++ ": " ++ e.display
  | .opening path e => "open " ++ display path ++ ": " ++ e
  | .metadata path e => "metadata " ++ display path ++ ": " ++ e
  | .notRegular path => display path ++ " is not a regular file"
  | .hashing message => message

def hashBuf : ℕ := 64 * 1024

section

variable {F : Type} [OpenFile F]

omit [OpenFile F] in
theorem hashedFrom_decreasing {len offset : ℕ} (h : offset < len) (b : UInt8) (bs : List UInt8) :
    len - (offset + (b :: bs).length) < len - offset := by
  rw [List.length_cons]
  omega

/-- The loop of `hash_file`, from an offset on: the bytes that the hasher is updated with. -/
def hashedFrom (file : F) (len offset : ℕ) : Except String (List UInt8) :=
  if hlen : offset < len then
    let want := min (len - offset) hashBuf
    match OpenFile.readAt file (.ofNat offset) want with
    | .error e => .error (s!"hash read_at {offset}: " ++ e)
    | .ok [] => .error s!"short read while hashing at byte {offset}"
    | .ok (b :: bs) =>
      if want < (b :: bs).length then .error "hash read length out of bounds"
      else
        have := hashedFrom_decreasing hlen b bs
        (hashedFrom file len (offset + (b :: bs).length)).map (b :: bs ++ ·)
  else .ok []
termination_by len - offset

variable [Sha256]

def hashFile (file : F) (len : UInt64) : Except String Hash :=
  (hashedFrom file len.toNat 0).map sha256

/-- The last component of the path, when it is a name in UTF-8 that a receiver takes. -/
def safeFileName (path : OsStr) : Unwind (Except PrepareError String) :=
  match (components path).getLast? with
  | some (.normal bytes) =>
    match Utf8.decode bytes with
    | none => .ok (.error (.noFileName path))
    | some chars =>
      let name := String.ofList chars
      match sanitizeName name with
      | .error panic => .error panic
      | .ok (.error e) => .ok (.error (.unsafeName name e))
      | .ok (.ok _) => .ok (.ok name)
  | _ => .ok (.error (.noFileName path))

/-- One file of `prepare_sources`. -/
def prepareSource (openFile : OsStr → Except String F) (path : OsStr) :
    Unwind (Except PrepareError (String × DiskSource F × Option Hash)) :=
  match safeFileName path with
  | .error panic => .error panic
  | .ok (.error e) => .ok (.error e)
  | .ok (.ok name) =>
    match openFile path with
    | .error e => .ok (.error (.opening path e))
    | .ok file =>
      match hmeta : OpenFile.metadata file with
      | .error e => .ok (.error (.metadata path e))
      | .ok (_, false) => .ok (.error (.notRegular path))
      | .ok (len, true) =>
        match hashFile file len with
        | .error e => .ok (.error (.hashing e))
        | .ok hash => .ok (.ok (name, ⟨file, len, hmeta⟩, some hash))

/-- The files up to the first that cannot be sent. -/
def prepareAll (openFile : OsStr → Except String F) :
    List OsStr → Unwind (Except PrepareError (List (String × DiskSource F × Option Hash)))
  | [] => .ok (.ok [])
  | path :: paths =>
    match prepareSource openFile path with
    | .error panic => .error panic
    | .ok (.error e) => .ok (.error e)
    | .ok (.ok file) =>
      match prepareAll openFile paths with
      | .error panic => .error panic
      | .ok (.error e) => .ok (.error e)
      | .ok (.ok files) => .ok (.ok (file :: files))

def prepareSources (openFile : OsStr → Except String F) (paths : List OsStr) :
    Unwind (Except PrepareError (List (String × DiskSource F × Option Hash))) :=
  if paths = [] then .ok (.error .noFiles) else prepareAll openFile paths

end

/-! ## What is prepared -/

/-- What an open file holds. -/
class FileContent (F : Type) where
  held : F → List UInt8

/-- A file that does not change and whose reads do not fail: before its end, some of the bytes there
are read. -/
class LawfulOpenFile (F : Type) [OpenFile F] [FileContent F] : Prop where
  metadata_ok : ∀ (file : F) (len : UInt64) (regular : Bool),
    OpenFile.metadata file = .ok (len, regular) → len.toNat = (FileContent.held file).length
  readAt_ok : ∀ (file : F) (offset : UInt64) (want : ℕ),
    offset.toNat < (FileContent.held file).length → 0 < want →
    ∃ data, OpenFile.readAt file offset want = .ok data ∧ data ≠ [] ∧ data.length ≤ want ∧
      data <+: (FileContent.held file).drop offset.toNat

section

variable {F : Type} [OpenFile F] [FileContent F]

instance : SourceContent (DiskSource F) := ⟨fun src => FileContent.held src.file⟩

instance [LawfulOpenFile F] : LawfulFileSource (DiskSource F) where
  len_eq src := LawfulOpenFile.metadata_ok src.file src.len true src.metadata_eq
  readAt_ok src offset want hoffset hwant := by
    obtain ⟨data, hread, hdata⟩ := LawfulOpenFile.readAt_ok src.file offset want hoffset hwant
    refine ⟨data, ?_, hdata⟩
    change (OpenFile.readAt src.file offset want).mapError _ = _
    rw [hread]
    rfl

variable [LawfulOpenFile F]

/-- Whatever the reads return, the bytes from the offset on are hashed. -/
theorem hashedFrom_eq (file : F) {len : UInt64}
    (hlen : len.toNat = (FileContent.held file).length) (offset : ℕ) :
    hashedFrom file len.toNat offset = .ok ((FileContent.held file).drop offset) := by
  induction hmeasure : len.toNat - offset using Nat.strong_induction_on generalizing offset with
  | _ n ih =>
    rw [hashedFrom]
    split
    · next hlt =>
      have hoffset : (UInt64.ofNat offset).toNat = offset :=
        UInt64.toNat_ofNat_of_lt' (hlt.trans len.toNat_lt)
      obtain ⟨data, hread, hne, hle, hslice⟩ :=
        LawfulOpenFile.readAt_ok file (.ofNat offset) (min (len.toNat - offset) hashBuf)
          (by omega) (lt_min (by omega) (by decide))
      rw [hoffset] at hslice
      dsimp only
      rw [hread]
      cases data with
      | nil => exact absurd rfl hne
      | cons b bs =>
        have hrest := ih _ (by rw [← hmeasure, List.length_cons]; omega)
          (offset + (b :: bs).length) rfl
        obtain ⟨after, hafter⟩ := hslice
        dsimp only
        rw [if_neg (Nat.not_lt.2 hle), hrest, ← List.drop_drop, ← hafter, List.drop_left]
        rfl
    · next hend => rw [List.drop_of_length_le (by omega)]

variable [Sha256]

theorem hashFile_eq (file : F) {len : UInt64}
    (hlen : len.toNat = (FileContent.held file).length) :
    hashFile file len = .ok (sha256 (FileContent.held file)) := by
  rw [hashFile, hashedFrom_eq file hlen, List.drop_zero]
  rfl

/-- What is known of a source: a receiver takes its name, and the hash is that of the file. -/
structure Prepared (file : String × DiskSource F × Option Hash) : Prop where
  name : sanitizeName file.1 = .ok (.ok file.1)
  hash : file.2.2 = some (sha256 (bytes file.2.1))

omit [OpenFile F] [FileContent F] [LawfulOpenFile F] [Sha256] in
theorem safeFileName_ok {path : OsStr} {name : String} (h : safeFileName path = .ok (.ok name)) :
    sanitizeName name = .ok (.ok name) := by
  unfold safeFileName at h
  split at h
  · split at h
    · cases h
    · next chars _ =>
      dsimp only at h
      split at h
      · cases h
      · cases h
      · next safe hsafe =>
        cases h
        rcases sanitizeName_ok hsafe with ⟨heq, -⟩ | ⟨e, heq, -⟩
        · rw [hsafe, heq]
        · cases heq
  · cases h

theorem prepareSource_eq {openFile : OsStr → Except String F} {path : OsStr} {name : String}
    {file : F} {len : UInt64} (hname : safeFileName path = .ok (.ok name))
    (hopen : openFile path = .ok file) (hmeta : OpenFile.metadata file = .ok (len, true)) :
    prepareSource openFile path =
      .ok (.ok (name, ⟨file, len, hmeta⟩, some (sha256 (FileContent.held file)))) := by
  have hhash := hashFile_eq file (LawfulOpenFile.metadata_ok file len true hmeta)
  unfold prepareSource
  rw [hname]
  dsimp only
  rw [hopen]
  dsimp only
  split
  · next hmeta' =>
    rw [hmeta] at hmeta'
    cases hmeta'
  · next hmeta' =>
    rw [hmeta] at hmeta'
    cases hmeta'
  · next len' hmeta' =>
    obtain ⟨rfl, -⟩ := Prod.mk.inj (Except.ok.inj (hmeta.symm.trans hmeta'))
    rw [hhash]

theorem prepareSource_ok {openFile : OsStr → Except String F} {path : OsStr}
    {file : String × DiskSource F × Option Hash}
    (h : prepareSource openFile path = .ok (.ok file)) : Prepared file := by
  unfold prepareSource at h
  split at h
  · cases h
  · cases h
  · next name hname =>
    split at h
    · cases h
    · next opened _ =>
      split at h
      · cases h
      · cases h
      · next len hmeta =>
        rw [hashFile_eq opened (LawfulOpenFile.metadata_ok opened len true hmeta)] at h
        cases h
        exact ⟨safeFileName_ok hname, rfl⟩

/-- **What is prepared** is as it has to be, and there is some. -/
theorem prepareSources_ok {openFile : OsStr → Except String F} {paths : List OsStr}
    {files : List (String × DiskSource F × Option Hash)}
    (h : prepareSources openFile paths = .ok (.ok files)) :
    files ≠ [] ∧ files.length = paths.length ∧ ∀ file ∈ files, Prepared file := by
  have hall : ∀ {paths files}, prepareAll openFile paths = .ok (.ok files) →
      files.length = paths.length ∧ ∀ file ∈ files, Prepared file := by
    intro paths
    induction paths with
    | nil =>
      rintro files ⟨⟩
      exact ⟨rfl, nofun⟩
    | cons path paths ih =>
      intro files h
      rw [prepareAll] at h
      split at h
      · cases h
      · cases h
      · next file hfile =>
        split at h
        · cases h
        · cases h
        · next rest hrest =>
          cases h
          obtain ⟨hlength, hrest⟩ := ih hrest
          exact ⟨congrArg Nat.succ hlength,
            List.forall_mem_cons.2 ⟨prepareSource_ok hfile, hrest⟩⟩
  unfold prepareSources at h
  split at h
  · cases h
  · next hne =>
    obtain ⟨hlength, hfiles⟩ := hall h
    refine ⟨?_, hlength, hfiles⟩
    rintro rfl
    exact hne (List.eq_nil_of_length_eq_zero hlength.symm)

end

/-! ## Files in memory -/

instance : OpenFile MemSource where
  metadata file := .ok (FileSource.len file, true)
  readAt file offset want := .ok ((file.contents.drop offset.toNat).take want)

instance : FileContent MemSource := ⟨MemSource.contents⟩

instance : LawfulOpenFile MemSource where
  metadata_ok file len regular h := by
    cases h
    exact LawfulFileSource.len_eq file
  readAt_ok file offset want hoffset hwant := by
    refine ⟨_, rfl, ?_, List.length_take_le _ _, List.take_prefix _ _⟩
    rw [ne_eq, List.take_eq_nil_iff, List.drop_eq_nil_iff]
    rintro (hzero | hend)
    · omega
    · exact absurd hend (Nat.not_le.2 hoffset)

end Mouser
