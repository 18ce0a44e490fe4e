import Mouser.Files.FsSink
import Mouser.Lib.Rolling

/-!
# A sink and its open file

`FsSink` has three pieces of state: the file, the length it has written, and the state of a SHA-256
that it rolls over what it writes. Here they are kept apart, as the code keeps them, with what the
system answers at each call: the `lstat` of the path, the `open`, every read that seeds the hash,
every write and the final `fsync` may fail, a read may be short, and a write that fails may have
written a part of its data. `OpenFsSink.Holds` is their agreement on one content.
-/

namespace Mouser

/-- What `symlink_metadata` answers of a path. -/
inductive Lstat where
  | found (isSymlink : Bool) (len : UInt64)
  | notFound
  | failed (e : String)
deriving DecidableEq

/-- What the system makes of one `read_at`: it reads up to `n` bytes of what is there. -/
inductive ReadAt where
  | read (n : ℕ)
  | failed (e : String)
deriving DecidableEq

/-- What the system makes of one `write_all_at`: it writes all of the data, or fails with the first
`n` bytes of it written. -/
inductive WriteAllAt where
  | written
  | failed (n : ℕ) (e : String)
deriving DecidableEq

/-- A call of `write_at`. A slice has at most `isize::MAX` bytes. -/
structure WriteAt where
  offset : UInt64
  data : List UInt8
  length_data : data.length < 2 ^ 63
  answer : WriteAllAt

/-- `FsSink`, whose hasher has the states `H`. -/
structure OpenFsSink (H : Type) where
  file : List UInt8
  len : UInt64
  hasher : H

/-- The length of the buffer that `seed_hash_from_handle` reads into. -/
def seedBufLen : ℕ := 64 * 1024

section

variable {H : Type} (digest : Rolling H UInt8 Hash)

/-- What `read_at` reads into a buffer of `want` bytes. -/
def readChunk (file : List UInt8) (offset n want : ℕ) : List UInt8 :=
  (file.drop offset).take (min n want)

/-- The loop of `seed_hash_from_handle`, with what it has hashed so far. No offset is read twice, so
the system's answers are given by their offsets. -/
def seedHashLoop (reads : ℕ → ReadAt) (file : List UInt8) (len : ℕ) (hasher : H) (hashed : ℕ) :
    Except SinkError (H × ℕ) :=
  if hlen : hashed < len then
    match reads hashed with
    | .failed e => .error ⟨s!"seed-hash read_at {hashed}: {e}"⟩
    | .read n =>
      match readChunk file hashed n (min (len - hashed) seedBufLen) with
      | [] => .ok (hasher, hashed)
      | b :: bs =>
        have : len - (hashed + (b :: bs).length) < len - hashed := by
          rw [List.length_cons]
          omega
        seedHashLoop reads file len (digest.update hasher (b :: bs)) (hashed + (b :: bs).length)
  else .ok (hasher, hashed)
termination_by len - hashed

def seedHashFromHandle (reads : ℕ → ReadAt) (file : List UInt8) (len : ℕ) (hasher : H) :
    Except SinkError H :=
  match seedHashLoop digest reads file len hasher 0 with
  | .error e => .error e
  | .ok (hasher, hashed) =>
    if hashed ≠ len then .error ⟨s!"seed-hash short read: hashed {hashed} of {len}"⟩
    else .ok hasher

namespace OpenFsSink

/-- What `open` resumes from: the length that `lstat` finds, and whether the hash is seeded. -/
def resumeFrom (path : String) : Lstat → Except SinkError (UInt64 × Bool)
  | .found true _ => .error ⟨s!"refusing to write through symlink: {path}"⟩
  | .found false len => .ok (len, true)
  | .notFound => .ok (0, false)
  | .failed e => .error ⟨s!"lstat {path}: {e}"⟩

/-- `FsSink::open` of the path that is displayed as `path`. The handle is that of the file that is
there when it is opened. -/
def openPath (path : String) (lstat : Lstat) (opened : Except String (List UInt8))
    (reads : ℕ → ReadAt) : Except SinkError (OpenFsSink H) :=
  match resumeFrom path lstat, opened with
  | .error e, _ => .error e
  | .ok _, .error e => .error ⟨s!"open {path}: {e}"⟩
  | .ok (resumeLen, seed), .ok file =>
    let hasher :=
      if seed ∧ 0 < resumeLen then seedHashFromHandle digest reads file resumeLen.toNat digest.new
      else .ok digest.new
    hasher.map fun hasher => { file, len := resumeLen, hasher }

def existingLen (s : OpenFsSink H) : UInt64 := s.len

def writeAt (s : OpenFsSink H) (call : WriteAt) : OpenFsSink H × Except SinkError Unit :=
  if call.offset ≠ s.len then
    (s, .error ⟨s!"non-contiguous write at {call.offset}, have {s.len} (gap or rewrite)"⟩)
  else
    match call.answer with
    | .failed n e =>
      ({ s with file := writeAllAt s.file call.offset.toNat (call.data.take n) },
        .error ⟨s!"write_all_at {call.offset}: {e}"⟩)
    | .written =>
      let s := { s with
        file := writeAllAt s.file call.offset.toNat call.data
        hasher := digest.update s.hasher call.data }
      if s.len.toNat + call.data.length < 2 ^ 64 then
        ({ s with len := .ofNat (s.len.toNat + call.data.length) }, .ok ())
      else (s, .error ⟨"length overflow"⟩)

/-- `finish`, with what `sync_all` answers. -/
def finish (s : OpenFsSink H) (synced : Except String Unit) : Except SinkError Hash :=
  match synced with
  | .ok () => .ok (digest.finalize s.hasher)
  | .error e => .error ⟨s!"sync_all: {e}"⟩

/-- The sink after a sequence of writes, and the data of those that succeeded. -/
def run (s : OpenFsSink H) : List WriteAt → OpenFsSink H × List (List UInt8)
  | [] => (s, [])
  | call :: calls =>
    let (s, result) := s.writeAt digest call
    let (s, written) := s.run calls
    (s, match result with
      | .ok () => call.data :: written
      | .error _ => written)

end OpenFsSink

end

/-- The length that a sink goes on from. -/
def Lstat.resumeLen : Lstat → UInt64
  | .found _ len => len
  | .notFound | .failed _ => 0

section Seed

variable {H : Type} {digest : Rolling H UInt8 Hash} {reads : ℕ → ReadAt} {file : List UInt8}
  {len hashed : ℕ}

theorem seedHashLoop_end (hasher : H) :
    seedHashLoop digest reads file len hasher len = .ok (hasher, len) := by
  rw [seedHashLoop.eq_def, dif_neg (lt_irrefl len)]

/-- One read of the loop: a failure, a read of nothing, or more of the file. -/
theorem seedHashLoop_step (digest : Rolling H UInt8 Hash) (reads : ℕ → ReadAt)
    (file : List UInt8) (hasher : H) (hlen : hashed < len) :
    (∃ e, reads hashed = .failed e ∧ seedHashLoop digest reads file len hasher hashed =
        .error ⟨s!"seed-hash read_at {hashed}: {e}"⟩) ∨
      ∃ n chunk, reads hashed = .read n ∧
        chunk = readChunk file hashed n (min (len - hashed) seedBufLen) ∧
        seedHashLoop digest reads file len hasher hashed =
          if chunk = [] then .ok (hasher, hashed)
          else seedHashLoop digest reads file len (digest.update hasher chunk)
            (hashed + chunk.length) := by
  cases hread : reads hashed with
  | failed e =>
    refine .inl ⟨e, rfl, ?_⟩
    rw [seedHashLoop.eq_def, dif_pos hlen]
    split
    · next h =>
      cases hread.symm.trans h
      rfl
    · next h => cases hread.symm.trans h
  | read n =>
    refine .inr ⟨n, _, rfl, rfl, ?_⟩
    rw [seedHashLoop.eq_def, dif_pos hlen]
    split
    · next h => cases hread.symm.trans h
    · next h =>
      cases hread.symm.trans h
      split
      · next hchunk => rw [hchunk, if_pos rfl]
      · next hchunk => rw [hchunk, if_neg (List.cons_ne_nil _ _)]

theorem length_readChunk (file : List UInt8) (offset n want : ℕ) :
    (readChunk file offset n want).length = min (min n want) (file.length - offset) := by
  rw [readChunk, List.length_take, List.length_drop]

/-- What is read, behind what comes before it in the file. -/
theorem take_append_readChunk (file : List UInt8) (offset n want : ℕ) :
    file.take offset ++ readChunk file offset n want =
      file.take (offset + (readChunk file offset n want).length) := by
  rw [List.take_add]
  congr 1
  rw [readChunk, List.length_take, ← List.take_eq_take_min]

/-- The loop hashes what the file starts with. -/
theorem seedHashLoop_over {hasher hasher' : H} {hashed' : ℕ} (hle : hashed ≤ len)
    (hfile : hashed ≤ file.length) (hover : digest.Over hasher (file.take hashed))
    (h : seedHashLoop digest reads file len hasher hashed = .ok (hasher', hashed')) :
    hashed' ≤ file.length ∧ digest.Over hasher' (file.take hashed') := by
  induction hn : len - hashed using Nat.strong_induction_on generalizing hasher hashed with
  | _ n ih =>
    rcases Nat.lt_or_eq_of_le hle with hlen | rfl
    · rcases seedHashLoop_step digest reads file hasher hlen with
        ⟨e, -, he⟩ | ⟨n, chunk, -, hchunk, hloop⟩
      · rw [he] at h
        cases h
      · rw [hloop] at h
        split at h
        · cases h
          exact ⟨hfile, hover⟩
        · next hne =>
          have hpos := List.length_pos_iff.2 hne
          have hlength := length_readChunk file hashed n (min (len - hashed) seedBufLen)
          rw [← hchunk] at hlength
          refine ih _ (by omega) (by omega) (by omega) ?_ h rfl
          have htake := take_append_readChunk file hashed n (min (len - hashed) seedBufLen)
          rw [← hchunk] at htake
          rw [← htake]
          exact hover.update chunk
    · rw [seedHashLoop_end] at h
      cases h
      exact ⟨hfile, hover⟩

/-- Reads that make progress hash all of it. -/
theorem seedHashLoop_reads (digest : Rolling H UInt8 Hash) (hasher : H) (hle : hashed ≤ len)
    (hfile : len ≤ file.length) (hreads : ∀ i, ∃ n, 0 < n ∧ reads i = .read n) :
    ∃ hasher', seedHashLoop digest reads file len hasher hashed = .ok (hasher', len) := by
  induction hn : len - hashed using Nat.strong_induction_on generalizing hasher hashed with
  | _ n ih =>
    rcases Nat.lt_or_eq_of_le hle with hlen | rfl
    · obtain ⟨n, hpos, hread⟩ := hreads hashed
      rcases seedHashLoop_step digest reads file hasher hlen with
        ⟨e, he, -⟩ | ⟨n', chunk, hread', hchunk, hloop⟩
      · cases hread.symm.trans he
      · cases hread.symm.trans hread'
        have hlength := length_readChunk file hashed n (min (len - hashed) seedBufLen)
        rw [← hchunk] at hlength
        have hbuf : 0 < seedBufLen := by decide
        have hne : chunk ≠ [] := List.length_pos_iff.1 (by omega)
        rw [hloop, if_neg hne]
        exact ih _ (by omega) _ (by omega) rfl
    · exact ⟨hasher, seedHashLoop_end hasher⟩

/-- **The seeded hash.** When the seeding succeeds, the hash is that of the first `len` bytes of the
file, however short the reads were. -/
theorem seedHashFromHandle_ok {hasher : H}
    (h : seedHashFromHandle digest reads file len digest.new = .ok hasher) :
    len ≤ file.length ∧ digest.Over hasher (file.take len) := by
  unfold seedHashFromHandle at h
  split at h
  · cases h
  · next hasher' hashed hloop =>
    split at h
    · cases h
    · next heq =>
      obtain rfl : hashed = len := not_not.1 heq
      cases h
      exact seedHashLoop_over (Nat.zero_le _) (Nat.zero_le _) digest.over_new hloop

theorem seedHashFromHandle_reads (digest : Rolling H UInt8 Hash) (hasher : H)
    (hfile : len ≤ file.length) (hreads : ∀ i, ∃ n, 0 < n ∧ reads i = .read n) :
    ∃ hasher', seedHashFromHandle digest reads file len hasher = .ok hasher' := by
  obtain ⟨hasher', hloop⟩ :=
    seedHashLoop_reads digest hasher (Nat.zero_le len) hfile hreads
  exact ⟨hasher', by simp [seedHashFromHandle, hloop]⟩

end Seed

/-- A write behind what the file starts with. -/
theorem prefix_writeAllAt {content file : List UInt8} (h : content <+: file) (data : List UInt8) :
    content ++ data <+: writeAllAt file content.length data := by
  obtain ⟨rest, rfl⟩ := h
  unfold writeAllAt
  split
  · next hnil =>
    rw [hnil, List.append_nil]
    exact List.prefix_append _ _
  · have hgap : content.length - (content ++ rest).length = 0 := by
      rw [List.length_append]
      omega
    rw [List.take_left, hgap, List.replicate_zero, List.append_nil]
    exact List.prefix_append _ _

namespace OpenFsSink

variable {H : Type} {digest : Rolling H UInt8 Hash} {s : OpenFsSink H} {content : List UInt8}

/-- The length, the hash and the file of a sink agree on what it holds. -/
structure Holds (digest : Rolling H UInt8 Hash) (s : OpenFsSink H) (content : List UInt8) :
    Prop where
  len : s.len.toNat = content.length
  hasher : digest.Over s.hasher content
  file : content <+: s.file

/-- A write at another offset is refused. -/
theorem writeAt_refused (digest : Rolling H UInt8 Hash) {call : WriteAt} (h : call.offset ≠ s.len) :
    ∃ e, s.writeAt digest call = (s, .error e) := by
  unfold writeAt
  exact ⟨_, if_pos h⟩

/-- **One write.** It succeeds and appends its data, or it fails and the sink holds what it
held. -/
theorem Holds.writeAt (h : s.Holds digest content) (call : WriteAt)
    (hlen : content.length < 2 ^ 63) :
    (s.writeAt digest call).2 = .ok () ∧
        (s.writeAt digest call).1.Holds digest (content ++ call.data) ∨
      (∃ e, (s.writeAt digest call).2 = .error e) ∧
        (s.writeAt digest call).1.Holds digest content := by
  by_cases hoffset : call.offset ≠ s.len
  · obtain ⟨e, he⟩ := writeAt_refused digest hoffset
    rw [he]
    exact .inr ⟨⟨e, rfl⟩, h⟩
  have hat : call.offset.toNat = content.length := by rw [not_not.1 hoffset, h.len]
  rw [OpenFsSink.writeAt, if_neg hoffset, hat]
  cases hanswer : call.answer with
  | failed n e =>
    refine .inr ⟨⟨_, rfl⟩, h.len, h.hasher, ?_⟩
    exact (List.prefix_append _ _).trans (prefix_writeAllAt h.file (call.data.take n))
  | written =>
    have hdata := call.length_data
    have hfits : s.len.toNat + call.data.length < 2 ^ 64 := by
      rw [h.len]
      omega
    dsimp only
    rw [if_pos hfits]
    refine .inl ⟨rfl, ?_, h.hasher.update call.data, prefix_writeAllAt h.file call.data⟩
    rw [UInt64.toNat_ofNat_of_lt' hfits, h.len, List.length_append]

/-- **A sequence of writes.** The sink holds what it held and the data of the writes that
succeeded. -/
theorem Holds.run (h : s.Holds digest content) (calls : List WriteAt)
    (hlen : (content ++ (s.run digest calls).2.flatten).length < 2 ^ 63) :
    (s.run digest calls).1.Holds digest (content ++ (s.run digest calls).2.flatten) := by
  induction calls generalizing s content with
  | nil => rwa [OpenFsSink.run, List.flatten_nil, List.append_nil]
  | cons call calls ih =>
    have hbefore : content.length < 2 ^ 63 := by
      rw [List.length_append] at hlen
      omega
    rw [OpenFsSink.run] at hlen ⊢
    rcases h.writeAt call hbefore with ⟨hok, hnext⟩ | ⟨⟨e, herror⟩, hnext⟩
    · simp only [hok, List.flatten_cons, ← List.append_assoc] at hlen ⊢
      exact ih hnext hlen
    · simp only [herror] at hlen ⊢
      exact ih hnext hlen

/-- What `open` resumes from is the length that the path is found with. -/
theorem resumeFrom_ok {path : String} {lstat : Lstat} {resumeLen : UInt64} {seed : Bool} :
    resumeFrom path lstat = .ok (resumeLen, seed) ↔
      lstat = .found false resumeLen ∧ seed = true ∨
        lstat = .notFound ∧ resumeLen = 0 ∧ seed = false := by
  cases lstat with
  | found isSymlink len => cases isSymlink <;> simp [resumeFrom, eq_comm]
  | notFound => simp [resumeFrom, eq_comm]
  | failed e => simp [resumeFrom]

/-- **Opening a sink.** A sink that is opened holds what its file starts with, up to the length that
was found. -/
theorem holds_open {path : String} {lstat : Lstat} {opened : Except String (List UInt8)}
    {reads : ℕ → ReadAt} (h : openPath digest path lstat opened reads = .ok s) :
    opened = .ok s.file ∧ s.Holds digest (s.file.take lstat.resumeLen.toNat) := by
  unfold openPath at h
  split at h
  · cases h
  · cases h
  · next resumeLen seed file hresume =>
    have hlen : lstat.resumeLen = resumeLen ∧ (resumeLen = 0 ∨ seed = true) := by
      rcases resumeFrom_ok.1 hresume with ⟨rfl, hseed⟩ | ⟨rfl, hzero, -⟩
      · exact ⟨rfl, .inr hseed⟩
      · exact ⟨hzero.symm, .inl hzero⟩
    obtain ⟨rfl, hseed⟩ := hlen
    dsimp only at h
    split at h
    · cases hhash : seedHashFromHandle digest reads file lstat.resumeLen.toNat digest.new with
      | error e =>
        rw [hhash] at h
        cases h
      | ok hasher =>
        rw [hhash] at h
        cases h
        obtain ⟨hle, hover⟩ := seedHashFromHandle_ok hhash
        refine ⟨rfl, ?_, hover, List.take_prefix _ _⟩
        rw [List.length_take, Nat.min_eq_left hle]
    · next hnone =>
      cases h
      have hzero : lstat.resumeLen = 0 := by
        rcases hseed with hzero | rfl
        · exact hzero
        · exact UInt64.le_zero_iff.1 (UInt64.not_lt.1 fun hpos => hnone ⟨rfl, hpos⟩)
      refine ⟨rfl, ?_⟩
      rw [hzero]
      exact ⟨rfl, digest.over_new, List.nil_prefix⟩

/-- A path that is free, or whose file is as long as it was found, is opened by reads that make
progress. -/
theorem openPath_reads {path : String} {lstat : Lstat} {file : List UInt8} {reads : ℕ → ReadAt}
    (hlstat : lstat = .notFound ∨ ∃ len, lstat = .found false len ∧ len.toNat ≤ file.length)
    (hreads : ∀ i, ∃ n, 0 < n ∧ reads i = .read n) :
    ∃ s, openPath digest path lstat (.ok file) reads = .ok s := by
  rcases hlstat with rfl | ⟨len, rfl, hle⟩
  · exact ⟨_, rfl⟩
  · obtain ⟨hasher, hhash⟩ := seedHashFromHandle_reads digest digest.new hle hreads
    unfold openPath resumeFrom
    dsimp only
    split
    · rw [hhash]
      exact ⟨_, rfl⟩
    · exact ⟨_, rfl⟩

/-- The digest that `finish` returns is that of what the sink holds. -/
theorem Holds.finish [Sha256] (h : s.Holds digest content) (hdigest : digest.Computes sha256)
    {synced : Except String Unit} {hash : Hash} :
    s.finish digest synced = .ok hash ↔ synced = .ok () ∧ hash = sha256 content := by
  cases synced with
  | ok =>
    rw [OpenFsSink.finish, h.hasher.finalize hdigest]
    simp [eq_comm]
  | error e => simp [OpenFsSink.finish]

/-! ## The sink without its handle -/

/-- The sink is `t`, whose hash is the list that it was rolled over. -/
structure Models (digest : Rolling H UInt8 Hash) (s : OpenFsSink H) (t : FsSink) : Prop where
  file : s.file = t.file.1
  len : s.len = t.len
  hasher : digest.Over s.hasher t.hashed

/-- What a disk without faults answers. -/
def faultless (len : UInt64) (data : List UInt8) : WriteAllAt :=
  if len.toNat + data.length < 2 ^ 64 then .written else .failed 0 "File too large"

theorem models_open {path : String} {disk : Disk} {i : ℕ} {file : OsStr} {reads : ℕ → ReadAt}
    (h : openPath digest path (.found false (.ofNat (disk.bytes file).length))
      (.ok (disk.bytes file)) reads = .ok s) :
    ∃ t, (FsSink.openReceiveSink disk i file).2 = .ok t ∧ s.Models digest t := by
  obtain ⟨t, hopen, -, hhashed, hfile⟩ := FsSink.openReceiveSink_ok disk i file
  obtain ⟨hs, hholds⟩ := holds_open h
  have hbytes : disk.bytes file = s.file := Except.ok.inj hs
  have hlen : (Lstat.found false (.ofNat (disk.bytes file).length)).resumeLen.toNat =
      (disk.bytes file).length := UInt64.toNat_ofNat_of_lt' (disk.fileAt file).2
  rw [← hbytes, hlen, List.take_length] at hholds
  refine ⟨t, by rw [hopen], ?_, ?_, by rw [hhashed]; exact hholds.hasher⟩
  · rw [hfile, hhashed, hbytes]
  · rw [← UInt64.toNat_inj, hholds.len, t.len_eq, hhashed]

/-- **Without faults, the writes are those of the sink.** -/
theorem Models.writeAt {t : FsSink} (h : s.Models digest t) (call : WriteAt)
    (hanswer : call.answer = faultless t.len call.data) :
    (s.writeAt digest call).2 = (t.writeAt call.offset call.data).2 ∧
      (s.writeAt digest call).1.Models digest (t.writeAt call.offset call.data).1 := by
  unfold OpenFsSink.writeAt FsSink.writeAt
  rw [h.len, hanswer, faultless]
  by_cases hoffset : call.offset = t.len
  · rw [if_neg (not_not.2 hoffset), if_neg (not_not.2 hoffset), hoffset]
    by_cases hfits : t.len.toNat + call.data.length < 2 ^ 64
    · rw [if_pos hfits, dif_pos hfits]
      dsimp only
      rw [if_pos hfits]
      exact ⟨rfl, by rw [h.file], rfl, h.hasher.update call.data⟩
    · rw [if_neg hfits, dif_neg hfits]
      refine ⟨?_, h.file, rfl, h.hasher⟩
      have htext : toString ": " ++ toString "File too large" = toString ": File too large" := rfl
      dsimp only
      rw [String.append_assoc, htext]
  · rw [if_pos hoffset, if_pos hoffset]
    exact ⟨rfl, h⟩

theorem Models.finish [Sha256] {t : FsSink} (h : s.Models digest t)
    (hdigest : digest.Computes sha256) :
    s.finish digest (.ok ()) = (FileSink.finish t).2 :=
  congrArg Except.ok (h.hasher.finalize hdigest)

/-- A write of `c` behind the two bytes that a sink resumes from. -/
def resumedWrite : WriteAt where
  offset := 2
  data := [99]
  length_data := by decide
  answer := .written

/-- **A sink hashes what its file holds.** Whatever the system answers while the sink is opened and
written, its digest is that of the bytes it found and the data of the writes that succeeded, its
length is theirs, and they are what its file starts with. A write at any other offset changes
nothing. -/
theorem digest_of_content [Sha256] (hdigest : digest.Computes sha256) (path : String)
    (lstat : Lstat) (file : List UInt8) (reads : ℕ → ReadAt) :
    ((lstat = .notFound ∨ ∃ len, lstat = .found false len ∧ len.toNat ≤ file.length) →
        (∀ i, ∃ n, 0 < n ∧ reads i = .read n) →
        ∃ s, openPath digest path lstat (.ok file) reads = .ok s) ∧
      ∀ s, openPath digest path lstat (.ok file) reads = .ok s → ∀ calls : List WriteAt,
        (file.take lstat.resumeLen.toNat ++ (s.run digest calls).2.flatten).length < 2 ^ 63 →
        (∀ synced hash, (s.run digest calls).1.finish digest synced = .ok hash ↔ synced = .ok () ∧
          hash = sha256 (file.take lstat.resumeLen.toNat ++ (s.run digest calls).2.flatten)) ∧
        (s.run digest calls).1.existingLen.toNat =
          (file.take lstat.resumeLen.toNat ++ (s.run digest calls).2.flatten).length ∧
        file.take lstat.resumeLen.toNat ++ (s.run digest calls).2.flatten <+:
          (s.run digest calls).1.file ∧
        ∀ call : WriteAt, call.offset ≠ (s.run digest calls).1.existingLen →
          ∃ e, (s.run digest calls).1.writeAt digest call = ((s.run digest calls).1, .error e) := by
  refine ⟨openPath_reads, fun s hopen calls hlen => ?_⟩
  obtain ⟨hfile, hholds⟩ := holds_open hopen
  cases hfile
  have hrun := hholds.run calls hlen
  exact ⟨fun _ _ => hrun.finish hdigest, hrun.len, hrun.file, fun _ => writeAt_refused digest⟩

theorem digest_of_content_abc : let _ := Sha256.abc
    ∃ s, openPath (.keep sha256) "abc" (.found false 2) (.ok [97, 98]) (fun _ => .read 1) = .ok s ∧
      (s.run (.keep sha256) [resumedWrite]).1.finish (.keep sha256) (.ok ()) = .ok .ofAbc := by
  let _ := Sha256.abc
  have h := digest_of_content (Rolling.keep_computes sha256) "abc" (.found false 2) [97, 98]
    fun _ => .read 1
  have hopen : openPath (.keep sha256) "abc" (.found false 2) (.ok [97, 98]) (fun _ => .read 1) =
      .ok ⟨[97, 98], 2, [97, 98]⟩ := by
    simp [openPath, resumeFrom, seedHashFromHandle, seedHashLoop, readChunk, seedBufLen,
      Rolling.keep, Except.map]
  refine ⟨_, hopen, ((h.2 _ hopen [resumedWrite] (by decide)).1 _ _).2 ⟨rfl, ?_⟩⟩
  rfl

end OpenFsSink

end Mouser
