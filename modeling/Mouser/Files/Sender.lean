import Mathlib.Data.UInt
import Mouser.Files.Sink

/-!
# The sender of a file transfer

The sender offers its files, goes on from the points at which the receiver resumes, and emits the
chunks of each file within the window that the acks keep open. The sources are a parameter: they are
read through `FileSource` only.
-/

namespace Mouser

/-- The bytes the sender transmits. A read at an offset may return fewer bytes than asked for. -/
class FileSource (Src : Type) where
  len : Src → UInt64
  readAt : Src → UInt64 → ℕ → Except SinkError (List UInt8)

/-- The most bytes of a file that are sent and not acked. -/
def maxInFlightPerFile : UInt64 := 8 * 1024 * 1024

def defaultChunkSize : ℕ := 256 * 1024

structure Track (Src : Type) where
  name : String
  src : Src
  size : UInt64
  sha256 : Option Hash
  sent : UInt64
  acked : UInt64
  resumed : Bool
deriving DecidableEq

structure Sender (Src : Type) where
  transferId : UInt64
  tracks : List (Track Src)
  chunkSize : ℕ
  accepted : Bool
  aborted : Bool
deriving DecidableEq

section

variable {Src : Type} [FileSource Src]

def Track.new (name : String) (src : Src) (sha256 : Option Hash) : Track Src where
  name := name
  src := src
  size := FileSource.len src
  sha256 := sha256
  sent := 0
  acked := 0
  resumed := false

/-- The chunk of the file `t` to send next, as file `i`. -/
def Track.read (transferId : UInt64) (i : ℕ) (t : Track Src) (want : ℕ) :
    Except FileError (Track Src × FileChunk) :=
  match FileSource.readAt t.src t.sent want with
  | .error e => .error (.sink e)
  | .ok data =>
    if data.length = 0 then .error (.offsetOutOfRange (.ofNatClamp i) t.sent)
    else .ok ({ t with sent := t.sent + .ofNat data.length },
      ⟨transferId, .ofNatClamp i, t.sent, data⟩)

/-- The loop of `poll_chunk`, from file `i` on: the first file that is not sent and has room in its
window. -/
def pollTracks (transferId : UInt64) (chunkSize : ℕ) (i : ℕ) :
    List (Track Src) → List (Track Src) × Except FileError (Option FileChunk)
  | [] => ([], .ok none)
  | t :: tracks =>
    let inFlight := t.sent.saturatingSub t.acked
    if t.size ≤ t.sent ∨ maxInFlightPerFile ≤ inFlight then
      let (tracks, result) := pollTracks transferId chunkSize (i + 1) tracks
      (t :: tracks, result)
    else
      let windowLeft := maxInFlightPerFile - inFlight
      let fileLeft := t.size - t.sent
      let want := min (min (.ofNat chunkSize) windowLeft) fileLeft
      match t.read transferId i want.toNat with
      | .error e => (t :: tracks, .error e)
      | .ok (t, chunk) => (t :: tracks, .ok (some chunk))

namespace Sender

/-- `Sender::new_with_hashes` -/
def newWithHashes (transferId : UInt64) (files : List (String × Src × Option Hash)) :
    Except FileError (Sender Src) :=
  if files = [] then .error (.protocol "nothing to send")
  else if 2 ^ 32 ≤ files.length then .error (.protocol "too many files")
  else .ok {
    transferId
    tracks := files.map fun (name, src, sha256) => .new name src sha256
    chunkSize := defaultChunkSize
    accepted := false
    aborted := false }

/-- `Sender::new` -/
def new (transferId : UInt64) (files : List (String × Src)) : Except FileError (Sender Src) :=
  newWithHashes transferId (files.map fun (name, src) => (name, src, none))

omit [FileSource Src] in
def withChunkSize (s : Sender Src) (n : ℕ) : Except FileError (Sender Src) :=
  if n = 0 ∨ maxChunkSize < n then .error (.protocol "chunk size out of range")
  else .ok { s with chunkSize := n }

def offer (s : Sender Src) : FileOffer where
  transferId := s.transferId
  files := s.tracks.map fun t => ⟨t.name, t.size, t.sha256.map (·.bytes)⟩

/-- The checks of `on_accept`, on the resume points behind `earlier`. -/
def validateResume (tracks : List (Track Src)) (earlier : List ResumePoint) :
    List ResumePoint → Except FileError Unit
  | [] => .ok ()
  | r :: resume =>
    match tracks[r.fileIndex.toNat]? with
    | none => .error (.unknownFileIndex r.fileIndex)
    | some t =>
      if t.size < r.offset then .error (.offsetOutOfRange r.fileIndex r.offset)
      else if earlier.any (·.fileIndex = r.fileIndex) then
        .error (.protocol s!"duplicate resume for file_index {r.fileIndex}")
      else validateResume tracks (earlier ++ [r]) resume

def applyResume (tracks : List (Track Src)) (resume : List ResumePoint) : List (Track Src) :=
  resume.foldl (fun tracks r => tracks.modify r.fileIndex.toNat fun t =>
    { t with resumed := true, sent := r.offset, acked := r.offset }) tracks

/-- Apply a `FileAccept`. -/
def onAccept (s : Sender Src) (m : FileAccept) : Sender Src × Except FileError Unit :=
  if m.transferId ≠ s.transferId then (s, .error (.unknownTransfer m.transferId))
  else if s.accepted then (s, .error (.protocol "duplicate FileAccept"))
  else
    match validateResume s.tracks [] m.resume with
    | .error e => (s, .error e)
    | .ok () => ({ s with tracks := applyResume s.tracks m.resume, accepted := true }, .ok ())

/-- Apply a `FileAck`. -/
def onAck (s : Sender Src) (m : FileAck) : Sender Src × Except FileError Unit :=
  if m.transferId ≠ s.transferId then (s, .error (.unknownTransfer m.transferId))
  else if !s.accepted then (s, .error (.protocol "FileAck before FileAccept"))
  else
    match s.tracks[m.fileIndex.toNat]? with
    | none => (s, .error (.unknownFileIndex m.fileIndex))
    | some t =>
      if t.size < m.ackedThrough ∨ t.sent < m.ackedThrough then
        (s, .error (.offsetOutOfRange m.fileIndex m.ackedThrough))
      -- a stale ack is ignored
      else if t.acked < m.ackedThrough then
        ({ s with tracks :=
            s.tracks.set m.fileIndex.toNat { t with acked := m.ackedThrough } }, .ok ())
      else (s, .ok ())

/-- Record the terminal `FileDone`. -/
def onDone (s : Sender Src) (m : FileDone) : Sender Src × Except FileError Unit :=
  if m.transferId ≠ s.transferId then (s, .error (.unknownTransfer m.transferId))
  else if !m.ok then ({ s with aborted := true }, .ok ())
  else (s, .ok ())

/-- The next chunk to send, if there is one now. -/
def pollChunk (s : Sender Src) : Sender Src × Except FileError (Option FileChunk) :=
  if !s.accepted || s.aborted then (s, .ok none)
  else
    let (tracks, result) := pollTracks s.transferId s.chunkSize 0 s.tracks
    ({ s with tracks }, result)

def isComplete (s : Sender Src) : Bool := !s.aborted && s.tracks.all fun t => t.size ≤ t.acked

end Sender

/-! ## What a poll sends -/

/-- The bytes of a source. -/
class SourceContent (Src : Type) where
  bytes : Src → List UInt8

export SourceContent (bytes)

/-- A source whose reads before its end return some of the bytes there. -/
class LawfulFileSource (Src : Type) [FileSource Src] [SourceContent Src] : Prop where
  len_eq : ∀ src : Src, (FileSource.len src).toNat = (bytes src).length
  readAt_ok : ∀ (src : Src) (offset : UInt64) (want : ℕ), offset.toNat < (bytes src).length →
    0 < want → ∃ data, FileSource.readAt src offset want = .ok data ∧ data ≠ [] ∧
      data.length ≤ want ∧ data <+: (bytes src).drop offset.toNat

variable [SourceContent Src]

/-- Nothing of the file can be sent now. -/
def Track.Idle (t : Track Src) : Prop :=
  t.size ≤ t.sent ∨ maxInFlightPerFile ≤ t.sent.saturatingSub t.acked

/-- The bytes `data` of the file `t` are next, and end at `stop`. -/
structure Track.Next (t : Track Src) (data : List UInt8) (stop : UInt64) : Prop where
  nonempty : data ≠ []
  small : data.length ≤ maxChunkSize
  slice : data <+: (bytes t.src).drop t.sent.toNat
  stop_eq : stop.toNat = t.sent.toNat + data.length

/-- What a poll of the files from index `i` on does: none of them can be sent, or some chunk is. -/
inductive Polled (transferId : UInt64) (i : ℕ) (tracks : List (Track Src)) :
    List (Track Src) × Except FileError (Option FileChunk) → Prop where
  | none (h : ∀ t ∈ tracks, t.Idle) : Polled transferId i tracks (tracks, .ok none)
  | chunk {k : ℕ} {t : Track Src} {data : List UInt8} {stop : UInt64} (ht : tracks[k]? = some t)
    (hnext : t.Next data stop) :
    Polled transferId i tracks (tracks.set k { t with sent := stop },
      .ok (some ⟨transferId, .ofNatClamp (i + k), t.sent, data⟩))

variable [LawfulFileSource Src]

theorem Track.read_next {t : Track Src} (transferId : UInt64) (i want : ℕ)
    (hsize : t.size = FileSource.len t.src) (hsent : t.sent < t.size) (hpos : 0 < want)
    (hmax : want ≤ maxChunkSize) :
    ∃ data stop, t.Next data stop ∧
      t.read transferId i want =
        .ok ({ t with sent := stop }, ⟨transferId, .ofNatClamp i, t.sent, data⟩) := by
  have hlen : t.size.toNat = (bytes t.src).length := by
    rw [hsize, LawfulFileSource.len_eq]
  have hbefore : t.sent.toNat < (bytes t.src).length := by
    rw [← hlen]
    exact UInt64.lt_iff_toNat_lt.1 hsent
  obtain ⟨data, hread, hne, hle, hslice⟩ :=
    LawfulFileSource.readAt_ok t.src t.sent want hbefore hpos
  have hfits : data.length ≤ (bytes t.src).length - t.sent.toNat := by
    rw [← List.length_drop]
    exact hslice.length_le
  have hsize' := t.size.toNat_lt
  have htop : UInt64.size = 2 ^ 64 := rfl
  refine ⟨data, t.sent + .ofNat data.length, ⟨hne, hle.trans hmax, hslice, ?_⟩, ?_⟩
  · rw [UInt64.toNat_add, UInt64.toNat_ofNat_of_lt' (by omega), Nat.mod_eq_of_lt (by omega)]
  · rw [Track.read, hread]
    dsimp only
    rw [if_neg (fun h => hne (List.eq_nil_of_length_eq_zero h))]

theorem pollTracks_polled (transferId : UInt64) {n : ℕ} (i : ℕ) {tracks : List (Track Src)}
    (hpos : 0 < n) (hmax : n ≤ maxChunkSize) (hsize : ∀ t ∈ tracks, t.size = FileSource.len t.src) :
    Polled transferId i tracks (pollTracks transferId n i tracks) := by
  induction tracks generalizing i with
  | nil => exact .none nofun
  | cons t tracks ih =>
    rw [pollTracks]
    dsimp only
    split
    · next hidle =>
      have hrest := ih (i + 1) fun t ht => hsize t (.tail _ ht)
      generalize pollTracks transferId n (i + 1) tracks = result at hrest
      cases hrest with
      | none h => exact .none (List.forall_mem_cons.2 ⟨hidle, h⟩)
      | @chunk k t' data stop ht hnext =>
        have hk : i + 1 + k = i + (k + 1) := by omega
        rw [hk]
        have htrack : (t :: tracks)[k + 1]? = some t' := ht
        exact Polled.chunk (i := i) (k := k + 1) htrack hnext
    · next hopen =>
      rw [not_or, UInt64.not_le, UInt64.not_le] at hopen
      obtain ⟨hsent, hwindow⟩ := hopen
      have hsent' := UInt64.lt_iff_toNat_lt.1 hsent
      have hwindow' := UInt64.lt_iff_toNat_lt.1 hwindow
      have hn : (UInt64.ofNat n).toNat = n := by
        have hmax' : maxChunkSize < UInt64.size := by decide
        exact UInt64.toNat_ofNat_of_lt' (by omega)
      -- What is wanted is some of the chunk size, the window and the file, none of which is empty.
      obtain ⟨data, stop, hnext, hread⟩ := Track.read_next transferId i
        (min (min (.ofNat n) (maxInFlightPerFile - t.sent.saturatingSub t.acked))
          (t.size - t.sent)).toNat (hsize t (.head _)) hsent (by
        rw [UInt64.toNat_min, UInt64.toNat_min, hn,
          UInt64.toNat_sub_of_le _ _ (UInt64.le_of_lt hwindow),
          UInt64.toNat_sub_of_le _ _ (UInt64.le_of_lt hsent)]
        omega) (by
        rw [UInt64.toNat_min, UInt64.toNat_min, hn]
        omega)
      rw [hread]
      exact Polled.chunk (i := i) (k := 0) (show (t :: tracks)[0]? = some t from rfl) hnext

end

/-- The source of bytes in memory; its length fits a `u64`. -/
structure MemSource where
  contents : List UInt8
  length_lt : contents.length < 2 ^ 64

namespace MemSource

theorem contents_injective : Function.Injective contents := by
  rintro ⟨a, ha⟩ ⟨b, hb⟩ h
  cases h
  rfl

instance : DecidableEq MemSource := contents_injective.decidableEq

instance : FileSource MemSource where
  len src := .ofNat src.contents.length
  readAt src offset want :=
    if src.contents.length ≤ offset.toNat then .ok []
    else .ok ((src.contents.drop offset.toNat).take want)

instance : SourceContent MemSource := ⟨contents⟩

instance : LawfulFileSource MemSource where
  len_eq src := UInt64.toNat_ofNat_of_lt' src.length_lt
  readAt_ok src offset want hoffset hwant := by
    refine ⟨(src.contents.drop offset.toNat).take want, if_neg (Nat.not_le.2 hoffset), ?_,
      List.length_take_le _ _, List.take_prefix _ _⟩
    rw [ne_eq, List.take_eq_nil_iff, List.drop_eq_nil_iff]
    rintro (hzero | hend)
    · omega
    · exact absurd hend (Nat.not_le.2 hoffset)

end MemSource

end Mouser
