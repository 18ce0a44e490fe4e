import Mouser.Files.Transfer

/-!
# The window of the sender

What the receiver sends is up to it: accepts, acks and the final word may come in any order and say
anything. `Sender.Step` says what each event does to the sender, `Sender.Inv` is what holds along a
run: every file is acked up to no more than what is sent of it, and sent up to no more than its size
and its window allow; and the chunks of a file follow each other from the point it was resumed at.
-/

namespace Mouser

/-- A source whose reads, if they succeed, return bytes that are there, and no more than asked
for. -/
class FaithfulFileSource (Src : Type) [FileSource Src] [SourceContent Src] : Prop where
  readAt_slice : ∀ {src : Src} {offset : UInt64} {want : ℕ} {data : List UInt8},
    FileSource.readAt src offset want = .ok data →
      data.length ≤ want ∧ data <+: (bytes src).drop offset.toNat

instance : FaithfulFileSource MemSource where
  readAt_slice {src offset want data} h := by
    have hread : FileSource.readAt src offset want =
        if src.contents.length ≤ offset.toNat then .ok []
        else .ok ((src.contents.drop offset.toNat).take want) := rfl
    rw [hread] at h
    split at h
    · cases h
      exact ⟨Nat.zero_le _, List.nil_prefix⟩
    · cases h
      exact ⟨List.length_take_le _ _, List.take_prefix _ _⟩

/-! ## Chunks in a row -/

/-- The chunks carry the bytes of the source from `start` to `stop`, each from where the one before
it ended. -/
structure Streamed (source : List UInt8) (start stop : ℕ) (chunks : List FileChunk) : Prop where
  small : ∀ c ∈ chunks, c.data.length ≤ maxChunkSize
  slice : ∀ c ∈ chunks, c.data <+: source.drop c.offset.toNat
  contiguous : ∀ before c after, chunks = before ++ c :: after →
    c.offset.toNat = start + (before.flatMap (·.data)).length
  stop_eq : stop = start + (chunks.flatMap (·.data)).length

namespace Streamed

variable {source : List UInt8} {start stop : ℕ} {chunks : List FileChunk}

theorem nil (source : List UInt8) (start : ℕ) : Streamed source start start [] := by
  refine ⟨nofun, nofun, ?_, rfl⟩
  intro before c after h
  simp at h

theorem concat (h : Streamed source start stop chunks) {c : FileChunk}
    (hsmall : c.data.length ≤ maxChunkSize) (hslice : c.data <+: source.drop c.offset.toNat)
    (hoffset : c.offset.toNat = stop) :
    Streamed source start (stop + c.data.length) (chunks ++ [c]) := by
  refine ⟨?_, ?_, ?_, ?_⟩
  · intro c' hc'
    rcases List.mem_append.1 hc' with hc' | hc'
    · exact h.small c' hc'
    · rwa [List.mem_singleton.1 hc']
  · intro c' hc'
    rcases List.mem_append.1 hc' with hc' | hc'
    · exact h.slice c' hc'
    · rwa [List.mem_singleton.1 hc']
  · intro before c' after heq
    rcases List.eq_nil_or_concat after with rfl | ⟨init, last, rfl⟩
    · obtain ⟨rfl, hlast⟩ := List.append_inj' heq rfl
      cases hlast
      rw [hoffset, h.stop_eq]
    · rw [List.concat_eq_append, ← List.cons_append, ← List.append_assoc] at heq
      exact h.contiguous before c' init (List.append_inj' heq rfl).1
  · rw [h.stop_eq, List.flatMap_append, List.length_append, List.flatMap_singleton, Nat.add_assoc]

/-- Together the chunks are the bytes of the source. -/
theorem data_eq (h : Streamed source start stop chunks) :
    chunks.flatMap (·.data) = (source.drop start).take (stop - start) := by
  induction chunks using List.reverseRecOn generalizing stop with
  | nil =>
    rw [h.stop_eq]
    simp
  | append_singleton chunks c ih =>
    have hbefore : Streamed source start (start + (chunks.flatMap (·.data)).length) chunks := by
      refine ⟨fun c' hc' => h.small c' (List.mem_append_left _ hc'),
        fun c' hc' => h.slice c' (List.mem_append_left _ hc'), ?_, rfl⟩
      rintro before c' after rfl
      exact h.contiguous before c' (after ++ [c]) (by simp)
    have hoffset := h.contiguous chunks c [] rfl
    have hslice := h.slice c (List.mem_append_right _ (.head _))
    have hprefix := ih hbefore
    rw [Nat.add_sub_cancel_left] at hprefix
    rw [h.stop_eq, Nat.add_sub_cancel_left, List.flatMap_append, List.flatMap_singleton,
      List.length_append, List.take_add, List.drop_drop, ← hprefix, ← hoffset]
    exact congrArg _ (List.prefix_iff_eq_take.1 hslice)

end Streamed

/-! ## What each event does -/

inductive SenderEvent where
  | accept (m : FileAccept)
  | ack (m : FileAck)
  | done (m : FileDone)
  | poll
deriving DecidableEq

/-- The chunks of file `i` among those that were sent. -/
def chunksOf {σ ι : Type} (i : ℕ)
    (steps : List (Machine.Entry σ ι (Except FileError (Option FileChunk)))) : List FileChunk :=
  steps.filterMap fun en =>
    match en.output with
    | .ok (some c) => if c.fileIndex.toNat = i then some c else none
    | _ => none

/-- The point at which the resume points resume file `i`, if one of them does. -/
def resumedAt (i : ℕ) (resume : List ResumePoint) : Option UInt64 :=
  (resume.find? fun r => r.fileIndex.toNat = i).map (·.offset)

section

variable {Src : Type} [FileSource Src]

/-- The file once it is resumed at `offset`. -/
def Track.resumeAt (t : Track Src) (offset : UInt64) : Track Src :=
  { t with resumed := true, sent := offset, acked := offset }

namespace Sender

/-- A message of the receiver, or a poll. -/
def step (s : Sender Src) : SenderEvent → Sender Src × Except FileError (Option FileChunk)
  | .accept m => ((s.onAccept m).1, (s.onAccept m).2.map fun _ => none)
  | .ack m => ((s.onAck m).1, (s.onAck m).2.map fun _ => none)
  | .done m => ((s.onDone m).1, (s.onDone m).2.map fun _ => none)
  | .poll => s.pollChunk

def machine : Machine (Sender Src) SenderEvent (Except FileError (Option FileChunk)) := ⟨step⟩

omit [FileSource Src] in
/-- What the checks of `on_accept` make sure of. -/
theorem validateResume_valid {tracks : List (Track Src)} {earlier resume : List ResumePoint}
    (h : validateResume tracks earlier resume = .ok ()) :
    (∀ r ∈ resume, ∃ t, tracks[r.fileIndex.toNat]? = some t ∧ r.offset ≤ t.size) ∧
      (∀ r ∈ resume, ∀ e ∈ earlier, e.fileIndex ≠ r.fileIndex) ∧
        resume.Pairwise fun a b => a.fileIndex ≠ b.fileIndex := by
  induction resume generalizing earlier with
  | nil => exact ⟨nofun, nofun, .nil⟩
  | cons r resume ih =>
    rw [validateResume] at h
    split at h
    · cases h
    · next t ht =>
      split at h
      · cases h
      · next hsize =>
        split at h
        · cases h
        · next hearlier =>
          obtain ⟨hfound, hdistinct, hpairs⟩ := ih h
          refine ⟨List.forall_mem_cons.2 ⟨⟨t, ht, UInt64.not_lt.1 hsize⟩, hfound⟩,
            List.forall_mem_cons.2 ⟨?_, fun r' hr' e he =>
              hdistinct r' hr' e (List.mem_append_left _ he)⟩,
            List.pairwise_cons.2 ⟨fun r' hr' =>
              hdistinct r' hr' r (List.mem_append_right _ (.head _)), hpairs⟩⟩
          intro e he heq
          exact hearlier (List.any_eq_true.2 ⟨e, he, decide_eq_true heq⟩)

omit [FileSource Src] in
/-- Every file is resumed at its point. -/
theorem getElem?_applyResume {tracks : List (Track Src)} {resume : List ResumePoint}
    (hdistinct : resume.Pairwise fun a b => a.fileIndex ≠ b.fileIndex) (i : ℕ) :
    (applyResume tracks resume)[i]? = (tracks[i]?).map fun t =>
      (resumedAt i resume).elim t t.resumeAt := by
  induction resume generalizing tracks with
  | nil => exact (Option.map_id_apply ..).symm
  | cons r resume ih =>
    obtain ⟨hfirst, hrest⟩ := List.pairwise_cons.1 hdistinct
    have hfold : applyResume tracks (r :: resume) =
        applyResume (tracks.modify r.fileIndex.toNat (·.resumeAt r.offset)) resume := rfl
    rw [hfold, ih hrest, List.getElem?_modify]
    by_cases hi : r.fileIndex.toNat = i
    · have hnone : resumedAt i resume = none := by
        rw [resumedAt, Option.map_eq_none_iff, List.find?_eq_none]
        intro r' hr'
        rw [decide_eq_true_eq]
        exact fun heq => hfirst r' hr' (UInt32.toNat_inj.1 (hi.trans heq.symm))
      have hsome : resumedAt i (r :: resume) = some r.offset := by
        rw [resumedAt, List.find?_cons_of_pos (by simpa using hi)]
        rfl
      rw [hnone, hsome]
      cases tracks[i]? with
      | none => rfl
      | some t => simp [hi]
    · have hskip : resumedAt i (r :: resume) = resumedAt i resume := by
        rw [resumedAt, List.find?_cons_of_neg (by simpa using hi)]
        rfl
      rw [hskip]
      simp [hi]

end Sender

variable [SourceContent Src]

/-- The bytes `data` of the file `t` are next, and its size and its window have room for them. -/
structure Track.Fits (t : Track Src) (data : List UInt8) (stop : UInt64) : Prop
    extends t.Next data stop where
  within : stop ≤ t.size
  window : stop.toNat - t.acked.toNat ≤ maxInFlightPerFile.toNat

/-- What a poll of the files from index `i` on does: nothing, or some chunk is sent. -/
inductive Polls (transferId : UInt64) (i : ℕ) (tracks : List (Track Src)) :
    List (Track Src) × Except FileError (Option FileChunk) → Prop where
  | idle : Polls transferId i tracks (tracks, .ok none)
  | failed {e : FileError} : Polls transferId i tracks (tracks, .error e)
  | chunk {k : ℕ} {t : Track Src} {data : List UInt8} {stop : UInt64} (ht : tracks[k]? = some t)
    (hfits : t.Fits data stop) :
    Polls transferId i tracks (tracks.set k { t with sent := stop },
      .ok (some ⟨transferId, .ofNatClamp (i + k), t.sent, data⟩))

variable [FaithfulFileSource Src]

theorem Track.read_fits {t t' : Track Src} {transferId : UInt64} {i want : ℕ} {c : FileChunk}
    (hmax : want ≤ maxChunkSize) (hsize : t.sent.toNat + want ≤ t.size.toNat)
    (hwindow : t.sent.toNat + want - t.acked.toNat ≤ maxInFlightPerFile.toNat)
    (h : t.read transferId i want = .ok (t', c)) :
    ∃ data stop, t.Fits data stop ∧ t' = { t with sent := stop } ∧
      c = ⟨transferId, .ofNatClamp i, t.sent, data⟩ := by
  unfold Track.read at h
  split at h
  · cases h
  · next data hread =>
    obtain ⟨hle, hslice⟩ := FaithfulFileSource.readAt_slice hread
    split at h
    · cases h
    · next hne =>
      cases h
      have htop := t.size.toNat_lt
      have hword : UInt64.size = 2 ^ 64 := rfl
      have hstop : (t.sent + .ofNat data.length).toNat = t.sent.toNat + data.length := by
        rw [UInt64.toNat_add, UInt64.toNat_ofNat_of_lt' (by omega), Nat.mod_eq_of_lt (by omega)]
      refine ⟨data, _, ⟨⟨?_, hle.trans hmax, hslice, hstop⟩, ?_, ?_⟩, rfl, rfl⟩
      · exact fun hnil => hne (List.length_eq_zero_iff.2 hnil)
      · rw [UInt64.le_iff_toNat_le, hstop]
        omega
      · rw [hstop]
        omega

theorem pollTracks_polls (transferId : UInt64) {n : ℕ} (i : ℕ) (tracks : List (Track Src))
    (hmax : n ≤ maxChunkSize) :
    Polls transferId i tracks (pollTracks transferId n i tracks) := by
  induction tracks generalizing i with
  | nil => exact .idle
  | cons t tracks ih =>
    rw [pollTracks]
    dsimp only
    split
    · have hrest := ih (i + 1)
      generalize pollTracks transferId n (i + 1) tracks = result at hrest
      cases hrest with
      | idle => exact .idle
      | failed => exact .failed
      | @chunk k t' data stop ht hfits =>
        have hk : i + 1 + k = i + (k + 1) := by omega
        rw [hk]
        have htrack : (t :: tracks)[k + 1]? = some t' := ht
        exact Polls.chunk (i := i) (k := k + 1) htrack hfits
    · next hopen =>
      rw [not_or, UInt64.not_le, UInt64.not_le] at hopen
      obtain ⟨hsent, hwindow⟩ := hopen
      have hsent' := UInt64.lt_iff_toNat_lt.1 hsent
      have hwindow' := UInt64.lt_iff_toNat_lt.1 hwindow
      have hflight := UInt64.toNat_saturatingSub t.sent t.acked
      have hn : (UInt64.ofNat n).toNat = n := by
        have hmax' : maxChunkSize < UInt64.size := by decide
        exact UInt64.toNat_ofNat_of_lt' (by omega)
      -- What is wanted is within the chunk size, the window and the file.
      have hwant : (min (min (.ofNat n) (maxInFlightPerFile - t.sent.saturatingSub t.acked))
          (t.size - t.sent)).toNat = min (min n (maxInFlightPerFile.toNat -
            (t.sent.toNat - t.acked.toNat))) (t.size.toNat - t.sent.toNat) := by
        rw [UInt64.toNat_min, UInt64.toNat_min, hn,
          UInt64.toNat_sub_of_le _ _ (UInt64.le_of_lt hwindow),
          UInt64.toNat_sub_of_le _ _ (UInt64.le_of_lt hsent), hflight]
      split
      · exact .failed
      · next t' c hread =>
        rw [hwant] at hread
        obtain ⟨data, stop, hfits, rfl, rfl⟩ :=
          Track.read_fits (by omega) (by omega) (by omega) hread
        exact Polls.chunk (i := i) (k := 0) (show (t :: tracks)[0]? = some t from rfl) hfits

/-- What an event does to the sender. -/
inductive Sender.Step (s : Sender Src) :
    SenderEvent → Sender Src → Except FileError (Option FileChunk) → Prop where
  | refused {event : SenderEvent} {e : FileError} : Step s event s (.error e)
  | kept {event : SenderEvent} (hevent : ∀ m, event ≠ .accept m) : Step s event s (.ok none)
  | aborted {m : FileDone} : Step s (.done m) { s with aborted := true } (.ok none)
  | resumed {m : FileAccept} (hwaiting : s.accepted = false)
    (hvalid : validateResume s.tracks [] m.resume = .ok ()) :
    Step s (.accept m) { s with tracks := applyResume s.tracks m.resume, accepted := true }
      (.ok none)
  | acked {m : FileAck} {t : Track Src} (haccepted : s.accepted = true)
    (ht : s.tracks[m.fileIndex.toNat]? = some t) (hsent : m.ackedThrough ≤ t.sent)
    (hnew : t.acked < m.ackedThrough) :
    Step s (.ack m)
      { s with tracks := s.tracks.set m.fileIndex.toNat { t with acked := m.ackedThrough } }
      (.ok none)
  | sent {k : ℕ} {t : Track Src} {data : List UInt8} {stop : UInt64}
    (haccepted : s.accepted = true) (ht : s.tracks[k]? = some t) (hfits : t.Fits data stop) :
    Step s .poll { s with tracks := s.tracks.set k { t with sent := stop } }
      (.ok (some ⟨s.transferId, .ofNatClamp k, t.sent, data⟩))

/-- **The step of the sender.** -/
theorem Sender.step_step (s : Sender Src) (hmax : s.chunkSize ≤ maxChunkSize)
    (event : SenderEvent) : s.Step event (s.step event).1 (s.step event).2 := by
  cases event with
  | accept m =>
    simp only [step, onAccept]
    split
    · exact .refused
    · split
      · exact .refused
      · next hwaiting =>
        split
        · exact .refused
        · next hvalid => exact .resumed (Bool.eq_false_iff.2 hwaiting) hvalid
  | ack m =>
    simp only [step, onAck]
    split
    · exact .refused
    · split
      · exact .refused
      · next hopen =>
        split
        · exact .refused
        · next t ht =>
          split
          · exact .refused
          · next hrange =>
            rw [not_or, UInt64.not_lt, UInt64.not_lt] at hrange
            split
            · next hnew => exact .acked (by simpa using hopen) ht hrange.2 hnew
            · exact .kept (by simp)
  | done m =>
    simp only [step, onDone]
    split
    · exact .refused
    · split
      · exact .aborted
      · exact .kept (by simp)
  | poll =>
    simp only [step, pollChunk]
    split
    · exact .kept (by simp)
    · next hopen =>
      have hpolls := pollTracks_polls s.transferId 0 s.tracks hmax
      generalize pollTracks s.transferId s.chunkSize 0 s.tracks = result at hpolls
      cases hpolls with
      | idle => exact .kept (by simp)
      | failed => exact .refused
      | @chunk k t data stop ht hfits =>
        rw [Nat.zero_add]
        refine .sent ?_ ht hfits
        simp only [Bool.or_eq_true, Bool.not_eq_true', not_or, Bool.not_eq_false] at hopen
        exact hopen.1

end

/-! ## Along a run -/

section

variable {σ ι : Type}
  {steps : List (Machine.Entry σ ι (Except FileError (Option FileChunk)))}
  {en : Machine.Entry σ ι (Except FileError (Option FileChunk))}

theorem chunksOf_concat (i : ℕ) (h : ∀ c, en.output ≠ .ok (some c)) :
    chunksOf i (steps ++ [en]) = chunksOf i steps := by
  rw [chunksOf, List.filterMap_append, ← chunksOf]
  have hnone : chunksOf i [en] = [] := by
    unfold chunksOf
    cases hout : en.output with
    | error => simp [hout]
    | ok result =>
      cases result with
      | none => simp [hout]
      | some c => exact absurd hout (h c)
  exact (congrArg _ hnone).trans (List.append_nil _)

theorem chunksOf_concat_chunk (i : ℕ) {c : FileChunk} (h : en.output = .ok (some c)) :
    chunksOf i (steps ++ [en]) =
      chunksOf i steps ++ if c.fileIndex.toNat = i then [c] else [] := by
  rw [chunksOf, List.filterMap_append, ← chunksOf]
  refine congrArg _ ?_
  split
  · next hi => simp [h, hi]
  · next hi => simp [h, hi]

end

section

variable {Src : Type}

/-- The accepts that were taken. -/
def acceptsOf
    (steps : List (Machine.Entry (Sender Src) SenderEvent (Except FileError (Option FileChunk)))) :
    List FileAccept :=
  steps.filterMap fun en =>
    match en.input, en.output with
    | .accept m, .ok _ => some m
    | _, _ => none

/-- The point that file `i` was resumed at. -/
def startOf (i : ℕ)
    (steps : List (Machine.Entry (Sender Src) SenderEvent (Except FileError (Option FileChunk)))) :
    UInt64 :=
  ((acceptsOf steps).head?.bind fun m => resumedAt i m.resume).getD 0

theorem acceptsOf_concat
    {steps : List (Machine.Entry (Sender Src) SenderEvent (Except FileError (Option FileChunk)))}
    {en : Machine.Entry (Sender Src) SenderEvent (Except FileError (Option FileChunk))}
    (h : (∀ m, en.input ≠ .accept m) ∨ ∃ e, en.output = .error e) :
    acceptsOf (steps ++ [en]) = acceptsOf steps := by
  rw [acceptsOf, List.filterMap_append, ← acceptsOf]
  have hnone : acceptsOf [en] = [] := by
    unfold acceptsOf
    rcases h with h | ⟨e, h⟩
    · cases hin : en.input with
      | accept m => exact absurd hin (h m)
      | ack | done | poll => simp [hin]
    · simp [h]
  exact (congrArg _ hnone).trans (List.append_nil _)

theorem startOf_concat {i : ℕ}
    {steps : List (Machine.Entry (Sender Src) SenderEvent (Except FileError (Option FileChunk)))}
    {en : Machine.Entry (Sender Src) SenderEvent (Except FileError (Option FileChunk))}
    (h : (∀ m, en.input ≠ .accept m) ∨ ∃ e, en.output = .error e) :
    startOf i (steps ++ [en]) = startOf i steps := by
  rw [startOf, acceptsOf_concat h, ← startOf]

variable [SourceContent Src]

/-- The file `i` is acked up to no more than what is sent of it, and sent up to no more than its
size and its window allow; its chunks are its bytes from where it was resumed to what is sent. -/
structure Windowed (i : ℕ)
    (steps : List (Machine.Entry (Sender Src) SenderEvent (Except FileError (Option FileChunk))))
    (t : Track Src) : Prop where
  acked_le : t.acked ≤ t.sent
  sent_le : t.sent ≤ t.size
  window : t.sent.toNat - t.acked.toNat ≤ maxInFlightPerFile.toNat
  streamed : Streamed (bytes t.src) (startOf i steps).toNat t.sent.toNat (chunksOf i steps)

/-- What holds along a run of the sender `s₀`. -/
structure Sender.Inv (s₀ : Sender Src)
    (steps : List (Machine.Entry (Sender Src) SenderEvent (Except FileError (Option FileChunk))))
    (s : Sender Src) : Prop where
  files_eq : s.tracks.map Track.file = s₀.tracks.map Track.file
  chunkSize_eq : s.chunkSize = s₀.chunkSize
  waiting : s.accepted = false → acceptsOf steps = [] ∧
    ∀ i t, s.tracks[i]? = some t → t.sent = 0 ∧ t.acked = 0 ∧ chunksOf i steps = []
  file : ∀ i t, s.tracks[i]? = some t → Windowed i steps t

namespace Sender.Inv

variable {s₀ s : Sender Src}
  {steps : List (Machine.Entry (Sender Src) SenderEvent (Except FileError (Option FileChunk)))}
  {en : Machine.Entry (Sender Src) SenderEvent (Except FileError (Option FileChunk))}

/-- A step that changes no file, takes no accept and sends no chunk. -/
theorem keep (h : s₀.Inv steps s) {s' : Sender Src} (htracks : s'.tracks = s.tracks)
    (hsize : s'.chunkSize = s.chunkSize) (haccepted : s'.accepted = s.accepted)
    (hinput : (∀ m, en.input ≠ .accept m) ∨ ∃ e, en.output = .error e)
    (hchunk : ∀ c, en.output ≠ .ok (some c)) : s₀.Inv (steps ++ [en]) s' := by
  refine ⟨by rw [htracks]; exact h.files_eq, hsize.trans h.chunkSize_eq, ?_, ?_⟩
  · intro hwaiting
    obtain ⟨haccepts, hstart⟩ := h.waiting (haccepted ▸ hwaiting)
    refine ⟨by rw [acceptsOf_concat hinput, haccepts], ?_⟩
    intro i t ht
    rw [chunksOf_concat i hchunk]
    exact hstart i t (htracks ▸ ht)
  · intro i t ht
    obtain ⟨hacked, hsent, hwindow, hstreamed⟩ := h.file i t (htracks ▸ ht)
    refine ⟨hacked, hsent, hwindow, ?_⟩
    rw [chunksOf_concat i hchunk, startOf_concat hinput]
    exact hstreamed

theorem resume (h : s₀.Inv steps s) {m : FileAccept} (hwaiting : s.accepted = false)
    (hvalid : Sender.validateResume s.tracks [] m.resume = .ok ()) (hinput : en.input = .accept m)
    (houtput : en.output = .ok none) :
    s₀.Inv (steps ++ [en])
      { s with tracks := Sender.applyResume s.tracks m.resume, accepted := true } := by
  obtain ⟨haccepts, hstart⟩ := h.waiting hwaiting
  obtain ⟨hfound, -, hdistinct⟩ := Sender.validateResume_valid hvalid
  have hchunk : ∀ c, en.output ≠ .ok (some c) := by
    intro c hc
    rw [houtput] at hc
    cases hc
  have hstartOf : ∀ i, startOf i (steps ++ [en]) = (resumedAt i m.resume).getD 0 := by
    intro i
    rw [startOf, acceptsOf, List.filterMap_append, ← acceptsOf, haccepts]
    simp [hinput, houtput]
  refine ⟨?_, h.chunkSize_eq, nofun, ?_⟩
  · rw [← h.files_eq]
    refine List.ext_getElem? fun i => ?_
    rw [List.getElem?_map, List.getElem?_map, Sender.getElem?_applyResume hdistinct, Option.map_map]
    refine Option.map_congr fun t _ => ?_
    cases resumedAt i m.resume <;> rfl
  · intro i t' ht'
    have hgot : (Sender.applyResume s.tracks m.resume)[i]? = _ :=
      Sender.getElem?_applyResume hdistinct i
    obtain ⟨t, ht, heq⟩ := Option.map_eq_some_iff.1 (hgot.symm.trans ht')
    obtain ⟨hsent, hacked, hnone⟩ := hstart i t ht
    have hwindowed : ∀ offset, offset = (resumedAt i m.resume).getD 0 → t'.sent = offset →
        t'.acked = offset → offset ≤ t'.size → Windowed i (steps ++ [en]) t' := by
      intro offset hoffset hsent' hacked' hle
      refine ⟨by rw [hsent', hacked']; exact UInt64.le_refl _, by rwa [hsent'], ?_, ?_⟩
      · rw [hsent', hacked', Nat.sub_self]
        exact Nat.zero_le _
      · rw [hstartOf, chunksOf_concat i hchunk, hnone, hsent', hoffset]
        exact .nil _ _
    cases hat : resumedAt i m.resume with
    | none =>
      rw [hat] at heq
      obtain rfl : t = t' := heq
      exact hwindowed 0 (by rw [hat]; rfl) hsent hacked (UInt64.le_iff_toNat_le.2 (Nat.zero_le _))
    | some offset =>
      rw [hat] at heq
      obtain rfl : t.resumeAt offset = t' := heq
      rw [resumedAt, Option.map_eq_some_iff] at hat
      obtain ⟨r, hr, rfl⟩ := hat
      obtain ⟨t₁, ht₁, hle⟩ := hfound r (List.mem_of_find?_eq_some hr)
      have hindex : r.fileIndex.toNat = i := by simpa using List.find?_some hr
      rw [hindex, ht] at ht₁
      cases ht₁
      exact hwindowed r.offset (by rw [resumedAt, hr]; rfl) rfl rfl hle

/-- A step that changes one file. -/
theorem put (h : s₀.Inv steps s) {k : ℕ} {t t' : Track Src} (ht : s.tracks[k]? = some t)
    (haccepted : s.accepted = true) (hfile : t'.file = t.file)
    (hinput : ∀ m, en.input ≠ .accept m)
    (hother : ∀ i, i ≠ k → chunksOf i (steps ++ [en]) = chunksOf i steps)
    (hwindowed : Windowed k (steps ++ [en]) t') :
    s₀.Inv (steps ++ [en]) { s with tracks := s.tracks.set k t' } := by
  refine ⟨?_, h.chunkSize_eq, ?_, ?_⟩
  · rw [← h.files_eq]
    exact List.map_set_same _ ht hfile
  · intro hwaiting
    exact absurd (haccepted.symm.trans hwaiting) (by decide)
  · intro i u hu
    change (s.tracks.set k t')[i]? = some u at hu
    by_cases hi : k = i
    · subst hi
      obtain ⟨hlt, -⟩ := List.getElem?_eq_some_iff.1 ht
      rw [List.getElem?_set_self hlt] at hu
      cases hu
      exact hwindowed
    · rw [List.getElem?_set_ne hi] at hu
      obtain ⟨hacked, hle, hwindow, hstreamed⟩ := h.file i u hu
      refine ⟨hacked, hle, hwindow, ?_⟩
      rw [hother i (Ne.symm hi), startOf_concat (.inl hinput)]
      exact hstreamed

theorem ack (h : s₀.Inv steps s) {k : ℕ} {t : Track Src} {stop : UInt64}
    (haccepted : s.accepted = true) (ht : s.tracks[k]? = some t) (hsent : stop ≤ t.sent)
    (hnew : t.acked < stop) (hinput : ∀ m, en.input ≠ .accept m)
    (hchunk : ∀ c, en.output ≠ .ok (some c)) :
    s₀.Inv (steps ++ [en]) { s with tracks := s.tracks.set k { t with acked := stop } } := by
  obtain ⟨-, hle, hwindow, hstreamed⟩ := h.file k t ht
  have hnew' := UInt64.lt_iff_toNat_lt.1 hnew
  refine h.put ht haccepted rfl hinput (fun i _ => chunksOf_concat i hchunk) ⟨hsent, hle, ?_, ?_⟩
  · dsimp only
    omega
  · rw [chunksOf_concat k hchunk, startOf_concat (.inl hinput)]
    exact hstreamed

theorem send [FileSource Src] (h : s₀.Inv steps s) {k : ℕ} {t : Track Src} {data : List UInt8}
    {stop : UInt64}
    (htop : s.tracks.length < 2 ^ 32) (haccepted : s.accepted = true)
    (ht : s.tracks[k]? = some t) (hfits : t.Fits data stop) (hinput : ∀ m, en.input ≠ .accept m)
    (houtput : en.output = .ok (some ⟨s.transferId, .ofNatClamp k, t.sent, data⟩)) :
    s₀.Inv (steps ++ [en]) { s with tracks := s.tracks.set k { t with sent := stop } } := by
  obtain ⟨hacked, hle, hwindow, hstreamed⟩ := h.file k t ht
  have hindex : (UInt32.ofNatClamp k).toNat = k := by
    obtain ⟨hlt, -⟩ := List.getElem?_eq_some_iff.1 ht
    exact UInt32.toNat_ofNatClamp_of_lt (hlt.trans htop)
  refine h.put ht haccepted rfl hinput ?_ ⟨?_, hfits.within, hfits.window, ?_⟩
  · intro i hi
    rw [chunksOf_concat_chunk i houtput, if_neg (by rw [hindex]; exact Ne.symm hi), List.append_nil]
  · rw [UInt64.le_iff_toNat_le] at hacked ⊢
    dsimp only
    rw [hfits.stop_eq]
    omega
  · rw [chunksOf_concat_chunk k houtput, if_pos hindex, startOf_concat (.inl hinput)]
    have hmore := hstreamed.concat (c := ⟨s.transferId, .ofNatClamp k, t.sent, data⟩) hfits.small
      hfits.slice rfl
    rwa [← hfits.stop_eq] at hmore

theorem length_eq (h : s₀.Inv steps s) : s.tracks.length = s₀.tracks.length := by
  have hfiles := congrArg List.length h.files_eq
  rwa [List.length_map, List.length_map] at hfiles

/-- **One step.** Every event keeps the invariant and what is acked, and an error changes
nothing. -/
theorem step [FileSource Src] [FaithfulFileSource Src] (h : s₀.Inv steps s)
    (htop : s₀.tracks.length < 2 ^ 32) (hmax : s₀.chunkSize ≤ maxChunkSize) (event : SenderEvent) :
    s₀.Inv (steps ++ [Sender.machine.entry s event]) (s.step event).1 ∧
      View.Behind s.ackeds (s.step event).1.ackeds ∧
        ∀ e, (s.step event).2 = .error e → (s.step event).1 = s := by
  have hstep := s.step_step (h.chunkSize_eq ▸ hmax) event
  have hentry : Sender.machine.entry s event =
      ⟨s, event, (s.step event).2, (s.step event).1⟩ := rfl
  rw [hentry]
  generalize (s.step event).1 = s' at hstep ⊢
  generalize (s.step event).2 = out at hstep ⊢
  cases hstep with
  | refused => exact ⟨h.keep rfl rfl rfl (.inr ⟨_, rfl⟩) (by simp), .refl _, fun _ _ => rfl⟩
  | kept hevent => exact ⟨h.keep rfl rfl rfl (.inl hevent) (by simp), .refl _, by simp⟩
  | aborted => exact ⟨h.keep rfl rfl rfl (.inl (by simp)) (by simp), .refl _, by simp⟩
  | @resumed m hwaiting hvalid =>
    refine ⟨h.resume hwaiting hvalid rfl rfl, ?_, by simp⟩
    intro i y hy
    obtain ⟨-, -, hdistinct⟩ := Sender.validateResume_valid hvalid
    rw [Sender.ackeds, List.getElem?_map, Sender.getElem?_applyResume hdistinct] at hy
    obtain ⟨t', ht', -⟩ := Option.map_eq_some_iff.1 hy
    obtain ⟨t, ht, -⟩ := Option.map_eq_some_iff.1 ht'
    obtain ⟨-, hzero, -⟩ := (h.waiting hwaiting).2 i t ht
    refine ⟨t.acked, by rw [Sender.ackeds, List.getElem?_map, ht]; rfl, ?_⟩
    rw [hzero, UInt64.le_iff_toNat_le]
    exact Nat.zero_le _
  | @acked m t haccepted ht hsent hnew =>
    refine ⟨h.ack haccepted ht hsent hnew (by simp) (by simp), ?_, by simp⟩
    rw [Sender.ackeds, Sender.ackeds, List.map_set]
    refine .set ?_ (UInt64.le_of_lt hnew)
    rw [List.getElem?_map, ht]
    rfl
  | @sent k t data stop haccepted ht hfits =>
    refine ⟨h.send (h.length_eq ▸ htop) haccepted ht hfits (by simp) rfl, ?_, by simp⟩
    have hsame : Sender.ackeds { s with tracks := s.tracks.set k { t with sent := stop } } =
        s.ackeds := List.map_set_same _ ht rfl
    rw [hsame]
    exact .refl _

end Sender.Inv

variable [FileSource Src] [FaithfulFileSource Src]

omit [FileSource Src] [FaithfulFileSource Src] in
/-- A sender that has sent nothing yet. -/
theorem Sender.Inv.start {s : Sender Src} (hstart : ∀ t ∈ s.tracks, t.sent = 0 ∧ t.acked = 0) :
    s.Inv [] s := by
  refine ⟨rfl, rfl, fun _ => ⟨rfl, fun i t ht => ?_⟩, fun i t ht => ?_⟩
  · obtain ⟨hsent, hacked⟩ := hstart t (List.mem_of_getElem? ht)
    exact ⟨hsent, hacked, rfl⟩
  · obtain ⟨hsent, hacked⟩ := hstart t (List.mem_of_getElem? ht)
    refine ⟨by rw [hsent, hacked]; exact UInt64.le_refl 0, ?_, ?_, ?_⟩
    · rw [hsent, UInt64.le_iff_toNat_le]
      exact Nat.zero_le _
    · rw [hsent, hacked]
      exact Nat.zero_le _
    · rw [hsent]
      exact .nil _ _

/-- **The sender and a hostile receiver.** Whatever the receiver sends, each file is acked up to no
more than what is sent of it, and sent up to no more than its size and its window allow. Its chunks
are of at most the largest size, carry its bytes, and follow each other from the point that it was
resumed at; once all of it is sent they are all of its bytes from there on. What is acked never
decreases, and a message that is refused leaves the sender as it was. -/
theorem sender_window (transferId : UInt64) (files : List (String × Src × Option Hash)) (n : ℕ)
    (s₁ s : Sender Src) (hnew : Sender.newWithHashes transferId files = .ok s₁)
    (hchunk : s₁.withChunkSize n = .ok s) (events : List SenderEvent) :
    let steps := Sender.machine.trace s events
    (∀ i name src digest, files[i]? = some (name, src, digest) →
      ∃ t, (Sender.machine.exec s events).tracks[i]? = some t ∧ t.src = src ∧
        t.size = FileSource.len src ∧ Windowed i steps t ∧
          (t.sent = t.size → (chunksOf i steps).flatMap (·.data) =
            ((bytes src).drop (startOf i steps).toNat).take
              (t.size.toNat - (startOf i steps).toNat))) ∧
    ∀ en ∈ steps, View.Behind en.pre.ackeds en.post.ackeds ∧
      ∀ e, en.output = .error e → en.post = en.pre := by
  obtain ⟨hsound, -, -, hzero, htracks⟩ := Sender.start_of_new hnew hchunk
  have htop := hsound.length_lt
  have hmax := hsound.chunkSize_le
  have hrun : ∀ events, s.Inv (Sender.machine.trace s events) (Sender.machine.exec s events) :=
    fun events => Sender.machine.induct (G := fun _ => True) (.start hzero)
      (fun _ _ event ht _ => (ht.step htop hmax event).1) events fun _ _ => trivial
  refine ⟨?_, ?_⟩
  · intro i name src digest hfile
    have hfiles := congrArg (·[i]?) (hrun events).files_eq
    simp only [htracks, List.getElem?_map, hfile, Option.map_some] at hfiles
    obtain ⟨t, ht, heq⟩ := Option.map_eq_some_iff.1 hfiles
    simp only [Track.file, Track.new, Prod.mk.injEq] at heq
    obtain ⟨-, hsrc, hsize, -⟩ := heq
    have hwindowed := (hrun events).file i t ht
    refine ⟨t, ht, hsrc, hsize, hwindowed, ?_⟩
    intro hall
    rw [hwindowed.streamed.data_eq, hall, hsrc]
  · intro en hen
    obtain ⟨js, event, ks, -, rfl⟩ := Sender.machine.mem_trace_iff.1 hen
    exact ((hrun js).step htop hmax event).2

end

/-- A file that is resumed at its second byte, and an ack that claims more than was sent. -/
def resumeAndOverreach : List SenderEvent :=
  [.accept ⟨7, [⟨0, 1⟩]⟩, .poll, .ack ⟨7, 0, 9⟩, .ack ⟨7, 0, 3⟩]

theorem sender_window_resumed :
    let steps := Sender.machine.trace abcSender resumeAndOverreach
    (∃ t, (Sender.machine.exec abcSender resumeAndOverreach).tracks[0]? = some t ∧
      Windowed 0 steps t ∧ (chunksOf 0 steps).flatMap (·.data) = [98, 99]) ∧
    ∀ en ∈ steps, View.Behind en.pre.ackeds en.post.ackeds := by
  intro steps
  obtain ⟨hfiles, hsteps⟩ := sender_window 7
    [("a.txt", ⟨[97, 98, 99], length_abc_lt⟩, some .ofAbc)] 2
    { abcSender with chunkSize := defaultChunkSize } abcSender rfl rfl resumeAndOverreach
  obtain ⟨t, ht, hsrc, -, hwindowed, hall⟩ := hfiles 0 _ _ _ rfl
  refine ⟨⟨t, ht, hwindowed, ?_⟩, fun en hen => (hsteps en hen).1⟩
  have hfull : ∀ u ∈ (Sender.machine.exec abcSender resumeAndOverreach).tracks[0]?,
      u.sent = u.size ∧ u.size = 3 := by decide
  obtain ⟨hsent, hsize⟩ := hfull t ht
  rw [hall hsent, hsize]
  decide

end Mouser
