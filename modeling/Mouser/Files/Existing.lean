import Mouser.Files.OneFile

/-!
# A file under a name that is taken

What is there under the name of a file goes into its digest. `existing_file_outcome` is what comes
of one file for every content that is there: a content that is longer than the file has the offer
rejected, and any other is continued with the rest of the source, so that the digest of the two
decides. Only a beginning of the source is continued to the source.
-/

namespace Mouser

/-! ## The transfer of one file -/

section

variable {Src : Type} [Sha256] [FileSource Src] [SourceContent Src] [LawfulFileSource Src]

/-- The receiver has reported the end of the transfer. -/
def Transfer.Over (t : Transfer Src FsSink Disk) : Prop :=
  ∃ r, t.receiver = some r ∧ r.doneEmitted = true

/-- The sender and the receiver of one file are in step: each channel carries just the steps by
which the party at its end is ahead, and the report once the file has its size. -/
inductive Resuming (config : ReceiverConfig) (path : OsStr) (existing source : List UInt8)
    (s₀ : Sender Src) : Transfer Src FsSink Disk → Prop where
  | offered {disk : Disk} (hdisk : disk.bytes path = existing) :
    Resuming config path existing source s₀ (.init s₀ disk)
  | answered {disk : Disk} {sink : FsSink} {acked : UInt64}
    (hw : Writes disk path (resumed existing source) sink acked)
    (hfrom : acked.toNat = existing.length) :
    Resuming config path existing source s₀
      ⟨s₀, some (receives config source s₀ sink acked).1, disk, [],
        .accept ⟨s₀.transferId, resumePoints 0 [acked]⟩ ::
          ((receives config source s₀ sink acked).2.map .done).toList⟩
  | running {s : Sender Src} {disk : Disk} {sink : FsSink} {acked : UInt64}
    {chunks : List FileChunk} {acks : List Outbound} (hsame : s₀.Same s)
    (haccepted : s.accepted = true) (hw : Writes disk path (resumed existing source) sink acked)
    (hfrom : existing.length ≤ acked.toNat)
    (hsends : Carries (Sends s₀.transferId s₀.sources) [acked] chunks s.sents)
    (hanswers : Carries (Answers s₀.transferId) s.ackeds acks [acked]) :
    Resuming config path existing source s₀
      ⟨s, some (receives config source s₀ sink acked).1, disk, chunks.map .chunk,
        acks ++ ((receives config source s₀ sink acked).2.map .done).toList⟩
  | ended {s : Sender Src} {disk : Disk} {sink : FsSink}
    (hw : Writes disk path (resumed existing source) sink (.ofNat source.length))
    (haccepted : s.accepted = true) (hall : ∀ t ∈ s.tracks, t.size ≤ t.sent ∧ t.size ≤ t.acked)
    (haborted : s.aborted = !continues existing source) :
    Resuming config path existing source s₀
      ⟨s, some (receives config source s₀ sink (.ofNat source.length)).1, disk, [], []⟩

variable {config : ReceiverConfig} {path : OsStr} {source existing : List UInt8} {s₀ : Sender Src}
  {t : Transfer Src FsSink Disk}

/-- What a step of the transfer does. -/
structure Advances (config : ReceiverConfig) (path : OsStr) (existing source : List UInt8)
    (s₀ : Sender Src) (t : Transfer Src FsSink Disk)
    (result : Transfer Src FsSink Disk × List Outbound) : Prop where
  resuming : Resuming config path existing source s₀ result.1
  less : result.1 = t ∨ result.1.toDo < t.toDo
  reports : ∀ d, .done d ∈ result.2 → d = ⟨s₀.transferId, continues existing source⟩
  ends : result.1.Over ↔
    t.Over ∨ .done ⟨s₀.transferId, continues existing source⟩ ∈ result.2

omit [FileSource Src] [LawfulFileSource Src] in
/-- A step that reports nothing and leaves the receiver as it is. -/
theorem Advances.quiet {t' : Transfer Src FsSink Disk}
    (h : Resuming config path existing source s₀ t') (hless : t' = t ∨ t'.toDo < t.toDo)
    (hreceiver : t'.receiver = t.receiver) :
    Advances config path existing source s₀ t (t', []) := by
  refine ⟨h, hless, nofun, ?_⟩
  rw [Transfer.Over, hreceiver]
  exact ⟨.inl, fun hover => hover.resolve_right nofun⟩

omit [FileSource Src] [LawfulFileSource Src] in
/-- A step that is not enabled. -/
theorem Resuming.idle (h : Resuming config path existing source s₀ t) :
    Advances config path existing source s₀ t (t, []) := .quiet h (.inl rfl) rfl

/-- A transfer that is over has stored what it was to store. -/
theorem Resuming.stored (h : OneFile config path source s₀)
    (hshort : existing.length ≤ source.length)
    (ht : Resuming config path existing source s₀ t) (hover : t.Over) :
    ∃ file, t.disk path = some file ∧ file.1 = resumed existing source := by
  have hheld : ∀ {disk : Disk} {sink : FsSink} {acked : UInt64},
      Writes disk path (resumed existing source) sink acked →
      (receives config source s₀ sink acked).1.doneEmitted = true →
      ∃ file, disk path = some file ∧ file.1 = resumed existing source := by
    intro disk sink acked hw hdone
    rcases h.receives_cases hshort hw with ⟨-, hgrowing⟩ | ⟨rfl, -⟩
    · rw [hgrowing] at hdone
      cases hdone
    · refine (hw.stored_eq ?_).2
      rw [length_resumed hshort, h.toNat_length]
  obtain ⟨r, hr, hdone⟩ := hover
  cases ht with
  | offered hdisk => cases hr
  | answered hw hfrom =>
    cases hr
    exact hheld hw hdone
  | running hsame haccepted hw hfrom hsends hanswers =>
    cases hr
    exact hheld hw hdone
  | ended hw haccepted hall haborted =>
    cases hr
    exact hheld hw hdone

omit [Sha256] [FileSource Src] [SourceContent Src] [LawfulFileSource Src] in
/-- A chunk of the one file. -/
theorem Sends.one {id x : UInt64} {b : View} {c : FileChunk} (h : Sends id [source] [x] c b) :
    c.fileIndex.toNat = 0 ∧ c.offset = x ∧ c.data <+: source.drop x.toNat ∧
      ∃ y : UInt64, b = [y] ∧ y.toNat = x.toNat + c.data.length ∧ y.toNat ≤ source.length := by
  obtain ⟨y, hy, rfl⟩ := h.stop
  have hoffset := h.offset_eq
  obtain ⟨hlt, hget⟩ := List.getElem?_eq_some_iff.1 hoffset
  have hindex : c.fileIndex.toNat = 0 := Nat.lt_one_iff.1 hlt
  simp only [hindex, List.getElem_cons_zero] at hget
  have hslice := h.slice source (by rw [hindex]; rfl)
  rw [← hget] at hy hslice
  have hlength := hslice.length_le
  rw [List.length_drop] at hlength
  have hpos := List.length_pos_iff.2 h.nonempty
  exact ⟨hindex, hget.symm, hslice, y, by rw [hindex]; rfl, hy, by omega⟩

/-- The transfer while the file goes across. -/
abbrev Transfer.sending (config : ReceiverConfig) (source : List UInt8) (s₀ s : Sender Src)
    (disk : Disk) (sink : FsSink) (acked : UInt64) (chunks : List FileChunk)
    (acks : List Outbound) : Transfer Src FsSink Disk :=
  ⟨s, some (receives config source s₀ sink acked).1, disk, chunks.map .chunk,
    acks ++ ((receives config source s₀ sink acked).2.map .done).toList⟩

theorem Resuming.poll (h : OneFile config path source s₀)
    (ht : Resuming config path existing source s₀ t) :
    Advances config path existing source s₀ t (t.stepOn config .poll) := by
  have hwaiting : s₀.pollChunk = (s₀, .ok none) := by
    rw [Sender.pollChunk, if_pos (by rw [h.waiting]; rfl)]
  have hidle : t.sender.pollChunk = (t.sender, .ok none) → t.stepOn config .poll = (t, []) := by
    intro hnone
    simp only [Transfer.stepOn, Transfer.poll, hnone]
  cases ht with
  | offered hdisk =>
    rw [hidle hwaiting]
    exact (Resuming.offered hdisk).idle
  | answered hw hfrom =>
    rw [hidle hwaiting]
    exact (Resuming.answered hw hfrom).idle
  | @running s disk sink acked chunks acks hsame haccepted hw hfrom hsends hanswers =>
    rcases (hsame.sound h.sound).poll haccepted with ⟨hnone, -⟩ |
      ⟨s', chunk, hsome, hsame', haccepted', hackeds, hsend⟩
    · rw [hidle hnone]
      exact (Resuming.running hsame haccepted hw hfrom hsends hanswers).idle
    · rw [hsame.id_eq, hsame.sources_eq] at hsend
      have hstep : (Transfer.sending config source s₀ s disk sink acked chunks acks).stepOn config
          .poll = (.sending config source s₀ s' disk sink acked (chunks ++ [chunk]) acks, []) := by
        simp only [Transfer.sending, Transfer.stepOn, Transfer.poll, hsome, List.map_append,
          List.map_singleton]
      rw [hstep]
      refine .quiet ?_ (.inr ?_) rfl
      · rw [← hackeds] at hanswers
        exact .running (hsame.trans hsame') haccepted' hw hfrom (hsends.concat hsend) hanswers
      · obtain ⟨track, htracks, hsize⟩ := h.same_track hsame
        obtain ⟨track', htracks', hsize'⟩ := h.same_track (hsame.trans hsame')
        rw [h.sources_eq, Sender.sents, Sender.sents, htracks, htracks'] at hsend
        simp only [List.map_cons, List.map_nil] at hsend
        obtain ⟨-, -, -, y, hy, hnext, hwithin⟩ := hsend.one
        obtain ⟨rfl, -⟩ := List.cons.inj hy
        have hpos := List.length_pos_iff.2 hsend.nonempty
        rw [@Transfer.toDo_eq _ _ track' htracks', @Transfer.toDo_eq _ _ track htracks]
        simp only [List.length_map, List.length_append, List.length_singleton]
        omega
  | @ended s disk sink hw haccepted hall haborted =>
    rw [hidle (Sender.pollChunk_sent fun t ht => (hall t ht).1)]
    exact (Resuming.ended hw haccepted hall haborted).idle

/-- The receiver takes the offer. -/
theorem Resuming.receive_offer {disk : Disk} (h : OneFile config path source s₀)
    (hshort : (disk.bytes path).length ≤ source.length) :
    Advances config path (disk.bytes path) source s₀ (.init s₀ disk)
      ((Transfer.init s₀ disk).stepOn config .receive) := by
  obtain ⟨disk', sink, acked, haccept, hw, hfrom⟩ := h.accepts hshort
  have hstep : (Transfer.init s₀ disk).stepOn config .receive =
      (⟨s₀, some (receives config source s₀ sink acked).1, disk', [],
        .accept ⟨s₀.transferId, resumePoints 0 [acked]⟩ ::
          ((receives config source s₀ sink acked).2.map .done).toList⟩,
        .accept ⟨s₀.transferId, resumePoints 0 [acked]⟩ ::
          ((receives config source s₀ sink acked).2.map .done).toList) := by
    simp only [Transfer.stepOn, Transfer.init, Transfer.receiveOn, Transfer.receive, haccept,
      List.nil_append]
  obtain ⟨hdone, htail, hlength⟩ := h.receives_done hshort hw
  rw [hstep]
  refine ⟨.answered hw hfrom, .inr ?_, ?_, ?_⟩
  · simp only [Transfer.toDo, Transfer.init, List.length_cons, List.length_nil]
    omega
  · intro d hd
    rcases List.mem_cons.1 hd with hd | hd
    · cases hd
    · exact Outbound.done.inj (htail _ hd)
  · have hnot : ¬ (Transfer.init (S := FsSink) s₀ disk).Over := by
      rintro ⟨r, hr, -⟩
      cases hr
    rw [or_iff_right hnot, List.mem_cons, or_iff_right (by simp), ← hdone]
    simp [Transfer.Over]

/-- The receiver takes the oldest chunk. -/
theorem Resuming.receive_chunk (h : OneFile config path source s₀)
    (hshort : existing.length ≤ source.length) {s : Sender Src} {disk : Disk} {sink : FsSink}
    {acked : UInt64} {c : FileChunk} {chunks : List FileChunk} {acks : List Outbound}
    (hsame : s₀.Same s) (haccepted : s.accepted = true)
    (hw : Writes disk path (resumed existing source) sink acked)
    (hfrom : existing.length ≤ acked.toNat)
    (hsends : Carries (Sends s₀.transferId s₀.sources) [acked] (c :: chunks) s.sents)
    (hanswers : Carries (Answers s₀.transferId) s.ackeds acks [acked]) :
    let t := Transfer.sending config source s₀ s disk sink acked (c :: chunks) acks
    Advances config path existing source s₀ t (t.stepOn config .receive) := by
  intro t
  obtain ⟨view, hsend, hsends⟩ := hsends.of_cons
  rw [h.sources_eq] at hsend
  obtain ⟨hindex, hoffset, hslice, y, rfl, hnext, hwithin⟩ := hsend.one
  have hpos := List.length_pos_iff.2 hsend.nonempty
  have hgrowing : receives config source s₀ sink acked =
      (.ofFile s₀.transferId config.quarantine (.ofNat source.length) (sha256 source) sink
        acked, none) := by
    rcases h.receives_cases hshort hw with ⟨-, hgrowing⟩ | ⟨hfull, -⟩
    · exact hgrowing
    · rw [← UInt64.toNat_inj, h.toNat_length] at hfull
      omega
  obtain ⟨disk', sink', hchunk, hw'⟩ := @Writes.onChunkOn _ s₀.transferId
    (.ofNat source.length) acked config.quarantine path (sha256 source) sink disk _ hw
    (by rw [h.toNat_length, length_resumed hshort]) c y hsend.id_eq hindex hoffset hsend.small
    hsend.nonempty (by rw [drop_resumed hfrom]; exact hslice) hnext
  obtain ⟨hdone, htail, hlength⟩ := h.receives_done hshort hw'
  have hstep : t.stepOn config .receive =
      (.sending config source s₀ s disk' sink' y chunks
          (acks ++ [.ack ⟨s₀.transferId, c.fileIndex, y⟩]),
        .ack ⟨s₀.transferId, c.fileIndex, y⟩ ::
          ((receives config source s₀ sink' y).2.map .done).toList) := by
    simp only [t, Transfer.sending, hgrowing]
    simp only [Transfer.stepOn, List.map_cons, Transfer.receiveOn, hchunk, sentBack, receives,
      Option.map_none, Option.toList_none, List.append_nil, List.append_assoc,
      List.singleton_append]
  rw [hstep]
  have hanswer : Answers s₀.transferId [acked] (.ack ⟨s₀.transferId, c.fileIndex, y⟩) [y] := by
    have hset : [acked].set c.fileIndex.toNat y = [y] := by rw [hindex, List.set_cons_zero]
    rw [← hset]
    refine @Answers.ack _ _ _ acked _ (by rw [hindex]; rfl) ?_
    rw [UInt64.le_iff_toNat_le, hnext]
    exact Nat.le_add_right _ _
  refine ⟨.running hsame haccepted hw' (by omega) hsends (hanswers.concat hanswer), .inr ?_, ?_,
    ?_⟩
  · simp only [t, hgrowing, Transfer.toDo, List.length_map, List.length_append, List.length_cons,
      List.length_nil, Option.map_none, Option.toList_none]
    omega
  · intro d hd
    rcases List.mem_cons.1 hd with hd | hd
    · cases hd
    · exact Outbound.done.inj (htail _ hd)
  · have hnot : ¬ t.Over := by
      rintro ⟨r, hr, hemitted⟩
      simp only [t, hgrowing] at hr
      cases hr
      cases hemitted
    rw [or_iff_right hnot, List.mem_cons, or_iff_right (by simp), ← hdone]
    simp [Transfer.Over]

theorem Resuming.receive (h : OneFile config path source s₀)
    (hshort : existing.length ≤ source.length)
    (ht : Resuming config path existing source s₀ t) :
    Advances config path existing source s₀ t (t.stepOn config .receive) := by
  cases ht with
  | offered hdisk =>
    subst hdisk
    exact receive_offer h hshort
  | answered hw hfrom => exact (Resuming.answered hw hfrom).idle
  | @running s disk sink acked chunks acks hsame haccepted hw hfrom hsends hanswers =>
    cases chunks with
    | nil => exact (Resuming.running hsame haccepted hw hfrom hsends hanswers).idle
    | cons c chunks => exact receive_chunk h hshort hsame haccepted hw hfrom hsends hanswers
  | ended hw haccepted hall haborted => exact (Resuming.ended hw haccepted hall haborted).idle

/-- A message that leaves what is sent as it is, or brings it further. -/
theorem toDo_answered {s s' : Sender Src} {r : Option (Receiver FsSink)} {disk : Disk}
    {inbox : List Inbound} {m : Outbound} {out : List Outbound} (h : OneFile config path source s₀)
    (hsame : s₀.Same s) (hsame' : s₀.Same s') (hsents : View.Behind s.sents s'.sents) :
    Transfer.toDo ⟨s', r, disk, inbox, out⟩ < Transfer.toDo ⟨s, r, disk, inbox, m :: out⟩ := by
  obtain ⟨track, htracks, hsize⟩ := h.same_track hsame
  obtain ⟨track', htracks', hsize'⟩ := h.same_track hsame'
  rw [Sender.sents, Sender.sents, htracks, htracks'] at hsents
  simp only [List.map_cons, List.map_nil] at hsents
  obtain ⟨x, hx, hle⟩ := hsents 0 track'.sent rfl
  cases hx
  rw [UInt64.le_iff_toNat_le] at hle
  rw [@Transfer.toDo_eq _ _ track' htracks', @Transfer.toDo_eq _ _ track htracks]
  simp only [List.length_cons]
  omega

/-- The sender resumes the file where what is there ends. -/
theorem Resuming.answer_accept (h : OneFile config path source s₀)
    (hshort : existing.length ≤ source.length) {disk : Disk} {sink : FsSink} {acked : UInt64}
    (hw : Writes disk path (resumed existing source) sink acked)
    (hfrom : acked.toNat = existing.length) :
    let t : Transfer Src FsSink Disk := .sending config source s₀ s₀ disk sink acked []
      [.accept ⟨s₀.transferId, resumePoints 0 [acked]⟩]
    Advances config path existing source s₀ t (t.stepOn config .answer) := by
  intro t
  obtain ⟨track, htracks, hsize⟩ := h.same_track (.refl s₀)
  have hstart : ∀ t ∈ s₀.tracks, t.sent = 0 ∧ t.acked = 0 := by
    obtain ⟨t, ht, hsent, hacked, -⟩ := h.track
    rw [ht]
    intro u hu
    cases List.mem_singleton.1 hu
    exact ⟨hsent, hacked⟩
  have hheld : ∀ (k : ℕ) (x : UInt64), [acked][k]? = some x →
      ∃ t, s₀.tracks[k]? = some t ∧ x ≤ t.size := by
    intro k x hx
    cases k with
    | succ k => cases hx
    | zero =>
      cases hx
      refine ⟨track, by rw [htracks]; rfl, ?_⟩
      rw [UInt64.le_iff_toNat_le]
      omega
  obtain ⟨s', haccept, hsame, haccepted, hsents, hackeds⟩ :=
    Sender.onAccept_resumes h.waiting hstart h.sound.length_lt (by rw [htracks]; rfl) hheld
  have hstep : t.stepOn config .answer =
      (.sending config source s₀ s' disk sink acked [] [], []) := by
    simp only [t, Transfer.sending, List.cons_append, Transfer.stepOn, Transfer.answer, haccept]
  rw [hstep]
  refine .quiet (.running hsame haccepted hw (by omega) ?_ ?_) (.inr ?_) rfl
  · rw [hsents]
    exact .nil _
  · rw [hackeds]
    exact .nil _
  · refine toDo_answered h (.refl s₀) hsame ?_
    intro i x hx
    obtain ⟨t, ht, -⟩ := hheld i x (hsents ▸ hx)
    refine ⟨0, ?_, UInt64.zero_le⟩
    rw [Sender.sents, List.getElem?_map, ht, Option.map_some,
      (hstart t (List.mem_of_getElem? ht)).1]

/-- The sender learns how the transfer has ended, or there is nothing to learn. -/
theorem Resuming.answer_done (h : OneFile config path source s₀)
    (hshort : existing.length ≤ source.length) {s : Sender Src} {disk : Disk} {sink : FsSink}
    {acked : UInt64} {chunks : List FileChunk} (hsame : s₀.Same s) (haccepted : s.accepted = true)
    (hw : Writes disk path (resumed existing source) sink acked)
    (hfrom : existing.length ≤ acked.toNat)
    (hsends : Carries (Sends s₀.transferId s₀.sources) [acked] chunks s.sents)
    (hanswers : Carries (Answers s₀.transferId) s.ackeds [] [acked]) :
    let t := Transfer.sending config source s₀ s disk sink acked chunks []
    Advances config path existing source s₀ t (t.stepOn config .answer) := by
  intro t
  obtain ⟨track, htracks, hsize⟩ := h.same_track hsame
  have hwithin := hw.within
  rw [length_resumed hshort] at hwithin
  rw [carries_nil] at hanswers
  rcases h.receives_cases hshort hw with ⟨-, hgrowing⟩ | ⟨rfl, hfinished⟩
  · have ht := @Resuming.running _ _ _ config _ _ _ _ _ _ _ _ _ [] hsame haccepted hw hfrom
      hsends (carries_nil.2 hanswers)
    have hstep : t.stepOn config .answer = (t, []) := by
      simp only [t, Transfer.sending, hgrowing, Option.map_none, Option.toList_none,
        List.append_nil, Transfer.stepOn]
    rw [hstep]
    exact ht.idle
  · obtain rfl : chunks = [] := by
      cases chunks with
      | nil => rfl
      | cons c chunks =>
        obtain ⟨view, hsend, -⟩ := hsends.of_cons
        rw [h.sources_eq] at hsend
        obtain ⟨-, -, -, y, -, hnext, hy⟩ := hsend.one
        have hpos := List.length_pos_iff.2 hsend.nonempty
        rw [h.toNat_length] at hnext
        omega
    rw [carries_nil] at hsends
    have hstep : t.stepOn config .answer =
        (⟨{ s with aborted := !continues existing source },
          some (receives config source s₀ sink (.ofNat source.length)).1, disk, [], []⟩,
          []) := by
      have hdone := Sender.onDone_running (hsame.sound h.sound).running
        (continues existing source)
      simp only [t, hfinished, ← hsame.id_eq, Transfer.stepOn, Transfer.answer, List.map_nil,
        List.nil_append, Option.map_some, Option.toList_some, hdone]
    rw [hstep]
    refine .quiet (.ended hw haccepted ?_ rfl) (.inr ?_) rfl
    · rw [Sender.sents, htracks, List.map_singleton] at hsends
      rw [Sender.ackeds, htracks, List.map_singleton] at hanswers
      obtain ⟨hsent, -⟩ := List.cons.inj hsends
      obtain ⟨hacked, -⟩ := List.cons.inj hanswers
      have hfull : track.size = .ofNat source.length := by
        rw [← UInt64.toNat_inj, hsize, h.toNat_length]
      intro t ht
      rw [show t = track from List.mem_singleton.1 (htracks ▸ ht), hacked, ← hsent, hfull]
      exact ⟨UInt64.le_refl _, UInt64.le_refl _⟩
    · simp [t, hfinished, Transfer.toDo]

/-- The sender takes the oldest answer to a chunk. -/
theorem Resuming.answer_chunk (h : OneFile config path source s₀)
    (hshort : existing.length ≤ source.length) {s : Sender Src} {disk : Disk} {sink : FsSink}
    {acked : UInt64} {chunks : List FileChunk} {m : Outbound} {acks : List Outbound}
    (hsame : s₀.Same s) (haccepted : s.accepted = true)
    (hw : Writes disk path (resumed existing source) sink acked)
    (hfrom : existing.length ≤ acked.toNat)
    (hsends : Carries (Sends s₀.transferId s₀.sources) [acked] chunks s.sents)
    (hanswers : Carries (Answers s₀.transferId) s.ackeds (m :: acks) [acked]) :
    let t := Transfer.sending config source s₀ s disk sink acked chunks (m :: acks)
    Advances config path existing source s₀ t (t.stepOn config .answer) := by
  intro t
  obtain ⟨track, htracks, hsize⟩ := h.same_track hsame
  have hwithin := hw.within
  rw [length_resumed hshort] at hwithin
  obtain ⟨view, hanswer, hanswers'⟩ := hanswers.of_cons
  rw [← hsame.id_eq] at hanswer
  cases m with
  | accept m => cases hanswer
  | reject m => cases hanswer
  | done m =>
    cases hanswer
    have hstep : t.stepOn config .answer =
        (.sending config source s₀ s disk sink acked chunks acks, []) := by
      simp [t, Transfer.stepOn, Transfer.answer, Sender.onDone]
    rw [hstep]
    refine .quiet (.running hsame haccepted hw hfrom hsends hanswers') (.inr ?_) rfl
    exact toDo_answered h hsame hsame (.refl _)
  | ack m =>
    -- The ack is of what the receiver held when it sent it, which is behind what it holds now.
    have hbehind : View.Behind view [acked] :=
      hanswers'.rel View.Behind.refl (fun _ _ _ => .trans) fun _ _ _ => Answers.behind
    have hsents : View.Behind [acked] s.sents :=
      hsends.rel View.Behind.refl (fun _ _ _ => .trans) fun _ _ _ => Sends.behind
    have hsizes : View.Behind [acked] (s.tracks.map (·.size)) := by
      rw [htracks]
      refine View.Behind.set (i := 0) (x := acked) (a := [acked]) rfl ?_
      rw [UInt64.le_iff_toNat_le]
      show acked.toNat ≤ track.size.toNat
      omega
    obtain ⟨s', hack, hsame', haccepted', rfl, hsents'⟩ :=
      Sender.onAck_answers haccepted hanswer (hbehind.trans hsents) (hbehind.trans hsizes)
    have hstep : t.stepOn config .answer =
        (.sending config source s₀ s' disk sink acked chunks acks, []) := by
      simp only [t, Transfer.sending, Transfer.stepOn, Transfer.answer, hack, List.cons_append]
    rw [hstep]
    refine .quiet ?_ (.inr ?_) rfl
    · rw [← hsents'] at hsends
      exact .running (hsame.trans hsame') haccepted' hw hfrom hsends hanswers'
    · refine toDo_answered h hsame (hsame.trans hsame') ?_
      rw [hsents']
      exact .refl _

theorem Resuming.answer (h : OneFile config path source s₀)
    (hshort : existing.length ≤ source.length)
    (ht : Resuming config path existing source s₀ t) :
    Advances config path existing source s₀ t (t.stepOn config .answer) := by
  cases ht with
  | offered hdisk => exact (Resuming.offered hdisk).idle
  | answered hw hfrom => exact answer_accept h hshort hw hfrom
  | @running s disk sink acked chunks acks hsame haccepted hw hfrom hsends hanswers =>
    cases acks with
    | nil => exact answer_done h hshort hsame haccepted hw hfrom hsends hanswers
    | cons m acks => exact answer_chunk h hshort hsame haccepted hw hfrom hsends hanswers
  | ended hw haccepted hall haborted => exact (Resuming.ended hw haccepted hall haborted).idle

theorem Resuming.step (h : OneFile config path source s₀) (hshort : existing.length ≤ source.length)
    (ht : Resuming config path existing source s₀ t) (event : TransferEvent) :
    Advances config path existing source s₀ t (t.stepOn config event) := by
  cases event with
  | poll => exact ht.poll h
  | receive => exact ht.receive h hshort
  | answer => exact ht.answer h hshort

omit [SourceContent Src] [LawfulFileSource Src] in
/-- A transfer in which nothing more happens has empty channels, and polls nothing. -/
theorem Transfer.of_rests (h : (machineOn config).Rests t) :
    t.toReceiver = [] ∧ t.toSender = [] ∧
      ∀ s' chunk, t.sender.pollChunk ≠ (s', .ok (some chunk)) := by
  obtain ⟨s, r, disk, inbox, out⟩ := t
  refine ⟨?_, ?_, ?_⟩
  · have hreceive := congrArg Transfer.toReceiver (h .receive)
    cases inbox with
    | nil => rfl
    | cons m inbox =>
      exfalso
      refine List.cons_ne_self m inbox (hreceive.symm.trans ?_)
      show ((Transfer.mk s r disk inbox out).receiveOn config m).1.toReceiver = inbox
      cases m with
      | offer m =>
        simp only [receiveOn, receive]
        split <;> rfl
      | chunk m =>
        simp only [receiveOn]
        split <;> rfl
  · have hanswer := congrArg Transfer.toSender (h .answer)
    cases out with
    | nil => rfl
    | cons m out =>
      exfalso
      refine List.cons_ne_self m out (hanswer.symm.trans ?_)
      show ((Transfer.mk s r disk inbox out).answer m).toSender = out
      cases m <;> rfl
  · intro s' chunk hsome
    have hpoll := congrArg Transfer.toReceiver (h .poll)
    simp only [machineOn, stepOn, poll, hsome, List.append_right_eq_self] at hpoll
    cases hpoll

/-- A transfer in which nothing more happens is at its end. -/
theorem Resuming.of_rests (h : OneFile config path source s₀)
    (hshort : existing.length ≤ source.length)
    (ht : Resuming config path existing source s₀ t)
    (hrests : (Transfer.machineOn config).Rests t) :
    t.Over ∧ t.sender.aborted = !continues existing source ∧
      t.sender.isComplete = continues existing source := by
  obtain ⟨hin, hout, hpoll⟩ := Transfer.of_rests hrests
  cases ht with
  | offered hdisk => cases hin
  | answered hw hfrom => cases hout
  | @running s disk sink acked chunks acks hsame haccepted hw hfrom hsends hanswers =>
    exfalso
    dsimp only at hin hout hpoll
    rw [List.map_eq_nil_iff] at hin
    rw [List.append_eq_nil_iff] at hout
    obtain ⟨rfl, htail⟩ := hout
    subst hin
    rw [carries_nil] at hsends hanswers
    rcases h.receives_cases hshort hw with ⟨hlt, -⟩ | ⟨-, hfinished⟩
    · obtain ⟨track, htracks, hsize⟩ := h.same_track hsame
      rw [Sender.sents, htracks, List.map_singleton] at hsends
      rw [Sender.ackeds, htracks, List.map_singleton] at hanswers
      obtain ⟨hsent, -⟩ := List.cons.inj hsends
      obtain ⟨hacked, -⟩ := List.cons.inj hanswers
      rcases (hsame.sound h.sound).poll haccepted with ⟨-, hidle⟩ | ⟨s', chunk, hsome, -⟩
      · rcases hidle track (htracks ▸ .head _) with hall | hwindow
        · rw [UInt64.le_iff_toNat_le, ← hsent] at hall
          omega
        · rw [hacked, ← hsent, UInt64.le_iff_toNat_le, UInt64.toNat_saturatingSub,
            Nat.sub_self] at hwindow
          exact absurd hwindow (by decide)
      · exact hpoll s' chunk hsome
    · rw [hfinished] at htail
      cases htail
  | @ended s disk sink hw haccepted hall haborted =>
    refine ⟨⟨_, rfl, ?_⟩, haborted, ?_⟩
    · rcases h.receives_cases hshort hw with ⟨hlt, -⟩ | ⟨-, hfinished⟩
      · rw [h.toNat_length] at hlt
        exact absurd hlt (Nat.lt_irrefl _)
      · rw [hfinished, Receiver.finished]
        dsimp only
        split <;> rfl
    · have hacked : s.tracks.all (fun t => t.size ≤ t.acked) = true := by
        rw [List.all_eq_true]
        intro t ht
        exact decide_eq_true (hall t ht).2
      rw [Sender.isComplete, haborted, hacked, Bool.not_not, Bool.and_true]

/-! ## How a transfer ends -/

/-- Every run of the transfer reports `ok` at most, with the file stored as `stored`, and every fair
run comes to this report and to its end. -/
structure EndsWith (config : ReceiverConfig) (path : OsStr) (s : Sender Src) (disk : Disk)
    (ok : Bool) (stored : List UInt8) : Prop where
  reported : ∀ events, ∀ e ∈ (Transfer.machineOn config).trace (.init s disk) events,
    ∀ d, .done d ∈ e.output → d = ⟨s.transferId, ok⟩ ∧ ∃ file,
      ((Transfer.machineOn config).exec (.init s disk) events).disk path = some file ∧
        file.1 = stored
  ends : ∀ schedule, Fair schedule → ∃ n t,
    (Transfer.machineOn config).exec (.init s disk) (inputs schedule n) = t ∧
    (∃ e ∈ (Transfer.machineOn config).trace (.init s disk) (inputs schedule n),
      .done ⟨s.transferId, ok⟩ ∈ e.output) ∧
    t.toReceiver = [] ∧ t.toSender = [] ∧ t.sender.aborted = !ok ∧ t.sender.isComplete = ok

/-- Every run of the transfer leaves the disk as it is, and sends nothing back but a rejection,
which every fair run comes to. -/
structure EndsRejected (config : ReceiverConfig) (s : Sender Src) (disk : Disk) : Prop where
  unchanged : ∀ events, ((Transfer.machineOn config).exec (.init s disk) events).disk = disk
  rejected : ∀ events, ∀ e ∈ (Transfer.machineOn config).trace (.init s disk) events,
    ∀ m ∈ e.output, ∃ reason, m = .reject ⟨s.transferId, reason⟩
  ends : ∀ schedule, Fair schedule → ∃ n reason,
    ∃ e ∈ (Transfer.machineOn config).trace (.init s disk) (inputs schedule n),
      .reject ⟨s.transferId, reason⟩ ∈ e.output

/-- **The run lemma of a file that is continued.** -/
theorem OneFile.endsWith {disk : Disk} (h : OneFile config path source s₀)
    (hshort : (disk.bytes path).length ≤ source.length) :
    EndsWith config path s₀ disk (continues (disk.bytes path) source)
      (resumed (disk.bytes path) source) := by
  have hrun : ∀ events, Resuming config path (disk.bytes path) source s₀
        ((Transfer.machineOn config).exec (.init s₀ disk) events) ∧
      (∀ e ∈ (Transfer.machineOn config).trace (.init s₀ disk) events, ∀ d, .done d ∈ e.output →
        d = ⟨s₀.transferId, continues (disk.bytes path) source⟩) ∧
      (((Transfer.machineOn config).exec (.init s₀ disk) events).Over ↔
        ∃ e ∈ (Transfer.machineOn config).trace (.init s₀ disk) events,
          .done ⟨s₀.transferId, continues (disk.bytes path) source⟩ ∈ e.output) := by
    intro events
    refine (Transfer.machineOn config).induct (G := fun _ => True) (P := fun tr t =>
      Resuming config path (disk.bytes path) source s₀ t ∧
      (∀ e ∈ tr, ∀ d, .done d ∈ e.output →
        d = ⟨s₀.transferId, continues (disk.bytes path) source⟩) ∧
      (t.Over ↔ ∃ e ∈ tr,
        .done ⟨s₀.transferId, continues (disk.bytes path) source⟩ ∈ e.output))
      ⟨.offered rfl, fun _ he => absurd he List.not_mem_nil, ?_⟩ ?_ events fun _ _ => trivial
    · refine ⟨?_, ?_⟩
      · rintro ⟨r, hr, -⟩
        cases hr
      · rintro ⟨e, he, -⟩
        cases he
    · rintro tr t event ⟨ht, hreports, hover⟩ -
      have hstep := ht.step h hshort event
      refine ⟨hstep.resuming, ?_, ?_⟩
      · intro e he d hd
        rcases List.mem_append.1 he with he | he
        · exact hreports e he d hd
        · cases List.mem_singleton.1 he
          exact hstep.reports d hd
      · refine hstep.ends.trans ?_
        rw [hover]
        simp only [List.mem_append, List.mem_singleton, or_and_right, exists_or, exists_eq_left]
        rfl
  refine ⟨?_, ?_⟩
  · intro events e he d hd
    obtain ⟨hresuming, hreports, hover⟩ := hrun events
    obtain rfl := hreports e he d hd
    exact ⟨rfl, hresuming.stored h hshort (hover.2 ⟨e, he, hd⟩)⟩
  · intro schedule hfair
    obtain ⟨n, hrests⟩ := Machine.rests_of_fair (M := Transfer.machineOn config)
      (I := Resuming config path (disk.bytes path) source s₀) (m := Transfer.toDo)
      (s := .init s₀ disk) (.offered rfl) (fun t event ht => (ht.step h hshort event).resuming)
      (fun t event ht => (ht.step h hshort event).less) hfair
    obtain ⟨hresuming, -, hover⟩ := hrun (inputs schedule n)
    obtain ⟨hin, hout, -⟩ := Transfer.of_rests hrests
    obtain ⟨hended, haborted, hcomplete⟩ := hresuming.of_rests h hshort hrests
    exact ⟨n, _, rfl, hover.1 hended, hin, hout, haborted, hcomplete⟩

/-- The offer is on its way, or has been rejected. -/
inductive Rejecting (s₀ : Sender Src) (disk : Disk) : Transfer Src FsSink Disk → Prop where
  | offered : Rejecting s₀ disk (.init s₀ disk)
  | rejected {r : Receiver FsSink} {out : List Outbound}
    (hout : ∀ m ∈ out, ∃ reason, m = .reject reason) :
    Rejecting s₀ disk ⟨s₀, some r, disk, [], out⟩

omit [Sha256] [SourceContent Src] [LawfulFileSource Src] [FileSource Src] in
theorem Rejecting.disk_eq [FileSource Src] {disk : Disk} (ht : Rejecting s₀ disk t) :
    t.disk = disk := by
  cases ht <;> rfl

/-- The step of an offer that is rejected: the offer is on its way until it is, and nothing else is
sent back. -/
theorem Rejecting.step {disk : Disk} (h : OneFile config path source s₀)
    (hlong : source.length < (disk.bytes path).length) (ht : Rejecting s₀ disk t)
    (event : TransferEvent) :
    Rejecting s₀ disk (t.stepOn config event).1 ∧
      (∀ m ∈ (t.stepOn config event).2, ∃ reason, m = .reject ⟨s₀.transferId, reason⟩) ∧
      (t = .init s₀ disk → (t.stepOn config event).1 = .init s₀ disk ∧ event ≠ .receive ∨
        ∃ reason, .reject ⟨s₀.transferId, reason⟩ ∈ (t.stepOn config event).2) := by
  have hwaiting : s₀.pollChunk = (s₀, .ok none) := by
    rw [Sender.pollChunk, if_pos (by rw [h.waiting]; rfl)]
  cases ht with
  | offered =>
    cases event with
    | poll =>
      have hstep : (Transfer.init s₀ disk).stepOn config .poll = (.init s₀ disk, []) := by
        simp only [Transfer.stepOn, Transfer.poll, Transfer.init, hwaiting]
      rw [hstep]
      exact ⟨.offered, by simp, fun _ => .inl ⟨rfl, by simp⟩⟩
    | answer =>
      refine ⟨.offered, ?_, fun _ => .inl ⟨rfl, by simp⟩⟩
      intro m hm
      cases hm
    | receive =>
      obtain ⟨reason, hreject⟩ := h.rejects hlong
      have hstep : (Transfer.init s₀ disk).stepOn config .receive =
          (⟨s₀, some (.rejected s₀.transferId config.quarantine), disk, [],
            [.reject ⟨s₀.transferId, reason⟩]⟩, [.reject ⟨s₀.transferId, reason⟩]) := by
        simp only [Transfer.stepOn, Transfer.init, Transfer.receiveOn, Transfer.receive, hreject,
          List.nil_append]
      rw [hstep]
      refine ⟨.rejected ?_, ?_, fun _ => .inr ⟨reason, .head _⟩⟩
      · intro m hm
        exact ⟨_, List.mem_singleton.1 hm⟩
      · intro m hm
        exact ⟨reason, List.mem_singleton.1 hm⟩
  | @rejected r out hout =>
    refine ⟨?_, ?_, ?_⟩
    · cases event with
      | poll =>
        simp only [Transfer.stepOn, Transfer.poll, hwaiting]
        exact .rejected hout
      | receive => exact .rejected hout
      | answer =>
        cases out with
        | nil => exact .rejected hout
        | cons m out =>
          obtain ⟨reason, rfl⟩ := hout m (.head _)
          exact .rejected fun m hm => hout m (.tail _ hm)
    · cases event with
      | poll | receive =>
        intro m hm
        cases hm
      | answer => cases out <;> rintro m ⟨⟩
    · intro hinit
      cases hinit

/-- **The run lemma of a file that holds too much.** -/
theorem OneFile.endsRejected {disk : Disk} (h : OneFile config path source s₀)
    (hlong : source.length < (disk.bytes path).length) : EndsRejected config s₀ disk := by
  have hrun : ∀ events,
      Rejecting s₀ disk ((Transfer.machineOn config).exec (.init s₀ disk) events) := fun events =>
    (Transfer.machineOn config).inv_exec .offered (fun t event ht => (ht.step h hlong event).1)
      events
  refine ⟨fun events => (hrun events).disk_eq, ?_, ?_⟩
  · intro events e he m hm
    obtain ⟨js, event, ks, -, rfl⟩ := (Transfer.machineOn config).mem_trace_iff.1 he
    exact ((hrun js).step h hlong event).2.1 m hm
  · intro schedule hfair
    -- The offer waits until it is received, and is rejected then.
    have hwaits : ∀ n, (Transfer.machineOn config).exec (.init s₀ disk) (inputs schedule n) =
          .init s₀ disk ∨ ∃ reason,
        ∃ e ∈ (Transfer.machineOn config).trace (.init s₀ disk) (inputs schedule n),
          .reject ⟨s₀.transferId, reason⟩ ∈ e.output := by
      intro n
      induction n with
      | zero => exact .inl rfl
      | succ n ih =>
        rw [inputs_succ, Machine.exec_concat, Machine.trace_concat]
        rcases ih with hinit | ⟨reason, e, he, hout⟩
        · rcases ((hrun _).step h hlong (schedule n)).2.2 hinit with ⟨hsame, -⟩ | ⟨reason, hout⟩
          · exact .inl hsame
          · exact .inr ⟨reason, _, List.mem_append_right _ (.head _), hout⟩
        · exact .inr ⟨reason, e, List.mem_append_left _ he, hout⟩
    obtain ⟨n, -, hn⟩ := hfair .receive 0
    refine ⟨n + 1, ?_⟩
    rw [inputs_succ, Machine.trace_concat]
    rcases hwaits n with hinit | ⟨reason, e, he, hout⟩
    · rcases ((hrun _).step h hlong (schedule n)).2.2 hinit with ⟨-, hnot⟩ | ⟨reason, hout⟩
      · exact absurd hn hnot
      · exact ⟨reason, _, List.mem_append_right _ (.head _), hout⟩
    · exact ⟨reason, e, List.mem_append_left _ he, hout⟩

end

/-- **What comes of a file, whatever there is under its name.** -/
theorem existing_file_outcome {Src : Type} [Sha256] [FileSource Src] [SourceContent Src]
    [LawfulFileSource Src] (transferId : UInt64) (name : String) (src : Src) (n : ℕ)
    (s₁ s : Sender Src)
    (hnew : Sender.newWithHashes transferId [(name, src, some (sha256 (bytes src)))] = .ok s₁)
    (hchunk : s₁.withChunkSize n = .ok s) (config : ReceiverConfig) (path : OsStr)
    (hlimits : checkLimits s.offer config = none)
    (hvalid : validateEntries config 0 s.offer.files =
      .ok (.ok [(path, some (sha256 (bytes src)))])) (disk : Disk) :
    ((bytes src).length < (disk.bytes path).length → EndsRejected config s disk) ∧
    ((disk.bytes path).length ≤ (bytes src).length →
      EndsWith config path s disk (continues (disk.bytes path) (bytes src))
        (resumed (disk.bytes path) (bytes src))) ∧
    (disk.bytes path <+: bytes src → EndsWith config path s disk true (bytes src)) := by
  obtain ⟨hsound, -, hwaiting, hstart, htracks⟩ := Sender.start_of_new hnew hchunk
  have h : OneFile config path (bytes src) s := by
    refine ⟨hsound, hwaiting, ⟨_, htracks, ?_, ?_, rfl⟩, hlimits, hvalid⟩ <;> rfl
  refine ⟨h.endsRejected, h.endsWith, ?_⟩
  intro hbeginning
  have hends := h.endsWith hbeginning.length_le
  rw [continues, resumed_eq hbeginning, decide_eq_true rfl] at hends
  exact hends

section

/-- The digest of `xyz`. -/
def Hash.ofXyz : Hash where
  bytes :=
    [0x36, 0x08, 0xbc, 0xa1, 0xe4, 0x4e, 0xa6, 0xc4, 0xd2, 0x68, 0xeb, 0x6d, 0xb0, 0x22, 0x60, 0x26,
     0x98, 0x92, 0xc0, 0xb4, 0x2b, 0x86, 0xbb, 0xf1, 0xe7, 0x7a, 0x6f, 0xa1, 0x6c, 0x3c, 0x92, 0x82]
  length_eq := rfl

/-- The digests of `abc` and of `xyz`. -/
@[reducible] def Sha256.abcXyz : Sha256 :=
  .ofTable [([97, 98, 99], .ofAbc), ([120, 121, 122], .ofXyz)] .ofEmpty

attribute [local instance] Sha256.abcXyz

/-- The disk of a receiver that holds `xyz` under the name of the file. -/
def takenDisk : Disk :=
  Function.update emptyDisk (OsStr.new "/quarantine/a.txt") (some ⟨[120, 121, 122], by decide⟩)

theorem existing_file_outcome_abc :
    EndsWith quarantineConfig (OsStr.new "/quarantine/a.txt") abcSender emptyDisk true
      [97, 98, 99] :=
  (existing_file_outcome 7 "a.txt" (⟨[97, 98, 99], length_abc_lt⟩ : MemSource) 2
    { abcSender with chunkSize := defaultChunkSize } abcSender rfl rfl quarantineConfig
    (OsStr.new "/quarantine/a.txt") (by decide +kernel) (by decide +kernel) emptyDisk).2.2
    List.nil_prefix

/-- A file that holds `xyz` is not made into `abc`: the transfer is reported as failed. -/
theorem other_content_failed :
    ¬ EndsWith quarantineConfig (OsStr.new "/quarantine/a.txt") abcSender takenDisk true
      [97, 98, 99] := by
  have hplans : validateEntries quarantineConfig 0 abcSender.offer.files =
      .ok (.ok [(OsStr.new "/quarantine/a.txt", some .ofAbc)]) := by decide +kernel
  have hlimits : checkLimits abcSender.offer quarantineConfig = none := by decide +kernel
  have haccept : ∃ disk r, acceptOffer FsSink.openReceiveSink abcSender.offer quarantineConfig
      takenDisk = .ok (disk, .ok (r, [.accept ⟨7, [⟨0, 3⟩]⟩, .done ⟨7, false⟩])) := by
    unfold acceptOffer
    rw [if_neg (by decide), hlimits]
    dsimp only
    rw [hplans]
    exact ⟨_, _, rfl⟩
  obtain ⟨disk, r, haccept⟩ := haccept
  intro h
  have hout : .done ⟨7, false⟩ ∈ ((Transfer.machineOn quarantineConfig).entry
      (.init abcSender takenDisk) .receive).output := by
    simp [Transfer.machineOn, Transfer.stepOn, Transfer.init, Transfer.receiveOn, Transfer.receive,
      haccept]
  cases (h.reported [.receive] _ (.head _) _ hout).1

end

end Mouser
