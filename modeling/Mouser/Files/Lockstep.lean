import Mathlib.Data.List.Infix
import Mouser.Files.Hostile
import Mouser.Files.Sender
import Mouser.Lib.Channel

/-!
# Sender and receiver in step

How far each file has got is a `View`. A chunk is a step from the view of a party that has not seen
it to that of one that has (`Sends`), and so is what the receiver sends back (`Answers`). The
receiver of an honest sender follows each chunk that is carried next, and the sender each answer.
-/

namespace Mouser

/-! ## What the channels carry -/

/-- How far each file has got. -/
abbrev View := List UInt64

/-- A chunk of one of the `sources`, by which its file gets further. -/
structure Sends (transferId : UInt64) (sources : List (List UInt8)) (a : View) (c : FileChunk)
    (b : View) : Prop where
  id_eq : c.transferId = transferId
  nonempty : c.data ≠ []
  small : c.data.length ≤ maxChunkSize
  offset_eq : a[c.fileIndex.toNat]? = some c.offset
  slice : ∀ source, sources[c.fileIndex.toNat]? = some source →
    c.data <+: source.drop c.offset.toNat
  stop : ∃ stop : UInt64, stop.toNat = c.offset.toNat + c.data.length ∧
    b = a.set c.fileIndex.toNat stop

/-- What the receiver sends back for a chunk: an ack, by which its file gets further, or the word
that all files have been received. -/
inductive Answers (transferId : UInt64) (a : View) : Outbound → View → Prop where
  | ack {i : UInt32} {acked stop : UInt64} (hacked : a[i.toNat]? = some acked)
    (hle : acked ≤ stop) :
    Answers transferId a (.ack ⟨transferId, i, stop⟩) (a.set i.toNat stop)
  | done : Answers transferId a (.done ⟨transferId, true⟩) a

/-- No file is further in `a` than in `b`. -/
def View.Behind (a b : View) : Prop :=
  ∀ (i : ℕ) (y : UInt64), b[i]? = some y → ∃ x, a[i]? = some x ∧ x ≤ y

namespace View.Behind

theorem refl (a : View) : a.Behind a := fun _ y hy => ⟨y, hy, UInt64.le_refl y⟩

theorem trans {a b c : View} (h : a.Behind b) (h' : b.Behind c) : a.Behind c := by
  intro i z hz
  obtain ⟨y, hy, hyz⟩ := h' i z hz
  obtain ⟨x, hx, hxy⟩ := h i y hy
  exact ⟨x, hx, UInt64.le_trans hxy hyz⟩

theorem set {a : View} {i : ℕ} {x y : UInt64} (hx : a[i]? = some x) (hle : x ≤ y) :
    a.Behind (a.set i y) := by
  intro j z hz
  rw [List.getElem?_set] at hz
  split at hz
  · next hij =>
    split at hz
    · cases hz
      exact ⟨x, hij ▸ hx, hle⟩
    · cases hz
  · exact ⟨z, hz, UInt64.le_refl z⟩

end View.Behind

theorem Sends.behind {transferId : UInt64} {sources : List (List UInt8)} {a b : View}
    {c : FileChunk} (h : Sends transferId sources a c b) : a.Behind b := by
  obtain ⟨stop, hstop, rfl⟩ := h.stop
  refine .set h.offset_eq ?_
  rw [UInt64.le_iff_toNat_le, hstop]
  exact Nat.le_add_right _ _

theorem Answers.behind {transferId : UInt64} {a b : View} {m : Outbound}
    (h : Answers transferId a m b) : a.Behind b := by
  cases h with
  | ack hacked hle => exact .set hacked hle
  | done => exact .refl a

/-! ## The receiver of an honest sender -/

section

variable {S : Type} [Sha256] [FileSink S] [SinkContent S]

/-- The receiver holds a prefix of each source, and expects of it what it is. -/
structure Receiver.Follows (r : Receiver S) (sources : List (List UInt8)) : Prop where
  good : ∀ slot ∈ r.slots, Good slot
  running : r.aborted = false
  length_eq : r.slots.length = sources.length
  file : ∀ (i : ℕ) (slot : Slot S) (source : List UInt8), r.slots[i]? = some slot →
    sources[i]? = some source → content slot.sink <+: source ∧
      slot.size.toNat = source.length ∧
      ∀ digest, slot.expected = some digest → digest = sha256 source

namespace Receiver.Follows

variable {r : Receiver S} {sources : List (List UInt8)}

omit [FileSink S] in
theorem source (h : r.Follows sources) {i : ℕ} {slot : Slot S} (hslot : r.slots[i]? = some slot) :
    ∃ source, sources[i]? = some source := by
  obtain ⟨hlt, -⟩ := List.getElem?_eq_some_iff.1 hslot
  exact ⟨_, List.getElem?_eq_getElem (h.length_eq ▸ hlt)⟩

omit [FileSink S] in
/-- A file that has its size is its source. -/
theorem content_eq (h : r.Follows sources) {i : ℕ} {slot : Slot S} {source : List UInt8}
    (hslot : r.slots[i]? = some slot) (hsource : sources[i]? = some source)
    (hfull : slot.size ≤ slot.acked) : content slot.sink = source := by
  obtain ⟨hslice, hsize, -⟩ := h.file i slot source hslot hsource
  have hgood := h.good slot (List.mem_of_getElem? hslot)
  refine hslice.eq_of_length_le ?_
  rw [hgood.held, ← hsize]
  exact UInt64.le_iff_toNat_le.1 hfull

omit [FileSink S] in
theorem contents_eq (h : r.Follows sources) (hall : ∀ slot ∈ r.slots, slot.size ≤ slot.acked) :
    r.contents = sources := by
  refine List.ext_getElem (by rw [contents, List.length_map, h.length_eq]) ?_
  intro i hi hi'
  rw [contents, List.length_map] at hi
  simp only [contents, List.getElem_map]
  exact h.content_eq (List.getElem?_eq_getElem hi) (List.getElem?_eq_getElem hi')
    (hall _ (List.getElem_mem hi))

variable [LawfulFileSink S] [FaultlessSink S]

/-- No file of an honest sender fails. -/
theorem finalize_ok (h : r.Follows sources) : (finalizeSlots r.slots).2 = true := by
  refine finalizeSlots_ok ?_
  intro slot hslot _ hfull
  obtain ⟨i, hi⟩ := List.mem_iff_getElem?.1 hslot
  obtain ⟨source, hsource⟩ := h.source hi
  obtain ⟨digest, hfinish⟩ := FaultlessSink.finish_ok slot.sink
  refine ⟨digest, hfinish, ?_⟩
  intro expected hexpected
  obtain ⟨-, -, hdigest⟩ := h.file i slot source hi hsource
  rw [hdigest expected hexpected, ← h.content_eq hi hsource hfull]
  exact (LawfulFileSink.finish_digest _ _ _ (Prod.ext rfl hfinish)).symm

/-- Finishing the files keeps them, and reports no failure. -/
theorem finalize (h : r.Follows sources) {r' : Receiver S} {done : Option FileDone}
    (hfinalize : r.finalizeCompletedFiles = (r', done)) :
    r'.Follows sources ∧
      (done = none ∨ done = some ⟨r.transferId, true⟩ ∧ r'.contents = sources) := by
  have hfinal := finalized hfinalize
  have hrunning : r'.aborted = false := by
    have haborted := aborted_finalize h.finalize_ok
    rw [hfinalize] at haborted
    rw [haborted, h.running]
  have hfollows : r'.Follows sources := by
    refine ⟨hfinal.good h.good, hrunning, by rw [← hfinal.slots.length_eq, h.length_eq], ?_⟩
    intro i slot' source hslot' hsource
    obtain ⟨slot, hslot, hf⟩ := hfinal.slots.of_getElem?_right hslot'
    rw [hf.content_eq, hf.size_eq, hf.expected_eq]
    exact h.file i slot source hslot hsource
  refine ⟨hfollows, ?_⟩
  rcases hfinal.outcome with ⟨-, haborted, -⟩ | ⟨-, -, ⟨hdone, -, -, hall⟩ | ⟨hdone, -⟩⟩
  · rw [hrunning] at haborted
    cases haborted
  · refine .inr ⟨hdone, hfollows.contents_eq ?_⟩
    intro slot hslot
    exact UInt64.le_of_eq ((hfollows.good slot hslot).intact (hall slot hslot)).1.symm
  · exact .inl hdone

omit [FileSink S] [LawfulFileSink S] [FaultlessSink S] in
/-- The chunk that is carried next is the next one of its file. -/
theorem next (h : r.Follows sources) {c : FileChunk} {b : View}
    (hc : Sends r.transferId sources r.ackedThrough c b) :
    ∃ slot stop source, r.Next c slot stop ∧ sources[c.fileIndex.toNat]? = some source ∧
      content slot.sink ++ c.data <+: source ∧ b = r.ackedThrough.set c.fileIndex.toNat stop := by
  obtain ⟨stop, hstop, hb⟩ := hc.stop
  have hoffset := hc.offset_eq
  rw [ackedThrough, List.getElem?_map, Option.map_eq_some_iff] at hoffset
  obtain ⟨slot, hslot, hacked⟩ := hoffset
  obtain ⟨source, hsource⟩ := h.source hslot
  obtain ⟨hheld, hsize, -⟩ := h.file _ slot source hslot hsource
  have hgood := h.good slot (List.mem_of_getElem? hslot)
  have hdata := hc.slice source hsource
  rw [← hacked, ← hgood.held] at hdata
  have hslice : content slot.sink ++ c.data <+: source := by
    rw [List.prefix_append_drop hheld, List.prefix_append_right_inj]
    exact hdata
  have hlength := hslice.length_le
  have hpos := List.length_pos_iff.2 hc.nonempty
  rw [List.length_append, hgood.held, ← hsize] at hlength
  rw [← hacked] at hstop
  refine ⟨slot, stop, source, ⟨hc.id_eq, h.running, hc.small, hslot, ?_, hacked.symm, hstop, ?_⟩,
    hsource, hslice, hb⟩
  · by_contra hcomplete
    rw [Bool.not_eq_false] at hcomplete
    have hfull := (hgood.intact hcomplete).1
    rw [hfull] at hlength
    omega
  · rw [UInt64.le_iff_toNat_le]
    omega

/-- **The step of the receiver.** It follows the chunk that is carried next, and its answers are
steps to where it then is. -/
theorem onChunk (h : r.Follows sources) {c : FileChunk} {b : View}
    (hc : Sends r.transferId sources r.ackedThrough c b) :
    ∃ r' out, r.onChunk c = (r', .ok out) ∧ r'.Follows sources ∧ r'.transferId = r.transferId ∧
      r'.ackedThrough = b ∧ Carries (Answers r.transferId) r.ackedThrough out b ∧
      ∀ d, .done d ∈ out → r'.contents = sources := by
  obtain ⟨slot, stop, source, hnext, hsource, hslice, rfl⟩ := h.next hc
  have hgood := h.good slot (List.mem_of_getElem? hnext.found)
  cases hwrite : FileSink.writeAt slot.sink slot.acked c.data with
  | mk sink result =>
    have hok := FaultlessSink.write_ok slot.sink c.data (by
      rw [hgood.held, ← hnext.stop_eq]
      exact stop.toNat_lt)
    rw [hgood.existingLen, hwrite] at hok
    cases hok
    have hcontent := hgood.content_written hwrite
    have hput : (r.putSlot c.fileIndex { slot with sink, acked := stop }).Follows sources := by
      refine ⟨good_putSlot h.good (hgood.written hnext hwrite), h.running, ?_, ?_⟩
      · rw [putSlot, List.length_set, h.length_eq]
      · intro i slot' source' hslot' hsource'
        rw [putSlot, List.getElem?_set] at hslot'
        split at hslot'
        · next hi =>
          subst hi
          obtain ⟨-, hsize, hdigest⟩ := h.file _ slot source hnext.found hsource
          split at hslot'
          · cases hslot'
            rw [hsource] at hsource'
            cases hsource'
            refine ⟨?_, hsize, hdigest⟩
            rw [hcontent]
            exact hslice
          · cases hslot'
        · exact h.file i slot' source' hslot' hsource'
    cases hfinalize : (r.putSlot c.fileIndex
        { slot with sink, acked := stop }).finalizeCompletedFiles with
    | mk r' done =>
      obtain ⟨hfollows, hdone⟩ := hput.finalize hfinalize
      have hfinal := finalized hfinalize
      have hview : r'.ackedThrough = r.ackedThrough.set c.fileIndex.toNat stop :=
        (hfinal.slots.map_eq (fun slot : Slot S => slot.acked) fun _ _ hf => hf.acked_eq).trans
          List.map_set
      have hacked : r.ackedThrough[c.fileIndex.toNat]? = some slot.acked := by
        rw [ackedThrough, List.getElem?_map, hnext.found]
        rfl
      have hack : Answers r.transferId r.ackedThrough (.ack ⟨r.transferId, c.fileIndex, stop⟩)
          (r.ackedThrough.set c.fileIndex.toNat stop) := by
        refine .ack hacked ?_
        rw [UInt64.le_iff_toNat_le, hnext.stop_eq]
        exact Nat.le_add_right _ _
      refine ⟨r', _, hnext.onChunk_written hwrite hfinalize, hfollows, hfinal.id_eq, hview, ?_, ?_⟩
      · rcases hdone with rfl | ⟨rfl, -⟩
        · exact .cons hack (.nil _)
        · exact .cons hack (.cons .done (.nil _))
      · intro d hd
        rcases hdone with rfl | ⟨-, hcontents⟩
        · cases hd with
          | tail _ hd => cases hd
        · exact hcontents

end Receiver.Follows

end

/-! ## The sender -/

section

variable {Src : Type}

/-- How much of each file is sent, and how much is acked. -/
def Sender.sents (s : Sender Src) : View := s.tracks.map (·.sent)

def Sender.ackeds (s : Sender Src) : View := s.tracks.map (·.acked)

/-- What is fixed of a file that is sent. -/
def Track.file (t : Track Src) : String × Src × UInt64 × Option Hash :=
  (t.name, t.src, t.size, t.sha256)

/-- The sender `s'` sends the same files as `s`. -/
structure Sender.Same (s s' : Sender Src) : Prop where
  id_eq : s'.transferId = s.transferId
  files_eq : s'.tracks.map Track.file = s.tracks.map Track.file
  chunkSize_eq : s'.chunkSize = s.chunkSize
  aborted_eq : s'.aborted = s.aborted

namespace Sender.Same

variable {s s' s'' : Sender Src}

theorem refl (s : Sender Src) : s.Same s := ⟨rfl, rfl, rfl, rfl⟩

theorem trans (h : s.Same s') (h' : s'.Same s'') : s.Same s'' :=
  ⟨h'.id_eq.trans h.id_eq, h'.files_eq.trans h.files_eq, h'.chunkSize_eq.trans h.chunkSize_eq,
    h'.aborted_eq.trans h.aborted_eq⟩

theorem track (h : s.Same s') {i : ℕ} {t' : Track Src} (ht' : s'.tracks[i]? = some t') :
    ∃ t, s.tracks[i]? = some t ∧ t'.file = t.file := by
  have hfile := congrArg (·[i]?) h.files_eq
  simp only [List.getElem?_map, ht', Option.map_some] at hfile
  obtain ⟨t, ht, heq⟩ := Option.map_eq_some_iff.1 hfile.symm
  exact ⟨t, ht, heq.symm⟩

end Sender.Same

variable [FileSource Src] [SourceContent Src]

/-- The bytes of every source. -/
def Sender.sources (s : Sender Src) : List (List UInt8) := s.tracks.map fun t => bytes t.src

/-- What the constructors of a sender make sure of. -/
structure Sender.Sound (s : Sender Src) : Prop where
  size_eq : ∀ t ∈ s.tracks, t.size = FileSource.len t.src
  chunkSize_pos : 0 < s.chunkSize
  chunkSize_le : s.chunkSize ≤ maxChunkSize
  length_lt : s.tracks.length < 2 ^ 32
  running : s.aborted = false

omit [FileSource Src] in
theorem Sender.Same.sources_eq {s s' : Sender Src} (h : s.Same s') : s'.sources = s.sources := by
  have hsources := congrArg (List.map fun f => bytes f.2.1) h.files_eq
  rwa [List.map_map, List.map_map] at hsources

omit [SourceContent Src] in
theorem Sender.Same.sound {s s' : Sender Src} (h : s.Same s') (hs : s.Sound) : s'.Sound := by
  refine ⟨?_, ?_, ?_, ?_, ?_⟩
  · intro t' ht'
    obtain ⟨i, hi⟩ := List.mem_iff_getElem?.1 ht'
    obtain ⟨t, ht, hfile⟩ := h.track hi
    simp only [Track.file, Prod.mk.injEq] at hfile
    rw [hfile.2.1, hfile.2.2.1]
    exact hs.size_eq t (List.mem_of_getElem? ht)
  · rw [h.chunkSize_eq]
    exact hs.chunkSize_pos
  · rw [h.chunkSize_eq]
    exact hs.chunkSize_le
  · have hlength := congrArg List.length h.files_eq
    rw [List.length_map, List.length_map] at hlength
    rw [hlength]
    exact hs.length_lt
  · rw [h.aborted_eq]
    exact hs.running

variable [LawfulFileSource Src]

/-- **The step of a poll.** The chunk that is polled is a step of what is sent. -/
theorem Sender.Sound.poll {s : Sender Src} (h : s.Sound) (haccepted : s.accepted = true) :
    (s.pollChunk = (s, .ok none) ∧ ∀ t ∈ s.tracks, t.Idle) ∨
      ∃ s' chunk, s.pollChunk = (s', .ok (some chunk)) ∧ s.Same s' ∧ s'.accepted = true ∧
        s'.ackeds = s.ackeds ∧ Sends s.transferId s.sources s.sents chunk s'.sents := by
  have hpolled := pollTracks_polled s.transferId 0 h.chunkSize_pos h.chunkSize_le h.size_eq
  have hopen : ¬ (!s.accepted || s.aborted) = true := by
    rw [haccepted, h.running]
    decide
  unfold Sender.pollChunk
  rw [if_neg hopen]
  generalize pollTracks s.transferId s.chunkSize 0 s.tracks = result at hpolled
  cases hpolled with
  | none hidle => exact .inl ⟨rfl, hidle⟩
  | @chunk k t data stop ht hnext =>
    obtain ⟨hlt, -⟩ := List.getElem?_eq_some_iff.1 ht
    have hindex : (UInt32.ofNatClamp (0 + k)).toNat = k := by
      rw [Nat.zero_add, UInt32.toNat_ofNatClamp_of_lt]
      exact hlt.trans h.length_lt
    refine .inr ⟨_, _, rfl, ⟨rfl, List.map_set_same _ ht rfl, rfl, rfl⟩, haccepted,
      List.map_set_same _ ht rfl, rfl, hnext.nonempty, hnext.small, ?_, ?_, stop, hnext.stop_eq, ?_⟩
    · rw [hindex, Sender.sents, List.getElem?_map, ht]
      rfl
    · rw [hindex, Sender.sources, List.getElem?_map, ht]
      rintro source ⟨⟩
      exact hnext.slice
    · rw [hindex]
      exact List.map_set

omit [FileSource Src] [SourceContent Src] [LawfulFileSource Src] in
/-- **The step of an ack.** An ack of what is sent is a step of what is acked. -/
theorem Sender.onAck_answers {s : Sender Src} {m : FileAck} {b : View}
    (haccepted : s.accepted = true) (h : Answers s.transferId s.ackeds (.ack m) b)
    (hsents : b.Behind s.sents) (hsizes : b.Behind (s.tracks.map (·.size))) :
    ∃ s', s.onAck m = (s', .ok ()) ∧ s.Same s' ∧ s'.accepted = true ∧ s'.ackeds = b ∧
      s'.sents = s.sents := by
  generalize hout : Outbound.ack m = out at h
  cases h with
  | done => cases hout
  | @ack i acked stop hacked hle =>
    cases hout
    rw [Sender.ackeds, List.getElem?_map, Option.map_eq_some_iff] at hacked
    obtain ⟨t, ht, rfl⟩ := hacked
    have hself : (s.ackeds.set i.toNat stop)[i.toNat]? = some stop := by
      obtain ⟨hlt, -⟩ := List.getElem?_eq_some_iff.1 ht
      rw [List.getElem?_set_self]
      rwa [Sender.ackeds, List.length_map]
    have hbound : ∀ {f : Track Src → UInt64},
        View.Behind (s.ackeds.set i.toNat stop) (s.tracks.map f) → stop ≤ f t := by
      intro f hf
      obtain ⟨x, hx, hxle⟩ := hf i.toNat (f t) (by rw [List.getElem?_map, ht]; rfl)
      rw [hself] at hx
      cases hx
      exact hxle
    unfold Sender.onAck
    rw [if_neg (not_not.2 rfl), haccepted, if_neg (by decide), ht]
    dsimp only
    rw [if_neg (not_or.2 ⟨UInt64.not_lt.2 (hbound hsizes), UInt64.not_lt.2 (hbound hsents)⟩)]
    split
    · refine ⟨_, rfl, ⟨rfl, List.map_set_same _ ht rfl, rfl, rfl⟩, rfl, List.map_set,
        List.map_set_same _ ht rfl⟩
    · next hstale =>
      have hsame : stop = t.acked := UInt64.le_antisymm (UInt64.not_lt.1 hstale) hle
      refine ⟨s, rfl, .refl s, haccepted, ?_, rfl⟩
      subst hsame
      have hfixed : (s.tracks.set i.toNat t).map (·.acked) = s.ackeds := List.map_set_same _ ht rfl
      rw [List.map_set] at hfixed
      exact hfixed.symm

/-! ## Resuming -/

omit [FileSource Src] [SourceContent Src] [LawfulFileSource Src] in
/-- The resume points of a receiver are valid: each file is named once, within its size. -/
theorem Sender.validateResume_ok {tracks : List (Track Src)} {i : ℕ} {held : View}
    {earlier : List ResumePoint} (hearlier : ∀ r ∈ earlier, r.fileIndex.toNat < i)
    (htop : i + held.length < 2 ^ 32)
    (hheld : ∀ (k : ℕ) (x : UInt64), held[k]? = some x →
      ∃ t, tracks[i + k]? = some t ∧ x ≤ t.size) :
    validateResume tracks earlier (resumePoints i held) = .ok () := by
  induction held generalizing i earlier with
  | nil => rfl
  | cons x held ih =>
    rw [List.length_cons] at htop
    have hrest : ∀ (k : ℕ) (x : UInt64), held[k]? = some x →
        ∃ t, tracks[i + 1 + k]? = some t ∧ x ≤ t.size := by
      intro k y hy
      obtain ⟨t, ht, hle⟩ := hheld (k + 1) y hy
      rw [Nat.succ_add_eq_add_succ]
      exact ⟨t, ht, hle⟩
    have hindex : (UInt32.ofNat i).toNat = i :=
      UInt32.toNat_ofNat_of_lt' (Nat.lt_of_le_of_lt (Nat.le_add_right i _) htop)
    rw [resumePoints]
    split
    · obtain ⟨t, ht, hle⟩ := hheld 0 x rfl
      rw [List.singleton_append, validateResume, hindex]
      rw [Nat.add_zero] at ht
      rw [ht]
      dsimp only
      rw [if_neg (UInt64.not_lt.2 hle), if_neg]
      · refine ih ?_ (by omega) hrest
        intro r hr
        rcases List.mem_append.1 hr with hr | hr
        · exact Nat.lt_succ_of_lt (hearlier r hr)
        · rw [List.mem_singleton.1 hr, hindex]
          exact Nat.lt_succ_self i
      · simp only [List.any_eq_true, decide_eq_true_eq, not_exists, not_and]
        intro r hr hsame
        have hlt := hearlier r hr
        rw [hsame, hindex] at hlt
        omega
    · refine ih ?_ (by omega) hrest
      intro r hr
      exact Nat.lt_succ_of_lt (hearlier r hr)

omit [FileSource Src] [SourceContent Src] [LawfulFileSource Src] in
/-- The resume points bring files that are at their start to what is held of them. -/
theorem Sender.applyResume_eq (before : List (Track Src)) {tracks : List (Track Src)} {held : View}
    (hstart : ∀ t ∈ tracks, t.sent = 0 ∧ t.acked = 0) (hlength : tracks.length = held.length)
    (htop : before.length + held.length < 2 ^ 32) :
    ∃ tracks', applyResume (before ++ tracks) (resumePoints before.length held) =
        before ++ tracks' ∧ tracks'.map (·.sent) = held ∧ tracks'.map (·.acked) = held ∧
      tracks'.map Track.file = tracks.map Track.file := by
  induction held generalizing before tracks with
  | nil =>
    rw [List.eq_nil_of_length_eq_zero hlength]
    exact ⟨[], rfl, rfl, rfl, rfl⟩
  | cons x held ih =>
    cases tracks with
    | nil => cases hlength
    | cons t tracks =>
      rw [List.length_cons] at htop
      have hstart' : ∀ t ∈ tracks, t.sent = 0 ∧ t.acked = 0 := fun t ht => hstart t (.tail _ ht)
      -- Whatever the head of the list has become, the rest is resumed behind it.
      have hrest : ∀ t' : Track Src, t'.sent = x → t'.acked = x → t'.file = t.file →
          ∃ tracks', applyResume (before ++ t' :: tracks) (resumePoints (before.length + 1) held) =
              before ++ tracks' ∧ tracks'.map (·.sent) = x :: held ∧
            tracks'.map (·.acked) = x :: held ∧
            tracks'.map Track.file = (t :: tracks).map Track.file := by
        intro t' hsent hacked hfile
        obtain ⟨tracks', happly, hsents, hackeds, hfiles⟩ :=
          ih (before ++ [t']) hstart' (Nat.succ.inj hlength)
            (by rw [List.length_append, List.length_singleton]; omega)
        rw [List.append_assoc, List.singleton_append, List.append_assoc, List.singleton_append,
          List.length_append, List.length_singleton] at happly
        exact ⟨t' :: tracks', happly, by simp [hsents, hsent], by simp [hackeds, hacked],
          by simp [hfiles, hfile]⟩
      have hindex : (UInt32.ofNat before.length).toNat = before.length :=
        UInt32.toNat_ofNat_of_lt' (Nat.lt_of_le_of_lt (Nat.le_add_right _ _) htop)
      rw [resumePoints]
      split
      · rw [List.singleton_append, applyResume, List.foldl_cons, hindex, List.modify_length_append]
        exact hrest _ rfl rfl rfl
      · next hzero =>
        have hx : x = 0 := by
          rw [UInt64.lt_iff_toNat_lt] at hzero
          exact UInt64.toNat_inj.1 (Nat.eq_zero_of_not_pos hzero)
        subst hx
        obtain ⟨hsent, hacked⟩ := hstart t (.head _)
        exact hrest t hsent hacked rfl

omit [FileSource Src] [SourceContent Src] [LawfulFileSource Src] in
/-- **The step of an accept.** A sender at the start goes on from what the receiver holds. -/
theorem Sender.onAccept_resumes {s : Sender Src} {held : View} (haccepted : s.accepted = false)
    (hstart : ∀ t ∈ s.tracks, t.sent = 0 ∧ t.acked = 0) (htop : s.tracks.length < 2 ^ 32)
    (hlength : s.tracks.length = held.length)
    (hheld : ∀ (k : ℕ) (x : UInt64), held[k]? = some x →
      ∃ t, s.tracks[k]? = some t ∧ x ≤ t.size) :
    ∃ s', s.onAccept ⟨s.transferId, resumePoints 0 held⟩ = (s', .ok ()) ∧ s.Same s' ∧
      s'.accepted = true ∧ s'.sents = held ∧ s'.ackeds = held := by
  rw [hlength] at htop
  have hvalid : validateResume s.tracks [] (resumePoints 0 held) = .ok () :=
    validateResume_ok nofun (by rwa [Nat.zero_add]) (by simpa using hheld)
  obtain ⟨tracks', happly, hsents, hackeds, hfiles⟩ :=
    applyResume_eq [] hstart hlength (by simpa using htop)
  refine ⟨{ s with tracks := tracks', accepted := true }, ?_, ⟨rfl, hfiles, rfl, rfl⟩, rfl, hsents,
    hackeds⟩
  unfold Sender.onAccept
  rw [if_neg (not_not.2 rfl), haccepted, if_neg (by decide)]
  dsimp only
  rw [hvalid]
  dsimp only
  rw [List.nil_append, List.nil_append, List.length_nil] at happly
  rw [happly]

end

end Mouser
