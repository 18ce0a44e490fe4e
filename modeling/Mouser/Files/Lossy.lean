import Mouser.Files.Window
import Mouser.Lib.Gaps

/-!
# A file transfer over a channel that loses chunks

The channel to the receiver keeps the order of what it carries and may lose chunks. `Spread` is the
invariant of the lossy transfer: what is in flight of each file leads from what the receiver holds
of it to what is sent of it, but for the chunks that are lost.
-/

namespace Mouser

inductive LossyEvent where
  | run (event : TransferEvent)
  /-- The chunk at place `k` on its way to the receiver is lost. -/
  | drop (k : ℕ)
deriving DecidableEq

section

variable {Src S W : Type} [FileSource Src] [FileSink S]

namespace Transfer

omit [FileSource Src] [FileSink S] in
def lose (t : Transfer Src S W) (k : ℕ) : Transfer Src S W :=
  match t.toReceiver[k]? with
  | some (.chunk _) => { t with toReceiver := t.toReceiver.eraseIdx k }
  | _ => t

def lossyStep (makeSink : W → ℕ → OsStr → W × Except SinkError S) (config : ReceiverConfig)
    (t : Transfer Src S W) : LossyEvent → Transfer Src S W × List Outbound
  | .run event => t.step makeSink config event
  | .drop k => (t.lose k, [])

/-- A file transfer over a channel that may lose chunks. -/
def lossy (makeSink : W → ℕ → OsStr → W × Except SinkError S) (config : ReceiverConfig) :
    Machine (Transfer Src S W) LossyEvent (List Outbound) := ⟨lossyStep makeSink config⟩

omit [FileSource Src] [FileSink S] in
/-- The chunk that an event loses. -/
def lostBy (t : Transfer Src S W) : LossyEvent → List FileChunk
  | .drop k =>
    match t.toReceiver[k]? with
    | some (.chunk c) => [c]
    | _ => []
  | .run _ => []

/-- The chunk that an event sends. -/
def sentBy (t : Transfer Src S W) : LossyEvent → List FileChunk
  | .run .poll =>
    match t.sender.pollChunk.2 with
    | .ok (some c) => [c]
    | _ => []
  | _ => []

end Transfer

/-- The chunks that are lost in a run. -/
def lostIn (tr : List (Machine.Entry (Transfer Src S W) LossyEvent (List Outbound))) :
    List FileChunk :=
  tr.flatMap fun e => e.pre.lostBy e.input

/-- The chunks of file `i` that are sent in a run. -/
def sentIn (i : UInt32) (tr : List (Machine.Entry (Transfer Src S W) LossyEvent (List Outbound))) :
    List FileChunk :=
  (tr.flatMap fun e => e.pre.sentBy e.input).filter (·.fileIndex = i)

end

/-! ## Finishing, whatever the sinks do -/

section

variable {S : Type} [FileSink S]

/-- What `finalize_completed_files` does to the bookkeeping of a file. -/
structure Settles (slot slot' : Slot S) : Prop where
  size_eq : slot'.size = slot.size
  acked_eq : slot'.acked = slot.acked
  newly : slot'.complete = true → slot.complete = true ∨ slot.size ≤ slot.acked

omit [FileSink S] in
theorem Settles.refl (slot : Slot S) : Settles slot slot := ⟨rfl, rfl, .inl⟩

theorem finalizeSlots_settles (slots : List (Slot S)) :
    List.Forall₂ Settles slots (finalizeSlots slots).1 := by
  have hrefl : ∀ rest : List (Slot S), List.Forall₂ Settles rest rest :=
    fun rest => List.forall₂_same.2 fun slot _ => .refl slot
  induction slots with
  | nil => exact .nil
  | cons slot slots ih =>
    rw [finalizeSlots]
    split
    · exact .cons (.refl slot) ih
    · next hopen =>
      rw [not_or, UInt64.not_lt] at hopen
      split
      · split
        · exact .cons ⟨rfl, rfl, fun _ => .inr hopen.2⟩ ih
        · exact .cons ⟨rfl, rfl, .inl⟩ (hrefl slots)
      · exact .cons ⟨rfl, rfl, .inl⟩ (hrefl slots)

namespace Receiver

structure Settled (r r' : Receiver S) (done : Option FileDone) : Prop where
  id_eq : r'.transferId = r.transferId
  slots : List.Forall₂ Settles r.slots r'.slots
  done : ∀ id, done = some ⟨id, true⟩ → ∀ slot ∈ r'.slots, slot.complete = true

theorem settled {r r' : Receiver S} {done : Option FileDone}
    (h : r.finalizeCompletedFiles = (r', done)) : r.Settled r' done := by
  have hslots := finalizeSlots_settles r.slots
  unfold finalizeCompletedFiles at h
  cases hresult : finalizeSlots r.slots with
  | mk slots ok =>
    rw [hresult] at hslots h
    cases ok with
    | false =>
      cases h
      refine ⟨rfl, hslots, ?_⟩
      rintro id ⟨⟩
    | true =>
      dsimp only at h
      split at h
      · next hall =>
        rw [Bool.and_eq_true, List.all_eq_true] at hall
        cases h
        exact ⟨rfl, hslots, fun _ _ => hall.2⟩
      · cases h
        refine ⟨rfl, hslots, ?_⟩
        rintro id ⟨⟩

/-- Nothing is sent back in a transfer that is aborted. -/
theorem sentBack_aborted {r : Receiver S} {c : FileChunk} (h : r.aborted = true) :
    sentBack (r.onChunk c).2 = [] := by
  unfold onChunk
  split
  · rfl
  · rfl

end Receiver

end

/-! ## What is in flight of a file -/

/-- The bytes of file `i` that the chunk carries. -/
def FileChunk.spanOf (i : ℕ) (c : FileChunk) : Option (ℕ × ℕ) :=
  if c.fileIndex.toNat = i then some (c.offset.toNat, c.offset.toNat + c.data.length) else none

def spans (i : ℕ) (chunks : List FileChunk) : List (ℕ × ℕ) := chunks.filterMap (·.spanOf i)

section

variable {i : ℕ} {c : FileChunk} {chunks chunks' : List FileChunk}

theorem spans_append : spans i (chunks ++ chunks') = spans i chunks ++ spans i chunks' :=
  List.filterMap_append

theorem spans_cons_self (h : c.fileIndex.toNat = i) :
    spans i (c :: chunks) =
      (c.offset.toNat, c.offset.toNat + c.data.length) :: spans i chunks := by
  simp [spans, FileChunk.spanOf, h]

theorem spans_cons_ne (h : c.fileIndex.toNat ≠ i) : spans i (c :: chunks) = spans i chunks := by
  simp [spans, FileChunk.spanOf, h]

theorem mem_spans {s : ℕ × ℕ} :
    s ∈ spans i chunks ↔ ∃ c ∈ chunks, c.fileIndex.toNat = i ∧
      s = (c.offset.toNat, c.offset.toNat + c.data.length) := by
  unfold spans FileChunk.spanOf
  rw [List.mem_filterMap]
  refine exists_congr fun c => and_congr_right fun _ => ?_
  split
  · next h => simp [h, eq_comm]
  · next h => simp [h]

end

section

variable {Src S W : Type}

/-- What is known of file `i` while its chunks are in flight, some are lost and the acks `out` are
on their way back. -/
structure Flows (i : ℕ) (chunks lost : List FileChunk) (out : List Outbound) (slot : Slot S)
    (t : Track Src) : Prop where
  size_eq : slot.size = t.size
  sent_le : t.sent ≤ t.size
  full : slot.complete = true → slot.size ≤ slot.acked
  acked_le : t.acked ≤ slot.acked
  acks_le : ∀ m, .ack m ∈ out → m.fileIndex.toNat = i → m.ackedThrough ≤ slot.acked
  streams : Segments slot.acked.toNat t.sent.toNat (spans i chunks) (spans i lost)

namespace Flows

variable {i : ℕ} {chunks chunks' lost : List FileChunk} {out out' : List Outbound}
  {slot slot' : Slot S} {t t' : Track Src} {c : FileChunk}

theorem settle (h : Flows i chunks lost out slot t) (hslot : Settles slot slot') :
    Flows i chunks lost out slot' t := by
  obtain ⟨hsize, hsent, hfull, hacked, hacks, hstreams⟩ := h
  refine ⟨hslot.size_eq.trans hsize, hsent, ?_, ?_, ?_, ?_⟩
  · intro hcomplete
    rw [hslot.size_eq, hslot.acked_eq]
    exact (hslot.newly hcomplete).elim hfull id
  · rwa [hslot.acked_eq]
  · intro m hm hi
    rw [hslot.acked_eq]
    exact hacks m hm hi
  · rwa [hslot.acked_eq]

/-- Fewer acks, or more of what is held. -/
theorem answers (h : Flows i chunks lost out slot t)
    (hacks : ∀ m, .ack m ∈ out' → m.fileIndex.toNat = i →
      .ack m ∈ out ∨ m.ackedThrough ≤ slot.acked) : Flows i chunks lost out' slot t :=
  ⟨h.size_eq, h.sent_le, h.full, h.acked_le,
    fun m hm hi => (hacks m hm hi).elim (fun hm => h.acks_le m hm hi) id, h.streams⟩

/-- What is sent, lost or received of another file. -/
theorem other (h : Flows i chunks lost out slot t) {lost' : List FileChunk}
    (hchunks : spans i chunks' = spans i chunks) (hlost : spans i lost' = spans i lost) :
    Flows i chunks' lost' out slot t :=
  ⟨h.size_eq, h.sent_le, h.full, h.acked_le, h.acks_le, by rw [hchunks, hlost]; exact h.streams⟩

theorem send [SourceContent Src] (h : Flows i chunks lost out slot t) {data : List UInt8}
    {stop : UInt64} (hfits : t.Fits data stop) (hindex : c.fileIndex.toNat = i)
    (hoffset : c.offset = t.sent) (hdata : c.data = data) :
    Flows i (chunks ++ [c]) lost out slot { t with sent := stop } := by
  refine ⟨h.size_eq, hfits.within, h.full, h.acked_le, h.acks_le, ?_⟩
  have hpos := List.length_pos_iff.2 hfits.nonempty
  have hspan : spans i [c] = [(t.sent.toNat, stop.toNat)] := by
    rw [spans_cons_self hindex, hoffset, hdata, hfits.stop_eq]
    rfl
  rw [spans_append, hspan]
  refine h.streams.send ?_
  rw [hfits.stop_eq]
  omega

theorem lose (h : Flows i (chunks ++ c :: chunks') lost out slot t)
    (hindex : c.fileIndex.toNat = i) : Flows i (chunks ++ chunks') (lost ++ [c]) out slot t := by
  refine ⟨h.size_eq, h.sent_le, h.full, h.acked_le, h.acks_le, ?_⟩
  have hstreams := h.streams
  rw [spans_append, spans_cons_self hindex] at hstreams
  rw [spans_append, spans_append, spans_cons_self hindex]
  exact hstreams.lose

/-- The next chunk of the file starts at its end or further on, and lies within its size. -/
theorem head (h : Flows i (c :: chunks) lost out slot t) (hindex : c.fileIndex.toNat = i) :
    slot.acked ≤ c.offset ∧ c.data ≠ [] ∧
      c.offset.toNat + c.data.length ≤ slot.size.toNat ∧ slot.complete = false := by
  have hstreams := h.streams
  rw [spans_cons_self hindex] at hstreams
  obtain ⟨hstart, hpos, hstop⟩ := hstreams.linked.within _ (.head _)
  have hsent := UInt64.le_iff_toNat_le.1 h.sent_le
  rw [← h.size_eq] at hsent
  refine ⟨UInt64.le_iff_toNat_le.2 hstart, ?_, hstop.trans hsent, ?_⟩
  · rintro hnil
    rw [hnil] at hpos
    exact absurd hpos (Nat.lt_irrefl _)
  · by_contra hcomplete
    have hfull := UInt64.le_iff_toNat_le.1 (h.full (Bool.of_not_eq_false hcomplete))
    omega

theorem pass (h : Flows i (c :: chunks) lost out slot t) (hindex : c.fileIndex.toNat = i)
    (hgap : slot.acked < c.offset) : Flows i chunks lost out slot t := by
  refine ⟨h.size_eq, h.sent_le, h.full, h.acked_le, h.acks_le, ?_⟩
  have hstreams := h.streams
  rw [spans_cons_self hindex] at hstreams
  exact hstreams.pass (UInt64.lt_iff_toNat_lt.1 hgap)

theorem take (h : Flows i (c :: chunks) lost out slot t) (hindex : c.fileIndex.toNat = i)
    (hoffset : c.offset = slot.acked) {stop : UInt64} (sink : S)
    (hstop : stop.toNat = slot.acked.toNat + c.data.length) :
    Flows i chunks lost out { slot with sink, acked := stop } t := by
  have hle : slot.acked ≤ stop := by
    rw [UInt64.le_iff_toNat_le, hstop]
    exact Nat.le_add_right _ _
  refine ⟨h.size_eq, h.sent_le, fun hcomplete => UInt64.le_trans (h.full hcomplete) hle,
    UInt64.le_trans h.acked_le hle, fun m hm hi => UInt64.le_trans (h.acks_le m hm hi) hle, ?_⟩
  have hstreams := h.streams
  rw [spans_cons_self hindex] at hstreams
  have htaken := hstreams.take (congrArg UInt64.toNat hoffset)
  rwa [hoffset, ← hstop] at htaken

end Flows

/-! ## The invariant of the lossy transfer -/

/-- The chunks are of this transfer, and of its files. -/
def Proper (s : Sender Src) (c : FileChunk) : Prop :=
  c.transferId = s.transferId ∧ c.data.length ≤ maxChunkSize ∧
    c.fileIndex.toNat < s.tracks.length

/-- Losing one of the chunks. -/
theorem Transfer.lose_chunks {t : Transfer Src S W} {chunks : List FileChunk}
    (h : t.toReceiver = chunks.map .chunk) (k : ℕ) :
    (chunks[k]? = none ∧ t.lostBy (.drop k) = [] ∧ t.lose k = t) ∨
      ∃ before c after, chunks = before ++ c :: after ∧ t.lostBy (.drop k) = [c] ∧
        t.lose k = { t with toReceiver := (before ++ after).map .chunk } := by
  have hget : t.toReceiver[k]? = chunks[k]?.map .chunk := by rw [h, List.getElem?_map]
  unfold Transfer.lostBy Transfer.lose
  cases hc : chunks[k]? with
  | none =>
    rw [hc] at hget
    simp [hget]
  | some c =>
    obtain ⟨hk, rfl⟩ := List.getElem?_eq_some_iff.1 hc
    rw [hc] at hget
    refine .inr ⟨chunks.take k, chunks[k], chunks.drop (k + 1), ?_, by simp [hget], ?_⟩
    · rw [← List.drop_eq_getElem_cons hk, List.take_append_drop]
    · rw [← List.eraseIdx_eq_take_drop_succ, ← List.eraseIdx_map, ← h]
      simp [hget]

/-- A sender whose offer is on its way. -/
structure Sender.Fresh (s : Sender Src) : Prop where
  small : s.chunkSize ≤ maxChunkSize
  length_lt : s.tracks.length < 2 ^ 32
  waiting : s.accepted = false
  start : ∀ t ∈ s.tracks, t.sent = 0 ∧ t.acked = 0

/-- The sender `s` is what has become of `s₀` after the accept. -/
structure Sender.Underway (s₀ s : Sender Src) : Prop where
  id_eq : s.transferId = s₀.transferId
  length_eq : s.tracks.length = s₀.tracks.length
  chunkSize_eq : s.chunkSize = s₀.chunkSize
  accepted : s.accepted = true

variable [FileSource Src]

/-- The lossy transfer of `s₀`, of which the chunks `lost` are lost. -/
inductive Spread (s₀ : Sender Src) (lost : List FileChunk) : Transfer Src S W → Prop where
  | offered {w : W} (hlost : lost = []) : Spread s₀ lost (.init s₀ w)
  /-- The offer could not be handled. -/
  | failed {w : W} : Spread s₀ lost ⟨s₀, none, w, [], []⟩
  | ended {s : Sender Src} {w : W} {r : Receiver S} {chunks : List FileChunk}
    {out : List Outbound} (haborted : r.aborted = true) :
    Spread s₀ lost ⟨s, some r, w, chunks.map .chunk, out⟩
  | answered {w : W} {r : Receiver S} {rest : List Outbound} (hlost : lost = [])
    (hrunning : r.aborted = false) (hid : r.transferId = s₀.transferId)
    (hsizes : r.slots.map (·.size) = s₀.tracks.map (·.size))
    (hfull : ∀ slot ∈ r.slots, slot.acked ≤ slot.size ∧
      (slot.complete = true → slot.size ≤ slot.acked))
    (hrest : ∀ m, .ack m ∉ rest) :
    Spread s₀ lost
      ⟨s₀, some r, w, [], .accept ⟨s₀.transferId, resumePoints 0 r.ackedThrough⟩ :: rest⟩
  | running {s : Sender Src} {w : W} {r : Receiver S} {chunks : List FileChunk}
    {out : List Outbound} (hunderway : s₀.Underway s) (hrunning : r.aborted = false)
    (hid : r.transferId = s₀.transferId) (hslots : r.slots.length = s₀.tracks.length)
    (hproper : ∀ c ∈ chunks, Proper s₀ c)
    (hflows : ∀ (i : ℕ) (slot : Slot S) (t : Track Src), r.slots[i]? = some slot →
      s.tracks[i]? = some t → Flows i chunks lost out slot t) :
    Spread s₀ lost ⟨s, some r, w, chunks.map .chunk, out⟩

namespace Spread

variable {s₀ : Sender Src} {lost : List FileChunk} {t : Transfer Src S W}

omit [FileSource Src] in
theorem drop (h : Spread s₀ lost t) (k : ℕ) :
    Spread s₀ (lost ++ t.lostBy (.drop k)) (t.lose k) := by
  cases h with
  | offered hlost =>
    subst hlost
    cases k with
    | zero => exact .offered rfl
    | succ k => exact .offered rfl
  | failed => exact .failed
  | @ended s w r chunks out haborted =>
    let t : Transfer Src S W := ⟨s, some r, w, chunks.map .chunk, out⟩
    rcases Transfer.lose_chunks (t := t) rfl k with
      ⟨-, -, heq⟩ | ⟨before, c, after, -, -, heq⟩
    · rw [heq]
      exact .ended haborted
    · rw [heq]
      exact .ended haborted
  | answered hlost hrunning hid hsizes hfull hrest =>
    subst hlost
    exact .answered rfl hrunning hid hsizes hfull hrest
  | @running s w r chunks out hunderway hrunning hid hslots hproper hflows =>
    let t : Transfer Src S W := ⟨s, some r, w, chunks.map .chunk, out⟩
    rcases Transfer.lose_chunks (t := t) rfl k with
      ⟨-, hnone, heq⟩ | ⟨before, c, after, rfl, hlost, heq⟩
    · rw [heq, hnone, List.append_nil]
      exact .running hunderway hrunning hid hslots hproper hflows
    · rw [heq, hlost]
      refine .running hunderway hrunning hid hslots ?_ ?_
      · intro c' hc'
        refine hproper c' ?_
        rcases List.mem_append.1 hc' with hc' | hc'
        · exact List.mem_append_left _ hc'
        · exact List.mem_append_right _ (.tail _ hc')
      · intro i slot track hslot htrack
        have hflow := hflows i slot track hslot htrack
        by_cases hi : c.fileIndex.toNat = i
        · exact hflow.lose hi
        · refine hflow.other ?_ ?_
          · rw [spans_append, spans_append, spans_cons_ne hi]
          · rw [spans_append, spans_cons_ne hi]
            exact List.append_nil _

variable [SourceContent Src] [FaithfulFileSource Src]

theorem poll (hfresh : s₀.Fresh) (h : Spread s₀ lost t) : Spread s₀ lost t.poll := by
  cases h with
  | offered hlost =>
    rw [Transfer.poll, Transfer.init, Sender.pollChunk_waiting hfresh.waiting]
    exact .offered hlost
  | failed =>
    rw [Transfer.poll, Sender.pollChunk_waiting hfresh.waiting]
    exact .failed
  | @ended s w r chunks out haborted =>
    unfold Transfer.poll
    split
    · next sender chunk hpoll =>
      have hmore : Spread s₀ lost
          (⟨sender, some r, w, (chunks ++ [chunk]).map .chunk, out⟩ : Transfer Src S W) :=
        .ended haborted
      rwa [List.map_append] at hmore
    · exact .ended haborted
  | answered hlost hrunning hid hsizes hfull hrest =>
    rw [Transfer.poll, Sender.pollChunk_waiting hfresh.waiting]
    exact .answered hlost hrunning hid hsizes hfull hrest
  | @running s w r chunks out hunderway hrunning hid hslots hproper hflows =>
    have hstep := s.step_step (hunderway.chunkSize_eq ▸ hfresh.small) .poll
    rw [Transfer.poll]
    change s.Step .poll s.pollChunk.1 s.pollChunk.2 at hstep
    generalize s.pollChunk = result at hstep
    obtain ⟨s', output⟩ := result
    dsimp only at hstep
    cases hstep with
    | refused => exact .running hunderway hrunning hid hslots hproper hflows
    | kept => exact .running hunderway hrunning hid hslots hproper hflows
    | @sent k track data stop haccepted htrack hfits =>
      obtain ⟨hlt, -⟩ := List.getElem?_eq_some_iff.1 htrack
      have hindex : (UInt32.ofNatClamp k).toNat = k := by
        refine UInt32.toNat_ofNatClamp_of_lt (Nat.lt_trans ?_ hfresh.length_lt)
        rwa [← hunderway.length_eq]
      let c : FileChunk := ⟨s.transferId, .ofNatClamp k, track.sent, data⟩
      have hmore : Spread s₀ lost
          (⟨{ s with tracks := s.tracks.set k { track with sent := stop } }, some r, w,
            (chunks ++ [c]).map .chunk, out⟩ : Transfer Src S W) := by
        refine .running ⟨hunderway.id_eq, ?_, hunderway.chunkSize_eq, haccepted⟩ hrunning hid
          hslots ?_ ?_
        · rw [List.length_set]
          exact hunderway.length_eq
        · intro c hc
          rcases List.mem_append.1 hc with hc | hc
          · exact hproper c hc
          · rw [List.mem_singleton.1 hc]
            refine ⟨hunderway.id_eq, hfits.small, ?_⟩
            rwa [hindex, ← hunderway.length_eq]
        · intro i slot track' hslot htrack'
          by_cases hi : k = i
          · subst hi
            rw [List.getElem?_set_self hlt] at htrack'
            cases htrack'
            exact (hflows k slot track hslot htrack).send hfits hindex rfl rfl
          · rw [List.getElem?_set_ne hi] at htrack'
            refine (hflows i slot track' hslot htrack').other ?_ rfl
            have hother : c.fileIndex.toNat ≠ i := hindex ▸ hi
            rw [spans_append, spans_cons_ne hother]
            exact List.append_nil _
      rwa [List.map_append] at hmore

omit [SourceContent Src] [FaithfulFileSource Src] in
theorem receive_offer [FileSink S] (makeSink : W → ℕ → OsStr → W × Except SinkError S)
    (config : ReceiverConfig) (w : W) :
    Spread s₀ [] ((Transfer.init s₀ w).step makeSink config .receive).1 := by
  simp only [Transfer.step, Transfer.init, Transfer.receive, List.nil_append]
  split
  · next disk r out haccept =>
    by_cases haborted : r.aborted = true
    · change Spread s₀ [] ⟨s₀, some r, disk, List.map Inbound.chunk [], out⟩
      exact .ended haborted
    · obtain ⟨⟨id, resume⟩, rest, rfl⟩ := (acceptOffer_accept haccept).resolve_left haborted
      obtain ⟨plans, slots, done, ha⟩ := acceptOffer_accepts haccept
      obtain ⟨hresume, hlength, hopens⟩ := openSinks_ok ha.opens
      obtain ⟨hplans, -⟩ := validateEntries_ok ha.plans_eq
      have hid : id = s₀.transferId := ha.id_eq
      have hsettled := Receiver.settled ha.finalize
      have hview : r.ackedThrough = slots.map (·.acked) :=
        hsettled.slots.map_eq _ fun _ _ hs => hs.acked_eq
      have hsizes : r.slots.map (·.size) = slots.map (·.size) :=
        hsettled.slots.map_eq _ fun _ _ hs => hs.size_eq
      dsimp only at hresume
      rw [hresume, hid, ← hview]
      refine .answered rfl (Bool.of_not_eq_true haborted) hsettled.id_eq ?_ ?_ ?_
      · rw [hsizes]
        refine List.ext_getElem ?_ ?_
        · rw [List.length_map, List.length_map, hlength, hplans, Sender.offer, List.length_map]
        · intro i hi hi'
          rw [List.length_map] at hi hi'
          obtain ⟨entry, plan, hentry, -, ho⟩ := hopens i _ (List.getElem?_eq_getElem hi)
          rw [Sender.offer, List.getElem?_map, List.getElem?_eq_getElem hi'] at hentry
          cases hentry
          rw [List.getElem_map, List.getElem_map]
          exact ho.size_eq
      · intro slot' hslot'
        obtain ⟨i, hi⟩ := List.mem_iff_getElem?.1 hslot'
        obtain ⟨slot, hslot, hs⟩ := hsettled.slots.of_getElem?_right hi
        obtain ⟨entry, plan, -, -, ho⟩ := hopens i slot hslot
        rw [hs.size_eq, hs.acked_eq]
        refine ⟨ho.le_size, ?_⟩
        intro hcomplete
        refine (hs.newly hcomplete).resolve_left ?_
        rw [ho.incomplete]
        exact Bool.false_ne_true
      · rw [ha.rest_eq]
        intro m hm
        cases done with
        | none => cases hm
        | some d => cases List.mem_singleton.1 hm
  · exact .failed
  · exact .failed

omit [FileSource Src] [SourceContent Src] [FaithfulFileSource Src] in
/-- The file of a chunk in flight, at both ends. -/
theorem file_of {s : Sender Src} {r : Receiver S} {c : FileChunk} (hunderway : s₀.Underway s)
    (hslots : r.slots.length = s₀.tracks.length) (hproper : Proper s₀ c) :
    ∃ slot track, r.slots[c.fileIndex.toNat]? = some slot ∧
      s.tracks[c.fileIndex.toNat]? = some track := by
  have hlt := hproper.2.2
  exact ⟨_, _, List.getElem?_eq_getElem (hslots ▸ hlt),
    List.getElem?_eq_getElem (hunderway.length_eq ▸ hlt)⟩

omit [FileSource Src] [SourceContent Src] [FaithfulFileSource Src] in
theorem receive_chunk [FileSink S] {s : Sender Src} {w : W} {r : Receiver S} {c : FileChunk}
    {chunks : List FileChunk} {out : List Outbound} (hunderway : s₀.Underway s)
    (hrunning : r.aborted = false) (hid : r.transferId = s₀.transferId)
    (hslots : r.slots.length = s₀.tracks.length) (hproper : ∀ c' ∈ c :: chunks, Proper s₀ c')
    (hflows : ∀ (i : ℕ) (slot : Slot S) (t : Track Src), r.slots[i]? = some slot →
      s.tracks[i]? = some t → Flows i (c :: chunks) lost out slot t) :
    Spread s₀ lost (⟨s, some (r.onChunk c).1, w, chunks.map .chunk,
      out ++ sentBack (r.onChunk c).2⟩ : Transfer Src S W) := by
  have hc := hproper c (.head _)
  have hrest : ∀ c' ∈ chunks, Proper s₀ c' := fun c' hc' => hproper c' (.tail _ hc')
  obtain ⟨slot, track, hslot, htrack⟩ := file_of hunderway hslots hc
  have hflow := hflows _ slot track hslot htrack
  obtain ⟨hstart, hdata, hfits, hopen⟩ := hflow.head rfl
  -- To the other files nothing happens.
  have hother : ∀ (i : ℕ) (slot' : Slot S) (t : Track Src), c.fileIndex.toNat ≠ i →
      r.slots[i]? = some slot' → s.tracks[i]? = some t → Flows i chunks lost out slot' t := by
    intro i slot' t hi hslot' ht
    exact (hflows i slot' t hslot' ht).other (spans_cons_ne hi).symm rfl
  by_cases hoffset : c.offset = slot.acked
  · have hlength := hc.2.1
    obtain ⟨stop, -, hstop, hwithin⟩ := Receiver.checkedAdd_fits hfits
    rw [hoffset] at hstop
    have hnext : r.Next c slot stop := ⟨hc.1.trans hid.symm, hrunning, hlength, hslot, hopen,
      hoffset, hstop, UInt64.not_lt.1 hwithin⟩
    cases hwrite : FileSink.writeAt slot.sink slot.acked c.data with
    | mk sink result =>
      cases result with
      | error e =>
        rw [hnext.onChunk_eq, Receiver.commitChunk, hwrite]
        exact .ended rfl
      | ok =>
        cases hfinalize : (r.putSlot c.fileIndex
            { slot with sink, acked := stop }).finalizeCompletedFiles with
        | mk r' done =>
          rw [hnext.onChunk_written hwrite hfinalize]
          have hsettled := Receiver.settled hfinalize
          by_cases haborted : r'.aborted = true
          · exact .ended haborted
          · refine .running hunderway (Bool.of_not_eq_true haborted) (hsettled.id_eq.trans hid) ?_
              hrest ?_
            · rw [← hsettled.slots.length_eq, Receiver.putSlot, List.length_set, hslots]
            · intro i slot' t hslot' ht
              obtain ⟨slot₁, hslot₁, hs⟩ := hsettled.slots.of_getElem?_right hslot'
              have hput : Flows i chunks lost out slot₁ t ∧
                  (c.fileIndex.toNat = i → slot₁.acked = stop) := by
                rw [Receiver.putSlot] at hslot₁
                by_cases hi : c.fileIndex.toNat = i
                · subst hi
                  obtain ⟨hlt, -⟩ := List.getElem?_eq_some_iff.1 hslot
                  rw [List.getElem?_set_self hlt] at hslot₁
                  cases hslot₁
                  rw [htrack] at ht
                  cases ht
                  exact ⟨hflow.take rfl hoffset sink hstop, fun _ => rfl⟩
                · rw [List.getElem?_set_ne hi] at hslot₁
                  exact ⟨hother i slot₁ t hi hslot₁ ht, fun heq => absurd heq hi⟩
              refine (hput.1.answers ?_).settle hs
              intro m hm hi
              rcases List.mem_append.1 hm with hm | hm
              · exact .inl hm
              · rcases List.mem_cons.1 hm with heq | hm
                · cases heq
                  exact .inr (UInt64.le_of_eq (hput.2 hi).symm)
                · cases done with
                  | none => cases hm
                  | some d => cases List.mem_singleton.1 hm
  · have hgap : slot.acked < c.offset :=
      UInt64.lt_of_le_of_ne hstart (Ne.symm hoffset)
    rw [Receiver.onChunk_again (hc.1.trans hid.symm) hrunning hc.2.1 hslot hoffset hfits]
    refine .running hunderway hrunning hid hslots hrest ?_
    intro i slot' t hslot' ht
    have hpass : Flows i chunks lost out slot' t := by
      by_cases hi : c.fileIndex.toNat = i
      · subst hi
        rw [hslot] at hslot'
        cases hslot'
        exact (hflows _ slot t hslot ht).pass rfl hgap
      · exact hother i slot' t hi hslot' ht
    refine hpass.answers ?_
    intro m hm hi
    rcases List.mem_append.1 hm with hm | hm
    · exact .inl hm
    · cases List.mem_singleton.1 hm
      dsimp only at hi
      rw [hi, hslot'] at hslot
      cases hslot
      exact .inr (UInt64.le_refl _)

omit [SourceContent Src] [FaithfulFileSource Src] in
theorem receive [FileSink S] (makeSink : W → ℕ → OsStr → W × Except SinkError S)
    (config : ReceiverConfig) (h : Spread s₀ lost t) :
    Spread s₀ lost (t.step makeSink config .receive).1 := by
  cases h with
  | offered hlost =>
    rw [hlost]
    exact receive_offer makeSink config _
  | failed => exact .failed
  | @ended s w r chunks out haborted =>
    cases chunks with
    | nil => exact .ended haborted
    | cons c chunks =>
      have hpost : (r.onChunk c).1.aborted = true := by
        rw [Receiver.onChunk_aborted haborted]
        exact haborted
      exact .ended hpost
  | answered hlost hrunning hid hsizes hfull hrest =>
    exact .answered hlost hrunning hid hsizes hfull hrest
  | @running s w r chunks out hunderway hrunning hid hslots hproper hflows =>
    cases chunks with
    | nil => exact .running hunderway hrunning hid hslots hproper hflows
    | cons c chunks => exact receive_chunk hunderway hrunning hid hslots hproper hflows

/-- An answer of the receiver keeps what is known of the files, if it acks no more than is held. -/
theorem running_answer {s : Sender Src} {w : W} {r : Receiver S} {chunks : List FileChunk}
    {out : List Outbound} (event : SenderEvent) (hfresh : s₀.Fresh) (hunderway : s₀.Underway s)
    (hrunning : r.aborted = false) (hid : r.transferId = s₀.transferId)
    (hslots : r.slots.length = s₀.tracks.length) (hproper : ∀ c ∈ chunks, Proper s₀ c)
    (hflows : ∀ (i : ℕ) (slot : Slot S) (t : Track Src), r.slots[i]? = some slot →
      s.tracks[i]? = some t → Flows i chunks lost out slot t)
    (hpoll : event ≠ .poll)
    (hack : ∀ m, event = .ack m → ∀ slot, r.slots[m.fileIndex.toNat]? = some slot →
      m.ackedThrough ≤ slot.acked) :
    Spread s₀ lost (⟨(s.step event).1, some r, w, chunks.map .chunk, out⟩ : Transfer Src S W) := by
  have hstep := s.step_step (hunderway.chunkSize_eq ▸ hfresh.small) event
  generalize (s.step event).1 = s' at hstep ⊢
  generalize (s.step event).2 = output at hstep
  cases hstep with
  | refused => exact .running hunderway hrunning hid hslots hproper hflows
  | kept => exact .running hunderway hrunning hid hslots hproper hflows
  | aborted =>
    exact .running ⟨hunderway.id_eq, hunderway.length_eq, hunderway.chunkSize_eq,
      hunderway.accepted⟩ hrunning hid hslots hproper hflows
  | resumed hwaiting =>
    rw [hunderway.accepted] at hwaiting
    cases hwaiting
  | @acked m t haccepted ht hsent hnew =>
    refine .running ⟨hunderway.id_eq, ?_, hunderway.chunkSize_eq, haccepted⟩ hrunning hid hslots
      hproper ?_
    · rw [List.length_set]
      exact hunderway.length_eq
    · intro i slot t' hslot ht'
      by_cases hi : m.fileIndex.toNat = i
      · subst hi
        obtain ⟨hlt, -⟩ := List.getElem?_eq_some_iff.1 ht
        rw [List.getElem?_set_self hlt] at ht'
        cases ht'
        obtain ⟨hsize, hle, hfull, -, hacks, hstreams⟩ := hflows _ slot t hslot ht
        exact ⟨hsize, hle, hfull, hack m rfl slot hslot, hacks, hstreams⟩
      · rw [List.getElem?_set_ne hi] at ht'
        exact hflows i slot t' hslot ht'
  | sent => exact absurd rfl hpoll

theorem answer [FileSink S] (makeSink : W → ℕ → OsStr → W × Except SinkError S)
    (config : ReceiverConfig) (hfresh : s₀.Fresh) (h : Spread s₀ lost t) :
    Spread s₀ lost (t.step makeSink config .answer).1 := by
  cases h with
  | offered hlost => exact .offered hlost
  | failed => exact .failed
  | @ended s w r chunks out haborted =>
    cases out with
    | nil => exact .ended haborted
    | cons m out => cases m <;> exact .ended haborted
  | @answered w r rest hlost hrunning hid hsizes hfull hrest =>
    have hlength : r.slots.length = s₀.tracks.length := by
      have := congrArg List.length hsizes
      rwa [List.length_map, List.length_map] at this
    have hheld : ∀ (k : ℕ) (x : UInt64), r.ackedThrough[k]? = some x →
        ∃ t, s₀.tracks[k]? = some t ∧ x ≤ t.size := by
      intro k x hx
      rw [Receiver.ackedThrough, List.getElem?_map, Option.map_eq_some_iff] at hx
      obtain ⟨slot, hslot, rfl⟩ := hx
      have hsize := congrArg (·[k]?) hsizes
      simp only [List.getElem?_map, hslot, Option.map_some] at hsize
      obtain ⟨t, ht, heq⟩ := Option.map_eq_some_iff.1 hsize.symm
      exact ⟨t, ht, heq ▸ (hfull slot (List.mem_of_getElem? hslot)).1⟩
    obtain ⟨s', haccept, hsame, haccepted, hsents, hackeds⟩ :=
      Sender.onAccept_resumes hfresh.waiting hfresh.start hfresh.length_lt
        (by rw [Receiver.ackedThrough, List.length_map, hlength]) hheld
    have hstep : ((⟨s₀, some r, w, [], .accept ⟨s₀.transferId, resumePoints 0 r.ackedThrough⟩ ::
        rest⟩ : Transfer Src S W).step makeSink config .answer).1 =
          ⟨s', some r, w, [].map .chunk, rest⟩ := by
      simp only [Transfer.step, Transfer.answer, haccept, List.map_nil]
    rw [hstep]
    have hfiles := congrArg List.length hsame.files_eq
    rw [List.length_map, List.length_map] at hfiles
    refine .running ⟨hsame.id_eq, hfiles, hsame.chunkSize_eq, haccepted⟩ hrunning hid hlength
      (by simp) ?_
    intro i slot t hslot ht
    have hx : r.ackedThrough[i]? = some slot.acked := by
      rw [Receiver.ackedThrough, List.getElem?_map, hslot]
      rfl
    have hsent : t.sent = slot.acked := by
      rw [← hsents, Sender.sents, List.getElem?_map, ht] at hx
      exact Option.some.inj hx
    have hacked : t.acked = slot.acked := by
      rw [← hackeds, Sender.ackeds, List.getElem?_map, ht] at hx
      exact Option.some.inj hx
    have hsize : slot.size = t.size := by
      obtain ⟨t₀, ht₀, hfile⟩ := hsame.track ht
      have hsize := congrArg (·[i]?) hsizes
      simp only [List.getElem?_map, hslot, ht₀, Option.map_some, Option.some.injEq] at hsize
      simp only [Track.file, Prod.mk.injEq] at hfile
      rw [hsize, hfile.2.2.1]
    obtain ⟨hle, hcomplete⟩ := hfull slot (List.mem_of_getElem? hslot)
    refine ⟨hsize, by rw [hsent, ← hsize]; exact hle, hcomplete, UInt64.le_of_eq hacked,
      fun m hm => absurd hm (hrest m), ?_⟩
    rw [hsent, hlost]
    exact .start _
  | @running s w r chunks out hunderway hrunning hid hslots hproper hflows =>
    cases out with
    | nil => exact .running hunderway hrunning hid hslots hproper hflows
    | cons m out =>
      have hflows' : ∀ (i : ℕ) (slot : Slot S) (t : Track Src), r.slots[i]? = some slot →
          s.tracks[i]? = some t → Flows i chunks lost out slot t := fun i slot t hslot ht =>
        (hflows i slot t hslot ht).answers fun m hm _ => .inl (.tail _ hm)
      have hkeep := fun event => running_answer (w := w) event hfresh hunderway hrunning
        hid hslots hproper hflows'
      cases m with
      | accept m => exact hkeep (.accept m) (by simp) (by simp)
      | reject m => exact .running hunderway hrunning hid hslots hproper hflows'
      | ack m =>
        refine hkeep (.ack m) (by simp) ?_
        rintro _ ⟨⟩ slot hslot
        obtain ⟨hlt, -⟩ := List.getElem?_eq_some_iff.1 hslot
        rw [hslots, ← hunderway.length_eq] at hlt
        exact (hflows _ slot _ hslot (List.getElem?_eq_getElem hlt)).acks_le m (.head _) rfl
      | done m => exact hkeep (.done m) (by simp) (by simp)

/-- **The step of the lossy transfer.** -/
theorem step [FileSink S] (makeSink : W → ℕ → OsStr → W × Except SinkError S)
    (config : ReceiverConfig) (hfresh : s₀.Fresh) (h : Spread s₀ lost t) (event : LossyEvent) :
    Spread s₀ (lost ++ t.lostBy event) (t.lossyStep makeSink config event).1 := by
  cases event with
  | drop k => exact h.drop k
  | run event =>
    have hnone : t.lostBy (.run event) = [] := rfl
    rw [hnone, List.append_nil]
    cases event with
    | poll => exact h.poll hfresh
    | receive => exact h.receive makeSink config
    | answer => exact h.answer makeSink config hfresh

end Spread

end

end Mouser
