import Mouser.Files.Accept
import Mathlib.Algebra.Order.BigOperators.Group.List

/-!
# A hostile sender

Whatever chunks follow an accepted offer, and whichever writes fail, the receiver writes only where
its files end and within their sizes, and reports success only for files that hold what was
expected. `Contained` says so for a run of `Receiver.machine`.
-/

namespace Mouser

/-- The acks among what is sent back. -/
def Outbound.ack? : Outbound → Option FileAck
  | .ack m => some m
  | _ => none

/-- The `FileDone`s among what is sent back. -/
def Outbound.done? : Outbound → Option FileDone
  | .done m => some m
  | _ => none

/-- What the receiver sends back for a chunk. -/
def sentBack : Except FileError (List Outbound) → List Outbound
  | .ok out => out
  | .error _ => []

section

variable {S W : Type} [FileSink S]

/-- One chunk of a run. -/
abbrev ChunkEntry (S : Type) :=
  Machine.Entry (Receiver S) FileChunk (Except FileError (List Outbound))

variable [Sha256] [SinkContent S]

/-- What the sinks hold. -/
def Receiver.contents (r : Receiver S) : List (List UInt8) := r.slots.map (content ·.sink)

/-- Every file has its size, and the digest that was supplied for it. -/
def Receiver.Delivered (r : Receiver S) (offer : FileOffer) (config : ReceiverConfig) : Prop :=
  ∀ i entry bytes, offer.files[i]? = some entry → r.contents[i]? = some bytes →
    bytes.length = entry.size.toNat ∧
      ∀ digest, Supplied config i entry digest → sha256 bytes = digest

/-- What a run of chunks `tr` from the receiver `r`, which has sent `rest` behind its `FileAccept`,
can do; the run ends in `r'`. -/
structure Contained (offer : FileOffer) (config : ReceiverConfig) (r : Receiver S)
    (rest : List Outbound) (tr : List (ChunkEntry S)) (r' : Receiver S) : Prop where
  /-- There is a file for each that was offered, and it holds the bytes that are acked, which are
  not more than its size. -/
  held : r'.slots.length = offer.files.length ∧
    ∀ (i : ℕ) (entry : FileEntry) (slot : Slot S), offer.files[i]? = some entry →
      r'.slots[i]? = some slot →
      slot.size = entry.size ∧ (content slot.sink).length = slot.acked.toNat ∧
        slot.acked ≤ entry.size
  /-- A chunk changes nothing, or is appended to its file, which ends where the chunk starts. -/
  contiguous : ∀ e ∈ tr, e.post.contents = e.pre.contents ∨
    ∃ slot, e.pre.slots[e.input.fileIndex.toNat]? = some slot ∧ e.input.offset = slot.acked ∧
      e.post.contents = e.pre.contents.set e.input.fileIndex.toNat
        (content slot.sink ++ e.input.data)
  total : (r'.contents.map List.length).sum ≤ offer.totalSize ∧
    ∀ max, config.maxTotalBytes = some max → max < UInt64.maxValue →
      offer.totalSize ≤ max.toNat
  acks : ((tr.flatMap fun e => sentBack e.output).filterMap Outbound.ack?).Pairwise fun a b =>
    a.fileIndex = b.fileIndex → a.ackedThrough ≤ b.ackedThrough
  one_done : ((rest ++ tr.flatMap fun e => sentBack e.output).filterMap Outbound.done?).length ≤ 1
  /-- A transfer that is reported as done has been delivered when it is. -/
  delivered : (∀ done, Outbound.done done ∈ rest → done.ok = true → r.Delivered offer config) ∧
    ∀ e ∈ tr, ∀ done, Outbound.done done ∈ sentBack e.output → done.ok = true →
      e.post.Delivered offer config
  /-- A transfer that is reported as failed has been aborted. -/
  aborts : (∀ done, Outbound.done done ∈ rest → done.ok = false → r.aborted = true) ∧
    ∀ e ∈ tr, ∀ done, Outbound.done done ∈ sentBack e.output → done.ok = false →
      e.post.aborted = true
  frozen : ∀ e ∈ tr, e.pre.aborted = true → e.post = e.pre
  refused : ∀ e ∈ tr, ∀ error, e.output = .error error → e.post = e.pre

/-! ## One chunk -/

variable [LawfulFileSink S]

/-- A chunk is not written, or it is appended to its file. -/
theorem Receiver.Inv.contents_onChunk {r : Receiver S} (h : r.Inv) (chunk : FileChunk) :
    (r.onChunk chunk).1.contents = r.contents ∨
      ∃ slot, r.slots[chunk.fileIndex.toNat]? = some slot ∧ chunk.offset = slot.acked ∧
        (r.onChunk chunk).1.contents =
          r.contents.set chunk.fileIndex.toNat (content slot.sink ++ chunk.data) := by
  have hcases := onChunk_cases r chunk
  generalize r.onChunk chunk = result at hcases
  cases hcases with
  | refused e => exact .inl rfl
  | ended haborted => exact .inl rfl
  | again hslot => exact .inl rfl
  | failed hnext hwrite =>
    exact .inl (map_putSlot _ hnext.found (LawfulFileSink.content_failed _ _ _ _ _ hwrite))
  | written hnext hwrite hfinalize =>
    have hgood := h.good _ (List.mem_of_getElem? hnext.found)
    have hfinal := (finalized hfinalize).slots.map_eq (fun slot : Slot S => content slot.sink)
      fun slot slot' hf => hf.content_eq
    refine .inr ⟨_, hnext.found, hnext.offset_eq, hfinal.trans ?_⟩
    rw [← hgood.content_written hwrite]
    exact List.map_set

/-- How far every file is acked. -/
def Receiver.ackedThrough (r : Receiver S) : List UInt64 := r.slots.map (·.acked)

theorem Receiver.ackedThrough_onChunk (r : Receiver S) (chunk : FileChunk) :
    (r.onChunk chunk).1.ackedThrough = r.ackedThrough ∨
      ∃ slot stop, r.slots[chunk.fileIndex.toNat]? = some slot ∧ slot.acked ≤ stop ∧
        (r.onChunk chunk).1.ackedThrough = r.ackedThrough.set chunk.fileIndex.toNat stop := by
  have hcases := onChunk_cases r chunk
  generalize r.onChunk chunk = result at hcases
  cases hcases with
  | refused e => exact .inl rfl
  | ended haborted => exact .inl rfl
  | again hslot => exact .inl rfl
  | failed hnext hwrite => exact .inl (map_putSlot _ hnext.found rfl)
  | written hnext hwrite hfinalize =>
    have hfinal := (finalized hfinalize).slots.map_eq (fun slot : Slot S => slot.acked)
      fun slot slot' hf => hf.acked_eq
    refine .inr ⟨_, _, hnext.found, ?_, hfinal.trans List.map_set⟩
    rw [UInt64.le_iff_toNat_le, hnext.stop_eq]
    exact Nat.le_add_right _ _

/-- What is acked of a file never becomes less. -/
theorem Receiver.le_ackedThrough_onChunk {r : Receiver S} {chunk : FileChunk} {i : ℕ} {b : UInt64}
    (h : (r.onChunk chunk).1.ackedThrough[i]? = some b) :
    ∃ a, r.ackedThrough[i]? = some a ∧ a ≤ b := by
  rcases r.ackedThrough_onChunk chunk with heq | ⟨slot, stop, hslot, hle, heq⟩
  · rw [heq] at h
    exact ⟨b, h, UInt64.le_refl b⟩
  · rw [heq, List.getElem?_set] at h
    split at h
    · next hi =>
      split at h
      · cases h
        refine ⟨slot.acked, ?_, hle⟩
        rw [← hi, ackedThrough, List.getElem?_map, hslot]
        rfl
      · cases h
    · exact ⟨b, h, UInt64.le_refl b⟩

/-- What is sent back for a chunk: at most one ack, of what its file holds then. -/
theorem Receiver.acks_sent (r : Receiver S) (chunk : FileChunk) :
    (sentBack (r.onChunk chunk).2).filterMap Outbound.ack? = [] ∨
      ∃ id a, (sentBack (r.onChunk chunk).2).filterMap Outbound.ack? = [⟨id, chunk.fileIndex, a⟩] ∧
        (r.onChunk chunk).1.ackedThrough[chunk.fileIndex.toNat]? = some a := by
  have hdone : ∀ done : Option FileDone,
      (done.map Outbound.done).toList.filterMap Outbound.ack? = [] := by
    rintro (_ | done) <;> rfl
  have hcases := onChunk_cases r chunk
  generalize r.onChunk chunk = result at hcases
  cases hcases with
  | refused e => exact .inl rfl
  | ended haborted => exact .inl rfl
  | again hslot =>
    refine .inr ⟨_, _, rfl, ?_⟩
    rw [ackedThrough, List.getElem?_map, hslot]
    rfl
  | failed hnext hwrite => exact .inl rfl
  | written hnext hwrite hfinalize =>
    have hfinal := (finalized hfinalize).slots.map_eq (fun slot : Slot S => slot.acked)
      fun slot slot' hf => hf.acked_eq
    obtain ⟨hlt, -⟩ := List.getElem?_eq_some_iff.1 hnext.found
    refine .inr ⟨_, _, congrArg _ (hdone _), ?_⟩
    rw [ackedThrough, hfinal, putSlot, List.getElem?_map, List.getElem?_set_self hlt]
    rfl

/-- What a `FileDone` that is sent says of the receiver. -/
def Receiver.Announces (r : Receiver S) (done : FileDone) : Prop :=
  r.doneEmitted = true ∧ (done.ok = true → ∀ slot ∈ r.slots, slot.complete = true) ∧
    (done.ok = false → r.aborted = true)

omit [FileSink S] [LawfulFileSink S] in
theorem Receiver.Finalized.announces {r r' : Receiver S} {done : Option FileDone}
    (h : r.Finalized r' done) :
    (done = none ∧ r'.doneEmitted = r.doneEmitted) ∨ ∃ d, done = some d ∧ r'.Announces d := by
  rcases h.outcome with ⟨rfl, haborted, hdone⟩ | ⟨-, -, ⟨rfl, -, hdone, hall⟩ | hnone⟩
  · exact .inr ⟨_, rfl, hdone, nofun, fun _ => haborted⟩
  · exact .inr ⟨_, rfl, hdone, fun _ => hall, nofun⟩
  · exact .inl hnone

/-- The `FileDone`s sent back for a chunk: none, or the first of the transfer. -/
theorem Receiver.Inv.dones_sent {r : Receiver S} (h : r.Inv) (chunk : FileChunk) :
    ((sentBack (r.onChunk chunk).2).filterMap Outbound.done? = [] ∧
        (r.onChunk chunk).1.doneEmitted = r.doneEmitted) ∨
      ∃ d, (sentBack (r.onChunk chunk).2).filterMap Outbound.done? = [d] ∧
        r.doneEmitted = false ∧ (r.onChunk chunk).1.Announces d := by
  have hcases := onChunk_cases r chunk
  generalize r.onChunk chunk = result at hcases
  cases hcases with
  | refused e => exact .inl ⟨rfl, rfl⟩
  | ended haborted => exact .inl ⟨rfl, rfl⟩
  | again hslot => exact .inl ⟨rfl, rfl⟩
  | failed hnext hwrite =>
    exact .inr ⟨_, rfl, h.open_of_next hnext, rfl, nofun, fun _ => rfl⟩
  | written hnext hwrite hfinalize =>
    have hopen := h.open_of_next hnext
    rcases (finalized hfinalize).announces with ⟨rfl, hsame⟩ | ⟨d, rfl, hd⟩
    · exact .inl ⟨rfl, hsame⟩
    · exact .inr ⟨d, rfl, hopen, hd⟩

theorem Receiver.Inv.announces_sent {r : Receiver S} (h : r.Inv) {chunk : FileChunk} {d : FileDone}
    (hd : .done d ∈ sentBack (r.onChunk chunk).2) : (r.onChunk chunk).1.Announces d := by
  have hmem : d ∈ (sentBack (r.onChunk chunk).2).filterMap Outbound.done? :=
    List.mem_filterMap.2 ⟨.done d, hd, rfl⟩
  rcases h.dones_sent chunk with ⟨hnone, -⟩ | ⟨d', hone, -, hannounces⟩
  · rw [hnone] at hmem
    cases hmem
  · rw [hone, List.mem_singleton] at hmem
    rwa [hmem]

omit [FileSink S] [LawfulFileSink S] in
/-- A transfer whose files are all complete is delivered. -/
theorem Receiver.Inv.delivered {r : Receiver S} {offer : FileOffer} {config : ReceiverConfig}
    (h : r.Inv) (hserves : r.Serves offer config)
    (hall : ∀ slot ∈ r.slots, slot.complete = true) : r.Delivered offer config := by
  intro i entry bytes hentry hbytes
  rw [contents, List.getElem?_map, Option.map_eq_some_iff] at hbytes
  obtain ⟨slot, hslot, rfl⟩ := hbytes
  have hmem := List.mem_of_getElem? hslot
  obtain ⟨hsize, hexpected⟩ := hserves.file i entry slot.size slot.expected hentry (by
    rw [files, List.getElem?_map, hslot]
    rfl)
  obtain ⟨hfull, hdigest⟩ := (h.good slot hmem).intact (hall slot hmem)
  refine ⟨by rw [(h.good slot hmem).held, hfull, hsize], ?_⟩
  intro digest hsupplied
  exact hdigest digest ((hexpected digest).2 hsupplied)

/-! ## Runs -/

omit [FileSink S] [LawfulFileSink S] [Sha256] [SinkContent S] in
theorem Receiver.Serves.sizes {r : Receiver S} {offer : FileOffer} {config : ReceiverConfig}
    (h : r.Serves offer config) :
    r.slots.map (·.size.toNat) = offer.files.map (·.size.toNat) := by
  have hlength : r.slots.length = offer.files.length := by
    rw [← h.length_eq, files, List.length_map]
  refine List.ext_getElem (by simp [hlength]) ?_
  intro i hi hi'
  rw [List.length_map] at hi hi'
  rw [List.getElem_map, List.getElem_map]
  have hfile := h.file i offer.files[i] r.slots[i].size r.slots[i].expected
    (List.getElem?_eq_getElem hi') (by simp [files, hi])
  rw [hfile.1]

omit [FileSink S] [LawfulFileSink S] in
/-- What is held of all files is not more than their sizes. -/
theorem Receiver.Inv.total_le {r : Receiver S} {offer : FileOffer} {config : ReceiverConfig}
    (h : r.Inv) (hserves : r.Serves offer config) :
    (r.contents.map List.length).sum ≤ offer.totalSize := by
  rw [FileOffer.totalSize, ← hserves.sizes, contents, List.map_map]
  refine List.sum_le_sum ?_
  intro slot hslot
  have hgood := h.good slot hslot
  rw [Function.comp_apply, hgood.held]
  exact UInt64.le_iff_toNat_le.1 hgood.le_size

theorem Receiver.pairwise_acks (r : Receiver S) (chunks : List FileChunk) :
    (((machine.trace r chunks).flatMap fun e => sentBack e.output).filterMap
      Outbound.ack?).Pairwise fun a b =>
        a.fileIndex = b.fileIndex → a.ackedThrough ≤ b.ackedThrough := by
  rw [List.filterMap_flatMap]
  -- The receiver remembers an ack by holding no less of its file ever after.
  refine machine.pairwise_emit (P := fun t a =>
    ∀ b, t.ackedThrough[a.fileIndex.toNat]? = some b → a.ackedThrough ≤ b) ?_ ?_ ?_ ?_ r chunks
  · intro t chunk a hP b hb
    obtain ⟨b₀, hb₀, hle⟩ := le_ackedThrough_onChunk hb
    exact UInt64.le_trans (hP b₀ hb₀) hle
  · intro t chunk a ha b hb
    rcases t.acks_sent chunk with hnone | ⟨id, acked, hone, hacked⟩
    · exact absurd (hnone ▸ ha) List.not_mem_nil
    · rw [List.mem_singleton.1 (hone ▸ ha : a ∈ [_])] at hb ⊢
      rw [show (machine.step t chunk).1 = (t.onChunk chunk).1 from rfl, hacked] at hb
      cases hb
      exact UInt64.le_refl _
  · intro t chunk a hP c hc hindex
    rcases t.acks_sent chunk with hnone | ⟨id, acked, hone, hacked⟩
    · exact absurd (hnone ▸ hc) List.not_mem_nil
    · rw [List.mem_singleton.1 (hone ▸ hc : c ∈ [_])] at hindex ⊢
      obtain ⟨b, hb, hle⟩ := le_ackedThrough_onChunk hacked
      have hindex' : a.fileIndex = chunk.fileIndex := hindex
      rw [← hindex'] at hb
      exact UInt64.le_trans (hP b hb) hle
  · intro t chunk
    rcases t.acks_sent chunk with hnone | ⟨id, acked, hone, -⟩
    · rw [show (machine.entry t chunk).output = (t.onChunk chunk).2 from rfl, hnone]
      exact .nil
    · rw [show (machine.entry t chunk).output = (t.onChunk chunk).2 from rfl, hone]
      exact List.pairwise_singleton _ _

theorem Receiver.Serves.onChunk {r : Receiver S} {offer : FileOffer} {config : ReceiverConfig}
    (h : r.Serves offer config) (chunk : FileChunk) : (r.onChunk chunk).1.Serves offer config := by
  refine ⟨?_, ?_⟩ <;> rw [r.files_onChunk chunk]
  · exact h.length_eq
  · exact h.file

/-- The number of `FileDone`s that a receiver has sent. -/
def Receiver.donesSent (r : Receiver S) : ℕ := if r.doneEmitted = true then 1 else 0

/-- **The run lemma of the receiver.** -/
theorem Receiver.run_inv {r : Receiver S} {offer : FileOffer} {config : ReceiverConfig}
    {rest : List Outbound} (h : r.Inv) (hserves : r.Serves offer config)
    (hrest : (rest.filterMap Outbound.done?).length = r.donesSent) (chunks : List FileChunk) :
    (machine.exec r chunks).Inv ∧ (machine.exec r chunks).Serves offer config ∧
      ((rest ++ (machine.trace r chunks).flatMap fun e => sentBack e.output).filterMap
        Outbound.done?).length = (machine.exec r chunks).donesSent := by
  refine machine.induct (G := fun _ => True) (P := fun tr t => t.Inv ∧ t.Serves offer config ∧
    ((rest ++ tr.flatMap fun e => sentBack e.output).filterMap Outbound.done?).length =
      t.donesSent) ⟨h, hserves, by rwa [List.flatMap_nil, List.append_nil]⟩ ?_ chunks
    fun _ _ => trivial
  rintro tr t chunk ⟨hinv, hserves, hcount⟩ -
  refine ⟨hinv.onChunk chunk, hserves.onChunk chunk, ?_⟩
  rw [List.flatMap_append, List.flatMap_singleton, ← List.append_assoc, List.filterMap_append,
    List.length_append, hcount]
  change t.donesSent + ((sentBack (t.onChunk chunk).2).filterMap Outbound.done?).length =
    (t.onChunk chunk).1.donesSent
  unfold donesSent
  rcases hinv.dones_sent chunk with ⟨hnone, hsame⟩ | ⟨d, hone, hopen, hannounces⟩
  · rw [hnone, hsame]
    rfl
  · rw [hone, hopen, hannounces.1]
    rfl

variable {makeSink : W → ℕ → OsStr → W × Except SinkError S} {offer : FileOffer}
  {config : ReceiverConfig} {w w' : W} {r : Receiver S} {m : FileAccept} {rest : List Outbound}
  {plans : List (OsStr × Option Hash)} {slots : List (Slot S)} {done : Option FileDone}

/-- What is sent behind the `FileAccept`: nothing, or the `FileDone` of a transfer that had all. -/
theorem Accepts.announces (h : Accepts makeSink offer config w w' r m rest plans slots done) :
    (rest = [] ∧ r.doneEmitted = false) ∨ ∃ d, rest = [.done d] ∧ r.Announces d := by
  rcases (Receiver.finalized h.finalize).announces with ⟨rfl, hsame⟩ | ⟨d, rfl, hd⟩
  · exact .inl ⟨h.rest_eq, hsame⟩
  · exact .inr ⟨d, h.rest_eq, hd⟩

end

/-- **A hostile sender is contained.** -/
theorem hostile_sender_contained {S W : Type} [Sha256] [FileSink S] [SinkContent S]
    [LawfulFileSink S] (makeSink : W → ℕ → OsStr → W × Except SinkError S) (offer : FileOffer)
    (config : ReceiverConfig) (w w' : W) (r : Receiver S) (m : FileAccept) (rest : List Outbound)
    (h : acceptOffer makeSink offer config w = .ok (w', .ok (r, .accept m :: rest)))
    (chunks : List FileChunk) :
    Contained offer config r rest (Receiver.machine.trace r chunks)
      (Receiver.machine.exec r chunks) := by
  obtain ⟨plans, slots, done, haccepts⟩ := acceptOffer_accepts h
  have hinv := haccepts.inv
  have hserves := haccepts.serves
  have hrest : (rest.filterMap Outbound.done?).length = r.donesSent := by
    rcases haccepts.announces with ⟨rfl, hopen⟩ | ⟨d, rfl, hd⟩
    · rw [Receiver.donesSent, hopen]
      rfl
    · rw [Receiver.donesSent, hd.1]
      rfl
  have hrest' : ∀ d, Outbound.done d ∈ rest → r.Announces d := by
    intro d hd
    rcases haccepts.announces with ⟨rfl, -⟩ | ⟨d', rfl, hd'⟩
    · cases hd
    · cases List.mem_singleton.1 hd
      exact hd'
  obtain ⟨hinv', hserves', hdones⟩ := Receiver.run_inv hinv hserves hrest chunks
  have hall : ∀ e ∈ Receiver.machine.trace r chunks, e.pre.Inv ∧ e.pre.Serves offer config ∧
      e.post = (e.pre.onChunk e.input).1 ∧ e.output = (e.pre.onChunk e.input).2 := by
    intro e he
    obtain ⟨js, chunk, ks, -, rfl⟩ := Receiver.machine.mem_trace_iff.1 he
    obtain ⟨hpre, hpre', -⟩ := Receiver.run_inv hinv hserves hrest js
    exact ⟨hpre, hpre', rfl, rfl⟩
  refine ⟨?_, ?_, ?_, r.pairwise_acks chunks, ?_, ?_, ?_, ?_, ?_⟩
  · refine ⟨?_, ?_⟩
    · rw [← hserves'.length_eq, Receiver.files, List.length_map]
    · intro i entry slot hentry hslot
      have hgood := hinv'.good slot (List.mem_of_getElem? hslot)
      obtain ⟨hsize, -⟩ := hserves'.file i entry slot.size slot.expected hentry (by
        rw [Receiver.files, List.getElem?_map, hslot]
        rfl)
      exact ⟨hsize, hgood.held, hsize ▸ hgood.le_size⟩
  · intro e he
    obtain ⟨hpre, -, hpost, -⟩ := hall e he
    rw [hpost]
    exact hpre.contents_onChunk e.input
  · exact ⟨hinv'.total_le hserves', fun max hmax htop => totalSize_le haccepts.limits hmax htop⟩
  · rw [hdones, Receiver.donesSent]
    split <;> omega
  · refine ⟨fun d hd hok => hinv.delivered hserves ((hrest' d hd).2.1 hok), ?_⟩
    intro e he d hd hok
    obtain ⟨hpre, hserves, hpost, houtput⟩ := hall e he
    rw [houtput] at hd
    rw [hpost]
    exact (hpre.onChunk e.input).delivered (hserves.onChunk e.input)
      ((hpre.announces_sent hd).2.1 hok)
  · refine ⟨fun d hd hfailed => (hrest' d hd).2.2 hfailed, ?_⟩
    intro e he d hd hfailed
    obtain ⟨hpre, -, hpost, houtput⟩ := hall e he
    rw [houtput] at hd
    rw [hpost]
    exact (hpre.announces_sent hd).2.2 hfailed
  · intro e he haborted
    obtain ⟨-, -, hpost, -⟩ := hall e he
    rw [hpost, Receiver.onChunk_aborted haborted]
  · intro e he error herror
    obtain ⟨-, -, hpost, houtput⟩ := hall e he
    rw [houtput] at herror
    rw [hpost, Receiver.onChunk_error herror]

section

attribute [local instance] Sha256.abc

/-- The offer of a file that holds `abc`. -/
def abcOffer : FileOffer := ⟨7, [⟨"a.txt", 3, some Hash.ofAbc.bytes⟩]⟩

/-- The receiver of that file, which opens empty. -/
def abcReceiver : Receiver MemSink :=
  ⟨7, OsStr.new "/quarantine", [⟨3, 0, false, MemSink.new, some Hash.ofAbc⟩], false, false⟩

theorem abc_contained :
    Contained abcOffer (.new (OsStr.new "/quarantine")) abcReceiver []
      (Receiver.machine.trace abcReceiver [⟨7, 0, 1, [98]⟩, ⟨7, 0, 0, [97, 98, 99]⟩])
      (Receiver.machine.exec abcReceiver [⟨7, 0, 1, [98]⟩, ⟨7, 0, 0, [97, 98, 99]⟩]) :=
  hostile_sender_contained (fun (_ : Unit) _ _ => ((), .ok MemSink.new)) abcOffer
    (.new (OsStr.new "/quarantine")) () () abcReceiver ⟨7, []⟩ [] (by decide +kernel)
    [⟨7, 0, 1, [98]⟩, ⟨7, 0, 0, [97, 98, 99]⟩]

end

end Mouser
