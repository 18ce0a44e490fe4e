import Mouser.Clipboard.Pulls

/-!
# A clip makes the round trip

What one device offers reaches the other as it was offered. The two halves meet at `Streams`, the
shape of the messages that carry a content: `chunkData_streams` says that what a pull is answered
with has this shape, `outputs_of_streams` that messages of this shape are taken one after another
and give the content with the last. `round_trip` puts the offer and the pull before them.
-/

namespace Mouser

/-! ## The messages that carry a content -/

/-- The messages carry `bytes`, from `offset` on. -/
inductive Streams (hash : Hash) (format : ClipFormat) :
    ℕ → List UInt8 → List ClipboardData → Prop where
  | last {offset : ℕ} {data : List UInt8} (hlen : data.length ≤ maxDataChunk) :
    Streams hash format offset data
      [{ hash := hash.bytes, format, offset := .ofNat offset, data, last := true }]
  | more {offset : ℕ} {data rest : List UInt8} {chunks : List ClipboardData}
    (hlen : data.length ≤ maxDataChunk) (hne : data ≠ [])
    (h : Streams hash format (offset + data.length) rest chunks) :
    Streams hash format offset (data ++ rest)
      ({ hash := hash.bytes, format, offset := .ofNat offset, data, last := false } :: chunks)

theorem Streams.ne_nil {hash : Hash} {format : ClipFormat} {offset : ℕ} {bytes : List UInt8}
    {chunks : List ClipboardData} (h : Streams hash format offset bytes chunks) : chunks ≠ [] := by
  cases h <;> simp

/-- The messages of a content name it, and only the first of them stands at its start. -/
theorem Streams.mem {hash : Hash} {format : ClipFormat} {offset : ℕ} {bytes : List UInt8}
    {chunks : List ClipboardData} (h : Streams hash format offset bytes chunks)
    (hlen : offset + bytes.length < 2 ^ 64) :
    ∀ data ∈ chunks,
      data.hash = hash.bytes ∧ data.format = format ∧ offset ≤ data.offset.toNat := by
  induction h with
  | @last offset data _ =>
    intro chunk hchunk
    obtain rfl := List.mem_singleton.1 hchunk
    exact ⟨rfl, rfl,
      (UInt64.toNat_ofNat_of_lt' (Nat.lt_of_le_of_lt (Nat.le_add_right _ _) hlen)).ge⟩
  | @more offset data rest chunks _ _ _ ih =>
    rw [List.length_append] at hlen
    intro chunk hchunk
    rcases List.mem_cons.1 hchunk with rfl | hchunk
    · exact ⟨rfl, rfl,
        (UInt64.toNat_ofNat_of_lt' (Nat.lt_of_le_of_lt (Nat.le_add_right _ _) hlen)).ge⟩
    · obtain ⟨hhash, hformat, hoffset⟩ := ih (by omega) chunk hchunk
      exact ⟨hhash, hformat, Nat.le_of_add_right_le hoffset⟩

theorem Streams.mem_tail {hash : Hash} {format : ClipFormat} {offset : ℕ} {bytes : List UInt8}
    {chunks : List ClipboardData} (h : Streams hash format offset bytes chunks)
    (hlen : offset + bytes.length < 2 ^ 64) : ∀ data ∈ chunks.tail, offset < data.offset.toNat := by
  cases h with
  | last => exact List.forall_mem_nil _
  | @more _ data rest chunks _ hne h =>
    rw [List.length_append] at hlen
    intro chunk hchunk
    have hle := (h.mem (by omega) chunk hchunk).2.2
    have hpos := List.length_pos_of_ne_nil hne
    omega

theorem bulkChunks_streams (hash : Hash) (format : ClipFormat) (offset : ℕ) (bytes : List UInt8)
    (hne : bytes ≠ []) :
    Streams hash format offset bytes (bulkChunks hash format offset bytes) := by
  fun_induction bulkChunks hash format offset bytes with
  | case1 => exact absurd rfl hne
  | case2 offset bytes hbytes ih =>
    by_cases hlast : bytes.length ≤ maxDataChunk
    · rw [List.take_of_length_le hlast, List.drop_of_length_le hlast, bulkChunks, if_pos rfl,
        decide_eq_true hlast]
      exact .last hlast
    · have hdrop : bytes.drop maxDataChunk ≠ [] := by
        rw [Ne, List.drop_eq_nil_iff]
        exact hlast
      have htake : bytes.take maxDataChunk ≠ [] := by
        simp [hbytes, maxDataChunk]
      rw [decide_eq_false hlast]
      have hmore : Streams hash format offset (bytes.take maxDataChunk ++ bytes.drop maxDataChunk)
          ({ hash := hash.bytes, format, offset := .ofNat offset, data := bytes.take maxDataChunk
             last := false } :: _) :=
        .more (List.length_take_le _ _) htake (ih hdrop)
      rwa [List.take_append_drop] at hmore

/-- **A pull is answered by the messages that carry the content.** -/
theorem chunkData_streams (hash : Hash) (format : ClipFormat) (bytes : List UInt8) :
    Streams hash format 0 bytes (chunkData hash format bytes) := by
  unfold chunkData
  by_cases hcontrol : transportFor format bytes.length = .control
  · rw [if_pos hcontrol]
    refine .last ?_
    unfold transportFor at hcontrol
    split at hcontrol
    · next h =>
      simp only [Bool.and_eq_true, decide_eq_true_eq] at h
      exact h.2.trans (by decide)
    · cases hcontrol
  · rw [if_neg hcontrol]
    by_cases hnil : bytes = []
    · rw [if_pos hnil, hnil]
      exact .last (Nat.zero_le _)
    · rw [if_neg hnil]
      exact bulkChunks_streams hash format 0 bytes hnil

namespace ClipboardEngine

section

variable [Sha256]

/-! ## One message -/

/-- The pull under `k` is outstanding, with `sent` received and `rest` to come. -/
structure Receiving (e : ClipboardEngine) (k : PullKey) (peerOs : Os) (sent rest : List UInt8) :
    Prop where
  pull : ∃ p, e.pending.entries.lookup k = some p ∧ p.peerOs = peerOs ∧ p.reasm.buf = sent ∧
    p.reasm.done = false ∧ p.reasm.size.toNat = (sent ++ rest).length

theorem GatesOpen.onDataFrom {e : ClipboardEngine} {format : ClipFormat} {peerOs : Os}
    (h : e.GatesOpen format peerOs) (origin : DeviceId) (data : ClipboardData) :
    (e.onDataFrom origin data).1.GatesOpen format peerOs := by
  obtain ⟨-, hos, hsettings, -⟩ := e.onDataFrom_frame origin data
  exact ⟨hsettings ▸ h.receive, hsettings ▸ h.format, hsettings ▸ hos ▸ h.native⟩

/-- A chunk for an outstanding pull. -/
theorem onDataFrom_eq {e : ClipboardEngine} {k : PullKey} {data : ClipboardData} {p : Pending}
    (hlookup : e.pending.entries.lookup k = some p) (hhash : data.hash = k.hash.bytes)
    (hformat : data.format = k.format) :
    e.onDataFrom k.origin data = e.onDataForKey k data := by
  have hkey : e.pending.keyForOriginData k.origin data.format k.hash = .ok k :=
    PendingPulls.keyForOriginData_eq_ok.2 ⟨by rw [hformat], p, hlookup⟩
  rw [onDataFrom, parseHash_eq_ok_iff.2 hhash]
  dsimp only
  rw [hkey]

omit [Sha256] in
/-- The next message of the content is admitted. -/
theorem check_next {r : Reassembly} {sent data rest : List UInt8} (hbuf : r.buf = sent)
    (hdone : r.done = false) (hsize : r.size.toNat = (sent ++ (data ++ rest)).length)
    (hlen : data.length ≤ maxDataChunk) : r.check (.ofNat sent.length) data = .ok () := by
  refine Reassembly.check_eq_ok_iff.2 ⟨hdone, hlen, ?_, ?_⟩
  · rw [← hbuf]
    exact r.toNat_buf_length
  · rw [hbuf, hsize, ← List.append_assoc]
    exact (List.prefix_append _ _).length_le

theorem Receiving.more {e : ClipboardEngine} {k : PullKey} {peerOs : Os}
    {sent data rest : List UInt8} (h : e.Receiving k peerOs sent (data ++ rest))
    (hlen : data.length ≤ maxDataChunk) :
    let chunk : ClipboardData :=
      { hash := k.hash.bytes, format := k.format, offset := .ofNat sent.length, data
        last := false }
    (e.onDataFrom k.origin chunk).2 = .ok none ∧
      (e.onDataFrom k.origin chunk).1.Receiving k peerOs (sent ++ data) rest := by
  intro chunk
  obtain ⟨p, hlookup, hos, hbuf, hdone, hsize⟩ := h.pull
  have hcheck := check_next hbuf hdone hsize hlen
  have hpush := Reassembly.push_of_not_last hcheck
  have hreasm : (p.push chunk.offset chunk.data chunk.last).1.reasm =
      p.reasm.append data (Reassembly.check_eq_ok_iff.1 hcheck).2.2.2 := congrArg Prod.fst hpush
  have hresult : (p.push chunk.offset chunk.data chunk.last).2 = .ok none := congrArg Prod.snd hpush
  rw [onDataFrom_eq hlookup rfl rfl, onDataForKey_committed hlookup hresult]
  refine ⟨rfl, ⟨(p.push chunk.offset chunk.data chunk.last).1, ?_, hos, ?_, ?_, ?_⟩⟩
  · rw [PendingPulls.lookup_update, if_pos rfl]
  · rw [hreasm, Reassembly.append_buf, hbuf]
  · rw [hreasm]
    exact hdone
  · rw [hreasm, List.append_assoc]
    exact hsize

/-- The last message of the content completes it. -/
theorem Receiving.last {e : ClipboardEngine} {k : PullKey} {peerOs : Os} {sent data : List UInt8}
    (h : e.Receiving k peerOs sent data) (hlen : data.length ≤ maxDataChunk)
    (hhash : sha256 (sent ++ data) = k.hash) (hgates : e.GatesOpen k.format peerOs) :
    let chunk : ClipboardData :=
      { hash := k.hash.bytes, format := k.format, offset := .ofNat sent.length, data, last := true }
    (e.onDataFrom k.origin chunk).2 = .ok (some ⟨k.format, sent ++ data⟩) ∧
      (e.onDataFrom k.origin chunk).1.pending.entries.lookup k = none := by
  intro chunk
  obtain ⟨p, hlookup, rfl, hbuf, hdone, hsize⟩ := h.pull
  have hsize' : p.reasm.size.toNat = (sent ++ (data ++ [])).length := by
    rwa [List.append_nil]
  have hcheck := check_next hbuf hdone hsize' hlen
  have hpush : (p.push chunk.offset chunk.data chunk.last).2 = .ok (some (sent ++ data)) := by
    refine (congrArg Prod.snd (Reassembly.push_of_last hcheck)).trans ?_
    rcases (p.reasm.append data (Reassembly.check_eq_ok_iff.1 hcheck).2.2.2).finish_cases with
      ⟨-, -, heq⟩ | ⟨hbad, -⟩
    · rw [heq, Reassembly.append_buf, hbuf]
    · rw [Reassembly.append_buf, Reassembly.append_size, Reassembly.append_hash, hbuf, p.hash_eq,
        e.pending.keyed k p hlookup] at hbad
      rcases hbad with hbad | hbad
      · exact absurd hsize.symm hbad
      · exact absurd hhash hbad
  rw [onDataFrom_eq hlookup rfl rfl, onDataForKey_applied hlookup hpush hgates]
  refine ⟨rfl, ?_⟩
  rw [PendingPulls.lookup_remove, if_pos rfl]

/-- A message that does not go on where the content stands ends the pull. -/
theorem Receiving.mismatch {e : ClipboardEngine} {k : PullKey} {peerOs : Os}
    {sent rest : List UInt8} (h : e.Receiving k peerOs sent rest) {data : ClipboardData}
    (hhash : data.hash = k.hash.bytes) (hformat : data.format = k.format)
    (hoffset : data.offset.toNat ≠ sent.length) :
    (∃ err, (e.onDataFrom k.origin data).2 = .error err) ∧
      (e.onDataFrom k.origin data).1.pending.entries.lookup k = none := by
  obtain ⟨p, hlookup, hos, hbuf, hdone, hsize⟩ := h.pull
  cases hcheck : p.reasm.check data.offset data.data with
  | error err =>
    have hpush := congrArg Prod.snd (Reassembly.push_of_error hcheck data.last)
    rw [onDataFrom_eq hlookup hhash hformat, onDataForKey_refused hlookup hpush]
    refine ⟨⟨err, rfl⟩, ?_⟩
    rw [PendingPulls.lookup_remove, if_pos rfl]
  | ok u =>
    rw [← hbuf] at hoffset
    exact absurd (Reassembly.check_eq_ok_iff.1 hcheck).2.2.1 hoffset

/-- A message for a pull that is not outstanding. -/
theorem onDataFrom_unknown {e : ClipboardEngine} {k : PullKey} {data : ClipboardData}
    (hlookup : e.pending.entries.lookup k = none) (hhash : data.hash = k.hash.bytes)
    (hformat : data.format = k.format) :
    (∃ err, (e.onDataFrom k.origin data).2 = .error err) ∧
      (e.onDataFrom k.origin data).1.pending.entries.lookup k = none := by
  rw [onDataFrom, parseHash_eq_ok_iff.2 hhash]
  dsimp only
  cases hkey : e.pending.keyForOriginData k.origin data.format k.hash with
  | error err => exact ⟨⟨err, rfl⟩, hlookup⟩
  | ok key =>
    obtain ⟨rfl, p, hp⟩ := PendingPulls.keyForOriginData_eq_ok.1 hkey
    rw [hformat, hlookup] at hp
    cases hp

/-! ## All messages -/

variable {S : Type} [ClipContentSource S]

/-- **The messages of a content give the content**, with the last of them and not before. -/
theorem outputs_of_streams {e : ClipboardEngine} {k : PullKey} {peerOs : Os}
    {sent bytes : List UInt8} {chunks : List ClipboardData}
    (hstreams : Streams k.hash k.format sent.length bytes chunks)
    (h : e.Receiving k peerOs sent bytes) (hhash : sha256 (sent ++ bytes) = k.hash)
    (hgates : e.GatesOpen k.format peerOs) :
    ((machine S).trace e (chunks.map (.dataFrom k.origin))).map (·.output) =
      List.replicate (chunks.length - 1) (.clip (.ok none)) ++
        [.clip (.ok (some ⟨k.format, sent ++ bytes⟩))] := by
  generalize hoffset : sent.length = offset at hstreams
  induction hstreams generalizing e sent with
  | last hlen =>
    subst hoffset
    have hout := (h.last hlen hhash hgates).1
    exact congrArg (fun r => [ClipboardOutput.clip r]) hout
  | @more offset data rest chunks hlen hne hrest ih =>
    subst hoffset
    obtain ⟨hout, hnext⟩ := h.more hlen
    have hrest' := ih hnext (by rwa [List.append_assoc]) (hgates.onDataFrom _ _)
      List.length_append
    obtain ⟨n, hn⟩ := Nat.exists_eq_succ_of_ne_zero (mt List.length_eq_zero_iff.1 hrest.ne_nil)
    rw [List.append_assoc, hn] at hrest'
    rw [List.map_cons, Machine.trace_cons, List.map_cons, List.length_cons, hn]
    exact congrArg₂ List.cons (congrArg ClipboardOutput.clip hout) hrest'

/-! ## The round trip -/

omit [Sha256] in
/-- A pull that was just issued has everything to come. -/
theorem Accepts.receiving {e : ClipboardEngine} {offer : ClipboardOffer} {peerOs : Os}
    {origin : DeviceId} {entry : ClipboardEntry} {hash : Hash} {bytes : List UInt8}
    (h : e.Accepts offer peerOs origin entry hash) (hsize : entry.size.toNat = bytes.length) :
    (e.onOffer offer peerOs).1.Receiving { origin, format := entry.format, hash } peerOs []
      bytes := by
  rw [h.onOffer_eq]
  exact ⟨_, PendingPulls.lookup_insert_self _ _, rfl, rfl, rfl, hsize⟩

omit [Sha256] in
theorem Accepts.gatesOpen {e : ClipboardEngine} {offer : ClipboardOffer} {peerOs : Os}
    {origin : DeviceId} {entry : ClipboardEntry} {hash : Hash}
    (h : e.Accepts offer peerOs origin entry hash) {format : ClipFormat}
    (hgates : e.GatesOpen format peerOs) : (e.onOffer offer peerOs).1.GatesOpen format peerOs := by
  rw [h.onOffer_eq]
  exact ⟨hgates.receive, hgates.format, hgates.native⟩

omit [Sha256] in
/-- Every format that can be enabled has its place among the preferred ones. -/
theorem preferenceRank_of_formatEnabled {settings : ClipboardSettings} {format : ClipFormat}
    (h : settings.formatEnabled format = true) : ∃ rank, preferenceRank format = some rank := by
  cases format with
  | unknown => cases h
  | utf8Text => exact ⟨4, by decide⟩
  | html => exact ⟨2, by decide⟩
  | rtf => exact ⟨1, by decide⟩
  | uriList => exact ⟨3, by decide⟩
  | png => exact ⟨0, by decide⟩

omit [Sha256] in
/-- An offer of a single representation that the settings allow. -/
theorem bestEntry_single {e : ClipboardEngine} {entry : ClipboardEntry}
    (hformat : e.settings.formatEnabled entry.format = true)
    (hlimit : e.settings.withinAutoSyncLimit entry.size = true) (origin : List UInt8) :
    e.bestEntry { entries := [entry], origin } = some entry := by
  obtain ⟨rank, hrank⟩ := preferenceRank_of_formatEnabled hformat
  have hfilter : ([entry].filter fun entry => e.settings.formatEnabled entry.format) = [entry] := by
    rw [List.filter_cons_of_pos (by exact hformat), List.filter_nil]
  unfold bestEntry
  rw [hfilter, List.filter_cons_of_pos (by exact hlimit), List.filter_nil,
    List.filterMap_cons_some (b := (rank, entry)) (by rw [hrank]; rfl), List.filterMap_nil,
    List.argmin_singleton]
  rfl

theorem onLocalChange_settings (e : ClipboardEngine) (reps : List LocalRepr) :
    (e.onLocalChange reps).1.settings = e.settings := by
  unfold onLocalChange
  split <;> rfl

omit [Sha256] in
/-- A pull of what the source holds. -/
theorem onPull_eq {e : ClipboardEngine} {source : S} {format : ClipFormat} {hash : Hash}
    {bytes : List UInt8} (hoffer : e.settings.canOffer = true)
    (hformat : e.settings.formatEnabled format = true)
    (hsource : ClipContentSource.canonicalBytes source format hash = some bytes) :
    e.onPull { hash := hash.bytes, format } source = .ok (chunkData hash format bytes) := by
  unfold onPull
  rw [hoffer, if_neg (by decide), hformat, if_neg (by decide), parseHash_eq_ok_iff.2 rfl]
  dsimp only
  rw [hsource]

/-- **The round trip.** A representation that one device offers, and that is not the echo of a clip
it applied, is pulled by the other and comes out once, with the last of the messages that answer the
pull, in its canonical form. -/
theorem round_trip {a b : ClipboardEngine} {peerOs : Os} {source : S} {format : ClipFormat}
    {bytes : List UInt8} (hother : a.deviceId ≠ b.deviceId) (hoffer : a.settings.canOffer = true)
    (hformat : a.settings.formatEnabled format = true) (hgates : b.GatesOpen format peerOs)
    (hlen : bytes.length < 2 ^ 64)
    (hlimit : b.settings.withinAutoSyncLimit (.ofNat (canonical format bytes).length) = true)
    (hecho : ¬ a.applied.Pends format (contentHash format bytes))
    (hsource : ClipContentSource.canonicalBytes source format (contentHash format bytes) =
      some (canonical format bytes)) :
    ∃ offer pull chunks, (a.onLocalChange [⟨format, bytes⟩]).2 = some offer ∧
      (b.onOffer offer peerOs).2 = .ok (some pull) ∧
      (a.onLocalChange [⟨format, bytes⟩]).1.onPull pull source = .ok chunks ∧
      ((machine S).trace (b.onOffer offer peerOs).1
          (chunks.map (.dataFrom a.deviceId))).map (·.output) =
        List.replicate (chunks.length - 1) (.clip (.ok none)) ++
          [.clip (.ok (some ⟨format, canonical format bytes⟩))] := by
  have hoffered := a.onLocalChange_single hoffer hformat bytes
  rw [if_neg hecho] at hoffered
  have haccepts : b.Accepts { entries := [{
      format
      hash := (contentHash format bytes).bytes
      size := .ofNat (canonical format bytes).length }], origin := a.deviceId.bytes }
      peerOs a.deviceId
      { format
        hash := (contentHash format bytes).bytes
        size := .ofNat (canonical format bytes).length } (contentHash format bytes) :=
    { receive := hgates.receive
      origin_eq := parseDeviceId_eq_ok_iff.2 rfl
      other := hother
      native := hgates.native
      best := bestEntry_single hgates.format hlimit _
      hash_eq := parseHash_eq_ok_iff.2 rfl }
  have hpull : (b.onOffer _ peerOs).2 = .ok (some ⟨(contentHash format bytes).bytes, format⟩) :=
    congrArg Prod.snd haccepts.onOffer_eq
  have hsize : (UInt64.ofNat (canonical format bytes).length).toNat =
      (canonical format bytes).length :=
    UInt64.toNat_ofNat_of_lt' ((length_canonical_le format bytes).trans_lt hlen)
  have hreceiving := haccepts.receiving hsize
  have hopen := haccepts.gatesOpen hgates
  refine ⟨_, _, _, hoffered, hpull, ?_, outputs_of_streams (chunkData_streams _ _ _) hreceiving
    rfl hopen⟩
  have hsettings := a.onLocalChange_settings [⟨format, bytes⟩]
  exact onPull_eq (hsettings.symm ▸ hoffer) (hsettings.symm ▸ hformat) hsource

end

/-- The text `abc` goes from the second device to the first. -/
theorem round_trip_abc :
    letI := Sha256.abc
    let a := new (.fill 2) .windows .initial
    let b := new (.fill 1) .linux .initial
    let source := MemContentSource.new.insert .utf8Text Hash.ofAbc [97, 98, 99]
    contentHash .utf8Text [97, 98, 99] = Hash.ofAbc ∧
    ∃ offer pull chunks, (a.onLocalChange [⟨.utf8Text, [97, 98, 99]⟩]).2 = some offer ∧
      (b.onOffer offer .windows).2 = .ok (some pull) ∧
      (a.onLocalChange [⟨.utf8Text, [97, 98, 99]⟩]).1.onPull pull source = .ok chunks ∧
      ((machine MemContentSource).trace (b.onOffer offer .windows).1
          (chunks.map (.dataFrom a.deviceId))).map (·.output) =
        List.replicate (chunks.length - 1) (.clip (.ok none)) ++
          [.clip (.ok (some ⟨.utf8Text, [97, 98, 99]⟩))] := by
  let _ : Sha256 := Sha256.abc
  intro a b source
  refine ⟨by decide +kernel, ?_⟩
  have hother : a.deviceId ≠ b.deviceId := by
    decide
  have hgates : b.GatesOpen .utf8Text .windows := ⟨rfl, rfl, rfl⟩
  have hecho : ¬ a.applied.Pends .utf8Text (contentHash .utf8Text [97, 98, 99]) := by
    decide +kernel
  have hsource : ClipContentSource.canonicalBytes source .utf8Text
      (contentHash .utf8Text [97, 98, 99]) = some (canonical .utf8Text [97, 98, 99]) := by
    decide +kernel
  exact round_trip hother rfl rfl hgates (by decide) rfl hecho hsource

end ClipboardEngine

end Mouser
