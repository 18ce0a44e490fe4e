import Mouser.Files.Lossy

/-!
# A gap

The receiver answers a chunk beyond what it holds with an ack of what it holds, for the sender to go
back there. To the sender this is a stale ack, and it never goes back: `Beyond` is what holds of the
file from then on.
-/

namespace Mouser

section

variable {Src S W : Type} [FileSource Src] [FileSink S]

/-! ## What a gap is to lead to -/

/-- A chunk beyond what the receiver holds of file `i` arrives, and is answered, with `out`, by an
ack of what it holds. -/
structure AnswersGap (i : UInt32) (held : UInt64) (t : Transfer Src S W) (out : List Outbound) :
    Prop where
  arrives : ∃ c rest, t.toReceiver = .chunk c :: rest ∧ c.fileIndex = i ∧ held < c.offset
  holds : ∃ r, t.receiver = some r ∧ r.ackedThrough[i.toNat]? = some held
  answer : ∃ id, out = [.ack ⟨id, i, held⟩]

variable (makeSink : W → ℕ → OsStr → W × Except SinkError S) (config : ReceiverConfig)

/-- A chunk of file `i` that starts at `held` is in flight, or is the next one of it to be sent. -/
def Resends (i : UInt32) (held : UInt64) (t : Transfer Src S W) : Prop :=
  (∃ c, .chunk c ∈ t.toReceiver ∧ c.fileIndex = i ∧ c.offset = held) ∨
    ∃ events c rest, sentIn i ((Transfer.lossy makeSink config).trace t events) = c :: rest ∧
      c.offset = held

/-- The transfer can still be reported as done. -/
def Completes (t : Transfer Src S W) : Prop :=
  ∃ events, ∃ e ∈ (Transfer.lossy makeSink config).trace t events, ∃ id,
    .done ⟨id, true⟩ ∈ e.output

/-- After the events `before` a message is delivered to the receiver, and at the end of the events
`mid` that follow, the sender processes the last message that is sent back for it. -/
structure Processes (t₀ : Transfer Src S W) (before mid : List LossyEvent) : Prop where
  last : ∃ init, mid = init ++ [.run .answer]
  count_eq : mid.count (.run .answer) =
    ((Transfer.lossy makeSink config).exec t₀ (before ++ [.run .receive])).toSender.length

/-- Whenever the receiver has answered a gap and the sender has processed the ack, the chunk that is
missing is sent again, and the transfer can get done. -/
def Recovers (t₀ : Transfer Src S W) (events : List LossyEvent) : Prop :=
  ∀ before mid after, events = before ++ .run .receive :: (mid ++ after) →
    Processes makeSink config t₀ before mid → ∀ i held,
    AnswersGap i held ((Transfer.lossy makeSink config).exec t₀ before)
      (((Transfer.lossy makeSink config).exec t₀ before).step makeSink config .receive).2 →
    Resends makeSink config i held
      ((Transfer.lossy makeSink config).exec t₀ (before ++ .run .receive :: mid)) ∧
    Completes makeSink config
      ((Transfer.lossy makeSink config).exec t₀ (before ++ .run .receive :: mid))

/-- Nothing of file `i` from `held` on will ever be sent again, and neither side gets done. -/
structure Wedged (i : UInt32) (held : UInt64) (t : Transfer Src S W) : Prop where
  lost : ¬ Resends makeSink config i held t
  undone : ¬ Completes makeSink config t
  receiver : ∃ r, t.receiver = some r ∧ r.ackedThrough[i.toNat]? = some held ∧
    r.isComplete = false
  sender : t.sender.isComplete = false

omit [FileSource Src] [FileSink S] in
/-- A chunk arrives, at a receiver that has not aborted, behind one of its file among `lost`. -/
def ArrivesBehind (lost : List FileChunk) (t : Transfer Src S W) : Prop :=
  ∃ r c rest, t.receiver = some r ∧ r.aborted = false ∧ t.toReceiver = .chunk c :: rest ∧
    ∃ d ∈ lost, d.fileIndex = c.fileIndex ∧ d.offset < c.offset

variable {makeSink config}

/-- A gap is answered just when a chunk arrives behind one of its file that is lost. -/
theorem Spread.gap_iff {s₀ : Sender Src} {lost : List FileChunk} {t : Transfer Src S W}
    (makeSink : W → ℕ → OsStr → W × Except SinkError S)
    (config : ReceiverConfig) (h : Spread s₀ lost t) :
    (∃ i held, AnswersGap i held t (t.step makeSink config .receive).2) ↔
      ArrivesBehind lost t := by
  refine ⟨?_, ?_⟩
  · rintro ⟨i, held, ⟨c, rest, hinbound, rfl, hbeyond⟩, ⟨r, hr, hheld⟩, id, hanswer⟩
    cases h with
    | offered => cases hinbound
    | failed => cases hinbound
    | answered => cases hinbound
    | @ended s w r' chunks out haborted =>
      cases chunks with
      | nil => cases hinbound
      | cons c' chunks =>
        have hquiet : sentBack (r'.onChunk c').2 = [] := Receiver.sentBack_aborted haborted
        have hout : sentBack (r'.onChunk c').2 = [.ack ⟨id, c.fileIndex, held⟩] := hanswer
        rw [hquiet] at hout
        cases hout
    | @running s w r' chunks out hunderway hrunning hid hslots hproper hflows =>
      cases chunks with
      | nil => cases hinbound
      | cons c' chunks =>
        cases hinbound
        cases hr
        obtain ⟨slot, track, hslot, htrack⟩ := Spread.file_of hunderway hslots (hproper c (.head _))
        have hstreams := (hflows _ slot track hslot htrack).streams
        rw [Receiver.ackedThrough, List.getElem?_map, hslot] at hheld
        cases hheld
        rw [spans_cons_self rfl] at hstreams
        obtain ⟨u, hu, hlt⟩ := hstreams.beyond_iff.1 (UInt64.lt_iff_toNat_lt.1 hbeyond)
        obtain ⟨d, hd, hindex, rfl⟩ := mem_spans.1 hu
        exact ⟨r, c, chunks.map .chunk, rfl, hrunning, rfl, d, hd, UInt32.toNat_inj.1 hindex,
          UInt64.lt_iff_toNat_lt.2 hlt⟩
  · rintro ⟨r, c, rest, hr, hopen, hinbound, d, hd, hindex, hlt⟩
    cases h with
    | offered => cases hr
    | failed => cases hr
    | answered => cases hinbound
    | ended haborted =>
      cases hr
      rw [hopen] at haborted
      cases haborted
    | @running s w r' chunks out hunderway hrunning hid hslots hproper hflows =>
      cases hr
      cases chunks with
      | nil => cases hinbound
      | cons c' chunks =>
        cases hinbound
        have hc := hproper c (.head _)
        obtain ⟨slot, track, hslot, htrack⟩ := Spread.file_of hunderway hslots hc
        have hflow := hflows _ slot track hslot htrack
        obtain ⟨-, -, hfits, -⟩ := hflow.head rfl
        have hstreams := hflow.streams
        rw [spans_cons_self rfl] at hstreams
        have hbeyond : slot.acked < c.offset := UInt64.lt_iff_toNat_lt.2
          (hstreams.beyond_iff.2 ⟨_, mem_spans.2 ⟨d, hd, congrArg UInt32.toNat hindex, rfl⟩,
            UInt64.lt_iff_toNat_lt.1 hlt⟩)
        have hagain := Receiver.onChunk_again (hc.1.trans hid.symm) hrunning hc.2.1 hslot
          (Ne.symm (UInt64.ne_of_lt hbeyond)) hfits
        refine ⟨c.fileIndex, slot.acked, ⟨c, chunks.map .chunk, rfl, rfl, hbeyond⟩, ⟨r, rfl, ?_⟩,
          r.transferId, ?_⟩
        · rw [Receiver.ackedThrough, List.getElem?_map, hslot]
          rfl
        · exact congrArg (fun result => sentBack result.2) hagain

end

/-! ## Behind a gap -/

section

variable {Src S : Type} {i : UInt32} {held : UInt64}

/-- What the sender does with file `i` when the receiver holds `held` of it: it is beyond that. -/
structure Sender.Ahead (i : UInt32) (held : UInt64) (s : Sender Src) : Prop where
  small : s.chunkSize ≤ maxChunkSize
  length_lt : s.tracks.length < 2 ^ 32
  accepted : s.accepted = true
  file : ∃ t, s.tracks[i.toNat]? = some t ∧ held < t.sent ∧ t.acked ≤ held ∧ held < t.size

theorem Sender.Ahead.put {s : Sender Src} (h : s.Ahead i held) {k : ℕ} {t t' : Track Src}
    (ht : s.tracks[k]? = some t) (hsize : t'.size = t.size)
    (ht' : k = i.toNat → held < t.sent → t.acked ≤ held → held < t'.sent ∧ t'.acked ≤ held) :
    Sender.Ahead i held { s with tracks := s.tracks.set k t' } := by
  obtain ⟨track, htrack, hsent, hacked, hlt⟩ := h.file
  refine ⟨h.small, by rw [List.length_set]; exact h.length_lt, h.accepted, ?_⟩
  by_cases hk : k = i.toNat
  · subst hk
    obtain ⟨hbound, -⟩ := List.getElem?_eq_some_iff.1 ht
    rw [ht] at htrack
    cases htrack
    obtain ⟨hsent', hacked'⟩ := ht' rfl hsent hacked
    exact ⟨t', List.getElem?_set_self hbound, hsent', hacked', hsize ▸ hlt⟩
  · exact ⟨track, by rw [List.getElem?_set_ne hk]; exact htrack, hsent, hacked, hlt⟩

theorem Sender.Ahead.incomplete {s : Sender Src} (h : s.Ahead i held) : s.isComplete = false := by
  obtain ⟨t, ht, -, hacked, hsize⟩ := h.file
  rw [Sender.isComplete, Bool.and_eq_false_iff]
  refine .inr (List.all_eq_false.2 ⟨t, List.mem_of_getElem? ht, ?_⟩)
  rw [decide_eq_true_eq]
  exact UInt64.not_le.2 (UInt64.lt_of_le_of_lt hacked hsize)

/-- The receiver holds `held` of file `i`, which is not all of it. -/
def Receiver.Short (i : UInt32) (held : UInt64) (r : Receiver S) : Prop :=
  ∃ slot, r.slots[i.toNat]? = some slot ∧ slot.acked = held ∧ held < slot.size ∧
    slot.complete = false

/-- A chunk beyond what is held brings the file no further. -/
theorem Receiver.Short.onChunk [FileSink S] {r : Receiver S} (h : r.Short i held) {c : FileChunk}
    (hc : c.fileIndex = i → held < c.offset) :
    (r.onChunk c).1.Short i held ∧
      (∀ m, .ack m ∈ sentBack (r.onChunk c).2 → m.fileIndex = i → m.ackedThrough ≤ held) ∧
      ∀ id, .done ⟨id, true⟩ ∉ sentBack (r.onChunk c).2 := by
  obtain ⟨slot, hslot, hacked, hsize, hopen⟩ := h
  have hcases := Receiver.onChunk_cases r c
  generalize r.onChunk c = result at hcases ⊢
  -- The chunk that is next is one of another file.
  have hother : ∀ {slot' : Slot S} {stop : UInt64}, r.Next c slot' stop → c.fileIndex ≠ i := by
    rintro slot' stop hnext rfl
    have hfound := hnext.found
    rw [hslot] at hfound
    cases hfound
    exact UInt64.ne_of_lt (hc rfl) (hnext.offset_eq.trans hacked).symm
  have hput : ∀ {slot' : Slot S} {stop : UInt64}, r.Next c slot' stop → ∀ slot'' : Slot S,
      (r.putSlot c.fileIndex slot'').slots[i.toNat]? = some slot := by
    intro slot' stop hnext slot''
    rw [Receiver.putSlot, List.getElem?_set_ne fun heq => hother hnext (UInt32.toNat_inj.1 heq)]
    exact hslot
  cases hcases with
  | refused | ended =>
    refine ⟨⟨slot, hslot, hacked, hsize, hopen⟩, ?_, ?_⟩
    · intro m hm
      cases hm
    · intro id hid
      cases hid
  | again hslot' =>
    refine ⟨⟨slot, hslot, hacked, hsize, hopen⟩, ?_, ?_⟩
    · intro m hm hi
      cases List.mem_singleton.1 hm
      dsimp only at hi
      rw [hi, hslot] at hslot'
      cases hslot'
      exact UInt64.le_of_eq hacked
    · intro id hid
      cases List.mem_singleton.1 hid
  | failed hnext hwrite =>
    refine ⟨⟨slot, hput hnext _, hacked, hsize, hopen⟩, ?_, ?_⟩
    · intro m hm
      cases List.mem_singleton.1 hm
    · intro id hid
      cases List.mem_singleton.1 hid
  | @written slot' stop sink r' done hnext hwrite hfinalize =>
    have hsettled := Receiver.settled hfinalize
    obtain ⟨slot₁, hslot₁, hs⟩ := hsettled.slots.of_getElem?_left (hput hnext _)
    have hopen₁ : slot₁.complete = false := by
      by_contra hcomplete
      rcases hs.newly (Bool.of_not_eq_false hcomplete) with hdone | hfull
      · rw [hopen] at hdone
        cases hdone
      · rw [hacked] at hfull
        exact UInt64.not_le.2 hsize hfull
    refine ⟨⟨slot₁, hslot₁, hs.acked_eq.trans hacked, by rw [hs.size_eq]; exact hsize, hopen₁⟩, ?_,
      ?_⟩
    · intro m hm hi
      rcases List.mem_cons.1 hm with heq | hm
      · cases heq
        exact absurd hi (hother hnext)
      · cases done with
        | none => cases hm
        | some d => cases List.mem_singleton.1 hm
    · intro id hid
      rcases List.mem_cons.1 hid with heq | hid
      · cases heq
      · cases done with
        | none => cases hid
        | some d =>
          cases List.mem_singleton.1 hid
          have hall := hsettled.done id rfl slot₁ (List.mem_of_getElem? hslot₁)
          rw [hopen₁] at hall
          cases hall

theorem Receiver.Short.incomplete {r : Receiver S} (h : r.Short i held) :
    r.ackedThrough[i.toNat]? = some held ∧ r.isComplete = false := by
  obtain ⟨slot, hslot, hacked, -, hopen⟩ := h
  refine ⟨?_, ?_⟩
  · rw [Receiver.ackedThrough, List.getElem?_map, hslot, ← hacked]
    rfl
  · rw [Receiver.isComplete, Bool.and_eq_false_iff]
    refine .inr (List.all_eq_false.2 ⟨slot, List.mem_of_getElem? hslot, ?_⟩)
    rw [hopen]
    exact Bool.false_ne_true

variable [FileSource Src] [SourceContent Src] [FaithfulFileSource Src]

/-- The sender never goes back. -/
theorem Sender.Ahead.step {s : Sender Src} (h : s.Ahead i held) (event : SenderEvent)
    (hack : ∀ m, event = .ack m → m.fileIndex = i → m.ackedThrough ≤ held) :
    (s.step event).1.Ahead i held ∧
      ∀ c, (s.step event).2 = .ok (some c) → c.fileIndex = i → held < c.offset := by
  have hstep := s.step_step h.small event
  generalize (s.step event).1 = s' at hstep ⊢
  generalize (s.step event).2 = output at hstep ⊢
  cases hstep with
  | refused => exact ⟨h, nofun⟩
  | kept => exact ⟨h, by rintro c ⟨⟩⟩
  | aborted => exact ⟨⟨h.small, h.length_lt, h.accepted, h.file⟩, by rintro c ⟨⟩⟩
  | resumed hwaiting =>
    rw [h.accepted] at hwaiting
    cases hwaiting
  | @acked m t haccepted ht hsent hnew =>
    refine ⟨h.put ht rfl fun hk hlt _ => ⟨hlt, ?_⟩, by rintro c ⟨⟩⟩
    exact hack m rfl (UInt32.toNat_inj.1 hk)
  | @sent k t data stop haccepted ht hfits =>
    have hstop : t.sent ≤ stop := by
      rw [UInt64.le_iff_toNat_le, hfits.stop_eq]
      exact Nat.le_add_right _ _
    refine ⟨h.put ht rfl fun _ hlt hle => ⟨UInt64.lt_of_lt_of_le hlt hstop, hle⟩, ?_⟩
    rintro c ⟨⟩ hc
    obtain ⟨track, htrack, hlt, -⟩ := h.file
    obtain ⟨hbound, -⟩ := List.getElem?_eq_some_iff.1 ht
    have hk : i.toNat = k := by
      rw [← hc]
      exact UInt32.toNat_ofNatClamp_of_lt (hbound.trans h.length_lt)
    rw [hk, ht] at htrack
    cases htrack
    exact hlt

end

section

variable {Src S W : Type} [FileSource Src] [FileSink S]
  {makeSink : W → ℕ → OsStr → W × Except SinkError S} {config : ReceiverConfig}
  {i : UInt32} {held : UInt64} {t : Transfer Src S W}

omit [FileSource Src] [FileSink S] in
/-- The receiver holds `held` of file `i`, and all that is sent of it or will be is beyond that. -/
structure Beyond (i : UInt32) (held : UInt64) (t : Transfer Src S W) : Prop where
  sender : t.sender.Ahead i held
  receiver : ∃ r, t.receiver = some r ∧ r.Short i held
  inbound : ∀ m ∈ t.toReceiver, ∃ c, m = .chunk c ∧ (c.fileIndex = i → held < c.offset)
  acks : ∀ m, .ack m ∈ t.toSender → m.fileIndex = i → m.ackedThrough ≤ held

namespace Beyond

variable [SourceContent Src] [FaithfulFileSource Src]

omit [FileSource Src] [FileSink S] [SourceContent Src] [FaithfulFileSource Src] in
theorem lose (h : Beyond i held t) (k : ℕ) : Beyond i held (t.lose k) := by
  unfold Transfer.lose
  split
  · exact ⟨h.sender, h.receiver, fun m hm => h.inbound m (List.mem_of_mem_eraseIdx hm), h.acks⟩
  · exact h

omit [FileSink S] in
theorem poll (h : Beyond i held t) :
    Beyond i held t.poll ∧ ∀ c ∈ t.sentBy (.run .poll), c.fileIndex = i → held < c.offset := by
  have hpoll := h.sender.step .poll (by simp)
  change t.sender.pollChunk.1.Ahead i held ∧
    ∀ c, t.sender.pollChunk.2 = .ok (some c) → c.fileIndex = i → held < c.offset at hpoll
  obtain ⟨hsender, hchunk⟩ := hpoll
  simp only [Transfer.poll, Transfer.sentBy]
  generalize t.sender.pollChunk = result at hsender hchunk ⊢
  obtain ⟨sender, output⟩ := result
  split
  · next hout =>
    cases hout
    refine ⟨⟨hsender, h.receiver, ?_, h.acks⟩, ?_⟩
    · intro m hm
      rcases List.mem_append.1 hm with hm | hm
      · exact h.inbound m hm
      · rw [List.mem_singleton.1 hm]
        exact ⟨_, rfl, hchunk _ rfl⟩
    · intro c hc
      rw [List.mem_singleton.1 hc]
      exact hchunk _ rfl
  · next hnone heq =>
    cases heq
    refine ⟨⟨hsender, h.receiver, h.inbound, h.acks⟩, ?_⟩
    split
    · next c hout => exact absurd hout (hnone c)
    · simp

variable (makeSink config)

omit [SourceContent Src] [FaithfulFileSource Src] in
theorem receive (h : Beyond i held t) :
    Beyond i held (t.step makeSink config .receive).1 ∧
      ∀ id, .done ⟨id, true⟩ ∉ (t.step makeSink config .receive).2 := by
  obtain ⟨sender, receiver, disk, toReceiver, toSender⟩ := t
  obtain ⟨hsender, ⟨r, hr, hshort⟩, hinbound, hacks⟩ := h
  dsimp only at hsender hr hinbound hacks
  subst hr
  cases toReceiver with
  | nil => exact ⟨⟨hsender, ⟨r, rfl, hshort⟩, hinbound, hacks⟩, nofun⟩
  | cons m rest =>
    obtain ⟨c, rfl, hc⟩ := hinbound m (.head _)
    obtain ⟨hshort', hacks', hdone⟩ := hshort.onChunk hc
    refine ⟨⟨hsender, ⟨_, rfl, hshort'⟩, fun m hm => hinbound m (.tail _ hm), ?_⟩, hdone⟩
    intro m hm
    rcases List.mem_append.1 hm with hm | hm
    · exact hacks m hm
    · exact hacks' m hm

theorem answer (h : Beyond i held t) : Beyond i held (t.step makeSink config .answer).1 := by
  obtain ⟨sender, receiver, disk, toReceiver, toSender⟩ := t
  obtain ⟨hsender, hreceiver, hinbound, hacks⟩ := h
  dsimp only at hsender hreceiver hinbound hacks
  cases toSender with
  | nil => exact ⟨hsender, hreceiver, hinbound, hacks⟩
  | cons m rest =>
    have hrest : ∀ m, .ack m ∈ rest → m.fileIndex = i → m.ackedThrough ≤ held :=
      fun m hm => hacks m (.tail _ hm)
    have hkeep : ∀ event, (∀ m, event = .ack m → m.fileIndex = i → m.ackedThrough ≤ held) →
        Beyond i held (⟨(sender.step event).1, receiver, disk, toReceiver, rest⟩ :
          Transfer Src S W) := fun event hevent =>
      ⟨(hsender.step event hevent).1, hreceiver, hinbound, hrest⟩
    cases m with
    | accept m => exact hkeep (.accept m) nofun
    | reject m => exact ⟨hsender, hreceiver, hinbound, hrest⟩
    | ack m =>
      refine hkeep (.ack m) ?_
      rintro _ ⟨⟩
      exact hacks m (.head _)
    | done m => exact hkeep (.done m) nofun

/-- **One step behind a gap.** Nothing changes for the better. -/
theorem step (h : Beyond i held t) (event : LossyEvent) :
    Beyond i held (t.lossyStep makeSink config event).1 ∧
      (∀ c ∈ t.sentBy event, c.fileIndex = i → held < c.offset) ∧
      ∀ id, .done ⟨id, true⟩ ∉ (t.lossyStep makeSink config event).2 := by
  cases event with
  | drop k => exact ⟨h.lose k, nofun, nofun⟩
  | run event =>
    cases event with
    | poll => exact ⟨h.poll.1, h.poll.2, nofun⟩
    | receive => exact ⟨(h.receive makeSink config).1, nofun, (h.receive makeSink config).2⟩
    | answer =>
      refine ⟨h.answer makeSink config, nofun, ?_⟩
      cases hout : t.toSender with
      | nil => simp [Transfer.lossyStep, Transfer.step, hout]
      | cons m rest => simp [Transfer.lossyStep, Transfer.step, hout]

/-- **A run behind a gap.** -/
theorem run (h : Beyond i held t) (events : List LossyEvent) :
    Beyond i held ((Transfer.lossy makeSink config).exec t events) ∧
      (∀ c ∈ sentIn i ((Transfer.lossy makeSink config).trace t events), held < c.offset) ∧
      ∀ e ∈ (Transfer.lossy makeSink config).trace t events, ∀ id,
        .done ⟨id, true⟩ ∉ e.output := by
  have hall : ∀ events, Beyond i held ((Transfer.lossy makeSink config).exec t events) :=
    (Transfer.lossy makeSink config).inv_exec h fun t event ht => (ht.step makeSink config event).1
  have hentry : ∀ e ∈ (Transfer.lossy makeSink config).trace t events,
      (∀ c ∈ e.pre.sentBy e.input, c.fileIndex = i → held < c.offset) ∧
        ∀ id, .done ⟨id, true⟩ ∉ e.output := by
    intro e he
    obtain ⟨js, event, ks, -, rfl⟩ := (Transfer.lossy makeSink config).mem_trace_iff.1 he
    exact ((hall js).step makeSink config event).2
  refine ⟨hall events, ?_, fun e he => (hentry e he).2⟩
  intro c hc
  obtain ⟨hc, hindex⟩ := List.mem_filter.1 hc
  obtain ⟨e, he, hsent⟩ := List.mem_flatMap.1 hc
  exact (hentry e he).1 c hsent (of_decide_eq_true hindex)

theorem wedged (h : Beyond i held t) : Wedged makeSink config i held t := by
  obtain ⟨r, hr, hshort⟩ := h.receiver
  refine ⟨?_, ?_, ⟨r, hr, hshort.incomplete⟩, h.sender.incomplete⟩
  · rintro (⟨c, hc, hindex, hoffset⟩ | ⟨events, c, rest, hsent, hoffset⟩)
    · obtain ⟨c', hc', hlt⟩ := h.inbound _ hc
      cases hc'
      exact UInt64.ne_of_lt (hlt hindex) hoffset.symm
    · have hlt := (h.run makeSink config events).2.1 c (hsent ▸ .head _)
      exact UInt64.ne_of_lt hlt hoffset.symm
  · rintro ⟨events, e, he, id, hdone⟩
    exact (h.run makeSink config events).2.2 e he id hdone

end Beyond

variable [SourceContent Src] [FaithfulFileSource Src] {s₀ : Sender Src} {lost : List FileChunk}

omit [SourceContent Src] [FaithfulFileSource Src] in
/-- **The step into a gap.** -/
theorem Spread.beyond (hfresh : s₀.Fresh) (h : Spread s₀ lost t)
    (hgap : AnswersGap i held t (t.step makeSink config .receive).2) :
    Beyond i held (t.step makeSink config .receive).1 := by
  obtain ⟨r₀, c₀, rest₀, hr₀, hopen, hinbound₀, -⟩ :=
    (h.gap_iff makeSink config).1 ⟨i, held, hgap⟩
  obtain ⟨⟨c, rest, hinbound, rfl, hbeyond⟩, ⟨r, hr, hheld⟩, -⟩ := hgap
  cases h with
  | offered => cases hr₀
  | failed => cases hr₀
  | answered => cases hinbound
  | ended haborted =>
    cases hr₀
    rw [hopen] at haborted
    cases haborted
  | @running s w r' chunks out hunderway hrunning hid hslots hproper hflows =>
    cases hr
    cases chunks with
    | nil => cases hinbound
    | cons c' chunks =>
      cases hinbound
      have hc := hproper c (.head _)
      obtain ⟨slot, track, hslot, htrack⟩ := file_of hunderway hslots hc
      have hflow := hflows _ slot track hslot htrack
      obtain ⟨-, -, hfits, hincomplete⟩ := hflow.head rfl
      rw [Receiver.ackedThrough, List.getElem?_map, hslot] at hheld
      cases hheld
      have hstreams := hflow.streams
      rw [spans_cons_self rfl] at hstreams
      obtain ⟨hall, hsent⟩ := hstreams.all_beyond (UInt64.lt_iff_toNat_lt.1 hbeyond)
      have hsent' : slot.acked < track.sent := UInt64.lt_iff_toNat_lt.2 hsent
      have hsize : slot.acked < track.size := UInt64.lt_of_lt_of_le hsent' hflow.sent_le
      have hstep : ((⟨s, some r, w, (c :: chunks).map .chunk, out⟩ : Transfer Src S W).step makeSink
          config .receive).1 = ⟨s, some r, w, chunks.map .chunk,
            out ++ [.ack ⟨r.transferId, c.fileIndex, slot.acked⟩]⟩ := by
        simp only [Transfer.step, Transfer.receive, List.map_cons, sentBack,
          Receiver.onChunk_again (hc.1.trans hid.symm) hrunning hc.2.1 hslot
            (Ne.symm (UInt64.ne_of_lt hbeyond)) hfits]
      rw [hstep]
      refine ⟨⟨hunderway.chunkSize_eq ▸ hfresh.small, hunderway.length_eq ▸ hfresh.length_lt,
        hunderway.accepted, track, htrack, hsent', hflow.acked_le, hsize⟩,
        ⟨r, rfl, slot, hslot, rfl, hflow.size_eq ▸ hsize, hincomplete⟩, ?_, ?_⟩
      · intro m hm
        obtain ⟨c', hc', rfl⟩ := List.mem_map.1 hm
        refine ⟨c', rfl, ?_⟩
        intro hindex
        exact UInt64.lt_iff_toNat_lt.2
          (hall _ (mem_spans.2 ⟨c', hc', congrArg UInt32.toNat hindex, rfl⟩))
      · intro m hm hindex
        rcases List.mem_append.1 hm with hm | hm
        · exact hflow.acks_le m hm (congrArg UInt32.toNat hindex)
        · cases List.mem_singleton.1 hm
          exact UInt64.le_refl _

variable (makeSink config) in
/-- Every run of the lossy transfer keeps its invariant. -/
theorem Spread.exec (hfresh : s₀.Fresh) (w : W) (events : List LossyEvent) :
    Spread s₀ (lostIn ((Transfer.lossy makeSink config).trace (.init s₀ w) events))
      ((Transfer.lossy makeSink config).exec (.init s₀ w : Transfer Src S W) events) := by
  refine (Transfer.lossy makeSink config).induct (P := fun tr t => Spread s₀ (lostIn tr) t)
    (G := fun _ => True) (.offered rfl) ?_ events fun _ _ => trivial
  intro tr t event ht _
  have hlost : lostIn (tr ++ [(Transfer.lossy makeSink config).entry t event]) =
      lostIn tr ++ t.lostBy event := by
    rw [lostIn, List.flatMap_append, List.flatMap_singleton, ← lostIn]
    rfl
  rw [hlost]
  exact ht.step makeSink config hfresh event

/-- What follows a gap that is answered. -/
theorem Spread.wedged (hfresh : s₀.Fresh) (w : W) {before after : List LossyEvent}
    (hgap : AnswersGap i held ((Transfer.lossy makeSink config).exec (.init s₀ w) before)
      (((Transfer.lossy makeSink config).exec (.init s₀ w : Transfer Src S W) before).step
        makeSink config .receive).2) :
    Wedged makeSink config i held ((Transfer.lossy makeSink config).exec
      (.init s₀ w : Transfer Src S W) (before ++ .run .receive :: after)) := by
  have hbeyond := (Spread.exec makeSink config hfresh w before).beyond hfresh hgap
  rw [Machine.exec_append, Machine.exec_cons]
  exact (hbeyond.run makeSink config after).1.wedged makeSink config

end

/-- **A gap is never recovered from.** Over a channel that keeps the order and loses chunks, a run
of a transfer does what a gap is to lead to just when the sender processes no ack of a chunk that
arrived behind a lost one of its file. Once a gap is answered, the missing chunk is never sent again
and neither side gets done. -/
theorem gap_recovery {Src S W : Type} [FileSource Src] [SourceContent Src]
    [FaithfulFileSource Src] [FileSink S] (transferId : UInt64)
    (files : List (String × Src × Option Hash)) (n : ℕ) (s₁ s : Sender Src)
    (hnew : Sender.newWithHashes transferId files = .ok s₁) (hchunk : s₁.withChunkSize n = .ok s)
    (makeSink : W → ℕ → OsStr → W × Except SinkError S) (config : ReceiverConfig) (w : W)
    (events : List LossyEvent) :
    let M := Transfer.lossy makeSink config
    let t₀ : Transfer Src S W := .init s w
    (Recovers makeSink config t₀ events ↔
      ∀ before mid after, events = before ++ .run .receive :: (mid ++ after) →
        Processes makeSink config t₀ before mid →
        ¬ ArrivesBehind (lostIn (M.trace t₀ before)) (M.exec t₀ before)) ∧
    ∀ before after i held, events = before ++ .run .receive :: after →
      AnswersGap i held (M.exec t₀ before) ((M.exec t₀ before).step makeSink config .receive).2 →
      Wedged makeSink config i held (M.exec t₀ events) := by
  intro M t₀
  obtain ⟨hsound, -, hwaiting, hstart, -⟩ := Sender.start_of_new hnew hchunk
  have hfresh : s.Fresh := ⟨hsound.chunkSize_le, hsound.length_lt, hwaiting, hstart⟩
  have hgap_iff : ∀ before, (∃ i held, AnswersGap i held (M.exec t₀ before)
      ((M.exec t₀ before).step makeSink config .receive).2) ↔
        ArrivesBehind (lostIn (M.trace t₀ before)) (M.exec t₀ before) :=
    fun before => (Spread.exec makeSink config hfresh w before).gap_iff makeSink config
  refine ⟨⟨?_, ?_⟩, ?_⟩
  · intro h before mid after hevents hprocesses hbehind
    obtain ⟨i, held, hgap⟩ := (hgap_iff before).2 hbehind
    exact (Spread.wedged hfresh w hgap).lost (h before mid after hevents hprocesses i held hgap).1
  · intro h before mid after hevents hprocesses i held hgap
    exact absurd ((hgap_iff before).1 ⟨i, held, hgap⟩) (h before mid after hevents hprocesses)
  · rintro before after i held rfl hgap
    exact Spread.wedged hfresh w hgap

section

attribute [local instance] Sha256.abc

/-- Of the two chunks of the file the first is lost. -/
def loseFirst : List LossyEvent := [.run .receive, .run .answer, .run .poll, .run .poll, .drop 0]

/-- The transfer of the file, to sinks in memory. -/
abbrev abcLossy : Machine (Transfer MemSource MemSink Unit) LossyEvent (List Outbound) :=
  Transfer.lossy (fun _ _ _ => ((), .ok MemSink.new)) (.new (OsStr.new "/quarantine"))

theorem abc_answersGap :
    AnswersGap 0 0 (abcLossy.exec (.init abcSender ()) loseFirst)
      ((abcLossy.exec (.init abcSender ()) loseFirst).step
        (fun _ _ _ => ((), .ok MemSink.new)) (.new (OsStr.new "/quarantine")) .receive).2 :=
  ⟨⟨⟨7, 0, 2, [99]⟩, [], by decide +kernel, rfl, by decide⟩,
    ⟨abcReceiver, by decide +kernel, by decide⟩, 7, by decide +kernel⟩

theorem abc_not_recovered :
    ¬ Recovers (fun _ _ _ => ((), .ok MemSink.new)) (.new (OsStr.new "/quarantine"))
      (.init abcSender () : Transfer MemSource MemSink Unit)
      (loseFirst ++ [.run .receive, .run .answer]) := by
  intro h
  have hfresh : abcSender.Fresh := ⟨by decide, by decide, rfl, by decide⟩
  refine (Spread.wedged hfresh () abc_answersGap).lost
    (h loseFirst [.run .answer] [] rfl ⟨⟨[], rfl⟩, ?_⟩ 0 0 abc_answersGap).1
  decide +kernel

theorem abc_wedged :
    Wedged (fun _ _ _ => ((), .ok MemSink.new)) (.new (OsStr.new "/quarantine")) 0 0
      (abcLossy.exec (.init abcSender ())
        (loseFirst ++ [.run .receive, .run .answer, .run .poll, .run .receive])) := by
  have hgap := (gap_recovery (S := MemSink) 7
    [("a.txt", ⟨[97, 98, 99], length_abc_lt⟩, some .ofAbc)] 2
    { abcSender with chunkSize := defaultChunkSize } abcSender rfl rfl
    (fun (_ : Unit) _ _ => ((), .ok MemSink.new)) (.new (OsStr.new "/quarantine")) ()
    (loseFirst ++ [.run .receive, .run .answer, .run .poll, .run .receive])).2
  exact hgap loseFirst [.run .answer, .run .poll, .run .receive] 0 0 rfl abc_answersGap

end

end Mouser
