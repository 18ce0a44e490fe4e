import Mouser.Clipboard.RoundTrip
import Mouser.Lib.Channel

/-!
# An offer that is received again

Every time an offer is received, the pull starts anew and is sent again, and its answer follows what
the channel still carries. The rest of an answer that was cut off this way meets a pull that expects
the first message: it ends the pull, and the messages after it find none. `applied_repeated` says
what comes out of every schedule of offers and messages: a clip for every offer that is received
between two answers and is followed by a whole answer before the next offer.
-/

namespace Mouser

/-- The receiver, and what the origin has sent and the receiver has still to receive. -/
structure Repeated where
  receiver : ClipboardEngine
  channel : List ClipboardData

/-- What the receiver receives next: the offer, or the first message of the channel. -/
inductive RepeatedEvent where
  | offer
  | chunk
deriving DecidableEq

/-- An origin with its content source, the offer it makes, and the OS that the receiver knows it
by. -/
structure Offering (S : Type) where
  origin : ClipboardEngine
  source : S
  offer : ClipboardOffer
  os : Os

namespace Offering

/-! ## The schedule -/

/-- How often the offer is received between two answers, when `pos` messages of an answer of `n`
have been received, and the next `n` events are the messages of a whole answer. -/
def wholeAnswers (n : ℕ) : ℕ → List RepeatedEvent → ℕ
  | _, [] => 0
  | pos, .offer :: events =>
    (if pos = 0 ∧ List.replicate n .chunk <+: events then 1 else 0) + wholeAnswers n pos events
  | pos, .chunk :: events => wholeAnswers n ((pos + 1) % n) events

/-- No message is received before it is sent: `m` are in the channel, and every time the offer is
received `n` more follow. -/
def InOrder (n m : ℕ) (events : List RepeatedEvent) : Prop :=
  ∀ before, before <+: events → before.count .chunk ≤ m + n * before.count .offer

instance (n m : ℕ) (events : List RepeatedEvent) : Decidable (InOrder n m events) :=
  decidable_of_iff (∀ before ∈ events.inits, before.count .chunk ≤ m + n * before.count .offer) (by
    simp only [List.mem_inits, InOrder])

theorem inOrder_offer {n m : ℕ} {events : List RepeatedEvent}
    (h : InOrder n m (.offer :: events)) : InOrder n (m + n) events := by
  intro before hbefore
  have hle := h (.offer :: before) ((List.prefix_cons_inj _).2 hbefore)
  rw [List.count_cons_of_ne (by decide), List.count_cons_self, Nat.mul_succ] at hle
  omega

theorem inOrder_chunk {n m : ℕ} {events : List RepeatedEvent}
    (h : InOrder n m (.chunk :: events)) : ∃ m', m = m' + 1 ∧ InOrder n m' events := by
  have hfirst := h [.chunk] ⟨events, rfl⟩
  rw [List.count_singleton_self, List.count_cons_of_ne (by decide), List.count_nil,
    Nat.mul_zero] at hfirst
  refine ⟨m - 1, by omega, ?_⟩
  intro before hbefore
  have hle := h (.chunk :: before) ((List.prefix_cons_inj _).2 hbefore)
  rw [List.count_cons_self, List.count_cons_of_ne (by decide)] at hle
  omega

/-- Whether the answer that is `pos` messages long so far comes to its end without another offer,
and counts. -/
def finishes (n : ℕ) (fresh : Bool) (pos : ℕ) (events : List RepeatedEvent) : ℕ :=
  if fresh = true ∧ List.replicate (n - pos) .chunk <+: events then 1 else 0

theorem wholeAnswers_offer (n pos : ℕ) (events : List RepeatedEvent) :
    wholeAnswers n pos (.offer :: events) =
      finishes n (pos = 0) pos events + wholeAnswers n pos events := by
  rw [wholeAnswers, finishes]
  by_cases hpos : pos = 0
  · simp [hpos]
  · simp [hpos]

/-- An answer that is not at its end has to go on. -/
theorem finishes_eq_zero {n pos : ℕ} {fresh : Bool} {events : List RepeatedEvent}
    (hlt : fresh = true → pos < n) (h : ∀ later, events ≠ .chunk :: later) :
    finishes n fresh pos events = 0 := by
  rw [finishes, if_neg]
  rintro ⟨hfresh, later, hlater⟩
  obtain ⟨m, hm⟩ := Nat.exists_eq_succ_of_ne_zero (Nat.sub_ne_zero_of_lt (hlt hfresh))
  rw [hm, List.replicate_succ, List.cons_append] at hlater
  exact h _ hlater.symm

theorem finishes_chunk {n pos : ℕ} (hlt : pos < n) (events : List RepeatedEvent) :
    finishes n true pos (.chunk :: events) = finishes n true (pos + 1) events := by
  have hleft : n - pos = (n - (pos + 1)) + 1 := by omega
  simp only [finishes, hleft, List.replicate_succ, List.cons_prefix_cons, true_and]

theorem finishes_end (n : ℕ) (events : List RepeatedEvent) : finishes n true n events = 1 := by
  simp [finishes]

theorem finishes_false (n pos : ℕ) (events : List RepeatedEvent) :
    finishes n false pos events = 0 := by
  simp [finishes]

/-! ## The origin and the receiver -/

section

variable {S : Type} [ClipContentSource S] [Sha256]

/-- What the origin sends for the pull that an offer led to. -/
def answer (o : Offering S) : Except ClipboardError (Option ClipboardPull) → List ClipboardData
  | .ok (some pull) =>
    match o.origin.onPull pull o.source with
    | .ok chunks => chunks
    | .error _ => []
  | .ok none | .error _ => []

/-- The clip that a message completes. -/
def completed : Except ClipboardError (Option AppliedClip) → Option AppliedClip
  | .ok clip => clip
  | .error _ => none

def step (o : Offering S) (s : Repeated) : RepeatedEvent → Repeated × Option AppliedClip
  | .offer =>
    ({ receiver := (s.receiver.onOffer o.offer o.os).1
       channel := s.channel ++ o.answer (s.receiver.onOffer o.offer o.os).2 }, none)
  | .chunk =>
    match s.channel with
    | [] => (s, none)
    | data :: channel =>
      ({ receiver := (s.receiver.onDataFrom o.origin.deviceId data).1, channel },
        completed (s.receiver.onDataFrom o.origin.deviceId data).2)

def machine (o : Offering S) : Machine Repeated RepeatedEvent (Option AppliedClip) where
  step := o.step

/-- The clips that come out of a run. -/
def applied (o : Offering S) (s : Repeated) (events : List RepeatedEvent) : List AppliedClip :=
  (o.machine.trace s events).filterMap (·.output)

/-- The receiver pulls `entry` of the offer, and the origin answers with its content. -/
structure Serves (o : Offering S) (e : ClipboardEngine) (entry : ClipboardEntry) (hash : Hash)
    (bytes : List UInt8) : Prop where
  accepts : e.Accepts o.offer o.os o.origin.deviceId entry hash
  canOffer : o.origin.settings.canOffer = true
  formatEnabled : o.origin.settings.formatEnabled entry.format = true
  source : ClipContentSource.canonicalBytes o.source entry.format hash = some bytes
  size : entry.size.toNat = bytes.length
  hash_eq : sha256 bytes = hash

/-! ## One event -/

theorem Serves.of_frame {o : Offering S} {e e' : ClipboardEngine} {entry : ClipboardEntry}
    {hash : Hash} {bytes : List UInt8} (h : o.Serves e entry hash bytes)
    (hid : e'.deviceId = e.deviceId) (hos : e'.localOs = e.localOs)
    (hsettings : e'.settings = e.settings) : o.Serves e' entry hash bytes where
  accepts :=
    { receive := hsettings ▸ h.accepts.receive
      origin_eq := h.accepts.origin_eq
      other := hid ▸ h.accepts.other
      native := hsettings ▸ hos ▸ h.accepts.native
      best := by
        rw [ClipboardEngine.bestEntry, hsettings]
        exact h.accepts.best
      hash_eq := h.accepts.hash_eq }
  canOffer := h.canOffer
  formatEnabled := h.formatEnabled
  source := h.source
  size := h.size
  hash_eq := h.hash_eq

/-- Where the receiver stands when `pos` messages of the answer at the head of the channel have been
received: it has taken all of them for the pull that is outstanding (`current`), its pull has ended,
or its pull has started anew in the middle of the answer. -/
inductive Phase (o : Offering S) (entry : ClipboardEntry) (hash : Hash) (bytes : List UInt8)
    (e : ClipboardEngine) : Bool → ℕ → Prop where
  | current {pos : ℕ} {sent rest : List UInt8} (hbytes : sent ++ rest = bytes)
    (hstreams : Streams hash entry.format sent.length rest
      ((chunkData hash entry.format bytes).drop pos))
    (h : e.Receiving { origin := o.origin.deviceId, format := entry.format, hash } o.os sent rest) :
    Phase o entry hash bytes e true pos
  | ended {pos : ℕ}
    (h : e.pending.entries.lookup
      { origin := o.origin.deviceId, format := entry.format, hash } = none) :
    Phase o entry hash bytes e false pos
  | restarted {pos : ℕ} (hpos : pos ≠ 0)
    (h : e.Receiving { origin := o.origin.deviceId, format := entry.format, hash } o.os [] bytes) :
    Phase o entry hash bytes e false pos

variable {o : Offering S} {e : ClipboardEngine} {entry : ClipboardEntry} {hash : Hash}
  {bytes : List UInt8} {fresh : Bool} {pos : ℕ}

omit [ClipContentSource S] [Sha256] in
theorem Phase.lt (h : Phase o entry hash bytes e fresh pos) (hfresh : fresh = true) :
    pos < (chunkData hash entry.format bytes).length := by
  cases h with
  | current _ hstreams _ =>
    have hne := hstreams.ne_nil
    rw [Ne, List.drop_eq_nil_iff] at hne
    exact Nat.lt_of_not_ge hne
  | ended => cases hfresh
  | restarted => cases hfresh

/-- The offer is received: the pull starts anew, and is answered. -/
theorem Serves.offer (h : o.Serves e entry hash bytes) (pos : ℕ) :
    o.answer (e.onOffer o.offer o.os).2 = chunkData hash entry.format bytes ∧
      o.Serves (e.onOffer o.offer o.os).1 entry hash bytes ∧
      Phase o entry hash bytes (e.onOffer o.offer o.os).1 (pos = 0) pos := by
  have hreceiving := h.accepts.receiving h.size
  have hpull := ClipboardEngine.onPull_eq h.canOffer h.formatEnabled h.source
  refine ⟨?_, ?_, ?_⟩
  · rw [h.accepts.onOffer_eq, answer, hpull]
  · rw [h.accepts.onOffer_eq]
    exact h.of_frame rfl rfl rfl
  · by_cases hpos : pos = 0
    · rw [decide_eq_true hpos, hpos]
      exact .current (List.nil_append bytes) (chunkData_streams hash entry.format bytes) hreceiving
    · rw [decide_eq_false hpos]
      exact .restarted hpos hreceiving

/-- The next message of an answer is received by a pull that has taken all before it. -/
theorem Phase.chunk_current {data : ClipboardData} {later : List ClipboardData}
    (hserves : o.Serves e entry hash bytes) (h : Phase o entry hash bytes e true pos)
    (hdata : (chunkData hash entry.format bytes).drop pos = data :: later) :
    (later = [] ∧ (e.onDataFrom o.origin.deviceId data).2 = .ok (some ⟨entry.format, bytes⟩) ∧
      Phase o entry hash bytes (e.onDataFrom o.origin.deviceId data).1 false 0) ∨
    (later ≠ [] ∧ (e.onDataFrom o.origin.deviceId data).2 = .ok none ∧
      Phase o entry hash bytes (e.onDataFrom o.origin.deviceId data).1 true (pos + 1)) := by
  cases h with
  | @current _ sent rest hbytes hstreams h =>
    rw [hdata] at hstreams
    have hlater : (chunkData hash entry.format bytes).drop (pos + 1) = later := by
      rw [← List.tail_drop, hdata, List.tail_cons]
    cases hstreams with
    | last hlen =>
      have hhash : sha256 (sent ++ rest) = hash := hbytes ▸ hserves.hash_eq
      obtain ⟨hout, hnone⟩ := h.last hlen hhash hserves.accepts.gatesOpen_entry
      rw [hbytes] at hout
      exact .inl ⟨rfl, hout, .ended hnone⟩
    | @more _ data rest _ hlen hne hrest =>
      obtain ⟨hout, hnext⟩ := h.more hlen
      refine .inr ⟨hrest.ne_nil, hout, .current ?_ ?_ hnext⟩
      · rwa [List.append_assoc]
      · rwa [hlater, List.length_append]

/-- A message is received by a pull that does not expect it. -/
theorem Phase.chunk_stale {data : ClipboardData} {later : List ClipboardData}
    (hserves : o.Serves e entry hash bytes) (h : Phase o entry hash bytes e false pos)
    (hdata : (chunkData hash entry.format bytes).drop pos = data :: later) (pos' : ℕ) :
    (∃ err, (e.onDataFrom o.origin.deviceId data).2 = .error err) ∧
      Phase o entry hash bytes (e.onDataFrom o.origin.deviceId data).1 false pos' := by
  have hlen : 0 + bytes.length < 2 ^ 64 := by
    rw [Nat.zero_add, ← hserves.size]
    exact entry.size.toNat_lt
  have hstreams := chunkData_streams hash entry.format bytes
  have hmem : data ∈ (chunkData hash entry.format bytes).drop pos := by
    rw [hdata]
    exact .head _
  obtain ⟨hhash, hformat, -⟩ := hstreams.mem hlen data (List.mem_of_mem_drop hmem)
  cases h with
  | ended h =>
    obtain ⟨herr, hnone⟩ := ClipboardEngine.onDataFrom_unknown h hhash hformat
    exact ⟨herr, .ended hnone⟩
  | restarted hpos h =>
    obtain ⟨n, rfl⟩ := Nat.exists_eq_succ_of_ne_zero hpos
    rw [Nat.succ_eq_add_one, ← List.drop_tail] at hmem
    have hoffset := hstreams.mem_tail hlen data (List.mem_of_mem_drop hmem)
    obtain ⟨herr, hnone⟩ := h.mismatch hhash hformat hoffset.ne'
    exact ⟨herr, .ended hnone⟩

/-! ## All events -/

theorem applied_cons (o : Offering S) (s : Repeated) (event : RepeatedEvent)
    (events : List RepeatedEvent) : o.applied s (event :: events) =
      (o.step s event).2.toList ++ o.applied (o.step s event).1 events := by
  have hstep : o.machine.step s event = o.step s event := rfl
  rw [applied, Machine.trace_cons, List.filterMap_cons, Machine.entry_output, hstep]
  cases (o.step s event).2 <;> rfl

theorem applied_chunk (o : Offering S) (e : ClipboardEngine) (data : ClipboardData)
    (channel : List ClipboardData) (events : List RepeatedEvent) :
    o.applied ⟨e, data :: channel⟩ (.chunk :: events) =
      (completed (e.onDataFrom o.origin.deviceId data).2).toList ++
        o.applied ⟨(e.onDataFrom o.origin.deviceId data).1, channel⟩ events :=
  applied_cons o _ _ _

/-- What comes out while the receiver is `pos` messages into an answer: the clip of this answer, if
its pull is the current one and the rest of it is received next, and those of the answers to come.
-/
theorem Phase.applied_eq {channel : List ClipboardData} (hserves : o.Serves e entry hash bytes)
    (hphase : Phase o entry hash bytes e fresh pos)
    (hchannel : Repeats (chunkData hash entry.format bytes) pos channel)
    (events : List RepeatedEvent)
    (horder : InOrder (chunkData hash entry.format bytes).length channel.length events) :
    o.applied ⟨e, channel⟩ events = List.replicate
      (finishes (chunkData hash entry.format bytes).length fresh pos events +
        wholeAnswers (chunkData hash entry.format bytes).length pos events)
      ⟨entry.format, bytes⟩ := by
  set answer := chunkData hash entry.format bytes with hanswer
  have hne : answer ≠ [] := (chunkData_streams hash entry.format bytes).ne_nil
  induction events generalizing e channel fresh pos with
  | nil =>
    rw [finishes_eq_zero hphase.lt (by intro later h; cases h)]
    rfl
  | cons event events ih =>
    cases event with
    | offer =>
      obtain ⟨hsent, hserves', hphase'⟩ := hserves.offer pos
      have hrest := ih hserves' hphase' (hchannel.append hne) (by
        rw [List.length_append]
        exact inOrder_offer horder)
      rw [finishes_eq_zero hphase.lt (by intro later h; cases h), Nat.zero_add, wholeAnswers_offer,
        applied_cons, step, hsent]
      exact hrest
    | chunk =>
      obtain ⟨m, hm, horder'⟩ := inOrder_chunk horder
      cases channel with
      | nil => cases hm
      | cons data channel =>
        obtain rfl := Nat.succ.inj hm
        obtain ⟨later, hdata, hchannel'⟩ := hchannel.of_cons
        obtain ⟨hid, hos, hsettings, -⟩ := e.onDataFrom_frame o.origin.deviceId data
        have hserves' := hserves.of_frame hid hos hsettings
        rw [wholeAnswers, applied_chunk]
        cases fresh with
        | true =>
          have hlt : pos < answer.length := hphase.lt rfl
          rw [finishes_chunk hlt]
          rcases hphase.chunk_current hserves hdata with ⟨hend, hout, hphase'⟩ |
            ⟨hgoes, hout, hphase'⟩
          · have hn : pos + 1 = answer.length := by
              have hlength := congrArg List.length hdata
              rw [hend, List.length_drop, List.length_singleton] at hlength
              omega
            rw [hn, Nat.mod_self] at hchannel' ⊢
            have hrest := ih hserves' hphase' hchannel' horder'
            rw [finishes_false, Nat.zero_add] at hrest
            rw [finishes_end, Nat.add_comm, List.replicate_succ, hout]
            exact congrArg (List.cons _) hrest
          · have hn : pos + 1 < answer.length := by
              have hlength := congrArg List.length hdata
              have hpos := List.length_pos_of_ne_nil hgoes
              rw [List.length_drop, List.length_cons] at hlength
              omega
            rw [Nat.mod_eq_of_lt hn] at hchannel' ⊢
            rw [hout]
            exact ih hserves' hphase' hchannel' horder'
        | false =>
          obtain ⟨⟨err, hout⟩, hphase'⟩ :=
            hphase.chunk_stale hserves hdata ((pos + 1) % answer.length)
          have hrest := ih hserves' hphase' hchannel' horder'
          rw [finishes_false, Nat.zero_add] at hrest
          rw [finishes_false, Nat.zero_add, hout]
          exact hrest

/-- What is left in the channel: the origin has answered every time the offer was received. -/
theorem Serves.channel_length {s : Repeated} (h : o.Serves s.receiver entry hash bytes)
    (events : List RepeatedEvent)
    (horder : InOrder (chunkData hash entry.format bytes).length s.channel.length events) :
    (o.machine.exec s events).channel.length + events.count .chunk = s.channel.length +
      (chunkData hash entry.format bytes).length * events.count .offer := by
  induction events generalizing s with
  | nil => rfl
  | cons event events ih =>
    rw [Machine.exec_cons]
    cases event with
    | offer =>
      obtain ⟨hsent, hserves', -⟩ := h.offer 0
      have hlength : (o.machine.step s .offer).1.channel.length =
          s.channel.length + (chunkData hash entry.format bytes).length := by
        rw [← hsent]
        exact List.length_append
      have hrest := ih (s := (o.machine.step s .offer).1) hserves'
        (hlength ▸ inOrder_offer horder)
      rw [List.count_cons_of_ne (by decide), hrest, hlength, List.count_cons_self, Nat.mul_succ]
      omega
    | chunk =>
      obtain ⟨m, hm, horder'⟩ := inOrder_chunk horder
      obtain ⟨e, channel⟩ := s
      cases channel with
      | nil => cases hm
      | cons data channel =>
        obtain rfl := Nat.succ.inj hm
        obtain ⟨hid, hos, hsettings, -⟩ := e.onDataFrom_frame o.origin.deviceId data
        have hrest := ih (s := (o.machine.step ⟨e, data :: channel⟩ .chunk).1)
          (h.of_frame hid hos hsettings) horder'
        rw [List.count_cons_self, ← Nat.add_assoc, hrest, List.count_cons_of_ne (by decide),
          List.length_cons]
        exact Nat.add_right_comm _ _ _

theorem Serves.channel_eq_nil (h : o.Serves e entry hash bytes) (events : List RepeatedEvent)
    (horder : InOrder (chunkData hash entry.format bytes).length 0 events)
    (hall : events.count .chunk =
      (chunkData hash entry.format bytes).length * events.count .offer) :
    (o.machine.exec ⟨e, []⟩ events).channel = [] := by
  have hlength := Serves.channel_length (s := ⟨e, []⟩) h events horder
  rw [hall] at hlength
  exact List.length_eq_zero_iff.1 (Nat.add_right_cancel hlength)

/-- **What comes out of a repeated offer.** -/
theorem applied_repeated (hserves : o.Serves e entry hash bytes) (events : List RepeatedEvent)
    (horder : InOrder (chunkData hash entry.format bytes).length 0 events) :
    o.applied ⟨e, []⟩ events = List.replicate
      (wholeAnswers (chunkData hash entry.format bytes).length 0 events) ⟨entry.format, bytes⟩ := by
  cases events with
  | nil => rfl
  | cons event events =>
    cases event with
    | chunk =>
      obtain ⟨m, hm, -⟩ := inOrder_chunk horder
      cases hm
    | offer =>
      -- whatever was outstanding before, the first offer puts the receiver in step with the channel
      obtain ⟨hsent, hserves', hphase⟩ := hserves.offer 0
      have hchannel : Repeats (chunkData hash entry.format bytes) 0
          ([] ++ chunkData hash entry.format bytes) :=
        Repeats.nil.append (chunkData_streams hash entry.format bytes).ne_nil
      have hrest := hphase.applied_eq hserves' hchannel events (by
        rw [List.length_append]
        exact inOrder_offer horder)
      rw [applied_cons, wholeAnswers_offer, step, hsent]
      exact hrest

/-- **When a repeated offer does not lose the clip.** The receiver pulls the content that the origin
offers, the origin answers every pull, and the answers are received in order, with the offer
received at any points in between. The clip comes out once exactly when one of the times the offer
is received is between two answers and is followed by a whole answer before the offer is received
again. -/
theorem applied_once_iff (hserves : o.Serves e entry hash bytes) (events : List RepeatedEvent)
    (horder : InOrder (chunkData hash entry.format bytes).length 0 events) :
    o.applied ⟨e, []⟩ events = [⟨entry.format, bytes⟩] ↔
      wholeAnswers (chunkData hash entry.format bytes).length 0 events = 1 := by
  rw [applied_repeated hserves events horder]
  refine ⟨?_, ?_⟩
  · intro h
    have hlength := congrArg List.length h
    rwa [List.length_replicate, List.length_singleton] at hlength
  · intro h
    rw [h]
    rfl

end

/-! ## An answer of two messages -/

theorem length_bulkChunks (hash : Hash) (format : ClipFormat) (offset : ℕ) (bytes : List UInt8) :
    (bulkChunks hash format offset bytes).length =
      (bytes.length + (maxDataChunk - 1)) / maxDataChunk := by
  fun_induction bulkChunks hash format offset bytes with
  | case1 => rfl
  | case2 offset bytes hbytes ih =>
    have hpos := List.length_pos_of_ne_nil hbytes
    rw [List.length_cons, ih, List.length_drop]
    unfold maxDataChunk
    omega

/-- An image of one byte more than a message can carry. -/
def zeros : List UInt8 := List.replicate (maxDataChunk + 1) 0

def zerosHash : Hash where
  bytes :=
    [0x2c, 0xb7, 0x4e, 0xdb, 0xa7, 0x54, 0xa8, 0x1d, 0x12, 0x1c, 0x9d, 0xb6, 0x83, 0x37, 0x04, 0xa8,
     0xe7, 0xd4, 0x17, 0xe5, 0xb1, 0x3d, 0x1a, 0x19, 0xf4, 0xa5, 0x2f, 0x00, 0x7d, 0x64, 0x42, 0x64]
  length_eq := rfl

@[reducible] def sha256Zeros : Sha256 := .ofTable [(zeros, zerosHash)] .ofEmpty

def zerosEntry : ClipboardEntry where
  format := .png
  hash := zerosHash.bytes
  size := 1048577

/-- The second device offers it. -/
def zerosOffering : Offering MemContentSource where
  origin := .new (.fill 2) .windows .initial
  source := MemContentSource.new.insert .png zerosHash zeros
  offer := { entries := [zerosEntry], origin := (DeviceId.fill 2).bytes }
  os := .windows

theorem length_zeros : zeros.length = maxDataChunk + 1 := List.length_replicate

theorem length_chunkData_zeros : (chunkData zerosHash zerosEntry.format zeros).length = 2 := by
  show (chunkData zerosHash .png zeros).length = 2
  have hbulk : transportFor .png zeros.length ≠ .control := by
    rw [transportFor, isTextFormat, Bool.false_and, if_neg (by decide)]
    decide
  have hne : zeros ≠ [] := List.ne_nil_of_length_eq_add_one length_zeros
  rw [chunkData, if_neg hbulk, if_neg hne, length_bulkChunks, length_zeros, maxDataChunk]

theorem sha256_zeros :
    letI := sha256Zeros
    sha256 zeros = zerosHash := by
  have hlookup : [(zeros, zerosHash)].lookup zeros = some zerosHash := by
    rw [List.lookup_cons, beq_self_eq_true]
  show ([(zeros, zerosHash)].lookup zeros).getD .ofEmpty = zerosHash
  rw [hlookup, Option.getD_some]

theorem serves_zeros :
    letI := sha256Zeros
    zerosOffering.Serves (.new (.fill 1) .linux .initial) zerosEntry zerosHash zeros :=
  letI := sha256Zeros
  { accepts :=
      { receive := rfl
        origin_eq := parseDeviceId_eq_ok_iff.2 rfl
        other := by decide
        native := rfl
        best := ClipboardEngine.bestEntry_single rfl rfl _
        hash_eq := parseHash_eq_ok_iff.2 rfl }
    canOffer := rfl
    formatEnabled := rfl
    source := rfl
    size := by
      rw [length_zeros]
      rfl
    hash_eq := sha256_zeros }

/-- The offer is received again after the first message. -/
def cutOff : List RepeatedEvent := [.offer, .chunk, .offer, .chunk, .chunk, .chunk]

/-- Both pulls are answered and all messages are received, but nothing comes out. -/
theorem cutOff_lost :
    letI := sha256Zeros
    zerosOffering.Serves (.new (.fill 1) .linux .initial) zerosEntry zerosHash zeros ∧
      InOrder 2 0 cutOff ∧
      (zerosOffering.machine.exec ⟨.new (.fill 1) .linux .initial, []⟩ cutOff).channel = [] ∧
      zerosOffering.applied ⟨.new (.fill 1) .linux .initial, []⟩ cutOff = [] := by
  let _ : Sha256 := sha256Zeros
  have hchannel := serves_zeros.channel_eq_nil cutOff
  have happlied := applied_repeated serves_zeros cutOff
  rw [length_chunkData_zeros] at hchannel happlied
  exact ⟨serves_zeros, by decide, hchannel (by decide) (by decide), happlied (by decide)⟩

/-- Received once more after the rest of the first answer, it comes out. -/
theorem applied_once_zeros :
    letI := sha256Zeros
    zerosOffering.applied ⟨.new (.fill 1) .linux .initial, []⟩
      [.offer, .chunk, .offer, .chunk, .offer, .chunk, .chunk, .chunk, .chunk] =
        [⟨.png, zeros⟩] := by
  let _ : Sha256 := sha256Zeros
  have h := applied_once_iff serves_zeros
    [.offer, .chunk, .offer, .chunk, .offer, .chunk, .chunk, .chunk, .chunk]
  rw [length_chunkData_zeros] at h
  exact (h (by decide)).2 (by decide)

end Offering

end Mouser
