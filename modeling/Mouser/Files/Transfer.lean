import Mouser.Files.Lockstep

/-!
# A file transfer end to end

`Transfer.machine` is a sender and a receiver with a lossless FIFO channel in each direction; a run
is any interleaving of polls and deliveries. `Lockstep` is its invariant: each channel carries just
the steps by which the party at its end is ahead of the one at its head.
-/

namespace Mouser

/-- What the sender sends. -/
inductive Inbound where
  | offer (m : FileOffer)
  | chunk (m : FileChunk)
deriving DecidableEq

structure Transfer (Src S W : Type) where
  sender : Sender Src
  /-- The receiver, once the offer is handled. -/
  receiver : Option (Receiver S)
  disk : W
  toReceiver : List Inbound
  toSender : List Outbound

inductive TransferEvent where
  /-- The sender sends a chunk, if it has one now. -/
  | poll
  /-- The receiver handles the next message. -/
  | receive
  /-- The sender handles the next message. -/
  | answer
deriving DecidableEq

section

variable {Src S W : Type} [FileSource Src] [FileSink S]

namespace Transfer

/-- The offer is on its way. -/
def init (sender : Sender Src) (w : W) : Transfer Src S W where
  sender := sender
  receiver := none
  disk := w
  toReceiver := [.offer sender.offer]
  toSender := []

def poll (t : Transfer Src S W) : Transfer Src S W :=
  match t.sender.pollChunk with
  | (sender, .ok (some chunk)) =>
    { t with sender, toReceiver := t.toReceiver ++ [.chunk chunk] }
  | (sender, _) => { t with sender }

/-- What the receiver does with a message, and what it sends back. -/
def receive (makeSink : W → ℕ → OsStr → W × Except SinkError S) (config : ReceiverConfig)
    (t : Transfer Src S W) : Inbound → Transfer Src S W × List Outbound
  | .offer m =>
    match acceptOffer makeSink m config t.disk with
    | .ok (disk, .ok (r, out)) =>
      ({ t with receiver := some r, disk, toSender := t.toSender ++ out }, out)
    | .ok (disk, .error _) => ({ t with disk }, [])
    | .error _ => (t, [])
  | .chunk m =>
    match t.receiver with
    | none => (t, [])
    | some r =>
      let (r, result) := r.onChunk m
      ({ t with receiver := some r, toSender := t.toSender ++ sentBack result }, sentBack result)

def answer (t : Transfer Src S W) : Outbound → Transfer Src S W
  | .accept m => { t with sender := (t.sender.onAccept m).1 }
  | .reject _ => t
  | .ack m => { t with sender := (t.sender.onAck m).1 }
  | .done m => { t with sender := (t.sender.onDone m).1 }

/-- The output of a step is what the receiver sends back in it. -/
def step (makeSink : W → ℕ → OsStr → W × Except SinkError S) (config : ReceiverConfig)
    (t : Transfer Src S W) : TransferEvent → Transfer Src S W × List Outbound
  | .poll => (t.poll, [])
  | .receive =>
    match t.toReceiver with
    | [] => (t, [])
    | m :: rest => { t with toReceiver := rest }.receive makeSink config m
  | .answer =>
    match t.toSender with
    | [] => (t, [])
    | m :: rest => ({ t with toSender := rest }.answer m, [])

def machine (makeSink : W → ℕ → OsStr → W × Except SinkError S) (config : ReceiverConfig) :
    Machine (Transfer Src S W) TransferEvent (List Outbound) := ⟨step makeSink config⟩

end Transfer

end

section

variable {Src S W : Type} [Sha256] [FileSource Src] [SourceContent Src] [LawfulFileSource Src]
  [FileSink S] [SinkContent S] [LawfulFileSink S]

/-- Every sink opens, and holds a prefix of its source. -/
def OpensPrefixes (makeSink : W → ℕ → OsStr → W × Except SinkError S)
    (sources : List (List UInt8)) : Prop :=
  ∀ i source, sources[i]? = some source → ∀ w path,
    ∃ sink, (makeSink w i path).2 = .ok sink ∧ content sink <+: source

/-- What is known of a sender before it starts, and of how its offer is received. -/
structure Honest (makeSink : W → ℕ → OsStr → W × Except SinkError S) (config : ReceiverConfig)
    (s : Sender Src) : Prop where
  sound : s.Sound
  nonempty : s.tracks ≠ []
  waiting : s.accepted = false
  start : ∀ t ∈ s.tracks, t.sent = 0 ∧ t.acked = 0
  limits : checkLimits s.offer config = none
  valid : ∃ plans, validateEntries config 0 s.offer.files = .ok (.ok plans)
  digests : ∀ i entry source digest, s.offer.files[i]? = some entry →
    s.sources[i]? = some source → Supplied config i entry digest → digest = sha256 source
  sinks : OpensPrefixes makeSink s.sources

/-- The sender and the receiver are in step: the offer is on its way, or the answer to it is, or
each channel carries the steps by which the party at its end is ahead. -/
inductive Lockstep (s₀ : Sender Src) : Transfer Src S W → Prop where
  | offered {w : W} : Lockstep s₀ (.init s₀ w)
  | answered {w : W} {r : Receiver S} {m : FileAccept} {rest : List Outbound}
    (hinv : r.Inv) (hfollows : r.Follows s₀.sources) (hid : r.transferId = s₀.transferId)
    (hm : m = ⟨s₀.transferId, resumePoints 0 r.ackedThrough⟩)
    (hrest : Carries (Answers s₀.transferId) r.ackedThrough rest r.ackedThrough) :
    Lockstep s₀ ⟨s₀, some r, w, [], .accept m :: rest⟩
  | running {s : Sender Src} {w : W} {r : Receiver S} {chunks : List FileChunk}
    {out : List Outbound} (hsame : s₀.Same s) (haccepted : s.accepted = true)
    (hinv : r.Inv) (hfollows : r.Follows s₀.sources) (hid : r.transferId = s₀.transferId)
    (hsends : Carries (Sends s₀.transferId s₀.sources) r.ackedThrough chunks s.sents)
    (hanswers : Carries (Answers s₀.transferId) s.ackeds out r.ackedThrough) :
    Lockstep s₀ ⟨s, some r, w, chunks.map .chunk, out⟩

/-- What a `FileDone` means: all that is held is what was sent. -/
def Truthful (s₀ : Sender Src) (t : Transfer Src S W) (out : List Outbound) : Prop :=
  ∀ d, .done d ∈ out → ∃ r, t.receiver = some r ∧ r.contents = s₀.sources

variable {makeSink : W → ℕ → OsStr → W × Except SinkError S} {config : ReceiverConfig}
  {s₀ : Sender Src}

/-- The sink sizes that the sources allow. -/
theorem Honest.opens (h : Honest makeSink config s₀) {k : ℕ} {entry : FileEntry}
    (hentry : s₀.offer.files[k]? = some entry) (w : W) (path : OsStr) :
    ∃ sink, (makeSink w k path).2 = .ok sink ∧ FileSink.existingLen sink ≤ entry.size := by
  rw [Sender.offer, List.getElem?_map, Option.map_eq_some_iff] at hentry
  obtain ⟨t, ht, rfl⟩ := hentry
  obtain ⟨sink, hsink, hslice⟩ := h.sinks k (bytes t.src) (by
    rw [Sender.sources, List.getElem?_map, ht]
    rfl) w path
  refine ⟨sink, hsink, ?_⟩
  rw [UInt64.le_iff_toNat_le, LawfulFileSink.existingLen_eq,
    h.sound.size_eq t (List.mem_of_getElem? ht), LawfulFileSource.len_eq]
  exact hslice.length_le

/-- The receiver that has accepted an honest offer follows it. -/
theorem Honest.follows (h : Honest makeSink config s₀) {w w' : W} {r : Receiver S} {m : FileAccept}
    {rest : List Outbound} {plans : List (OsStr × Option Hash)} {slots : List (Slot S)}
    {done : Option FileDone}
    (ha : Accepts makeSink s₀.offer config w w' r m rest plans slots done) :
    (Receiver.opened s₀.offer config slots).Follows s₀.sources := by
  obtain ⟨-, hlength, hopens⟩ := openSinks_ok ha.opens
  obtain ⟨hplans, hplan⟩ := validateEntries_ok ha.plans_eq
  have hfiles : s₀.offer.files.length = s₀.sources.length := by
    rw [Sender.offer, Sender.sources, List.length_map, List.length_map]
  refine ⟨ha.good, rfl, by rw [← hfiles, ← hplans, ← hlength]; rfl, ?_⟩
  intro i slot source hslot hsource
  obtain ⟨entry, plan, hentry, hplan', ho⟩ := hopens i slot hslot
  rw [Nat.zero_add] at ho
  have hvalid := hplan i entry plan hentry hplan'
  rw [Nat.zero_add] at hvalid
  refine ⟨?_, ?_, ?_⟩
  · obtain ⟨w₁, hopened⟩ := ho.opened
    obtain ⟨sink, hsink, hslice⟩ := h.sinks i source hsource w₁ plan.1
    rw [hopened] at hsink
    cases hsink
    exact hslice
  · rw [ho.size_eq]
    rw [Sender.offer, List.getElem?_map, Option.map_eq_some_iff] at hentry
    obtain ⟨t, ht, rfl⟩ := hentry
    rw [Sender.sources, List.getElem?_map, ht] at hsource
    cases hsource
    rw [h.sound.size_eq t (List.mem_of_getElem? ht), LawfulFileSource.len_eq]
  · intro digest hexpected
    rw [ho.expected_eq] at hexpected
    exact h.digests i entry source digest hentry hsource
      ((validateEntry_expected hvalid digest).1 hexpected)

omit [FileSink S] [LawfulFileSink S] [FileSource Src] [LawfulFileSource Src] in
theorem Receiver.Follows.length_tracks {r : Receiver S} {s : Sender Src}
    (h : r.Follows s.sources) : r.ackedThrough.length = s.tracks.length := by
  rw [ackedThrough, List.length_map, h.length_eq, Sender.sources, List.length_map]

omit [FileSink S] [LawfulFileSink S] in
/-- A file of the receiver is one of the sender's, of the same size. -/
theorem Receiver.Follows.track {r : Receiver S} {s : Sender Src} (h : r.Follows s.sources)
    (hs : s.Sound) {i : ℕ} {x : UInt64} (hx : r.ackedThrough[i]? = some x) :
    ∃ slot t, r.slots[i]? = some slot ∧ slot.acked = x ∧ s.tracks[i]? = some t ∧
      slot.size = t.size := by
  obtain ⟨hlt, -⟩ := List.getElem?_eq_some_iff.1 hx
  rw [h.length_tracks] at hlt
  have ht := List.getElem?_eq_getElem hlt
  have hsource : s.sources[i]? = some (bytes s.tracks[i].src) := by
    rw [Sender.sources, List.getElem?_map, ht]
    rfl
  rw [ackedThrough, List.getElem?_map, Option.map_eq_some_iff] at hx
  obtain ⟨slot, hslot, hacked⟩ := hx
  obtain ⟨-, hlength, -⟩ := h.file i slot _ hslot hsource
  refine ⟨slot, _, hslot, hacked, ht, ?_⟩
  rw [hs.size_eq _ (List.getElem_mem hlt), ← UInt64.toNat_inj, LawfulFileSource.len_eq, hlength]

omit [FileSink S] [LawfulFileSink S] in
/-- What is acked of a file is within its size. -/
theorem Receiver.Follows.acked_le {r : Receiver S} {s : Sender Src} (h : r.Follows s.sources)
    (hs : s.Sound) {i : ℕ} {x : UInt64} (hx : r.ackedThrough[i]? = some x) :
    ∃ t, s.tracks[i]? = some t ∧ x ≤ t.size := by
  obtain ⟨slot, t, hslot, rfl, ht, hsize⟩ := h.track hs hx
  exact ⟨t, ht, hsize ▸ (h.good slot (List.mem_of_getElem? hslot)).le_size⟩

omit [FileSink S] [LawfulFileSink S] in
theorem Receiver.Follows.behind_sizes {r : Receiver S} {s : Sender Src}
    (h : r.Follows s.sources) (hs : s.Sound) :
    View.Behind r.ackedThrough (s.tracks.map (·.size)) := by
  intro i size hsize
  rw [List.getElem?_map, Option.map_eq_some_iff] at hsize
  obtain ⟨t, ht, rfl⟩ := hsize
  obtain ⟨hlt, -⟩ := List.getElem?_eq_some_iff.1 ht
  rw [← h.length_tracks] at hlt
  have hx := List.getElem?_eq_getElem hlt
  obtain ⟨t', ht', hle⟩ := h.acked_le hs hx
  rw [ht] at ht'
  cases ht'
  exact ⟨_, hx, hle⟩

omit [Sha256] [SourceContent Src] [LawfulFileSource Src] in
/-- Before the accept, nothing is sent. -/
theorem Sender.pollChunk_waiting {s : Sender Src} (h : s.accepted = false) :
    s.pollChunk = (s, .ok none) := by
  unfold Sender.pollChunk
  rw [h]
  rfl

variable [FaultlessSink S]

theorem Lockstep.offered_receive (h : Honest makeSink config s₀) (w : W) :
    Lockstep s₀ ((Transfer.init s₀ w).step makeSink config .receive).1 ∧
      Truthful s₀ ((Transfer.init s₀ w).step makeSink config .receive).1
        ((Transfer.init s₀ w).step makeSink config .receive).2 := by
  obtain ⟨plans, hplans⟩ := h.valid
  have hempty : s₀.offer.files ≠ [] := by
    rw [Sender.offer, ne_eq, List.map_eq_nil_iff]
    exact h.nonempty
  have htop : s₀.offer.files.length < 2 ^ 32 := by
    rw [Sender.offer, List.length_map]
    exact h.sound.length_lt
  obtain ⟨w', r, m, rest, haccept⟩ := acceptOffer_succeeds (w := w) hempty h.limits hplans htop
    fun k entry hentry w path => h.opens hentry w path
  obtain ⟨plans', slots, done, ha⟩ := acceptOffer_accepts haccept
  have hfinal := Receiver.finalized ha.finalize
  obtain ⟨hfollows, hdone⟩ := (h.follows ha).finalize ha.finalize
  have hview : r.ackedThrough = slots.map (·.acked) :=
    hfinal.slots.map_eq _ fun _ _ hf => hf.acked_eq
  have hm : m = ⟨s₀.transferId, resumePoints 0 r.ackedThrough⟩ := by
    obtain ⟨id, resume⟩ := m
    have hid := ha.id_eq
    have hresume := (openSinks_ok ha.opens).1
    dsimp only at hid hresume
    rw [hid, hresume, hview]
    rfl
  have hcarries : Carries (Answers s₀.transferId) r.ackedThrough rest r.ackedThrough := by
    rw [ha.rest_eq]
    rcases hdone with rfl | ⟨rfl, -⟩
    · exact .nil _
    · exact .cons .done (.nil _)
  have hstep : (Transfer.init s₀ w).step makeSink config .receive =
      (⟨s₀, some r, w', [], .accept m :: rest⟩, .accept m :: rest) := by
    simp only [Transfer.step, Transfer.init, Transfer.receive, haccept, List.nil_append]
  rw [hstep]
  refine ⟨.answered ha.inv hfollows hfinal.id_eq hm hcarries, ?_⟩
  intro d hd
  refine ⟨r, rfl, ?_⟩
  rcases hdone with rfl | ⟨-, hcontents⟩
  · rw [ha.rest_eq] at hd
    simp at hd
  · exact hcontents

omit [FileSink S] [LawfulFileSink S] [FaultlessSink S] in
/-- A poll keeps the parties in step. -/
theorem Lockstep.poll (h : Honest makeSink config s₀) {t : Transfer Src S W}
    (ht : Lockstep s₀ t) : Lockstep s₀ t.poll := by
  cases ht with
  | offered =>
    rw [Transfer.poll, Transfer.init, Sender.pollChunk_waiting h.waiting]
    exact .offered
  | answered hinv hfollows hid hm hrest =>
    rw [Transfer.poll, Sender.pollChunk_waiting h.waiting]
    exact .answered hinv hfollows hid hm hrest
  | @running s w r chunks out hsame haccepted hinv hfollows hid hsends hanswers =>
    rw [Transfer.poll]
    rcases (hsame.sound h.sound).poll haccepted with
      ⟨hnone, -⟩ | ⟨s', chunk, hsome, hsame', haccepted', hackeds, hsend⟩
    · rw [hnone]
      exact .running hsame haccepted hinv hfollows hid hsends hanswers
    · rw [hsome]
      rw [hsame.id_eq, hsame.sources_eq] at hsend
      rw [← hackeds] at hanswers
      have hlockstep := Lockstep.running (w := w) (hsame.trans hsame') haccepted' hinv hfollows hid
        (hsends.concat hsend) hanswers
      rwa [List.map_append] at hlockstep

/-- What the receiver does keeps the parties in step, and what it reports is true. -/
theorem Lockstep.receive (h : Honest makeSink config s₀) {t : Transfer Src S W}
    (ht : Lockstep s₀ t) :
    Lockstep s₀ (t.step makeSink config .receive).1 ∧
      Truthful s₀ (t.step makeSink config .receive).1 (t.step makeSink config .receive).2 := by
  cases ht with
  | @offered w => exact offered_receive h w
  | answered hinv hfollows hid hm hrest =>
    exact ⟨.answered hinv hfollows hid hm hrest, nofun⟩
  | @running s w r chunks out hsame haccepted hinv hfollows hid hsends hanswers =>
    cases chunks with
    | nil => exact ⟨.running hsame haccepted hinv hfollows hid hsends hanswers, nofun⟩
    | cons chunk chunks =>
      obtain ⟨view, hsend, hsends'⟩ := hsends.of_cons
      rw [← hid] at hsend
      obtain ⟨r', answers, hchunk, hfollows', hid', hview, hcarries, hdone⟩ :=
        hfollows.onChunk hsend
      have hinv' := hinv.onChunk chunk
      rw [hchunk] at hinv'
      have hstep : (Transfer.step makeSink config
          ⟨s, some r, w, (chunk :: chunks).map .chunk, out⟩ .receive) =
          (⟨s, some r', w, chunks.map .chunk, out ++ answers⟩, answers) := by
        simp only [Transfer.step, List.map_cons, Transfer.receive, hchunk, sentBack]
      rw [hstep]
      rw [hid] at hid' hcarries
      subst hview
      exact ⟨.running hsame haccepted hinv' hfollows' hid' hsends' (hanswers.append hcarries),
        fun d hd => ⟨r', rfl, hdone d hd⟩⟩

omit [LawfulFileSink S] [FaultlessSink S] in
/-- What the sender does with an answer keeps the parties in step. -/
theorem Lockstep.answer (h : Honest makeSink config s₀) {t : Transfer Src S W}
    (ht : Lockstep s₀ t) : Lockstep s₀ (t.step makeSink config .answer).1 := by
  cases ht with
  | offered => exact .offered
  | @answered w r m rest hinv hfollows hid hm hrest =>
    subst hm
    have hheld : ∀ (k : ℕ) (x : UInt64), r.ackedThrough[k]? = some x →
        ∃ t, s₀.tracks[k]? = some t ∧ x ≤ t.size := fun k x hx => hfollows.acked_le h.sound hx
    obtain ⟨s', haccept, hsame, haccepted, hsents, hackeds⟩ :=
      Sender.onAccept_resumes h.waiting h.start h.sound.length_lt
        hfollows.length_tracks.symm hheld
    have hstep : (Transfer.step makeSink config
        (⟨s₀, some r, w, [], .accept ⟨s₀.transferId, resumePoints 0 r.ackedThrough⟩ :: rest⟩ :
          Transfer Src S W) .answer).1 = ⟨s', some r, w, [].map .chunk, rest⟩ := by
      simp only [Transfer.step, Transfer.answer, haccept, List.map_nil]
    rw [hstep]
    refine .running hsame haccepted hinv hfollows hid ?_ ?_
    · rw [hsents]
      exact .nil _
    · rw [hackeds]
      exact hrest
  | @running s w r chunks out hsame haccepted hinv hfollows hid hsends hanswers =>
    cases out with
    | nil => exact .running hsame haccepted hinv hfollows hid hsends hanswers
    | cons m out =>
      obtain ⟨view, hanswer, hanswers'⟩ := hanswers.of_cons
      have hsources := hsame.sources_eq
      rw [← hsame.id_eq] at hanswer
      cases m with
      | accept m => cases hanswer
      | reject m => cases hanswer
      | done m =>
        cases hanswer
        have hstep : (Transfer.step makeSink config
            (⟨s, some r, w, chunks.map .chunk, .done ⟨s.transferId, true⟩ :: out⟩ :
              Transfer Src S W) .answer).1 = ⟨s, some r, w, chunks.map .chunk, out⟩ := by
          simp [Transfer.step, Transfer.answer, Sender.onDone]
        rw [hstep]
        exact .running hsame haccepted hinv hfollows hid hsends hanswers'
      | ack m =>
        -- The ack is of what the receiver held when it sent it, which is behind what it holds now.
        have hbehind : View.Behind view r.ackedThrough :=
          hanswers'.rel View.Behind.refl (fun _ _ _ => .trans) fun _ _ _ => Answers.behind
        have hsents : View.Behind r.ackedThrough s.sents :=
          hsends.rel View.Behind.refl (fun _ _ _ => .trans) fun _ _ _ => Sends.behind
        have hsizes := Receiver.Follows.behind_sizes (s := s) (hsources ▸ hfollows)
          (hsame.sound h.sound)
        obtain ⟨s', hack, hsame', haccepted', rfl, hsents'⟩ :=
          Sender.onAck_answers haccepted hanswer (hbehind.trans hsents) (hbehind.trans hsizes)
        have hstep : (Transfer.step makeSink config
            (⟨s, some r, w, chunks.map .chunk, .ack m :: out⟩ : Transfer Src S W) .answer).1 =
            ⟨s', some r, w, chunks.map .chunk, out⟩ := by
          simp only [Transfer.step, Transfer.answer, hack]
        rw [hstep]
        rw [← hsents'] at hsends
        exact .running (hsame.trans hsame') haccepted' hinv hfollows hid hsends hanswers'

/-! ## What is delivered -/

/-- **The step lemma of the transfer.** -/
theorem Lockstep.step (h : Honest makeSink config s₀) {t : Transfer Src S W} (ht : Lockstep s₀ t)
    (event : TransferEvent) :
    Lockstep s₀ (t.step makeSink config event).1 ∧
      Truthful s₀ (t.step makeSink config event).1 (t.step makeSink config event).2 := by
  cases event with
  | poll => exact ⟨ht.poll h, nofun⟩
  | receive => exact ht.receive h
  | answer =>
    refine ⟨ht.answer h, ?_⟩
    have hquiet : (t.step makeSink config .answer).2 = [] := by
      unfold Transfer.step
      dsimp only
      split <;> rfl
    rw [hquiet]
    nofun

omit [FileSink S] [LawfulFileSink S] [FaultlessSink S] in
/-- A file whose track has its size acked is received. -/
theorem Receiver.Follows.contents_of_acked {r : Receiver S} {s : Sender Src}
    (h : r.Follows s.sources) (hs : s.Sound)
    (hall : ∀ (i : ℕ) (t : Track Src) (x : UInt64), s.tracks[i]? = some t →
      r.ackedThrough[i]? = some x → t.size ≤ x) : r.contents = s.sources := by
  refine h.contents_eq ?_
  intro slot hslot
  obtain ⟨i, hi⟩ := List.mem_iff_getElem?.1 hslot
  have hx : r.ackedThrough[i]? = some slot.acked := by
    rw [ackedThrough, List.getElem?_map, hi]
    rfl
  obtain ⟨slot', t, hslot', -, ht, hsize⟩ := h.track hs hx
  rw [hi] at hslot'
  cases hslot'
  rw [hsize]
  exact hall i t slot.acked ht hx

omit [SourceContent Src] [LawfulFileSource Src] [FileSource Src] [Sha256] in
theorem Sender.size_le_of_complete {s : Sender Src} (h : s.isComplete = true) :
    ∀ t ∈ s.tracks, t.size ≤ t.acked := by
  rw [Sender.isComplete, Bool.and_eq_true, List.all_eq_true] at h
  intro t ht
  exact of_decide_eq_true (h.2 t ht)

omit [FileSink S] [LawfulFileSink S] [FaultlessSink S] in
/-- A transfer that the sender takes for complete is received. -/
theorem Lockstep.complete (h : Honest makeSink config s₀) {t : Transfer Src S W}
    (ht : Lockstep s₀ t) (hcomplete : t.sender.isComplete = true) :
    (∀ r, t.receiver = some r → r.contents = s₀.sources) ∧
      (t.receiver = none → ∀ source ∈ s₀.sources, source = []) := by
  have hall := Sender.size_le_of_complete hcomplete
  cases ht with
  | offered =>
    refine ⟨nofun, ?_⟩
    intro _ source hsource
    obtain ⟨track, htrack, rfl⟩ := List.mem_map.1 hsource
    have hle := hall track htrack
    rw [(h.start track htrack).2, h.sound.size_eq track htrack, UInt64.le_iff_toNat_le,
      LawfulFileSource.len_eq] at hle
    exact List.eq_nil_of_length_eq_zero (Nat.le_zero.1 hle)
  | answered hinv hfollows hid hm hrest =>
    refine ⟨?_, nofun⟩
    rintro _ ⟨⟩
    refine hfollows.contents_of_acked h.sound ?_
    intro i track x htrack hx
    have hmem := List.mem_of_getElem? htrack
    have hle := hall track hmem
    rw [(h.start track hmem).2] at hle
    exact UInt64.le_trans hle (UInt64.zero_le)
  | @running s w r chunks out hsame haccepted hinv hfollows hid hsends hanswers =>
    refine ⟨?_, nofun⟩
    rintro _ ⟨⟩
    rw [← hsame.sources_eq] at hfollows ⊢
    refine hfollows.contents_of_acked (hsame.sound h.sound) ?_
    intro i track x htrack hx
    have hbehind : View.Behind s.ackeds r.ackedThrough :=
      hanswers.rel View.Behind.refl (fun _ _ _ => .trans) fun _ _ _ => Answers.behind
    obtain ⟨y, hy, hyx⟩ := hbehind i x hx
    rw [Sender.ackeds, List.getElem?_map, htrack] at hy
    cases hy
    exact UInt64.le_trans (hall track (List.mem_of_getElem? htrack)) hyx

omit [FileSink S] [LawfulFileSink S] [FaultlessSink S] in
/-- **No deadlock.** When nothing is on its way and the receiver is not at its end, there is a chunk
to send. -/
theorem Lockstep.progress (h : Honest makeSink config s₀) {t : Transfer Src S W}
    (ht : Lockstep s₀ t) (haccepted : t.sender.accepted = true) (hin : t.toReceiver = [])
    (hout : t.toSender = []) :
    ∃ r, t.receiver = some r ∧
      (r.isTerminal = false → ∃ s' chunk, t.sender.pollChunk = (s', .ok (some chunk))) := by
  cases ht with
  | offered => cases hin
  | answered hinv hfollows hid hm hrest => cases hout
  | @running s w r chunks out hsame haccepted hinv hfollows hid hsends hanswers =>
    refine ⟨r, rfl, ?_⟩
    intro hterminal
    dsimp only at hin hout ⊢
    rw [List.map_eq_nil_iff] at hin
    subst hin hout
    rw [carries_nil] at hsends hanswers
    have hs := hsame.sound h.sound
    rw [← hsame.sources_eq] at hfollows
    rcases hs.poll haccepted with ⟨-, hidle⟩ | ⟨s', chunk, hsome, -⟩
    · exfalso
      -- Every file is idle with nothing in flight, so every file is all sent.
      have hfull : ∀ slot ∈ r.slots, slot.complete = true := by
        intro slot hslot
        obtain ⟨i, hi⟩ := List.mem_iff_getElem?.1 hslot
        have hx : r.ackedThrough[i]? = some slot.acked := by
          rw [Receiver.ackedThrough, List.getElem?_map, hi]
          rfl
        obtain ⟨slot', t, hslot', -, ht, hsize⟩ := hfollows.track hs hx
        rw [hi] at hslot'
        cases hslot'
        have hsent : t.sent = slot.acked := by
          rw [hsends, Sender.sents, List.getElem?_map, ht] at hx
          exact Option.some.inj hx
        have hacked : t.acked = slot.acked := by
          rw [← hanswers, Sender.ackeds, List.getElem?_map, ht] at hx
          exact Option.some.inj hx
        refine hinv.settled hfollows.running slot hslot ?_
        rw [hsize, ← hsent]
        rcases hidle t (List.mem_of_getElem? ht) with hall | hwindow
        · exact hall
        · rw [hsent, hacked, UInt64.le_iff_toNat_le, UInt64.toNat_saturatingSub,
            Nat.sub_self] at hwindow
          exact absurd hwindow (by decide)
      have hne : r.slots.isEmpty = false := by
        rw [List.isEmpty_eq_false_iff]
        intro hnil
        have hlength := hfollows.length_tracks
        have hsame' := congrArg List.length hsame.files_eq
        rw [List.length_map, List.length_map] at hsame'
        rw [Receiver.ackedThrough, hnil, hsame'] at hlength
        exact h.nonempty (List.eq_nil_of_length_eq_zero hlength.symm)
      have hcomplete : r.isComplete = true := by
        rw [Receiver.isComplete, hfollows.running, hne, List.all_eq_true.2 hfull]
        rfl
      rw [Receiver.isTerminal, hcomplete] at hterminal
      cases hterminal
    · exact ⟨s', chunk, hsome⟩

/-- What holds of a transfer whose sender sends the `sources`, after a run with the steps `tr` that
ends in `t`. -/
structure Delivers (sources : List (List UInt8))
    (tr : List (Machine.Entry (Transfer Src S W) TransferEvent (List Outbound)))
    (t : Transfer Src S W) : Prop where
  /-- Every sink holds a prefix of its source. -/
  prefixes : ∀ r, t.receiver = some r → r.slots.length = sources.length ∧
    ∀ (i : ℕ) (slot : Slot S) (source : List UInt8), r.slots[i]? = some slot →
      sources[i]? = some source → content slot.sink <+: source
  /-- A transfer that is reported as done has brought every sink its source. -/
  done : ∀ e ∈ tr, ∀ d, Outbound.done d ∈ e.output → d.ok = true →
    ∃ r, e.post.receiver = some r ∧ r.contents = sources
  /-- So has a transfer that the sender takes for complete. -/
  complete : t.sender.isComplete = true →
    (∀ r, t.receiver = some r → r.contents = sources) ∧
      (t.receiver = none → ∀ source ∈ sources, source = [])
  /-- Once the accept is processed, the transfer is not stuck. -/
  progress : t.sender.accepted = true → t.toReceiver = [] → t.toSender = [] →
    ∃ r, t.receiver = some r ∧
      (r.isTerminal = false → ∃ s' chunk, t.sender.pollChunk = (s', .ok (some chunk)))

omit [Sha256] [LawfulFileSource Src] [SourceContent Src] in
/-- What the constructors of a sender give. -/
theorem Sender.start_of_new {transferId : UInt64} {files : List (String × Src × Option Hash)}
    {n : ℕ} {s₁ s : Sender Src} (hnew : newWithHashes transferId files = .ok s₁)
    (hchunk : s₁.withChunkSize n = .ok s) :
    s.Sound ∧ s.tracks ≠ [] ∧ s.accepted = false ∧ (∀ t ∈ s.tracks, t.sent = 0 ∧ t.acked = 0) ∧
      s.tracks = files.map fun (name, src, sha256) => .new name src sha256 := by
  unfold newWithHashes at hnew
  unfold withChunkSize at hchunk
  split at hnew
  · cases hnew
  · next hne =>
    split at hnew
    · cases hnew
    · next hcount =>
      cases hnew
      split at hchunk
      · cases hchunk
      · next hsize =>
        cases hchunk
        rw [not_or, Nat.not_lt] at hsize
        refine ⟨⟨?_, Nat.pos_of_ne_zero hsize.1, hsize.2, ?_, rfl⟩, ?_, rfl, ?_, rfl⟩
        · intro t ht
          obtain ⟨file, -, rfl⟩ := List.mem_map.1 ht
          rfl
        · rw [List.length_map]
          exact Nat.lt_of_not_le hcount
        · rwa [ne_eq, List.map_eq_nil_iff]
        · intro t ht
          obtain ⟨file, -, rfl⟩ := List.mem_map.1 ht
          exact ⟨rfl, rfl⟩

end

/-- **A file transfer end to end.** -/
theorem transfer_delivers {Src S W : Type} [Sha256] [FileSource Src] [SourceContent Src]
    [LawfulFileSource Src] [FileSink S] [SinkContent S] [LawfulFileSink S] [FaultlessSink S]
    (transferId : UInt64) (files : List (String × Src × Option Hash)) (n : ℕ) (s₁ s : Sender Src)
    (hnew : Sender.newWithHashes transferId files = .ok s₁) (hchunk : s₁.withChunkSize n = .ok s)
    (makeSink : W → ℕ → OsStr → W × Except SinkError S) (config : ReceiverConfig) (w : W)
    (plans : List (OsStr × Option Hash)) (hlimits : checkLimits s.offer config = none)
    (hvalid : validateEntries config 0 s.offer.files = .ok (.ok plans))
    (hdigests : ∀ i entry source digest, s.offer.files[i]? = some entry →
      s.sources[i]? = some source → Supplied config i entry digest → digest = sha256 source)
    (hsinks : OpensPrefixes makeSink s.sources) (events : List TransferEvent) :
    Delivers s.sources ((Transfer.machine makeSink config).trace (.init s w) events)
      ((Transfer.machine makeSink config).exec (.init s w) events) := by
  obtain ⟨hsound, hnonempty, hwaiting, hstart, -⟩ := Sender.start_of_new hnew hchunk
  have h : Honest makeSink config s :=
    ⟨hsound, hnonempty, hwaiting, hstart, hlimits, ⟨plans, hvalid⟩, hdigests, hsinks⟩
  have hrun : ∀ events, Lockstep s ((Transfer.machine makeSink config).exec (.init s w) events) :=
    fun events => (Transfer.machine makeSink config).inv_exec .offered
      (fun t event ht => (ht.step h event).1) events
  have hlast := hrun events
  refine ⟨?_, ?_, hlast.complete h, hlast.progress h⟩
  · intro r hr
    have hfollows : r.Follows s.sources := by
      generalize (Transfer.machine makeSink config).exec (.init s w) events = t at hlast hr
      cases hlast with
      | offered => cases hr
      | answered hinv hfollows hid hm hrest =>
        cases hr
        exact hfollows
      | running hsame haccepted hinv hfollows hid hsends hanswers =>
        cases hr
        exact hfollows
    exact ⟨hfollows.length_eq, fun i slot source hslot hsource =>
      (hfollows.file i slot source hslot hsource).1⟩
  · intro e he d hd _
    obtain ⟨js, event, ks, -, rfl⟩ := (Transfer.machine makeSink config).mem_trace_iff.1 he
    exact ((hrun js).step h event).2 d hd

section

attribute [local instance] Sha256.abc

/-- The sender of a file that holds `abc`, two bytes at a time. -/
def abcSender : Sender MemSource :=
  ⟨7, [.new "a.txt" ⟨[97, 98, 99], length_abc_lt⟩ (some .ofAbc)], 2, false, false⟩

theorem abc_delivered :
    Delivers [[97, 98, 99]]
      ((Transfer.machine (fun (_ : Unit) _ _ => ((), .ok MemSink.new))
        (.new (OsStr.new "/quarantine"))).trace (.init abcSender ())
        [.receive, .answer, .poll, .poll, .receive, .receive, .answer, .answer, .answer])
      ((Transfer.machine (fun (_ : Unit) _ _ => ((), .ok MemSink.new))
        (.new (OsStr.new "/quarantine"))).exec (.init abcSender ())
        [.receive, .answer, .poll, .poll, .receive, .receive, .answer, .answer, .answer]) := by
  refine transfer_delivers 7 [("a.txt", ⟨[97, 98, 99], length_abc_lt⟩, some .ofAbc)] 2
    { abcSender with chunkSize := defaultChunkSize } abcSender rfl rfl _ _ ()
    [(OsStr.new "/quarantine/a.txt", some .ofAbc)] (by decide +kernel) (by decide +kernel) ?_ ?_ _
  · intro i entry source digest hentry hsource hsupplied
    cases i with
    | zero =>
      cases hentry
      cases hsource
      rcases hsupplied with hcaller | ⟨bytes, hbytes, hdigest⟩
      · cases hcaller
      · cases hbytes
        exact (Option.some.inj hdigest).symm
    | succ i => cases hentry
  · exact fun _ _ _ _ _ => ⟨MemSink.new, rfl, List.nil_prefix⟩

end

end Mouser
