import Mouser.Files.Stream

/-!
# What the two ends of a stream deliver
-/

namespace Mouser

open Cbor

/-! ## The messages fit -/

theorem sendable_chunk {c : FileChunk} (h : c.data.length ≤ maxChunkSize) :
    Sendable .fileChunk c := by
  have hmax : maxChunkSize = 1048576 := rfl
  have hbulk : maxBulkFrame = 2097152 := rfl
  have hdata : c.data.length < 2 ^ 64 := by omega
  refine ⟨⟨trivial, trivial, trivial, hdata, trivial⟩, ?_⟩
  have hlength : (FileChunk.schema.codec.toValue c).encode.length ≤
      9 + (9 + 11 + 9 + (9 + 10 + 9 + (9 + 6 + 9 + (9 + 4 + (9 + c.data.length) + 0)))) :=
    length_encode_map_le (length_encodeEntries_cons_le (by decide) (length_encode_uint_le _)
      (length_encodeEntries_cons_le (by decide) (length_encode_uint_le _)
      (length_encodeEntries_cons_le (by decide) (length_encode_uint_le _)
      (length_encodeEntries_cons_le (by decide) (length_encode_bytes_le _) le_rfl))))
  change 4 + (FileChunk.schema.codec.toValue c).encode.length ≤ maxBulkFrame
  omega

theorem sendable_ack (m : FileAck) : Sendable .fileAck m := by
  refine ⟨⟨trivial, trivial, trivial, trivial⟩, ?_⟩
  have hlength : (FileAck.schema.codec.toValue m).encode.length ≤
      9 + (9 + 11 + 9 + (9 + 10 + 9 + (9 + 13 + 9 + 0))) :=
    length_encode_map_le (length_encodeEntries_cons_le (by decide) (length_encode_uint_le _)
      (length_encodeEntries_cons_le (by decide) (length_encode_uint_le _)
      (length_encodeEntries_cons_le (by decide) (length_encode_uint_le _) le_rfl)))
  have hbulk : maxBulkFrame = 2097152 := rfl
  change 4 + (FileAck.schema.codec.toValue m).encode.length ≤ maxBulkFrame
  omega

theorem sendable_done (m : FileDone) : Sendable .fileDone m := by
  refine ⟨⟨trivial, trivial, trivial⟩, ?_⟩
  have hlength : (FileDone.schema.codec.toValue m).encode.length ≤
      9 + (9 + 11 + 9 + (9 + 2 + 9 + 0)) :=
    length_encode_map_le (length_encodeEntries_cons_le (by decide) (length_encode_uint_le _)
      (length_encodeEntries_cons_le (by decide) (length_encode_bool_le _) le_rfl))
  have hbulk : maxBulkFrame = 2097152 := rfl
  change 4 + (FileDone.schema.codec.toValue m).encode.length ≤ maxBulkFrame
  omega

theorem sendable_accept {m : FileAccept} (h : m.resume.length ≤ 10000) :
    Sendable .fileAccept m := by
  have hresume : m.resume.length < 2 ^ 64 := by omega
  refine ⟨⟨trivial, ⟨hresume, fun point _ => ⟨trivial, trivial, trivial⟩⟩, trivial⟩, ?_⟩
  have hpoint : ∀ item ∈ m.resume.map ResumePoint.schema.codec.toValue,
      item.encode.length ≤ 9 + (9 + 10 + 9 + (9 + 6 + 9 + 0)) := by
    intro item hitem
    obtain ⟨point, -, rfl⟩ := List.mem_map.1 hitem
    exact length_encode_map_le
      (length_encodeEntries_cons_le (by decide) (length_encode_uint_le _)
      (length_encodeEntries_cons_le (by decide) (length_encode_uint_le _) le_rfl))
  have hitems := length_encode_array_le hpoint
  rw [List.length_map] at hitems
  have hlength : (FileAccept.schema.codec.toValue m).encode.length ≤
      9 + (9 + 11 + 9 + (9 + 6 + (9 + m.resume.length *
        (9 + (9 + 10 + 9 + (9 + 6 + 9 + 0)))) + 0)) :=
    length_encode_map_le (length_encodeEntries_cons_le (by decide) (length_encode_uint_le _)
      (length_encodeEntries_cons_le (by decide) hitems le_rfl))
  have hbulk : maxBulkFrame = 2097152 := rfl
  change 4 + (FileAccept.schema.codec.toValue m).encode.length ≤ maxBulkFrame
  omega

theorem length_resumePoints_le (i : ℕ) (held : List UInt64) :
    (resumePoints i held).length ≤ held.length := by
  induction held generalizing i with
  | nil => exact le_rfl
  | cons x held ih =>
    rw [resumePoints, List.length_append, List.length_cons, Nat.add_comm]
    refine Nat.add_le_add (ih _) ?_
    split
    · exact le_rfl
    · exact Nat.zero_le _

/-! ## The acks that are on their way -/

/-- An ack by which its file gets further. -/
inductive Acks (transferId : UInt64) (a : View) : Outbound → View → Prop where
  | ack {i : UInt32} {acked stop : UInt64} (hacked : a[i.toNat]? = some acked)
    (hlt : acked < stop) : Acks transferId a (.ack ⟨transferId, i, stop⟩) (a.set i.toNat stop)

theorem Acks.answers {transferId : UInt64} {a b : View} {m : Outbound}
    (h : Acks transferId a m b) : Answers transferId a m b := by
  cases h with
  | ack hacked hlt => exact .ack hacked (UInt64.le_of_lt hlt)

theorem carries_answers {transferId : UInt64} {a b : View} {out : List Outbound}
    (h : Carries (Acks transferId) a out b) : Carries (Answers transferId) a out b := by
  induction h with
  | nil a => exact .nil a
  | cons hx _ ih => exact .cons hx.answers ih

/-- The last word of a receiver that is at its end. -/
def Receiver.lastWord {S : Type} (r : Receiver S) : List Outbound :=
  if r.isTerminal then [.done ⟨r.transferId, true⟩] else []

section

variable {S : Type} [Sha256] [FileSink S] [SinkContent S] [LawfulFileSink S] [FaultlessSink S]
  {r r' : Receiver S} {sources : List (List UInt8)}

omit [Sha256] [FileSink S] [SinkContent S] [LawfulFileSink S] [FaultlessSink S] in
theorem Receiver.isTerminal_iff (hne : r.slots ≠ []) (hrunning : r.aborted = false) :
    r.isTerminal = true ↔ r.slots.all (·.complete) = true := by
  rw [isTerminal, isComplete, hrunning, List.isEmpty_eq_false_iff.2 hne, Bool.or_false]
  rfl

omit [FaultlessSink S] in
/-- A receiver that has not failed says its last word as soon as it is at its end. -/
theorem Receiver.lastWord_eq (hne : r.slots ≠ []) (hopen : r.doneEmitted = false)
    {done : Option FileDone} (hfinalize : r.finalizeCompletedFiles = (r', done))
    (hrunning : r'.aborted = false) : (done.map Outbound.done).toList = r'.lastWord := by
  have hslots := finalizeSlots_finishes r.slots
  unfold finalizeCompletedFiles at hfinalize
  cases hresult : finalizeSlots r.slots with
  | mk slots ok =>
    rw [hresult] at hslots hfinalize
    have hne' : slots ≠ [] := by
      rintro rfl
      exact hne (List.eq_nil_of_length_eq_zero hslots.length_eq)
    cases ok with
    | false =>
      cases hfinalize
      cases hrunning
    | true =>
      dsimp only at hfinalize
      split at hfinalize
      · next hall =>
        cases hfinalize
        rw [Bool.and_eq_true] at hall
        have hterminal := (isTerminal_iff (r := { r with slots, doneEmitted := true }) hne'
          hrunning).2 hall.2
        rw [lastWord, if_pos hterminal]
        rfl
      · next hall =>
        cases hfinalize
        rw [hopen] at hall
        have hterminal := mt (isTerminal_iff (r := { r with slots }) hne' hrunning).1 hall
        rw [lastWord, if_neg hterminal]
        rfl

/-- **The answer to a chunk**: an ack, and behind it the last word when the receiver is then at its
end. -/
theorem Receiver.Follows.answer (h : r.Follows sources) (hinv : r.Inv) {c : FileChunk} {b : View}
    (hc : Sends r.transferId sources r.ackedThrough c b) :
    ∃ r' ack, r.onChunk c = (r', .ok (ack :: r'.lastWord)) ∧ r'.Follows sources ∧ r'.Inv ∧
      r'.transferId = r.transferId ∧ r'.ackedThrough = b ∧ r.isTerminal = false ∧
      Acks r.transferId r.ackedThrough ack b := by
  obtain ⟨slot, stop, source, hnext, -, -, rfl⟩ := h.next hc
  obtain ⟨r', out, hchunk, hfollows, hid, hview, -, -⟩ := h.onChunk hc
  have hinv' := hinv.onChunk c
  rw [hchunk] at hinv'
  have hne : r.slots ≠ [] := List.ne_nil_of_mem (List.mem_of_getElem? hnext.found)
  have hopen := hinv.open_of_next hnext
  have hterminal : r.isTerminal = false := by
    rw [Bool.eq_false_iff, ne_eq, isTerminal_iff hne h.running, List.all_eq_true]
    intro hall
    have hcomplete := hall slot (List.mem_of_getElem? hnext.found)
    rw [hnext.incomplete] at hcomplete
    cases hcomplete
  have hacked : r.ackedThrough[c.fileIndex.toNat]? = some slot.acked := by
    rw [ackedThrough, List.getElem?_map, hnext.found]
    rfl
  have hlt : slot.acked < stop := by
    rw [UInt64.lt_iff_toNat_lt, hnext.stop_eq]
    exact Nat.lt_add_of_pos_right (List.length_pos_of_ne_nil hc.nonempty)
  refine ⟨r', .ack ⟨r.transferId, c.fileIndex, stop⟩, ?_, hfollows, hinv', hid, hview, hterminal,
    .ack hacked hlt⟩
  have hgood := h.good slot (List.mem_of_getElem? hnext.found)
  cases hwrite : FileSink.writeAt slot.sink slot.acked c.data with
  | mk sink result =>
    have hok := FaultlessSink.write_ok slot.sink c.data (by
      rw [hgood.held, ← hnext.stop_eq]
      exact stop.toNat_lt)
    rw [hgood.existingLen, hwrite] at hok
    cases hok
    cases hfinalize : (r.putSlot c.fileIndex
        { slot with sink, acked := stop }).finalizeCompletedFiles with
    | mk r₁ done =>
      have hwritten := hnext.onChunk_written hwrite hfinalize
      obtain ⟨rfl, -⟩ := Prod.mk.inj (hwritten.symm.trans hchunk)
      have hput : (r.putSlot c.fileIndex { slot with sink, acked := stop }).slots ≠ [] :=
        fun hnil => hne ((List.set_eq_nil_iff _ _).1 hnil)
      rw [hwritten, Receiver.lastWord_eq hput hopen hfinalize hfollows.running]

end

/-- The messages that a batch is sent as. -/
def Written (out : List Outbound) (xs : List StreamMessage) : Prop :=
  List.Forall₂ (fun m x => m.message = .ok x) out xs

/-- Every ack, and the last word, can be sent. -/
theorem written_answers {transferId : UInt64} {a b : View} {out : List Outbound}
    (h : Carries (Answers transferId) a out b) : ∃ xs, Written out xs := by
  induction h with
  | nil a => exact ⟨[], .nil⟩
  | cons hx _ ih =>
    obtain ⟨xs, hxs⟩ := ih
    cases hx with
    | @ack i acked stop hacked hle =>
      obtain ⟨x, hx, -⟩ := (sendable_ack ⟨transferId, i, stop⟩).message
      exact ⟨x :: xs, .cons hx hxs⟩
    | done =>
      obtain ⟨x, hx, -⟩ := (sendable_done ⟨transferId, true⟩).message
      exact ⟨x :: xs, .cons hx hxs⟩

theorem Receiver.lastWord_answers {S : Type} (r : Receiver S) (a : View) :
    Carries (Answers r.transferId) a r.lastWord a := by
  unfold lastWord
  split
  · exact .cons .done (.nil a)
  · exact .nil a

/-! ## The bytes that are still to be sent -/

def unsent (sources : List (List UInt8)) (view : View) : ℕ :=
  (List.zipWith (fun source (x : UInt64) => source.length - x.toNat) sources view).sum

theorem unsent_set_lt {sources : List (List UInt8)} {view : View} {i : ℕ} {source : List UInt8}
    {x y : UInt64} (hsource : sources[i]? = some source) (hx : view[i]? = some x) (hlt : x < y)
    (hle : y.toNat ≤ source.length) : unsent sources (view.set i y) < unsent sources view := by
  induction i generalizing sources view with
  | zero =>
    cases sources with
    | nil => cases hsource
    | cons first sources =>
      cases view with
      | nil => cases hx
      | cons z view =>
        cases hsource
        cases hx
        rw [UInt64.lt_iff_toNat_lt] at hlt
        simp only [unsent, List.set_cons_zero, List.zipWith_cons_cons, List.sum_cons]
        omega
  | succ i ih =>
    cases sources with
    | nil => cases hsource
    | cons first sources =>
      cases view with
      | nil => cases hx
      | cons z view =>
        have hrest := ih hsource hx
        simp only [unsent, List.set_cons_succ, List.zipWith_cons_cons, List.sum_cons] at hrest ⊢
        omega

/-- A chunk leaves less to be sent. -/
theorem Sends.unsent_lt {transferId : UInt64} {sources : List (List UInt8)} {a b : View}
    {c : FileChunk} (h : Sends transferId sources a c b) {source : List UInt8}
    (hsource : sources[c.fileIndex.toNat]? = some source) :
    unsent sources b < unsent sources a := by
  obtain ⟨stop, hstop, rfl⟩ := h.stop
  have hlength := (h.slice source hsource).length_le
  have hpos := List.length_pos_of_ne_nil h.nonempty
  rw [List.length_drop] at hlength
  refine unsent_set_lt hsource h.offset_eq ?_ (by omega)
  rw [UInt64.lt_iff_toNat_lt]
  omega

/-! ## The run in which the receiver answers at once -/

section

variable {Src S W : Type} [Sha256] [FileSource Src] [SourceContent Src] [LawfulFileSource Src]
  [FileSink S] [SinkContent S] [LawfulFileSink S] [FaultlessSink S]
  {makeSink : W → ℕ → OsStr → W × Except SinkError S} {config : ReceiverConfig}

omit [Sha256] [SourceContent Src] [LawfulFileSource Src] [SinkContent S] [LawfulFileSink S]
  [FaultlessSink S] in
/-- A batch is sent message by message. -/
theorem steps_sendBatch {r : Receiver S} {w : W} {out : List Outbound} {xs : List StreamMessage}
    (h : Written out xs) (left : SenderStream Src) (toRight queue : List StreamMessage) :
    Steps (Talk.Step SenderStream.act (ReceiverStream.act makeSink config)) xs.length
      ⟨left, .sendBatch r w out, toRight, queue⟩
      ⟨left, .sendBatch r w [], toRight, queue ++ xs⟩ := by
  induction h generalizing queue with
  | nil =>
    rw [List.append_nil]
    exact .zero _
  | @cons m x out xs hx _ ih =>
    have hsending : ReceiverStream.sendBatch r w (m :: out) = .sending r w x out := by
      rw [ReceiverStream.sendBatch, hx]
    have hrest := ih (queue ++ [x])
    rw [List.append_assoc, List.singleton_append] at hrest
    rw [hsending]
    exact .succ ⟨.right, rfl⟩ hrest

/-- The sender `s` of what `s₀` sends, and the receiver, when nothing is on its way to the receiver
and it has been answered with `acks`, up to its last word. -/
structure Between (s₀ s : Sender Src) (r : Receiver S) (acks : List Outbound) : Prop where
  same : s₀.Same s
  accepted : s.accepted = true
  inv : r.Inv
  follows : r.Follows s₀.sources
  id_eq : r.transferId = s₀.transferId
  sents_eq : s.sents = r.ackedThrough
  acks : Carries (Acks s₀.transferId) s.ackeds acks r.ackedThrough

/-- Where the two ends then stand. -/
def Between.talk (s : Sender Src) (r : Receiver S) (w : W) (queue : List StreamMessage) :
    Talk (SenderStream Src) (ReceiverStream S W) StreamMessage StreamMessage :=
  ⟨.loop s, .sendBatch r w [], [], queue⟩

/-- What is left to do. -/
def Between.todo (s : Sender Src) (acks : List Outbound) : ℕ :=
  2 * unsent s.sources s.sents + acks.length

/-- Both ends have returned. -/
def bothReturned (s : Sender Src) (r : Receiver S) (w : W) :
    Talk (SenderStream Src) (ReceiverStream S W) StreamMessage StreamMessage :=
  ⟨.returned s (.ok ()), .returned (some r) w (.ok ()), [], []⟩

namespace Between

variable {s₀ s : Sender Src} {r : Receiver S} {acks : List Outbound} {w : W}
  {queue : List StreamMessage} {m : Outbound}

omit [LawfulFileSource Src] in
/-- A chunk is sent, and answered. -/
theorem chunk (h : Between s₀ s r acks) (hqueue : Written (acks ++ r.lastWord) queue)
    {s' : Sender Src} {c : FileChunk} (hpoll : s.pollChunk = (s', .ok (some c)))
    (hsame : s.Same s') (haccepted : s'.accepted = true) (hackeds : s'.ackeds = s.ackeds)
    (hsends : Sends s.transferId s.sources s.sents c s'.sents) :
    ∃ n r' acks' queue', Steps (Talk.Step SenderStream.act (ReceiverStream.act makeSink config)) n
        (talk s r w queue) (talk s' r' w queue') ∧
      Between s₀ s' r' acks' ∧ Written (acks' ++ r'.lastWord) queue' ∧
      todo s' acks' < todo s acks := by
  have hsends' := hsends
  rw [h.same.id_eq, ← h.id_eq, h.same.sources_eq, h.sents_eq] at hsends'
  obtain ⟨r', ack, hchunk, hfollows, hinv, hid, hview, hterminal, hack⟩ :=
    h.follows.answer h.inv hsends'
  have hquiet : r.lastWord = [] := by
    rw [Receiver.lastWord, hterminal]
    rfl
  rw [hquiet, List.append_nil] at hqueue
  obtain ⟨x, hx, htype, hread⟩ := (sendable_chunk hsends.small).message
  have hanswers : Carries (Answers r.transferId) r.ackedThrough (ack :: r'.lastWord) s'.sents :=
    .cons hack.answers (hid ▸ r'.lastWord_answers _)
  obtain ⟨xs, hxs⟩ := written_answers hanswers
  have hloop : SenderStream.loop s = .sendingChunk s' x := by
    rw [SenderStream.loop, hpoll]
    dsimp only
    rw [hx]
  have hsettled : ReceiverStream.sendBatch r w [] = .awaitingChunk r w := by
    rw [ReceiverStream.sendBatch, hterminal]
    rfl
  have honChunk : ReceiverStream.onChunk r w x = .sendBatch r' w (ack :: r'.lastWord) := by
    rw [ReceiverStream.onChunk, if_neg (not_not.2 htype), hread]
    dsimp only
    rw [hchunk]
  refine ⟨xs.length + 1 + 1, r', acks ++ [ack], queue ++ xs, ?_, ?_, ?_, ?_⟩
  · rw [talk, hloop, hsettled]
    refine .succ ⟨.left, rfl⟩ (.succ ⟨.right, rfl⟩ ?_)
    dsimp only
    rw [honChunk]
    exact steps_sendBatch hxs _ _ _
  · refine ⟨h.same.trans hsame, haccepted, hinv, hfollows, hid.trans h.id_eq, hview.symm, ?_⟩
    rw [hackeds, hview]
    rw [h.id_eq] at hack
    exact h.acks.concat hack
  · rw [List.append_assoc]
    exact List.rel_append hqueue hxs
  · obtain ⟨hlt, -⟩ := List.getElem?_eq_some_iff.1 hsends.offset_eq
    rw [Sender.sents, List.length_map] at hlt
    have hsource :
        s.sources[c.fileIndex.toNat]? = some (bytes s.tracks[c.fileIndex.toNat].src) := by
      rw [Sender.sources, List.getElem?_map, List.getElem?_eq_getElem hlt]
      rfl
    have hless := hsends.unsent_lt hsource
    rw [todo, todo, hsame.sources_eq, List.length_append, List.length_singleton]
    omega

omit [Sha256] [SourceContent Src] [LawfulFileSource Src] [SinkContent S] [LawfulFileSink S]
  [FaultlessSink S] in
theorem loop_idle (hpoll : s.pollChunk = (s, .ok none)) (hrunning : s.aborted = false) :
    SenderStream.loop s = if s.isComplete then .awaitingDone s else .awaitingAnswer s := by
  rw [SenderStream.loop, hpoll]
  dsimp only
  rw [hrunning, Bool.or_false]

omit [LawfulFileSink S] [FaultlessSink S] in
/-- An ack is taken. -/
theorem ack (h : Between s₀ s r (m :: acks)) (hs : s.Sound)
    (hqueue : Written (m :: acks ++ r.lastWord) queue)
    (hpoll : s.pollChunk = (s, .ok none)) :
    ∃ s' queue', Steps (Talk.Step SenderStream.act (ReceiverStream.act makeSink config)) 1
        (talk s r w queue) (talk s' r w queue') ∧
      Between s₀ s' r acks ∧ Written (acks ++ r.lastWord) queue' ∧
      todo s' acks < todo s (m :: acks) := by
  obtain ⟨view, hack, hacks⟩ := h.acks.of_cons
  have hbehind : View.Behind view r.ackedThrough :=
    (carries_answers hacks).rel View.Behind.refl (fun _ _ _ => .trans) fun _ _ _ => Answers.behind
  have hsizes := Receiver.Follows.behind_sizes (s := s) (h.same.sources_eq ▸ h.follows) hs
  cases hack with
  | @ack i acked stop hacked hlt =>
    have hanswers : Answers s.transferId s.ackeds (.ack ⟨s.transferId, i, stop⟩)
        (s.ackeds.set i.toNat stop) := .ack hacked (UInt64.le_of_lt hlt)
    obtain ⟨s', honAck, hsame, haccepted, hackeds, hsents⟩ :=
      Sender.onAck_answers h.accepted hanswers (h.sents_eq ▸ hbehind) (hbehind.trans hsizes)
    have hincomplete : s.isComplete = false := by
      rw [Bool.eq_false_iff, ne_eq]
      intro hcomplete
      rw [Sender.ackeds, List.getElem?_map, Option.map_eq_some_iff] at hacked
      obtain ⟨t, ht, rfl⟩ := hacked
      obtain ⟨x, hx, hle⟩ := (hbehind.trans hsizes) i.toNat t.size (by
        rw [List.getElem?_map, ht]
        rfl)
      obtain ⟨hi, -⟩ := List.getElem?_eq_some_iff.1 ht
      rw [List.getElem?_set_self (by rwa [Sender.ackeds, List.length_map])] at hx
      cases hx
      have hfull := Sender.size_le_of_complete hcomplete t (List.mem_of_getElem? ht)
      rw [UInt64.lt_iff_toNat_lt] at hlt
      rw [UInt64.le_iff_toNat_le] at hle hfull
      omega
    cases hqueue with
    | @cons m x out xs hx hxs =>
      obtain ⟨x', hx', htype, hread⟩ := (sendable_ack ⟨s.transferId, i, stop⟩).message
      have hsent : bulkMessage .fileAck ⟨s.transferId, i, stop⟩ = .ok x := by
        rw [h.same.id_eq]
        exact hx
      obtain rfl := Except.ok.inj (hx'.symm.trans hsent)
      have hloop : SenderStream.loop s = .awaitingAnswer s := by
        rw [loop_idle hpoll hs.running, hincomplete]
        rfl
      have honAnswer : SenderStream.onAnswer s x' = .loop s' := by
        rw [SenderStream.onAnswer, if_pos htype, hread]
        dsimp only
        rw [honAck]
      refine ⟨s', xs, ?_, ?_, hxs, ?_⟩
      · rw [talk, hloop, talk, ← honAnswer]
        exact .one ⟨.left, rfl⟩
      · refine ⟨h.same.trans hsame, haccepted, h.inv, h.follows, h.id_eq,
          hsents.trans h.sents_eq, ?_⟩
        rw [hackeds]
        exact hacks
      · rw [todo, todo, hsame.sources_eq, hsents, List.length_cons]
        omega

omit [LawfulFileSink S] [FaultlessSink S] in
/-- When no ack is to come and there is no chunk to send, all is delivered. -/
theorem last (h₀ : Honest makeSink config s₀) (h : Between s₀ s r [])
    (hqueue : Written r.lastWord queue) (hpoll : s.pollChunk = (s, .ok none)) :
    Steps (Talk.Step SenderStream.act (ReceiverStream.act makeSink config)) 1
        (talk s r w queue) (bothReturned s r w) ∧ r.contents = s₀.sources := by
  have hs := h.same.sound h₀.sound
  have hackeds := carries_nil.1 h.acks
  have hsends : Carries (Sends s₀.transferId s₀.sources) r.ackedThrough [] s.sents :=
    carries_nil.2 h.sents_eq.symm
  have hanswers : Carries (Answers s₀.transferId) s.ackeds [] r.ackedThrough :=
    carries_nil.2 hackeds
  have hlockstep : Lockstep s₀ (⟨s, some r, w, [], []⟩ : Transfer Src S W) :=
    .running h.same h.accepted h.inv h.follows h.id_eq hsends hanswers
  obtain ⟨_, hr, hprogress⟩ := hlockstep.progress h₀ h.accepted rfl rfl
  cases hr
  have hterminal : r.isTerminal = true := by
    by_contra hopen
    obtain ⟨s', chunk, hsome⟩ := hprogress (Bool.eq_false_iff.2 hopen)
    rw [hpoll] at hsome
    cases hsome
  have hne : r.slots ≠ [] := by
    intro hnil
    have hlength := h.follows.length_tracks
    rw [Receiver.ackedThrough, hnil] at hlength
    exact h₀.nonempty (List.eq_nil_of_length_eq_zero hlength.symm)
  have hall := (Receiver.isTerminal_iff hne h.follows.running).1 hterminal
  rw [List.all_eq_true] at hall
  have hfull : ∀ slot ∈ r.slots, slot.size ≤ slot.acked := fun slot hslot =>
    UInt64.le_of_eq ((h.follows.good slot hslot).intact (hall slot hslot)).1.symm
  have hcomplete : s.isComplete = true := by
    rw [Sender.isComplete, hs.running, Bool.not_false, Bool.true_and, List.all_eq_true]
    intro t ht
    obtain ⟨i, hi⟩ := List.mem_iff_getElem?.1 ht
    have hx : r.ackedThrough[i]? = some t.acked := by
      rw [← hackeds, Sender.ackeds, List.getElem?_map, hi]
      rfl
    have hfollows := h.follows
    rw [← h.same.sources_eq] at hfollows
    obtain ⟨slot, t', hslot, hacked, ht', hsize⟩ := hfollows.track hs hx
    rw [hi] at ht'
    cases ht'
    rw [decide_eq_true_eq, ← hacked, ← hsize]
    exact hfull slot (List.mem_of_getElem? hslot)
  obtain ⟨x, hx, htype, hread⟩ := (sendable_done ⟨r.transferId, true⟩).message
  rw [Receiver.lastWord, if_pos hterminal] at hqueue
  cases hqueue with
  | @cons _ x' _ _ hx' hnil =>
    cases hnil
    obtain rfl := Except.ok.inj (hx.symm.trans hx')
    have hid : r.transferId = s.transferId := h.id_eq.trans h.same.id_eq.symm
    have hdone : s.onDone ⟨r.transferId, true⟩ = (s, .ok ()) := by
      rw [Sender.onDone, if_neg (not_not.2 hid)]
      rfl
    have honDone : SenderStream.onDone s x.payload = .returned s (.ok ()) := by
      rw [SenderStream.onDone, hread]
      dsimp only
      rw [hdone]
      dsimp only
      rw [hs.running]
      rfl
    have hloop : SenderStream.loop s = .awaitingDone s := by
      rw [loop_idle hpoll hs.running, hcomplete]
      rfl
    have hreturned : ReceiverStream.sendBatch r w [] = .returned (some r) w (.ok ()) := by
      rw [ReceiverStream.sendBatch, hterminal]
      rfl
    have hmove : (⟨.awaitingDone s, .returned (some r) w (.ok ()), [], [x]⟩ :
        Talk (SenderStream Src) (ReceiverStream S W) StreamMessage StreamMessage).moveLeft
          SenderStream.act = some (bothReturned s r w) := by
      rw [Talk.moveLeft_recv rfl rfl]
      dsimp only
      rw [if_neg (not_not.2 htype), honDone]
      rfl
    refine ⟨?_, h.follows.contents_eq hfull⟩
    rw [talk, hloop, hreturned]
    exact .one ⟨.left, hmove⟩

/-- From between two messages the two come to their end. -/
theorem run (h₀ : Honest makeSink config s₀) (h : Between s₀ s r acks)
    (hqueue : Written (acks ++ r.lastWord) queue) :
    ∃ n s' r', Steps (Talk.Step SenderStream.act (ReceiverStream.act makeSink config)) n
        (talk s r w queue) (bothReturned s' r' w) ∧ r'.contents = s₀.sources := by
  induction htodo : todo s acks using Nat.strong_induction_on generalizing s r acks queue with
  | _ k ih =>
    have hs := h.same.sound h₀.sound
    rcases hs.poll h.accepted with ⟨hpoll, -⟩ | ⟨s', c, hpoll, hsame, haccepted, hackeds, hsends⟩
    · cases acks with
      | nil =>
        obtain ⟨hstep, hcontents⟩ := h.last h₀ hqueue hpoll
        exact ⟨1, s, r, hstep, hcontents⟩
      | cons m acks =>
        obtain ⟨s', queue', hstep, h', hqueue', hless⟩ := h.ack hs hqueue hpoll
        obtain ⟨n, s'', r', hsteps, hcontents⟩ := ih _ (htodo ▸ hless) h' hqueue' rfl
        exact ⟨n + 1, s'', r', hstep.trans hsteps, hcontents⟩
    · obtain ⟨n₁, r', acks', queue', hstep, h', hqueue', hless⟩ :=
        h.chunk hqueue hpoll hsame haccepted hackeds hsends
      obtain ⟨n, s'', r'', hsteps, hcontents⟩ := ih _ (htodo ▸ hless) h' hqueue' rfl
      exact ⟨n + n₁, s'', r'', hstep.trans hsteps, hcontents⟩

end Between

/-! ## The whole run -/

omit [FileSource Src] [LawfulFileSource Src] [FileSink S] [LawfulFileSink S] [FaultlessSink S] in
theorem Lockstep.not_unanswered {s₀ s : Sender Src} {w : W} {out : List Outbound} :
    ¬ Lockstep s₀ (⟨s, none, w, [], out⟩ : Transfer Src S W) := by
  intro h
  generalize hin : ([] : List Inbound) = toReceiver at h
  cases h with
  | offered => cases hin

/-- The accept of an honest offer, which names what is held of each file. -/
theorem Honest.accepted {s₀ : Sender Src} (h : Honest makeSink config s₀) (w : W) :
    ∃ w' r, acceptOffer makeSink s₀.offer config w = .ok (w', .ok (r,
        .accept ⟨s₀.transferId, resumePoints 0 r.ackedThrough⟩ :: r.lastWord)) ∧
      r.Inv ∧ r.Follows s₀.sources ∧ r.transferId = s₀.transferId := by
  obtain ⟨hlockstep, -⟩ := Lockstep.offered_receive h w
  simp only [Transfer.step, Transfer.init, Transfer.receive] at hlockstep
  cases haccept : acceptOffer makeSink s₀.offer config w with
  | error e =>
    rw [haccept] at hlockstep
    exact absurd hlockstep Lockstep.not_unanswered
  | ok result =>
    obtain ⟨w', result⟩ := result
    cases result with
    | error e =>
      rw [haccept] at hlockstep
      exact absurd hlockstep Lockstep.not_unanswered
    | ok result =>
      obtain ⟨r, out⟩ := result
      rw [haccept] at hlockstep
      dsimp only at hlockstep
      rw [List.nil_append] at hlockstep
      generalize ([] : List Inbound) = toReceiver at hlockstep
      cases hlockstep with
      | @answered _ _ m rest hinv hfollows hid hm _ =>
        obtain ⟨plans, slots, done, ha⟩ := acceptOffer_accepts haccept
        have hne : (Receiver.opened s₀.offer config slots).slots ≠ [] := by
          intro hnil
          obtain ⟨-, hlength, -⟩ := openSinks_ok ha.opens
          obtain ⟨hplans, -⟩ := validateEntries_ok ha.plans_eq
          rw [show slots = [] from hnil, hplans] at hlength
          exact ha.nonempty (List.eq_nil_of_length_eq_zero hlength.symm)
        have hrest := Receiver.lastWord_eq hne rfl ha.finalize hfollows.running
        rw [← ha.rest_eq] at hrest
        subst hm hrest
        exact ⟨w', r, rfl, hinv, hfollows, hid⟩
      | running _ haccepted =>
        rw [h.waiting] at haccepted
        cases haccepted

/-- The two ends of a stream that has been opened. -/
def streamOpened (s : Sender Src) (w : W) :
    Talk (SenderStream Src) (ReceiverStream S W) StreamMessage StreamMessage :=
  ⟨.start s, .awaitingFirst w, [], []⟩

/-- The offer is taken, and then every file is sent. -/
theorem Honest.run {s₀ : Sender Src} (h : Honest makeSink config s₀)
    (hoffer : Sendable .fileOffer s₀.offer) (hcount : s₀.tracks.length ≤ 10000) (w : W) :
    ∃ n s' r' w', Steps (Talk.Step SenderStream.act (ReceiverStream.act makeSink config)) n
        (streamOpened s₀ w) (bothReturned s' r' w') ∧ r'.contents = s₀.sources := by
  obtain ⟨w', r, haccept, hinv, hfollows, hid⟩ := h.accepted w
  have hheld : ∀ (k : ℕ) (x : UInt64), r.ackedThrough[k]? = some x →
      ∃ t, s₀.tracks[k]? = some t ∧ x ≤ t.size := fun k x hx => hfollows.acked_le h.sound hx
  obtain ⟨s, honAccept, hsame, haccepted, hsents, hackeds⟩ :=
    Sender.onAccept_resumes h.waiting h.start h.sound.length_lt hfollows.length_tracks.symm hheld
  have hresume : (resumePoints 0 r.ackedThrough).length ≤ 10000 := by
    have hle := length_resumePoints_le 0 r.ackedThrough
    rw [hfollows.length_tracks] at hle
    omega
  obtain ⟨o, ho, hotype, horead⟩ := hoffer.message
  obtain ⟨a, ha, hatype, haread⟩ := (sendable_accept
    (m := ⟨s₀.transferId, resumePoints 0 r.ackedThrough⟩) hresume).message
  obtain ⟨xs, hxs⟩ := written_answers (r.lastWord_answers r.ackedThrough)
  have hbatch : Written (.accept ⟨s₀.transferId, resumePoints 0 r.ackedThrough⟩ :: r.lastWord)
      (a :: xs) := .cons ha hxs
  have hstart : SenderStream.start s₀ = .sendingOffer s₀ o := by
    rw [SenderStream.start, ho]
  have honFirst : ReceiverStream.onFirst makeSink config w o = .sendBatch r w'
      (.accept ⟨s₀.transferId, resumePoints 0 r.ackedThrough⟩ :: r.lastWord) := by
    rw [ReceiverStream.onFirst, if_pos hotype, ReceiverStream.onOffer, horead]
    dsimp only
    rw [haccept]
  have honResponse : SenderStream.onResponse s₀ a = .loop s := by
    rw [SenderStream.onResponse, if_pos hatype, haread]
    dsimp only
    rw [honAccept]
  have hbetween : Between s₀ s r [] :=
    ⟨hsame, haccepted, hinv, hfollows, hid, hsents, hackeds ▸ .nil _⟩
  obtain ⟨n, s', r', hrun, hcontents⟩ := hbetween.run (w := w') h hxs
  refine ⟨n + 1 + (a :: xs).length + 1 + 1, s', r', w', ?_, hcontents⟩
  rw [streamOpened, hstart]
  refine .succ ⟨.left, rfl⟩ (.succ ⟨.right, rfl⟩ ?_)
  dsimp only
  rw [honFirst]
  refine (steps_sendBatch hbatch _ _ _).trans (.succ ⟨.left, rfl⟩ ?_)
  dsimp only
  rw [honResponse]
  exact hrun

end

/-! ## What has been prepared can be sent -/

theorem resolveInQuarantine_of_sanitizeName {name : String}
    (h : sanitizeName name = .ok (.ok name)) (quarantine : OsStr) :
    resolveInQuarantine quarantine name = .ok (.ok (join quarantine (OsStr.new name))) := by
  rcases sanitizeName_ok h with ⟨-, hconfinable⟩ | ⟨e, heq, -⟩
  · have hrest : stripPrefix (join quarantine (OsStr.new name)) quarantine =
        some [.normal (OsStr.new name)] := by
      rw [stripPrefix, components_join hconfinable.plain, if_pos (List.prefix_append _ _),
        List.drop_left]
    rw [resolveInQuarantine, h]
    simp only [hrest, if_true]
  · cases heq

theorem Hash.ofBytes_bytes (hash : Hash) : Hash.ofBytes hash.bytes = some hash :=
  dif_pos hash.length_eq

/-- A receiver that expects no digests of its own takes names and digests that are well formed. -/
theorem validateEntries_wellFormed {config : ReceiverConfig}
    (hexpected : config.expectedHashes = [])
    {entries : List FileEntry} (h : ∀ entry ∈ entries,
      sanitizeName entry.name = .ok (.ok entry.name) ∧
        ∃ hash : Hash, entry.sha256 = some hash.bytes) (i : ℕ) :
    ∃ plans, validateEntries config i entries = .ok (.ok plans) := by
  induction entries generalizing i with
  | nil => exact ⟨[], rfl⟩
  | cons entry entries ih =>
    rw [List.forall_mem_cons] at h
    obtain ⟨⟨hname, hash, hhash⟩, hentries⟩ := h
    obtain ⟨plans, hplans⟩ := ih hentries (i + 1)
    have hentry : validateEntry i entry config =
        .ok (.ok (join config.quarantine (OsStr.new entry.name), some hash)) := by
      rw [validateEntry, resolveInQuarantine_of_sanitizeName hname, hhash, hexpected]
      dsimp only
      rw [Option.map_some, Hash.ofBytes_bytes]
      rfl
    rw [validateEntries, hentry]
    dsimp only
    rw [hplans]
    exact ⟨_, rfl⟩

theorem length_le_of_checkLimits {offer : FileOffer} {quarantine : OsStr}
    (h : checkLimits offer (.new quarantine) = none) : offer.files.length ≤ 10000 := by
  rw [checkLimits] at h
  split at h
  · cases h
  · next hcount =>
    by_contra hlt
    rw [ReceiverConfig.new, Option.filter_some, if_pos (by simpa using hlt)] at hcount
    cases hcount

section

variable {F S W : Type} [Sha256] [OpenFile F] [FileContent F] [LawfulOpenFile F] [FileSink S]
  [SinkContent S] [LawfulFileSink S] [FaultlessSink S]

omit [LawfulOpenFile F] [FileSink S] [LawfulFileSink S] [FaultlessSink S] in
/-- A sender of prepared files is honest. -/
theorem honest_of_prepared {transferId : UInt64}
    {files : List (String × DiskSource F × Option Hash)}
    (hprepared : ∀ file ∈ files, Prepared file) {s : Sender (DiskSource F)}
    (hnew : Sender.newWithHashes transferId files = .ok s)
    {makeSink : W → ℕ → OsStr → W × Except SinkError S} {quarantine : OsStr}
    (hlimits : checkLimits s.offer (.new quarantine) = none)
    (hsinks : OpensPrefixes makeSink s.sources) : Honest makeSink (.new quarantine) s := by
  have hchunk : s.withChunkSize defaultChunkSize = .ok s := by
    unfold Sender.newWithHashes at hnew
    split at hnew
    · cases hnew
    · split at hnew
      · cases hnew
      · cases hnew
        rfl
  obtain ⟨hsound, hnonempty, hwaiting, hstart, htracks⟩ := Sender.start_of_new hnew hchunk
  have htrack : ∀ t ∈ s.tracks, sanitizeName t.name = .ok (.ok t.name) ∧
      t.sha256 = some (sha256 (bytes t.src)) := by
    intro t ht
    rw [htracks] at ht
    obtain ⟨file, hfile, rfl⟩ := List.mem_map.1 ht
    exact ⟨(hprepared file hfile).name, (hprepared file hfile).hash⟩
  refine ⟨hsound, hnonempty, hwaiting, hstart, hlimits, validateEntries_wellFormed rfl ?_ 0, ?_,
    hsinks⟩
  · intro entry hentry
    obtain ⟨t, ht, rfl⟩ := List.mem_map.1 hentry
    obtain ⟨hname, hhash⟩ := htrack t ht
    exact ⟨hname, _, by rw [hhash]; rfl⟩
  · intro i entry source digest hentry hsource hsupplied
    rw [Sender.offer, List.getElem?_map, Option.map_eq_some_iff] at hentry
    obtain ⟨t, ht, rfl⟩ := hentry
    rw [Sender.sources, List.getElem?_map, ht] at hsource
    cases hsource
    rcases hsupplied with hcaller | ⟨digestBytes, hbytes, hdigest⟩
    · cases hcaller
    · obtain ⟨-, hhash⟩ := htrack t (List.mem_of_getElem? ht)
      rw [hhash] at hbytes
      cases hbytes
      rw [Hash.ofBytes_bytes] at hdigest
      exact (Option.some.inj hdigest).symm

end

section

attribute [local instance] Sha256.abc

/-- The source of a file that holds `abc`. -/
def abcSource : DiskSource MemSource := ⟨⟨[97, 98, 99], length_abc_lt⟩, 3, rfl⟩

def openAbc (path : OsStr) : Except String MemSource :=
  if path = OsStr.new "/home/a.txt" then .ok abcSource.file else .error "No such file or directory"

theorem prepareSources_abc : prepareSources openAbc [OsStr.new "/home/a.txt"] =
    .ok (.ok [("a.txt", abcSource, some .ofAbc)]) := by
  have hname : safeFileName (OsStr.new "/home/a.txt") = .ok (.ok "a.txt") := by decide +kernel
  have hopen : openAbc (OsStr.new "/home/a.txt") = .ok abcSource.file := if_pos rfl
  have hsource := prepareSource_eq hname hopen rfl
  rw [prepareSources, if_neg nofun, prepareAll, hsource]
  rfl

def abcOffering : Sender (DiskSource MemSource) :=
  ⟨7, [.new "a.txt" abcSource (some .ofAbc)], defaultChunkSize, false, false⟩

theorem sendable_abcOffering : Sendable .fileOffer abcOffering.offer := by
  refine ⟨⟨trivial, ⟨by decide, fun entry hentry => ?_⟩, trivial⟩, by decide +kernel⟩
  rw [List.mem_singleton.1 hentry]
  have hname : (Utf8.encode "a.txt".toList).length < 2 ^ 64 := by decide
  have hdigest : Hash.ofAbc.bytes.length < 2 ^ 64 := by decide
  exact ⟨hname, trivial, by rintro _ ⟨⟩; exact hdigest, trivial⟩

end

end Mouser
