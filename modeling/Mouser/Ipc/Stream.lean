import Mouser.Ipc.Codec
import Mouser.Lib.Reads

/-!
# A cut IPC stream

The socket hands over the bytes of the messages in pieces of any size, and it may end anywhere.
`read_exact_or_boundary` is the loop under `read_message` that tells an end before the first byte
from an end after it. What it returns depends on the bytes that are left, not on the pieces
(`readExactOrBoundary_cases`), so `read_message` returns the next message where its frame is whole,
and otherwise the kind of end: a clean one, or one inside the frame. `readAll` is a reader that
calls it until it fails.
-/

namespace Mouser

open Framing

/-- The loop of `read_exact_or_boundary`, with the bytes of the buffer that are filled. It is `none`
where the stream has ended before the first of them. -/
def readExactOrBoundary (r : Reads UInt8) (len : ℕ) (filled : List UInt8) :
    Except IpcError (Option (List UInt8 × Reads UInt8)) :=
  if hlen : filled.length < len then
    match hread : r.read (len - filled.length) with
    | none => if filled = [] then .ok none else .error .truncatedFrame
    | some (bs, r') =>
      have : r'.all.length < r.all.length :=
        Reads.length_lt_of_read (Nat.sub_pos_of_lt hlen) hread
      readExactOrBoundary r' len (filled ++ bs)
  else .ok (some (filled, r))
termination_by r.all.length

/-- `read_message`, with what is left of the stream after the message. -/
def readMessage {α : Type*} (decode : List UInt8 → Option α) (r : Reads UInt8) :
    Except IpcError (α × Reads UInt8) :=
  match readExactOrBoundary r 4 [] with
  | .error e => .error e
  | .ok none => .error .closed
  | .ok (some (lenBytes, r)) =>
    if maxFrame < ofLeBytes lenBytes then .error (.tooLarge (ofLeBytes lenBytes))
    else
      match readExactOrBoundary r (ofLeBytes lenBytes) [] with
      | .error e => .error e
      | .ok none => .error .truncatedFrame
      | .ok (some (payload, r)) =>
        match decode payload with
        | some message => .ok (message, r)
        | none => .error .decode

/-- What `write_message` puts on the stream for a list of messages, one after the other. -/
def writeMessages {α : Type*} (encode : α → List UInt8) : List α → Except IpcError (List UInt8)
  | [] => .ok []
  | m :: messages => do
    let bytes ← writeMessage (encode m)
    let rest ← writeMessages encode messages
    return bytes ++ rest

section Loop

variable {r : Reads UInt8} {len : ℕ} {filled bs rest : List UInt8}

/-- One read of the loop: the end of the stream, or more of the buffer. -/
theorem readExactOrBoundary_step (r : Reads UInt8) (hlen : filled.length < len) :
    (r.read (len - filled.length) = none ∧ r.all = [] ∧ readExactOrBoundary r len filled =
        if filled = [] then .ok none else .error .truncatedFrame) ∨
      ∃ bs r', r.read (len - filled.length) = some (bs, r') ∧ bs ≠ [] ∧
        filled.length + bs.length ≤ len ∧ r.all = bs ++ r'.all ∧
        readExactOrBoundary r len filled = readExactOrBoundary r' len (filled ++ bs) := by
  rcases r.read_cases (Nat.sub_pos_of_lt hlen) with ⟨hnone, hall⟩ | ⟨bs, r', hsome, hne, hle, hall⟩
  · refine .inl ⟨hnone, hall, ?_⟩
    rw [readExactOrBoundary, dif_pos hlen]
    split
    · rfl
    · next h => cases hnone.symm.trans h
  · refine .inr ⟨bs, r', hsome, hne, by omega, hall, ?_⟩
    rw [readExactOrBoundary, dif_pos hlen]
    split
    · next h => cases hsome.symm.trans h
    · next h =>
      cases hsome.symm.trans h
      rfl

/-- **What the loop returns.** The rest of the buffer is filled with what the stream starts with, or
the stream ends before. -/
theorem readExactOrBoundary_cases (r : Reads UInt8) (filled : List UInt8)
    (hfilled : filled.length ≤ len) :
    (∃ bs r', readExactOrBoundary r len filled = .ok (some (filled ++ bs, r')) ∧
        filled.length + bs.length = len ∧ r.all = bs ++ r'.all) ∨
      filled.length + r.all.length < len ∧
        readExactOrBoundary r len filled =
          if filled ++ r.all = [] then .ok none else .error .truncatedFrame := by
  induction hn : r.all.length using Nat.strong_induction_on generalizing r filled with
  | _ n ih =>
    rcases Nat.lt_or_ge filled.length len with hlen | hlen
    · rcases readExactOrBoundary_step r hlen with
        ⟨-, hall, hend⟩ | ⟨bs, r', -, hne, hle, hall, hloop⟩
      · refine .inr ⟨by rw [← hn, hall]; exact hlen, ?_⟩
        rw [hend, hall, List.append_nil]
      · have hpos := List.length_pos_iff.2 hne
        have hsplit : r.all.length = bs.length + r'.all.length := by
          rw [hall, List.length_append]
        have hmore : (filled ++ bs).length = filled.length + bs.length := List.length_append
        rcases ih r'.all.length (by omega) r' (filled ++ bs) (by omega) rfl with
          ⟨more, rest, hok, hlength, hrest⟩ | ⟨hshort, hend⟩
        · refine .inl ⟨bs ++ more, rest, ?_, ?_, ?_⟩
          · rw [hloop, hok, List.append_assoc]
          · rw [List.length_append]
            omega
          · rw [hall, hrest, List.append_assoc]
        · refine .inr ⟨by omega, ?_⟩
          rw [hloop, hend, hall, List.append_assoc]
    · refine .inl ⟨[], r, ?_, by rw [List.length_nil]; omega, rfl⟩
      rw [readExactOrBoundary, dif_neg (Nat.not_lt.2 hlen), List.append_nil]

/-- A buffer is filled with what the stream starts with. -/
theorem readExactOrBoundary_append (h : r.all = bs ++ rest) :
    ∃ r', readExactOrBoundary r bs.length [] = .ok (some (bs, r')) ∧ r'.all = rest := by
  rcases readExactOrBoundary_cases r [] (Nat.zero_le bs.length) with
    ⟨bs', r', hread, hlength, hall⟩ | ⟨hshort, -⟩
  · rw [List.length_nil, Nat.zero_add] at hlength
    obtain ⟨rfl, hrest⟩ := List.append_inj (hall.symm.trans h) hlength
    exact ⟨r', hread, hrest⟩
  · rw [h] at hshort
    simp only [List.length_nil, List.length_append] at hshort
    omega

/-- A stream that does not fill the buffer is at its end, or is cut. -/
theorem readExactOrBoundary_short (h : r.all.length < len) :
    readExactOrBoundary r len [] = if r.all = [] then .ok none else .error .truncatedFrame := by
  rcases readExactOrBoundary_cases r [] (Nat.zero_le len) with
    ⟨bs, r', -, hlength, hall⟩ | ⟨-, hend⟩
  · rw [hall, List.length_append] at h
    rw [List.length_nil] at hlength
    omega
  · exact hend

end Loop

section Message

variable {α : Type*} {encode : α → List UInt8} {decode : List UInt8 → Option α} {r : Reads UInt8}

/-- The buffer for the header is the length that the writer counted. -/
theorem readMessage_payload (decode : List UInt8 → Option α) {payload rest : List UInt8}
    (hsize : payload.length ≤ maxFrame) (h : r.all = leBytes 4 payload.length ++ rest) :
    ∃ r', r'.all = rest ∧ readMessage decode r =
      match readExactOrBoundary r' payload.length [] with
      | .error e => .error e
      | .ok none => .error .truncatedFrame
      | .ok (some (payload, r)) =>
        match decode payload with
        | some message => .ok (message, r)
        | none => .error .decode := by
  obtain ⟨r', hheader, hrest⟩ := readExactOrBoundary_append h
  rw [length_leBytes] at hheader
  have hlen : ofLeBytes (leBytes 4 payload.length) = payload.length :=
    ofLeBytes_leBytes (lt_of_le_of_lt hsize (by decide))
  refine ⟨r', hrest, ?_⟩
  rw [readMessage, hheader]
  simp only [hlen, Nat.not_lt.2 hsize, if_false]

/-- A whole frame is the message that was written. -/
theorem readMessage_frame {m : α} {rest : List UInt8} (hdecode : decode (encode m) = some m)
    (hsize : (encode m).length ≤ maxFrame) (h : r.all = frame 4 (encode m) ++ rest) :
    ∃ r', readMessage decode r = .ok (m, r') ∧ r'.all = rest := by
  rw [frame, List.append_assoc] at h
  obtain ⟨body, hbody, hread⟩ := readMessage_payload decode hsize h
  obtain ⟨r', hpayload, hrest⟩ := readExactOrBoundary_append hbody
  exact ⟨r', by rw [hread, hpayload]; simp only [hdecode], hrest⟩

/-- At the end of the stream there is no frame to read. -/
theorem readMessage_nil (h : r.all = []) : readMessage decode r = .error .closed := by
  rw [readMessage, readExactOrBoundary_short (by rw [h]; decide), if_pos h]

/-- A frame that is cut, in its header or in its body, is reported. -/
theorem readMessage_cut {payload : List UInt8} {cut : ℕ} (hsize : payload.length ≤ maxFrame)
    (hpos : 0 < cut) (hcut : cut < 4 + payload.length)
    (h : r.all = (frame 4 payload).take cut) :
    readMessage decode r = .error .truncatedFrame := by
  have hlength : (leBytes 4 payload.length).length = 4 := length_leBytes ..
  rw [frame, List.take_append, hlength] at h
  by_cases hheader : cut < 4
  · -- the stream ends in the header
    have hall : r.all = (leBytes 4 payload.length).take cut := by
      rw [h, Nat.sub_eq_zero_of_le hheader.le, List.take_zero, List.append_nil]
    have hshort : r.all.length = cut := by
      rw [hall, List.length_take, hlength, Nat.min_eq_left hheader.le]
    have hne : r.all ≠ [] := List.length_pos_iff.1 (by omega)
    rw [readMessage, readExactOrBoundary_short (by omega), if_neg hne]
  · -- the header is whole, and the stream ends before the body or in it
    rw [List.take_of_length_le (by omega)] at h
    obtain ⟨body, hbody, hread⟩ := readMessage_payload decode hsize h
    have hshort : body.all.length < payload.length := by
      rw [hbody, List.length_take]
      omega
    rw [hread, readExactOrBoundary_short hshort]
    by_cases hnil : body.all = []
    · rw [if_pos hnil]
    · rw [if_neg hnil]

theorem length_lt_of_readMessage {m : α} {r' : Reads UInt8}
    (h : readMessage decode r = .ok (m, r')) : r'.all.length < r.all.length := by
  rw [readMessage] at h
  rcases readExactOrBoundary_cases r [] (Nat.zero_le 4) with
    ⟨header, body, hheader, hlength, hall⟩ | ⟨-, hend⟩
  · rw [hheader] at h
    simp only [List.nil_append] at h
    split at h
    · cases h
    rcases readExactOrBoundary_cases body [] (Nat.zero_le (ofLeBytes header)) with
      ⟨payload, r'', hpayload, -, hbody⟩ | ⟨-, hend⟩
    · rw [hpayload] at h
      simp only at h
      split at h
      · cases h
        rw [hall, hbody]
        simp only [List.length_nil, List.length_append] at hlength ⊢
        omega
      · cases h
    · rw [hend] at h
      split at h
      · next he =>
        cases h
      · cases h
      · next he => split at he <;> cases he
  · rw [hend] at h
    split at h
    · cases h
    · cases h
    · next he => split at he <;> cases he

end Message

/-! ## Poll by poll -/

section Polls

variable {α : Type*} {decode : List UInt8 → Option α} {r : Reads UInt8}

/-- A future that is polled with one read after the other, until it is ready. -/
inductive ReadMessage.Runs (decode : List UInt8 → Option α) :
    ReadMessage → Reads UInt8 → Except IpcError α → Prop where
  | ended {p r result} (hread : r.read p.wants = none)
      (hpoll : p.poll decode [] = .ready result) : Runs decode p r result
  | last {p r bs r' result} (hread : r.read p.wants = some (bs, r'))
      (hpoll : p.poll decode bs = .ready result) : Runs decode p r result
  | more {p r bs r' q result} (hread : r.read p.wants = some (bs, r'))
      (hpoll : p.poll decode bs = .pending q) (hrest : Runs decode q r' result) :
      Runs decode p r result

/-- What `read_message` makes of the buffer for the payload. -/
def bodyResult (decode : List UInt8 → Option α) :
    Except IpcError (Option (List UInt8 × Reads UInt8)) → Except IpcError α
  | .error e => .error e
  | .ok none => .error .truncatedFrame
  | .ok (some (payload, _)) =>
    match decode payload with
    | some message => .ok message
    | none => .error .decode

/-- The polls of a future in the body are the loop for the payload. -/
theorem ReadMessage.runs_body (r : Reads UInt8) {len : ℕ} {got : List UInt8}
    (hlen : len ≤ maxFrame) (hgot : got.length < len) :
    Runs decode (.body len got hlen hgot) r
      (bodyResult decode (readExactOrBoundary r len got)) := by
  induction hn : r.all.length using Nat.strong_induction_on generalizing r got with
  | _ n ih =>
    rcases readExactOrBoundary_step r hgot with
      ⟨hread, -, hend⟩ | ⟨bs, r', hread, hne, hle, hall, hloop⟩
    · refine .ended hread ?_
      have hbytes : (Progress.body len got hlen hgot : ReadMessage).bytes ≠ [] := by
        simp [Progress.bytes, leBytes]
      rw [poll, if_pos rfl, if_neg hbytes, hend]
      split <;> rfl
    · have hpos := List.length_pos_iff.2 hne
      rw [hloop]
      by_cases hmore : (got ++ bs).length < len
      · refine .more hread ?_ (ih r'.all.length ?_ r' hmore rfl)
        · rw [poll, if_neg hne, Progress.feed, dif_pos hmore]
        · rw [← hn, hall, List.length_append]
          omega
      · refine .last hread ?_
        rw [poll, if_neg hne, Progress.feed, dif_neg hmore, readExactOrBoundary, dif_neg hmore]
        simp only [bodyResult]
        cases decode (got ++ bs) <;> rfl

/-- What `read_message` makes of the buffer for the length. -/
def headerResult (decode : List UInt8 → Option α) :
    Except IpcError (Option (List UInt8 × Reads UInt8)) → Except IpcError α
  | .error e => .error e
  | .ok none => .error .closed
  | .ok (some (lenBytes, r)) =>
    if maxFrame < ofLeBytes lenBytes then .error (.tooLarge (ofLeBytes lenBytes))
    else bodyResult decode (readExactOrBoundary r (ofLeBytes lenBytes) [])

theorem map_readMessage (decode : List UInt8 → Option α) (r : Reads UInt8) :
    (readMessage decode r).map Prod.fst = headerResult decode (readExactOrBoundary r 4 []) := by
  unfold readMessage headerResult
  split
  · rfl
  · rfl
  · split
    · rfl
    · unfold bodyResult
      split
      · rfl
      · rfl
      · split <;> rfl

/-- The polls of a future in the header are the loop for the length, and then those in the body. -/
theorem ReadMessage.runs_header (r : Reads UInt8) {got : List UInt8} (hgot : got.length < 4) :
    Runs decode (.header got hgot) r (headerResult decode (readExactOrBoundary r 4 got)) := by
  induction hn : r.all.length using Nat.strong_induction_on generalizing r got with
  | _ n ih =>
    rcases readExactOrBoundary_step r hgot with
      ⟨hread, -, hend⟩ | ⟨bs, r', hread, hne, hle, hall, hloop⟩
    · refine .ended hread ?_
      rw [poll, if_pos rfl, hend, Progress.bytes]
      split <;> rfl
    · have hpos := List.length_pos_iff.2 hne
      rw [hloop]
      by_cases hmore : (got ++ bs).length < 4
      · refine .more hread ?_ (ih r'.all.length ?_ r' hmore rfl)
        · rw [poll, if_neg hne, Progress.feed, dif_pos hmore]
        · rw [← hn, hall, List.length_append]
          omega
      · rw [readExactOrBoundary, dif_neg hmore, headerResult]
        by_cases hlarge : maxFrame < ofLeBytes (got ++ bs)
        · refine .last hread ?_
          rw [poll, if_neg hne, Progress.feed, dif_neg hmore, dif_neg (Nat.not_le.2 hlarge),
            if_pos hlarge]
        · rw [if_neg hlarge]
          by_cases hbody : 0 < ofLeBytes (got ++ bs)
          · have hstart : ([] : List UInt8).length < ofLeBytes (got ++ bs) := hbody
            refine .more hread ?_ (runs_body r' (Nat.not_lt.1 hlarge) hstart)
            rw [poll, if_neg hne, Progress.feed, dif_neg hmore, dif_pos (Nat.not_lt.1 hlarge),
              dif_pos hbody]
          · -- there is no read for an empty body
            refine .last hread ?_
            have hzero : ofLeBytes (got ++ bs) = 0 := by omega
            rw [poll, if_neg hne, Progress.feed, dif_neg hmore, dif_pos (Nat.not_lt.1 hlarge),
              dif_neg hbody, hzero, readExactOrBoundary, dif_neg (by decide)]
            simp only [bodyResult]
            cases decode [] <;> rfl

/-- **The two readings of `read_message` agree.** Polled with one read after the other, the future
becomes ready with what the loops return. -/
theorem readMessage_runs (r : Reads UInt8) :
    ReadMessage.Runs decode .start r ((readMessage decode r).map Prod.fst) := by
  rw [map_readMessage]
  exact ReadMessage.runs_header r (by decide)

end Polls

/-- A reader that calls `read_message` until it fails: the messages, and how it failed. -/
def readAll {α : Type*} (decode : List UInt8 → Option α) (r : Reads UInt8) : List α × IpcError :=
  match hread : readMessage decode r with
  | .error e => ([], e)
  | .ok (message, r') =>
    have : r'.all.length < r.all.length := length_lt_of_readMessage hread
    let (messages, e) := readAll decode r'
    (message :: messages, e)
termination_by r.all.length

/-! ## Where the frames lie -/

section Boundaries

variable {α : Type*} (encode : α → List UInt8)

/-- Where the frame of the message at `j` starts, or the stream ends. -/
def boundary (messages : List α) (j : ℕ) : ℕ :=
  ((messages.take j).map fun m => 4 + (encode m).length).sum

/-- Between two frames, before the first one or after the last. -/
def OnBoundary (messages : List α) (cut : ℕ) : Prop :=
  ∃ j ≤ messages.length, cut = boundary encode messages j

/-- Behind at least one byte of a frame, and before its last header byte. -/
def InHeader (messages : List α) (cut : ℕ) : Prop :=
  ∃ j < messages.length, boundary encode messages j < cut ∧ cut < boundary encode messages j + 4

/-- Behind the header of a frame, and before the last byte of its body. -/
def InBody (messages : List α) (cut : ℕ) : Prop :=
  ∃ j < messages.length, boundary encode messages j + 4 ≤ cut ∧
    cut < boundary encode messages (j + 1)

variable {encode}

@[simp] theorem boundary_zero (messages : List α) : boundary encode messages 0 = 0 := rfl

@[simp] theorem boundary_cons_succ (m : α) (messages : List α) (j : ℕ) :
    boundary encode (m :: messages) (j + 1) =
      4 + (encode m).length + boundary encode messages j := by
  simp [boundary]

/-- Where a stream is cut: in its first frame, or in those after it. -/
theorem exists_boundary_cons {P : ℕ → ℕ → Prop} (m : α) (messages : List α) :
    (∃ j < (m :: messages).length,
        P (boundary encode (m :: messages) j) (boundary encode (m :: messages) (j + 1))) ↔
      P 0 (4 + (encode m).length) ∨
        ∃ j < messages.length, P (4 + (encode m).length + boundary encode messages j)
          (4 + (encode m).length + boundary encode messages (j + 1)) := by
  constructor
  · rintro ⟨_ | j, hj, h⟩
    · exact .inl (by simpa using h)
    · rw [boundary_cons_succ, boundary_cons_succ] at h
      exact .inr ⟨j, by simpa using hj, h⟩
  · rintro (h | ⟨j, hj, h⟩)
    · exact ⟨0, by simp, by simpa using h⟩
    · exact ⟨j + 1, by simpa using hj, by rwa [boundary_cons_succ, boundary_cons_succ]⟩

theorem onBoundary_cons {m : α} {messages : List α} {cut : ℕ} :
    OnBoundary encode (m :: messages) cut ↔
      cut = 0 ∨ 4 + (encode m).length ≤ cut ∧
        OnBoundary encode messages (cut - (4 + (encode m).length)) := by
  constructor
  · rintro ⟨_ | j, hj, rfl⟩
    · exact .inl rfl
    · rw [boundary_cons_succ]
      exact .inr ⟨by omega, j, by simpa using hj, by omega⟩
  · rintro (rfl | ⟨hle, j, hj, h⟩)
    · exact ⟨0, by simp, rfl⟩
    · exact ⟨j + 1, by simpa using hj, by rw [boundary_cons_succ]; omega⟩

theorem inHeader_cons {m : α} {messages : List α} {cut : ℕ} :
    InHeader encode (m :: messages) cut ↔
      0 < cut ∧ cut < 4 ∨ 4 + (encode m).length ≤ cut ∧
        InHeader encode messages (cut - (4 + (encode m).length)) := by
  unfold InHeader
  rw [exists_boundary_cons (P := fun a _ => a < cut ∧ cut < a + 4)]
  constructor
  · rintro (h | ⟨j, hj, hlow, hhigh⟩)
    · exact .inl (by simpa using h)
    · exact .inr ⟨by omega, j, hj, by omega, by omega⟩
  · rintro (h | ⟨hle, j, hj, hlow, hhigh⟩)
    · exact .inl (by simpa using h)
    · exact .inr ⟨j, hj, by omega, by omega⟩

theorem inBody_cons {m : α} {messages : List α} {cut : ℕ} :
    InBody encode (m :: messages) cut ↔
      4 ≤ cut ∧ cut < 4 + (encode m).length ∨ 4 + (encode m).length ≤ cut ∧
        InBody encode messages (cut - (4 + (encode m).length)) := by
  unfold InBody
  rw [exists_boundary_cons (P := fun a b => a + 4 ≤ cut ∧ cut < b)]
  constructor
  · rintro (h | ⟨j, hj, hlow, hhigh⟩)
    · exact .inl (by simpa using h)
    · exact .inr ⟨by omega, j, hj, by omega, by omega⟩
  · rintro (h | ⟨hle, j, hj, hlow, hhigh⟩)
    · exact .inl (by simpa using h)
    · exact .inr ⟨j, hj, by omega, by omega⟩

end Boundaries

/-! ## The round trip -/

section RoundTrip

variable {α : Type*} {encode : α → List UInt8} {decode : List UInt8 → Option α} {r : Reads UInt8}

theorem writeMessages_ok {messages : List α}
    (hsize : ∀ m ∈ messages, (encode m).length ≤ maxFrame) :
    writeMessages encode messages = .ok (frames 4 (messages.map encode)) := by
  induction messages with
  | nil => rfl
  | cons m messages ih =>
    have hhead : writeMessage (encode m) = .ok (frame 4 (encode m)) :=
      writeMessage_ok.2 ⟨hsize m (.head _), rfl⟩
    rw [writeMessages, hhead, ih fun x hx => hsize x (.tail _ hx), List.map_cons, frames_cons]
    rfl

theorem readAll_error {e : IpcError} (h : readMessage decode r = .error e) :
    readAll decode r = ([], e) := by
  rw [readAll]
  split
  · next he => cases h.symm.trans he; rfl
  · next he => cases h.symm.trans he

theorem readAll_ok {m : α} {r' : Reads UInt8} (h : readMessage decode r = .ok (m, r')) :
    readAll decode r = (m :: (readAll decode r').1, (readAll decode r').2) := by
  rw [readAll]
  split
  · next he => cases h.symm.trans he
  · next he => cases h.symm.trans he; rfl

/-- What a reader makes of a cut stream: the messages whose frames are whole, and the kind of
end. -/
structure ReadsCut (encode : α → List UInt8) (messages : List α) (cut : ℕ)
    (result : List α × IpcError) : Prop where
  pre : result.1 <+: messages
  whole : ∀ j < messages.length, j < result.1.length ↔ boundary encode messages (j + 1) ≤ cut
  closed : result.2 = .closed ↔ OnBoundary encode messages cut
  truncated : result.2 = .truncatedFrame ↔
    InHeader encode messages cut ∨ InBody encode messages cut

/-- A stream that is cut before its first frame, or in it. -/
theorem ReadsCut.first {m : α} {messages : List α} {cut : ℕ} {e : IpcError}
    (hcut : cut < 4 + (encode m).length)
    (he : e = if cut = 0 then .closed else .truncatedFrame) :
    ReadsCut encode (m :: messages) cut ([], e) := by
  refine ⟨List.nil_prefix, fun j _ => ?_, ?_, ?_⟩
  · rw [boundary_cons_succ]
    simp only [List.length_nil]
    omega
  · rw [onBoundary_cons, he]
    split
    · next h => simp [h]
    · next h =>
      simp only [reduceCtorEq, false_iff]
      omega
  · rw [inHeader_cons, inBody_cons, he]
    split
    · next h =>
      simp only [reduceCtorEq, false_iff]
      omega
    · next h =>
      simp only [true_iff]
      omega

/-- A stream whose first frame is whole. -/
theorem ReadsCut.cons {m : α} {messages : List α} {cut : ℕ} {result : List α × IpcError}
    (hcut : 4 + (encode m).length ≤ cut)
    (h : ReadsCut encode messages (cut - (4 + (encode m).length)) result) :
    ReadsCut encode (m :: messages) cut (m :: result.1, result.2) := by
  refine ⟨List.cons_prefix_cons.2 ⟨rfl, h.pre⟩, ?_, ?_, ?_⟩
  · rintro (_ | j) hj
    · simpa using hcut
    · have hwhole := h.whole j (by simpa using hj)
      rw [boundary_cons_succ, List.length_cons]
      omega
  · rw [onBoundary_cons, h.closed]
    constructor
    · exact fun hon => .inr ⟨hcut, hon⟩
    · rintro (rfl | ⟨-, hon⟩)
      · omega
      · exact hon
  · rw [inHeader_cons, inBody_cons, h.truncated]
    constructor
    · rintro (hin | hin)
      · exact .inl (.inr ⟨hcut, hin⟩)
      · exact .inr (.inr ⟨hcut, hin⟩)
    · rintro ((hin | ⟨-, hin⟩) | (hin | ⟨-, hin⟩))
      · omega
      · exact .inl hin
      · omega
      · exact .inr hin

/-- A stream without messages has nothing to cut. -/
theorem ReadsCut.nil : ReadsCut encode [] 0 ([], .closed) := by
  refine ⟨List.nil_prefix, fun j hj => absurd hj (by simp), ?_, ?_⟩
  · exact iff_of_true rfl ⟨0, le_rfl, rfl⟩
  · refine iff_of_false (by simp) ?_
    rintro (⟨j, hj, -⟩ | ⟨j, hj, -⟩) <;> exact absurd hj (by simp)

/-- **A cut stream, read to its end.** -/
theorem readAll_cut {messages : List α} {cut : ℕ}
    (hdecode : ∀ m ∈ messages, decode (encode m) = some m)
    (hsize : ∀ m ∈ messages, (encode m).length ≤ maxFrame)
    (hcut : cut ≤ (frames 4 (messages.map encode)).length)
    (h : r.all = (frames 4 (messages.map encode)).take cut) :
    ReadsCut encode messages cut (readAll decode r) := by
  induction messages generalizing r cut with
  | nil =>
    obtain rfl : cut = 0 := by simpa using hcut
    rw [readAll_error (readMessage_nil h)]
    exact .nil
  | cons m messages ih =>
    have hframe : (frame 4 (encode m)).length = 4 + (encode m).length := by
      rw [frame, List.length_append, length_leBytes]
    rw [List.map_cons, frames_cons, List.take_append, hframe] at h
    rw [List.map_cons, frames_cons, List.length_append, hframe] at hcut
    by_cases hshort : cut < 4 + (encode m).length
    · rw [Nat.sub_eq_zero_of_le hshort.le, List.take_zero, List.append_nil] at h
      by_cases hzero : cut = 0
      · rw [hzero, List.take_zero] at h
        rw [readAll_error (readMessage_nil h)]
        exact .first hshort (if_pos hzero).symm
      · rw [readAll_error
          (readMessage_cut (hsize m (.head _)) (Nat.pos_of_ne_zero hzero) hshort h)]
        exact .first hshort (if_neg hzero).symm
    · rw [List.take_of_length_le (by omega)] at h
      obtain ⟨r', hread, hrest⟩ :=
        readMessage_frame (hdecode m (.head _)) (hsize m (.head _)) h
      rw [readAll_ok hread]
      exact .cons (by omega) (ih (fun x hx => hdecode x (.tail _ hx))
        (fun x hx => hsize x (.tail _ hx)) (by omega) hrest)

/-- A truth value in CBOR. -/
def cborBool : Bool → List UInt8
  | false => [0xf4]
  | true => [0xf5]

def readCborBool : List UInt8 → Option Bool
  | [0xf4] => some false
  | [0xf5] => some true
  | _ => none

/-- **The messages that are read are the ones whose frames are whole.** What is written with
`write_message`, cut anywhere and split into any reads, comes back as the messages wholly before the
cut, in order; then the stream is closed where the cut is between two frames, and truncated where it
is in a header or in a body. -/
theorem ipc_stream_cut (hdecode : ∀ m, decode (encode m) = some m) {messages : List α}
    (hsize : ∀ m ∈ messages, (encode m).length ≤ maxFrame) :
    ∃ stream, writeMessages encode messages = .ok stream ∧
      ∀ cut ≤ stream.length, ∀ r : Reads UInt8, r.all = stream.take cut →
        (readAll decode r).1 <+: messages ∧
        (∀ j < messages.length,
          j < (readAll decode r).1.length ↔ boundary encode messages (j + 1) ≤ cut) ∧
        ((readAll decode r).2 = .closed ↔ OnBoundary encode messages cut) ∧
        ((readAll decode r).2 = .truncatedFrame ↔
          InHeader encode messages cut ∨ InBody encode messages cut) := by
  refine ⟨_, writeMessages_ok hsize, fun cut hcut r hr => ?_⟩
  have h := readAll_cut (fun m _ => hdecode m) hsize hcut hr
  exact ⟨h.pre, h.whole, h.closed, h.truncated⟩

theorem ipc_stream_cut_bools :
    ∃ stream, writeMessages cborBool [true, false] = .ok stream ∧
      ∀ cut ≤ stream.length, ∀ r : Reads UInt8, r.all = stream.take cut →
        (readAll readCborBool r).1 <+: [true, false] ∧
        (∀ j < 2,
          j < (readAll readCborBool r).1.length ↔ boundary cborBool [true, false] (j + 1) ≤ cut) ∧
        ((readAll readCborBool r).2 = .closed ↔ OnBoundary cborBool [true, false] cut) ∧
        ((readAll readCborBool r).2 = .truncatedFrame ↔
          InHeader cborBool [true, false] cut ∨ InBody cborBool [true, false] cut) :=
  ipc_stream_cut (by decide) (by decide)

end RoundTrip

end Mouser
