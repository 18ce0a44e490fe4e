import Mouser.Ipc.Codec
import Mouser.Lib.Machine

/-!
# Serving one UI client

`serve_client` selects between two futures: the next command of the client (`read_message`) and the
next snapshot of the daemon (`changed`). The arm that completes drops the other future. The select
is biased: the snapshots are looked at only when the socket has no bytes to read.

Serialization is a parameter: `encode` and `decode` are the CBOR encodings of commands, and
`encodeSnapshot` that of the message that carries a snapshot.
-/

namespace Mouser

open Framing

/-- A command a UI client sends to the daemon. -/
inductive Command (Settings : Type) where
  | connect (peerId : String)
  | disconnect
  | trust (peerId : String)
  | approvePairing (peerId : String)
  | denyPairing (peerId : String)
  | sendFiles (paths : List String)
  | updateSettings (settings : Settings)
  | resetData
  | refreshSnapshot
  | getSnapshot

/-- Whether `serve_client` answers the command itself. -/
def Command.isGetSnapshot {Settings : Type} : Command Settings → Bool
  | .getSnapshot => true
  | _ => false

/-- The serialization of the IPC messages. -/
structure IpcCodec (Settings Snapshot : Type) where
  encode : Command Settings → List UInt8
  decode : List UInt8 → Option (Command Settings)
  encodeSnapshot : Snapshot → List UInt8

/-- Where `serve_client` is suspended. -/
inductive ClientPhase (Settings : Type) where
  /-- In the select, with the future that reads the next command. -/
  | reading (r : ReadMessage)
  /-- In `command_tx.send`. -/
  | sending (command : Command Settings)
  /-- It has returned, and the connection is gone. -/
  | closed

structure ServeClient (Settings Snapshot : Type) where
  /-- The bytes the client has written that were not read. -/
  socket : List UInt8
  phase : ClientPhase Settings
  /-- The value of the snapshot channel, and whether `serve_client` has not seen it. -/
  snapshot : Snapshot
  fresh : Bool

inductive ClientEvent (Snapshot : Type) where
  /-- Bytes that the client wrote reach the socket. -/
  | arrive (bytes : List UInt8)
  /-- The daemon publishes a snapshot. -/
  | publish (snapshot : Snapshot)
  /-- The read future gets the next `n` bytes. -/
  | read (n : ℕ)
  /-- The read future finds that the client has closed the connection. -/
  | hangUp
  /-- The command queue of the daemon takes the command. -/
  | sent
  /-- The snapshot arm of the select completes. -/
  | changed

inductive ClientOutput (Settings Snapshot : Type) where
  | forward (command : Command Settings)
  | answer (snapshot : Snapshot)
  | push (snapshot : Snapshot)

namespace ServeClient

variable {Settings Snapshot : Type} (codec : IpcCodec Settings Snapshot)

/-- The client is connected, and has been sent the current snapshot. -/
def boot (snapshot : Snapshot) : ServeClient Settings Snapshot where
  socket := []
  phase := .reading .start
  snapshot := snapshot
  fresh := false

/-- Write the current snapshot and go back to the select; a write that fails ends the task. -/
def writeSnapshot (s : ServeClient Settings Snapshot)
    (out : Snapshot → ClientOutput Settings Snapshot) :
    ServeClient Settings Snapshot × List (ClientOutput Settings Snapshot) :=
  match writeMessage (codec.encodeSnapshot s.snapshot) with
  | .ok _ => ({ s with phase := .reading .start, fresh := false }, [out s.snapshot])
  | .error _ => ({ s with phase := .closed, fresh := false }, [])

/-- What the select does with the command, or the error, that was read. -/
def onCommand (s : ServeClient Settings Snapshot) (result : Except IpcError (Command Settings)) :
    ServeClient Settings Snapshot × List (ClientOutput Settings Snapshot) :=
  match result with
  | .ok .getSnapshot => s.writeSnapshot codec .answer
  | .ok command => ({ s with phase := .sending command }, [])
  | .error _ => ({ s with phase := .closed }, [])

/-- The bytes that a read of `n` gets: some, and no more than the future asks for. -/
def reads (s : ServeClient Settings Snapshot) (r : ReadMessage) (n : ℕ) : Option (List UInt8) :=
  if 0 < n ∧ n ≤ r.wants ∧ n ≤ s.socket.length then some (s.socket.take n) else none

def onRead (s : ServeClient Settings Snapshot) (n : ℕ) :
    ServeClient Settings Snapshot × List (ClientOutput Settings Snapshot) :=
  match s.phase with
  | .reading r =>
    match s.reads r n with
    | some bytes =>
      let s := { s with socket := s.socket.drop n }
      match r.poll codec.decode bytes with
      | .pending r => ({ s with phase := .reading r }, [])
      | .ready result => s.onCommand codec result
    | none => (s, [])
  | _ => (s, [])

def onHangUp (s : ServeClient Settings Snapshot) :
    ServeClient Settings Snapshot × List (ClientOutput Settings Snapshot) :=
  match s.phase, s.socket with
  | .reading r, [] =>
    match r.poll codec.decode [] with
    | .pending r => ({ s with phase := .reading r }, [])
    | .ready result => s.onCommand codec result
  | _, _ => (s, [])

def onSent (s : ServeClient Settings Snapshot) :
    ServeClient Settings Snapshot × List (ClientOutput Settings Snapshot) :=
  match s.phase with
  | .sending command => ({ s with phase := .reading .start }, [.forward command])
  | _ => (s, [])

/-- The snapshot arm completes only when the read future is pending on an empty socket. -/
def onChanged (s : ServeClient Settings Snapshot) :
    ServeClient Settings Snapshot × List (ClientOutput Settings Snapshot) :=
  match s.phase, s.socket with
  | .reading _, [] => if s.fresh then s.writeSnapshot codec .push else (s, [])
  | _, _ => (s, [])

def step (s : ServeClient Settings Snapshot) : ClientEvent Snapshot →
    ServeClient Settings Snapshot × List (ClientOutput Settings Snapshot)
  | .arrive bytes => ({ s with socket := s.socket ++ bytes }, [])
  | .publish snapshot => ({ s with snapshot := snapshot, fresh := true }, [])
  | .read n => s.onRead codec n
  | .hangUp => s.onHangUp codec
  | .sent => s.onSent
  | .changed => s.onChanged codec

def machine : Machine (ServeClient Settings Snapshot) (ClientEvent Snapshot)
    (List (ClientOutput Settings Snapshot)) := ⟨fun s ev => s.step codec ev⟩

/-! ## What is written, forwarded and answered -/

/-- The bytes a client writes for its commands, each with `write_message`. -/
def writeMessages : List (Command Settings) → Except IpcError (List UInt8)
  | [] => .ok []
  | c :: cs => do
    let bytes ← writeMessage (codec.encode c)
    let rest ← writeMessages cs
    return bytes ++ rest

/-- The bytes that have reached the socket. -/
def arrivals (events : List (ClientEvent Snapshot)) : List UInt8 :=
  events.flatMap fun
    | .arrive bytes => bytes
    | _ => []

/-- The commands forwarded to the daemon, in order. -/
def forwarded (out : List (ClientOutput Settings Snapshot)) : List (Command Settings) :=
  out.filterMap fun
    | .forward c => some c
    | _ => none

/-- The snapshots sent in answer to a `GetSnapshot`, in order. -/
def answers (out : List (ClientOutput Settings Snapshot)) : List Snapshot :=
  out.filterMap fun
    | .answer snapshot => some snapshot
    | _ => none

/-- What `serve_client` has said in a run. -/
def outputs (s : ServeClient Settings Snapshot) (events : List (ClientEvent Snapshot)) :
    List (ClientOutput Settings Snapshot) :=
  ((machine codec).trace s events).flatMap (·.output)

/-- The commands were handled, each once and in order: forwarded, or answered. -/
def Handled (commands : List (Command Settings))
    (out : List (ClientOutput Settings Snapshot)) : Prop :=
  forwarded out = commands.filter (!·.isGetSnapshot) ∧
    (answers out).length = commands.countP (·.isGetSnapshot)

/-- The snapshot arm completes and drops a future that has consumed part of a frame. -/
def CutsFrame (s : ServeClient Settings Snapshot) (ev : ClientEvent Snapshot) : Prop :=
  ∃ r, ev = .changed ∧ s.phase = .reading r ∧ s.socket = [] ∧ s.fresh = true ∧ r.bytes ≠ []

/-- The step is about to write a snapshot that does not fit a frame. -/
def Overflows (s : ServeClient Settings Snapshot) (ev : ClientEvent Snapshot) : Prop :=
  maxFrame < (codec.encodeSnapshot s.snapshot).length ∧ ∃ r, s.phase = .reading r ∧
    ((ev = .changed ∧ s.socket = [] ∧ s.fresh = true) ∨
      ∃ n bytes, ev = .read n ∧ s.reads r n = some bytes ∧
        r.poll codec.decode bytes = .ready (.ok .getSnapshot))

/-! ## One step -/

section

variable {codec}

theorem writeMessages_ok {cmds : List (Command Settings)} {bytes : List UInt8}
    (h : writeMessages codec cmds = .ok bytes) :
    bytes = frames 4 (cmds.map codec.encode) ∧
      ∀ c ∈ cmds, (codec.encode c).length ≤ maxFrame := by
  induction cmds generalizing bytes with
  | nil =>
    cases h
    exact ⟨rfl, by simp⟩
  | cons c cs ih =>
    rw [writeMessages] at h
    cases hc : writeMessage (codec.encode c) with
    | error e => simp [hc, bind, Except.bind] at h
    | ok first =>
      cases hcs : writeMessages codec cs with
      | error e => simp [hc, hcs, bind, Except.bind] at h
      | ok rest =>
        obtain ⟨hsize, rfl⟩ := writeMessage_ok.1 hc
        obtain ⟨rfl, hsizes⟩ := ih hcs
        simp only [hc, hcs, bind, Except.bind, pure, Except.pure, Except.ok.injEq] at h
        refine ⟨by simp [← h], ?_⟩
        simpa using ⟨hsize, hsizes⟩

variable {s : ServeClient Settings Snapshot} {r : ReadMessage} {n : ℕ} {bytes : List UInt8}

theorem writeSnapshot_ok {out : Snapshot → ClientOutput Settings Snapshot}
    (h : ¬ maxFrame < (codec.encodeSnapshot s.snapshot).length) :
    s.writeSnapshot codec out =
      ({ s with phase := .reading .start, fresh := false }, [out s.snapshot]) := by
  rw [writeSnapshot, writeMessage_ok.2 ⟨Nat.le_of_not_lt h, rfl⟩]

theorem reads_eq_some (h : s.reads r n = some bytes) :
    bytes = s.socket.take n ∧ bytes ≠ [] ∧ bytes.length ≤ r.wants := by
  unfold reads at h
  split at h
  · next hn =>
    cases h
    refine ⟨rfl, ?_, ?_⟩
    · rw [Ne, ← List.length_eq_zero_iff, List.length_take]
      omega
    · rw [List.length_take]
      omega
  · cases h

/-- A read of some bytes hands them to the future. -/
theorem onRead_of_reads (hphase : s.phase = .reading r) (h : s.reads r n = some bytes) :
    s.onRead codec n = match r.poll codec.decode bytes with
      | .pending q => ({ s with socket := s.socket.drop n, phase := .reading q }, [])
      | .ready result => { s with socket := s.socket.drop n }.onCommand codec result := by
  simp only [onRead, hphase, h]

/-- A read that gets no bytes does nothing. -/
theorem onRead_of_idle (h : ∀ r, s.phase = .reading r → s.reads r n = none) :
    s.onRead codec n = (s, []) := by
  unfold onRead
  split
  · next r hphase => simp only [h r hphase]
  · rfl

theorem Handled.append {cs ds : List (Command Settings)}
    {out out' : List (ClientOutput Settings Snapshot)} (h : Handled cs out)
    (h' : Handled ds out') : Handled (cs ++ ds) (out ++ out') := by
  obtain ⟨hf, ha⟩ := h
  obtain ⟨hf', ha'⟩ := h'
  refine ⟨?_, ?_⟩
  · rw [List.filter_append, ← hf, ← hf', forwarded, List.filterMap_append]
    rfl
  · rw [List.countP_append, ← ha, ← ha', answers, List.filterMap_append, List.length_append]
    rfl

theorem handled_nil : Handled [] ([] : List (ClientOutput Settings Snapshot)) := ⟨rfl, rfl⟩

/-! ## The task and the stream -/

/-- The commands that are still to be handled, given the bytes that are still to arrive. -/
inductive Awaits (codec : IpcCodec Settings Snapshot) (s : ServeClient Settings Snapshot)
    (future : List UInt8) : List (Command Settings) → Prop
  | reading {r : ReadMessage} {rest : List (Command Settings)} (hphase : s.phase = .reading r)
      (hstream : r.bytes ++ s.socket ++ future = frames 4 (rest.map codec.encode)) :
      Awaits codec s future rest
  | sending {c : Command Settings} {rest : List (Command Settings)} (hphase : s.phase = .sending c)
      (hc : c.isGetSnapshot = false)
      (hstream : s.socket ++ future = frames 4 (rest.map codec.encode)) :
      Awaits codec s future (c :: rest)

variable {future : List UInt8} {commands : List (Command Settings)} {ev : ClientEvent Snapshot}

/-- A command that was read is answered, or is being sent. -/
theorem awaits_onCommand {c : Command Settings} {rest : List (Command Settings)}
    (hfits : c = .getSnapshot → ¬ maxFrame < (codec.encodeSnapshot s.snapshot).length)
    (hstream : s.socket ++ future = frames 4 (rest.map codec.encode)) :
    ∃ done left, c :: rest = done ++ left ∧
      Awaits codec (s.onCommand codec (.ok c)).1 future left ∧
      Handled done (s.onCommand codec (.ok c)).2 := by
  cases hc : c.isGetSnapshot with
  | true =>
    have hget : c = .getSnapshot := by
      cases c <;> first | rfl | cases hc
    subst hget
    rw [onCommand, writeSnapshot_ok (hfits rfl)]
    exact ⟨[.getSnapshot], rest, rfl, .reading rfl hstream, rfl, rfl⟩
  | false =>
    have hsend : s.onCommand codec (.ok c) = ({ s with phase := .sending c }, []) := by
      cases c <;> first | rfl | cases hc
    rw [hsend]
    exact ⟨[], c :: rest, rfl, .sending rfl hc hstream, handled_nil⟩

/-- **One step of the task.** It handles some of the commands it awaits, in order, and awaits the
others. -/
theorem Awaits.step (h : Awaits codec s (arrivals [ev] ++ future) commands)
    (hdecode : ∀ c ∈ commands, codec.decode (codec.encode c) = some c)
    (hsize : ∀ c ∈ commands, (codec.encode c).length ≤ maxFrame)
    (hcut : ¬ s.CutsFrame ev) (hfits : ¬ s.Overflows codec ev) (hopen : ev ≠ .hangUp) :
    ∃ done rest, commands = done ++ rest ∧ Awaits codec (s.step codec ev).1 future rest ∧
      Handled done (s.step codec ev).2 := by
  cases ev with
  | arrive bytes =>
    refine ⟨[], commands, rfl, ?_, handled_nil⟩
    simp only [arrivals, List.flatMap_singleton] at h
    cases h with
    | reading hphase hstream =>
      exact .reading hphase (by simpa [ServeClient.step, List.append_assoc] using hstream)
    | sending hphase hc hstream =>
      exact .sending hphase hc (by simpa [ServeClient.step, List.append_assoc] using hstream)
  | publish snapshot =>
    refine ⟨[], commands, rfl, ?_, handled_nil⟩
    cases h with
    | reading hphase hstream => exact .reading hphase hstream
    | sending hphase hc hstream => exact .sending hphase hc hstream
  | hangUp => exact absurd rfl hopen
  | sent =>
    cases h with
    | reading hphase hstream =>
      have hidle : s.onSent = (s, ([] : List (ClientOutput Settings Snapshot))) := by
        rw [onSent, hphase]
      rw [ServeClient.step, hidle]
      exact ⟨[], commands, rfl, .reading hphase hstream, handled_nil⟩
    | @sending c rest hphase hc hstream =>
      rw [ServeClient.step, onSent, hphase]
      exact ⟨[c], rest, rfl, .reading rfl hstream, by simp [forwarded, hc], by simp [answers, hc]⟩
  | read n =>
    cases h with
    | @reading r _ hphase hstream =>
      cases hreads : s.reads r n with
      | none =>
        have hidle : s.onRead codec n = (s, []) := by
          refine onRead_of_idle ?_
          intro q hq
          cases hphase.symm.trans hq
          exact hreads
        rw [ServeClient.step, hidle]
        exact ⟨[], commands, rfl, .reading hphase hstream, handled_nil⟩
      | some bytes =>
        obtain ⟨hbytes, hne, hwants⟩ := reads_eq_some hreads
        have hpieces : r.bytes ++ bytes ++ (s.socket.drop n ++ future) =
            frames 4 (commands.map codec.encode) := by
          rw [← hstream, hbytes, List.append_assoc, ← List.append_assoc (s.socket.take n),
            List.take_append_drop, List.append_assoc]
          rfl
        rw [ServeClient.step, onRead_of_reads hphase hreads]
        rcases ReadMessage.poll_frames hdecode hsize hne hwants hpieces with
          ⟨q, hpoll, hq⟩ | ⟨c, rest, rfl, hpoll, hrest⟩
        · rw [hpoll]
          exact ⟨[], commands, rfl, .reading rfl (by rw [← hq, List.append_assoc]), handled_nil⟩
        · rw [hpoll]
          refine awaits_onCommand (fun hget hlarge => hfits ?_) hrest
          exact ⟨hlarge, r, hphase, .inr ⟨n, bytes, rfl, hreads, hget ▸ hpoll⟩⟩
    | sending hphase hc hstream =>
      have hidle : s.onRead codec n = (s, []) :=
        onRead_of_idle fun q hq => nomatch hphase.symm.trans hq
      rw [ServeClient.step, hidle]
      exact ⟨[], _, rfl, .sending hphase hc hstream, handled_nil⟩
  | changed =>
    cases h with
    | @reading r _ hphase hstream =>
      by_cases hready : s.socket = [] ∧ s.fresh = true
      · obtain ⟨hsocket, hfresh⟩ := hready
        -- The future that is dropped has not consumed any bytes.
        have hstart : r.bytes = [] := by
          by_contra hbytes
          exact hcut ⟨r, rfl, hphase, hsocket, hfresh, hbytes⟩
        have hwrite : s.onChanged codec = s.writeSnapshot codec .push := by
          simp only [onChanged, hphase, hsocket, hfresh, if_true]
        rw [ServeClient.step, hwrite, writeSnapshot_ok fun hlarge =>
          hfits ⟨hlarge, r, hphase, .inl ⟨rfl, hsocket, hfresh⟩⟩]
        refine ⟨[], commands, rfl, .reading rfl ?_, rfl, rfl⟩
        rw [← hstream, hstart]
        rfl
      · have hidle : s.onChanged codec = (s, []) := by
          unfold onChanged
          split
          · next _ hsocket => rw [if_neg fun hfresh => hready ⟨hsocket, hfresh⟩]
          · rfl
        rw [ServeClient.step, hidle]
        exact ⟨[], commands, rfl, .reading hphase hstream, handled_nil⟩
    | sending hphase hc hstream =>
      have hidle : s.onChanged codec = (s, []) := by simp only [onChanged, hphase]
      rw [ServeClient.step, hidle]
      exact ⟨[], _, rfl, .sending hphase hc hstream, handled_nil⟩

/-! ## Runs -/

/-- With all bytes arrived and read, and nothing being sent, no command is left. -/
theorem Awaits.finished (h : Awaits codec s [] commands)
    (hsize : ∀ c ∈ commands, (codec.encode c).length ≤ maxFrame) (hsocket : s.socket = [])
    (hidle : ∀ c, s.phase ≠ .sending c) : commands = [] := by
  cases h with
  | @reading r _ hphase hstream =>
    rw [hsocket, List.append_nil, List.append_nil] at hstream
    have hall : ∀ x ∈ commands.map codec.encode, x.length ≤ maxFrame := by simpa using hsize
    exact List.map_eq_nil_iff.1 (Progress.eq_nil_of_bytes (by decide) hall hstream)
  | sending hphase => exact absurd hphase (hidle _)

theorem onRead_socket (hphase : s.phase = .reading r) (h : s.reads r n = some bytes) :
    (s.onRead codec n).1.socket = s.socket.drop n ∧
      (s.onRead codec n).1.snapshot = s.snapshot := by
  rw [onRead_of_reads hphase h]
  cases r.poll codec.decode bytes with
  | pending q => exact ⟨rfl, rfl⟩
  | ready result =>
    cases result with
    | error e => exact ⟨rfl, rfl⟩
    | ok c =>
      cases c with
      | getSnapshot =>
        simp only [onCommand, writeSnapshot]
        split <;> exact ⟨rfl, rfl⟩
      | _ => exact ⟨rfl, rfl⟩

/-- What the task still has to do: the bytes it can read, and a command it is sending. -/
def work (s : ServeClient Settings Snapshot) : ℕ :=
  2 * s.socket.length + match s.phase with
    | .sending _ => 1
    | _ => 0

/-- A read, or the sending of a command. -/
def Task (ev : ClientEvent Snapshot) : Prop :=
  ev = .read 1 ∨ ev = .sent

/-- While there is something to do, the task can do some of it. -/
theorem exists_task (h : Awaits codec s future commands) (hwork : s.work ≠ 0) :
    ∃ ev : ClientEvent Snapshot, Task ev ∧ (s.step codec ev).1.work < s.work ∧
      (s.step codec ev).1.snapshot = s.snapshot := by
  cases h with
  | @reading r _ hphase hstream =>
    refine ⟨.read 1, .inl rfl, ?_⟩
    have hsocket : 1 ≤ s.socket.length := by
      simp only [work, hphase] at hwork
      omega
    have hwants : 1 ≤ r.wants := by
      cases r with
      | header got hgot => exact Nat.sub_pos_of_lt hgot
      | body len got hlen hgot => exact Nat.sub_pos_of_lt hgot
    have hreads : s.reads r 1 = some (s.socket.take 1) := if_pos ⟨Nat.one_pos, hwants, hsocket⟩
    obtain ⟨hdrop, hsnapshot⟩ := @onRead_socket _ _ codec _ _ _ _ hphase hreads
    refine ⟨?_, hsnapshot⟩
    simp only [ServeClient.step, work, hdrop, hphase, List.length_drop]
    split <;> omega
  | sending hphase hc hstream =>
    refine ⟨.sent, .inr rfl, ?_⟩
    simp [ServeClient.step, onSent, work, hphase]

theorem outputs_cons (s : ServeClient Settings Snapshot) (ev : ClientEvent Snapshot)
    (events : List (ClientEvent Snapshot)) :
    outputs codec s (ev :: events) =
      (s.step codec ev).2 ++ outputs codec (s.step codec ev).1 events := by
  simp [outputs, machine]

theorem outputs_append (s : ServeClient Settings Snapshot)
    (events more : List (ClientEvent Snapshot)) :
    outputs codec s (events ++ more) =
      outputs codec s events ++ outputs codec ((machine codec).exec s events) more := by
  rw [outputs, Machine.trace_append, List.flatMap_append]
  rfl

/-- A task that has returned does nothing. -/
theorem outputs_closed {events : List (ClientEvent Snapshot)} (h : s.phase = .closed) :
    outputs codec s events = [] := by
  induction events generalizing s with
  | nil => rfl
  | cons ev events ih =>
    have hstep : (s.step codec ev).2 = [] ∧ (s.step codec ev).1.phase = .closed := by
      cases ev <;> simp [ServeClient.step, onRead, onHangUp, onSent, onChanged, h]
    rw [outputs_cons, hstep.1, ih hstep.2, List.nil_append]

/-- A run handles some of the commands it awaits, in order, and awaits the others. -/
theorem Awaits.run {events : List (ClientEvent Snapshot)}
    (h : Awaits codec s (arrivals events ++ future) commands)
    (hdecode : ∀ c ∈ commands, codec.decode (codec.encode c) = some c)
    (hsize : ∀ c ∈ commands, (codec.encode c).length ≤ maxFrame)
    (hsteps : ∀ en ∈ (machine codec).trace s events,
      ¬ en.pre.CutsFrame en.input ∧ ¬ en.pre.Overflows codec en.input ∧ en.input ≠ .hangUp) :
    ∃ done rest, commands = done ++ rest ∧
      Awaits codec ((machine codec).exec s events) future rest ∧
      Handled done (outputs codec s events) := by
  induction events generalizing s commands with
  | nil => exact ⟨[], commands, rfl, h, handled_nil⟩
  | cons ev events ih =>
    obtain ⟨hcut, hfits, hopen⟩ := hsteps _ (.head _)
    have hfuture : arrivals (ev :: events) ++ future =
        arrivals [ev] ++ (arrivals events ++ future) := by
      simp [arrivals]
    rw [hfuture] at h
    obtain ⟨done, rest, rfl, hawaits, hdone⟩ := h.step hdecode hsize hcut hfits hopen
    obtain ⟨done', rest', rfl, hawaits', hdone'⟩ := ih hawaits
      (fun c hc => hdecode c (List.mem_append_right _ hc))
      (fun c hc => hsize c (List.mem_append_right _ hc))
      (fun en hen => hsteps en (.tail _ hen))
    rw [outputs_cons]
    exact ⟨done ++ done', rest', (List.append_assoc ..).symm, hawaits', hdone.append hdone'⟩

/-- **The task gets through.** With all bytes arrived, reads and sends handle what is left. -/
theorem Awaits.drain (h : Awaits codec s [] commands)
    (hdecode : ∀ c ∈ commands, codec.decode (codec.encode c) = some c)
    (hsize : ∀ c ∈ commands, (codec.encode c).length ≤ maxFrame)
    (hfits : (codec.encodeSnapshot s.snapshot).length ≤ maxFrame) :
    ∃ more : List (ClientEvent Snapshot), (∀ ev ∈ more, Task ev) ∧
      Handled commands (outputs codec s more) := by
  induction hw : s.work using Nat.strong_induction_on generalizing s commands with
  | _ w ih =>
    by_cases hwork : s.work = 0
    · have hsocket : s.socket = [] := List.eq_nil_of_length_eq_zero (by unfold work at hwork; omega)
      have hidle : ∀ c, s.phase ≠ .sending c := fun c hc => by simp [work, hc] at hwork
      rw [h.finished hsize hsocket hidle]
      exact ⟨[], by simp, handled_nil⟩
    · obtain ⟨ev, htask, hless, hsnapshot⟩ := exists_task h hwork
      have hawaits : Awaits codec s (arrivals [ev] ++ []) commands := by
        rcases htask with rfl | rfl <;> exact h
      have hcut : ¬ s.CutsFrame ev := by
        rintro ⟨r, rfl, -⟩
        rcases htask with htask | htask <;> cases htask
      have hopen : ev ≠ .hangUp := by
        rintro rfl
        rcases htask with htask | htask <;> cases htask
      obtain ⟨done, rest, rfl, hnext, hdone⟩ := hawaits.step hdecode hsize hcut
        (fun hlarge => absurd hlarge.1 (Nat.not_lt.2 hfits)) hopen
      obtain ⟨more, hmore, hrest⟩ := ih _ (hw ▸ hless) hnext
        (fun c hc => hdecode c (List.mem_append_right _ hc))
        (fun c hc => hsize c (List.mem_append_right _ hc)) (hsnapshot ▸ hfits) rfl
      refine ⟨ev :: more, ?_, ?_⟩
      · rintro ev' (_ | ⟨_, hev'⟩)
        · exact htask
        · exact hmore ev' hev'
      · rw [outputs_cons]
        exact hdone.append hrest

end

/-- **Commands are neither lost nor garbled, when no future is dropped inside a frame.** A client
stays connected and writes commands; its bytes reach the socket and are read in any pieces, while
the daemon publishes snapshots at any time. If the snapshot arm never completes while the read
future is inside a frame, and never a snapshot is written that does not fit a frame, then the
commands handled so far are the first ones, each once and in order; when all bytes are read they
are all of them; and once they have all arrived, reading on handles all. -/
theorem commands_handled (snapshot : Snapshot) {commands : List (Command Settings)}
    {bytes : List UInt8} {events : List (ClientEvent Snapshot)}
    (hwrites : writeMessages codec commands = .ok bytes)
    (hdecode : ∀ c ∈ commands, codec.decode (codec.encode c) = some c)
    (harrivals : arrivals events <+: bytes) (hopen : ∀ ev ∈ events, ev ≠ .hangUp)
    (hsteps : ∀ en ∈ (machine codec).trace (boot snapshot) events,
      ¬ en.pre.CutsFrame en.input ∧ ¬ en.pre.Overflows codec en.input) :
    let s := (machine codec).exec (boot snapshot) events
    (∃ done rest, commands = done ++ rest ∧ Handled done (outputs codec (boot snapshot) events) ∧
      (arrivals events = bytes → s.socket = [] → (∀ c, s.phase ≠ .sending c) → rest = [])) ∧
    (arrivals events = bytes → (codec.encodeSnapshot s.snapshot).length ≤ maxFrame →
      ∃ more : List (ClientEvent Snapshot), (∀ ev ∈ more, Task ev) ∧
        Handled commands (outputs codec (boot snapshot) (events ++ more))) := by
  intro s
  obtain ⟨future, hfuture⟩ := harrivals
  obtain ⟨hbytes, hsize⟩ := writeMessages_ok hwrites
  have hboot : Awaits codec (boot snapshot) (arrivals events ++ future) commands :=
    .reading rfl (by rw [hfuture, hbytes]; rfl)
  have hguard : ∀ en ∈ (machine codec).trace (boot snapshot) events,
      ¬ en.pre.CutsFrame en.input ∧ ¬ en.pre.Overflows codec en.input ∧ en.input ≠ .hangUp := by
    intro en hen
    obtain ⟨hcut, hfits⟩ := hsteps en hen
    obtain ⟨js, ev, ks, heq, rfl⟩ := (machine codec).mem_trace_iff.1 hen
    exact ⟨hcut, hfits, hopen ev (by simp [heq])⟩
  obtain ⟨done, rest, rfl, hawaits, hdone⟩ := hboot.run hdecode hsize hguard
  have hrestsize : ∀ c ∈ rest, (codec.encode c).length ≤ maxFrame := fun c hc =>
    hsize c (List.mem_append_right _ hc)
  have hnone : arrivals events = bytes → future = [] := by
    intro hall
    rw [← hall] at hfuture
    exact List.append_right_eq_self.1 hfuture
  refine ⟨⟨done, rest, rfl, hdone, ?_⟩, ?_⟩
  · intro hall hsocket hidle
    rw [hnone hall] at hawaits
    exact hawaits.finished hrestsize hsocket hidle
  · intro hall hfits
    rw [hnone hall] at hawaits
    obtain ⟨more, hmore, hrest⟩ := hawaits.drain
      (fun c hc => hdecode c (List.mem_append_right _ hc)) hrestsize hfits
    exact ⟨more, hmore, by rw [outputs_append]; exact hdone.append hrest⟩

/-- `{"kind": "disconnect"}` in CBOR. -/
def cborDisconnect : List UInt8 :=
  [0xa1, 0x64, 0x6b, 0x69, 0x6e, 0x64, 0x6a, 0x64, 0x69, 0x73, 0x63, 0x6f, 0x6e, 0x6e, 0x65, 0x63,
    0x74]

/-- The serialization of a `Disconnect`; snapshots stand for their encodings. -/
def disconnectCodec : IpcCodec Unit (List UInt8) where
  encode
    | .disconnect => cborDisconnect
    | _ => []
  decode bytes := if bytes = cborDisconnect then some .disconnect else none
  encodeSnapshot := id

/-- A `Disconnect` in two pieces, with a snapshot published inside it and pushed after it. -/
def pushAfterFrame : List (ClientEvent (List UInt8)) :=
  [.arrive ((frame 4 cborDisconnect).take 10), .read 4, .read 6, .publish [0xa0],
    .arrive ((frame 4 cborDisconnect).drop 10), .read 11, .sent, .changed]

theorem pushAfterFrame_handled :
    let s := (machine disconnectCodec).exec (boot [0xa0]) pushAfterFrame
    (∃ done rest, [.disconnect] = done ++ rest ∧
      Handled done (outputs disconnectCodec (boot [0xa0]) pushAfterFrame) ∧
      (arrivals pushAfterFrame = frame 4 cborDisconnect → s.socket = [] →
        (∀ c, s.phase ≠ .sending c) → rest = [])) ∧
    (arrivals pushAfterFrame = frame 4 cborDisconnect →
      (disconnectCodec.encodeSnapshot s.snapshot).length ≤ maxFrame →
      ∃ more : List (ClientEvent (List UInt8)), (∀ ev ∈ more, Task ev) ∧
        Handled [.disconnect]
          (outputs disconnectCodec (boot [0xa0]) (pushAfterFrame ++ more))) := by
  refine commands_handled disconnectCodec [0xa0] rfl ?_ (by decide) ?_ ?_
  · simp [disconnectCodec]
  · simp [pushAfterFrame]
  · have hsnapshot : ∀ en ∈ (machine disconnectCodec).trace (boot [0xa0]) pushAfterFrame,
        en.pre.snapshot = [0xa0] := by decide +kernel
    have hstart : ∀ en ∈ (machine disconnectCodec).trace (boot [0xa0]) pushAfterFrame,
        (match en.input, en.pre.phase with
          | .changed, .reading r => r.bytes.isEmpty
          | _, _ => true) = true := by decide +kernel
    intro en hen
    refine ⟨?_, ?_⟩
    · rintro ⟨r, hev, hphase, -, -, hbytes⟩
      have hempty := hstart en hen
      rw [hev, hphase] at hempty
      exact hbytes (List.isEmpty_iff.1 hempty)
    · rintro ⟨hlarge, -⟩
      rw [hsnapshot en hen] at hlarge
      exact absurd hlarge (by decide)

/-- The header of a `Disconnect` is read, a snapshot is published and pushed, and the payload
arrives. -/
def pushInsideFrame : List (ClientEvent (List UInt8)) :=
  [.arrive ((frame 4 cborDisconnect).take 4), .read 4, .publish [0xa0], .changed,
    .arrive ((frame 4 cborDisconnect).drop 4), .read 4]

/-- **A snapshot pushed inside a frame loses the command.** The payload is read as the length of a
frame, which is too large, and the task ends: the `Disconnect` is never forwarded. -/
theorem pushInsideFrame_loses :
    writeMessages disconnectCodec [.disconnect] = .ok (arrivals pushInsideFrame) ∧
      ∀ more, ¬ Handled [.disconnect]
        (outputs disconnectCodec (boot [0xa0]) (pushInsideFrame ++ more)) := by
  refine ⟨rfl, ?_⟩
  intro more
  have hclosed : ((machine disconnectCodec).exec (boot [0xa0]) pushInsideFrame).phase = .closed :=
    rfl
  rw [outputs_append, outputs_closed hclosed, List.append_nil]
  rintro ⟨hforwarded, -⟩
  have hnone : forwarded (outputs disconnectCodec (boot [0xa0]) pushInsideFrame) = [] := rfl
  rw [hnone] at hforwarded
  cases hforwarded

end ServeClient

end Mouser
