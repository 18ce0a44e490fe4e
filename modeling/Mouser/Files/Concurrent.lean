import Mouser.Files.Lockstep
import Mouser.Files.Targets

/-!
# Transfers side by side

Any number of `run_receiver_stream` tasks work in one quarantine directory. Each step is one task's:
it validates its offer, opens one sink, or handles one chunk; between two steps of a task the others
make theirs. Nothing keeps two running transfers from having one target, and they then write to one
file. `Quarantine.accepts_alone` says that a task whose steps no other interrupts does what
`Receiver::accept_offer` does.
-/

namespace Mouser

/-- How far a task is. -/
inductive Phase where
  | idle
  /-- The sinks are being opened, and `rest` are still to be. -/
  | opening (slots : List (Slot FsSink)) (resume : List ResumePoint)
    (rest : List (FileEntry × OsStr × Option Hash))
  | receiving (r : Receiver FsSink)
  | ended

/-- The paths that the task writes to. -/
def Phase.targets : Phase → List OsStr
  | .opening slots _ rest => slots.map (·.sink.path) ++ rest.map (·.2.1)
  | .receiving r => r.sinks.map FsSink.path
  | _ => []

/-- The quarantine directory and the tasks that work in it. -/
structure Quarantine where
  disk : Disk
  tasks : ℕ → Phase

inductive QuarantineEvent where
  | start (k : ℕ)
  /-- The task opens its next sink, or accepts its offer when all are open. -/
  | openNext (k : ℕ)
  | chunk (k : ℕ) (c : FileChunk)
  /-- The stream of the task fails. -/
  | fail (k : ℕ)
deriving DecidableEq

/-- The task that makes the step. -/
def QuarantineEvent.task : QuarantineEvent → ℕ
  | .start k => k
  | .openNext k => k
  | .chunk k _ => k
  | .fail k => k

section

variable [Sha256]

/-- What an honest sender offers: the sizes and the digests of its sources. -/
structure Job where
  offer : FileOffer
  sources : List (List UInt8)
  length_eq : offer.files.length = sources.length
  size_eq : ∀ (i : ℕ) (entry : FileEntry) (source : List UInt8), offer.files[i]? = some entry →
    sources[i]? = some source → entry.size.toNat = source.length
  digest_eq : ∀ (i : ℕ) (entry : FileEntry) (source digest : List UInt8),
    offer.files[i]? = some entry → sources[i]? = some source → entry.sha256 = some digest →
    digest = (sha256 source).bytes

namespace Phase

/-- The first half of `accept_offer`: validate everything. -/
def start (config : ReceiverConfig) (offer : FileOffer) : Phase × List Outbound :=
  if offer.files = [] then (.ended, [])
  else
    match checkLimits offer config with
    | some reason => (.ended, [.reject ⟨offer.transferId, reason⟩])
    | none =>
      match validateEntries config 0 offer.files with
      | .error _ => (.ended, [])
      | .ok (.error reason) => (.ended, [.reject ⟨offer.transferId, reason⟩])
      | .ok (.ok plans) => (.opening [] [] (offer.files.zip plans), [])

/-- The task goes on while its receiver is not at its end. -/
def ofReceiver (r : Receiver FsSink) : Phase := if r.isTerminal then .ended else .receiving r

/-- The second half of `accept_offer`, a sink at a time. -/
def openNext (config : ReceiverConfig) (offer : FileOffer) (disk : Disk)
    (slots : List (Slot FsSink)) (resume : List ResumePoint) :
    List (FileEntry × OsStr × Option Hash) → Disk × Phase × List Outbound
  | [] =>
    let (r, done) := (Receiver.opened offer config slots).finalizeCompletedFiles
    (disk, ofReceiver r, .accept ⟨offer.transferId, resume⟩ :: (done.map .done).toList)
  | (entry, path, expected) :: rest =>
    let i := slots.length
    match FsSink.openReceiveSink disk i path with
    | (disk, .error _) => (disk, .ended, [])
    | (disk, .ok sink) =>
      let existing := FileSink.existingLen sink
      if entry.size < existing then
        let reason := s!"file {i}: existing {existing} bytes exceed offered size {entry.size}"
        (disk, .ended, [.reject ⟨offer.transferId, reason⟩])
      else if 0 < existing ∧ 2 ^ 32 ≤ i then (disk, .ended, [])
      else
        let point := if 0 < existing then [⟨.ofNat i, existing⟩] else []
        (disk, .opening (slots ++ [⟨entry.size, existing, false, sink, expected⟩])
          (resume ++ point) rest, [])

/-- The loop of `run_receiver_stream`. -/
def onChunk (offer : FileOffer) (disk : Disk) (r : Receiver FsSink) (c : FileChunk) :
    Disk × Phase × List Outbound :=
  match r.onChunkOn disk c with
  | (disk, r, .ok out) => (disk, ofReceiver r, out)
  | (disk, _, .error _) => (disk, .ended, [.done ⟨offer.transferId, false⟩])

end Phase

namespace Quarantine

/-- The state after a step of task `k`. -/
def put (s : Quarantine) (k : ℕ) (disk : Disk) (phase : Phase) : Quarantine :=
  { disk, tasks := Function.update s.tasks k phase }

omit [Sha256] in
@[simp] theorem put_disk (s : Quarantine) (k : ℕ) (disk : Disk) (phase : Phase) :
    (s.put k disk phase).disk = disk := rfl

omit [Sha256] in
theorem put_self (s : Quarantine) (k : ℕ) (disk : Disk) (phase : Phase) :
    (s.put k disk phase).tasks k = phase := Function.update_self _ _ _

omit [Sha256] in
theorem put_of_ne (s : Quarantine) {j k : ℕ} (h : j ≠ k) (disk : Disk) (phase : Phase) :
    (s.put k disk phase).tasks j = s.tasks j := Function.update_of_ne h _ _

/-- The output of a step is what its task sends back. -/
def step (config : ReceiverConfig) (jobs : ℕ → Job) (s : Quarantine) :
    QuarantineEvent → Quarantine × List Outbound
  | .start k =>
    match s.tasks k with
    | .idle =>
      let (phase, out) := Phase.start config (jobs k).offer
      (s.put k s.disk phase, out)
    | _ => (s, [])
  | .openNext k =>
    match s.tasks k with
    | .opening slots resume rest =>
      let (disk, phase, out) := Phase.openNext config (jobs k).offer s.disk slots resume rest
      (s.put k disk phase, out)
    | _ => (s, [])
  | .chunk k c =>
    match s.tasks k with
    | .receiving r =>
      let (disk, phase, out) := Phase.onChunk (jobs k).offer s.disk r c
      (s.put k disk phase, out)
    | _ => (s, [])
  | .fail k => (s.put k s.disk .ended, [])

def machine (config : ReceiverConfig) (jobs : ℕ → Job) :
    Machine Quarantine QuarantineEvent (List Outbound) := ⟨step config jobs⟩

end Quarantine

/-! ## A task that is alone -/

namespace Quarantine

variable {config : ReceiverConfig} {jobs : ℕ → Job} {s : Quarantine} {k : ℕ}

/-- A step is one task's. -/
theorem machine_tasks_of_ne {e : QuarantineEvent} (h : k ≠ e.task) :
    ((machine config jobs).step s e).1.tasks k = s.tasks k := by
  cases e with
  | start j =>
    cases hphase : s.tasks j with
    | idle =>
      simp only [machine, step, hphase]
      exact put_of_ne s h _ _
    | _ => simp only [machine, step, hphase]
  | openNext j =>
    cases hphase : s.tasks j with
    | opening slots resume rest =>
      simp only [machine, step, hphase]
      exact put_of_ne s h _ _
    | _ => simp only [machine, step, hphase]
  | chunk j c =>
    cases hphase : s.tasks j with
    | receiving r =>
      simp only [machine, step, hphase]
      exact put_of_ne s h _ _
    | _ => simp only [machine, step, hphase]
  | fail j => exact put_of_ne s h _ _

omit [Sha256] in
theorem put_put (s : Quarantine) (k : ℕ) (disk disk' : Disk) (phase phase' : Phase) :
    (s.put k disk phase).put k disk' phase' = s.put k disk' phase' := by
  simp [put]

/-- The sinks that a task opens with no other between are those of `openSinks`. -/
theorem exec_openNext {entries : List FileEntry} {plans : List (OsStr × Option Hash)}
    {slots slots' : List (Slot FsSink)} {resume resume' : List ResumePoint} {disk' : Disk}
    (hlength : plans.length = entries.length)
    (hphase : s.tasks k = .opening slots resume (entries.zip plans))
    (hopen : openSinks FsSink.openReceiveSink slots.length s.disk entries plans =
      (disk', .ok (.ok (slots', resume')))) :
    (machine config jobs).exec s (List.replicate plans.length (.openNext k)) =
      s.put k disk' (.opening (slots ++ slots') (resume ++ resume') []) := by
  induction plans generalizing s slots slots' resume resume' entries with
  | nil =>
    simp only [openSinks] at hopen
    cases hopen
    rw [List.zip_nil_right] at hphase
    rw [List.append_nil, List.append_nil, ← hphase, put, Function.update_eq_self]
    rfl
  | cons plan plans ih =>
    cases entries with
    | nil => cases hlength
    | cons entry entries =>
      obtain ⟨path, expected⟩ := plan
      obtain ⟨sink, hsink, -⟩ := FsSink.openReceiveSink_ok s.disk slots.length path
      rw [openSinks, hsink] at hopen
      dsimp only at hopen
      split at hopen
      · cases hopen
      · next hsize =>
        split at hopen
        · cases hopen
        · next hindex =>
          split at hopen
          · next disk₁ rest points hrest =>
            cases hopen
            rw [List.length_cons, List.replicate_succ, Machine.exec_cons]
            have hstep : ((machine config jobs).step s (.openNext k)).1 =
                s.put k (Function.update s.disk path (some sink.file))
                  (.opening
                    (slots ++ [⟨entry.size, FileSink.existingLen sink, false, sink, expected⟩])
                    (resume ++ if 0 < FileSink.existingLen sink then
                      [⟨.ofNat slots.length, FileSink.existingLen sink⟩] else [])
                    (entries.zip plans)) := by
              simp only [machine, step, hphase, List.zip_cons_cons, Phase.openNext, hsink,
                if_neg hsize, if_neg hindex]
            rw [hstep, ih (Nat.succ.inj hlength) (put_self _ _ _ _) (by simpa using hrest), put_put,
              List.append_assoc, List.append_assoc]
            rfl
          · next hnot hrest =>
            cases hopen
            exact absurd rfl (hnot _ _)

/-- **A task does what `accept_offer` does** when no other task is between its steps. -/
theorem accepts_alone {disk' : Disk} {r : Receiver FsSink} {m : FileAccept} {rest : List Outbound}
    (hidle : s.tasks k = .idle)
    (h : acceptOffer FsSink.openReceiveSink (jobs k).offer config s.disk =
      .ok (disk', .ok (r, .accept m :: rest))) :
    ∃ s', (machine config jobs).exec s
        (.start k :: List.replicate (jobs k).offer.files.length (.openNext k)) = s' ∧
      (machine config jobs).step s' (.openNext k) =
        (s.put k disk' (Phase.ofReceiver r), .accept m :: rest) := by
  obtain ⟨plans, slots, done, haccepts⟩ := acceptOffer_accepts h
  obtain ⟨hlength, -⟩ := validateEntries_ok haccepts.plans_eq
  have hstart : ((machine config jobs).step s (.start k)).1 =
      s.put k s.disk (.opening [] [] ((jobs k).offer.files.zip plans)) := by
    simp only [machine, step, hidle, Phase.start, if_neg haccepts.nonempty, haccepts.limits,
      haccepts.plans_eq]
  have hopening := put_self s k s.disk (.opening [] [] ((jobs k).offer.files.zip plans))
  have hopen := @exec_openNext _ config jobs _ k _ _ [] _ _ _ _ hlength hopening haccepts.opens
  refine ⟨_, rfl, ?_⟩
  rw [Machine.exec_cons, hstart, ← hlength, hopen, put_put]
  obtain ⟨id, resume⟩ := m
  cases haccepts.id_eq
  simp only [machine, step, put_self, put_disk, Phase.openNext, List.nil_append, haccepts.finalize,
    put_put, haccepts.rest_eq]

end Quarantine

end

end Mouser
