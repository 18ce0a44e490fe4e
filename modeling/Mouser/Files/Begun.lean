import Mouser.Files.Concurrent

/-!
# One transfer among others

What is known of the files of a task that has started (`Begun`), as long as nobody else writes to
its targets, and what a step of the task makes of it (`Phase.Steps`). A file goes on at the end of
what its task found on the disk; what it becomes is `resumed`.
-/

namespace Mouser

section

variable [Sha256]

/-- What a file becomes when a sender of `source` goes on at the end of `existing`. -/
def resumed (existing source : List UInt8) : List UInt8 := existing ++ source.drop existing.length

omit [Sha256] in
theorem resumed_eq {existing source : List UInt8} (h : existing <+: source) :
    resumed existing source = source :=
  (List.prefix_append_drop h).symm

/-- A slice of one of the sources. -/
structure Job.Sends (job : Job) (c : FileChunk) : Prop where
  id_eq : c.transferId = job.offer.transferId
  small : c.data.length ≤ maxChunkSize
  slice : ∃ source, job.sources[c.fileIndex.toNat]? = some source ∧
    c.offset.toNat ≤ source.length ∧ c.data <+: source.drop c.offset.toNat

omit [Sha256] in
/-- What a sender in step sends is a slice of one of its sources. -/
theorem Sends.job [Sha256] {job : Job} {a b : View} {c : FileChunk}
    (h : Sends job.offer.transferId job.sources a c b) (hlength : a.length = job.sources.length) :
    job.Sends c := by
  obtain ⟨hlt, -⟩ := List.getElem?_eq_some_iff.1 h.offset_eq
  have hsource := List.getElem?_eq_getElem (hlength ▸ hlt)
  have hslice := h.slice _ hsource
  refine ⟨h.id_eq, h.small, _, hsource, ?_, hslice⟩
  have hdata := hslice.length_le
  have hpos := List.length_pos_iff.2 h.nonempty
  rw [List.length_drop] at hdata
  omega

/-- The file holds what was there with a part of the rest of its source. -/
structure Grows (before : Disk) (plan : OsStr × Option Hash) (source : List UInt8)
    (slot : Slot FsSink) : Prop where
  path_eq : slot.sink.path = plan.1
  expected_eq : slot.expected = plan.2
  size_eq : slot.size.toNat = source.length
  held : ∃ rest, content slot.sink = before.bytes plan.1 ++ rest ∧
    rest <+: source.drop (before.bytes plan.1).length

/-- What is known of the files of a task that started on the disk `before`. -/
structure Begun (job : Job) (before : Disk) (plans : List (OsStr × Option Hash))
    (slots : List (Slot FsSink)) : Prop where
  good : ∀ slot ∈ slots, Receiver.Good slot
  file : ∀ (i : ℕ) (slot : Slot FsSink), slots[i]? = some slot → ∃ plan source,
    plans[i]? = some plan ∧ job.sources[i]? = some source ∧ Grows before plan source slot

/-- The targets of the task are its own, and what it finds there without a digest to tell is of its
sources. -/
structure Recognized (job : Job) (before : Disk) (plans : List (OsStr × Option Hash)) : Prop where
  distinct : (plans.map Prod.fst).Nodup
  existing : ∀ (i : ℕ) (plan : OsStr × Option Hash) (source : List UInt8),
    plans[i]? = some plan → job.sources[i]? = some source →
    (∀ digest, plan.2 = some digest → sha256 (resumed (before.bytes plan.1) source) = digest) →
    before.bytes plan.1 <+: source

/-- Every file is on the disk, with the bytes of its source. -/
def Delivered (config : ReceiverConfig) (job : Job) (disk : Disk) : Prop :=
  ∀ (i : ℕ) (entry : FileEntry) (source : List UInt8), job.offer.files[i]? = some entry →
    job.sources[i]? = some source → ∃ path file,
      resolveInQuarantine config.quarantine entry.name = .ok (.ok path) ∧
      disk path = some file ∧ file.1 = source

/-- A file that is on the disk from before cannot be brought to its digest. -/
def Doomed (config : ReceiverConfig) (job : Job) (before : Disk) : Prop :=
  ∃ (plans : List (OsStr × Option Hash)) (i : ℕ) (path : OsStr) (digest : Hash)
    (source : List UInt8), validateEntries config 0 job.offer.files = .ok (.ok plans) ∧
    plans[i]? = some (path, some digest) ∧ job.sources[i]? = some source ∧
    sha256 (resumed (before.bytes path) source) ≠ digest

/-- What a `FileDone` has to mean. -/
def Verdict (config : ReceiverConfig) (job : Job) (before disk : Disk) (done : FileDone) : Prop :=
  (done.ok = true → Delivered config job disk) ∧ (done.ok = false → Doomed config job before)

namespace Begun

variable {config : ReceiverConfig} {job : Job} {before disk : Disk}
  {plans : List (OsStr × Option Hash)} {slots : List (Slot FsSink)}

/-- A file that has its size is what was there with the rest of its source. -/
theorem full (h : Begun job before plans slots) {i : ℕ} {slot : Slot FsSink}
    {plan : OsStr × Option Hash} {source : List UInt8} (hslot : slots[i]? = some slot)
    (hgrows : Grows before plan source slot) (hfull : slot.size ≤ slot.acked) :
    content slot.sink = resumed (before.bytes plan.1) source := by
  have hgood := h.good slot (List.mem_of_getElem? hslot)
  obtain ⟨rest, hcontent, hrest⟩ := hgrows.held
  have hlength := UInt64.le_iff_toNat_le.1 hfull
  rw [← hgood.held, hgrows.size_eq, hcontent, List.length_append] at hlength
  rw [hcontent, resumed, hrest.eq_of_length_le]
  rw [List.length_drop]
  omega

/-- A file that is complete is its source. -/
theorem complete (h : Begun job before plans slots) (hown : Recognized job before plans)
    {i : ℕ} {slot : Slot FsSink} {plan : OsStr × Option Hash} {source : List UInt8}
    (hslot : slots[i]? = some slot) (hplan : plans[i]? = some plan)
    (hsource : job.sources[i]? = some source) (hgrows : Grows before plan source slot)
    (hcomplete : slot.complete = true) : content slot.sink = source := by
  obtain ⟨hfull, hdigest⟩ := (h.good slot (List.mem_of_getElem? hslot)).intact hcomplete
  have hcontent := h.full hslot hgrows (UInt64.le_of_eq hfull.symm)
  rw [hcontent]
  refine resumed_eq (hown.existing i plan source hplan hsource ?_)
  intro digest hexpected
  rw [← hcontent]
  exact hdigest digest (hgrows.expected_eq.trans hexpected)

/-- A transfer whose files are all complete has delivered them. -/
theorem delivered (h : Begun job before plans slots)
    (hmirrored : Mirrored (slots.map (·.sink)) disk) (hown : Recognized job before plans)
    (hplans : validateEntries config 0 job.offer.files = .ok (.ok plans))
    (hlength : slots.length = plans.length) (hall : ∀ slot ∈ slots, slot.complete = true) :
    Delivered config job disk := by
  intro i entry source hentry hsource
  obtain ⟨hplansLength, hvalid⟩ := validateEntries_ok hplans
  obtain ⟨hlt, -⟩ := List.getElem?_eq_some_iff.1 hentry
  have hslot : slots[i]? = some slots[i] := List.getElem?_eq_getElem (by omega)
  obtain ⟨plan, source', hplan, hsource', hgrows⟩ := h.file i _ hslot
  rw [hsource] at hsource'
  cases hsource'
  have hmem : slots[i].sink ∈ slots.map (·.sink) :=
    List.mem_map_of_mem (List.mem_of_getElem? hslot)
  have hdisk := hmirrored.onDisk _ hmem
  rw [FsSink.OnDisk, hgrows.path_eq] at hdisk
  refine ⟨plan.1, _, (validateEntry_ok (hvalid i entry plan hentry hplan)).1, hdisk, ?_⟩
  rw [hmirrored.file_eq _ hmem]
  exact h.complete hown hslot hplan hsource hgrows (hall _ (List.mem_of_getElem? hslot))

/-- A transfer that fails has a file that was not to be brought to its digest. -/
theorem doomed (h : Begun job before plans slots)
    (hplans : validateEntries config 0 job.offer.files = .ok (.ok plans))
    (hfailed : (finalizeSlots slots).2 = false) : Doomed config job before := by
  by_contra hnot
  refine Bool.false_ne_true (hfailed.symm.trans (finalizeSlots_ok ?_))
  intro slot hslot _ hfull
  refine ⟨sha256 slot.sink.hashed, rfl, ?_⟩
  intro expected hexpected
  obtain ⟨i, hi⟩ := List.mem_iff_getElem?.1 hslot
  obtain ⟨⟨path, digest⟩, source, hplan, hsource, hgrows⟩ := h.file i slot hi
  have hdigest : digest = some expected := hgrows.expected_eq.symm.trans hexpected
  subst hdigest
  by_contra hother
  refine hnot ⟨plans, i, path, expected, source, hplans, hplan, hsource, ?_⟩
  rw [← h.full hi hgrows hfull]
  exact fun hsame => hother hsame.symm

/-- Finishing the files keeps what is known of them, and a `FileDone` means what it has to. -/
theorem finalize {r r' : Receiver FsSink} {done : Option FileDone}
    (h : Begun job before plans r.slots) (hown : Recognized job before plans)
    (hplans : validateEntries config 0 job.offer.files = .ok (.ok plans))
    (hlength : r.slots.length = plans.length) (hrunning : r.aborted = false)
    (hfinalize : r.finalizeCompletedFiles = (r', done)) (hmirrored : Mirrored r'.sinks disk) :
    Begun job before plans r'.slots ∧ r'.slots.length = plans.length ∧
      ∀ d ∈ done, Verdict config job before disk d := by
  have hfinal := Receiver.finalized hfinalize
  have hsinks := Receiver.sinks_finalize (fun s : FsSink => rfl) r
  rw [hfinalize] at hsinks
  have hbegun : Begun job before plans r'.slots := by
    refine ⟨hfinal.good h.good, ?_⟩
    intro i slot' hslot'
    obtain ⟨slot, hslot, hf⟩ := hfinal.slots.of_getElem?_right hslot'
    obtain ⟨plan, source, hplan, hsource, hgrows⟩ := h.file i slot hslot
    have hsink : slot'.sink = slot.sink := by
      have hmap := congrArg (·[i]?) hsinks
      simpa [Receiver.sinks, hslot, hslot'] using hmap
    refine ⟨plan, source, hplan, hsource, ?_, ?_, ?_, ?_⟩
    · rw [hsink, hgrows.path_eq]
    · rw [hf.expected_eq, hgrows.expected_eq]
    · rw [hf.size_eq, hgrows.size_eq]
    · rw [hf.content_eq]
      exact hgrows.held
  have hlength' : r'.slots.length = plans.length := by rw [← hfinal.slots.length_eq, hlength]
  refine ⟨hbegun, hlength', ?_⟩
  rintro d hd
  cases Option.mem_def.1 hd
  rcases hfinal.outcome with ⟨hdone, haborted, -⟩ | ⟨-, -, ⟨hdone, -, -, hall⟩ | ⟨hdone, -⟩⟩
  · cases hdone
    refine ⟨by simp, fun _ => h.doomed hplans ?_⟩
    by_contra hok
    rw [Bool.not_eq_false] at hok
    have hsame := Receiver.aborted_finalize hok
    rw [hfinalize, haborted, hrunning] at hsame
    cases hsame
  · cases hdone
    exact ⟨fun _ => hbegun.delivered hmirrored hown hplans hlength' hall, by simp⟩
  · cases hdone

/-- A chunk of a source that is next is written. -/
theorem written {r : Receiver FsSink} {c : FileChunk} {slot : Slot FsSink} {stop : UInt64}
    {sink : FsSink} (h : Begun job before plans r.slots) (hc : job.Sends c)
    (hnext : r.Next c slot stop)
    (hwrite : FileSink.writeAt slot.sink slot.acked c.data = (sink, .ok ())) :
    Begun job before plans (r.putSlot c.fileIndex { slot with sink, acked := stop }).slots := by
  have hgood := h.good slot (List.mem_of_getElem? hnext.found)
  have hcontent := hgood.content_written hwrite
  have hpath := FsSink.path_writeAt slot.sink slot.acked c.data
  rw [hwrite] at hpath
  refine ⟨Receiver.good_putSlot h.good (hgood.written hnext hwrite), ?_⟩
  intro i slot' hslot'
  rw [Receiver.putSlot, List.getElem?_set] at hslot'
  split at hslot'
  · next hi =>
    subst hi
    split at hslot'
    · cases hslot'
      obtain ⟨plan, source, hplan, hsource, hgrows⟩ := h.file _ slot hnext.found
      refine ⟨plan, source, hplan, hsource, ?_, hgrows.expected_eq, hgrows.size_eq, ?_⟩
      · exact hpath.trans hgrows.path_eq
      · -- The slice goes on where the file ends.
        obtain ⟨source', hsource', -, hslice⟩ := hc.slice
        rw [hsource] at hsource'
        cases hsource'
        rw [hnext.offset_eq, ← hgood.held] at hslice
        obtain ⟨rest, hheld, hrest⟩ := hgrows.held
        rw [hheld, List.length_append, ← List.drop_drop] at hslice
        refine ⟨rest ++ c.data, ?_, hrest.append_drop hslice⟩
        rw [hcontent, hheld, List.append_assoc]
    · cases hslot'
  · exact h.file i slot' hslot'

/-- The files that are open are the first of the plans. -/
theorem paths_eq (h : Begun job before plans slots) :
    slots.map (·.sink.path) = (plans.map Prod.fst).take slots.length := by
  refine List.ext_getElem? ?_
  intro i
  rw [List.getElem?_map, List.getElem?_take, List.getElem?_map]
  split
  · next hi =>
    have hslot : slots[i]? = some slots[i] := List.getElem?_eq_getElem hi
    obtain ⟨plan, source, hplan, -, hgrows⟩ := h.file i _ hslot
    rw [hslot, hplan, Option.map_some, Option.map_some, hgrows.path_eq]
  · next hi =>
    rw [List.getElem?_eq_none (Nat.le_of_not_lt hi)]
    rfl

end Begun

/-! ## What one step of a task does -/

/-- What is known of a task that is running, having started on the disk `before`. -/
inductive Phase.Runs (job : Job) (before disk : Disk) (plans : List (OsStr × Option Hash)) :
    Phase → Prop where
  | opening {slots : List (Slot FsSink)} {resume : List ResumePoint}
    (hbegun : Begun job before plans slots) (hmirrored : Mirrored (slots.map (·.sink)) disk)
    (hwaiting : ∀ path ∈ (plans.map Prod.fst).drop slots.length, disk path = before path) :
    Runs job before disk plans
      (.opening slots resume ((job.offer.files.zip plans).drop slots.length))
  | receiving {r : Receiver FsSink} (hbegun : Begun job before plans r.slots)
    (hmirrored : Mirrored r.sinks disk) (hlength : r.slots.length = plans.length)
    (hid : r.transferId = job.offer.transferId) (hrunning : r.aborted = false) :
    Runs job before disk plans (.receiving r)

namespace Phase.Runs

variable {config : ReceiverConfig} {job : Job} {before disk disk' : Disk}
  {plans : List (OsStr × Option Hash)} {phase : Phase}

/-- A running task has the targets it started with. -/
theorem targets_eq (h : Phase.Runs job before disk plans phase)
    (hlength : plans.length = job.offer.files.length) : phase.targets = plans.map Prod.fst := by
  cases h with
  | @opening slots resume hbegun hmirrored hwaiting =>
    have hrest : ((job.offer.files.zip plans).drop slots.length).map (·.2.1) =
        (plans.map Prod.fst).drop slots.length := by
      have hsnd : ((job.offer.files.zip plans).map Prod.snd).map Prod.fst = plans.map Prod.fst := by
        rw [List.map_snd_zip (Nat.le_of_eq hlength)]
      rw [List.map_drop, ← hsnd, List.map_map]
      rfl
    rw [Phase.targets, hbegun.paths_eq, hrest, List.take_append_drop]
  | @receiving r hbegun hmirrored hslots hid hrunning =>
    rw [Phase.targets, Receiver.sinks, List.map_map]
    refine hbegun.paths_eq.trans ?_
    rw [hslots, ← List.length_map Prod.fst, List.take_length]

/-- **The frame of a task.** It sees its own targets only. -/
theorem frame (h : Phase.Runs job before disk plans phase)
    (hlength : plans.length = job.offer.files.length)
    (hagree : ∀ path ∈ plans.map Prod.fst, disk' path = disk path) :
    Phase.Runs job before disk' plans phase := by
  have htargets := h.targets_eq hlength
  cases h with
  | opening hbegun hmirrored hwaiting =>
    refine .opening hbegun (hmirrored.frame ?_) ?_
    · intro path hpath
      refine hagree path ?_
      rw [← htargets, Phase.targets]
      exact List.mem_append_left _ (by rwa [List.map_map] at hpath)
    · intro path hpath
      rw [hagree path (List.mem_of_mem_drop hpath), hwaiting path hpath]
  | receiving hbegun hmirrored hslots hid hrunning =>
    refine .receiving hbegun (hmirrored.frame ?_) hslots hid hrunning
    intro path hpath
    exact hagree path (htargets ▸ hpath)

end Phase.Runs

/-- What a step of a running task makes of it and of the disk. -/
structure Phase.Steps (config : ReceiverConfig) (job : Job) (before disk : Disk)
    (plans : List (OsStr × Option Hash)) (result : Disk × Phase × List Outbound) : Prop where
  runs : result.2.1 = .ended ∨ Phase.Runs job before result.1 plans result.2.1
  frame : ∀ path, path ∉ plans.map Prod.fst → result.1 path = disk path
  verdict : ∀ d, .done d ∈ result.2.2 → Verdict config job before result.1 d

namespace Phase

variable {config : ReceiverConfig} {job : Job} {before disk : Disk}
  {plans : List (OsStr × Option Hash)}

omit [Sha256] in
/-- A task that starts validates its offer, and opens its sinks next. -/
theorem start_cases (config : ReceiverConfig) (offer : FileOffer) :
    ((start config offer).1 = .ended ∧ ∀ d, .done d ∉ (start config offer).2) ∨
      ∃ plans, validateEntries config 0 offer.files = .ok (.ok plans) ∧
        start config offer = (.opening [] [] (offer.files.zip plans), []) := by
  have hreject : ∀ m d, .done d ∉ [Outbound.reject m] := by
    intro m d hd
    cases List.mem_singleton.1 hd
  unfold start
  split
  · exact .inl ⟨rfl, fun _ => nofun⟩
  · split
    · exact .inl ⟨rfl, hreject _⟩
    · split
      · exact .inl ⟨rfl, fun _ => nofun⟩
      · exact .inl ⟨rfl, hreject _⟩
      · next plans hplans => exact .inr ⟨plans, hplans, rfl⟩

theorem runs_ofReceiver {r : Receiver FsSink} (hbegun : Begun job before plans r.slots)
    (hmirrored : Mirrored r.sinks disk) (hlength : r.slots.length = plans.length)
    (hid : r.transferId = job.offer.transferId) :
    ofReceiver r = .ended ∨ Runs job before disk plans (ofReceiver r) := by
  unfold ofReceiver
  split
  · exact .inl rfl
  · next hterminal =>
    refine .inr (.receiving hbegun hmirrored hlength hid ?_)
    rw [Receiver.isTerminal, Bool.or_eq_true, not_or, Bool.not_eq_true, Bool.not_eq_true]
      at hterminal
    exact hterminal.2

omit [Sha256] in
/-- The only `FileDone` is that of finishing the files. -/
theorem mem_of_done_mem {m : Outbound} (hm : ∀ d, m ≠ .done d) {done : Option FileDone}
    {d : FileDone} (h : .done d ∈ m :: (done.map .done).toList) : d ∈ done := by
  rcases List.mem_cons.1 h with h | h
  · exact absurd h.symm (hm d)
  · simpa using h

/-- What is opened goes on with the file that is there. -/
theorem opens {slots : List (Slot FsSink)} {entry : FileEntry} {path : OsStr}
    {expected : Option Hash} {sink : FsSink} (hbegun : Begun job before plans slots)
    (hentry : job.offer.files[slots.length]? = some entry)
    (hplan : plans[slots.length]? = some (path, expected)) (hpath : sink.path = path)
    (hhashed : sink.hashed = before.bytes path) (hle : FileSink.existingLen sink ≤ entry.size) :
    Begun job before plans
      (slots ++ [⟨entry.size, FileSink.existingLen sink, false, sink, expected⟩]) := by
  obtain ⟨hlt, -⟩ := List.getElem?_eq_some_iff.1 hentry
  refine ⟨?_, ?_⟩
  · intro slot hslot
    rcases List.mem_append.1 hslot with hslot | hslot
    · exact hbegun.good slot hslot
    · rw [List.mem_singleton.1 hslot]
      exact ⟨sink.len_eq.symm, hle, nofun⟩
  · intro i slot hslot
    rcases List.getElem?_concat_eq_some hslot with hslot | ⟨rfl, rfl⟩
    · exact hbegun.file i slot hslot
    · rw [job.length_eq] at hlt
      have hsource : job.sources[slots.length]? = some job.sources[slots.length] :=
        List.getElem?_eq_getElem hlt
      exact ⟨_, _, hplan, hsource, hpath, rfl, job.size_eq _ _ _ hentry hsource, [], by
        simp [content, hhashed], List.nil_prefix⟩

/-- The task goes on once its next sink is open. -/
theorem runs_opened {slots : List (Slot FsSink)} {resume : List ResumePoint} {entry : FileEntry}
    {path : OsStr} {expected : Option Hash} {sink : FsSink} (hown : Recognized job before plans)
    (hbegun : Begun job before plans slots) (hmirrored : Mirrored (slots.map (·.sink)) disk)
    (hwaiting : ∀ path ∈ (plans.map Prod.fst).drop slots.length, disk path = before path)
    (hentry : job.offer.files[slots.length]? = some entry)
    (hplan : plans[slots.length]? = some (path, expected)) (hpath : sink.path = path)
    (hhashed : sink.hashed = disk.bytes path) (hfile : sink.file.1 = sink.hashed)
    (hle : FileSink.existingLen sink ≤ entry.size) :
    Runs job before (Function.update disk path (some sink.file)) plans
      (.opening (slots ++ [⟨entry.size, FileSink.existingLen sink, false, sink, expected⟩]) resume
        ((job.offer.files.zip plans).drop (slots.length + 1))) := by
  have hdrop : (plans.map Prod.fst).drop slots.length =
      path :: (plans.map Prod.fst).drop (slots.length + 1) := by
    have htarget : (plans.map Prod.fst)[slots.length]? = some path := by
      rw [List.getElem?_map, hplan]
      rfl
    obtain ⟨hlt, hget⟩ := List.getElem?_eq_some_iff.1 htarget
    rw [List.drop_eq_getElem_cons hlt, hget]
  have hdistinct := hown.distinct
  rw [← List.take_append_drop slots.length (plans.map Prod.fst), hdrop, List.nodup_append,
    List.nodup_cons] at hdistinct
  have hheld : sink.hashed = before.bytes path := by
    rw [hhashed, Disk.bytes, Disk.fileAt, hwaiting path (hdrop ▸ .head _)]
    rfl
  have hnext : (slots ++ [Slot.mk entry.size (FileSink.existingLen sink) false sink
      expected]).length = slots.length + 1 := by
    rw [List.length_append, List.length_singleton]
  subst hpath
  rw [← hnext]
  refine .opening (opens hbegun hentry hplan rfl hheld hle) ?_ ?_
  · rw [List.map_append]
    refine hmirrored.concat ?_ hfile
    rw [List.map_map]
    intro hmem
    exact hdistinct.2.2 _ (hbegun.paths_eq ▸ hmem) _ (.head _) rfl
  · intro other hother
    rw [hnext] at hother
    rw [Function.update_of_ne]
    · exact hwaiting other (hdrop ▸ .tail _ hother)
    · rintro rfl
      exact hdistinct.2.1.1 hother

/-- **The step of a task that opens its sinks.** -/
theorem openNext_steps {slots : List (Slot FsSink)} {resume : List ResumePoint}
    {rest : List (FileEntry × OsStr × Option Hash)} (hown : Recognized job before plans)
    (hplans : validateEntries config 0 job.offer.files = .ok (.ok plans))
    (h : Runs job before disk plans (.opening slots resume rest)) :
    Steps config job before disk plans
      (openNext config job.offer disk slots resume rest) := by
  obtain ⟨hlength, -⟩ := validateEntries_ok hplans
  cases h with
  | opening hbegun hmirrored hwaiting =>
    unfold openNext
    split
    · next hrest =>
      rw [List.drop_eq_nil_iff, List.length_zip, hlength, Nat.min_self] at hrest
      cases hfinalize : (Receiver.opened job.offer config slots).finalizeCompletedFiles with
      | mk r done =>
        have hsinks := Receiver.sinks_finalize (fun s : FsSink => rfl)
          (Receiver.opened job.offer config slots)
        rw [hfinalize] at hsinks
        have hmirrored' : Mirrored r.sinks disk := hsinks ▸ hmirrored
        have hslots : slots.length = plans.length := by
          have hpaths := congrArg List.length hbegun.paths_eq
          rw [List.length_map, List.length_take, List.length_map] at hpaths
          omega
        obtain ⟨hbegun', hlength', hverdict⟩ := Begun.finalize hbegun hown hplans hslots rfl
          hfinalize hmirrored'
        refine ⟨runs_ofReceiver hbegun' hmirrored' hlength' (Receiver.finalized hfinalize).id_eq,
          fun path _ => rfl, ?_⟩
        intro d hd
        refine hverdict d (mem_of_done_mem ?_ hd)
        rintro d' ⟨⟩
    · next entry path expected rest hrest =>
      have hhead := congrArg List.head? hrest
      have htail := congrArg List.tail hrest
      rw [List.head?_drop, List.head?_cons, List.getElem?_zip_eq_some] at hhead
      rw [List.tail_drop, List.tail_cons] at htail
      obtain ⟨hentry, hplan⟩ := hhead
      subst htail
      obtain ⟨sink, hopen, hpath, hhashed, hfile⟩ :=
        FsSink.openReceiveSink_ok disk slots.length path
      have htarget : (plans.map Prod.fst)[slots.length]? = some path := by
        rw [List.getElem?_map, hplan]
        rfl
      have hframe : ∀ other, other ∉ plans.map Prod.fst →
          Function.update disk path (some sink.file) other = disk other := by
        intro other hother
        refine Function.update_of_ne ?_ _ _
        rintro rfl
        exact hother (List.mem_of_getElem? htarget)
      dsimp only
      rw [hopen]
      dsimp only
      split
      · refine ⟨.inl rfl, hframe, ?_⟩
        intro d hd
        cases List.mem_singleton.1 hd
      · next hsize =>
        split
        · exact ⟨.inl rfl, hframe, nofun⟩
        · refine ⟨.inr ?_, hframe, nofun⟩
          exact runs_opened hown hbegun hmirrored hwaiting hentry hplan hpath hhashed hfile
            (UInt64.not_lt.1 hsize)

/-- An honest chunk is not refused. -/
theorem succeeds {r : Receiver FsSink} {c : FileChunk} (hbegun : Begun job before plans r.slots)
    (hlength : r.slots.length = job.sources.length) (hid : r.transferId = job.offer.transferId)
    (hc : job.Sends c) : ∃ out, (r.onChunk c).2 = .ok out := by
  obtain ⟨source, hsource, hwithin, hslice⟩ := hc.slice
  obtain ⟨hlt, -⟩ := List.getElem?_eq_some_iff.1 hsource
  have hslot : r.slots[c.fileIndex.toNat]? = some r.slots[c.fileIndex.toNat] :=
    List.getElem?_eq_getElem (by omega)
  obtain ⟨plan, source', -, hsource', hgrows⟩ := hbegun.file _ _ hslot
  rw [hsource] at hsource'
  cases hsource'
  refine Receiver.onChunk_succeeds (hc.id_eq.trans hid.symm) hc.small hslot ?_
  have hdata := hslice.length_le
  rw [List.length_drop] at hdata
  rw [hgrows.size_eq]
  omega

/-- **The step of a task that receives.** -/
theorem onChunk_steps {r : Receiver FsSink} {c : FileChunk} (hown : Recognized job before plans)
    (hplans : validateEntries config 0 job.offer.files = .ok (.ok plans)) (hc : job.Sends c)
    (h : Runs job before disk plans (.receiving r)) :
    Steps config job before disk plans (onChunk job.offer disk r c) := by
  obtain ⟨hfiles, -⟩ := validateEntries_ok hplans
  have htargets := h.targets_eq hfiles
  rw [targets] at htargets
  cases h with
  | receiving hbegun hmirrored hlength hid hrunning =>
    obtain ⟨disk', hon, hmirrored', -, hframe⟩ := Receiver.onChunkOn_mirrored hmirrored c
    rw [htargets] at hframe
    obtain ⟨out, hout⟩ := succeeds hbegun (by rw [hlength, hfiles, job.length_eq]) hid hc
    have hcases := Receiver.onChunk_cases r c
    unfold onChunk
    rw [hon]
    generalize r.onChunk c = result at hcases hmirrored' hout
    cases hcases with
    | refused e => cases hout
    | ended haborted =>
      rw [hrunning] at haborted
      cases haborted
    | again hslot =>
      refine ⟨runs_ofReceiver hbegun hmirrored' hlength hid, hframe, ?_⟩
      intro d hd
      cases List.mem_singleton.1 hd
    | @failed slot stop sink e hnext hwrite =>
      -- A write within the size of its file does not fail.
      have hgood := hbegun.good slot (List.mem_of_getElem? hnext.found)
      have hok := FaultlessSink.write_ok slot.sink c.data (by
        rw [hgood.held, ← hnext.stop_eq]
        exact stop.toNat_lt)
      rw [hgood.existingLen, hwrite] at hok
      cases hok
    | @written slot stop sink r' done hnext hwrite hfinalize =>
      have hslots : (r.putSlot c.fileIndex { slot with sink, acked := stop }).slots.length =
          plans.length := by rw [Receiver.putSlot, List.length_set, hlength]
      obtain ⟨hbegun', hlength', hverdict⟩ := (hbegun.written hc hnext hwrite).finalize hown hplans
        hslots hrunning hfinalize hmirrored'
      refine ⟨runs_ofReceiver hbegun' hmirrored' hlength' ?_, hframe, ?_⟩
      · exact (Receiver.finalized hfinalize).id_eq.trans hid
      · intro d hd
        refine hverdict d (mem_of_done_mem ?_ hd)
        rintro d' ⟨⟩

end Phase

end

end Mouser
