import Mouser.Files.Begun

/-!
# Transfers do not corrupt each other

Nothing keeps two running transfers from having one target, and they then write to one file.
`transfers_uncorrupted` is what holds of the runs in which no transfer starts with a target of a
running one: a transfer that is reported as done has delivered its sources, and one that is reported
as failed was to fail by what it found on the disk when it started.
-/

namespace Mouser

section

variable [Sha256]

namespace Quarantine

/-- No task has started. -/
def init (disk : Disk) : Quarantine := ⟨disk, fun _ => .idle⟩

variable (config : ReceiverConfig) (jobs : ℕ → Job)

/-- The task `k` has started with `plans`, on the disk `before`. -/
def Started (tr : List (Machine.Entry Quarantine QuarantineEvent (List Outbound))) (k : ℕ)
    (before : Disk) (plans : List (OsStr × Option Hash)) : Prop :=
  validateEntries config 0 (jobs k).offer.files = .ok (.ok plans) ∧
    Recognized (jobs k) before plans ∧
    ∃ o ∈ tr, o.input = .start k ∧ o.pre.tasks k = .idle ∧ o.pre.disk = before

/-- Every `FileDone` means what it has to, by what its task found on the disk when it started. -/
def Uncorrupted (tr : List (Machine.Entry Quarantine QuarantineEvent (List Outbound))) : Prop :=
  ∀ e ∈ tr, ∀ d, .done d ∈ e.output → ∃ o ∈ tr, o.input = .start e.input.task ∧
    o.pre.tasks e.input.task = .idle ∧
    Verdict config (jobs e.input.task) o.pre.disk e.post.disk d

/-- A task that starts has targets of its own, and of no running task. -/
def StartsApart (e : Machine.Entry Quarantine QuarantineEvent (List Outbound)) : Prop :=
  ∀ k plans, e.input = .start k → e.pre.tasks k = .idle →
    validateEntries config 0 (jobs k).offer.files = .ok (.ok plans) →
    Recognized (jobs k) e.pre.disk plans ∧
      ∀ j, ∀ path ∈ plans.map Prod.fst, path ∉ (e.pre.tasks j).targets

/-- What holds of the run so far and the state it has reached. -/
structure Inv (tr : List (Machine.Entry Quarantine QuarantineEvent (List Outbound)))
    (s : Quarantine) : Prop where
  tasks : ∀ k, s.tasks k = .idle ∨ s.tasks k = .ended ∨ ∃ before plans,
    Started config jobs tr k before plans ∧ Phase.Runs (jobs k) before s.disk plans (s.tasks k)
  apart : ∀ j k, j ≠ k → ∀ path ∈ (s.tasks j).targets, path ∉ (s.tasks k).targets
  uncorrupted : Uncorrupted config jobs tr

variable {config} {jobs} {tr : List (Machine.Entry Quarantine QuarantineEvent (List Outbound))}
  {s : Quarantine} {e : Machine.Entry Quarantine QuarantineEvent (List Outbound)}

theorem Started.concat {k : ℕ} {before : Disk} {plans : List (OsStr × Option Hash)}
    (h : Started config jobs tr k before plans) :
    Started config jobs (tr ++ [e]) k before plans := by
  obtain ⟨hplans, hown, o, ho, hstart⟩ := h
  exact ⟨hplans, hown, o, List.mem_append_left _ ho, hstart⟩

theorem Uncorrupted.concat (h : Uncorrupted config jobs tr)
    (hlast : ∀ d, .done d ∈ e.output → ∃ o ∈ tr ++ [e], o.input = .start e.input.task ∧
      o.pre.tasks e.input.task = .idle ∧
      Verdict config (jobs e.input.task) o.pre.disk e.post.disk d) :
    Uncorrupted config jobs (tr ++ [e]) := by
  intro e' he' d hd
  rcases List.mem_append.1 he' with he' | he'
  · obtain ⟨o, ho, hstart⟩ := h e' he' d hd
    exact ⟨o, List.mem_append_left _ ho, hstart⟩
  · cases List.mem_singleton.1 he'
    exact hlast d hd

/-- A step that is not enabled changes nothing. -/
theorem Inv.skip (h : Inv config jobs tr s) (hout : e.output = []) :
    Inv config jobs (tr ++ [e]) s := by
  refine ⟨?_, h.apart, h.uncorrupted.concat ?_⟩
  · intro k
    rcases h.tasks k with hidle | hended | ⟨before, plans, hstarted, hruns⟩
    · exact .inl hidle
    · exact .inr (.inl hended)
    · exact .inr (.inr ⟨before, plans, hstarted.concat, hruns⟩)
  · intro d hd
    rw [hout] at hd
    cases hd

/-- A step of task `k` that keeps to its own targets. -/
theorem Inv.put (h : Inv config jobs tr s) {k : ℕ} {disk : Disk} {phase : Phase}
    (hk : phase = .ended ∨ ∃ before plans, Started config jobs (tr ++ [e]) k before plans ∧
      Phase.Runs (jobs k) before disk plans phase)
    (hframe : ∀ j, j ≠ k → ∀ path ∈ (s.tasks j).targets, disk path = s.disk path)
    (hapart : ∀ j, j ≠ k → ∀ path ∈ phase.targets, path ∉ (s.tasks j).targets)
    (hlast : ∀ d, .done d ∈ e.output → ∃ o ∈ tr ++ [e], o.input = .start e.input.task ∧
      o.pre.tasks e.input.task = .idle ∧
      Verdict config (jobs e.input.task) o.pre.disk e.post.disk d) :
    Inv config jobs (tr ++ [e]) (s.put k disk phase) := by
  refine ⟨?_, ?_, h.uncorrupted.concat hlast⟩
  · intro j
    by_cases hj : j = k
    · subst hj
      rw [put_self]
      exact .inr hk
    · rw [put_of_ne s hj]
      rcases h.tasks j with hidle | hended | ⟨before, plans, hstarted, hruns⟩
      · exact .inl hidle
      · exact .inr (.inl hended)
      · obtain ⟨hlength, -⟩ := validateEntries_ok hstarted.1
        refine .inr (.inr ⟨before, plans, hstarted.concat, hruns.frame hlength ?_⟩)
        intro path hpath
        exact hframe j hj path (hruns.targets_eq hlength ▸ hpath)
  · intro i j hij path hpath
    by_cases hi : i = k
    · subst hi
      rw [put_self] at hpath
      rw [put_of_ne s hij.symm]
      exact hapart j hij.symm path hpath
    · rw [put_of_ne s hi] at hpath
      by_cases hj : j = k
      · subst hj
        rw [put_self]
        exact fun hmem => hapart i hi path hmem hpath
      · rw [put_of_ne s hj]
        exact h.apart i j hij path hpath

/-- A step of a task that is running. -/
theorem Inv.step (h : Inv config jobs tr s) {k : ℕ} {before : Disk}
    {plans : List (OsStr × Option Hash)} {result : Disk × Phase × List Outbound}
    (hstarted : Started config jobs tr k before plans)
    (hruns : Phase.Runs (jobs k) before s.disk plans (s.tasks k))
    (hsteps : Phase.Steps config (jobs k) before s.disk plans result) (htask : e.input.task = k)
    (hout : e.output = result.2.2) (hpost : e.post = s.put k result.1 result.2.1) :
    Inv config jobs (tr ++ [e]) (s.put k result.1 result.2.1) := by
  obtain ⟨hlength, -⟩ := validateEntries_ok hstarted.1
  have htargets := hruns.targets_eq hlength
  refine h.put ?_ ?_ ?_ ?_
  · exact hsteps.runs.imp_right fun hruns' => ⟨before, plans, hstarted.concat, hruns'⟩
  · intro j hj path hpath
    exact hsteps.frame path fun hmem => h.apart j k hj path hpath (htargets ▸ hmem)
  · intro j hj path hpath
    rcases hsteps.runs with hended | hruns'
    · rw [hended] at hpath
      cases hpath
    · rw [hruns'.targets_eq hlength, ← htargets] at hpath
      exact h.apart k j hj.symm path hpath
  · intro d hd
    obtain ⟨-, -, o, ho, hinput, hidle, hdisk⟩ := hstarted
    subst hdisk
    rw [hout] at hd
    rw [htask, hpost]
    exact ⟨o, List.mem_append_left _ ho, hinput, hidle, hsteps.verdict d hd⟩

/-- A step that is not enabled keeps the invariant. -/
theorem Inv.disabled (h : Inv config jobs tr s) {event : QuarantineEvent}
    (hstep : (machine config jobs).step s event = (s, [])) :
    Inv config jobs (tr ++ [(machine config jobs).entry s event])
      ((machine config jobs).step s event).1 := by
  have hout : ((machine config jobs).entry s event).output = [] := by
    rw [Machine.entry_output, hstep]
  rw [hstep]
  exact h.skip hout

/-- A step of a running task keeps the invariant. -/
theorem Inv.enabled (h : Inv config jobs tr s) {event : QuarantineEvent} {before : Disk}
    {plans : List (OsStr × Option Hash)} {result : Disk × Phase × List Outbound}
    (hstep : (machine config jobs).step s event =
      (s.put event.task result.1 result.2.1, result.2.2))
    (hstarted : Started config jobs tr event.task before plans)
    (hruns : Phase.Runs (jobs event.task) before s.disk plans (s.tasks event.task))
    (hsteps : Phase.Steps config (jobs event.task) before s.disk plans result) :
    Inv config jobs (tr ++ [(machine config jobs).entry s event])
      ((machine config jobs).step s event).1 := by
  have hpost : ((machine config jobs).entry s event).post =
      s.put event.task result.1 result.2.1 := by rw [Machine.entry_post, hstep]
  have hout : ((machine config jobs).entry s event).output = result.2.2 := by
    rw [Machine.entry_output, hstep]
  rw [hstep]
  exact h.step hstarted hruns hsteps rfl hout hpost

/-- A task that starts apart keeps the invariant. -/
theorem Inv.start (h : Inv config jobs tr s) {k : ℕ} (hidle : s.tasks k = .idle)
    (hapart : StartsApart config jobs ((machine config jobs).entry s (.start k))) :
    Inv config jobs (tr ++ [(machine config jobs).entry s (.start k)])
      ((machine config jobs).step s (.start k)).1 := by
  have hstep : (machine config jobs).step s (.start k) =
      (s.put k s.disk (Phase.start config (jobs k).offer).1,
        (Phase.start config (jobs k).offer).2) := by
    simp only [machine, Quarantine.step, hidle]
  have hout : ((machine config jobs).entry s (.start k)).output =
      (Phase.start config (jobs k).offer).2 := by rw [Machine.entry_output, hstep]
  rw [hstep]
  rcases Phase.start_cases config (jobs k).offer with ⟨hended, hnone⟩ | ⟨plans, hplans, hopening⟩
  · refine h.put (.inl hended) (fun j _ path _ => rfl) ?_ ?_
    · rw [hended]
      intro j _ path hpath
      cases hpath
    · intro d hd
      rw [hout] at hd
      exact absurd hd (hnone d)
  · obtain ⟨hown, hothers⟩ := hapart k plans rfl hidle hplans
    have hruns : Phase.Runs (jobs k) s.disk s.disk plans
        (.opening [] [] ((jobs k).offer.files.zip plans)) :=
      .opening ⟨by simp, by simp⟩ ⟨by simp, by simp, .nil⟩ fun path _ => rfl
    obtain ⟨hlength, -⟩ := validateEntries_ok hplans
    have htargets := hruns.targets_eq hlength
    rw [hopening] at hout ⊢
    refine h.put (.inr ⟨s.disk, plans, ?_, hruns⟩) (fun j _ path _ => rfl) ?_ ?_
    · exact ⟨hplans, hown, _, List.mem_append_right _ (.head _), rfl, hidle, rfl⟩
    · intro j _ path hpath
      exact hothers j path (htargets ▸ hpath)
    · intro d hd
      rw [hout] at hd
      cases hd

/-- **The step lemma.** -/
theorem Inv.next (h : Inv config jobs tr s) (event : QuarantineEvent)
    (hapart : StartsApart config jobs ((machine config jobs).entry s event))
    (hhonest : ∀ k c, event = .chunk k c → (jobs k).Sends c) :
    Inv config jobs (tr ++ [(machine config jobs).entry s event])
      ((machine config jobs).step s event).1 := by
  cases event with
  | start k =>
    cases hphase : s.tasks k with
    | idle => exact h.start hphase hapart
    | _ => exact h.disabled (by simp only [machine, Quarantine.step, hphase])
  | openNext k =>
    cases hphase : s.tasks k with
    | opening slots resume rest =>
      rcases h.tasks k with hidle | hended | ⟨before, plans, hstarted, hruns⟩
      · rw [hphase] at hidle
        cases hidle
      · rw [hphase] at hended
        cases hended
      · have hsteps := Phase.openNext_steps hstarted.2.1 hstarted.1 (hphase ▸ hruns)
        exact h.enabled (by simp only [machine, Quarantine.step, hphase, QuarantineEvent.task])
          hstarted hruns hsteps
    | _ => exact h.disabled (by simp only [machine, Quarantine.step, hphase])
  | chunk k c =>
    cases hphase : s.tasks k with
    | receiving r =>
      rcases h.tasks k with hidle | hended | ⟨before, plans, hstarted, hruns⟩
      · rw [hphase] at hidle
        cases hidle
      · rw [hphase] at hended
        cases hended
      · have hsteps := Phase.onChunk_steps hstarted.2.1 hstarted.1 (hhonest k c rfl)
          (hphase ▸ hruns)
        exact h.enabled (by simp only [machine, Quarantine.step, hphase, QuarantineEvent.task])
          hstarted hruns hsteps
    | _ => exact h.disabled (by simp only [machine, Quarantine.step, hphase])
  | fail k =>
    refine h.put (.inl rfl) (fun j _ path _ => rfl) ?_ ?_
    · intro j _ path hpath
      cases hpath
    · intro d hd
      cases hd

end Quarantine

/-- **When transfers that run side by side do not corrupt each other**: when each starts with
targets of its own. -/
theorem transfers_uncorrupted (config : ReceiverConfig) (jobs : ℕ → Job) (disk : Disk)
    (events : List QuarantineEvent) (hhonest : ∀ k c, .chunk k c ∈ events → (jobs k).Sends c)
    (hapart : ∀ e ∈ (Quarantine.machine config jobs).trace (.init disk) events,
      Quarantine.StartsApart config jobs e) :
    Quarantine.Uncorrupted config jobs
      ((Quarantine.machine config jobs).trace (.init disk) events) := by
  have hinv : Quarantine.Inv config jobs [] (.init disk) := ⟨fun k => .inl rfl, nofun, nofun⟩
  refine (Machine.induct (P := Quarantine.Inv config jobs) (G := fun e =>
    Quarantine.StartsApart config jobs e ∧ ∀ k c, e.input = .chunk k c → (jobs k).Sends c) _ hinv ?_
    events ?_).uncorrupted
  · intro tr s event h hgood
    exact h.next event hgood.1 hgood.2
  · intro e he
    refine ⟨hapart e he, ?_⟩
    rintro k c hinput
    obtain ⟨before, event, after, rfl, rfl⟩ := (Machine.mem_trace_iff _).1 he
    cases hinput
    exact hhonest k c (List.mem_append_right _ (.head _))

end

section

/-- The digest of `xy`. -/
def Hash.ofXy : Hash where
  bytes :=
    [0x76, 0x9a, 0x4e, 0x6d, 0x00, 0x03, 0x18, 0x9c, 0x7e, 0x96, 0xc5, 0xd9, 0xb7, 0xe8, 0x10, 0xa0,
     0xd1, 0x1c, 0x3a, 0x12, 0x83, 0x25, 0x27, 0xec, 0x94, 0xb0, 0xf8, 0x6d, 0x27, 0x7f, 0x51, 0xca]
  length_eq := rfl

@[reducible] def Sha256.abcXy : Sha256 :=
  .ofTable [([97, 98, 99], .ofAbc), ([120, 121], .ofXy)] .ofEmpty

attribute [local instance] Sha256.abcXy

/-- One file, with its digest. -/
def Job.single (name : String) (source : List UInt8) (h : source.length < 2 ^ 64) : Job where
  offer := ⟨7, [⟨name, .ofNat source.length, some (sha256 source).bytes⟩]⟩
  sources := [source]
  length_eq := rfl
  size_eq := by
    rintro (_ | i) entry source' ⟨⟩ ⟨⟩
    exact UInt64.toNat_ofNat_of_lt' h
  digest_eq := by
    rintro (_ | i) entry source' digest ⟨⟩ ⟨⟩ ⟨⟩
    rfl

/-- A task receives `abc`, and another `xy` under the given name. -/
def twoJobs (name : String) : ℕ → Job
  | 0 => .single "a.txt" [97, 98, 99] length_abc_lt
  | _ => .single name [120, 121] length_xy_lt

/-- The second transfer is all within the first. -/
def twoTransfers : List QuarantineEvent :=
  [.start 0, .start 1, .openNext 0, .openNext 1, .openNext 0, .openNext 1,
    .chunk 0 ⟨7, 0, 0, [97, 98]⟩, .chunk 1 ⟨7, 0, 0, [120, 121]⟩, .chunk 0 ⟨7, 0, 2, [99]⟩]

theorem twoTransfers_sends (name : String) :
    ∀ k c, .chunk k c ∈ twoTransfers → (twoJobs name k).Sends c := by
  intro k c hc
  simp only [twoTransfers, List.mem_cons, reduceCtorEq, QuarantineEvent.chunk.injEq,
    List.not_mem_nil, false_or, or_false] at hc
  obtain ⟨rfl, rfl⟩ | ⟨rfl, rfl⟩ | ⟨rfl, rfl⟩ := hc
  · exact ⟨rfl, by decide, _, rfl, by decide, by decide⟩
  · exact ⟨rfl, by decide, _, rfl, by decide, by decide⟩
  · exact ⟨rfl, by decide, _, rfl, by decide, by decide⟩

/-- Under another name, each transfer is as if it were alone. -/
theorem two_targets_uncorrupted :
    Quarantine.Uncorrupted quarantineConfig (twoJobs "b.txt")
      ((Quarantine.machine quarantineConfig (twoJobs "b.txt")).trace (.init emptyDisk)
        twoTransfers) := by
  refine transfers_uncorrupted _ _ _ _ (twoTransfers_sends "b.txt") ?_
  intro e he k plans hinput hidle hplans
  obtain ⟨before, event, after, hevents, rfl⟩ := (Machine.mem_trace_iff _).1 he
  cases hinput
  have hexisting : ∀ (job : Job) (disk : Disk), disk = emptyDisk → ∀ (i : ℕ)
      (plan : OsStr × Option Hash) (source : List UInt8), plans[i]? = some plan →
      job.sources[i]? = some source → (∀ digest, plan.2 = some digest →
        sha256 (resumed (disk.bytes plan.1) source) = digest) → disk.bytes plan.1 <+: source := by
    rintro job _ rfl i plan source - - -
    exact List.nil_prefix
  match before, hevents with
  | [], hevents =>
    cases hevents
    have hvalid : validateEntries quarantineConfig 0 (twoJobs "b.txt" 0).offer.files =
        .ok (.ok [(OsStr.new "/quarantine/a.txt", some .ofAbc)]) := by decide +kernel
    cases hvalid.symm.trans hplans
    refine ⟨⟨by simp, hexisting _ _ rfl⟩, ?_⟩
    intro j path _ hmem
    cases hmem
  | [_], hevents =>
    cases hevents
    have hvalid : validateEntries quarantineConfig 0 (twoJobs "b.txt" 1).offer.files =
        .ok (.ok [(OsStr.new "/quarantine/b.txt", some .ofXy)]) := by decide +kernel
    cases hvalid.symm.trans hplans
    refine ⟨⟨by simp, hexisting _ _ rfl⟩, ?_⟩
    intro j path hpath hmem
    cases List.mem_singleton.1 hpath
    by_cases hj : j = 0
    · subst hj
      revert hmem
      decide +kernel
    · rw [Machine.entry_pre, Machine.exec_cons, Machine.exec_nil,
        Quarantine.machine_tasks_of_ne (by exact hj)] at hmem
      cases hmem
  | _ :: _ :: before, hevents =>
    simp only [twoTransfers, List.cons_append, List.cons.injEq] at hevents
    have hmem := List.mem_append_right before (List.mem_cons_self (a := .start k) (l := after))
    rw [← hevents.2.2] at hmem
    simp at hmem

/-- Under the same name, the first transfer is reported as done with a file that is not its own. -/
theorem one_target_corrupted :
    (∀ k c, .chunk k c ∈ twoTransfers → (twoJobs "a.txt" k).Sends c) ∧
    ¬ Quarantine.Uncorrupted quarantineConfig (twoJobs "a.txt")
      ((Quarantine.machine quarantineConfig (twoJobs "a.txt")).trace (.init emptyDisk)
        twoTransfers) := by
  refine ⟨twoTransfers_sends "a.txt", ?_⟩
  intro h
  obtain ⟨o, -, -, -, hverdict⟩ := h _ ((Machine.mem_trace_iff _).2
    ⟨twoTransfers.dropLast, .chunk 0 ⟨7, 0, 2, [99]⟩, [], rfl, rfl⟩) ⟨7, true⟩ (by decide +kernel)
  obtain ⟨path, file, hpath, hfile, hsource⟩ := hverdict.1 rfl 0 _ _ rfl rfl
  have hresolve : resolveInQuarantine (OsStr.new "/quarantine") "a.txt" =
      .ok (.ok (OsStr.new "/quarantine/a.txt")) := by decide +kernel
  cases hresolve.symm.trans hpath
  have hdisk : ((Quarantine.machine quarantineConfig (twoJobs "a.txt")).exec (.init emptyDisk)
      twoTransfers).disk (OsStr.new "/quarantine/a.txt") = some ⟨[120, 121, 99], by decide⟩ := by
    decide +kernel
  cases hdisk.symm.trans hfile
  cases hsource

end

end Mouser
