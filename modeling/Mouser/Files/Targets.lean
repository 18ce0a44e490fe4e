import Mouser.Files.FsSink
import Mouser.Files.Hostile

/-!
# Where the files of an offer are written

An offer is checked entry by entry, so nothing keeps two entries from having one name. Their sinks
then write to one file. `own_targets_iff` says that the names are all there is to it: when they are
distinct, so are the paths, and a transfer that is reported as done has stored every file.
-/

namespace Mouser

theorem OsStr.new_injective : Function.Injective OsStr.new := by
  intro a b h
  have hbytes : a.toList.utf8Encode = b.toList.utf8Encode := congrArg List.toByteArray h
  rwa [String.utf8Encode_toList, String.utf8Encode_toList, String.toByteArray_inj] at hbytes

/-- A name that passes is returned as it is. -/
theorem sanitizeName_eq {name safe : String} (h : sanitizeName name = .ok (.ok safe)) :
    safe = name := by
  by_cases hearly : RejectedEarly name
  · obtain ⟨e, he, -⟩ := sanitizeName_of_rejectedEarly hearly
    rw [he] at h
    cases h
  · rw [sanitizeName_of_not_rejectedEarly hearly] at h
    split at h
    · cases h
    · cases h
    · cases h
      rfl

/-- The last component of a resolved path is the name. -/
theorem resolveInQuarantine_name {quarantine path : OsStr} {name : String}
    (h : resolveInQuarantine quarantine name = .ok (.ok path)) :
    stripPrefix path quarantine = some [.normal (OsStr.new name)] := by
  unfold resolveInQuarantine at h
  split at h
  · cases h
  · cases h
  · next safe hsafe =>
    cases sanitizeName_eq hsafe
    dsimp only at h
    split at h
    · next c hcomponents =>
      split at h
      · next hc =>
        cases h
        rw [hcomponents, hc]
      · cases h
    · cases h

/-- Two names are resolved to one path just when they are the same. -/
theorem resolveInQuarantine_inj {quarantine path path' : OsStr} {name name' : String}
    (h : resolveInQuarantine quarantine name = .ok (.ok path))
    (h' : resolveInQuarantine quarantine name' = .ok (.ok path')) :
    path = path' ↔ name = name' := by
  refine ⟨?_, ?_⟩
  · rintro rfl
    have hsame := (resolveInQuarantine_name h).symm.trans (resolveInQuarantine_name h')
    simp only [Option.some.injEq, List.cons.injEq, Component.normal.injEq, and_true] at hsame
    exact OsStr.new_injective hsame
  · rintro rfl
    rw [h] at h'
    cases h'
    rfl

/-- The paths of valid entries are distinct just when their names are. -/
theorem nodup_paths_iff {config : ReceiverConfig} {i : ℕ} {entries : List FileEntry}
    {plans : List (OsStr × Option Hash)} (h : validateEntries config i entries = .ok (.ok plans)) :
    (plans.map Prod.fst).Nodup ↔ (entries.map (·.name)).Nodup := by
  obtain ⟨hlength, hvalid⟩ := validateEntries_ok h
  have hresolve : ∀ k (hk : k < plans.length) (hk' : k < entries.length),
      resolveInQuarantine config.quarantine entries[k].name = .ok (.ok plans[k].1) := by
    intro k hk hk'
    exact (validateEntry_ok (hvalid k entries[k] plans[k] (List.getElem?_eq_getElem hk')
      (List.getElem?_eq_getElem hk))).1
  have hpair : ∀ j k (hj : j < plans.length) (hk : k < plans.length) (hj' : j < entries.length)
      (hk' : k < entries.length), plans[j].1 ≠ plans[k].1 ↔ entries[j].name ≠ entries[k].name :=
    fun j k hj hk hj' hk' =>
      not_congr (resolveInQuarantine_inj (hresolve j hj hj') (hresolve k hk hk'))
  rw [List.nodup_iff_pairwise_ne, List.nodup_iff_pairwise_ne, List.pairwise_map, List.pairwise_map,
    List.pairwise_iff_getElem, List.pairwise_iff_getElem]
  refine ⟨?_, ?_⟩
  · intro hdistinct j k hj hk hjk
    exact (hpair j k (by omega) (by omega) hj hk).1 (hdistinct j k (by omega) (by omega) hjk)
  · intro hdistinct j k hj hk hjk
    exact (hpair j k hj hk (by omega) (by omega)).2 (hdistinct j k (by omega) (by omega) hjk)

/-! ## The paths that are opened -/

section

variable {S W : Type}

/-- `make_sink`, with a record of the paths that are passed to it. -/
def recording (makeSink : W → ℕ → OsStr → W × Except SinkError S) (w : W × List OsStr) (i : ℕ)
    (path : OsStr) : (W × List OsStr) × Except SinkError S :=
  (((makeSink w.1 i path).1, w.2 ++ [path]), (makeSink w.1 i path).2)

variable [FileSink S]

/-- The paths that are recorded are those of the plans. -/
theorem openSinks_recording {makeSink : W → ℕ → OsStr → W × Except SinkError S} {i : ℕ}
    {w w' : W × List OsStr} {entries : List FileEntry} {plans : List (OsStr × Option Hash)}
    {slots : List (Slot S)} {resume : List ResumePoint}
    (h : openSinks (recording makeSink) i w entries plans = (w', .ok (.ok (slots, resume)))) :
    openSinks makeSink i w.1 entries plans = (w'.1, .ok (.ok (slots, resume))) ∧
      w'.2 = w.2 ++ plans.map Prod.fst := by
  induction plans generalizing i w entries slots resume with
  | nil =>
    simp only [openSinks] at h ⊢
    cases h
    exact ⟨rfl, (List.append_nil _).symm⟩
  | cons plan plans ih =>
    cases entries with
    | nil => cases h
    | cons entry entries =>
      obtain ⟨safePath, expected⟩ := plan
      rw [openSinks, recording] at h
      rw [openSinks]
      cases hmake : makeSink w.1 i safePath with
      | mk w₁ result =>
        rw [hmake] at h
        cases result with
        | error e => cases h
        | ok sink =>
          dsimp only at h ⊢
          split at h
          · cases h
          · next hsize =>
            split at h
            · cases h
            · next hindex =>
              rw [if_neg hsize, if_neg hindex]
              split at h
              · next w₂ rest points hrest =>
                cases h
                obtain ⟨hopen, hpaths⟩ := ih hrest
                rw [hopen]
                exact ⟨rfl, by rw [hpaths, List.append_assoc]; rfl⟩
              · next hnot hrest =>
                cases h
                exact absurd rfl (hnot _ _)

end

/-- Files that are opened under distinct paths are on the disk, and no other file is touched. -/
theorem openSinks_mirrored [Sha256] {i : ℕ} {disk disk' : Disk} {entries : List FileEntry}
    {plans : List (OsStr × Option Hash)} {slots : List (Slot FsSink)} {resume : List ResumePoint}
    (h : openSinks FsSink.openReceiveSink i disk entries plans = (disk', .ok (.ok (slots, resume))))
    (hdistinct : (plans.map Prod.fst).Nodup) :
    Mirrored (slots.map (·.sink)) disk' ∧
      slots.map (·.sink.path) = plans.map Prod.fst ∧
      ∀ path, path ∉ plans.map Prod.fst → disk' path = disk path := by
  induction plans generalizing i disk entries slots resume with
  | nil =>
    simp only [openSinks] at h
    cases h
    exact ⟨⟨by simp, by simp, .nil⟩, rfl, fun _ _ => rfl⟩
  | cons plan plans ih =>
    cases entries with
    | nil => cases h
    | cons entry entries =>
      obtain ⟨safePath, expected⟩ := plan
      rw [List.map_cons, List.nodup_cons] at hdistinct
      rw [openSinks, FsSink.openReceiveSink] at h
      dsimp only at h
      split at h
      · cases h
      · split at h
        · cases h
        · split at h
          · next w₂ rest points hrest =>
            cases h
            obtain ⟨hmirrored, hpaths, hother⟩ := ih hrest hdistinct.2
            have hfirst := hother safePath hdistinct.1
            rw [Function.update_self] at hfirst
            refine ⟨⟨?_, ?_, ?_⟩, by rw [List.map_cons, hpaths]; rfl, ?_⟩
            · exact List.forall_mem_cons.2 ⟨hfirst, hmirrored.onDisk⟩
            · exact List.forall_mem_cons.2 ⟨rfl, hmirrored.file_eq⟩
            · rw [List.map_cons, List.map_cons, List.nodup_cons, List.map_map]
              refine ⟨?_, by rw [← List.map_map]; exact hmirrored.distinct⟩
              intro hmem
              exact hdistinct.1 (hpaths ▸ hmem)
            · intro path hnot
              rw [List.map_cons, List.mem_cons, not_or] at hnot
              rw [hother path hnot.2, Function.update_of_ne hnot.1]
          · next hnot hrest =>
            cases h
            exact absurd rfl (hnot _ _)

/-! ## What is stored -/

section

variable [Sha256]

/-- A receiver and the disk its sinks write to, as a machine. -/
def Receiver.machineOn :
    Machine (Disk × Receiver FsSink) FileChunk (Except FileError (List Outbound)) where
  step s chunk :=
    let (disk, r, result) := Receiver.onChunkOn s.1 s.2 chunk
    ((disk, r), result)

/-- Every file is on the disk with what its sink has received, its size and its digest. -/
def Stored (offer : FileOffer) (config : ReceiverConfig) (paths : List OsStr)
    (s : Disk × Receiver FsSink) : Prop :=
  ∀ i entry path, offer.files[i]? = some entry → paths[i]? = some path →
    ∃ file, s.1 path = some file ∧ s.2.contents[i]? = some file.1 ∧
      file.1.length = entry.size.toNat ∧
      ∀ digest, Supplied config i entry digest → sha256 file.1 = digest

/-- No two files have one target, and a transfer that is reported as done has stored them all. -/
structure OwnTargets (offer : FileOffer) (config : ReceiverConfig) (paths : List OsStr)
    (disk : Disk) (r : Receiver FsSink) (rest : List Outbound) : Prop where
  distinct : paths.Nodup
  stored_at_once : ∀ done, Outbound.done done ∈ rest → done.ok = true →
    Stored offer config paths (disk, r)
  stored : ∀ chunks, ∀ e ∈ Receiver.machineOn.trace (disk, r) chunks,
    ∀ done, Outbound.done done ∈ sentBack e.output → done.ok = true →
      Stored offer config paths e.post

/-- What is kept of a receiver whose files have targets of their own. -/
structure Receiver.Placed (offer : FileOffer) (config : ReceiverConfig) (paths : List OsStr)
    (s : Disk × Receiver FsSink) : Prop where
  mirrored : Mirrored s.2.sinks s.1
  paths_eq : s.2.sinks.map FsSink.path = paths
  inv : s.2.Inv
  serves : s.2.Serves offer config

variable {offer : FileOffer} {config : ReceiverConfig} {paths : List OsStr}
  {s : Disk × Receiver FsSink}

theorem Receiver.Placed.step (h : Receiver.Placed offer config paths s) (chunk : FileChunk) :
    Receiver.Placed offer config paths (Receiver.machineOn.step s chunk).1 ∧
      (Receiver.machineOn.step s chunk).1.2 = (s.2.onChunk chunk).1 ∧
      (Receiver.machineOn.step s chunk).2 = (s.2.onChunk chunk).2 := by
  obtain ⟨disk', hstep, hmirrored, hpaths, -⟩ := Receiver.onChunkOn_mirrored h.mirrored chunk
  have hmachine : Receiver.machineOn.step s chunk =
      ((disk', (s.2.onChunk chunk).1), (s.2.onChunk chunk).2) := by
    simp only [Receiver.machineOn, hstep]
  rw [hmachine]
  exact ⟨⟨hmirrored, hpaths.trans h.paths_eq, h.inv.onChunk chunk, h.serves.onChunk chunk⟩,
    rfl, rfl⟩

/-- A transfer that has announced its success has stored every file. -/
theorem Receiver.Placed.stored (h : Receiver.Placed offer config paths s) {done : FileDone}
    (hdone : s.2.Announces done) (hok : done.ok = true) : Stored offer config paths s := by
  intro i entry path hentry hpath
  rw [← h.paths_eq, List.getElem?_map, Option.map_eq_some_iff] at hpath
  obtain ⟨sink, hsink, rfl⟩ := hpath
  have hmem := List.mem_of_getElem? hsink
  have hcontent : s.2.contents[i]? = some sink.file.1 := by
    rw [Receiver.sinks, List.getElem?_map, Option.map_eq_some_iff] at hsink
    obtain ⟨slot, hslot, rfl⟩ := hsink
    rw [Receiver.contents, List.getElem?_map, hslot, h.mirrored.file_eq slot.sink hmem]
    rfl
  exact ⟨sink.file, h.mirrored.onDisk sink hmem, hcontent,
    h.inv.delivered h.serves (hdone.2.1 hok) i entry _ hentry hcontent⟩

end

/-- **When every file of an offer has a target of its own**: when no two have one name. -/
theorem own_targets_iff [Sha256] (offer : FileOffer) (config : ReceiverConfig) (disk disk' : Disk)
    (paths : List OsStr) (r : Receiver FsSink) (m : FileAccept) (rest : List Outbound)
    (h : acceptOffer (recording FsSink.openReceiveSink) offer config (disk, []) =
      .ok ((disk', paths), .ok (r, .accept m :: rest))) :
    OwnTargets offer config paths disk' r rest ↔ (offer.files.map (·.name)).Nodup := by
  obtain ⟨plans, slots, done, haccepts⟩ := acceptOffer_accepts h
  obtain ⟨hopen, hpaths⟩ := openSinks_recording haccepts.opens
  rw [List.nil_append] at hpaths
  dsimp only at hpaths hopen
  subst hpaths
  rw [← nodup_paths_iff haccepts.plans_eq]
  refine ⟨OwnTargets.distinct, ?_⟩
  intro hdistinct
  obtain ⟨hmirrored, hpaths, -⟩ := openSinks_mirrored hopen hdistinct
  have hsinks : r.sinks = slots.map (·.sink) := by
    have hsame := Receiver.sinks_finalize (fun s : FsSink => rfl)
      (Receiver.opened offer config slots)
    rw [haccepts.finalize] at hsame
    exact hsame
  have hplaced : Receiver.Placed offer config (plans.map Prod.fst) (disk', r) := by
    refine ⟨hsinks ▸ hmirrored, ?_, haccepts.inv, haccepts.serves⟩
    rw [hsinks, List.map_map]
    exact hpaths
  refine ⟨hdistinct, ?_, ?_⟩
  · intro d hd hok
    rcases haccepts.announces with ⟨rfl, -⟩ | ⟨d', rfl, hannounces⟩
    · cases hd
    · cases List.mem_singleton.1 hd
      exact hplaced.stored hannounces hok
  · intro chunks e he d hd hok
    obtain ⟨js, chunk, ks, -, rfl⟩ := Receiver.machineOn.mem_trace_iff.1 he
    have hpre := Receiver.machineOn.inv_exec hplaced (fun s c hs => (hs.step c).1) js
    obtain ⟨hpost, hreceiver, houtput⟩ := hpre.step chunk
    rw [Machine.entry_output, houtput] at hd
    have hannounces := hpre.inv.announces_sent hd
    rw [← hreceiver] at hannounces
    exact hpost.stored hannounces hok

section

attribute [local instance] Sha256.abc

/-- The limits and the quarantine of the examples. -/
def quarantineConfig : ReceiverConfig := .new (OsStr.new "/quarantine")

/-- An empty disk. -/
def emptyDisk : Disk := fun _ => none

/-- A file `abc`, and another file of two bytes. -/
def offerOf (name name' : String) : FileOffer :=
  ⟨7, [⟨name, 3, some Hash.ofAbc.bytes⟩, ⟨name', 2, none⟩]⟩

/-- The sink of a file that has just been created. -/
def newSink (path : OsStr) : FsSink := ⟨path, ⟨[], length_nil_lt⟩, 0, [], rfl⟩

/-- The receiver of the two files. -/
def receiverOf (path path' : OsStr) : Receiver FsSink :=
  ⟨7, OsStr.new "/quarantine",
    [⟨3, 0, false, newSink path, some .ofAbc⟩, ⟨2, 0, false, newSink path', none⟩], false, false⟩

theorem two_names_own_targets :
    OwnTargets (offerOf "a.txt" "b.txt") quarantineConfig
        [OsStr.new "/quarantine/a.txt", OsStr.new "/quarantine/b.txt"]
        (Function.update (Function.update emptyDisk (OsStr.new "/quarantine/a.txt")
          (some ⟨[], length_nil_lt⟩)) (OsStr.new "/quarantine/b.txt") (some ⟨[], length_nil_lt⟩))
        (receiverOf (OsStr.new "/quarantine/a.txt") (OsStr.new "/quarantine/b.txt")) [] ↔
      ["a.txt", "b.txt"].Nodup := by
  have hplans : validateEntries quarantineConfig 0 (offerOf "a.txt" "b.txt").files =
      .ok (.ok [(OsStr.new "/quarantine/a.txt", some .ofAbc),
        (OsStr.new "/quarantine/b.txt", none)]) := by decide +kernel
  have hlimits : checkLimits (offerOf "a.txt" "b.txt") quarantineConfig = none := by decide +kernel
  refine own_targets_iff (offerOf "a.txt" "b.txt") quarantineConfig emptyDisk _ _ _ ⟨7, []⟩ [] ?_
  unfold acceptOffer
  rw [if_neg (by decide), hlimits]
  dsimp only
  rw [hplans]
  rfl

/-- The disk on which both files have been opened at one path. -/
def twiceOpened (path : OsStr) : Disk :=
  Function.update (Function.update emptyDisk path (some ⟨[], length_nil_lt⟩)) path
    (some ⟨[], length_nil_lt⟩)

/-- Two files of one name are accepted, and opened at one path. -/
theorem one_name_one_target :
    acceptOffer (recording FsSink.openReceiveSink) (offerOf "a.txt" "a.txt") quarantineConfig
        (emptyDisk, []) =
      .ok ((twiceOpened (OsStr.new "/quarantine/a.txt"),
          [OsStr.new "/quarantine/a.txt", OsStr.new "/quarantine/a.txt"]),
        .ok (receiverOf (OsStr.new "/quarantine/a.txt") (OsStr.new "/quarantine/a.txt"),
          [.accept ⟨7, []⟩])) ∧
    ¬ OwnTargets (offerOf "a.txt" "a.txt") quarantineConfig
        [OsStr.new "/quarantine/a.txt", OsStr.new "/quarantine/a.txt"]
        (twiceOpened (OsStr.new "/quarantine/a.txt"))
        (receiverOf (OsStr.new "/quarantine/a.txt") (OsStr.new "/quarantine/a.txt")) [] := by
  refine ⟨?_, ?_⟩
  · have hplans : validateEntries quarantineConfig 0 (offerOf "a.txt" "a.txt").files =
        .ok (.ok [(OsStr.new "/quarantine/a.txt", some .ofAbc),
          (OsStr.new "/quarantine/a.txt", none)]) := by decide +kernel
    have hlimits : checkLimits (offerOf "a.txt" "a.txt") quarantineConfig = none := by
      decide +kernel
    unfold acceptOffer
    rw [if_neg (by decide), hlimits]
    dsimp only
    rw [hplans]
    rfl
  · intro h
    have hdistinct := h.distinct
    rw [List.nodup_cons] at hdistinct
    exact hdistinct.1 (.head _)

/-- The second file is then written over the first, and the transfer is reported as done. -/
example :
    let path := OsStr.new "/quarantine/a.txt"
    let chunks : List FileChunk := [⟨7, 0, 0, [97, 98, 99]⟩, ⟨7, 1, 0, [120, 121]⟩]
    let s := Receiver.machineOn.exec (twiceOpened path, receiverOf path path) chunks
    s.2.isComplete = true ∧ s.1 path = some ⟨[120, 121, 99], by decide⟩ := by
  decide +kernel

end

end Mouser
