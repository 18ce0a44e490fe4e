import Mathlib.Data.Finset.Sort
import Mathlib.Logic.Function.Basic
import Mouser.Daemon.Store
import Mouser.Lib.Machine

/-!
# The trusted peers

`trusted-peers.txt` has one id a line. `trust_peer` reads it, and later writes the whole set back;
`reset_data` removes it. The serve task, the command loop and the CLI call them with no lock, so the
calls are interleaved by their file operations. `trust_linearized` is what holds of the runs in
which no call writes back a set that the file no longer has.
-/

namespace Mouser

/-- A line that is no id, with its number. -/
inductive DaemonStoreError where
  | invalidTrustedPeer (line : ℕ) (value : String)
deriving DecidableEq

/-- `str::lines`; a carriage return is left to `trim`. -/
def lines : List Char → List (List Char)
  | [] => []
  | c :: text =>
    if c = '\n' then [] :: lines text
    else
      match lines text with
      | [] => [[c]]
      | line :: rest => (c :: line) :: rest

section

variable [ToUppercase]

/-- The loop of `load_trusted_peers`, from line index `i` on. -/
def loadLines (i : ℕ) (peers : Finset DeviceId) :
    List (List Char) → Except DaemonStoreError (Finset DeviceId)
  | [] => .ok peers
  | line :: rest =>
    let trimmed := trim line
    if trimmed = [] ∨ trimmed.head? = some '#' then loadLines (i + 1) peers rest
    else
      match decodeDeviceId trimmed with
      | none => .error (.invalidTrustedPeer (i + 1) (String.ofList trimmed))
      | some id => loadLines (i + 1) (insert id peers) rest

/-- What the file holds; there may be none. -/
def loadTrustedPeers : Option String → Except DaemonStoreError (Finset DeviceId)
  | none => .ok ∅
  | some text => loadLines 0 ∅ (lines text.toList)

end

/-- What is written to the file. -/
def writeTrustedPeers (peers : Finset DeviceId) : String :=
  String.ofList (peers.sort.flatMap fun peer => (formatDeviceId peer).toList ++ ['\n'])

/-! ## Reading what was written -/

theorem lines_flatMap {ls : List (List Char)} (h : ∀ l ∈ ls, '\n' ∉ l) :
    lines (ls.flatMap fun l => l ++ ['\n']) = ls := by
  induction ls with
  | nil => rfl
  | cons l ls ih =>
    have hrest := ih fun l' hl' => h l' (.tail _ hl')
    have hline := h l (.head _)
    rw [List.flatMap_cons, List.append_assoc, List.singleton_append]
    clear h ih
    induction l with
    | nil => rw [List.nil_append, lines, if_pos rfl, hrest]
    | cons c l ih =>
      rw [List.mem_cons, not_or] at hline
      rw [List.cons_append, lines, if_neg (Ne.symm hline.1), ih hline.2]

section

variable [ToUppercase]

theorem loadLines_format (i : ℕ) (peers : Finset DeviceId) (ids : List DeviceId) :
    loadLines i peers (ids.map fun id => (formatDeviceId id).toList) =
      .ok (ids.toFinset ∪ peers) := by
  induction ids generalizing i peers with
  | nil => rw [List.map_nil, loadLines, List.toFinset_nil, Finset.empty_union]
  | cons id ids ih =>
    have hdecode := decodeDeviceId_format id
    rw [List.map_cons, loadLines, trim_formatDeviceId, if_neg, hdecode]
    · dsimp only
      rw [ih, List.toFinset_cons, Finset.union_insert, Finset.insert_union]
    · -- A line that is written is neither empty nor a comment.
      cases htext : (formatDeviceId id).toList with
      | nil =>
        rw [htext] at hdecode
        cases hdecode
      | cons c text =>
        have hmem : c ∈ "abcdefghijklmnopqrstuvwxyz234567".toList :=
          @mem_formatDeviceId id c (htext ▸ .head _)
        rintro (hempty | hcomment)
        · cases hempty
        · cases hcomment
          revert hmem
          decide

/-- **Reading gives back the set that was written.** -/
theorem load_write (peers : Finset DeviceId) :
    loadTrustedPeers (some (writeTrustedPeers peers)) = .ok peers := by
  have hlines : lines (writeTrustedPeers peers).toList =
      peers.sort.map fun id => (formatDeviceId id).toList := by
    have hnewline : '\n' ∉ "abcdefghijklmnopqrstuvwxyz234567".toList := by decide
    have hflat := @lines_flatMap (peers.sort.map fun id => (formatDeviceId id).toList) (by
      intro l hl
      obtain ⟨id, -, rfl⟩ := List.mem_map.1 hl
      exact fun hmem => hnewline (mem_formatDeviceId hmem))
    rw [List.flatMap_map] at hflat
    rw [writeTrustedPeers, String.toList_ofList]
    exact hflat
  rw [loadTrustedPeers, hlines, loadLines_format, Finset.sort_toFinset, Finset.union_empty]

end

/-! ## Calls side by side -/

inductive TrustCall where
  | trustPeer (id : DeviceId)
  | resetData
deriving DecidableEq

/-- What a call makes of the set when no other is beside it. -/
def TrustCall.apply (peers : Finset DeviceId) : TrustCall → Finset DeviceId
  | .trustPeer id => insert id peers
  | .resetData => ∅

/-- How far a call is. -/
inductive TrustPhase where
  | waiting
  /-- It has read the file. -/
  | held (peers : Finset DeviceId)
  | done
  | failed
deriving DecidableEq

/-- The file, and the calls that work on it. -/
structure TrustStore where
  file : Option String
  calls : ℕ → TrustPhase

section

variable [ToUppercase]

namespace TrustStore

def init (file : Option String) : TrustStore := ⟨file, fun _ => .waiting⟩

/-- The peers that `is_peer_trusted` accepts. -/
def trusted (s : TrustStore) : Finset DeviceId :=
  match loadTrustedPeers s.file with
  | .ok peers => peers
  | .error _ => ∅

def put (s : TrustStore) (k : ℕ) (file : Option String) (phase : TrustPhase) : TrustStore :=
  { file, calls := Function.update s.calls k phase }

/-- Call `k` makes its next file operation. The output says whether it has returned `Ok` with it. -/
def step (calls : ℕ → TrustCall) (s : TrustStore) (k : ℕ) : TrustStore × Bool :=
  match s.calls k, calls k with
  | .waiting, .trustPeer _ =>
    match loadTrustedPeers s.file with
    | .ok peers => (s.put k s.file (.held peers), false)
    | .error _ => (s.put k s.file .failed, false)
  | .held peers, .trustPeer id =>
    (s.put k (some (writeTrustedPeers (insert id peers))) .done, true)
  | .waiting, .resetData => (s.put k none .done, true)
  | _, _ => (s, false)

def machine (calls : ℕ → TrustCall) : Machine TrustStore ℕ Bool := ⟨step calls⟩

/-- The calls that have returned `Ok`, by their last file operations. -/
def completed (tr : List (Machine.Entry TrustStore ℕ Bool)) : List ℕ :=
  (tr.filter (·.output)).map (·.input)

/-- The calls give what they give one after the other, in the given order. -/
structure Linearized (calls : ℕ → TrustCall) (s₀ s : TrustStore) (order : List ℕ) : Prop where
  nodup : order.Nodup
  returned : ∀ k, k ∈ order ↔ s.calls k = .done
  result : s.trusted = order.foldl (fun peers k => (calls k).apply peers) s₀.trusted

/-- What a call writes back is what the file holds, with its peer. -/
def Fresh (calls : ℕ → TrustCall) (e : Machine.Entry TrustStore ℕ Bool) : Prop :=
  match e.pre.calls e.input, calls e.input with
  | .held peers, .trustPeer id => insert id peers = insert id e.pre.trusted
  | _, _ => True

variable {calls : ℕ → TrustCall}

instance (e : Machine.Entry TrustStore ℕ Bool) : Decidable (Fresh calls e) := by
  unfold Fresh
  split
  · infer_instance
  · infer_instance

theorem trusted_written (calls : ℕ → TrustPhase) (peers : Finset DeviceId) :
    trusted ⟨some (writeTrustedPeers peers), calls⟩ = peers := by
  rw [trusted, load_write]

omit [ToUppercase] in
theorem put_done_iff (s : TrustStore) {k : ℕ} (file : Option String) {phase : TrustPhase}
    (hphase : phase ≠ .done) (hk : s.calls k ≠ .done) (j : ℕ) :
    (s.put k file phase).calls j = .done ↔ s.calls j = .done := by
  by_cases hj : j = k
  · subst hj
    simp [put, hphase, hk]
  · simp [put, hj]

/-- **What one file operation does.** Either it leaves the file, and returns nothing, or it is the
last of its call. -/
theorem step_cases (calls : ℕ → TrustCall) (s : TrustStore) (k : ℕ) :
    (∃ s', step calls s k = (s', false) ∧ s'.file = s.file ∧
        ∀ j, s'.calls j = .done ↔ s.calls j = .done) ∨
      ∃ file, step calls s k = (s.put k file .done, true) ∧ s.calls k ≠ .done ∧
        (Fresh calls ((machine calls).entry s k) →
          (s.put k file .done).trusted = (calls k).apply s.trusted) := by
  cases hphase : s.calls k with
  | waiting =>
    have hk : s.calls k ≠ .done := by simp [hphase]
    cases hcall : calls k with
    | trustPeer id =>
      cases hload : loadTrustedPeers s.file with
      | ok peers =>
        exact .inl ⟨s.put k s.file (.held peers), by simp only [step, hphase, hcall, hload], rfl,
          put_done_iff s s.file nofun hk⟩
      | error e =>
        exact .inl ⟨s.put k s.file .failed, by simp only [step, hphase, hcall, hload], rfl,
          put_done_iff s s.file nofun hk⟩
    | resetData =>
      exact .inr ⟨none, by simp only [step, hphase, hcall], nofun, fun _ => rfl⟩
  | held peers =>
    have hk : s.calls k ≠ .done := by simp [hphase]
    cases hcall : calls k with
    | trustPeer id =>
      refine .inr ⟨some (writeTrustedPeers (insert id peers)), by
        simp only [step, hphase, hcall], nofun, ?_⟩
      intro hfresh
      simp only [Fresh, Machine.entry_pre, Machine.entry_input, hphase, hcall] at hfresh
      rw [put, trusted_written, hfresh, TrustCall.apply]
    | resetData => exact .inl ⟨s, by simp only [step, hphase, hcall], rfl, fun _ => .rfl⟩
  | done => exact .inl ⟨s, by simp only [step, hphase], rfl, fun _ => .rfl⟩
  | failed => exact .inl ⟨s, by simp only [step, hphase], rfl, fun _ => .rfl⟩

omit [ToUppercase] in
theorem completed_concat (tr : List (Machine.Entry TrustStore ℕ Bool))
    (e : Machine.Entry TrustStore ℕ Bool) :
    completed (tr ++ [e]) = completed tr ++ if e.output = true then [e.input] else [] := by
  cases hout : e.output <;> simp [completed, List.filter_append, hout]

/-- **When calls are as if they came one after the other**: when none writes back a set that the
file no longer has. They then come in the order of their last file operations. -/
theorem trust_linearized (calls : ℕ → TrustCall) :
    (∀ peers, loadTrustedPeers (some (writeTrustedPeers peers)) = .ok peers) ∧
      ∀ (file : Option String) (events : List ℕ),
        (∀ e ∈ (machine calls).trace (.init file) events, Fresh calls e) →
        Linearized calls (.init file) ((machine calls).exec (.init file) events)
          (completed ((machine calls).trace (.init file) events)) := by
  refine ⟨load_write, ?_⟩
  intro file events hfresh
  refine Machine.induct (P := fun tr s => Linearized calls (.init file) s (completed tr))
    (G := Fresh calls) _ ?_ ?_ events hfresh
  · exact ⟨.nil, fun k => ⟨nofun, nofun⟩, rfl⟩
  · intro tr s k h hfresh
    rcases step_cases calls s k with ⟨s', hstep, hfile, hdone⟩ | ⟨file', hstep, hk, hresult⟩
    · have hout : ((machine calls).entry s k).output = false := congrArg Prod.snd hstep
      have hpost : ((machine calls).step s k).1 = s' := congrArg Prod.fst hstep
      rw [hpost, completed_concat, hout, if_neg Bool.false_ne_true, List.append_nil]
      refine ⟨h.nodup, fun j => (h.returned j).trans (hdone j).symm, ?_⟩
      rw [← h.result, trusted, trusted, hfile]
    · have hout : ((machine calls).entry s k).output = true := congrArg Prod.snd hstep
      have hpost : ((machine calls).step s k).1 = s.put k file' .done := congrArg Prod.fst hstep
      have hnot : k ∉ completed tr := fun hmem => hk ((h.returned k).1 hmem)
      rw [hpost, completed_concat, hout, if_pos rfl, Machine.entry_input]
      refine ⟨?_, ?_, ?_⟩
      · rw [List.nodup_append]
        refine ⟨h.nodup, by simp, ?_⟩
        rintro j hj _ hlast rfl
        exact hnot (List.mem_singleton.1 hlast ▸ hj)
      · intro j
        rw [List.mem_append, List.mem_singleton, h.returned j]
        by_cases hj : j = k
        · subst hj
          simp [put]
        · simp [put, hj]
      · rw [hresult hfresh, h.result, List.foldl_append]
        rfl

end TrustStore

/-! ## What is trusted in the end -/

omit [ToUppercase] in
/-- Whoever was approved and not reset since is trusted, and nobody else. -/
theorem TrustCall.mem_foldl (calls : ℕ → TrustCall) (order : List ℕ) (peers : Finset DeviceId)
    (id : DeviceId) :
    id ∈ order.foldl (fun peers k => (calls k).apply peers) peers ↔
      (id ∈ peers ∧ ∀ k ∈ order, calls k ≠ .resetData) ∨
        ∃ before k after, order = before ++ k :: after ∧ calls k = .trustPeer id ∧
          ∀ j ∈ after, calls j ≠ .resetData := by
  induction order generalizing peers with
  | nil => simp
  | cons k order ih =>
    rw [List.foldl_cons, ih, List.forall_mem_cons]
    refine ⟨?_, ?_⟩
    · rintro (⟨hmem, hnone⟩ | ⟨before, j, after, rfl, hj, hnone⟩)
      · cases hcall : calls k with
        | resetData => simp [hcall, TrustCall.apply] at hmem
        | trustPeer id' =>
          rw [hcall, TrustCall.apply, Finset.mem_insert] at hmem
          rcases hmem with rfl | hmem
          · exact .inr ⟨[], k, order, rfl, hcall, hnone⟩
          · exact .inl ⟨hmem, nofun, hnone⟩
      · exact .inr ⟨k :: before, j, after, rfl, hj, hnone⟩
    · rintro (⟨hmem, hk, hnone⟩ | ⟨before, j, after, horder, hj, hnone⟩)
      · cases hcall : calls k with
        | resetData => exact absurd hcall hk
        | trustPeer id' => exact .inl ⟨Finset.mem_insert_of_mem hmem, hnone⟩
      · cases before with
        | nil =>
          cases horder
          refine .inl ⟨?_, hnone⟩
          rw [hj]
          exact Finset.mem_insert_self _ _
        | cons i before =>
          cases horder
          exact .inr ⟨before, j, after, rfl, hj, hnone⟩

end

section

/-- ASCII letters are mapped; other characters are kept. -/
@[reducible] def ToUppercase.asciiOnly : ToUppercase := ⟨fun c => [c.toUpper], fun _ _ => rfl⟩

attribute [local instance] ToUppercase.asciiOnly

/-- Two approvals, and a reset that comes between them. -/
def twoApprovals : ℕ → TrustCall
  | 0 => .trustPeer (.fill 1)
  | 1 => .resetData
  | _ => .trustPeer (.fill 2)

theorem twoApprovals_linearized :
    TrustStore.Linearized twoApprovals (.init none)
      ((TrustStore.machine twoApprovals).exec (.init none) [0, 0, 1, 2, 2])
      (TrustStore.completed
        ((TrustStore.machine twoApprovals).trace (.init none) [0, 0, 1, 2, 2])) :=
  (TrustStore.trust_linearized twoApprovals).2 none [0, 0, 1, 2, 2] (by decide)

/-- Two approvals that both read the file before either writes it: one is lost. -/
theorem approval_lost :
    ¬ ∃ order, TrustStore.Linearized twoApprovals (.init none)
      ((TrustStore.machine twoApprovals).exec (.init none) [0, 2, 0, 2]) order := by
  rintro ⟨order, h⟩
  have hresult := h.result
  rw [show ((TrustStore.machine twoApprovals).exec (.init none) [0, 2, 0, 2]).trusted =
    insert (.fill 2) ∅ from TrustStore.trusted_written _ _] at hresult
  have hreset : ∀ j ∈ order, twoApprovals j ≠ .resetData := by
    rintro j hj hcall
    match j with
    | 0 | _ + 2 => cases hcall
    | 1 => cases (h.returned 1).1 hj
  obtain ⟨before, after, rfl⟩ := List.append_of_mem ((h.returned 0).2 rfl)
  have happroved := (TrustCall.mem_foldl twoApprovals (before ++ 0 :: after) ∅ (.fill 1)).2
    (.inr ⟨before, 0, after, rfl, rfl, fun j hj =>
      hreset j (List.mem_append_right _ (.tail _ hj))⟩)
  rw [TrustStore.init, TrustStore.trusted, loadTrustedPeers] at hresult
  rw [← hresult] at happroved
  revert happroved
  decide

end

end Mouser
