import Mathlib.Logic.Function.Basic
import Mouser.Daemon.Store
import Mouser.Lib.Machine
import Mouser.Lib.Utf8

/-!
# The identity of a machine

The daemon's seed is kept in a file. `load_or_create_identity` reads it; the first launch creates it
with `create_new` and writes the seed as base32 text. Two processes may be launched for the first
time at once, each call may be cut off anywhere, and a write may reach the file in pieces.

`IdentityStore.machine` is the file and any number of calls, and a run is any interleaving of their
operations. `identities_agree` says which identities the calls return: that of the call that has
created the file, or what a call makes of a file of just 32 bytes, which it takes for a seed that is
not encoded.
-/

namespace Mouser

structure IdentitySeed where
  bytes : List UInt8
  length_eq : bytes.length = 32

inductive StorePath where
  | dir
  | identitySeed
deriving DecidableEq

inductive IdentityError where
  | io (op : String) (path : StorePath) (source : String)
  | invalidIdentitySeed
deriving DecidableEq

/-- The text of the error, for how the paths are displayed. -/
def IdentityError.display (quote : StorePath → String) : IdentityError → String
  | .io op path source => op ++ " " ++ quote path ++ ": " ++ source
  | .invalidIdentitySeed =>
    "identity seed at " ++ quote .identitySeed ++ " is not a valid 32-byte Ed25519 seed"

/-- `BASE32_NOPAD.encode(seed).to_lowercase()` -/
def seedDigits (seed : IdentitySeed) : List Char :=
  ((seed.bytes.flatMap byteBits).toChunks 5).map base32Digit

/-- What the seed is written as. -/
def seedFile (seed : IdentitySeed) : List UInt8 := Utf8.encode (seedDigits seed ++ ['\n'])

variable [ToUppercase]

def decodeIdentitySeed (bytes : List UInt8) : Except IdentityError IdentitySeed :=
  if h : bytes.length = 32 then .ok ⟨bytes, h⟩
  else
    match Utf8.decode bytes with
    | none => .error .invalidIdentitySeed
    | some text =>
      match base32Decode ((trim text).flatMap toUppercase) with
      | none => .error .invalidIdentitySeed
      | some decoded =>
        if h : decoded.length = 32 then .ok ⟨decoded, h⟩ else .error .invalidIdentitySeed

/-! ## A part of the file -/

omit [ToUppercase] in
theorem mem_seedDigits {seed : IdentitySeed} {c : Char} (h : c ∈ seedDigits seed) :
    c ∈ "abcdefghijklmnopqrstuvwxyz234567".toList := by
  obtain ⟨bits, -, rfl⟩ := List.mem_map.1 h
  exact base32Digit_mem bits

omit [ToUppercase] in
theorem length_byteBits (b : UInt8) : (byteBits b).length = 8 := by
  rw [byteBits, List.length_map, List.length_range]

omit [ToUppercase] in
theorem length_seedDigits (seed : IdentitySeed) : (seedDigits seed).length = 52 := by
  have hbits : (seed.bytes.flatMap byteBits).length = 256 := by
    rw [List.length_flatMap, List.map_congr_left fun b _ => length_byteBits b, List.map_const',
      List.sum_replicate_nat, seed.length_eq]
  rw [seedDigits, List.length_map, List.length_toChunks (by decide), hbits]

/-- Text of the alphabet is read as it is, in either case. -/
theorem flatMap_toUppercase_alphabet {text : List Char}
    (h : ∀ c ∈ text, c ∈ "abcdefghijklmnopqrstuvwxyz234567".toList) :
    text.flatMap toUppercase = text.map Char.toUpper := by
  have hascii : "abcdefghijklmnopqrstuvwxyz234567".toList.all (·.toNat < 128) = true := by decide
  induction text with
  | nil => rfl
  | cons c text ih =>
    rw [List.forall_mem_cons] at h
    have hc : c.toNat < 128 := of_decide_eq_true (List.all_eq_true.1 hascii c h.1)
    rw [List.flatMap_cons, ToUppercase.ascii c hc, ih h.2, List.map_cons, List.singleton_append]

omit [ToUppercase] in
theorem isWhitespace_alphabet {c : Char} (h : c ∈ "abcdefghijklmnopqrstuvwxyz234567".toList) :
    isWhitespace c = false := by
  have halphabet : "abcdefghijklmnopqrstuvwxyz234567".toList.all (!isWhitespace ·) = true := by
    decide
  have hc := List.all_eq_true.1 halphabet c h
  rwa [Bool.not_eq_true'] at hc

omit [ToUppercase] in
theorem trim_alphabet {text : List Char}
    (h : ∀ c ∈ text, c ∈ "abcdefghijklmnopqrstuvwxyz234567".toList) : trim text = text :=
  trim_eq_self fun c hc => isWhitespace_alphabet (h c hc)

omit [ToUppercase] in
theorem length_takeBytes_le (bits : List Bool) : 8 * (takeBytes bits).1.length ≤ bits.length := by
  induction bits using takeBytes.induct with
  | case1 a b c d e f g h bits bytes rest hrest ih =>
    rw [takeBytes, hrest]
    rw [hrest] at ih
    simp only [List.length_cons] at ih ⊢
    omega
  | case2 bits hshort =>
    rw [takeBytes]
    · exact Nat.zero_le _
    · exact hshort

omit [ToUppercase] in
theorem length_flatten_bits {text : List Char} {groups : List (List Bool)}
    (h : text.mapM base32Bits = some groups) : groups.flatten.length = 5 * text.length := by
  induction text generalizing groups with
  | nil =>
    cases h
    rfl
  | cons c text ih =>
    rw [List.mapM_cons] at h
    obtain ⟨group, hgroup, h⟩ := Option.bind_eq_some_iff.1 h
    obtain ⟨rest, hrest, h⟩ := Option.bind_eq_some_iff.1 h
    cases h
    obtain ⟨i, -, rfl⟩ := Option.map_eq_some_iff.1 hgroup
    rw [List.flatten_cons, List.length_append, ih hrest, List.length_map, List.length_range,
      List.length_cons]
    omega

omit [ToUppercase] in
/-- Five bits a digit. -/
theorem length_base32Decode_le {text : List Char} {bytes : List UInt8}
    (h : base32Decode text = some bytes) : 8 * bytes.length ≤ 5 * text.length := by
  unfold base32Decode at h
  split at h
  · cases h
  · next groups hgroups =>
    dsimp only at h
    split at h
    · cases h
      rw [← length_flatten_bits hgroups]
      exact length_takeBytes_le _
    · cases h

omit [ToUppercase] in
theorem take_encode_of_ascii {text : List Char} (h : ∀ c ∈ text, c.toNat < 0x80) (n : ℕ) :
    (Utf8.encode text).take n = Utf8.encode (text.take n) := by
  induction text generalizing n with
  | nil => simp
  | cons c text ih =>
    rw [List.forall_mem_cons] at h
    cases n with
    | zero => rfl
    | succ n =>
      rw [Utf8.encode_cons, Utf8.utf8EncodeChar_ascii h.1, List.singleton_append,
        List.take_succ_cons, ih h.2, List.take_succ_cons, Utf8.encode_cons,
        Utf8.utf8EncodeChar_ascii h.1, List.singleton_append]

omit [ToUppercase] in
/-- A part of the file is a part of its text. -/
theorem prefix_seedFile {seed : IdentitySeed} {part : List UInt8} (h : part <+: seedFile seed) :
    part = Utf8.encode ((seedDigits seed ++ ['\n']).take part.length) := by
  have hascii : "abcdefghijklmnopqrstuvwxyz234567".toList.all (·.toNat < 0x80) = true := by decide
  have hfile : ∀ c ∈ seedDigits seed ++ ['\n'], c.toNat < 0x80 := by
    intro c hc
    rcases List.mem_append.1 hc with hc | hc
    · exact of_decide_eq_true (List.all_eq_true.1 hascii c (mem_seedDigits hc))
    · rw [List.mem_singleton.1 hc]
      decide
  rw [← take_encode_of_ascii hfile]
  exact List.prefix_iff_eq_take.1 h

omit [ToUppercase] in
theorem trim_seedDigits (seed : IdentitySeed) {rest : List Char} (h : rest <+: ['\n']) :
    trim (seedDigits seed ++ rest) = seedDigits seed := by
  have hlength := length_seedDigits seed
  have hdigits : trim (seedDigits seed) = seedDigits seed := trim_alphabet fun c => mem_seedDigits
  have hmem : ∀ c ∈ seedDigits seed, isWhitespace c = false := fun c hc =>
    isWhitespace_alphabet (mem_seedDigits hc)
  rcases List.prefix_cons_iff.1 h with rfl | ⟨after, rfl, hafter⟩
  · rw [List.append_nil, hdigits]
  · rw [List.prefix_nil.1 hafter]
    generalize seedDigits seed = text at hlength hdigits hmem ⊢
    cases text with
    | nil => cases hlength
    | cons c text =>
      have hc : ¬ isWhitespace c = true := by
        rw [hmem c (.head _)]
        decide
      rw [trim, List.cons_append, List.dropWhile_cons_of_neg hc, ← List.cons_append,
        List.rdropWhile_concat_pos _ _ _ (by decide)]
      rwa [trim, List.dropWhile_cons_of_neg hc] at hdigits

theorem decode_seedDigits (seed : IdentitySeed) :
    base32Decode ((seedDigits seed).flatMap toUppercase) = some seed.bytes := by
  obtain ⟨groups, pad, hgroups, hflatten, hpad⟩ := mapM_digits (seed.bytes.flatMap byteBits)
  rw [seedDigits, base32Decode, hgroups]
  dsimp only
  rw [hflatten, takeBytes_flatMap _ (by rw [List.length_replicate]; omega)]
  simp [hpad]

/-- **What a part of the file is taken for.** When it is taken for a seed, then for the one that is
written there, or it has 32 bytes and is taken for a seed that is not encoded. -/
theorem decodeIdentitySeed_prefix {seed id : IdentitySeed} {part : List UInt8}
    (h : part <+: seedFile seed) (hdecode : decodeIdentitySeed part = .ok id) :
    id = seed ∨ part.length = 32 ∧ id.bytes = part := by
  unfold decodeIdentitySeed at hdecode
  split at hdecode
  · next hraw =>
    cases hdecode
    exact .inr ⟨hraw, rfl⟩
  · left
    have hpart := prefix_seedFile h
    generalize part.length = n at hpart
    rw [hpart, Utf8.decode_encode] at hdecode
    dsimp only at hdecode
    split at hdecode
    · cases hdecode
    · next decoded hdecoded =>
      split at hdecode
      · next hlength =>
        cases hdecode
        rcases Nat.lt_or_ge n 52 with hshort | hall
        · exfalso
          have htake : (seedDigits seed ++ ['\n']).take n = (seedDigits seed).take n :=
            List.take_append_of_le_length (by rw [length_seedDigits]; omega)
          have hmem : ∀ c ∈ (seedDigits seed).take n,
              c ∈ "abcdefghijklmnopqrstuvwxyz234567".toList := fun c hc =>
            mem_seedDigits (List.mem_of_mem_take hc)
          rw [htake, trim_alphabet hmem, flatMap_toUppercase_alphabet hmem] at hdecoded
          have hle := length_base32Decode_le hdecoded
          rw [List.length_map, List.length_take] at hle
          omega
        · have htake : (seedDigits seed ++ ['\n']).take n =
              seedDigits seed ++ ['\n'].take (n - 52) := by
            rw [List.take_append, List.take_of_length_le (by rw [length_seedDigits]; exact hall),
              length_seedDigits]
          rw [htake, trim_seedDigits seed (List.take_prefix _ _), decode_seedDigits] at hdecoded
          cases hdecoded
          rfl
      · cases hdecode

/-! ## The calls -/

/-- Where a call of `load_or_create_identity` stands. -/
inductive IdentityCall where
  /-- Before `ensure_dir`. -/
  | begun
  | reading
  /-- There is no file, and a seed is drawn. -/
  | creating
  /-- Another call has created the file. -/
  | rereading
  /-- In `write_all`, with what is not written yet. -/
  | writing (seed : IdentitySeed) (rest : List UInt8)
  /-- The access rights are set. -/
  | securing (seed : IdentitySeed)
  | returned (result : Except IdentityError IdentitySeed)
  | crashed

/-- How the operation of a call ends that is under way. -/
inductive IdentityInput where
  | done
  /-- The seed that has been drawn, and `create_new`. -/
  | drawn (seed : IdentitySeed)
  /-- That many bytes are written. -/
  | wrote (n : ℕ)
  | failed (source : String)
  | crash

namespace IdentityCall

/-- One operation of a call, on the content of the file. -/
def step (file : Option (List UInt8)) :
    IdentityCall → IdentityInput → Option (List UInt8) × IdentityCall
  | .returned result, _ => (file, .returned result)
  | _, .crash => (file, .crashed)
  | .begun, .done => (file, .reading)
  | .begun, .failed e => (file, .returned (.error (.io "create directory" .dir e)))
  | .reading, .done =>
    match file with
    | none => (file, .creating)
    | some bytes => (file, .returned (decodeIdentitySeed bytes))
  | .rereading, .done =>
    match file with
    | none => (file, .rereading)
    | some bytes => (file, .returned (decodeIdentitySeed bytes))
  | .reading, .failed e | .rereading, .failed e =>
    (file, .returned (.error (.io "read" .identitySeed e)))
  | .creating, .drawn seed =>
    match file with
    | none => (some [], .writing seed (seedFile seed))
    | some _ => (file, .rereading)
  | .creating, .failed e => (file, .returned (.error (.io "create" .identitySeed e)))
  | .writing seed rest, .wrote n =>
    if n = 0 then
      (file, .returned (.error (.io "write" .identitySeed "failed to write whole buffer")))
    else if rest.drop n = [] then (file.map (· ++ rest.take n), .securing seed)
    else (file.map (· ++ rest.take n), .writing seed (rest.drop n))
  | .writing _ _, .failed e => (file, .returned (.error (.io "write" .identitySeed e)))
  | .securing seed, .done => (file, .returned (.ok seed))
  | .securing _, .failed e => (file, .returned (.error (.io "chmod" .identitySeed e)))
  | call, _ => (file, call)

/-- The call has created the file, and is not done. -/
def Creates : IdentityCall → Prop
  | .writing _ _ | .securing _ => True
  | _ => False

/-- The call has brought back an identity. -/
def Has (call : IdentityCall) (id : IdentitySeed) : Prop := call = .returned (.ok id)

end IdentityCall

namespace IdentityCall

/-- What an operation of a call can do. -/
inductive Goes (file : Option (List UInt8)) (call : IdentityCall) :
    Option (List UInt8) × IdentityCall → Prop where
  | stays : Goes file call (file, call)
  | plain {call' : IdentityCall} (hcreates : ¬ call'.Creates) (hhas : ∀ id, ¬ call'.Has id) :
    Goes file call (file, call')
  | reads {bytes : List UInt8} (hfile : file = some bytes) :
    Goes file call (file, .returned (decodeIdentitySeed bytes))
  | creates {seed : IdentitySeed} (hfile : file = none) :
    Goes file call (some [], .writing seed (seedFile seed))
  | writes {seed : IdentitySeed} {rest : List UInt8} {n : ℕ} {call' : IdentityCall}
    (hcall : call = .writing seed rest)
    (hcall' : call' = .writing seed (rest.drop n) ∨ call' = .securing seed) :
    Goes file call (file.map (· ++ rest.take n), call')
  | secures {seed : IdentitySeed} (hcall : call = .securing seed) :
    Goes file call (file, .returned (.ok seed))

theorem goes_step (file : Option (List UInt8)) (call : IdentityCall) (input : IdentityInput) :
    call.Goes file (call.step file input) := by
  unfold step
  split
  · exact .stays
  · exact .plain id nofun
  · exact .plain id nofun
  · exact .plain id nofun
  · split
    · exact .plain id nofun
    · exact .reads rfl
  · split
    · exact .stays
    · exact .reads rfl
  · exact .plain id nofun
  · exact .plain id nofun
  · split
    · exact .creates rfl
    · exact .plain id nofun
  · exact .plain id nofun
  · split
    · exact .plain id nofun
    · split
      · exact .writes rfl (.inr rfl)
      · exact .writes rfl (.inl rfl)
  · exact .plain id nofun
  · exact .secures rfl
  · exact .plain id nofun
  · exact .stays

end IdentityCall

/-- The file, and the calls. -/
structure IdentityStore (ι : Type) where
  file : Option (List UInt8)
  call : ι → IdentityCall

namespace IdentityStore

variable {ι : Type} [DecidableEq ι]

/-- The directory as it is at first, and the calls before they begin. -/
def init (file : Option (List UInt8)) : IdentityStore ι := ⟨file, fun _ => .begun⟩

def step (s : IdentityStore ι) (input : ι × IdentityInput) : IdentityStore ι :=
  let (file, call) := (s.call input.1).step s.file input.2
  ⟨file, Function.update s.call input.1 call⟩

def machine : Machine (IdentityStore ι) (ι × IdentityInput) Unit :=
  ⟨fun s input => (s.step input, ())⟩

/-- The steps of a run. -/
abbrev Entry (ι : Type) := Machine.Entry (IdentityStore ι) (ι × IdentityInput) Unit

variable {s : IdentityStore ι} {creator : ι} {seed : IdentitySeed} {written : List UInt8}

theorem call_step_self (s : IdentityStore ι) (i : ι) (input : IdentityInput) :
    (s.step (i, input)).call i = ((s.call i).step s.file input).2 := Function.update_self ..

theorem call_step_of_ne {i j : ι} (h : j ≠ i) (s : IdentityStore ι) (input : IdentityInput) :
    (s.step (i, input)).call j = s.call j := Function.update_of_ne h ..

/-- The file is that of the call `creator`, which has written a part of the seed or all of it. -/
structure CreatedBy (s : IdentityStore ι) (creator : ι) (seed : IdentitySeed)
    (written : List UInt8) : Prop where
  file_eq : s.file = some written
  part : written <+: seedFile seed
  others : ∀ i ≠ creator, ¬ (s.call i).Creates
  writing : ∀ seed' rest, s.call creator = .writing seed' rest →
    seed' = seed ∧ written ++ rest = seedFile seed
  securing : ∀ seed', s.call creator = .securing seed' → seed' = seed

/-- The file is not there, and no call has an identity. -/
structure Untouched (s : IdentityStore ι) : Prop where
  file_eq : s.file = none
  creates : ∀ i, ¬ (s.call i).Creates
  has : ∀ i id, ¬ (s.call i).Has id

/-- The call has taken 32 bytes of the file for a seed. -/
def TakenRaw (tr : List (Entry ι)) (i : ι) (seed id : IdentitySeed) : Prop :=
  ∃ e ∈ tr, e.input.1 = i ∧ e.pre.file = some id.bytes ∧ id.bytes <+: seedFile seed

omit [ToUppercase] [DecidableEq ι] in
theorem TakenRaw.concat {tr : List (Entry ι)} {i : ι} {seed id : IdentitySeed}
    (h : TakenRaw tr i seed id) (e : Entry ι) : TakenRaw (tr ++ [e]) i seed id := by
  obtain ⟨e', he', htaken⟩ := h
  exact ⟨e', List.mem_append_left _ he', htaken⟩

/-- Every identity is that of the file's creator, or has been taken raw. -/
def Agrees (tr : List (Entry ι)) (s : IdentityStore ι) (seed : IdentitySeed) : Prop :=
  ∀ i id, (s.call i).Has id → id = seed ∨ TakenRaw tr i seed id

omit [ToUppercase] [DecidableEq ι] in
theorem CreatedBy.creator_eq (h : s.CreatedBy creator seed written) {i : ι}
    (hi : (s.call i).Creates) : i = creator := by
  by_contra hne
  exact h.others i hne hi

/-- The calls that are not the creator's do not write, whatever an operation does. -/
theorem CreatedBy.others_step (h : s.CreatedBy creator seed written) {i : ι} {input : IdentityInput}
    (hcall : i ≠ creator → ¬ ((s.step (i, input)).call i).Creates) :
    ∀ j ≠ creator, ¬ ((s.step (i, input)).call j).Creates := by
  intro j hj
  by_cases hij : j = i
  · subst hij
    exact hcall hj
  · rw [call_step_of_ne hij]
    exact h.others j hj

/-- An operation that leaves the file alone, and of the creator's call does not make a writer. -/
theorem CreatedBy.keep (h : s.CreatedBy creator seed written) {i : ι} {input : IdentityInput}
    (hfile : (s.step (i, input)).file = s.file)
    (hcall : ¬ ((s.step (i, input)).call i).Creates ∨ (s.step (i, input)).call i = s.call i) :
    (s.step (i, input)).CreatedBy creator seed written := by
  have hcreator : (s.step (i, input)).call creator = s.call creator ∨
      ¬ ((s.step (i, input)).call creator).Creates := by
    by_cases hij : creator = i
    · subst hij
      exact hcall.symm
    · exact .inl (call_step_of_ne hij s input)
  refine ⟨hfile.trans h.file_eq, h.part, h.others_step ?_, ?_, ?_⟩
  · intro hi
    rcases hcall with hcall | hcall
    · exact hcall
    · rw [hcall]
      exact h.others i hi
  · intro seed' rest hwriting
    rcases hcreator with hsame | hnot
    · exact h.writing seed' rest (hsame.symm.trans hwriting)
    · rw [hwriting] at hnot
      exact absurd trivial hnot
  · intro seed' hsecuring
    rcases hcreator with hsame | hnot
    · exact h.securing seed' (hsame.symm.trans hsecuring)
    · rw [hsecuring] at hnot
      exact absurd trivial hnot

/-- **The step of a file that is there**: it stays its creator's. -/
theorem CreatedBy.step (h : s.CreatedBy creator seed written) (i : ι) (input : IdentityInput) :
    ∃ written', (s.step (i, input)).CreatedBy creator seed written' := by
  have hgoes := (s.call i).goes_step s.file input
  have hfile : (s.step (i, input)).file = ((s.call i).step s.file input).1 := rfl
  have hcall := call_step_self s i input
  generalize (s.call i).step s.file input = result at hgoes hfile hcall
  cases hgoes with
  | stays => exact ⟨written, h.keep hfile (.inr hcall)⟩
  | plain hcreates => exact ⟨written, h.keep hfile (.inl (hcall ▸ hcreates))⟩
  | reads => exact ⟨written, h.keep hfile (.inl (hcall ▸ id))⟩
  | secures => exact ⟨written, h.keep hfile (.inl (hcall ▸ id))⟩
  | creates hnone =>
    rw [h.file_eq] at hnone
    cases hnone
  | @writes seed' rest n call' hwriting hcall' =>
    obtain rfl : i = creator := h.creator_eq (by rw [hwriting]; trivial)
    obtain ⟨rfl, hrest⟩ := h.writing seed' rest hwriting
    rw [h.file_eq] at hfile
    refine ⟨written ++ rest.take n, hfile, ?_, h.others_step fun hne => absurd rfl hne, ?_, ?_⟩
    · rw [← hrest]
      exact (List.prefix_append_right_inj _).2 (List.take_prefix _ _)
    · intro seed'' rest' hwriting'
      rw [hcall] at hwriting'
      rcases hcall' with rfl | rfl
      · cases hwriting'
        rw [List.append_assoc, List.take_append_drop]
        exact ⟨rfl, hrest⟩
      · cases hwriting'
    · intro seed'' hsecuring
      rw [hcall] at hsecuring
      rcases hcall' with rfl | rfl
      · cases hsecuring
      · cases hsecuring
        rfl

/-- The step before there is a file. -/
theorem Untouched.step (h : s.Untouched) (i : ι) (input : IdentityInput) :
    (s.step (i, input)).Untouched ∨
      (∃ seed, (s.step (i, input)).CreatedBy i seed []) ∧
        ∀ j id, ¬ ((s.step (i, input)).call j).Has id := by
  have hgoes := (s.call i).goes_step s.file input
  have hfile : (s.step (i, input)).file = ((s.call i).step s.file input).1 := rfl
  have hcall := call_step_self s i input
  generalize (s.call i).step s.file input = result at hgoes hfile hcall
  have hkeep : ∀ call', (s.step (i, input)).call i = call' → ¬ call'.Creates →
      (∀ id, ¬ call'.Has id) → (s.step (i, input)).file = s.file →
      (s.step (i, input)).Untouched := by
    rintro _ rfl hcreates hhas hfile
    refine ⟨hfile.trans h.file_eq, fun j => ?_, fun j => ?_⟩
    · by_cases hij : j = i
      · exact hij ▸ hcreates
      · rw [call_step_of_ne hij]
        exact h.creates j
    · by_cases hij : j = i
      · exact hij ▸ hhas
      · rw [call_step_of_ne hij]
        exact h.has j
  cases hgoes with
  | stays => exact .inl (hkeep _ hcall (h.creates i) (h.has i) hfile)
  | plain hcreates hhas => exact .inl (hkeep _ hcall hcreates hhas hfile)
  | reads hsome =>
    rw [h.file_eq] at hsome
    cases hsome
  | @creates seed =>
    refine .inr ⟨⟨seed, hfile, List.nil_prefix, ?_, ?_, ?_⟩, ?_⟩
    · intro j hj
      rw [call_step_of_ne hj]
      exact h.creates j
    · intro seed' rest hwriting
      rw [hcall] at hwriting
      cases hwriting
      exact ⟨rfl, rfl⟩
    · intro seed' hsecuring
      rw [hcall] at hsecuring
      cases hsecuring
    · intro j id hhas
      by_cases hij : j = i
      · subst hij
        rw [hcall] at hhas
        cases hhas
      · rw [call_step_of_ne hij] at hhas
        exact h.has j id hhas
  | writes hwriting => exact absurd (hwriting ▸ trivial) (h.creates i)
  | secures hsecuring => exact absurd (hsecuring ▸ trivial) (h.creates i)

/-- What a call makes of the file is its creator's identity, or taken raw. -/
theorem Agrees.step {tr : List (Entry ι)} (hagrees : Agrees tr s seed)
    (h : s.CreatedBy creator seed written) (i : ι) (input : IdentityInput) :
    Agrees (tr ++ [machine.entry s (i, input)]) (s.step (i, input)) seed := by
  intro j id hhas
  have hold : (s.call j).Has id →
      id = seed ∨ TakenRaw (tr ++ [machine.entry s (i, input)]) j seed id := fun hj =>
    (hagrees j id hj).imp_right fun htaken => htaken.concat _
  by_cases hij : j = i
  · subst hij
    have hgoes := (s.call j).goes_step s.file input
    have hcall := call_step_self s j input
    rw [hcall] at hhas
    generalize (s.call j).step s.file input = result at hgoes hhas
    cases hgoes with
    | stays => exact hold hhas
    | plain _ hnot => exact absurd hhas (hnot id)
    | @reads bytes hfile =>
      rw [h.file_eq] at hfile
      cases hfile
      have hdecode : decodeIdentitySeed written = .ok id := IdentityCall.returned.inj hhas
      rcases decodeIdentitySeed_prefix h.part hdecode with rfl | ⟨-, hraw⟩
      · exact .inl rfl
      · refine .inr ⟨_, List.mem_append_right _ (.head _), rfl, ?_, hraw ▸ h.part⟩
        rw [Machine.entry_pre, h.file_eq, hraw]
    | creates hnone =>
      rw [h.file_eq] at hnone
      cases hnone
    | writes _ hcall' =>
      rcases hcall' with rfl | rfl
      · cases hhas
      · cases hhas
    | secures hsecuring =>
      cases hhas
      obtain rfl : j = creator := h.creator_eq (by rw [hsecuring]; trivial)
      exact .inl (h.securing _ hsecuring)
  · rw [call_step_of_ne hij] at hhas
    exact hold hhas

/-- **The step of the store.** -/
theorem Agrees.step_of_untouched {tr : List (Entry ι)} (h : s.Untouched) (i : ι)
    (input : IdentityInput) :
    (s.step (i, input)).Untouched ∨ ∃ seed, (∃ creator written,
      (s.step (i, input)).CreatedBy creator seed written) ∧
        Agrees (tr ++ [machine.entry s (i, input)]) (s.step (i, input)) seed := by
  rcases h.step i input with h' | ⟨⟨seed, hcreated⟩, hhas⟩
  · exact .inl h'
  · exact .inr ⟨seed, ⟨i, [], hcreated⟩, fun j id hid => absurd hid (hhas j id)⟩

/-- The file that is there at first is never changed, and is what all the calls read. -/
structure Found (s : IdentityStore ι) (bytes : List UInt8) : Prop where
  file_eq : s.file = some bytes
  creates : ∀ i, ¬ (s.call i).Creates
  has : ∀ i id, (s.call i).Has id → decodeIdentitySeed bytes = .ok id

theorem Found.step {bytes : List UInt8} (h : s.Found bytes) (i : ι) (input : IdentityInput) :
    (s.step (i, input)).Found bytes := by
  have hgoes := (s.call i).goes_step s.file input
  have hfile : (s.step (i, input)).file = ((s.call i).step s.file input).1 := rfl
  have hcall := call_step_self s i input
  generalize (s.call i).step s.file input = result at hgoes hfile hcall
  have hput : ∀ call', (s.step (i, input)).call i = call' → ¬ call'.Creates →
      (∀ id, call'.Has id → decodeIdentitySeed bytes = .ok id) →
      (s.step (i, input)).file = s.file → (s.step (i, input)).Found bytes := by
    rintro _ rfl hcreates hhas hfile
    refine ⟨hfile.trans h.file_eq, fun j => ?_, fun j => ?_⟩
    · by_cases hij : j = i
      · exact hij ▸ hcreates
      · rw [call_step_of_ne hij]
        exact h.creates j
    · by_cases hij : j = i
      · exact hij ▸ hhas
      · rw [call_step_of_ne hij]
        exact h.has j
  cases hgoes with
  | stays => exact hput _ hcall (h.creates i) (h.has i) hfile
  | plain hcreates hhas => exact hput _ hcall hcreates (fun id hid => absurd hid (hhas id)) hfile
  | reads hsome =>
    rw [h.file_eq] at hsome
    cases hsome
    exact hput _ hcall id (fun id hid => IdentityCall.returned.inj hid) hfile
  | creates hnone =>
    rw [h.file_eq] at hnone
    cases hnone
  | writes hwriting => exact absurd (hwriting ▸ trivial) (h.creates i)
  | secures hsecuring => exact absurd (hsecuring ▸ trivial) (h.creates i)

end IdentityStore

end Mouser
