import Mouser.Lib.Utf8

/-!
# Names of received files

The name of an offered file is chosen by the peer. `sanitize_name` accepts it as a single path
component or rejects it, and `resolve_in_quarantine` joins it to the quarantine directory. A call
that panics does not return: `Unwind` tells the two apart.

Paths are the byte strings of a Unix system, with the components that `std::path` finds in them.
-/

namespace Mouser

open String (utf8Len)

/-- The panics of the calls modelled here. -/
inductive Panic where
  /-- `str::split_at` at an offset that is not a character boundary. -/
  | charBoundary
deriving DecidableEq

/-- What a call returns, unless it panics. -/
abbrev Unwind (α : Type) := Except Panic α

/-- The call returns. -/
def Unwind.Returns {α : Type} (call : Unwind α) : Prop := ∃ a, call = .ok a

inductive PathError where
  | emptyOrDotted
  | containsSeparator
  | containsNul
  | reservedDeviceName
  | trailingDotOrSpace
  | bidiControl
  | escapesQuarantine
deriving DecidableEq

/-- The text of the error. -/
def PathError.display : PathError → String
  | .emptyOrDotted => "file name is empty, '.', or '..'"
  | .containsSeparator => "file name contains a path separator"
  | .containsNul => "file name contains a NUL byte"
  | .reservedDeviceName => "file name is a reserved device name"
  | .trailingDotOrSpace => "file name ends in a dot or space"
  | .bidiControl => "file name contains a bidi-control codepoint"
  | .escapesQuarantine => "resolved path escapes the quarantine dir"

/-! ## Sanitizing -/

/-- Whether `c` is a bidirectional-control codepoint. -/
def isBidiControl (c : Char) : Bool :=
  c.val ∈ [0x200E, 0x200F, 0x202A, 0x202B, 0x202C, 0x202D, 0x202E, 0x2066, 0x2067, 0x2068, 0x2069]

/-- `str::eq_ignore_ascii_case` -/
def eqIgnoreAsciiCase (a b : List Char) : Bool :=
  utf8Len a = utf8Len b && a.map Char.toLower = b.map Char.toLower

/-- The part of the name before the first dot. -/
def stem (name : List Char) : List Char := name.takeWhile (· ≠ '.')

/-- Whether `name` is a Windows reserved device name, considering only its stem. -/
def isReservedDeviceName (name : List Char) : Unwind Bool :=
  if ["CON", "PRN", "AUX", "NUL"].any fun d => eqIgnoreAsciiCase (stem name) d.toList then .ok true
  else if utf8Len (stem name) = 4 then
    match Utf8.splitAt (stem name) 3 with
    | none => .error .charBoundary
    | some (front, last) =>
      let isComOrLpt := eqIgnoreAsciiCase front "COM".toList || eqIgnoreAsciiCase front "LPT".toList
      .ok (isComOrLpt && last.head?.any fun c => '1' ≤ c && c ≤ '9')
  else .ok false

/-- Validate an offered name as a single safe path component. -/
def sanitizeName (name : String) : Unwind (Except PathError String) :=
  let chars := name.toList
  if name = "" ∨ name = "." ∨ name = ".." then .ok (.error .emptyOrDotted)
  else if '\x00' ∈ chars then .ok (.error .containsNul)
  else if '/' ∈ chars ∨ '\\' ∈ chars ∨ ':' ∈ chars then .ok (.error .containsSeparator)
  else if chars.any isBidiControl then .ok (.error .bidiControl)
  else if chars.getLast? = some '.' ∨ chars.getLast? = some ' ' then
    .ok (.error .trailingDotOrSpace)
  else
    match isReservedDeviceName chars with
    | .error panic => .error panic
    | .ok true => .ok (.error .reservedDeviceName)
    | .ok false => .ok (.ok name)

/-! ## Paths -/

/-- A path, or a component of one, as the bytes the system sees. -/
abbrev OsStr := List UInt8

/-- `OsStr::new` of a string. -/
def OsStr.new (s : String) : OsStr := s.toList.flatMap String.utf8EncodeChar

/-- The byte of the path separator. -/
def separator : UInt8 := 0x2f

inductive Component where
  | rootDir
  | curDir
  | parentDir
  | normal (name : OsStr)
deriving DecidableEq

/-- The component that a piece between two separators stands for; `.` is one only at the start of
a relative path. -/
def component (start : Bool) (piece : OsStr) : Option Component :=
  if piece = [] then none
  else if piece = [0x2e] then if start then some .curDir else none
  else if piece = [0x2e, 0x2e] then some .parentDir
  else some (.normal piece)

/-- `Path::components` -/
def components (path : OsStr) : List Component :=
  match path.splitOn separator with
  | [] => []
  | first :: pieces =>
    if path.head? = some separator then .rootDir :: pieces.filterMap (component false)
    else (component true first).toList ++ pieces.filterMap (component false)

/-- `Path::join` -/
def join (base path : OsStr) : OsStr :=
  if path.head? = some separator then path
  else if base = [] ∨ base.getLast? = some separator then base ++ path
  else base ++ separator :: path

/-- The components of what `Path::strip_prefix` leaves of the path. -/
def stripPrefix (path base : OsStr) : Option (List Component) :=
  if components base <+: components path then
    some ((components path).drop (components base).length)
  else none

/-- The path an offered name must be written to: the quarantine joined with one component. -/
def resolveInQuarantine (quarantine : OsStr) (name : String) : Unwind (Except PathError OsStr) :=
  match sanitizeName name with
  | .error panic => .error panic
  | .ok (.error e) => .ok (.error e)
  | .ok (.ok safe) =>
    let candidate := join quarantine (OsStr.new safe)
    match stripPrefix candidate quarantine with
    | some [.normal c] =>
      if c = OsStr.new safe then .ok (.ok candidate) else .ok (.error .escapesQuarantine)
    | _ => .ok (.error .escapesQuarantine)

/-! ## When a name is checked without a panic -/

/-- A check of `sanitize_name` before that of device names rejects the name. -/
def RejectedEarly (name : String) : Prop :=
  (name = "" ∨ name = "." ∨ name = "..") ∨ '\x00' ∈ name.toList ∨
    ('/' ∈ name.toList ∨ '\\' ∈ name.toList ∨ ':' ∈ name.toList) ∨
    name.toList.any isBidiControl = true ∨
    name.toList.getLast? = some '.' ∨ name.toList.getLast? = some ' '

/-- The stem takes four bytes, and its last character is not ASCII. -/
def SplitsStem (name : String) : Prop :=
  utf8Len (stem name.toList) = 4 ∧ ∃ c, (stem name.toList).getLast? = some c ∧ 1 < c.utf8Size

/-- The name is rejected before its stem is cut, or its stem can be cut. -/
def SafeToCheck (name : String) : Prop := RejectedEarly name ∨ ¬ SplitsStem name

@[simp] theorem returns_ok {α : Type} (a : α) : Unwind.Returns (.ok a : Unwind α) := ⟨a, rfl⟩

@[simp] theorem not_returns_error {α : Type} (p : Panic) :
    ¬ Unwind.Returns (.error p : Unwind α) := by
  rintro ⟨a, ha⟩
  cases ha

/-- A name that ignores case with another takes as many bytes. -/
theorem utf8Len_of_eqIgnoreAsciiCase {a b : List Char} (h : eqIgnoreAsciiCase a b = true) :
    utf8Len a = utf8Len b := by
  simp only [eqIgnoreAsciiCase, Bool.and_eq_true, decide_eq_true_eq] at h
  exact h.1

/-- The fixed device names take three bytes. -/
theorem utf8Len_of_fixed {cs : List Char}
    (h : (["CON", "PRN", "AUX", "NUL"].any fun d => eqIgnoreAsciiCase cs d.toList) = true) :
    utf8Len cs = 3 := by
  obtain ⟨d, hd, heq⟩ := List.any_eq_true.1 h
  rw [utf8Len_of_eqIgnoreAsciiCase heq]
  simp only [List.mem_cons, List.not_mem_nil, or_false] at hd
  rcases hd with rfl | rfl | rfl | rfl <;> rfl

/-- The device-name check panics just on the stems that it cuts inside a character. -/
theorem isReservedDeviceName_returns {name : String} :
    (isReservedDeviceName name.toList).Returns ↔ ¬ SplitsStem name := by
  unfold isReservedDeviceName SplitsStem
  split
  · next hfixed => simp [utf8Len_of_fixed hfixed]
  · split
    · next hfour =>
      rw [← Utf8.splitAt_last hfour]
      split
      · next hcut => simp [hcut, hfour]
      · next hcut => simp [hcut, hfour]
    · next hfour => simp [hfour]

/-- An early check answers with its error. -/
theorem sanitizeName_of_rejectedEarly {name : String} (h : RejectedEarly name) :
    ∃ e, sanitizeName name = .ok (.error e) ∧ e ≠ .escapesQuarantine := by
  simp only [sanitizeName]
  split
  · exact ⟨_, rfl, nofun⟩
  · next hempty =>
    split
    · exact ⟨_, rfl, nofun⟩
    · next hnul =>
      split
      · exact ⟨_, rfl, nofun⟩
      · next hseparator =>
        split
        · exact ⟨_, rfl, nofun⟩
        · next hbidi =>
          split
          · exact ⟨_, rfl, nofun⟩
          · next hlast =>
            rcases h with h | h | h | h | h <;> contradiction

/-- A name that passes the early checks is checked for device names. -/
theorem sanitizeName_of_not_rejectedEarly {name : String} (h : ¬ RejectedEarly name) :
    sanitizeName name = match isReservedDeviceName name.toList with
      | .error panic => .error panic
      | .ok true => .ok (.error .reservedDeviceName)
      | .ok false => .ok (.ok name) := by
  simp only [RejectedEarly, not_or] at h
  obtain ⟨hempty, hnul, hseparator, hbidi, hlast⟩ := h
  simp only [sanitizeName]
  rw [if_neg (by simpa using hempty), if_neg hnul, if_neg (by simpa using hseparator),
    if_neg hbidi, if_neg (by simpa using hlast)]

/-- **When `sanitize_name` panics.** -/
theorem sanitizeName_returns {name : String} :
    (sanitizeName name).Returns ↔ SafeToCheck name := by
  rw [SafeToCheck, ← isReservedDeviceName_returns]
  by_cases hearly : RejectedEarly name
  · obtain ⟨e, he, -⟩ := sanitizeName_of_rejectedEarly hearly
    simp [he, hearly]
  · rw [sanitizeName_of_not_rejectedEarly hearly]
    cases isReservedDeviceName name.toList with
    | error p => simp [hearly]
    | ok reserved => cases reserved <;> simp

/-- Resolving a name panics just when sanitizing it does. -/
theorem resolveInQuarantine_returns {quarantine : OsStr} {name : String} :
    (resolveInQuarantine quarantine name).Returns ↔ (sanitizeName name).Returns := by
  unfold resolveInQuarantine
  cases sanitizeName name with
  | error p => simp
  | ok result =>
    cases result with
    | error e => simp
    | ok safe =>
      simp only [returns_ok, iff_true]
      split
      · split <;> simp
      · simp

example : sanitizeName "COM1.tar.gz" = .ok (.error .reservedDeviceName) := by decide +kernel

example : resolveInQuarantine (OsStr.new "/var/quarantine") "ok.bin" =
    .ok (.ok (OsStr.new "/var/quarantine/ok.bin")) := by decide +kernel

end Mouser
