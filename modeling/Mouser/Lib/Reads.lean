import Mathlib.Data.List.Basic
import Mathlib.Tactic.TypeStar

/-!
# A stream that arrives in pieces

What a reader of a stream gets from one read is up to the network: some of what is there, at most
what it asked for, and nothing only at the end. `Reads` is a stream with the pieces that its reads
return, cut in any way. A read that asks for less than a piece leaves the rest of it, and
`Reads.readExact` reads until it has all that it asked for, which depends on the bytes of the stream
and not on the pieces.
-/

/-- What is left of a stream, in the pieces that it arrives in. -/
structure Reads (α : Type*) where
  pieces : List (List α)
  nonempty : ∀ piece ∈ pieces, piece ≠ []

namespace Reads

variable {α : Type*}

/-- All that is left of the stream. -/
def all (r : Reads α) : List α := r.pieces.flatten

/-- The stream with a piece, which may be empty, put back in front. -/
def unread (r : Reads α) (piece : List α) : Reads α where
  pieces := if piece.isEmpty then r.pieces else piece :: r.pieces
  nonempty := by
    split
    · exact r.nonempty
    · next h => exact List.forall_mem_cons.2 ⟨fun hnil => h (by rw [hnil]; rfl), r.nonempty⟩

@[simp] theorem all_unread (r : Reads α) (piece : List α) :
    (r.unread piece).all = piece ++ r.all := by
  unfold unread all
  dsimp only
  split
  · next h => rw [List.isEmpty_iff.1 h, List.nil_append]
  · rw [List.flatten_cons]

/-- One read, of at most `max`; `none` at the end of the stream. -/
def read (r : Reads α) (max : ℕ) : Option (List α × Reads α) :=
  match r with
  | ⟨[], _⟩ => none
  | ⟨piece :: pieces, h⟩ =>
    some (piece.take max, unread ⟨pieces, (List.forall_mem_cons.1 h).2⟩ (piece.drop max))

/-- What a read can do. -/
theorem read_cases (r : Reads α) {max : ℕ} (hmax : 0 < max) :
    (r.read max = none ∧ r.all = []) ∨
      ∃ bs r', r.read max = some (bs, r') ∧ bs ≠ [] ∧ bs.length ≤ max ∧ r.all = bs ++ r'.all := by
  match r with
  | ⟨[], h⟩ => exact .inl ⟨rfl, rfl⟩
  | ⟨piece :: pieces, h⟩ =>
    refine .inr ⟨_, _, rfl, ?_, List.length_take_le .., ?_⟩
    · intro hnil
      rcases List.take_eq_nil_iff.1 hnil with hzero | hpiece
      · omega
      · exact h piece (.head _) hpiece
    · rw [all_unread, ← List.append_assoc, List.take_append_drop]
      rfl

/-- A read that returns something leaves less of the stream. -/
theorem length_lt_of_read {r r' : Reads α} {max : ℕ} {bs : List α} (hmax : 0 < max)
    (h : r.read max = some (bs, r')) : r'.all.length < r.all.length := by
  rcases r.read_cases hmax with ⟨hnone, -⟩ | ⟨bs', r'', hsome, hne, -, hall⟩
  · rw [hnone] at h
    cases h
  · rw [hsome] at h
    cases h
    have hpos := List.length_pos_iff.2 hne
    rw [hall, List.length_append]
    omega

/-- Reads until `n` are there; `none` when the stream ends before. -/
def readExact (r : Reads α) (n : ℕ) : Option (List α × Reads α) :=
  if hn : n = 0 then some ([], r)
  else
    match hread : r.read n with
    | none => none
    | some (bs, r') =>
      have : r'.all.length < r.all.length := length_lt_of_read (Nat.pos_of_ne_zero hn) hread
      (r'.readExact (n - bs.length)).map fun (more, r) => (bs ++ more, r)
termination_by r.all.length

/-- **An exact read depends on the bytes alone.** -/
theorem readExact_cases (r : Reads α) (n : ℕ) :
    (r.readExact n = none ∧ r.all.length < n) ∨
      ∃ bs r', r.readExact n = some (bs, r') ∧ bs.length = n ∧ r.all = bs ++ r'.all := by
  induction r, n using readExact.induct with
  | case1 r =>
    exact .inr ⟨[], r, by rw [readExact, dif_pos rfl], rfl, rfl⟩
  | case2 r n hn hread =>
    rcases r.read_cases (Nat.pos_of_ne_zero hn) with ⟨-, hall⟩ | ⟨bs, r', hsome, -⟩
    · refine .inl ⟨?_, by rw [hall]; exact Nat.pos_of_ne_zero hn⟩
      rw [readExact, dif_neg hn]
      split
      · rfl
      · next h => cases hread.symm.trans h
    · cases hread.symm.trans hsome
  | case3 r n hn bs r' hread hlt ih =>
    rcases r.read_cases (Nat.pos_of_ne_zero hn) with ⟨hnone, -⟩ | ⟨bs', r'', hsome, -, hle, hall⟩
    · cases hread.symm.trans hnone
    cases hread.symm.trans hsome
    have hexact : r.readExact n =
        (r'.readExact (n - bs.length)).map fun (more, r) => (bs ++ more, r) := by
      rw [readExact, dif_neg hn]
      split
      · next h => cases hread.symm.trans h
      · next h =>
        cases hread.symm.trans h
        rfl
    rcases ih with ⟨hshort, hlength⟩ | ⟨more, rest, hmore, hlength, hrest⟩
    · refine .inl ⟨by rw [hexact, hshort]; rfl, ?_⟩
      rw [hall, List.length_append]
      omega
    · refine .inr ⟨bs ++ more, rest, by rw [hexact, hmore]; rfl, ?_, ?_⟩
      · rw [List.length_append]
        omega
      · rw [hall, hrest, List.append_assoc]

/-- An exact read of what the stream starts with. -/
theorem readExact_append {r : Reads α} {bs rest : List α} (h : r.all = bs ++ rest) :
    ∃ r', r.readExact bs.length = some (bs, r') ∧ r'.all = rest := by
  rcases r.readExact_cases bs.length with ⟨-, hlt⟩ | ⟨bs', r', hread, hlength, hall⟩
  · rw [h, List.length_append] at hlt
    omega
  · obtain ⟨rfl, hrest⟩ := List.append_inj (hall.symm.trans h) hlength
    exact ⟨r', hread, hrest⟩

end Reads
