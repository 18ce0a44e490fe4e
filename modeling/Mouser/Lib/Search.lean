import Mathlib.Data.List.Basic

/-!
# The first occurrence of a word

`find` searches a word in a text from the left. A part of the text without the word's first symbol
cannot hold an occurrence, nor can a place where the word's symbols do not stand, so that the search
moves past both.
-/

namespace Search

variable {α : Type*} [DecidableEq α]

/-- The index of the first occurrence of `needle` in `haystack`. -/
def find (haystack needle : List α) : Option ℕ :=
  if needle <+: haystack then some 0
  else
    match haystack with
    | [] => none
    | _ :: rest => (find rest needle).map (· + 1)

/-- An occurrence in front is the first one. -/
theorem find_append (needle rest : List α) : find (needle ++ rest) needle = some 0 := by
  rw [find.eq_def, if_pos (List.prefix_append needle rest)]

/-- Where the word's symbols do not stand, the search moves on. -/
theorem find_cons {a : α} {rest needle : List α} (h : ¬ needle <+: a :: rest) :
    find (a :: rest) needle = (find rest needle).map (· + 1) := by
  rw [find, if_neg h]

/-- The search moves past a part of the text without the word's first symbol. -/
theorem find_append_of_notMem {a : α} {skipped rest needle : List α} (h : a ∉ skipped) :
    find (skipped ++ rest) (a :: needle) =
      (find rest (a :: needle)).map (· + skipped.length) := by
  induction skipped with
  | nil => cases hrest : find rest (a :: needle) <;> simp [hrest]
  | cons b skipped ih =>
    rw [List.mem_cons, not_or] at h
    have hfront : ¬ a :: needle <+: b :: (skipped ++ rest) := fun hfront =>
      h.1 (List.cons_prefix_cons.1 hfront).1
    rw [List.cons_append, find_cons hfront, ih h.2, Option.map_map, List.length_cons]
    exact congrArg (Option.map · _) (funext fun i => by simp only [Function.comp_apply]; omega)

/-- **Past a decoy**: the word's first symbol stands once before the word, in something that begins
like the word and goes on differently. -/
theorem find_past_decoy {a b c : α} {skipped common decoy needle rest : List α}
    (hskipped : a ∉ skipped) (hdecoy : a ∉ common ++ b :: decoy) (hne : c ≠ b) :
    find (skipped ++ (a :: (common ++ b :: decoy)) ++ (a :: (common ++ c :: needle) ++ rest))
        (a :: (common ++ c :: needle)) =
      some (skipped ++ a :: (common ++ b :: decoy)).length := by
  have hfront (rest' : List α) :
      ¬ a :: (common ++ c :: needle) <+: a :: (common ++ b :: decoy ++ rest') := by
    rw [List.cons_prefix_cons, List.append_assoc, List.prefix_append_right_inj, List.cons_append,
      List.cons_prefix_cons]
    exact fun h => hne h.2.1
  rw [List.append_assoc, find_append_of_notMem hskipped, List.cons_append, find_cons (hfront _),
    find_append_of_notMem hdecoy, find_append, Option.map_some, Option.map_some, Option.map_some]
  refine congrArg some ?_
  simp only [List.length_append, List.length_cons]
  omega

end Search
