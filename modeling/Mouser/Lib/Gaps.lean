import Mathlib.Order.Lattice
import Mathlib.Tactic.TypeStar

/-!
# Segments over a channel that loses some

A stream is sent in segments over a channel that keeps their order and may lose some, to a receiver
that takes a segment only if it starts where what is held ends. `Linked lost x q y` says that the
segments of the queue `q` lead from `x` to `y`: each starts where the one before it ended, or the
segment that started there is `lost`. `Segments` is the invariant of a sender that does not send a
segment again: a segment is beyond what is held just when one before it is lost
(`Segments.beyond_iff`), and behind a segment that is beyond so is all that follows
(`Segments.all_beyond`).
-/

section

variable {α : Type*} [LinearOrder α]

/-- What follows `x` starts there, or further on if what started at `x` is lost. -/
def Link (lost : α → Prop) (x y : α) : Prop := x = y ∨ x < y ∧ lost x

inductive Linked (lost : α → Prop) : α → List (α × α) → α → Prop where
  | nil {x y : α} (h : Link lost x y) : Linked lost x [] y
  | cons {x y : α} {s : α × α} {q : List (α × α)} (h : Link lost x s.1) (hs : s.1 < s.2)
    (hq : Linked lost s.2 q y) : Linked lost x (s :: q) y

namespace Linked

variable {lost lost' : α → Prop} {x y z : α} {s : α × α} {q q' : List (α × α)}

theorem mono (hlost : ∀ a, lost a → lost' a) (h : Linked lost x q y) : Linked lost' x q y := by
  have hlink : ∀ {a b : α}, Link lost a b → Link lost' a b := fun h =>
    h.imp id fun h => ⟨h.1, hlost _ h.2⟩
  induction h with
  | nil h => exact .nil (hlink h)
  | cons h hs _ ih => exact .cons (hlink h) hs ih

theorem le (h : Linked lost x q y) : x ≤ y := by
  have hlink : ∀ {a b : α}, Link lost a b → a ≤ b := fun h => h.elim le_of_eq fun h => h.1.le
  induction h with
  | nil h => exact hlink h
  | cons h hs _ ih => exact (hlink h).trans (hs.le.trans ih)

/-- Every segment of the queue lies between its ends. -/
theorem within (h : Linked lost x q y) : ∀ s ∈ q, x ≤ s.1 ∧ s.1 < s.2 ∧ s.2 ≤ y := by
  induction h with
  | nil h => exact nofun
  | @cons x y s q h hs hq ih =>
    have hle : x ≤ s.1 := h.elim le_of_eq fun h => h.1.le
    refine List.forall_mem_cons.2 ⟨⟨hle, hs, hq.le⟩, ?_⟩
    intro u hu
    obtain ⟨hstart, hrest⟩ := ih u hu
    exact ⟨hle.trans (hs.le.trans hstart), hrest⟩

theorem concat (h : Linked lost x q y) (hz : y < z) : Linked lost x (q ++ [(y, z)]) z := by
  induction h with
  | nil h => exact .cons h hz (.nil (.inl rfl))
  | cons h hs _ ih => exact .cons h hs (ih hz)

/-- What is in front of a lost segment goes on with what is behind it. -/
theorem skip (h : Linked lost x (s :: q) y) (hlost : x = s.1 → lost x) : Linked lost x q y := by
  cases h with
  | cons h hs hq =>
    -- The link over the lost segment starts in front of it.
    have hover : ∀ {z : α}, s.2 ≤ z → Link lost x z := by
      intro z hz
      rcases h with heq | ⟨hlt, hx⟩
      · exact .inr ⟨lt_of_eq_of_lt heq (hs.trans_le hz), hlost heq⟩
      · exact .inr ⟨hlt.trans (hs.trans_le hz), hx⟩
    cases hq with
    | nil h' => exact .nil (hover (h'.elim le_of_eq fun h => h.1.le))
    | cons h' hs' hq' => exact .cons (hover (h'.elim le_of_eq fun h => h.1.le)) hs' hq'

theorem erase (h : Linked lost x (q ++ s :: q') y) (hlost : lost s.1) :
    Linked lost x (q ++ q') y := by
  induction q generalizing x with
  | nil => exact h.skip fun heq => heq ▸ hlost
  | cons u q ih =>
    cases h with
    | cons h hu hq => exact .cons h hu (ih hq)

end Linked

/-- The segments of `q` are on their way from a sender that has sent up to `sent` to a receiver that
holds up to `held`, and those of `lost` were sent too and will not arrive. -/
structure Segments (held sent : α) (q lost : List (α × α)) : Prop where
  linked : Linked (fun x => ∃ s ∈ lost, s.1 = x) held q sent
  ahead : ∀ s ∈ lost, held ≤ s.1 ∧ s.1 < s.2 ∧ s.2 ≤ sent
  apart : ∀ s ∈ lost, ∀ u ∈ q, s.2 ≤ u.1 ∨ u.2 ≤ s.1

namespace Segments

variable {held sent next : α} {s : α × α} {q q' lost : List (α × α)}

theorem start (x : α) : Segments x x [] [] := ⟨.nil (.inl rfl), nofun, nofun⟩

theorem send (h : Segments held sent q lost) (hnext : sent < next) :
    Segments held next (q ++ [(sent, next)]) lost := by
  refine ⟨h.linked.concat hnext, ?_, ?_⟩
  · intro s hs
    obtain ⟨hheld, hlt, hle⟩ := h.ahead s hs
    exact ⟨hheld, hlt, hle.trans hnext.le⟩
  · intro s hs u hu
    rcases List.mem_append.1 hu with hu | hu
    · exact h.apart s hs u hu
    · rw [List.mem_singleton.1 hu]
      exact .inl (h.ahead s hs).2.2

/-- The segments of a queue follow each other. -/
theorem ordered (h : Segments held sent (q ++ s :: q') lost) :
    (∀ u ∈ q, u.2 ≤ s.1) ∧ ∀ u ∈ q', s.2 ≤ u.1 := by
  have hlinked := h.linked
  clear h
  induction q generalizing held with
  | nil =>
    cases hlinked with
    | cons _ _ hq => exact ⟨nofun, fun u hu => (hq.within u hu).1⟩
  | cons t q ih =>
    cases hlinked with
    | cons _ _ hq =>
      obtain ⟨hbefore, hafter⟩ := ih hq
      refine ⟨List.forall_mem_cons.2 ⟨?_, hbefore⟩, hafter⟩
      exact (hq.within s (List.mem_append_right _ (.head _))).1

theorem lose (h : Segments held sent (q ++ s :: q') lost) :
    Segments held sent (q ++ q') (lost ++ [s]) := by
  obtain ⟨hbefore, hafter⟩ := h.ordered
  refine ⟨?_, ?_, ?_⟩
  · refine (h.linked.mono ?_).erase ⟨s, List.mem_append_right _ (.head _), rfl⟩
    rintro a ⟨u, hu, rfl⟩
    exact ⟨u, List.mem_append_left _ hu, rfl⟩
  · intro u hu
    rcases List.mem_append.1 hu with hu | hu
    · exact h.ahead u hu
    · rw [List.mem_singleton.1 hu]
      exact h.linked.within s (List.mem_append_right _ (.head _))
  · intro u hu v hv
    rcases List.mem_append.1 hu with hu | hu
    · refine h.apart u hu v ?_
      rcases List.mem_append.1 hv with hv | hv
      · exact List.mem_append_left _ hv
      · exact List.mem_append_right _ (.tail _ hv)
    · rw [List.mem_singleton.1 hu]
      rcases List.mem_append.1 hv with hv | hv
      · exact .inr (hbefore v hv)
      · exact .inl (hafter v hv)

/-- The receiver takes the segment that starts where what it holds ends. -/
theorem take (h : Segments held sent (s :: q) lost) (hs : s.1 = held) :
    Segments s.2 sent q lost := by
  obtain ⟨hlinked, hahead, hapart⟩ := h
  cases hlinked with
  | cons _ hlt hq =>
    refine ⟨hq, ?_, fun u hu v hv => hapart u hu v (.tail _ hv)⟩
    intro u hu
    obtain ⟨hheld, hu', hle⟩ := hahead u hu
    refine ⟨?_, hu', hle⟩
    rcases hapart u hu s (.head _) with hbefore | hafter
    · exact absurd (hu'.trans_le hbefore) (not_lt_of_ge (hs ▸ hheld))
    · exact hafter

/-- The receiver does not take a segment beyond what it holds. -/
theorem pass (h : Segments held sent (s :: q) lost) (hs : held < s.1) :
    Segments held sent q lost :=
  ⟨h.linked.skip fun heq => absurd heq hs.ne, h.ahead, fun u hu v hv => h.apart u hu v (.tail _ hv)⟩

/-- A segment is beyond what is held just when one before it is lost. -/
theorem beyond_iff (h : Segments held sent (s :: q) lost) :
    held < s.1 ↔ ∃ u ∈ lost, u.1 < s.1 := by
  refine ⟨?_, ?_⟩
  · intro hlt
    cases h.linked with
    | cons hlink _ _ =>
      rcases hlink with heq | ⟨-, u, hu, hstart⟩
      · exact absurd heq hlt.ne
      · exact ⟨u, hu, lt_of_eq_of_lt hstart hlt⟩
  · rintro ⟨u, hu, hlt⟩
    exact (h.ahead u hu).1.trans_lt hlt

/-- Behind a segment that is beyond what is held, so is all that follows. -/
theorem all_beyond (h : Segments held sent (s :: q) lost) (hs : held < s.1) :
    (∀ u ∈ q, held < u.1) ∧ held < sent := by
  obtain ⟨-, hafter⟩ := h.ordered (q := [])
  obtain ⟨-, hlt, hle⟩ := h.linked.within s (.head _)
  exact ⟨fun u hu => hs.trans (hlt.trans_le (hafter u hu)), hs.trans (hlt.trans_le hle)⟩

end Segments

end
