import Mathlib.Algebra.Order.Group.Int
import Mathlib.Data.List.Sublists
import Mouser.Lib.SuffixSum
import Mouser.Engine.Overflow

/-!
# The emergency escape

While the peer owns input the source adds up how far the cursor is pushed home, and takes input back
once that is as far as its own screen is wide. The sum is cut off at zero, so what is kept is the
greatest sum of a suffix of the deltas since the crossing (`escape_travel`), and input is taken back
at the first delta that ends a suffix with the sum the threshold asks for.
-/

namespace Mouser

namespace EngineCore

/-- The travel home of a cursor event. -/
def homeward? (s : EngineCore) : Call → Option ℤ
  | .runtime (.localInput (.cursorMoved _ _ _ dx dy)) => some (s.homeward dx dy)
  | _ => none

variable {s : EngineCore}

theorem homeward?_of_not_cursor {c : Call} (hc : c.isCursor = false) : s.homeward? c = none := by
  unfold homeward?
  split
  · cases hc
  · rfl

/-- The travel that fits is the sum cut off at zero. -/
theorem toInt_travelled (htravel : 0 ≤ s.escapeTravel.toInt) {dx dy : Int32}
    (hfits : s.escapeTravel.toInt + s.homeward dx dy < 2 ^ 31) :
    (s.travelled dx dy).escapeTravel.toInt =
      max (s.escapeTravel.toInt + s.homeward dx dy) 0 := by
  have hchecked := travelChecked htravel dx dy
  rw [if_pos hfits] at hchecked
  obtain ⟨h, hh, hsum⟩ := Option.bind_eq_some_iff.1 hchecked
  have hhome : h.toInt = s.homeward dx dy := by
    unfold homewardDeltaChecked at hh
    unfold homeward
    cases hedge : s.layout.edge <;> rw [hedge] at hh
    · cases hh
      rfl
    · exact Int32.ofIntChecked_eq_some.1 hh
    · cases hh
      rfl
    · exact Int32.ofIntChecked_eq_some.1 hh
  have h0 : (0 : Int32).toInt = 0 := rfl
  rw [travelled, Int32.toInt_max, Int32.ofIntChecked_eq_some.1 hsum, hhome, h0]

/-- What a call does to the travel as long as the peer keeps input. -/
theorem escapeTravel_of_away (hrole : s.role = .source) (haway : s.isOwner = false) {c : Call}
    (hstays : (s.call c).1.isOwner = false) :
    (c.isCursor = false ∧ (s.call c).1.escapeTravel = s.escapeTravel) ∨
      ∃ d x y dx dy, c = .runtime (.localInput (.cursorMoved d x y dx dy)) ∧
        (s.call c).1.escapeTravel = (s.travelled dx dy).escapeTravel := by
  have hturn := s.call_turn c
  have hme := (s.call_device c).me
  generalize (s.call c).1 = s' at hturn hstays hme ⊢
  have hcursor : s.Idles c → c.isCursor = false := by
    intro hidles
    by_contra hc
    rw [hidles.2 hrole (by simpa using hc)] at haway
    cases haway
  cases hturn with
  | kept hc hl => exact .inl ⟨hcursor hc, congrArg Latches.escapeTravel hl⟩
  | alive hc hl =>
    refine .inl ⟨?_, congrArg Latches.escapeTravel hl⟩
    unfold Call.isAlive at hc
    split at hc <;> first | rfl | cases hc
  | settled _ _ hl | ticked _ _ hl | adopted _ _ _ hl =>
    exact .inl ⟨rfl, congrArg Latches.escapeTravel hl⟩
  | reclaimed _ _ _ hl =>
    rw [isOwner_of_me (congrArg Latches.owner hl) hme] at hstays
    cases hstays
  | handed hown | rearmed hown | crossed _ hown =>
    rw [hown] at haway
    cases haway
  | moved _ _ _ _ _ _ hl => exact .inr ⟨_, _, _, _, _, rfl, congrArg Latches.escapeTravel hl⟩

/-- The travel home along a list of calls. -/
def homewards (s : EngineCore) (calls : List Call) : List ℤ := calls.filterMap s.homeward?

theorem homewards_concat (s : EngineCore) (calls : List Call) (c : Call) :
    s.homewards (calls ++ [c]) = s.homewards calls ++ (s.homeward? c).toList := by
  rw [homewards, List.filterMap_append, ← homewards]
  cases hc : s.homeward? c <;> simp [hc]

/-- **The run.** The travel kept since a crossing is the greatest sum of a suffix. -/
theorem escapeTravel_isGreatest (hrole : s.role = .source) {c : Call} (hcross : s.Crosses c)
    (calls : List Call)
    (hstays : ∀ js, js <+: calls → (machine.exec (s.call c).1 js).isOwner = false)
    (hfits : ∀ b, b <:+: s.homewards calls → b.sum < 2 ^ 31) :
    IsGreatest (suffixSums (s.homewards calls))
      (machine.exec (s.call c).1 calls).escapeTravel.toInt := by
  have hdevice : ∀ js, SameDevice s (machine.exec (s.call c).1 js) := fun js =>
    machine.inv_exec (I := SameDevice s) (s.call_device c)
      (fun t i ht => ht.trans (t.call_device i)) js
  induction calls using List.reverseRecOn with
  | nil =>
    have hzero : (s.call c).1.escapeTravel = 0 :=
      congrArg Latches.escapeTravel (latches_of_crosses hrole hcross)
    rw [machine.exec_nil, hzero]
    exact isGreatest_suffixSums_nil
  | append_singleton calls k ih =>
    have hprefix : calls <+: calls ++ [k] := List.prefix_append calls [k]
    have hsum := ih (fun js hjs => hstays js (hjs.trans hprefix)) fun b hb => hfits b <| by
      rw [homewards_concat]
      exact hb.trans (List.infix_append' [] _ _)
    have hnext := hstays (calls ++ [k]) (List.prefix_refl _)
    have haway := hstays calls hprefix
    have hsame := hdevice calls
    rw [machine.exec_concat] at hnext ⊢
    generalize machine.exec (s.call c).1 calls = t at hsum haway hnext hsame ⊢
    have hhomeward : ∀ dx dy, t.homeward dx dy = s.homeward dx dy := by
      intro dx dy
      rw [homeward, homeward, hsame.layout]
    rcases escapeTravel_of_away (hsame.role.trans hrole) haway hnext with
      ⟨hk, htravel⟩ | ⟨d, x, y, dx, dy, rfl, htravel⟩
    · rw [homewards_concat, homeward?_of_not_cursor hk, Option.toList_none, List.append_nil]
      exact htravel ▸ hsum
    · have hone : s.homeward? (.runtime (.localInput (.cursorMoved d x y dx dy))) =
          some (s.homeward dx dy) := rfl
      rw [homewards_concat, hone, Option.toList_some] at hfits ⊢
      have hsum' := hsum.suffixSums_concat (s.homeward dx dy)
      have hnonneg : 0 ≤ t.escapeTravel.toInt :=
        hsum.2 ⟨[], List.nil_suffix, List.sum_nil⟩
      have htoInt := toInt_travelled hnonneg (hhomeward dx dy ▸ hsum.add_lt hfits)
      rw [hhomeward] at htoInt
      rw [show (machine.step t _).1.escapeTravel = _ from htravel, htoInt]
      exact hsum'

theorem escapeThreshold_pos (s : EngineCore) : 0 < s.escapeThreshold.toInt := by
  have hmin : escapeMinTravel.toInt = 64 := rfl
  unfold escapeThreshold
  split <;> rw [Int32.toInt_max, hmin] <;> omega

/-- A delta that is forwarded or crosses back does not answer as a reclaim does. -/
theorem forwardCursor_ne_reclaimLocal (t s : EngineCore) (dx dy : Int32) :
    t.forwardCursor dx dy ≠ s.reclaimLocal := by
  intro heq
  have hlength := congrArg (fun r => r.2.length) heq
  unfold forwardCursor at hlength
  split at hlength
  · simp [reclaimLocal] at hlength
  · simp [reclaimLocal] at hlength

/-- **The emergency escape.** After a crossing and as long as the peer keeps input, the travel is
the greatest sum of a suffix of the deltas home, and a cursor event for which `localEscapeBack` does
not fire takes input back for its travel just when a suffix that it ends comes up to the
threshold. -/
theorem escape_characterised (s : EngineCore) (hrole : s.role = .source) {c : Call}
    (hcross : s.Crosses c) (calls : List Call)
    (hstays : ∀ js, js <+: calls → (machine.exec (s.call c).1 js).isOwner = false)
    (hfits : ∀ b, b <:+: s.homewards calls → b.sum < 2 ^ 31) :
    let t := machine.exec (s.call c).1 calls
    IsGreatest (suffixSums (s.homewards calls)) t.escapeTravel.toInt ∧
      ∀ d x y dx dy,
        (∀ b, b <:+: s.homewards calls ++ [s.homeward dx dy] → b.sum < 2 ^ 31) →
          t.localEscapeBack x y dx dy = false →
            (t.call (.runtime (.localInput (.cursorMoved d x y dx dy))) =
                (t.travelled dx dy).reclaimLocal ↔
              ∃ b, b <:+ s.homewards calls ++ [s.homeward dx dy] ∧
                s.escapeThreshold.toInt ≤ b.sum) := by
  have hsum := escapeTravel_isGreatest hrole hcross calls hstays hfits
  refine ⟨hsum, ?_⟩
  intro d x y dx dy hfits hescape
  have hsame : SameDevice s (machine.exec (s.call c).1 calls) :=
    machine.inv_exec (I := SameDevice s) (s.call_device c)
      (fun t i ht => ht.trans (t.call_device i)) calls
  have haway := hstays calls (List.prefix_refl _)
  generalize machine.exec (s.call c).1 calls = t at hsum hsame haway hescape ⊢
  have hhomeward : t.homeward dx dy = s.homeward dx dy := by
    rw [homeward, homeward, hsame.layout]
  have hthreshold : (t.travelled dx dy).escapeThreshold = s.escapeThreshold := by
    have hlayout : (t.travelled dx dy).layout = s.layout := hsame.layout
    rw [escapeThreshold, escapeThreshold, hlayout]
  have hnonneg : 0 ≤ t.escapeTravel.toInt := hsum.2 ⟨[], List.nil_suffix, List.sum_nil⟩
  have hfit := hsum.add_lt hfits
  have htoInt := toInt_travelled (s := t) hnonneg (hhomeward ▸ hfit)
  have hpos := s.escapeThreshold_pos
  have hreach : (t.travelled dx dy).escapeTravel ≥ s.escapeThreshold ↔
      s.escapeThreshold.toInt ≤ t.escapeTravel.toInt + s.homeward dx dy := by
    rw [ge_iff_le, Int32.le_iff_toInt_le, htoInt, hhomeward]
    omega
  rw [hsum.exists_suffix_iff _ hpos, ← hreach, call_cursorMoved (hsame.role.trans hrole), haway,
    onCursor_away, if_neg (by rw [hescape]; decide), hthreshold]
  split
  · next h => exact ⟨fun _ => h, fun _ => rfl⟩
  · next h =>
    exact ⟨fun heq => (forwardCursor_ne_reclaimLocal _ _ _ _ heq).elim, fun hle => absurd hle h⟩

/-- Pushed away by 300, home by 30, away by 10, home by 50, with the ack of the grant in between. -/
def pushedHome : List Call :=
  [.runtime (.localInput (.cursorMoved 0 50 50 300 0)),
   .runtime (.localInput (.cursorMoved 0 50 50 (-30) 0)),
   .control (.ownershipAck (some ⟨1, true, none⟩)),
   .runtime (.localInput (.cursorMoved 0 50 50 10 0)),
   .runtime (.localInput (.cursorMoved 0 50 50 (-50) 0))]

theorem escape_characterised_pushedHome :
    let s := newSource (.fill 1) (.fill 2) (.sideBySide 100 100 1000 100)
    let c : Call := .runtime (.localInput (.cursorMoved 0 98 50 5 0))
    let t := machine.exec (s.call c).1 pushedHome
    IsGreatest (suffixSums (s.homewards pushedHome)) t.escapeTravel.toInt ∧
      (t.call (.runtime (.localInput (.cursorMoved 0 50 50 (-40) 0))) =
          (t.travelled (-40) 0).reclaimLocal ↔
        ∃ b, b <:+ s.homewards pushedHome ++ [s.homeward (-40) 0] ∧
          s.escapeThreshold.toInt ≤ b.sum) := by
  intro s c t
  have hstays : ∀ js ∈ pushedHome.inits, (machine.exec (s.call c).1 js).isOwner = false := by
    decide
  have hfits : ∀ b ∈ (s.homewards pushedHome ++ [s.homeward (-40) 0]).sublists,
      b.sum < 2 ^ 31 := by decide
  have hcross : s.Crosses c := ⟨by decide, by decide, by decide, by decide⟩
  have h := escape_characterised s rfl hcross pushedHome
    (fun js hjs => hstays js ((List.mem_inits _ _).2 hjs))
    (fun b hb => hfits b
      (List.mem_sublists.2 (hb.sublist.trans (List.sublist_append_left ..))))
  exact ⟨h.1, h.2 0 50 50 (-40) 0 (fun b hb => hfits b (List.mem_sublists.2 hb.sublist))
    (by decide)⟩

end EngineCore

end Mouser
