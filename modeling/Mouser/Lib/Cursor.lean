import Mathlib.Algebra.Order.Ring.Nat
import Mathlib.Data.List.Forall2

/-!
# Readers at a position

A reader goes through some bytes with a position that it moves on: `StateT ℕ (Except ε)`. A grammar
`G a code` says which bytes stand for a value, and `Reads` that a reader is exact for it: it
succeeds at the positions where such bytes are, with the value that they stand for and the position
behind them, and nowhere else. The errors that it may stop with are a parameter, so that a reader
that only reports bad bytes is told from one that may crash.

There is a rule for each way to make a reader: of one that goes on with another (`Reads.bind`), of a
loop with a count (`Reads.iterate`) and of a loop to the end of the bytes (`untilEnd_ok_iff`).
-/

namespace Cursor

variable {ε α β : Type} {bytes code code' : List UInt8} {pos pos' : ℕ}

/-- The bytes `code` are at `pos`. -/
def At (bytes : List UInt8) (pos : ℕ) (code : List UInt8) : Prop :=
  ∃ front rest, bytes = front ++ (code ++ rest) ∧ front.length = pos

theorem At.le (h : At bytes pos code) : pos + code.length ≤ bytes.length := by
  obtain ⟨front, rest, rfl, rfl⟩ := h
  simp only [List.length_append]
  omega

theorem at_nil : At bytes pos [] ↔ pos ≤ bytes.length := by
  refine ⟨fun h => h.le, fun h => ⟨bytes.take pos, bytes.drop pos, ?_, ?_⟩⟩
  · rw [List.nil_append, List.take_append_drop]
  · exact List.length_take_of_le h

theorem at_append :
    At bytes pos (code ++ code') ↔ At bytes pos code ∧ At bytes (pos + code.length) code' := by
  refine ⟨?_, ?_⟩
  · rintro ⟨front, rest, rfl, rfl⟩
    refine ⟨⟨front, code' ++ rest, ?_, rfl⟩, ⟨front ++ code, rest, ?_, List.length_append⟩⟩ <;>
      simp only [List.append_assoc]
  · rintro ⟨⟨front, rest, rfl, rfl⟩, ⟨front', rest', heq, hlen⟩⟩
    rw [← List.append_assoc] at heq
    obtain ⟨rfl, rfl⟩ := List.append_inj heq (by rw [List.length_append, hlen])
    exact ⟨front, rest', by simp only [List.append_assoc], rfl⟩

theorem at_singleton {b : UInt8} : At bytes pos [b] ↔ bytes[pos]? = some b := by
  refine ⟨?_, ?_⟩
  · rintro ⟨front, rest, rfl, rfl⟩
    simp
  · intro h
    obtain ⟨hpos, rfl⟩ := List.getElem?_eq_some_iff.1 h
    refine ⟨bytes.take pos, bytes.drop (pos + 1), ?_, List.length_take_of_le (Nat.le_of_lt hpos)⟩
    rw [List.singleton_append, List.getElem_cons_drop, List.take_append_drop]

/-- The string of a length at a position. -/
theorem at_iff_slice : At bytes pos code ↔
    pos + code.length ≤ bytes.length ∧ code = (bytes.drop pos).take code.length := by
  refine ⟨?_, ?_⟩
  · intro h
    refine ⟨h.le, ?_⟩
    obtain ⟨front, rest, rfl, rfl⟩ := h
    rw [List.drop_left, List.take_left]
  · rintro ⟨hle, heq⟩
    refine ⟨bytes.take pos, bytes.drop (pos + code.length), ?_, List.length_take_of_le (by omega)⟩
    rw [← List.drop_drop]
    conv_rhs => rw [heq]
    rw [List.length_take, List.length_drop, Nat.min_eq_left (by omega), List.take_append_drop,
      List.take_append_drop]

/-- The reader `r` of `bytes` is exact for the grammar `G`, and stops only with errors of `fault`.
-/
structure Reads (bytes : List UInt8) (fault : ε → Prop) (r : StateT ℕ (Except ε) α)
    (G : α → List UInt8 → Prop) : Prop where
  ok_iff {pos pos' : ℕ} {a : α} (hpos : pos ≤ bytes.length) :
    r pos = .ok (a, pos') ↔ ∃ code, At bytes pos code ∧ G a code ∧ pos' = pos + code.length
  fault_of_error {pos : ℕ} {e : ε} (hpos : pos ≤ bytes.length) : r pos = .error e → fault e

namespace Reads

variable {fault : ε → Prop} {r r' : StateT ℕ (Except ε) α} {G H : α → List UInt8 → Prop}

/-- Strings that are longer than the bytes do not matter. -/
theorem congr_of_le (h : Reads bytes fault r G)
    (hGH : ∀ a code, code.length ≤ bytes.length → (G a code ↔ H a code)) :
    Reads bytes fault r H where
  ok_iff {pos pos' a} hpos := by
    rw [h.ok_iff hpos]
    refine exists_congr fun code => and_congr_right fun hat => and_congr_left fun _ => ?_
    exact hGH a code (Nat.le_trans (Nat.le_add_left ..) hat.le)
  fault_of_error hpos := h.fault_of_error hpos

theorem congr (h : Reads bytes fault r G) (hGH : ∀ a code, G a code ↔ H a code) :
    Reads bytes fault r H :=
  h.congr_of_le fun a code _ => hGH a code

/-- After a value was read the position is still one of the bytes. -/
theorem le_length (h : Reads bytes fault r G) (hpos : pos ≤ bytes.length) {a : α}
    (hok : r pos = .ok (a, pos')) : pos' ≤ bytes.length := by
  obtain ⟨code, hat, -, rfl⟩ := (h.ok_iff hpos).1 hok
  exact hat.le

theorem pure (a : α) : Reads bytes fault (pure a) fun b code => b = a ∧ code = [] where
  ok_iff {pos pos' b} hpos := by
    refine ⟨?_, ?_⟩
    · intro h
      cases h
      exact ⟨[], at_nil.2 hpos, ⟨rfl, rfl⟩, rfl⟩
    · rintro ⟨code, -, ⟨rfl, rfl⟩, rfl⟩
      rfl
  fault_of_error _ := nofun

theorem throw {e : ε} (he : fault e) :
    Reads bytes fault (throw e : StateT ℕ (Except ε) α) fun _ _ => False where
  ok_iff _ := ⟨nofun, fun ⟨_, _, hfalse, _⟩ => hfalse.elim⟩
  fault_of_error _ h := by
    cases h
    exact he

/-- **A reader that goes on with another** reads the one string and then the other. -/
theorem bind {k : α → StateT ℕ (Except ε) β} {K : α → β → List UInt8 → Prop}
    (h : Reads bytes fault r G) (hk : ∀ a, Reads bytes fault (k a) (K a)) :
    Reads bytes fault (r >>= k) fun b code =>
      ∃ a front rest, G a front ∧ K a b rest ∧ code = front ++ rest where
  ok_iff {pos pos' b} hpos := by
    refine ⟨?_, ?_⟩
    · intro hok
      cases hr : r pos with
      | error e => simp [Bind.bind, StateT.bind, hr, Except.bind] at hok
      | ok x =>
        obtain ⟨a, mid⟩ := x
        have hmid := h.le_length hpos hr
        obtain ⟨front, hfront, hG, rfl⟩ := (h.ok_iff hpos).1 hr
        simp only [Bind.bind, StateT.bind, hr, Except.bind] at hok
        obtain ⟨rest, hrest, hK, rfl⟩ := ((hk a).ok_iff hmid).1 hok
        refine ⟨front ++ rest, at_append.2 ⟨hfront, hrest⟩, ⟨a, front, rest, hG, hK, rfl⟩, ?_⟩
        rw [List.length_append, Nat.add_assoc]
    · rintro ⟨code, hat, ⟨a, front, rest, hG, hK, rfl⟩, rfl⟩
      obtain ⟨hfront, hrest⟩ := at_append.1 hat
      have hr := (h.ok_iff hpos).2 ⟨front, hfront, hG, rfl⟩
      simp only [Bind.bind, StateT.bind, hr, Except.bind]
      refine ((hk a).ok_iff (h.le_length hpos hr)).2 ⟨rest, hrest, hK, ?_⟩
      rw [List.length_append, Nat.add_assoc]
  fault_of_error {pos e} hpos herr := by
    cases hr : r pos with
    | error e' =>
      simp only [Bind.bind, StateT.bind, hr, Except.bind] at herr
      cases herr
      exact h.fault_of_error hpos hr
    | ok x =>
      obtain ⟨a, mid⟩ := x
      simp only [Bind.bind, StateT.bind, hr, Except.bind] at herr
      exact (hk a).fault_of_error (h.le_length hpos hr) herr

theorem ite {c : Prop} [Decidable c] (h : Reads bytes fault r G) (h' : Reads bytes fault r' H) :
    Reads bytes fault (if c then r else r') fun a code =>
      (c → G a code) ∧ (¬ c → H a code) := by
  split
  · next hc => exact h.congr fun a code => by simp [hc]
  · next hc => exact h'.congr fun a code => by simp [hc]

/-- A check that looks at none of the bytes. -/
theorem lift {x : Except ε α} {P : α → Prop} (hok : ∀ a, x = .ok a ↔ P a)
    (herr : ∀ e, x = .error e → fault e) :
    Reads bytes fault (StateT.lift x) fun a code => P a ∧ code = [] := by
  cases x with
  | error e =>
    refine (throw (herr e rfl)).congr fun a code => ?_
    rw [← hok]
    exact ⟨False.elim, fun h => by cases h.1⟩
  | ok a =>
    refine (pure a).congr fun b code => ?_
    rw [← hok, Except.ok.injEq, eq_comm]

/-- A reader of the front of the bytes succeeds when there is a string that it reads. -/
theorem run'_ok_iff (h : Reads bytes fault r G) {a : α} :
    r.run' 0 = .ok a ↔ ∃ code rest, bytes = code ++ rest ∧ G a code := by
  refine ⟨?_, ?_⟩
  · intro hok
    cases hr : r 0 with
    | error e => simp [StateT.run', hr, Functor.map, Except.map] at hok
    | ok x =>
      obtain ⟨a', pos⟩ := x
      obtain ⟨code, ⟨front, rest, hbytes, hfront⟩, hG, -⟩ := (h.ok_iff (Nat.zero_le _)).1 hr
      simp only [StateT.run', hr, Functor.map, Except.map] at hok
      cases hok
      rw [List.eq_nil_of_length_eq_zero hfront, List.nil_append] at hbytes
      exact ⟨code, rest, hbytes, hG⟩
  · rintro ⟨code, rest, hbytes, hG⟩
    have hr := (h.ok_iff (Nat.zero_le _)).2 ⟨code, ⟨[], rest, hbytes, rfl⟩, hG, rfl⟩
    simp only [StateT.run', hr, Functor.map, Except.map]

theorem run'_fault (h : Reads bytes fault r G) {e : ε} (herr : r.run' 0 = .error e) : fault e := by
  cases hr : r 0 with
  | error e' =>
    simp only [StateT.run', hr, Functor.map, Except.map] at herr
    cases herr
    exact h.fault_of_error (Nat.zero_le _) hr
  | ok x =>
    simp only [StateT.run', hr, Functor.map, Except.map] at herr
    cases herr

end Reads

/-! ## Loops -/

/-- `count` times `body`, with what it makes of a value. -/
def iterate (body : β → StateT ℕ (Except ε) β) : ℕ → β → StateT ℕ (Except ε) β
  | 0, b => pure b
  | count + 1, b => do iterate body count (← body b)

/-- The strings that `count` turns of a loop read, and what they make of a value. -/
inductive Turns (G : β → β → List UInt8 → Prop) : ℕ → β → β → List UInt8 → Prop where
  | none (b : β) : Turns G 0 b b []
  | turn {count : ℕ} {b b' b'' : β} {code rest : List UInt8} (h : G b b' code)
      (hrest : Turns G count b' b'' rest) : Turns G (count + 1) b b'' (code ++ rest)

theorem Reads.iterate {fault : ε → Prop} {body : β → StateT ℕ (Except ε) β}
    {G : β → β → List UInt8 → Prop} (h : ∀ b, Reads bytes fault (body b) (G b)) (count : ℕ)
    (b : β) :
    Reads bytes fault (iterate body count b) (Turns G count b) := by
  induction count generalizing b with
  | zero =>
    refine (Reads.pure b).congr fun b' code => ⟨?_, ?_⟩
    · rintro ⟨rfl, rfl⟩
      exact .none _
    · intro hturns
      cases hturns
      exact ⟨rfl, rfl⟩
  | succ count ih =>
    refine ((h b).bind ih).congr fun b' code => ⟨?_, ?_⟩
    · rintro ⟨mid, front, rest, hfront, hrest, rfl⟩
      exact .turn hfront hrest
    · intro hturns
      cases hturns with
      | turn hfront hrest => exact ⟨_, _, _, hfront, hrest, rfl⟩

/-- **The turns of a loop that folds**: a string for each value, and the fold of the values. -/
theorem turns_foldl {f : β → α → β} {G : α → List UInt8 → Prop} {count : ℕ} {b b' : β} :
    Turns (fun b b' code => ∃ a, G a code ∧ b' = f b a) count b b' code ↔
      ∃ (values : List α) (items : List (List UInt8)), values.length = count ∧
        List.Forall₂ G values items ∧ code = items.flatten ∧ b' = values.foldl f b := by
  refine ⟨?_, ?_⟩
  · intro h
    induction h with
    | none b => exact ⟨[], [], rfl, .nil, rfl, rfl⟩
    | turn hturn _ ih =>
      obtain ⟨a, hG, rfl⟩ := hturn
      obtain ⟨values, items, rfl, hvalues, rfl, rfl⟩ := ih
      exact ⟨a :: values, _ :: items, rfl, .cons hG hvalues, rfl, rfl⟩
  · rintro ⟨values, items, rfl, hvalues, rfl, rfl⟩
    induction hvalues generalizing b with
    | nil => exact .none b
    | cons hG _ ih => exact .turn ⟨_, hG, rfl⟩ ih

/-- The turns of a loop that keeps nothing. -/
theorem turns_unit {G : List UInt8 → Prop} {count : ℕ} {u u' : Unit} :
    Turns (fun _ _ => G) count u u' code ↔
      ∃ items : List (List UInt8), items.length = count ∧ (∀ item ∈ items, G item) ∧
        code = items.flatten := by
  refine ⟨?_, ?_⟩
  · intro h
    induction h with
    | none => exact ⟨[], rfl, nofun, rfl⟩
    | turn hG _ ih =>
      obtain ⟨items, rfl, hitems, rfl⟩ := ih
      exact ⟨_ :: items, rfl, List.forall_mem_cons.2 ⟨hG, hitems⟩, rfl⟩
  · rintro ⟨items, rfl, hitems, rfl⟩
    induction items with
    | nil => exact .none ()
    | cons item items ih =>
      obtain ⟨hitem, hitems⟩ := List.forall_mem_cons.1 hitems
      exact .turn hitem (ih hitems)

/-- `body` as long as there are bytes. Each turn of it moves the position on. -/
def untilEnd (bytes : List UInt8) (body : StateT ℕ (Except ε) Unit)
    (hmoves : ∀ pos pos', pos < bytes.length → body pos = .ok ((), pos') → pos < pos') (pos : ℕ) :
    Except ε Unit :=
  if h : pos < bytes.length then
    match hbody : body pos with
    | .error e => .error e
    | .ok ((), pos') =>
      have := hmoves pos pos' h hbody
      untilEnd bytes body hmoves pos'
  else .ok ()
termination_by bytes.length - pos

section untilEnd

variable {fault : ε → Prop} {body : StateT ℕ (Except ε) Unit} {G : Unit → List UInt8 → Prop}
  {hmoves : ∀ pos pos', pos < bytes.length → body pos = .ok ((), pos') → pos < pos'}

/-- **A loop to the end** succeeds on a sequence of the strings that one turn reads. -/
theorem untilEnd_ok_iff (h : Reads bytes fault body G) (hpos : pos ≤ bytes.length) :
    untilEnd bytes body hmoves pos = .ok () ↔
      ∃ items : List (List UInt8), (∀ item ∈ items, G () item) ∧
        bytes.drop pos = items.flatten := by
  fun_induction untilEnd bytes body hmoves pos with
  | case1 pos hlt e hbody =>
    refine ⟨nofun, ?_⟩
    rintro ⟨items, hitems, heq⟩
    cases items with
    | nil =>
      have hlen := congrArg List.length heq
      rw [List.length_drop, List.flatten_nil, List.length_nil] at hlen
      omega
    | cons item items =>
      have hat : At bytes pos item :=
        ⟨bytes.take pos, items.flatten, by rw [← List.flatten_cons, ← heq, List.take_append_drop],
          List.length_take_of_le hpos⟩
      have hok := (h.ok_iff hpos).2 ⟨item, hat, hitems item (.head _), rfl⟩
      rw [hbody] at hok
      cases hok
  | case2 pos hlt pos' hbody _ ih =>
    obtain ⟨code, hat, hG, rfl⟩ := (h.ok_iff hpos).1 hbody
    rw [ih (h.le_length hpos hbody)]
    obtain ⟨front, rest, rfl, rfl⟩ := hat
    have hdrop : (front ++ (code ++ rest)).drop (front.length + code.length) = rest := by
      rw [← List.append_assoc, ← List.length_append, List.drop_left]
    rw [hdrop, List.drop_left]
    refine ⟨?_, ?_⟩
    · rintro ⟨items, hitems, rfl⟩
      exact ⟨code :: items, List.forall_mem_cons.2 ⟨hG, hitems⟩, rfl⟩
    · rintro ⟨items, hitems, heq⟩
      cases items with
      | nil =>
        have hnil := List.append_eq_nil_iff.1 heq
        exact ⟨[], nofun, hnil.2⟩
      | cons item items =>
        obtain ⟨hitem, hitems⟩ := List.forall_mem_cons.1 hitems
        -- the string in front is the one that was read
        have hat : At (front ++ (code ++ rest)) front.length item :=
          ⟨front, items.flatten, by rw [heq, List.flatten_cons], rfl⟩
        have hagain := (h.ok_iff hpos).2 ⟨item, hat, hitem, rfl⟩
        rw [hbody] at hagain
        have hlen : code.length = item.length := by
          injection hagain with hagain
          injection hagain with _ hagain
          omega
        rw [List.flatten_cons] at heq
        obtain ⟨-, rfl⟩ := List.append_inj heq hlen
        exact ⟨items, hitems, rfl⟩
  | case3 pos hge =>
    refine ⟨fun _ => ⟨[], nofun, ?_⟩, fun _ => rfl⟩
    rw [List.flatten_nil, List.drop_eq_nil_iff]
    omega

theorem untilEnd_fault (h : Reads bytes fault body G) (hpos : pos ≤ bytes.length) {e : ε}
    (herr : untilEnd bytes body hmoves pos = .error e) : fault e := by
  fun_induction untilEnd bytes body hmoves pos with
  | case1 pos hlt e' hbody =>
    cases herr
    exact h.fault_of_error hpos hbody
  | case2 pos hlt pos' hbody _ ih => exact ih (h.le_length hpos hbody) herr
  | case3 pos hge => cases herr

end untilEnd

end Cursor
