import Mathlib.Data.Nat.Notation
import Mathlib.Tactic.TypeStar
import Mouser.Lib.Machine

/-!
# Two processes that talk over channels

A process is sequential: from a state it sends a message, waits for one, or is done (`Act`). Two
processes that talk to each other over two lossless channels have their states and the queues
between them (`Talk`), and which of them moves next is not determined. A move of the one does not
disable or change the move of the other (`Talk.diamond`), so the order does not matter in the end:
`Talk.outcome` says that a run that comes to an end does so in the state, and after as many moves,
as any other run that does, and that there is no run that does not come to it.

`Steps r n` is `n` steps of a relation, and `Steps.of_steps` the argument for any relation of which
two different steps can be completed to a diamond.

`Act.machine` is one process alone, in surroundings that may send it anything.
-/

/-- `n` steps of a relation. -/
inductive Steps {σ : Type*} (r : σ → σ → Prop) : ℕ → σ → σ → Prop where
  | zero (s : σ) : Steps r 0 s s
  | succ {n : ℕ} {s t u : σ} (h : r s t) (hs : Steps r n t u) : Steps r (n + 1) s u

/-- Two steps from one state lead to the same one, or are completed by one step each. -/
def Diamond {σ : Type*} (r : σ → σ → Prop) : Prop :=
  ∀ s t u, r s t → r s u → t = u ∨ ∃ v, r t v ∧ r u v

namespace Steps

variable {σ : Type*} {r : σ → σ → Prop} {m n : ℕ} {s t u : σ}

theorem one (h : r s t) : Steps r 1 s t := .succ h (.zero t)

theorem trans (h : Steps r m s t) (h' : Steps r n t u) : Steps r (n + m) s u := by
  induction h with
  | zero => exact h'
  | succ hr _ ih => exact .succ hr (ih h')

/-- After any first step the end is one step nearer. -/
theorem of_step (hd : Diamond r) (hu : ∀ v, ¬ r u v) (h : Steps r n s u) (hst : r s t) :
    ∃ m, n = m + 1 ∧ Steps r m t u := by
  induction h generalizing t with
  | zero => exact absurd hst (hu _)
  | @succ n s s' u hr hrest ih =>
    rcases hd _ _ _ hr hst with rfl | ⟨v, hv, hv'⟩
    · exact ⟨n, rfl, hrest⟩
    · obtain ⟨m, rfl, hm⟩ := ih hu hv
      exact ⟨m + 1, rfl, .succ hv' hm⟩

/-- **Every run is on its way to the end**: if some run ends, then any other one can be continued to
end in the same state, after as many steps in all. -/
theorem of_steps (hd : Diamond r) (hu : ∀ v, ¬ r u v) (h : Steps r n s u) (h' : Steps r m s t) :
    ∃ k, n = m + k ∧ Steps r k t u := by
  induction h' generalizing n with
  | zero => exact ⟨n, (Nat.zero_add n).symm, h⟩
  | succ hr _ ih =>
    obtain ⟨n', rfl, hn'⟩ := of_step hd hu h hr
    obtain ⟨k, rfl, hk⟩ := ih hn'
    exact ⟨k, by omega, hk⟩

end Steps

/-- What a process does next. It learns whether it could send, and what it received. -/
inductive Act (σ α β ε : Type*) where
  | send (x : α) (next : Except ε Unit → σ)
  | recv (next : Except ε β → σ)
  | done

namespace Act

variable {σ ρ α β ε : Type*}

/-- A process that is a part of another one. -/
def map (f : σ → ρ) : Act σ α β ε → Act ρ α β ε
  | .send x next => .send x fun result => f (next result)
  | .recv next => .recv fun result => f (next result)
  | .done => .done

/-- How the operation ends that a process waits for. -/
inductive Event (β ε : Type*) where
  | sent (result : Except ε Unit)
  | received (result : Except ε β)

/-- The operation has ended so; one that the process does not wait for changes nothing. -/
def after (s : σ) : Act σ α β ε → Event β ε → σ
  | .send _ next, .sent result => next result
  | .recv next, .received result => next result
  | _, _ => s

def machine (p : σ → Act σ α β ε) : Machine σ (Event β ε) Unit :=
  ⟨fun s event => ((p s).after s event, ())⟩

/-- What the operations of a process preserve, whatever they end with. -/
theorem inv_exec {p : σ → Act σ α β ε} {I : σ → Prop}
    (hsend : ∀ s x next result, p s = .send x next → I s → I (next result))
    (hrecv : ∀ s next result, p s = .recv next → I s → I (next result)) {s : σ} (h : I s)
    (events : List (Event β ε)) : I ((machine p).exec s events) := by
  refine (machine p).inv_exec h ?_ events
  intro s event hs
  change I ((p s).after s event)
  cases hact : p s with
  | done => exact hs
  | send x next =>
    cases event with
    | sent result => exact hsend s x next result hact hs
    | received _ => exact hs
  | recv next =>
    cases event with
    | sent _ => exact hs
    | received result => exact hrecv s next result hact hs

end Act

/-- Two processes, and what each has sent that the other has not received. -/
structure Talk (σ τ α β : Type*) where
  left : σ
  right : τ
  toRight : List α
  toLeft : List β

/-- Which of the two moves. -/
inductive Side where
  | left
  | right
deriving DecidableEq

namespace Talk

variable {σ τ α β ε ε' : Type*} (p : σ → Act σ α β ε) (q : τ → Act τ β α ε')

def moveLeft (s : Talk σ τ α β) : Option (Talk σ τ α β) :=
  match p s.left with
  | .send x next => some { s with left := next (.ok ()), toRight := s.toRight ++ [x] }
  | .recv next =>
    match s.toLeft with
    | [] => none
    | y :: rest => some { s with left := next (.ok y), toLeft := rest }
  | .done => none

def moveRight (s : Talk σ τ α β) : Option (Talk σ τ α β) :=
  match q s.right with
  | .send y next => some { s with right := next (.ok ()), toLeft := s.toLeft ++ [y] }
  | .recv next =>
    match s.toRight with
    | [] => none
    | x :: rest => some { s with right := next (.ok x), toRight := rest }
  | .done => none

def move (s : Talk σ τ α β) : Side → Option (Talk σ τ α β)
  | .left => s.moveLeft p
  | .right => s.moveRight q

/-- One of the two moves. -/
def Step (s t : Talk σ τ α β) : Prop := ∃ side, s.move p q side = some t

/-- A run: whose turn it is that cannot move waits. -/
def exec (s : Talk σ τ α β) : List Side → Talk σ τ α β
  | [] => s
  | side :: sides => exec ((s.move p q side).getD s) sides

/-- Neither of the two can move. -/
def Stuck (s : Talk σ τ α β) : Prop := ∀ side, s.move p q side = none

variable {p q} {s t u : Talk σ τ α β}

theorem Stuck.not_step (h : s.Stuck p q) (t : Talk σ τ α β) : ¬ Step p q s t := by
  rintro ⟨side, hmove⟩
  rw [h side] at hmove
  cases hmove

theorem moveLeft_send {x : α} {next : Except ε Unit → σ} (h : p s.left = .send x next) :
    s.moveLeft p = some { s with left := next (.ok ()), toRight := s.toRight ++ [x] } := by
  rw [moveLeft, h]

theorem moveLeft_recv {y : β} {rest : List β} {next : Except ε β → σ} (h : p s.left = .recv next)
    (hqueue : s.toLeft = y :: rest) :
    s.moveLeft p = some { s with left := next (.ok y), toLeft := rest } := by
  rw [moveLeft, h]
  dsimp only
  rw [hqueue]

theorem moveRight_send {y : β} {next : Except ε' Unit → τ} (h : q s.right = .send y next) :
    s.moveRight q = some { s with right := next (.ok ()), toLeft := s.toLeft ++ [y] } := by
  rw [moveRight, h]

theorem moveRight_recv {x : α} {rest : List α} {next : Except ε' α → τ} (h : q s.right = .recv next)
    (hqueue : s.toRight = x :: rest) :
    s.moveRight q = some { s with right := next (.ok x), toRight := rest } := by
  rw [moveRight, h]
  dsimp only
  rw [hqueue]

/-- A move of the one, and then of the other. -/
theorem move_comm (hleft : s.moveLeft p = some t) (hright : s.moveRight q = some u) :
    ∃ v, t.moveRight q = some v ∧ u.moveLeft p = some v := by
  obtain ⟨l, r, toRight, toLeft⟩ := s
  simp only [moveLeft, moveRight] at hleft hright
  cases hl : p l with
  | done =>
    rw [hl] at hleft
    cases hleft
  | send x next =>
    rw [hl] at hleft
    cases hleft
    cases hr : q r with
    | done =>
      rw [hr] at hright
      cases hright
    | send y next' =>
      rw [hr] at hright
      cases hright
      exact ⟨_, moveRight_send hr, moveLeft_send hl⟩
    | recv next' =>
      rw [hr] at hright
      cases toRight with
      | nil => cases hright
      | cons x' rest =>
        cases hright
        exact ⟨_, moveRight_recv hr rfl, moveLeft_send hl⟩
  | recv next =>
    rw [hl] at hleft
    cases toLeft with
    | nil => cases hleft
    | cons y' rest' =>
      cases hleft
      cases hr : q r with
      | done =>
        rw [hr] at hright
        cases hright
      | send y next' =>
        rw [hr] at hright
        cases hright
        exact ⟨_, moveRight_send hr, moveLeft_recv hl rfl⟩
      | recv next' =>
        rw [hr] at hright
        cases toRight with
        | nil => cases hright
        | cons x' rest =>
          cases hright
          exact ⟨_, moveRight_recv hr rfl, moveLeft_recv hl rfl⟩

/-- **The two do not get in each other's way.** -/
theorem diamond : Diamond (Step p q) := by
  rintro s t u ⟨side, ht⟩ ⟨side', hu⟩
  cases side <;> cases side'
  · exact .inl (Option.some.inj (ht.symm.trans hu))
  · obtain ⟨v, hv, hv'⟩ := move_comm ht hu
    exact .inr ⟨v, ⟨.right, hv⟩, .left, hv'⟩
  · obtain ⟨v, hv, hv'⟩ := move_comm hu ht
    exact .inr ⟨v, ⟨.left, hv'⟩, .right, hv⟩
  · exact .inl (Option.some.inj (ht.symm.trans hu))

/-- A run makes at most as many steps as it has turns. -/
theorem steps_exec (s : Talk σ τ α β) (sides : List Side) :
    ∃ n ≤ sides.length, Steps (Step p q) n s (s.exec p q sides) := by
  induction sides generalizing s with
  | nil => exact ⟨0, Nat.zero_le _, .zero s⟩
  | cons side sides ih =>
    rw [exec]
    cases hmove : s.move p q side with
    | none =>
      obtain ⟨n, hn, hsteps⟩ := ih s
      exact ⟨n, Nat.le_succ_of_le hn, hsteps⟩
    | some t =>
      obtain ⟨n, hn, hsteps⟩ := ih t
      exact ⟨n + 1, Nat.succ_le_succ hn, .succ ⟨side, hmove⟩ hsteps⟩

/-- **The outcome does not depend on the order.** If some run of `n` moves ends in `u`, then every
run makes at most `n` moves; until it has made `n`, one of the two can move, and then it is in
`u`. -/
theorem outcome {n : ℕ} (h : Steps (Step p q) n s u) (hu : u.Stuck p q) (sides : List Side) :
    ∃ m ≤ n, Steps (Step p q) m s (s.exec p q sides) ∧
      (m < n → ∃ side t, (s.exec p q sides).move p q side = some t) ∧
      (m = n → s.exec p q sides = u) := by
  obtain ⟨m, -, hm⟩ := steps_exec (p := p) (q := q) s sides
  obtain ⟨k, rfl, hrest⟩ := Steps.of_steps diamond hu.not_step h hm
  refine ⟨m, Nat.le_add_right m k, hm, ?_, ?_⟩
  · intro hlt
    cases hrest with
    | zero => omega
    | succ hstep _ =>
      obtain ⟨side, hmove⟩ := hstep
      exact ⟨side, _, hmove⟩
  · intro heq
    obtain rfl : k = 0 := by omega
    cases hrest
    rfl

end Talk
