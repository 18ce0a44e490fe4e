import Mathlib.Data.List.Basic
import Mathlib.Algebra.Order.Ring.Nat
import Mathlib.Tactic.Ring

/-!
# Length-prefixed frames

A frame is its payload behind the payload's length, in `k` bytes, least significant first. A reader
of a stream of frames gets the bytes in pieces of any size: `Progress` is how far it is into one
frame, and `Progress.feed` what the next bytes make of it. Whatever the pieces are, the reader
yields the payloads of the stream, one by one (`Progress.feed_frames`).
-/

namespace Framing

/-- The `k` low bytes of `n`, least significant first. -/
def leBytes : ℕ → ℕ → List UInt8
  | 0, _ => []
  | k + 1, n => UInt8.ofNat n :: leBytes k (n / 256)

/-- The number that the bytes stand for, least significant first. -/
def ofLeBytes : List UInt8 → ℕ
  | [] => 0
  | b :: bs => b.toNat + 256 * ofLeBytes bs

@[simp] theorem length_leBytes (k n : ℕ) : (leBytes k n).length = k := by
  induction k generalizing n with
  | zero => rfl
  | succ k ih => simp [leBytes, ih]

theorem ofLeBytes_leBytes {k n : ℕ} (h : n < 256 ^ k) : ofLeBytes (leBytes k n) = n := by
  induction k generalizing n with
  | zero => simp_all [leBytes, ofLeBytes]
  | succ k ih =>
    have hdiv : n / 256 < 256 ^ k := Nat.div_lt_of_lt_mul (by rwa [pow_succ'] at h)
    have hbyte : (UInt8.ofNat n).toNat = n % 256 := rfl
    rw [leBytes, ofLeBytes, ih hdiv, hbyte, Nat.mod_add_div]

/-- The bytes that stand for a number are the ones it is written in. -/
theorem leBytes_ofLeBytes (bytes : List UInt8) :
    leBytes bytes.length (ofLeBytes bytes) = bytes := by
  induction bytes with
  | nil => rfl
  | cons b bs ih =>
    have hb := b.toNat_lt
    have hdiv : (b.toNat + 256 * ofLeBytes bs) / 256 = ofLeBytes bs := by omega
    have hlow : UInt8.ofNat (b.toNat + 256 * ofLeBytes bs) = b := by
      apply UInt8.toNat_inj.1
      rw [UInt8.toNat_ofNat']
      omega
    rw [List.length_cons, ofLeBytes, leBytes, hdiv, hlow, ih]

theorem ofLeBytes_lt (bytes : List UInt8) : ofLeBytes bytes < 256 ^ bytes.length := by
  induction bytes with
  | nil => exact Nat.one_pos
  | cons b bs ih =>
    have hb := b.toNat_lt
    rw [List.length_cons, ofLeBytes, pow_succ]
    omega

theorem ofLeBytes_concat (bytes : List UInt8) (b : UInt8) :
    ofLeBytes (bytes ++ [b]) = ofLeBytes bytes + 256 ^ bytes.length * b.toNat := by
  induction bytes with
  | nil => simp [ofLeBytes]
  | cons c bytes ih =>
    rw [List.cons_append, ofLeBytes, ofLeBytes, ih, List.length_cons]
    ring

theorem leBytes_injOn {k m n : ℕ} (hm : m < 256 ^ k) (hn : n < 256 ^ k)
    (h : leBytes k m = leBytes k n) : m = n := by
  rw [← ofLeBytes_leBytes hm, h, ofLeBytes_leBytes hn]

/-- A payload behind its length. -/
def frame (k : ℕ) (payload : List UInt8) : List UInt8 :=
  leBytes k payload.length ++ payload

/-- The frames of the payloads, one after the other. -/
def frames (k : ℕ) (payloads : List (List UInt8)) : List UInt8 :=
  payloads.flatMap (frame k)

@[simp] theorem frames_nil (k : ℕ) : frames k [] = [] := rfl

@[simp] theorem frames_cons (k : ℕ) (payload : List UInt8) (payloads : List (List UInt8)) :
    frames k (payload :: payloads) = frame k payload ++ frames k payloads := by
  simp [frames]

/-- How far a reader is into a frame: in its length, or in its payload, of at most `max` bytes. -/
inductive Progress (k max : ℕ) where
  | header (got : List UInt8) (h : got.length < k)
  | body (len : ℕ) (got : List UInt8) (hlen : len ≤ max) (h : got.length < len)
deriving DecidableEq

/-- What the next bytes make of a frame. -/
inductive Fed (k max : ℕ) where
  | more (p : Progress k max)
  | payload (bytes : List UInt8)
  | tooLarge (len : ℕ)
deriving DecidableEq

namespace Progress

variable {k max : ℕ}

/-- At the boundary between two frames. -/
def start (hk : 0 < k) : Progress k max := .header [] hk

/-- The bytes of the frame that were read. -/
def bytes : Progress k max → List UInt8
  | .header got _ => got
  | .body len got _ _ => leBytes k len ++ got

/-- How many more bytes the reader asks for. -/
def wants : Progress k max → ℕ
  | .header got _ => k - got.length
  | .body len got _ _ => len - got.length

def feed (p : Progress k max) (bs : List UInt8) : Fed k max :=
  match p with
  | .header got _ =>
    if h : (got ++ bs).length < k then .more (.header (got ++ bs) h)
    else if hlen : ofLeBytes (got ++ bs) ≤ max then
      if h0 : 0 < ofLeBytes (got ++ bs) then .more (.body (ofLeBytes (got ++ bs)) [] hlen h0)
      else .payload []
    else .tooLarge (ofLeBytes (got ++ bs))
  | .body len got hlen _ =>
    if h : (got ++ bs).length < len then .more (.body len (got ++ bs) hlen h)
    else .payload (got ++ bs)

@[simp] theorem bytes_start (hk : 0 < k) : (start hk : Progress k max).bytes = [] := rfl

variable {p : Progress k max} {bs payload more rest : List UInt8}

/-- The length of a frame's payload is read off its first `k` bytes. -/
theorem header_eq {len : ℕ} {got : List UInt8} (hmax : max < 256 ^ k) (hlen : len ≤ max)
    (hpayload : payload.length ≤ max)
    (h : leBytes k len ++ got = frame k payload ++ rest) :
    len = payload.length ∧ got = payload ++ rest := by
  rw [frame, List.append_assoc] at h
  obtain ⟨hheader, hbody⟩ := List.append_inj h (by simp)
  exact ⟨leBytes_injOn (by omega) (by omega) hheader, hbody⟩

/-- **One piece of a frame.** Bytes of a frame, no more than the reader asks for, bring it further
into the frame, or complete the payload. -/
theorem feed_frame (hmax : max < 256 ^ k) (hpayload : payload.length ≤ max)
    (hwants : bs.length ≤ p.wants) (h : p.bytes ++ bs ++ more = frame k payload ++ rest) :
    (∃ q, p.feed bs = .more q ∧ q.bytes = p.bytes ++ bs) ∨
      p.feed bs = .payload payload ∧ p.bytes ++ bs = frame k payload := by
  cases p with
  | header got hgot =>
    simp only [bytes, wants] at h hwants
    by_cases hshort : (got ++ bs).length < k
    · exact .inl ⟨.header (got ++ bs) hshort, by rw [feed, dif_pos hshort], rfl⟩
    · have hlength : (got ++ bs).length = k := by
        rw [List.length_append] at hshort ⊢
        omega
      have hheader : got ++ bs = leBytes k payload.length := by
        have hstream : got ++ bs ++ more = leBytes k payload.length ++ (payload ++ rest) := by
          rw [h, frame, List.append_assoc]
        exact (List.append_inj hstream (by rw [hlength, length_leBytes])).1
      have hlen : ofLeBytes (got ++ bs) = payload.length := by
        rw [hheader, ofLeBytes_leBytes (by omega)]
      by_cases h0 : 0 < payload.length
      · refine .inl ⟨.body (ofLeBytes (got ++ bs)) [] (by omega) (by simp [hlen, h0]), ?_, ?_⟩
        · rw [feed, dif_neg hshort, dif_pos (by omega), dif_pos (by omega)]
        · rw [bytes, bytes, List.append_nil, hlen, ← hheader]
      · have hnil : payload = [] := List.eq_nil_of_length_eq_zero (by omega)
        subst hnil
        refine .inr ⟨?_, by simp [bytes, frame, hheader]⟩
        rw [feed, dif_neg hshort, dif_pos (by omega), dif_neg (by omega)]
  | body len got hlen hgot =>
    simp only [bytes, wants, List.append_assoc] at h hwants
    obtain ⟨rfl, hbody⟩ := header_eq hmax hlen hpayload h
    by_cases hshort : (got ++ bs).length < payload.length
    · exact .inl ⟨.body _ (got ++ bs) hlen hshort, by rw [feed, dif_pos hshort], by simp [bytes]⟩
    · have hdone : got ++ bs = payload := by
        rw [← List.append_assoc] at hbody
        refine (List.append_inj hbody ?_).1
        rw [List.length_append] at hshort ⊢
        omega
      refine .inr ⟨by rw [feed, dif_neg hshort, hdone], ?_⟩
      simp [bytes, frame, hdone]

/-- A reader in the middle of a frame has not read all of it. -/
theorem eq_nil_of_bytes {payloads : List (List UInt8)} (hmax : max < 256 ^ k)
    (hall : ∀ x ∈ payloads, x.length ≤ max) (h : p.bytes = frames k payloads) :
    payloads = [] := by
  cases payloads with
  | nil => rfl
  | cons payload payloads =>
    rw [frames_cons] at h
    cases p with
    | header got hgot =>
      have hlength := congrArg List.length h
      simp [bytes, frame] at hlength
      omega
    | body len got hlen hgot =>
      obtain ⟨rfl, rfl⟩ := header_eq hmax hlen (hall payload (.head _)) h
      simp at hgot

/-- **The pieces of a stream.** Bytes of a stream of frames bring the reader further into a frame,
or complete the payload of the next frame. -/
theorem feed_frames {payloads : List (List UInt8)} (hmax : max < 256 ^ k)
    (hall : ∀ x ∈ payloads, x.length ≤ max) (hbs : bs ≠ []) (hwants : bs.length ≤ p.wants)
    (h : p.bytes ++ bs ++ more = frames k payloads) :
    (∃ q, p.feed bs = .more q ∧ q.bytes ++ more = frames k payloads) ∨
      ∃ payload rest, payloads = payload :: rest ∧ p.feed bs = .payload payload ∧
        more = frames k rest := by
  cases payloads with
  | nil => simp_all
  | cons payload rest =>
    rw [frames_cons] at h
    rcases feed_frame hmax (hall payload (.head _)) hwants h with ⟨q, hfeed, hq⟩ | ⟨hfeed, hbytes⟩
    · exact .inl ⟨q, hfeed, by rw [hq, h, frames_cons]⟩
    · rw [hbytes] at h
      exact .inr ⟨payload, rest, rfl, hfeed, List.append_cancel_left h⟩

end Progress

end Framing
