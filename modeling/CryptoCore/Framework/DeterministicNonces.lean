import Mathlib.Data.List.Basic
import CryptoCore.Framework.ByteStrings

/-!
# Deterministic nonces

The generation of a secret number per message from a keyed code and a group order: a key and a value
are updated in a fixed order, a candidate is read off the values, and a candidate that does not
serve is followed by one more update of both.

The code, the number of bytes it returns and the order are parameters. `bits2int` takes the leftmost
bits of a byte string and does not reduce the number, so that a candidate can be zero or not below
the order; `bits2octets` reduces it once.

The generator does not know what serves. `candidate` is the infinite sequence of candidates for a
secret number and a hash, in which the state between two candidates is updated by `reject` whether
or not the first of them served. A user bounds the search: `firstSuccess` is the search through a
number of attempts for one that succeeds, and the lemmas about it say when there is none and which
attempt a success is from.
-/

namespace DeterministicNonces

open ByteStrings

section Generator

/-! ## Numbers and octets -/

variable (q : ℕ)

/-- The octets of a number below the order, which is the size of its bits rounded up. -/
def octetLength : ℕ := (q.size + 7) / 8

/-- The leftmost bits of a byte string, as many as the order has. A string that is shorter than the
order is the number it stands for. -/
def bits2int (bits : List UInt8) : ℕ :=
  beValue bits / 2 ^ (8 * bits.length - q.size)

/-- A number below the order in a fixed number of octets, the highest first. -/
def int2octets (x : ℕ) : List UInt8 :=
  beBytes (octetLength q) x

/-- The octets of the leftmost bits of a hash, reduced by the order. -/
def bits2octets (bits : List UInt8) : List UInt8 :=
  int2octets q (bits2int q bits % q)

/-! ## The generator -/

variable (mac : List UInt8 → List UInt8 → List UInt8) (macLength : ℕ)

/-- The key and the value between two calls of the code; both have the size of what the code
returns. -/
structure State where
  key : List UInt8
  value : List UInt8

/-- The state that a secret number and the hash of a message start from. Key and value are updated
twice, with a different octet between the value and the secret. -/
def start (x : ℕ) (hash : List UInt8) : State :=
  let secret := int2octets q x ++ bits2octets q hash
  let value := List.replicate macLength 0x01
  let key := List.replicate macLength 0x00
  let key := mac key (value ++ [0x00] ++ secret)
  let value := mac key value
  let key := mac key (value ++ [0x01] ++ secret)
  let value := mac key value
  ⟨key, value⟩

/-- The values put one after the other until there are enough bits. Each value is the code of the
one before it. -/
def collect (state : State) : ℕ → List UInt8 × State
  | 0 => ([], state)
  | rounds + 1 =>
      let (bits, state) := collect state rounds
      let value := mac state.key state.value
      (bits ++ value, { state with value })

/-- How many values have as many bits as the order. It is one when the code returns at least as many
bits as the order has. -/
def rounds : ℕ := (q.size + (8 * macLength - 1)) / (8 * macLength)

/-- The next candidate and the state behind it. It is read off the leftmost bits of the collected
values and may be zero or too large. -/
def next (state : State) : ℕ × State :=
  let (bits, state) := collect mac state (rounds q macLength)
  (bits2int q bits, state)

/-- The update after a candidate that did not serve: a new key from the value and a zero octet, and
a new value under that key. -/
def reject (state : State) : State :=
  let key := mac state.key (state.value ++ [0x00])
  ⟨key, mac key state.value⟩

/-- The state in front of a candidate: all candidates before it were rejected. -/
def stateAt (state : State) : ℕ → State
  | 0 => state
  | i + 1 => reject mac (next q mac macLength (stateAt state i)).2

/-- The candidates from a state on. -/
def candidateFrom (state : State) (i : ℕ) : ℕ :=
  (next q mac macLength (stateAt q mac macLength state i)).1

/-- The candidates for a secret number and the hash of a message. -/
def candidate (x : ℕ) (hash : List UInt8) : ℕ → ℕ :=
  candidateFrom q mac macLength (start q mac macLength x hash)

end Generator

/-! ## The search through the candidates -/

variable {β : Type*}

/-- The first success among a number of attempts, counted from a given one. There need not be any.
-/
def firstSuccess (attempt : ℕ → Option β) (first count : ℕ) : Option β :=
  (List.range' first count).findSome? attempt

lemma firstSuccess_succ (attempt : ℕ → Option β) (first count : ℕ) :
    firstSuccess attempt first (count + 1) =
      (attempt first).or (firstSuccess attempt (first + 1) count) := by
  rw [firstSuccess, List.range'_succ, List.findSome?_cons, firstSuccess]
  cases attempt first <;> rfl

/-- There is no success exactly when every attempt fails. -/
lemma firstSuccess_eq_none_iff {attempt : ℕ → Option β} {count : ℕ} :
    firstSuccess attempt 0 count = none ↔ ∀ i < count, attempt i = none := by
  rw [firstSuccess, List.findSome?_eq_none_iff]
  simp

/-- A success is that of an attempt with only failures in front of it, and of an attempt within the
bound. -/
lemma exists_of_firstSuccess {attempt : ℕ → Option β} {first count : ℕ} {b : β}
    (h : firstSuccess attempt first count = some b) :
    ∃ i, first ≤ i ∧ i < first + count ∧ attempt i = some b ∧
      ∀ j, first ≤ j → j < i → attempt j = none := by
  induction count generalizing first with
  | zero => cases h
  | succ count ih =>
      rw [firstSuccess_succ] at h
      cases hfirst : attempt first with
      | some c =>
          rw [hfirst, Option.some_or] at h
          exact ⟨first, le_rfl, by omega, hfirst.trans h, fun j hj hlt => absurd hlt (by omega)⟩
      | none =>
          rw [hfirst, Option.none_or] at h
          obtain ⟨i, hle, hlt, hi, hbefore⟩ := ih h
          refine ⟨i, by omega, by omega, hi, fun j hj hji => ?_⟩
          rcases hj.eq_or_lt with rfl | hgt
          · exact hfirst
          · exact hbefore j hgt hji

/-- The first success is that of the attempt with only failures in front of it, counted from the
first attempt of all. -/
lemma firstSuccess_eq_some_iff {attempt : ℕ → Option β} {count : ℕ} {b : β} :
    firstSuccess attempt 0 count = some b ↔
      ∃ i < count, attempt i = some b ∧ ∀ j < i, attempt j = none := by
  constructor
  · intro h
    obtain ⟨i, -, hlt, hi, hbefore⟩ := exists_of_firstSuccess h
    exact ⟨i, by omega, hi, fun j hj => hbefore j (Nat.zero_le j) hj⟩
  · rintro ⟨i, hlt, hi, hbefore⟩
    cases hsearch : firstSuccess attempt 0 count with
    | none =>
        rw [firstSuccess_eq_none_iff.mp hsearch i hlt] at hi
        cases hi
    | some c =>
        obtain ⟨i', -, -, hi', hbefore'⟩ := exists_of_firstSuccess hsearch
        rcases lt_trichotomy i i' with h | h | h
        · rw [hbefore' i (Nat.zero_le i) h] at hi
          cases hi
        · rw [← hi', ← h, hi]
        · rw [hbefore i' h] at hi'
          cases hi'

end DeterministicNonces
