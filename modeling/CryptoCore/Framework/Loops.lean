import Mathlib.Algebra.Group.Basic
import Mathlib.Data.Nat.Bitwise
import Mathlib.Tactic
import CryptoCore.Framework.ByteStrings

/-!
# Counting loops, their invariants and the loops over the bits of an exponent

`loopUp` and `loopDown` are the two counting loops; `loopUpM` and `loopDownM` are the same loops
with a body that may fail and then ends the run. Each comes with its invariant rule: an
invariant that holds before the loop and is kept by every round holds after it, and for the
loops that may fail, rounds that succeed as long as the invariant holds never fail.

`Refines` relates a computation that may fail to the value it stands for: it succeeds, with
something that represents the value.

The arithmetic of the loops over the bits of an exponent is that of its prefixes: reading a
number from the top, bit `i` turns the prefix `e / 2^(i+1)` into `e / 2^i`; reading it from the
bottom, it turns `e % 2^i` into `e % 2^(i+1)`. Loops over the bits of a byte string read its
big-endian value in the same way.
-/

namespace Loops

universe u v

variable {σ : Type u} {ε : Type v}

/-! ## Loops that always finish -/

/-- `for (i = 0; i < n; ++i) s = body(i, s)`. -/
def loopUp (body : ℕ → σ → σ) : ℕ → σ → σ
  | 0, s => s
  | n + 1, s => body n (loopUp body n s)

/-- `for (i = n; i > 0; --i) s = body(i - 1, s)`. -/
def loopDown (body : ℕ → σ → σ) : ℕ → σ → σ
  | 0, s => s
  | n + 1, s => loopDown body n (body n s)

/-- The invariant rule of the loop that counts up: `P i` holds before round `i`. -/
theorem loopUp_invariant (body : ℕ → σ → σ) {n : ℕ} (P : ℕ → σ → Prop) {s : σ} (hinit : P 0 s)
    (hstep : ∀ i < n, ∀ s, P i s → P (i + 1) (body i s)) : P n (loopUp body n s) := by
  induction n with
  | zero => exact hinit
  | succ n ih =>
      exact hstep n (Nat.lt_succ_self n) _ (ih fun i hi => hstep i (Nat.lt_succ_of_lt hi))

/-- The invariant rule of the loop that counts down: `P i` holds when `i` rounds are left. -/
theorem loopDown_invariant (body : ℕ → σ → σ) {n : ℕ} (P : ℕ → σ → Prop) {s : σ} (hinit : P n s)
    (hstep : ∀ i < n, ∀ s, P (i + 1) s → P i (body i s)) : P 0 (loopDown body n s) := by
  induction n generalizing s with
  | zero => exact hinit
  | succ n ih =>
      exact ih (hstep n (Nat.lt_succ_self n) s hinit) fun i hi => hstep i (Nat.lt_succ_of_lt hi)

/-- A loop that undoes another one, round by round and from its end. `R` relates what the two have
made of the state when the same rounds are left to be undone. -/
theorem loopDown_of_loopUp {τ : Type*} {body : ℕ → σ → σ} {undo : ℕ → τ → τ} {R : σ → τ → Prop}
    {n : ℕ} (hundo : ∀ i < n, ∀ s t, R (body i s) t → R s (undo i t)) {s : σ} {t : τ}
    (h : R (loopUp body n s) t) : R s (loopDown undo n t) := by
  induction n generalizing t with
  | zero => exact h
  | succ n ih =>
      exact ih (fun i hi => hundo i (Nat.lt_succ_of_lt hi)) (hundo n (Nat.lt_succ_self n) _ _ h)

/-! ## Loops that may fail -/

/-- `loopUp` with a body that may fail. -/
def loopUpM (body : ℕ → σ → Except ε σ) : ℕ → σ → Except ε σ
  | 0, s => .ok s
  | n + 1, s => loopUpM body n s >>= body n

/-- `loopDown` with a body that may fail. -/
def loopDownM (body : ℕ → σ → Except ε σ) : ℕ → σ → Except ε σ
  | 0, s => .ok s
  | n + 1, s => body n s >>= loopDownM body n

theorem loopUpM_invariant (body : ℕ → σ → Except ε σ) {n : ℕ} (P : ℕ → σ → Prop) {s : σ}
    (hinit : P 0 s)
    (hstep : ∀ i < n, ∀ s, P i s → ∃ s', body i s = .ok s' ∧ P (i + 1) s') :
    ∃ s', loopUpM body n s = .ok s' ∧ P n s' := by
  induction n with
  | zero => exact ⟨s, rfl, hinit⟩
  | succ n ih =>
      obtain ⟨t, ht, hP⟩ := ih fun i hi => hstep i (Nat.lt_succ_of_lt hi)
      obtain ⟨t', ht', hP'⟩ := hstep n (Nat.lt_succ_self n) t hP
      exact ⟨t', by rw [loopUpM, ht]; exact ht', hP'⟩

theorem loopDownM_invariant (body : ℕ → σ → Except ε σ) {n : ℕ} (P : ℕ → σ → Prop) {s : σ}
    (hinit : P n s)
    (hstep : ∀ i < n, ∀ s, P (i + 1) s → ∃ s', body i s = .ok s' ∧ P i s') :
    ∃ s', loopDownM body n s = .ok s' ∧ P 0 s' := by
  induction n generalizing s with
  | zero => exact ⟨s, rfl, hinit⟩
  | succ n ih =>
      obtain ⟨t, ht, hP⟩ := hstep n (Nat.lt_succ_self n) s hinit
      obtain ⟨t', ht', hP'⟩ := ih hP fun i hi => hstep i (Nat.lt_succ_of_lt hi)
      exact ⟨t', by rw [loopDownM, ht]; exact ht', hP'⟩

/-! ## Computations that represent a value -/

section Refines

variable {α α' : Type u} {β β' : Type*}

/-- The computation succeeds with something that represents `b`. -/
def Refines (R : α → β → Prop) (r : Except ε α) (b : β) : Prop :=
  ∃ a, r = .ok a ∧ R a b

lemma Refines.ok {R : α → β → Prop} {a : α} {b : β} (h : R a b) :
    Refines (ε := ε) R (.ok a) b := ⟨a, rfl, h⟩

/-- A computation that goes on after a successful one. -/
lemma Refines.bind {R : α → β → Prop} {S : α' → β' → Prop} {r : Except ε α} {b : β} {b' : β'}
    {k : α → Except ε α'} (h : Refines R r b) (hk : ∀ a, R a b → Refines S (k a) b') :
    Refines S (r >>= k) b' := by
  obtain ⟨a, rfl, ha⟩ := h
  exact hk a ha

end Refines

/-- What a sequence of two computations returns was returned by both. -/
lemma bind_eq_ok {α β : Type u} {r : Except ε α} {k : α → Except ε β} {b : β} :
    (r >>= k) = .ok b ↔ ∃ a, r = .ok a ∧ k a = .ok b := by
  cases r with
  | error e =>
      constructor
      · intro h; cases h
      · rintro ⟨a, h, -⟩; cases h
  | ok a =>
      constructor
      · intro h; exact ⟨a, rfl, h⟩
      · rintro ⟨a', h, hk⟩; cases h; exact hk

/-! ## The bits of an exponent -/

/-- A number read from the top, one more bit. -/
lemma div_two_pow_eq (e i : ℕ) :
    e / 2 ^ i = 2 * (e / 2 ^ (i + 1)) + (e.testBit i).toNat := by
  rw [Nat.testBit_eq_decide_div_mod_eq, pow_succ, ← Nat.div_div_eq_div_mul]
  rcases Nat.mod_two_eq_zero_or_one (e / 2 ^ i) with h | h <;> simp [h] <;> omega

/-- A number read from the bottom, one more bit. -/
lemma mod_two_pow_succ_eq (e i : ℕ) :
    e % 2 ^ (i + 1) = e % 2 ^ i + 2 ^ i * (e.testBit i).toNat := by
  rw [Nat.testBit_eq_decide_div_mod_eq, pow_succ, Nat.mod_mul]
  rcases Nat.mod_two_eq_zero_or_one (e / 2 ^ i) with h | h <;> simp [h]

section Powers

variable {M : Type*} [Monoid M] (x : M) (e i : ℕ)

/-- Square and multiply, from the top. -/
lemma pow_div_two_pow : x ^ (e / 2 ^ i) =
    if e.testBit i then x ^ (e / 2 ^ (i + 1)) * x ^ (e / 2 ^ (i + 1)) * x
    else x ^ (e / 2 ^ (i + 1)) * x ^ (e / 2 ^ (i + 1)) := by
  rw [div_two_pow_eq e i, pow_add, two_mul, pow_add]
  cases e.testBit i <;> simp

/-- The upper register of the ladder holds one power more. -/
lemma pow_div_two_pow_succ : x ^ (e / 2 ^ i + 1) =
    if e.testBit i then x ^ (e / 2 ^ (i + 1) + 1) * x ^ (e / 2 ^ (i + 1) + 1)
    else x ^ (e / 2 ^ (i + 1)) * x ^ (e / 2 ^ (i + 1) + 1) := by
  rw [div_two_pow_eq e i]
  cases e.testBit i
  · simp only [Bool.toNat_false, add_zero, Bool.false_eq_true, if_false, ← pow_add]
    congr 1
    ring
  · simp only [Bool.toNat_true, if_true, ← pow_add]
    congr 1
    ring

/-- The lower register of the ladder. -/
lemma pow_div_two_pow_ladder : x ^ (e / 2 ^ i) =
    if e.testBit i then x ^ (e / 2 ^ (i + 1)) * x ^ (e / 2 ^ (i + 1) + 1)
    else x ^ (e / 2 ^ (i + 1)) * x ^ (e / 2 ^ (i + 1)) := by
  rw [pow_div_two_pow, pow_succ x, mul_assoc]

/-- Square and multiply, from the bottom. -/
lemma pow_mod_two_pow_succ : x ^ (e % 2 ^ (i + 1)) =
    if e.testBit i then x ^ (e % 2 ^ i) * x ^ 2 ^ i else x ^ (e % 2 ^ i) := by
  rw [mod_two_pow_succ_eq, pow_add]
  cases e.testBit i <;> simp

end Powers

/-! ## Reading bytes bit by bit -/

section Bytes

variable {σ ε : Type*}

/-- Eight rounds, most significant bit first, take in one byte: the state holds a number, and a
round doubles it and adds its bit. -/
theorem loopDownM_byte (round : ℕ → σ → Except ε σ) (R : σ → ℕ → Prop) (byte : UInt8)
    (hround : ∀ i < 8, ∀ s u, R s u →
      Refines R (round i s) (2 * u + (byte.toNat.testBit i).toNat)) {s : σ} {v : ℕ} (h : R s v) :
    Refines R (loopDownM round 8 s) (v * 256 + byte.toNat) := by
  set e := v * 256 + byte.toNat with he
  have hbyte := byte.toNat_lt
  have hrun := loopDownM_invariant (n := 8) (s := s) round (fun i s => R s (e / 2 ^ i))
    (by rwa [show e / 2 ^ 8 = v by omega])
    (by
      intro i hi s hs
      have hbit : e.testBit i = byte.toNat.testBit i := by
        rw [he, show v * 256 = 2 ^ 8 * v by ring, Nat.testBit_two_pow_mul_add _ hbyte, if_pos hi]
      rw [div_two_pow_eq e i, hbit]
      exact hround i hi s _ hs)
  simpa [Refines] using hrun

/-- A fold over a byte string reads its big-endian value. -/
theorem foldlM_bytes (body : σ → UInt8 → Except ε σ) (R : σ → ℕ → Prop)
    (hbody : ∀ s byte v, R s v → Refines R (body s byte) (v * 256 + byte.toNat))
    (bytes : List UInt8) {s : σ} (h : R s 0) :
    Refines R (bytes.foldlM body s) (ByteStrings.beValue bytes) := by
  have hfold : ∀ (bytes : List UInt8) (s : σ) (v : ℕ), R s v →
      Refines R (bytes.foldlM body s)
        (bytes.foldl (fun acc byte => acc * 256 + byte.toNat) v) := by
    intro bytes
    induction bytes with
    | nil => exact fun s v hs => Refines.ok hs
    | cons byte bytes ih =>
        intro s v hs
        rw [List.foldlM_cons, List.foldl_cons]
        exact (hbody s byte v hs).bind fun s' hs' => ih s' _ hs'
  exact hfold bytes s 0 h

end Bytes

end Loops
