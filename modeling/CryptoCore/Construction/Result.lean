import CryptoCore.Framework.Loops

/-!
# Errors, results, buffers and words

Every fallible function of the library returns a value or an error with a code, the category it
comes from and a message. A byte span and an owned buffer are both a list of bytes here. The
big-endian loads and stores of the ciphers and the hashes are those of this module.

`Result` is the exception monad of Lean, so that the early returns of the source are binds and its
guards are `require`. The lemmas come in two kinds. Equations such as `ok_bind` evaluate a
computation whose steps are known; `require_bind_eq_ok` and its relatives take a success apart into
the guards that passed. They are what the proofs about parsers and operations are made of.

`FailsOnly P` is the statement that every error of a computation satisfies `P`. It is closed under
binds, guards and replaced errors, which lets `Properties/ImportFailures.lean` and
`Properties/Capabilities.lean` follow the code from a failing call to all the places its error may
come from. Every module of the project imports this one, directly or not.
-/

namespace CryptoCore

/-- The codes of an error, which callers are meant to act on. -/
inductive ErrorCode
  | ok
  | invalidArgument
  | unsupportedAlgorithm
  | invalidKey
  | authenticationFailed
  | providerError
  | internalError
  deriving DecidableEq, Repr

/-- An error: its code, the part of the library it comes from, and a text. -/
structure Error where
  code : ErrorCode
  category : String
  message : String
  deriving DecidableEq, Repr

/-- A value or an error; the early returns of the source are its binds. -/
abbrev Result (α : Type) := Except Error α

/-- A byte span, or an owned byte buffer: what it holds is all that matters here. -/
abbrev ByteBuffer := List UInt8

/-- The largest size of a byte vector: `max_size` of the standard library, above which a vector is
refused whatever memory there is. -/
def maxVectorSize : ℕ := 2 ^ 63 - 1

/-- An error from its three parts. All errors of the source are made in this way. -/
def makeError (code : ErrorCode) (category message : String) : Error :=
  { code, category, message }

/-- The failure of a guard: the function returns the error, and goes on otherwise. -/
def require (condition : Bool) (error : Error) : Result Unit :=
  if condition then .ok () else .error error

@[simp] lemma require_true (e : Error) : require true e = .ok () := rfl

@[simp] lemma require_false (e : Error) : require false e = .error e := rfl

/-- The result, with the error replaced when there is one. -/
def orError {α : Type} (result : Result α) (error : Error) : Result α :=
  match result with
  | .ok value => .ok value
  | .error _ => .error error

@[simp] lemma orError_ok {α : Type} (a : α) (e : Error) : orError (.ok a) e = .ok a := rfl

lemma toOption_eq_some {α : Type} {r : Result α} {a : α} : r.toOption = some a ↔ r = .ok a := by
  cases r <;> simp [Except.toOption]

lemma require_eq_ok {c : Bool} {e : Error} {u : Unit} : require c e = .ok u ↔ c = true := by
  cases c <;> simp

lemma require_bind_eq_ok {α : Type} {c : Bool} {e : Error} {k : Unit → Result α} {a : α} :
    (require c e >>= k) = .ok a ↔ c = true ∧ k () = .ok a := by
  cases c with
  | false => exact iff_of_false nofun fun h => Bool.false_ne_true h.1
  | true => exact ⟨fun h => ⟨rfl, h⟩, fun h => h.2⟩

-- A long chain of steps is rewritten with a proof here; by `rfl` it is left to the kernel, which
-- then unfolds the steps.
@[simp] lemma ok_bind {α β : Type} (a : α) (k : α → Result β) :
    ((.ok a : Result α) >>= k) = k a := by
  unfold bind
  rfl

@[simp] lemma error_bind {α β : Type} (e : Error) (k : α → Result β) :
    ((.error e : Result α) >>= k) = .error e := rfl

/-! ## Failures -/

/-- Every error that a computation can end with satisfies `P`. -/
def FailsOnly (P : Error → Prop) {α : Type} (result : Result α) : Prop :=
  ∀ e, result = .error e → P e

namespace FailsOnly

variable {P : Error → Prop} {α β : Type}

lemma ok (a : α) : FailsOnly P (.ok a) :=
  nofun

lemma error {e : Error} (h : P e) : FailsOnly P (.error e : Result α) := by
  rintro _ ⟨⟩
  exact h

lemma of_eq_ok {result : Result α} (h : ∃ a, result = .ok a) : FailsOnly P result := by
  obtain ⟨a, rfl⟩ := h
  exact ok a

/-- The errors of a sequence are those of its two parts, the second one on values of the first. -/
lemma bind {result : Result α} {k : α → Result β} (hresult : FailsOnly P result)
    (hk : ∀ a, result = .ok a → FailsOnly P (k a)) : FailsOnly P (result >>= k) := by
  cases hr : result with
  | ok a => exact hk a hr
  | error e => exact error (hresult e hr)

lemma require {condition : Bool} {e : Error} (h : P e) :
    FailsOnly P (require condition e) := by
  cases condition with
  | true => exact ok ()
  | false => exact error h

lemma orError {result : Result α} {e : Error} (h : P e) : FailsOnly P (orError result e) := by
  cases result with
  | ok a => exact ok a
  | error _ => exact error h

lemma mono {Q : Error → Prop} {result : Result α} (hresult : FailsOnly P result)
    (h : ∀ e, P e → Q e) : FailsOnly Q result :=
  fun e he => h e (hresult e he)

end FailsOnly

/-! ## Big-endian words -/

/-- The words of four and of eight bytes, the most significant first; missing bytes are zero. -/
def loadBe32 (data : List UInt8) : UInt32 :=
  ((data.getD 0 0).toUInt32 <<< 24) ||| ((data.getD 1 0).toUInt32 <<< 16) |||
    ((data.getD 2 0).toUInt32 <<< 8) ||| (data.getD 3 0).toUInt32

def loadBe64 (data : List UInt8) : UInt64 :=
  ((data.getD 0 0).toUInt64 <<< 56) ||| ((data.getD 1 0).toUInt64 <<< 48) |||
    ((data.getD 2 0).toUInt64 <<< 40) ||| ((data.getD 3 0).toUInt64 <<< 32) |||
    ((data.getD 4 0).toUInt64 <<< 24) ||| ((data.getD 5 0).toUInt64 <<< 16) |||
    ((data.getD 6 0).toUInt64 <<< 8) ||| (data.getD 7 0).toUInt64

/-- The bytes of a word, the most significant first, as hashes and ciphers write them. -/
def storeBe32 (value : UInt32) : List UInt8 :=
  [(value >>> 24).toUInt8, (value >>> 16).toUInt8, (value >>> 8).toUInt8, value.toUInt8]

def storeBe64 (value : UInt64) : List UInt8 :=
  [(value >>> 56).toUInt8, (value >>> 48).toUInt8, (value >>> 40).toUInt8,
    (value >>> 32).toUInt8, (value >>> 24).toUInt8, (value >>> 16).toUInt8,
    (value >>> 8).toUInt8, value.toUInt8]

@[simp] lemma length_storeBe32 (value : UInt32) : (storeBe32 value).length = 4 := rfl

@[simp] lemma length_storeBe64 (value : UInt64) : (storeBe64 value).length = 8 := rfl

/-- The eight bytes of a number modulo `2 ^ 64`. -/
lemma storeBe64_ofNat (n : ℕ) : storeBe64 (UInt64.ofNat n) = ByteStrings.beBytes 8 n := by
  simp only [storeBe64, ByteStrings.beBytes, List.nil_append, List.cons_append, List.cons.injEq,
    and_true, ← UInt8.toNat_inj, UInt64.toNat_toUInt8, UInt64.toNat_shiftRight,
    UInt64.toNat_ofNat', UInt8.toNat_ofNat', Nat.shiftRight_eq_div_pow, UInt64.reduceToNat,
    Nat.reduceMod, Nat.reducePow]
  omega

end CryptoCore
