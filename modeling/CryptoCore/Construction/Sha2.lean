import CryptoCore.Construction.Result
import CryptoCore.Framework.MerkleDamgard

/-!
# SHA-256 and SHA-512

The two hashes are one compression function over words of 32 and of 64 bits. A `Sha2Variant` holds
what they differ in; the contexts differ in the width of their bit counter. The digest of a message
is a function of the message alone, whatever the updates it comes in.

The buffering of the contexts is generic: `Framework/MerkleDamgard.lean` has a buffer that absorbs
input block by block and pads at the end, and `Absorbed` says that a state and a partly filled
buffer hold a message. `Sha256Context.After` and `Sha512Context.After` add the bit counters to it.
In one context the counter is a 64-bit word; in the other it is a pair of words, and the carry
between them is the one part of the code with an argument of its own (`bitCountHigh_add`).

An update extends the message and never fails on an open context; `final` returns the digest and
closes it. `digestOf` is the result for either algorithm, and `hash_eq` and `length_digestOf` are
what the rest of the project uses. `Properties/Sha2.lean` compares with the padded chain of the
standard, written independently of the contexts.
-/

namespace CryptoCore

open Loops Blocks MerkleDamgard

/-! ## The compression function -/

/-- The eight words of a chaining state, by their names in the rounds. -/
structure Sha2State (W : Type) where
  a : W
  b : W
  c : W
  d : W
  e : W
  f : W
  g : W
  h : W

/-- What the two hashes differ in: the words and the functions on them. -/
structure Sha2Variant (W : Type) where
  wordSize : ℕ
  rounds : ℕ
  k : List W
  load : List UInt8 → W
  store : W → List UInt8
  smallSigma0 : W → W
  smallSigma1 : W → W
  bigSigma0 : W → W
  bigSigma1 : W → W

namespace Sha2Variant

variable {W : Type} [Inhabited W] [Add W] [AndOp W] [XorOp W] [Complement W] (v : Sha2Variant W)

/-- The words of a block, and the words computed from them. -/
def schedule (block : List UInt8) : List W :=
  loopUp (fun i w =>
      w ++ [w.getD i default + v.smallSigma0 (w.getD (i + 1) default) + w.getD (i + 9) default +
        v.smallSigma1 (w.getD (i + 14) default)])
    (v.rounds - 16) ((List.range 16).map fun i => v.load (block.drop (i * v.wordSize)))

/-- A round of the compression: two new words, and the others moved by one. -/
def round (w : List W) (i : ℕ) (s : Sha2State W) : Sha2State W :=
  let s1 := v.bigSigma1 s.e
  let ch := (s.e &&& s.f) ^^^ (~~~s.e &&& s.g)
  let temp1 := s.h + s1 + ch + v.k.getD i default + w.getD i default
  let s0 := v.bigSigma0 s.a
  let maj := (s.a &&& s.b) ^^^ (s.a &&& s.c) ^^^ (s.b &&& s.c)
  let temp2 := s0 + maj
  { a := temp1 + temp2, b := s.a, c := s.b, d := s.c, e := s.d + temp1, f := s.e, g := s.f,
    h := s.g }

/-- The compression of a block into the chaining state: the rounds, and the sum with the state
before. -/
def transform (state : Sha2State W) (block : List UInt8) : Sha2State W :=
  let w := v.schedule block
  let s := loopUp (v.round w) v.rounds state
  { a := state.a + s.a, b := state.b + s.b, c := state.c + s.c, d := state.d + s.d,
    e := state.e + s.e, f := state.f + s.f, g := state.g + s.g, h := state.h + s.h }

omit [Inhabited W] [Add W] [AndOp W] [XorOp W] [Complement W] in
/-- The bytes of a state, word after word, which is the digest when the message has ended. -/
def digestBytes (state : Sha2State W) : List UInt8 :=
  v.store state.a ++ v.store state.b ++ v.store state.c ++ v.store state.d ++
    v.store state.e ++ v.store state.f ++ v.store state.g ++ v.store state.h

/-- The size of a block: sixteen words. -/
def blockSize : ℕ := 16 * v.wordSize

end Sha2Variant

/-! ## The two variants -/

/-- The rotation of a word to the right, by less than its width. -/
def rotr32 (value bits : UInt32) : UInt32 :=
  (value >>> bits) ||| (value <<< (32 - bits))

def rotr64 (value bits : UInt64) : UInt64 :=
  (value >>> bits) ||| (value <<< (64 - bits))

/-- The round constants of the hash on words of 32 bits. -/
def sha256K : List UInt32 :=
  [0x428a2f98, 0x71374491, 0xb5c0fbcf, 0xe9b5dba5, 0x3956c25b, 0x59f111f1,
    0x923f82a4, 0xab1c5ed5, 0xd807aa98, 0x12835b01, 0x243185be, 0x550c7dc3,
    0x72be5d74, 0x80deb1fe, 0x9bdc06a7, 0xc19bf174, 0xe49b69c1, 0xefbe4786,
    0x0fc19dc6, 0x240ca1cc, 0x2de92c6f, 0x4a7484aa, 0x5cb0a9dc, 0x76f988da,
    0x983e5152, 0xa831c66d, 0xb00327c8, 0xbf597fc7, 0xc6e00bf3, 0xd5a79147,
    0x06ca6351, 0x14292967, 0x27b70a85, 0x2e1b2138, 0x4d2c6dfc, 0x53380d13,
    0x650a7354, 0x766a0abb, 0x81c2c92e, 0x92722c85, 0xa2bfe8a1, 0xa81a664b,
    0xc24b8b70, 0xc76c51a3, 0xd192e819, 0xd6990624, 0xf40e3585, 0x106aa070,
    0x19a4c116, 0x1e376c08, 0x2748774c, 0x34b0bcb5, 0x391c0cb3, 0x4ed8aa4a,
    0x5b9cca4f, 0x682e6ff3, 0x748f82ee, 0x78a5636f, 0x84c87814, 0x8cc70208,
    0x90befffa, 0xa4506ceb, 0xbef9a3f7, 0xc67178f2]

def sha512K : List UInt64 :=
  [0x428a2f98d728ae22, 0x7137449123ef65cd, 0xb5c0fbcfec4d3b2f, 0xe9b5dba58189dbbc,
    0x3956c25bf348b538, 0x59f111f1b605d019, 0x923f82a4af194f9b, 0xab1c5ed5da6d8118,
    0xd807aa98a3030242, 0x12835b0145706fbe, 0x243185be4ee4b28c, 0x550c7dc3d5ffb4e2,
    0x72be5d74f27b896f, 0x80deb1fe3b1696b1, 0x9bdc06a725c71235, 0xc19bf174cf692694,
    0xe49b69c19ef14ad2, 0xefbe4786384f25e3, 0x0fc19dc68b8cd5b5, 0x240ca1cc77ac9c65,
    0x2de92c6f592b0275, 0x4a7484aa6ea6e483, 0x5cb0a9dcbd41fbd4, 0x76f988da831153b5,
    0x983e5152ee66dfab, 0xa831c66d2db43210, 0xb00327c898fb213f, 0xbf597fc7beef0ee4,
    0xc6e00bf33da88fc2, 0xd5a79147930aa725, 0x06ca6351e003826f, 0x142929670a0e6e70,
    0x27b70a8546d22ffc, 0x2e1b21385c26c926, 0x4d2c6dfc5ac42aed, 0x53380d139d95b3df,
    0x650a73548baf63de, 0x766a0abb3c77b2a8, 0x81c2c92e47edaee6, 0x92722c851482353b,
    0xa2bfe8a14cf10364, 0xa81a664bbc423001, 0xc24b8b70d0f89791, 0xc76c51a30654be30,
    0xd192e819d6ef5218, 0xd69906245565a910, 0xf40e35855771202a, 0x106aa07032bbd1b8,
    0x19a4c116b8d2d0c8, 0x1e376c085141ab53, 0x2748774cdf8eeb99, 0x34b0bcb5e19b48a8,
    0x391c0cb3c5c95a63, 0x4ed8aa4ae3418acb, 0x5b9cca4f7763e373, 0x682e6ff3d6b2b8a3,
    0x748f82ee5defb2fc, 0x78a5636f43172f60, 0x84c87814a1f0ab72, 0x8cc702081a6439ec,
    0x90befffa23631e28, 0xa4506cebde82bde9, 0xbef9a3f7b2c67915, 0xc67178f2e372532b,
    0xca273eceea26619c, 0xd186b8c721c0c207, 0xeada7dd6cde0eb1e, 0xf57d4f7fee6ed178,
    0x06f067aa72176fba, 0x0a637dc5a2c898a6, 0x113f9804bef90dae, 0x1b710b35131c471b,
    0x28db77f523047d84, 0x32caab7b40c72493, 0x3c9ebe0a15c9bebc, 0x431d67c49c100d4c,
    0x4cc5d4becb3e42b6, 0x597f299cfc657e2a, 0x5fcb6fab3ad6faec, 0x6c44198c4a475817]

/-- The hash on words of 32 bits: its rounds, its constants and its four functions. -/
def sha256Variant : Sha2Variant UInt32 where
  wordSize := 4
  rounds := 64
  k := sha256K
  load := loadBe32
  store := storeBe32
  smallSigma0 x := rotr32 x 7 ^^^ rotr32 x 18 ^^^ (x >>> 3)
  smallSigma1 x := rotr32 x 17 ^^^ rotr32 x 19 ^^^ (x >>> 10)
  bigSigma0 x := rotr32 x 2 ^^^ rotr32 x 13 ^^^ rotr32 x 22
  bigSigma1 x := rotr32 x 6 ^^^ rotr32 x 11 ^^^ rotr32 x 25

/-- The hash on words of 64 bits, with more rounds and other shifts. -/
def sha512Variant : Sha2Variant UInt64 where
  wordSize := 8
  rounds := 80
  k := sha512K
  load := loadBe64
  store := storeBe64
  smallSigma0 x := rotr64 x 1 ^^^ rotr64 x 8 ^^^ (x >>> 7)
  smallSigma1 x := rotr64 x 19 ^^^ rotr64 x 61 ^^^ (x >>> 6)
  bigSigma0 x := rotr64 x 28 ^^^ rotr64 x 34 ^^^ rotr64 x 39
  bigSigma1 x := rotr64 x 14 ^^^ rotr64 x 18 ^^^ rotr64 x 41

/-- The chaining state that a message starts from, before its first block. -/
def sha256Init : Sha2State UInt32 where
  a := 0x6a09e667
  b := 0xbb67ae85
  c := 0x3c6ef372
  d := 0xa54ff53a
  e := 0x510e527f
  f := 0x9b05688c
  g := 0x1f83d9ab
  h := 0x5be0cd19

def sha512Init : Sha2State UInt64 where
  a := 0x6a09e667f3bcc908
  b := 0xbb67ae8584caa73b
  c := 0x3c6ef372fe94f82b
  d := 0xa54ff53a5f1d36f1
  e := 0x510e527fade682d1
  f := 0x9b05688c2b3e6c1f
  g := 0x1f83d9abfb41bd6b
  h := 0x5be0cd19137e2179

/-! ## The contexts -/

/-- A context: the state, the buffer that is not full yet, and the number of bits so far. -/
structure Sha256Context where
  state : Sha2State UInt32 := sha256Init
  buffer : Vector UInt8 64 := Vector.replicate 64 0
  bitCount : UInt64 := 0
  bufferSize : ℕ := 0
  finalized : Bool := false

namespace Sha256Context

/-- The part of a context that the hash runs on. -/
def buffered (context : Sha256Context) : Buffered (Sha2State UInt32) UInt8 64 :=
  ⟨context.state, context.buffer, context.bufferSize⟩

def update (context : Sha256Context) (input : List UInt8) : Result Sha256Context := do
  require (!context.finalized)
    (makeError .invalidArgument "sha256" "cannot update finalized hash context")
  let absorbed := context.buffered.absorb sha256Variant.transform input
  return { context with
    state := absorbed.state
    buffer := absorbed.buffer
    bitCount := context.bitCount + UInt64.ofNat input.length * 8
    bufferSize := absorbed.bufferSize }

/-- The digest, with the context that has been used up. -/
def final (context : Sha256Context) : Result (ByteBuffer × Sha256Context) := do
  require (!context.finalized)
    (makeError .invalidArgument "sha256" "hash context is already finalized")
  let finished := context.buffered.finish sha256Variant.transform 0x80 0
    (storeBe64 context.bitCount)
  return (sha256Variant.digestBytes finished.state, { context with
    state := finished.state
    buffer := finished.buffer
    bufferSize := finished.bufferSize
    finalized := true })

end Sha256Context

/-- The same with a counter of 128 bits in two words. -/
structure Sha512Context where
  state : Sha2State UInt64 := sha512Init
  buffer : Vector UInt8 128 := Vector.replicate 128 0
  bitCountLow : UInt64 := 0
  bitCountHigh : UInt64 := 0
  bufferSize : ℕ := 0
  finalized : Bool := false

namespace Sha512Context

/-- The part of a context that the hash runs on. -/
def buffered (context : Sha512Context) : Buffered (Sha2State UInt64) UInt8 128 :=
  ⟨context.state, context.buffer, context.bufferSize⟩

def update (context : Sha512Context) (input : List UInt8) : Result Sha512Context := do
  require (!context.finalized)
    (makeError .invalidArgument "sha512" "cannot update finalized hash context")
  let addedBits := UInt64.ofNat input.length * 8
  let bitCountLow := context.bitCountLow + addedBits
  let carried := if bitCountLow < addedBits then context.bitCountHigh + 1 else context.bitCountHigh
  let absorbed := context.buffered.absorb sha512Variant.transform input
  return { context with
    state := absorbed.state
    buffer := absorbed.buffer
    bitCountLow := bitCountLow
    bitCountHigh := carried + UInt64.ofNat (input.length >>> 61)
    bufferSize := absorbed.bufferSize }

/-- The digest, with the context that has been used up. -/
def final (context : Sha512Context) : Result (ByteBuffer × Sha512Context) := do
  require (!context.finalized)
    (makeError .invalidArgument "sha512" "hash context is already finalized")
  let finished := context.buffered.finish sha512Variant.transform 0x80 0
    (storeBe64 context.bitCountHigh ++ storeBe64 context.bitCountLow)
  return (sha512Variant.digestBytes finished.state, { context with
    state := finished.state
    buffer := finished.buffer
    bufferSize := finished.bufferSize
    finalized := true })

end Sha512Context

/-! ## Calls -/

/-- The interface of a hash context. A call that fails leaves its context as it is. -/
class IHashContext (C : Type) where
  update : C → List UInt8 → Result C
  final : C → Result (ByteBuffer × C)

instance : IHashContext Sha256Context := ⟨Sha256Context.update, Sha256Context.final⟩

instance : IHashContext Sha512Context := ⟨Sha512Context.update, Sha512Context.final⟩

/-- A call on a hash context, as a client may make them in any order. -/
inductive HashCall
  | update (input : List UInt8)
  | final

namespace IHashContext

variable {C : Type} [IHashContext C]

/-- What a call returns, a digest from a successful `final`, and the context it leaves. -/
def call (context : C) : HashCall → Result (Option ByteBuffer) × C
  | .update input =>
      match update context input with
      | .ok next => (.ok none, next)
      | .error e => (.error e, context)
  | .final =>
      match final context with
      | .ok (digest, next) => (.ok (some digest), next)
      | .error e => (.error e, context)

end IHashContext

/-! ## The digests of a message -/

/-- The chain over the padded message, with the bit length in its last eight bytes. -/
def sha256Digest (message : List UInt8) : List UInt8 :=
  sha256Variant.digestBytes (chain sha256Variant.transform 64 sha256Init
    (pad 64 0x80 0 (storeBe64 (UInt64.ofNat (message.length * 8))) message))

/-- The chain over the padded message, with the bit length in its last sixteen bytes. -/
def sha512Digest (message : List UInt8) : List UInt8 :=
  sha512Variant.digestBytes (chain sha512Variant.transform 128 sha512Init
    (pad 128 0x80 0 (storeBe64 (UInt64.ofNat (message.length * 8 / 2 ^ 64)) ++
      storeBe64 (UInt64.ofNat (message.length * 8))) message))

@[simp] lemma length_sha512Digest (message : List UInt8) : (sha512Digest message).length = 64 :=
  rfl

/-- The context after a message: what it has compressed, what is in the buffer, and the count of
bits. -/
structure Sha256Context.After (context : Sha256Context) (message : List UInt8) : Prop where
  absorbed : Absorbed sha256Variant.transform 64 sha256Init message
    (context.state, context.buffered.filled)
  bufferSize_lt : context.bufferSize < 64
  bitCount : context.bitCount = UInt64.ofNat (message.length * 8)
  open_ : context.finalized = false

lemma Sha256Context.after_nil : Sha256Context.After {} [] where
  absorbed := Absorbed.nil (by decide) sha256Init
  bufferSize_lt := by decide
  bitCount := rfl
  open_ := rfl

/-- The bit count of a message that an input is added to, modulo `2 ^ 64`. -/
lemma bitCount_add (m n : ℕ) :
    UInt64.ofNat (m * 8) + UInt64.ofNat n * 8 = UInt64.ofNat ((m + n) * 8) := by
  rw [Nat.add_mul, UInt64.ofNat_add, UInt64.ofNat_mul n]
  rfl

/-- An update never fails on an open context and extends its message. -/
theorem Sha256Context.After.update {context : Sha256Context} {message : List UInt8}
    (h : context.After message) (input : List UInt8) :
    ∃ next, context.update input = .ok next ∧ next.After (message ++ input) := by
  obtain ⟨hlt, habsorbed⟩ := Buffered.absorbed_absorb context.buffered h.absorbed
    h.bufferSize_lt input
  simp only [Sha256Context.update, h.open_, Bool.not_false, require_true, ok_bind]
  refine ⟨_, rfl, habsorbed, hlt, ?_, rfl⟩
  rw [h.bitCount, List.length_append]
  exact bitCount_add _ _

/-- The digest of a context is that of its message. -/
theorem Sha256Context.After.final {context : Sha256Context} {message : List UInt8}
    (h : context.After message) :
    ∃ closed, context.final = .ok (sha256Digest message, closed) ∧ closed.finalized = true := by
  have hfield : (storeBe64 (UInt64.ofNat (message.length * 8))).length < 64 := by simp
  have hfinish := Buffered.state_finish context.buffered h.absorbed h.bufferSize_lt 0x80 0
    hfield
  simp only [Sha256Context.final, h.open_, h.bitCount, Bool.not_false, require_true, ok_bind]
  rw [hfinish]
  exact ⟨_, rfl, rfl⟩

/-- The context after a message. The two counters are the halves of its bit length. -/
structure Sha512Context.After (context : Sha512Context) (message : List UInt8) : Prop where
  absorbed : Absorbed sha512Variant.transform 128 sha512Init message
    (context.state, context.buffered.filled)
  bufferSize_lt : context.bufferSize < 128
  bitCountLow : context.bitCountLow = UInt64.ofNat (message.length * 8)
  bitCountHigh : context.bitCountHigh = UInt64.ofNat (message.length * 8 / 2 ^ 64)
  open_ : context.finalized = false

lemma Sha512Context.after_nil : Sha512Context.After {} [] where
  absorbed := Absorbed.nil (by decide) sha512Init
  bufferSize_lt := by decide
  bitCountLow := rfl
  bitCountHigh := rfl
  open_ := rfl

/-- The carry of the low counter, and the bits of an input that do not fit into it. -/
lemma bitCountHigh_add (m n : ℕ) :
    (if UInt64.ofNat (m * 8) + UInt64.ofNat n * 8 < UInt64.ofNat n * 8
      then UInt64.ofNat (m * 8 / 2 ^ 64) + 1 else UInt64.ofNat (m * 8 / 2 ^ 64)) +
        UInt64.ofNat (n >>> 61) = UInt64.ofNat ((m + n) * 8 / 2 ^ 64) := by
  have hadded : UInt64.ofNat n * 8 = UInt64.ofNat (n * 8) := by
    rw [UInt64.ofNat_mul]
    rfl
  have hcarry : UInt64.ofNat (m * 8) + UInt64.ofNat (n * 8) < UInt64.ofNat (n * 8) ↔
      2 ^ 64 ≤ m * 8 % 2 ^ 64 + n * 8 % 2 ^ 64 := by
    rw [UInt64.lt_iff_toNat_lt, UInt64.toNat_add, UInt64.toNat_ofNat', UInt64.toNat_ofNat']
    omega
  rw [hadded, Nat.shiftRight_eq_div_pow]
  split
  · rename_i h
    have h := hcarry.mp h
    have hone : (1 : UInt64) = UInt64.ofNat 1 := rfl
    rw [hone, ← UInt64.ofNat_add, ← UInt64.ofNat_add]
    congr 1
    omega
  · rename_i h
    have h := mt hcarry.mpr h
    rw [← UInt64.ofNat_add]
    congr 1
    omega

/-- An update never fails on an open context and extends its message. -/
theorem Sha512Context.After.update {context : Sha512Context} {message : List UInt8}
    (h : context.After message) (input : List UInt8) :
    ∃ next, context.update input = .ok next ∧ next.After (message ++ input) := by
  obtain ⟨hlt, habsorbed⟩ := Buffered.absorbed_absorb context.buffered h.absorbed
    h.bufferSize_lt input
  simp only [Sha512Context.update, h.open_, Bool.not_false, require_true, ok_bind]
  refine ⟨_, rfl, habsorbed, hlt, ?_, ?_, rfl⟩
  · rw [h.bitCountLow, List.length_append]
    exact bitCount_add _ _
  · dsimp only
    rw [h.bitCountLow, h.bitCountHigh, List.length_append]
    exact bitCountHigh_add _ _

/-- The digest of a context is that of its message. -/
theorem Sha512Context.After.final {context : Sha512Context} {message : List UInt8}
    (h : context.After message) :
    ∃ closed, context.final = .ok (sha512Digest message, closed) ∧ closed.finalized = true := by
  have hfield : (storeBe64 (UInt64.ofNat (message.length * 8 / 2 ^ 64)) ++
      storeBe64 (UInt64.ofNat (message.length * 8))).length < 128 := by simp
  have hfinish := Buffered.state_finish context.buffered h.absorbed h.bufferSize_lt 0x80 0
    hfield
  simp only [Sha512Context.final, h.open_, h.bitCountLow, h.bitCountHigh, Bool.not_false,
    require_true, ok_bind]
  rw [hfinish]
  exact ⟨_, rfl, rfl⟩

/-! ## Hashing by algorithm -/

/-- The hashes that the enumeration lists. A value outside of it, which only a cast can make, is
answered with `unsupported_algorithm` before anything is hashed, and cannot be built here. -/
inductive HashAlgorithm
  | sha256
  | sha512
  deriving DecidableEq, Repr

/-- The size of a digest. The source answers zero for a value outside the enumeration. -/
def digestSize : HashAlgorithm → ℕ
  | .sha256 => 32
  | .sha512 => 64

lemma toNat_digestSize (algorithm : HashAlgorithm) :
    (UInt64.ofNat (digestSize algorithm)).toNat = digestSize algorithm := by
  cases algorithm <;> rfl

/-- A hash context of either kind, as the provider hands it out. -/
inductive HashContext
  | sha256 (context : Sha256Context)
  | sha512 (context : Sha512Context)

namespace HashContext

/-- A context by algorithm, which has taken nothing in. -/
def create : HashAlgorithm → HashContext
  | .sha256 => .sha256 {}
  | .sha512 => .sha512 {}

def update (context : HashContext) (input : List UInt8) : Result HashContext :=
  match context with
  | .sha256 context => do return .sha256 (← context.update input)
  | .sha512 context => do return .sha512 (← context.update input)

def final (context : HashContext) : Result (ByteBuffer × HashContext) :=
  match context with
  | .sha256 context => do
      let (digest, closed) ← context.final
      return (digest, .sha256 closed)
  | .sha512 context => do
      let (digest, closed) ← context.final
      return (digest, .sha512 closed)

end HashContext

/-- One context, one update: the hash of a whole input. -/
def hash (algorithm : HashAlgorithm) (input : List UInt8) : Result ByteBuffer := do
  let context ← (HashContext.create algorithm).update input
  let (digest, _) ← context.final
  return digest

/-- The digest of a message under either algorithm, as a function of the whole message. -/
def digestOf : HashAlgorithm → List UInt8 → List UInt8
  | .sha256 => sha256Digest
  | .sha512 => sha512Digest

@[simp] lemma length_digestOf (algorithm : HashAlgorithm) (message : List UInt8) :
    (digestOf algorithm message).length = digestSize algorithm := by
  cases algorithm <;> rfl

/-- A context of either kind after a message, of the kind that the algorithm says. -/
def HashContext.After (context : HashContext) (algorithm : HashAlgorithm)
    (message : List UInt8) : Prop :=
  match algorithm, context with
  | .sha256, .sha256 context => context.After message
  | .sha512, .sha512 context => context.After message
  | _, _ => False

lemma HashContext.after_create (algorithm : HashAlgorithm) :
    (HashContext.create algorithm).After algorithm [] := by
  cases algorithm
  · exact Sha256Context.after_nil
  · exact Sha512Context.after_nil

/-- An update of either kind extends the message, by an input of any length. -/
theorem HashContext.After.update {context : HashContext} {algorithm : HashAlgorithm}
    {message : List UInt8} (h : context.After algorithm message) (input : List UInt8) :
    ∃ next, context.update input = .ok next ∧ next.After algorithm (message ++ input) := by
  cases algorithm <;> cases context
  case sha256.sha256 context =>
    obtain ⟨next, hnext, hafter⟩ := Sha256Context.After.update h input
    exact ⟨.sha256 next, by rw [HashContext.update, hnext]; rfl, hafter⟩
  case sha512.sha512 context =>
    obtain ⟨next, hnext, hafter⟩ := Sha512Context.After.update h input
    exact ⟨.sha512 next, by rw [HashContext.update, hnext]; rfl, hafter⟩
  all_goals exact h.elim

/-- The digest of either kind is that of the message. -/
theorem HashContext.After.final {context : HashContext} {algorithm : HashAlgorithm}
    {message : List UInt8} (h : context.After algorithm message) :
    ∃ closed, context.final = .ok (digestOf algorithm message, closed) := by
  cases algorithm <;> cases context
  case sha256.sha256 context =>
    obtain ⟨closed, hclosed, _⟩ := Sha256Context.After.final h
    exact ⟨.sha256 closed, by rw [HashContext.final, hclosed]; rfl⟩
  case sha512.sha512 context =>
    obtain ⟨closed, hclosed, _⟩ := Sha512Context.After.final h
    exact ⟨.sha512 closed, by rw [HashContext.final, hclosed]; rfl⟩
  all_goals exact h.elim

/-- The hash never fails, and is the digest of its input. -/
@[simp] theorem hash_eq (algorithm : HashAlgorithm) (input : List UInt8) :
    hash algorithm input = .ok (digestOf algorithm input) := by
  obtain ⟨next, hnext, hafter⟩ := (HashContext.after_create algorithm).update input
  obtain ⟨closed, hclosed⟩ := hafter.final
  rw [hash, hnext, ok_bind, hclosed]
  rfl

end CryptoCore
