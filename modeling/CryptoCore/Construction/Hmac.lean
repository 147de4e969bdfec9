import CryptoCore.Construction.Sha2
import CryptoCore.Framework.KeyDerivation
import CryptoCore.Framework.Streaming

/-!
# HMAC contexts

A context starts its inner hash with the padded key and keeps the outer pad for `final`. A call
leaves the context that it leaves in the source also when it fails: `final` closes the context
before anything in it can go wrong.

The source has a flag for a constructor that did not finish, since hashing the key may fail there.
It does not fail, so that `after_create` gives an initialized context for every key, and the branch
for the other case is never taken by the provider.

`HmacContext.After` is the invariant: the inner hash has absorbed the padded key and the message so
far. An update extends the message (`After.update`), `final` returns the code of it (`After.final`),
and both together make the contexts streaming contexts in the sense of `Framework/Streaming.lean`
(`HmacContext.streams`). The standard's definition, `hmac`, is in `Framework/KeyDerivation.lean`
over any hash; `hmacOf` is that at the digests of `Construction/Sha2.lean`. The generators of nonces
and of keys in `Construction/Ecdsa.lean` and `Construction/Kdf.lean` use `mac_eq` and `hmacOf` only.
-/

namespace CryptoCore

open KeyDerivation Streaming

/-- The size of a block of the hash, up to which a key is filled. -/
def blockSize : HashAlgorithm → ℕ
  | .sha256 => 64
  | .sha512 => 128

/-- The hash of an input, by a context of its own. -/
def hashOnce (algorithm : HashAlgorithm) (input : List UInt8) : Result ByteBuffer := do
  let context ← (HashContext.create algorithm).update input
  let (digest, _) ← context.final
  return digest

/-- `resize`: cut to a size, or filled up to it. -/
def resize (size : ℕ) (value : UInt8) (bytes : List UInt8) : List UInt8 :=
  bytes.take size ++ List.replicate (size - bytes.length) value

/-- The inner hash context is there once the constructor has made it. -/
structure HmacContext where
  hashAlgorithm : HashAlgorithm
  outerPad : List UInt8 := []
  inner : Option HashContext := none
  initialized : Bool := false
  finalized : Bool := false

namespace HmacContext

def hmacError (code : ErrorCode) (message : String) : Error :=
  makeError code "hmac" message

/-- The constructor: a long key is hashed first, and the key is filled up with zeros. -/
def create (hashAlgorithm : HashAlgorithm) (key : List UInt8) : HmacContext :=
  let size := blockSize hashAlgorithm
  let hashedKey := if key.length > size then hashOnce hashAlgorithm key else .ok key
  match hashedKey with
  | .error _ => { hashAlgorithm }
  | .ok normalizedKey =>
      let normalizedKey := resize size 0 normalizedKey
      let innerPad := normalizedKey.map (· ^^^ 0x36)
      let outerPad := normalizedKey.map (· ^^^ 0x5c)
      let inner := HashContext.create hashAlgorithm
      match inner.update innerPad with
      -- The context is returned all the same, and its calls answer that it is not initialized.
      | .error _ => { hashAlgorithm, outerPad, inner := some inner }
      | .ok inner => { hashAlgorithm, outerPad, inner := some inner, initialized := true }

/-- More of the message. An open context never refuses it. -/
def update (context : HmacContext) (input : List UInt8) : Result Unit × HmacContext :=
  if context.finalized then
    (.error (hmacError .invalidArgument "cannot update finalized MAC context"), context)
  else
    match context.initialized, context.inner with
    | true, some inner =>
        match inner.update input with
        | .ok inner => (.ok (), { context with inner := some inner })
        | .error e => (.error e, context)
    | _, _ => (.error (hmacError .providerError "MAC context is not initialized"), context)

/-- The code of the message, and the context that is closed before anything can go wrong. -/
def final (context : HmacContext) : Result ByteBuffer × HmacContext :=
  if context.finalized then
    (.error (hmacError .invalidArgument "MAC context is already finalized"), context)
  else
    match context.initialized, context.inner with
    | true, some inner =>
        -- The context is closed before the inner hash is asked, and stays closed if that fails.
        let closed := { context with finalized := true }
        match inner.final with
        | .error e => (.error e, closed)
        | .ok (innerDigest, inner) =>
            let mac := do
              let outer ← (HashContext.create context.hashAlgorithm).update context.outerPad
              let outer ← outer.update innerDigest
              let (digest, _) ← outer.final
              return digest
            (mac, { closed with inner := some inner })
    | _, _ => (.error (hmacError .providerError "MAC context is not initialized"), context)

end HmacContext

/-! ## Calls -/

/-- A call on a message authentication context, as a client may make them in any order. -/
inductive MacCall
  | update (input : List UInt8)
  | final

/-- What a call returns, a tag from a successful `final`, and the context it leaves. -/
def HmacContext.call (context : HmacContext) : MacCall → Result (Option ByteBuffer) × HmacContext
  | .update input => ((context.update input).1.map fun _ => none, (context.update input).2)
  | .final => (context.final.1.map some, context.final.2)

/-! ## The provider -/

/-- The message authentication codes of the interface, one for each hash. -/
inductive MacAlgorithm
  | hmacSha256
  | hmacSha512
  deriving DecidableEq, Repr

def macSize : MacAlgorithm → ℕ
  | .hmacSha256 => 32
  | .hmacSha512 => 64

/-- The hash under a message authentication code, which decides the sizes of keys and codes. -/
def MacAlgorithm.hashAlgorithm : MacAlgorithm → HashAlgorithm
  | .hmacSha256 => .sha256
  | .hmacSha512 => .sha512

/-- A context of the provider, which refuses one that was not initialized. -/
def createMac (algorithm : MacAlgorithm) (key : List UInt8) : Result HmacContext :=
  let context := HmacContext.create algorithm.hashAlgorithm key
  if context.initialized then .ok context
  else .error (makeError .providerError "native_provider" "failed to initialize HMAC context")

/-- The one-shot code: one context, one update with the whole input, and its end. -/
def mac (algorithm : MacAlgorithm) (key input : List UInt8) : Result ByteBuffer := do
  let context ← createMac algorithm key
  let (updated, context) := context.update input
  updated
  context.final.1

/-! ## What the contexts compute -/

/-- HMAC over the digest of an algorithm, as the library defines it. -/
def hmacOf (algorithm : HashAlgorithm) (key message : List UInt8) : List UInt8 :=
  hmac (digestOf algorithm) (blockSize algorithm) key message

@[simp] lemma length_hmacOf (algorithm : HashAlgorithm) (key message : List UInt8) :
    (hmacOf algorithm key message).length = digestSize algorithm :=
  length_digestOf algorithm _

lemma hashOnce_eq (algorithm : HashAlgorithm) (input : List UInt8) :
    hashOnce algorithm input = .ok (digestOf algorithm input) :=
  hash_eq algorithm input

lemma digestSize_le_blockSize (algorithm : HashAlgorithm) :
    digestSize algorithm ≤ blockSize algorithm := by
  cases algorithm <;> decide

/-- The key that the constructor resizes to a block is the block of the standard, for keys of any
length. -/
lemma resize_blockKey (algorithm : HashAlgorithm) (key : List UInt8) :
    resize (blockSize algorithm) 0
        (if blockSize algorithm < key.length then digestOf algorithm key else key) =
      blockKey (digestOf algorithm) (blockSize algorithm) key := by
  have hle : (if blockSize algorithm < key.length then digestOf algorithm key
      else key).length ≤ blockSize algorithm := by
    split
    · rw [length_digestOf]
      exact digestSize_le_blockSize algorithm
    · omega
  rw [resize, List.take_of_length_le hle, blockKey]

namespace HmacContext

/-- A context that has taken a message under a key. -/
structure After (algorithm : HashAlgorithm) (key : List UInt8) (context : HmacContext)
    (message : List UInt8) : Prop where
  hashAlgorithm : context.hashAlgorithm = algorithm
  outerPad : context.outerPad =
    (blockKey (digestOf algorithm) (blockSize algorithm) key).map (· ^^^ 0x5c)
  inner : ∃ inner, context.inner = some inner ∧ inner.After algorithm
    ((blockKey (digestOf algorithm) (blockSize algorithm) key).map (· ^^^ 0x36) ++ message)
  initialized : context.initialized = true
  open_ : context.finalized = false

/-- The constructor never fails: a context of any key has taken the empty message. -/
theorem after_create (algorithm : HashAlgorithm) (key : List UInt8) :
    After algorithm key (create algorithm key) [] := by
  have hkey : (if key.length > blockSize algorithm then hashOnce algorithm key else .ok key) =
      .ok (if blockSize algorithm < key.length then digestOf algorithm key else key) := by
    rw [hashOnce_eq]
    split <;> rfl
  obtain ⟨inner, hinner, hafter⟩ := (HashContext.after_create algorithm).update
    ((blockKey (digestOf algorithm) (blockSize algorithm) key).map (· ^^^ 0x36))
  simp only [create, hkey, resize_blockKey, hinner]
  exact ⟨rfl, rfl, ⟨inner, rfl, by simpa using hafter⟩, rfl, rfl⟩

/-- An update extends the message and keeps the invariant, whatever the context has taken in before.
-/
theorem After.update {algorithm : HashAlgorithm} {key : List UInt8} {context : HmacContext}
    {message : List UInt8} (h : After algorithm key context message) (input : List UInt8) :
    ∃ next, context.update input = (.ok (), next) ∧
      After algorithm key next (message ++ input) := by
  obtain ⟨inner, hsome, hinner⟩ := h.inner
  obtain ⟨next, hnext, hafter⟩ := hinner.update input
  refine ⟨{ context with inner := some next }, ?_, h.hashAlgorithm, h.outerPad, ⟨next, rfl, ?_⟩,
    h.initialized, h.open_⟩
  · simp only [HmacContext.update, h.open_, h.initialized, hsome, hnext, Bool.false_eq_true,
      if_false]
  · rwa [← List.append_assoc]

/-- The tag is that of the message, and the context is closed. -/
theorem After.final {algorithm : HashAlgorithm} {key : List UInt8} {context : HmacContext}
    {message : List UInt8} (h : After algorithm key context message) :
    ∃ closed, context.final = (.ok (hmacOf algorithm key message), closed) ∧
      closed.finalized = true := by
  obtain ⟨inner, hsome, hinner⟩ := h.inner
  obtain ⟨closed, hclosed⟩ := hinner.final
  -- The outer hash takes the pad and the inner digest in two updates.
  obtain ⟨outer, houter, hpad⟩ :=
    (HashContext.after_create algorithm).update context.outerPad
  obtain ⟨next, hnext, hafter⟩ := hpad.update (digestOf algorithm
    ((blockKey (digestOf algorithm) (blockSize algorithm) key).map (· ^^^ 0x36) ++ message))
  obtain ⟨last, hlast⟩ := hafter.final
  refine ⟨{ context with inner := some closed, finalized := true }, ?_, rfl⟩
  simp only [HmacContext.final, h.open_, h.initialized, hsome, hclosed, h.hashAlgorithm, houter,
    hnext, hlast, ok_bind, Bool.false_eq_true, if_false]
  rw [List.nil_append, h.outerPad]
  rfl

end HmacContext

/-- What a closed context answers, which depends on the call only. -/
def macFinalizedError : MacCall → Error
  | .update _ => ⟨.invalidArgument, "hmac", "cannot update finalized MAC context"⟩
  | .final => ⟨.invalidArgument, "hmac", "MAC context is already finalized"⟩

/-- The contexts are streaming contexts for the tag of the message. -/
theorem HmacContext.streams (algorithm : HashAlgorithm) (key : List UInt8) :
    Streams HmacContext.call MacCall.update MacCall.final (.ok none)
      (fun message => .ok (some (hmacOf algorithm key message)))
      (fun c => .error (macFinalizedError c)) (After algorithm key)
      (fun context => context.finalized = true) where
  extend := by
    intro context message chunk h
    obtain ⟨next, hnext, hafter⟩ := h.update chunk
    exact ⟨next, by rw [call, hnext]; rfl, hafter⟩
  finish := by
    intro context message h
    obtain ⟨closed, hclosed, hfinalized⟩ := h.final
    exact ⟨closed, by rw [call, hclosed]; rfl, hfinalized⟩
  refuse := by
    intro context h c
    cases c with
    | update input =>
        rw [call, HmacContext.update, if_pos h]
        rfl
    | final =>
        rw [call, HmacContext.final, if_pos h]
        rfl

lemma createMac_eq (algorithm : MacAlgorithm) (key : List UInt8) :
    createMac algorithm key = .ok (HmacContext.create algorithm.hashAlgorithm key) := by
  rw [createMac, (HmacContext.after_create algorithm.hashAlgorithm key).initialized]
  rfl

/-- The one-shot code never fails, and is HMAC over the digest. -/
@[simp] theorem mac_eq (algorithm : MacAlgorithm) (key input : List UInt8) :
    mac algorithm key input = .ok (hmacOf algorithm.hashAlgorithm key input) := by
  obtain ⟨next, hnext, hafter⟩ :=
    (HmacContext.after_create algorithm.hashAlgorithm key).update input
  obtain ⟨closed, hclosed, _⟩ := hafter.final
  simp only [mac, createMac_eq, ok_bind, hnext, hclosed, List.nil_append]

lemma digestSize_hashAlgorithm (algorithm : MacAlgorithm) :
    digestSize algorithm.hashAlgorithm = macSize algorithm := by
  cases algorithm <;> rfl

end CryptoCore
