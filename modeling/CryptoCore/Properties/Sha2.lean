import CryptoCore.Construction.Sha2
import CryptoCore.Framework.Streaming

/-!
# Streaming SHA-2

However a message is cut into updates, a context returns the digest of the standard: the chain over
the padded message. It returns it once; every later call fails and leaves the context as it is.

`standardDigest` is written down from the padding and the blocks of the framework and uses nothing
of the context: no buffer, no counter and no streaming. The compression function is the one of the
source, as is the choice of the initial words. The length of the message goes into the padding in
two words, which is the low part of a number that the context counts in one or two words of its own.

Both contexts are instances of one construction with different words, rounds and sizes. `streams_of`
makes such a context a streaming context once its two operations are known; `sha256_streams` and
`sha512_streams` are the instances, and the theorem is the run of any chunks, the end, and any calls
after it.
-/

namespace CryptoCore

open Blocks ByteStrings IHashContext MerkleDamgard Streaming

/-- The digest of the standard: the compression function folded over the blocks of the message, a
one bit, as few zero bits as make whole blocks, and the bit length of the message in two words. -/
def Sha2Variant.standardDigest {W : Type} [Inhabited W] [Add W] [AndOp W] [XorOp W] [Complement W]
    (v : Sha2Variant W) (init : Sha2State W) (message : List UInt8) : List UInt8 :=
  v.digestBytes ((blocks v.blockSize (pad v.blockSize 0x80 0
    (beBytes (2 * v.wordSize) (8 * message.length)) message)).foldl v.transform init)

lemma sha256Digest_eq (message : List UInt8) :
    sha256Digest message = sha256Variant.standardDigest sha256Init message := by
  rw [sha256Digest, storeBe64_ofNat, mul_comm]
  rfl

lemma sha512Digest_eq (message : List UInt8) :
    sha512Digest message = sha512Variant.standardDigest sha512Init message := by
  have hfield : beBytes 16 (8 * message.length) =
      beBytes 8 (8 * message.length / 2 ^ 64) ++ beBytes 8 (8 * message.length) :=
    beBytes_append 8 8 (8 * message.length)
  rw [sha512Digest, storeBe64_ofNat, storeBe64_ofNat, mul_comm, ← hfield]
  rfl

/-- The hash of the standard under an algorithm, as a function of the whole message. -/
def standardHash : HashAlgorithm → List UInt8 → List UInt8
  | .sha256 => sha256Variant.standardDigest sha256Init
  | .sha512 => sha512Variant.standardDigest sha512Init

lemma digestOf_eq (algorithm : HashAlgorithm) : digestOf algorithm = standardHash algorithm := by
  cases algorithm
  · exact funext sha256Digest_eq
  · exact funext sha512Digest_eq

/-! ## Runs of calls -/

/-- What a finalized context answers, with the category of its algorithm. -/
def finalizedError (category : String) : HashCall → Error
  | .update _ => ⟨.invalidArgument, category, "cannot update finalized hash context"⟩
  | .final => ⟨.invalidArgument, category, "hash context is already finalized"⟩

/-- A hash context is a streaming context, once its two operations are known on a context that has
taken a message and on a finalized one. -/
lemma streams_of {C : Type} [IHashContext C] {After : C → List UInt8 → Prop} {Closed : C → Prop}
    {digest : List UInt8 → List UInt8} {category : String}
    (hupdate : ∀ {context message} (input : List UInt8), After context message →
      ∃ next, update context input = .ok next ∧ After next (message ++ input))
    (hfinal : ∀ {context message}, After context message →
      ∃ closed, final context = .ok (digest message, closed) ∧ Closed closed)
    (hagain : ∀ {context}, Closed context →
      (∀ input, update context input = .error (finalizedError category (.update input))) ∧
      final context = .error (finalizedError category .final)) :
    Streams (@call C _) HashCall.update HashCall.final (.ok none)
      (fun message => .ok (some (digest message))) (fun c => .error (finalizedError category c))
      After Closed where
  extend := by
    intro context message chunk h
    obtain ⟨next, hnext, hafter⟩ := hupdate chunk h
    exact ⟨next, by rw [call, hnext], hafter⟩
  finish := by
    intro context message h
    obtain ⟨closed, hclosed, hfinalized⟩ := hfinal h
    exact ⟨closed, by rw [call, hclosed], hfinalized⟩
  refuse := by
    intro context h c
    obtain ⟨hrefused, hclosed⟩ := hagain h
    cases c with
    | update input => rw [call, hrefused]
    | final => rw [call, hclosed]

lemma sha256_streams : Streams (@call Sha256Context _) HashCall.update HashCall.final
    (.ok none) (fun message => .ok (some (sha256Digest message)))
    (fun c => .error (finalizedError "sha256" c)) Sha256Context.After
    (fun context => context.finalized = true) := by
  refine streams_of (fun input h => h.update input) (fun h => h.final) fun {context} h =>
    ⟨fun input => ?_, ?_⟩
  · change Sha256Context.update context input = _
    rw [Sha256Context.update, h]
    rfl
  · change Sha256Context.final context = _
    rw [Sha256Context.final, h]
    rfl

lemma sha512_streams : Streams (@call Sha512Context _) HashCall.update HashCall.final
    (.ok none) (fun message => .ok (some (sha512Digest message)))
    (fun c => .error (finalizedError "sha512" c)) Sha512Context.After
    (fun context => context.finalized = true) := by
  refine streams_of (fun input h => h.update input) (fun h => h.final) fun {context} h =>
    ⟨fun input => ?_, ?_⟩
  · change Sha512Context.update context input = _
    rw [Sha512Context.update, h]
    rfl
  · change Sha512Context.final context = _
    rw [Sha512Context.final, h]
    rfl

/-- Any chunks, one `final`, any calls after it: the updates succeed, `final` returns the digest
of the standard for the concatenation of the chunks, and every later call fails and leaves the
context that `final` left. -/
theorem sha2_streaming (chunks : List (List UInt8)) (later : List HashCall) :
    (∃ closed : Sha256Context,
      answers call ({} : Sha256Context) (chunks.map .update ++ [.final]) =
        (chunks.map (fun _ => .ok none) ++
          [.ok (some (sha256Variant.standardDigest sha256Init chunks.flatten))], closed) ∧
      answers call closed later =
        (later.map fun c => .error (finalizedError "sha256" c), closed)) ∧
    (∃ closed : Sha512Context,
      answers call ({} : Sha512Context) (chunks.map .update ++ [.final]) =
        (chunks.map (fun _ => .ok none) ++
          [.ok (some (sha512Variant.standardDigest sha512Init chunks.flatten))], closed) ∧
      answers call closed later =
        (later.map fun c => .error (finalizedError "sha512" c), closed)) := by
  rw [← sha256Digest_eq, ← sha512Digest_eq]
  exact ⟨sha256_streams.answers_streaming Sha256Context.after_nil chunks later,
    sha512_streams.answers_streaming Sha512Context.after_nil chunks later⟩

end CryptoCore
