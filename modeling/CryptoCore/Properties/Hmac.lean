import CryptoCore.Construction.Hmac
import CryptoCore.Properties.Sha2

/-!
# Streaming HMAC

However a message is cut into updates, a context returns the code of the standard over the hash of
the standard, for a key of any length; so does the one-shot code. A closed context refuses every
call.

The context holds a hash context that takes the updates behind the inner pad, and the outer pad for
the end. That the hash of the code is the hash of the standard is shown for the hash functions, and
`hmacOf_eq` carries it to the code of a key and a message. What a context does is an instance of
`Streaming.Streams`, with the code of the message as the result of its end, so that the theorem is
one application of `answers_streaming` together with the value of the one-shot function. The key is
hashed first when it is longer than a block, by the same hash, so that no case of its length is left
out.
-/

namespace CryptoCore

open KeyDerivation Streaming

/-- The code of the standard over the hash of the standard, neither of which is taken from the
source. -/
def standardMac (algorithm : MacAlgorithm) : List UInt8 → List UInt8 → List UInt8 :=
  hmac (standardHash algorithm.hashAlgorithm) (blockSize algorithm.hashAlgorithm)

lemma hmacOf_eq (algorithm : MacAlgorithm) :
    hmacOf algorithm.hashAlgorithm = standardMac algorithm := by
  funext key message
  rw [hmacOf, digestOf_eq, standardMac]

/-- Any chunks, one `final`, any calls after it: the updates succeed, `final` returns the code of
the standard for the concatenation of the chunks, which the one-shot code returns too, and every
later call fails and leaves the context that `final` left. -/
theorem hmac_streaming (algorithm : MacAlgorithm) (key : List UInt8) (chunks : List (List UInt8))
    (later : List MacCall) :
    (∃ closed,
      answers HmacContext.call (HmacContext.create algorithm.hashAlgorithm key)
          (chunks.map .update ++ [.final]) =
        (chunks.map (fun _ => .ok none) ++
          [.ok (some (standardMac algorithm key chunks.flatten))], closed) ∧
      answers HmacContext.call closed later =
        (later.map fun c => .error (macFinalizedError c), closed)) ∧
    mac algorithm key chunks.flatten = .ok (standardMac algorithm key chunks.flatten) := by
  rw [← hmacOf_eq]
  exact ⟨(HmacContext.streams algorithm.hashAlgorithm key).answers_streaming
    (HmacContext.after_create algorithm.hashAlgorithm key) chunks later, mac_eq _ _ _⟩

end CryptoCore
