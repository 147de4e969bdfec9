import CryptoCore.Construction.AesCbc
import CryptoCore.Construction.NativeProvider

/-!
# The provider interface

What the native provider says it supports, the calls that these answers are about, and the one-shot
cipher. Key generation and key agreement are the ones of the interface, which the native provider
leaves as they are: they refuse every call.

A `ProviderCall` is one call together with all its arguments, so that a statement about what is
supported can range over every call at once. `supported` is the answer that the provider gives about
it beforehand, and `outcome` is how the call ends, with its value dropped.
`Properties/Capabilities.lean` proves that the two agree: a call fails with the code of an
unsupported algorithm exactly when it is not supported, for generators whose own errors carry
another code.

The parameters of the calls that are refused are kept whole, with the defaults of the source,
although nothing reads them: a caller builds them, and the refusal holds for all of them. The
one-shot cipher creates a context and makes two calls of it, see `Properties/Cipher.lean`.
-/

namespace CryptoCore

/-! ## Parameters -/

/-- The operations that a provider can be asked about, whichever algorithm they are for. -/
inductive CryptoOperation
  | sign
  | verify
  | keygen
  | encrypt
  | decrypt
  | derive
  deriving DecidableEq, Repr

/-- The algorithms of key agreement, none of which is implemented. -/
inductive KeyAgreementAlgorithm
  | ecdhP256
  | ecdhP384
  deriving DecidableEq, Repr

/-- The parameters of a key generation, with the defaults that callers get. -/
structure RsaKeyGenerationParams where
  modulusBits : UInt64 := 2048
  publicExponent : UInt32 := 65537
  publicUsages : UInt32 := keyUsageValue .verify ||| keyUsageValue .encrypt
  privateUsages : UInt32 := keyUsageValue .sign ||| keyUsageValue .decrypt

structure EcKeyGenerationParams where
  publicUsages : UInt32 := keyUsageValue .verify
  privateUsages : UInt32 := keyUsageValue .sign

structure GenerateKeyPairParams where
  algorithm : AsymmetricKeyAlgorithm
  rsa : RsaKeyGenerationParams := {}
  ec : EcKeyGenerationParams := {}

structure KeyPair where
  publicKey : PublicKey
  privateKey : PrivateKey

/-- The parameters of a key agreement, with keys that may be missing. -/
structure SharedSecretParams where
  algorithm : KeyAgreementAlgorithm
  privateKey : Option PrivateKey
  peerPublicKey : Option PublicKey

/-! ## The calls that the interface refuses -/

/-- The error of a call that a provider does not override. -/
def unsupportedError (message : String) : Error :=
  makeError .unsupportedAlgorithm "provider" message

/-- Key generation as the interface defines it; the native provider does not override it. -/
def ICryptoProvider.generateKeyPair (_ : GenerateKeyPairParams) : Result KeyPair :=
  .error (unsupportedError "key generation algorithm is not supported")

/-- Key agreement as the interface defines it, for providers that do not: a refusal. -/
def ICryptoProvider.deriveSharedSecret (_ : SharedSecretParams) : Result ByteBuffer :=
  .error (unsupportedError "key agreement algorithm is not supported")

/-! ## What the native provider supports -/

namespace NativeProvider

/-- Whether an algorithm can be used for signatures at all. -/
def supportsSignature (algorithm : SignatureAlgorithm) : Bool :=
  isRsaPssAlgorithm algorithm || isEcdsaAlgorithm algorithm || isEd25519Algorithm algorithm

/-- Whether an operation is one of signatures and supported for the algorithm. -/
def supportsSignatureOperation (operation : CryptoOperation) (algorithm : SignatureAlgorithm) :
    Bool :=
  match operation with
  | .sign =>
      isRsaPssAlgorithm algorithm || isEcdsaAlgorithm algorithm || isEd25519Algorithm algorithm
  | .verify =>
      isRsaPssAlgorithm algorithm || isEcdsaAlgorithm algorithm || isEd25519Algorithm algorithm
  | .keygen | .encrypt | .decrypt | .derive => false

/-- No operation on keys is supported, whichever operation and algorithm it is. -/
def supportsKeyOperation (_ : CryptoOperation) (_ : AsymmetricKeyAlgorithm) : Bool :=
  false

/-- Whether an operation is one of encryption and supported for the algorithm. -/
def supportsEncryptionOperation (operation : CryptoOperation)
    (algorithm : AsymmetricEncryptionAlgorithm) : Bool :=
  match operation with
  | .encrypt | .decrypt => isRsaOaepAlgorithm algorithm
  | .sign | .verify | .keygen | .derive => false

def supportsKeyAgreementOperation (_ : CryptoOperation) (_ : KeyAgreementAlgorithm) : Bool :=
  false

end NativeProvider

/-! ## Calls -/

/-- A call of the native provider that has an operation and an algorithm. -/
inductive ProviderCall
  | sign (params : SignParams) (message : List UInt8)
  | verify (params : VerifyParams) (message : List UInt8)
  | generateKeyPair (params : GenerateKeyPairParams)
  | asymmetricEncrypt (params : AsymmetricEncryptParams) (plaintext : List UInt8)
  | asymmetricDecrypt (params : AsymmetricDecryptParams) (ciphertext : List UInt8)
  | deriveSharedSecret (params : SharedSecretParams)

namespace ProviderCall

open NativeProvider

/-- The answer of the provider to the question whether it supports the call. -/
def supported : ProviderCall → Bool
  | sign params _ => supportsSignatureOperation .sign params.algorithm
  | verify params _ => supportsSignatureOperation .verify params.algorithm
  | generateKeyPair params => supportsKeyOperation .keygen params.algorithm
  | asymmetricEncrypt params _ => supportsEncryptionOperation .encrypt params.algorithm
  | asymmetricDecrypt params _ => supportsEncryptionOperation .decrypt params.algorithm
  | deriveSharedSecret params => supportsKeyAgreementOperation .derive params.algorithm

/-- How the call ends: with a value, whatever it is, or with an error. -/
def outcome (rng : Rng) : ProviderCall → Result Unit
  | sign params message => do
      let _ ← NativeProvider.sign rng params message
      return ()
  | verify params message => do
      let _ ← NativeProvider.verify params message
      return ()
  | generateKeyPair params => do
      let _ ← ICryptoProvider.generateKeyPair params
      return ()
  | asymmetricEncrypt params plaintext => do
      let _ ← NativeProvider.asymmetricEncrypt rng params plaintext
      return ()
  | asymmetricDecrypt params ciphertext => do
      let _ ← NativeProvider.asymmetricDecrypt rng params ciphertext
      return ()
  | deriveSharedSecret params => do
      let _ ← ICryptoProvider.deriveSharedSecret params
      return ()

end ProviderCall

/-! ## The one-shot cipher -/

/-- The context of a cipher, which only AES-CBC has, for its three key sizes. -/
def NativeProvider.createCipher (params : CipherParams) : Result AesCbcContext :=
  createAesCbcContext params

/-- The one-shot cipher: a context, one call for the whole input, and the final call. The two
outputs are put together. -/
def cipher (params : CipherParams) (input : List UInt8) : Result ByteBuffer := do
  let context ← NativeProvider.createCipher params
  let (update, context) := context.update input
  let updated ← update
  let finalized ← context.final.1
  return updated ++ finalized

end CryptoCore
