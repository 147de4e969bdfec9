import CryptoCore.Construction.EcDer
import CryptoCore.Construction.Ed25519
import CryptoCore.Construction.RsaDer

/-!
# Asymmetric keys

A key is the bytes it was imported from, with its algorithm and the usages it was given. An import
parses the bytes once, to check them; signing, verifying, encrypting and decrypting parse them
again. That the second parse gives the same material is `Properties/Asymmetric.lean`, and that a
failing import has one code only is `Properties/ImportFailures.lean`.

The module has no lemmas of its own. It fixes the imports of the source for public and for private
keys, each with its dispatch on the algorithm, and the bit arithmetic of usages. The parsers are
those of `Construction/RsaDer.lean` and `Construction/EcDer.lean`; an Ed25519 public key is a point
that is validated, and a seed is any 32 bytes. `Construction/NativeProvider.lean` consumes the keys,
and `Construction/KeyStore.lean` stores them.
-/

namespace CryptoCore

/-! ## Keys and usages -/

/-- The algorithms a key can be for. P-384 is an enumerator of the source for which every import
fails. -/
inductive AsymmetricKeyAlgorithm
  | rsa
  | ecdsaP256
  | ecdsaP384
  | ed25519
  deriving DecidableEq, Repr

/-- The usages of a key, for all kinds of keys; an asymmetric key is given some of them. -/
inductive KeyUsage
  | none
  | encrypt
  | decrypt
  | mac
  | derive
  | sign
  | verify
  deriving DecidableEq, Repr

/-- The bit of a usage. `none` has no bit and is allowed to no key. -/
def keyUsageValue : KeyUsage → UInt32
  | .none => 0
  | .encrypt => (1 : UInt32) <<< 0
  | .decrypt => (1 : UInt32) <<< 1
  | .mac => (1 : UInt32) <<< 2
  | .derive => (1 : UInt32) <<< 3
  | .sign => (1 : UInt32) <<< 4
  | .verify => (1 : UInt32) <<< 5

/-- Whether a set of usages, a word of flags, contains one of them. -/
def hasKeyUsage (usages : UInt32) (usage : KeyUsage) : Bool :=
  usages &&& keyUsageValue usage != 0

/-- A public key: the bytes as they were imported, and what they may be used for. -/
structure PublicKey where
  algorithm : AsymmetricKeyAlgorithm
  usages : UInt32
  material : ByteBuffer

/-- A private key. The source keeps its bytes in a secure buffer, whose wiping is modelled in
`Construction/SecureBuffer.lean`. -/
structure PrivateKey where
  algorithm : AsymmetricKeyAlgorithm
  usages : UInt32
  material : ByteBuffer

/-- Whether the key was imported for a usage; the provider asks before every operation. -/
def PublicKey.allows (key : PublicKey) (usage : KeyUsage) : Bool :=
  hasKeyUsage key.usages usage

def PrivateKey.allows (key : PrivateKey) (usage : KeyUsage) : Bool :=
  hasKeyUsage key.usages usage

/-! ## Imports -/

/-- The error of the imports themselves, next to those of the parsers that they pass on. -/
def asymmetricError (code : ErrorCode) (message : String) : Error :=
  makeError code "asymmetric" message

namespace PublicKey

/-- The import of a SubjectPublicKeyInfo, for the two algorithms that have one here. -/
def importSpkiDer (algorithm : AsymmetricKeyAlgorithm) (der : List UInt8) (usages : UInt32) :
    Result PublicKey :=
  let key : PublicKey := ⟨algorithm, usages, der⟩
  match algorithm with
  | .rsa => do
      let _ ← parseRsaSpkiPublicKeyDer der
      return key
  | .ecdsaP256 => do
      let _ ← parseP256PublicKeyDer der
      return key
  | .ecdsaP384 | .ed25519 =>
      .error (asymmetricError .invalidKey "SPKI DER import is not implemented for this algorithm")

def importDer (algorithm : AsymmetricKeyAlgorithm) (der : List UInt8) (usages : UInt32) :
    Result PublicKey :=
  importSpkiDer algorithm der usages

/-- The import of a bare RSA public key: the bytes are checked and kept as they are. -/
def importRsaPkcs1Der (der : List UInt8) (usages : UInt32) : Result PublicKey := do
  let _ ← parseRsaPkcs1PublicKeyDer der
  return ⟨.rsa, usages, der⟩

/-- The import of a raw Ed25519 public key. It must decode to a point. -/
def importRawEd25519 (rawPublicKey : List UInt8) (usages : UInt32) : Result PublicKey := do
  Ed25519.validateEd25519PublicKey rawPublicKey
  return ⟨.ed25519, usages, rawPublicKey⟩

end PublicKey

namespace PrivateKey

/-- The import of a PKCS#8 private key, for the two algorithms that have one here. -/
def importPkcs8Der (algorithm : AsymmetricKeyAlgorithm) (der : List UInt8) (usages : UInt32) :
    Result PrivateKey :=
  let key : PrivateKey := ⟨algorithm, usages, der⟩
  match algorithm with
  | .rsa => do
      let _ ← parseRsaPkcs8PrivateKeyDer der
      return key
  | .ecdsaP256 => do
      let _ ← parseP256Pkcs8PrivateKeyDer der
      return key
  | .ecdsaP384 | .ed25519 =>
      .error (asymmetricError .invalidKey
        "PKCS#8 DER import is not implemented for this algorithm")

def importDer (algorithm : AsymmetricKeyAlgorithm) (der : List UInt8) (usages : UInt32) :
    Result PrivateKey :=
  importPkcs8Der algorithm der usages

/-- The import of a SEC1 private key, for P-256 only. The curve must be in the key. -/
def importSec1Der (algorithm : AsymmetricKeyAlgorithm) (der : List UInt8) (usages : UInt32) :
    Result PrivateKey := do
  require (algorithm == .ecdsaP256)
    (asymmetricError .invalidKey "SEC1 DER import is not implemented for this algorithm")
  let _ ← parseP256Sec1PrivateKeyDer der
  return ⟨.ecdsaP256, usages, der⟩

/-- The import of a bare RSA private key, checked in the same way, the relations between its numbers
included. -/
def importRsaPkcs1Der (der : List UInt8) (usages : UInt32) : Result PrivateKey := do
  let _ ← parseRsaPkcs1PrivateKeyDer der
  return ⟨.rsa, usages, der⟩

def ed25519RawKeySize : ℕ := 32

/-- The import of an Ed25519 seed, of which only the length is checked. -/
def importRawEd25519Seed (rawSeed : List UInt8) (usages : UInt32) : Result PrivateKey := do
  require (rawSeed.length == ed25519RawKeySize)
    (asymmetricError .invalidKey "Ed25519 raw private seed must be 32 bytes")
  return ⟨.ed25519, usages, rawSeed⟩

end PrivateKey

end CryptoCore
