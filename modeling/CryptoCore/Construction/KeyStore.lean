import CryptoCore.Construction.Asymmetric
import CryptoCore.Framework.Simulations

/-!
# Secret keys and the key store

A secret key is bytes of the size of its algorithm, with the usages it was given; that the material
was validated is a field of `SecretKey`, so that a key with material of the wrong size cannot be
built. The store keeps secret, public and private keys in three maps under identifiers; an
identifier is used once, whatever kind of key it names, and nothing is ever removed or replaced. A
key is asked for with the usage it is wanted for, and the two refusals, a missing key and a usage
that is not allowed, have texts of their own for each kind.

`KeyStoreCall` is a call with its arguments and `KeyStore.call` the step that answers it, so that a
history of calls is a list. The maps are association lists with the first entry in force; that
insertion keeps them consistent is the pattern of `Framework/Simulations.lean`, which
`Properties/KeyStore.lean` instantiates: after any calls the store answers as the map from
identifiers to keys that the calls describe. `Properties/StoredKeys.lean` follows stored keys into
signing, verifying and sealing.
-/

namespace CryptoCore

open WriteOnce

/-! ## Secret keys -/

/-- What a secret key can be for. Only the keys of the block cipher have a fixed size. -/
inductive KeyAlgorithm
  | genericSecret
  | aes128
  | aes192
  | aes256
  | hmacSha256
  | hmacSha512
  deriving DecidableEq, Repr

/-- The size that an algorithm asks for, zero when any size will do. -/
def keyAlgorithmSecretSize : KeyAlgorithm → ℕ
  | .aes128 => 16
  | .aes192 => 24
  | .aes256 => 32
  | .genericSecret | .hmacSha256 | .hmacSha512 => 0

/-- Whether the value is one of the enumerators; it always is in the model. -/
def isKnownAlgorithm : KeyAlgorithm → Bool
  | .genericSecret | .aes128 | .aes192 | .aes256 | .hmacSha256 | .hmacSha512 => true

def keyError (code : ErrorCode) (message : String) : Error :=
  makeError code "key" message

/-- The check of an import: the size of the algorithm, or any size but zero. -/
def validateSecretKeyMaterial (algorithm : KeyAlgorithm) (bytes : List UInt8) : Result Unit := do
  require (isKnownAlgorithm algorithm)
    (keyError .unsupportedAlgorithm "key algorithm is not supported")
  let expectedSize := keyAlgorithmSecretSize algorithm
  require (!(expectedSize != 0 && bytes.length != expectedSize))
    (keyError .invalidKey "secret key size does not match algorithm")
  require (!(expectedSize == 0 && bytes.isEmpty))
    (keyError .invalidKey "secret key must not be empty")

/-- Only material of the right size is a key: the check of the constructor is a field. -/
structure SecretKey where
  algorithm : KeyAlgorithm
  usages : UInt32
  bytes : ByteBuffer
  valid : validateSecretKeyMaterial algorithm bytes = .ok ()

namespace SecretKey

/-- Whether the key was given a usage. -/
def allows (key : SecretKey) (usage : KeyUsage) : Bool :=
  hasKeyUsage key.usages usage

/-- The import of bytes, and of a buffer that is handed over. -/
def importRaw (algorithm : KeyAlgorithm) (bytes : List UInt8) (usages : UInt32) :
    Result SecretKey :=
  match h : validateSecretKeyMaterial algorithm bytes with
  | .error error => .error error
  | .ok () => .ok ⟨algorithm, usages, bytes, h⟩

/-- A copy of the material. The source returns a result, although nothing fails. -/
def exportRaw (key : SecretKey) : Result ByteBuffer := .ok key.bytes

end SecretKey

/-! ## The store -/

/-- An identifier is a string of bytes. The empty one is never taken. -/
abbrev KeyId := List UInt8

/-- The three maps of the store. An entry in front hides later ones, which insertion never lets
happen. -/
structure KeyStore where
  secretKeys : List (KeyId × SecretKey) := []
  publicKeys : List (KeyId × PublicKey) := []
  privateKeys : List (KeyId × PrivateKey) := []

def keyStoreError (code : ErrorCode) (message : String) : Error :=
  makeError code "key_store" message

/-- The key that was found, if it allows the usage. -/
def requireKey {κ : Type} (allows : κ → KeyUsage → Bool) (key : Option κ) (usage : KeyUsage)
    (missingMessage usageMessage : String) : Result κ := do
  let some key := key
    | .error (keyStoreError .invalidKey missingMessage)
  require (allows key usage) (keyStoreError .invalidKey usageMessage)
  return key

namespace KeyStore

def findSecret (store : KeyStore) (id : KeyId) : Option SecretKey :=
  store.secretKeys.lookup id

def findPublic (store : KeyStore) (id : KeyId) : Option PublicKey :=
  store.publicKeys.lookup id

def findPrivate (store : KeyStore) (id : KeyId) : Option PrivateKey :=
  store.privateKeys.lookup id

/-- Whether an identifier is taken, by a key of any kind. -/
def hasId (store : KeyStore) (id : KeyId) : Bool :=
  (store.findSecret id).isSome || (store.findPublic id).isSome || (store.findPrivate id).isSome

def contains (store : KeyStore) (id : KeyId) : Bool :=
  store.hasId id

/-- The check of an insertion: an identifier that is not empty and not taken. -/
def validateNewId (store : KeyStore) (id : KeyId) : Result Unit := do
  require (!id.isEmpty) (keyStoreError .invalidArgument "key id must not be empty")
  require (!store.hasId id) (keyStoreError .invalidArgument "key id already exists")

/-- The insertion of a secret key. A refused insertion leaves the store as it is. -/
def insertSecret (store : KeyStore) (id : KeyId) (key : SecretKey) : Result Unit × KeyStore :=
  match store.validateNewId id with
  | .error error => (.error error, store)
  | .ok () => (.ok (), { store with secretKeys := emplace store.secretKeys id key })

def insertPublic (store : KeyStore) (id : KeyId) (key : PublicKey) : Result Unit × KeyStore :=
  match store.validateNewId id with
  | .error error => (.error error, store)
  | .ok () => (.ok (), { store with publicKeys := emplace store.publicKeys id key })

def insertPrivate (store : KeyStore) (id : KeyId) (key : PrivateKey) : Result Unit × KeyStore :=
  match store.validateNewId id with
  | .error error => (.error error, store)
  | .ok () => (.ok (), { store with privateKeys := emplace store.privateKeys id key })

/-- The secret key of an identifier, if it allows the usage. -/
def requireSecret (store : KeyStore) (id : KeyId) (usage : KeyUsage) : Result SecretKey :=
  requireKey SecretKey.allows (store.findSecret id) usage "secret key id was not found"
    "secret key usage is not allowed"

def requirePublic (store : KeyStore) (id : KeyId) (usage : KeyUsage) : Result PublicKey :=
  requireKey PublicKey.allows (store.findPublic id) usage "public key id was not found"
    "public key usage is not allowed"

def requirePrivate (store : KeyStore) (id : KeyId) (usage : KeyUsage) : Result PrivateKey :=
  requireKey PrivateKey.allows (store.findPrivate id) usage "private key id was not found"
    "private key usage is not allowed"

end KeyStore

/-! ## Calls -/

/-- A key of any of the three kinds, with its usages. -/
inductive StoredKey
  | secretKey (key : SecretKey)
  | publicKey (key : PublicKey)
  | privateKey (key : PrivateKey)

/-- A call on a store: one of its ten public functions, the three insertions as one. -/
inductive KeyStoreCall
  | insert (id : KeyId) (key : StoredKey)
  | contains (id : KeyId)
  | findSecret (id : KeyId)
  | findPublic (id : KeyId)
  | findPrivate (id : KeyId)
  | requireSecret (id : KeyId) (usage : KeyUsage)
  | requirePublic (id : KeyId) (usage : KeyUsage)
  | requirePrivate (id : KeyId) (usage : KeyUsage)

/-- What a call returns. A pointer to a key stands for the key it points to, and a null pointer for
none: the maps move no entry, so that the pointer stays good as long as the store. -/
inductive KeyStoreAnswer
  | inserted (result : Result Unit)
  | contains (found : Bool)
  | foundSecret (key : Option SecretKey)
  | foundPublic (key : Option PublicKey)
  | foundPrivate (key : Option PrivateKey)
  | secretKey (result : Result SecretKey)
  | publicKey (result : Result PublicKey)
  | privateKey (result : Result PrivateKey)

namespace KeyStore

/-- The three insertions as one function, which goes to the table of the kind. -/
def insert (store : KeyStore) (id : KeyId) : StoredKey → Result Unit × KeyStore
  | .secretKey key => store.insertSecret id key
  | .publicKey key => store.insertPublic id key
  | .privateKey key => store.insertPrivate id key

/-- One call: its answer and the store after it. Only an insertion changes the store. -/
def call (store : KeyStore) : KeyStoreCall → KeyStoreAnswer × KeyStore
  | .insert id key => (.inserted (store.insert id key).1, (store.insert id key).2)
  | .contains id => (.contains (store.contains id), store)
  | .findSecret id => (.foundSecret (store.findSecret id), store)
  | .findPublic id => (.foundPublic (store.findPublic id), store)
  | .findPrivate id => (.foundPrivate (store.findPrivate id), store)
  | .requireSecret id usage => (.secretKey (store.requireSecret id usage), store)
  | .requirePublic id usage => (.publicKey (store.requirePublic id usage), store)
  | .requirePrivate id usage => (.privateKey (store.requirePrivate id usage), store)

end KeyStore

end CryptoCore
