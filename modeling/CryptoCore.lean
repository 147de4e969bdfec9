import CryptoCore.Framework.ByteStrings
import CryptoCore.Framework.Limbs
import CryptoCore.Framework.LimbProducts
import CryptoCore.Framework.Loops
import CryptoCore.Framework.CrtExponentiation
import CryptoCore.Construction.Result
import CryptoCore.Construction.BigInt
import CryptoCore.Construction.RsaFixedBigInt
import CryptoCore.Framework.Der
import CryptoCore.Construction.DerReader
import CryptoCore.Construction.RsaDer
import CryptoCore.Construction.Rsa
import CryptoCore.Properties.RsaOperations
import CryptoCore.Framework.Blocks
import CryptoCore.Construction.Memory
import CryptoCore.Construction.Aes
import CryptoCore.Construction.AesGcm
import CryptoCore.Properties.AesGcm
import CryptoCore.Framework.MerkleDamgard
import CryptoCore.Construction.Sha2
import CryptoCore.Framework.EmsaPss
import CryptoCore.Construction.RsaPss
import CryptoCore.Construction.Asymmetric
import CryptoCore.Framework.EmeOaep
import CryptoCore.Construction.RsaOaep
import CryptoCore.Construction.NativeProvider
import CryptoCore.Framework.Primality
import CryptoCore.Properties.RsaPss
import CryptoCore.Framework.ShortWeierstrass
import CryptoCore.Construction.P256Curve
import CryptoCore.Construction.P256FixedInteger
import CryptoCore.Construction.P256Fixed
import CryptoCore.Construction.P256
import CryptoCore.Properties.P256
import CryptoCore.Properties.Sha2
import CryptoCore.Framework.DeterministicNonces
import CryptoCore.Construction.Ecdsa
import CryptoCore.Properties.RsaDer
import CryptoCore.Properties.RsaOaep
import CryptoCore.Properties.NativeProvider
import CryptoCore.Properties.Asymmetric
import CryptoCore.Properties.ImportFailures
import CryptoCore.Properties.EcDer
import CryptoCore.Properties.Ecdsa
import CryptoCore.Properties.Encoding
import CryptoCore.Framework.Streaming
import CryptoCore.Framework.KeyDerivation
import CryptoCore.Framework.Runs
import CryptoCore.Framework.BlockChaining
import CryptoCore.Construction.AesCbc
import CryptoCore.Construction.Hmac
import CryptoCore.Construction.Kdf
import CryptoCore.Properties.Hmac
import CryptoCore.Properties.Kdf
import CryptoCore.Properties.AesCbc
import CryptoCore.Framework.TwistedEdwards
import CryptoCore.Construction.Ed25519Curve
import CryptoCore.Construction.Ed25519
import CryptoCore.Properties.Ed25519
import CryptoCore.Framework.CheckedAccess
import CryptoCore.Framework.CheckedLimbs
import CryptoCore.Properties.Aes
import CryptoCore.Properties.EmsaPss
import CryptoCore.Properties.ModularExponentiation
import CryptoCore.Properties.RsaBlinding
import CryptoCore.Properties.DerReader
import CryptoCore.Properties.BigInt
import CryptoCore.Framework.BinaryPolynomials
import CryptoCore.Framework.BinaryFields
import CryptoCore.Properties.Ghash
import CryptoCore.Properties.RsaFixedBigInt
import CryptoCore.Properties.P256FixedInteger
import CryptoCore.Framework.Simulations
import CryptoCore.Construction.KeyStore
import CryptoCore.Properties.KeyStore
import CryptoCore.Properties.StoredKeys
import CryptoCore.Construction.OsRng
import CryptoCore.Properties.OsRng
import CryptoCore.Framework.TextLines
import CryptoCore.Properties.Pem
import CryptoCore.Framework.Ownership
import CryptoCore.Construction.SecureBuffer
import CryptoCore.Properties.SecureBuffer
import CryptoCore.Properties.Signing
import CryptoCore.Properties.OaepCiphertexts
import CryptoCore.Properties.FixedIntegers
import CryptoCore.Properties.SignatureTwins
import CryptoCore.Properties.SignatureOrigins
import CryptoCore.Construction.Provider
import CryptoCore.Properties.Capabilities
import CryptoCore.Properties.Cipher
import CryptoCore.Properties.SystemRng
