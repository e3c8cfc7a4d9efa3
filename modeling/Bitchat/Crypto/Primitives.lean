import Bitchat.Data.Bytes
import Bitchat.Data.Stateful

/-! The cryptographic libraries as parameters, and the thin wrappers around them:
key validation, Diffie-Hellman and the Noise key derivation. -/
namespace Bitchat.Crypto
open Stateful

/-- The third-party primitives. `none` stands for an exception of the library. -/
class Primitives where
  sha256 : Bytes → Bytes
  hmacSha256 : (key message : Bytes) → Bytes
  /-- The public key of a 32-byte private key. -/
  publicKey : Bytes → Bytes
  parsesPublic : Bytes → Bool
  exchange : (privateKey publicKey : Bytes) → Option Bytes
  aeadEncrypt : (key nonce data associated : Bytes) → Option Bytes
  aeadDecrypt : (key nonce data associated : Bytes) → Option Bytes

/-- The exceptions of the crypto package and the built-in ones it lets through. -/
inductive CryptoError where
  | invalidKey (message : String)
  | keyExchange (message : String)
  | encryption (message : String)
  | decryption (message : String)
  | invalidNonce (message : String)
  | noise (message : String)
  | noiseState (message : String)
  | replay (message : String)
  | authentication (message : String)
  | overflow (message : String)
  | value (message : String)
deriving DecidableEq, Repr

def dhKeySize : Nat := 32
def tagSize : Nat := 16
def x25519KeySize : Nat := 32
def x25519SharedSecretSize : Nat := 32

/-- The points that `validate_public_key` refuses. -/
def lowOrderPoints : List Bytes :=
  [List.replicate 32 0x00,
   0x01 :: List.replicate 30 0x00 ++ [0x01],
   List.replicate 31 0x00 ++ [0x01],
   [0xE0, 0xEB, 0x7A, 0x7C, 0x3B, 0x41, 0xB8, 0xAE, 0x16, 0x56, 0xE3, 0xFA, 0xF1, 0x9F, 0xC4, 0x6A,
    0xDA, 0x09, 0x8D, 0xEB, 0x9C, 0x32, 0xB1, 0xFD, 0x86, 0x62, 0x05, 0x16, 0x5F, 0x49, 0xB8, 0x00],
   [0x5F, 0x9C, 0x95, 0xBC, 0xA3, 0x50, 0x8C, 0x24, 0xB1, 0xD0, 0xB1, 0x55, 0x9C, 0x83, 0xEF, 0x5B,
    0x04, 0x44, 0x5C, 0xC4, 0x58, 0x1C, 0x8E, 0x86, 0xD8, 0x22, 0x4E, 0xDD, 0xD0, 0x9F, 0x11, 0x57],
   List.replicate 32 0xFF,
   0xDA :: List.replicate 31 0xFF,
   0xDB :: List.replicate 31 0xFF]

section Wrappers
variable [Primitives]

def checkPrivateKey (privateKey : Bytes) : Except CryptoError Unit :=
  if privateKey.length ≠ x25519KeySize then
    .error (.invalidKey
      s!"X25519 private key must be {x25519KeySize} bytes, got {privateKey.length}")
  else .ok ()

def publicKeyFromPrivate (privateKey : Bytes) : Except CryptoError Bytes := do
  checkPrivateKey privateKey
  return Primitives.publicKey privateKey

def validatePublicKey (publicKey : Bytes) : Except CryptoError Bytes :=
  if publicKey.length ≠ x25519KeySize then
    .error (.invalidKey s!"X25519 public key must be {x25519KeySize} bytes, got {publicKey.length}")
  else if publicKey ∈ lowOrderPoints then
    .error (.invalidKey "X25519 public key is a known low-order/weak point")
  else if ¬ Primitives.parsesPublic publicKey then
    .error (.invalidKey "Invalid X25519 public key")
  else .ok publicKey

def diffieHellman (localPrivate remotePublic : Bytes) : Except CryptoError Bytes := do
  checkPrivateKey localPrivate
  let remoteValidated ← validatePublicKey remotePublic
  match Primitives.exchange localPrivate remoteValidated with
  | none => .error (.keyExchange "X25519 Diffie-Hellman exchange failed")
  | some shared =>
    if shared.length ≠ x25519SharedSecretSize then
      .error (.keyExchange s!"X25519 produced unexpected shared secret length {shared.length}")
    else .ok shared

/-- The output blocks: each is keyed by `tempKey` over the one before and its number. -/
def hkdfOutputs (tempKey : Bytes) : (count number : Nat) → (current : Bytes) → List Bytes
  | 0, _, _ => []
  | count + 1, number, current =>
    let next := Primitives.hmacSha256 tempKey (current ++ [UInt8.ofNat number])
    next :: hkdfOutputs tempKey count (number + 1) next

def noiseHkdf (chainingKey ikm : Bytes) (numOutputs : Nat) : Except CryptoError (List Bytes) :=
  if numOutputs < 1 ∨ 255 < numOutputs then
    .error (.value s!"num_outputs must be in [1, 255], got {numOutputs}")
  else .ok (hkdfOutputs (Primitives.hmacSha256 chainingKey ikm) numOutputs 1 [])

/-- The first output of `noise_hkdf`: the next chaining key, or the first transport key. -/
def hkdfChain (chainingKey ikm : Bytes) : Bytes :=
  Primitives.hmacSha256 (Primitives.hmacSha256 chainingKey ikm) [1]

/-- The second output of `noise_hkdf`: a cipher key. -/
def hkdfKey (chainingKey ikm : Bytes) : Bytes :=
  Primitives.hmacSha256 (Primitives.hmacSha256 chainingKey ikm) (hkdfChain chainingKey ikm ++ [2])

theorem noiseHkdf_two (chainingKey ikm : Bytes) :
    noiseHkdf chainingKey ikm 2 = .ok [hkdfChain chainingKey ikm, hkdfKey chainingKey ikm] := rfl

/-- A key that passes validation is returned as it is, and has the right size. -/
theorem validatePublicKey_eq_ok {publicKey key : Bytes}
    (valid : validatePublicKey publicKey = .ok key) :
    key = publicKey ∧ publicKey.length = x25519KeySize := by
  unfold validatePublicKey at valid
  by_cases size : publicKey.length = x25519KeySize
  · simp only [size, ne_eq, not_true, if_false] at valid
    split at valid
    · cases valid
    · split at valid
      · cases valid
      · exact ⟨(Except.ok.inj valid).symm, size⟩
  · simp [size] at valid

/-- A completed exchange is one of the library with a valid private and public key. -/
theorem diffieHellman_eq_ok {localPrivate remotePublic shared : Bytes} :
    diffieHellman localPrivate remotePublic = .ok shared ↔
      localPrivate.length = x25519KeySize ∧ validatePublicKey remotePublic = .ok remotePublic ∧
      Primitives.exchange localPrivate remotePublic = some shared ∧
      shared.length = x25519SharedSecretSize := by
  unfold diffieHellman checkPrivateKey
  by_cases size : localPrivate.length = x25519KeySize
  · cases check : validatePublicKey remotePublic with
    | error e => simp [size, bind, Except.bind]
    | ok key =>
      obtain ⟨rfl, _⟩ := validatePublicKey_eq_ok check
      cases exchanged : Primitives.exchange localPrivate key with
      | none => simp [size, bind, Except.bind, exchanged]
      | some found =>
        simp only [size, ne_eq, not_true, if_false, bind, Except.bind, exchanged, true_and,
          Option.some.injEq]
        by_cases length : found.length = x25519SharedSecretSize
        · simp only [length, not_true, if_false, Except.ok.injEq]
          exact ⟨fun h => ⟨h, h ▸ length⟩, And.left⟩
        · simp only [length, not_false_iff, if_true, reduceCtorEq, false_iff, not_and]
          exact fun h => h ▸ length
  · simp [size, bind, Except.bind]

end Wrappers
end Bitchat.Crypto
