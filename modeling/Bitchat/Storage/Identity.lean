import Bitchat.Crypto.Primitives
import Bitchat.Data.JsonIndent

/-! The local identity and the document that keeps it. Only the two private keys are read back, and the
rest is derived from them again. -/
namespace Bitchat.Storage
open Crypto Python Str

/-- The public keys of the signing library. -/
class SigningKeys where
  publicKey : Bytes → Bytes

structure LocalIdentity where
  x25519Private : Bytes
  ed25519Private : Bytes
  x25519Public : Bytes
  ed25519Public : Bytes
  peerId : Bytes
  fingerprint : Str
deriving DecidableEq

def ed25519PrivateKeySize : Nat := 32

/-- The entries of `identity.json`. -/
def LocalIdentity.entries (identity : LocalIdentity) : List (Str × Json.Scalar) :=
  [("x25519_private".toList, .text (hex identity.x25519Private)),
    ("ed25519_private".toList, .text (hex identity.ed25519Private)),
    ("fingerprint".toList, .text identity.fingerprint),
    ("peer_id".toList, .text (hex identity.peerId))]

/-- The bytes that `_atomic_write_json` writes for an identity. -/
def LocalIdentity.document (identity : LocalIdentity) : Bytes :=
  encodeUtf8 (Json.dumpsIndented identity.entries)

section Keys
variable [Primitives] [SigningKeys]

/-- `public_key_from_private` of the signing module. -/
def verifyingKeyFromPrivate (privateKey : Bytes) : Except CryptoError Bytes :=
  if privateKey.length ≠ ed25519PrivateKeySize then
    .error (.invalidKey
      s!"Ed25519 private key must be {ed25519PrivateKeySize} bytes, got {privateKey.length}")
  else .ok (SigningKeys.publicKey privateKey)

/-- `LocalIdentity._from_private_keys`. -/
def fromPrivateKeys (x25519Private ed25519Private : Bytes) : Except CryptoError LocalIdentity := do
  let x25519Public ← publicKeyFromPrivate x25519Private
  let ed25519Public ← verifyingKeyFromPrivate ed25519Private
  let digest := Primitives.sha256 x25519Public
  return { x25519Private, ed25519Private, x25519Public, ed25519Public
           peerId := digest.take 8, fingerprint := hex digest }

/-- The identity that the content of the file gives, `none` where reading it raises. -/
def readIdentity [Json.FloatReader] (content : Bytes) : Option LocalIdentity := do
  let text ← decodeUtf8 content
  let data ← Json.loads text
  let entries ← data.dict?
  let x25519Hex ← (get entries "x25519_private".toList).text?
  let ed25519Hex ← (get entries "ed25519_private".toList).text?
  let x25519Private ← fromHex x25519Hex
  let ed25519Private ← fromHex ed25519Hex
  (fromPrivateKeys x25519Private ed25519Private).toOption

variable {x25519Private ed25519Private : Bytes} {identity : LocalIdentity}

theorem fromPrivateKeys_keys (made : fromPrivateKeys x25519Private ed25519Private = .ok identity) :
    identity.x25519Private = x25519Private ∧ identity.ed25519Private = ed25519Private := by
  simp only [fromPrivateKeys, publicKeyFromPrivate, checkPrivateKey, verifyingKeyFromPrivate] at made
  split at made
  · cases made
  · split at made
    · cases made
    · cases made
      exact ⟨rfl, rfl⟩

/-- An identity made from private keys is read back from its document. -/
theorem readIdentity_document [Json.FloatReader]
    (made : fromPrivateKeys x25519Private ed25519Private = .ok identity) :
    readIdentity identity.document = some identity := by
  obtain ⟨rfl, rfl⟩ := fromPrivateKeys_keys made
  have fits : ∀ e ∈ identity.entries, e.2.Fits := by
    simp [LocalIdentity.entries, Json.Scalar.Fits]
  have once : (identity.entries.map Prod.fst).Nodup := by
    simp only [LocalIdentity.entries, List.map_cons, List.map_nil]
    decide
  have first : get (identity.entries.map fun e => (Key.text e.1, e.2.value)) "x25519_private".toList =
      .str (hex identity.x25519Private) := rfl
  have second : get (identity.entries.map fun e => (Key.text e.1, e.2.value)) "ed25519_private".toList =
      .str (hex identity.ed25519Private) := rfl
  simp only [readIdentity, LocalIdentity.document, decodeUtf8_encodeUtf8, Json.loads_dumpsIndented fits once,
    Value.dict?, first, second, Value.text?, fromHex_hex, made, Option.bind_eq_bind, Option.bind_some]
  rfl

end Keys
end Bitchat.Storage
