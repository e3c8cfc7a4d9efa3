import Bitchat.Crypto.CipherCalls
import Bitchat.Crypto.Handshake
import Bitchat.Crypto.Laws
import Bitchat.Data.HashChain

/-! The symmetric state of a handshake as a function of what was hashed into it and
of the shared secrets mixed into it, both latest first. -/
namespace Bitchat.Crypto
open Stateful NoiseCipherState

section
variable [Primitives]

def initialHash : Bytes := (NoiseSymmetricState.new noiseProtocolName).hash

/-- The name of the protocol fills the hash. -/
theorem initialHash_length : initialHash.length = 32 := by
  have fits : noiseProtocolName.toUTF8.toList.length = 32 := by decide +kernel
  rw [initialHash, NoiseSymmetricState.new]
  simp only [fits, le_refl, if_true, List.length_append, List.length_replicate, Nat.sub_self]

def transcriptHash (items : List Bytes) : Bytes := HashChain.value Primitives.sha256 initialHash items

/-- The chaining key after mixing these secrets. -/
def chainKey : List Bytes → Bytes
  | [] => initialHash
  | secret :: earlier => hkdfChain (chainKey earlier) secret

/-- The handshake cipher key after mixing these secrets. -/
def cipherKey : List Bytes → Option Bytes
  | [] => none
  | secret :: earlier => some (hkdfKey (chainKey earlier) secret)

namespace NoiseSymmetricState

/-- The state that has hashed `items`, mixed `secrets` and used the key `nonce` times. -/
def after (items secrets : List Bytes) (nonce : Nat) : NoiseSymmetricState where
  hash := transcriptHash items
  chainingKey := chainKey secrets
  cipherState := { key := cipherKey secrets, nonce }

variable {items secrets : List Bytes} {secret : Bytes} {nonce : Nat}
  {plaintext ciphertext out : Bytes} {t : NoiseSymmetricState}

@[simp] theorem mixHash_after (item : Bytes) :
    (after items secrets nonce).mixHash item = after (item :: items) secrets nonce := rfl

theorem mixKey_after (ikm : Bytes) : mixKey ikm (after items secrets nonce) =
    .ok () (after items (ikm :: secrets) 0) := by
  rw [mixKey, get_bind, noiseHkdf_two, bind_ok (lift_ok _ _)]
  rfl

theorem hasCipherKey_after : (after items (secret :: secrets) nonce).hasCipherKey = true := rfl

/-- Under a key, what is sent is sealed with the transcript as associated data. -/
theorem encryptAndHash_eq_ok :
    encryptAndHash plaintext (after items (secret :: secrets) nonce) = .ok out t ↔
      nonce < 2 ^ 64 ∧
      Primitives.aeadEncrypt (hkdfKey (chainKey secrets) secret) (aeadNonce nonce) plaintext
        (transcriptHash items) = some out ∧
      t = after (out :: items) (secret :: secrets) (nonce + 1) := by
  rw [encryptAndHash, get_bind, if_apply, if_pos hasCipherKey_after, bind_eq_ok]
  simp only [onCipher, focus_eq_ok]
  constructor
  · rintro ⟨ciphertext, _, ⟨inner, sealed, rfl⟩, rest⟩
    obtain ⟨fits, sealed, seals, rfl, rfl⟩ := (encrypt_eq_ok rfl).mp sealed
    obtain ⟨rfl, rfl⟩ := EStateM.Result.ok.inj rest
    exact ⟨fits, seals, rfl⟩
  · rintro ⟨fits, seals, rfl⟩
    exact ⟨out, _, ⟨_, (encrypt_eq_ok rfl).mpr ⟨fits, out, seals, rfl, rfl⟩, rfl⟩, rfl⟩

/-- Under a key, empty bytes pass without any decryption. -/
theorem decryptAndHash_empty : decryptAndHash [] (after items (secret :: secrets) nonce) =
    .ok [] (after ([] :: items) (secret :: secrets) nonce) := rfl

theorem decryptAndHash_eq_ok (carried : ciphertext ≠ []) (fits : nonce < 2 ^ 64) :
    decryptAndHash ciphertext (after items (secret :: secrets) nonce) = .ok out t ↔
      Primitives.aeadDecrypt (hkdfKey (chainKey secrets) secret) (aeadNonce nonce) ciphertext
        (transcriptHash items) = some out ∧
      t = after (ciphertext :: items) (secret :: secrets) (nonce + 1) := by
  have size : ¬ ciphertext.length = 0 := by simpa using carried
  rw [decryptAndHash, get_bind, if_apply, if_pos hasCipherKey_after, if_apply, if_neg size,
    bind_eq_ok]
  simp only [mapError_eq_ok, onCipher, focus_eq_ok]
  constructor
  · rintro ⟨plaintext, _, ⟨inner, opened, rfl⟩, rest⟩
    obtain ⟨opens, rfl⟩ := (decrypt_handshake_eq_ok rfl rfl fits).mp opened
    obtain ⟨rfl, rfl⟩ := EStateM.Result.ok.inj rest
    exact ⟨opens, rfl⟩
  · rintro ⟨opens, rfl⟩
    exact ⟨out, _, ⟨_, (decrypt_handshake_eq_ok rfl rfl fits).mpr ⟨opens, rfl⟩, rfl⟩, rfl⟩

end NoiseSymmetricState

/-- What handshake data under a key are taken for: sealed data for what they open to,
and empty data for an empty plaintext, without a tag. -/
def Accepts (key : Bytes) (nonce : Nat) (data associated plaintext : Bytes) : Prop :=
  if data = [] then plaintext = []
  else Primitives.aeadDecrypt key (aeadNonce nonce) data associated = some plaintext

/-- The handshake nonce after taking these data. -/
def nonceAfter (nonce : Nat) (data : Bytes) : Nat := if data = [] then nonce else nonce + 1

theorem NoiseSymmetricState.decryptAndHash_accepts {items secrets : List Bytes} {nonce : Nat}
    {secret ciphertext out : Bytes} {t : NoiseSymmetricState} (fits : nonce < 2 ^ 64) :
    decryptAndHash ciphertext (after items (secret :: secrets) nonce) = .ok out t ↔
      Accepts (hkdfKey (chainKey secrets) secret) nonce ciphertext (transcriptHash items) out ∧
      t = after (ciphertext :: items) (secret :: secrets) (nonceAfter nonce ciphertext) := by
  unfold Accepts nonceAfter
  by_cases carried : ciphertext = []
  · subst carried
    rw [decryptAndHash_empty]
    simp [eq_comm]
  · rw [decryptAndHash_eq_ok carried fits, if_neg carried, if_neg carried]

end
end Bitchat.Crypto
