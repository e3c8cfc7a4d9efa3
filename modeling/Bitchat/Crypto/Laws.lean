import Bitchat.Crypto.Primitives
import Mathlib.Data.Nat.ModEq

/-! What the code relies on the primitives for, and an executable model of them in
which all of it holds: exchanges multiply in a prime field, tags are hashes. -/
namespace Bitchat.Crypto

/-- The documented behaviour of the libraries: sizes, commuting exchanges, and
ciphertexts that open to what was sealed. -/
class LawfulPrimitives [Primitives] : Prop where
  sha256_length (data : Bytes) : (Primitives.sha256 data).length = 32
  hmac_length (key message : Bytes) : (Primitives.hmacSha256 key message).length = 32
  publicKey_length {privateKey : Bytes} : privateKey.length = 32 →
    (Primitives.publicKey privateKey).length = 32
  exchange_comm {a b : Bytes} : a.length = 32 → b.length = 32 →
    Primitives.exchange a (Primitives.publicKey b) = Primitives.exchange b (Primitives.publicKey a)
  aead_seals {key nonce data associated : Bytes} : key.length = 32 → nonce.length = 12 →
    data.length < 2 ^ 31 → associated.length < 2 ^ 31 →
    ∃ sealed, Primitives.aeadEncrypt key nonce data associated = some sealed
  aead_opens {key nonce data associated sealed : Bytes} :
    Primitives.aeadEncrypt key nonce data associated = some sealed →
    Primitives.aeadDecrypt key nonce sealed associated = some data
  aead_length {key nonce data associated sealed : Bytes} :
    Primitives.aeadEncrypt key nonce data associated = some sealed →
    sealed.length = data.length + tagSize

namespace Modular

def modulus : Nat := 2 ^ 255 - 19

def hashNumber (data : Bytes) : Nat :=
  data.foldl (fun acc b => (acc * 257 + b.toNat + 1) % 2 ^ 256) 0

def hash (data : Bytes) : Bytes := Bytes.toBE 32 (hashNumber data)

def tag (key nonce data associated : Bytes) : Bytes :=
  (hash (key ++ nonce ++ associated ++ data)).take tagSize

/-- Split off the tag and compare it. -/
def openSealed (key nonce sealed associated : Bytes) : Option Bytes :=
  let data := sealed.take (sealed.length - tagSize)
  if tagSize ≤ sealed.length ∧ sealed.drop (sealed.length - tagSize) = tag key nonce data associated
  then some data else none

@[reducible] def primitives : Primitives where
  sha256 := hash
  hmacSha256 key message := hash (key ++ message ++ [0x5C])
  publicKey a := Bytes.toLE 32 (Bytes.ofLE a * 9 % modulus)
  parsesPublic key := key.length = 32
  exchange a b := some (Bytes.toLE 32 (Bytes.ofLE a * Bytes.ofLE b % modulus))
  aeadEncrypt key nonce data associated := some (data ++ tag key nonce data associated)
  aeadDecrypt := openSealed

theorem tag_length (key nonce data associated : Bytes) :
    (tag key nonce data associated).length = tagSize := by
  simp [tag, hash, tagSize]

theorem openSealed_append (key nonce data associated : Bytes) :
    openSealed key nonce (data ++ tag key nonce data associated) associated = some data := by
  have size : (data ++ tag key nonce data associated).length - tagSize = data.length := by
    rw [List.length_append, tag_length, Nat.add_sub_cancel]
  simp only [openSealed]
  rw [size, List.take_left, List.drop_left]
  apply if_pos
  constructor
  · simp [tag_length]
  · rfl

theorem ofLE_residue (n : Nat) : Bytes.ofLE (Bytes.toLE 32 (n % modulus)) = n % modulus := by
  apply Bytes.ofLE_toLE
  have small : n % modulus < modulus := Nat.mod_lt _ (by decide)
  exact small.trans (by decide)

theorem exchange_comm (a b : Nat) :
    a * (b * 9 % modulus) % modulus = b * (a * 9 % modulus) % modulus := by
  rw [Nat.mul_mod_mod, Nat.mul_mod_mod]
  congr 1
  ring

section
attribute [local instance] primitives

theorem lawful : LawfulPrimitives where
  sha256_length _ := Bytes.toBE_length _ _
  hmac_length _ _ := Bytes.toBE_length _ _
  publicKey_length _ := Bytes.toLE_length _ _
  exchange_comm {a b} _ _ := by
    change some (Bytes.toLE 32 (Bytes.ofLE a * Bytes.ofLE (Bytes.toLE 32 _) % modulus)) =
      some (Bytes.toLE 32 (Bytes.ofLE b * Bytes.ofLE (Bytes.toLE 32 _) % modulus))
    rw [ofLE_residue, ofLE_residue, exchange_comm]
  aead_seals _ _ _ _ := ⟨_, rfl⟩
  aead_opens opened := by
    cases opened
    exact openSealed_append ..
  aead_length opened := by
    cases opened
    rw [List.length_append, tag_length]

end
end Modular
end Bitchat.Crypto
