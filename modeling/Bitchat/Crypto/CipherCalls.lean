import Bitchat.Crypto.CipherState

/-! One call of the cipher: which library call it makes, and what it does to the
counters. -/
namespace Bitchat.Crypto.NoiseCipherState
open Stateful

/-- The nonce of the cipher for a counter. -/
def aeadNonce (counter : Nat) : Bytes := List.replicate 4 0 ++ Bytes.toLE 8 counter

theorem aeadNonce_length (counter : Nat) : (aeadNonce counter).length = 12 := by
  simp [aeadNonce]

theorem aeadNonce_inj {a b : Nat} (ha : a < 2 ^ 64) (hb : b < 2 ^ 64)
    (same : aeadNonce a = aeadNonce b) : a = b :=
  Bytes.toLE_inj ha hb (List.append_cancel_left same)

theorem buildChachaNonce_eq {counter : Nat} (fits : counter < 2 ^ 64) :
    buildChachaNonce counter = .ok (aeadNonce counter) := by
  rw [buildChachaNonce, counterBytes, if_pos fits]
  rfl

theorem buildChachaNonce_error {counter : Nat} (large : ¬ counter < 2 ^ 64) :
    buildChachaNonce counter = .error (.overflow "int too big to convert") := by
  rw [buildChachaNonce, counterBytes, if_neg large]
  rfl

/-- What stands in front of a ciphertext made at the cipher's counter. -/
def wirePrefix (s : NoiseCipherState) : Bytes :=
  if s.useExtractedNonce then (Bytes.toLE 8 s.nonce).take nonceSizeBytes else []

theorem withWireNonce_eq {s : NoiseCipherState} (fits : s.nonce < 2 ^ 64) (ciphertext : Bytes) :
    s.withWireNonce ciphertext = .ok (s.wirePrefix ++ ciphertext) := by
  unfold withWireNonce wirePrefix
  split
  · rw [counterToWireBytes, counterBytes, if_pos fits]
    rfl
  · rfl

variable [Primitives] {key plaintext ciphertext aad : Bytes} {s t : NoiseCipherState}

theorem encrypt_eq (keyed : s.key = some key) (fits : s.nonce < 2 ^ 64) :
    encrypt plaintext aad s = match Primitives.aeadEncrypt key (aeadNonce s.nonce) plaintext aad with
      | none => .error (.encryption "ChaCha20-Poly1305 encryption failed") s
      | some sealed => .ok (s.wirePrefix ++ sealed) { s with nonce := s.nonce + 1 } := by
  unfold encrypt
  rw [get_bind]
  simp only [keyed]
  rw [buildChachaNonce_eq fits, bind_ok (lift_ok _ s)]
  cases Primitives.aeadEncrypt key (aeadNonce s.nonce) plaintext aad with
  | none => rfl
  | some sealed =>
    simp only [set_bind]
    rw [withWireNonce_eq fits, lift_ok]

/-- Encryption returns exactly when the counter fits and the library seals under it. -/
theorem encrypt_eq_ok (keyed : s.key = some key) :
    encrypt plaintext aad s = .ok ciphertext t ↔ s.nonce < 2 ^ 64 ∧
      ∃ sealed, Primitives.aeadEncrypt key (aeadNonce s.nonce) plaintext aad = some sealed ∧
        ciphertext = s.wirePrefix ++ sealed ∧ t = { s with nonce := s.nonce + 1 } := by
  by_cases fits : s.nonce < 2 ^ 64
  · rw [encrypt_eq keyed fits]
    simp only [fits, true_and]
    cases Primitives.aeadEncrypt key (aeadNonce s.nonce) plaintext aad with
    | none => simp
    | some sealed => simp [eq_comm]
  · have refused : encrypt plaintext aad s = .error (.overflow "int too big to convert") s := by
      unfold encrypt
      rw [get_bind]
      simp only [keyed]
      rw [buildChachaNonce_error fits, bind_error (lift_error _ s)]
    simp only [refused, reduceCtorEq, fits, false_and]

/-- A call that raises leaves the cipher alone. -/
theorem encrypt_error_state (keyed : s.key = some key) {e : CryptoError}
    (raised : encrypt plaintext aad s = .error e t) : t = s := by
  by_cases fits : s.nonce < 2 ^ 64
  · rw [encrypt_eq keyed fits] at raised
    cases sealed : Primitives.aeadEncrypt key (aeadNonce s.nonce) plaintext aad with
    | none =>
      rw [sealed] at raised
      exact (EStateM.Result.error.inj raised).2.symm
    | some c =>
      rw [sealed] at raised
      cases raised
  · unfold encrypt at raised
    rw [get_bind] at raised
    simp only [keyed] at raised
    rw [buildChachaNonce_error fits, bind_error (lift_error _ s)] at raised
    exact (EStateM.Result.error.inj raised).2.symm

/-- During the handshake the cipher counts both ways with one counter. -/
theorem decrypt_handshake (keyed : s.key = some key) (mode : s.useExtractedNonce = false)
    (fits : s.nonce < 2 ^ 64) :
    decrypt ciphertext aad s =
      match Primitives.aeadDecrypt key (aeadNonce s.nonce) ciphertext aad with
      | none => .error (.decryption "ChaCha20-Poly1305 decryption or authentication failed") s
      | some opened => .ok opened { s with nonce := s.nonce + 1 } := by
  unfold decrypt selectNonce
  rw [get_bind]
  simp only [keyed, mode, Bool.false_eq_true, if_false]
  rw [bind_ok (lift_ok _ s)]
  simp only
  rw [buildChachaNonce_eq fits, bind_ok (lift_ok _ s)]
  cases Primitives.aeadDecrypt key (aeadNonce s.nonce) ciphertext aad with
  | none => rfl
  | some opened => simp [modify_bind, consumeNonce, mode, keyed]

theorem decrypt_handshake_eq_ok (keyed : s.key = some key) (mode : s.useExtractedNonce = false)
    (fits : s.nonce < 2 ^ 64) : decrypt ciphertext aad s = .ok plaintext t ↔
      Primitives.aeadDecrypt key (aeadNonce s.nonce) ciphertext aad = some plaintext ∧
      t = { s with nonce := s.nonce + 1 } := by
  rw [decrypt_handshake keyed mode fits]
  cases Primitives.aeadDecrypt key (aeadNonce s.nonce) ciphertext aad with
  | none => simp
  | some opened => simp [eq_comm]

end Bitchat.Crypto.NoiseCipherState
