import Bitchat.Crypto.Primitives
import Mathlib.Data.Finset.Filter
import Mathlib.Data.Finset.Insert

/-! The Noise cipher state: authenticated encryption under a counter. In transport
mode the low four bytes of the counter travel in front of the ciphertext and a
window of received counters refuses replays. -/
namespace Bitchat.Crypto
open Stateful

def noiseReplayWindowSize : Nat := 1024
def nonceSizeBytes : Nat := 4

structure NoiseCipherState where
  key : Option Bytes := none
  nonce : Nat := 0
  useExtractedNonce : Bool := false
  replayWindow : Finset Nat := ∅
  highestReceivedNonce : Nat := 0
deriving DecidableEq

/-- `counter.to_bytes(8, "little")`. -/
def counterBytes (counter : Nat) : Except CryptoError Bytes :=
  if counter < 2 ^ 64 then .ok (Bytes.toLE 8 counter)
  else .error (.overflow "int too big to convert")

def buildChachaNonce (counter : Nat) : Except CryptoError Bytes := do
  return List.replicate 4 0 ++ (← counterBytes counter)

def counterToWireBytes (counter : Nat) : Except CryptoError Bytes := do
  return (← counterBytes counter).take nonceSizeBytes

def extractWireNonce (data : Bytes) : Except CryptoError (Nat × Bytes) :=
  if data.length < nonceSizeBytes then
    .error (.invalidNonce
      s!"Ciphertext too short to contain 4-byte nonce prefix (got {data.length} bytes)")
  else .ok (Bytes.ofLE (data.take nonceSizeBytes), data.drop nonceSizeBytes)

namespace NoiseCipherState

/-- A transport cipher as `split` makes it. -/
def transport (key : Bytes) : NoiseCipherState := { key := some key, useExtractedNonce := true }

def hasKey (s : NoiseCipherState) : Bool := s.key.isSome

def initializeKey (key : Bytes) (s : NoiseCipherState) : NoiseCipherState :=
  { s with key := some key, nonce := 0, replayWindow := ∅, highestReceivedNonce := 0 }

def isValidNonce (s : NoiseCipherState) (receivedNonce : Nat) : Bool :=
  if receivedNonce + noiseReplayWindowSize ≤ s.highestReceivedNonce then false
  else if s.highestReceivedNonce < receivedNonce then true
  else receivedNonce ∉ s.replayWindow

def markNonceSeen (receivedNonce : Nat) (s : NoiseCipherState) : NoiseCipherState :=
  if s.highestReceivedNonce < receivedNonce then
    let kept := if noiseReplayWindowSize ≤ receivedNonce - s.highestReceivedNonce then ∅
      else s.replayWindow.filter fun n => receivedNonce < n + noiseReplayWindowSize
    { s with replayWindow := insert receivedNonce kept, highestReceivedNonce := receivedNonce }
  else { s with replayWindow := insert receivedNonce s.replayWindow }

/-- What `encrypt` returns for a ciphertext made in state `s`. -/
def withWireNonce (ciphertext : Bytes) (s : NoiseCipherState) : Except CryptoError Bytes :=
  if s.useExtractedNonce then do
    return (← counterToWireBytes s.nonce) ++ ciphertext
  else .ok ciphertext

/-- The counter a ciphertext is decrypted with, and the part that is decrypted. -/
def selectNonce (ciphertext : Bytes) (s : NoiseCipherState) : Except CryptoError (Nat × Bytes) :=
  if s.useExtractedNonce then do
    let (counter, payload) ← extractWireNonce ciphertext
    if ¬ s.isValidNonce counter then
      .error (.replay (s!"Replay detected: nonce {counter} has already been seen " ++
        "or is outside the replay window"))
    else return (counter, payload)
  else .ok (s.nonce, ciphertext)

/-- What a successful decryption does to the counters. -/
def consumeNonce (counter : Nat) (s : NoiseCipherState) : NoiseCipherState :=
  if s.useExtractedNonce then s.markNonceSeen counter else { s with nonce := s.nonce + 1 }

variable [Primitives]

def encrypt (plaintext aad : Bytes) : EStateM CryptoError NoiseCipherState Bytes := do
  let s ← get
  match s.key with
  | none => throw (.noiseState "NoiseCipherState: no key initialised (encrypt)")
  | some key =>
    let chachaNonce ← lift (buildChachaNonce s.nonce)
    match Primitives.aeadEncrypt key chachaNonce plaintext aad with
    | none => throw (.encryption "ChaCha20-Poly1305 encryption failed")
    | some ciphertext =>
      set { s with nonce := s.nonce + 1 }
      lift (s.withWireNonce ciphertext)

def decrypt (ciphertext aad : Bytes) : EStateM CryptoError NoiseCipherState Bytes := do
  let s ← get
  match s.key with
  | none => throw (.noiseState "NoiseCipherState: no key initialised (decrypt)")
  | some key =>
    let (counter, payload) ← lift (s.selectNonce ciphertext)
    let chachaNonce ← lift (buildChachaNonce counter)
    match Primitives.aeadDecrypt key chachaNonce payload aad with
    | none => throw (.decryption "ChaCha20-Poly1305 decryption or authentication failed")
    | some plaintext =>
      modify (consumeNonce counter)
      return plaintext

end NoiseCipherState
end Bitchat.Crypto
