import Bitchat.Crypto.CipherState

/-! The Noise XX handshake: the symmetric state that mixes keys and transcript,
and the state that walks the three message patterns in either role. -/
namespace Bitchat.Crypto
open Stateful

def noiseProtocolName : String := "Noise_XX_25519_ChaChaPoly_SHA256"

inductive NoiseRole where
  | initiator
  | responder
deriving DecidableEq, Repr

inductive Token where
  | e
  | s
  | ee
  | es
  | se
deriving DecidableEq, Repr

def xxPatterns : List (List Token) := [[.e], [.e, .ee, .s, .es], [.s, .se]]

structure NoiseSymmetricState where
  hash : Bytes
  chainingKey : Bytes
  cipherState : NoiseCipherState := {}
deriving DecidableEq

namespace NoiseSymmetricState

def onCipher {α : Type} (x : EStateM CryptoError NoiseCipherState α) :
    EStateM CryptoError NoiseSymmetricState α :=
  focus cipherState (fun cipher s => { s with cipherState := cipher }) x

def hasCipherKey (s : NoiseSymmetricState) : Bool := s.cipherState.hasKey

variable [Primitives]

def new (protocolName : String) : NoiseSymmetricState :=
  let nameBytes := protocolName.toUTF8.toList
  let initialHash :=
    if nameBytes.length ≤ 32 then nameBytes ++ List.replicate (32 - nameBytes.length) 0
    else Primitives.sha256 nameBytes
  { hash := initialHash, chainingKey := initialHash }

def mixKey (ikm : Bytes) : EStateM CryptoError NoiseSymmetricState Unit := do
  let s ← get
  let outputs ← lift (noiseHkdf s.chainingKey ikm 2)
  set { s with
    chainingKey := outputs.getD 0 []
    cipherState := s.cipherState.initializeKey (outputs.getD 1 []) }

def mixHash (data : Bytes) (s : NoiseSymmetricState) : NoiseSymmetricState :=
  { s with hash := Primitives.sha256 (s.hash ++ data) }

def encryptAndHash (plaintext : Bytes) : EStateM CryptoError NoiseSymmetricState Bytes := do
  let s ← get
  if s.hasCipherKey then
    let ciphertext ← onCipher (NoiseCipherState.encrypt plaintext s.hash)
    modify (mixHash ciphertext)
    return ciphertext
  else
    modify (mixHash plaintext)
    return plaintext

/-- The exceptions of a decryption that are raised as a failed authentication. -/
def authenticationError : CryptoError → CryptoError
  | .decryption _ | .replay _ => .authentication "Noise handshake payload authentication failed"
  | e => e

def decryptAndHash (ciphertext : Bytes) : EStateM CryptoError NoiseSymmetricState Bytes := do
  let s ← get
  if s.hasCipherKey then
    if ciphertext.length = 0 then
      modify (mixHash [])
      return []
    else
      let plaintext ←
        mapError authenticationError (onCipher (NoiseCipherState.decrypt ciphertext s.hash))
      modify (mixHash ciphertext)
      return plaintext
  else
    modify (mixHash ciphertext)
    return ciphertext

def split (s : NoiseSymmetricState) : Except CryptoError (NoiseCipherState × NoiseCipherState) := do
  let outputs ← noiseHkdf s.chainingKey [] 2
  return (.transport (outputs.getD 0 []), .transport (outputs.getD 1 []))

end NoiseSymmetricState

structure NoiseHandshakeState where
  role : NoiseRole
  localStaticPrivate : Bytes
  localStaticPublic : Bytes
  localEphemeralPrivate : Option Bytes := none
  localEphemeralPublic : Option Bytes := none
  remoteStaticPublic : Option Bytes := none
  remoteEphemeralPublic : Option Bytes := none
  symmetricState : NoiseSymmetricState
  currentPattern : Nat := 0
deriving DecidableEq

namespace NoiseHandshakeState

def onSymmetric {α : Type} (x : EStateM CryptoError NoiseSymmetricState α) :
    EStateM CryptoError NoiseHandshakeState α :=
  focus symmetricState (fun symmetric s => { s with symmetricState := symmetric }) x

def isHandshakeComplete (s : NoiseHandshakeState) : Bool := xxPatterns.length ≤ s.currentPattern

variable [Primitives]

def new (role : NoiseRole) (localStaticPrivate : Bytes) (remoteStaticPublic : Option Bytes) :
    Except CryptoError NoiseHandshakeState := do
  let localStaticPublic ← publicKeyFromPrivate localStaticPrivate
  let symmetric := (NoiseSymmetricState.new noiseProtocolName).mixHash []
  return { role, localStaticPrivate, localStaticPublic, remoteStaticPublic,
           symmetricState := symmetric }

def getTransportCiphers (s : NoiseHandshakeState) :
    Except CryptoError (NoiseCipherState × NoiseCipherState) :=
  if ¬ s.isHandshakeComplete then
    .error (.noiseState "Handshake is not complete; cannot get transport ciphers")
  else do
    let (c1, c2) ← s.symmetricState.split
    match s.role with
    | .initiator => return (c1, c2)
    | .responder => return (c2, c1)

def dhMixKey (localPrivate remotePublic : Option Bytes) (label : String) :
    EStateM CryptoError NoiseHandshakeState Unit :=
  match localPrivate, remotePublic with
  | none, _ => throw (.noise s!"Missing local private key for DH operation: {label}")
  | some _, none => throw (.noise s!"Missing remote public key for DH operation: {label}")
  | some localPrivate, some remotePublic => do
    let shared ← lift (diffieHellman localPrivate remotePublic)
    onSymmetric (NoiseSymmetricState.mixKey shared)

/-- The keys of a Diffie-Hellman token, which role decides for ES and SE. -/
def dhOperands (token : Token) (s : NoiseHandshakeState) : Option Bytes × Option Bytes × String :=
  match token, s.role with
  | .es, .initiator => (s.localEphemeralPrivate, s.remoteStaticPublic, "ES(initiator)")
  | .es, .responder => (some s.localStaticPrivate, s.remoteEphemeralPublic, "ES(responder)")
  | .se, .initiator => (some s.localStaticPrivate, s.remoteEphemeralPublic, "SE(initiator)")
  | .se, .responder => (s.localEphemeralPrivate, s.remoteStaticPublic, "SE(responder)")
  | _, _ => (s.localEphemeralPrivate, s.remoteEphemeralPublic, "EE")

def dhToken (token : Token) : EStateM CryptoError NoiseHandshakeState Unit := do
  let (localPrivate, remotePublic, label) := (← get).dhOperands token
  dhMixKey localPrivate remotePublic label

/-- One token of an outgoing message: the buffer so far goes in, the longer one comes out.
`ephemeral` is the private key that the operating system's generator returns. -/
def writeToken (ephemeral buffer : Bytes) (token : Token) :
    EStateM CryptoError NoiseHandshakeState Bytes :=
  match token with
  | .e => do
    modify fun s => { s with localEphemeralPrivate := some ephemeral }
    let ephemeralPublic ← lift (publicKeyFromPrivate ephemeral)
    modify fun s => { s with
      localEphemeralPublic := some ephemeralPublic
      symmetricState := s.symmetricState.mixHash ephemeralPublic }
    return buffer ++ ephemeralPublic
  | .s => do
    let encryptedStatic ← onSymmetric (NoiseSymmetricState.encryptAndHash (← get).localStaticPublic)
    return buffer ++ encryptedStatic
  | token => do
    dhToken token
    return buffer

def writeMessage (ephemeral payload : Bytes) : EStateM CryptoError NoiseHandshakeState Bytes := do
  let s ← get
  if s.isHandshakeComplete then
    throw (.noiseState "Handshake is complete; cannot write more messages")
  else
    let buffer ← (xxPatterns.getD s.currentPattern []).foldlM (writeToken ephemeral) []
    let encryptedPayload ← onSymmetric (NoiseSymmetricState.encryptAndHash payload)
    modify fun s => { s with currentPattern := s.currentPattern + 1 }
    return buffer ++ encryptedPayload

/-- One token of an incoming message: the offset into it goes in and comes out. -/
def readToken (message : Bytes) (offset : Nat) (token : Token) :
    EStateM CryptoError NoiseHandshakeState Nat :=
  match token with
  | .e =>
    if message.length < offset + dhKeySize then
      throw (.noise s!"Message too short for ephemeral key at offset {offset}")
    else do
      let ephemeral := Bytes.slice message offset (offset + dhKeySize)
      modify fun s => { s with
        remoteEphemeralPublic := some ephemeral
        symmetricState := s.symmetricState.mixHash ephemeral }
      return offset + dhKeySize
  | .s => do
    let keyLen := if (← get).symmetricState.hasCipherKey then dhKeySize + tagSize else dhKeySize
    if message.length < offset + keyLen then
      throw (.noise s!"Message too short for static key at offset {offset}")
    else
      let staticData := Bytes.slice message offset (offset + keyLen)
      let decryptedStatic ← onSymmetric (NoiseSymmetricState.decryptAndHash staticData)
      if decryptedStatic.length ≠ dhKeySize then
        throw (.authentication
          s!"Decrypted static key has wrong length: {decryptedStatic.length}")
      else
        match validatePublicKey decryptedStatic with
        | .error (.invalidKey _) => throw (.authentication "Static public key validation failed")
        | .error e => throw e
        | .ok validated =>
          modify fun s => { s with remoteStaticPublic := some validated }
          return offset + keyLen
  | token => do
    dhToken token
    return offset

def readMessage (message : Bytes) : EStateM CryptoError NoiseHandshakeState Bytes := do
  let s ← get
  if s.isHandshakeComplete then
    throw (.noiseState "Handshake is complete; cannot read more messages")
  else
    let offset ← (xxPatterns.getD s.currentPattern []).foldlM (readToken message) 0
    let decryptedPayload ← onSymmetric (NoiseSymmetricState.decryptAndHash (message.drop offset))
    modify fun s => { s with currentPattern := s.currentPattern + 1 }
    return decryptedPayload

end NoiseHandshakeState
end Bitchat.Crypto
