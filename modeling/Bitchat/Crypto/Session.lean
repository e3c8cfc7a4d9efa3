import Bitchat.Crypto.Handshake
import Bitchat.Data.Text

/-! A Noise session with one peer: handshake, transport ciphers and lifecycle. -/
namespace Bitchat.Crypto
open Stateful

inductive NoiseSessionState where
  | uninitialized
  | handshaking
  | established
  | failed
  | closed
deriving DecidableEq, Repr

def NoiseSessionState.value : NoiseSessionState → String
  | .uninitialized => "uninitialized"
  | .handshaking => "handshaking"
  | .established => "established"
  | .failed => "failed"
  | .closed => "closed"

def determineHandshakeRole (myPeerIdHex remotePeerIdHex : Str) : Except CryptoError NoiseRole :=
  if myPeerIdHex = [] then .error (.value "my_peer_id_hex must not be empty")
  else if remotePeerIdHex = [] then .error (.value "remote_peer_id_hex must not be empty")
  else if myPeerIdHex < remotePeerIdHex then .ok .initiator
  else .ok .responder

/-- The static key of this device. Its public half and the identifiers are derived. -/
structure LocalIdentity where
  x25519Private : Bytes
  size : x25519Private.length = x25519KeySize
deriving DecidableEq

section
variable [Primitives]

def calculateFingerprint (x25519PublicKey : Bytes) : Str := Str.hex (Primitives.sha256 x25519PublicKey)

namespace LocalIdentity

def x25519Public (identity : LocalIdentity) : Bytes := Primitives.publicKey identity.x25519Private

def peerId (identity : LocalIdentity) : Bytes := (Primitives.sha256 identity.x25519Public).take 8

def peerIdHex (identity : LocalIdentity) : Str := Str.hex identity.peerId

end LocalIdentity
end

structure NoiseSession where
  localIdentity : LocalIdentity
  remotePeerId : Str
  role : NoiseRole
  state : NoiseSessionState := .uninitialized
  handshakeState : Option NoiseHandshakeState := none
  sendCipher : Option NoiseCipherState := none
  recvCipher : Option NoiseCipherState := none
  remoteStaticPublic : Option Bytes := none
  handshakeHash : Option Bytes := none
  remoteFingerprint : Option Str := none
deriving DecidableEq

namespace NoiseSession

def isEstablished (s : NoiseSession) : Bool := s.state = .established

/-- Run a method of the handshake state that the session holds. -/
def onHandshake {α : Type} (x : EStateM CryptoError NoiseHandshakeState α) :
    EStateM CryptoError NoiseSession α := fun s =>
  match s.handshakeState with
  | none => .error (.noiseState "Handshake state is not initialised") s
  | some handshake =>
    focus (fun _ => handshake) (fun handshake s => { s with handshakeState := some handshake }) x s

/-- Run a method of one of the transport ciphers. -/
def onSendCipher {α : Type} (x : EStateM CryptoError NoiseCipherState α) :
    EStateM CryptoError NoiseSession α := fun s =>
  match s.sendCipher with
  | none => .error (.noiseState "No send cipher available") s
  | some cipher => focus (fun _ => cipher) (fun cipher s => { s with sendCipher := some cipher }) x s

def onRecvCipher {α : Type} (x : EStateM CryptoError NoiseCipherState α) :
    EStateM CryptoError NoiseSession α := fun s =>
  match s.recvCipher with
  | none => .error (.noiseState "No receive cipher available") s
  | some cipher => focus (fun _ => cipher) (fun cipher s => { s with recvCipher := some cipher }) x s

def handshakeComplete (s : NoiseSession) : Bool :=
  s.handshakeState.any NoiseHandshakeState.isHandshakeComplete

/-- Drop the handshake and raise. -/
def refuse {α : Type} (message : String) : EStateM CryptoError NoiseSession α := do
  modify fun s => { s with state := .failed, handshakeState := none }
  throw (.authentication message)

/-- The peer id as bytes, `none` unless it is 16 hexadecimal characters. -/
def claimedPeerId (s : NoiseSession) : Option Bytes :=
  if s.remotePeerId.length ≠ 16 then none else Str.fromHex s.remotePeerId

variable [Primitives]

def new (localIdentity : LocalIdentity) (remotePeerId : Str) (role : Option NoiseRole) :
    Except CryptoError NoiseSession := do
  let role ← role.elim (determineHandshakeRole localIdentity.peerIdHex remotePeerId) .ok
  return { localIdentity, remotePeerId, role }

/-- Begin a handshake in the session's own role. -/
def beginHandshake : EStateM CryptoError NoiseSession Unit := do
  let s ← get
  let handshake ← lift (NoiseHandshakeState.new s.role s.localIdentity.x25519Private none)
  set { s with handshakeState := some handshake, state := .handshaking }

/-- `ephemeral` is the key that the generator returns if the call asks for one. -/
def startHandshake (ephemeral : Bytes) : EStateM CryptoError NoiseSession (Option Bytes) := do
  let s ← get
  if s.state ≠ .uninitialized then
    throw (.noiseState s!"start_handshake() called in invalid state: {s.state.value}")
  else
    beginHandshake
    if s.role = .initiator then
      return some (← onHandshake (NoiseHandshakeState.writeMessage ephemeral []))
    else return none

def finaliseHandshake : EStateM CryptoError NoiseSession Unit := do
  let s ← get
  match s.handshakeState with
  | none => throw (.noiseState "Handshake state is not initialised")
  | some handshake =>
    match handshake.remoteStaticPublic with
    | none => refuse "Noise handshake did not authenticate a remote key"
    | some remoteStaticPublic =>
      match s.claimedPeerId with
      | none => refuse "Remote peer ID is not valid hexadecimal"
      | some claimedPeerId =>
        let authenticatedPeerId := (Primitives.sha256 remoteStaticPublic).take 8
        if claimedPeerId.length ≠ authenticatedPeerId.length ∨
            authenticatedPeerId ≠ claimedPeerId then
          refuse "Authenticated Noise static key does not match claimed peer ID"
        else if remoteStaticPublic = s.localIdentity.x25519Public then
          refuse ("Self-connection rejected: remote peer authenticated " ++
            "with local device identity")
        else
          let (sendCipher, recvCipher) ← lift handshake.getTransportCiphers
          set { s with
            sendCipher := some sendCipher
            recvCipher := some recvCipher
            remoteStaticPublic := some remoteStaticPublic
            handshakeHash := some handshake.symmetricState.hash
            remoteFingerprint := some (calculateFingerprint remoteStaticPublic)
            handshakeState := none
            state := .established }

/-- A responder that has not begun yet begins with the first message. -/
def autoInitialise : EStateM CryptoError NoiseSession Unit := do
  let s ← get
  if s.state = .uninitialized ∧ s.role = .responder then beginHandshake
  else pure ()

def respond (ephemeral : Bytes) : EStateM CryptoError NoiseSession (Option Bytes) := do
  let s ← get
  if ¬ s.handshakeComplete then
    some <$> onHandshake (NoiseHandshakeState.writeMessage ephemeral [])
  else pure none

def finaliseIfComplete : EStateM CryptoError NoiseSession Unit := do
  let s ← get
  if s.handshakeComplete then finaliseHandshake
  else pure ()

/-- The body of `process_handshake_message`, before its catch-all. -/
def handleMessage (ephemeral message : Bytes) :
    EStateM CryptoError NoiseSession (Option Bytes) := do
  autoInitialise
  let s ← get
  if s.state ≠ .handshaking then
    throw (.noiseState s!"process_handshake_message() called in invalid state: {s.state.value}")
  else
    let _payload ← onHandshake (NoiseHandshakeState.readMessage message)
    let response ← respond ephemeral
    finaliseIfComplete
    return response

def processHandshakeMessage (ephemeral message : Bytes) :
    EStateM CryptoError NoiseSession (Option Bytes) :=
  onError (fun s => { s with state := .failed }) (handleMessage ephemeral message)

def encrypt (plaintext : Bytes) : EStateM CryptoError NoiseSession Bytes := do
  let s ← get
  if s.state ≠ .established then
    throw (.noiseState s!"encrypt() requires ESTABLISHED state, got {s.state.value}")
  else onSendCipher (NoiseCipherState.encrypt plaintext [])

def decrypt (ciphertext : Bytes) : EStateM CryptoError NoiseSession Bytes := do
  let s ← get
  if s.state ≠ .established then
    throw (.noiseState s!"decrypt() requires ESTABLISHED state, got {s.state.value}")
  else onRecvCipher (NoiseCipherState.decrypt ciphertext [])

def close (s : NoiseSession) : NoiseSession :=
  { s with sendCipher := none, recvCipher := none, handshakeState := none, state := .closed }

end NoiseSession
end Bitchat.Crypto
