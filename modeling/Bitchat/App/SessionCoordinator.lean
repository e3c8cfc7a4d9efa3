import Bitchat.Crypto.Session
import Bitchat.Protocol.Packet
import Bitchat.Storage.Contacts

/-! The coordinator of the sessions with all peers. A handler runs in stretches: it
gives way to others where it awaits a send or sleeps, and what it does afterwards is a
background task. Each stretch sends at most one packet. -/
namespace Bitchat.App
open Crypto Protocol Storage Stateful Str

def maxMessageSize : Nat := 32768
def maxPendingHandshakes : Nat := 64

inductive CoordinatorError where
  | crypto (error : CryptoError)
  | protocol (error : ProtocolError)
  | value (message : String)
deriving DecidableEq, Repr

/-- A session object: two of them are the same object when their serials agree. -/
structure Held where
  serial : Nat
  session : NoiseSession
deriving DecidableEq

def Held.isPending (held : Held) : Bool := held.session.state = .handshaking

/-- What a suspended handler still has to do. -/
inductive Task where
  /-- A queued text, flushed when the handshake ended. -/
  | send (peer : Str) (text : Bytes)
  /-- The rest of a handshake handler, after its answer was sent. -/
  | finish (peer : Str) (serial : Nat)
  /-- An encrypted packet that came while the handshake was open. -/
  | receive (peer : Str) (serial : Nat) (payload : Bytes)
deriving DecidableEq

/-- Texts are kept in their UTF-8 encoding, contacts as they are stored, `none` where no
storage is configured. Expiry tasks are kept with the session they watch. -/
structure SessionCoordinator where
  localIdentity : LocalIdentity
  contacts : Option Contacts
  sessions : InsertionMap Str Held := .empty
  pendingMessages : InsertionMap Str (List Bytes) := .empty
  handshakeTimeoutTasks : InsertionMap Str Nat := .empty
  backgroundTasks : List Task := []
  nextSerial : Nat := 0
deriving DecidableEq

/-- What a stretch takes from outside: a fresh key pair, the time, and whether the storage
raises. -/
structure Surroundings where
  ephemeral : Bytes
  now : Nat
  loadRaises : Bool
  saveRaises : Bool
  ephemeral_size : ephemeral.length = x25519KeySize
  now_le : now ≤ 0xFFFFFFFFFFFFFFFF

inductive Output where
  | sent (peer : Str) (packet : BitchatPacket)
  | received (peer : Str) (text : Bytes)
  | completed (peer fingerprint : Str)

abbrev Stretch := EStateM CoordinatorError SessionCoordinator

namespace SessionCoordinator

section State

def hold (peer : Str) (held : Held) (c : SessionCoordinator) : SessionCoordinator :=
  { c with sessions := c.sessions.set peer held }

def spawn (task : Task) (c : SessionCoordinator) : SessionCoordinator :=
  { c with backgroundTasks := c.backgroundTasks ++ [task] }

/-- A peer has at most one expiry task: a second is not armed while the first is there. -/
def scheduleHandshakeTimeout (peer : Str) (serial : Nat) (c : SessionCoordinator) :
    SessionCoordinator :=
  if c.handshakeTimeoutTasks.contains peer then c
  else { c with handshakeTimeoutTasks := c.handshakeTimeoutTasks.set peer serial }

/-- Arm the expiry task of a session that is in its handshake. -/
def watchHandshake (peer : Str) (held : Held) (c : SessionCoordinator) : SessionCoordinator :=
  if held.isPending then c.scheduleHandshakeTimeout peer held.serial else c

def cancelHandshakeTimeout (peer : Str) (c : SessionCoordinator) : SessionCoordinator :=
  { c with handshakeTimeoutTasks := c.handshakeTimeoutTasks.erase peer }

/-- Drop a failed session with its expiry task and the texts that wait for it. -/
def discardFailedSession (peer : Str) (held : Held) (force : Bool) (c : SessionCoordinator) :
    SessionCoordinator :=
  if ¬ force ∧ held.session.state ≠ .failed then c
  else
    let c := c.cancelHandshakeTimeout peer
    { c with
      sessions := if (c.sessions.get? peer).any fun current => current.serial = held.serial
        then c.sessions.erase peer else c.sessions
      pendingMessages := c.pendingMessages.erase peer }

/-- Mark a session failed and drop it. -/
def failSession (peer : Str) (held : Held) (c : SessionCoordinator) : SessionCoordinator :=
  let failed := { held with session := { held.session with state := .failed } }
  (c.hold peer failed).discardFailedSession peer failed false

def pendingHandshakesCount (c : SessionCoordinator) : Nat :=
  c.sessions.values.countP Held.isPending

/-- The expiry task of a peer runs out. -/
def expireHandshake (peer : Str) (c : SessionCoordinator) : SessionCoordinator :=
  match c.handshakeTimeoutTasks.get? peer with
  | none => c
  | some serial =>
    let c := match c.sessions.get? peer with
      | none => c
      | some held =>
        if held.serial = serial ∧ held.isPending then c.failSession peer held
        else c
    c.cancelHandshakeTimeout peer

/-- Append a text to those that wait for the handshake with the peer. -/
def queueMessage (peer : Str) (text : Bytes) (c : SessionCoordinator) : SessionCoordinator :=
  { c with pendingMessages :=
      c.pendingMessages.set peer ((c.pendingMessages.get? peer).getD [] ++ [text]) }

/-- Take the waiting texts of a peer, one sending task each. -/
def flushPending (peer : Str) (c : SessionCoordinator) : SessionCoordinator :=
  { c with
    pendingMessages := c.pendingMessages.erase peer
    backgroundTasks := c.backgroundTasks ++
      ((c.pendingMessages.get? peer).getD []).map (Task.send peer) }

end State

/-- Run a method of the session held under a peer id. -/
def onSession {α : Type} (peer : Str) (held : Held) (x : EStateM CryptoError NoiseSession α) :
    Stretch α := fun c =>
  match x held.session with
  | .ok a session => .ok a (c.hold peer { held with session })
  | .error e session => .error (.crypto e) (c.hold peer { held with session })

/-- `bytes.fromhex` of a target; the position that Python adds to the text is left out. -/
def recipientOf (peer : Str) : Except CoordinatorError Bytes :=
  match fromHex peer with
  | some id => .ok id
  | none => .error (.value "non-hexadecimal number found in fromhex() arg")

section
variable [Primitives]

/-- A packet from this device. -/
def packetFor (w : Surroundings) (messageType : MessageType) (recipientId payload : Bytes) :
    Stretch BitchatPacket := fun c =>
  match BitchatPacket.create messageType c.localIdentity.peerId payload (some recipientId) w.now with
  | .ok packet => .ok packet c
  | .error e => .error (.protocol e) c

/-- Send to a peer named by its hexadecimal id. -/
def sendTo (w : Surroundings) (peer : Str) (messageType : MessageType) (payload : Bytes) :
    Stretch (Option Output) := do
  let recipientId ← lift (recipientOf peer)
  let packet ← packetFor w messageType recipientId payload
  return some (.sent peer packet)

/-- Start the handshake as the initiator and send its first message. -/
def openHandshake (w : Surroundings) (peer : Str) (held : Held)
    (send : Bytes → Stretch (Option Output)) : Stretch (Option Output) := do
  match ← onSession peer held (NoiseSession.startHandshake w.ephemeral) with
  | some initPayload =>
    modify (scheduleHandshakeTimeout peer held.serial)
    send initPayload
  | none => return none

variable [CaseMapping]

def isSelf (peer : Str) (c : SessionCoordinator) : Bool :=
  CaseMapping.lower peer = CaseMapping.lower c.localIdentity.peerIdHex

def getOrCreateSession (remotePeerIdHex : Str) : Stretch Held := do
  let c ← get
  if c.isSelf (strip remotePeerIdHex) then
    throw (.value ("Cannot establish Noise session with self " ++
      s!"(peer_id={String.ofList remotePeerIdHex})"))
  else
    match c.sessions.get? remotePeerIdHex with
    | some held => return held
    | none =>
      match NoiseSession.new c.localIdentity remotePeerIdHex none with
      | .error e => throw (.crypto e)
      | .ok session =>
        let held : Held := ⟨c.nextSerial, session⟩
        set { c.hold remotePeerIdHex held with nextSerial := c.nextSerial + 1 }
        return held

/-- `text` is the UTF-8 encoding. Nothing follows the send, so the call ends with it. -/
def sendDirectMessage (w : Surroundings) (targetPeerIdHex : Str) (text : Bytes) :
    Stretch (Option Output) := do
  if maxMessageSize < text.length then
    throw (.value s!"Message payload exceeds maximum size ({maxMessageSize} bytes)")
  else
    let held ← getOrCreateSession targetPeerIdHex
    if held.session.isEstablished then
      let ciphertext ← onSession targetPeerIdHex held (NoiseSession.encrypt text)
      sendTo w targetPeerIdHex .noiseEncrypted ciphertext
    else
      modify (queueMessage targetPeerIdHex text)
      if held.session.state = .uninitialized then
        if held.session.role = .initiator then
          openHandshake w targetPeerIdHex held (sendTo w targetPeerIdHex .noiseHandshakeInit)
        else sendTo w targetPeerIdHex .handshakeRequest []
      else return none

/-- The verdict on an authenticated key, and the contacts as stored afterwards. A storage
that raises is passed over. -/
def verifyPeer (w : Surroundings) (peer fingerprint : Str) (contacts : Option Contacts) :
    Bool × Option Contacts :=
  match contacts with
  | none => (true, none)
  | some known =>
    if fingerprint = [] ∨ w.loadRaises then (true, some known)
    else
      let (verified, next) := known.verifyContact peer fingerprint
      (verified, some (if verified ∧ ¬ w.saveRaises then next else known))

def onHandshakeEstablished (w : Surroundings) (peer : Str) (held : Held) :
    Stretch (Option Output) := do
  modify (cancelHandshakeTimeout peer)
  let c ← get
  let fingerprint := held.session.remoteFingerprint.getD []
  let (verified, contacts) := verifyPeer w peer fingerprint c.contacts
  if verified then
    set ({ c with contacts }.flushPending peer)
    return some (.completed peer fingerprint)
  else
    set (c.failSession peer held)
    return none

/-- The end of the handshake handlers: `if session.is_established`. -/
def finishHandshake (w : Surroundings) (peer : Str) (serial : Nat) : Stretch (Option Output) := do
  let c ← get
  match c.sessions.get? peer with
  | none => return none
  | some held =>
    if held.serial = serial ∧ held.session.isEstablished then onHandshakeEstablished w peer held
    else return none

/-- The handshake handlers after the message was taken. An answer is sent first. -/
def answerHandshake (w : Surroundings) (sender : Bytes) (held : Held) (response : Option Bytes) :
    Stretch (Option Output) := do
  modify (watchHandshake (hex sender) held)
  match response with
  | none => finishHandshake w (hex sender) held.serial
  | some payload =>
    let packet ← packetFor w .noiseHandshakeResp sender payload
    modify (spawn (.finish (hex sender) held.serial))
    return some (.sent (hex sender) packet)

/-- The `try` of the handshake handlers and what follows it. -/
def takeHandshake (w : Surroundings) (sender payload : Bytes) (held : Held) :
    Stretch (Option Output) := fun c =>
  match NoiseSession.processHandshakeMessage w.ephemeral payload held.session with
  | .error _ session =>
    .ok none ((c.hold (hex sender) { held with session }).discardFailedSession (hex sender)
      { held with session } false)
  | .ok response session =>
    answerHandshake w sender { held with session } response
      (c.hold (hex sender) { held with session })

/-- A packet that begins a handshake is refused while too many are open. -/
def refusesHandshake (peer : Str) (c : SessionCoordinator) : Bool :=
  ¬ (c.sessions.get? peer).any Held.isPending ∧
    maxPendingHandshakes ≤ c.pendingHandshakesCount

def handleHandshakeRequest (w : Surroundings) (sender : Bytes) : Stretch (Option Output) := do
  let c ← get
  if c.refusesHandshake (hex sender) then return none
  else
    let held ← getOrCreateSession (hex sender)
    if held.session.role = .initiator ∧ held.session.state = .uninitialized then
      openHandshake w (hex sender) held fun initPayload => do
        let packet ← packetFor w .noiseHandshakeInit sender initPayload
        return some (.sent (hex sender) packet)
    else return none

def handleHandshakeInit (w : Surroundings) (sender payload : Bytes) : Stretch (Option Output) := do
  let c ← get
  if c.refusesHandshake (hex sender) then return none
  else
    let held ← getOrCreateSession (hex sender)
    takeHandshake w sender payload held

def handleHandshakeResp (w : Surroundings) (sender payload : Bytes) : Stretch (Option Output) := do
  let c ← get
  match c.sessions.get? (hex sender) with
  | none => return none
  | some held => takeHandshake w sender payload held

/-- Decrypt and deliver; a payload that does not decrypt is dropped. -/
def deliverEncrypted (peer : Str) (held : Held) (payload : Bytes) : Stretch (Option Output) := fun c =>
  match NoiseSession.decrypt payload held.session with
  | .error _ session => .ok none (c.hold peer { held with session })
  | .ok text session => .ok (some (.received peer text)) (c.hold peer { held with session })

/-- A packet that comes before the handshake is over waits for it a while. -/
def handleEncrypted (sender payload : Bytes) : Stretch (Option Output) := do
  let c ← get
  match c.sessions.get? (hex sender) with
  | none => return none
  | some held =>
    if held.session.isEstablished then deliverEncrypted (hex sender) held payload
    else
      set (c.spawn (.receive (hex sender) held.serial payload))
      return none

/-- The end of the wait: the packet is dropped unless its session is established now. -/
def receiveLater (peer : Str) (serial : Nat) (payload : Bytes) : Stretch (Option Output) := do
  let c ← get
  match c.sessions.get? peer with
  | none => return none
  | some held =>
    if held.serial = serial ∧ held.session.isEstablished then deliverEncrypted peer held payload
    else return none

/-- The packet types that carry no handshake or ciphertext leave the sessions alone. -/
def processPacket (w : Surroundings) (packet : BitchatPacket) : Stretch (Option Output) := do
  let c ← get
  if c.isSelf (hex packet.senderId) then return none
  else
    match packet.messageType with
    | .handshakeRequest => handleHandshakeRequest w packet.senderId
    | .noiseHandshakeInit => handleHandshakeInit w packet.senderId packet.payload
    | .noiseHandshakeResp => handleHandshakeResp w packet.senderId packet.payload
    | .noiseEncrypted => handleEncrypted packet.senderId packet.payload
    | _ => return none

/-- Resume a suspended handler. -/
def resume (w : Surroundings) : Task → Stretch (Option Output)
  | .send peer text => sendDirectMessage w peer text
  | .finish peer serial => finishHandshake w peer serial
  | .receive peer serial payload => receiveLater peer serial payload

end
end SessionCoordinator
end Bitchat.App
