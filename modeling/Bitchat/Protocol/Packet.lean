import Bitchat.Data.Bytes
import Mathlib.Algebra.Order.Ring.Rat

/-! The BitChat wire packet and its constants. A packet carries the constraints
checked by its constructor, so every packet value is one the program can hold. -/

namespace Bitchat

/-- Clock readings and durations. Every finite float is a rational; inf and nan are no readings,
and the rounding of float differences is left out but where a `Clock` stands for it. -/
abbrev Seconds := ℚ

/-- The difference of two readings, rounded as the machine does it. -/
structure Clock where
  round : Seconds → Seconds
  mono : Monotone round
  one : round 1 = 1

namespace Clock

def since (clock : Clock) (now time : Seconds) : Seconds := clock.round (now - time)

def exact : Clock := ⟨id, monotone_id, rfl⟩

variable {clock : Clock} {now later time : Seconds}

theorem since_mono (after : now ≤ later) : clock.since now time ≤ clock.since later time :=
  clock.mono (sub_le_sub_right after time)

theorem since_le_one (near : now ≤ time + 1) : clock.since now time ≤ 1 :=
  (clock.mono (sub_le_iff_le_add'.mpr near)).trans_eq clock.one

end Clock

namespace Protocol

def currentProtocolVersion : Nat := 1

def flagHasRecipient : Nat := 0x01
def flagHasSignature : Nat := 0x02
def flagIsCompressed : Nat := 0x04

def broadcastRecipient : Bytes := List.replicate 8 0xff
def senderIdSize : Nat := 8
def recipientIdSize : Nat := 8
def signatureSize : Nat := 64

def fixedHeaderSize : Nat := 14
def minimumPacketSize : Nat := fixedHeaderSize + senderIdSize

def blockSizes : List Nat := [256, 512, 1024, 2048]
def paddingOverheadEstimate : Nat := 16
def maxPaddingSize : Nat := 255

def fragmentationThreshold : Nat := 500
def fragmentChunkSize : Nat := 150
def fragmentHeaderSize : Nat := 13
def fragmentIdSize : Nat := 8

def maxFragmentsPerAssembly : Nat := 1000
def maxActiveAssemblies : Nat := 100
def maxReassembledBytes : Nat := 150000

inductive MessageType where
  | announce | keyExchange | leave | message
  | fragmentStart | fragmentContinue | fragmentEnd
  | channelAnnounce | channelRetention
  | deliveryAck | deliveryStatusRequest | readReceipt
  | noiseHandshakeInit | noiseHandshakeResp | noiseEncrypted | noiseIdentityAnnounce
  | versionHello | versionAck | protocolAck | protocolNack
  | systemValidation | handshakeRequest
deriving DecidableEq, Repr

namespace MessageType

def code : MessageType → Nat
  | announce => 0x01
  | keyExchange => 0x02
  | leave => 0x03
  | message => 0x04
  | fragmentStart => 0x05
  | fragmentContinue => 0x06
  | fragmentEnd => 0x07
  | channelAnnounce => 0x08
  | channelRetention => 0x09
  | deliveryAck => 0x0A
  | deliveryStatusRequest => 0x0B
  | readReceipt => 0x0C
  | noiseHandshakeInit => 0x10
  | noiseHandshakeResp => 0x11
  | noiseEncrypted => 0x12
  | noiseIdentityAnnounce => 0x13
  | versionHello => 0x20
  | versionAck => 0x21
  | protocolAck => 0x22
  | protocolNack => 0x23
  | systemValidation => 0x24
  | handshakeRequest => 0x25

def all : List MessageType :=
  [announce, keyExchange, leave, message, fragmentStart, fragmentContinue, fragmentEnd,
   channelAnnounce, channelRetention, deliveryAck, deliveryStatusRequest, readReceipt,
   noiseHandshakeInit, noiseHandshakeResp, noiseEncrypted, noiseIdentityAnnounce,
   versionHello, versionAck, protocolAck, protocolNack, systemValidation, handshakeRequest]

/-- `MessageType(value)`, `none` where Python raises `ValueError`. -/
def ofCode (value : Nat) : Option MessageType := all.find? fun t => t.code = value

theorem ofCode_code (t : MessageType) : ofCode t.code = some t := by cases t <;> rfl

theorem code_ofCode {value : Nat} {t : MessageType} (h : ofCode value = some t) :
    t.code = value := by
  simpa using List.find?_some h

theorem code_lt (t : MessageType) : t.code < 256 := by cases t <;> decide

end MessageType

/-- The exceptions of the protocol package, with their messages. -/
inductive ProtocolError where
  | invalidPacket (message : String)
  | packetEncoding (message : String)
  | packetDecoding (message : String)
  | unsupportedVersion (message : String)
  | unknownMessageType (message : String)
  | invalidFragment (message : String)
  | fragmentPayload (message : String)
  | fragmentLimitExceeded (message : String)
  | valueError (message : String)
deriving DecidableEq, Repr

def hasFlag (flags mask : Nat) : Bool := flags &&& mask != 0

structure BitchatPacket where
  version : Nat
  messageType : MessageType
  ttl : Nat
  timestamp : Nat
  flags : Nat
  senderId : Bytes
  recipientId : Option Bytes
  payload : Bytes
  signature : Option Bytes
  version_le : version ≤ 255
  ttl_le : ttl ≤ 255
  timestamp_le : timestamp ≤ 0xFFFFFFFFFFFFFFFF
  flags_le : flags ≤ 255
  senderId_size : senderId.length = senderIdSize
  recipientId_size : ∀ id ∈ recipientId, id.length = recipientIdSize
  recipientId_flag : recipientId.isSome = hasFlag flags flagHasRecipient
  payload_size : payload.length ≤ 65535
  signature_size : ∀ s ∈ signature, s.length = signatureSize
  signature_flag : signature.isSome = hasFlag flags flagHasSignature
deriving DecidableEq

namespace BitchatPacket

def hasRecipient (p : BitchatPacket) : Bool := hasFlag p.flags flagHasRecipient
def hasSignature (p : BitchatPacket) : Bool := hasFlag p.flags flagHasSignature
def isCompressed (p : BitchatPacket) : Bool := hasFlag p.flags flagIsCompressed

/-- The constructor with its `__post_init__` checks, in their order. -/
def make (version : Int) (messageType : MessageType) (ttl timestamp flags : Int)
    (senderId : Bytes) (recipientId : Option Bytes) (payload : Bytes)
    (signature : Option Bytes) : Except ProtocolError BitchatPacket :=
  if hv : ¬ (0 ≤ version ∧ version ≤ 255) then
    .error (.invalidPacket s!"Version must be an 8-bit unsigned integer, got {version}")
  else if ht : ¬ (0 ≤ ttl ∧ ttl ≤ 255) then
    .error (.invalidPacket s!"TTL must be an 8-bit unsigned integer (0..255), got {ttl}")
  else if hs : ¬ (0 ≤ timestamp ∧ timestamp ≤ 0xFFFFFFFFFFFFFFFF) then
    .error (.invalidPacket s!"Timestamp must be an unsigned 64-bit integer, got {timestamp}")
  else if hf : ¬ (0 ≤ flags ∧ flags ≤ 255) then
    .error (.invalidPacket s!"Flags must be an 8-bit unsigned integer (0..255), got {flags}")
  else if hi : senderId.length ≠ senderIdSize then
    .error (.invalidPacket
      s!"Sender ID must be exactly {senderIdSize} bytes, got {senderId.length}")
  else if hr : ∃ id ∈ recipientId, id.length ≠ recipientIdSize then
    .error (.invalidPacket (s!"Recipient ID must be exactly {recipientIdSize} bytes when present, " ++
      s!"got {(recipientId.getD []).length}"))
  else if hrf : recipientId.isSome ≠ hasFlag flags.toNat flagHasRecipient then
    .error (.invalidPacket (if recipientId.isSome
      then "FLAG_HAS_RECIPIENT must be set when recipient_id is present"
      else "FLAG_HAS_RECIPIENT must not be set when recipient_id is None"))
  else if hp : 65535 < payload.length then
    .error (.invalidPacket
      s!"Payload length exceeds maximum 16-bit uint (65535), got {payload.length}")
  else if hg : ∃ s ∈ signature, s.length ≠ signatureSize then
    .error (.invalidPacket (s!"Signature must be exactly {signatureSize} bytes when present, " ++
      s!"got {(signature.getD []).length}"))
  else if hgf : signature.isSome ≠ hasFlag flags.toNat flagHasSignature then
    .error (.invalidPacket (if signature.isSome
      then "FLAG_HAS_SIGNATURE must be set when signature is present"
      else "FLAG_HAS_SIGNATURE must not be set when signature is None"))
  else
    .ok {
      version := version.toNat, messageType, ttl := ttl.toNat, timestamp := timestamp.toNat
      flags := flags.toNat, senderId, recipientId, payload, signature
      version_le := by omega
      ttl_le := by omega
      timestamp_le := by omega
      flags_le := by omega
      senderId_size := not_not.mp hi
      recipientId_size := fun id h => by_contra fun bad => hr ⟨id, h, bad⟩
      recipientId_flag := not_not.mp hrf
      payload_size := not_lt.mp hp
      signature_size := fun s h => by_contra fun bad => hg ⟨s, h, bad⟩
      signature_flag := not_not.mp hgf }

/-- `create` with its defaults: this protocol version, seven hops and no signature. -/
def create (messageType : MessageType) (senderId payload : Bytes) (recipientId : Option Bytes)
    (now : Int) : Except ProtocolError BitchatPacket :=
  make currentProtocolVersion messageType 7 now (if recipientId.isSome then flagHasRecipient else 0)
    senderId recipientId payload none

/-- The constructor gives back every packet from its own fields. -/
theorem make_fields (p : BitchatPacket) :
    make p.version p.messageType p.ttl p.timestamp p.flags p.senderId p.recipientId p.payload
      p.signature = .ok p := by
  have hr : ¬ ∃ id ∈ p.recipientId, id.length ≠ recipientIdSize :=
    fun ⟨id, h, bad⟩ => bad (p.recipientId_size id h)
  have hg : ¬ ∃ s ∈ p.signature, s.length ≠ signatureSize :=
    fun ⟨s, h, bad⟩ => bad (p.signature_size s h)
  have hrf : ¬ p.recipientId.isSome ≠ hasFlag (p.flags : Int).toNat flagHasRecipient :=
    not_not.mpr p.recipientId_flag
  have hgf : ¬ p.signature.isSome ≠ hasFlag (p.flags : Int).toNat flagHasSignature :=
    not_not.mpr p.signature_flag
  have := p.version_le
  have := p.ttl_le
  have := p.timestamp_le
  have := p.flags_le
  have := p.payload_size
  unfold make
  rw [dif_neg (by omega), dif_neg (by omega), dif_neg (by omega), dif_neg (by omega),
    dif_neg (not_not.mpr p.senderId_size), dif_neg hr, dif_neg hrf, dif_neg (by omega),
    dif_neg hg, dif_neg hgf]
  rfl

/-- A message packet with neither recipient nor signature. -/
def plainMessage (senderId payload : Bytes) (sender : senderId.length = senderIdSize)
    (short : payload.length ≤ 65535) : BitchatPacket where
  version := currentProtocolVersion
  messageType := .message
  ttl := 7
  timestamp := 0
  flags := 0
  senderId := senderId
  recipientId := none
  payload := payload
  signature := none
  version_le := by decide
  ttl_le := by decide
  timestamp_le := by decide
  flags_le := by decide
  senderId_size := sender
  recipientId_size := by simp
  recipientId_flag := by decide
  payload_size := short
  signature_size := by simp
  signature_flag := by decide

/-- A message of one byte for everyone, from a device whose id repeats one byte. -/
def note (sender text : UInt8) : BitchatPacket :=
  plainMessage (List.replicate 8 sender) [text] List.length_replicate (by simp)

/-- The same for the device whose id repeats another byte. -/
def noteTo (sender recipient text : UInt8) : BitchatPacket :=
  { note sender text with
    recipientId := some (List.replicate 8 recipient)
    flags := flagHasRecipient
    flags_le := by decide
    recipientId_size := by simp [recipientIdSize]
    recipientId_flag := rfl
    signature_flag := rfl }

/-- A packet that is relayed no further. -/
def lastHop (p : BitchatPacket) : BitchatPacket := { p with ttl := 1, ttl_le := by decide }

theorem hasRecipient_eq (p : BitchatPacket) : p.hasRecipient = p.recipientId.isSome :=
  p.recipientId_flag.symm

theorem hasSignature_eq (p : BitchatPacket) : p.hasSignature = p.signature.isSome :=
  p.signature_flag.symm

end BitchatPacket
end Protocol
end Bitchat
