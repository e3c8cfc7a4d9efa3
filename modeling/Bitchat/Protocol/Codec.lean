import Bitchat.Data.Text
import Bitchat.Protocol.Packet

/-! The binary packet format: encoding with optional block padding and strict
decoding. The bytes `os.urandom` draws for the padding are a parameter. -/
namespace Bitchat.Protocol

/-- The smallest block that holds the data and the encryption overhead, else the size
itself. -/
def getOptimalBlockSize (unpaddedSize : Nat) : Nat :=
  (blockSizes.find? fun block => unpaddedSize + paddingOverheadEstimate ≤ block).getD unpaddedSize

/-- `filler` gives the random bytes in the order they are drawn. -/
def padPacketData (filler : Nat → UInt8) (data : Bytes) (targetSize : Option Nat := none) :
    Bytes :=
  let target := targetSize.getD (getOptimalBlockSize data.length)
  if target ≤ data.length then data
  else if maxPaddingSize < target - data.length then data
  else data ++ (List.range (target - data.length - 1)).map filler ++
    [UInt8.ofNat (target - data.length)]

/-- The six header fields with their widths in bytes. -/
def headerFields (packet : BitchatPacket) : List (Nat × Nat) :=
  [(1, packet.version), (1, packet.messageType.code), (1, packet.ttl), (8, packet.timestamp),
    (1, packet.flags), (2, packet.payload.length)]

/-- The recipient and the signature are written when their flag says so. -/
def optionalField (flagged : Bool) (field : Option Bytes) (size : Nat) (message : String) :
    Except ProtocolError Bytes :=
  if flagged then
    match field with
    | some value => if value.length = size then .ok value else .error (.packetEncoding message)
    | none => .error (.packetEncoding message)
  else .ok []

def encodePacket (filler : Nat → UInt8) (packet : BitchatPacket) (addPadding : Bool := true) :
    Except ProtocolError Bytes := do
  let header ← match Bytes.packBE (headerFields packet) with
    | some header => .ok header
    | none => .error (.packetEncoding "Failed to serialize packet header")
  let recipient ← optionalField packet.hasRecipient packet.recipientId recipientIdSize
    "FLAG_HAS_RECIPIENT is set but recipient_id is invalid or missing"
  let signature ← optionalField packet.hasSignature packet.signature signatureSize
    "FLAG_HAS_SIGNATURE is set but signature is invalid or missing"
  let rawUnpadded := header ++ (packet.senderId ++ (recipient ++ (packet.payload ++ signature)))
  return if addPadding then padPacketData filler rawUnpadded else rawUnpadded

def unpadPacketData (data : Bytes) : Bytes :=
  match data.getLast? with
  | none => []
  | some last =>
    if last.toNat = 0 ∨ data.length < last.toNat ∨ maxPaddingSize < last.toNat then data
    else data.take (data.length - last.toNat)

/-- `0x{value:02X}`. -/
def hexByte (value : Nat) : String :=
  String.ofList ((Str.hex [UInt8.ofNat value]).map Char.toUpper)

/-- The exact size of a packet without padding. -/
def expectedUnpaddedSize (flags payloadLen : Nat) : Nat :=
  fixedHeaderSize + senderIdSize + (if hasFlag flags flagHasRecipient then recipientIdSize else 0) +
    payloadLen + (if hasFlag flags flagHasSignature then signatureSize else 0)

/-- The bytes without padding; trailing bytes must count themselves in the last one. -/
def stripPadding (data : Bytes) (expected : Nat) : Except ProtocolError Bytes :=
  if data.length < expected then
    .error (.packetDecoding (s!"Packet data shorter than expected: got {data.length} bytes, " ++
      s!"expected at least {expected} bytes"))
  else if data.length = expected then .ok data
  else
    let paddingNeeded := data.length - expected
    let lastByte := (data.getLast?.getD 0).toNat
    if maxPaddingSize < paddingNeeded ∨ lastByte ≠ paddingNeeded ∨ lastByte = 0 then
      .error (.packetDecoding (s!"Malformed packet padding: packet has {paddingNeeded} extra bytes, " ++
        s!"but final padding byte indicates {lastByte}"))
    else .ok (data.take expected)

/-- The variable fields and the packet made of them. -/
def extractFields (version : Nat) (messageType : MessageType) (ttl timestamp flags : Nat)
    (payloadLen : Nat) (unpadded : Bytes) : Except ProtocolError BitchatPacket :=
  let senderEnd := fixedHeaderSize + senderIdSize
  let recipientEnd := senderEnd + if hasFlag flags flagHasRecipient then recipientIdSize else 0
  let payloadEnd := recipientEnd + payloadLen
  let senderId := Bytes.slice unpadded fixedHeaderSize senderEnd
  let recipientId := if hasFlag flags flagHasRecipient
    then some (Bytes.slice unpadded senderEnd recipientEnd) else none
  let payload := Bytes.slice unpadded recipientEnd payloadEnd
  let signature := if hasFlag flags flagHasSignature
    then some (Bytes.slice unpadded payloadEnd (payloadEnd + signatureSize)) else none
  match BitchatPacket.make version messageType ttl timestamp flags senderId recipientId payload
    signature with
  | .ok packet => .ok packet
  | .error (.invalidPacket message) =>
    .error (.packetDecoding s!"Decoded packet failed validation: {message}")
  | .error other => .error other

def decodePacket (data : Bytes) : Except ProtocolError BitchatPacket :=
  if data.length < minimumPacketSize then
    .error (.packetDecoding (s!"Packet too small: {data.length} bytes, " ++
      s!"minimum required is {minimumPacketSize} bytes"))
  else
    match Bytes.unpackBE [1, 1, 1, 8, 1, 2] (data.take fixedHeaderSize) with
    | [version, msgTypeRaw, ttl, timestamp, flags, payloadLen] =>
      if version ≠ currentProtocolVersion then
        .error (.unsupportedVersion (s!"Unsupported protocol version: {version}. " ++
          s!"Expected version {currentProtocolVersion}."))
      else
        match MessageType.ofCode msgTypeRaw with
        | none =>
          .error (.unknownMessageType
            s!"Unknown message type: 0x{hexByte msgTypeRaw} ({msgTypeRaw})")
        | some messageType =>
          match stripPadding data (expectedUnpaddedSize flags payloadLen) with
          | .error e => .error e
          | .ok unpadded =>
            extractFields version messageType ttl timestamp flags payloadLen unpadded
    | _ => .error (.packetDecoding s!"Failed to unpack {fixedHeaderSize}-byte packet header")

end Bitchat.Protocol
