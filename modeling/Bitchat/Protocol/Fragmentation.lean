import Bitchat.Protocol.Codec

/-! Packet fragmentation. A long encoded packet is cut into chunks of one size;
each travels in a fragment packet behind a header that numbers it. -/
namespace Bitchat.Protocol

/-- `should_fragment` on encoded bytes. -/
def shouldFragment (data : Bytes) : Bool := fragmentationThreshold < data.length

/-- The slices `data[i : i + chunk_size] for i in range(0, len(data), chunk_size)`. -/
def chunksOf (data : Bytes) (chunkSize : Nat) : List Bytes :=
  (List.range ((data.length + chunkSize - 1) / chunkSize)).map fun k =>
    Bytes.slice data (k * chunkSize) (k * chunkSize + chunkSize)

def splitChunks (data : Bytes) (chunkSize : Nat := fragmentChunkSize) :
    Except ProtocolError (List Bytes) :=
  if chunkSize < 1 then .error (.valueError s!"chunk_size must be >= 1, got {chunkSize}")
  else if data = [] then .ok []
  else
    let chunks := chunksOf data chunkSize
    if 0xFFFF < chunks.length then
      .error (.fragmentLimitExceeded
        s!"Data requires {chunks.length} chunks, exceeding 16-bit total limit")
    else if maxFragmentsPerAssembly < chunks.length then
      .error (.fragmentLimitExceeded
        s!"Data requires {chunks.length} chunks, exceeding max {maxFragmentsPerAssembly}")
    else .ok chunks

/-- The metadata in front of a chunk: id, index, total and the original type. -/
def fragmentHeader (fragmentId : Bytes) (index total originalType : Nat) : Option Bytes :=
  (Bytes.packBE [(2, index), (2, total), (1, originalType)]).map (fragmentId ++ ·)

def createFragmentPayload (fragmentId : Bytes) (index total originalType : Nat)
    (chunkData : Bytes) : Except ProtocolError Bytes :=
  if fragmentId.length ≠ fragmentIdSize then
    .error (.invalidFragment
      s!"fragment_id must be {fragmentIdSize} bytes, got {fragmentId.length}")
  else if total = 0 then .error (.invalidFragment s!"total must be > 0, got {total}")
  else if 0xFFFF < total then
    .error (.fragmentLimitExceeded s!"total exceeds 0xFFFF: {total}")
  else if maxFragmentsPerAssembly < total then
    .error (.fragmentLimitExceeded s!"total exceeds limit {maxFragmentsPerAssembly}: {total}")
  else if ¬ index < total then
    .error (.invalidFragment s!"index out of bounds: index={index}, total={total}")
  else if 255 < originalType then
    .error (.invalidFragment s!"original_message_type out of range (0..255): {originalType}")
  else
    match fragmentHeader fragmentId index total originalType with
    | some header => .ok (header ++ chunkData)
    | none => .error (.invalidFragment "Failed to pack fragment header")

/-- What `parse_fragment_payload` returns. -/
structure FragmentFields where
  fragmentId : Bytes
  index : Nat
  total : Nat
  originalType : Nat
  data : Bytes
deriving DecidableEq

def parseFragmentPayload (payload : Bytes) : Except ProtocolError FragmentFields :=
  if payload.length < fragmentHeaderSize then
    .error (.fragmentPayload (s!"Fragment payload too short: {payload.length} bytes, " ++
      s!"need at least {fragmentHeaderSize}"))
  else
    match Bytes.unpackBE [2, 2, 1] (Bytes.slice payload fragmentIdSize fragmentHeaderSize) with
    | [index, total, originalType] =>
      if total = 0 then .error (.invalidFragment s!"Invalid fragment total: {total}")
      else if ¬ index < total then
        .error (.invalidFragment s!"Invalid fragment index: index={index}, total={total}")
      else if maxFragmentsPerAssembly < total then
        .error (.fragmentLimitExceeded
          s!"Fragment total {total} exceeds maximum limit {maxFragmentsPerAssembly}")
      else .ok {
        fragmentId := payload.take fragmentIdSize, index, total, originalType
        data := payload.drop fragmentHeaderSize }
    | _ => .error (.fragmentPayload "Malformed fragment header")

def fragmentType (index total : Nat) : MessageType :=
  if index = 0 then .fragmentStart
  else if index = total - 1 then .fragmentEnd
  else .fragmentContinue

/-- The fragment packet that carries one chunk. -/
def makeFragment (senderId fragmentId : Bytes) (originalType total : Nat) (ttl timestamp : Int)
    (indexed : Bytes × Nat) : Except ProtocolError BitchatPacket :=
  match createFragmentPayload fragmentId indexed.2 total originalType indexed.1 with
  | .error e => .error e
  | .ok payload =>
    BitchatPacket.make currentProtocolVersion (fragmentType indexed.2 total) ttl timestamp 0
      senderId none payload none

/-- The fragment id is the one given or drawn; `timestamp` likewise. -/
def fragmentEncodedPacket (encodedPacket senderId : Bytes) (originalType : Nat)
    (fragmentId : Bytes) (ttl timestamp : Int) : Except ProtocolError (List BitchatPacket) :=
  if ¬ shouldFragment encodedPacket then .ok []
  else if senderId.length ≠ senderIdSize then
    .error (.packetEncoding s!"sender_id must be {senderIdSize} bytes")
  else if fragmentId.length ≠ fragmentIdSize then
    .error (.invalidFragment s!"fragment_id must be {fragmentIdSize} bytes")
  else
    match splitChunks encodedPacket with
    | .error e => .error e
    | .ok chunks =>
      chunks.zipIdx.mapM (makeFragment senderId fragmentId originalType chunks.length ttl timestamp)

def fragmentPacket (filler : Nat → UInt8) (packet : BitchatPacket) (fragmentId : Bytes) :
    Except ProtocolError (List BitchatPacket) :=
  match encodePacket filler packet with
  | .error e => .error e
  | .ok encoded =>
    fragmentEncodedPacket encoded packet.senderId packet.messageType.code fragmentId packet.ttl
      packet.timestamp

end Bitchat.Protocol
