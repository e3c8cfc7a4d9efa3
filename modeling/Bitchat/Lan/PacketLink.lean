import Bitchat.Lan.Framing
import Bitchat.Lan.Transport
import Bitchat.Protocol.CodecRoundTrip

/-! Which packets cross a connection. A packet may be larger than the largest frame, since its
header and optional fields come on top of a payload of up to 65535 bytes. -/
namespace Bitchat.Lan
open Protocol

inductive SendError where
  | notConnected (peerAddress : Str)
  | encoding (error : ProtocolError)
  | framing (error : FramingError)

/-- A connection, and what was written to its stream. -/
structure LANStream where
  connection : LANConnection
  written : Bytes := []

namespace LANStream

def close (s : LANStream) : LANStream :=
  { s with connection := { s.connection with isConnected := false, ready := false } }

/-- Writing and draining succeed. -/
def sendPacket (filler : Nat → UInt8) (packet : BitchatPacket) (s : LANStream) :
    Except SendError Unit × LANStream :=
  if ¬ s.connection.isReady then (.error (.notConnected s.connection.peerAddress), s)
  else
    match encodePacket filler packet false with
    | .error error => (.error (.encoding error), s.close)
    | .ok encoded =>
      match encodeFrame encoded with
      | .error error => (.error (.framing error), s.close)
      | .ok frame => (.ok (), { s with written := s.written ++ frame })

end LANStream

/-- What the read loop decodes from the chunks of a stream. -/
def readPackets (chunks : List Bytes) : Except FramingError (List (Except ProtocolError BitchatPacket)) :=
  (StreamFramer.feedAll chunks {}).1.map fun returned => returned.flatten.map decodePacket

/-- The packet is sent without an exception, the connection stays open, and the peer reads
exactly this packet, however the bytes are cut. -/
structure Crosses (filler : Nat → UInt8) (packet : BitchatPacket) (s : LANStream) : Prop where
  sent : (s.sendPacket filler packet).1 = .ok ()
  stays : (s.sendPacket filler packet).2.connection.isReady
  delivered : ∃ bytes, (s.sendPacket filler packet).2.written = s.written ++ bytes ∧
    ∀ chunks : List Bytes, chunks.flatten = bytes → readPackets chunks = .ok [.ok packet]

section Sizes
variable {filler : Nat → UInt8} {packet : BitchatPacket} {s : LANStream}

/-- What sending does depends on the size of the packet only. -/
theorem sendPacket_eq (ready : s.connection.isReady) : s.sendPacket filler packet =
    if maxFrameSize < expectedUnpaddedSize packet.flags packet.payload.length then
      (.error (.framing (.payloadTooLarge (expectedUnpaddedSize packet.flags packet.payload.length)
        maxFrameSize)), s.close)
    else (.ok (), { s with written := s.written ++ frame (wireHeader packet ++ wireBody packet) }) := by
  rw [LANStream.sendPacket, if_neg (not_not_intro ready), encodePacket_eq]
  by_cases large : maxFrameSize < expectedUnpaddedSize packet.flags packet.payload.length
  · simp only [encodeFrame, wire_length, Bool.false_eq_true, if_false, if_pos large]
  · simp only [encodeFrame, wire_length, Bool.false_eq_true, if_false, if_neg large]

theorem readPackets_frame {chunks : List Bytes} (current : packet.version = currentProtocolVersion)
    (small : expectedUnpaddedSize packet.flags packet.payload.length ≤ maxFrameSize)
    (cut : chunks.flatten = frame (wireHeader packet ++ wireBody packet)) :
    readPackets chunks = .ok [.ok packet] := by
  have packs : expectedUnpaddedSize packet.flags packet.payload.length < 256 ^ 4 :=
    small.trans_lt (by decide)
  rw [← wire_length] at small packs
  have empty : StreamFramer.extract maxFrameSize [] [] = (.ok [], []) :=
    StreamFramer.extract_short (by decide)
  have whole : StreamFramer.extract maxFrameSize ([] ++ chunks.flatten) [] =
      (.ok [wireHeader packet ++ wireBody packet], []) := by
    rw [List.nil_append, cut, ← List.append_nil (frame _), StreamFramer.extract_frame small packs]
    exact StreamFramer.extract_short (by decide)
  obtain ⟨returned, fed, flat⟩ := StreamFramer.feedAll_eq (s := {}) empty whole
  have decoded := decodePacket_wire packet current (Or.inl rfl : IsPadding [])
  rw [List.append_nil] at decoded
  rw [readPackets, fed]
  simp [Except.map, flat, decoded]

end Sizes

/-- A packet of the current version crosses exactly when its encoding fits a frame. A larger one
is refused, and the connection closed with nothing written. -/
theorem packet_crosses (filler : Nat → UInt8) (packet : BitchatPacket) (s : LANStream)
    (current : packet.version = currentProtocolVersion) (ready : s.connection.isReady) :
    (Crosses filler packet s ↔
      expectedUnpaddedSize packet.flags packet.payload.length ≤ maxFrameSize) ∧
    (maxFrameSize < expectedUnpaddedSize packet.flags packet.payload.length →
      s.sendPacket filler packet = (.error (.framing (.payloadTooLarge
        (expectedUnpaddedSize packet.flags packet.payload.length) maxFrameSize)), s.close)) := by
  have sent : s.sendPacket filler packet = _ := sendPacket_eq ready
  refine ⟨⟨fun crosses => ?_, fun small => ?_⟩, fun large => ?_⟩
  · by_contra large
    have refused := crosses.sent
    rw [sent, if_pos (not_le.mp large)] at refused
    cases refused
  · rw [if_neg (not_lt.mpr small)] at sent
    refine ⟨by rw [sent], by rw [sent]; exact ready, frame (wireHeader packet ++ wireBody packet),
      by rw [sent], fun chunks cut => readPackets_frame current small cut⟩
  · rw [sent, if_pos large]

section Sizes

/-- An open connection. -/
def openStream : LANStream := ⟨{ peerAddress := [], isConnected := true, ready := true }, []⟩

/-- A short message crosses. -/
theorem note_crosses : Crosses (fun _ => 0) (.note 1 7) openStream :=
  (packet_crosses _ _ openStream rfl rfl).1.mpr (by decide)

/-- A message that the constructor admits, of one byte more than a frame holds. -/
def longMessage : BitchatPacket :=
  { BitchatPacket.note 1 7 with
    payload := List.replicate 65515 7
    payload_size := List.length_replicate.trans_le (by decide) }

theorem long_message_refused : ¬ ∀ (packet : BitchatPacket) (s : LANStream),
    packet.version = currentProtocolVersion → s.connection.isReady → Crosses (fun _ => 0) packet s := by
  intro all
  have small := (packet_crosses _ longMessage openStream rfl rfl).1.mp (all _ _ rfl rfl)
  have size : longMessage.payload.length = 65515 := List.length_replicate
  rw [size] at small
  exact absurd small (by decide)

end Sizes
end Bitchat.Lan
