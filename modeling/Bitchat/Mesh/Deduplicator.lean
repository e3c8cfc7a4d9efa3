import Bitchat.Crypto.Primitives
import Bitchat.Data.InsertionMap
import Bitchat.Data.Text
import Bitchat.Protocol.Packet

/-! The duplicate filter of a node: a bounded table of packet identifiers with the
times they were recorded, oldest first. -/
namespace Bitchat.Mesh
open Crypto Protocol

/-- What is hashed: the fields that stay the same from hop to hop. -/
def identityBytes (packet : BitchatPacket) : Bytes :=
  packet.senderId ++ (Bytes.toBE 8 packet.timestamp ++
    (UInt8.ofNat packet.messageType.code :: (packet.recipientId.getD [] ++ packet.payload)))

def computePacketId [Primitives] (packet : BitchatPacket) : Str :=
  Str.hex ((Primitives.sha256 (identityBytes packet)).take 16)

/-- The constructor's limits, both positive. -/
structure DeduplicatorLimits where
  maxEntries : Nat := 2000
  entryTtlSeconds : Seconds := 300
  maxEntries_pos : 0 < maxEntries := by decide
  entryTtlSeconds_pos : 0 < entryTtlSeconds := by decide

/-- The limits of a constructor without arguments. -/
def DeduplicatorLimits.standard : DeduplicatorLimits := {}

structure PacketDeduplicator where
  entries : InsertionMap Str Seconds := .empty
deriving DecidableEq

namespace PacketDeduplicator

def expired (lim : DeduplicatorLimits) (now recorded : Seconds) : Bool :=
  lim.entryTtlSeconds < now - recorded

/-- An entry found expired is deleted. -/
def isIdDuplicate (lim : DeduplicatorLimits) (now : Seconds) (packetId : Str)
    (s : PacketDeduplicator) : Bool × PacketDeduplicator :=
  match s.entries.get? packetId with
  | none => (false, s)
  | some recorded =>
    if expired lim now recorded then (false, ⟨s.entries.erase packetId⟩) else (true, s)

/-- A known identifier becomes the newest; for a new one a full table drops its oldest. -/
def recordId (lim : DeduplicatorLimits) (now : Seconds) (packetId : Str)
    (s : PacketDeduplicator) : PacketDeduplicator :=
  let entries := if s.entries.contains packetId then s.entries.erase packetId
    else if lim.maxEntries ≤ s.entries.size then s.entries.popFirst else s.entries
  ⟨entries.set packetId now⟩

/-- The scan stops at the first entry that has not expired. -/
def pruneExpired (lim : DeduplicatorLimits) (now : Seconds) (s : PacketDeduplicator) :
    PacketDeduplicator :=
  ⟨⟨s.entries.entries.dropWhile fun e => expired lim now e.2,
    s.entries.nodup.sublist ((List.dropWhile_sublist _).map _)⟩⟩

/-- How many entries `pruneExpired` deletes. -/
def prunedCount (lim : DeduplicatorLimits) (now : Seconds) (s : PacketDeduplicator) : Nat :=
  (s.entries.entries.takeWhile fun e => expired lim now e.2).length

def clear (_ : PacketDeduplicator) : PacketDeduplicator := {}

variable [Primitives]

def isDuplicate (lim : DeduplicatorLimits) (now : Seconds) (packet : BitchatPacket)
    (s : PacketDeduplicator) : Bool × PacketDeduplicator :=
  s.isIdDuplicate lim now (computePacketId packet)

def record (lim : DeduplicatorLimits) (now : Seconds) (packet : BitchatPacket)
    (s : PacketDeduplicator) : PacketDeduplicator :=
  s.recordId lim now (computePacketId packet)

/-- Whether the packet is a duplicate; one that is not is recorded. -/
def checkAndRecord (lim : DeduplicatorLimits) (now : Seconds) (packet : BitchatPacket)
    (s : PacketDeduplicator) : Bool × PacketDeduplicator :=
  let (duplicate, s) := s.isIdDuplicate lim now (computePacketId packet)
  if duplicate then (true, s) else (false, s.recordId lim now (computePacketId packet))

end PacketDeduplicator
end Bitchat.Mesh
