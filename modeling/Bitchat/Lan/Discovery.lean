import Bitchat.Lan.Transport
import Bitchat.Mesh.Deduplicator

/-! The discovery of peers by beacons: what a beacon says, which beacons are passed over, and the
registry of the peers heard from. The transport sees the registry as its discovered peers. -/
namespace Bitchat.Lan
open Str

def maxDiscoveryPacketSize : Nat := 1024
def maxDiscoveryRatePerIp : Nat := 10

/-- The dictionary of a beacon. The texts are those `str` makes of the entries or of their defaults,
and the port is `none` where `int` raises. -/
structure BeaconFields where
  protocol : Option Str
  versionIsOne : Bool
  transport : Option Str
  peerId : Str
  port : Option Int
  nickname : Str
  ssid : Str
  instanceId : Str
deriving DecidableEq

/-- The reading of JSON and of numerals; results that use it hold for any. -/
class BeaconReader where
  /-- The dictionary of a UTF-8 text, `none` where there is none. -/
  loads : Bytes → Option BeaconFields
  /-- `int` takes the text to base 16. -/
  isHex : Str → Bool

structure DiscoveryPacket where
  peerId : Str
  nickname : Str
  port : Nat
  ssid : Str
  instanceId : Str
deriving DecidableEq

def DiscoveryPacket.fromBytes [CaseMapping] [BeaconReader] (raw : Bytes) : Option DiscoveryPacket :=
  if raw = [] ∨ maxDiscoveryPacketSize < raw.length then none
  else
    match BeaconReader.loads raw with
    | none => none
    | some data =>
      let peerId := CaseMapping.lower (strip data.peerId)
      if data.protocol ≠ some "bitchat".toList ∨ ¬ data.versionIsOne ∨
          data.transport ≠ some "lan".toList then none
      else if peerId = [] ∨ peerId.length < 8 ∨ 64 < peerId.length ∨ ¬ BeaconReader.isHex peerId then none
      else
        match data.port with
        | none => none
        | some port =>
          if port < 1024 ∨ 65535 < port then none
          else some {
            peerId
            port := port.toNat
            nickname := (strip data.nickname).take 32
            ssid := (strip data.ssid).take 64
            instanceId := (strip data.instanceId).take 32 }

section FromBytes
variable [CaseMapping] [BeaconReader] {raw : Bytes} {data : BeaconFields} {port : Int}

/-- The peer id that `from_bytes` checks. -/
def BeaconFields.claimedId (data : BeaconFields) : Str := CaseMapping.lower (strip data.peerId)

/-- A datagram that passes every check of `from_bytes`, with what is read of it. -/
structure AcceptedBeacon (raw : Bytes) (data : BeaconFields) (port : Int) : Prop where
  filled : raw ≠ []
  size : raw.length ≤ maxDiscoveryPacketSize
  loaded : BeaconReader.loads raw = some data
  protocol : data.protocol = some "bitchat".toList
  version : data.versionIsOne = true
  transport : data.transport = some "lan".toList
  long : 8 ≤ data.claimedId.length
  short : data.claimedId.length ≤ 64
  hex : BeaconReader.isHex data.claimedId = true
  numbered : data.port = some port
  low : 1024 ≤ port
  high : port ≤ 65535

def BeaconFields.packet (data : BeaconFields) (port : Int) : DiscoveryPacket where
  peerId := data.claimedId
  port := port.toNat
  nickname := (strip data.nickname).take 32
  ssid := (strip data.ssid).take 64
  instanceId := (strip data.instanceId).take 32

theorem fromBytes_eq_some {packet : DiscoveryPacket} : DiscoveryPacket.fromBytes raw = some packet ↔
    ∃ data port, AcceptedBeacon raw data port ∧ packet = data.packet port := by
  constructor
  · intro read
    unfold DiscoveryPacket.fromBytes at read
    split at read
    · cases read
    · next size =>
      rw [not_or, not_lt] at size
      cases loaded : BeaconReader.loads raw with
      | none => simp [loaded] at read
      | some data =>
        simp only [loaded] at read
        split at read
        · cases read
        · next kind =>
          split at read
          · cases read
          · next named =>
            cases port : data.port with
            | none => simp [port] at read
            | some number =>
              simp only [port] at read
              split at read
              · cases read
              · next range =>
                simp only [not_or, not_not, not_lt] at kind named range
                refine ⟨data, number, ?_, (Option.some.inj read).symm⟩
                exact ⟨size.1, size.2, loaded, kind.1, kind.2.1, kind.2.2, named.2.1, named.2.2.1,
                  named.2.2.2, port, range.1, range.2⟩
  · rintro ⟨data, port, accepted, rfl⟩
    have id : data.claimedId ≠ [] := List.length_pos_iff.mp (by have := accepted.long; omega)
    have kind : ¬ (data.protocol ≠ some "bitchat".toList ∨ ¬ data.versionIsOne = true ∨
        data.transport ≠ some "lan".toList) := by
      simp [accepted.protocol, accepted.version, accepted.transport]
    have named : ¬ (data.claimedId = [] ∨ data.claimedId.length < 8 ∨ 64 < data.claimedId.length ∨
        ¬ BeaconReader.isHex data.claimedId = true) := by
      simp only [not_or, not_not, not_lt]
      exact ⟨id, accepted.long, accepted.short, accepted.hex⟩
    have range : ¬ (port < 1024 ∨ 65535 < port) := by
      have low := accepted.low
      have high := accepted.high
      omega
    have size : ¬ (raw = [] ∨ maxDiscoveryPacketSize < raw.length) := by
      rw [not_or, not_lt]
      exact ⟨accepted.filled, accepted.size⟩
    unfold DiscoveryPacket.fromBytes
    simp only [if_neg size, accepted.loaded]
    have claimed : CaseMapping.lower (strip data.peerId) = data.claimedId := rfl
    rw [if_neg kind, claimed, if_neg named]
    simp only [accepted.numbered]
    rw [if_neg range]
    rfl

end FromBytes

/-- The record of a peer in the registry. -/
structure RegisteredPeer extends LANDiscoveredPeer where
  address : Str
  port : Nat
  nickname : Str
  ssid : Str
  instanceId : Str
  lastSeen : Seconds
deriving DecidableEq

def RegisteredPeer.isExpired (ttl now : Seconds) (peer : RegisteredPeer) : Bool := ttl < now - peer.lastSeen

/-- The parts of a discovery that no method assigns. -/
structure DiscoverySettings where
  instanceId : Str
  broadcastInterval : Seconds := 3
  /-- `on_peer_discovered` is set. -/
  onPeerDiscovered : Bool := true

structure LANDiscovery where
  localPeerId : Str
  listeningPort : Int
  discoveredPeers : InsertionMap Str RegisteredPeer := .empty
  previousPeerIds : List Str := []
  rateLimiter : InsertionMap Str (List Seconds) := .empty
deriving DecidableEq

/-- What comes of a beacon: the record that is returned, and the one that the callback gets. -/
structure Heard where
  peer : Option RegisteredPeer := none
  announced : Option RegisteredPeer := none
deriving DecidableEq

inductive DiscoveryEvent where
  /-- A datagram, with the addresses of this host and the two times that are read. -/
  | beacon (localIps : List Str) (arrived now : Seconds) (data : Bytes) (senderIp : Str)
  | updateIdentity (peerId : Str)
  | updateListeningPort (port : Int)
  | pruneStalePeers (maxAge now : Seconds)
  | clear

/-- The sender of a datagram without a port. -/
def senderHost (senderIp : Str) : Str :=
  let senderIp := strip senderIp
  if senderIp.count ':' = 1 then hostOf senderIp else senderIp

/-- The test on the sender of a beacon. -/
def isLoopbackSender (ip : Str) : Bool := isLoopback ip ∨ ip = "localhost".toList ∨ ip = "::1".toList

theorem isLoopbackSender_eq_false {ip : Str} : isLoopbackSender ip = false ↔
    ¬ "127.".toList <+: ip ∧ ip ≠ "localhost".toList ∧ ip ≠ "::1".toList := by
  simp [isLoopbackSender, isLoopback]

def isLocalIp [CaseMapping] (localIps : List Str) (ip : Str) : Bool :=
  let clean := CaseMapping.lower (strip ip)
  clean = [] ∨ isLoopback clean ∨ clean ∈ ["localhost".toList, "::1".toList, "0.0.0.0".toList] ∨
    clean ∈ localIps

namespace LANDiscovery

def pruneRateLimiter (maxAge now : Seconds) (s : LANDiscovery) : LANDiscovery :=
  { s with rateLimiter := s.rateLimiter.filter fun e =>
      match e.2.max? with
      | none => false
      | some newest => now - newest ≤ maxAge }

def isRateLimited (now : Seconds) (ip : Str) (s : LANDiscovery) : Bool × LANDiscovery :=
  let s := if 256 < s.rateLimiter.size then s.pruneRateLimiter 1 now else s
  let remember (times : List Seconds) : LANDiscovery :=
    { s with rateLimiter := s.rateLimiter.set ip times }
  match s.rateLimiter.get? ip with
  | none => (false, remember [now])
  | some timestamps =>
    let valid := timestamps.filter fun time => now - time ≤ 1
    if valid = [] then (false, remember [now])
    else if maxDiscoveryRatePerIp ≤ valid.length then (true, remember valid)
    else (false, remember (valid ++ [now]))

def clear (s : LANDiscovery) : LANDiscovery := { s with discoveredPeers := .empty }

def pruneStalePeers (maxAge now : Seconds) (s : LANDiscovery) : LANDiscovery :=
  { s.pruneRateLimiter 1 now with
    discoveredPeers := s.discoveredPeers.filter fun e => !e.2.isExpired maxAge now }

/-- Enter a record under its address and announce it. -/
def announce (cfg : DiscoverySettings) (peer : RegisteredPeer) (s : LANDiscovery) : Heard × LANDiscovery :=
  ({ peer, announced := if cfg.onPeerDiscovered then some peer else none },
    { s with discoveredPeers := s.discoveredPeers.set peer.address peer })

/-- Note that a registered peer was heard from, and announce it if it has a new name or network. -/
def refresh (cfg : DiscoverySettings) (now : Seconds) (key nickname ssid : Str) (known : RegisteredPeer)
    (s : LANDiscovery) : Heard × LANDiscovery :=
  let peer : RegisteredPeer := { known with nickname, ssid, lastSeen := now }
  let changed := known.nickname ≠ nickname ∨ known.ssid ≠ ssid
  ({ peer, announced := if changed ∧ cfg.onPeerDiscovered then some peer else none },
    { s with discoveredPeers := s.discoveredPeers.set key peer })

variable [CaseMapping]

def updateIdentity (peerId : Str) (s : LANDiscovery) : LANDiscovery :=
  let s :=
    if CaseMapping.lower peerId ≠ CaseMapping.lower s.localPeerId then
      { s.clear with
        previousPeerIds := if s.localPeerId = [] then s.previousPeerIds
          else CaseMapping.lower s.localPeerId :: s.previousPeerIds }
    else s
  { s with localPeerId := peerId }

/-- The beacon is one of this node, as it is or was named, or comes from this host and port. -/
def isOwnBeacon (cfg : DiscoverySettings) (localIps : List Str) (senderIp : Str)
    (packet : DiscoveryPacket) (s : LANDiscovery) : Bool :=
  packet.peerId = CaseMapping.lower s.localPeerId ∨ packet.peerId ∈ s.previousPeerIds ∨
    (cfg.instanceId ≠ [] ∧ packet.instanceId ≠ [] ∧ packet.instanceId = cfg.instanceId) ∨
    (isLocalIp localIps senderIp ∧ packet.port = s.listeningPort)

/-- The records of a peer that are not at an address, with their keys. -/
def priorRecords (peerId address : Str) (s : LANDiscovery) : List (Str × RegisteredPeer) :=
  s.discoveredPeers.entries.filter fun e =>
    CaseMapping.lower e.2.peerId = CaseMapping.lower peerId ∧ e.1 ≠ address

/-- Register the peer of a beacon. A peer that moved keeps its record under its new address; one
that has two addresses keeps the first while it is fresh. -/
def register (cfg : DiscoverySettings) (now : Seconds) (senderIp : Str) (packet : DiscoveryPacket)
    (s : LANDiscovery) : Heard × LANDiscovery :=
  let address := endpoint senderIp packet.port
  let ssid := if CaseMapping.lower packet.ssid = "unavailable".toList then [] else packet.ssid
  let prior := s.priorRecords packet.peerId address
  let fresh : RegisteredPeer :=
    { ip := senderIp, peerId := packet.peerId, address, port := packet.port
      nickname := packet.nickname, ssid, instanceId := packet.instanceId, lastSeen := now }
  match prior with
  | (key, known) :: _ =>
    if known.ip = senderIp ∨ 2 * cfg.broadcastInterval < now - known.lastSeen then
      let s := { s with
        discoveredPeers := s.discoveredPeers.filter fun e => e.1 ∉ prior.map Prod.fst }
      s.announce cfg { fresh with instanceId := known.instanceId }
    else s.refresh cfg now key packet.nickname ssid known
  | [] =>
    match s.discoveredPeers.get? address with
    | none => s.announce cfg fresh
    | some existing =>
      if CaseMapping.lower existing.peerId = CaseMapping.lower packet.peerId then
        s.refresh cfg now address packet.nickname ssid existing
      else s.announce cfg fresh

variable [BeaconReader]

def processIncomingPacket (cfg : DiscoverySettings) (localIps : List Str) (arrived now : Seconds)
    (data : Bytes) (senderIp : Str) (s : LANDiscovery) : Heard × LANDiscovery :=
  let senderIp := senderHost senderIp
  let (limited, s) := s.isRateLimited arrived senderIp
  if limited then ({}, s)
  else
    match DiscoveryPacket.fromBytes data with
    | none => ({}, s)
    | some packet =>
      if s.isOwnBeacon cfg localIps senderIp packet then ({}, s)
      else if isLoopbackSender senderIp then ({}, s)
      else s.register cfg now senderIp packet

def perform (cfg : DiscoverySettings) (event : DiscoveryEvent) (s : LANDiscovery) : Heard × LANDiscovery :=
  match event with
  | .beacon localIps arrived now data senderIp =>
    s.processIncomingPacket cfg localIps arrived now data senderIp
  | .updateIdentity peerId => ({}, s.updateIdentity peerId)
  | .updateListeningPort port => ({}, { s with listeningPort := port })
  | .pruneStalePeers maxAge now => ({}, s.pruneStalePeers maxAge now)
  | .clear => ({}, s.clear)

/-- An event with what came of it. -/
structure Noted where
  event : DiscoveryEvent
  heard : Heard

def Step (cfg : DiscoverySettings) (s : LANDiscovery) (label : Noted) (t : LANDiscovery) : Prop :=
  s.perform cfg label.event = (label.heard, t)

end LANDiscovery
end Bitchat.Lan
