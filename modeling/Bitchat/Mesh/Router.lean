import Bitchat.Mesh.Deduplicator
import Bitchat.Mesh.StoreForward
import Mathlib.Data.List.MinMax

/-! The router of a node: what it does with an incoming packet under its rate limit,
the hop count, the duplicate filter and the routes it learns. -/
namespace Bitchat.Mesh
open Crypto Protocol Str

/-- A peer id or link address as a routing key. -/
def normalizeRouteKey [CaseMapping] (key : PeerName) : Str := normalizePeerId key

structure RouteEntry where
  nextHop : Str
  hopCount : Int
  updatedAt : Seconds
deriving DecidableEq

/-- A packet that is dropped carries a reason and nothing else. -/
structure RoutingDecision where
  shouldProcessLocally : Bool
  packetToRelay : Option BitchatPacket := none
  targetPeerIdHex : Option Str := none
  excludeIngress : Option Str := none
  dropReason : Option String := none
deriving DecidableEq

theorem thousand_pos : 0 < 1000 := by decide

/-- The parts of a router that no method assigns. -/
structure RouterSettings where
  localPeerId : Bytes
  maxRelayTtl : Int := 10
  rateLimitPerPeer : Int := 50
  maxRoutes : Nat := 1000
  maxRoutes_pos : 0 < maxRoutes := by exact thousand_pos
  routeTtlSeconds : Seconds := 300
  deduplicator : DeduplicatorLimits := .standard
  /-- How the rate limiter's differences of clock readings are rounded. -/
  clock : Clock := .exact

structure MeshRouter where
  deduplicator : PacketDeduplicator := {}
  storeForwardQueue : StoreAndForwardQueue := .new
  routes : InsertionMap Str RouteEntry := .empty
  rateLimiter : InsertionMap Str (List Seconds) := .empty
deriving DecidableEq

namespace MeshRouter

/-- Drop the peers whose newest packet is older than `maxAge`. -/
def pruneRateLimiter (settings : RouterSettings) (maxAge now : Seconds) (s : MeshRouter) : MeshRouter :=
  { s with rateLimiter := s.rateLimiter.filter fun e =>
      match e.2.max? with
      | none => false
      | some newest => settings.clock.since now newest ≤ maxAge }

/-- Whether the sender had its packets of the last second; if not, this one is counted. -/
def isRateLimited (settings : RouterSettings) (now : Seconds) (senderHex : Str) (s : MeshRouter) :
    Bool × MeshRouter :=
  let s := if 1000 < s.rateLimiter.size then s.pruneRateLimiter settings 1 now else s
  let remember (times : List Seconds) : MeshRouter :=
    { s with rateLimiter := s.rateLimiter.set senderHex times }
  match s.rateLimiter.get? senderHex with
  | none => (false, remember [now])
  | some timestamps =>
    let valid := timestamps.filter fun time => settings.clock.since now time ≤ 1
    if valid = [] then (false, remember [now])
    else if settings.rateLimitPerPeer ≤ valid.length then (true, remember valid)
    else (false, remember (valid ++ [now]))

def pruneRoutes (maxAge now : Seconds) (s : MeshRouter) : MeshRouter :=
  { s with routes := s.routes.filter fun e => now - e.2.updatedAt ≤ maxAge }

/-- A full table drops its oldest route when pruning does not help. It has one, as it has room for
at least one. -/
def makeRouteRoom (settings : RouterSettings) (now : Seconds) (s : MeshRouter) : MeshRouter :=
  if settings.maxRoutes ≤ s.routes.size then
    let s := s.pruneRoutes settings.routeTtlSeconds now
    if settings.maxRoutes ≤ s.routes.size then
      match s.routes.entries.argmin fun e => e.2.updatedAt with
      | none => s
      | some oldest => { s with routes := s.routes.erase oldest.1 }
    else s
  else s

variable [CaseMapping]

/-- A live route with fewer hops is kept. -/
def addRoute (settings : RouterSettings) (destination nextHop : PeerName) (hopCount : Int)
    (now : Seconds) (s : MeshRouter) : MeshRouter :=
  let destKey := normalizeRouteKey destination
  let s := s.makeRouteRoom settings now
  let route : RouteEntry := ⟨normalizeRouteKey nextHop, hopCount, now⟩
  match s.routes.get? destKey with
  | none => { s with routes := s.routes.set destKey route }
  | some existing =>
    if now - existing.updatedAt ≤ settings.routeTtlSeconds ∧ existing.hopCount < hopCount then s
    else { s with routes := s.routes.set destKey route }

/-- The next hop to a destination; a route found expired is deleted. -/
def getNextHop (settings : RouterSettings) (destination : PeerName) (now : Seconds)
    (s : MeshRouter) : Option Str × MeshRouter :=
  let destKey := normalizeRouteKey destination
  match s.routes.get? destKey with
  | none => (none, s)
  | some entry =>
    if settings.routeTtlSeconds < now - entry.updatedAt then
      (none, { s with routes := s.routes.erase destKey })
    else (some entry.nextHop, s)

/-- The hops a packet came, by its remaining hop count, when it began with seven. -/
def hopsSoFar (ttl : Nat) : Int := if ttl ≤ 7 then max 1 (7 - ttl + 1) else 1

/-- Learn that the sender is reached over the link the packet came from. -/
def learnRoute (settings : RouterSettings) (now : Seconds) (packet : BitchatPacket)
    (ingressSource : Option Str) (s : MeshRouter) : MeshRouter :=
  match ingressSource with
  | none => s
  | some source =>
    if source = [] then s
    else s.addRoute settings (.str (hex packet.senderId)) (.str source) (hopsSoFar packet.ttl) now

omit [CaseMapping] in
theorem relayedTtl_le (packet : BitchatPacket) (ceiling : Int) :
    (min (packet.ttl : Int) ceiling - 1).toNat ≤ 255 := by
  have := packet.ttl_le
  omega

end MeshRouter

def isBroadcast (packet : BitchatPacket) : Bool :=
  packet.recipientId = none ∨ packet.recipientId = some broadcastRecipient

def isForUs (settings : RouterSettings) (packet : BitchatPacket) : Bool :=
  isBroadcast packet ∨ packet.recipientId = some settings.localPeerId

/-- The copy to relay, unless this node is the only recipient or the hop count ran out. -/
def relayCopy (settings : RouterSettings) (packet : BitchatPacket) : Option BitchatPacket :=
  if 1 < packet.ttl ∧ ¬ (¬ isBroadcast packet ∧ isForUs settings packet) then
    let decrementedTtl := min (packet.ttl : Int) settings.maxRelayTtl - 1
    if 1 ≤ decrementedTtl then
      some { packet with
        ttl := decrementedTtl.toNat
        ttl_le := MeshRouter.relayedTtl_le packet settings.maxRelayTtl }
    else none
  else none

namespace MeshRouter
variable [CaseMapping] [Primitives]

/-- The decision on a packet that passed the checks. -/
def acceptIncoming (settings : RouterSettings) (now : Seconds) (packet : BitchatPacket)
    (ingressSource : Option Str) (s : MeshRouter) : RoutingDecision × MeshRouter :=
  let s := s.learnRoute settings now packet ingressSource
  let packetToRelay := relayCopy settings packet
  let deduplicator := match packetToRelay with
    | none => s.deduplicator
    | some copy => s.deduplicator.record settings.deduplicator now copy
  ({  shouldProcessLocally := isForUs settings packet
      packetToRelay
      targetPeerIdHex := if isForUs settings packet then none else packet.recipientId.map hex
      excludeIngress := ingressSource },
    { s with deduplicator })

def evaluateIncoming (settings : RouterSettings) (now : Seconds) (packet : BitchatPacket)
    (ingressSource : Option Str) (s : MeshRouter) : RoutingDecision × MeshRouter :=
  let drop (reason : String) : RoutingDecision :=
    { shouldProcessLocally := false, dropReason := some reason }
  if packet.senderId = settings.localPeerId then (drop "Packet originated from local peer", s)
  else
    let senderHex := hex packet.senderId
    let (limited, s) := s.isRateLimited settings now senderHex
    if limited then (drop s!"Rate limit exceeded for {String.ofList senderHex}", s)
    else if packet.ttl ≤ 0 then (drop "Invalid or expired TTL (<= 0)", s)
    else
      let (duplicate, deduplicator) :=
        s.deduplicator.checkAndRecord settings.deduplicator now packet
      let s := { s with deduplicator }
      if duplicate then (drop "Duplicate packet suppressed", s)
      else s.acceptIncoming settings now packet ingressSource

end MeshRouter
end Bitchat.Mesh
