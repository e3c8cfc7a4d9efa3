import Bitchat.Crypto.Laws
import Bitchat.Lan.Transport
import Bitchat.Mesh.Router

/-! How the coordinator carries packets for other nodes: it relays them to the next link, stores
them for a peer that has none, and sends the stored ones when the peer shows up. A handler runs in
stretches. What it still has to do after an await, and the packets it holds, are a background task. -/
namespace Bitchat.App
open Crypto Protocol Mesh Lan Str

/-- What the coordinator asks of the active transport. -/
class BaseTransport (τ : Type) where
  connectedPeers : τ → List Str
  /-- Addresses, with the peer ids that were discovered there. -/
  discoveredPeers : τ → List (Str × Str)
  /-- The address is that of a connection which a LAN listener accepted. -/
  isInboundConnection : Str → τ → Bool
  /-- The links a broadcast is written to, but for an excluded one. -/
  broadcastLinks : Option Str → τ → List Str

/-- How the transport carries out what a stretch asks of it: the links that take the packet, and
whether a broadcast raises. -/
structure Writes where
  takes : Str → Bool
  broadcastRaises : Bool := false

inductive RelayTask where
  /-- `_process_packet_async` of a packet for this node. -/
  | process (packet : BitchatPacket) (peerAddress : Option Str)
  | relay (packet : BitchatPacket) (target exclude : Option Str)
  /-- The relay of a broadcast packet, after its jitter. -/
  | broadcast (packet : BitchatPacket) (exclude : Option Str)
  /-- The relay of a packet to one link, which has not taken it yet. -/
  | relaySend (address : Str) (packet : BitchatPacket) (target : Str) (exclude : Option Str)
  /-- A stored packet for a peer that announced itself. -/
  | flush (peer : Str) (packet : BitchatPacket)
  /-- A stored packet for the peer of a link that connected. -/
  | flushTo (address : Str) (packet : BitchatPacket)
deriving DecidableEq

/-- The packet for one peer that a task holds. -/
def RelayTask.carried : RelayTask → Option BitchatPacket
  | .process .. | .relay _ none _ | .broadcast .. => none
  | .relay packet (some _) _ | .relaySend _ packet _ _ | .flush _ packet | .flushTo _ packet =>
    some packet

/-- How the handling of a packet ended. -/
inductive Fate where
  /-- Relayed to the links that took it. -/
  | handed (links : List Str)
  /-- Given to the store-and-forward queue. -/
  | stored (target : Str) (accepted : Bool)
  /-- Left undone, as the coordinator is not running. -/
  | abandoned
  /-- Taken out of the queue and sent, without an error or with one. -/
  | flushed (completed : Bool)
deriving DecidableEq

structure Ending where
  packet : BitchatPacket
  fate : Fate
deriving DecidableEq

/-- The parts of a coordinator that no method of it assigns. -/
structure MeshSettings where
  router : RouterSettings
  storeForward : Limits
  localPeerIdHex : Str

structure MeshCoordinator (τ : Type) where
  transport : τ
  isRunning : Bool := true
  router : MeshRouter := {}
  peerAddresses : InsertionMap Str Str := .empty
  addressToPeerId : InsertionMap Str Str := .empty
  backgroundTasks : List RelayTask := []

/-- A stretch of the coordinator, or something that happens to its transport. -/
inductive MeshEvent (τ : Type) where
  | incoming (now : Seconds) (packet : BitchatPacket) (peerAddress : Option Str)
  /-- A task begins or goes on. -/
  | run (task : Nat) (now : Seconds) (writes : Writes)
  /-- A packet of this device is sent to a peer or to everyone. -/
  | send (now : Seconds) (target : Option Str) (packet : BitchatPacket)
  | connected (now : Seconds) (address : Str)
  | disconnected (address : Str)
  | discovered (address peerId : Str)
  | prune (now : Seconds)
  | transport (next : τ)
  | running (running : Bool)
  | resetSessionState
  | stop

namespace MeshCoordinator
variable {τ : Type}

def spawn (task : RelayTask) (c : MeshCoordinator τ) : MeshCoordinator τ :=
  { c with backgroundTasks := c.backgroundTasks ++ [task] }

/-- Note where a peer is reached. An accepted connection is no address to send to. -/
def noteAddress [BaseTransport τ] (sender address : Str) (c : MeshCoordinator τ) : MeshCoordinator τ :=
  { c with
    addressToPeerId := c.addressToPeerId.set address sender
    peerAddresses := if BaseTransport.isInboundConnection address c.transport then c.peerAddresses
      else c.peerAddresses.set sender address }

def handlePeerDiscovered [BaseTransport τ] [CaseMapping] (cfg : MeshSettings) (address peerId : Str)
    (c : MeshCoordinator τ) : MeshCoordinator τ :=
  let peer := CaseMapping.lower peerId
  if peer = [] ∨ peer = CaseMapping.lower cfg.localPeerIdHex then c
  else
    let peerAddresses := match c.addressToPeerId.get? address with
      | none => c.peerAddresses
      | some owner =>
        if owner ≠ [] ∧ owner ≠ peer ∧ c.peerAddresses.get? owner = some address then
          c.peerAddresses.erase owner
        else c.peerAddresses
    let addressToPeerId := match peerAddresses.get? peer with
      | none => c.addressToPeerId
      | some previous =>
        if previous ≠ [] ∧ previous ≠ address ∧
            previous ∉ BaseTransport.connectedPeers c.transport ∧
            c.addressToPeerId.get? previous = some peer then
          c.addressToPeerId.erase previous
        else c.addressToPeerId
    { c with
      peerAddresses := peerAddresses.set peer address
      addressToPeerId := addressToPeerId.set address peer }

/-- The tables after a link is gone; a peer that is still discovered stays addressable. -/
def handlePeerDisconnected [BaseTransport τ] [CaseMapping] (address : Str) (c : MeshCoordinator τ) :
    MeshCoordinator τ :=
  let addressToPeerId := c.addressToPeerId.erase address
  match c.addressToPeerId.get? address with
  | none => c
  | some peer =>
    if peer = [] then { c with addressToPeerId }
    else
      let peerAddresses := if c.peerAddresses.get? peer = some address then c.peerAddresses.erase peer
        else c.peerAddresses
      let found := (BaseTransport.discoveredPeers c.transport).find? fun e =>
        e.2 ≠ [] ∧ CaseMapping.lower e.2 = CaseMapping.lower peer
      match found with
      | none => { c with peerAddresses, addressToPeerId }
      | some (discovered, _) =>
        { c with
          peerAddresses := if peerAddresses.contains peer then peerAddresses
            else peerAddresses.set peer discovered
          addressToPeerId := if addressToPeerId.contains discovered then addressToPeerId
            else addressToPeerId.set discovered peer }

def pruneCaches (cfg : MeshSettings) (now : Seconds) (c : MeshCoordinator τ) : MeshCoordinator τ :=
  let router := { c.router with
    deduplicator := c.router.deduplicator.pruneExpired cfg.router.deduplicator now
    storeForwardQueue := c.router.storeForwardQueue.pruneExpired cfg.storeForward now }
  { c with router := (router.pruneRoutes cfg.router.routeTtlSeconds now).pruneRateLimiter cfg.router 1 now }

section Flush
variable [CaseMapping]

/-- The stored packets of a peer leave the queue, and each of them gets a task. -/
def flushPending (cfg : MeshSettings) (now : Seconds) (peer : Str) (task : BitchatPacket → RelayTask)
    (c : MeshCoordinator τ) : MeshCoordinator τ :=
  if c.router.storeForwardQueue.hasPending (.str peer) then
    let (pending, queue) := c.router.storeForwardQueue.dequeueForPeer cfg.storeForward (.str peer) now
    { c with
      router.storeForwardQueue := queue
      backgroundTasks := c.backgroundTasks ++ pending.map task }
  else c

def handlePeerConnected (cfg : MeshSettings) (now : Seconds) (address : Str) (c : MeshCoordinator τ) :
    MeshCoordinator τ :=
  match c.addressToPeerId.get? address with
  | none => c
  | some peer => if peer = [] then c else c.flushPending cfg now peer (.flushTo address)

/-- Give a packet to the store-and-forward queue. -/
def store (cfg : MeshSettings) (fuel : Nat) (now : Seconds) (target : Str) (packet : BitchatPacket)
    (c : MeshCoordinator τ) : Option (List Ending × MeshCoordinator τ) :=
  match c.router.storeForwardQueue.enqueue cfg.storeForward fuel (.str target) packet now with
  | none => none
  | some (accepted, queue) =>
    some ([⟨packet, .stored target accepted⟩], { c with router.storeForwardQueue := queue })

end Flush

section Links
variable [BaseTransport τ] [CaseMapping]

/-- A connected link of a peer: where it is reached, another of its addresses, or its own name. -/
def resolveConnectedPeerAddress (target : Str) (c : MeshCoordinator τ) : Option Str :=
  let connected := BaseTransport.connectedPeers c.transport
  let reached := (c.peerAddresses.get? target).filter fun address => address ≠ [] ∧ address ∈ connected
  let other := c.addressToPeerId.entries.find? fun e =>
    CaseMapping.lower e.2 = CaseMapping.lower target ∧ e.1 ∈ connected
  reached.or <| (other.map Prod.fst).or <| if target ∈ connected then some target else none

/-- The link to send a packet for a peer over: its own, otherwise that of the next hop. Looking
up an expired route deletes it. -/
def linkTowards (cfg : MeshSettings) (now : Seconds) (target : Str) (c : MeshCoordinator τ) :
    Option Str × MeshCoordinator τ :=
  match (c.resolveConnectedPeerAddress target).filter (· ≠ []) with
  | some address => (some address, c)
  | none =>
    let (nextHop, router) := c.router.getNextHop cfg.router (.str target) now
    let c := { c with router }
    match nextHop.filter (· ≠ []) with
    | none => (none, c)
    | some hop => ((c.resolveConnectedPeerAddress hop).filter (· ≠ []), c)

/-- Learn from a packet where its sender is. -/
def learnPeer (cfg : MeshSettings) (now : Seconds) (packet : BitchatPacket) (peerAddress : Option Str)
    (c : MeshCoordinator τ) : MeshCoordinator τ :=
  match peerAddress with
  | none => c
  | some address =>
    if address = [] then c
    else
      let sender := hex packet.senderId
      let c := if sender = address ∨ 7 ≤ packet.ttl then c.noteAddress sender address else c
      let nextHop := (c.addressToPeerId.get? address).getD address
      let hopCount := MeshRouter.hopsSoFar packet.ttl
      { c with router := c.router.addRoute cfg.router (.str sender) (.str nextHop) hopCount now }

/-- What processing a packet for this node does here. -/
def processPacket (cfg : MeshSettings) (now : Seconds) (packet : BitchatPacket)
    (peerAddress : Option Str) (c : MeshCoordinator τ) : MeshCoordinator τ :=
  let sender := hex packet.senderId
  if CaseMapping.lower sender = CaseMapping.lower cfg.localPeerIdHex then c
  else
    let c := c.learnPeer cfg now packet peerAddress
    match packet.messageType with
    | .announce => c.flushPending cfg now sender (.flush sender)
    | _ => c

variable [Primitives]

def record (cfg : MeshSettings) (now : Seconds) (packet : BitchatPacket) (c : MeshCoordinator τ) :
    MeshCoordinator τ :=
  { c with router.deduplicator := c.router.deduplicator.record cfg.router.deduplicator now packet }

/-- The links that take a broadcast. -/
def broadcastTo (writes : Writes) (exclude : Option Str) (c : MeshCoordinator τ) : List Str :=
  (BaseTransport.broadcastLinks exclude c.transport).filter writes.takes

/-- `_send_packet`: whether the send completed without an error. -/
def sendPacket (cfg : MeshSettings) (now : Seconds) (writes : Writes) (target : Str)
    (packet : BitchatPacket) (c : MeshCoordinator τ) : Bool × MeshCoordinator τ :=
  let (link, c) := (c.record cfg now packet).linkTowards cfg now target
  match link with
  | some address => (writes.takes address, c)
  | none => (!writes.broadcastRaises, c)

/-- The relay of a packet that no link towards its target took. -/
def relayOnward (cfg : MeshSettings) (fuel : Nat) (now : Seconds) (writes : Writes)
    (packet : BitchatPacket) (target : Str) (exclude : Option Str) (c : MeshCoordinator τ) :
    Option (List Ending × MeshCoordinator τ) :=
  if c.peerAddresses.contains target then c.store cfg fuel now target packet
  else some ([⟨packet, .handed (c.broadcastTo writes exclude)⟩], c.record cfg now packet)

/-- The relay of a packet for one peer, up to where it waits for a link. -/
def relayTowards (cfg : MeshSettings) (fuel : Nat) (now : Seconds) (writes : Writes)
    (packet : BitchatPacket) (target : Str) (exclude : Option Str) (c : MeshCoordinator τ) :
    Option (List Ending × MeshCoordinator τ) :=
  let (link, c) := c.linkTowards cfg now target
  match link.filter fun address => some address ≠ exclude with
  | some address => some ([], c.spawn (.relaySend address packet target exclude))
  | none => c.relayOnward cfg fuel now writes packet target exclude

/-- `_relay_packet_async`. -/
def relayPacket (cfg : MeshSettings) (fuel : Nat) (now : Seconds) (writes : Writes)
    (packet : BitchatPacket) (target exclude : Option Str) (c : MeshCoordinator τ) :
    Option (List Ending × MeshCoordinator τ) :=
  match target with
  | none => some ([], if c.isRunning then c.spawn (.broadcast packet exclude) else c)
  | some target =>
    if c.isRunning then c.relayTowards cfg fuel now writes packet target exclude
    else some ([⟨packet, .abandoned⟩], c)

/-- A stretch of a task that has been taken from the list. -/
def runTask (cfg : MeshSettings) (fuel : Nat) (now : Seconds) (writes : Writes) (task : RelayTask)
    (c : MeshCoordinator τ) : Option (List Ending × MeshCoordinator τ) :=
  match task with
  | .process packet peerAddress => some ([], c.processPacket cfg now packet peerAddress)
  | .relay packet target exclude => c.relayPacket cfg fuel now writes packet target exclude
  | .broadcast packet _ => some ([], if c.isRunning then c.record cfg now packet else c)
  | .relaySend address packet target exclude =>
    if writes.takes address then some ([⟨packet, .handed [address]⟩], c)
    else c.relayOnward cfg fuel now writes packet target exclude
  | .flush peer packet =>
    let (completed, c) := c.sendPacket cfg now writes peer packet
    some ([⟨packet, .flushed completed⟩], c)
  | .flushTo address packet => some ([⟨packet, .flushed (writes.takes address)⟩], c)

/-- A packet from a link: processing and relaying it are tasks, storing it is done at once. -/
def handleIncomingPacket (cfg : MeshSettings) (fuel : Nat) (now : Seconds) (packet : BitchatPacket)
    (peerAddress : Option Str) (c : MeshCoordinator τ) : Option (List Ending × MeshCoordinator τ) :=
  let (decision, router) := c.router.evaluateIncoming cfg.router now packet peerAddress
  let c := { c with router }
  let c := if decision.shouldProcessLocally then c.spawn (.process packet peerAddress) else c
  match decision.packetToRelay, decision.targetPeerIdHex with
  | some copy, target => some ([], c.spawn (.relay copy target decision.excludeIngress))
  | none, some target =>
    if decision.shouldProcessLocally then some ([], c) else c.store cfg fuel now target packet
  | none, none => some ([], c)

/-- Cancel the tasks and close the coordinator. -/
def stop (c : MeshCoordinator τ) : List Ending × MeshCoordinator τ :=
  ((c.backgroundTasks.filterMap RelayTask.carried).map (⟨·, .abandoned⟩),
    { c with isRunning := false, backgroundTasks := [] })

/-- The packets whose handling ends with an event, and the state after it. There is no result
when a call of `enqueue` takes more fuel. -/
def perform (cfg : MeshSettings) (fuel : Nat) (event : MeshEvent τ) (c : MeshCoordinator τ) :
    Option (List Ending × MeshCoordinator τ) :=
  match event with
  | .incoming now packet peerAddress => c.handleIncomingPacket cfg fuel now packet peerAddress
  | .run i now writes =>
    match c.backgroundTasks[i]? with
    | none => some ([], c)
    | some task =>
      { c with backgroundTasks := c.backgroundTasks.eraseIdx i }.runTask cfg fuel now writes task
  | .send now target packet =>
    let c := c.record cfg now packet
    some ([], match target with
      | none => c
      | some peer => (c.linkTowards cfg now peer).2)
  | .connected now address => some ([], c.handlePeerConnected cfg now address)
  | .disconnected address => some ([], c.handlePeerDisconnected address)
  | .discovered address peerId => some ([], c.handlePeerDiscovered cfg address peerId)
  | .prune now => some ([], c.pruneCaches cfg now)
  | .transport next => some ([], { c with transport := next })
  | .running running => some ([], { c with isRunning := running })
  | .resetSessionState => some ([], { c with peerAddresses := .empty, addressToPeerId := .empty })
  | .stop => some c.stop

/-- An event with the packets whose handling it ended. -/
structure Performed (τ : Type) where
  event : MeshEvent τ
  ended : List Ending

/-- An event that came to its end. -/
def Step (cfg : MeshSettings) (c : MeshCoordinator τ) (label : Performed τ) (d : MeshCoordinator τ) :
    Prop :=
  ∃ fuel, c.perform cfg fuel label.event = some (label.ended, d)

end Links
end MeshCoordinator
end Bitchat.App

namespace Bitchat.Lan.LANTransport
open Str

/-- Addresses of the ready connections, each connection once. -/
def connectedPeers (s : LANTransport) : List Str :=
  (s.connections.entries.foldl (fun (seen : List Ref × List Str) e =>
    if s.isReady e.2 ∧ e.2 ∉ seen.1 then (seen.1 ++ [e.2], seen.2 ++ [e.1]) else seen) ([], [])).2

variable [CaseMapping]

/-- The peer a connection is deduplicated under when a packet is broadcast. -/
def broadcastKey (address : Str) (r : Ref) (s : LANTransport) : Str :=
  match (s.addressToPeerKey.get? address).filter (· ≠ []) with
  | some peerKey => peerKey
  | none => s.getPeerKey (s.heap r).peerAddress

/-- One ready connection of each peer, but for an excluded one. -/
def broadcastLinks (exclude : Option Str) (s : LANTransport) : List Str :=
  (s.connections.entries.foldl (fun (sent : List Ref × List Str × List Str) e =>
    if ¬ s.isReady e.2 ∨ e.2 ∈ sent.1 ∨ some e.1 = exclude ∨ some (s.heap e.2).peerAddress = exclude ∨
        s.broadcastKey e.1 e.2 ∈ sent.2.1 then sent
    else (sent.1 ++ [e.2], sent.2.1 ++ [s.broadcastKey e.1 e.2], sent.2.2 ++ [e.1])) ([], [], [])).2.2

instance : App.BaseTransport LANTransport where
  connectedPeers := connectedPeers
  discoveredPeers s := s.discoveredPeers.entries.map fun e => (e.1, e.2.peerId)
  isInboundConnection address s :=
    match s.connections.get? address with
    | none => false
    | some r => (s.heap r).isInbound
  broadcastLinks := broadcastLinks

end Bitchat.Lan.LANTransport

namespace Bitchat.App.MeshCoordinator
open Crypto Protocol Mesh Lan Str Modular
attribute [local instance] Modular.primitives asciiCase

def courierSettings : MeshSettings where
  router := { localPeerId := List.replicate 8 5 }
  storeForward := .standard
  localPeerIdHex := hex (List.replicate 8 5)

def neighbour : Str := "192.168.1.20:50001".toList

/-- The coordinator of the node with one accepted connection. -/
def courier : MeshCoordinator LANTransport where
  transport := lanNode.handleClient neighbour

/-- What comes of an event. -/
def after (event : MeshEvent LANTransport) (c : MeshCoordinator LANTransport) :
    List Ending × MeshCoordinator LANTransport :=
  (c.perform courierSettings 9 event).getD ([], c)

theorem step_after (event : MeshEvent LANTransport) {c : MeshCoordinator LANTransport}
    (ends' : (c.perform courierSettings 9 event).isSome = true) :
    Step courierSettings c ⟨event, (after event c).1⟩ (after event c).2 := by
  obtain ⟨result, found⟩ := Option.isSome_iff_exists.mp ends'
  refine ⟨9, ?_⟩
  simp only [after, found, Option.getD_some]

end Bitchat.App.MeshCoordinator
