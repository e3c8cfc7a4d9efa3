import Bitchat.Data.InsertionMap
import Bitchat.Data.PythonValue
import Bitchat.Protocol.Packet
import Mathlib.Logic.Function.Basic

/-! The LAN transport of a node: its TCP connections, dialed and accepted, and the tables
that say which peer a connection leads to. -/
namespace Bitchat.Lan
open Protocol Str

/-- A connection object by its place in the heap. -/
abbrev Ref := Nat

structure LANConnection where
  peerAddress : Str
  isInbound : Bool := false
  isConnected : Bool := false
  ready : Bool := false
  peerId : Option Str := none
  /-- The transport's callbacks are set. -/
  wired : Bool := false
deriving DecidableEq

def LANConnection.isReady (c : LANConnection) : Bool := c.ready && c.isConnected

inductive TransportState where
  | offline
  | checking
  | ready
  | scanning
  | peerFound
  | connecting
  | connected
  | error
  | unavailable
  | disabled
deriving DecidableEq

structure LANDiscoveredPeer where
  ip : Str
  peerId : Str
deriving DecidableEq

structure LANServer where
  boundPort : Nat
  maxConnections : Int := 32
  connections : InsertionMap Str Ref := .empty
deriving DecidableEq

/-- `closing` are the close tasks that have not begun, and `departing` the closed connections
whose `on_disconnected` has not been called. -/
structure LANTransport where
  localPeerId : Str
  maxConnections : Int := 32
  server : LANServer
  localIp : Str
  localIps : List Str
  discoveryRunning : Bool := true
  discoveredPeers : InsertionMap Str LANDiscoveredPeer := .empty
  connections : InsertionMap Str Ref := .empty
  peerConnections : InsertionMap Str Ref := .empty
  addressToPeerKey : InsertionMap Str Str := .empty
  state : TransportState := .scanning
  heap : Ref → LANConnection := fun _ => ⟨[], false, false, false, none, false⟩
  nextRef : Ref := 0
  closing : List Ref := []
  departing : List Ref := []

/-- Address of a host and a port. -/
def endpoint (ip : Str) (port : Nat) : Str := ip ++ ':' :: Nat.toDigits 10 port

/-- The part of an address before its first colon. -/
def hostOf (address : Str) : Str := address.takeWhile (· ≠ ':')

def isLoopback (ip : Str) : Bool := "127.".toList.isPrefixOf ip

/-- How `connect_peer` goes on: with a connection in use, or by dialing a new one. -/
inductive Connect where
  | existing (r : Ref)
  | dial (r : Ref)
deriving DecidableEq

namespace LANTransport

def isReady (r : Ref) (s : LANTransport) : Bool := (s.heap r).isReady

def removeConnectionReferences (r : Ref) (s : LANTransport) : LANTransport :=
  { s with
    connections := s.connections.filter fun e => e.2 ≠ r
    addressToPeerKey := s.addressToPeerKey.filter fun e => s.connections.get? e.1 ≠ some r
    peerConnections := s.peerConnections.filter fun e => e.2 ≠ r }

@[simp] theorem removeConnectionReferences_connections {s : LANTransport} {r a : Ref} {k : Str} :
    (s.removeConnectionReferences r).connections.get? k = some a ↔
      s.connections.get? k = some a ∧ a ≠ r := by
  simp [removeConnectionReferences, InsertionMap.get?_filter]

@[simp] theorem removeConnectionReferences_peerConnections {s : LANTransport} {r a : Ref} {k : Str} :
    (s.removeConnectionReferences r).peerConnections.get? k = some a ↔
      s.peerConnections.get? k = some a ∧ a ≠ r := by
  simp [removeConnectionReferences, InsertionMap.get?_filter]

def spawnClose (r : Ref) (s : LANTransport) : LANTransport := { s with closing := s.closing ++ [r] }

@[simp] theorem spawnClose_connections {s : LANTransport} {r : Ref} :
    (s.spawnClose r).connections = s.connections := rfl

@[simp] theorem spawnClose_peerConnections {s : LANTransport} {r : Ref} :
    (s.spawnClose r).peerConnections = s.peerConnections := rfl

def alter (r : Ref) (f : LANConnection → LANConnection) (s : LANTransport) : LANTransport :=
  { s with heap := Function.update s.heap r (f (s.heap r)) }

/-- Enter a connection in the tables. -/
def enter (address peerKey : Str) (r : Ref) (s : LANTransport) : LANTransport :=
  { s with
    connections := s.connections.set address r
    peerConnections := s.peerConnections.set peerKey r
    addressToPeerKey := s.addressToPeerKey.set address peerKey }

/-- A new connection object to an address. -/
def dial (address peerKey : Str) (s : LANTransport) : LANTransport :=
  { s with
    heap := Function.update s.heap s.nextRef { peerAddress := address, wired := true }
    nextRef := s.nextRef + 1 }.enter address peerKey s.nextRef

/-- The state without a connection in use. -/
def idleState (s : LANTransport) : TransportState := if s.discoveryRunning then .scanning else .ready

/-- Remove the connection at an address from the tables. -/
def forgetAddress (address : Str) (s : LANTransport) : LANTransport :=
  match s.connections.get? address with
  | some r => s.removeConnectionReferences r
  | none => { s with addressToPeerKey := s.addressToPeerKey.erase address }

def handlePeerDisconnected (address : Str) (s : LANTransport) : LANTransport :=
  let s := s.forgetAddress address
  if s.connections.values.any fun r => s.isReady r then s else { s with state := s.idleState }

/-- `close` up to its wait for the socket. -/
def beginClose (r : Ref) (s : LANTransport) : LANTransport :=
  if (s.heap r).isConnected then
    { s.alter r ({ · with isConnected := false, ready := false }) with departing := s.departing ++ [r] }
  else s

/-- A close task begins. -/
def runClose (r : Ref) (s : LANTransport) : LANTransport :=
  { s with closing := s.closing.erase r }.beginClose r

/-- The server's callback for a closed connection. -/
def depart (r : Ref) (s : LANTransport) : LANTransport :=
  let s := { s with departing := s.departing.filter (· ≠ r) }
  if (s.heap r).isInbound then
    { s with server.connections := s.server.connections.erase (s.heap r).peerAddress }
  else s

/-- The rest of `close`: the callbacks of the server and, when they are set, the transport's. -/
def finishClose (r : Ref) (s : LANTransport) : LANTransport :=
  let s := s.depart r
  if (s.heap r).wired then s.handlePeerDisconnected (s.heap r).peerAddress else s

/-- What `disconnect_peer` does when its close is over. -/
def settle (s : LANTransport) : LANTransport :=
  if s.connections.values.any fun r => s.isReady r then s else { s with state := s.idleState }

/-- `disconnect_peer`, up to the wait for the socket. -/
def disconnectPeer (address : Str) (s : LANTransport) : LANTransport :=
  match s.connections.get? address with
  | none => s.settle
  | some r =>
    let s := s.removeConnectionReferences r
    if (s.heap r).isConnected then s.beginClose r else s.settle

/-- The dialed connection is established. -/
def connected (r : Ref) (s : LANTransport) : LANTransport :=
  { s.alter r ({ · with isConnected := true, ready := true }) with state := .connected }

/-- The dialed connection failed. -/
def connectFailed (r : Ref) (s : LANTransport) : LANTransport :=
  let s := s.removeConnectionReferences r
  { s with state := s.idleState }

def localEndpoint (s : LANTransport) : Str :=
  endpoint (if s.localIp = [] then "0.0.0.0".toList else s.localIp) s.server.boundPort

/-- The port an address names; without one the own port stands for it. -/
def targetPort [Python.DigitTable] (address : Str) (s : LANTransport) : Option Int :=
  if ':' ∈ address then Python.readInt (address.drop ((hostOf address).length + 1))
  else some s.server.boundPort

/-- Peer id of a key that has one, otherwise the address. -/
def getRemoteId (peerKey address : Str) : Str :=
  if "peer:".toList.isPrefixOf peerKey then peerKey.drop 5 else address

variable [CaseMapping]

/-- The key of a known peer id. -/
def peerKeyOf (peerId : Str) : Str := "peer:".toList ++ CaseMapping.lower peerId

/-- The key an address is deduplicated under: the peer id discovered at the address or its
host if there is one, otherwise the host, or a loopback address as a whole. -/
def getPeerKey (address : Str) (s : LANTransport) : Str :=
  let byHost :=
    let ip := hostOf address
    if isLoopback ip then "addr:".toList ++ address
    else
      match s.discoveredPeers.values.find? fun peer => peer.ip = ip ∧ peer.peerId ≠ [] with
      | some peer => peerKeyOf peer.peerId
      | none => "ip:".toList ++ ip
  match s.discoveredPeers.get? address with
  | some peer => if peer.peerId ≠ [] then peerKeyOf peer.peerId else byHost
  | none => byHost

/-- Whether the connection that this node dialed stays: the lower id keeps its own. -/
def shouldKeepOutbound (remoteId remoteAddr : Str) (s : LANTransport) : Bool :=
  let localId := CaseMapping.lower s.localPeerId
  if localId ≠ [] ∧ remoteId ≠ [] ∧ localId ≠ remoteId then localId < CaseMapping.lower remoteId
  else s.localEndpoint < remoteAddr

/-- A ready connection to the peer at the address: by the address, by its key, or by its host. -/
def findExistingConnection (address : Str) (s : LANTransport) : Option Ref :=
  let ready (found : Option Ref) : Option Ref := found.filter fun r => s.isReady r
  let ip := hostOf address
  (ready (s.connections.get? address)).or <|
    (ready (s.peerConnections.get? (s.getPeerKey address))).or <|
      if isLoopback ip then none
      else s.connections.values.find? fun r => s.isReady r ∧ hostOf (s.heap r).peerAddress = ip

/-- Set the callbacks of an accepted connection and enter it in the tables. -/
def register (r : Ref) (peerKey : Str) (s : LANTransport) : LANTransport :=
  let address := (s.heap r).peerAddress
  { s.alter r ({ · with wired := true }) with
    connections := s.connections.set address r
    peerConnections := s.peerConnections.set peerKey r
    addressToPeerKey := s.addressToPeerKey.set address peerKey
    state := .connected }

/-- A connection the server accepted, against one that already leads to its peer. -/
def handleInboundConnection (r : Ref) (s : LANTransport) : LANTransport :=
  let address := (s.heap r).peerAddress
  if s.maxConnections ≤ s.connections.size then s.spawnClose r
  else
    let peerKey := s.getPeerKey address
    match s.findExistingConnection address with
    | none => s.register r peerKey
    | some existing =>
      if existing = r then s.register r peerKey
      else if (s.heap existing).isInbound then s.spawnClose r
      else if s.shouldKeepOutbound (getRemoteId peerKey address) address then s.spawnClose r
      else ((s.spawnClose existing).removeConnectionReferences existing).register r peerKey

/-- The server's part for a client socket: a full server closes it, otherwise it is handled. -/
def handleClient (address : Str) (s : LANTransport) : LANTransport :=
  if s.server.maxConnections ≤ s.server.connections.size then s
  else
    let r := s.nextRef
    let connection : LANConnection :=
      { peerAddress := address, isInbound := true, isConnected := true, ready := true }
    ({ s with
      server.connections := s.server.connections.set address r
      heap := Function.update s.heap r connection
      nextRef := r + 1 }).handleInboundConnection r

/-- Of two ready connections with one originator's packets, the one to close. -/
def duplicate (senderIdHex : Str) (existing conn : Ref) (address : Str) (s : LANTransport) : Ref :=
  if s.shouldKeepOutbound senderIdHex address then
    if (s.heap existing).isInbound then existing else conn
  else
    if (s.heap existing).isInbound then conn else existing

/-- The originator's packets come over a ready connection: one of two such connections is closed. -/
def deduplicate (senderIdHex : Str) (conn : Ref) (address : Str) (s : LANTransport) : LANTransport :=
  let peerKey := peerKeyOf senderIdHex
  if ¬ s.isReady conn then s
  else
    match (s.peerConnections.get? peerKey).filter fun existing => existing ≠ conn ∧ s.isReady existing with
    | none => { s with peerConnections := s.peerConnections.set peerKey conn }
    | some existing =>
      let toDrop := s.duplicate senderIdHex existing conn address
      let toKeep := if toDrop = existing then conn else existing
      let s := (s.spawnClose toDrop).removeConnectionReferences toDrop
      { s with peerConnections := s.peerConnections.set peerKey toKeep }

/-- A packet from the connection at an address. Its originator is taken for the peer there. -/
def handlePacketReceived (packet : BitchatPacket) (address : Str) (s : LANTransport) : LANTransport :=
  let senderIdHex := hex packet.senderId
  let note (s : LANTransport) : LANTransport :=
    { s with addressToPeerKey := s.addressToPeerKey.set address (peerKeyOf senderIdHex) }
  match s.connections.get? address with
  | none => note s
  | some conn =>
    (note (s.alter conn ({ · with peerId := some senderIdHex }))).deduplicate senderIdHex conn address

/-- Dispatch of a packet by the read loop of a connection. -/
def readPacket (r : Ref) (packet : BitchatPacket) (s : LANTransport) : LANTransport :=
  if (s.heap r).isConnected ∧ (s.heap r).wired then s.handlePacketReceived packet (s.heap r).peerAddress
  else s

def isLocalIp (ip : Str) (s : LANTransport) : Bool :=
  let clean := CaseMapping.lower (strip ip)
  clean = [] ∨ isLoopback clean ∨ clean ∈ ["localhost".toList, "::1".toList, "0.0.0.0".toList] ∨
    clean ∈ s.localIps

/-- `connect_peer` up to the wait for the socket. -/
def connectPeer [Python.DigitTable] (address : Str) (s : LANTransport) : Except String Connect × LANTransport :=
  match s.targetPort address with
  | none =>
    let text := address.drop ((hostOf address).length + 1)
    (.error s!"invalid literal for int() with base 10: '{String.ofList text}'", s)
  | some port =>
    if s.server.boundPort ≠ 0 ∧ port = s.server.boundPort ∧ s.isLocalIp (strip (hostOf address)) then
      (.error s!"Cannot connect to local listening endpoint: {String.ofList address}", s)
    else if s.state ∈ [.unavailable, .disabled, .offline, .error] then
      (.error "Connection failed: transport unavailable", s)
    else
      let s := { s with state := .connecting }
      let peerKey := s.getPeerKey address
      match s.findExistingConnection address with
      | some existing =>
        (.ok (.existing existing), { s.enter address peerKey existing with state := .connected })
      | none =>
        if s.maxConnections ≤ s.connections.size then
          (.error "Maximum LAN connection limit reached",
            { s with state := if s.connections.size = 0 then .ready else .connected })
        else (.ok (.dial s.nextRef), s.dial address peerKey)

end LANTransport

/-- A node on a LAN. -/
def lanNode : LANTransport where
  localPeerId := hex (List.replicate 8 5)
  server := { boundPort := 41235 }
  localIp := "192.168.1.10".toList
  localIps := ["192.168.1.10".toList]

end Bitchat.Lan
