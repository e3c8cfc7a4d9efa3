import Bitchat.Data.Run
import Bitchat.Lan.Transport

/-! The three connection tables of a LAN transport. They come apart when a connection is reused
under one more address than the limit allows, when an address is taken from a connection that
is still registered for a peer, and when a packet comes in over a connection without an address. -/
namespace Bitchat.Lan
open Protocol Str

inductive TransportEvent where
  | connectPeer (address : Str)
  | connected (r : Ref)
  | connectFailed (r : Ref)
  /-- A client connects to the server. -/
  | accept (address : Str)
  | packet (r : Ref) (packet : BitchatPacket)
  /-- The read loop of a connection ends, or a send over it fails. -/
  | lost (r : Ref)
  | runClose (r : Ref)
  | finishClose (r : Ref)
  | disconnectPeer (address : Str)
  | settle
  | discovered (peers : InsertionMap Str LANDiscoveredPeer)

namespace LANTransport

structure Consistent (s : LANTransport) : Prop where
  bounded : (s.connections.size : Int) ≤ s.maxConnections
  listed : ∀ k r, s.peerConnections.get? k = some r → ∃ a, s.connections.get? a = some r
  keyed : ∀ a, s.addressToPeerKey.contains a → s.connections.contains a

/-- Entering a connection takes the only address of another one that is registered under another
key. -/
def Displaces (address peerKey : Str) (r : Ref) (s : LANTransport) : Prop :=
  ∃ lost, s.connections.get? address = some lost ∧ lost ≠ r ∧
    (∀ a, s.connections.get? a = some lost → a = address) ∧
    ∃ k, k ≠ peerKey ∧ s.peerConnections.get? k = some lost

/-- The connection table has a place for an address. -/
def HasRoom (address : Str) (s : LANTransport) : Prop :=
  s.connections.contains address ∨ (s.connections.size : Int) < s.maxConnections

section Tables
variable {s t : LANTransport} {r : Ref} {address peerKey : Str}

theorem Consistent.congr (consistent : s.Consistent) (connections : t.connections = s.connections)
    (peers : t.peerConnections = s.peerConnections) (keys : t.addressToPeerKey = s.addressToPeerKey)
    (limit : t.maxConnections = s.maxConnections) : t.Consistent := by
  obtain ⟨bounded, listed, keyed⟩ := consistent
  rw [← connections] at bounded listed keyed
  exact ⟨limit ▸ bounded, peers ▸ listed, keys ▸ keyed⟩

theorem Consistent.spawnClose (consistent : s.Consistent) (r : Ref) : (s.spawnClose r).Consistent :=
  consistent.congr rfl rfl rfl rfl

theorem Consistent.remove (consistent : s.Consistent) (r : Ref) :
    (s.removeConnectionReferences r).Consistent := by
  refine ⟨?_, fun k q found => ?_, fun a found => ?_⟩
  · have fewer : (s.removeConnectionReferences r).connections.size ≤ s.connections.size :=
      List.length_filter_le _ _
    exact (Int.ofNat_le.mpr fewer).trans consistent.bounded
  · rw [removeConnectionReferences_peerConnections] at found
    obtain ⟨a, entry⟩ := consistent.listed k q found.1
    exact ⟨a, removeConnectionReferences_connections.mpr ⟨entry, found.2⟩⟩
  · obtain ⟨key, found⟩ := InsertionMap.contains_iff.mp found
    simp only [removeConnectionReferences, InsertionMap.get?_filter, Option.filter_eq_some_iff,
      decide_eq_true_eq] at found
    obtain ⟨q, entry⟩ := InsertionMap.contains_iff.mp
      (consistent.keyed a (InsertionMap.contains_iff.mpr ⟨key, found.1⟩))
    refine InsertionMap.contains_iff.mpr ⟨q, removeConnectionReferences_connections.mpr ⟨entry, ?_⟩⟩
    rintro rfl
    exact found.2 entry

end Tables

section Conditions
variable [CaseMapping] [Python.DigitTable]

/-- The server has made the connection of a client. -/
def accepted (address : Str) (s : LANTransport) : LANTransport :=
  { s with
    server.connections := s.server.connections.set address s.nextRef
    heap := Function.update s.heap s.nextRef
      { peerAddress := address, isInbound := true, isConnected := true, ready := true }
    nextRef := s.nextRef + 1 }

/-- An accepted connection that is entered displaces no other. -/
def Admissible (r : Ref) (s : LANTransport) : Prop :=
  let address := (s.heap r).peerAddress
  let peerKey := s.getPeerKey address
  (s.connections.size : Int) < s.maxConnections →
    match s.findExistingConnection address with
    | none => ¬ s.Displaces address peerKey r
    | some existing =>
      if existing = r then ¬ s.Displaces address peerKey r
      else (s.heap existing).isInbound = false →
        s.shouldKeepOutbound (getRemoteId peerKey address) address = false →
        ¬ (s.removeConnectionReferences existing).Displaces address peerKey r

/-- A connection that `connect_peer` enters has room and displaces no other. -/
def Connectable (address : Str) (s : LANTransport) : Prop :=
  let peerKey := s.getPeerKey address
  ∀ port, s.targetPort address = some port →
    ¬ (s.server.boundPort ≠ 0 ∧ port = s.server.boundPort ∧ s.isLocalIp (strip (hostOf address))) →
    s.state ∉ [.unavailable, .disabled, .offline, .error] →
    match s.findExistingConnection address with
    | some existing => s.HasRoom address ∧ ¬ s.Displaces address peerKey existing
    | none => (s.connections.size : Int) < s.maxConnections → ¬ s.Displaces address peerKey s.nextRef

/-- The events that keep the tables consistent. -/
def Orderly (s : LANTransport) : TransportEvent → Prop
  | .connectPeer address => s.Connectable address
  | .accept address =>
    (s.server.connections.size : Int) < s.server.maxConnections →
      (s.accepted address).Admissible s.nextRef
  | .packet r _ => (s.heap r).isConnected = true → (s.heap r).wired = true →
      s.connections.contains (s.heap r).peerAddress
  | _ => True

def perform (s : LANTransport) : TransportEvent → LANTransport
  | .connectPeer address => (s.connectPeer address).2
  | .connected r => s.connected r
  | .connectFailed r => s.connectFailed r
  | .accept address => s.handleClient address
  | .packet r packet => s.readPacket r packet
  | .lost r => s.beginClose r
  | .runClose r => s.runClose r
  | .finishClose r => s.finishClose r
  | .disconnectPeer address => s.disconnectPeer address
  | .settle => s.settle
  | .discovered peers => { s with discoveredPeers := peers }

/-- A close task runs when it was spawned, and ends when it has begun. -/
def Enabled (s : LANTransport) : TransportEvent → Prop
  | .runClose r => r ∈ s.closing
  | .finishClose r => r ∈ s.departing
  | _ => True

def Step (s : LANTransport) (event : TransportEvent) (t : LANTransport) : Prop :=
  s.Enabled event ∧ t = s.perform event

end Conditions

section Steps
variable [CaseMapping] {s t : LANTransport} {r : Ref} {address : Str}

variable [Python.DigitTable]

omit [CaseMapping] [Python.DigitTable] in
theorem Consistent.beginClose (consistent : s.Consistent) (r : Ref) : (s.beginClose r).Consistent := by
  unfold LANTransport.beginClose
  split
  · exact consistent.congr rfl rfl rfl rfl
  · exact consistent

omit [CaseMapping] [Python.DigitTable] in
theorem Consistent.settle (consistent : s.Consistent) : s.settle.Consistent := by
  unfold LANTransport.settle
  split
  · exact consistent
  · exact consistent.congr rfl rfl rfl rfl

omit [CaseMapping] [Python.DigitTable] in
theorem Consistent.handlePeerDisconnected (consistent : s.Consistent) (address : Str) :
    (s.handlePeerDisconnected address).Consistent := by
  have forgotten : (s.forgetAddress address).Consistent := by
    unfold forgetAddress
    split
    · exact consistent.remove _
    · refine ⟨consistent.bounded, consistent.listed, fun a found => ?_⟩
      obtain ⟨key, found⟩ := InsertionMap.contains_iff.mp found
      simp only [InsertionMap.get?_erase] at found
      split at found
      · cases found
      · exact consistent.keyed a (InsertionMap.contains_iff.mpr ⟨key, found⟩)
  exact forgotten.settle

omit [CaseMapping] [Python.DigitTable] in
theorem Consistent.finishClose (consistent : s.Consistent) (r : Ref) : (s.finishClose r).Consistent := by
  have departed : (s.depart r).Consistent := by
    unfold depart
    simp only
    split
    · exact consistent.congr rfl rfl rfl rfl
    · exact consistent.congr rfl rfl rfl rfl
  unfold LANTransport.finishClose
  simp only
  split
  · exact departed.handlePeerDisconnected _
  · exact departed

theorem step_perform (event : TransportEvent) (enabled : s.Enabled event) :
    Step s event (s.perform event) := ⟨enabled, rfl⟩

end Steps

section Nodes
attribute [local instance] asciiCase Python.asciiDigits

def peerPort : Str := "192.168.1.20:41235".toList
def otherPort : Str := "192.168.1.20:41236".toList
end Nodes
end LANTransport
end Bitchat.Lan
