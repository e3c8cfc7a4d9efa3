import Bitchat.App.AddressTables
import Bitchat.App.EstablishedSessions
import Bitchat.Lan.ConnectionTables

/-! A node on a LAN: the tables of its transport, those of its coordinator, and the sessions. The
coordinator drops the session of a peer with a link unless its own table knows another one. -/
namespace Bitchat.Lan.LANTransport
open Str

/-- The links of the ready connections, each at its first address. -/
theorem mem_connectedPeers {s : LANTransport} {address : Str} :
    address ∈ s.connectedPeers ↔
      ∃ r, s.isReady r = true ∧ s.connections.entries.find? (·.2 = r) = some (address, r) := by
  have general (entries : List (Str × Ref)) (seen : List Ref × List Str) :
      address ∈ (entries.foldl (fun (seen : List Ref × List Str) e =>
        if s.isReady e.2 ∧ e.2 ∉ seen.1 then (seen.1 ++ [e.2], seen.2 ++ [e.1]) else seen) seen).2 ↔
      address ∈ seen.2 ∨ ∃ r, s.isReady r = true ∧ r ∉ seen.1 ∧
        entries.find? (·.2 = r) = some (address, r) := by
    induction entries generalizing seen with
    | nil => simp
    | cons e rest ih =>
      obtain ⟨a, q⟩ := e
      rw [List.foldl_cons, ih]
      by_cases listed : s.isReady q = true ∧ q ∉ seen.1
      · rw [if_pos listed]
        constructor
        · rintro (before | ⟨r, ready, fresh, found⟩)
          · rcases List.mem_append.mp before with before | here
            · exact .inl before
            · obtain rfl := List.mem_singleton.mp here
              exact .inr ⟨q, listed.1, listed.2, by simp⟩
          · have other : q ≠ r := by
              rintro rfl
              simp at fresh
            refine .inr ⟨r, ready, fun member => fresh (List.mem_append_left _ member), ?_⟩
            rwa [List.find?_cons_of_neg (by simpa using other)]
        · rintro (before | ⟨r, ready, fresh, found⟩)
          · exact .inl (List.mem_append_left _ before)
          · by_cases same : q = r
            · subst same
              rw [List.find?_cons_of_pos (by simp)] at found
              obtain ⟨rfl, -⟩ := Prod.mk.inj (Option.some.inj found)
              exact .inl (by simp)
            · rw [List.find?_cons_of_neg (by simpa using same)] at found
              refine .inr ⟨r, ready, ?_, found⟩
              simp [fresh, Ne.symm same]
      · rw [if_neg listed]
        apply or_congr_right
        apply exists_congr
        intro r
        refine and_congr_right fun ready => and_congr_right fun fresh => ?_
        have other : q ≠ r := by
          rintro rfl
          exact listed ⟨ready, fresh⟩
        rw [List.find?_cons_of_neg (by simpa using other)]
  rw [connectedPeers, general]
  simp

/-- A link is the address of its connection. -/
theorem connected_found {s : LANTransport} {address : Str} {r : Ref}
    (found : s.connections.entries.find? (·.2 = r) = some (address, r)) :
    s.connections.get? address = some r :=
  InsertionMap.get?_eq_some_of_mem (List.mem_of_find?_eq_some found)

/-- What is left when the connection at an address is forgotten. -/
theorem forgetAddress_connections {s : LANTransport} {address a : Str} {r : Ref} :
    (s.forgetAddress address).connections.get? a = some r ↔
      s.connections.get? a = some r ∧ s.connections.get? address ≠ some r := by
  unfold forgetAddress
  cases entered : s.connections.get? address with
  | none => simp
  | some lost =>
    rw [removeConnectionReferences_connections]
    simp [eq_comm]

theorem forgetAddress_peerConnections {s : LANTransport} {address k : Str} {r : Ref} :
    (s.forgetAddress address).peerConnections.get? k = some r ↔
      s.peerConnections.get? k = some r ∧ s.connections.get? address ≠ some r := by
  unfold forgetAddress
  cases entered : s.connections.get? address with
  | none => simp
  | some lost =>
    rw [removeConnectionReferences_peerConnections]
    simp [eq_comm]

/-- The keys of the connections that are left stay. -/
theorem forgetAddress_keys {s : LANTransport} {address a : Str} {r : Ref}
    (left : (s.forgetAddress address).connections.get? a = some r) :
    (s.forgetAddress address).addressToPeerKey.get? a = s.addressToPeerKey.get? a := by
  obtain ⟨here, other⟩ := forgetAddress_connections.mp left
  unfold forgetAddress
  cases entered : s.connections.get? address with
  | none =>
    have away : a ≠ address := by
      rintro rfl
      rw [entered] at here
      cases here
    simp [away]
  | some lost =>
    have distinct : r ≠ lost := fun same => other (same ▸ entered)
    simp only [removeConnectionReferences, InsertionMap.get?_filter, here]
    cases s.addressToPeerKey.get? a with
    | none => rfl
    | some key => simp [distinct]

theorem forgetAddress_find {s : LANTransport} {address : Str} {r : Ref}
    (other : s.connections.get? address ≠ some r) :
    (s.forgetAddress address).connections.entries.find? (·.2 = r) =
      s.connections.entries.find? (·.2 = r) := by
  unfold forgetAddress
  cases entered : s.connections.get? address with
  | none => rfl
  | some lost =>
    have distinct : r ≠ lost := fun same => other (same ▸ entered)
    simp only [removeConnectionReferences, InsertionMap.filter, List.find?_filter]
    congr 1
    funext e
    by_cases same : e.2 = r
    · simp [same, distinct]
    · simp [same]

/-- A ready connection that the tables give to a peer. -/
def LeadsTo [CaseMapping] (peer : Str) (r : Ref) (s : LANTransport) : Prop :=
  s.isReady r = true ∧ (s.peerConnections.get? (peerKeyOf peer) = some r ∨
    ∃ address, s.connections.get? address = some r ∧
      s.addressToPeerKey.get? address = some (peerKeyOf peer))

/-- The close of a connection with callbacks forgets its address, and nothing else of the tables. -/
theorem finishClose_tables {s : LANTransport} {r : Ref} (wired : (s.heap r).wired = true) :
    (s.finishClose r).heap = s.heap ∧ (s.finishClose r).discoveredPeers = s.discoveredPeers ∧
    (s.finishClose r).connections = (s.forgetAddress (s.heap r).peerAddress).connections ∧
    (s.finishClose r).peerConnections = (s.forgetAddress (s.heap r).peerAddress).peerConnections ∧
    (s.finishClose r).addressToPeerKey = (s.forgetAddress (s.heap r).peerAddress).addressToPeerKey := by
  have departed : (s.depart r).heap = s.heap ∧ (s.depart r).discoveredPeers = s.discoveredPeers ∧
      (s.depart r).connections = s.connections ∧ (s.depart r).peerConnections = s.peerConnections ∧
      (s.depart r).addressToPeerKey = s.addressToPeerKey := by
    unfold depart
    simp only
    split
    · exact ⟨rfl, rfl, rfl, rfl, rfl⟩
    · exact ⟨rfl, rfl, rfl, rfl, rfl⟩
  obtain ⟨heap, peers, connections, registered, keys⟩ := departed
  have closed : s.finishClose r = (s.depart r).handlePeerDisconnected (s.heap r).peerAddress := by
    simp only [finishClose, heap, wired, if_true]
  rw [closed, handlePeerDisconnected]
  simp only [forgetAddress, connections]
  cases s.connections.get? (s.heap r).peerAddress with
  | none =>
    simp only
    split
    · simp [heap, peers, registered, keys]
    · simp [heap, peers, registered, keys]
  | some lost =>
    simp only
    split
    · simp [removeConnectionReferences, heap, peers, registered, keys, connections]
    · simp [removeConnectionReferences, heap, peers, registered, keys, connections]

theorem finishClose_connectedPeers {s : LANTransport} {r : Ref} {link : Str}
    (wired : (s.heap r).wired = true) :
    link ∈ (s.finishClose r).connectedPeers ↔ link ∈ s.connectedPeers ∧
      s.connections.get? link ≠ s.connections.get? (s.heap r).peerAddress := by
  obtain ⟨heap, -, connections, -, -⟩ := finishClose_tables wired
  rw [mem_connectedPeers, mem_connectedPeers]
  simp only [isReady, heap, connections]
  constructor
  · rintro ⟨q, ready, found⟩
    have left := connected_found found
    obtain ⟨here, other⟩ := forgetAddress_connections.mp left
    rw [forgetAddress_find other] at found
    exact ⟨⟨q, ready, found⟩, fun same => other (same.symm.trans here)⟩
  · rintro ⟨⟨q, ready, found⟩, other⟩
    rw [connected_found found] at other
    exact ⟨q, ready, by rwa [forgetAddress_find (Ne.symm other)]⟩

theorem finishClose_leadsTo [CaseMapping] {s : LANTransport} {r other : Ref} {peer : Str}
    (wired : (s.heap r).wired = true) :
    (s.finishClose r).LeadsTo peer other ↔
      s.LeadsTo peer other ∧ s.connections.get? (s.heap r).peerAddress ≠ some other := by
  obtain ⟨heap, -, connections, registered, keys⟩ := finishClose_tables wired
  simp only [LeadsTo, isReady, heap, connections, registered, keys, forgetAddress_peerConnections]
  constructor
  · rintro ⟨ready, ⟨key, kept⟩ | ⟨a, left, key⟩⟩
    · exact ⟨⟨ready, .inl key⟩, kept⟩
    · rw [forgetAddress_keys left] at key
      obtain ⟨here, kept⟩ := forgetAddress_connections.mp left
      exact ⟨⟨ready, .inr ⟨a, here, key⟩⟩, kept⟩
  · rintro ⟨⟨ready, key | ⟨a, here, key⟩⟩, kept⟩
    · exact ⟨ready, .inl ⟨key, kept⟩⟩
    · have left := forgetAddress_connections.mpr ⟨here, kept⟩
      exact ⟨ready, .inr ⟨a, left, by rwa [forgetAddress_keys left]⟩⟩

end Bitchat.Lan.LANTransport

namespace Bitchat.App
open Crypto Protocol Mesh Lan Str

/-- The coordinator of a node with the LAN as its transport. -/
structure Node where
  mesh : MeshCoordinator LANTransport
  noise : SessionCoordinator

/-- What happens to a node, in its own stretches or on the network. -/
inductive NodeEvent where
  | lan (now : Seconds) (event : TransportEvent)
  /-- A beacon is entered in the discovery's table, and the coordinator is told of its peer. -/
  | beacon (peers : InsertionMap Str LANDiscoveredPeer) (address peerId : Str)
  /-- A background task begins or goes on; one that processes a packet does so with it. -/
  | run (task : Nat) (now : Seconds) (writes : Writes) (w : Surroundings)
  | send (now : Seconds) (target : Option Str) (packet : BitchatPacket)
  | prune (now : Seconds)
  | running (running : Bool)
  /-- A message of the user, a handler that resumes, or an expiry task. -/
  | session (event : SessionCoordinator.Event)

namespace MeshCoordinator

/-- The check of `_handle_peer_disconnected`: a connected link is known to be the peer's. -/
def stillConnected {τ : Type} [BaseTransport τ] (peer : Str) (c : MeshCoordinator τ) : Bool :=
  c.addressToPeerId.entries.any fun e => e.1 ∈ BaseTransport.connectedPeers c.transport ∧ e.2 = peer

end MeshCoordinator

namespace Node

section Events
variable [CaseMapping] [Python.DigitTable]

/-- The coordinator's callback for a closed connection. -/
def handlePeerDisconnected (address : Str) (n : Node) : Node :=
  let mesh := n.mesh.handlePeerDisconnected address
  match n.mesh.addressToPeerId.get? address with
  | none => { n with mesh }
  | some peer =>
    if peer = [] ∨ mesh.stillConnected peer then { n with mesh }
    else { mesh, noise := n.noise.dropPeer peer }

variable [Primitives]

/-- A callback of the coordinator that leaves the sessions alone. -/
def callBack (cfg : MeshSettings) (fuel : Nat) (event : MeshEvent LANTransport) (n : Node) :
    Option Node :=
  (n.mesh.perform cfg fuel event).map fun done => { n with mesh := done.2 }

/-- An event of the transport with the callback it makes. -/
def transportEvent (cfg : MeshSettings) (fuel : Nat) (now : Seconds) (event : TransportEvent)
    (n : Node) : Option Node :=
  let lan := n.mesh.transport
  let next := lan.perform event
  let after : Node := { n with mesh.transport := next }
  match event with
  | .connected r => after.callBack cfg fuel (.connected now (lan.heap r).peerAddress)
  | .accept address =>
    -- only a connection that was entered in the tables has callbacks
    if next.nextRef ≠ lan.nextRef ∧ (next.heap lan.nextRef).wired then
      after.callBack cfg fuel (.connected now address)
    else some after
  | .packet r packet =>
    if (lan.heap r).isConnected ∧ (lan.heap r).wired then
      after.callBack cfg fuel (.incoming now packet (some (lan.heap r).peerAddress))
    else some after
  | .finishClose r =>
    some (if (lan.heap r).wired then after.handlePeerDisconnected (lan.heap r).peerAddress else after)
  | _ => some after

/-- The transport's part of a beacon. -/
def noteBeacon (peers : InsertionMap Str LANDiscoveredPeer) (n : Node) : Node :=
  let lan := n.mesh.transport
  { n with mesh.transport := { lan.perform (.discovered peers) with
      state := if lan.state = .scanning then .peerFound else lan.state } }

/-- A stretch of a background task. -/
def runTask (cfg : MeshSettings) (fuel task : Nat) (now : Seconds) (writes : Writes) (w : Surroundings)
    (n : Node) : Option Node :=
  (n.callBack cfg fuel (.run task now writes)).map fun after =>
    match n.mesh.backgroundTasks[task]? with
    | some (.process packet _) => { after with noise := n.noise.perform (.packet w packet) }
    | _ => after

def perform (cfg : MeshSettings) (fuel : Nat) (event : NodeEvent) (n : Node) : Option Node :=
  match event with
  | .lan now event => n.transportEvent cfg fuel now event
  | .beacon peers address peerId => (n.noteBeacon peers).callBack cfg fuel (.discovered address peerId)
  | .run task now writes w => n.runTask cfg fuel task now writes w
  | .send now target packet => n.callBack cfg fuel (.send now target packet)
  | .prune now => n.callBack cfg fuel (.prune now)
  | .running running => n.callBack cfg fuel (.running running)
  | .session event => some { n with noise := n.noise.perform event }

/-- Packets and lost links reach the sessions through the other events. -/
def Enabled (n : Node) : NodeEvent → Prop
  | .lan _ event => n.mesh.transport.Enabled event
  | .session (.packet _ _) | .session (.disconnected _) => False
  | .session event => event.Possible n.noise
  | _ => True

def Step (cfg : MeshSettings) (n : Node) (event : NodeEvent) (m : Node) : Prop :=
  n.Enabled event ∧ ∃ fuel, n.perform cfg fuel event = some m

end Events

section Conditions
variable [CaseMapping]

/-- The sessions have something of a peer: its session, or texts that wait for one. -/
def Involved (peer : Str) (c : SessionCoordinator) : Prop :=
  c.sessions.contains peer ∨ c.pendingMessages.contains peer

/-- The session of a peer is gone, or the texts that waited for it are. -/
def TornDown (peer : Str) (c d : SessionCoordinator) : Prop :=
  c.sessions.contains peer ∧ ¬ d.sessions.contains peer ∨
    c.pendingMessages.contains peer ∧ ¬ d.pendingMessages.contains peer

/-- A closed connection takes a peer's session with it only when no other one leads to the peer. -/
def DropsOnlyGone (n : Node) (event : NodeEvent) (m : Node) : Prop :=
  match event with
  | .lan _ (.finishClose r) => ∀ peer, TornDown peer n.noise m.noise →
      ∀ other, other ≠ r → ¬ m.mesh.transport.LeadsTo peer other
  | _ => True

/-- The coordinator's table has a connected link for a peer besides the one at an address, or the
peer is discovered at a connected link that is nobody's in the table. -/
def Linked (peer address : Str) (c : MeshCoordinator LANTransport) : Prop :=
  ∃ link ∈ c.transport.connectedPeers,
    c.transport.connections.get? link ≠ c.transport.connections.get? address ∧
    (c.addressToPeerId.get? link = some peer ∨
      c.addressToPeerId.get? link = none ∧ c.discoveredAt peer = some link)

/-- When the connection of a known peer with a session is over, and the transport has another one
for the peer, the coordinator knows one too. -/
def Recognised (n : Node) : NodeEvent → Prop
  | .lan _ (.finishClose r) =>
    let address := (n.mesh.transport.heap r).peerAddress
    (n.mesh.transport.heap r).wired = true →
      ∀ peer, n.mesh.addressToPeerId.get? address = some peer → peer ≠ [] → Involved peer n.noise →
        (∃ other, other ≠ r ∧ n.mesh.transport.connections.get? address ≠ some other ∧
          n.mesh.transport.LeadsTo peer other) →
        Linked peer address n.mesh
  | _ => True

end Conditions

section Steps

theorem stillConnected_iff {τ : Type} [BaseTransport τ] {peer : Str} {c : MeshCoordinator τ} :
    c.stillConnected peer ↔ ∃ link ∈ BaseTransport.connectedPeers c.transport,
      c.addressToPeerId.get? link = some peer := by
  simp only [MeshCoordinator.stillConnected, List.any_eq_true, decide_eq_true_eq]
  constructor
  · rintro ⟨⟨link, owner⟩, entry, connected, rfl⟩
    exact ⟨link, connected, InsertionMap.get?_eq_some_of_mem entry⟩
  · rintro ⟨link, connected, owner⟩
    exact ⟨(link, peer), InsertionMap.get?_eq_some.mp owner, connected, rfl⟩

variable [CaseMapping]

/-- After a disconnect a link is a peer's when it was before, or when it is where the peer is
discovered and was nobody's. -/
theorem handlePeerDisconnected_owner {τ : Type} [BaseTransport τ] {peer address link : Str}
    {c : MeshCoordinator τ} (named : peer ≠ []) (owner : c.addressToPeerId.get? address = some peer)
    (other : link ≠ address) :
    (c.handlePeerDisconnected address).addressToPeerId.get? link = some peer ↔
      c.addressToPeerId.get? link = some peer ∨
        c.addressToPeerId.get? link = none ∧ c.discoveredAt peer = some link := by
  have erased : (c.addressToPeerId.erase address).get? link = c.addressToPeerId.get? link := by
    rw [InsertionMap.get?_erase, if_neg other]
  rw [MeshCoordinator.handlePeerDisconnected_eq named owner]
  cases found : c.discoveredAt peer with
  | none => simp [erased]
  | some discovered =>
    simp only [Option.some.injEq]
    by_cases known : (c.addressToPeerId.erase address).contains discovered
    · rw [if_pos known, erased]
      refine (or_iff_left ?_).symm
      rintro ⟨free, rfl⟩
      rw [InsertionMap.contains, erased, free] at known
      cases known
    · rw [if_neg known, InsertionMap.get?_set, erased]
      by_cases here : link = discovered
      · subst here
        have free : c.addressToPeerId.get? link = none := by
          rw [← erased]
          exact Option.not_isSome_iff_eq_none.mp known
        simp [free]
      · simp [here, Ne.symm here]

theorem handlePeerDisconnected_transport {τ : Type} [BaseTransport τ] (address : Str)
    (c : MeshCoordinator τ) : (c.handlePeerDisconnected address).transport = c.transport := by
  cases owner : c.addressToPeerId.get? address with
  | none => simp only [MeshCoordinator.handlePeerDisconnected, owner]
  | some peer =>
    by_cases named : peer = []
    · simp only [MeshCoordinator.handlePeerDisconnected, owner, if_pos named]
    · rw [MeshCoordinator.handlePeerDisconnected_eq named owner]
      cases c.discoveredAt peer with
      | none => rfl
      | some discovered => rfl

variable {n m : Node} {r : Ref} {peer : Str}

/-- Once a connection is closed the coordinator finds its peer connected exactly when the peer was
linked besides. -/
theorem stillConnected_linked (wired : (n.mesh.transport.heap r).wired = true) (named : peer ≠ [])
    (owner : n.mesh.addressToPeerId.get? (n.mesh.transport.heap r).peerAddress = some peer) :
    (MeshCoordinator.handlePeerDisconnected (n.mesh.transport.heap r).peerAddress
        { n.mesh with transport := n.mesh.transport.finishClose r }).stillConnected peer ↔
      Linked peer (n.mesh.transport.heap r).peerAddress n.mesh := by
  have discovered : MeshCoordinator.discoveredAt peer
      { n.mesh with transport := n.mesh.transport.finishClose r } = n.mesh.discoveredAt peer := by
    unfold MeshCoordinator.discoveredAt
    simp only [BaseTransport.discoveredPeers, (LANTransport.finishClose_tables wired).2.1]
  rw [stillConnected_iff, handlePeerDisconnected_transport]
  apply exists_congr
  intro link
  have connected : link ∈ BaseTransport.connectedPeers (n.mesh.transport.finishClose r) ↔ _ :=
    LANTransport.finishClose_connectedPeers wired
  rw [connected, and_assoc]
  refine and_congr_right fun _ => and_congr_right fun away => ?_
  have other : link ≠ (n.mesh.transport.heap r).peerAddress := fun same => away (same ▸ rfl)
  have after := handlePeerDisconnected_owner
    (c := { n.mesh with transport := n.mesh.transport.finishClose r }) named owner other
  rw [discovered] at after
  exact after

omit [CaseMapping] in
theorem tornDown_dropPeer {c : SessionCoordinator} {other : Str} :
    TornDown other c (c.dropPeer peer) ↔ other = peer ∧ Involved peer c := by
  unfold TornDown Involved SessionCoordinator.dropPeer
  by_cases same : other = peer
  · simp [InsertionMap.contains, same]
  · simp [InsertionMap.contains, same, Option.isSome_iff_ne_none]

omit [CaseMapping] in
theorem not_tornDown (peer : Str) (c : SessionCoordinator) : ¬ TornDown peer c c := by
  rintro (⟨held, gone⟩ | ⟨waiting, gone⟩)
  · exact gone held
  · exact gone waiting

theorem handlePeerDisconnected_mesh (address : Str) (n : Node) :
    (n.handlePeerDisconnected address).mesh = n.mesh.handlePeerDisconnected address := by
  unfold handlePeerDisconnected
  simp only
  split
  · rfl
  · split
    · rfl
    · rfl

/-- The callback drops nothing, or it drops the peer of its address. -/
theorem handlePeerDisconnected_noise {address : Str} :
    (n.handlePeerDisconnected address).noise = n.noise ∧
      (∀ peer, peer ≠ [] → n.mesh.addressToPeerId.get? address = some peer →
        (n.mesh.handlePeerDisconnected address).stillConnected peer) ∨
    ∃ peer, peer ≠ [] ∧ n.mesh.addressToPeerId.get? address = some peer ∧
      ¬ (n.mesh.handlePeerDisconnected address).stillConnected peer ∧
      (n.handlePeerDisconnected address).noise = n.noise.dropPeer peer := by
  unfold handlePeerDisconnected
  cases owner : n.mesh.addressToPeerId.get? address with
  | none => exact .inl ⟨rfl, fun peer _ found => by cases found⟩
  | some peer =>
    simp only [Option.some.injEq]
    split
    · next kept =>
      refine .inl ⟨rfl, ?_⟩
      rintro _ named rfl
      exact kept.resolve_left named
    · next dropped =>
      obtain ⟨named, alone⟩ := not_or.mp dropped
      exact .inr ⟨peer, named, rfl, alone, rfl⟩

variable [Primitives] [Python.DigitTable]

/-- The close of a connection drops nothing, or it drops the peer of its address. -/
theorem finishClose_cases {cfg : MeshSettings} {fuel : Nat} {now : Seconds}
    (closed : n.transportEvent cfg fuel now (.finishClose r) = some m) :
    m.mesh.transport = n.mesh.transport.finishClose r ∧
    (m.noise = n.noise ∧ Recognised n (.lan now (.finishClose r)) ∨
      (n.mesh.transport.heap r).wired = true ∧ ∃ peer, peer ≠ [] ∧
        n.mesh.addressToPeerId.get? (n.mesh.transport.heap r).peerAddress = some peer ∧
        ¬ Linked peer (n.mesh.transport.heap r).peerAddress n.mesh ∧ m.noise = n.noise.dropPeer peer) := by
  obtain rfl := Option.some.inj closed
  let after : Node := { n with mesh.transport := n.mesh.transport.finishClose r }
  by_cases wired : (n.mesh.transport.heap r).wired = true
  · rw [if_pos wired]
    constructor
    · rw [handlePeerDisconnected_mesh, handlePeerDisconnected_transport]
      rfl
    · rcases handlePeerDisconnected_noise (n := after) with
        ⟨kept, connected⟩ | ⟨peer, named, owner, alone, dropped⟩
      · refine .inl ⟨kept, fun _ peer owner named _ _ => ?_⟩
        exact (stillConnected_linked wired named owner).mp (connected peer named owner)
      · refine .inr ⟨wired, peer, named, owner, fun linked => ?_, dropped⟩
        exact alone ((stillConnected_linked wired named owner).mpr linked)
  · rw [if_neg wired]
    exact ⟨rfl, .inl ⟨rfl, fun reached => absurd reached wired⟩⟩

/-- A step drops only sessions of peers that are gone exactly when the tables recognise each other's
links. -/
theorem step_dropsOnlyGone {cfg : MeshSettings} {event : NodeEvent} (step : Step cfg n event m) :
    DropsOnlyGone n event m ↔ Recognised n event := by
  obtain ⟨-, fuel, performed⟩ := step
  match event, performed with
  | .lan now (.finishClose r), performed =>
    have closed : n.transportEvent cfg fuel now (.finishClose r) = some m := performed
    obtain ⟨transport, ⟨kept, recognised⟩ | ⟨wired, peer, named, owner, alone, dropped⟩⟩ :=
      finishClose_cases closed
    · refine iff_of_true (fun peer torn => ?_) recognised
      rw [kept] at torn
      exact absurd torn (not_tornDown peer n.noise)
    · simp only [DropsOnlyGone, dropped, tornDown_dropPeer, transport,
        LANTransport.finishClose_leadsTo wired]
      constructor
      · rintro gone _ other found _ involved ⟨q, distinct, elsewhere, leads⟩
        obtain rfl := Option.some.inj (owner.symm.trans found)
        exact absurd ⟨leads, elsewhere⟩ (gone peer ⟨rfl, involved⟩ q distinct)
      · rintro recognised other ⟨rfl, involved⟩ q distinct ⟨leads, elsewhere⟩
        exact alone (recognised wired other owner named involved ⟨q, distinct, elsewhere, leads⟩)
  | .lan _ (.connectPeer _), _ | .lan _ (.connected _), _ | .lan _ (.connectFailed _), _
  | .lan _ (.accept _), _ | .lan _ (.packet _ _), _ | .lan _ (.lost _), _ | .lan _ (.runClose _), _
  | .lan _ (.disconnectPeer _), _ | .lan _ .settle, _ | .lan _ (.discovered _), _
  | .beacon _ _ _, _ | .run _ _ _ _, _ | .send _ _ _, _ | .prune _, _ | .running _, _
  | .session _, _ => exact Iff.rfl

omit [Primitives] [Python.DigitTable] in
/-- A session stays when another connection leads to its peer. -/
theorem kept_of_other {now : Seconds} {other : Ref}
    (sound : DropsOnlyGone n (.lan now (.finishClose r)) m) (distinct : other ≠ r)
    (leads : m.mesh.transport.LeadsTo peer other) : ¬ TornDown peer n.noise m.noise :=
  fun torn => sound peer torn other distinct leads

/-- In a run every closed connection drops only the session of a peer that no other connection leads
to, exactly when the coordinator knows another link of the peer whenever the transport has one. -/
theorem drops_only_gone_iff {cfg : MeshSettings} {start : Node} {history : List (Taken Node NodeEvent)}
    (run : Run (Step cfg) start history n) :
    (∀ e ∈ history, DropsOnlyGone e.before e.label e.after) ↔
      ∀ e ∈ history, Recognised e.before e.label := by
  apply run.meets_iff (P := fun _ => True) (C := Recognised)
  · trivial
  · intro s event t _ step
    exact step_dropsOnlyGone step
  · intros
    trivial

end Steps
end Node
end Bitchat.App

namespace Bitchat.App.Node
open Crypto Protocol Mesh Lan Str Modular MeshCoordinator
attribute [local instance] Modular.primitives asciiCase Python.asciiDigits

def settings : MeshSettings where
  router := { localPeerId := (device 9).peerId }
  storeForward := .standard
  localPeerIdHex := (device 9).peerIdHex

/-- A node that has nothing yet. -/
def fresh : Node where
  mesh := { transport := { lanNode with localPeerId := (device 9).peerIdHex } }
  noise := .start (device 9) none

def after (event : NodeEvent) (n : Node) : Node := (n.perform settings 9 event).getD n

theorem step_after (event : NodeEvent) {n : Node} (enabled : n.Enabled event)
    (ends' : (n.perform settings 9 event).isSome = true) : Step settings n event (after event n) := by
  obtain ⟨m, found⟩ := Option.isSome_iff_exists.mp ends'
  refine ⟨enabled, 9, ?_⟩
  rw [after, found, Option.getD_some]

def found : NodeEvent :=
  .beacon (InsertionMap.empty.set listener ⟨hostOf listener, strangerId⟩) listener strangerId

def written : NodeEvent := .session (.message (SessionCoordinator.steady 3) strangerId [])

/-- The node finds the stranger, whose id is less than its own, dials it and writes to it. The
stranger dials too: its connection is kept, and the node's own is to be closed. -/
def crossed : Node :=
  fresh |> after found |> after (.lan 0 (.connectPeer listener)) |> after (.lan 0 (.connected 0))
    |> after written |> after (.lan 0 (.accept neighbour))

theorem crossed_run : ∃ history, Run (Step settings) fresh history crossed ∧
    ∀ e ∈ history, Recognised e.before e.label := by
  have run : Run (Step settings) fresh _ crossed :=
    ((((Run.nil.snoc (step_after found trivial (by decide +kernel))).snoc
      (step_after (.lan 0 (.connectPeer listener)) trivial (by decide +kernel))).snoc
      (step_after (.lan 0 (.connected 0)) trivial (by decide +kernel))).snoc
      (step_after written trivial (by decide +kernel))).snoc
      (step_after (.lan 0 (.accept neighbour)) trivial (by decide +kernel))
  refine ⟨_, run, ?_⟩
  simp [Recognised, found, written]

def reading : NodeEvent := .lan 0 (.packet 1 (.note 1 7))
def processing : NodeEvent := .run 0 0 ⟨fun _ => true, false⟩ (SessionCoordinator.steady 3)
def closing : NodeEvent := .lan 0 (.runClose 0)
def closed : NodeEvent := .lan 0 (.finishClose 0)

theorem closing_enabled {n : Node} (spawned : 0 ∈ n.mesh.transport.closing) : n.Enabled closing := spawned

theorem closed_enabled {n : Node} (begun : 0 ∈ n.mesh.transport.departing) : n.Enabled closed := begun

/-- A packet of the stranger has been processed before the node's own connection is closed. -/
def heard : Node := crossed |> after reading |> after processing |> after closing

theorem heard_run : ∃ history, Run (Step settings) fresh history heard ∧
    ∀ e ∈ history, Recognised e.before e.label := by
  obtain ⟨earlier, opened, recognised⟩ := crossed_run
  have run : Run (Step settings) fresh _ heard :=
    ((opened.snoc (step_after reading trivial (by decide +kernel))).snoc
      (step_after processing trivial (by decide +kernel))).snoc
      (step_after closing (closing_enabled (by decide +kernel)) (by decide +kernel))
  refine ⟨_, run, ?_⟩
  intro e member
  simp only [List.append_assoc, List.mem_append, List.mem_singleton] at member
  rcases member with before | rfl | rfl | rfl
  · exact recognised e before
  · trivial
  · trivial
  · trivial

theorem heard_recognised : Recognised heard closed := by
  intro _ peer owner _ _ _
  have known : heard.mesh.addressToPeerId.get? (heard.mesh.transport.heap 0).peerAddress =
    some strangerId := by decide +kernel
  obtain rfl := Option.some.inj (owner.symm.trans known)
  exact ⟨neighbour, by decide +kernel, by decide +kernel, .inl (by decide +kernel)⟩

/-- The other connection leads to the stranger, and the session stays. -/
theorem heard_keeps : ∃ n m, Step settings n closed m ∧ Involved strangerId n.noise ∧
    m.mesh.transport.LeadsTo strangerId 1 ∧ ¬ TornDown strangerId n.noise m.noise := by
  obtain ⟨history, reached, recognised⟩ := heard_run
  have known := heard_recognised
  have step : Step settings heard closed (after closed heard) :=
    step_after closed (closed_enabled (by decide +kernel)) (by decide +kernel)
  have involved : Involved strangerId heard.noise := .inl (by decide +kernel)
  have leads : (after closed heard).mesh.transport.LeadsTo strangerId 1 :=
    ⟨by decide +kernel, .inl (by decide +kernel)⟩
  generalize heard = n, after closed heard = m at *
  refine ⟨n, m, step, involved, leads, ?_⟩
  have met := (drops_only_gone_iff (reached.snoc step)).mpr ?_
  · exact kept_of_other (met ⟨n, closed, m⟩ (by simp)) Nat.one_ne_zero leads
  · intro e member
    rcases List.mem_append.mp member with before | last
    · exact recognised e before
    · exact List.mem_singleton.mp last ▸ known

/-- Without a packet the node does not know the stranger's connection as the stranger's, and drops the
session and the text that waits for it. -/
theorem crossed_drops : ∃ history n m, Run (Step settings) fresh history n ∧ Step settings n closed m ∧
    m.mesh.transport.LeadsTo strangerId 1 ∧
    n.noise.sessions.contains strangerId ∧ n.noise.pendingMessages.get? strangerId = some [[]] ∧
    m.noise.sessions.contains strangerId = false ∧ m.noise.pendingMessages.contains strangerId = false := by
  obtain ⟨earlier, opened, -⟩ := crossed_run
  have begun : Run (Step settings) fresh _ (after closing crossed) :=
    opened.snoc (step_after closing (closing_enabled (by decide +kernel)) (by decide +kernel))
  refine ⟨_, _, _, begun, step_after closed (closed_enabled (by decide +kernel)) (by decide +kernel),
    ⟨by decide +kernel, .inl (by decide +kernel)⟩, ?_⟩
  decide +kernel

end Bitchat.App.Node
