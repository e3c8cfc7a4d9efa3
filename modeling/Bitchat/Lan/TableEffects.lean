import Bitchat.Lan.ConnectionTables
import Bitchat.Lan.RelayedTraffic
import Mathlib.Data.List.Find

/-! What an event does to the tables of a LAN transport. Most events take entries out of them. A
connection is entered when it is dialed, accepted or reused, and a packet takes its originator's
key for its connection. -/
namespace Bitchat.Lan
open Protocol Str
namespace LANTransport

/-- The second state has no more in its tables than the first, under the same keys, and its
connections have the same ends. -/
structure Lessens (s t : LANTransport) : Prop where
  later : s.nextRef ≤ t.nextRef
  ends : ∀ r, r < s.nextRef → (t.heap r).peerAddress = (s.heap r).peerAddress
  ready : ∀ r, r < s.nextRef → t.isReady r = true → s.isReady r = true
  entered : ∀ a r, t.connections.get? a = some r → s.connections.get? a = some r
  registered : ∀ k r, t.peerConnections.get? k = some r → s.peerConnections.get? k = some r
  cached : ∀ a r, t.connections.get? a = some r → t.addressToPeerKey.get? a = s.addressToPeerKey.get? a

/-- The connections in the tables have been made. -/
structure Allocated (s : LANTransport) : Prop where
  entered : ∀ a r, s.connections.get? a = some r → r < s.nextRef
  registered : ∀ k r, s.peerConnections.get? k = some r → r < s.nextRef

section Less
variable {s t u : LANTransport} {r : Ref} {address : Str}

theorem Lessens.refl (s : LANTransport) : Lessens s s :=
  ⟨le_rfl, fun _ _ => rfl, fun _ _ => id, fun _ _ => id, fun _ _ => id, fun _ _ _ => rfl⟩

theorem Lessens.trans (first : Lessens s t) (second : Lessens t u) : Lessens s u where
  later := first.later.trans second.later
  ends r old := (second.ends r (old.trans_le first.later)).trans (first.ends r old)
  ready r old now := first.ready r old (second.ready r (old.trans_le first.later) now)
  entered a r found := first.entered a r (second.entered a r found)
  registered k r found := first.registered k r (second.registered k r found)
  cached a r found := (second.cached a r found).trans (first.cached a r (second.entered a r found))

theorem Lessens.of_eq (refs : t.nextRef = s.nextRef) (heap : t.heap = s.heap)
    (connections : t.connections = s.connections) (peers : t.peerConnections = s.peerConnections)
    (keys : t.addressToPeerKey = s.addressToPeerKey) : Lessens s t where
  later := refs.ge
  ends _ _ := by rw [heap]
  ready _ _ now := by rwa [isReady, heap] at now
  entered _ _ found := connections ▸ found
  registered _ _ found := peers ▸ found
  cached _ _ _ := by rw [keys]

/-- A connection object changes but for its end and without becoming ready. -/
theorem Lessens.alter (s : LANTransport) (r : Ref) {f : LANConnection → LANConnection}
    (same : ∀ c, (f c).peerAddress = c.peerAddress) (idle : ∀ c, (f c).isReady = true → c.isReady = true) :
    Lessens s (s.alter r f) := by
  refine ⟨le_rfl, fun q _ => ?_, fun q _ now => ?_, fun _ _ => id, fun _ _ => id, fun _ _ _ => rfl⟩
  · simp only [LANTransport.alter, Function.update_apply]
    split
    · next here => rw [same, here]
    · rfl
  · simp only [LANTransport.alter, isReady, Function.update_apply] at now ⊢
    split at now
    · next here => exact here ▸ idle _ now
    · exact now

/-- A new connection object is in no table. -/
theorem Lessens.made (s : LANTransport) (c : LANConnection) :
    Lessens s { s with heap := Function.update s.heap s.nextRef c, nextRef := s.nextRef + 1 } := by
  have same : ∀ r, r < s.nextRef → Function.update s.heap s.nextRef c r = s.heap r := fun r old =>
    Function.update_of_ne old.ne _ _
  refine ⟨Nat.le_succ _, fun r old => ?_, fun r old now => ?_, fun _ _ => id, fun _ _ => id, fun _ _ _ => rfl⟩
  · exact congrArg _ (same r old)
  · exact (congrArg LANConnection.isReady (same r old)).symm.trans now

theorem Lessens.remove (s : LANTransport) (r : Ref) : Lessens s (s.removeConnectionReferences r) := by
  refine ⟨le_rfl, fun _ _ => rfl, fun _ _ => id, fun a q found => ?_, fun k q found => ?_, fun a q found => ?_⟩
  · exact (removeConnectionReferences_connections.mp found).1
  · exact (removeConnectionReferences_peerConnections.mp found).1
  · obtain ⟨entry, other⟩ := removeConnectionReferences_connections.mp found
    have stays : s.connections.get? a ≠ some r := by simp [entry, other]
    simp only [removeConnectionReferences, InsertionMap.get?_filter, stays, ne_eq, not_false_eq_true, decide_true]
    cases s.addressToPeerKey.get? a with
    | none => rfl
    | some key => rfl

theorem Lessens.spawnClose (s : LANTransport) (r : Ref) : Lessens s (s.spawnClose r) :=
  .of_eq rfl rfl rfl rfl rfl

theorem Lessens.beginClose (s : LANTransport) (r : Ref) : Lessens s (s.beginClose r) := by
  unfold LANTransport.beginClose
  split
  · have closed : Lessens s (s.alter r ({ · with isConnected := false, ready := false })) :=
      .alter s r (fun _ => rfl) (by simp [LANConnection.isReady])
    exact closed.trans (.of_eq rfl rfl rfl rfl rfl)
  · exact .refl s

theorem Lessens.settle (s : LANTransport) : Lessens s s.settle := by
  unfold LANTransport.settle
  split
  · exact .refl s
  · exact .of_eq rfl rfl rfl rfl rfl

/-- Only the cached key of an address without a connection changes. -/
theorem Lessens.recache {keys : InsertionMap Str Str} (unknown : s.connections.get? address = none)
    (same : ∀ a, a ≠ address → keys.get? a = s.addressToPeerKey.get? a) :
    Lessens s { s with addressToPeerKey := keys } := by
  refine ⟨le_rfl, fun _ _ => rfl, fun _ _ => id, fun _ _ => id, fun _ _ => id, fun a r found => ?_⟩
  apply same
  rintro rfl
  cases unknown.symm.trans found

theorem Lessens.forgetAddress (s : LANTransport) (address : Str) : Lessens s (s.forgetAddress address) := by
  unfold LANTransport.forgetAddress
  split
  · exact .remove s _
  · next unknown => exact .recache unknown fun a other => by simp [other]

theorem Lessens.finishClose (s : LANTransport) (r : Ref) : Lessens s (s.finishClose r) := by
  have departed : Lessens s (s.depart r) := by
    unfold depart
    simp only
    split
    · exact .of_eq rfl rfl rfl rfl rfl
    · exact .of_eq rfl rfl rfl rfl rfl
  unfold LANTransport.finishClose
  simp only
  split
  · exact departed.trans ((Lessens.forgetAddress _ _).trans (.settle _))
  · exact departed

theorem Lessens.disconnectPeer (s : LANTransport) (address : Str) : Lessens s (s.disconnectPeer address) := by
  unfold LANTransport.disconnectPeer
  split
  · exact .settle s
  · simp only
    split
    · exact (Lessens.remove s _).trans (.beginClose _ _)
    · exact (Lessens.remove s _).trans (.settle _)

end Less
section Search
variable [CaseMapping] [Python.DigitTable]

/-- `connect_peer` passes the checks before its search. -/
def Searches (address : Str) (s : LANTransport) : Prop :=
  ∃ port, s.targetPort address = some port ∧
    ¬ (s.server.boundPort ≠ 0 ∧ port = s.server.boundPort ∧ s.isLocalIp (strip (hostOf address))) ∧
    s.state ∉ [.unavailable, .disabled, .offline, .error]

omit [Python.DigitTable] in
theorem getPeerKey_cases (s : LANTransport) (address : Str) : (∃ id, s.getPeerKey address = peerKeyOf id) ∨
    s.getPeerKey address = "addr:".toList ++ address ∨
    s.getPeerKey address = "ip:".toList ++ hostOf address := by
  simp only [getPeerKey]
  split
  · next peer _ =>
    split
    · exact Or.inl ⟨peer.peerId, rfl⟩
    · split
      · exact Or.inr (Or.inl rfl)
      · split
        · next host _ => exact Or.inl ⟨host.peerId, rfl⟩
        · exact Or.inr (Or.inr rfl)
  · split
    · exact Or.inr (Or.inl rfl)
    · split
      · next host _ => exact Or.inl ⟨host.peerId, rfl⟩
      · exact Or.inr (Or.inr rfl)

/-- The connection that a packet over another closes as a duplicate. -/
def duplicateOf (senderIdHex : Str) (conn : Ref) (address : Str) (s : LANTransport) : Option Ref :=
  ((s.peerConnections.get? (peerKeyOf senderIdHex)).filter
    fun existing => existing ≠ conn ∧ s.isReady existing).map
      fun existing => s.duplicate senderIdHex existing conn address

/-- A connection to an address under the key of a packet's originator. -/
def ascribed (senderIdHex : Str) (conn : Ref) (address : Str) (s : LANTransport) : LANTransport :=
  { s.alter conn ({ · with peerId := some senderIdHex }) with
    addressToPeerKey := s.addressToPeerKey.set address (peerKeyOf senderIdHex) }

/-- A connection registered for a peer. -/
def file (peerKey : Str) (r : Ref) (s : LANTransport) : LANTransport :=
  { s with peerConnections := s.peerConnections.set peerKey r }

/-- The read loop of a connection hands its packets on. -/
def Reading (r : Ref) (s : LANTransport) : Prop := (s.heap r).isConnected = true ∧ (s.heap r).wired = true

/-- What an event can add to the tables. -/
inductive Grows (s : LANTransport) : TransportEvent → LANTransport → Prop
  | none {event} : Grows s event s
  | reused {address r} : s.Searches address → s.findExistingConnection address = some r →
      Grows s (.connectPeer address) (s.enter address (s.getPeerKey address) r)
  | dialed {address} : Grows s (.connectPeer address) (s.dial address (s.getPeerKey address))
  | connected {r} : Grows s (.connected r) (s.connected r)
  | registered {address} :
      (s.server.connections.size : Int) < s.server.maxConnections →
      (s.connections.size : Int) < s.maxConnections →
      (∀ r, (s.accepted address).findExistingConnection address = some r → r = s.nextRef) →
      Grows s (.accept address) ((s.accepted address).enter address (s.getPeerKey address) s.nextRef)
  | replaced {address existing} :
      (s.server.connections.size : Int) < s.server.maxConnections →
      (s.connections.size : Int) < s.maxConnections →
      (s.accepted address).findExistingConnection address = some existing →
      ((s.accepted address).heap existing).isInbound = false →
      s.shouldKeepOutbound (getRemoteId (s.getPeerKey address) address) address = false →
      Grows s (.accept address) (((s.accepted address).removeConnectionReferences existing).enter address
        (s.getPeerKey address) s.nextRef)
  | ascribed {r packet conn} : s.Reading r → s.connections.get? (s.heap r).peerAddress = some conn →
      s.isReady conn = false →
      Grows s (.packet r packet) (s.ascribed (hex packet.senderId) conn (s.heap r).peerAddress)
  | filed {r packet conn} : s.Reading r → s.connections.get? (s.heap r).peerAddress = some conn →
      s.isReady conn = true →
      s.duplicateOf (hex packet.senderId) conn (s.heap r).peerAddress = Option.none →
      Grows s (.packet r packet)
        ((s.ascribed (hex packet.senderId) conn (s.heap r).peerAddress).file (peerKeyOf (hex packet.senderId)) conn)
  | dropped {r packet conn drop keep} : s.Reading r → s.connections.get? (s.heap r).peerAddress = some conn →
      s.isReady conn = true → s.duplicateOf (hex packet.senderId) conn (s.heap r).peerAddress = some drop →
      (keep = conn ∨ s.peerConnections.get? (peerKeyOf (hex packet.senderId)) = some keep) →
      Grows s (.packet r packet)
        (((s.ascribed (hex packet.senderId) conn (s.heap r).peerAddress).removeConnectionReferences drop).file
          (peerKeyOf (hex packet.senderId)) keep)

variable {s : LANTransport} {address : Str}

theorem connectPeer_refused (refused : ¬ s.Searches address) :
    ∃ message, s.connectPeer address = (.error message, s) := by
  unfold connectPeer
  cases target : s.targetPort address with
  | none => exact ⟨_, rfl⟩
  | some port =>
    simp only
    split
    · exact ⟨_, rfl⟩
    · next other =>
      split
      · exact ⟨_, rfl⟩
      · next available => exact absurd ⟨port, target, other, available⟩ refused

theorem connectPeer_searched (searches : s.Searches address) :
    s.connectPeer address =
      match s.findExistingConnection address with
      | some existing =>
        (.ok (.existing existing),
          { s.enter address (s.getPeerKey address) existing with state := .connected })
      | none =>
        if s.maxConnections ≤ s.connections.size then
          (.error "Maximum LAN connection limit reached",
            { s with state := if s.connections.size = 0 then .ready else .connected })
        else
          (.ok (.dial s.nextRef), { s with state := .connecting }.dial address (s.getPeerKey address)) := by
  obtain ⟨port, target, other, available⟩ := searches
  unfold connectPeer
  simp only [target, if_neg other, if_neg available]
  rfl

theorem connectPeer_grows :
    ∃ u, Grows s (.connectPeer address) u ∧ Lessens u (s.connectPeer address).2 := by
  by_cases searches : s.Searches address
  · rw [connectPeer_searched searches]
    cases found : s.findExistingConnection address with
    | some existing => exact ⟨_, .reused searches found, .of_eq rfl rfl rfl rfl rfl⟩
    | none =>
      simp only
      split
      · exact ⟨s, .none, .of_eq rfl rfl rfl rfl rfl⟩
      · exact ⟨_, .dialed, .of_eq rfl rfl rfl rfl rfl⟩
  · obtain ⟨message, result⟩ := connectPeer_refused searches
    exact ⟨s, .none, by rw [result]; exact .refl s⟩

omit [CaseMapping] [Python.DigitTable] in
theorem register_lessens (s : LANTransport) (r : Ref) (peerKey : Str) :
    Lessens (s.enter (s.heap r).peerAddress peerKey r) (s.register r peerKey) := by
  have wired : Lessens (s.enter (s.heap r).peerAddress peerKey r)
      ((s.enter (s.heap r).peerAddress peerKey r).alter r ({ · with wired := true })) :=
    .alter _ r (fun _ => rfl) fun _ => id
  exact wired.trans (.of_eq rfl rfl rfl rfl rfl)

theorem handleClient_grows :
    ∃ u, Grows s (.accept address) u ∧ Lessens u (s.handleClient address) := by
  unfold handleClient
  split
  · exact ⟨s, .none, .refl s⟩
  · next served =>
    change ∃ u, Grows s (.accept address) u ∧ Lessens u ((s.accepted address).handleInboundConnection s.nextRef)
    have own : ((s.accepted address).heap s.nextRef).peerAddress = address := by simp [accepted]
    have made : Lessens s (s.accepted address) := (Lessens.made s _).trans (.of_eq rfl rfl rfl rfl rfl)
    have key : (s.accepted address).getPeerKey address = s.getPeerKey address := rfl
    have enters (u : LANTransport) (same : (u.heap s.nextRef).peerAddress = address) :
        Lessens (u.enter address (s.getPeerKey address) s.nextRef)
          (u.register s.nextRef (s.getPeerKey address)) := by
      have registered := register_lessens u s.nextRef (s.getPeerKey address)
      rwa [same] at registered
    have spawned : Lessens s ((s.accepted address).spawnClose s.nextRef) := made.trans (.spawnClose _ _)
    unfold handleInboundConnection
    simp only [own, key]
    split
    · exact ⟨s, .none, spawned⟩
    · next room =>
      cases found : (s.accepted address).findExistingConnection address with
      | none =>
        have new : ∀ r, (s.accepted address).findExistingConnection address = some r → r = s.nextRef := by
          simp [found]
        exact ⟨_, .registered (not_le.mp served) (not_le.mp room) new, enters _ own⟩
      | some existing =>
        simp only
        split
        · next same =>
          have new : ∀ r, (s.accepted address).findExistingConnection address = some r → r = s.nextRef := by
            simp [found, same]
          exact ⟨_, .registered (not_le.mp served) (not_le.mp room) new, enters _ own⟩
        · split
          · exact ⟨s, .none, spawned⟩
          · next outbound =>
            split
            · exact ⟨s, .none, spawned⟩
            · next yields =>
              refine ⟨_, .replaced (not_le.mp served) (not_le.mp room) found (Bool.eq_false_of_not_eq_true outbound)
                (Bool.eq_false_of_not_eq_true yields), ?_⟩
              exact (enters ((s.accepted address).removeConnectionReferences existing) own).trans
                (.of_eq rfl rfl rfl rfl rfl)

omit [Python.DigitTable] in
theorem ascribed_lessens {senderIdHex : Str} (unknown : s.connections.get? address = none) :
    Lessens s { s with addressToPeerKey := s.addressToPeerKey.set address (peerKeyOf senderIdHex) } := by
  exact .recache unknown fun a other => by simp [other]

omit [Python.DigitTable] in
theorem ascribed_isReady {senderIdHex : Str} {conn r : Ref} :
    (s.ascribed senderIdHex conn address).isReady r = s.isReady r :=
  alter_peerId LANConnection.isReady fun _ => rfl

omit [Python.DigitTable] in
theorem ascribed_duplicateOf {senderIdHex : Str} {conn : Ref} :
    (s.ascribed senderIdHex conn address).duplicateOf senderIdHex conn address =
      s.duplicateOf senderIdHex conn address := by
  have kept (r : Ref) : ((s.ascribed senderIdHex conn address).heap r).isInbound = (s.heap r).isInbound :=
    alter_peerId LANConnection.isInbound fun _ => rfl
  have side : (s.ascribed senderIdHex conn address).shouldKeepOutbound senderIdHex address =
      s.shouldKeepOutbound senderIdHex address := rfl
  simp only [duplicateOf, duplicate, ascribed_isReady, kept, side]
  rfl

theorem readPacket_grows {r : Ref} {packet : BitchatPacket} :
    ∃ u, Grows s (.packet r packet) u ∧ Lessens u (s.readPacket r packet) := by
  unfold readPacket
  split
  · next reading =>
    unfold handlePacketReceived
    simp only
    cases found : s.connections.get? (s.heap r).peerAddress with
    | none => exact ⟨s, .none, ascribed_lessens found⟩
    | some conn =>
      simp only
      change ∃ u, _ ∧ Lessens u ((s.ascribed (hex packet.senderId) conn (s.heap r).peerAddress).deduplicate
        (hex packet.senderId) conn (s.heap r).peerAddress)
      unfold deduplicate
      simp only [ascribed_isReady]
      split
      · next idle => exact ⟨_, .ascribed reading found (by simpa using idle), .refl _⟩
      · next ready =>
        have duplicated : (s.ascribed (hex packet.senderId) conn (s.heap r).peerAddress).duplicateOf _ _ _ = _ :=
          ascribed_duplicateOf
        have ready : s.isReady conn = true := not_not.mp ready
        split
        · next none =>
          refine ⟨_, .filed reading found ready ?_, .refl _⟩
          rw [← duplicated, duplicateOf]
          simp only [ascribed_isReady, none, Option.map_none]
        · next existing rival =>
          have drops : s.duplicateOf (hex packet.senderId) conn (s.heap r).peerAddress =
              some ((s.ascribed (hex packet.senderId) conn (s.heap r).peerAddress).duplicate
                (hex packet.senderId) existing conn (s.heap r).peerAddress) := by
            rw [← duplicated, duplicateOf]
            simp only [ascribed_isReady, rival, Option.map_some]
          have registered := (Option.filter_eq_some_iff.mp rival).1
          refine ⟨_, .dropped reading found ready drops ?_, .of_eq rfl rfl rfl rfl rfl⟩
          split
          · exact Or.inl rfl
          · exact Or.inr registered
  · exact ⟨s, .none, .refl s⟩

/-- An event adds at most one of these to the tables, and otherwise takes from them. -/
theorem perform_grows (s : LANTransport) (event : TransportEvent) :
    ∃ u, Grows s event u ∧ Lessens u (s.perform event) := by
  cases event with
  | connectPeer address => exact connectPeer_grows
  | connected r => exact ⟨_, .connected, .refl _⟩
  | connectFailed r => exact ⟨s, .none, (Lessens.remove s r).trans (.of_eq rfl rfl rfl rfl rfl)⟩
  | accept address => exact handleClient_grows
  | packet r packet => exact readPacket_grows
  | lost r => exact ⟨s, .none, .beginClose s r⟩
  | runClose r =>
    have begun : Lessens s { s with closing := s.closing.erase r } := .of_eq rfl rfl rfl rfl rfl
    exact ⟨s, .none, begun.trans (.beginClose _ r)⟩
  | finishClose r => exact ⟨s, .none, .finishClose s r⟩
  | disconnectPeer address => exact ⟨s, .none, .disconnectPeer s address⟩
  | settle => exact ⟨s, .none, .settle s⟩
  | discovered peers => exact ⟨s, .none, .of_eq rfl rfl rfl rfl rfl⟩

end Search

section Allocation
variable {s t : LANTransport} {r : Ref} {address peerKey : Str}

theorem Allocated.of_empty (connections : s.connections = .empty) (peers : s.peerConnections = .empty) :
    s.Allocated where
  entered a r found := by simp [connections] at found
  registered k r found := by simp [peers] at found

theorem Allocated.lessens (allocated : s.Allocated) (less : Lessens s t) : t.Allocated where
  entered a r found := (allocated.entered a r (less.entered a r found)).trans_le less.later
  registered k r found := (allocated.registered k r (less.registered k r found)).trans_le less.later

theorem Allocated.file (allocated : s.Allocated) (known : r < s.nextRef) : (s.file peerKey r).Allocated := by
  refine ⟨allocated.entered, fun k q found => ?_⟩
  simp only [LANTransport.file, InsertionMap.get?_set] at found
  split at found
  · exact Option.some.inj found ▸ known
  · exact allocated.registered k q found

theorem Allocated.enter (allocated : s.Allocated) (known : r < s.nextRef) :
    (s.enter address peerKey r).Allocated := by
  refine ⟨fun a q found => ?_, (allocated.file known).registered⟩
  simp only [LANTransport.enter, InsertionMap.get?_set] at found
  split at found
  · exact Option.some.inj found ▸ known
  · exact allocated.entered a q found

theorem Allocated.listed (allocated : s.Allocated) (listed : r ∈ s.connections.values) : r < s.nextRef := by
  obtain ⟨a, entry⟩ := InsertionMap.mem_values.mp listed
  exact allocated.entered a r entry

variable [CaseMapping]

theorem Allocated.found (allocated : s.Allocated) (found : s.findExistingConnection address = some r) :
    r < s.nextRef := by
  simp only [findExistingConnection, Option.or_eq_some_iff, Option.filter_eq_some_iff] at found
  rcases found with ⟨own, -⟩ | ⟨-, ⟨registered, -⟩ | ⟨-, host⟩⟩
  · exact allocated.entered address r own
  · exact allocated.registered _ r registered
  · split at host
    · cases host
    · exact allocated.listed (List.mem_of_find?_eq_some host)

/-- An accepted connection is not found before it is entered. -/
theorem Allocated.search_accepted (allocated : s.Allocated) (a : Str) :
    (s.accepted a).findExistingConnection address = s.findExistingConnection address := by
  have same : ∀ r, r < s.nextRef → (s.accepted a).heap r = s.heap r := fun r old =>
    Function.update_of_ne old.ne _ _
  have ready : ∀ found : Option Ref, (∀ r, found = some r → r < s.nextRef) →
      found.filter (fun r => (s.accepted a).isReady r) = found.filter fun r => s.isReady r := by
    rintro (- | r) old
    · rfl
    · simp [Option.filter_some, isReady, same r (old r rfl)]
  have host : (s.connections.values.find? fun r => (s.accepted a).isReady r ∧
      hostOf ((s.accepted a).heap r).peerAddress = hostOf address) =
      s.connections.values.find? fun r => s.isReady r ∧ hostOf (s.heap r).peerAddress = hostOf address :=
    List.find?_congr fun r listed =>
      decide_eq_decide.mpr (by rw [isReady, isReady, same r (allocated.listed listed)])
  have own := ready (s.connections.get? address) (allocated.entered address)
  have registered := ready (s.peerConnections.get? (s.getPeerKey address)) (allocated.registered _)
  unfold findExistingConnection
  simp only
  rw [← own, ← registered, ← host]
  rfl

omit [CaseMapping] in
theorem Allocated.accepted (allocated : s.Allocated) (a : Str) : (s.accepted a).Allocated :=
  allocated.lessens ((Lessens.made s _).trans (.of_eq rfl rfl rfl rfl rfl))

variable [Python.DigitTable]

theorem grows_allocated (allocated : s.Allocated) {event : TransportEvent} (grows : Grows s event t) :
    t.Allocated := by
  cases grows with
  | none => exact allocated
  | reused _ found => exact allocated.enter (allocated.found found)
  | @dialed address =>
    have made := allocated.lessens (.made s { peerAddress := address, wired := true })
    exact made.enter (Nat.lt_succ_self _)
  | connected => exact ⟨allocated.entered, allocated.registered⟩
  | registered => exact (allocated.accepted _).enter (Nat.lt_succ_self _)
  | @replaced address existing =>
    have left := (allocated.accepted address).lessens (.remove _ existing)
    exact left.enter (Nat.lt_succ_self _)
  | ascribed => exact ⟨allocated.entered, allocated.registered⟩
  | @filed r packet conn _ entry =>
    have ascribed : (s.ascribed (hex packet.senderId) conn (s.heap r).peerAddress).Allocated :=
      ⟨allocated.entered, allocated.registered⟩
    exact ascribed.file (allocated.entered _ conn entry)
  | @dropped r packet conn drop keep _ entry _ _ kept =>
    have ascribed : (s.ascribed (hex packet.senderId) conn (s.heap r).peerAddress).Allocated :=
      ⟨allocated.entered, allocated.registered⟩
    refine Allocated.file (ascribed.lessens (.remove _ _)) ?_
    rcases kept with rfl | registered
    · exact allocated.entered _ _ entry
    · exact allocated.registered _ keep registered

theorem perform_allocated (allocated : s.Allocated) (event : TransportEvent) :
    (s.perform event).Allocated := by
  obtain ⟨u, grows, less⟩ := perform_grows s event
  exact (grows_allocated allocated grows).lessens less

end Allocation
end LANTransport
end Bitchat.Lan
