import Bitchat.Lan.TableEffects

/-! Which peer a connection leads to. A node takes a connection for one to the peer at an address
by the address, by the key of the address and by its host; the last two can name another peer. -/
namespace Bitchat.Lan
open Protocol Str

/-- The connection that `connect_peer` goes on with. -/
def Connect.ref : Connect → Ref
  | .existing r => r
  | .dial r => r

namespace LANTransport

section Peers
variable {π : Type*} (peerAt : Str → π)

/-- The other end of a connection is the peer at an address. -/
def EndsAt (r : Ref) (address : Str) (s : LANTransport) : Prop :=
  peerAt (s.heap r).peerAddress = peerAt address

/-- The connection tables by address lead to the peers at their addresses. -/
structure Led (s : LANTransport) : Prop where
  entered : ∀ a r, s.connections.get? a = some r → s.EndsAt peerAt r a
  registered : ∀ a r, s.peerConnections.get? ("addr:".toList ++ a) = some r → s.EndsAt peerAt r a

variable [CaseMapping] [Python.DigitTable]

/-- The id that discovery has on record for an address: that of its own record, otherwise of the
first record of its host that has one. A loopback host is everybody's. -/
def recordedId (address : Str) (s : LANTransport) : Option Str :=
  let own := (s.discoveredPeers.get? address).filter fun peer => peer.peerId ≠ []
  let shared := if isLoopback (hostOf address) then none
    else s.discoveredPeers.values.find? fun peer => peer.ip = hostOf address ∧ peer.peerId ≠ []
  (own.or shared).map fun peer => peer.peerId

/-- A ready connection is entered for the address. -/
def Linked (address : Str) (s : LANTransport) : Prop :=
  ∃ r, s.connections.get? address = some r ∧ s.isReady r = true

/-- A ready connection is registered for the id on record, or without one for the host. -/
def Registered (address : Str) (r : Ref) (s : LANTransport) : Prop :=
  s.isReady r = true ∧
    ((∃ id, s.recordedId address = some id ∧ s.peerConnections.get? (peerKeyOf id) = some r) ∨
      s.recordedId address = none ∧ isLoopback (hostOf address) = false ∧
        s.peerConnections.get? ("ip:".toList ++ hostOf address) = some r)

/-- The ready connections to a host, in the order of the table. -/
def linksTo (host : Str) (s : LANTransport) : List Ref :=
  s.connections.values.filter fun r => s.isReady r ∧ hostOf (s.heap r).peerAddress = host

/-- What is registered for the peer on record is a connection to the peer at the address, and so is,
when nothing is registered, the first to the host. -/
structure Unmistakable (address : Str) (s : LANTransport) : Prop where
  registered : ∀ r, s.Registered address r → s.EndsAt peerAt r address
  first : isLoopback (hostOf address) = false → (∀ r, ¬ s.Registered address r) →
    ∀ r, (s.linksTo (hostOf address)).head? = some r → s.EndsAt peerAt r address

/-- The connection that an accepted one is dropped for or replaces. -/
def rivalOf (address : Str) (s : LANTransport) : Option Ref :=
  if s.server.maxConnections ≤ s.server.connections.size ∨ s.maxConnections ≤ s.connections.size then none
  else ((s.accepted address).findExistingConnection address).filter fun r => r ≠ s.nextRef

/-- A connection that is taken for one to the peer at an address is one. -/
def KeepsApart (s : LANTransport) : TransportEvent → Prop
  | .connectPeer address => ∀ c, (s.connectPeer address).1 = .ok c →
      (s.connectPeer address).2.EndsAt peerAt c.ref address
  | .accept address => ∀ r, s.rivalOf address = some r → s.EndsAt peerAt r address
  | _ => True

/-- The condition on an event that looks for a connection to a peer. -/
def Distinguished (s : LANTransport) : TransportEvent → Prop
  | .connectPeer address => s.Searches address → ¬ s.Linked address → s.Unmistakable peerAt address
  | .accept address =>
      (s.server.connections.size : Int) < s.server.maxConnections →
      (s.connections.size : Int) < s.maxConnections → ¬ s.Linked address → s.Unmistakable peerAt address
  | _ => True

end Peers

section Search
variable {π : Type*} {peerAt : Str → π} [CaseMapping] {s t : LANTransport} {address : Str}

/-- A key that is an address is the address itself. -/
theorem getPeerKey_addr {a : Str} (same : s.getPeerKey address = "addr:".toList ++ a) : a = address := by
  rcases getPeerKey_cases s address with ⟨id, known⟩ | whole | host
  · simp [known, peerKeyOf] at same
  · exact (List.append_cancel_left (whole.symm.trans same)).symm
  · simp [host] at same

/-- Without an id of its own an address has the key of its host. -/
theorem getPeerKey_shared
    (unnamed : ((s.discoveredPeers.get? address).filter fun peer => peer.peerId ≠ []) = none) :
    s.getPeerKey address = if isLoopback (hostOf address) then "addr:".toList ++ address else
      ((s.discoveredPeers.values.find? fun peer => peer.ip = hostOf address ∧ peer.peerId ≠ []).map
        fun peer => peerKeyOf peer.peerId).getD ("ip:".toList ++ hostOf address) := by
  unfold getPeerKey
  simp only
  cases found : s.discoveredPeers.get? address with
  | none =>
    cases s.discoveredPeers.values.find? fun peer => peer.ip = hostOf address ∧ peer.peerId ≠ [] <;> rfl
  | some peer =>
    have blank : ¬ peer.peerId ≠ [] := by simpa [found] using unnamed
    simp only [if_neg blank]
    cases s.discoveredPeers.values.find? fun peer => peer.ip = hostOf address ∧ peer.peerId ≠ [] <;> rfl

/-- The key of an address is that of the id on record, if there is one. -/
theorem getPeerKey_recorded (s : LANTransport) (address : Str) :
    (∃ id, s.recordedId address = some id ∧ s.getPeerKey address = peerKeyOf id) ∨
    s.recordedId address = none ∧ isLoopback (hostOf address) = true ∧
      s.getPeerKey address = "addr:".toList ++ address ∨
    s.recordedId address = none ∧ isLoopback (hostOf address) = false ∧
      s.getPeerKey address = "ip:".toList ++ hostOf address := by
  unfold recordedId
  simp only
  cases own : (s.discoveredPeers.get? address).filter fun peer => peer.peerId ≠ [] with
  | some peer =>
    obtain ⟨found, named⟩ := Option.filter_eq_some_iff.mp own
    have named : peer.peerId ≠ [] := of_decide_eq_true named
    exact Or.inl ⟨peer.peerId, rfl, by simp only [getPeerKey, found, if_pos named]⟩
  | none =>
    rw [getPeerKey_shared own]
    cases isLoopback (hostOf address) with
    | true => exact Or.inr (Or.inl ⟨rfl, rfl, rfl⟩)
    | false =>
      cases s.discoveredPeers.values.find? fun peer => peer.ip = hostOf address ∧ peer.peerId ≠ [] with
      | some peer => exact Or.inl ⟨peer.peerId, rfl, rfl⟩
      | none => exact Or.inr (Or.inr ⟨rfl, rfl, rfl⟩)

theorem registered_iff (told : s.recordedId address ≠ none ∨ isLoopback (hostOf address) = false) {r : Ref} :
    s.Registered address r ↔
      (s.peerConnections.get? (s.getPeerKey address)).filter (fun r => s.isReady r) = some r := by
  rw [Option.filter_eq_some_iff, and_comm, Registered]
  refine and_congr_right fun _ => ?_
  rcases getPeerKey_recorded s address with ⟨id, known, key⟩ | ⟨unknown, loopback, _⟩ | ⟨unknown, far, key⟩
  · simp [known, key]
  · simp [unknown, loopback] at told
  · simp [unknown, far, key]

/-- The search finds only connections to the peer at its address exactly when there is one for the
address itself or no other peer's is taken for one. -/
theorem search_leads_iff (led : s.Led peerAt) :
    (∀ r, s.findExistingConnection address = some r → s.EndsAt peerAt r address) ↔
      (¬ s.Linked address → s.Unmistakable peerAt address) := by
  unfold findExistingConnection
  simp only
  cases own : (s.connections.get? address).filter fun r => s.isReady r with
  | some r =>
    obtain ⟨here, ready⟩ := Option.filter_eq_some_iff.mp own
    refine iff_of_true (fun q found => ?_) fun idle => absurd ⟨r, here, ready⟩ idle
    cases found
    exact led.entered address r here
  | none =>
    have idle : ¬ s.Linked address := by
      rintro ⟨r, here, ready⟩
      simp [here, ready] at own
    rw [forall_prop_of_true idle, Option.none_or]
    by_cases told : s.recordedId address ≠ none ∨ isLoopback (hostOf address) = false
    · cases registered : (s.peerConnections.get? (s.getPeerKey address)).filter fun r => s.isReady r with
      | some q =>
        have taken : s.Registered address q := (registered_iff told).mpr registered
        simp only [Option.some_or, Option.some.injEq, forall_eq']
        refine ⟨fun leads => ⟨fun r found => ?_, fun _ nobody => absurd taken (nobody q)⟩,
          fun unmistakable => unmistakable.registered q taken⟩
        cases registered.symm.trans ((registered_iff told).mp found)
        exact leads
      | none =>
        have nobody : ∀ r, ¬ s.Registered address r := by
          intro r found
          cases registered.symm.trans ((registered_iff told).mp found)
        rw [Option.none_or]
        cases loopback : isLoopback (hostOf address) with
        | true =>
          simp only [if_true, reduceCtorEq, false_implies, implies_true, true_iff]
          exact ⟨fun r found => absurd found (nobody r), fun far => by simp [loopback] at far⟩
        | false =>
          simp only [Bool.false_eq_true, if_false, ← List.head?_filter]
          exact ⟨fun leads => ⟨fun r found => absurd found (nobody r), fun _ _ => leads⟩,
            fun unmistakable => unmistakable.first loopback nobody⟩
    · -- the address is its own key
      obtain ⟨unknown, loopback⟩ := not_or.mp told
      rcases getPeerKey_recorded s address with ⟨id, known, _⟩ | ⟨_, here, key⟩ | ⟨_, far, _⟩
      · exact absurd (by simp [known]) unknown
      · refine iff_of_true (fun r found => ?_) ⟨fun r found => ?_, fun far => absurd far loopback⟩
        · rw [here, if_pos rfl, Option.or_none, key] at found
          exact led.registered address r (Option.filter_eq_some_iff.mp found).1
        · rcases found.2 with ⟨id, known, _⟩ | ⟨_, far, _⟩
          · exact absurd (by simp [known]) unknown
          · exact absurd far loopback
      · exact absurd far loopback

end Search

section Connect
variable [CaseMapping] [Python.DigitTable] {s : LANTransport} {address : Str}

/-- What an accepted connection closes: nothing, itself when the limit is reached, or one of the
two when there is one it is dropped for or replaces. -/
theorem accept_closes : (s.perform (.accept address)).closing = s.closing ∨
    s.maxConnections ≤ s.connections.size ∧
      (s.perform (.accept address)).closing = s.closing ++ [s.nextRef] ∨
    ∃ r, s.rivalOf address = some r ∧
      ((s.perform (.accept address)).closing = s.closing ++ [s.nextRef] ∨
        (s.perform (.accept address)).closing = s.closing ++ [r]) := by
  simp only [perform, handleClient]
  split
  · exact Or.inl rfl
  · next served =>
    change ((s.accepted address).handleInboundConnection s.nextRef).closing = _ ∨ _ ∧
      ((s.accepted address).handleInboundConnection s.nextRef).closing = _ ∨ ∃ r, _ ∧
      (((s.accepted address).handleInboundConnection s.nextRef).closing = _ ∨
        ((s.accepted address).handleInboundConnection s.nextRef).closing = _)
    have own : ((s.accepted address).heap s.nextRef).peerAddress = address := by simp [accepted]
    unfold handleInboundConnection
    simp only [own]
    split
    · next full => exact Or.inr (Or.inl ⟨full, rfl⟩)
    · next room =>
      split
      · exact Or.inl rfl
      · next existing found =>
        have rival : existing ≠ s.nextRef → s.rivalOf address = some existing := fun other => by
          have open' : ¬ (s.server.maxConnections ≤ s.server.connections.size ∨
            s.maxConnections ≤ s.connections.size) := not_or.mpr ⟨served, room⟩
          rw [rivalOf, if_neg open', found, Option.filter_some, if_pos (decide_eq_true other)]
        split
        · exact Or.inl rfl
        · next other =>
          refine Or.inr (Or.inr ⟨existing, rival other, ?_⟩)
          split
          · exact Or.inl rfl
          · split
            · exact Or.inl rfl
            · exact Or.inr rfl

end Connect

section Steps
variable {π : Type*} {peerAt : Str → π} {s t : LANTransport} {r : Ref} {address peerKey : Str}

theorem Led.lessens (led : s.Led peerAt) (allocated : s.Allocated) (less : Lessens s t) : t.Led peerAt := by
  refine ⟨fun a r found => ?_, fun a r found => ?_⟩
  · have entry := less.entered a r found
    exact (congrArg peerAt (less.ends r (allocated.entered a r entry))).trans (led.entered a r entry)
  · have entry := less.registered _ r found
    exact (congrArg peerAt (less.ends r (allocated.registered _ r entry))).trans (led.registered a r entry)

/-- A connection to the peer at the address can be entered there. -/
theorem Led.enter (led : s.Led peerAt) (leads : s.EndsAt peerAt r address)
    (own : ∀ a, peerKey = "addr:".toList ++ a → a = address) : (s.enter address peerKey r).Led peerAt := by
  refine ⟨fun a q found => ?_, fun a q found => ?_⟩ <;>
    simp only [LANTransport.enter, InsertionMap.get?_set] at found
  · split at found
    · next here =>
      cases found
      subst here
      exact leads
    · exact led.entered a q found
  · split at found
    · next here =>
      cases found
      exact own a here.symm ▸ leads
    · exact led.registered a q found

/-- A connection can be registered for a peer by its id. -/
theorem Led.file [CaseMapping] (led : s.Led peerAt) (id : Str) (r : Ref) :
    (s.file (peerKeyOf id) r).Led peerAt := by
  refine ⟨led.entered, fun a q found => ?_⟩
  simp only [LANTransport.file, InsertionMap.get?_set] at found
  split at found
  · next here => simp [peerKeyOf] at here
  · exact led.registered a q found

theorem Led.alter (led : s.Led peerAt) (r : Ref) {f : LANConnection → LANConnection}
    (same : ∀ c, (f c).peerAddress = c.peerAddress) : (s.alter r f).Led peerAt := by
  have ends (q : Ref) : ((s.alter r f).heap q).peerAddress = (s.heap q).peerAddress := by
    simp only [LANTransport.alter, Function.update_apply]
    split
    · next here => rw [same, here]
    · rfl
  refine ⟨fun a q found => ?_, fun a q found => ?_⟩
  · exact (congrArg peerAt (ends q)).trans (led.entered a q found)
  · exact (congrArg peerAt (ends q)).trans (led.registered a q found)

variable [CaseMapping]

theorem Led.ascribed (led : s.Led peerAt) (id : Str) (r : Ref) (address : Str) :
    (s.ascribed id r address).Led peerAt :=
  have altered := led.alter r (f := ({ · with peerId := some id })) fun _ => rfl
  ⟨altered.entered, altered.registered⟩

variable [Python.DigitTable]

theorem connectPeer_leads_iff (led : s.Led peerAt) :
    s.KeepsApart peerAt (.connectPeer address) ↔ s.Distinguished peerAt (.connectPeer address) := by
  simp only [KeepsApart, Distinguished]
  by_cases searches : s.Searches address
  · rw [forall_prop_of_true searches, ← search_leads_iff led, connectPeer_searched searches]
    cases s.findExistingConnection address with
    | some existing => simp [Connect.ref, EndsAt, enter]
    | none =>
      refine iff_of_true (fun c result => ?_) (by simp)
      simp only at result ⊢
      split at result
      · cases result
      · next room =>
        rw [if_neg room]
        cases result
        simp [Connect.ref, EndsAt, dial, enter]
  · obtain ⟨message, result⟩ := connectPeer_refused searches
    simp [result, searches]

theorem accept_leads_iff (allocated : s.Allocated) (led : s.Led peerAt) :
    s.KeepsApart peerAt (.accept address) ↔ s.Distinguished peerAt (.accept address) := by
  simp only [KeepsApart, Distinguished, rivalOf]
  split
  · next full => exact iff_of_true (by simp) (by omega)
  · next room =>
    rw [not_or, not_le, not_le] at room
    rw [forall_prop_of_true room.1, forall_prop_of_true room.2, ← search_leads_iff led,
      allocated.search_accepted]
    have older : (s.findExistingConnection address).filter (fun r => r ≠ s.nextRef) =
        s.findExistingConnection address := by
      cases found : s.findExistingConnection address with
      | none => rfl
      | some r => simp [(allocated.found found).ne]
    rw [older]

/-- An event keeps peers apart exactly under the condition. -/
theorem keepsApart_iff (allocated : s.Allocated) (led : s.Led peerAt) (event : TransportEvent) :
    s.KeepsApart peerAt event ↔ s.Distinguished peerAt event := by
  cases event with
  | connectPeer address => exact connectPeer_leads_iff led
  | accept address => exact accept_leads_iff allocated led
  | _ => exact Iff.rfl

theorem grows_led (allocated : s.Allocated) (led : s.Led peerAt) {event : TransportEvent}
    (meets : s.Distinguished peerAt event) (grows : Grows s event t) : t.Led peerAt := by
  have accepted (a : Str) : (s.accepted a).Led peerAt :=
    led.lessens allocated ((Lessens.made s _).trans (.of_eq rfl rfl rfl rfl rfl))
  have own (a : Str) : (s.accepted a).EndsAt peerAt s.nextRef a := by simp [EndsAt, LANTransport.accepted]
  cases grows with
  | none => exact led
  | reused searches found =>
    have leads := (search_leads_iff led).mpr (meets searches)
    exact led.enter (leads _ found) fun a => getPeerKey_addr
  | @dialed address =>
    have made := led.lessens allocated (.made s { peerAddress := address, wired := true })
    exact made.enter (by simp [EndsAt]) fun a => getPeerKey_addr
  | @connected r =>
    have altered := led.alter r (f := ({ · with isConnected := true, ready := true })) fun _ => rfl
    exact ⟨altered.entered, altered.registered⟩
  | @registered address => exact (accepted address).enter (own address) fun a => getPeerKey_addr
  | @replaced address existing =>
    have left := (accepted address).lessens (allocated.accepted address) (.remove _ existing)
    exact left.enter (own address) fun a => getPeerKey_addr
  | ascribed => exact led.ascribed _ _ _
  | filed => exact (led.ascribed _ _ _).file _ _
  | @dropped r packet conn drop =>
    have ascribed := led.ascribed (hex packet.senderId) conn (s.heap r).peerAddress
    have left := ascribed.lessens ⟨allocated.entered, allocated.registered⟩ (.remove _ drop)
    exact left.file _ _

theorem perform_led (allocated : s.Allocated) (led : s.Led peerAt) {event : TransportEvent}
    (meets : s.Distinguished peerAt event) : (s.perform event).Led peerAt := by
  obtain ⟨u, grows, less⟩ := perform_grows s event
  exact (grows_led allocated led meets grows).lessens (grows_allocated allocated grows) less

/-- In a run from empty tables the peers are kept apart exactly when every event that looks for a
connection to one meets the condition. -/
theorem peers_apart_iff {start : LANTransport} {history : List (Taken LANTransport TransportEvent)}
    (run : Run Step start history s)
    (fresh : start.connections = .empty ∧ start.peerConnections = .empty) :
    (∀ e ∈ history, e.before.KeepsApart peerAt e.label) ↔
      ∀ e ∈ history, e.before.Distinguished peerAt e.label := by
  refine run.meets_iff (P := fun s => s.Allocated ∧ s.Led peerAt)
    (Q := fun s event _ => s.KeepsApart peerAt event) ?_ ?_ ?_
  · obtain ⟨connections, peers⟩ := fresh
    refine ⟨.of_empty connections peers, fun a r found => ?_, fun a r found => ?_⟩
    · simp [connections] at found
    · simp [peers] at found
  · rintro s event t ⟨allocated, led⟩ _
    exact keepsApart_iff allocated led event
  · rintro s event t ⟨allocated, led⟩ meets ⟨-, rfl⟩
    exact ⟨perform_allocated allocated event, perform_led allocated led meets⟩

end Steps

section Nodes
attribute [local instance] asciiCase Python.asciiDigits

def loopbackPort : Str := "127.0.0.1:41236".toList
def otherLoopbackPort : Str := "127.0.0.1:41237".toList

/-- Ids of the peers at the addresses. -/
def neighbourAt (address : Str) : Str :=
  if address ∈ [peerPort, loopbackPort] then hex (List.replicate 8 6) else hex (List.replicate 8 7)

def neighbours : InsertionMap Str LANDiscoveredPeer :=
  (InsertionMap.empty.set peerPort ⟨hostOf peerPort, neighbourAt peerPort⟩).set otherPort
    ⟨hostOf otherPort, neighbourAt otherPort⟩

/-- Two peers on the loopback address are kept apart. -/
theorem loopback_peers_apart : ∃ history s, Run Step lanNode history s ∧ s.nextRef = 2 ∧
    ∀ e ∈ history, e.before.KeepsApart neighbourAt e.label := by
  have run : Run Step lanNode _ _ :=
    ((Run.nil.snoc (step_perform (.connectPeer loopbackPort) trivial)).snoc
      (step_perform (.connected 0) trivial)).snoc (step_perform (.connectPeer otherLoopbackPort) trivial)
  refine ⟨_, _, run, by decide +kernel, (peers_apart_iff run ⟨rfl, rfl⟩).mpr fun e member => ?_⟩
  have own : ∀ address, isLoopback (hostOf address) = true → ∀ s : LANTransport,
      s.getPeerKey address = "addr:".toList ++ address → s.Unmistakable neighbourAt address := by
    intro address loopback s whole
    have unknown : s.recordedId address = none := by
      rcases getPeerKey_recorded s address with ⟨id, _, key⟩ | ⟨unknown, _⟩ | ⟨unknown, _⟩
      · simp [whole, peerKeyOf] at key
      · exact unknown
      · exact unknown
    refine ⟨fun r registered => ?_, fun far => by simp [loopback] at far⟩
    rcases registered.2 with ⟨id, known, _⟩ | ⟨_, far, _⟩
    · simp [unknown] at known
    · simp [loopback] at far
  simp only [List.nil_append, List.cons_append, List.mem_cons, List.not_mem_nil, or_false] at member
  obtain rfl | rfl | rfl := member
  · exact fun _ _ => own _ (by decide +kernel) _ (by decide +kernel)
  · trivial
  · exact fun _ _ => own _ (by decide +kernel) _ (by decide +kernel)

/-- Of two peers behind one address the second gets the connection of the first. -/
theorem second_peer_merged : ∃ history s, Run Step lanNode history s ∧
    ∃ e ∈ history, e.label = .connectPeer otherPort ∧ e.before.discoveredPeers = neighbours ∧
      ¬ e.before.KeepsApart neighbourAt e.label := by
  have run : Run Step lanNode _ _ :=
    (((Run.nil.snoc (step_perform (.discovered neighbours) trivial)).snoc
      (step_perform (.connectPeer peerPort) trivial)).snoc (step_perform (.connected 0) trivial)).snoc
      (step_perform (.connectPeer otherPort) trivial)
  refine ⟨_, _, run, _, List.mem_append_right _ (List.mem_singleton_self _), rfl, rfl, ?_⟩
  intro apart
  have merged : neighbourAt _ = neighbourAt otherPort := apart (.existing 0) (by decide +kernel)
  exact absurd merged (by decide +kernel)

end Nodes
end LANTransport
end Bitchat.Lan
