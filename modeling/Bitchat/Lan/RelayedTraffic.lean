import Bitchat.Lan.Transport

/-! What received packets do to the connections of a LAN transport. Each connection is taken
for that of the packet's originator, so an originator heard over two links costs one of them. -/
namespace Bitchat.Lan
open Protocol Str

namespace LANTransport
variable [CaseMapping] {s : LANTransport} {r a b : Ref} {packet : BitchatPacket}

/-- The connection is ready, no task closes it, and its address leads to it. -/
structure Attached (r : Ref) (s : LANTransport) : Prop where
  ready : s.isReady r = true
  staying : r ∉ s.closing
  registered : s.connections.get? (s.heap r).peerAddress = some r

/-- A packet comes in over a connection. -/
def receive (r : Ref) (packet : BitchatPacket) (s : LANTransport) : LANTransport :=
  s.handlePacketReceived packet (s.heap r).peerAddress

/-- The key that a packet's originator is registered under. -/
def originatorKey (packet : BitchatPacket) : Str := peerKeyOf (hex packet.senderId)

/-- The other ready connection that the originator is registered for. -/
def rival (r : Ref) (packet : BitchatPacket) (s : LANTransport) : Option Ref :=
  (s.peerConnections.get? (originatorKey packet)).filter fun existing => existing ≠ r ∧ s.isReady existing

/-- The connection that a packet over `r` costs. -/
def displaced (r : Ref) (packet : BitchatPacket) (s : LANTransport) : Option Ref :=
  (s.rival r packet).map fun existing => s.duplicate (hex packet.senderId) existing r (s.heap r).peerAddress

/-- What is left of the tables after a packet over `r`. -/
structure Received (r : Ref) (packet : BitchatPacket) (s t : LANTransport) : Prop where
  heap : ∀ a, ∃ id, t.heap a = { s.heap a with peerId := id }
  frame : t = { s with
    heap := t.heap
    closing := t.closing
    connections := t.connections
    peerConnections := t.peerConnections
    addressToPeerKey := t.addressToPeerKey }
  compare : ∀ id existing conn address, t.duplicate id existing conn address =
    s.duplicate id existing conn address
  closing : t.closing = s.closing ++ (s.displaced r packet).toList
  connections : ∀ k a, t.connections.get? k = some a ↔
    s.connections.get? k = some a ∧ s.displaced r packet ≠ some a
  originator : t.peerConnections.get? (originatorKey packet) =
    some (if s.displaced r packet = some r then (s.rival r packet).getD r else r)
  others : ∀ k a, k ≠ originatorKey packet → (t.peerConnections.get? k = some a ↔
    s.peerConnections.get? k = some a ∧ s.displaced r packet ≠ some a)

omit [CaseMapping] in
/-- Who the peer is said to be is not asked for again. -/
theorem alter_peerId {α : Type} (g : LANConnection → α) {id : Option Str}
    (blind : ∀ c : LANConnection, g { c with peerId := id } = g c) :
    g ((s.alter r ({ · with peerId := id })).heap a) = g (s.heap a) := by
  by_cases same : a = r
  · subst same
    simp [alter, blind]
  · simp [alter, Function.update_of_ne same]

/-- The state after the originator is noted, before the tables are compared. -/
def noted (r : Ref) (packet : BitchatPacket) (s : LANTransport) : LANTransport :=
  { s.alter r ({ · with peerId := some (hex packet.senderId) }) with
    addressToPeerKey := s.addressToPeerKey.set (s.heap r).peerAddress (originatorKey packet) }

@[simp] theorem noted_connections : (s.noted r packet).connections = s.connections := rfl

@[simp] theorem noted_peerConnections : (s.noted r packet).peerConnections = s.peerConnections := rfl

theorem noted_heap : ∃ id, (s.noted r packet).heap a = { s.heap a with peerId := id } := by
  by_cases same : a = r
  · subst same
    exact ⟨some (hex packet.senderId), by simp [noted, alter]⟩
  · exact ⟨(s.heap a).peerId, by simp [noted, alter, Function.update_of_ne same]⟩

theorem noted_isReady : (s.noted r packet).isReady a = s.isReady a :=
  alter_peerId LANConnection.isReady fun _ => rfl

theorem duplicate_congr {t : LANTransport} (peer : t.localPeerId = s.localPeerId)
    (endpoint : t.localEndpoint = s.localEndpoint)
    (inbound : ∀ a, (t.heap a).isInbound = (s.heap a).isInbound) (id : Str) (existing conn : Ref)
    (address : Str) : t.duplicate id existing conn address = s.duplicate id existing conn address := by
  have keep : t.shouldKeepOutbound id address = s.shouldKeepOutbound id address := by
    rw [shouldKeepOutbound, shouldKeepOutbound, peer, endpoint]
  rw [duplicate, duplicate, keep, inbound]

theorem noted_isInbound : ((s.noted r packet).heap a).isInbound = (s.heap a).isInbound :=
  alter_peerId LANConnection.isInbound fun _ => rfl

theorem duplicate_mem (id : Str) (existing conn : Ref) (address : Str) :
    s.duplicate id existing conn address = existing ∨ s.duplicate id existing conn address = conn := by
  unfold duplicate
  split
  · split
    · exact Or.inl rfl
    · exact Or.inr rfl
  · split
    · exact Or.inr rfl
    · exact Or.inl rfl

/-- A packet either enters its connection for the originator or costs one of two connections. -/
theorem receive_eq (attached : s.Attached r) : s.receive r packet =
    match s.rival r packet with
    | none => { s.noted r packet with
        peerConnections := s.peerConnections.set (originatorKey packet) r }
    | some existing =>
      let toDrop := s.duplicate (hex packet.senderId) existing r (s.heap r).peerAddress
      let toKeep := if toDrop = existing then r else existing
      let t := ((s.noted r packet).spawnClose toDrop).removeConnectionReferences toDrop
      { t with peerConnections := t.peerConnections.set (originatorKey packet) toKeep } := by
  have same : ((s.noted r packet).peerConnections.get? (originatorKey packet)).filter
      (fun existing => existing ≠ r ∧ (s.noted r packet).isReady existing) = s.rival r packet := by
    simp only [noted_isReady]
    rfl
  have ready : (s.noted r packet).isReady r = true := noted_isReady.trans attached.ready
  have entered : s.receive r packet =
      (s.noted r packet).deduplicate (hex packet.senderId) r (s.heap r).peerAddress := by
    simp only [receive, handlePacketReceived, attached.registered]
    rfl
  rw [entered, deduplicate, if_neg (not_not.mpr ready), ← originatorKey, same]
  cases s.rival r packet with
  | none => rfl
  | some existing =>
    simp only [duplicate_congr (t := s.noted r packet) (s := s) rfl rfl fun _ => noted_isInbound]

section SameNode
omit [CaseMapping]

/-- The states agree but for the connections and what is known of them. -/
def SameNode (s t : LANTransport) : Prop :=
  t = { s with
    heap := t.heap
    closing := t.closing
    connections := t.connections
    peerConnections := t.peerConnections
    addressToPeerKey := t.addressToPeerKey }

theorem SameNode.trans {t u : LANTransport} (first : SameNode s t) (second : SameNode t u) :
    SameNode s u := by
  unfold SameNode at first second
  rw [first] at second
  exact second

theorem sameNode_spawnClose (lost : Ref) : SameNode s (s.spawnClose lost) := rfl

theorem sameNode_removeConnectionReferences (lost : Ref) :
    SameNode s (s.removeConnectionReferences lost) := rfl

theorem sameNode_register (s : LANTransport) (peers : InsertionMap Str Ref) :
    SameNode s { s with peerConnections := peers } := rfl

theorem SameNode.localEndpoint {t : LANTransport} (same : SameNode s t) :
    t.localEndpoint = s.localEndpoint := by
  rw [same]
  rfl

end SameNode

theorem sameNode_noted : SameNode s (s.noted r packet) := rfl

/-- Who wins a comparison depends on what a packet leaves as it was. -/
theorem duplicate_frame {t : LANTransport} (heap : ∀ a, ∃ id, t.heap a = { s.heap a with peerId := id })
    (frame : SameNode s t) (id : Str) (existing conn : Ref) (address : Str) :
    t.duplicate id existing conn address = s.duplicate id existing conn address := by
  have peer : t.localPeerId = s.localPeerId := by rw [frame]
  have endpoint := frame.localEndpoint
  apply duplicate_congr peer endpoint
  intro a
  obtain ⟨id, same⟩ := heap a
  rw [same]

theorem receive_received (attached : s.Attached r) : Received r packet s (s.receive r packet) := by
  have heap (a : Ref) : ∃ id, (s.noted r packet).heap a = { s.heap a with peerId := id } := noted_heap
  rw [receive_eq attached]
  cases rival : s.rival r packet with
  | none =>
    have kept : s.displaced r packet = none := by simp [displaced, rival]
    refine ⟨heap, rfl, duplicate_frame heap rfl, ?_, fun k a => ?_, ?_, fun k a other => ?_⟩
    · simp [kept, noted, alter]
    · simp [kept, noted, alter]
    · simp [kept]
    · simp [kept, other]
  | some existing =>
    have lost : s.displaced r packet =
        some (s.duplicate (hex packet.senderId) existing r (s.heap r).peerAddress) := by
      simp [displaced, rival]
    have distinct : existing ≠ r := by
      have passed := (Option.filter_eq_some_iff.mp rival).2
      simp only [ne_eq, decide_eq_true_eq] at passed
      exact passed.1
    have frame (lost : Ref) (peers : InsertionMap Str Ref) :
        SameNode s { ((s.noted r packet).spawnClose lost).removeConnectionReferences lost with
          peerConnections := peers } :=
      (sameNode_noted.trans (sameNode_spawnClose _)).trans
        ((sameNode_removeConnectionReferences _).trans (sameNode_register _ peers))
    refine ⟨heap, frame .., duplicate_frame heap (frame ..), ?_, fun k a => ?_, ?_, fun k a other => ?_⟩
    · simp [lost, removeConnectionReferences, spawnClose, noted, alter]
    · rw [removeConnectionReferences_connections, spawnClose_connections, noted_connections, lost, Ne,
        Ne, Option.some.injEq, eq_comm (a := a)]
    · rw [lost, InsertionMap.get?_set, if_pos rfl, rival]
      by_cases drops : s.duplicate (hex packet.senderId) existing r (s.heap r).peerAddress = existing
      · simp [drops, distinct]
      · simp [(duplicate_mem ..).resolve_left drops, Ne.symm distinct]
    · rw [InsertionMap.get?_set, if_neg other, removeConnectionReferences_peerConnections,
        spawnClose_peerConnections, noted_peerConnections, lost, Ne, Ne, Option.some.injEq,
        eq_comm (a := a)]

theorem Received.ready {t : LANTransport} (received : Received r packet s t) (a : Ref) :
    t.isReady a = s.isReady a := by
  obtain ⟨id, same⟩ := received.heap a
  rw [isReady, same]
  rfl

theorem Received.address {t : LANTransport} (received : Received r packet s t) (a : Ref) :
    (t.heap a).peerAddress = (s.heap a).peerAddress := by
  obtain ⟨id, same⟩ := received.heap a
  rw [same]

/-- Whom the originator is registered for now, it was registered for or came over. -/
theorem Received.originator_mem {t : LANTransport} (received : Received r packet s t)
    (entry : t.peerConnections.get? (originatorKey packet) = some a) :
    a = r ∨ s.peerConnections.get? (originatorKey packet) = some a := by
  rw [received.originator] at entry
  obtain rfl := Option.some.inj entry
  split
  · cases found : s.rival r packet with
    | none => exact Or.inl rfl
    | some existing => exact Or.inr (Option.filter_eq_some_iff.mp found).1
  · exact Or.inl rfl

theorem displaced_eq {existing : Ref} (found : s.peerConnections.get? (originatorKey packet) = some existing)
    (other : existing ≠ r) (ready : s.isReady existing = true) : s.displaced r packet =
      some (s.duplicate (hex packet.senderId) existing r (s.heap r).peerAddress) := by
  have : s.rival r packet = some existing := by
    simp [rival, found, Option.filter_some, other, ready]
  simp [displaced, this]

theorem displaced_eq_some (lost : s.displaced r packet = some a) :
    ∃ existing, s.peerConnections.get? (originatorKey packet) = some existing ∧ existing ≠ r ∧
      s.isReady existing = true ∧ (a = existing ∨ a = r) := by
  obtain ⟨existing, rival, rfl⟩ := Option.map_eq_some_iff.mp lost
  obtain ⟨found, passed⟩ := Option.filter_eq_some_iff.mp rival
  simp only [ne_eq, decide_eq_true_eq] at passed
  exact ⟨existing, found, passed.1, passed.2, duplicate_mem ..⟩

/-- A packet leaves a connection in place unless it is the one it costs. -/
theorem Attached.receive_iff (held : s.Attached a) (attached : s.Attached r) :
    (s.receive r packet).Attached a ↔ s.displaced r packet ≠ some a := by
  have received : Received r packet s (s.receive r packet) := receive_received attached
  constructor
  · intro still lost
    apply still.staying
    rw [received.closing, lost]
    exact List.mem_append_right _ List.mem_cons_self
  · intro kept
    refine ⟨(received.ready a).trans held.ready, ?_, ?_⟩
    · rw [received.closing, List.mem_append, Option.mem_toList]
      exact not_or.mpr ⟨held.staying, kept⟩
    · rw [received.address, received.connections]
      exact ⟨held.registered, kept⟩

def receiveAll (packets : List (Ref × BitchatPacket)) (s : LANTransport) : LANTransport :=
  packets.foldl (fun s x => s.receive x.1 x.2) s

/-- Every originator is heard over one of the connections only, and is not registered for
another one, except for a third connection that is the one to be closed. -/
structure Harmless (a b : Ref) (packets : List (Ref × BitchatPacket)) (s : LANTransport) : Prop where
  sameLink : ∀ x ∈ packets, ∀ y ∈ packets, originatorKey x.2 = originatorKey y.2 → x.1 = y.1
  registered : ∀ before x after, packets = before ++ x :: after →
    ∀ existing, s.peerConnections.get? (originatorKey x.2) = some existing →
      s.isReady existing = true → existing ≠ x.1 → existing ≠ a ∧ existing ≠ b ∧
        ((∃ y ∈ before, s.peerConnections.get? (originatorKey y.2) = some existing) ∨
          s.displaced x.1 x.2 = some existing)

theorem closing_receive (closing : a ∈ s.closing) : a ∈ (s.receive r packet).closing := by
  unfold receive handlePacketReceived
  split
  · exact closing
  · unfold deduplicate
    simp only
    split
    · exact closing
    · split
      · exact closing
      · exact List.mem_append_left _ closing

theorem closing_receiveAll (packets : List (Ref × BitchatPacket)) (closing : a ∈ s.closing) :
    a ∈ (s.receiveAll packets).closing := by
  induction packets generalizing s with
  | nil => exact closing
  | cons x rest ih => exact ih (closing_receive closing)

section Sequence
variable {rest : List (Ref × BitchatPacket)} {t : LANTransport}

/-- The connection that a harmless packet costs is the third one it was registered for. -/
theorem displaced_third (one : r = a ∨ r = b) (keepsA : s.displaced r packet ≠ some a)
    (keepsB : s.displaced r packet ≠ some b) {existing : Ref}
    (found : s.peerConnections.get? (originatorKey packet) = some existing)
    (other : existing ≠ r) (ready : s.isReady existing = true) :
    s.displaced r packet = some existing := by
  have lost := displaced_eq found other ready
  rcases duplicate_mem (s := s) (hex packet.senderId) existing r (s.heap r).peerAddress with
    first | second
  · rw [lost, first]
  · rw [second] at lost
    rcases one with rfl | rfl
    · exact absurd lost keepsA
    · exact absurd lost keepsB

/-- A packet costs the same connection before and after another one. -/
theorem Received.displaced (received : Received r packet s t) {q : Ref} {next : BitchatPacket}
    {existing : Ref} (before : s.peerConnections.get? (originatorKey next) = some existing)
    (after : t.peerConnections.get? (originatorKey next) = some existing) (other : existing ≠ q)
    (ready : s.isReady existing = true) : t.displaced q next = s.displaced q next := by
  rw [displaced_eq before other ready, displaced_eq after other ((received.ready existing).trans ready),
    received.compare, received.address]

/-- What is harmless for a sequence is harmless for its rest. -/
theorem Harmless.tail (harmless : Harmless a b ((r, packet) :: rest) s)
    (received : Received r packet s t) (one : r = a ∨ r = b)
    (keepsA : s.displaced r packet ≠ some a) (keepsB : s.displaced r packet ≠ some b) :
    Harmless a b rest t := by
  have kept : s.displaced r packet ≠ some r := by
    rcases one with rfl | rfl
    · exact keepsA
    · exact keepsB
  refine ⟨fun x hx y hy => harmless.sameLink x (List.mem_cons_of_mem _ hx) y (List.mem_cons_of_mem _ hy),
    ?_⟩
  rintro before ⟨q, next⟩ after rfl existing found ready other
  rw [received.ready] at ready
  by_cases same : originatorKey next = originatorKey packet
  · -- the originator is registered for the connection of the first packet
    have link := harmless.sameLink (q, next) (by simp) (r, packet) (by simp) same
    rw [same, received.originator, if_neg kept] at found
    exact absurd ((Option.some.inj found).symm.trans link.symm) other
  · obtain ⟨found', stays⟩ := (received.others _ _ same).mp found
    obtain ⟨notA, notB, lost⟩ :=
      harmless.registered ((r, packet) :: before) (q, next) after rfl existing found' ready other
    have third : existing ≠ r := by
      rcases one with rfl | rfl
      · exact notA
      · exact notB
    have fresh : s.peerConnections.get? (originatorKey packet) ≠ some existing := fun entry =>
      stays (displaced_third one keepsA keepsB entry third ready)
    refine ⟨notA, notB, lost.imp ?_ fun lost => ?_⟩
    · rintro ⟨y, member, entry⟩
      rcases List.mem_cons.mp member with rfl | member
      · exact absurd entry fresh
      · refine ⟨y, member, (received.others _ _ fun same => ?_).mpr ⟨entry, stays⟩⟩
        rw [same] at entry
        exact fresh entry
    · exact (received.displaced found' found other ready).trans lost

theorem Harmless.cons (harmless : Harmless a b rest t) (received : Received r packet s t)
    (attached : s.Attached r) (one : r = a ∨ r = b) (keepsA : s.displaced r packet ≠ some a)
    (keepsB : s.displaced r packet ≠ some b) : Harmless a b ((r, packet) :: rest) s := by
  have kept : s.displaced r packet ≠ some r := by
    rcases one with rfl | rfl
    · exact keepsA
    · exact keepsB
  have entered : t.peerConnections.get? (originatorKey packet) = some r := by
    rw [received.originator, if_neg kept]
  have third {existing : Ref} (found : s.peerConnections.get? (originatorKey packet) = some existing)
      (other : existing ≠ r) (ready : s.isReady existing = true) :
      existing ≠ a ∧ existing ≠ b ∧ s.displaced r packet = some existing := by
    have lost := displaced_third one keepsA keepsB found other ready
    refine ⟨?_, ?_, lost⟩
    · rintro rfl
      exact keepsA lost
    · rintro rfl
      exact keepsB lost
  have head (y : Ref × BitchatPacket) (member : y ∈ rest)
      (same : originatorKey y.2 = originatorKey packet) : y.1 = r := by
    by_contra other
    obtain ⟨before, after, rfl⟩ := List.append_of_mem member
    obtain ⟨notA, notB, _⟩ := harmless.registered before y after rfl r (same ▸ entered)
      ((received.ready r).trans attached.ready) (Ne.symm other)
    rcases one with rfl | rfl
    · exact notA rfl
    · exact notB rfl
  constructor
  · intro x hx y hy same
    rcases List.mem_cons.mp hx with rfl | hx <;> rcases List.mem_cons.mp hy with rfl | hy
    · rfl
    · exact (head y hy same.symm).symm
    · exact head x hx same
    · exact harmless.sameLink x hx y hy same
  · rintro before ⟨q, next⟩ after whole existing found ready other
    rcases List.cons_eq_append_iff.mp whole with ⟨rfl, whole⟩ | ⟨before, rfl, rfl⟩
    · cases whole
      obtain ⟨notA, notB, lost⟩ := third found other ready
      exact ⟨notA, notB, Or.inr lost⟩
    · by_cases same : originatorKey next = originatorKey packet
      · have link : q = r := head (q, next) (by simp) same
        rw [same] at found
        obtain ⟨notA, notB, _⟩ := third found (link ▸ other) ready
        exact ⟨notA, notB, Or.inl ⟨(r, packet), by simp, found⟩⟩
      · by_cases gone : s.displaced r packet = some existing
        · obtain ⟨first, entry, distinct, _, which⟩ := displaced_eq_some gone
          rcases which with rfl | rfl
          · refine ⟨fun equal => keepsA (equal ▸ gone), fun equal => keepsB (equal ▸ gone), Or.inl ?_⟩
            exact ⟨(r, packet), by simp, entry⟩
          · exact absurd gone kept
        · have found' := (received.others _ _ same).mpr ⟨found, gone⟩
          obtain ⟨notA, notB, lost⟩ := harmless.registered before (q, next) after rfl existing found'
            ((received.ready existing).trans ready) other
          refine ⟨notA, notB, lost.imp ?_ fun lost => ?_⟩
          · rintro ⟨y, member, entry⟩
            refine ⟨y, List.mem_cons_of_mem _ member, ?_⟩
            by_cases again : originatorKey y.2 = originatorKey packet
            · rw [again, entered] at entry
              obtain rfl := Option.some.inj entry
              rcases one with rfl | rfl
              · exact absurd rfl notA
              · exact absurd rfl notB
            · exact ((received.others _ _ again).mp entry).1
          · exact (received.displaced found found' other ready).symm.trans lost

end Sequence

/-- A sequence whose first packet costs one of the connections is not harmless. -/
theorem not_harmless {c : Ref} {rest : List (Ref × BitchatPacket)} (lost : s.displaced r packet = some c)
    (which : c = a ∨ c = b) : ¬ Harmless a b ((r, packet) :: rest) s := by
  intro harmless
  obtain ⟨existing, found, other, ready, _⟩ := displaced_eq_some lost
  obtain ⟨notA, notB, member⟩ := harmless.registered [] (r, packet) rest rfl existing found ready other
  rcases member with ⟨_, member, _⟩ | again
  · cases member
  · obtain rfl := Option.some.inj (lost.symm.trans again)
    exact which.elim notA notB

/-- Two connections survive a sequence of packets over them exactly when it is harmless. -/
theorem receiveAll_attached {packets : List (Ref × BitchatPacket)} (first : s.Attached a)
    (second : s.Attached b) (between : ∀ x ∈ packets, x.1 = a ∨ x.1 = b) :
    ((s.receiveAll packets).Attached a ∧ (s.receiveAll packets).Attached b) ↔ Harmless a b packets s := by
  induction packets generalizing s with
  | nil =>
    refine iff_of_true ⟨first, second⟩ ⟨by simp, fun before x after whole => ?_⟩
    cases before <;> simp at whole
  | cons x rest ih =>
    obtain ⟨r, packet⟩ := x
    have one : r = a ∨ r = b := between (r, packet) List.mem_cons_self
    have attached : s.Attached r := by
      rcases one with rfl | rfl
      · exact first
      · exact second
    have received : Received r packet s (s.receive r packet) := receive_received attached
    have gone {c : Ref} (lost : s.displaced r packet = some c) :
        ¬ (s.receiveAll ((r, packet) :: rest)).Attached c := by
      intro still
      refine still.staying (closing_receiveAll (s := s.receive r packet) rest ?_)
      rw [received.closing, lost]
      exact List.mem_append_right _ List.mem_cons_self
    by_cases keepsA : s.displaced r packet = some a
    · exact iff_of_false (fun both => gone keepsA both.1) (not_harmless keepsA (Or.inl rfl))
    · by_cases keepsB : s.displaced r packet = some b
      · exact iff_of_false (fun both => gone keepsB both.2) (not_harmless keepsB (Or.inr rfl))
      · have further := ih ((first.receive_iff attached).mpr keepsA)
          ((second.receive_iff attached).mpr keepsB) fun x member => between x (List.mem_cons_of_mem _ member)
        constructor
        · exact fun both => (further.mp both).cons received attached one keepsA keepsB
        · exact fun harmless => further.mpr (harmless.tail received one keepsA keepsB)

/-- In every state that packets over two connections lead to, both are still in place, exactly
when the sequence is harmless. -/
theorem neighbours_stay {packets : List (Ref × BitchatPacket)} (first : s.Attached a)
    (second : s.Attached b) (between : ∀ x ∈ packets, x.1 = a ∨ x.1 = b) :
    (∀ n, (s.receiveAll (packets.take n)).Attached a ∧ (s.receiveAll (packets.take n)).Attached b) ↔
      Harmless a b packets s := by
  constructor
  · intro stay
    have last := stay packets.length
    rw [List.take_length] at last
    exact (receiveAll_attached first second between).mp last
  · intro harmless n
    refine (receiveAll_attached first second fun x member => between x (List.mem_of_mem_take member)).mpr
      ⟨fun x hx y hy => harmless.sameLink x (List.mem_of_mem_take hx) y (List.mem_of_mem_take hy), ?_⟩
    intro before x after whole
    apply harmless.registered before x (after ++ packets.drop n)
    rw [← List.cons_append, ← List.append_assoc, ← whole, List.take_append_drop]

end LANTransport
end Bitchat.Lan

namespace Bitchat.Lan
open Protocol Str
attribute [local instance] asciiCase

/-- A transport that has accepted connections from two neighbours. -/
def twoNeighbours : LANTransport :=
  let fresh : LANTransport :=
    { localPeerId := hex (List.replicate 8 5)
      server := { boundPort := 41235 }
      localIp := "192.168.1.10".toList
      localIps := ["192.168.1.10".toList] }
  (fresh.handleClient "192.168.1.20:50001".toList).handleClient "192.168.1.30:50002".toList

/-- A message of the first neighbour, and the copy that the second one relays. -/
def fromFirst : BitchatPacket := .note 1 7

def relayedFirst : BitchatPacket := { fromFirst with ttl := 6, ttl_le := by decide }

def fromSecond : BitchatPacket := .note 2 7

instance (r : Ref) (s : LANTransport) : Decidable (s.Attached r) :=
  decidable_of_iff (s.isReady r = true ∧ r ∉ s.closing ∧
      s.connections.get? (s.heap r).peerAddress = some r)
    ⟨fun h => ⟨h.1, h.2.1, h.2.2⟩, fun h => ⟨h.ready, h.staying, h.registered⟩⟩

/-- A message of a node that has been heard over a third connection before. -/
def fromNinth : BitchatPacket := .note 9 7

def thirdConnected : LANTransport :=
  (twoNeighbours.handleClient "192.168.1.40:50003".toList).receive 2 fromNinth

def ownMessages : List (Ref × BitchatPacket) := [(0, fromNinth), (1, fromSecond), (0, fromNinth)]

/-- Each neighbour's own messages leave both connections in place, and cost the third one. -/
theorem own_messages_stay :
    (∀ n, (thirdConnected.receiveAll (ownMessages.take n)).Attached 0 ∧
      (thirdConnected.receiveAll (ownMessages.take n)).Attached 1) ∧
    2 ∈ (thirdConnected.receiveAll ownMessages).closing := by
  have known : ∀ x ∈ ownMessages,
      thirdConnected.peerConnections.get? (LANTransport.originatorKey x.2) = none ∨
      (thirdConnected.peerConnections.get? (LANTransport.originatorKey x.2) = some 2 ∧
        thirdConnected.displaced x.1 x.2 = some 2) := by decide +kernel
  have harmless : LANTransport.Harmless 0 1 ownMessages thirdConnected := by
    refine ⟨by decide +kernel, fun before x after whole existing found _ _ => ?_⟩
    rcases known x (by simp [whole]) with nobody | ⟨third, lost⟩
    · rw [nobody] at found
      cases found
    · obtain rfl := Option.some.inj (third.symm.trans found)
      exact ⟨by decide, by decide, Or.inr lost⟩
  have between : ∀ x ∈ ownMessages, x.1 = 0 ∨ x.1 = 1 := by decide +kernel
  exact ⟨(LANTransport.neighbours_stay (by decide +kernel) (by decide +kernel) between).mpr harmless,
    by decide +kernel⟩

/-- The relayed copy of a neighbour's message costs a connection. -/
theorem not_every_neighbour_stays : twoNeighbours.Attached 0 ∧ twoNeighbours.Attached 1 ∧
    hostOf (twoNeighbours.heap 0).peerAddress ≠ hostOf (twoNeighbours.heap 1).peerAddress ∧
    ¬ (twoNeighbours.receiveAll [(0, fromFirst), (1, relayedFirst)]).Attached 1 := by
  refine ⟨by decide +kernel, by decide +kernel, by decide +kernel, by decide +kernel⟩

end Bitchat.Lan
