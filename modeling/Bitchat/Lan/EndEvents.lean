import Bitchat.Lan.ConnectionEnds

/-! What arrives at a node with two ends: packets, of which one may cost an end, and the
connection that its peer dialed, which may cost the node either of the two. -/
namespace Bitchat.Lan
open Protocol Str LANTransport

section Accept
variable {own : Str} {address : Bool → Str} {stage : Bool → Stage} {s t : LANTransport}

/-- The accepted connection as the server makes it. -/
def acceptedObject (at' : Str) : LANConnection :=
  { peerAddress := at', isInbound := true, isConnected := true, ready := true }

/-- The server has made the connection and hands it over. -/
def served (at' : Str) (s : LANTransport) : LANTransport :=
  { s with
    server.connections := s.server.connections.set at' 1
    heap := Function.update s.heap 1 (acceptedObject at')
    nextRef := 2 }

@[simp] theorem served_heap_one {at' : Str} : (served at' s).heap 1 = acceptedObject at' := by
  simp [served]

@[simp] theorem served_heap_zero {at' : Str} : (served at' s).heap 0 = s.heap 0 := by
  simp [served]

/-- The state in which the server has made the connection; the rest is as before. -/
structure Served (at' : Str) (s u : LANTransport) : Prop where
  peerId : u.localPeerId = s.localPeerId
  maxConnections : u.maxConnections = s.maxConnections
  serverMax : u.server.maxConnections = s.server.maxConnections
  first : u.heap 0 = s.heap 0
  second : u.heap 1 = acceptedObject at'
  connections : u.connections = s.connections
  peerConnections : u.peerConnections = s.peerConnections
  closing : u.closing = s.closing
  departing : u.departing = s.departing

theorem served_served (at' : Str) : Served at' s (served at' s) where
  peerId := rfl
  maxConnections := rfl
  serverMax := rfl
  first := by simp [served]
  second := by simp [served]
  connections := rfl
  peerConnections := rfl
  closing := rfl
  departing := rfl

/-- The accepted end joins the dialed one. -/
theorem View.accept {dialed accepted : Stage} {u : LANTransport} (view : View own address stage s)
    (served : Served (address false) s u)
    (settings : t = { u with
      heap := t.heap
      closing := t.closing
      connections := t.connections
      peerConnections := t.peerConnections
      addressToPeerKey := t.addressToPeerKey
      state := t.state })
    (dialedHeap : t.heap 0 = u.heap 0) (first : Shows 0 dialed t)
    (kind : (t.heap 1).peerAddress = (u.heap 1).peerAddress ∧
      (t.heap 1).isInbound = (u.heap 1).isInbound)
    (alive : accepted ≠ .pending) (second : Shows 1 accepted t)
    (tables : ∀ k r, t.connections.get? k = some r → u.connections.get? k = some r ∨
      (r = 1 ∧ k = address false))
    (peers : ∀ k r, t.peerConnections.get? k = some r → u.peerConnections.get? k = some r ∨ r = 1) :
    View own address (fun e => if e then dialed else accepted) t where
  peerId := by
    rw [settings, ← view.peerId]
    exact served.peerId
  room := by
    rw [settings]
    exact served.maxConnections ▸ view.room
  serverRoom := by
    rw [settings]
    exact served.serverMax ▸ view.serverRoom
  shows' e _ := by
    cases e
    · exact second
    · exact first
  ends e _ := by
    cases e
    · rw [served.second] at kind
      exact kind
    · have same : t.heap 0 = s.heap 0 := dialedHeap.trans served.first
      rw [show refOf true = 0 from rfl, same]
      exact view.ends true (Or.inl rfl)
  tables k r entry := by
    rcases tables k r entry with before | ⟨rfl, rfl⟩
    · rw [served.connections] at before
      obtain ⟨e, _, rfl, rfl⟩ := view.tables k r before
      cases e
      · exact ⟨false, Or.inr (by simpa using alive), rfl, rfl⟩
      · exact ⟨true, Or.inl rfl, rfl, rfl⟩
    · exact ⟨false, Or.inr (by simpa using alive), rfl, rfl⟩
  peers k r entry := by
    rcases peers k r entry with before | rfl
    · rw [served.peerConnections] at before
      obtain ⟨e, _, rfl⟩ := view.peers k r before
      cases e
      · exact ⟨false, Or.inr (by simpa using alive), rfl⟩
      · exact ⟨true, Or.inl rfl, rfl⟩
    · exact ⟨false, Or.inr (by simpa using alive), rfl⟩
  fresh early := absurd early (by simpa using alive)

/-- A connection that is entered in the tables is in use. -/
theorem shows_register {at' key : Str} (object : s.heap 1 = acceptedObject at')
    (staying : 1 ∉ s.closing) (here : 1 ∉ s.departing) : Shows 1 .attached (s.register 1 key) := by
  have after : (s.register 1 key).heap 1 = { acceptedObject at' with wired := true } := by
    simp [register, alter, object]
  constructor
  · simp [after, acceptedObject]
  · simp [after, acceptedObject]
  · simp [after]
  · rw [after]
    simp [register, object, acceptedObject]
  · simp
  · simp
  · simp
  · exact fun _ => staying
  · exact iff_of_false here (by decide)

/-- Entering a new object in the tables only adds its entries. -/
theorem register_tables {key k : Str} {r : Ref}
    (absent : s.connections.get? (s.heap 1).peerAddress = none) :
    ((s.register 1 key).connections.get? k = some r ↔
      s.connections.get? k = some r ∨ (r = 1 ∧ k = (s.heap 1).peerAddress)) ∧
    ((s.register 1 key).peerConnections.get? k = some r → s.peerConnections.get? k = some r ∨ r = 1) := by
  constructor
  · simp only [register, InsertionMap.get?_set]
    by_cases same : k = (s.heap 1).peerAddress
    · simp [same, absent, eq_comm]
    · simp [same]
  · simp only [register, InsertionMap.get?_set]
    split
    · exact fun entry => Or.inr (Option.some.inj entry).symm
    · exact Or.inl

@[simp] theorem register_heap_zero {key : Str} : (s.register 1 key).heap 0 = s.heap 0 := by
  simp [register, alter]

theorem register_kind {key : Str} : ((s.register 1 key).heap 1).peerAddress = (s.heap 1).peerAddress ∧
    ((s.register 1 key).heap 1).isInbound = (s.heap 1).isInbound := by
  simp [register, alter]

/-- The connection of a full transport or the loser of a comparison, never entered in the tables. -/
theorem shows_refused {at' : Str} (object : s.heap 1 = acceptedObject at')
    (unregistered : ∀ k, s.connections.get? k ≠ some 1)
    (unlisted : ∀ k, s.peerConnections.get? k ≠ some 1) (here : 1 ∉ s.departing) :
    Shows 1 .doomed (s.spawnClose 1) := by
  have after : (s.spawnClose 1).heap 1 = acceptedObject at' := object
  constructor
  · simp [after, acceptedObject]
  · simp [after, acceptedObject]
  · exact fun ⟨k, entry⟩ => absurd entry (unregistered k)
  · simp
  · exact fun _ => unregistered
  · exact fun _ => unlisted
  · exact fun _ => List.mem_append_right _ List.mem_cons_self
  · simp
  · exact iff_of_false here (by decide)

/-- What is the case when nothing is accepted yet. -/
theorem View.early (view : View own address stage s) (early : stage false = .pending) :
    (∀ k r, s.connections.get? k = some r → r = 0 ∧ k = address true) ∧
    ∀ k r, s.peerConnections.get? k = some r → r = 0 := by
  have dialedOnly {e : Bool} (started : Started stage e) : e = true := by
    cases e
    · exact absurd early (started.resolve_left (by decide))
    · rfl
  constructor
  · intro k r entry
    obtain ⟨e, started, rfl, rfl⟩ := view.tables k r entry
    rw [dialedOnly started]
    exact ⟨rfl, rfl⟩
  · intro k r entry
    obtain ⟨e, started, rfl⟩ := view.peers k r entry
    rw [dialedOnly started]
    rfl

section Entered
variable {u : LANTransport} {key : Str}

/-- The dialed end is as before where its entries are. -/
theorem View.dialedFrame (view : View own address stage s) (heap : t.heap 0 = s.heap 0)
    (connections : ∀ k, t.connections.get? k = some 0 ↔ s.connections.get? k = some 0)
    (peers : ∀ k, t.peerConnections.get? k = some 0 → s.peerConnections.get? k = some 0)
    (closing : 0 ∈ t.closing ↔ 0 ∈ s.closing) (departing : t.departing = s.departing) :
    Shows 0 (stage true) t :=
  (view.shows' true (Or.inl rfl)).frame ⟨(s.heap 0).peerId, heap⟩ connections
    (fun k entry => Or.inr (peers k entry)) closing (by rw [departing])

theorem View.absent (view : View own address stage s) (distinct : address true ≠ address false)
    (early : stage false = .pending) : s.connections.get? (address false) = none := by
  by_contra found
  obtain ⟨r, entry⟩ := Option.ne_none_iff_exists'.mp found
  exact distinct ((view.early early).1 _ r entry).2.symm

theorem Served.place {at' : Str} (served : Served at' s u) : (u.heap 1).peerAddress = at' := by
  rw [served.second]
  rfl

/-- No other connection to the peer is in use: the new one is entered. -/
theorem View.accept_new (view : View own address stage s) (served : Served (address false) s u)
    (distinct : address true ≠ address false) (early : stage false = .pending) :
    View own address (fun e => if e then stage true else .attached) (u.register 1 key) := by
  obtain ⟨_, _, closing, departing, _, _⟩ := view.fresh early
  have absent : u.connections.get? (u.heap 1).peerAddress = none := by
    rw [served.place, served.connections]
    exact view.absent distinct early
  refine view.accept served rfl register_heap_zero ?_ register_kind (by decide) ?_ ?_ ?_
  · apply view.dialedFrame (register_heap_zero.trans served.first)
    · intro k
      rw [(register_tables absent).1, served.connections]
      exact or_iff_left fun new => absurd new.1 (by decide)
    · intro k entry
      rw [← served.peerConnections]
      exact ((register_tables absent).2 entry).resolve_right (by decide)
    · rw [← served.closing]
      rfl
    · exact served.departing
  · exact shows_register served.second (served.closing ▸ closing) (served.departing ▸ departing)
  · intro k r entry
    rw [(register_tables absent).1, served.place] at entry
    exact entry
  · exact fun k r => (register_tables absent).2

/-- The dialed connection stays. -/
theorem View.accept_refused (view : View own address stage s) (served : Served (address false) s u)
    (early : stage false = .pending) :
    View own address (fun e => if e then stage true else .doomed) (u.spawnClose 1) := by
  obtain ⟨_, _, _, departing, _, _⟩ := view.fresh early
  obtain ⟨tables, peers⟩ := view.early early
  refine view.accept served rfl rfl ?_ ⟨rfl, rfl⟩ (by decide) ?_ (fun _ _ => Or.inl) (fun _ _ => Or.inl)
  · apply view.dialedFrame (t := u.spawnClose 1) served.first
    · intro k
      rw [spawnClose_connections, served.connections]
    · intro k entry
      rwa [spawnClose_peerConnections, served.peerConnections] at entry
    · simp [spawnClose, served.closing]
    · exact served.departing
  · apply shows_refused served.second
    · intro k entry
      rw [served.connections] at entry
      exact absurd (tables k 1 entry).1 (by decide)
    · intro k entry
      rw [served.peerConnections] at entry
      exact absurd (peers k 1 entry) (by decide)
    · rw [served.departing]
      exact departing

/-- The dialed connection goes. -/
theorem View.accept_instead (view : View own address stage s) (served : Served (address false) s u)
    (distinct : address true ≠ address false) (early : stage false = .pending)
    (inUse : stage true = .attached) :
    View own address (fun e => if e then .doomed else .attached)
      (((u.spawnClose 0).removeConnectionReferences 0).register 1 key) := by
  obtain ⟨_, _, closing, departing, _, _⟩ := view.fresh early
  have dialed := view.shows' true (Or.inl rfl)
  rw [inUse] at dialed
  have absent : ((u.spawnClose 0).removeConnectionReferences 0).connections.get?
      (((u.spawnClose 0).removeConnectionReferences 0).heap 1).peerAddress = none := by
    rw [Option.eq_none_iff_forall_ne_some]
    intro r entry
    obtain ⟨entry, _⟩ := removeConnectionReferences_connections.mp entry
    rw [spawnClose_connections, served.connections] at entry
    change s.connections.get? (u.heap 1).peerAddress = some r at entry
    rw [served.place, view.absent distinct early] at entry
    cases entry
  have object : ((((u.spawnClose 0).removeConnectionReferences 0).register 1 key).heap 0) = s.heap 0 :=
    register_heap_zero.trans served.first
  have unregistered (k : Str) :
      (((u.spawnClose 0).removeConnectionReferences 0).register 1 key).connections.get? k ≠ some 0 := by
    intro entry
    rcases (register_tables absent).1.mp entry with before | ⟨other, _⟩
    · exact (removeConnectionReferences_connections.mp before).2 rfl
    · cases other
  refine view.accept served rfl register_heap_zero ?_ register_kind (by decide) ?_ ?_ ?_
  · constructor
    · rw [object]
      exact iff_of_true (dialed.live.mpr (Or.inl rfl)) (Or.inr rfl)
    · rw [object]
      exact dialed.ready
    · exact fun ⟨k, entry⟩ => absurd entry (unregistered k)
    · simp
    · exact fun _ => unregistered
    · intro _ k entry
      rcases (register_tables absent).2 entry with before | other
      · exact (removeConnectionReferences_peerConnections.mp before).2 rfl
      · cases other
    · exact fun _ => List.mem_append_right _ List.mem_cons_self
    · simp
    · refine iff_of_false (fun member => ?_) (by decide)
      change 0 ∈ u.departing at member
      rw [served.departing] at member
      exact absurd (dialed.departing.mp member) (by decide)
  · refine shows_register served.second ?_ ?_
    · change 1 ∉ u.closing ++ [0]
      rw [served.closing]
      simpa using closing
    · exact served.departing ▸ departing
  · intro k r entry
    rw [(register_tables absent).1, removeConnectionReferences_connections] at entry
    refine entry.imp And.left ?_
    exact fun both => ⟨both.1, both.2.trans served.place⟩
  · intro k r entry
    refine ((register_tables absent).2 entry).imp_left fun before => ?_
    exact (removeConnectionReferences_peerConnections.mp before).1

end Entered
end Accept

section Events
variable {own : Str} {address : Bool → Str} {stage : Bool → Stage} {s t : LANTransport} {e : Bool}
variable [CaseMapping] {packet : BitchatPacket}

/-- A packet leaves the ends that it does not cost a connection as they were. -/
theorem View.received {after : Bool → Stage} (view : View own address stage s)
    (attached : stage e = .attached) (received : Received (refOf e) packet s t)
    (started : ∀ d, Started after d ↔ Started stage d)
    (kept : ∀ d, s.displaced (refOf e) packet ≠ some (refOf d) → after d = stage d)
    (lost : ∀ d, s.displaced (refOf e) packet = some (refOf d) → Shows (refOf d) (after d) t)
    (fresh : after false = .pending → s.displaced (refOf e) packet = none) :
    View own address after t where
  peerId := by
    rw [received.frame]
    exact view.peerId
  room := by
    rw [received.frame]
    exact view.room
  serverRoom := by
    rw [received.frame]
    exact view.serverRoom
  shows' d exists' := by
    by_cases costs : s.displaced (refOf e) packet = some (refOf d)
    · exact lost d costs
    · rw [kept d costs]
      apply (view.shows' d ((started d).mp exists')).frame (received.heap _)
      · intro k
        rw [received.connections]
        exact and_iff_left costs
      · intro k entry
        by_cases same : k = originatorKey packet
        · subst same
          refine (received.originator_mem entry).imp_left fun this' => ?_
          rw [refOf_injective this', attached]
        · exact Or.inr ((received.others k _ same).mp entry).1
      · rw [received.closing, List.mem_append, Option.mem_toList]
        exact or_iff_left costs
      · rw [received.frame]
  ends d exists' := by
    obtain ⟨id, same⟩ := received.heap (refOf d)
    rw [same]
    exact view.ends d ((started d).mp exists')
  tables k r entry := by
    simp only [started]
    exact view.tables k r ((received.connections k r).mp entry).1
  peers k r entry := by
    simp only [started]
    by_cases same : k = originatorKey packet
    · subst same
      rcases received.originator_mem entry with rfl | before
      · exact ⟨e, Or.inr (by simp [attached]), rfl⟩
      · exact view.peers _ r before
    · exact view.peers k r ((received.others k r same).mp entry).1
  fresh early := by
    have nothing := fresh early
    have unchanged : ∀ d, after d = stage d := fun d => kept d (by simp [nothing])
    rw [unchanged] at early ⊢
    obtain ⟨id, same⟩ := received.heap 1
    rw [same, received.frame, received.closing, nothing, Option.toList_none, List.append_nil]
    exact view.fresh early

/-- The connection that a packet costs is doomed. -/
theorem doomed_of_displaced {r lost : Ref} (received : Received r packet s t)
    (costs : s.displaced r packet = some lost) (before : Shows lost .attached s) : Shows lost .doomed t := by
  obtain ⟨id, same⟩ := received.heap lost
  have unregistered (k : Str) : t.connections.get? k ≠ some lost := fun entry =>
    ((received.connections k lost).mp entry).2 costs
  constructor
  · rw [same]
    simpa using before.live
  · rw [same]
    exact before.ready
  · exact fun ⟨k, entry⟩ => absurd entry (unregistered k)
  · simp
  · exact fun _ => unregistered
  · intro _ k entry
    by_cases key : k = originatorKey packet
    · rw [key, received.originator] at entry
      obtain ⟨existing, found, other, ready, which⟩ := displaced_eq_some costs
      have rival : s.rival r packet = some existing := by
        simp [LANTransport.rival, found, Option.filter_some, other, ready]
      rw [costs, rival] at entry
      split at entry
      next self =>
        obtain rfl := Option.some.inj self
        exact other (Option.some.inj entry)
      next notSelf => exact notSelf entry.symm
    · exact ((received.others k lost key).mp entry).2 costs
  · intro _
    rw [received.closing, costs]
    exact List.mem_append_right _ List.mem_cons_self
  · simp
  · rw [received.frame]
    simpa using before.departing

/-- A packet over a connection in use closes nothing, or one of two that were both in use: the
accepted one if the dialed one is to be kept. -/
theorem View.receive (view : View own address stage s) (attached : stage e = .attached)
    {lost : Bool} (keeps : s.shouldKeepOutbound (hex packet.senderId) (address e) = !lost) :
    (s.rival (refOf e) packet = none ∧ View own address stage (s.receive (refOf e) packet)) ∨
    (s.rival (refOf e) packet ≠ none ∧ stage = (fun _ => .attached) ∧
      View own address (Function.update stage lost .doomed) (s.receive (refOf e) packet)) := by
  have started : Started stage e := Or.inr (by simp [attached])
  have shows' := view.shows' e started
  rw [attached] at shows'
  have received : Received (refOf e) packet s (s.receive (refOf e) packet) :=
    receive_received shows'.attached
  cases found : s.rival (refOf e) packet with
  | none =>
    have nothing : s.displaced (refOf e) packet = none := by simp [displaced, found]
    refine Or.inl ⟨rfl, view.received attached received (fun _ => Iff.rfl) (fun _ _ => rfl) ?_ ?_⟩
    · simp [nothing]
    · exact fun _ => nothing
  | some existing =>
    obtain ⟨entry, passed⟩ := Option.filter_eq_some_iff.mp found
    simp only [ne_eq, decide_eq_true_eq] at passed
    obtain ⟨other, ready⟩ := passed
    obtain ⟨d, started', rfl⟩ := view.peers _ _ entry
    have distinct : d ≠ e := fun same => other (congrArg refOf same)
    have both : stage d = .attached := by
      rcases (view.shows' d started').isReady.mp ready with attached' | doomed
      · exact attached'
      · exact absurd entry ((view.shows' d started').unlisted doomed _)
    have all : stage = fun _ => .attached := by
      funext c
      by_cases same : c = e
      · rw [same, attached]
      · rw [show c = d by cases c <;> cases d <;> cases e <;> simp at same distinct ⊢, both]
    have costs : s.displaced (refOf e) packet = some (refOf lost) := by
      have inbound := (view.ends d started').2
      rw [displaced, found, Option.map_some, duplicate, (view.ends e started).1, keeps, inbound]
      cases lost <;> cases d <;> cases e <;> simp at distinct ⊢
    have shows'' := view.shows' lost (Or.inr (by simp [all]))
    refine Or.inr ⟨by simp, all, view.received attached received (fun c => ?_) (fun c kept => ?_) ?_ ?_⟩
    · exact Started.update (Or.inr (by simp [all])) (by decide)
    · rw [Function.update_of_ne]
      rintro rfl
      exact kept costs
    · intro c lost'
      obtain rfl := refOf_injective (Option.some.inj (costs.symm.trans lost'))
      rw [Function.update_self]
      exact doomed_of_displaced received costs (by simpa [all] using shows'')
    · intro pending
      cases lost
      · simp at pending
      · simp [all] at pending

/-- The read loop of an end that is not closed. -/
theorem View.readPacket (view : View own address stage s) (distinct : address true ≠ address false)
    (live : stage e = .attached ∨ stage e = .doomed) {lost : Bool}
    (keeps : s.shouldKeepOutbound (hex packet.senderId) (address e) = !lost) :
    (¬ (stage e = .attached ∧ s.rival (refOf e) packet ≠ none) ∧
      View own address stage (s.readPacket (refOf e) packet)) ∨
    ((stage e = .attached ∧ s.rival (refOf e) packet ≠ none) ∧ stage = (fun _ => .attached) ∧
      View own address (Function.update stage lost .doomed) (s.readPacket (refOf e) packet)) := by
  have started : Started stage e := Or.inr fun pending => by simp [pending] at live
  have shows' := view.shows' e started
  have connected : (s.heap (refOf e)).isConnected = true := shows'.live.mpr live
  rcases live with attached | doomed
  · have wired := shows'.wired ⟨_, shows'.registered (Or.inr attached)⟩
    have reads : s.readPacket (refOf e) packet = s.receive (refOf e) packet :=
      if_pos ⟨connected, wired⟩
    rw [reads]
    rcases view.receive attached keeps with ⟨none', view'⟩ | ⟨some', all, view'⟩
    · exact Or.inl ⟨fun both => both.2 none', view'⟩
    · exact Or.inr ⟨⟨attached, some'⟩, all, view'⟩
  · refine Or.inl ⟨fun both => by simp [doomed] at both, ?_⟩
    have nowhere : s.connections.get? (address e) = none := by
      by_contra found
      obtain ⟨a, entry⟩ := Option.ne_none_iff_exists'.mp found
      obtain ⟨d, _, rfl, same⟩ := view.tables _ a entry
      obtain rfl : e = d := by
        cases d <;> cases e <;> first | rfl | exact absurd same distinct | exact absurd same.symm distinct
      exact shows'.unregistered (Or.inl doomed) _ entry
    unfold LANTransport.readPacket
    split
    · simp only [handlePacketReceived, (view.ends e started).1, nowhere]
      exact view.untouched _ _
    · exact view

/-- While nothing is accepted, only the dialed connection can be found, and only when in use. -/
theorem findExistingConnection_dialed {at' : Str} (remote : isLoopback (hostOf at') = false)
    (host : hostOf (s.heap 0).peerAddress = hostOf at') (absent : s.connections.get? at' = none)
    (tables : ∀ k r, s.connections.get? k = some r → r = 0)
    (peers : ∀ k r, s.peerConnections.get? k = some r → r = 0)
    (registered : s.isReady 0 = true → ∃ k, s.connections.get? k = some 0) :
    s.findExistingConnection at' = if s.isReady 0 then some 0 else none := by
  unfold findExistingConnection
  simp only [absent, Option.filter_none, Option.none_or, remote, Bool.false_eq_true, if_false]
  by_cases ready : s.isReady 0 = true
  · rw [if_pos ready]
    cases entry : s.peerConnections.get? (s.getPeerKey at') with
    | some r =>
      obtain rfl := peers _ r entry
      simp [Option.filter_some, ready]
    | none =>
      obtain ⟨k, found⟩ := registered ready
      have some' : (s.connections.values.find? fun r => s.isReady r ∧
          hostOf (s.heap r).peerAddress = hostOf at').isSome := by
        rw [List.find?_isSome]
        exact ⟨0, InsertionMap.mem_values.mpr ⟨k, found⟩, by simp [ready, host]⟩
      obtain ⟨r, same⟩ := Option.isSome_iff_exists.mp some'
      obtain ⟨j, entry'⟩ := InsertionMap.mem_values.mp (List.mem_of_find?_eq_some same)
      obtain rfl := tables j r entry'
      simp only [Option.filter_none, Option.none_or]
      exact same
  · rw [if_neg ready]
    have unready : (s.peerConnections.get? (s.getPeerKey at')).filter (fun r => s.isReady r) = none := by
      rw [Option.filter_eq_none_iff]
      intro r entry
      rw [peers _ r entry]
      exact ready
    rw [unready, Option.none_or, List.find?_eq_none]
    intro r member
    obtain ⟨j, entry⟩ := InsertionMap.mem_values.mp member
    rw [tables j r entry]
    simp [ready]

/-- An inbound connection: it is taken unless the dialed one is in use, and then one of the two
is dropped. -/
theorem View.handleClient (view : View own address stage s) (distinct : address true ≠ address false)
    (remote : isLoopback (hostOf (address false)) = false)
    (host : hostOf (address true) = hostOf (address false)) (early : stage false = .pending) {keep : Bool}
    (keeps : s.shouldKeepOutbound (getRemoteId (s.getPeerKey (address false)) (address false))
      (address false) = keep) :
    View own address (fun e =>
      if stage true = .attached then if e = keep then .attached else .doomed
      else if e then stage true else .attached) (s.handleClient (address false)) := by
  obtain ⟨next, server, _, _, notDoomed, _⟩ := view.fresh early
  obtain ⟨tables, peers⟩ := view.early early
  have dialed := view.shows' true (Or.inl rfl)
  have few : s.connections.size ≤ 1 := InsertionMap.size_le_one fun k r entry => (tables k r entry).2
  have room := view.room
  have serverRoom := view.serverRoom
  have enters : s.handleClient (address false) = (served (address false) s).handleInboundConnection 1 := by
    rw [LANTransport.handleClient, if_neg (by rw [server]; simp; omega), next]
    rfl
  have settled := served_served (s := s) (address false)
  have keeps' : (served (address false) s).shouldKeepOutbound (getRemoteId
      ((served (address false) s).getPeerKey (address false)) (address false)) (address false) = keep := keeps
  rw [enters]
  generalize served (address false) s = u at settled keeps'
  have ready : u.isReady 0 = true ↔ stage true = .attached := by
    rw [LANTransport.isReady, settled.first]
    change s.isReady (refOf true) = true ↔ _
    rw [dialed.isReady]
    simp [notDoomed]
  have found : u.findExistingConnection (address false) =
      if stage true = .attached then some 0 else none := by
    rw [findExistingConnection_dialed remote]
    · simp only [ready]
    · rw [settled.first, ← host]
      exact congrArg hostOf (view.ends true (Or.inl rfl)).1
    · rw [settled.connections]
      exact view.absent distinct early
    · rw [settled.connections]
      exact fun k r entry => (tables k r entry).1
    · rw [settled.peerConnections]
      exact peers
    · rw [ready, settled.connections]
      exact fun inUse => ⟨_, dialed.registered (Or.inr inUse)⟩
  have space : ¬ u.maxConnections ≤ u.connections.size := by
    rw [settled.maxConnections, settled.connections]
    omega
  rw [handleInboundConnection, settled.place]
  simp only
  rw [if_neg space, found]
  by_cases inUse : stage true = .attached
  · have outbound : (u.heap 0).isInbound = false := by
      rw [settled.first]
      exact (view.ends true (Or.inl rfl)).2
    simp only [inUse, if_true]
    rw [if_neg (by decide), outbound, if_neg (by decide), keeps']
    cases keep with
    | true =>
      rw [if_pos rfl]
      have refused := view.accept_refused settled early
      rw [inUse] at refused
      exact refused
    | false =>
      rw [if_neg (by decide)]
      have stages : (fun e => if e = false then Stage.attached else .doomed) =
          fun e => if e then .doomed else .attached := by
        funext e
        cases e <;> rfl
      rw [stages]
      exact view.accept_instead settled distinct early inUse
  · simp only [inUse, if_false]
    exact view.accept_new settled distinct early

end Events
end Bitchat.Lan
