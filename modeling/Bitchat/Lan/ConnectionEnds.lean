import Bitchat.Lan.RelayedTraffic

/-! A transport with one connection it dialed and one that was dialed to it. What the tables
and the heap say about an end is one of five stages, and each operation moves ends between them. -/
namespace Bitchat.Lan
open Protocol Str LANTransport

/-- Being dialed or not accepted yet, in use, closed by a task that has not run, closed with its
callbacks outstanding, over. -/
inductive Stage where
  | pending
  | attached
  | doomed
  | departing
  | gone
deriving DecidableEq

/-- A connection object is in a stage. -/
structure Shows (r : Ref) (stage : Stage) (s : LANTransport) : Prop where
  live : (s.heap r).isConnected = true ↔ stage = .attached ∨ stage = .doomed
  ready : (s.heap r).ready = (s.heap r).isConnected
  wired : (∃ k, s.connections.get? k = some r) → (s.heap r).wired = true
  registered : stage = .pending ∨ stage = .attached →
    s.connections.get? (s.heap r).peerAddress = some r
  unregistered : stage = .doomed ∨ stage = .gone → ∀ k, s.connections.get? k ≠ some r
  unlisted : stage = .doomed → ∀ k, s.peerConnections.get? k ≠ some r
  closing : stage = .doomed → r ∈ s.closing
  staying : stage = .pending ∨ stage = .attached → r ∉ s.closing
  departing : r ∈ s.departing ↔ stage = .departing

/-- The end of a connection that this node dialed, or that was dialed to it. -/
def refOf (dialed : Bool) : Ref := if dialed then 0 else 1

theorem refOf_injective {d e : Bool} (same : refOf d = refOf e) : d = e := by
  cases d <;> cases e <;> simp [refOf] at same ⊢

namespace Shows
variable {r : Ref} {stage : Stage} {s t : LANTransport}

theorem isReady (shows' : Shows r stage s) :
    s.isReady r = true ↔ stage = .attached ∨ stage = .doomed := by
  simp only [LANTransport.isReady, LANConnection.isReady, shows'.ready, Bool.and_self, shows'.live]

theorem attached (shows' : Shows r .attached s) : s.Attached r :=
  ⟨shows'.isReady.mpr (Or.inl rfl), shows'.staying (Or.inr rfl), shows'.registered (Or.inr rfl)⟩

/-- Only what concerns the object matters. -/
theorem frame (shows' : Shows r stage s) (heap : ∃ id, t.heap r = { s.heap r with peerId := id })
    (connections : ∀ k, t.connections.get? k = some r ↔ s.connections.get? k = some r)
    (peers : ∀ k, t.peerConnections.get? k = some r → stage = .attached ∨
      s.peerConnections.get? k = some r)
    (closing : r ∈ t.closing ↔ r ∈ s.closing) (departing : r ∈ t.departing ↔ r ∈ s.departing) :
    Shows r stage t := by
  obtain ⟨id, same⟩ := heap
  constructor
  · rw [same]
    exact shows'.live
  · rw [same]
    exact shows'.ready
  · rw [same]
    simp only [connections]
    exact shows'.wired
  · rw [same, connections]
    exact shows'.registered
  · simp only [ne_eq, connections]
    exact shows'.unregistered
  · intro doomed k entry
    rcases peers k entry with rfl | entry
    · cases doomed
    · exact shows'.unlisted doomed k entry
  · rw [closing]
    exact shows'.closing
  · rw [closing]
    exact shows'.staying
  · rw [departing]
    exact shows'.departing

end Shows

/-- The end exists: the dialed one always does. -/
def Started (stage : Bool → Stage) (e : Bool) : Prop := e = true ∨ stage e ≠ .pending

/-- The transport of a node with its two ends: the dialed one (`true`) and the accepted one. -/
structure View (own : Str) (address : Bool → Str) (stage : Bool → Stage) (s : LANTransport) : Prop where
  peerId : s.localPeerId = own
  room : 2 ≤ s.maxConnections
  serverRoom : 1 ≤ s.server.maxConnections
  shows' : ∀ e, Started stage e → Shows (refOf e) (stage e) s
  ends : ∀ e, Started stage e →
    (s.heap (refOf e)).peerAddress = address e ∧ (s.heap (refOf e)).isInbound = !e
  tables : ∀ k r, s.connections.get? k = some r → ∃ e, Started stage e ∧ r = refOf e ∧ k = address e
  peers : ∀ k r, s.peerConnections.get? k = some r → ∃ e, Started stage e ∧ r = refOf e
  fresh : stage false = .pending → s.nextRef = 1 ∧ s.server.connections.size = 0 ∧ 1 ∉ s.closing ∧
    1 ∉ s.departing ∧ stage true ≠ .doomed ∧ (s.heap 1).isConnected = false

/-- Only what concerns the object `r` may differ, and the tables only shrink. -/
structure Touches (r : Ref) (s t : LANTransport) : Prop where
  peerId : t.localPeerId = s.localPeerId
  maxConnections : t.maxConnections = s.maxConnections
  serverMax : t.server.maxConnections = s.server.maxConnections
  nextRef : t.nextRef = s.nextRef
  server : r ≠ 1 → t.server.connections = s.server.connections
  kind : (t.heap r).peerAddress = (s.heap r).peerAddress ∧ (t.heap r).isInbound = (s.heap r).isInbound
  heap : ∀ a, a ≠ r → t.heap a = s.heap a
  connections : ∀ k a, t.connections.get? k = some a → s.connections.get? k = some a
  kept : ∀ k a, a ≠ r → s.connections.get? k = some a → t.connections.get? k = some a
  peers : ∀ k a, t.peerConnections.get? k = some a → s.peerConnections.get? k = some a
  closing : ∀ a, a ≠ r → (a ∈ t.closing ↔ a ∈ s.closing)
  departing : ∀ a, a ≠ r → (a ∈ t.departing ↔ a ∈ s.departing)

section Moves
variable {own : Str} {address : Bool → Str} {stage : Bool → Stage} {s t : LANTransport} {e : Bool}
  {new : Stage}

/-- An end that exists goes on existing. -/
theorem Started.update (started : Started stage e) (alive : new ≠ .pending) {d : Bool} :
    Started (Function.update stage e new) d ↔ Started stage d := by
  by_cases same : d = e
  · subst same
    simp [Started, alive] at started ⊢
    exact started
  · simp [Started, Function.update_of_ne same]

/-- An operation on one end moves that end alone. -/
theorem View.move (view : View own address stage s) (touches : Touches (refOf e) s t)
    (started : Started stage e) (alive : new ≠ .pending) (shows' : Shows (refOf e) new t)
    (late : new = .doomed → stage false ≠ .pending) :
    View own address (Function.update stage e new) t where
  peerId := touches.peerId.trans view.peerId
  room := by
    rw [touches.maxConnections]
    exact view.room
  serverRoom := by
    rw [touches.serverMax]
    exact view.serverRoom
  shows' d exists' := by
    rw [started.update alive] at exists'
    by_cases same : d = e
    · subst same
      rw [Function.update_self]
      exact shows'
    · rw [Function.update_of_ne same]
      have other : refOf d ≠ refOf e := fun equal => same (refOf_injective equal)
      apply (view.shows' d exists').frame
      · exact ⟨(s.heap (refOf d)).peerId, by rw [touches.heap _ other]⟩
      · exact fun k => ⟨touches.connections k _, touches.kept k _ other⟩
      · exact fun k entry => Or.inr (touches.peers k _ entry)
      · exact touches.closing _ other
      · exact touches.departing _ other
  ends d exists' := by
    rw [started.update alive] at exists'
    by_cases same : d = e
    · subst same
      rw [touches.kind.1, touches.kind.2]
      exact view.ends d exists'
    · rw [touches.heap _ fun equal => same (refOf_injective equal)]
      exact view.ends d exists'
  tables k r entry := by
    simp only [started.update alive]
    exact view.tables k r (touches.connections k r entry)
  peers k r entry := by
    simp only [started.update alive]
    exact view.peers k r (touches.peers k r entry)
  fresh early := by
    have dialed : e = true := by
      cases e with
      | true => rfl
      | false =>
        rw [Function.update_self] at early
        exact absurd early alive
    subst dialed
    rw [Function.update_of_ne (by decide)] at early
    obtain ⟨next, server, closing, departing, notDoomed, absent⟩ := view.fresh early
    have other : (1 : Ref) ≠ refOf true := by decide
    refine ⟨touches.nextRef.trans next, ?_, ?_, ?_, ?_, ?_⟩
    · rw [touches.server (by decide)]
      exact server
    · rw [touches.closing 1 other]
      exact closing
    · rw [touches.departing 1 other]
      exact departing
    · rw [Function.update_self]
      exact fun doomed => late doomed early
    · rw [touches.heap 1 other]
      exact absent

theorem touches_alter {r : Ref} {f : LANConnection → LANConnection}
    (kind : (f (s.heap r)).peerAddress = (s.heap r).peerAddress ∧
      (f (s.heap r)).isInbound = (s.heap r).isInbound) : Touches r s (s.alter r f) where
  peerId := rfl
  maxConnections := rfl
  serverMax := rfl
  nextRef := rfl
  server _ := rfl
  kind := by simpa [LANTransport.alter] using kind
  heap a other := Function.update_of_ne other _ _
  connections _ _ entry := entry
  kept _ _ _ entry := entry
  peers _ _ entry := entry
  closing _ _ := Iff.rfl
  departing _ _ := Iff.rfl

/-- The dialed connection is established. -/
theorem View.connected (view : View own address stage s) (dialing : stage true = .pending) :
    View own address (Function.update stage true .attached) (s.connected 0) := by
  have before := view.shows' true (Or.inl rfl)
  rw [dialing] at before
  have altered := touches_alter (s := s) (r := 0) (f := ({ · with isConnected := true, ready := true }))
    ⟨rfl, rfl⟩
  have touches : Touches (refOf true) s (s.connected 0) := { altered with }
  refine view.move touches (Or.inl rfl) (by decide) ?_ fun doomed => absurd doomed (by decide)
  have object : ((s.connected 0).heap (refOf true)) =
      { s.heap (refOf true) with isConnected := true, ready := true } := by
    simp [LANTransport.connected, LANTransport.alter, refOf]
  constructor
  · simp [object]
  · simp [object]
  · rw [object]
    exact before.wired
  · rw [object]
    exact fun _ => before.registered (Or.inl rfl)
  · simp
  · simp
  · simp
  · exact fun _ => before.staying (Or.inl rfl)
  · exact iff_of_false (fun member => by cases before.departing.mp member) (by decide)

theorem Touches.trans {r : Ref} {u : LANTransport} (first : Touches r s t) (second : Touches r t u) :
    Touches r s u where
  peerId := second.peerId.trans first.peerId
  maxConnections := second.maxConnections.trans first.maxConnections
  serverMax := second.serverMax.trans first.serverMax
  nextRef := second.nextRef.trans first.nextRef
  server accepted := (second.server accepted).trans (first.server accepted)
  kind := ⟨second.kind.1.trans first.kind.1, second.kind.2.trans first.kind.2⟩
  heap a other := (second.heap a other).trans (first.heap a other)
  connections k a entry := first.connections k a (second.connections k a entry)
  kept k a other entry := second.kept k a other (first.kept k a other entry)
  peers k a entry := first.peers k a (second.peers k a entry)
  closing a other := (second.closing a other).trans (first.closing a other)
  departing a other := (second.departing a other).trans (first.departing a other)

theorem touches_beginClose (s : LANTransport) (r : Ref) : Touches r s (s.beginClose r) := by
  unfold LANTransport.beginClose
  split
  · have altered := touches_alter (s := s) (r := r)
      (f := ({ · with isConnected := false, ready := false })) ⟨rfl, rfl⟩
    exact { altered with departing := fun a other => by simp [other] }
  · exact { touches_alter (s := s) (r := r) (f := id) ⟨rfl, rfl⟩ with
      kind := ⟨rfl, rfl⟩
      heap := fun _ _ => rfl }

theorem touches_runClose (s : LANTransport) (r : Ref) : Touches r s (s.runClose r) := by
  refine Touches.trans ?_ (touches_beginClose { s with closing := s.closing.erase r } r)
  exact { touches_alter (s := s) (r := r) (f := id) ⟨rfl, rfl⟩ with
    kind := ⟨rfl, rfl⟩
    heap := fun _ _ => rfl
    closing := fun a other => List.mem_erase_of_ne other }

theorem shows_departing {r : Ref} (connected : (s.heap r).isConnected = true)
    (wired : (∃ k, s.connections.get? k = some r) → (s.heap r).wired = true) :
    Shows r .departing (s.beginClose r) := by
  have same : s.beginClose r = { s.alter r ({ · with isConnected := false, ready := false }) with
      departing := s.departing ++ [r] } := if_pos connected
  have object : ((s.beginClose r).heap r) = { s.heap r with isConnected := false, ready := false } := by
    rw [same]
    exact Function.update_self ..
  have tables : (s.beginClose r).connections = s.connections := by
    rw [same]
    rfl
  constructor
  · simp [object]
  · simp [object]
  · rw [object, tables]
    exact wired
  · simp
  · simp
  · simp
  · simp
  · simp
  · simp [same]

/-- No task matters to a closed end. -/
theorem Shows.retask {r : Ref} {stage : Stage} {tasks : List Ref} (shows' : Shows r stage s)
    (closed : stage = .departing ∨ stage = .gone) : Shows r stage { s with closing := tasks } := by
  obtain ⟨live, ready, wired, registered, unregistered, _, _, _, departing⟩ := shows'
  refine ⟨live, ready, wired, registered, unregistered, ?_, ?_, ?_, departing⟩
  all_goals rcases closed with rfl | rfl <;> simp

/-- The first part of `close`. -/
theorem View.beginClose (view : View own address stage s)
    (live : stage e = .attached ∨ stage e = .doomed) :
    View own address (Function.update stage e .departing) (s.beginClose (refOf e)) := by
  have started : Started stage e := Or.inr fun pending => by simp [pending] at live
  have before := view.shows' e started
  exact view.move (touches_beginClose s _) started (by decide)
    (shows_departing (before.live.mpr live) before.wired) fun doomed => absurd doomed (by decide)

/-- A close task begins: it closes a doomed end and does nothing to a closed one. -/
theorem View.runClose (view : View own address stage s) (started : Started stage e)
    (task : refOf e ∈ s.closing) :
    (stage e = .doomed ∧ View own address (Function.update stage e .departing) (s.runClose (refOf e))) ∨
    ((stage e = .departing ∨ stage e = .gone) ∧ View own address stage (s.runClose (refOf e))) := by
  have before := view.shows' e started
  have touches := touches_runClose s (refOf e)
  by_cases closed : stage e = .departing ∨ stage e = .gone
  · refine Or.inr ⟨closed, ?_⟩
    have idle : ¬ (s.heap (refOf e)).isConnected = true := by
      rw [before.live]
      rcases closed with h | h <;> simp [h]
    have shows' : Shows (refOf e) (stage e) (s.runClose (refOf e)) := by
      have same : s.runClose (refOf e) = { s with closing := s.closing.erase (refOf e) } := if_neg idle
      rw [same]
      exact before.retask closed
    have moved := view.move touches started (fun pending => by simp [pending] at closed) shows'
      (fun doomed => by simp [doomed] at closed)
    rwa [Function.update_eq_self] at moved
  · cases which : stage e with
    | pending => exact absurd task (before.staying (Or.inl which))
    | attached => exact absurd task (before.staying (Or.inr which))
    | doomed =>
      refine Or.inl ⟨rfl, view.move touches started (by decide) ?_ fun doomed => absurd doomed (by decide)⟩
      exact shows_departing (before.live.mpr (Or.inr which)) before.wired
    | departing => exact absurd (Or.inl which) closed
    | gone => exact absurd (Or.inr which) closed

theorem touches_removeConnectionReferences (s : LANTransport) (r : Ref) :
    Touches r s (s.removeConnectionReferences r) where
  peerId := rfl
  maxConnections := rfl
  serverMax := rfl
  nextRef := rfl
  server _ := rfl
  kind := ⟨rfl, rfl⟩
  heap _ _ := rfl
  connections _ _ entry := (LANTransport.removeConnectionReferences_connections.mp entry).1
  kept _ _ other entry := LANTransport.removeConnectionReferences_connections.mpr ⟨entry, other⟩
  peers _ _ entry := (LANTransport.removeConnectionReferences_peerConnections.mp entry).1
  closing _ _ := Iff.rfl
  departing _ _ := Iff.rfl

/-- An object that only its address leads to is unregistered with it. -/
theorem forgetAddress_spec (r : Ref) (at' : Str)
    (only : ∀ k a, s.connections.get? k = some a → (a = r ↔ k = at')) :
    Touches r s (s.forgetAddress at') ∧ (∀ k, (s.forgetAddress at').connections.get? k ≠ some r) ∧
      (s.forgetAddress at').heap = s.heap ∧ (s.forgetAddress at').departing = s.departing := by
  unfold LANTransport.forgetAddress
  cases found : s.connections.get? at' with
  | some a =>
    obtain rfl := (only at' a found).mpr rfl
    refine ⟨touches_removeConnectionReferences s a, fun k entry => ?_, rfl, rfl⟩
    exact (LANTransport.removeConnectionReferences_connections.mp entry).2 rfl
  | none =>
    refine ⟨{ touches_alter (s := s) (r := r) (f := id) ⟨rfl, rfl⟩ with
      kind := ⟨rfl, rfl⟩
      heap := fun _ _ => rfl }, fun k entry => ?_, rfl, rfl⟩
    obtain rfl := (only k r entry).mp rfl
    rw [found] at entry
    cases entry

/-- The callback at the end of `close` only sets the transport's state besides. -/
theorem handlePeerDisconnected_eq (at' : Str) :
    ∃ state, s.handlePeerDisconnected at' = { s.forgetAddress at' with state := state } := by
  unfold LANTransport.handlePeerDisconnected
  simp only
  split
  · exact ⟨(s.forgetAddress at').state, rfl⟩
  · exact ⟨_, rfl⟩

theorem depart_spec {r : Ref} (accepted : (s.heap r).isInbound = true → r = 1) :
    Touches r s (s.depart r) ∧ (s.depart r).connections = s.connections ∧
      (s.depart r).heap = s.heap ∧ r ∉ (s.depart r).departing := by
  have touches : Touches r s { s with departing := s.departing.filter (· ≠ r) } :=
    { touches_alter (s := s) (r := r) (f := id) ⟨rfl, rfl⟩ with
      kind := ⟨rfl, rfl⟩
      heap := fun _ _ => rfl
      departing := fun a other => by simp [other] }
  unfold LANTransport.depart
  simp only
  split
  next inbound =>
    refine ⟨{ touches with server := fun dialed => absurd (accepted inbound) dialed }, rfl, rfl, ?_⟩
    simp
  next => exact ⟨touches, rfl, rfl, by simp⟩

/-- The callbacks of a closed end. -/
theorem View.finishClose (view : View own address stage s) (distinct : address true ≠ address false)
    (departing : stage e = .departing) :
    View own address (Function.update stage e .gone) (s.finishClose (refOf e)) := by
  have started : Started stage e := Or.inr (by simp [departing])
  have before := view.shows' e started
  obtain ⟨place, kind⟩ := view.ends e started
  have only : ∀ k a, s.connections.get? k = some a → (a = refOf e ↔ k = address e) := by
    intro k a entry
    obtain ⟨d, _, rfl, rfl⟩ := view.tables k a entry
    constructor
    · exact fun same => congrArg address (refOf_injective same)
    · intro same
      cases d <;> cases e <;> first | rfl | exact absurd same distinct | exact absurd same.symm distinct
  have closed : (s.heap (refOf e)).isConnected = false := by
    rw [Bool.eq_false_iff, ne_eq, before.live, departing]
    simp
  obtain ⟨touches, tables, heap, departed⟩ := depart_spec (s := s) (r := refOf e) fun inbound => by
    rw [kind] at inbound
    cases e <;> simp [refOf] at inbound ⊢
  -- the object is over once nothing leads to it
  have ended {t : LANTransport} (same : t.heap = s.heap) (none' : ∀ k, t.connections.get? k ≠ some (refOf e))
      (left' : refOf e ∉ t.departing) : Shows (refOf e) .gone t := by
    constructor
    · rw [same]
      simp [closed]
    · rw [same]
      exact before.ready
    · exact fun ⟨k, entry⟩ => absurd entry (none' k)
    · simp
    · exact fun _ => none'
    · simp
    · simp
    · simp
    · simp [left']
  unfold LANTransport.finishClose
  simp only [heap, place]
  split
  next =>
    obtain ⟨state, same⟩ := handlePeerDisconnected_eq (s := s.depart (refOf e)) (address e)
    obtain ⟨forgets, unregistered, heap', departing'⟩ :=
      forgetAddress_spec (s := s.depart (refOf e)) (refOf e) (address e) (by rwa [tables])
    rw [same]
    refine view.move (touches.trans { forgets with }) started (by decide) (ended ?_ ?_ ?_)
      fun doomed => absurd doomed (by decide)
    · exact heap'.trans heap
    · exact unregistered
    · rw [departing']
      exact departed
  next unwired =>
    refine view.move touches started (by decide) (ended heap ?_ departed)
      fun doomed => absurd doomed (by decide)
    intro k entry
    rw [tables] at entry
    exact unwired (before.wired ⟨k, entry⟩)

/-- The keys of addresses, the discovered peers and the transport's state do not matter. -/
theorem View.untouched (view : View own address stage s) (keys : InsertionMap Str Str)
    (peers : InsertionMap Str LANDiscoveredPeer) :
    View own address stage { s with addressToPeerKey := keys, discoveredPeers := peers } :=
  { view with
    shows' := fun e started => (view.shows' e started).frame ⟨(s.heap (refOf e)).peerId, rfl⟩
      (fun _ => Iff.rfl) (fun _ => Or.inr) Iff.rfl Iff.rfl }

end Moves
end Bitchat.Lan
