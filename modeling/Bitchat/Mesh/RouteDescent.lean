import Bitchat.App.LearnedRoutes
import Bitchat.Data.Descent
import Bitchat.Mesh.FloodSafety

/-! The routes that a network learns lead back to the senders. A packet loses hops on its way, so a
route's hop count falls from each node to its next hop, for as long as no route is lost or replaced
by a longer one. -/
namespace Bitchat.Mesh
open Crypto Protocol Str

/-- Routes to a peer are kept under its id in hex. -/
def peerKey [CaseMapping] (id : Bytes) : Str := normalizeRouteKey (.str (hex id))

namespace MeshRouter
variable [CaseMapping] [Primitives] {settings : RouterSettings} {now : Seconds} {packet : BitchatPacket}
  {ingressSource : Option Str} {address : Str} {s : MeshRouter}

theorem evaluateIncoming_unlearned (rejects : ¬ s.Accepts settings now packet) :
    (s.evaluateIncoming settings now packet ingressSource).2.routes = s.routes := by
  obtain ⟨limiter, rated⟩ : ∃ rateLimiter,
      (s.isRateLimited settings now (hex packet.senderId)).2 = { s with rateLimiter } :=
    isRateLimited_frame _
  unfold evaluateIncoming
  simp only [rated]
  split
  · rfl
  · next foreign =>
    split
    · rfl
    · next unlimited =>
      split
      · rfl
      · next alive =>
        split
        · rfl
        · next new =>
          exact absurd ⟨foreign, by simpa using unlimited, not_le.mp alive, by simpa using new⟩ rejects

/-- No route is lost to the packet: the table has room, and an expired route is not replaced by
one with more hops. -/
structure Settled (settings : RouterSettings) (now : Seconds) (packet : BitchatPacket) (s : MeshRouter) :
    Prop where
  room : s.routes.size < settings.maxRoutes
  kept : ∀ existing, s.routeToSender packet = some existing →
    existing.Live settings now ∨ hopsSoFar packet.ttl ≤ existing.hopCount

omit [Primitives] in
instance : Decidable (s.Settled settings now packet) :=
  decidable_of_iff (s.routes.size < settings.maxRoutes ∧ ∀ existing ∈ s.routeToSender packet,
      existing.Live settings now ∨ hopsSoFar packet.ttl ≤ existing.hopCount)
    ⟨fun settled => ⟨settled.1, settled.2⟩, fun settled => ⟨settled.room, settled.kept⟩⟩

/-- What an accepted packet does to settled routes: the one to its sender is entered, if no
nearer one is there. -/
theorem evaluateIncoming_routes (accepts : s.Accepts settings now packet) (named : address ≠ [])
    (settled : s.Settled settings now packet) :
    (∀ k, k ≠ peerKey packet.senderId →
      (s.evaluateIncoming settings now packet (some address)).2.routes.get? k = s.routes.get? k) ∧
    ((s.evaluateIncoming settings now packet (some address)).2.routes.get? (peerKey packet.senderId) =
        some (learnedRoute now packet address) ∧
      (∀ old, s.routes.get? (peerKey packet.senderId) = some old → hopsSoFar packet.ttl ≤ old.hopCount) ∨
    ∃ nearer, s.routes.get? (peerKey packet.senderId) = some nearer ∧
      nearer.hopCount < hopsSoFar packet.ttl ∧
      (s.evaluateIncoming settings now packet (some address)).2.routes.get? (peerKey packet.senderId) =
        some nearer) := by
  have taken : (s.evaluateIncoming settings now packet (some address)).1.dropReason = none := by
    rw [(evaluateIncoming_accepts accepts).1]
  obtain ⟨t, same, learned⟩ := evaluateIncoming_learns taken
  have roomy : t.makeRouteRoom settings now = t := by
    rw [makeRouteRoom, same, if_neg (not_le.mpr settled.room)]
  obtain ⟨others, nearer, entered, _⟩ := addRoute_entered settings now t (.str (hex packet.senderId))
    (.str address) (hopsSoFar packet.ttl)
  rw [roomy] at others nearer entered
  rw [same] at others nearer entered
  simp only [learned, learnRoute, if_neg named]
  refine ⟨others, ?_⟩
  by_cases near : ∃ existing, s.routes.get? (peerKey packet.senderId) = some existing ∧
      existing.Live settings now ∧ existing.hopCount < hopsSoFar packet.ttl
  · obtain ⟨existing, found, live, fewer⟩ := near
    refine Or.inr ⟨existing, found, fewer, ?_⟩
    rw [nearer existing found live fewer, same]
    exact found
  · refine Or.inl ⟨entered fun existing found live => ?_, fun old found => ?_⟩
    · exact not_lt.mp fun fewer => near ⟨existing, found, live, fewer⟩
    · rcases settled.kept old found with live | worse
      · exact not_lt.mp fun fewer => near ⟨old, found, live, fewer⟩
      · exact worse

end MeshRouter

namespace Network
variable {V : Type} [DecidableEq V] [CaseMapping]

def route (k : Str) (v : V) (s : Network V) : Option RouteEntry := (s.routers v).routes.get? k

/-- The node is the one that the routes under this key lead to. -/
def Home (topology : Topology V) (k : Str) (v : V) : Prop := peerKey (topology.settings v).localPeerId = k

/-- The node's route names a neighbour as its next hop. -/
def NextHop (topology : Topology V) (k : Str) (s : Network V) (v u : V) : Prop :=
  u ∈ topology.neighbours v ∧
    ∃ entry, s.route k v = some entry ∧ entry.nextHop = normalizeRouteKey (.str (topology.address v u))

/-- The node is at home or has a route of fewer hops. -/
def HomeOrNearer (topology : Topology V) (k : Str) (bound : Int) (s : Network V) (v : V) : Prop :=
  Home topology k v ∨ ∃ entry, s.route k v = some entry ∧ entry.hopCount < bound

/-- A node's neighbours appear under addresses with different routing keys. -/
def Apart (topology : Topology V) : Prop :=
  ∀ v u w, u ∈ topology.neighbours v → w ∈ topology.neighbours v →
    normalizeRouteKey (.str (topology.address v u)) = normalizeRouteKey (.str (topology.address v w)) → u = w

/-- Packets begin with at most seven hops, and no router loses a route by a delivery. -/
def Settled (topology : Topology V) (s : Network V) : Event V → Prop
  | .originate _ packet _ => packet.ttl ≤ 7
  | .deliver copy now _ => (s.routers copy.target).Settled (topology.settings copy.target) now copy.packet

instance (topology : Topology V) (s : Network V) : (event : Event V) → Decidable (s.Settled topology event)
  | .originate .. => inferInstanceAs (Decidable (_ ≤ _))
  | .deliver .. => inferInstanceAs (Decidable (MeshRouter.Settled _ _ _ _))

/-- Every route was learned from a neighbour that is nearer, and whoever sent a copy is nearer than
the node that it arrives at will be. -/
structure Descends (topology : Topology V) (s : Network V) : Prop where
  routes : ∀ k v entry, s.route k v = some entry → 1 ≤ entry.hopCount ∧ entry.hopCount ≤ 7 ∧
    ∃ u, v ∈ topology.neighbours u ∧ entry.nextHop = normalizeRouteKey (.str (topology.address v u)) ∧
      s.HomeOrNearer topology k entry.hopCount u
  copies : ∀ copy ∈ s.inFlight, copy.target ∈ topology.neighbours copy.source ∧ copy.packet.ttl ≤ 7 ∧
    s.HomeOrNearer topology (peerKey copy.packet.senderId) (8 - copy.packet.ttl) copy.source

section Steps
variable [Primitives] {topology : Topology V} {s t : Network V} {event : Event V}

omit [DecidableEq V] [Primitives] in
theorem HomeOrNearer.lowered {k : Str} {v : V} {low high : Int}
    (within : s.HomeOrNearer topology k low v) (le : low ≤ high)
    (lower : ∀ entry, s.route k v = some entry →
      ∃ lowered, t.route k v = some lowered ∧ lowered.hopCount ≤ entry.hopCount) :
    t.HomeOrNearer topology k high v := by
  rcases within with home | ⟨entry, found, fewer⟩
  · exact Or.inl home
  · obtain ⟨lowered, there, below⟩ := lower entry found
    exact Or.inr ⟨lowered, there, below.trans_lt (fewer.trans_le le)⟩

theorem route_originate {node : V} {packet : BitchatPacket} {now : Seconds} (k : Str) (v : V) :
    (s.perform topology (.originate node packet now)).route k v = s.route k v := by
  unfold route perform
  by_cases same : v = node
  · subst same
    simp only [Function.update_self]
  · simp only [Function.update_of_ne same]

/-- What a delivery does to the routes: nothing, or the target learns the way to the sender. -/
theorem route_deliver {copy : Copy V} {now : Seconds} {duplicated : Bool}
    (named : topology.address copy.target copy.source ≠ [])
    (settled : s.Settled topology (.deliver copy now duplicated)) :
    (∀ k v, (s.perform topology (.deliver copy now duplicated)).route k v = s.route k v ∨
      v = copy.target ∧ k = peerKey copy.packet.senderId ∧ s.Accepts topology copy now ∧
        (s.perform topology (.deliver copy now duplicated)).route k v = some
          (MeshRouter.learnedRoute now copy.packet (topology.address copy.target copy.source)) ∧
        ∀ old, s.route k v = some old → MeshRouter.hopsSoFar copy.packet.ttl ≤ old.hopCount) ∧
    (s.Accepts topology copy now → ∃ entry,
      (s.perform topology (.deliver copy now duplicated)).route (peerKey copy.packet.senderId) copy.target =
        some entry ∧ entry.hopCount ≤ MeshRouter.hopsSoFar copy.packet.ttl) := by
  have elsewhere : ∀ k v, v ≠ copy.target →
      (s.perform topology (.deliver copy now duplicated)).route k v = s.route k v := by
    intro k v other
    simp only [route, perform, Function.update_of_ne other]
  have here : ∀ k, (s.perform topology (.deliver copy now duplicated)).route k copy.target =
      (s.evaluate topology copy now).2.routes.get? k := by
    intro k
    simp only [route, perform, Function.update_self]
  by_cases accepts : s.Accepts topology copy now
  · obtain ⟨others, entered | ⟨nearer, found, fewer, stays⟩⟩ :=
      MeshRouter.evaluateIncoming_routes accepts named settled
    · refine ⟨fun k v => ?_, fun _ => ⟨_, (here _).trans entered.1, le_rfl⟩⟩
      by_cases target : v = copy.target
      · subst target
        by_cases sender : k = peerKey copy.packet.senderId
        · subst sender
          exact Or.inr ⟨rfl, rfl, accepts, (here _).trans entered.1, entered.2⟩
        · exact Or.inl ((here k).trans (others k sender))
      · exact Or.inl (elsewhere k v target)
    · refine ⟨fun k v => Or.inl ?_, fun _ => ⟨nearer, (here _).trans stays, fewer.le⟩⟩
      by_cases target : v = copy.target
      · subst target
        by_cases sender : k = peerKey copy.packet.senderId
        · subst sender
          exact ((here _).trans stays).trans found.symm
        · exact (here k).trans (others k sender)
      · exact elsewhere k v target
  · refine ⟨fun k v => Or.inl ?_, fun accepted => absurd accepted accepts⟩
    by_cases target : v = copy.target
    · subst target
      rw [here, evaluate, MeshRouter.evaluateIncoming_unlearned accepts]
      rfl
    · exact elsewhere k v target

/-- A copy in flight after a delivery was so before, or the target relays the delivered one. -/
theorem mem_inFlight_deliver {copy next : Copy V} {now : Seconds} {duplicated : Bool}
    (flies : next ∈ (s.perform topology (.deliver copy now duplicated)).inFlight) :
    next ∈ s.inFlight ∨ s.Accepts topology copy now ∧ next.source = copy.target ∧
      next.target ∈ topology.neighbours copy.target ∧ next.packet.ttl < copy.packet.ttl ∧
      next.packet.senderId = copy.packet.senderId := by
  simp only [perform] at flies
  rcases Multiset.mem_add.mp flies with older | relayed
  · left
    cases duplicated with
    | true => exact older
    | false => exact Multiset.mem_of_mem_erase older
  · right
    have sent := packet_of_mem_relay relayed
    have accepts : s.Accepts topology copy now := by
      by_contra rejects
      rw [(evaluate_rejects rejects).2] at sent
      cases sent
    obtain ⟨_, fewer, same⟩ := evaluate_relay sent
    rw [sent] at relayed
    obtain ⟨source, _, linked, _⟩ := mem_broadcast.mp relayed
    exact ⟨accepts, source, linked, fewer, by rw [same]⟩

theorem Descends.originate {node : V} {packet : BitchatPacket} {now : Seconds} (descends : s.Descends topology)
    (own : packet.senderId = (topology.settings node).localPeerId) (short : packet.ttl ≤ 7) :
    (s.perform topology (.originate node packet now)).Descends topology := by
  have lower : ∀ k v entry, s.route k v = some entry → ∃ lowered,
      (s.perform topology (.originate node packet now)).route k v = some lowered ∧
        lowered.hopCount ≤ entry.hopCount :=
    fun k v entry found => ⟨entry, (route_originate k v).trans found, le_rfl⟩
  constructor
  · intro k v entry found
    rw [route_originate] at found
    obtain ⟨least, most, u, linked, next, within⟩ := descends.routes k v entry found
    exact ⟨least, most, u, linked, next, within.lowered le_rfl (lower k u)⟩
  · intro copy flies
    rcases Multiset.mem_add.mp flies with older | fresh
    · obtain ⟨linked, few, within⟩ := descends.copies copy older
      exact ⟨linked, few, within.lowered le_rfl (lower _ _)⟩
    · obtain ⟨rfl, rfl, linked, _⟩ := mem_broadcast.mp fresh
      exact ⟨linked, short, Or.inl (congrArg peerKey own.symm)⟩

theorem Descends.deliver {copy : Copy V} {now : Seconds} {duplicated : Bool} (descends : s.Descends topology)
    (named : topology.address copy.target copy.source ≠ []) (flies : copy ∈ s.inFlight)
    (settled : s.Settled topology (.deliver copy now duplicated)) :
    (s.perform topology (.deliver copy now duplicated)).Descends topology := by
  obtain ⟨changes, reached⟩ := route_deliver named settled
  obtain ⟨linked, few, within⟩ := descends.copies copy flies
  have lower : ∀ k v entry, s.route k v = some entry → ∃ lowered,
      (s.perform topology (.deliver copy now duplicated)).route k v = some lowered ∧
        lowered.hopCount ≤ entry.hopCount := by
    intro k v entry found
    rcases changes k v with same | ⟨_, _, _, learned, nearer⟩
    · exact ⟨entry, same.trans found, le_rfl⟩
    · exact ⟨_, learned, nearer entry found⟩
  have hops : s.Accepts topology copy now →
      MeshRouter.hopsSoFar copy.packet.ttl = 8 - copy.packet.ttl ∧ 0 < copy.packet.ttl := by
    intro accepts
    have alive := accepts.alive
    refine ⟨?_, alive⟩
    unfold MeshRouter.hopsSoFar
    rw [if_pos few]
    omega
  constructor
  · intro k v entry found
    rcases changes k v with same | ⟨rfl, rfl, accepts, learned, _⟩
    · rw [same] at found
      obtain ⟨least, most, u, linked, next, within⟩ := descends.routes k v entry found
      exact ⟨least, most, u, linked, next, within.lowered le_rfl (lower k u)⟩
    · obtain ⟨count, alive⟩ := hops accepts
      obtain rfl := Option.some.inj (learned.symm.trans found)
      have hopCount : (MeshRouter.learnedRoute now copy.packet
          (topology.address copy.target copy.source)).hopCount = 8 - copy.packet.ttl := count
      rw [hopCount]
      refine ⟨by omega, by omega, copy.source, linked, rfl, within.lowered le_rfl (lower _ _)⟩
  · intro next flying
    rcases mem_inFlight_deliver flying with older | ⟨accepts, source, onward, fewer, sender⟩
    · obtain ⟨linked, few, within⟩ := descends.copies next older
      exact ⟨linked, few, within.lowered le_rfl (lower _ _)⟩
    · obtain ⟨entry, found, below⟩ := reached accepts
      obtain ⟨count, _⟩ := hops accepts
      rw [source, sender]
      refine ⟨onward, by omega, Or.inr ⟨entry, found, ?_⟩⟩
      rw [count] at below
      omega

theorem Descends.step (descends : s.Descends topology)
    (named : ∀ u v, v ∈ topology.neighbours u → topology.address v u ≠ [])
    (settled : s.Settled topology event) (step : Step topology s event t) : t.Descends topology := by
  obtain ⟨enabled, rfl⟩ := step
  cases event with
  | originate node packet now => exact descends.originate enabled settled
  | deliver copy now duplicated =>
    exact descends.deliver (named _ _ (descends.copies copy enabled).1) enabled settled

theorem Descends.run {start : Network V} {history : List (Taken (Network V) (Event V))}
    (run : Run (Step topology) start history s) (fresh : ∀ v, (start.routers v).routes = .empty)
    (silent : start.inFlight = 0) (named : ∀ u v, v ∈ topology.neighbours u → topology.address v u ≠ [])
    (settled : ∀ e ∈ history, e.before.Settled topology e.label) : s.Descends topology := by
  apply run.guarded (P := fun s => s.Descends topology) (C := fun s event => s.Settled topology event) _ _ settled
  · constructor
    · intro k v entry found
      rw [route, fresh] at found
      cases found
    · intro copy flies
      rw [silent] at flies
      exact absurd flies (Multiset.notMem_zero copy)
  · exact fun descends calm step => descends.step named calm step

end Steps

section Ways
variable {topology : Topology V} {s : Network V} {k : Str}

/-- The hops that the node's route counts. -/
def hopsTo (k : Str) (s : Network V) (v : V) : Nat := (s.route k v).elim 0 fun entry => entry.hopCount.toNat

omit [DecidableEq V] [CaseMapping] in
theorem hopsTo_eq {v : V} {entry : RouteEntry} (found : s.route k v = some entry) :
    s.hopsTo k v = entry.hopCount.toNat := by
  rw [hopsTo, found]
  rfl

omit [DecidableEq V] in
theorem Descends.arrives (descends : s.Descends topology)
    (both : ∀ u v, v ∈ topology.neighbours u → u ∈ topology.neighbours v) {v : V} {entry : RouteEntry}
    (found : s.route k v = some entry) :
    ∃ n, n ≤ s.hopsTo k v ∧ ArrivesIn (NextHop topology k s) (Home topology k) n v := by
  apply ArrivesIn.of_rank (P := fun v => ∃ entry, s.route k v = some entry) _ v ⟨entry, found⟩
  rintro v ⟨entry, found⟩
  obtain ⟨least, _, u, linked, next, home | ⟨nearer, there, fewer⟩⟩ := descends.routes k v entry found
  · refine ⟨u, ⟨both u v linked, entry, found, next⟩, Or.inl ⟨home, ?_⟩⟩
    rw [hopsTo_eq found]
    omega
  · refine ⟨u, ⟨both u v linked, entry, found, next⟩, Or.inr ⟨⟨nearer, there⟩, ?_⟩⟩
    have positive := (descends.routes k u nearer there).1
    rw [hopsTo_eq found, hopsTo_eq there]
    omega

omit [DecidableEq V] in
/-- Where addresses tell neighbours apart, the next hop is home or has fewer hops to go. -/
theorem Descends.nearer (descends : s.Descends topology)
    (both : ∀ u v, v ∈ topology.neighbours u → u ∈ topology.neighbours v)
    (apart : Apart topology) {v u : V} (next : NextHop topology k s v u) (away : ¬ Home topology k u) :
    s.hopsTo k u < s.hopsTo k v := by
  obtain ⟨linked, entry, found, key⟩ := next
  obtain ⟨least, _, w, from', key', within⟩ := descends.routes k v entry found
  obtain rfl := apart v u w linked (both w v from') (key.symm.trans key')
  rcases within with home | ⟨nearer, there, fewer⟩
  · exact absurd home away
  · have positive := (descends.routes k u nearer there).1
    rw [hopsTo_eq found, hopsTo_eq there]
    omega

variable [Primitives] {start : Network V} {history : List (Taken (Network V) (Event V))}

/-- A learned route leads home over no more links than it counts hops, and where addresses tell
neighbours apart no next hops lead round in a circle. -/
theorem routes_lead_home (run : Run (Step topology) start history s)
    (fresh : ∀ v, (start.routers v).routes = .empty) (silent : start.inFlight = 0)
    (named : ∀ u v, v ∈ topology.neighbours u → topology.address v u ≠ [])
    (both : ∀ u v, v ∈ topology.neighbours u → u ∈ topology.neighbours v)
    (settled : ∀ e ∈ history, e.before.Settled topology e.label) (k : Str) :
    (∀ v entry, s.route k v = some entry → entry.hopCount ≤ 7 ∧
      ∃ n : Nat, n ≤ entry.hopCount ∧ ArrivesIn (NextHop topology k s) (Home topology k) n v) ∧
    (Apart topology →
      ∀ v, ¬ Relation.TransGen (fun v u => NextHop topology k s v u ∧ ¬ Home topology k u) v v) := by
  have descends := Descends.run run fresh silent named settled
  constructor
  · intro v entry found
    obtain ⟨least, most, _⟩ := descends.routes k v entry found
    obtain ⟨n, short, arrives⟩ := descends.arrives both found
    rw [hopsTo_eq found] at short
    exact ⟨most, n, by omega, arrives⟩
  · intro apart
    have falls : ∀ v u, NextHop topology k s v u ∧ ¬ Home topology k u → s.hopsTo k u < s.hopsTo k v :=
      fun _ _ onward => descends.nearer both apart onward.1 onward.2
    exact acyclic_of_rank falls

end Ways
end Network
end Bitchat.Mesh

namespace Bitchat.Mesh.Network
open Crypto Protocol Str Modular
attribute [local instance] Modular.primitives asciiCase

/-- Three nodes in a line. -/
def line : Topology (Fin 3) where
  settings node := { localPeerId := List.replicate 8 (if node = 0 then 1 else if node = 1 then 2 else 3) }
  neighbours node := if node = 1 then [0, 2] else [1]
  address _ source := if source = 0 then ['a'] else if source = 1 then ['b'] else ['c']

def lineStart : Network (Fin 3) := ⟨fun _ => {}, 0⟩

def lineEvents : List (Event (Fin 3)) :=
  [.originate 0 greeting 0, .deliver ⟨0, 1, greeting⟩ 1 false,
    .deliver ⟨1, 2, (relayCopy (line.settings 1) greeting).getD greeting⟩ 2 false]

def lineEnd : Network (Fin 3) := lineEvents.foldl (fun s event => s.perform line event) lineStart

theorem lineEvents_run : Run (Step line) lineStart
    (Run.trace (fun event s => s.perform line event) lineStart lineEvents) lineEnd := by
  refine .snoc (.snoc (.snoc .nil ⟨rfl, rfl⟩) ⟨?_, rfl⟩) ⟨?_, rfl⟩ <;> decide +kernel

/-- The last node has learned that the first is two hops away, over the one between. -/
theorem routes_lead_home_line :
    lineEnd.route (peerKey (List.replicate 8 1)) 2 = some ⟨['b'], 2, 2⟩ ∧
    ∃ n : Nat, n ≤ 2 ∧ ArrivesIn (NextHop line (peerKey (List.replicate 8 1)) lineEnd)
      (Home line (peerKey (List.replicate 8 1))) n 2 := by
  have found : lineEnd.route (peerKey (List.replicate 8 1)) 2 = some ⟨['b'], 2, 2⟩ := by decide +kernel
  have home := (routes_lead_home lineEvents_run (fun _ => rfl) rfl (by decide) (by decide) (by decide +kernel)
    (peerKey (List.replicate 8 1))).1 2 _ found
  obtain ⟨n, short, arrives⟩ := home.2
  exact ⟨found, n, Int.ofNat_le.mp short, arrives⟩

end Bitchat.Mesh.Network
