import Bitchat.Data.Run
import Bitchat.Mesh.RouterSteps
import Mathlib.Data.Multiset.Filter

/-! Routers joined by links. A copy of a packet is on its way from one node to a
neighbour; the node decides on it and sends what it relays to its other neighbours. -/
namespace Bitchat.Mesh
open Crypto Protocol Str

variable {V : Type}

/-- The nodes with their settings, their links, and the address a neighbour appears under. -/
structure Topology (V : Type) where
  settings : V → RouterSettings
  neighbours : V → List V
  address : V → V → Str

/-- A packet on the link from one node to another. -/
structure Copy (V : Type) where
  source : V
  target : V
  packet : BitchatPacket
deriving DecidableEq

structure Network (V : Type) where
  routers : V → MeshRouter
  inFlight : Multiset (Copy V)

inductive Event (V : Type) where
  | originate (node : V) (packet : BitchatPacket) (now : Seconds)
  /-- A duplicating link keeps the copy it delivers. -/
  | deliver (copy : Copy V) (now : Seconds) (duplicated : Bool)

namespace Network
variable [DecidableEq V] (topology : Topology V)

/-- One copy for each neighbour but the excluded one. -/
def broadcast (source : V) (excluded : Option V) (packet : BitchatPacket) : Multiset (Copy V) :=
  let copies := ((topology.neighbours source).filter fun target => some target ≠ excluded).map
    fun target => (⟨source, target, packet⟩ : Copy V)
  copies

def relay (source : V) (ingress : V) : Option BitchatPacket → Multiset (Copy V)
  | none => 0
  | some packet => broadcast topology source (some ingress) packet

variable [CaseMapping] [Primitives]

/-- The receiving router's decision on a copy and its state afterwards. -/
def evaluate (copy : Copy V) (now : Seconds) (s : Network V) : RoutingDecision × MeshRouter :=
  (s.routers copy.target).evaluateIncoming (topology.settings copy.target) now copy.packet
    (some (topology.address copy.target copy.source))

def perform (event : Event V) (s : Network V) : Network V :=
  match event with
  | .originate node packet now =>
    let router := s.routers node
    let deduplicator := router.deduplicator.record (topology.settings node).deduplicator now packet
    { routers := Function.update s.routers node { router with deduplicator }
      inFlight := s.inFlight + broadcast topology node none packet }
  | .deliver copy now duplicated =>
    let (decision, router) := s.evaluate topology copy now
    { routers := Function.update s.routers copy.target router
      inFlight := (if duplicated then s.inFlight else s.inFlight.erase copy) +
        relay topology copy.target copy.source decision.packetToRelay }

/-- A node originates packets in its own name, and only what is in flight is delivered. -/
def Enabled (s : Network V) : Event V → Prop
  | .originate node packet _ => packet.senderId = (topology.settings node).localPeerId
  | .deliver copy _ _ => copy ∈ s.inFlight

instance (s : Network V) : (event : Event V) → Decidable (s.Enabled topology event)
  | .originate .. => inferInstanceAs (Decidable (_ = _))
  | .deliver .. => inferInstanceAs (Decidable (_ ∈ _))

def Step (s : Network V) (event : Event V) (t : Network V) : Prop :=
  s.Enabled topology event ∧ t = s.perform topology event

/-- The filter that the event asks has room and no expired entry for the packet. -/
def Undisturbed (s : Network V) : Event V → Prop
  | .originate node packet _ =>
    (s.routers node).deduplicator.knows (computePacketId packet) ∨
      (s.routers node).deduplicator.entries.size < (topology.settings node).deduplicator.maxEntries
  | .deliver copy now _ => (s.routers copy.target).deduplicator.Roomy
      (topology.settings copy.target).deduplicator now (computePacketId copy.packet)

instance (s : Network V) : (event : Event V) → Decidable (s.Undisturbed topology event)
  | .originate .. => inferInstanceAs (Decidable (_ ∨ _))
  | .deliver .. => inferInstanceAs (Decidable (PacketDeduplicator.Roomy _ _ _ _))

def Knows (node : V) (id : Str) (s : Network V) : Prop := (s.routers node).deduplicator.knows id

instance (s : Network V) (node : V) (id : Str) : Decidable (s.Knows node id) :=
  inferInstanceAs (Decidable (PacketDeduplicator.knows _ _))

/-- The receiving router takes the copy. -/
def Accepts (copy : Copy V) (now : Seconds) (s : Network V) : Prop :=
  (s.routers copy.target).Accepts (topology.settings copy.target) now copy.packet

section Steps
variable {topology} {s t : Network V} {event : Event V}

omit [CaseMapping] [Primitives] in
theorem mem_broadcast {source : V} {excluded : Option V} {packet : BitchatPacket} {copy : Copy V} :
    copy ∈ broadcast topology source excluded packet ↔ copy.source = source ∧
      copy.packet = packet ∧ copy.target ∈ topology.neighbours source ∧ some copy.target ≠ excluded := by
  obtain ⟨from', target, carried⟩ := copy
  simp only [broadcast, Multiset.mem_coe, List.mem_map, List.mem_filter, decide_eq_true_eq,
    Copy.mk.injEq]
  constructor
  · rintro ⟨_, ⟨linked, other⟩, rfl, rfl, rfl⟩
    exact ⟨rfl, rfl, linked, other⟩
  · rintro ⟨rfl, rfl, linked, other⟩
    exact ⟨target, ⟨linked, other⟩, rfl, rfl, rfl⟩

omit [CaseMapping] [Primitives] in
theorem packet_of_mem_relay {source ingress : V} {relayed : Option BitchatPacket} {next : Copy V}
    (sent : next ∈ relay topology source ingress relayed) : relayed = some next.packet := by
  cases relayed with
  | none => simp [relay] at sent
  | some packet => rw [(mem_broadcast.mp sent).2.1]

/-- What becomes known in an undisturbed step, and where. -/
theorem knows_originate {node : V} {packet : BitchatPacket} {now : Seconds} {other : V} {id : Str}
    (undisturbed : s.Undisturbed topology (.originate node packet now)) :
    (s.perform topology (.originate node packet now)).Knows other id ↔
      (other = node ∧ id = computePacketId packet) ∨ s.Knows other id := by
  unfold Knows perform
  by_cases same : other = node
  · subst same
    simp only [Function.update_self, PacketDeduplicator.record,
      PacketDeduplicator.knows_recordId undisturbed, true_and]
  · simp only [Function.update_of_ne same, same, false_and, false_or]

theorem knows_deliver {copy : Copy V} {now : Seconds} {duplicated : Bool} {other : V} {id : Str}
    (undisturbed : s.Undisturbed topology (.deliver copy now duplicated)) :
    (s.perform topology (.deliver copy now duplicated)).Knows other id ↔
      (s.Accepts topology copy now ∧ other = copy.target ∧ id = computePacketId copy.packet) ∨
        s.Knows other id := by
  unfold Knows perform
  by_cases same : other = copy.target
  · subst same
    simp only [Function.update_self, evaluate, true_and]
    exact MeshRouter.evaluateIncoming_knows undisturbed
  · simp only [Function.update_of_ne same, same, false_and, and_false, false_or]

/-- An undisturbed network forgets nothing. -/
theorem Knows.step {node : V} {id : Str} (known : s.Knows node id)
    (undisturbed : s.Undisturbed topology event) (step : Step topology s event t) : t.Knows node id := by
  obtain ⟨_, rfl⟩ := step
  cases event with
  | originate other packet now => exact (knows_originate undisturbed).mpr (Or.inr known)
  | deliver copy now duplicated => exact (knows_deliver undisturbed).mpr (Or.inr known)

end Steps
end Network
end Bitchat.Mesh
