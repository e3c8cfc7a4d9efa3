import Bitchat.Crypto.Laws
import Bitchat.Mesh.Network
import Mathlib.Logic.Hydra

/-! Flooding is safe on every topology: a node reports and relays a packet at most once
while its filter remembers, copies only lose hops, and every flood dies out. -/
namespace Bitchat.Mesh.Network
open Crypto Protocol Str Relation

variable {V : Type} [DecidableEq V] [CaseMapping] [Primitives]

/-- The step delivers a packet with this identifier at the node, which decides so. -/
def Decides (topology : Topology V) (node : V) (id : Str) (decision : RoutingDecision)
    (e : Taken (Network V) (Event V)) : Prop :=
  ∃ copy now duplicated, e.label = .deliver copy now duplicated ∧ copy.target = node ∧
    computePacketId copy.packet = id ∧ (e.before.evaluate topology copy now).1 = decision

def Reports (topology : Topology V) (node : V) (id : Str) (e : Taken (Network V) (Event V)) : Prop :=
  ∃ decision, Decides topology node id decision e ∧ decision.shouldProcessLocally = true

def Relays (topology : Topology V) (node : V) (id : Str) (e : Taken (Network V) (Event V)) : Prop :=
  ∃ decision, Decides topology node id decision e ∧ decision.packetToRelay.isSome

/-- The node takes a packet with this identifier in the step. -/
def Takes (topology : Topology V) (node : V) (id : Str) (e : Taken (Network V) (Event V)) : Prop :=
  ∃ copy now duplicated, e.label = .deliver copy now duplicated ∧ copy.target = node ∧
    computePacketId copy.packet = id ∧ e.before.Accepts topology copy now

/-- No two steps of the history satisfy `P`. -/
def AtMostOnce (P : Taken (Network V) (Event V) → Prop)
    (history : List (Taken (Network V) (Event V))) : Prop :=
  history.Pairwise fun d e => ¬ (P d ∧ P e)

variable {topology : Topology V} {start s : Network V} {history : List (Taken (Network V) (Event V))}
  {node : V} {id : Str} {e : Taken (Network V) (Event V)}

omit [DecidableEq V] [CaseMapping] [Primitives] in
theorem AtMostOnce.of_imp {P Q : Taken (Network V) (Event V) → Prop} (once : AtMostOnce Q history)
    (imp : ∀ e, P e → Q e) : AtMostOnce P history :=
  once.imp fun never both => never ⟨imp _ both.1, imp _ both.2⟩

omit [DecidableEq V] in
/-- A node that does not take a packet neither reports nor relays it. -/
theorem evaluate_rejects {copy : Copy V} {now : Seconds} (rejects : ¬ s.Accepts topology copy now) :
    (s.evaluate topology copy now).1.shouldProcessLocally = false ∧
      (s.evaluate topology copy now).1.packetToRelay = none := by
  obtain ⟨silent, quiet, _⟩ := MeshRouter.evaluateIncoming_rejects rejects
  exact ⟨silent, quiet⟩

omit [DecidableEq V] in
theorem Reports.takes (reports : Reports topology node id e) : Takes topology node id e := by
  obtain ⟨_, ⟨copy, now, duplicated, label, target, same, rfl⟩, processed⟩ := reports
  refine ⟨copy, now, duplicated, label, target, same, ?_⟩
  by_contra rejects
  rw [(evaluate_rejects rejects).1] at processed
  cases processed

omit [DecidableEq V] in
theorem Relays.takes (relays : Relays topology node id e) : Takes topology node id e := by
  obtain ⟨_, ⟨copy, now, duplicated, label, target, same, rfl⟩, relayed⟩ := relays
  refine ⟨copy, now, duplicated, label, target, same, ?_⟩
  by_contra rejects
  rw [(evaluate_rejects rejects).2] at relayed
  cases relayed

/-- What a node takes it did not know, and knows afterwards. -/
theorem Takes.knows (takes : Takes topology node id e) (step : Step topology e.before e.label e.after)
    (undisturbed : e.before.Undisturbed topology e.label) :
    ¬ e.before.Knows node id ∧ e.after.Knows node id := by
  obtain ⟨copy, now, duplicated, label, rfl, rfl, accepts⟩ := takes
  obtain ⟨_, after⟩ := step
  rw [label] at undisturbed after
  refine ⟨MeshRouter.Accepts.unknown accepts undisturbed, ?_⟩
  rw [after]
  exact (knows_deliver undisturbed).mpr (Or.inl ⟨accepts, rfl, rfl⟩)

theorem takes_once (run : Run (Step topology) start history s)
    (undisturbed : ∀ e ∈ history, e.before.Undisturbed topology e.label) (node : V) (id : Str) :
    AtMostOnce (Takes topology node id) history := by
  suffices general : AtMostOnce (Takes topology node id) history ∧
      ((∃ e ∈ history, Takes topology node id e) → s.Knows node id) from general.1
  induction run with
  | nil => exact ⟨List.Pairwise.nil, by simp⟩
  | @snoc history s event t _ step ih =>
    obtain ⟨once, known⟩ := ih fun e member => undisturbed e (List.mem_append_left _ member)
    have calm := undisturbed ⟨s, event, t⟩ (List.mem_append_right _ List.mem_cons_self)
    constructor
    · refine List.pairwise_append.mpr ⟨once, List.pairwise_singleton .., ?_⟩
      rintro d earlier _ last ⟨before, now⟩
      obtain rfl := List.mem_singleton.mp last
      exact (now.knows step calm).1 (known ⟨d, earlier, before⟩)
    · rintro ⟨e, member, takes⟩
      rcases List.mem_append.mp member with earlier | last
      · exact (known ⟨e, earlier, takes⟩).step calm step
      · obtain rfl := List.mem_singleton.mp last
        exact (takes.knows step calm).2

omit [DecidableEq V] in
theorem evaluate_relay {copy : Copy V} {now : Seconds} {packet : BitchatPacket}
    (relayed : (s.evaluate topology copy now).1.packetToRelay = some packet) :
    1 ≤ packet.ttl ∧ packet.ttl < copy.packet.ttl ∧
      packet = { copy.packet with ttl := packet.ttl, ttl_le := packet.ttl_le } := by
  by_cases accepts : s.Accepts topology copy now
  · rw [evaluate, (MeshRouter.evaluateIncoming_accepts accepts).1] at relayed
    exact relayCopy_eq_some relayed
  · rw [(evaluate_rejects accepts).2] at relayed
    cases relayed

/-- The hop counts of the copies in flight. -/
def hops (s : Network V) : Multiset Nat := s.inFlight.map fun copy => copy.packet.ttl

/-- A delivery replaces one copy by finitely many with fewer hops. -/
theorem hops_deliver {copy : Copy V} {now : Seconds} {t : Network V}
    (step : Step topology s (.deliver copy now false) t) : CutExpand (· < ·) t.hops s.hops := by
  obtain ⟨carried, rfl⟩ := step
  refine ⟨(relay topology copy.target copy.source
    (s.evaluate topology copy now).1.packetToRelay).map fun copy => copy.packet.ttl, copy.packet.ttl,
    ?_, ?_⟩
  · intro ttl member
    obtain ⟨next, sent, rfl⟩ := Multiset.mem_map.mp member
    exact (evaluate_relay (packet_of_mem_relay sent)).2.1
  · have whole : s.inFlight.erase copy + {copy} = s.inFlight := by
      rw [add_comm, Multiset.singleton_add, Multiset.cons_erase carried]
    simp only [hops, perform, Bool.false_eq_true, if_false, Multiset.map_add]
    rw [add_right_comm, ← Multiset.map_singleton (fun copy : Copy V => copy.packet.ttl), ← Multiset.map_add,
      whole]

/-- No infinite run of deliveries without duplication. -/
theorem deliveries_end (states : Nat → Network V) :
    ¬ ∀ n, ∃ copy now, Step topology (states n) (.deliver copy now false) (states (n + 1)) := by
  intro steps
  have order : WellFounded (CutExpand ((· < ·) : Nat → Nat → Prop)) := WellFounded.cutExpand wellFounded_lt
  obtain ⟨_, ⟨n, rfl⟩, least⟩ := order.has_min (Set.range fun n => (states n).hops) ⟨_, 0, rfl⟩
  obtain ⟨copy, now, step⟩ := steps n
  exact least _ ⟨n + 1, rfl⟩ (hops_deliver step)

/-- Flood safety over every run of every network. -/
theorem flood_safety (run : Run (Step topology) start history s) :
    ((∀ e ∈ history, e.before.Undisturbed topology e.label) → ∀ node id,
      AtMostOnce (Reports topology node id) history ∧
      AtMostOnce (Relays topology node id) history) ∧
    (∀ e ∈ history, ∀ copy now duplicated, e.label = .deliver copy now duplicated →
      (copy.packet.senderId = (topology.settings copy.target).localPeerId →
        (e.before.evaluate topology copy now).1.shouldProcessLocally = false ∧
        (e.before.evaluate topology copy now).1.packetToRelay = none) ∧
      ∀ packet, (e.before.evaluate topology copy now).1.packetToRelay = some packet →
        1 ≤ packet.ttl ∧ packet.ttl < copy.packet.ttl ∧
          packet = { copy.packet with ttl := packet.ttl, ttl_le := packet.ttl_le }) ∧
    ∀ states : Nat → Network V,
      ¬ ∀ n, ∃ copy now, Step topology (states n) (.deliver copy now false) (states (n + 1)) := by
  refine ⟨fun undisturbed node id => ?_, fun e _ copy now duplicated _ => ⟨fun own => ?_, ?_⟩, deliveries_end⟩
  · have once := takes_once run undisturbed node id
    exact ⟨once.of_imp fun _ => Reports.takes, once.of_imp fun _ => Relays.takes⟩
  · exact evaluate_rejects fun accepts => accepts.foreign own
  · exact fun packet => evaluate_relay

end Bitchat.Mesh.Network

namespace Bitchat.Mesh.Network
open Crypto Protocol Str Modular
attribute [local instance] Modular.primitives asciiCase

inductive Corner where
  | left
  | right
  | top
deriving DecidableEq

def Corner.byte : Corner → UInt8
  | left => 1
  | right => 2
  | top => 3

/-- Three nodes, each linked with the two others. -/
def triangle : Topology Corner where
  settings corner := { localPeerId := List.replicate 8 corner.byte }
  neighbours corner := [.left, .right, .top].filter (· ≠ corner)
  address _ source := hex [source.byte]

def quiet : Network V := ⟨fun _ => {}, 0⟩

/-- A greeting of the left node. -/
def greeting : BitchatPacket := .note 1 7

/-- The greeting after this many nodes of the triangle have passed it on. -/
def passedOn : Nat → BitchatPacket
  | 0 => greeting
  | n + 1 => (relayCopy (triangle.settings .right) (passedOn n)).getD greeting

/-- The greeting goes round the cycle and comes back, its first link delivers it twice, and the
direct copy reaches the top late. -/
def greetingEvents : List (Event Corner) :=
  [.originate .left greeting 0, .deliver ⟨.left, .right, greeting⟩ 1 true,
    .deliver ⟨.right, .top, passedOn 1⟩ 2 false, .deliver ⟨.left, .right, greeting⟩ 3 false,
    .deliver ⟨.top, .left, passedOn 2⟩ 4 false, .deliver ⟨.left, .top, greeting⟩ 5 false]

def greetingRound : List (Taken (Network Corner) (Event Corner)) :=
  Run.trace (fun event s => s.perform triangle event) quiet greetingEvents

theorem greetingRound_run : Run (Step triangle) quiet greetingRound
    (greetingEvents.foldl (fun s event => s.perform triangle event) quiet) := by
  refine .snoc (.snoc (.snoc (.snoc (.snoc (.snoc .nil ⟨rfl, rfl⟩) ⟨?_, rfl⟩) ⟨?_, rfl⟩) ⟨?_, rfl⟩)
    ⟨?_, rfl⟩) ⟨?_, rfl⟩ <;> decide +kernel

/-- Nobody reports or relays the greeting twice, and the copy that comes back to the left node ends
there. -/
theorem flood_safety_greeting :
    (∀ node id, AtMostOnce (Reports triangle node id) greetingRound ∧
      AtMostOnce (Relays triangle node id) greetingRound) ∧
    ∀ e ∈ greetingRound, e.label = .deliver ⟨.top, .left, passedOn 2⟩ 4 false →
      (e.before.evaluate triangle ⟨.top, .left, passedOn 2⟩ 4).1.packetToRelay = none := by
  obtain ⟨once, each, _⟩ := flood_safety greetingRound_run
  refine ⟨once (by decide +kernel), fun e member label => ?_⟩
  exact ((each e member _ _ _ label).1 (by decide +kernel)).2

end Bitchat.Mesh.Network
