import Bitchat.Mesh.FloodSafety

/-! How far a flood reaches. The first copy that arrives fixes the hops a node passes on,
so the reach depends on the order of deliveries unless no detour is long enough. -/
namespace Bitchat.Mesh.Network
open Crypto Protocol Str

variable {V : Type}

/-- `v` is at most `d` hops from the origin along some walk of exactly `d` links. -/
inductive Within (topology : Topology V) (origin : V) : Nat → V → Prop where
  | origin : Within topology origin 0 origin
  | hop {d u v} : Within topology origin d u → v ∈ topology.neighbours u →
      Within topology origin (d + 1) v

/-- A walk from the origin that visits no node twice, latest node first. -/
inductive SimplePath (topology : Topology V) (origin : V) : List V → Prop where
  | start : SimplePath topology origin [origin]
  | extend {u v rest} : SimplePath topology origin (u :: rest) → v ∈ topology.neighbours u →
      v ∉ u :: rest → SimplePath topology origin (v :: u :: rest)

/-- Reached by a walk none of whose links is link `t + 1` of a walk that visits no node twice. -/
inductive Assured (topology : Topology V) (origin : V) (t : Nat) : V → Prop where
  | origin : Assured topology origin t origin
  | hop {u v} : Assured topology origin t u → v ∈ topology.neighbours u →
      (∀ rest, SimplePath topology origin (v :: u :: rest) → rest.length ≠ t) →
      Assured topology origin t v

/-- A walk to a node outside a set that holds the origin leaves the set over some link. -/
theorem Within.frontier {topology : Topology V} {origin v : V} {d : Nat} (reached : V → Prop)
    (walk : Within topology origin d v) (first : reached origin) (last : ¬ reached v) :
    ∃ i u w, i < d ∧ Within topology origin i u ∧ w ∈ topology.neighbours u ∧
      Within topology origin (i + 1) w ∧ reached u ∧ ¬ reached w := by
  induction walk with
  | origin => exact absurd first last
  | @hop d u v walk linked ih =>
    by_cases before : reached u
    · exact ⟨d, u, v, Nat.lt_succ_self d, walk, linked, walk.hop linked, before, last⟩
    · obtain ⟨i, u, w, shorter, rest⟩ := ih before
      exact ⟨i, u, w, Nat.lt_succ_of_lt shorter, rest⟩

/-- A packet as it is after some hops. -/
def SameButTtl (copy packet : BitchatPacket) : Prop :=
  copy = { packet with ttl := copy.ttl, ttl_le := copy.ttl_le }

theorem SameButTtl.trans {p q r : BitchatPacket} (first : SameButTtl p q) (second : SameButTtl q r) :
    SameButTtl p r := by
  unfold SameButTtl at *
  rw [first, second]

namespace SameButTtl
variable {copy packet : BitchatPacket}

theorem id [Primitives] (same : SameButTtl copy packet) :
    computePacketId copy = computePacketId packet := by
  rw [show copy = _ from same]
  rfl

theorem sender (same : SameButTtl copy packet) : copy.senderId = packet.senderId := by
  rw [show copy = _ from same]

theorem broadcast (same : SameButTtl copy packet) : isBroadcast copy = isBroadcast packet := by
  rw [show copy = _ from same]
  rfl

end SameButTtl

/-- A copy with hops left and under the ceiling is relayed with one hop less. -/
theorem relayCopy_broadcast {settings : RouterSettings} {packet : BitchatPacket} {k : Nat}
    (public' : isBroadcast packet = true) (hops : packet.ttl = k + 1) (alive : 1 ≤ k)
    (ceiling : (packet.ttl : Int) ≤ settings.maxRelayTtl) :
    ∃ copy, relayCopy settings packet = some copy ∧ copy.ttl = k := by
  have decremented : min (packet.ttl : Int) settings.maxRelayTtl - 1 = k := by omega
  have relays : 1 < packet.ttl ∧ ¬ (¬ isBroadcast packet ∧ isForUs settings packet) := by
    simp only [public', not_true, false_and, not_false_eq_true, and_true]
    omega
  simp only [relayCopy, relays, not_false_eq_true, and_self, if_true, decremented]
  rw [if_pos (by omega)]
  exact ⟨_, rfl, by simp⟩

/-- What a node sends when it takes a broadcast under the ceiling. -/
theorem mem_relay_broadcast [DecidableEq V] {topology : Topology V} {node ingress : V}
    {packet : BitchatPacket} {next : Copy V} (public' : isBroadcast packet = true)
    (ceiling : (packet.ttl : Int) ≤ (topology.settings node).maxRelayTtl) :
    next ∈ relay topology node ingress (relayCopy (topology.settings node) packet) ↔
      next.source = node ∧ SameButTtl next.packet packet ∧ 1 ≤ next.packet.ttl ∧
        packet.ttl = next.packet.ttl + 1 ∧ next.target ∈ topology.neighbours node ∧
        next.target ≠ ingress := by
  constructor
  · intro sent
    cases relayed : relayCopy (topology.settings node) packet with
    | none => simp [relayed, relay] at sent
    | some copy =>
      rw [relayed] at sent
      obtain ⟨source, carried, linked, other⟩ := mem_broadcast.mp sent
      obtain ⟨alive, less, same⟩ := relayCopy_eq_some relayed
      have hops : packet.ttl = (packet.ttl - 1) + 1 := by omega
      obtain ⟨_, relayed', fewer⟩ := relayCopy_broadcast public' hops (by omega) ceiling
      obtain rfl := Option.some.inj (relayed.symm.trans relayed')
      rw [carried]
      exact ⟨source, same, alive, by omega, linked, by simpa using other⟩
  · rintro ⟨source, same, alive, hops, linked, other⟩
    obtain ⟨copy, relayed, fewer⟩ := relayCopy_broadcast public' hops alive ceiling
    have carried : next.packet = copy := by
      rw [show next.packet = _ from same, show copy = _ from (relayCopy_eq_some relayed).2.2]
      simp only [fewer]
    rw [relayed]
    exact mem_broadcast.mpr ⟨source, carried, linked, by simpa using other⟩

section Flood
variable [DecidableEq V] [CaseMapping] [Primitives] {topology : Topology V} {origin : V}
  {packet : BitchatPacket} {s t : Network V} {history : List (Taken (Network V) (Event V))}
  {arrival : V → Option Nat}

/-- `arrival` gives the hop count with which each node has the packet, one more than it
sends at the origin. Every neighbour of a node that relays has the packet or a copy is on its way. -/
structure Flood (topology : Topology V) (origin : V) (packet : BitchatPacket)
    (history : List (Taken (Network V) (Event V))) (s : Network V) (arrival : V → Option Nat) :
    Prop where
  begun : arrival origin = some (packet.ttl + 1)
  known : ∀ v, s.Knows v (computePacketId packet) ↔ (arrival v).isSome
  bounded : ∀ v r, arrival v = some r → 1 ≤ r ∧ r ≤ packet.ttl + 1
  reported : ∀ v, v ≠ origin → (arrival v).isSome →
    ∃ e ∈ history, Reports topology v (computePacketId packet) e
  carried : ∀ copy ∈ s.inFlight, computePacketId copy.packet = computePacketId packet →
    SameButTtl copy.packet packet ∧ arrival copy.source = some (copy.packet.ttl + 1) ∧
      copy.target ∈ topology.neighbours copy.source
  covered : ∀ u v k, arrival u = some (k + 1) → 1 ≤ k → v ∈ topology.neighbours u →
    (arrival v).isSome ∨ ∃ copy ∈ s.inFlight, copy.target = v ∧ SameButTtl copy.packet packet ∧
      copy.packet.ttl = k
  parent : ∀ v r, arrival v = some r → (v = origin ∧ r = packet.ttl + 1) ∨
    ∃ u, arrival u = some (r + 1) ∧ v ∈ topology.neighbours u

/-- The network lets the packet through: no filter is disturbed, no limit on its sender is
reached, and nobody originates it again. -/
def Unhindered (topology : Topology V) (id : Str) (s : Network V) (event : Event V) : Prop :=
  s.Undisturbed topology event ∧
  match event with
  | .originate _ other _ => computePacketId other ≠ id
  | .deliver copy now _ => computePacketId copy.packet = id →
    ((s.routers copy.target).isRateLimited (topology.settings copy.target) now
      (hex copy.packet.senderId)).1 = false

instance (id : Str) (s : Network V) : (event : Event V) → Decidable (Unhindered topology id s event)
  | .originate .. => inferInstanceAs (Decidable (_ ∧ _))
  | .deliver .. => inferInstanceAs (Decidable (_ ∧ (_ → _)))

/-- The nodes pass on broadcasts of this size, and only the origin has the sender's id. -/
structure Carries (topology : Topology V) (origin : V) (packet : BitchatPacket) : Prop where
  public' : isBroadcast packet = true
  ceiling : ∀ v, (packet.ttl : Int) ≤ (topology.settings v).maxRelayTtl
  sender : ∀ v, packet.senderId = (topology.settings v).localPeerId ↔ v = origin

omit [DecidableEq V] [CaseMapping] in
/-- An unhindered node takes a live copy exactly when it is new to it and not its own. -/
theorem accepts_iff {copy : Copy V} {now : Seconds} {duplicated : Bool}
    (carries : Carries topology origin packet) (same : SameButTtl copy.packet packet)
    (unhindered : Unhindered topology (computePacketId packet) s (.deliver copy now duplicated)) :
    s.Accepts topology copy now ↔ copy.target ≠ origin ∧ 0 < copy.packet.ttl ∧
      ¬ s.Knows copy.target (computePacketId packet) := by
  obtain ⟨roomy, unlimited⟩ := unhindered
  have checked := (PacketDeduplicator.checkAndRecord_roomy roomy []).1
  have own : copy.packet.senderId = (topology.settings copy.target).localPeerId ↔
      copy.target = origin := by
    rw [same.sender]
    exact carries.sender copy.target
  rw [same.id] at checked
  constructor
  · intro accepts
    refine ⟨fun origin' => accepts.foreign (own.mpr origin'), accepts.alive, fun known => ?_⟩
    exact Bool.false_ne_true (accepts.new.symm.trans (checked.mpr known))
  · rintro ⟨foreign, alive, unknown⟩
    refine ⟨fun origin' => foreign (own.mp origin'), unlimited same.id, alive, ?_⟩
    cases duplicate : ((s.routers copy.target).deduplicator.checkAndRecord
        (topology.settings copy.target).deduplicator now copy.packet).1 with
    | true => exact absurd (checked.mp duplicate) unknown
    | false => rfl

omit [DecidableEq V] in
/-- Nothing about the packet changes: the same nodes know it, and the same copies are in flight. -/
theorem Flood.unrelated {e : Taken (Network V) (Event V)}
    (flood : Flood topology origin packet history s arrival)
    (known : ∀ v, t.Knows v (computePacketId packet) ↔ s.Knows v (computePacketId packet))
    (copies : ∀ copy, computePacketId copy.packet = computePacketId packet →
      (copy ∈ t.inFlight ↔ copy ∈ s.inFlight)) :
    Flood topology origin packet (history ++ [e]) t arrival where
  begun := flood.begun
  known v := (known v).trans (flood.known v)
  bounded := flood.bounded
  reported v other have' := by
    obtain ⟨d, member, reports⟩ := flood.reported v other have'
    exact ⟨d, List.mem_append_left _ member, reports⟩
  carried copy member same := flood.carried copy ((copies copy same).mp member) same
  covered u v k sent alive linked := by
    refine (flood.covered u v k sent alive linked).imp_right ?_
    rintro ⟨copy, member, target, same, hops⟩
    exact ⟨copy, (copies copy same.id).mpr member, target, same, hops⟩
  parent := flood.parent

/-- Whatever is relayed has the identifier of the copy it answers. -/
theorem mem_relay {copy next : Copy V} {now : Seconds}
    (sent : next ∈ relay topology copy.target copy.source (s.evaluate topology copy now).1.packetToRelay) :
    computePacketId next.packet = computePacketId copy.packet := by
  have only : SameButTtl next.packet copy.packet := (evaluate_relay (packet_of_mem_relay sent)).2.2
  exact only.id

/-- A step with another packet does not touch the flood. -/
theorem Flood.other {event : Event V} (flood : Flood topology origin packet history s arrival)
    (unhindered : Unhindered topology (computePacketId packet) s event)
    (step : Step topology s event t)
    (different : ∀ copy now duplicated, event = .deliver copy now duplicated →
      computePacketId copy.packet ≠ computePacketId packet) :
    Flood topology origin packet (history ++ [⟨s, event, t⟩]) t arrival := by
  obtain ⟨_, rfl⟩ := step
  cases event with
  | originate node other now =>
    obtain ⟨calm, new⟩ := unhindered
    apply flood.unrelated
    · intro v
      simp only [knows_originate calm, Ne.symm new, and_false, false_or]
    · intro copy same
      simp only [perform, Multiset.mem_add]
      refine ⟨fun member => member.resolve_right fun sent => ?_, Or.inl⟩
      rw [(mem_broadcast.mp sent).2.1] at same
      exact new same
  | deliver copy now duplicated =>
    have new := different copy now duplicated rfl
    apply flood.unrelated
    · intro v
      simp only [knows_deliver unhindered.1, Ne.symm new, and_false, false_or]
    · intro next same
      have distinct : next ≠ copy := by
        rintro rfl
        exact new same
      simp only [perform, Multiset.mem_add]
      have rest : next ∈ (if duplicated then s.inFlight else s.inFlight.erase copy) ↔
          next ∈ s.inFlight := by
        split
        · rfl
        · exact Multiset.mem_erase_of_ne distinct
      rw [rest]
      exact ⟨fun member => member.resolve_right fun sent => new ((mem_relay sent).symm.trans same),
        Or.inl⟩

/-- A copy that its target does not take disappears, and was not needed. -/
theorem Flood.drop {copy : Copy V} {now : Seconds} {duplicated : Bool}
    (flood : Flood topology origin packet history s arrival)
    (carries : Carries topology origin packet)
    (unhindered : Unhindered topology (computePacketId packet) s (.deliver copy now duplicated))
    (step : Step topology s (.deliver copy now duplicated) t)
    (same : SameButTtl copy.packet packet) (rejects : ¬ s.Accepts topology copy now) :
    Flood topology origin packet (history ++ [⟨s, .deliver copy now duplicated, t⟩]) t arrival := by
  obtain ⟨_, rfl⟩ := step
  have silent : relay topology copy.target copy.source
      (s.evaluate topology copy now).1.packetToRelay = 0 := by
    rw [(evaluate_rejects rejects).2]
    rfl
  have flight : (s.perform topology (.deliver copy now duplicated)).inFlight =
      if duplicated then s.inFlight else s.inFlight.erase copy := by
    simp only [perform, silent, add_zero]
  have subset {next : Copy V} (member : next ∈ (if duplicated then s.inFlight
      else s.inFlight.erase copy)) : next ∈ s.inFlight := by
    split at member
    · exact member
    · exact Multiset.mem_of_mem_erase member
  refine ⟨flood.begun, fun v => ?_, flood.bounded, fun v other have' => ?_, fun next member => ?_,
    fun u v k sent alive linked => ?_, flood.parent⟩
  · rw [knows_deliver unhindered.1]
    simp only [rejects, false_and, false_or]
    exact flood.known v
  · obtain ⟨d, member, reports⟩ := flood.reported v other have'
    exact ⟨d, List.mem_append_left _ member, reports⟩
  · exact flood.carried next (subset (flight ▸ member))
  · rcases flood.covered u v k sent alive linked with arrived | ⟨next, member, rfl, only, rfl⟩
    · exact Or.inl arrived
    · by_cases gone : next = copy
      · -- the copy was live, so its target has the packet
        subst gone
        left
        rw [accepts_iff carries same unhindered] at rejects
        by_cases home : next.target = origin
        · rw [home, flood.begun]
          rfl
        · rw [← flood.known]
          by_contra unknown
          exact rejects ⟨home, alive, unknown⟩
      · refine Or.inr ⟨next, ?_, rfl, only, rfl⟩
        rw [flight]
        split
        · exact member
        · exact (Multiset.mem_erase_of_ne gone).mpr member

/-- A node that takes a copy has the packet from then on, and passes it on to its other
neighbours with one hop less. -/
theorem Flood.take {copy : Copy V} {now : Seconds} {duplicated : Bool}
    (flood : Flood topology origin packet history s arrival)
    (carries : Carries topology origin packet)
    (unhindered : Unhindered topology (computePacketId packet) s (.deliver copy now duplicated))
    (step : Step topology s (.deliver copy now duplicated) t)
    (same : SameButTtl copy.packet packet) (accepts : s.Accepts topology copy now) :
    Flood topology origin packet (history ++ [⟨s, .deliver copy now duplicated, t⟩]) t
      (Function.update arrival copy.target (some copy.packet.ttl)) := by
  obtain ⟨inFlight, rfl⟩ := step
  obtain ⟨foreign, alive, unknown⟩ := (accepts_iff carries same unhindered).mp accepts
  have absent : arrival copy.target = none := by
    rw [flood.known] at unknown
    exact Option.not_isSome_iff_eq_none.mp unknown
  obtain ⟨_, sent, linked⟩ := flood.carried copy inFlight same.id
  have elsewhere {u : V} {r : Nat} (arrived : arrival u = some r) : u ≠ copy.target := by
    rintro rfl
    exact absurd (absent.symm.trans arrived) (by simp)
  have ceiling : copy.packet.ttl ≤ packet.ttl := Nat.le_of_succ_le_succ (flood.bounded _ _ sent).2
  have decided : (s.evaluate topology copy now).1 = _ :=
    (MeshRouter.evaluateIncoming_accepts accepts).1
  have everywhere : isBroadcast copy.packet = true := same.broadcast.trans carries.public'
  have under : (copy.packet.ttl : Int) ≤ (topology.settings copy.target).maxRelayTtl :=
    le_trans (by exact_mod_cast ceiling) (carries.ceiling copy.target)
  have here {w : V} (arrived : (arrival w).isSome) :
      (Function.update arrival copy.target (some copy.packet.ttl) w).isSome := by
    obtain ⟨r, arrived⟩ := Option.isSome_iff_exists.mp arrived
    rw [Function.update_of_ne (elsewhere arrived), arrived]
    rfl
  refine ⟨?_, fun w => ?_, fun w r arrived => ?_, fun w other arrived => ?_, fun next member only => ?_,
    fun u w j arrived more near => ?_, fun w r arrived => ?_⟩
  · rw [Function.update_of_ne (Ne.symm foreign), flood.begun]
  · rw [knows_deliver unhindered.1, flood.known]
    by_cases at' : w = copy.target
    · subst at'
      simp [accepts, same.id]
    · simp [at']
  · by_cases at' : w = copy.target
    · subst at'
      rw [Function.update_self] at arrived
      obtain rfl := Option.some.inj arrived
      exact ⟨alive, Nat.le_succ_of_le ceiling⟩
    · rw [Function.update_of_ne at'] at arrived
      exact flood.bounded w r arrived
  · by_cases at' : w = copy.target
    · subst at'
      refine ⟨_, List.mem_append_right _ List.mem_cons_self, _, ⟨copy, now, duplicated, rfl, rfl, same.id,
        decided⟩, ?_⟩
      simp [isForUs, everywhere]
    · rw [Function.update_of_ne at'] at arrived
      obtain ⟨d, before, reports⟩ := flood.reported w other arrived
      exact ⟨d, List.mem_append_left _ before, reports⟩
  · simp only [perform, Multiset.mem_add] at member
    rcases member with older | passed
    · have before : next ∈ s.inFlight := by
        split at older
        · exact older
        · exact Multiset.mem_of_mem_erase older
      obtain ⟨alike, arrived, near⟩ := flood.carried next before only
      rw [Function.update_of_ne (elsewhere arrived)]
      exact ⟨alike, arrived, near⟩
    · rw [decided, mem_relay_broadcast everywhere under] at passed
      obtain ⟨from', alike, _, hops, near, _⟩ := passed
      rw [from', Function.update_self, hops]
      exact ⟨alike.trans same, rfl, near⟩
  · by_cases at' : u = copy.target
    · subst at'
      rw [Function.update_self] at arrived
      have hops : copy.packet.ttl = j + 1 := Option.some.inj arrived
      by_cases back : w = copy.source
      · left
        rw [back]
        exact here (Option.isSome_iff_exists.mpr ⟨_, sent⟩)
      · right
        have fits : j ≤ 255 := by
          have := copy.packet.ttl_le
          omega
        let fewer : BitchatPacket := { copy.packet with ttl := j, ttl_le := fits }
        have alike : SameButTtl fewer copy.packet := rfl
        refine ⟨⟨copy.target, w, fewer⟩, ?_, rfl, alike.trans same, rfl⟩
        simp only [perform, Multiset.mem_add, decided]
        exact Or.inr ((mem_relay_broadcast everywhere under).mpr ⟨rfl, alike, more, hops, near, back⟩)
    · rw [Function.update_of_ne at'] at arrived
      rcases flood.covered u w j arrived more near with before | ⟨next, member, rfl, alike, rfl⟩
      · exact Or.inl (here before)
      · by_cases gone : next = copy
        · subst gone
          left
          rw [Function.update_self]
          rfl
        · refine Or.inr ⟨next, ?_, rfl, alike, rfl⟩
          simp only [perform, Multiset.mem_add]
          left
          split
          · exact member
          · exact (Multiset.mem_erase_of_ne gone).mpr member
  · by_cases at' : w = copy.target
    · subst at'
      rw [Function.update_self] at arrived
      obtain rfl := Option.some.inj arrived
      refine Or.inr ⟨copy.source, ?_, linked⟩
      rw [Function.update_of_ne (elsewhere sent), sent]
    · rw [Function.update_of_ne at'] at arrived
      refine (flood.parent w r arrived).imp_right ?_
      rintro ⟨u, before, near⟩
      refine ⟨u, ?_, near⟩
      rw [Function.update_of_ne (elsewhere before), before]

/-- A delivered copy of the packet has the most hops left of those in flight. -/
def InHopOrder (id : Str) (s : Network V) (event : Event V) : Prop :=
  ∀ copy now duplicated, event = .deliver copy now duplicated → computePacketId copy.packet = id →
    ∀ other ∈ s.inFlight, computePacketId other.packet = id → other.packet.ttl ≤ copy.packet.ttl

/-- Every node that has the packet has it with as many hops as its distance allows. -/
def Nearest (topology : Topology V) (origin : V) (packet : BitchatPacket)
    (arrival : V → Option Nat) : Prop :=
  ∀ v r d, arrival v = some r → Within topology origin d v → packet.ttl + 1 ≤ r + d

/-- The flood as it begins: only the origin has the packet, and its neighbours are sent it. -/
theorem Flood.start {now : Seconds}
    (calm : s.Undisturbed topology (.originate origin packet now))
    (unknown : ∀ v, ¬ s.Knows v (computePacketId packet))
    (unsent : ∀ copy ∈ s.inFlight, computePacketId copy.packet ≠ computePacketId packet) :
    Flood topology origin packet [] (s.perform topology (.originate origin packet now))
      fun v => if v = origin then some (packet.ttl + 1) else none where
  begun := if_pos rfl
  known v := by
    rw [knows_originate calm]
    by_cases home : v = origin
    · simp [home]
    · simp [home, unknown v]
  bounded v r arrived := by
    split at arrived
    · obtain rfl := Option.some.inj arrived
      exact ⟨Nat.succ_pos _, le_rfl⟩
    · cases arrived
  reported v other arrived := by simp [other] at arrived
  carried copy member same := by
    rcases Multiset.mem_add.mp member with older | sent
    · exact absurd same (unsent copy older)
    · obtain ⟨source, carried, linked, _⟩ := mem_broadcast.mp sent
      rw [carried, source, if_pos rfl]
      exact ⟨rfl, rfl, linked⟩
  covered u v k arrived alive linked := by
    right
    split at arrived
    next home =>
      subst home
      refine ⟨⟨u, v, packet⟩, Multiset.mem_add.mpr (Or.inr ?_), rfl, rfl, ?_⟩
      · exact mem_broadcast.mpr ⟨rfl, rfl, linked, by simp⟩
      · exact Nat.succ.inj (Option.some.inj arrived)
    next => cases arrived
  parent v r arrived := by
    split at arrived
    next home => exact Or.inl ⟨home, (Option.some.inj arrived).symm⟩
    next => cases arrived

omit [CaseMapping] [Primitives] in
theorem nearest_start : Nearest topology origin packet
    fun v => if v = origin then some (packet.ttl + 1) else none := by
  intro v r d arrived _
  simp only at arrived
  split at arrived
  · obtain rfl := Option.some.inj arrived
    exact Nat.le_add_right ..
  · cases arrived

/-- A copy that arrives in hop order arrives over a shortest walk. -/
theorem Flood.nearest_take {copy : Copy V}
    (flood : Flood topology origin packet history s arrival)
    (nearest : Nearest topology origin packet arrival) (absent : arrival copy.target = none)
    (order : ∀ other ∈ s.inFlight, computePacketId other.packet = computePacketId packet →
      other.packet.ttl ≤ copy.packet.ttl) :
    Nearest topology origin packet (Function.update arrival copy.target (some copy.packet.ttl)) := by
  intro v r d arrived walk
  by_cases at' : v = copy.target
  · subst at'
    rw [Function.update_self] at arrived
    obtain rfl := Option.some.inj arrived
    by_contra further
    -- a node on the walk has sent a copy with more hops, which is still in flight
    obtain ⟨i, u, w, shorter, before, linked, _, has, hasNot⟩ := walk.frontier
      (fun v => (arrival v).isSome) (by simp [flood.begun]) (by simp [absent])
    obtain ⟨r, have'⟩ := Option.isSome_iff_exists.mp has
    have enough := nearest u r i have' before
    obtain ⟨k, rfl⟩ : ∃ k, r = k + 1 := ⟨r - 1, by omega⟩
    rcases flood.covered u w k have' (by omega) linked with arrived | ⟨next, member, _, same, rfl⟩
    · exact hasNot arrived
    · have := order next member same.id
      omega
  · rw [Function.update_of_ne at'] at arrived
    exact nearest v r d arrived walk

/-- One step of the network and the flood after it. -/
theorem Flood.step {event : Event V} (flood : Flood topology origin packet history s arrival)
    (carries : Carries topology origin packet)
    (unhindered : Unhindered topology (computePacketId packet) s event) (step : Step topology s event t) :
    ∃ next, Flood topology origin packet (history ++ [⟨s, event, t⟩]) t next ∧
      (InHopOrder (computePacketId packet) s event → Nearest topology origin packet arrival →
        Nearest topology origin packet next) := by
  by_cases concerns : ∃ copy now duplicated, event = .deliver copy now duplicated ∧
      computePacketId copy.packet = computePacketId packet
  · obtain ⟨copy, now, duplicated, rfl, id⟩ := concerns
    have same := (flood.carried copy step.1 id).1
    by_cases accepts : s.Accepts topology copy now
    · refine ⟨_, flood.take carries unhindered step same accepts, fun order nearest => ?_⟩
      have unknown := ((accepts_iff carries same unhindered).mp accepts).2.2
      rw [flood.known] at unknown
      exact flood.nearest_take nearest (Option.not_isSome_iff_eq_none.mp unknown)
        (order copy now duplicated rfl id)
    · exact ⟨_, flood.drop carries unhindered step same accepts, fun _ nearest => nearest⟩
  · refine ⟨_, flood.other unhindered step ?_, fun _ nearest => nearest⟩
    intro copy now duplicated label id
    exact concerns ⟨copy, now, duplicated, label, id⟩

/-- Every run from the start of a flood is that flood. -/
theorem Flood.run {start : Network V} (begin' : Flood topology origin packet [] start arrival)
    (carries : Carries topology origin packet) (run : Run (Step topology) start history s)
    (unhindered : ∀ e ∈ history, Unhindered topology (computePacketId packet) e.before e.label) :
    ∃ last, Flood topology origin packet history s last ∧
      ((∀ e ∈ history, InHopOrder (computePacketId packet) e.before e.label) →
        Nearest topology origin packet arrival → Nearest topology origin packet last) := by
  induction run with
  | nil => exact ⟨arrival, begin', fun _ nearest => nearest⟩
  | @snoc history s event t _ step ih =>
    obtain ⟨last, flood, order⟩ := ih fun e member => unhindered e (List.mem_append_left _ member)
    obtain ⟨next, flood', order'⟩ := flood.step carries
      (unhindered ⟨s, event, t⟩ (List.mem_append_right _ List.mem_cons_self)) step
    refine ⟨next, flood', fun ordered nearest => order' ?_ (order ?_ nearest)⟩
    · exact ordered ⟨s, event, t⟩ (List.mem_append_right _ List.mem_cons_self)
    · exact fun e member => ordered e (List.mem_append_left _ member)

omit [DecidableEq V] in
/-- A node has the packet over a walk on which the hops fall by one a link. -/
theorem Flood.chain (flood : Flood topology origin packet history s arrival) {v : V} {r : Nat}
    (arrived : arrival v = some r) : ∃ rest, SimplePath topology origin (v :: rest) ∧
      rest.length + r = packet.ttl + 1 ∧ ∀ u ∈ v :: rest, ∃ q, arrival u = some q ∧ r ≤ q := by
  have bound := (flood.bounded v r arrived).2
  induction gap : packet.ttl + 1 - r generalizing v r with
  | zero =>
    rcases flood.parent v r arrived with ⟨rfl, rfl⟩ | ⟨u, earlier, _⟩
    · refine ⟨[], .start, by simp, fun u member => ?_⟩
      obtain rfl := List.mem_singleton.mp member
      exact ⟨_, arrived, le_rfl⟩
    · have := (flood.bounded u _ earlier).2
      omega
  | succ n ih =>
    rcases flood.parent v r arrived with ⟨_, rfl⟩ | ⟨u, earlier, linked⟩
    · omega
    · obtain ⟨rest, path, long, more⟩ := ih earlier (flood.bounded u _ earlier).2 (by omega)
      have new : v ∉ u :: rest := by
        intro visited
        obtain ⟨q, again, above⟩ := more v visited
        obtain rfl := Option.some.inj (arrived.symm.trans again)
        omega
      refine ⟨u :: rest, path.extend linked new, ?_, fun w member => ?_⟩
      · rw [List.length_cons]
        omega
      · rcases List.mem_cons.mp member with rfl | member
        · exact ⟨r, arrived, le_rfl⟩
        · obtain ⟨q, again, above⟩ := more w member
          exact ⟨q, again, by omega⟩

omit [DecidableEq V] in
/-- Nothing is in flight any more: a node that had hops left has passed the packet on. -/
theorem Flood.passed (flood : Flood topology origin packet history s arrival)
    (delivered : ∀ copy ∈ s.inFlight, computePacketId copy.packet ≠ computePacketId packet)
    {u v : V} {r : Nat} (arrived : arrival u = some r) (hops : 2 ≤ r)
    (linked : v ∈ topology.neighbours u) : (arrival v).isSome := by
  obtain ⟨k, rfl⟩ : ∃ k, r = k + 1 := ⟨r - 1, by omega⟩
  rcases flood.covered u v k arrived (by omega) linked with have' | ⟨copy, member, _, same, _⟩
  · exact have'
  · exact absurd same.id (delivered copy member)

omit [DecidableEq V] in
theorem Flood.nearest_reaches (flood : Flood topology origin packet history s arrival)
    (delivered : ∀ copy ∈ s.inFlight, computePacketId copy.packet ≠ computePacketId packet)
    (nearest : Nearest topology origin packet arrival) {v : V} {d : Nat}
    (near : d ≤ packet.ttl) (walk : Within topology origin d v) : (arrival v).isSome := by
  by_contra missing
  obtain ⟨i, u, w, shorter, before, linked, _, has, hasNot⟩ := walk.frontier
    (fun v => (arrival v).isSome) (by simp [flood.begun]) missing
  obtain ⟨r, arrived⟩ := Option.isSome_iff_exists.mp has
  have enough := nearest u r i arrived before
  exact hasNot (flood.passed delivered arrived (by omega) linked)

omit [DecidableEq V] in
theorem Flood.assured_reaches (flood : Flood topology origin packet history s arrival)
    (delivered : ∀ copy ∈ s.inFlight, computePacketId copy.packet ≠ computePacketId packet)
    {v : V} (assured : Assured topology origin packet.ttl v) : (arrival v).isSome := by
  induction assured with
  | origin => simp [flood.begun]
  | @hop u v _ linked short ih =>
    obtain ⟨r, arrived⟩ := Option.isSome_iff_exists.mp ih
    by_cases hops : 2 ≤ r
    · exact flood.passed delivered arrived hops linked
    · -- the last hop was used up on a walk that could only go on to `v`
      obtain ⟨rest, path, long, more⟩ := flood.chain arrived
      have := (flood.bounded u r arrived).1
      by_contra missing
      refine short rest (path.extend linked fun visited => missing ?_) (by omega)
      obtain ⟨q, again, _⟩ := more v visited
      simp [again]

/-- Flood coverage over every run of every network: all nodes in reach when copies with more
hops are delivered first, and the nodes without long detours in any order. -/
theorem flood_coverage {now : Seconds} {before : Network V}
    (carries : Carries topology origin packet)
    (calm : before.Undisturbed topology (.originate origin packet now))
    (unknown : ∀ v, ¬ before.Knows v (computePacketId packet))
    (unsent : ∀ copy ∈ before.inFlight, computePacketId copy.packet ≠ computePacketId packet)
    (run : Run (Step topology) (before.perform topology (.originate origin packet now)) history s)
    (unhindered : ∀ e ∈ history, Unhindered topology (computePacketId packet) e.before e.label)
    (delivered : ∀ copy ∈ s.inFlight, computePacketId copy.packet ≠ computePacketId packet) :
    ((∀ e ∈ history, InHopOrder (computePacketId packet) e.before e.label) →
      ∀ v d, v ≠ origin → d ≤ packet.ttl → Within topology origin d v →
        ∃ e ∈ history, Reports topology v (computePacketId packet) e) ∧
    ∀ v, v ≠ origin → Assured topology origin packet.ttl v →
      ∃ e ∈ history, Reports topology v (computePacketId packet) e := by
  obtain ⟨last, flood, order⟩ := (Flood.start calm unknown unsent).run carries run unhindered
  constructor
  · intro ordered v d other near walk
    have nearest := order ordered nearest_start
    exact flood.reported v other (flood.nearest_reaches delivered nearest near walk)
  · intro v other assured
    exact flood.reported v other (flood.assured_reaches delivered assured)

end Flood
end Bitchat.Mesh.Network

namespace Bitchat.Mesh.Network
open Crypto Protocol Str Modular
attribute [local instance] Modular.primitives asciiCase

/-- Node 3 is two links from node 0 over node 2, and nodes 1 and 2 are linked as well. -/
def detour : Topology (Fin 4) where
  settings node := { localPeerId := List.replicate 8 (1 + UInt8.ofNat node) }
  neighbours
    | 0 => [1, 2]
    | 1 => [0, 2]
    | 2 => [0, 1, 3]
    | 3 => [2]
  address _ source := hex [UInt8.ofNat source]

namespace Detour

/-- A greeting of node 0 that may travel two links. -/
def shortGreeting : BitchatPacket := { greeting with ttl := 2, ttl_le := by decide }

def lastHop : BitchatPacket := greeting.lastHop

/-- The greeting on its way from node 0, then as node 1 relays it, then all delivered: node 2
first has the copy that came over node 1. -/
def begun : Network (Fin 4) := (⟨fun _ => {}, 0⟩ : Network (Fin 4)).perform detour (.originate 0 shortGreeting 0)

def first : Event (Fin 4) := .deliver ⟨0, 1, shortGreeting⟩ 1 false
def second : Event (Fin 4) := .deliver ⟨1, 2, lastHop⟩ 1 false
def third : Event (Fin 4) := .deliver ⟨0, 2, shortGreeting⟩ 1 false

def relayed : Network (Fin 4) := begun.perform detour first
def arrived : Network (Fin 4) := relayed.perform detour second
def settled : Network (Fin 4) := arrived.perform detour third

end Detour

open Detour in
/-- When all copies are delivered, node 3 has nothing: node 2 had no hop left to pass on. -/
theorem not_every_flood_covers :
    Carries detour 0 shortGreeting ∧ Within detour 0 2 3 ∧ shortGreeting.ttl = 2 ∧
    ∃ history, Run (Step detour) begun history settled ∧
      (∀ e ∈ history, Unhindered detour (computePacketId shortGreeting) e.before e.label) ∧
      settled.inFlight = 0 ∧ ∀ e ∈ history, ¬ Reports detour 3 (computePacketId shortGreeting) e := by
  have first' : Step detour begun first relayed := ⟨by decide +kernel, rfl⟩
  have second' : Step detour relayed second arrived := ⟨by decide +kernel, rfl⟩
  have third' : Step detour arrived third settled := ⟨by decide +kernel, rfl⟩
  refine ⟨⟨by decide, by decide, by decide⟩, ?_, rfl,
    [] ++ [⟨begun, first, relayed⟩] ++ [⟨relayed, second, arrived⟩] ++ [⟨arrived, third, settled⟩],
    ((Run.nil.snoc first').snoc second').snoc third', ?_, by decide +kernel, ?_⟩
  · exact (Within.origin.hop (v := 2) (by decide)).hop (by decide)
  · intro e member
    simp only [List.nil_append, List.cons_append, List.mem_cons, List.not_mem_nil, or_false] at member
    rcases member with rfl | rfl | rfl
    · decide +kernel
    · decide +kernel
    · decide +kernel
  · -- no step delivers to node 3
    rintro e member ⟨_, ⟨copy, now, duplicated, label, target, _⟩, _⟩
    simp only [List.nil_append, List.cons_append, List.mem_cons, List.not_mem_nil, or_false] at member
    rcases member with rfl | rfl | rfl
    all_goals
      cases label
      cases target

/-- Two nodes, each the other's only neighbour. -/
def couple : Topology Bool where
  settings node := { localPeerId := List.replicate 8 (if node then 1 else 2) }
  neighbours node := [!node]
  address _ source := if source then ['t'] else ['f']

/-- The greeting reaches the other one of two nodes. -/
theorem flood_coverage_greeting : ∃ history s,
    Run (Step couple) (quiet.perform couple (.originate true greeting 0)) history s ∧
      ∃ e ∈ history, Reports couple false (computePacketId greeting) e := by
  let event : Event Bool := .deliver ⟨true, false, greeting⟩ 1 false
  let sent := quiet.perform couple (.originate true greeting 0)
  have calm : quiet.Undisturbed couple (.originate true greeting 0) := by decide +kernel
  have run : Run (Step couple) (quiet.perform couple (.originate true greeting 0))
      ([] ++ [⟨sent, event, sent.perform couple event⟩]) (sent.perform couple event) :=
    Run.nil.snoc ⟨by decide +kernel, rfl⟩
  refine ⟨_, _, run, (flood_coverage ⟨by decide, by decide, by decide⟩ calm (by decide +kernel)
    (by decide +kernel) run ?_ (by decide +kernel)).1 ?_ false 1 (by decide) (by decide) ?_⟩
  · intro e member
    obtain rfl := List.mem_singleton.mp member
    decide +kernel
  · rintro e member copy now duplicated label -
    obtain rfl := List.mem_singleton.mp member
    cases label
    decide +kernel
  · exact Within.origin.hop (by decide)

end Bitchat.Mesh.Network
