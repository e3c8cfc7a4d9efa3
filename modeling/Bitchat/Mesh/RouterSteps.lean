import Bitchat.Mesh.Router

/-! What one incoming packet does to a router: the conditions under which it is accepted,
the decision then, and the identifiers that the duplicate filter knows afterwards. -/
namespace Bitchat.Mesh
open Crypto Protocol Str

namespace PacketDeduplicator
variable {lim : DeduplicatorLimits} {now : Seconds} {id other : Str} {s : PacketDeduplicator}

def knows (id : Str) (s : PacketDeduplicator) : Prop := s.entries.contains id

/-- Recording the identifier deletes no entry: neither is its own expired nor is the table full. -/
structure Roomy (lim : DeduplicatorLimits) (now : Seconds) (id : Str) (s : PacketDeduplicator) :
    Prop where
  fresh : ∀ recorded, s.entries.get? id = some recorded → expired lim now recorded = false
  room : s.knows id ∨ s.entries.size < lim.maxEntries

instance : Decidable (s.knows id) := inferInstanceAs (Decidable (s.entries.contains id = true))

instance : Decidable (s.Roomy lim now id) :=
  decidable_of_iff ((∀ recorded ∈ s.entries.get? id, expired lim now recorded = false) ∧
      (s.knows id ∨ s.entries.size < lim.maxEntries))
    ⟨fun both => ⟨both.1, both.2⟩, fun roomy => ⟨roomy.fresh, roomy.room⟩⟩

theorem knows_iff : s.knows id ↔ ∃ recorded, s.entries.get? id = some recorded :=
  InsertionMap.contains_iff

theorem knows_recordId (room : s.knows id ∨ s.entries.size < lim.maxEntries) :
    (s.recordId lim now id).knows other ↔ other = id ∨ s.knows other := by
  simp only [knows_iff, recordId, InsertionMap.get?_set]
  by_cases same : other = id
  · simp [same]
  · simp only [same, if_false, false_or]
    by_cases known : s.entries.contains id
    · simp [known, same]
    · have space : ¬ lim.maxEntries ≤ s.entries.size := not_le.mpr (room.resolve_left known)
      simp [known, space]

theorem isIdDuplicate_roomy (roomy : s.Roomy lim now id) :
    s.isIdDuplicate lim now id = (s.entries.contains id, s) := by
  unfold isIdDuplicate
  cases found : s.entries.get? id with
  | none => simp [InsertionMap.contains, found]
  | some recorded => simp [InsertionMap.contains, found, roomy.fresh recorded found]

variable [Primitives] {packet : BitchatPacket}

theorem checkAndRecord_roomy (roomy : s.Roomy lim now (computePacketId packet)) (other : Str) :
    ((s.checkAndRecord lim now packet).1 = true ↔ s.knows (computePacketId packet)) ∧
    ((s.checkAndRecord lim now packet).2.knows other ↔
      other = computePacketId packet ∨ s.knows other) := by
  simp only [checkAndRecord, isIdDuplicate_roomy roomy]
  by_cases known : s.knows (computePacketId packet)
  · have found : s.entries.contains (computePacketId packet) = true := known
    simp only [found, if_true, known, true_and]
    constructor
    · exact Or.inr
    · rintro (rfl | older)
      · exact known
      · exact older
  · have missing : s.entries.contains (computePacketId packet) = false := by
      simpa [knows] using known
    simp only [missing, Bool.false_eq_true, if_false, known, knows_recordId roomy.room, and_self]

end PacketDeduplicator

theorem relayCopy_eq_some {settings : RouterSettings} {packet copy : BitchatPacket}
    (relayed : relayCopy settings packet = some copy) :
    1 ≤ copy.ttl ∧ copy.ttl < packet.ttl ∧
      copy = { packet with ttl := copy.ttl, ttl_le := copy.ttl_le } := by
  simp only [relayCopy] at relayed
  split at relayed
  · split at relayed
    next alive =>
      cases relayed
      refine ⟨?_, ?_, rfl⟩
      · change 1 ≤ (min (packet.ttl : Int) settings.maxRelayTtl - 1).toNat
        omega
      · change (min (packet.ttl : Int) settings.maxRelayTtl - 1).toNat < packet.ttl
        omega
    next => cases relayed
  · cases relayed

theorem relayCopy_id [Primitives] {settings : RouterSettings} {packet copy : BitchatPacket}
    (relayed : relayCopy settings packet = some copy) : computePacketId copy = computePacketId packet := by
  rw [(relayCopy_eq_some relayed).2.2]
  rfl

namespace MeshRouter
variable {settings : RouterSettings} {now : Seconds} {packet : BitchatPacket}
  {ingressSource : Option Str} {s : MeshRouter}

theorem isRateLimited_frame (sender : Str) :
    ∃ rateLimiter, (s.isRateLimited settings now sender).2 = { s with rateLimiter } := by
  have pruned : ∃ rateLimiter,
      (if 1000 < s.rateLimiter.size then s.pruneRateLimiter settings 1 now else s) = { s with rateLimiter } := by
    split
    · exact ⟨_, rfl⟩
    · exact ⟨s.rateLimiter, rfl⟩
  obtain ⟨rateLimiter, pruned⟩ := pruned
  unfold isRateLimited
  simp only [pruned]
  split
  · exact ⟨_, rfl⟩
  · split
    · exact ⟨_, rfl⟩
    · split <;> exact ⟨_, rfl⟩

theorem isRateLimited_deduplicator (sender : Str) :
    (s.isRateLimited settings now sender).2.deduplicator = s.deduplicator := by
  obtain ⟨_, same⟩ : ∃ rateLimiter, (s.isRateLimited settings now sender).2 = { s with rateLimiter } :=
    isRateLimited_frame sender
  rw [same]

variable [CaseMapping]

theorem addRoute_frame (destination nextHop : PeerName) (hopCount : Int) :
    ∃ routes, s.addRoute settings destination nextHop hopCount now = { s with routes } := by
  have room : ∃ routes, s.makeRouteRoom settings now = { s with routes } := by
    unfold makeRouteRoom
    split
    · simp only
      split
      · split
        · exact ⟨_, rfl⟩
        · exact ⟨_, rfl⟩
      · exact ⟨_, rfl⟩
    · exact ⟨s.routes, rfl⟩
  obtain ⟨routes, room⟩ := room
  unfold addRoute
  simp only [room]
  split
  · exact ⟨_, rfl⟩
  · split <;> exact ⟨_, rfl⟩

theorem learnRoute_frame : ∃ routes, s.learnRoute settings now packet ingressSource = { s with routes } := by
  unfold learnRoute
  split
  · exact ⟨s.routes, rfl⟩
  · split
    · exact ⟨s.routes, rfl⟩
    · exact addRoute_frame _ _ _

theorem learnRoute_deduplicator :
    (s.learnRoute settings now packet ingressSource).deduplicator = s.deduplicator := by
  obtain ⟨_, same⟩ : ∃ routes, s.learnRoute settings now packet ingressSource = { s with routes } :=
    learnRoute_frame
  rw [same]

theorem getNextHop_frame (destination : PeerName) :
    ∃ routes, (s.getNextHop settings destination now).2 = { s with routes } := by
  unfold getNextHop
  simp only
  split
  · exact ⟨s.routes, rfl⟩
  · split <;> exact ⟨_, rfl⟩

variable [Primitives]

/-- The packet passes the checks of the router, in their order. -/
structure Accepts (settings : RouterSettings) (now : Seconds) (packet : BitchatPacket)
    (s : MeshRouter) : Prop where
  foreign : packet.senderId ≠ settings.localPeerId
  unlimited : (s.isRateLimited settings now (hex packet.senderId)).1 = false
  alive : 0 < packet.ttl
  new : (s.deduplicator.checkAndRecord settings.deduplicator now packet).1 = false

omit [CaseMapping] in
instance : Decidable (s.Accepts settings now packet) :=
  decidable_of_iff (packet.senderId ≠ settings.localPeerId ∧
      (s.isRateLimited settings now (hex packet.senderId)).1 = false ∧ 0 < packet.ttl ∧
      (s.deduplicator.checkAndRecord settings.deduplicator now packet).1 = false)
    ⟨fun h => ⟨h.1, h.2.1, h.2.2.1, h.2.2.2⟩, fun h => ⟨h.foreign, h.unlimited, h.alive, h.new⟩⟩

omit [CaseMapping] in
theorem accepts_of_checks {limited duplicate : Bool} {next : MeshRouter} {filter : PacketDeduplicator}
    (rate : s.isRateLimited settings now (hex packet.senderId) = (limited, next))
    (check : s.deduplicator.checkAndRecord settings.deduplicator now packet = (duplicate, filter)) :
    s.Accepts settings now packet ↔ packet.senderId ≠ settings.localPeerId ∧ limited = false ∧
      0 < packet.ttl ∧ duplicate = false := by
  constructor
  · rintro ⟨foreign, unlimited, alive, new⟩
    rw [rate] at unlimited
    rw [check] at new
    exact ⟨foreign, unlimited, alive, new⟩
  · rintro ⟨foreign, unlimited, alive, new⟩
    exact ⟨foreign, by rw [rate]; exact unlimited, alive, by rw [check]; exact new⟩

omit [CaseMapping] in
/-- What the rate limit and the filter answer. The limit leaves the filter as it is. -/
theorem checks_answer (settings : RouterSettings) (now : Seconds) (packet : BitchatPacket) (s : MeshRouter) :
    ∃ limited next duplicate filter,
      s.isRateLimited settings now (hex packet.senderId) = (limited, next) ∧
      next.deduplicator = s.deduplicator ∧
      s.deduplicator.checkAndRecord settings.deduplicator now packet = (duplicate, filter) :=
  ⟨_, _, _, _, rfl, isRateLimited_deduplicator _, rfl⟩

/-- A packet that passes is decided on, and its identifier and that of its copy are recorded. -/
theorem evaluateIncoming_accepts (accepts : s.Accepts settings now packet) :
    (s.evaluateIncoming settings now packet ingressSource).1 =
      { shouldProcessLocally := isForUs settings packet
        packetToRelay := relayCopy settings packet
        targetPeerIdHex := if isForUs settings packet then none else packet.recipientId.map hex
        excludeIngress := ingressSource } ∧
    (s.evaluateIncoming settings now packet ingressSource).2.deduplicator =
      match relayCopy settings packet with
      | none => (s.deduplicator.checkAndRecord settings.deduplicator now packet).2
      | some copy => (s.deduplicator.checkAndRecord settings.deduplicator now packet).2.record
          settings.deduplicator now copy := by
  obtain ⟨limited, next, duplicate, filter, rate, rated, check⟩ := s.checks_answer settings now packet
  obtain ⟨foreign, rfl, alive, rfl⟩ := (accepts_of_checks rate check).mp accepts
  have taken : s.evaluateIncoming settings now packet ingressSource =
      { next with deduplicator := filter }.acceptIncoming settings now packet ingressSource := by
    simp only [evaluateIncoming, foreign, if_false, rate, Bool.false_eq_true,
      not_le.mpr alive, rated, check]
  rw [taken, check]
  refine ⟨rfl, ?_⟩
  unfold acceptIncoming
  cases relayCopy settings packet with
  | none => exact learnRoute_deduplicator
  | some copy => simp only [learnRoute_deduplicator]

/-- A packet that fails a check is dropped. The filter is asked for at most its identifier. -/
theorem evaluateIncoming_rejects (rejects : ¬ s.Accepts settings now packet) :
    (s.evaluateIncoming settings now packet ingressSource).1.shouldProcessLocally = false ∧
    (s.evaluateIncoming settings now packet ingressSource).1.packetToRelay = none ∧
    (s.evaluateIncoming settings now packet ingressSource).1.targetPeerIdHex = none ∧
    ((s.evaluateIncoming settings now packet ingressSource).2.deduplicator = s.deduplicator ∨
      ((s.deduplicator.checkAndRecord settings.deduplicator now packet).1 = true ∧
        (s.evaluateIncoming settings now packet ingressSource).2.deduplicator =
          (s.deduplicator.checkAndRecord settings.deduplicator now packet).2)) := by
  obtain ⟨limited, next, duplicate, filter, rate, rated, check⟩ := s.checks_answer settings now packet
  rw [accepts_of_checks rate check] at rejects
  simp only [evaluateIncoming, rate, rated, check]
  by_cases foreign : packet.senderId = settings.localPeerId
  · simp [foreign]
  · cases limited with
    | true => simp [foreign, rated]
    | false =>
      by_cases alive : packet.ttl ≤ 0
      · simp [foreign, alive, rated]
      · cases duplicate with
        | true => simp [foreign, alive]
        | false => exact absurd ⟨foreign, rfl, not_le.mp alive, rfl⟩ rejects

/-- With room in the filter, exactly the accepted packets become known, and nothing is forgotten. -/
theorem evaluateIncoming_knows {other : Str}
    (roomy : s.deduplicator.Roomy settings.deduplicator now (computePacketId packet)) :
    (s.evaluateIncoming settings now packet ingressSource).2.deduplicator.knows other ↔
      (s.Accepts settings now packet ∧ other = computePacketId packet) ∨
        s.deduplicator.knows other := by
  have checked := PacketDeduplicator.checkAndRecord_roomy roomy other
  by_cases accepts : s.Accepts settings now packet
  · rw [(evaluateIncoming_accepts accepts).2]
    cases relayed : relayCopy settings packet with
    | none => simp only [checked.2, accepts, true_and]
    | some copy =>
      have recorded : (s.deduplicator.checkAndRecord settings.deduplicator now packet).2.knows
          (computePacketId copy) := by
        rw [relayCopy_id relayed]
        exact (PacketDeduplicator.checkAndRecord_roomy roomy _).2.mpr (Or.inl rfl)
      simp only [PacketDeduplicator.record]
      rw [PacketDeduplicator.knows_recordId (Or.inl recorded), checked.2, relayCopy_id relayed]
      simp only [accepts, true_and, or_self_left]
  · simp only [accepts, false_and, false_or]
    rcases (evaluateIncoming_rejects accepts).2.2.2 with same | ⟨duplicate, same⟩
    · rw [same]
    · rw [same, checked.2]
      constructor
      · rintro (rfl | older)
        · exact checked.1.mp duplicate
        · exact older
      · exact Or.inr

theorem acceptIncoming_queue :
    (s.acceptIncoming settings now packet ingressSource).2.storeForwardQueue = s.storeForwardQueue := by
  obtain ⟨routes, learned⟩ : ∃ routes, s.learnRoute settings now packet ingressSource = { s with routes } :=
    learnRoute_frame
  unfold acceptIncoming
  rw [learned]

/-- Deciding on a packet leaves the stored packets alone. -/
theorem evaluateIncoming_queue :
    (s.evaluateIncoming settings now packet ingressSource).2.storeForwardQueue = s.storeForwardQueue := by
  obtain ⟨limiter, rated⟩ : ∃ rateLimiter,
      (s.isRateLimited settings now (hex packet.senderId)).2 = { s with rateLimiter } :=
    isRateLimited_frame _
  unfold evaluateIncoming
  simp only [rated]
  split
  · rfl
  · split
    · rfl
    · split
      · rfl
      · split
        · rfl
        · exact acceptIncoming_queue

omit [CaseMapping] in
theorem Accepts.unknown (accepts : s.Accepts settings now packet)
    (roomy : s.deduplicator.Roomy settings.deduplicator now (computePacketId packet)) :
    ¬ s.deduplicator.knows (computePacketId packet) := by
  have checked := (PacketDeduplicator.checkAndRecord_roomy roomy []).1
  rw [← checked, accepts.new]
  exact Bool.false_ne_true

end MeshRouter
end Bitchat.Mesh
