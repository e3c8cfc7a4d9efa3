import Bitchat.App.AddressTables
import Bitchat.Mesh.RouterSteps

/-! Whom a coordinator takes for a direct neighbour. A packet counts as its neighbour's own while
it has seven hops left, but a relay lets up to nine pass. -/
namespace Bitchat.App
open Crypto Protocol Mesh Str

/-- The test of `_process_packet_async`. -/
def isDirectNeighbor (packet : BitchatPacket) (peerAddress : Option Str) : Prop :=
  ∃ address, peerAddress = some address ∧ (hex packet.senderId = address ∨ 7 ≤ packet.ttl)

section Relays
variable [CaseMapping] [Primitives]

/-- A node with the default ceiling relays the packet as this copy. -/
def RelaysAs (packet copy : BitchatPacket) : Prop :=
  ∃ (settings : RouterSettings) (router : MeshRouter) (now : Seconds) (ingressSource : Option Str),
    settings.maxRelayTtl = 10 ∧
    (router.evaluateIncoming settings now packet ingressSource).1.packetToRelay = some copy

/-- The copy of a packet after some relays. -/
inductive Relayed (packet : BitchatPacket) : Nat → BitchatPacket → Prop where
  | once {copy : BitchatPacket} : RelaysAs packet copy → Relayed packet 1 copy
  | again {n : Nat} {copy next : BitchatPacket} : Relayed packet n copy → RelaysAs copy next →
      Relayed packet (n + 1) next

variable {packet copy : BitchatPacket} {n : Nat}

/-- A relay takes one hop, from the ceiling when the packet has more, and leaves at least one. -/
theorem RelaysAs.copied (relays : RelaysAs packet copy) :
    copy.senderId = packet.senderId ∧ copy.ttl + 1 = min packet.ttl 10 ∧ 1 ≤ copy.ttl := by
  obtain ⟨settings, router, now, ingressSource, ceiling, relayed⟩ := relays
  have made : relayCopy settings packet = some copy := by
    by_cases accepts : router.Accepts settings now packet
    · rw [(MeshRouter.evaluateIncoming_accepts accepts).1] at relayed
      exact relayed
    · rw [(MeshRouter.evaluateIncoming_rejects accepts).2.1] at relayed
      cases relayed
  obtain ⟨alive, fewer, same⟩ := relayCopy_eq_some made
  have sender : copy.senderId = packet.senderId := by rw [same]
  refine ⟨sender, ?_, alive⟩
  simp only [relayCopy, ceiling] at made
  split at made
  · split at made
    · cases made
      simp only at alive ⊢
      omega
    · cases made
  · cases made

/-- After `n` relays the hops are those of the packet, cut to the ceiling, less `n`. -/
theorem Relayed.copied (relayed : Relayed packet n copy) :
    copy.senderId = packet.senderId ∧ copy.ttl + n = min packet.ttl 10 ∧ 1 ≤ copy.ttl := by
  induction relayed with
  | once relays => exact relays.copied
  | again _ relays ih =>
    obtain ⟨sender, hops, _⟩ := ih
    obtain ⟨sender', hops', alive⟩ := relays.copied
    refine ⟨sender'.trans sender, ?_, alive⟩
    omega

end Relays

section Receivers
variable {τ : Type} [BaseTransport τ] [CaseMapping] {cfg : MeshSettings} {now : Seconds}
  {packet : BitchatPacket} {address : Str} {c : MeshCoordinator τ}

/-- Only the packet of a direct neighbour writes the address tables. -/
theorem processPacket_distant (distant : ¬ isDirectNeighbor packet (some address)) :
    (c.processPacket cfg now packet (some address)).tables = c.tables := by
  rw [MeshCoordinator.processPacket_tables]
  split
  · rfl
  · rw [MeshCoordinator.learnPeer_tables]
    exact if_neg fun direct => distant ⟨address, rfl, direct.2⟩

/-- The link of a packet that counts as its neighbour's own becomes its sender's. -/
theorem processPacket_direct (direct : isDirectNeighbor packet (some address)) (named : address ≠ [])
    (foreign : CaseMapping.lower (hex packet.senderId) ≠ CaseMapping.lower cfg.localPeerIdHex) :
    (c.processPacket cfg now packet (some address)).addressToPeerId.get? address =
      some (hex packet.senderId) := by
  obtain ⟨_, ⟨⟩, test⟩ := direct
  have tables : (c.processPacket cfg now packet (some address)).tables = _ :=
    MeshCoordinator.processPacket_tables (some address)
  rw [if_neg foreign, MeshCoordinator.learnPeer_tables] at tables
  simp only [ne_eq, named, not_false_eq_true, true_and, if_pos test] at tables
  rw [(Prod.mk.inj tables).2]
  simp [MeshCoordinator.noteAddress]

end Receivers

/-- The receiver of a copy takes its sender for a neighbour exactly when the hops of the packet,
cut to the ceiling, are at least seven more than the relays. Otherwise its tables stay. -/
theorem relayed_not_neighbour {τ : Type} [BaseTransport τ] [CaseMapping] [Primitives]
    {packet copy : BitchatPacket} {n : Nat} (relayed : Relayed packet n copy) (address : Str)
    (other : address ≠ hex copy.senderId) :
    (¬ isDirectNeighbor copy (some address) ↔ min packet.ttl 10 < 7 + n) ∧
    ∀ (cfg : MeshSettings) (now : Seconds) (c : MeshCoordinator τ),
      (min packet.ttl 10 < 7 + n →
        (c.processPacket cfg now copy (some address)).tables = c.tables) ∧
      (¬ min packet.ttl 10 < 7 + n → address ≠ [] →
        CaseMapping.lower (hex copy.senderId) ≠ CaseMapping.lower cfg.localPeerIdHex →
        (c.processPacket cfg now copy (some address)).addressToPeerId.get? address =
          some (hex packet.senderId)) := by
  obtain ⟨sender, hops, _⟩ := relayed.copied
  have exact' : ¬ isDirectNeighbor copy (some address) ↔ min packet.ttl 10 < 7 + n := by
    constructor
    · intro distant
      by_contra many
      exact distant ⟨address, rfl, Or.inr (by omega)⟩
    · rintro few ⟨_, ⟨⟩, same | many⟩
      · exact other same.symm
      · omega
  refine ⟨exact', fun cfg now c => ⟨fun few => processPacket_distant (exact'.mpr few), ?_⟩⟩
  intro many named foreign
  rw [← sender]
  exact processPacket_direct (not_not.mp fun distant => many (exact'.mp distant)) named foreign

section Copies
open Lan Modular
attribute [local instance] Modular.primitives asciiCase

/-- A message with some hops left. -/
def messageWith (ttl : Nat) (bound : ttl ≤ 255) : BitchatPacket :=
  { BitchatPacket.note 1 7 with ttl, ttl_le := bound }

/-- A new node relays a message with eight hops left as one with seven. -/
theorem message_relayed_eight : RelaysAs (messageWith 8 (by decide)) (messageWith 7 (by decide)) :=
  ⟨{ localPeerId := List.replicate 8 9 }, {}, 0, none, rfl, by decide +kernel⟩

/-- It relays one with seven hops left as one with six. -/
theorem message_relayed_seven : RelaysAs (messageWith 7 (by decide)) (messageWith 6 (by decide)) :=
  ⟨{ localPeerId := List.replicate 8 9 }, {}, 0, none, rfl, by decide +kernel⟩

/-- A message that began with seven hops does not pass for the relaying node's own. -/
theorem relayed_message_distant :
    ¬ isDirectNeighbor (messageWith 6 (by decide)) (some MeshCoordinator.listener) :=
  (relayed_not_neighbour (τ := LANTransport) (.once message_relayed_seven)
    MeshCoordinator.listener (by decide)).1.mpr (by decide)

/-- One that began with eight hops makes the receiver give the relaying node's link to its sender. -/
theorem far_sender_takes_link : ¬ ∀ (packet copy : BitchatPacket) (address : Str)
    (c : MeshCoordinator LANTransport), RelaysAs packet copy → address ≠ hex copy.senderId →
    ¬ isDirectNeighbor copy (some address) ∧
      (c.processPacket MeshCoordinator.courierSettings 0 copy (some address)).tables = c.tables := by
  intro ignored
  have kept := (ignored _ _ MeshCoordinator.listener (MeshCoordinator.after MeshCoordinator.discovering
    MeshCoordinator.dialer).2 message_relayed_eight (by decide)).2
  have same := congrArg (fun tables => tables.2.get? MeshCoordinator.listener) kept
  exact absurd same (by decide +kernel)

end Copies
end Bitchat.App
