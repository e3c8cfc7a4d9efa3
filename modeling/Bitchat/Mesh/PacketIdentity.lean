import Bitchat.Crypto.Laws
import Bitchat.Data.Run
import Bitchat.Mesh.Deduplicator

/-! Which packets share an identifier, and which suppress each other in a filter. The
recipient is hashed without a mark of its presence, so a payload can imitate it. -/
namespace Bitchat.Mesh
open Crypto Protocol

structure SameIdentity (p q : BitchatPacket) : Prop where
  senderId : p.senderId = q.senderId
  timestamp : p.timestamp = q.timestamp
  messageType : p.messageType = q.messageType
  recipientId : p.recipientId = q.recipientId
  payload : p.payload = q.payload

/-- `q` carries in its payload what `p` carries as its recipient. -/
structure Imitates (p q : BitchatPacket) : Prop where
  senderId : p.senderId = q.senderId
  timestamp : p.timestamp = q.timestamp
  messageType : p.messageType = q.messageType
  absent : q.recipientId = none
  carried : ∃ id, p.recipientId = some id ∧ q.payload = id ++ p.payload

def Ambiguous (p q : BitchatPacket) : Prop := Imitates p q ∨ Imitates q p

theorem SameIdentity.symm {p q : BitchatPacket} (same : SameIdentity p q) : SameIdentity q p :=
  ⟨same.senderId.symm, same.timestamp.symm, same.messageType.symm, same.recipientId.symm,
    same.payload.symm⟩

theorem SameIdentity.not_imitates {p q : BitchatPacket} (same : SameIdentity p q) :
    ¬ Imitates p q := by
  intro imitates
  obtain ⟨id, present, _⟩ := imitates.carried
  rw [same.recipientId, imitates.absent] at present
  cases present

theorem SameIdentity.not_ambiguous {p q : BitchatPacket} (same : SameIdentity p q) :
    ¬ Ambiguous p q := by
  rintro (imitates | imitates)
  · exact same.not_imitates imitates
  · exact same.symm.not_imitates imitates

section Layout
variable {p q : BitchatPacket}

theorem messageType_inj {s t : MessageType} (same : UInt8.ofNat s.code = UInt8.ofNat t.code) :
    s = t := by
  have codes := congrArg UInt8.toNat same
  simp only [UInt8.toNat_ofNat', Nat.mod_eq_of_lt s.code_lt, Nat.mod_eq_of_lt t.code_lt] at codes
  have found := MessageType.ofCode_code s
  rw [codes, MessageType.ofCode_code] at found
  exact (Option.some.inj found).symm

/-- The fixed-size fields are read back; what follows is the recipient and the payload. -/
theorem identityBytes_inj (same : identityBytes p = identityBytes q) :
    p.senderId = q.senderId ∧ p.timestamp = q.timestamp ∧ p.messageType = q.messageType ∧
      p.recipientId.getD [] ++ p.payload = q.recipientId.getD [] ++ q.payload := by
  obtain ⟨sender, rest⟩ := List.append_inj same (p.senderId_size.trans q.senderId_size.symm)
  obtain ⟨time, rest⟩ := List.append_inj rest (by simp)
  obtain ⟨code, rest⟩ := List.cons.inj rest
  have fitsP := p.timestamp_le
  have fitsQ := q.timestamp_le
  have times := congrArg Bytes.ofBE time
  rw [Bytes.ofBE_toBE (by omega), Bytes.ofBE_toBE (by omega)] at times
  exact ⟨sender, times, messageType_inj code, rest⟩

theorem identityBytes_eq_iff : identityBytes p = identityBytes q ↔ SameIdentity p q ∨ Ambiguous p q := by
  constructor
  · intro same
    obtain ⟨sender, time, type, rest⟩ := identityBytes_inj same
    cases idP : p.recipientId with
    | none =>
      cases idQ : q.recipientId with
      | none =>
        rw [idP, idQ] at rest
        exact Or.inl ⟨sender, time, type, idP.trans idQ.symm, rest⟩
      | some id =>
        rw [idP, idQ] at rest
        exact Or.inr (Or.inr ⟨sender.symm, time.symm, type.symm, idP, id, idQ, rest⟩)
    | some id =>
      cases idQ : q.recipientId with
      | none =>
        rw [idP, idQ] at rest
        exact Or.inr (Or.inl ⟨sender, time, type, idQ, id, idP, rest.symm⟩)
      | some other =>
        rw [idP, idQ] at rest
        obtain ⟨ids, payload⟩ := List.append_inj rest
          ((p.recipientId_size id idP).trans (q.recipientId_size other idQ).symm)
        have ids : id = other := ids
        exact Or.inl ⟨sender, time, type, by rw [idP, idQ, ids], payload⟩
  · have imitated {p q : BitchatPacket} (imitates : Imitates p q) :
        identityBytes p = identityBytes q := by
      obtain ⟨id, present, carried⟩ := imitates.carried
      simp only [identityBytes, imitates.senderId, imitates.timestamp, imitates.messageType,
        imitates.absent, present, carried, Option.getD_some, Option.getD_none, List.nil_append]
    rintro (same | imitates | imitates)
    · simp only [identityBytes, same.senderId, same.timestamp, same.messageType, same.recipientId,
        same.payload]
    · exact imitated imitates
    · exact (imitated imitates).symm

end Layout

section Identifiers
variable [Primitives]

/-- The truncated hash tells the two packets' inputs apart. -/
def NoCollision (p q : BitchatPacket) : Prop :=
  (Primitives.sha256 (identityBytes p)).take 16 = (Primitives.sha256 (identityBytes q)).take 16 →
    identityBytes p = identityBytes q

theorem computePacketId_eq_iff {p q : BitchatPacket} (distinct : NoCollision p q) :
    computePacketId p = computePacketId q ↔ SameIdentity p q ∨ Ambiguous p q := by
  rw [← identityBytes_eq_iff]
  constructor
  · exact fun same => distinct (Str.hex_injective same)
  · intro same
    rw [computePacketId, computePacketId, same]

end Identifiers

namespace PacketDeduplicator
variable [Primitives]

inductive Operation where
  | check (packet : BitchatPacket) (now : Seconds)
  | record (packet : BitchatPacket) (now : Seconds)
  | prune (now : Seconds)
  | clear

/-- The packet that the operation may record. -/
def Operation.packet : Operation → Option BitchatPacket
  | check packet _ | record packet _ => some packet
  | prune _ | clear => none

def perform (lim : DeduplicatorLimits) (operation : Operation) (s : PacketDeduplicator) :
    PacketDeduplicator :=
  match operation with
  | .check packet now => (s.checkAndRecord lim now packet).2
  | .record packet now => s.record lim now packet
  | .prune now => s.pruneExpired lim now
  | .clear => s.clear

def Step (lim : DeduplicatorLimits) (s : PacketDeduplicator) (operation : Operation)
    (t : PacketDeduplicator) : Prop := t = perform lim operation s

section Entries
variable {lim : DeduplicatorLimits} {now time : Seconds} {s : PacketDeduplicator} {id known : Str}

omit [Primitives] in
theorem popFirst_known (found : s.entries.popFirst.get? known = some time) :
    s.entries.get? known = some time := by
  rcases InsertionMap.get?_popFirst (m := s.entries) (k := known) with same | ⟨gone, _⟩
  · exact same ▸ found
  · rw [gone] at found
    cases found

omit [Primitives] in
theorem recordId_known (found : (s.recordId lim now id).entries.get? known = some time) :
    known = id ∨ s.entries.get? known = some time := by
  by_cases same : known = id
  · exact Or.inl same
  · right
    simp only [recordId, InsertionMap.get?_set, same, if_false] at found
    split at found
    · simpa [same] using found
    · split at found
      · exact popFirst_known found
      · exact found

omit [Primitives] in
theorem isIdDuplicate_known (found : (s.isIdDuplicate lim now id).2.entries.get? known = some time) :
    s.entries.get? known = some time := by
  unfold isIdDuplicate at found
  split at found
  · exact found
  · split at found
    · rw [InsertionMap.get?_erase] at found
      split at found
      · cases found
      · exact found
    · exact found

/-- An operation adds the identifier of its packet and no other. -/
theorem perform_known {operation : Operation}
    (found : (perform lim operation s).entries.get? known = some time) :
    (∃ packet, operation.packet = some packet ∧ computePacketId packet = known) ∨
      s.entries.get? known = some time := by
  cases operation with
  | check packet now =>
    simp only [perform, checkAndRecord] at found
    split at found
    · exact Or.inr (isIdDuplicate_known found)
    · rcases recordId_known found with rfl | older
      · exact Or.inl ⟨packet, rfl, rfl⟩
      · exact Or.inr (isIdDuplicate_known older)
  | record packet now =>
    rcases recordId_known found with rfl | older
    · exact Or.inl ⟨packet, rfl, rfl⟩
    · exact Or.inr older
  | prune now =>
    right
    rw [InsertionMap.get?_eq_some] at found ⊢
    exact (List.dropWhile_sublist _).subset found
  | clear => simp [perform, clear] at found

theorem checkAndRecord_duplicate {packet : BitchatPacket}
    (duplicate : (s.checkAndRecord lim now packet).1 = true) :
    ∃ time, s.entries.get? (computePacketId packet) = some time := by
  cases found : s.entries.get? (computePacketId packet) with
  | none => simp [checkAndRecord, isIdDuplicate, found] at duplicate
  | some time => exact ⟨time, rfl⟩

/-- Every entry of a reachable filter was made for a packet that passed it. -/
theorem known_passed {history : List (Taken PacketDeduplicator Operation)}
    (run : Run (Step lim) {} history s) (found : s.entries.get? known = some time) :
    ∃ e ∈ history, ∃ packet, e.label.packet = some packet ∧ computePacketId packet = known := by
  induction run generalizing time with
  | nil => simp at found
  | @snoc history s operation t _ step ih =>
    obtain rfl : t = perform lim operation s := step
    rcases perform_known found with ⟨packet, passed, same⟩ | older
    · exact ⟨_, List.mem_append_right _ List.mem_cons_self, packet, passed, same⟩
    · obtain ⟨e, member, packet, passed, same⟩ := ih older
      exact ⟨e, List.mem_append_left _ member, packet, passed, same⟩

end Entries

/-- No two packets of the run share a hash or imitate each other. -/
def Unambiguous (history : List (Taken PacketDeduplicator Operation)) : Prop :=
  ∀ d ∈ history, ∀ e ∈ history, ∀ p ∈ d.label.packet, ∀ q ∈ e.label.packet,
    NoCollision p q ∧ ¬ Ambiguous p q

/-- Identifiers are exact where no packet imitates another, and there a filter suppresses
only repetitions. -/
theorem packet_identity :
    (∀ p q, NoCollision p q →
      ((computePacketId p = computePacketId q ↔ SameIdentity p q) ↔ ¬ Ambiguous p q)) ∧
    ∀ lim history s, Run (Step lim) {} history s → Unambiguous history →
      ∀ earlier e later q now, history = earlier ++ e :: later → e.label = .check q now →
        (e.before.checkAndRecord lim now q).1 = true →
        ∃ d ∈ earlier, ∃ p, d.label.packet = some p ∧ SameIdentity p q := by
  constructor
  · intro p q distinct
    rw [computePacketId_eq_iff distinct]
    constructor
    · exact fun exact' ambiguous => (exact'.mp (Or.inr ambiguous)).not_ambiguous ambiguous
    · exact fun clear' => ⟨fun same => same.resolve_right clear', Or.inl⟩
  · rintro lim _ s run unambiguous earlier e later q now rfl check duplicate
    obtain ⟨time, found⟩ := checkAndRecord_duplicate duplicate
    obtain ⟨d, member, p, passed, same⟩ := known_passed run.split.1 found
    obtain ⟨distinct, clear'⟩ := unambiguous d (List.mem_append_left _ member) e
      (List.mem_append_right _ List.mem_cons_self) p passed q (by simp [check, Operation.packet])
    exact ⟨d, member, p, passed, ((computePacketId_eq_iff distinct).mp same).resolve_right clear'⟩

end PacketDeduplicator
end Bitchat.Mesh

namespace Bitchat.Mesh
open Crypto Protocol Modular
attribute [local instance] Modular.primitives

/-- A message for everyone that carries eight bytes and a letter. -/
def imitation : BitchatPacket :=
  BitchatPacket.plainMessage (List.replicate 8 1) (List.replicate 8 2 ++ [7]) (by decide) (by decide)

/-- The letter alone, for the peer whose id the eight bytes are. -/
def directed : BitchatPacket := .noteTo 1 2 7

/-- A packet and its copy with another hop count have one identifier. -/
theorem packet_identity_hops :
    computePacketId directed = computePacketId { directed with ttl := 3, ttl_le := by decide } := by
  apply ((PacketDeduplicator.packet_identity.1 _ _ ?_).mpr ?_).mpr
  · exact ⟨rfl, rfl, rfl, rfl, rfl⟩
  · exact fun _ => rfl
  · rintro (imitates | imitates)
    · cases imitates.absent
    · cases imitates.absent

/-- Two packets with different recipients and payloads share an identifier, and a filter
that has seen one suppresses the other. -/
theorem not_every_identity_exact :
    computePacketId directed = computePacketId imitation ∧ ¬ SameIdentity directed imitation ∧
    ((({} : PacketDeduplicator).checkAndRecord {} 0 directed).2.checkAndRecord {} 1 imitation).1 =
      true := by
  refine ⟨?_, fun same => ?_, by decide +kernel⟩
  · rw [computePacketId, computePacketId, identityBytes_eq_iff.mpr]
    exact Or.inr (Or.inl ⟨rfl, rfl, rfl, rfl, _, rfl, rfl⟩)
  · cases same.recipientId

end Bitchat.Mesh
