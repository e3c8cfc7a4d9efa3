import Bitchat.Crypto.HandshakeRuns

/-! Handshakes that the network leaves alone, up to the seal of the last payload. There what one
session verifies is what the other has sealed. -/
namespace Bitchat.Crypto
open NoiseHandshakeState NoiseSession

variable [Primitives]

/-- A run that delivers the first two messages as they are, and the third whole or cut off behind
its static key. What comes later is anybody's. -/
structure Dialogue.Delivered (calls : Dialogue) (m1 m2 m3 last : Bytes) : Prop where
  initiator : [m1, m2, m3] <+: calls.conversation .initiator
  responder : [m1, m2, last] <+: calls.conversation .responder
  static : last.take (dhKeySize + tagSize) = m3.take (dhKeySize + tagSize)
  payload : last.drop (dhKeySize + tagSize) = m3.drop (dhKeySize + tagSize) ∨
    last.drop (dhKeySize + tagSize) = []
  answered : ∃ e ∈ calls, e.label.1 = .responder ∧ ∃ own o,
    Answered (e.before .responder) e.label.2 own o
  closed : ∃ e ∈ calls, e.label.1 = .initiator ∧ ∃ own o c remote,
    Closed (e.before .initiator) e.label.2 own o c remote

namespace TwoSessions.Created
variable [laws : LawfulPrimitives] {start s : TwoSessions} {calls : Dialogue} {m1 m2 m3 last : Bytes}
  {e : Taken TwoSessions (NoiseRole × Call)} {own remote : Bytes} {o : Opening} {c : Closing}

variable (created : start.Created) (run : Run Step start calls s)
  (delivered : calls.Delivered m1 m2 m3 last) (member : e ∈ calls)
include created run delivered member

theorem delivered_answer (mine : e.label.1 = .responder)
    (answered : Answered (e.before .responder) e.label.2 own o) :
    o.items = transcript.second m2 ++ transcript.first m1 := by
  obtain ⟨_, said, after, stage, _, whole⟩ := created.at_call run member mine
  obtain rfl := stage.unanswered_inv answered.role answered.waits
  obtain ⟨label, _, returns⟩ := answered.returns
  obtain ⟨later, same⟩ := delivered.responder
  rw [label, messages_of_returns returns, ← same] at whole
  simp only [List.nil_append, List.cons_append, List.cons.injEq] at whole
  rw [answered.answers.items_eq (e.before .responder).localIdentity.size answered.e1_size,
    whole.1, whole.2.1]

theorem delivered_trust (mine : e.label.1 = .initiator)
    (trusted : Trusted (e.before .initiator) e.label.2 own o remote) :
    o.items = transcript.second m2 ++ transcript.first m1 := by
  obtain ⟨_, said, after, stage, _, whole⟩ := created.at_call run member mine
  obtain ⟨_, rfl⟩ := stage.waiting2_inv trusted.role trusted.state trusted.waits
  obtain ⟨_, message, _, label, trusts⟩ := trusted.reads
  obtain ⟨later, same⟩ := delivered.initiator
  rw [label, ← same] at whole
  simp only [messages, List.nil_append, List.cons_append, List.cons.injEq] at whole
  rw [trusts.items_eq (diffieHellman_eq_ok.mp trusts.mixedEE).1, ← whole.1, ← whole.2.1]

theorem delivered_close (mine : e.label.1 = .initiator)
    (closed : Closed (e.before .initiator) e.label.2 own o c remote) :
    c.s3 = m3.take (dhKeySize + tagSize) ∧ c.p3 = m3.drop (dhKeySize + tagSize) := by
  obtain ⟨_, said, after, stage, _, whole⟩ := created.at_call run member mine
  obtain ⟨_, rfl⟩ := stage.waiting2_inv closed.role closed.state closed.waits
  obtain ⟨_, label, _, returns⟩ := closed.returns
  obtain ⟨later, same⟩ := delivered.initiator
  rw [label, messages_of_returns returns, ← same] at whole
  simp only [List.nil_append, List.cons_append, List.cons.injEq] at whole
  have third := closed.closes.third_eq (e.before .initiator).localIdentity.size
  rw [← whole.2.2.1, transcript.third, Bytes.slice, List.drop_zero, Nat.sub_zero] at third
  simp only [List.cons.injEq, and_true] at third
  exact ⟨third.2.symm, third.1.symm⟩

theorem delivered_completion (mine : e.label.1 = .responder)
    (completed : Completed (e.before .responder) e.label.2 own o c remote) : ∃ o',
    Completed (e.before .responder) e.label.2 own o' c remote ∧
    o'.items = transcript.second m2 ++ transcript.first m1 ∧
    c.staticSeal o' = c.staticSeal o ∧ c.payloadSeal o' = c.payloadSeal o ∧
    c.s3 = last.take (dhKeySize + tagSize) ∧ c.p3 = last.drop (dhKeySize + tagSize) := by
  obtain ⟨_, said, after, stage, _, whole⟩ := created.at_call run member mine
  obtain ⟨_, o', size, rfl, completed', static, sealed, _⟩ := stage.completed_inv completed
  obtain ⟨_, message, _, label, completes⟩ := completed'.reads
  obtain ⟨later, same⟩ := delivered.responder
  rw [label, ← same] at whole
  simp only [messages, List.nil_append, List.cons_append, List.cons.injEq] at whole
  obtain ⟨first, second, rfl, _⟩ := whole
  refine ⟨o', completed', ?_, static, sealed, ?_, completes.p3⟩
  · rw [completed'.answers.items_eq (e.before .responder).localIdentity.size size, ← first, ← second]
  · rw [completes.s3, Bytes.slice, List.drop_zero, Nat.sub_zero]

end TwoSessions.Created

/-- What is verified in such a run was sealed by the other session. -/
theorem Dialogue.Delivered.sealed [LawfulPrimitives] {start s : TwoSessions} {calls : Dialogue}
    {m1 m2 m3 last : Bytes} {role : NoiseRole} {check : Check} (created : start.Created)
    (run : Run TwoSessions.Step start calls s) (delivered : calls.Delivered m1 m2 m3 last)
    (verified : calls.Verified role check) : calls.Sealed role.other check.sealed := by
  obtain ⟨a, memberA, mineA, ephemeral, o, answered⟩ := delivered.answered
  obtain ⟨b, memberB, mineB, own, o', c', remote, closed⟩ := delivered.closed
  have itemsA := created.delivered_answer run delivered memberA mineA answered
  have itemsB := created.delivered_trust run delivered memberB mineB closed.toTrusted
  obtain ⟨staticB, payloadB⟩ := created.delivered_close run delivered memberB mineB closed
  obtain ⟨_, _, _, _, trustsB⟩ := closed.reads
  obtain ⟨e, member, mine, verifies⟩ := verified
  have roles := (created.endpoint run member role).1
  cases verifies with
  | static2 trusted =>
    obtain rfl : role = .initiator := roles.symm.trans trusted.role
    obtain ⟨_, _, _, _, trusts⟩ := trusted.reads
    have same := (created.delivered_trust run delivered member mine trusted).trans itemsA.symm
    refine ⟨a, memberA, mineA, o.beforeStatic, ?_⟩
    rw [(trusts.seals_eq answered.answers same).1]
    exact .static2 answered
  | payload2 trusted =>
    obtain rfl : role = .initiator := roles.symm.trans trusted.role
    obtain ⟨_, _, _, _, trusts⟩ := trusted.reads
    have same := (created.delivered_trust run delivered member mine trusted).trans itemsA.symm
    refine ⟨a, memberA, mineA, o.beforePayload, ?_⟩
    rw [(trusts.seals_eq answered.answers same).2]
    exact .payload2 answered
  | static3 completed =>
    obtain rfl : role = .responder := roles.symm.trans completed.role
    obtain ⟨_, completed', items, static, _, s3, _⟩ :=
      created.delivered_completion run delivered member mine completed
    have here := staticB.trans (delivered.static.symm.trans s3.symm)
    refine ⟨b, memberB, mineB, o'.items, ?_⟩
    rw [← static, Closing.staticSeal_eq trustsB completed'.answers (itemsB.trans items.symm) here]
    exact .static3 closed
  | payload3 completed carried =>
    obtain rfl : role = .responder := roles.symm.trans completed.role
    obtain ⟨_, completed', items, _, sealed, s3, p3⟩ :=
      created.delivered_completion run delivered member mine completed
    obtain ⟨_, _, _, _, completes⟩ := completed'.reads
    have here := staticB.trans (delivered.static.symm.trans s3.symm)
    have whole := delivered.payload.resolve_right (p3 ▸ carried)
    refine ⟨b, memberB, mineB, c'.s3 :: o'.items, ?_⟩
    rw [← sealed, completes.payloadSeal_eq completed'.answers trustsB closed.closes
      (itemsB.trans items.symm) here (payloadB.trans (whole.symm.trans p3.symm))]
    exact .payload3 closed

end Bitchat.Crypto
