import Bitchat.Crypto.PeerBinding

/-! What a handshake seals and verifies. Each message carries up to two seals, over a static key
and over a payload, each behind the transcript so far. Sides that agree on the transcript agree on
the secrets and the keys as well. -/
namespace Bitchat.Crypto
open NoiseCipherState

/-- Sealed data, with the key, the nonce and the associated data that they were sealed under. -/
structure Seal where
  key : Bytes
  nonce : Nat
  associated : Bytes
  ciphertext : Bytes

/-- A seal that is verified, and the exchange whose secret its key was derived from. -/
structure Check where
  token : Token
  localPrivate : Bytes
  remotePublic : Bytes
  secret : Bytes
  sealed : Seal

section Seals
variable [Primitives]

/-- The exchange gives the secret, and a key derived from it opens the sealed data. -/
def Check.Valid (check : Check) : Prop :=
  diffieHellman check.localPrivate check.remotePublic = .ok check.secret ∧
  (∃ chain, check.sealed.key = hkdfKey chain check.secret) ∧ check.sealed.ciphertext ≠ [] ∧
  ∃ plaintext, Primitives.aeadDecrypt check.sealed.key (aeadNonce check.sealed.nonce)
    check.sealed.ciphertext check.sealed.associated = some plaintext

namespace Opening

def staticSeal (o : Opening) : Seal := ⟨o.staticKey, 0, transcriptHash o.beforeStatic, o.s2⟩

def payloadSeal (o : Opening) : Seal := ⟨o.payloadKey, 0, transcriptHash o.beforePayload, o.p2⟩

end Opening

namespace NoiseHandshakeState

def Closing.staticSeal (c : Closing) (o : Opening) : Seal :=
  ⟨o.payloadKey, nonceAfter 0 o.p2, transcriptHash o.items, c.s3⟩

def Closing.payloadSeal (c : Closing) (o : Opening) : Seal :=
  ⟨c.lastKey o, 0, transcriptHash (c.s3 :: o.items), c.p3⟩

end NoiseHandshakeState

namespace NoiseSession
open NoiseHandshakeState

/-- The session waits for message 1. -/
def Unanswered (s : NoiseSession) : Prop :=
  s.state = .uninitialized ∨
    s.state = .handshaking ∧ s.handshakeState = some (fresh .responder s.localIdentity.x25519Private)

/-- The call reads message 1 and answers it. -/
structure Answered (s : NoiseSession) (call : Call) (ephemeral : Bytes) (o : Opening) : Prop where
  role : s.role = .responder
  waits : s.Unanswered
  reads : call = .process ephemeral (o.e1 ++ o.p1)
  e1_size : o.e1.length = dhKeySize
  answers : Answers s.localIdentity.x25519Private ephemeral o

/-- The call reads message 2, in which `remote` answers. -/
structure Trusted (s : NoiseSession) (call : Call) (own : Bytes) (o : Opening) (remote : Bytes) :
    Prop where
  role : s.role = .initiator
  state : s.state = .handshaking
  waits : s.handshakeState = some (awaiting2 s.localIdentity.x25519Private own)
  reads : ∃ ephemeral message payload, call = .process ephemeral message ∧
    Trusts own message o remote payload

/-- The call reads message 2, answers it and ends the handshake. -/
structure Closed (s : NoiseSession) (call : Call) (own : Bytes) (o : Opening) (c : Closing)
    (remote : Bytes) : Prop extends Trusted s call own o remote where
  closes : Closes s.localIdentity.x25519Private o c
  binds : s.Binds remote

/-- The call reads message 3, sent by `remote` behind the opening that the session answered. -/
structure Completed (s : NoiseSession) (call : Call) (own : Bytes) (o : Opening) (c : Closing)
    (remote : Bytes) : Prop where
  role : s.role = .responder
  state : s.state = .handshaking
  waits : s.handshakeState = some (awaiting3 s.localIdentity.x25519Private own o)
  answers : Answers s.localIdentity.x25519Private own o
  reads : ∃ ephemeral message payload, call = .process ephemeral message ∧
    Completes own message o c remote payload

/-- What the call seals for the message that it returns, and the transcript that it seals it behind. -/
inductive Seals (s : NoiseSession) (call : Call) : List Bytes → Seal → Prop where
  | static2 {ephemeral o} : Answered s call ephemeral o → Seals s call o.beforeStatic o.staticSeal
  | payload2 {ephemeral o} : Answered s call ephemeral o → Seals s call o.beforePayload o.payloadSeal
  | static3 {own o c remote} : Closed s call own o c remote → Seals s call o.items (c.staticSeal o)
  | payload3 {own o c remote} : Closed s call own o c remote →
      Seals s call (c.s3 :: o.items) (c.payloadSeal o)

/-- The seals that the call verifies in the message that it reads. Empty data have none. -/
inductive ChecksSeal (s : NoiseSession) (call : Call) : Check → Prop where
  | static2 {own o remote} : Trusted s call own o remote →
      ChecksSeal s call ⟨.ee, own, o.e2, o.ee, o.staticSeal⟩
  | payload2 {own o remote} : Trusted s call own o remote → o.p2 ≠ [] →
      ChecksSeal s call ⟨.es, own, remote, o.es, o.payloadSeal⟩
  | static3 {own o c remote} : Completed s call own o c remote →
      ChecksSeal s call ⟨.es, s.localIdentity.x25519Private, o.e1, o.es, c.staticSeal o⟩
  | payload3 {own o c remote} : Completed s call own o c remote → c.p3 ≠ [] →
      ChecksSeal s call ⟨.se, own, remote, c.se, c.payloadSeal o⟩

/-- The call ends the handshake with `remote`, over these items. -/
inductive EndsWith (s : NoiseSession) (call : Call) (remote : Bytes) : List Bytes → Prop where
  | closed {own o c} : Closed s call own o c remote →
      EndsWith s call remote (c.p3 :: c.s3 :: o.items)
  | completed {own o c} : Completed s call own o c remote →
      EndsWith s call remote (c.p3 :: c.s3 :: o.items)

theorem Seals.associated {s : NoiseSession} {call : Call} {items : List Bytes} {x : Seal}
    (seals : Seals s call items x) : x.associated = transcriptHash items := by
  cases seals <;> rfl

end NoiseSession
end Seals

namespace NoiseHandshakeState

theorem sealedKey_ne_nil {message : Bytes} {start : Nat}
    (long : start + (dhKeySize + tagSize) ≤ message.length) :
    Bytes.slice message start (start + (dhKeySize + tagSize)) ≠ [] := by
  intro none
  have size := congrArg List.length none
  rw [Bytes.slice_length] at size
  simp only [List.length_nil, dhKeySize, tagSize] at size long
  omega

section Carried
variable [Primitives] {message own remote payload : Bytes} {o : Opening} {c : Closing}

theorem Carries2.message_eq (carries : Carries2 own message o) :
    message = o.e2 ++ o.s2 ++ o.p2 := by
  rw [carries.e2, carries.s2, carries.p2,
    Bytes.slice_slice message (Nat.zero_le _) (Nat.le_add_right _ _), Bytes.slice, List.drop_zero,
    Nat.sub_zero, List.take_append_drop]

theorem Completes.message_eq (completes : Completes own message o c remote payload) :
    message = c.s3 ++ c.p3 := by
  rw [completes.s3, completes.p3, Bytes.slice, List.drop_zero, Nat.sub_zero, List.take_append_drop]

theorem Answers.nonce {priv ephemeral : Bytes} (answers : Answers priv ephemeral o)
    [LawfulPrimitives] : nonceAfter 0 o.p2 = 1 :=
  (accepts_sealed answers.sealedPayload).2

end Carried

section Agreement
variable [Primitives] [laws : LawfulPrimitives] {own priv answering' ephemeral message message' : Bytes}
  {remote remote' payload payload' : Bytes} {o o' : Opening} {c c' : Closing}

/-- Both sides of an exchange come to the same secret. -/
theorem shared_eq {a b secret secret' : Bytes}
    (left : diffieHellman a (Primitives.publicKey b) = .ok secret)
    (right : diffieHellman b (Primitives.publicKey a) = .ok secret') : secret = secret' := by
  obtain ⟨sizeA, _, exchanged, _⟩ := diffieHellman_eq_ok.mp left
  obtain ⟨sizeB, _, exchanged', _⟩ := diffieHellman_eq_ok.mp right
  rw [laws.exchange_comm sizeA sizeB, exchanged'] at exchanged
  exact (Option.some.inj exchanged).symm

/-- Who trusts the static key of an answer has the secrets of the answer. -/
theorem Trusts.agrees (trusts : Trusts own message o remote payload)
    (answers : Answers priv ephemeral o') (same : o.beforePayload = o'.beforePayload) :
    remote = Primitives.publicKey priv ∧ o.ee = o'.ee ∧ o.es = o'.es := by
  simp only [Opening.beforePayload, Opening.beforeStatic, List.cons.injEq, and_true] at same
  obtain ⟨s2, e2, p1, e1⟩ := same
  have ee : o.ee = o'.ee := by
    have mine := trusts.mixedEE
    have theirs := answers.mixedEE
    rw [e2, answers.ephemeralKey] at mine
    rw [← e1, trusts.e1] at theirs
    exact shared_eq mine theirs
  have remote_eq : remote = Primitives.publicKey priv := by
    have opened := trusts.openedStatic
    have opens := laws.aead_opens answers.sealedStatic
    rw [Opening.staticKey, Opening.beforeStatic, ee, s2, e2, p1, e1] at opened
    exact Option.some.inj (opened.symm.trans opens)
  refine ⟨remote_eq, ee, ?_⟩
  have mine := trusts.mixedES
  have theirs := answers.mixedES
  rw [remote_eq] at mine
  rw [← e1, trusts.e1] at theirs
  exact shared_eq mine theirs

/-- Two sides with one transcript make and verify the same seals. -/
theorem Trusts.seals_eq (trusts : Trusts own message o remote payload)
    (answers : Answers priv ephemeral o') (same : o.items = o'.items) :
    o.staticSeal = o'.staticSeal ∧ o.payloadSeal = o'.payloadSeal := by
  obtain ⟨p2, before⟩ := List.cons.inj same
  obtain ⟨s2, static⟩ := List.cons.inj before
  obtain ⟨_, ee, es⟩ := trusts.agrees answers before
  constructor
  · rw [Opening.staticSeal, Opening.staticSeal, Opening.staticKey, Opening.staticKey, ee, s2, static]
  · rw [Opening.payloadSeal, Opening.payloadSeal, Opening.payloadKey, Opening.payloadKey, ee, es, p2,
      before]

/-- Who takes the end of a handshake from the side that wrote it has that side's static key. -/
theorem Completes.agrees (completes : Completes ephemeral message' o' c' remote' payload')
    (answers : Answers priv ephemeral o') (trusts : Trusts own message o remote payload)
    (closes : Closes answering' o c) (same : c.s3 :: o.items = c'.s3 :: o'.items) :
    remote' = Primitives.publicKey answering' := by
  obtain ⟨s3, items⟩ := List.cons.inj same
  obtain ⟨p2, before⟩ := List.cons.inj items
  obtain ⟨_, ee, es⟩ := trusts.agrees answers before
  have opens := laws.aead_opens closes.sealedStatic
  have opened := completes.openedStatic
  rw [Opening.payloadKey, ee, es, p2, answers.nonce, s3, items] at opens
  exact Option.some.inj (opened.symm.trans opens)

theorem Closing.staticSeal_eq (trusts : Trusts own message o' remote payload)
    (answers : Answers priv ephemeral o) (items : o'.items = o.items) (s3 : c'.s3 = c.s3) :
    c.staticSeal o = c'.staticSeal o' := by
  obtain ⟨p2, before⟩ := List.cons.inj items
  obtain ⟨_, ee, es⟩ := trusts.agrees answers before
  rw [Closing.staticSeal, Closing.staticSeal, Opening.payloadKey, Opening.payloadKey, ee, es, items,
    p2, s3]

theorem Completes.payloadSeal_eq (completes : Completes ephemeral message' o c remote' payload')
    (answers : Answers priv ephemeral o) (trusts : Trusts own message o' remote payload)
    (closes : Closes answering' o' c') (items : o'.items = o.items) (s3 : c'.s3 = c.s3)
    (p3 : c'.p3 = c.p3) : c.payloadSeal o = c'.payloadSeal o' := by
  have same : c'.s3 :: o'.items = c.s3 :: o.items := by rw [s3, items]
  have key := completes.agrees answers trusts closes same
  obtain ⟨_, before⟩ := List.cons.inj items
  obtain ⟨_, ee, es⟩ := trusts.agrees answers before
  have e2 : o'.e2 = o.e2 := by
    simp only [Opening.beforePayload, Opening.beforeStatic, List.cons.injEq] at before
    exact before.2.1
  have se : c.se = c'.se := by
    have mine := completes.mixedSE
    have theirs := closes.mixedSE
    rw [key] at mine
    rw [e2, answers.ephemeralKey] at theirs
    exact shared_eq mine theirs
  rw [Closing.payloadSeal, Closing.payloadSeal, Closing.lastKey, Closing.lastKey, Opening.secrets,
    Opening.secrets, ee, es, se, items, s3, p3]

end Agreement
end NoiseHandshakeState

section
variable [Primitives] [laws : LawfulPrimitives]
open NoiseHandshakeState

/-- What a session verifies holds. -/
theorem NoiseSession.ChecksSeal.valid {s : NoiseSession} {call : Call} {check : Check}
    (verifies : s.ChecksSeal call check) : check.Valid := by
  cases verifies with
  | @static2 own o remote trusted =>
    obtain ⟨_, _, _, _, trusts⟩ := trusted.reads
    have carried : o.s2 ≠ [] := trusts.s2 ▸ sealedKey_ne_nil trusts.size
    exact ⟨trusts.mixedEE, ⟨_, rfl⟩, carried, remote, trusts.openedStatic⟩
  | @payload2 own o remote trusted carried =>
    obtain ⟨_, _, payload, _, trusts⟩ := trusted.reads
    have accepted := trusts.accepted
    rw [Accepts, if_neg carried] at accepted
    exact ⟨trusts.mixedES, ⟨_, rfl⟩, carried, payload, accepted⟩
  | @static3 own o c remote completed =>
    obtain ⟨_, message, _, _, completes⟩ := completed.reads
    have carried : c.s3 ≠ [] := by
      have long : 0 + (dhKeySize + tagSize) ≤ message.length :=
        (Nat.zero_add _).trans_le completes.size
      rw [completes.s3, ← Nat.zero_add (dhKeySize + tagSize)]
      exact sealedKey_ne_nil long
    have opened := completes.openedStatic
    rw [← completed.answers.nonce] at opened
    exact ⟨completed.answers.mixedES, ⟨_, rfl⟩, carried, remote, opened⟩
  | @payload3 own o c remote completed carried =>
    obtain ⟨_, _, payload, _, completes⟩ := completed.reads
    have accepted := completes.accepted
    rw [Accepts, if_neg carried] at accepted
    exact ⟨completes.mixedSE, ⟨_, rfl⟩, carried, payload, accepted⟩

end
end Bitchat.Crypto
