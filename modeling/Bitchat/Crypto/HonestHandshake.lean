import Bitchat.Crypto.SessionSteps

/-! Two honest sides. What one seals the other opens, so three messages end in two
established sessions with one transcript and crosswise keys. -/
namespace Bitchat.Crypto.NoiseHandshakeState
open Stateful NoiseCipherState

variable [Primitives]

/-- Two private keys whose public halves pass the checks of an exchange. -/
structure Compatible (a b : Bytes) : Prop where
  sizes : a.length = x25519KeySize ∧ b.length = x25519KeySize
  validLeft : validatePublicKey (Primitives.publicKey a) = .ok (Primitives.publicKey a)
  validRight : validatePublicKey (Primitives.publicKey b) = .ok (Primitives.publicKey b)
  exchanges : ∃ shared, Primitives.exchange a (Primitives.publicKey b) = some shared ∧
    shared.length = x25519SharedSecretSize

section Laws
variable [laws : LawfulPrimitives] {a b ephemeral other localStaticPrivate : Bytes} {o : Opening}
  {c : Closing}

/-- Both sides of an exchange come to one secret. -/
theorem Compatible.shared (compatible : Compatible a b) : ∃ shared,
    diffieHellman a (Primitives.publicKey b) = .ok shared ∧
    diffieHellman b (Primitives.publicKey a) = .ok shared := by
  obtain ⟨shared, exchanged, size⟩ := compatible.exchanges
  obtain ⟨sizeA, sizeB⟩ := compatible.sizes
  have swapped := exchanged
  rw [laws.exchange_comm sizeA sizeB] at swapped
  exact ⟨shared, diffieHellman_eq_ok.mpr ⟨sizeA, compatible.validRight, exchanged, size⟩,
    diffieHellman_eq_ok.mpr ⟨sizeB, compatible.validLeft, swapped, size⟩⟩

theorem Compatible.swap (compatible : Compatible a b) {shared : Bytes}
    (exchanged : diffieHellman b (Primitives.publicKey a) = .ok shared) :
    diffieHellman a (Primitives.publicKey b) = .ok shared := by
  obtain ⟨found, left, right⟩ := compatible.shared
  cases exchanged.symm.trans right
  exact left

theorem transcriptHash_length (item : Bytes) (items : List Bytes) :
    (transcriptHash (item :: items)).length = 32 := laws.sha256_length _

theorem hkdfKey_length (chainingKey ikm : Bytes) : (hkdfKey chainingKey ikm).length = 32 :=
  laws.hmac_length ..

/-- Short data are sealed under every derived key. -/
theorem seals (chainingKey ikm : Bytes) (nonce : Nat) (item : Bytes) (items : List Bytes)
    {data : Bytes} (short : data.length ≤ 32) :
    ∃ sealed, Primitives.aeadEncrypt (hkdfKey chainingKey ikm) (aeadNonce nonce) data
      (transcriptHash (item :: items)) = some sealed := by
  apply laws.aead_seals (hkdfKey_length ..) (aeadNonce_length nonce)
  · omega
  · rw [transcriptHash_length]
    decide

theorem publicKey_length (size : a.length = x25519KeySize) :
    (Primitives.publicKey a).length = dhKeySize := laws.publicKey_length size

/-- A responder can answer every compatible ephemeral key. -/
theorem exists_answers (ee : Compatible other ephemeral) (es : Compatible other localStaticPrivate)
    (p1 : Bytes) : ∃ o : Opening, o.e1 = Primitives.publicKey other ∧ o.p1 = p1 ∧
      Answers localStaticPrivate ephemeral o := by
  obtain ⟨ee', _, mixedEE⟩ := ee.shared
  obtain ⟨es', _, mixedES⟩ := es.shared
  obtain ⟨s2, sealedStatic⟩ := seals (chainKey []) ee' 0 (Primitives.publicKey ephemeral)
    [p1, Primitives.publicKey other, []]
    (publicKey_length es.sizes.2).le
  obtain ⟨p2, sealedPayload⟩ := seals (chainKey [ee']) es' 0 s2
    [Primitives.publicKey ephemeral, p1, Primitives.publicKey other, []] (List.length_nil.trans_le (Nat.zero_le 32))
  exact ⟨⟨_, _, _, s2, p2, ee', es'⟩, rfl, rfl,
    ⟨ee.sizes.2, rfl, mixedEE, sealedStatic, mixedES, sealedPayload⟩⟩

theorem Answers.lengths (answers : Answers localStaticPrivate ephemeral o)
    (size : localStaticPrivate.length = x25519KeySize) :
    o.e2.length = dhKeySize ∧ o.s2.length = dhKeySize + tagSize ∧ o.p2.length = tagSize := by
  refine ⟨?_, ?_, ?_⟩
  · rw [answers.ephemeralKey, publicKey_length answers.size]
  · rw [laws.aead_length answers.sealedStatic, publicKey_length size]
  · rw [laws.aead_length answers.sealedPayload, List.length_nil, Nat.zero_add]

theorem accepts_sealed {key data associated sealed : Bytes} {nonce : Nat}
    (sealing : Primitives.aeadEncrypt key (aeadNonce nonce) data associated = some sealed) :
    Accepts key nonce sealed associated data ∧ nonceAfter nonce sealed = nonce + 1 := by
  have carried : sealed ≠ [] := by
    rintro rfl
    have := laws.aead_length sealing
    simp [tagSize] at this
  unfold Accepts nonceAfter
  rw [if_neg carried, if_neg carried]
  exact ⟨laws.aead_opens sealing, rfl⟩

/-- What an honest responder answers is taken by the initiator it answered. -/
theorem Answers.trusted (answers : Answers localStaticPrivate ephemeral o)
    (size : localStaticPrivate.length = x25519KeySize)
    (valid : validatePublicKey (Primitives.publicKey localStaticPrivate) =
      .ok (Primitives.publicKey localStaticPrivate))
    (e1 : o.e1 = Primitives.publicKey other) (p1 : o.p1 = [])
    (mixedEE : diffieHellman other o.e2 = .ok o.ee)
    (mixedES : diffieHellman other (Primitives.publicKey localStaticPrivate) = .ok o.es) :
    Trusts other (o.e2 ++ o.s2 ++ o.p2) o (Primitives.publicKey localStaticPrivate) [] := by
  obtain ⟨sizeE, sizeS, sizeP⟩ := answers.lengths size
  have rest : o.e2 ++ o.s2 ++ o.p2 = o.e2 ++ (o.s2 ++ o.p2) := List.append_assoc ..
  have width : (o.e2 ++ o.s2).length = dhKeySize + (dhKeySize + tagSize) := by
    rw [List.length_append, sizeE, sizeS]
  refine ⟨⟨?_, e1, p1, ?_, ?_, ?_⟩, mixedEE, laws.aead_opens answers.sealedStatic, valid, mixedES,
    (accepts_sealed answers.sealedPayload).1⟩
  · rw [List.length_append, width]
    exact Nat.le_add_right _ _
  · rw [rest, Bytes.slice_left o.e2 _ sizeE.symm]
  · rw [rest, Bytes.slice_append o.e2 o.s2 o.p2 sizeE.symm (by rw [sizeS])]
  · rw [List.drop_left' width]

theorem exists_closes (size : localStaticPrivate.length = x25519KeySize) {se : Bytes}
    (mixedSE : diffieHellman localStaticPrivate o.e2 = .ok se) :
    ∃ c, Closes localStaticPrivate o c ∧ c.se = se := by
  obtain ⟨s3, sealedStatic⟩ := seals (chainKey [o.ee]) o.es (nonceAfter 0 o.p2) o.p2
    o.beforePayload (publicKey_length size).le
  obtain ⟨p3, sealedPayload⟩ := seals (chainKey o.secrets) se 0 s3 o.items
    (List.length_nil.trans_le (Nat.zero_le 32))
  exact ⟨⟨s3, p3, se⟩, ⟨sealedStatic, mixedSE, sealedPayload⟩, rfl⟩

/-- What an honest initiator closes with is taken by the responder it closed with. -/
theorem Closes.completed (closes : Closes localStaticPrivate o c)
    (size : localStaticPrivate.length = x25519KeySize) (once : nonceAfter 0 o.p2 = 1)
    (valid : validatePublicKey (Primitives.publicKey localStaticPrivate) =
      .ok (Primitives.publicKey localStaticPrivate))
    (mixedSE : diffieHellman other (Primitives.publicKey localStaticPrivate) = .ok c.se) :
    Completes other (c.s3 ++ c.p3) o c (Primitives.publicKey localStaticPrivate) [] := by
  have sizeS : c.s3.length = dhKeySize + tagSize := by
    rw [laws.aead_length closes.sealedStatic, publicKey_length size]
  have sealedStatic := closes.sealedStatic
  rw [once] at sealedStatic
  refine ⟨?_, ?_, ?_, laws.aead_opens sealedStatic, valid, mixedSE,
    (accepts_sealed closes.sealedPayload).1⟩
  · rw [List.length_append, sizeS]
    exact Nat.le_add_right _ _
  · rw [Bytes.slice_left c.s3 c.p3 sizeS.symm]
  · rw [List.drop_left' sizeS]

end Laws
end Bitchat.Crypto.NoiseHandshakeState

namespace Bitchat.Crypto.NoiseSession
open Stateful NoiseCipherState NoiseHandshakeState
variable [Primitives]

/-- A session and the ephemeral key that its generator returns. -/
structure Endpoint where
  session : NoiseSession
  ephemeral : Bytes

/-- Deliver a message, then the answer to it to the other side, until there is none.
Gives the messages, the receiver of the first and the other side. -/
def exchangeFrom : (fuel : Nat) → (message : Bytes) → (receiver other : Endpoint) →
    Option (List Bytes × Endpoint × Endpoint)
  | 0, _, _, _ => none
  | fuel + 1, message, receiver, other =>
    match processHandshakeMessage receiver.ephemeral message receiver.session with
    | .error _ _ => none
    | .ok none t => some ([message], { receiver with session := t }, other)
    | .ok (some reply) t =>
      (exchangeFrom fuel reply other { receiver with session := t }).map
        fun (messages, other, receiver) => (message :: messages, receiver, other)

/-- Both sides' messages, beginning with the output of `start_handshake`. -/
def exchangeHandshake (fuel : Nat) (initiator responder : Endpoint) :
    Option (List Bytes × Endpoint × Endpoint) :=
  match startHandshake initiator.ephemeral initiator.session with
  | .ok (some message) t =>
    (exchangeFrom fuel message responder { initiator with session := t }).map
      fun (messages, responder, initiator) => (messages, initiator, responder)
  | _ => none

/-- Both sides are established, and each sends under the key the other receives with. -/
structure Paired (x y : NoiseSession) : Prop where
  states : x.state = .established ∧ y.state = .established
  forth : ∃ key c d, x.sendCipher = some c ∧ y.recvCipher = some d ∧
    c.key = some key ∧ d.key = some key
  back : ∃ key c d, y.sendCipher = some c ∧ x.recvCipher = some d ∧
    c.key = some key ∧ d.key = some key

theorem new_eq_ok {identity : LocalIdentity} {remotePeerId : Str} {role : Option NoiseRole}
    {s : NoiseSession} (created : new identity remotePeerId role = .ok s) :
    ∃ role, s = { localIdentity := identity, remotePeerId, role } := by
  unfold new at created
  cases chosen : role.elim (determineHandshakeRole identity.peerIdHex remotePeerId) Except.ok with
  | error e =>
    rw [chosen] at created
    cases created
  | ok found =>
    rw [chosen] at created
    exact ⟨found, (Except.ok.inj created).symm⟩

/-- Handshakes of both roles over one transcript end in paired sessions. -/
theorem paired_established {x y : NoiseSession} {remoteX remoteY : Bytes}
    {items secrets : List Bytes} (initiator : x.role = .initiator) (responder : y.role = .responder) :
    Paired (x.established remoteX items secrets) (y.established remoteY items secrets) := by
  refine ⟨⟨rfl, rfl⟩, ⟨_, _, _, rfl, rfl, rfl, ?_⟩, ⟨_, _, _, rfl, rfl, rfl, ?_⟩⟩
  all_goals simp [initiator, responder, transport]

section Laws
variable [laws : LawfulPrimitives] {a b : LocalIdentity} {ea eb : Bytes} {x y : NoiseSession}

/-- A session made for the id of another device binds that device's key. -/
theorem binds_peer (peer : x.remotePeerId = b.peerIdHex)
    (different : b.x25519Public ≠ x.localIdentity.x25519Public) : x.Binds b.x25519Public := by
  refine ⟨?_, different⟩
  have size : b.peerIdHex.length = 16 := by
    rw [LocalIdentity.peerIdHex, Str.hex_length, LocalIdentity.peerId, List.length_take,
      laws.sha256_length]
    rfl
  rw [claimedPeerId, peer, if_neg (not_not.mpr size), LocalIdentity.peerIdHex, Str.fromHex_hex]
  rfl

/-- The calls that two honest sides make, and what each returns. -/
theorem honest_calls (idle : x.state = .uninitialized ∧ y.state = .uninitialized)
    (roles : x.role = .initiator ∧ y.role = .responder)
    (bindX : x.Binds y.localIdentity.x25519Public) (bindY : y.Binds x.localIdentity.x25519Public)
    (ee : Compatible ea eb) (es : Compatible ea y.localIdentity.x25519Private)
    (se : Compatible x.localIdentity.x25519Private eb) : ∃ m1 m2 m3 x1 y1 items secrets,
      startHandshake ea x = .ok (some m1) x1 ∧
      processHandshakeMessage eb m1 y = .ok (some m2) y1 ∧
      processHandshakeMessage ea m2 x1 =
        .ok (some m3) (x.established y.localIdentity.x25519Public items secrets) ∧
      processHandshakeMessage eb m3 y1 =
        .ok none (y.established x.localIdentity.x25519Public items secrets) := by
  obtain ⟨o, e1, p1, answers⟩ := exists_answers ee es []
  have trusts := answers.trusted y.localIdentity.size es.validRight e1 p1
    (by rw [answers.ephemeralKey]; exact ee.swap (e1 ▸ answers.mixedEE))
    (es.swap (e1 ▸ answers.mixedES))
  obtain ⟨se', mixedSE, agreedSE⟩ := se.shared
  obtain ⟨c, closes, rfl⟩ := exists_closes x.localIdentity.size
    (by rw [answers.ephemeralKey]; exact mixedSE)
  have completes := closes.completed x.localIdentity.size
    (accepts_sealed answers.sealedPayload).2 se.validLeft agreedSE
  have size := publicKey_length ee.sizes.1
  have whole : Bytes.slice (Primitives.publicKey ea) 0 dhKeySize = Primitives.publicKey ea := by
    have := Bytes.slice_left (Primitives.publicKey ea) [] size.symm
    rwa [List.append_nil] at this
  refine ⟨Primitives.publicKey ea, o.e2 ++ o.s2 ++ o.p2, c.s3 ++ c.p3, _,
    y.holding (awaiting3 y.localIdentity.x25519Private eb o), _, _,
    (startHandshake_initiator idle.1 roles.1).mpr ⟨ee.sizes.1, rfl, rfl⟩,
    onError_eq_ok.mpr ?_,
    onError_eq_ok.mpr
      ((handleMessage_second roles.1).mpr ⟨o, c, _, [], trusts, closes, bindX, rfl, rfl⟩),
    onError_eq_ok.mpr ((handleMessage_third roles.2).mpr ⟨c, _, [], completes, bindY, rfl, rfl⟩)⟩
  rw [handleMessage_autoInitialises idle.2 roles.2]
  refine handleMessage_first.mpr ⟨size.ge, o, ?_, ?_, answers, rfl, rfl⟩
  · rw [whole, e1]
  · rw [p1, ← size, List.drop_length]

/-- Two honest sides need three messages, and end paired over one transcript. -/
theorem honest_handshake {roleA roleB : Option NoiseRole}
    (newA : new a b.peerIdHex roleA = .ok x) (initiator : x.role = .initiator)
    (newB : new b a.peerIdHex roleB = .ok y) (responder : y.role = .responder)
    (different : a.x25519Public ≠ b.x25519Public) (ee : Compatible ea eb)
    (es : Compatible ea b.x25519Private) (se : Compatible a.x25519Private eb)
    {fuel : Nat} (enough : 3 ≤ fuel) : ∃ messages alice bob,
      exchangeHandshake fuel ⟨x, ea⟩ ⟨y, eb⟩ = some (messages, alice, bob) ∧ messages.length = 3 ∧
      Paired alice.session bob.session ∧
      (∃ hash, alice.session.handshakeHash = some hash ∧ bob.session.handshakeHash = some hash) ∧
      alice.session.remoteStaticPublic = some b.x25519Public ∧
      bob.session.remoteStaticPublic = some a.x25519Public := by
  obtain ⟨_, rfl⟩ := new_eq_ok newA
  obtain ⟨_, rfl⟩ := new_eq_ok newB
  obtain ⟨fuel, rfl⟩ : ∃ n, fuel = n + 3 := ⟨fuel - 3, by omega⟩
  obtain ⟨m1, m2, m3, x1, y1, items, secrets, started, first, second, third⟩ :=
    honest_calls ⟨rfl, rfl⟩ ⟨initiator, responder⟩ (binds_peer rfl different.symm)
      (binds_peer rfl different) ee es se
  refine ⟨[m1, m2, m3], ⟨established _ b.x25519Public items secrets, ea⟩,
    ⟨established _ a.x25519Public items secrets, eb⟩, ?_, rfl,
    paired_established initiator responder, ⟨_, rfl, rfl⟩, rfl, rfl⟩
  simp only [exchangeHandshake, started, exchangeFrom, first, second, third, Option.map_some]

end Laws
end Bitchat.Crypto.NoiseSession

namespace Bitchat.Crypto.Modular
attribute [local instance] primitives

/-- A private key of one repeated byte. -/
def repeated (byte : UInt8) : Bytes := List.replicate 32 byte

theorem repeated_length (byte : UInt8) : (repeated byte).length = x25519KeySize := List.length_replicate

def device (byte : UInt8) : LocalIdentity := ⟨repeated byte, repeated_length byte⟩

theorem compatible {a b : UInt8}
    (left : validatePublicKey (Primitives.publicKey (repeated a)) =
      .ok (Primitives.publicKey (repeated a)))
    (right : validatePublicKey (Primitives.publicKey (repeated b)) =
      .ok (Primitives.publicKey (repeated b))) :
    NoiseHandshakeState.Compatible (repeated a) (repeated b) :=
  ⟨⟨List.length_replicate, List.length_replicate⟩, left, right, _, rfl, Bytes.toLE_length _ _⟩

theorem valid_keys : ∀ byte ∈ ([1, 2, 3, 4] : List UInt8),
    validatePublicKey (Primitives.publicKey (repeated byte)) =
      .ok (Primitives.publicKey (repeated byte)) := by
  decide +kernel

/-- Device 1 calls device 2. -/
theorem honest_handshake_devices : ∃ x y messages alice bob,
    NoiseSession.new (device 1) (device 2).peerIdHex (some .initiator) = .ok x ∧
    NoiseSession.new (device 2) (device 1).peerIdHex (some .responder) = .ok y ∧
    NoiseSession.exchangeHandshake 3 ⟨x, repeated 3⟩ ⟨y, repeated 4⟩ =
      some (messages, alice, bob) ∧
    messages.length = 3 ∧ NoiseSession.Paired alice.session bob.session := by
  have lawful : LawfulPrimitives := lawful
  have newA : NoiseSession.new (device 1) (device 2).peerIdHex (some .initiator) = .ok _ := rfl
  have newB : NoiseSession.new (device 2) (device 1).peerIdHex (some .responder) = .ok _ := rfl
  have different : (device 1).x25519Public ≠ (device 2).x25519Public := by decide +kernel
  obtain ⟨messages, alice, bob, exchanged, three, paired, _⟩ :=
    NoiseSession.honest_handshake newA rfl newB rfl different
      (compatible (valid_keys 3 (by simp)) (valid_keys 4 (by simp)))
      (compatible (valid_keys 3 (by simp)) (valid_keys 2 (by simp)))
      (compatible (valid_keys 1 (by simp)) (valid_keys 4 (by simp))) (le_refl 3)
  exact ⟨_, _, messages, alice, bob, newA, newB, exchanged, three, paired⟩

end Bitchat.Crypto.Modular
