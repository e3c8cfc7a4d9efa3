import Bitchat.Crypto.Transcript

/-! The three messages of the XX handshake, read and written: when each call returns,
and the state it leaves. The states are given by what was said so far. -/
namespace Bitchat.Crypto
open Stateful NoiseCipherState NoiseSymmetricState

/-- The first two messages as one side has them, and the secrets it mixed. -/
structure Opening where
  e1 : Bytes
  p1 : Bytes
  e2 : Bytes
  s2 : Bytes
  p2 : Bytes
  ee : Bytes
  es : Bytes

namespace Opening

def beforeStatic (o : Opening) : List Bytes := [o.e2, o.p1, o.e1, []]

def beforePayload (o : Opening) : List Bytes := o.s2 :: o.beforeStatic

def items (o : Opening) : List Bytes := o.p2 :: o.beforePayload

def secrets (o : Opening) : List Bytes := [o.es, o.ee]

variable [Primitives]

/-- The key over the responder's static key. -/
def staticKey (o : Opening) : Bytes := hkdfKey (chainKey []) o.ee

/-- The key over the payload of message 2 and the initiator's static key. -/
def payloadKey (o : Opening) : Bytes := hkdfKey (chainKey [o.ee]) o.es

end Opening

namespace NoiseHandshakeState
variable {s t : NoiseHandshakeState} {items secrets : List Bytes} {nonce : Nat}

theorem onSymmetric_eq_ok {x : EStateM CryptoError NoiseSymmetricState Bytes} {out : Bytes} :
    onSymmetric x s = .ok out t ↔
      ∃ inner, x s.symmetricState = .ok out inner ∧ t = { s with symmetricState := inner } :=
  focus_eq_ok

section Tokens
variable [Primitives] {out buffer message : Bytes} {secret : Bytes}

/-- A Diffie-Hellman token mixes in the secret of its two keys. -/
theorem dhToken_eq_ok {token : Token} {localPrivate remotePublic : Bytes} {label : String}
    (symmetric : s.symmetricState = after items secrets nonce)
    (operands : s.dhOperands token = (some localPrivate, some remotePublic, label)) :
    dhToken token s = .ok () t ↔ ∃ shared, diffieHellman localPrivate remotePublic = .ok shared ∧
      t = { s with symmetricState := after items (shared :: secrets) 0 } := by
  rw [dhToken, get_bind, operands]
  simp only [dhMixKey]
  cases diffieHellman localPrivate remotePublic with
  | error e =>
    rw [bind_error (lift_error e s)]
    simp
  | ok shared =>
    rw [bind_ok (lift_ok shared s), onSymmetric, focus_eq_ok, symmetric, mixKey_after]
    simp [eq_comm]

theorem dhToken_then_eq_ok {α : Type} {token : Token} {localPrivate remotePublic : Bytes} {label : String}
    {a next : α} (symmetric : s.symmetricState = after items secrets nonce)
    (operands : s.dhOperands token = (some localPrivate, some remotePublic, label)) :
    (dhToken token >>= fun _ => pure a) s = .ok next t ↔
      ∃ shared, diffieHellman localPrivate remotePublic = .ok shared ∧ next = a ∧
        t = { s with symmetricState := after items (shared :: secrets) 0 } := by
  rw [bind_eq_ok]
  constructor
  · rintro ⟨_, _, mixed, rest⟩
    obtain ⟨shared, exchanged, rfl⟩ := (dhToken_eq_ok symmetric operands).mp mixed
    obtain ⟨rfl, rfl⟩ := EStateM.Result.ok.inj rest
    exact ⟨shared, exchanged, rfl, rfl⟩
  · rintro ⟨shared, exchanged, rfl, rfl⟩
    exact ⟨_, _, (dhToken_eq_ok symmetric operands).mpr ⟨shared, exchanged, rfl⟩, rfl⟩

theorem publicKeyFromPrivate_eq_ok {privateKey key : Bytes} :
    publicKeyFromPrivate privateKey = .ok key ↔
      privateKey.length = x25519KeySize ∧ key = Primitives.publicKey privateKey := by
  unfold publicKeyFromPrivate checkPrivateKey
  by_cases size : privateKey.length = x25519KeySize
  · simp [size, bind, Except.bind, pure, Except.pure, eq_comm]
  · simp [size, bind, Except.bind]

theorem writeToken_e {ephemeral : Bytes} (symmetric : s.symmetricState = after items secrets nonce) :
    writeToken ephemeral buffer .e s = .ok out t ↔ ephemeral.length = x25519KeySize ∧
      out = buffer ++ Primitives.publicKey ephemeral ∧
      t = { s with
        localEphemeralPrivate := some ephemeral
        localEphemeralPublic := some (Primitives.publicKey ephemeral)
        symmetricState := after (Primitives.publicKey ephemeral :: items) secrets nonce } := by
  rw [← mixHash_after, ← symmetric, writeToken, modify_bind, bind_eq_ok]
  constructor
  · rintro ⟨key, u, made, rest⟩
    cases derived : publicKeyFromPrivate ephemeral with
    | error e => rw [derived] at made; cases made
    | ok found =>
      obtain ⟨size, rfl⟩ := publicKeyFromPrivate_eq_ok.mp derived
      rw [derived] at made
      obtain ⟨rfl, rfl⟩ := EStateM.Result.ok.inj made
      obtain ⟨rfl, rfl⟩ := EStateM.Result.ok.inj rest
      exact ⟨size, rfl, rfl⟩
  · rintro ⟨size, rfl, rfl⟩
    refine ⟨Primitives.publicKey ephemeral, { s with localEphemeralPrivate := some ephemeral }, ?_,
      rfl⟩
    rw [publicKeyFromPrivate_eq_ok.mpr ⟨size, rfl⟩]
    rfl

theorem writeToken_s {ephemeral : Bytes}
    (symmetric : s.symmetricState = after items (secret :: secrets) nonce) :
    writeToken ephemeral buffer .s s = .ok out t ↔ nonce < 2 ^ 64 ∧ ∃ sealed,
      Primitives.aeadEncrypt (hkdfKey (chainKey secrets) secret) (aeadNonce nonce)
        s.localStaticPublic (transcriptHash items) = some sealed ∧ out = buffer ++ sealed ∧
      t = { s with symmetricState := after (sealed :: items) (secret :: secrets) (nonce + 1) } := by
  rw [writeToken, get_bind, bind_eq_ok]
  simp only [onSymmetric_eq_ok, symmetric, encryptAndHash_eq_ok]
  constructor
  · rintro ⟨sealed, _, ⟨_, ⟨fits, seals, rfl⟩, rfl⟩, rest⟩
    obtain ⟨rfl, rfl⟩ := EStateM.Result.ok.inj rest
    exact ⟨fits, sealed, seals, rfl, rfl⟩
  · rintro ⟨fits, sealed, seals, rfl, rfl⟩
    exact ⟨sealed, _, ⟨_, ⟨fits, seals, rfl⟩, rfl⟩, rfl⟩

theorem writeToken_dh {ephemeral localPrivate remotePublic : Bytes} {token : Token}
    {label : String} (dh : token ≠ .e ∧ token ≠ .s)
    (symmetric : s.symmetricState = after items secrets nonce)
    (operands : s.dhOperands token = (some localPrivate, some remotePublic, label)) :
    writeToken ephemeral buffer token s = .ok out t ↔
      ∃ shared, diffieHellman localPrivate remotePublic = .ok shared ∧ out = buffer ∧
        t = { s with symmetricState := after items (shared :: secrets) 0 } := by
  have reduced : writeToken ephemeral buffer token = dhToken token >>= fun _ => pure buffer := by
    cases token <;> first | rfl | simp at dh
  rw [reduced, dhToken_then_eq_ok symmetric operands]

theorem readToken_e {offset next : Nat} (symmetric : s.symmetricState = after items secrets nonce) :
    readToken message offset .e s = .ok next t ↔ offset + dhKeySize ≤ message.length ∧
      next = offset + dhKeySize ∧
      t = { s with
        remoteEphemeralPublic := some (Bytes.slice message offset (offset + dhKeySize))
        symmetricState :=
          after (Bytes.slice message offset (offset + dhKeySize) :: items) secrets nonce } := by
  rw [← mixHash_after, ← symmetric, readToken, if_apply]
  by_cases short : message.length < offset + dhKeySize
  · simp [short, not_le.mpr short]
  · rw [if_neg short, modify_bind, pure_apply]
    simp [not_lt.mp short, eq_comm]

theorem readToken_dh {localPrivate remotePublic : Bytes} {token : Token} {label : String}
    {offset next : Nat} (dh : token ≠ .e ∧ token ≠ .s)
    (symmetric : s.symmetricState = after items secrets nonce)
    (operands : s.dhOperands token = (some localPrivate, some remotePublic, label)) :
    readToken message offset token s = .ok next t ↔
      ∃ shared, diffieHellman localPrivate remotePublic = .ok shared ∧ next = offset ∧
        t = { s with symmetricState := after items (shared :: secrets) 0 } := by
  have reduced : readToken message offset token = dhToken token >>= fun _ => pure offset := by
    cases token <;> first | rfl | simp at dh
  rw [reduced, dhToken_then_eq_ok symmetric operands]

/-- A static key is read under a key when the 48 bytes open to a valid public key. -/
theorem readToken_s {offset next : Nat}
    (symmetric : s.symmetricState = after items (secret :: secrets) nonce) (fits : nonce < 2 ^ 64) :
    let data := Bytes.slice message offset (offset + (dhKeySize + tagSize))
    readToken message offset .s s = .ok next t ↔
      offset + (dhKeySize + tagSize) ≤ message.length ∧ next = offset + (dhKeySize + tagSize) ∧
      ∃ key, Primitives.aeadDecrypt (hkdfKey (chainKey secrets) secret) (aeadNonce nonce) data
          (transcriptHash items) = some key ∧ validatePublicKey key = .ok key ∧
        t = { s with
          remoteStaticPublic := some key
          symmetricState := after (data :: items) (secret :: secrets) (nonce + 1) } := by
  intro data
  have keyed : s.symmetricState.hasCipherKey = true := by rw [symmetric, hasCipherKey_after]
  rw [readToken, get_bind]
  simp only [keyed, if_true]
  rw [if_apply]
  by_cases short : message.length < offset + (dhKeySize + tagSize)
  · simp [short, not_le.mpr short]
  · have size : offset + (dhKeySize + tagSize) ≤ message.length := not_lt.mp short
    have carried : data ≠ [] := by
      intro none
      have := Bytes.slice_length message offset (offset + (dhKeySize + tagSize))
      change data.length = _ at this
      rw [none] at this
      simp only [List.length_nil, dhKeySize, tagSize] at this size
      omega
    rw [if_neg short, bind_eq_ok]
    simp only [onSymmetric_eq_ok, symmetric, data, decryptAndHash_eq_ok carried fits]
    constructor
    · rintro ⟨key, _, ⟨_, ⟨opened, rfl⟩, rfl⟩, rest⟩
      by_cases right : key.length = dhKeySize
      · rw [if_apply, if_neg (not_not.mpr right)] at rest
        cases valid : validatePublicKey key with
        | error e => cases e <;> (rw [valid] at rest; cases rest)
        | ok found =>
          obtain ⟨rfl, _⟩ := validatePublicKey_eq_ok valid
          rw [valid] at rest
          obtain ⟨rfl, rfl⟩ := EStateM.Result.ok.inj rest
          exact ⟨size, rfl, found, opened, valid, rfl⟩
      · rw [if_apply, if_pos right] at rest
        cases rest
    · rintro ⟨_, rfl, key, opened, valid, rfl⟩
      refine ⟨key, _, ⟨_, ⟨opened, rfl⟩, rfl⟩, ?_⟩
      have right : ¬ key.length ≠ dhKeySize := not_not.mpr (validatePublicKey_eq_ok valid).2
      rw [if_apply, if_neg right, valid]
      rfl

theorem writeMessage_eq_ok {ephemeral payload : Bytes} (open' : s.isHandshakeComplete = false) :
    writeMessage ephemeral payload s = .ok out t ↔ ∃ buffer u sealed inner,
      (xxPatterns.getD s.currentPattern []).foldlM (writeToken ephemeral) [] s = .ok buffer u ∧
      encryptAndHash payload u.symmetricState = .ok sealed inner ∧ out = buffer ++ sealed ∧
      t = { u with symmetricState := inner, currentPattern := u.currentPattern + 1 } := by
  rw [writeMessage, get_bind, if_apply, if_neg (by simp [open']), bind_eq_ok]
  constructor
  · rintro ⟨buffer, u, folded, rest⟩
    obtain ⟨sealed, v, sealing, last⟩ := bind_eq_ok.mp rest
    obtain ⟨inner, encrypted, rfl⟩ := onSymmetric_eq_ok.mp sealing
    obtain ⟨rfl, rfl⟩ := EStateM.Result.ok.inj last
    exact ⟨buffer, u, sealed, inner, folded, encrypted, rfl, rfl⟩
  · rintro ⟨buffer, u, sealed, inner, folded, encrypted, rfl, rfl⟩
    refine ⟨buffer, u, folded,
      bind_eq_ok.mpr ⟨sealed, { u with symmetricState := inner }, ?_, rfl⟩⟩
    exact onSymmetric_eq_ok.mpr ⟨inner, encrypted, rfl⟩

theorem readMessage_eq_ok (open' : s.isHandshakeComplete = false) :
    readMessage message s = .ok out t ↔ ∃ offset u inner,
      (xxPatterns.getD s.currentPattern []).foldlM (readToken message) 0 s = .ok offset u ∧
      decryptAndHash (message.drop offset) u.symmetricState = .ok out inner ∧
      t = { u with symmetricState := inner, currentPattern := u.currentPattern + 1 } := by
  rw [readMessage, get_bind, if_apply, if_neg (by simp [open']), bind_eq_ok]
  constructor
  · rintro ⟨offset, u, folded, rest⟩
    obtain ⟨opened, v, opening, last⟩ := bind_eq_ok.mp rest
    obtain ⟨inner, decrypted, rfl⟩ := onSymmetric_eq_ok.mp opening
    obtain ⟨rfl, rfl⟩ := EStateM.Result.ok.inj last
    exact ⟨offset, u, inner, folded, decrypted, rfl⟩
  · rintro ⟨offset, u, inner, folded, decrypted, rfl⟩
    refine ⟨offset, u, folded,
      bind_eq_ok.mpr ⟨out, { u with symmetricState := inner }, ?_, rfl⟩⟩
    exact onSymmetric_eq_ok.mpr ⟨inner, decrypted, rfl⟩

end Tokens

section Stages
variable [Primitives]

/-- A handshake before its first message. -/
def fresh (role : NoiseRole) (localStaticPrivate : Bytes) : NoiseHandshakeState where
  role := role
  localStaticPrivate := localStaticPrivate
  localStaticPublic := Primitives.publicKey localStaticPrivate
  symmetricState := after [[]] [] 0

theorem new_eq_fresh {role : NoiseRole} {localStaticPrivate : Bytes}
    (size : localStaticPrivate.length = x25519KeySize) :
    new role localStaticPrivate none = .ok (fresh role localStaticPrivate) := by
  rw [new, publicKeyFromPrivate_eq_ok.mpr ⟨size, rfl⟩]
  rfl

/-- The initiator waiting for message 2. -/
def awaiting2 (localStaticPrivate ephemeral : Bytes) : NoiseHandshakeState :=
  { fresh .initiator localStaticPrivate with
    localEphemeralPrivate := some ephemeral
    localEphemeralPublic := some (Primitives.publicKey ephemeral)
    symmetricState := after [[], Primitives.publicKey ephemeral, []] [] 0
    currentPattern := 1 }

/-- The responder that has read message 1. -/
def answering (localStaticPrivate e1 p1 : Bytes) : NoiseHandshakeState :=
  { fresh .responder localStaticPrivate with
    remoteEphemeralPublic := some e1
    symmetricState := after [p1, e1, []] [] 0
    currentPattern := 1 }

/-- The responder waiting for message 3. -/
def awaiting3 (localStaticPrivate ephemeral : Bytes) (o : Opening) : NoiseHandshakeState :=
  { answering localStaticPrivate o.e1 o.p1 with
    localEphemeralPrivate := some ephemeral
    localEphemeralPublic := some (Primitives.publicKey ephemeral)
    symmetricState := after o.items o.secrets 1
    currentPattern := 2 }

/-- The initiator that has read message 2. -/
def closing (localStaticPrivate ephemeral : Bytes) (o : Opening) (remote : Bytes) :
    NoiseHandshakeState :=
  { awaiting2 localStaticPrivate ephemeral with
    remoteEphemeralPublic := some o.e2
    remoteStaticPublic := some remote
    symmetricState := after o.items o.secrets (nonceAfter 0 o.p2)
    currentPattern := 2 }

/-- The responder's keys and secrets agree with an opening, and its two seals succeed. -/
structure Answers (localStaticPrivate ephemeral : Bytes) (o : Opening) : Prop where
  size : ephemeral.length = x25519KeySize
  ephemeralKey : o.e2 = Primitives.publicKey ephemeral
  mixedEE : diffieHellman ephemeral o.e1 = .ok o.ee
  sealedStatic : Primitives.aeadEncrypt o.staticKey (aeadNonce 0)
    (Primitives.publicKey localStaticPrivate) (transcriptHash o.beforeStatic) = some o.s2
  mixedES : diffieHellman localStaticPrivate o.e1 = .ok o.es
  sealedPayload : Primitives.aeadEncrypt o.payloadKey (aeadNonce 0) []
    (transcriptHash o.beforePayload) = some o.p2

/-- `message` is the second one of an opening that begins with this ephemeral key. -/
structure Carries2 (ephemeral message : Bytes) (o : Opening) : Prop where
  size : dhKeySize + (dhKeySize + tagSize) ≤ message.length
  e1 : o.e1 = Primitives.publicKey ephemeral
  p1 : o.p1 = []
  e2 : o.e2 = Bytes.slice message 0 dhKeySize
  s2 : o.s2 = Bytes.slice message dhKeySize (dhKeySize + (dhKeySize + tagSize))
  p2 : o.p2 = message.drop (dhKeySize + (dhKeySize + tagSize))

/-- The initiator takes `message` for an opening in which `remote` answers. -/
structure Trusts (ephemeral message : Bytes) (o : Opening) (remote payload : Bytes) : Prop
    extends Carries2 ephemeral message o where
  mixedEE : diffieHellman ephemeral o.e2 = .ok o.ee
  openedStatic : Primitives.aeadDecrypt o.staticKey (aeadNonce 0) o.s2
    (transcriptHash o.beforeStatic) = some remote
  valid : validatePublicKey remote = .ok remote
  mixedES : diffieHellman ephemeral remote = .ok o.es
  accepted : Accepts o.payloadKey 0 o.p2 (transcriptHash o.beforePayload) payload

/-- The static key, the payload and the secret of message 3. -/
structure Closing where
  s3 : Bytes
  p3 : Bytes
  se : Bytes

def Closing.lastKey (c : Closing) (o : Opening) : Bytes := hkdfKey (chainKey o.secrets) c.se

/-- The initiator seals its static key and an empty payload behind an opening. -/
structure Closes (localStaticPrivate : Bytes) (o : Opening) (c : Closing) : Prop where
  sealedStatic : Primitives.aeadEncrypt o.payloadKey (aeadNonce (nonceAfter 0 o.p2))
    (Primitives.publicKey localStaticPrivate) (transcriptHash o.items) = some c.s3
  mixedSE : diffieHellman localStaticPrivate o.e2 = .ok c.se
  sealedPayload : Primitives.aeadEncrypt (c.lastKey o) (aeadNonce 0) []
    (transcriptHash (c.s3 :: o.items)) = some c.p3

/-- The responder takes `message` for the end of an opening, sent by `remote`. -/
structure Completes (ephemeral message : Bytes) (o : Opening) (c : Closing)
    (remote payload : Bytes) : Prop where
  size : dhKeySize + tagSize ≤ message.length
  s3 : c.s3 = Bytes.slice message 0 (dhKeySize + tagSize)
  p3 : c.p3 = message.drop (dhKeySize + tagSize)
  openedStatic : Primitives.aeadDecrypt o.payloadKey (aeadNonce 1) c.s3 (transcriptHash o.items) =
    some remote
  valid : validatePublicKey remote = .ok remote
  mixedSE : diffieHellman ephemeral remote = .ok c.se
  accepted : Accepts (c.lastKey o) 0 c.p3 (transcriptHash (c.s3 :: o.items)) payload

/-- Either side after message 3. -/
def finished (before : NoiseHandshakeState) (remote : Bytes) (o : Opening) (c : Closing)
    (nonce : Nat) : NoiseHandshakeState :=
  { before with
    remoteStaticPublic := some remote
    symmetricState := after (c.p3 :: c.s3 :: o.items) (c.se :: o.secrets) nonce
    currentPattern := 3 }

variable {localStaticPrivate ephemeral ephemeral' message out e1 p1 : Bytes} {o : Opening}
  {t : NoiseHandshakeState}

theorem write1_eq_ok : writeMessage ephemeral [] (fresh .initiator localStaticPrivate) = .ok out t ↔
    ephemeral.length = x25519KeySize ∧ out = Primitives.publicKey ephemeral ∧
    t = awaiting2 localStaticPrivate ephemeral := by
  rw [writeMessage_eq_ok rfl]
  constructor
  · rintro ⟨buffer, u, sealed, inner, folded, encrypted, rfl, rfl⟩
    obtain ⟨_, _, wrote, last⟩ := foldlM_cons_eq_ok.mp folded
    obtain ⟨size, rfl, rfl⟩ := (writeToken_e rfl).mp wrote
    obtain ⟨rfl, rfl⟩ := EStateM.Result.ok.inj last
    obtain ⟨rfl, rfl⟩ := EStateM.Result.ok.inj encrypted
    exact ⟨size, List.append_nil _, rfl⟩
  · rintro ⟨size, rfl, rfl⟩
    have wrote : writeToken ephemeral [] .e (fresh .initiator localStaticPrivate) = .ok _ _ :=
      (writeToken_e rfl).mpr ⟨size, rfl, rfl⟩
    exact ⟨_, _, [], _, foldlM_cons_eq_ok.mpr ⟨_, _, wrote, foldlM_nil⟩, rfl,
      (List.append_nil _).symm, rfl⟩

theorem read1_eq_ok : readMessage message (fresh .responder localStaticPrivate) = .ok out t ↔
    dhKeySize ≤ message.length ∧ out = message.drop dhKeySize ∧
    t = answering localStaticPrivate (Bytes.slice message 0 dhKeySize) (message.drop dhKeySize) := by
  rw [readMessage_eq_ok rfl]
  constructor
  · rintro ⟨offset, u, inner, folded, decrypted, rfl⟩
    obtain ⟨_, _, read, last⟩ := foldlM_cons_eq_ok.mp folded
    obtain ⟨size, rfl, rfl⟩ := (readToken_e rfl).mp read
    obtain ⟨rfl, rfl⟩ := EStateM.Result.ok.inj last
    obtain ⟨rfl, rfl⟩ := EStateM.Result.ok.inj decrypted
    rw [Nat.zero_add] at size ⊢
    exact ⟨size, rfl, rfl⟩
  · rintro ⟨size, rfl, rfl⟩
    have read : readToken message 0 .e (fresh .responder localStaticPrivate) =
        .ok dhKeySize _ := (readToken_e rfl).mpr ⟨by rwa [Nat.zero_add], (Nat.zero_add _).symm, rfl⟩
    exact ⟨_, _, _, foldlM_cons_eq_ok.mpr ⟨_, _, read, foldlM_nil⟩, rfl, rfl⟩

theorem write2_eq_ok : writeMessage ephemeral [] (answering localStaticPrivate e1 p1) = .ok out t ↔
    ∃ o : Opening, o.e1 = e1 ∧ o.p1 = p1 ∧ Answers localStaticPrivate ephemeral o ∧
      out = o.e2 ++ o.s2 ++ o.p2 ∧ t = awaiting3 localStaticPrivate ephemeral o := by
  rw [writeMessage_eq_ok rfl]
  constructor
  · rintro ⟨buffer, u, p2, inner, folded, encrypted, rfl, rfl⟩
    obtain ⟨_, _, wroteE, afterE⟩ := foldlM_cons_eq_ok.mp folded
    obtain ⟨size, rfl, rfl⟩ := (writeToken_e rfl).mp wroteE
    obtain ⟨_, _, wroteEE, afterEE⟩ := foldlM_cons_eq_ok.mp afterE
    obtain ⟨ee, mixedEE, rfl, rfl⟩ := (writeToken_dh (by decide) rfl rfl).mp wroteEE
    obtain ⟨_, _, wroteS, afterS⟩ := foldlM_cons_eq_ok.mp afterEE
    obtain ⟨_, s2, sealedS, rfl, rfl⟩ := (writeToken_s rfl).mp wroteS
    obtain ⟨_, _, wroteES, last⟩ := foldlM_cons_eq_ok.mp afterS
    obtain ⟨es, mixedES, rfl, rfl⟩ := (writeToken_dh (by decide) rfl rfl).mp wroteES
    obtain ⟨rfl, rfl⟩ := EStateM.Result.ok.inj last
    obtain ⟨_, sealedP, rfl⟩ := encryptAndHash_eq_ok.mp encrypted
    exact ⟨⟨e1, p1, Primitives.publicKey ephemeral, s2, p2, ee, es⟩, rfl, rfl,
      ⟨size, rfl, mixedEE, sealedS, mixedES, sealedP⟩, rfl, rfl⟩
  · rintro ⟨⟨e1, p1, _, s2, p2, ee, es⟩, rfl, rfl, ⟨size, rfl, mixedEE, sealedS, mixedES, sealedP⟩,
      rfl, rfl⟩
    have folded : [Token.e, .ee, .s, .es].foldlM (writeToken ephemeral) []
        (answering localStaticPrivate e1 p1) = .ok _ _ :=
      foldlM_cons_eq_ok.mpr ⟨_, _, (writeToken_e rfl).mpr ⟨size, rfl, rfl⟩,
        foldlM_cons_eq_ok.mpr ⟨_, _,
          (writeToken_dh (by decide) rfl rfl).mpr ⟨ee, mixedEE, rfl, rfl⟩,
          foldlM_cons_eq_ok.mpr ⟨_, _,
            (writeToken_s rfl).mpr ⟨by decide, s2, sealedS, rfl, rfl⟩,
            foldlM_cons_eq_ok.mpr ⟨_, _,
              (writeToken_dh (by decide) rfl rfl).mpr ⟨es, mixedES, rfl, rfl⟩, foldlM_nil⟩⟩⟩⟩
    exact ⟨_, _, p2, _, folded, encryptAndHash_eq_ok.mpr ⟨by decide, sealedP, rfl⟩, rfl, rfl⟩

theorem read2_eq_ok {payload : Bytes} :
    readMessage message (awaiting2 localStaticPrivate ephemeral) = .ok payload t ↔
      ∃ o remote, Trusts ephemeral message o remote payload ∧
        t = closing localStaticPrivate ephemeral o remote := by
  rw [readMessage_eq_ok rfl]
  constructor
  · rintro ⟨offset, u, inner, folded, decrypted, rfl⟩
    obtain ⟨_, _, readE, afterE⟩ := foldlM_cons_eq_ok.mp folded
    obtain ⟨_, rfl, rfl⟩ := (readToken_e rfl).mp readE
    obtain ⟨_, _, readEE, afterEE⟩ := foldlM_cons_eq_ok.mp afterE
    obtain ⟨ee, mixedEE, rfl, rfl⟩ := (readToken_dh (by decide) rfl rfl).mp readEE
    obtain ⟨_, _, readS, afterS⟩ := foldlM_cons_eq_ok.mp afterEE
    obtain ⟨size, rfl, remote, opened, valid, rfl⟩ := (readToken_s rfl (by decide)).mp readS
    obtain ⟨_, _, readES, last⟩ := foldlM_cons_eq_ok.mp afterS
    obtain ⟨es, mixedES, rfl, rfl⟩ := (readToken_dh (by decide) rfl rfl).mp readES
    obtain ⟨rfl, rfl⟩ := EStateM.Result.ok.inj last
    obtain ⟨accepted, rfl⟩ := (decryptAndHash_accepts (by decide)).mp decrypted
    rw [Nat.zero_add] at size mixedEE opened accepted ⊢
    exact ⟨⟨_, _, _, _, _, ee, es⟩, remote,
      ⟨⟨size, rfl, rfl, rfl, rfl, rfl⟩, mixedEE, opened, valid, mixedES, accepted⟩, rfl⟩
  · rintro ⟨⟨e1, p1, e2, s2, p2, ee, es⟩, remote,
      ⟨⟨size, rfl, rfl, rfl, rfl, rfl⟩, mixedEE, opened, valid, mixedES, accepted⟩, rfl⟩
    have folded : [Token.e, .ee, .s, .es].foldlM (readToken message) 0
        (awaiting2 localStaticPrivate ephemeral) = .ok _ _ :=
      foldlM_cons_eq_ok.mpr ⟨_, _, (readToken_e rfl).mpr ⟨by omega, rfl, rfl⟩,
        foldlM_cons_eq_ok.mpr ⟨_, _,
          (readToken_dh (by decide) rfl rfl).mpr ⟨ee, mixedEE, rfl, rfl⟩,
          foldlM_cons_eq_ok.mpr ⟨_, _,
            (readToken_s rfl (by decide)).mpr ⟨size, rfl, remote, opened, valid, rfl⟩,
            foldlM_cons_eq_ok.mpr ⟨_, _,
              (readToken_dh (by decide) rfl rfl).mpr ⟨es, mixedES, rfl, rfl⟩, foldlM_nil⟩⟩⟩⟩
    exact ⟨_, _, _, folded, (decryptAndHash_accepts (by decide)).mpr ⟨accepted, rfl⟩, rfl⟩

theorem write3_eq_ok {remote : Bytes} :
    writeMessage ephemeral' [] (closing localStaticPrivate ephemeral o remote) = .ok out t ↔
      ∃ c, Closes localStaticPrivate o c ∧ out = c.s3 ++ c.p3 ∧
        t = finished (closing localStaticPrivate ephemeral o remote) remote o c 1 := by
  rw [writeMessage_eq_ok rfl]
  constructor
  · rintro ⟨buffer, u, p3, inner, folded, encrypted, rfl, rfl⟩
    obtain ⟨_, _, wroteS, afterS⟩ := foldlM_cons_eq_ok.mp folded
    obtain ⟨_, s3, sealedS, rfl, rfl⟩ := (writeToken_s rfl).mp wroteS
    obtain ⟨_, _, wroteSE, last⟩ := foldlM_cons_eq_ok.mp afterS
    obtain ⟨se, mixedSE, rfl, rfl⟩ := (writeToken_dh (by decide) rfl rfl).mp wroteSE
    obtain ⟨rfl, rfl⟩ := EStateM.Result.ok.inj last
    obtain ⟨_, sealedP, rfl⟩ := encryptAndHash_eq_ok.mp encrypted
    exact ⟨⟨_, p3, se⟩, ⟨sealedS, mixedSE, sealedP⟩, rfl, rfl⟩
  · rintro ⟨⟨s3, p3, se⟩, ⟨sealedS, mixedSE, sealedP⟩, rfl, rfl⟩
    have fits : nonceAfter 0 o.p2 < 2 ^ 64 := by
      unfold nonceAfter
      split <;> decide
    have folded : [Token.s, .se].foldlM (writeToken ephemeral') []
        (closing localStaticPrivate ephemeral o remote) = .ok _ _ :=
      foldlM_cons_eq_ok.mpr ⟨_, _, (writeToken_s rfl).mpr ⟨fits, s3, sealedS, rfl, rfl⟩,
        foldlM_cons_eq_ok.mpr ⟨_, _,
          (writeToken_dh (by decide) rfl rfl).mpr ⟨se, mixedSE, rfl, rfl⟩, foldlM_nil⟩⟩
    exact ⟨_, _, p3, _, folded, encryptAndHash_eq_ok.mpr ⟨by decide, sealedP, rfl⟩, rfl, rfl⟩

theorem read3_eq_ok {payload : Bytes} :
    readMessage message (awaiting3 localStaticPrivate ephemeral o) = .ok payload t ↔
      ∃ c remote, Completes ephemeral message o c remote payload ∧
        t = finished (awaiting3 localStaticPrivate ephemeral o) remote o c (nonceAfter 0 c.p3) := by
  rw [readMessage_eq_ok rfl]
  constructor
  · rintro ⟨offset, u, inner, folded, decrypted, rfl⟩
    obtain ⟨_, _, readS, afterS⟩ := foldlM_cons_eq_ok.mp folded
    obtain ⟨size, rfl, remote, opened, valid, rfl⟩ := (readToken_s rfl (by decide)).mp readS
    obtain ⟨_, _, readSE, last⟩ := foldlM_cons_eq_ok.mp afterS
    obtain ⟨se, mixedSE, rfl, rfl⟩ := (readToken_dh (by decide) rfl rfl).mp readSE
    obtain ⟨rfl, rfl⟩ := EStateM.Result.ok.inj last
    obtain ⟨accepted, rfl⟩ := (decryptAndHash_accepts (by decide)).mp decrypted
    rw [Nat.zero_add] at size opened accepted ⊢
    exact ⟨⟨_, _, se⟩, remote, ⟨size, rfl, rfl, opened, valid, mixedSE, accepted⟩, rfl⟩
  · rintro ⟨⟨s3, p3, se⟩, remote, ⟨size, rfl, rfl, opened, valid, mixedSE, accepted⟩, rfl⟩
    have folded : [Token.s, .se].foldlM (readToken message) 0
        (awaiting3 localStaticPrivate ephemeral o) = .ok _ _ :=
      foldlM_cons_eq_ok.mpr ⟨_, _,
        (readToken_s rfl (by decide)).mpr ⟨by omega, (Nat.zero_add _).symm, remote,
          by rw [Nat.zero_add]; exact opened, valid, rfl⟩,
        foldlM_cons_eq_ok.mpr ⟨_, _,
          (readToken_dh (by decide) rfl rfl).mpr ⟨se, mixedSE, rfl, rfl⟩, foldlM_nil⟩⟩
    exact ⟨_, _, _, folded, (decryptAndHash_accepts (by decide)).mpr ⟨accepted, rfl⟩, rfl⟩

end Stages
end NoiseHandshakeState
end Bitchat.Crypto
