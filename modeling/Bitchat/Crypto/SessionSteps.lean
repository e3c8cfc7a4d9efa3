import Bitchat.Crypto.Messages
import Bitchat.Crypto.Session

/-! What one call does to a session: the calls of the handshake in each state that
they are valid in, as conditions on the message and equations for the result. -/
namespace Bitchat.Crypto.NoiseSession
open Stateful NoiseCipherState NoiseHandshakeState

/-- The session with its handshake in this state. -/
def holding (s : NoiseSession) (handshake : NoiseHandshakeState) : NoiseSession :=
  { s with handshakeState := some handshake, state := .handshaking }

section
variable (s : NoiseSession) (handshake : NoiseHandshakeState)

@[simp] theorem holding_state : (s.holding handshake).state = .handshaking := rfl

@[simp] theorem holding_role : (s.holding handshake).role = s.role := rfl

@[simp] theorem holding_localIdentity :
    (s.holding handshake).localIdentity = s.localIdentity := rfl

@[simp] theorem holding_handshakeState :
    (s.holding handshake).handshakeState = some handshake := rfl

@[simp] theorem holding_claimedPeerId :
    (s.holding handshake).claimedPeerId = s.claimedPeerId := rfl

theorem holding_self {s : NoiseSession} {handshake : NoiseHandshakeState}
    (state : s.state = .handshaking) (held : s.handshakeState = some handshake) :
    s.holding handshake = s := by
  rw [holding, ← held, ← state]

end

variable [Primitives] {s t : NoiseSession} {handshake : NoiseHandshakeState}
  {ephemeral message : Bytes} {response : Option Bytes}

/-- The handshake may end with `remote`: it has the claimed id and is not this device. -/
def Binds (s : NoiseSession) (remote : Bytes) : Prop :=
  s.claimedPeerId = some ((Primitives.sha256 remote).take 8) ∧ remote ≠ s.localIdentity.x25519Public

/-- The two keys of the transport, the initiator's sending key first. -/
def transportKeys (secrets : List Bytes) : Bytes × Bytes :=
  (hkdfChain (chainKey secrets) [], hkdfKey (chainKey secrets) [])

/-- The session after a handshake of `items` and `secrets` with `remote`. -/
def established (s : NoiseSession) (remote : Bytes) (items secrets : List Bytes) : NoiseSession :=
  let (first, second) := transportKeys secrets
  { s with
    sendCipher := some (transport (if s.role = .initiator then first else second))
    recvCipher := some (transport (if s.role = .initiator then second else first))
    remoteStaticPublic := some remote
    handshakeHash := some (transcriptHash items)
    remoteFingerprint := some (calculateFingerprint remote)
    handshakeState := none
    state := .established }

theorem beginHandshake_eq : beginHandshake s =
    .ok () (s.holding (fresh s.role s.localIdentity.x25519Private)) := by
  rw [beginHandshake, get_bind, new_eq_fresh s.localIdentity.size]
  rfl

omit [Primitives] in
theorem onHandshake_eq_ok {x : EStateM CryptoError NoiseHandshakeState Bytes} {out : Bytes} :
    onHandshake x (s.holding handshake) = .ok out t ↔
      ∃ next, x handshake = .ok out next ∧ t = s.holding next := by
  have reduced : onHandshake x (s.holding handshake) = focus (fun _ => handshake)
      (fun next s => { s with handshakeState := some next }) x (s.holding handshake) := rfl
  rw [reduced, focus_eq_ok]
  rfl

theorem getTransportCiphers_eq {items secrets : List Bytes} {nonce : Nat}
    (complete : handshake.isHandshakeComplete = true)
    (symmetric : handshake.symmetricState = .after items secrets nonce) :
    handshake.getTransportCiphers = .ok
      (transport (if handshake.role = .initiator then (transportKeys secrets).1
        else (transportKeys secrets).2),
      transport (if handshake.role = .initiator then (transportKeys secrets).2
        else (transportKeys secrets).1)) := by
  rw [getTransportCiphers, if_neg (by simp [complete]), symmetric]
  unfold NoiseSymmetricState.split
  rw [noiseHkdf_two]
  cases role : handshake.role <;> rfl

/-- A complete handshake ends well exactly when the remote key binds. -/
theorem finaliseHandshake_eq_ok {remote : Bytes} {items secrets : List Bytes} {nonce : Nat}
    (complete : handshake.isHandshakeComplete = true)
    (symmetric : handshake.symmetricState = .after items secrets nonce)
    (authenticated : handshake.remoteStaticPublic = some remote) (role : handshake.role = s.role) :
    finaliseHandshake (s.holding handshake) = .ok () t ↔
      s.Binds remote ∧ t = s.established remote items secrets := by
  have refused (message : String) : (refuse message : EStateM CryptoError NoiseSession Unit)
      (s.holding handshake) ≠ .ok () t := by
    intro returned
    cases returned
  rw [finaliseHandshake, get_bind]
  simp only [holding_handshakeState, holding_claimedPeerId, authenticated]
  unfold Binds
  cases claimed : s.claimedPeerId with
  | none => simp [refused]
  | some claimedPeerId =>
    simp only [if_apply]
    by_cases same : claimedPeerId = (Primitives.sha256 remote).take 8
    · have matching : ¬ (claimedPeerId.length ≠ ((Primitives.sha256 remote).take 8).length ∨
          (Primitives.sha256 remote).take 8 ≠ claimedPeerId) := by simp [same]
      rw [if_neg matching]
      by_cases loop : remote = s.localIdentity.x25519Public
      · have self : remote = (s.holding handshake).localIdentity.x25519Public := loop
        rw [if_pos self]
        simp only [refused, loop, ne_eq, not_true, and_false, false_and]
      · have other : ¬ remote = (s.holding handshake).localIdentity.x25519Public := loop
        rw [if_neg other, getTransportCiphers_eq complete symmetric, bind_ok (lift_ok _ _), role,
          symmetric]
        have returns : s.established remote items secrets = t ↔
            (some claimedPeerId = some ((Primitives.sha256 remote).take 8) ∧
              remote ≠ s.localIdentity.x25519Public) ∧ t = s.established remote items secrets := by
          simp [same, loop, eq_comm]
        rw [← returns]
        exact ⟨fun ended => (EStateM.Result.ok.inj ended).2, fun ended => ended ▸ rfl⟩
    · have different : claimedPeerId.length ≠ ((Primitives.sha256 remote).take 8).length ∨
          (Primitives.sha256 remote).take 8 ≠ claimedPeerId := Or.inr (Ne.symm same)
      rw [if_pos different]
      simp [refused, same]

theorem autoInitialise_holding :
    autoInitialise (s.holding handshake) = .ok () (s.holding handshake) := by
  rw [autoInitialise, get_bind, if_apply, if_neg (by simp)]
  rfl

theorem respond_open (incomplete : handshake.isHandshakeComplete = false) :
    respond ephemeral (s.holding handshake) = .ok response t ↔ ∃ out next,
      writeMessage ephemeral [] handshake = .ok out next ∧ response = some out ∧
      t = s.holding next := by
  have going : ¬ (s.holding handshake).handshakeComplete = true := by
    simp [handshakeComplete, incomplete]
  rw [respond, get_bind, if_apply, if_pos going, map_eq_pure_bind, bind_eq_ok]
  constructor
  · rintro ⟨out, u, wrote, rest⟩
    obtain ⟨next, written, rfl⟩ := onHandshake_eq_ok.mp wrote
    obtain ⟨rfl, rfl⟩ := EStateM.Result.ok.inj rest
    exact ⟨out, next, written, rfl, rfl⟩
  · rintro ⟨out, next, wrote, rfl, rfl⟩
    exact ⟨out, _, onHandshake_eq_ok.mpr ⟨next, wrote, rfl⟩, rfl⟩

theorem respond_complete (complete : handshake.isHandshakeComplete = true) :
    respond ephemeral (s.holding handshake) = .ok none (s.holding handshake) := by
  have done : ¬ ¬ (s.holding handshake).handshakeComplete = true := by
    simp [handshakeComplete, complete]
  rw [respond, get_bind, if_apply, if_neg done]
  rfl

theorem finaliseIfComplete_open (incomplete : handshake.isHandshakeComplete = false) :
    finaliseIfComplete (s.holding handshake) = .ok () (s.holding handshake) := by
  have going : ¬ (s.holding handshake).handshakeComplete = true := by
    simp [handshakeComplete, incomplete]
  rw [finaliseIfComplete, get_bind, if_apply, if_neg going]
  rfl

theorem finaliseIfComplete_complete (complete : handshake.isHandshakeComplete = true) :
    finaliseIfComplete (s.holding handshake) = finaliseHandshake (s.holding handshake) := by
  have done : (s.holding handshake).handshakeComplete = true := by
    simp [handshakeComplete, complete]
  rw [finaliseIfComplete, get_bind, if_apply, if_pos done]

/-- A message in the handshake is read, answered while the handshake is open, and ends it. -/
theorem handleMessage_holding : handleMessage ephemeral message (s.holding handshake) =
    .ok response t ↔ ∃ payload read u, readMessage message handshake = .ok payload read ∧
      respond ephemeral (s.holding read) = .ok response u ∧ finaliseIfComplete u = .ok () t := by
  rw [handleMessage, bind_ok autoInitialise_holding, get_bind, if_apply, if_neg (by simp),
    bind_eq_ok]
  constructor
  · rintro ⟨payload, u, received, rest⟩
    obtain ⟨read, taken, rfl⟩ := onHandshake_eq_ok.mp received
    obtain ⟨answer, v, responded, last⟩ := bind_eq_ok.mp rest
    obtain ⟨_, w, ended, returned⟩ := bind_eq_ok.mp last
    obtain ⟨rfl, rfl⟩ := EStateM.Result.ok.inj returned
    exact ⟨payload, read, v, taken, responded, ended⟩
  · rintro ⟨payload, read, u, received, responded, ended⟩
    refine ⟨payload, _, onHandshake_eq_ok.mpr ⟨read, received, rfl⟩, ?_⟩
    exact bind_eq_ok.mpr ⟨response, u, responded, bind_eq_ok.mpr ⟨_, t, ended, rfl⟩⟩

theorem startHandshake_initiator (idle : s.state = .uninitialized) (role : s.role = .initiator) :
    startHandshake ephemeral s = .ok response t ↔ ephemeral.length = x25519KeySize ∧
      response = some (Primitives.publicKey ephemeral) ∧
      t = s.holding (awaiting2 s.localIdentity.x25519Private ephemeral) := by
  rw [startHandshake, get_bind, if_apply, if_neg (not_not.mpr idle), bind_ok beginHandshake_eq,
    if_apply, if_pos role, role, bind_eq_ok]
  constructor
  · rintro ⟨out, u, wrote, rest⟩
    obtain ⟨next, written, rfl⟩ := onHandshake_eq_ok.mp wrote
    obtain ⟨size, rfl, rfl⟩ := write1_eq_ok.mp written
    obtain ⟨rfl, rfl⟩ := EStateM.Result.ok.inj rest
    exact ⟨size, rfl, rfl⟩
  · rintro ⟨size, rfl, rfl⟩
    exact ⟨_, _, onHandshake_eq_ok.mpr ⟨_, write1_eq_ok.mpr ⟨size, rfl, rfl⟩, rfl⟩, rfl⟩

theorem startHandshake_responder (ephemeral : Bytes) (idle : s.state = .uninitialized)
    (role : s.role = .responder) : startHandshake ephemeral s =
      .ok none (s.holding (fresh .responder s.localIdentity.x25519Private)) := by
  rw [startHandshake, get_bind, if_apply, if_neg (not_not.mpr idle), bind_ok beginHandshake_eq,
    if_apply, if_neg (by simp [role]), role]
  rfl

/-- A responder that has not begun takes a message as if it had. -/
theorem handleMessage_autoInitialises (idle : s.state = .uninitialized)
    (role : s.role = .responder) : handleMessage ephemeral message s =
      handleMessage ephemeral message (s.holding (fresh .responder s.localIdentity.x25519Private)) := by
  have begun : autoInitialise s =
      .ok () (s.holding (fresh .responder s.localIdentity.x25519Private)) := by
    rw [autoInitialise, get_bind, if_apply, if_pos ⟨idle, role⟩, beginHandshake_eq, role]
  rw [handleMessage, bind_ok begun, bind_ok autoInitialise_holding]

/-- The responder answers message 1 with message 2. -/
theorem handleMessage_first {localStaticPrivate : Bytes} :
    handleMessage ephemeral message (s.holding (fresh .responder localStaticPrivate)) =
        .ok response t ↔ dhKeySize ≤ message.length ∧
      ∃ o : Opening, o.e1 = Bytes.slice message 0 dhKeySize ∧ o.p1 = message.drop dhKeySize ∧
        Answers localStaticPrivate ephemeral o ∧ response = some (o.e2 ++ o.s2 ++ o.p2) ∧
        t = s.holding (awaiting3 localStaticPrivate ephemeral o) := by
  rw [handleMessage_holding]
  constructor
  · rintro ⟨payload, read, u, received, responded, ended⟩
    obtain ⟨size, rfl, rfl⟩ := read1_eq_ok.mp received
    obtain ⟨out, next, wrote, rfl, rfl⟩ := (respond_open rfl).mp responded
    obtain ⟨o, e1, p1, answers, rfl, rfl⟩ := write2_eq_ok.mp wrote
    rw [finaliseIfComplete_open rfl] at ended
    obtain ⟨_, rfl⟩ := EStateM.Result.ok.inj ended
    exact ⟨size, o, e1, p1, answers, rfl, rfl⟩
  · rintro ⟨size, o, e1, p1, answers, rfl, rfl⟩
    exact ⟨_, _, _, read1_eq_ok.mpr ⟨size, rfl, rfl⟩, (respond_open rfl).mpr
      ⟨_, _, write2_eq_ok.mpr ⟨o, e1, p1, answers, rfl, rfl⟩, rfl, rfl⟩, finaliseIfComplete_open rfl⟩

/-- The initiator answers message 2 with message 3 and is done. -/
theorem handleMessage_second {localStaticPrivate own : Bytes} (role : s.role = .initiator) :
    handleMessage ephemeral message (s.holding (awaiting2 localStaticPrivate own)) =
        .ok response t ↔ ∃ o c remote payload, Trusts own message o remote payload ∧
      Closes localStaticPrivate o c ∧ s.Binds remote ∧ response = some (c.s3 ++ c.p3) ∧
      t = s.established remote (c.p3 :: c.s3 :: o.items) (c.se :: o.secrets) := by
  rw [handleMessage_holding]
  constructor
  · rintro ⟨payload, read, u, received, responded, ended⟩
    obtain ⟨o, remote, trusts, rfl⟩ := read2_eq_ok.mp received
    obtain ⟨out, next, wrote, rfl, rfl⟩ := (respond_open rfl).mp responded
    obtain ⟨c, closes, rfl, rfl⟩ := write3_eq_ok.mp wrote
    rw [finaliseIfComplete_complete rfl] at ended
    obtain ⟨binds, rfl⟩ := (finaliseHandshake_eq_ok rfl rfl rfl role.symm).mp ended
    exact ⟨o, c, remote, payload, trusts, closes, binds, rfl, rfl⟩
  · rintro ⟨o, c, remote, payload, trusts, closes, binds, rfl, rfl⟩
    refine ⟨payload, _, _, read2_eq_ok.mpr ⟨o, remote, trusts, rfl⟩, (respond_open rfl).mpr
      ⟨_, _, write3_eq_ok.mpr ⟨c, closes, rfl, rfl⟩, rfl, rfl⟩, ?_⟩
    rw [finaliseIfComplete_complete rfl]
    exact (finaliseHandshake_eq_ok rfl rfl rfl role.symm).mpr ⟨binds, rfl⟩

/-- The responder takes message 3 and is done. -/
theorem handleMessage_third {localStaticPrivate own : Bytes} {o : Opening}
    (role : s.role = .responder) :
    handleMessage ephemeral message (s.holding (awaiting3 localStaticPrivate own o)) =
        .ok response t ↔ ∃ c remote payload, Completes own message o c remote payload ∧
      s.Binds remote ∧ response = none ∧
      t = s.established remote (c.p3 :: c.s3 :: o.items) (c.se :: o.secrets) := by
  rw [handleMessage_holding]
  constructor
  · rintro ⟨payload, read, u, received, responded, ended⟩
    obtain ⟨c, remote, completes, rfl⟩ := read3_eq_ok.mp received
    rw [respond_complete rfl] at responded
    obtain ⟨rfl, rfl⟩ := EStateM.Result.ok.inj responded
    rw [finaliseIfComplete_complete rfl] at ended
    obtain ⟨binds, rfl⟩ := (finaliseHandshake_eq_ok rfl rfl rfl role.symm).mp ended
    exact ⟨c, remote, payload, completes, binds, rfl, rfl⟩
  · rintro ⟨c, remote, payload, completes, binds, rfl, rfl⟩
    refine ⟨payload, _, _, read3_eq_ok.mpr ⟨c, remote, completes, rfl⟩, respond_complete rfl, ?_⟩
    rw [finaliseIfComplete_complete rfl]
    exact (finaliseHandshake_eq_ok rfl rfl rfl role.symm).mpr ⟨binds, rfl⟩

end Bitchat.Crypto.NoiseSession
