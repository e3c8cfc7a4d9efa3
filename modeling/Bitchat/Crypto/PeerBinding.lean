import Bitchat.Crypto.HonestHandshake
import Bitchat.Crypto.Lifecycle

/-! An established session is bound to its peer: the key that its handshake authenticated has the
peer id of the session. The binding is made where the handshake ends, and no later call touches it
without leaving the state. -/
namespace Bitchat.Crypto.NoiseSession
open Stateful NoiseHandshakeState

variable [Primitives]

/-- The call read the message that completed this handshake, or wrote its answer. -/
def EndsHandshake (handshake : NoiseHandshakeState) (e : Taken NoiseSession Call) : Prop :=
  ∃ ephemeral message payload response u v, e.label = .process ephemeral message ∧
    e.before.state = .handshaking ∧
    onHandshake (readMessage message) e.before = .ok payload u ∧
    respond ephemeral u = .ok response v ∧
    v.handshakeState = some handshake ∧ handshake.isHandshakeComplete = true

/-- The session is bound to the key that a handshake authenticated. -/
structure Bound (handshake : NoiseHandshakeState) (remote : Bytes) (s : NoiseSession) : Prop where
  sendCipher : s.sendCipher.isSome
  recvCipher : s.recvCipher.isSome
  handshakeState : s.handshakeState = none
  authenticated : handshake.remoteStaticPublic = some remote
  remoteStaticPublic : s.remoteStaticPublic = some remote
  digits : s.remotePeerId.length = 16
  peerId : Str.fromHex s.remotePeerId = some ((Primitives.sha256 remote).take 8)
  foreign : remote ≠ s.localIdentity.x25519Public
  remoteFingerprint : s.remoteFingerprint = some (calculateFingerprint remote)
  handshakeHash : s.handshakeHash = some handshake.symmetricState.hash

section Calls
variable {s t : NoiseSession} {handshake : NoiseHandshakeState} {remote : Bytes}
  {ephemeral message : Bytes}

theorem Binds.digits (binds : s.Binds remote) : s.remotePeerId.length = 16 ∧
    Str.fromHex s.remotePeerId = some ((Primitives.sha256 remote).take 8) := by
  have claimed := binds.1
  unfold claimedPeerId at claimed
  split at claimed
  · cases claimed
  · next size => exact ⟨not_not.mp size, claimed⟩

/-- Outside ESTABLISHED both transport calls raise and change nothing. -/
theorem encrypt_refused (other : s.state ≠ .established) (plaintext : Bytes) :
    encrypt plaintext s =
      .error (.noiseState s!"encrypt() requires ESTABLISHED state, got {s.state.value}") s := by
  rw [encrypt, get_bind, if_apply, if_pos other]
  rfl

theorem decrypt_refused (other : s.state ≠ .established) (ciphertext : Bytes) :
    decrypt ciphertext s =
      .error (.noiseState s!"decrypt() requires ESTABLISHED state, got {s.state.value}") s := by
  rw [decrypt, get_bind, if_apply, if_pos other]
  rfl

theorem Bound.encrypt (bound : Bound handshake remote s) (established : s.state = .established)
    (plaintext : Bytes) : Bound handshake remote (perform (.encrypt plaintext) s) := by
  have sent : NoiseSession.encrypt plaintext s =
      onSendCipher (NoiseCipherState.encrypt plaintext []) s := by
    rw [NoiseSession.encrypt, get_bind, if_apply, if_neg (not_not.mpr established)]
  obtain ⟨cipher, after, present⟩ := onSendCipher_outcome (NoiseCipherState.encrypt plaintext []) s
  have after' : perform (.encrypt plaintext) s = { s with sendCipher := cipher } := by
    rw [← after]
    exact congrArg Prod.snd (outcome_congr sent)
  rw [after']
  exact { bound with sendCipher := present bound.sendCipher }

theorem Bound.decrypt (bound : Bound handshake remote s) (established : s.state = .established)
    (ciphertext : Bytes) : Bound handshake remote (perform (.decrypt ciphertext) s) := by
  have received : NoiseSession.decrypt ciphertext s =
      onRecvCipher (NoiseCipherState.decrypt ciphertext []) s := by
    rw [NoiseSession.decrypt, get_bind, if_apply, if_neg (not_not.mpr established)]
  obtain ⟨cipher, after, present⟩ := onRecvCipher_outcome (NoiseCipherState.decrypt ciphertext []) s
  have after' : perform (.decrypt ciphertext) s = { s with recvCipher := cipher } := by
    rw [← after]
    exact congrArg Prod.snd (outcome_congr received)
  rw [after']
  exact { bound with recvCipher := present bound.recvCipher }

/-- A second start is refused. -/
theorem perform_start (begun : s.state ≠ .uninitialized) : perform (.start ephemeral) s = s := by
  unfold perform
  simp only
  rw [startHandshake]
  unfold outcome
  rw [get_bind, if_apply, if_pos begun]
  rfl

/-- A message that leaves the session established ended its handshake and bound it. -/
theorem process_binds (established : (perform (.process ephemeral message) s).state = .established) :
    ∃ handshake remote,
      EndsHandshake handshake ⟨s, .process ephemeral message, perform (.process ephemeral message) s⟩ ∧
      Bound handshake remote (perform (.process ephemeral message) s) := by
  unfold perform at established ⊢
  simp only [outcome] at established ⊢
  cases result : processHandshakeMessage ephemeral message s with
  | error e t =>
    obtain ⟨u, _, rfl⟩ := onError_eq_error.mp result
    rw [result] at established
    cases established
  | ok response t =>
    rw [result] at established
    simp only at established ⊢
    rcases handleMessage_inv (onError_eq_ok.mp result) with
      ⟨_, begun⟩ | ⟨going, payload, u, v, read, responded, kept, finished⟩
    · rw [begun] at established
      cases established
    · rw [finaliseIfComplete, get_bind, if_apply] at finished
      split at finished
      · next complete =>
        obtain ⟨handshake, remote, _, _, held, authenticated, binds, rfl⟩ := finaliseHandshake_inv finished
        have done : handshake.isHandshakeComplete = true := by
          simpa [handshakeComplete, held] using complete
        obtain ⟨digits, peerId⟩ := binds.digits
        exact ⟨handshake, remote,
          ⟨ephemeral, message, payload, response, u, v, rfl, going, read, responded, held, done⟩,
          ⟨rfl, rfl, rfl, authenticated, rfl, digits, peerId, binds.2, rfl, rfl⟩⟩
      · obtain ⟨_, rfl⟩ := EStateM.Result.ok.inj finished
        rw [kept] at established
        cases established

end Calls

/-- In every state that a session reaches: an established session is bound to the key that the
handshake of one of its calls authenticated, and any other refuses to encrypt and decrypt. -/
theorem established_bound {identity : LocalIdentity} {remotePeerId : Str} {role : Option NoiseRole}
    {start s : NoiseSession} {history : List (Taken NoiseSession Call)}
    (created : NoiseSession.new identity remotePeerId role = .ok start)
    (run : Run Step start history s) :
    (s.state = .established → ∃ e ∈ history, ∃ handshake remote,
      EndsHandshake handshake e ∧ Bound handshake remote s) ∧
    (s.state ≠ .established → ∀ data,
      (∃ error, encrypt data s = .error error s) ∧ ∃ error, decrypt data s = .error error s) := by
  constructor
  · have fresh : start.state ≠ .established := by
      obtain ⟨_, rfl⟩ := new_eq_ok created
      exact fun established => by cases established
    clear created
    induction run with
    | nil => exact fun established => absurd established fresh
    | @snoc history s call t run step ih =>
      obtain rfl : t = perform call s := step
      intro established
      have earlier (before : s.state = .established)
          (keeps : ∀ handshake remote, Bound handshake remote s →
            Bound handshake remote (perform call s)) :
          ∃ e ∈ history ++ [⟨s, call, perform call s⟩], ∃ handshake remote,
            EndsHandshake handshake e ∧ Bound handshake remote (perform call s) := by
        obtain ⟨e, member, handshake, remote, ends', bound⟩ := ih before
        exact ⟨e, List.mem_append_left _ member, handshake, remote, ends', keeps handshake remote bound⟩
      cases call with
      | start ephemeral =>
        have after := startHandshake_state s ephemeral
        by_cases idle : s.state = .uninitialized
        · rw [if_pos idle] at after
          exact absurd (established.symm.trans after) (by decide)
        · rw [perform_start idle] at established
          exact earlier established fun _ _ bound => by
            rw [perform_start idle]
            exact bound
      | process ephemeral message =>
        obtain ⟨handshake, remote, ends', bound⟩ := process_binds established
        exact ⟨_, List.mem_append_right _ (List.mem_singleton_self _), handshake, remote, ends', bound⟩
      | encrypt plaintext =>
        have before : s.state = .established :=
          (encrypt_keeps_state plaintext s).symm.trans established
        exact earlier before fun _ _ bound => bound.encrypt before plaintext
      | decrypt ciphertext =>
        have before : s.state = .established :=
          (decrypt_keeps_state ciphertext s).symm.trans established
        exact earlier before fun _ _ bound => bound.decrypt before ciphertext
      | close => cases established
  · intro other data
    exact ⟨⟨_, encrypt_refused other data⟩, ⟨_, decrypt_refused other data⟩⟩

end Bitchat.Crypto.NoiseSession

namespace Bitchat.Crypto.Modular
open NoiseSession Stateful
attribute [local instance] primitives

/-- Device 1 calls device 2. -/
def caller : NoiseSession where
  localIdentity := device 1
  remotePeerId := (device 2).peerIdHex
  role := .initiator

def callee : NoiseSession where
  localIdentity := device 2
  remotePeerId := (device 1).peerIdHex
  role := .responder

/-- The message that a call returns. -/
def answer (result : Except CryptoError (Option Bytes) × NoiseSession) : Bytes :=
  match result.1 with
  | .ok (some message) => message
  | _ => []

def firstMessage : Bytes := answer (outcome (startHandshake (repeated 3)) caller)

def secondMessage : Bytes := answer (outcome (processHandshakeMessage (repeated 4) firstMessage) callee)

/-- The caller after the second message. -/
def called : NoiseSession :=
  perform (.process (repeated 3) secondMessage) (perform (.start (repeated 3)) caller)

theorem called_bound : ∃ handshake remote, Bound handshake remote called := by
  have run : Run Step caller _ called :=
    (Run.nil.snoc (rfl : Step caller (.start (repeated 3)) _)).snoc
      (rfl : Step _ (.process (repeated 3) secondMessage) _)
  obtain ⟨_, _, handshake, remote, _, bound⟩ :=
    (established_bound (rfl : NoiseSession.new (device 1) (device 2).peerIdHex (some .initiator) = .ok caller)
      run).1 (by decide +kernel)
  exact ⟨handshake, remote, bound⟩

end Bitchat.Crypto.Modular
