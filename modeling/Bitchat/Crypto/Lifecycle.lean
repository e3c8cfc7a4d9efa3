import Bitchat.Crypto.SessionSteps
import Bitchat.Data.Run

/-! The lifecycle of a session under any sequence of calls, against its documented
state diagram. The catch-all of `process_handshake_message` is what leaves it. -/
namespace Bitchat.Crypto.NoiseSession
open Stateful NoiseHandshakeState

inductive Call where
  | start (ephemeral : Bytes)
  | process (ephemeral message : Bytes)
  | encrypt (plaintext : Bytes)
  | decrypt (ciphertext : Bytes)
  | close

/-- The changes of the documented diagram, each with the calls that make it. -/
inductive Documented : Call → NoiseSessionState → NoiseSessionState → Prop where
  | stay (call state) : Documented call state state
  | start (ephemeral) : Documented (.start ephemeral) .uninitialized .handshaking
  | receive (ephemeral message) :
      Documented (.process ephemeral message) .uninitialized .handshaking
  | failEarly (ephemeral message) : Documented (.process ephemeral message) .uninitialized .failed
  | fail (ephemeral message) : Documented (.process ephemeral message) .handshaking .failed
  | finish (ephemeral message) : Documented (.process ephemeral message) .handshaking .established
  | close (state) : Documented .close state .closed

/-- The call is no handshake message for a session that is established or closed. -/
def Timely (state : NoiseSessionState) : Call → Prop
  | .process _ _ => state ≠ .established ∧ state ≠ .closed
  | _ => True

variable [Primitives]

def perform (call : Call) (s : NoiseSession) : NoiseSession :=
  match call with
  | .start ephemeral => (outcome (startHandshake ephemeral) s).2
  | .process ephemeral message => (outcome (processHandshakeMessage ephemeral message) s).2
  | .encrypt plaintext => (outcome (NoiseSession.encrypt plaintext) s).2
  | .decrypt ciphertext => (outcome (NoiseSession.decrypt ciphertext) s).2
  | .close => s.close

def Step (s : NoiseSession) (call : Call) (t : NoiseSession) : Prop := t = perform call s

theorem step_start {s t : NoiseSession} {ephemeral : Bytes} {response : Option Bytes}
    (started : startHandshake ephemeral s = .ok response t) : Step s (.start ephemeral) t := by
  unfold Step perform
  simp only [outcome_eq_ok.mpr started]

theorem step_process {s t : NoiseSession} {ephemeral message : Bytes} {response : Option Bytes}
    (processed : processHandshakeMessage ephemeral message s = .ok response t) :
    Step s (.process ephemeral message) t := by
  unfold Step perform
  simp only [outcome_eq_ok.mpr processed]

/-- Every state change of the run is in the diagram. -/
def FollowsDiagram (history : List (Taken NoiseSession Call)) : Prop :=
  ∀ e ∈ history, Documented e.label e.before.state e.after.state

section Calls
variable {s t : NoiseSession} {ephemeral message : Bytes} {response : Option Bytes}

omit [Primitives] in
/-- What does not look at the handshake is kept by every step of it. -/
theorem onHandshake_keeps {α τ : Type} {f : NoiseSession → τ}
    (frame : ∀ s handshake, f { s with handshakeState := handshake } = f s)
    (x : EStateM CryptoError NoiseHandshakeState α) : Keeps f (onHandshake x) := by
  intro s
  cases held : s.handshakeState with
  | none => simp only [onHandshake, outcome, held]
  | some handshake =>
    have reduced : onHandshake x s = focus (fun _ => handshake)
        (fun next s => { s with handshakeState := some next }) x s := by simp only [onHandshake, held]
    rw [outcome_congr reduced, outcome_focus]
    exact frame s _

omit [Primitives] in
/-- A call of a transport cipher touches that cipher alone. -/
theorem onSendCipher_outcome {α : Type} (x : EStateM CryptoError NoiseCipherState α) (s : NoiseSession) :
    ∃ cipher, (outcome (onSendCipher x) s).2 = { s with sendCipher := cipher } ∧
      (s.sendCipher.isSome → cipher.isSome) := by
  cases held : s.sendCipher with
  | none =>
    have same : (outcome (onSendCipher x) s).2 = s := by simp only [onSendCipher, outcome, held]
    exact ⟨s.sendCipher, same, by simp⟩
  | some cipher =>
    have reduced : onSendCipher x s = focus (fun _ => cipher)
        (fun next s => { s with sendCipher := some next }) x s := by simp only [onSendCipher, held]
    rw [outcome_congr reduced, outcome_focus]
    exact ⟨some _, rfl, fun _ => rfl⟩

omit [Primitives] in
theorem onRecvCipher_outcome {α : Type} (x : EStateM CryptoError NoiseCipherState α) (s : NoiseSession) :
    ∃ cipher, (outcome (onRecvCipher x) s).2 = { s with recvCipher := cipher } ∧
      (s.recvCipher.isSome → cipher.isSome) := by
  cases held : s.recvCipher with
  | none =>
    have same : (outcome (onRecvCipher x) s).2 = s := by simp only [onRecvCipher, outcome, held]
    exact ⟨s.recvCipher, same, by simp⟩
  | some cipher =>
    have reduced : onRecvCipher x s = focus (fun _ => cipher)
        (fun next s => { s with recvCipher := some next }) x s := by simp only [onRecvCipher, held]
    rw [outcome_congr reduced, outcome_focus]
    exact ⟨some _, rfl, fun _ => rfl⟩

/-- What does not look at the send cipher is kept when a text is encrypted. -/
theorem encrypt_keeps {τ : Type} {f : NoiseSession → τ}
    (frame : ∀ s cipher, f { s with sendCipher := cipher } = f s) (plaintext : Bytes) :
    Keeps f (encrypt plaintext) := by
  apply keeps_get_bind
  intro before
  apply Keeps.ite (keeps_throw _)
  intro s
  obtain ⟨cipher, after, -⟩ := onSendCipher_outcome (NoiseCipherState.encrypt plaintext []) s
  rw [after, frame]

theorem decrypt_keeps {τ : Type} {f : NoiseSession → τ}
    (frame : ∀ s cipher, f { s with recvCipher := cipher } = f s) (ciphertext : Bytes) :
    Keeps f (decrypt ciphertext) := by
  apply keeps_get_bind
  intro before
  apply Keeps.ite (keeps_throw _)
  intro s
  obtain ⟨cipher, after, -⟩ := onRecvCipher_outcome (NoiseCipherState.decrypt ciphertext []) s
  rw [after, frame]

theorem encrypt_keeps_state (plaintext : Bytes) : Keeps state (encrypt plaintext) :=
  encrypt_keeps (fun _ _ => rfl) plaintext

theorem decrypt_keeps_state (ciphertext : Bytes) : Keeps state (decrypt ciphertext) :=
  decrypt_keeps (fun _ _ => rfl) ciphertext

/-- A handshake that is started stays in progress, also where its first message fails. -/
theorem startHandshake_state (s : NoiseSession) (ephemeral : Bytes) :
    (outcome (startHandshake ephemeral) s).2.state =
      if s.state = .uninitialized then .handshaking else s.state := by
  by_cases idle : s.state = .uninitialized
  · have begun : startHandshake ephemeral s = (if s.role = .initiator then
        do return some (← onHandshake (writeMessage ephemeral []))
      else pure none : EStateM CryptoError NoiseSession (Option Bytes))
        (s.holding (fresh s.role s.localIdentity.x25519Private)) := by
      rw [startHandshake, get_bind, if_apply, if_neg (not_not.mpr idle), bind_ok beginHandshake_eq]
    rw [if_pos idle]
    unfold outcome
    rw [begun]
    refine Keeps.ite (f := state) ?_ (keeps_pure none) (s.holding _)
    exact (onHandshake_keeps (fun _ _ => rfl) _).bind fun _ => keeps_pure _
  · rw [startHandshake, if_neg idle]
    unfold outcome
    rw [get_bind, if_apply, if_pos idle]
    rfl

/-- The handshake ended: it authenticated a key that the session may end with. -/
theorem finaliseHandshake_inv (finished : finaliseHandshake s = .ok () t) :
    ∃ handshake remote sendCipher recvCipher, s.handshakeState = some handshake ∧
      handshake.remoteStaticPublic = some remote ∧ s.Binds remote ∧
      t = { s with
        sendCipher := some sendCipher
        recvCipher := some recvCipher
        remoteStaticPublic := some remote
        handshakeHash := some handshake.symmetricState.hash
        remoteFingerprint := some (calculateFingerprint remote)
        handshakeState := none
        state := .established } := by
  have refused (message : String) : (refuse message : EStateM CryptoError NoiseSession Unit) s ≠
      .ok () t := by
    intro returned
    cases returned
  rw [finaliseHandshake, get_bind] at finished
  cases held : s.handshakeState with
  | none =>
    simp only [held] at finished
    cases finished
  | some handshake =>
    simp only [held] at finished
    cases authenticated : handshake.remoteStaticPublic with
    | none =>
      simp only [authenticated] at finished
      exact absurd finished (refused _)
    | some remote =>
      simp only [authenticated] at finished
      cases claimed : s.claimedPeerId with
      | none =>
        simp only [claimed] at finished
        exact absurd finished (refused _)
      | some claimedPeerId =>
        simp only [claimed] at finished
        rw [if_apply] at finished
        split at finished
        · exact absurd finished (refused _)
        · next same =>
          rw [if_apply] at finished
          split at finished
          · exact absurd finished (refused _)
          · next other =>
            obtain ⟨⟨sendCipher, recvCipher⟩, _, _, ended⟩ := bind_eq_ok.mp finished
            obtain ⟨_, rfl⟩ := EStateM.Result.ok.inj ended
            have matching : (Primitives.sha256 remote).take 8 = claimedPeerId := by
              by_contra different
              exact same (Or.inr different)
            exact ⟨handshake, remote, sendCipher, recvCipher, rfl, authenticated,
              ⟨matching ▸ claimed, other⟩, rfl⟩

theorem finaliseHandshake_state (finished : finaliseHandshake s = .ok () t) :
    t.state = .established := by
  obtain ⟨_, _, _, _, _, _, _, rfl⟩ := finaliseHandshake_inv finished
  rfl

theorem finaliseIfComplete_state (finished : finaliseIfComplete s = .ok () t) :
    t.state = s.state ∨ t.state = .established := by
  rw [finaliseIfComplete, get_bind, if_apply] at finished
  split at finished
  · exact Or.inr (finaliseHandshake_state finished)
  · obtain ⟨_, rfl⟩ := EStateM.Result.ok.inj finished
    exact Or.inl rfl

theorem respond_keeps {τ : Type} {f : NoiseSession → τ}
    (frame : ∀ s handshake, f { s with handshakeState := handshake } = f s) (ephemeral : Bytes) :
    Keeps f (respond ephemeral) := by
  apply keeps_get_bind
  intro s
  apply Keeps.ite _ (keeps_pure none)
  rw [map_eq_pure_bind]
  exact (onHandshake_keeps frame _).bind fun _ => keeps_pure _

theorem autoInitialise_begun (begun : ¬ (s.state = .uninitialized ∧ s.role = .responder)) :
    autoInitialise s = .ok () s := by
  rw [autoInitialise, get_bind, if_apply, if_neg begun]
  rfl

/-- A call that returns begins the handshake or continues it: the message is read, the answer is
written, and a complete handshake ends. -/
theorem handleMessage_inv (returned : handleMessage ephemeral message s = .ok response t) :
    (s.state = .uninitialized ∧ t.state = .handshaking) ∨
    (s.state = .handshaking ∧ ∃ payload u v,
      onHandshake (readMessage message) s = .ok payload u ∧ respond ephemeral u = .ok response v ∧
      v.state = .handshaking ∧ finaliseIfComplete v = .ok () t) := by
  by_cases idle : s.state = .uninitialized ∧ s.role = .responder
  · rw [handleMessage_autoInitialises idle.1 idle.2] at returned
    obtain ⟨_, _, _, _, _, _, rfl⟩ := handleMessage_first.mp returned
    exact Or.inl ⟨idle.1, rfl⟩
  · rw [handleMessage, bind_ok (autoInitialise_begun idle), get_bind, if_apply] at returned
    by_cases going : s.state = .handshaking
    · rw [if_neg (not_not.mpr going)] at returned
      obtain ⟨payload, u, read, rest⟩ := bind_eq_ok.mp returned
      obtain ⟨_, v, responded, last⟩ := bind_eq_ok.mp rest
      obtain ⟨_, w, finished, ended⟩ := bind_eq_ok.mp last
      obtain ⟨rfl, rfl⟩ := EStateM.Result.ok.inj ended
      have kept : v.state = .handshaking :=
        ((respond_keeps (f := state) (fun _ _ => rfl) ephemeral).ok responded).trans
          (((onHandshake_keeps (f := state) (fun _ _ => rfl) _).ok read).trans going)
      exact Or.inr ⟨going, payload, u, v, read, responded, kept, finished⟩
    · rw [if_pos going] at returned
      cases returned

/-- A call that returns was made in the handshake, or begins it. -/
theorem handleMessage_state (returned : handleMessage ephemeral message s = .ok response t) :
    (s.state = .uninitialized ∧ t.state = .handshaking) ∨
    (s.state = .handshaking ∧ (t.state = .handshaking ∨ t.state = .established)) := by
  rcases handleMessage_inv returned with begun | ⟨going, _, _, _, _, _, kept, finished⟩
  · exact Or.inl begun
  · exact Or.inr ⟨going, (finaliseIfComplete_state finished).imp_left (·.trans kept)⟩

/-- A handshake message: either it is taken, or the session has failed. -/
theorem process_state (s : NoiseSession) (ephemeral message : Bytes) :
    (perform (.process ephemeral message) s).state = .failed ∨
    (s.state = .uninitialized ∧ (perform (.process ephemeral message) s).state = .handshaking) ∨
    (s.state = .handshaking ∧ ((perform (.process ephemeral message) s).state = .handshaking ∨
      (perform (.process ephemeral message) s).state = .established)) := by
  unfold perform
  simp only [outcome]
  cases result : processHandshakeMessage ephemeral message s with
  | ok response t => exact Or.inr (handleMessage_state (onError_eq_ok.mp result))
  | error e t =>
    obtain ⟨u, _, rfl⟩ := onError_eq_error.mp result
    exact Or.inl rfl

end Calls

/-- A step stays in the diagram exactly when it is timely. -/
theorem documented_iff_timely {s t : NoiseSession} {call : Call} (step : Step s call t) :
    Documented call s.state t.state ↔ Timely s.state call := by
  obtain rfl : t = perform call s := step
  cases call with
  | start ephemeral =>
    have after := startHandshake_state s ephemeral
    simp only [Timely, iff_true]
    unfold perform
    rw [after]
    split
    next idle => rw [idle]; exact .start ephemeral
    next => exact .stay ..
  | process ephemeral message =>
    have after := process_state s ephemeral message
    generalize perform (.process ephemeral message) s = t at after
    constructor
    · intro documented
      -- out of ESTABLISHED and CLOSED the call only leads to FAILED, which no arrow does
      rcases after with failed | ⟨idle, _⟩ | ⟨going, _⟩
      · rw [failed] at documented
        generalize s.state = before at documented
        cases documented <;> exact ⟨by decide, by decide⟩
      · exact ⟨by simp [idle], by simp [idle]⟩
      · exact ⟨by simp [going], by simp [going]⟩
    · rintro ⟨notEstablished, notClosed⟩
      rcases after with failed | ⟨idle, begun⟩ | ⟨going, open' | ended⟩
      · rw [failed]
        cases before : s.state with
        | uninitialized => exact .failEarly ..
        | handshaking => exact .fail ..
        | established => exact absurd before notEstablished
        | failed => exact .stay ..
        | closed => exact absurd before notClosed
      · rw [idle, begun]
        exact .receive ..
      · rw [going, open']
        exact .stay ..
      · rw [going, ended]
        exact .finish ..
  | encrypt plaintext =>
    simp only [Timely, iff_true]
    rw [show (perform (.encrypt plaintext) s).state = s.state from encrypt_keeps_state plaintext s]
    exact .stay ..
  | decrypt ciphertext =>
    simp only [Timely, iff_true]
    rw [show (perform (.decrypt ciphertext) s).state = s.state from decrypt_keeps_state ciphertext s]
    exact .stay ..
  | close =>
    simp only [Timely, iff_true]
    exact .close s.state

/-- In every run the diagram is followed exactly when every call is timely. -/
theorem followsDiagram_iff {start s : NoiseSession} {history : List (Taken NoiseSession Call)}
    (run : Run Step start history s) :
    FollowsDiagram history ↔ ∀ e ∈ history, Timely e.before.state e.label := by
  unfold FollowsDiagram
  constructor
  · intro follows e member
    exact (documented_iff_timely (run.stepped member)).mp (follows e member)
  · intro timely e member
    exact (documented_iff_timely (run.stepped member)).mpr (timely e member)

end Bitchat.Crypto.NoiseSession
