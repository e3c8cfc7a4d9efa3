import Bitchat.App.EstablishedSessions

/-! When a direct message is refused without effect: only where something raises before the text is
queued or sealed. The target is turned into bytes after that. -/
namespace Bitchat.App
open Crypto Protocol Storage Stateful Str

section
variable [Primitives]

/-- The session cannot seal this text: it has no key for it, its counter is used up, or the library
refuses. -/
def CannotSeal (text : Bytes) (s : NoiseSession) : Prop :=
  ∀ cipher key, s.sendCipher = some cipher → cipher.key = some key →
    ¬ cipher.nonce < 2 ^ 64 ∨
      Primitives.aeadEncrypt key (NoiseCipherState.aeadNonce cipher.nonce) text [] = none

variable {text : Bytes} {s : NoiseSession}

omit [Primitives] in
theorem onSendCipher_error {x : EStateM CryptoError NoiseCipherState Bytes} {cipher : NoiseCipherState}
    {e : CryptoError} (found : s.sendCipher = some cipher) (raised : x cipher = .error e cipher) :
    NoiseSession.onSendCipher x s = .error e s := by
  rw [NoiseSession.onSendCipher, found]
  simp only [focus, raised, ← found]

theorem encrypt_stuck (established : s.state = .established) (stuck : CannotSeal text s) :
    ∃ e, NoiseSession.encrypt text s = .error e s := by
  rw [NoiseSession.encrypt, get_bind, if_apply, if_neg (by simp [established])]
  cases found : s.sendCipher with
  | none => exact ⟨_, by rw [NoiseSession.onSendCipher, found]⟩
  | some cipher =>
    cases keyed : cipher.key with
    | none =>
      have raised : NoiseCipherState.encrypt text [] cipher =
          .error (.noiseState "NoiseCipherState: no key initialised (encrypt)") cipher := by
        rw [NoiseCipherState.encrypt, get_bind, keyed]
        rfl
      exact ⟨_, onSendCipher_error found raised⟩
    | some key =>
      cases sealed : NoiseCipherState.encrypt text [] cipher with
      | ok ciphertext after =>
        obtain ⟨fits, out, same, _⟩ := (NoiseCipherState.encrypt_eq_ok keyed).mp sealed
        rcases stuck cipher key found keyed with large | refused
        · exact absurd fits large
        · cases same.symm.trans refused
      | error e after =>
        cases NoiseCipherState.encrypt_error_state keyed sealed
        exact ⟨e, onSendCipher_error found sealed⟩

/-- A text that is sealed uses up a counter of the session. -/
theorem encrypt_counts (established : s.state = .established) (able : ¬ CannotSeal text s) :
    ∃ ciphertext t, NoiseSession.encrypt text s = .ok ciphertext t ∧ t ≠ s := by
  simp only [CannotSeal, not_forall, not_or, not_not] at able
  obtain ⟨cipher, key, found, keyed, fits, sealed⟩ := able
  obtain ⟨out, sealed⟩ := Option.ne_none_iff_exists'.mp sealed
  have encrypted : NoiseCipherState.encrypt text [] cipher =
      .ok (cipher.wirePrefix ++ out) { cipher with nonce := cipher.nonce + 1 } :=
    (NoiseCipherState.encrypt_eq_ok keyed).mpr ⟨fits, out, sealed, rfl, rfl⟩
  refine ⟨cipher.wirePrefix ++ out, { s with sendCipher := some { cipher with nonce := cipher.nonce + 1 } },
    ?_, ?_⟩
  · rw [NoiseSession.encrypt, get_bind, if_apply, if_neg (by simp [established]),
      NoiseSession.onSendCipher, found]
    simp only [focus, encrypted]
  · intro same
    have counted := congrArg NoiseSession.sendCipher same
    rw [found] at counted
    have counter := congrArg NoiseCipherState.nonce (Option.some.inj counted)
    simp at counter

end

namespace SessionCoordinator
variable [Primitives] [CaseMapping]

/-- The call raises, and the sessions, the waiting texts and the expiry tasks are as they were. -/
def RefusesWithoutEffect (w : Surroundings) (target : Str) (text : Bytes) (c : SessionCoordinator) : Prop :=
  Ends (sendDirectMessage w target text) c fun result d => (∃ e, result = .error e) ∧
    d.sessions = c.sessions ∧ d.pendingMessages = c.pendingMessages ∧
    d.handshakeTimeoutTasks = c.handshakeTimeoutTasks

/-- Something raises before the text is queued or sealed. -/
inductive StopsEarly (target : Str) (text : Bytes) (c : SessionCoordinator) : Prop where
  | long : maxMessageSize < text.length → StopsEarly target text c
  | self : c.isSelf (strip target) = true → StopsEarly target text c
  | nameless : c.sessions.get? target = none → c.localIdentity.peerIdHex = [] ∨ target = [] →
      StopsEarly target text c
  | stuck (held : Held) : c.sessions.get? target = some held → held.session.state = .established →
      CannotSeal text held.session → StopsEarly target text c

variable {w : Surroundings} {target : Str} {text : Bytes} {c : SessionCoordinator}

omit [Primitives] [CaseMapping] in
theorem queueMessage_pending : (c.queueMessage target text).pendingMessages ≠ c.pendingMessages := by
  intro same
  have found := congrArg (fun pending => pending.get? target) same
  simp only [queueMessage, InsertionMap.get?_set, if_true] at found
  cases before : c.pendingMessages.get? target with
  | none => simp [before] at found
  | some texts => simp [before] at found

omit [Primitives] [CaseMapping] in
theorem schedule_pending (serial : Nat) :
    (c.scheduleHandshakeTimeout target serial).pendingMessages = c.pendingMessages := by
  unfold scheduleHandshakeTimeout
  split <;> rfl

omit [CaseMapping] in
theorem new_error_iff : (∃ e, NoiseSession.new c.localIdentity target none = .error e) ↔
    c.localIdentity.peerIdHex = [] ∨ target = [] := by
  simp only [NoiseSession.new, Option.elim_none, determineHandshakeRole]
  by_cases own : c.localIdentity.peerIdHex = []
  · simp [own, bind, Except.bind]
  · by_cases nameless : target = []
    · simp [own, nameless, bind, Except.bind]
    · by_cases smaller : c.localIdentity.peerIdHex < target
      · simp [own, nameless, smaller, bind, Except.bind, pure, Except.pure]
      · simp [own, nameless, smaller, bind, Except.bind, pure, Except.pure]

omit [CaseMapping] in
/-- Once queued, a text stays queued to the end of the call. -/
theorem queued_pending {held : Held} :
    Ends (do
      modify (queueMessage target text)
      if held.session.state = .uninitialized then
        if held.session.role = .initiator then
          openHandshake w target held (sendTo w target .noiseHandshakeInit)
        else sendTo w target .handshakeRequest []
      else return none) c fun _ d => d.pendingMessages ≠ c.pendingMessages := by
  have queued : (c.queueMessage target text).pendingMessages ≠ c.pendingMessages := queueMessage_pending
  rw [ends_modify_bind, ends_ite, ends_ite]
  refine ⟨fun idle => ⟨fun role => ?_, fun _ => ?_⟩, fun _ => queued⟩
  · apply openHandshake_ends idle role
    intro payload session _
    apply (sendTo_silent payload).mono
    rintro _ d rfl
    rw [schedule_pending]
    exact queued
  · apply (sendTo_silent []).mono
    rintro _ d rfl
    exact queued

/-- A call that nothing stops early changes the sessions or the waiting texts. -/
theorem sendDirectMessage_changes (going : ¬ StopsEarly target text c) :
    Ends (sendDirectMessage w target text) c fun _ d =>
      d.sessions ≠ c.sessions ∨ d.pendingMessages ≠ c.pendingMessages := by
  unfold sendDirectMessage
  rw [ends_ite]
  refine ⟨fun long => absurd (.long long) going, fun _ => ends_bind.mpr ?_⟩
  have entered (self : ¬ c.isSelf (strip target) = true) : Ends (getOrCreateSession target) c
      fun result d => (∃ held, result = .ok held ∧ d.pendingMessages = c.pendingMessages ∧
        (held.session.isEstablished = true → d = c ∧ c.sessions.get? target = some held)) := by
    rw [getOrCreateSession, ends_get_bind, ends_ite]
    refine ⟨fun is_self => absurd is_self self, fun _ => ?_⟩
    cases found : c.sessions.get? target with
    | some held => exact ⟨held, rfl, rfl, fun _ => ⟨rfl, rfl⟩⟩
    | none =>
      cases made : NoiseSession.new c.localIdentity target none with
      | error e => exact absurd (.nameless found (new_error_iff.mp ⟨e, made⟩)) going
      | ok session =>
        refine ⟨⟨c.nextSerial, session⟩, rfl, rfl, fun established => ?_⟩
        obtain ⟨role, rfl⟩ := NoiseSession.new_eq_ok made
        cases established
  apply (entered fun self => going (.self self)).mono
  rintro _ d ⟨held, rfl, pending, known⟩
  simp only
  rw [ends_ite]
  constructor
  · intro established
    obtain ⟨rfl, found⟩ := known established
    have state : held.session.state = .established := by simpa [NoiseSession.isEstablished] using established
    obtain ⟨ciphertext, session, sealed, different⟩ :=
      encrypt_counts state fun stuck => going (.stuck held found state stuck)
    have used : onSession target held (NoiseSession.encrypt text) d =
        .ok ciphertext (d.hold target { held with session }) := by simp only [onSession, sealed]
    rw [ends_bind, ends_of_ok used]
    apply (sendTo_silent ciphertext).mono
    rintro _ _ rfl
    refine .inl fun same => different ?_
    have now := congrArg (fun sessions => sessions.get? target) same
    rw [sessions_hold, found] at now
    exact congrArg Held.session (Option.some.inj now)
  · intro _
    apply queued_pending.mono
    intro _ e changed
    exact .inr (pending ▸ changed)

/-- A direct message is refused without effect if and only if something stops the call before the
text is queued or sealed, whatever the target is. -/
theorem refusesWithoutEffect_iff (w : Surroundings) (target : Str) (text : Bytes) (c : SessionCoordinator) :
    RefusesWithoutEffect w target text c ↔ StopsEarly target text c := by
  constructor
  · intro refused
    by_contra going
    obtain ⟨⟨_, sessions, pending, _⟩, changed⟩ := refused.and (sendDirectMessage_changes going)
    exact changed.elim (· sessions) (· pending)
  · intro stops
    unfold RefusesWithoutEffect sendDirectMessage
    rw [ends_ite]
    refine ⟨fun _ => ⟨⟨_, rfl⟩, rfl, rfl, rfl⟩, fun short => ?_⟩
    rw [ends_bind, getOrCreateSession, ends_get_bind, ends_ite]
    refine ⟨fun _ => ⟨⟨_, rfl⟩, rfl, rfl, rfl⟩, fun other => ?_⟩
    cases stops with
    | long long => exact absurd long short
    | self self => exact absurd self other
    | nameless unknown none =>
      obtain ⟨e, raised⟩ := new_error_iff.mpr none
      simp only [unknown, raised]
      exact ⟨⟨_, rfl⟩, rfl, rfl, rfl⟩
    | stuck held found established stuck =>
      obtain ⟨e, raised⟩ := encrypt_stuck established stuck
      have stays : c.hold target { held with session := held.session } = c := by
        rw [hold, InsertionMap.set_self found]
      have used : onSession target held (NoiseSession.encrypt text) c = .error (.crypto e) c := by
        simp only [onSession, raised, stays]
      simp only [found]
      have is_established : held.session.isEstablished = true := by
        simp [NoiseSession.isEstablished, established]
      have ends : Ends (onSession target held (NoiseSession.encrypt text) >>=
          sendTo w target .noiseEncrypted) c fun result d => (∃ e, result = .error e) ∧
            d.sessions = c.sessions ∧ d.pendingMessages = c.pendingMessages ∧
            d.handshakeTimeoutTasks = c.handshakeTimeoutTasks := by
        rw [ends_of_error (bind_error used)]
        exact ⟨⟨_, rfl⟩, rfl, rfl, rfl⟩
      exact (ends_ite.mpr ⟨fun _ => ends, fun idle => absurd is_established idle⟩)

end SessionCoordinator
end Bitchat.App

namespace Bitchat.App.SessionCoordinator
open Crypto Protocol Storage Stateful Str Modular
attribute [local instance] Modular.primitives asciiCase

/-- A coordinator without sessions. -/
def alone : SessionCoordinator := { localIdentity := device 1, contacts := none }

/-- A target that is not hexadecimal gets a session and a queued text before it is refused. -/
theorem not_hexadecimal_queued : fromHex "zz".toList = none ∧
    ¬ RefusesWithoutEffect (steady 3) "zz".toList [] alone := by
  refine ⟨by decide, fun refused => ?_⟩
  have going : ¬ StopsEarly "zz".toList [] alone := by
    rintro (long | self | ⟨_, own | named⟩ | ⟨held, found, _, _⟩)
    · revert long
      decide
    · revert self
      decide +kernel
    · revert own
      decide +kernel
    · cases named
    · cases found
  obtain ⟨⟨_, sessions, pending, _⟩, changed⟩ := refused.and (sendDirectMessage_changes going)
  exact changed.elim (· sessions) (· pending)

end Bitchat.App.SessionCoordinator
