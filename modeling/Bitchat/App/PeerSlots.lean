import Bitchat.App.SessionCoordinator
import Bitchat.Crypto.HonestHandshake
import Bitchat.Crypto.Lifecycle
import Bitchat.Data.Run
import Mathlib.Logic.Relation

/-! What one stretch of a handler does to the tables. It touches one peer only: its session
and its expiry task change by a few moves, after a session was made for it or not. -/
namespace Bitchat.App.SessionCoordinator
open Crypto Protocol Storage Stateful Str

section Frame
variable {peer other : Str} {held : Held} {c d e : SessionCoordinator}

/-- All that is kept for a peer. -/
def slot (peer : Str) (c : SessionCoordinator) : Option Held × Option Nat × Option (List Bytes) :=
  (c.sessions.get? peer, c.handshakeTimeoutTasks.get? peer, c.pendingMessages.get? peer)

/-- Only the slot of one peer differs. -/
def Elsewhere (peer : Str) (c d : SessionCoordinator) : Prop :=
  ∀ other, other ≠ peer → slot other d = slot other c

theorem Elsewhere.refl : Elsewhere peer c c := fun _ _ => rfl

theorem Elsewhere.trans (first : Elsewhere peer c d) (second : Elsewhere peer d e) :
    Elsewhere peer c e := by
  intro other different
  exact (second other different).trans (first other different)

theorem elsewhere_hold : Elsewhere peer c (c.hold peer held) := by
  intro other different
  simp [slot, hold, different]

theorem elsewhere_cancel : Elsewhere peer c (c.cancelHandshakeTimeout peer) := by
  intro other different
  simp [slot, cancelHandshakeTimeout, different]

theorem elsewhere_schedule (serial : Nat) : Elsewhere peer c (c.scheduleHandshakeTimeout peer serial) := by
  intro other different
  unfold scheduleHandshakeTimeout
  split
  · rfl
  · simp [slot, different]

theorem elsewhere_watch : Elsewhere peer c (c.watchHandshake peer held) := by
  unfold watchHandshake
  split
  · apply elsewhere_schedule
  · exact .refl

theorem elsewhere_discard (force : Bool) :
    Elsewhere peer c (c.discardFailedSession peer held force) := by
  intro other different
  unfold discardFailedSession
  split
  · rfl
  · have kept : (if (c.sessions.get? peer).any fun current => current.serial = held.serial
        then c.sessions.erase peer else c.sessions).get? other = c.sessions.get? other := by
      split <;> simp [different]
    exact Prod.ext kept (by simp [slot, cancelHandshakeTimeout, different])

theorem elsewhere_fail : Elsewhere peer c (c.failSession peer held) :=
  elsewhere_hold.trans (elsewhere_discard false)

theorem elsewhere_queue (text : Bytes) : Elsewhere peer c (c.queueMessage peer text) := by
  intro other different
  simp [slot, queueMessage, different]

theorem elsewhere_flush : Elsewhere peer c (c.flushPending peer) := by
  intro other different
  simp [slot, flushPending, different]

/-- A session in the table that has failed is dropped with all that was kept for its peer. -/
theorem slot_discard (found : c.sessions.get? peer = some held) (failed : held.session.state = .failed) :
    slot peer (c.discardFailedSession peer held false) = (none, none, none) := by
  simp [discardFailedSession, failed, slot, found, cancelHandshakeTimeout]

theorem sessions_hold : (c.hold peer held).sessions.get? peer = some held := by simp [hold]

theorem slot_fail : slot peer (c.failSession peer held) = (none, none, none) :=
  slot_discard sessions_hold rfl

end Frame

/-- A fresh session is put in the table under the next serial. -/
def enroll (peer : Str) (session : NoiseSession) (c : SessionCoordinator) : SessionCoordinator :=
  { c.hold peer ⟨c.nextSerial, session⟩ with nextSerial := c.nextSerial + 1 }

theorem sessions_enroll {peer : Str} {session : NoiseSession} {c : SessionCoordinator} :
    (c.enroll peer session).sessions.get? peer = some ⟨c.nextSerial, session⟩ := sessions_hold

section Rules
variable [Primitives] {w : Surroundings} {sender payload : Bytes} {peer : Str} {held : Held}

theorem packetFor_ends {messageType : MessageType} {P} {c : SessionCoordinator}
    (sent : ∀ packet, P (.ok packet) c) (raised : ∀ e, P (.error e) c) :
    Ends (packetFor w messageType sender payload) c P := by
  cases made : BitchatPacket.create messageType c.localIdentity.peerId payload (some sender) w.now with
  | ok packet => exact (ends_of_ok (by simp only [packetFor, made])).mpr (sent packet)
  | error e => exact (ends_of_error (by simp only [packetFor, made])).mpr (raised (.protocol e))

variable {c : SessionCoordinator}
  {P : Except CoordinatorError (Option Output) → SessionCoordinator → Prop}

theorem sendTo_ends {messageType : MessageType}
    (sent : ∀ packet, P (.ok (some (.sent peer packet))) c) (raised : ∀ e, P (.error e) c) :
    Ends (sendTo w peer messageType payload) c P := by
  unfold sendTo
  apply ends_bind.mpr
  cases recipient : recipientOf peer with
  | error e => exact raised e
  | ok id =>
    apply ends_bind.mpr
    exact packetFor_ends sent raised

omit [Primitives] in
theorem onSession_ends {α : Type} {x : EStateM CryptoError NoiseSession α}
    {P : Except CoordinatorError α → SessionCoordinator → Prop}
    (returned : ∀ a session, x held.session = .ok a session →
      P (.ok a) (c.hold peer { held with session }))
    (raised : ∀ e session, x held.session = .error e session →
      P (.error (.crypto e)) (c.hold peer { held with session })) :
    Ends (onSession peer held x) c P := by
  cases result : x held.session with
  | ok a session => exact (ends_of_ok (by simp only [onSession, result])).mpr (returned a session result)
  | error e session =>
    exact (ends_of_error (by simp only [onSession, result])).mpr (raised e session result)

theorem deliverEncrypted_ends
    (delivered : ∀ text session, NoiseSession.decrypt payload held.session = .ok text session →
      P (.ok (some (.received peer text))) (c.hold peer { held with session }))
    (dropped : ∀ e session, NoiseSession.decrypt payload held.session = .error e session →
      P (.ok none) (c.hold peer { held with session })) :
    Ends (deliverEncrypted peer held payload) c P := by
  cases result : NoiseSession.decrypt payload held.session with
  | ok text session =>
    exact (ends_of_ok (by simp only [deliverEncrypted, result])).mpr (delivered text session result)
  | error e session =>
    exact (ends_of_ok (by simp only [deliverEncrypted, result])).mpr (dropped e session result)

/-- The first message of a handshake is written, and its expiry task is armed before it is sent. -/
theorem openHandshake_ends {send : Bytes → Stretch (Option Output)}
    (idle : held.session.state = .uninitialized) (role : held.session.role = .initiator)
    (opened : ∀ payload session, session.state = .handshaking →
      Ends (send payload) ((c.hold peer { held with session }).scheduleHandshakeTimeout peer
        held.serial) P) : Ends (openHandshake w peer held send) c P := by
  have started := (NoiseSession.startHandshake_initiator idle role).mpr ⟨w.ephemeral_size, rfl, rfl⟩
  unfold openHandshake
  apply ends_bind.mpr
  apply onSession_ends
  · intro response session result
    obtain ⟨rfl, rfl⟩ := EStateM.Result.ok.inj (result.symm.trans started)
    exact opened _ _ rfl
  · intro e session result
    cases result.symm.trans started

variable [CaseMapping]

theorem getOrCreateSession_ends {P : Except CoordinatorError Held → SessionCoordinator → Prop}
    (refused : ∀ e, c.isSelf (strip peer) ∨ c.sessions.get? peer = none → P (.error e) c)
    (known : ∀ held, c.sessions.get? peer = some held → P (.ok held) c)
    (fresh : ∀ session, c.sessions.get? peer = none →
      NoiseSession.new c.localIdentity peer none = .ok session →
      P (.ok ⟨c.nextSerial, session⟩) (c.enroll peer session)) :
    Ends (getOrCreateSession peer) c P := by
  rw [getOrCreateSession, ends_get_bind, ends_ite]
  refine ⟨fun self => refused _ (Or.inl self), fun _ => ?_⟩
  cases found : c.sessions.get? peer with
  | some held => exact known held found
  | none =>
    cases created : NoiseSession.new c.localIdentity peer none with
    | error e => exact refused _ (Or.inr found)
    | ok session => exact fresh session found created

omit [Primitives] in
/-- The finishing part: nothing, or the verdict of the contacts. -/
theorem finishHandshake_ends {serial : Nat}
    (idle : (∀ held, c.sessions.get? peer = some held →
      ¬ (held.serial = serial ∧ held.session.isEstablished)) → P (.ok none) c)
    (refused : ∀ held, c.sessions.get? peer = some held → held.serial = serial →
      held.session.isEstablished → (verifyPeer w peer (held.session.remoteFingerprint.getD [])
        c.contacts).1 = false → P (.ok none) ((c.cancelHandshakeTimeout peer).failSession peer held))
    (verified : ∀ held fingerprint contacts, c.sessions.get? peer = some held →
      held.serial = serial → held.session.isEstablished →
      fingerprint = held.session.remoteFingerprint.getD [] →
      verifyPeer w peer fingerprint c.contacts = (true, contacts) →
      P (.ok (some (.completed peer fingerprint)))
        ({ c.cancelHandshakeTimeout peer with contacts }.flushPending peer)) :
    Ends (finishHandshake w peer serial) c P := by
  rw [finishHandshake, ends_get_bind]
  cases found : c.sessions.get? peer with
  | none => exact idle fun held known => by cases found.symm.trans known
  | some held =>
    apply ends_ite.mpr
    constructor
    · rintro ⟨same, established⟩
      rw [onHandshakeEstablished, ends_modify_bind, ends_get_bind]
      cases verdict : verifyPeer w peer (held.session.remoteFingerprint.getD [])
        (c.cancelHandshakeTimeout peer).contacts with
      | mk accepted contacts =>
        simp only [verdict]
        cases accepted with
        | true => exact verified held _ contacts found same established rfl verdict
        | false => exact refused held found same established (congrArg Prod.fst verdict)
    · intro other
      exact idle fun held known => by cases found.symm.trans known; exact other

/-- A handshake message fails the session, is answered, or leads to the finishing part. -/
theorem takeHandshake_ends
    (failed : ∀ session : NoiseSession, session.state = .failed →
      P (.ok none) ((c.hold (hex sender) { held with session }).discardFailedSession (hex sender)
        { held with session } false))
    (taken : ∀ response session,
      NoiseSession.handleMessage w.ephemeral payload held.session = .ok response session →
      Ends (answerHandshake w sender { held with session } response)
        (c.hold (hex sender) { held with session }) P) :
    Ends (takeHandshake w sender payload held) c P := by
  cases result : NoiseSession.processHandshakeMessage w.ephemeral payload held.session with
  | ok response session =>
    have same : takeHandshake w sender payload held c =
        answerHandshake w sender { held with session } response
          (c.hold (hex sender) { held with session }) := by simp only [takeHandshake, result]
    exact (ends_congr same).mpr (taken response session (onError_eq_ok.mp result))
  | error e session =>
    have state : session.state = .failed := by
      obtain ⟨_, _, same⟩ := onError_eq_error.mp result
      rw [same]
    exact (ends_of_ok (by simp only [takeHandshake, result])).mpr (failed session state)

theorem answerHandshake_ends {response : Option Bytes}
    (silent : response = none → Ends (finishHandshake w (hex sender) held.serial)
      (c.watchHandshake (hex sender) held) P)
    (sent : ∀ payload packet, response = some payload →
      P (.ok (some (.sent (hex sender) packet)))
        ((c.watchHandshake (hex sender) held).spawn (.finish (hex sender) held.serial)))
    (raised : ∀ e, response ≠ none → P (.error e) (c.watchHandshake (hex sender) held)) :
    Ends (answerHandshake w sender held response) c P := by
  unfold answerHandshake
  rw [ends_modify_bind]
  cases response with
  | none => exact silent rfl
  | some payload =>
    apply ends_bind.mpr
    exact packetFor_ends (fun packet => sent payload packet rfl) fun e => raised e (by simp)

end Rules

/-- How the session with a peer and its expiry task change together. -/
inductive Moves : Option Held × Option Nat → Option Held × Option Nat → Prop where
  /-- A handshake begins or goes on, and is watched. -/
  | watched {held : Held} {session : NoiseSession} {timer : Option Nat}
      (open' : held.session.state = .uninitialized ∨ held.session.state = .handshaking)
      (going : session.state = .handshaking) :
      Moves (some held, timer) (some { held with session }, some (timer.getD held.serial))
  | ended {held : Held} {session : NoiseSession} {timer : Option Nat}
      (going : held.session.state = .handshaking) (ready : session.state = .established) :
      Moves (some held, timer) (some { held with session }, timer)
  | used {held : Held} {session : NoiseSession} {timer : Option Nat}
      (same : session.state = held.session.state) :
      Moves (some held, timer) (some { held with session }, timer)
  /-- The expiry task ends or is cancelled; it watches no open handshake. -/
  | unwatched {found : Option Held} {timer : Option Nat}
      (free : ∀ held, found = some held → held.isPending → timer ≠ some held.serial) :
      Moves (found, timer) (found, none)
  | dropped {found : Option Held} {timer : Option Nat} : Moves (found, timer) (none, none)

/-- The session with a peer and the serial that its expiry task watches. -/
def guard (peer : Str) (c : SessionCoordinator) : Option Held × Option Nat :=
  (c.sessions.get? peer, c.handshakeTimeoutTasks.get? peer)

/-- A part of a stretch that makes no session. -/
structure Shift (peer : Str) (c d : SessionCoordinator) : Prop where
  elsewhere : Elsewhere peer c d
  serials : d.nextSerial = c.nextSerial
  moves : Relation.ReflTransGen Moves (guard peer c) (guard peer d)

section Shifts
variable {peer : Str} {held : Held} {c d e : SessionCoordinator}

theorem Shift.refl : Shift peer c c := ⟨.refl, rfl, .refl⟩

theorem Shift.trans (first : Shift peer c d) (second : Shift peer d e) : Shift peer c e :=
  ⟨first.elsewhere.trans second.elsewhere, second.serials.trans first.serials,
    first.moves.trans second.moves⟩

theorem shift_of_move (elsewhere : Elsewhere peer c d) (serials : d.nextSerial = c.nextSerial)
    (move : Moves (guard peer c) (guard peer d)) : Shift peer c d := ⟨elsewhere, serials, .single move⟩

theorem shift_of_same (elsewhere : Elsewhere peer c d) (serials : d.nextSerial = c.nextSerial)
    (same : guard peer d = guard peer c) : Shift peer c d := ⟨elsewhere, serials, same ▸ .refl⟩

theorem shift_dropped (elsewhere : Elsewhere peer c d) (serials : d.nextSerial = c.nextSerial)
    (gone : slot peer d = (none, none, none)) : Shift peer c d := by
  simp only [slot, Prod.mk.injEq] at gone
  have empty : guard peer d = (none, none) := by simp [guard, gone]
  exact shift_of_move elsewhere serials (empty ▸ .dropped)

theorem discard_serials (force : Bool) :
    (c.discardFailedSession peer held force).nextSerial = c.nextSerial := by
  unfold discardFailedSession
  split <;> rfl

theorem schedule_serials (serial : Nat) :
    (c.scheduleHandshakeTimeout peer serial).nextSerial = c.nextSerial := by
  unfold scheduleHandshakeTimeout
  split <;> rfl

theorem watch_serials : (c.watchHandshake peer held).nextSerial = c.nextSerial := by
  unfold watchHandshake
  split
  · apply schedule_serials
  · rfl

theorem schedule_sessions (serial : Nat) :
    (c.scheduleHandshakeTimeout peer serial).sessions = c.sessions := by
  unfold scheduleHandshakeTimeout
  split <;> rfl

theorem watch_sessions : (c.watchHandshake peer held).sessions = c.sessions := by
  unfold watchHandshake
  split
  · apply schedule_sessions
  · rfl

theorem guard_hold : guard peer (c.hold peer held) = (some held, c.handshakeTimeoutTasks.get? peer) := by
  simp [guard, hold]

/-- A task that is armed already stays, else one is armed for this session. -/
theorem guard_schedule (serial : Nat) : guard peer (c.scheduleHandshakeTimeout peer serial) =
    (c.sessions.get? peer, some ((c.handshakeTimeoutTasks.get? peer).getD serial)) := by
  unfold scheduleHandshakeTimeout
  cases armed : c.handshakeTimeoutTasks.get? peer <;> simp [guard, InsertionMap.contains, armed]

theorem shift_fail : Shift peer c (c.failSession peer held) :=
  shift_dropped elsewhere_fail (discard_serials false) slot_fail

/-- A session that takes a handshake message is put back and watched while its handshake is open. -/
theorem shift_taken {session : NoiseSession} (found : c.sessions.get? peer = some held)
    (taken : (held.session.state = .uninitialized ∧ session.state = .handshaking) ∨
      (held.session.state = .handshaking ∧
        (session.state = .handshaking ∨ session.state = .established))) :
    Shift peer c ((c.hold peer { held with session }).watchHandshake peer { held with session }) := by
  have before : guard peer c = (some held, c.handshakeTimeoutTasks.get? peer) := by simp [guard, found]
  have watched (open' : held.session.state = .uninitialized ∨ held.session.state = .handshaking)
      (going : session.state = .handshaking) : Moves (guard peer c)
        (guard peer ((c.hold peer { held with session }).watchHandshake peer { held with session })) := by
    have pending : Held.isPending { held with session } := by simp [Held.isPending, going]
    rw [before, watchHandshake, if_pos pending, guard_schedule]
    simp only [sessions_hold]
    exact .watched open' going
  apply shift_of_move (elsewhere_hold.trans elsewhere_watch) watch_serials
  rcases taken with ⟨idle, going⟩ | ⟨going, again | ready⟩
  · exact watched (.inl idle) going
  · exact watched (.inr going) again
  · have closed : ¬ Held.isPending { held with session } := by simp [Held.isPending, ready]
    rw [before, watchHandshake, if_neg closed, guard_hold]
    exact .ended going ready

theorem shift_opened {session : NoiseSession} (found : c.sessions.get? peer = some held)
    (idle : held.session.state = .uninitialized) (going : session.state = .handshaking) :
    Shift peer c ((c.hold peer { held with session }).scheduleHandshakeTimeout peer held.serial) := by
  have shift := shift_taken found (.inl ⟨idle, going⟩)
  have pending : Held.isPending { held with session } := by simp [Held.isPending, going]
  rwa [watchHandshake, if_pos pending] at shift

theorem shift_used {session : NoiseSession} (found : c.sessions.get? peer = some held)
    (same : session.state = held.session.state) : Shift peer c (c.hold peer { held with session }) := by
  apply shift_of_move elsewhere_hold rfl
  rw [guard_hold, guard, found]
  exact .used same

/-- A cancelled expiry task watched no open handshake: the session is established. -/
theorem shift_cancel (found : c.sessions.get? peer = some held)
    (established : held.session.isEstablished) : Shift peer c (c.cancelHandshakeTimeout peer) := by
  apply shift_of_move elsewhere_cancel rfl
  have after : guard peer (c.cancelHandshakeTimeout peer) = (c.sessions.get? peer, none) := by
    simp [guard, cancelHandshakeTimeout]
  rw [after]
  apply Moves.unwatched
  intro other same pending
  cases found.symm.trans same
  simp only [NoiseSession.isEstablished, decide_eq_true_eq] at established
  simp [Held.isPending, established] at pending

end Shifts
end Bitchat.App.SessionCoordinator
