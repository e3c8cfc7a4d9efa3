import Bitchat.App.EstablishedSessions
import Bitchat.Crypto.PeerBinding
import Bitchat.Storage.Config

/-! Trust on first use. A session can be used as soon as its handshake is over, while the contact is
checked where the handler goes on after its answer was sent, and a storage that raises is passed
over. -/
namespace Bitchat.App
open Crypto Protocol Storage Stateful Str

/-- `remote_fingerprint or ""`. -/
def Held.fingerprint (held : Held) : Str := held.session.remoteFingerprint.getD []

namespace SessionCoordinator

def Event.surroundings : Event → Option Surroundings
  | .message w _ _ | .packet w _ | .resumed w _ => some w
  | _ => none

section Definitions
variable [Primitives] [CaseMapping]

/-- What the stretch of an event returns or raises. -/
def reply (event : Event) (c : SessionCoordinator) : Except CoordinatorError (Option Output) :=
  match event with
  | .message w peer text => (outcome (sendDirectMessage w peer text) c).1
  | .packet w packet => (outcome (processPacket w packet) c).1
  | .resumed w task =>
    (outcome (resume w task) { c with backgroundTasks := c.backgroundTasks.erase task }).1
  | _ => .ok none

/-- The event ends the handshake of a session, and its contact is checked: a message that needs no
answer completes it, or the handler goes on after its answer. -/
def Finishes (c : SessionCoordinator) (held : Held) : Event → Prop
  | .resumed _ (.finish peer serial) =>
    c.sessions.get? peer = some held ∧ held.serial = serial ∧ held.session.isEstablished
  | .packet w packet =>
    ¬ c.isSelf (hex packet.senderId) ∧
    (packet.messageType = .noiseHandshakeInit ∧ ¬ c.refusesHandshake (hex packet.senderId) ∨
      packet.messageType = .noiseHandshakeResp) ∧
    ∃ session, c.sessions.get? (hex packet.senderId) = some ⟨held.serial, session⟩ ∧
      NoiseSession.handleMessage w.ephemeral packet.payload session = .ok none held.session ∧
      held.session.isEstablished
  | _ => False

/-- A text is encrypted with the session of a peer. -/
def Encrypts (c : SessionCoordinator) (peer : Str) (text : Bytes) (held : Held) : Prop :=
  text.length ≤ maxMessageSize ∧ ¬ c.isSelf (strip peer) ∧ c.sessions.get? peer = some held ∧
    held.session.isEstablished ∧
    ∃ ciphertext session, NoiseSession.encrypt text held.session = .ok ciphertext session

/-- A text is decrypted with the session of a peer, and delivered. -/
def Decrypts (c : SessionCoordinator) (peer : Str) (payload : Bytes) (held : Held) : Prop :=
  c.sessions.get? peer = some held ∧ held.session.isEstablished ∧
    ∃ text session, NoiseSession.decrypt payload held.session = .ok text session

/-- A text is encrypted or delivered. -/
def Uses (c : SessionCoordinator) (peer : Str) (held : Held) : Event → Prop
  | .message _ target text | .resumed _ (.send target text) => peer = target ∧ Encrypts c target text held
  | .packet _ packet => peer = hex packet.senderId ∧ ¬ c.isSelf (hex packet.senderId) ∧
    packet.messageType = .noiseEncrypted ∧ Decrypts c (hex packet.senderId) packet.payload held
  | .resumed _ (.receive target serial payload) => peer = target ∧ held.serial = serial ∧
    Decrypts c target payload held
  | _ => False

/-- `verify_contact` is called, and returns true. -/
def verifies (w : Surroundings) (peer fingerprint : Str) (contacts : Option Contacts) : Bool :=
  fingerprint ≠ [] ∧ w.loadRaises = false ∧
    contacts.any fun known => (known.verifyContact peer fingerprint).1

/-- The contact that the storage has for a peer is this fingerprint, as `verify_contact` compares them. -/
def Recorded (contacts : Option Contacts) (peer fingerprint : Str) : Prop :=
  ∃ known, contacts = some known ∧ ∃ stored, known.get? (Contacts.cleaned peer) = some stored ∧
    (stored = Contacts.cleaned fingerprint ∨ CaseMapping.lower stored = Contacts.cleaned fingerprint)

end Definitions

/-- A coordinator with what has happened to its contacts: the peers and fingerprints for which
`verify_contact` returned true, and the sessions whose completion was reported. -/
structure Audited where
  coordinator : SessionCoordinator
  verified : List (Str × Str) := []
  finished : List (Str × Nat) := []

namespace Audited
variable [Primitives] [CaseMapping]

def start (localIdentity : LocalIdentity) (contacts : Contacts) : Audited where
  coordinator := .start localIdentity (some contacts)

def perform (event : Event) (s : Audited) : Audited :=
  let next := s.coordinator.perform event
  match reply event s.coordinator with
  | .ok (some (.completed peer fingerprint)) =>
    { coordinator := next
      verified := if event.surroundings.any fun w => verifies w peer fingerprint s.coordinator.contacts
        then s.verified ++ [(peer, fingerprint)] else s.verified
      finished := match next.sessions.get? peer with
        | none => s.finished
        | some held => s.finished ++ [(peer, held.serial)] }
  | _ => { s with coordinator := next }

def Step (s : Audited) (event : Event) (t : Audited) : Prop :=
  event.Possible s.coordinator ∧ t = s.perform event

/-- The contact was verified and is recorded. -/
def Trusted (s : Audited) (peer fingerprint : Str) : Prop :=
  (peer, fingerprint) ∈ s.verified ∧ Recorded s.coordinator.contacts peer fingerprint

/-- No text is encrypted or delivered and no handshake is reported complete without trust. -/
def FailsClosed (s : Audited) (event : Event) (t : Audited) : Prop :=
  (∀ peer held, Uses s.coordinator peer held event → Trusted t peer held.fingerprint) ∧
  ∀ peer fingerprint, reply event s.coordinator = .ok (some (.completed peer fingerprint)) →
    Trusted t peer fingerprint

/-- A session is not used before its contact is checked, the check has a fingerprint and loads the
contacts, and they are saved if the contact is new; otherwise there is trust already. -/
def Guarded (s : Audited) (event : Event) : Prop :=
  (∀ peer held, Uses s.coordinator peer held event → (peer, held.serial) ∉ s.finished →
    Trusted s peer held.fingerprint) ∧
  ∀ w held, event.surroundings = some w → Finishes s.coordinator held event →
    (held.fingerprint = [] ∨ w.loadRaises = true → Trusted s event.about held.fingerprint) ∧
    (held.fingerprint ≠ [] → w.loadRaises = false → w.saveRaises = true →
      ∃ known, s.coordinator.contacts = some known ∧ known.contains (Contacts.cleaned event.about))

end Audited

/-- What a stretch does about the contact of a peer, when `finishing` are the sessions whose
handshake it ends. -/
inductive Gate [CaseMapping] (w : Surroundings) (peer : Str) (finishing : Held → Prop)
    (c : SessionCoordinator) : Except CoordinatorError (Option Output) → SessionCoordinator → Prop where
  | passed {result d} (none : ∀ held, ¬ finishing held) (contacts : d.contacts = c.contacts)
      (quiet : ∀ p f, result ≠ .ok (some (.completed p f))) : Gate w peer finishing c result d
  | refused {held d} (found : finishing held) (only : ∀ other, finishing other → other = held)
      (verdict : (verifyPeer w peer held.fingerprint c.contacts).1 = false)
      (contacts : d.contacts = c.contacts) (gone : d.sessions.get? peer = none) :
      Gate w peer finishing c (.ok none) d
  | completed {held d} (found : finishing held) (only : ∀ other, finishing other → other = held)
      (verdict : verifyPeer w peer held.fingerprint c.contacts = (true, d.contacts))
      (stays : d.sessions.get? peer = some held) :
      Gate w peer finishing c (.ok (some (.completed peer held.fingerprint))) d

/-- A session that is established keeps its fingerprint while it is in the table. -/
def Keyed (peer : Str) (c d : SessionCoordinator) : Prop :=
  ∀ held held', c.sessions.get? peer = some held → held.session.state = .established →
    d.sessions.get? peer = some held' → held'.fingerprint = held.fingerprint

/-- A stretch that ends no handshake. -/
structure Quiet (peer : Str) (c : SessionCoordinator) (result : Except CoordinatorError (Option Output))
    (d : SessionCoordinator) : Prop where
  contacts : d.contacts = c.contacts
  quiet : ∀ p f, result ≠ .ok (some (.completed p f))
  keyed : Keyed peer c d

section Handlers
variable [Primitives] [CaseMapping] {w : Surroundings} {sender payload : Bytes} {peer : Str} {held : Held}
  {c : SessionCoordinator}

omit [Primitives] [CaseMapping] in
theorem watch_contacts : (c.watchHandshake peer held).contacts = c.contacts := by
  unfold watchHandshake scheduleHandshakeTimeout
  split
  · split
    · rfl
    · rfl
  · rfl

omit [Primitives] in
theorem finishHandshake_gate (serial : Nat) :
    Ends (finishHandshake w peer serial) c (Gate w peer (fun held =>
      c.sessions.get? peer = some held ∧ held.serial = serial ∧ held.session.isEstablished) c) := by
  apply finishHandshake_ends
  · intro other
    exact .passed (fun held ⟨found, same⟩ => other held found same) rfl (by simp)
  · intro held found same established verdict
    refine .refused ⟨found, same, established⟩ ?_ verdict ?_ ?_
    · rintro other ⟨known, -⟩
      exact Option.some.inj (known.symm.trans found)
    · simp [failSession, discardFailedSession, hold, cancelHandshakeTimeout]
    · exact congrArg Prod.fst slot_fail
  · rintro held _ contacts found same established rfl verdict
    refine .completed ⟨found, same, established⟩ ?_ verdict found
    rintro other ⟨known, -⟩
    exact Option.some.inj (known.symm.trans found)

omit [Primitives] in
theorem Gate.congr {f g : Held → Prop} {d : SessionCoordinator} {result} (gate : Gate w peer f c result d)
    {e : SessionCoordinator} (contacts : c.contacts = e.contacts) (same : ∀ held, g held ↔ f held) :
    Gate w peer g e result d := by
  cases gate with
  | passed none kept quiet =>
    exact .passed (fun held found => none held ((same held).mp found)) (kept.trans contacts) quiet
  | @refused held _ found only verdict kept gone =>
    rw [contacts] at verdict kept
    exact .refused ((same held).mpr found) (fun other known => only other ((same other).mp known)) verdict
      kept gone
  | @completed held _ found only verdict stays =>
    rw [contacts] at verdict
    exact .completed ((same held).mpr found) (fun other known => only other ((same other).mp known)) verdict
      stays

/-- The session in the table takes a handshake message, which completes its handshake when no answer
is due and the session is established. -/
theorem takeHandshake_gate (found : c.sessions.get? (hex sender) = some held) :
    Ends (takeHandshake w sender payload held) c (Gate w (hex sender) (fun other =>
      ∃ session, c.sessions.get? (hex sender) = some ⟨other.serial, session⟩ ∧
        NoiseSession.handleMessage w.ephemeral payload session = .ok none other.session ∧
        other.session.isEstablished) c) := by
  have completing (other : Held) : (∃ session, c.sessions.get? (hex sender) = some ⟨other.serial, session⟩ ∧
      NoiseSession.handleMessage w.ephemeral payload session = .ok none other.session ∧
      other.session.isEstablished) ↔ other.serial = held.serial ∧
      NoiseSession.handleMessage w.ephemeral payload held.session = .ok none other.session ∧
      other.session.isEstablished := by
    constructor
    · rintro ⟨session, known, completed, established⟩
      obtain rfl := Option.some.inj (known.symm.trans found)
      exact ⟨rfl, completed, established⟩
    · rintro ⟨serial, completed, established⟩
      exact ⟨held.session, serial ▸ found, completed, established⟩
  simp only [completing]
  cases result : NoiseSession.processHandshakeMessage w.ephemeral payload held.session with
  | error e session =>
    have dropped : takeHandshake w sender payload held c = .ok none
        ((c.hold (hex sender) { held with session }).discardFailedSession (hex sender)
          { held with session } false) := by simp only [takeHandshake, result]
    apply (ends_of_ok dropped).mpr
    refine .passed (fun other ends' => ?_) ?_ (by simp)
    · have returned : NoiseSession.processHandshakeMessage w.ephemeral payload held.session =
        .ok none other.session := onError_eq_ok.mpr ends'.2.1
      cases result.symm.trans returned
    · unfold discardFailedSession
      split
      · rfl
      · rfl
  | ok response session =>
    have taken := onError_eq_ok.mp result
    have same : takeHandshake w sender payload held c = answerHandshake w sender { held with session }
        response (c.hold (hex sender) { held with session }) := by simp only [takeHandshake, result]
    have unanswered (other : Held) (answered : response ≠ none) : ¬ (other.serial = held.serial ∧
        NoiseSession.handleMessage w.ephemeral payload held.session = .ok none other.session ∧
        other.session.isEstablished) := by
      rintro ⟨-, completed, -⟩
      exact answered (EStateM.Result.ok.inj (taken.symm.trans completed)).1
    rw [ends_congr same]
    apply answerHandshake_ends
    · rintro rfl
      apply (finishHandshake_gate held.serial).mono
      intro result d gate
      refine gate.congr watch_contacts fun other => ?_
      rw [watch_sessions, sessions_hold, taken]
      constructor
      · rintro ⟨serial, completed, established⟩
        obtain ⟨_, rfl⟩ := EStateM.Result.ok.inj completed
        exact ⟨congrArg (fun number => some (Held.mk number other.session)) serial.symm, serial, established⟩
      · rintro ⟨known, serial, established⟩
        obtain rfl := Option.some.inj known
        exact ⟨serial, rfl, established⟩
    · intro answer packet sent
      exact .passed (fun other => unanswered other (by simp [sent])) watch_contacts (by simp)
    · intro e answered
      exact .passed (fun other => unanswered other answered) watch_contacts (by simp)

omit [Primitives] [CaseMapping] in
theorem keyed_of_same {d : SessionCoordinator} (same : d.sessions.get? peer = c.sessions.get? peer) :
    Keyed peer c d := by
  intro held held' found _ after
  rw [same, found] at after
  cases after
  rfl

omit [Primitives] [CaseMapping] in
theorem keyed_of_open {d : SessionCoordinator}
    (open' : ∀ held, c.sessions.get? peer = some held → held.session.state ≠ .established) :
    Keyed peer c d := fun held _ found established _ => absurd established (open' held found)

omit [Primitives] [CaseMapping] in
theorem keyed_of_used {d : SessionCoordinator} {session : NoiseSession}
    (found : c.sessions.get? peer = some held) (after : d.sessions.get? peer = some { held with session })
    (same : session.remoteFingerprint = held.session.remoteFingerprint) : Keyed peer c d := by
  intro earlier later known _ left
  obtain rfl := Option.some.inj (known.symm.trans found)
  obtain rfl := Option.some.inj (left.symm.trans after)
  exact congrArg (fun text : Option Str => text.getD []) same

omit [Primitives] [CaseMapping] in
theorem quiet_none {d : SessionCoordinator} (contacts : d.contacts = c.contacts) (keyed : Keyed peer c d) :
    Quiet peer c (.ok none) d := ⟨contacts, by simp, keyed⟩

omit [Primitives] [CaseMapping] in
theorem quiet_error (e : CoordinatorError) : Quiet peer c (.error e) c :=
  ⟨rfl, by simp, keyed_of_same rfl⟩

theorem getOrCreate_quiet {next : Held → Stretch (Option Output)}
    (rest : ∀ held e, e.contacts = c.contacts → e.sessions.get? peer = some held →
      (∀ earlier, c.sessions.get? peer = some earlier → earlier = held) →
      Ends (next held) e (Quiet peer c)) :
    Ends (getOrCreateSession peer >>= next) c (Quiet peer c) := by
  apply ends_bind.mpr
  apply getOrCreateSession_ends
  · exact fun _ _ => ⟨rfl, by simp, keyed_of_same rfl⟩
  · intro held found
    exact rest held c rfl found fun earlier known => Option.some.inj (known.symm.trans found)
  · intro session unknown made
    refine rest _ _ rfl sessions_enroll fun earlier known => ?_
    cases unknown.symm.trans known

omit [CaseMapping] in
theorem openHandshake_quiet {send : Bytes → Stretch (Option Output)} {e : SessionCoordinator}
    (idle : held.session.state = .uninitialized) (role : held.session.role = .initiator)
    (contacts : e.contacts = c.contacts)
    (only : ∀ earlier, c.sessions.get? peer = some earlier → earlier = held)
    (sends : ∀ payload f, Ends (send payload) f fun r d => d = f ∧ ∀ p g, r ≠ .ok (some (.completed p g))) :
    Ends (openHandshake w peer held send) e (Quiet peer c) := by
  apply openHandshake_ends idle role
  intro payload session _
  apply (sends payload _).mono
  rintro result d ⟨rfl, quiet⟩
  refine ⟨?_, quiet, keyed_of_open fun earlier known => ?_⟩
  · unfold scheduleHandshakeTimeout
    split
    · exact contacts
    · exact contacts
  · rw [only earlier known, idle]
    decide

omit [CaseMapping] in
theorem sendTo_quiet {messageType : MessageType} (payload : Bytes) :
    Ends (sendTo w peer messageType payload) c fun r d =>
      d = c ∧ ∀ p f, r ≠ .ok (some (.completed p f)) :=
  sendTo_ends (fun _ => ⟨rfl, by simp⟩) fun _ => ⟨rfl, by simp⟩

theorem sendDirectMessage_quiet (text : Bytes) :
    Ends (sendDirectMessage w peer text) c (Quiet peer c) := by
  unfold sendDirectMessage
  rw [ends_ite]
  refine ⟨fun _ => quiet_error _, fun _ => ?_⟩
  apply getOrCreate_quiet
  intro held e contacts found only
  rw [ends_ite]
  constructor
  · intro established
    have keeps : Keeps NoiseSession.remoteFingerprint (NoiseSession.encrypt text) :=
      NoiseSession.encrypt_keeps (fun _ _ => rfl) text
    have used {session : NoiseSession} (same : session.remoteFingerprint = held.session.remoteFingerprint) :
        Keyed peer c (e.hold peer { held with session }) := by
      intro earlier later known ready after
      obtain rfl := only earlier known
      exact keyed_of_used found sessions_hold same earlier later found ready after
    apply ends_bind.mpr
    apply onSession_ends
    · intro ciphertext session returned
      apply (sendTo_quiet ciphertext).mono
      rintro result d ⟨rfl, quiet⟩
      exact ⟨contacts, quiet, used (keeps.ok returned)⟩
    · intro _ session raised
      exact ⟨contacts, by simp, used (keeps.error raised)⟩
  · intro unready
    have open' : ∀ earlier, c.sessions.get? peer = some earlier → earlier.session.state ≠ .established := by
      intro earlier known
      obtain rfl := only earlier known
      simpa [NoiseSession.isEstablished] using unready
    rw [ends_modify_bind, ends_ite, ends_ite]
    refine ⟨fun idle => ⟨fun role => ?_, fun _ => ?_⟩, fun _ => quiet_none contacts (keyed_of_open open')⟩
    · apply openHandshake_quiet (c := c) (e := e.queueMessage peer text) idle role contacts only
      exact fun payload _ => sendTo_quiet payload
    · apply (sendTo_quiet []).mono
      rintro result d ⟨rfl, quiet⟩
      exact ⟨contacts, quiet, keyed_of_open open'⟩

theorem handleHandshakeRequest_quiet :
    Ends (handleHandshakeRequest w sender) c (Quiet (hex sender) c) := by
  rw [handleHandshakeRequest, ends_get_bind, ends_ite]
  refine ⟨fun _ => quiet_none rfl (keyed_of_same rfl), fun _ => ?_⟩
  apply getOrCreate_quiet
  intro held e contacts found only
  rw [ends_ite]
  constructor
  · rintro ⟨role, idle⟩
    apply openHandshake_quiet idle role contacts only
    intro payload f
    apply ends_bind.mpr
    apply packetFor_ends
    · exact fun _ => ⟨rfl, fun _ _ completed => by cases completed⟩
    · exact fun _ => ⟨rfl, by simp⟩
  · intro _
    refine quiet_none contacts fun earlier later known _ after => ?_
    obtain rfl := only earlier known
    obtain rfl := Option.some.inj (found.symm.trans after)
    rfl

omit [CaseMapping] in
theorem deliverEncrypted_quiet (found : c.sessions.get? peer = some held) :
    Ends (deliverEncrypted peer held payload) c (Quiet peer c) := by
  have keeps : Keeps NoiseSession.remoteFingerprint (NoiseSession.decrypt payload) :=
    NoiseSession.decrypt_keeps (fun _ _ => rfl) payload
  apply deliverEncrypted_ends
  · intro text session delivered
    exact ⟨rfl, by simp, keyed_of_used found sessions_hold (keeps.ok delivered)⟩
  · intro e session dropped
    exact ⟨rfl, by simp, keyed_of_used found sessions_hold (keeps.error dropped)⟩

omit [CaseMapping] in
theorem handleEncrypted_quiet : Ends (handleEncrypted sender payload) c (Quiet (hex sender) c) := by
  rw [handleEncrypted, ends_get_bind]
  cases found : c.sessions.get? (hex sender) with
  | none => exact quiet_none rfl (keyed_of_same rfl)
  | some held =>
    apply ends_ite.mpr
    exact ⟨fun _ => deliverEncrypted_quiet found, fun _ => quiet_none rfl (keyed_of_same rfl)⟩

omit [CaseMapping] in
theorem receiveLater_quiet (serial : Nat) :
    Ends (receiveLater peer serial payload) c (Quiet peer c) := by
  rw [receiveLater, ends_get_bind]
  cases found : c.sessions.get? peer with
  | none => exact quiet_none rfl (keyed_of_same rfl)
  | some held =>
    apply ends_ite.mpr
    exact ⟨fun _ => deliverEncrypted_quiet found, fun _ => quiet_none rfl (keyed_of_same rfl)⟩

theorem takeHandshake_keyed (found : c.sessions.get? (hex sender) = some held) :
    Ends (takeHandshake w sender payload held) c fun _ d => Keyed (hex sender) c d := by
  by_cases established : held.session.state = .established
  · apply (takeHandshake_established established).mono
    intro _ d gone earlier later _ _ after
    cases (congrArg Prod.fst gone).symm.trans after
  · have open' : ∀ earlier, c.sessions.get? (hex sender) = some earlier →
        earlier.session.state ≠ .established := by
      intro earlier known
      obtain rfl := Option.some.inj (known.symm.trans found)
      exact established
    exact keyed_of_open open'

omit [Primitives] in
theorem Quiet.gate {finishing : Held → Prop} {d : SessionCoordinator} {result}
    (quiet : Quiet peer c result d) (none : ∀ held, ¬ finishing held) :
    Gate w peer finishing c result d ∧ Keyed peer c d :=
  ⟨.passed none quiet.contacts quiet.quiet, quiet.keyed⟩

/-- A first message for a fresh session completes nothing. -/
theorem takeHandshake_fresh {session : NoiseSession} (unknown : c.sessions.get? (hex sender) = none)
    (idle : session.state = .uninitialized) :
    Ends (takeHandshake w sender payload ⟨c.nextSerial, session⟩) (c.enroll (hex sender) session)
      (Quiet (hex sender) c) := by
  apply (takeHandshake_gate sessions_enroll).mono
  intro result d gate
  have open' (other : Held) : ¬ ∃ first,
      (c.enroll (hex sender) session).sessions.get? (hex sender) = some ⟨other.serial, first⟩ ∧
      NoiseSession.handleMessage w.ephemeral payload first = .ok none other.session ∧
      other.session.isEstablished := by
    rintro ⟨first, known, completed, established⟩
    obtain ⟨-, rfl⟩ := Held.mk.inj (Option.some.inj (known.symm.trans sessions_enroll))
    rcases NoiseSession.handleMessage_state completed with ⟨_, going⟩ | ⟨going, _⟩
    · simp [NoiseSession.isEstablished, going] at established
    · cases idle.symm.trans going
  cases gate with
  | passed none contacts quiet =>
    refine ⟨contacts, quiet, keyed_of_open fun held known => ?_⟩
    cases unknown.symm.trans known
  | refused found => exact absurd found (open' _)
  | completed found => exact absurd found (open' _)

theorem handleHandshakeInit_gate (notSelf : ¬ c.isSelf (hex sender)) :
    Ends (handleHandshakeInit w sender payload) c fun r d =>
      Gate w (hex sender) (fun other => ¬ c.refusesHandshake (hex sender) ∧
        ∃ session, c.sessions.get? (hex sender) = some ⟨other.serial, session⟩ ∧
          NoiseSession.handleMessage w.ephemeral payload session = .ok none other.session ∧
          other.session.isEstablished) c r d ∧ Keyed (hex sender) c d := by
  rw [handleHandshakeInit, ends_get_bind, ends_ite]
  refine ⟨fun refuses => ?_, fun accepts => ?_⟩
  · exact (quiet_none rfl (keyed_of_same rfl)).gate fun other ends' => ends'.1 refuses
  · apply ends_bind.mpr
    apply getOrCreateSession_ends
    · rintro e refused
      apply (quiet_error e).gate
      rintro other ⟨-, session, known, -⟩
      rcases refused with self | unknown
      · rw [strip_hex] at self
        exact notSelf self
      · cases unknown.symm.trans known
    · intro held found
      have keyed : Ends (takeHandshake w sender payload held) c fun _ d => Keyed (hex sender) c d :=
        takeHandshake_keyed found
      apply (Ends.and (takeHandshake_gate found) keyed).mono
      rintro result d ⟨gate, kept⟩
      exact ⟨gate.congr rfl fun other => and_iff_right accepts, kept⟩
    · intro session unknown made
      have idle : session.state = .uninitialized := by
        obtain ⟨_, rfl⟩ := NoiseSession.new_eq_ok made
        rfl
      apply (takeHandshake_fresh unknown idle).mono
      intro result d quiet
      apply quiet.gate
      rintro other ⟨-, first, known, -⟩
      cases unknown.symm.trans known

theorem handleHandshakeResp_gate :
    Ends (handleHandshakeResp w sender payload) c fun r d =>
      Gate w (hex sender) (fun other =>
        ∃ session, c.sessions.get? (hex sender) = some ⟨other.serial, session⟩ ∧
          NoiseSession.handleMessage w.ephemeral payload session = .ok none other.session ∧
          other.session.isEstablished) c r d ∧ Keyed (hex sender) c d := by
  rw [handleHandshakeResp, ends_get_bind]
  cases found : c.sessions.get? (hex sender) with
  | none =>
    apply (quiet_none rfl (keyed_of_same rfl)).gate
    rintro other ⟨_, known, _⟩
    cases known
  | some held =>
    have keyed : Ends (takeHandshake w sender payload held) c fun _ d => Keyed (hex sender) c d :=
      takeHandshake_keyed found
    apply (Ends.and (takeHandshake_gate found) keyed).mono
    rintro result d ⟨gate, kept⟩
    exact ⟨gate.congr rfl fun other => by rw [found], kept⟩

theorem processPacket_gate (packet : BitchatPacket) :
    Ends (processPacket w packet) c fun r d =>
      Gate w (hex packet.senderId) (fun held => Finishes c held (.packet w packet)) c r d ∧
        Keyed (hex packet.senderId) c d := by
  rw [processPacket, ends_get_bind, ends_ite]
  refine ⟨fun self => ?_, fun notSelf => ?_⟩
  · exact (quiet_none rfl (keyed_of_same rfl)).gate fun held ends' => ends'.1 self
  · have gated {h : Stretch (Option Output)} (quiet : Ends h c (Quiet (hex packet.senderId) c))
        (init : packet.messageType ≠ .noiseHandshakeInit) (resp : packet.messageType ≠ .noiseHandshakeResp) :
        Ends h c fun r d =>
          Gate w (hex packet.senderId) (fun held => Finishes c held (.packet w packet)) c r d ∧
            Keyed (hex packet.senderId) c d := by
      apply quiet.mono
      intro result d quiet
      refine quiet.gate fun held ends' => ?_
      rcases ends'.2.1 with ⟨kind, _⟩ | kind
      · exact init kind
      · exact resp kind
    cases kind : packet.messageType with
    | handshakeRequest => exact gated handleHandshakeRequest_quiet (by simp [kind]) (by simp [kind])
    | noiseEncrypted => exact gated handleEncrypted_quiet (by simp [kind]) (by simp [kind])
    | noiseHandshakeInit =>
      apply (handleHandshakeInit_gate notSelf).mono
      rintro result d ⟨gate, keyed⟩
      exact ⟨gate.congr rfl fun other => by simp [Finishes, notSelf, kind], keyed⟩
    | noiseHandshakeResp =>
      apply handleHandshakeResp_gate.mono
      rintro result d ⟨gate, keyed⟩
      exact ⟨gate.congr rfl fun other => by simp [Finishes, notSelf, kind], keyed⟩
    | _ =>
      refine gated (h := pure none) ?_ (by simp [kind]) (by simp [kind])
      exact quiet_none rfl (keyed_of_same rfl)

theorem resume_gate (task : Task) {e : SessionCoordinator}
    (same : e = { c with backgroundTasks := c.backgroundTasks.erase task }) :
    Ends (resume w task) e fun r d =>
      Gate w task.about (fun held => Finishes c held (.resumed w task)) c r d ∧ Keyed task.about c d := by
  have sessions : e.sessions = c.sessions := by rw [same]
  have contacts : e.contacts = c.contacts := by rw [same]
  have moved {peer : Str} {d : SessionCoordinator} (keyed : Keyed peer e d) : Keyed peer c d := by
    intro held held' found
    rw [← sessions] at found
    exact keyed held held' found
  have gated {peer : Str} {h : Stretch (Option Output)} (quiet : Ends h e (Quiet peer e))
      (other : ∀ held, ¬ Finishes c held (.resumed w task)) : Ends h e fun r d =>
        Gate w peer (fun held => Finishes c held (.resumed w task)) c r d ∧ Keyed peer c d := by
    apply quiet.mono
    intro result d quiet
    obtain ⟨gate, keyed⟩ := quiet.gate (w := w) other
    exact ⟨gate.congr contacts fun _ => Iff.rfl, moved keyed⟩
  cases task with
  | send peer text => exact gated (sendDirectMessage_quiet text) fun _ => id
  | receive peer serial payload => exact gated (receiveLater_quiet serial) fun _ => id
  | finish peer serial =>
    have kept : Ends (finishHandshake w peer serial) e fun _ d => Keyed peer e d := by
      apply finishHandshake_ends
      · exact fun _ => keyed_of_same rfl
      · intro held _ _ _ _ earlier later _ _ after
        cases (congrArg Prod.fst slot_fail).symm.trans after
      · exact fun _ _ _ _ _ _ _ _ => keyed_of_same rfl
    apply (Ends.and (finishHandshake_gate serial) kept).mono
    rintro result d ⟨gate, keyed⟩
    refine ⟨gate.congr contacts fun held => ?_, moved keyed⟩
    rw [sessions]
    rfl

omit [Primitives] [CaseMapping] in
/-- An expiry task spares an established session. -/
theorem expireHandshake_spares (found : c.sessions.get? peer = some held)
    (established : held.session.state = .established) :
    (c.expireHandshake peer).sessions = c.sessions := by
  unfold expireHandshake
  split
  · rfl
  · simp [found, Held.isPending, established, cancelHandshakeTimeout]

/-- The gate of an event, for events that have none as for the others. -/
theorem event_gate (event : Event) (c : SessionCoordinator) :
    ((∃ w, event.surroundings = some w ∧ Gate w event.about (fun held => Finishes c held event) c
        (reply event c) (perform event c)) ∨
      (∀ held, ¬ Finishes c held event) ∧ (perform event c).contacts = c.contacts ∧
        reply event c = .ok none) ∧
    Keyed event.about c (perform event c) := by
  cases event with
  | message w peer text =>
    have quiet : Ends (sendDirectMessage w peer text) c (Quiet peer c) := sendDirectMessage_quiet text
    exact ⟨.inl ⟨w, rfl, .passed (fun _ => id) quiet.contacts quiet.quiet⟩, quiet.keyed⟩
  | packet w packet =>
    obtain ⟨gate, keyed⟩ := processPacket_gate (w := w) (c := c) packet
    exact ⟨.inl ⟨w, rfl, gate⟩, keyed⟩
  | resumed w task =>
    obtain ⟨gate, keyed⟩ := resume_gate (w := w) (c := c) task rfl
    exact ⟨.inl ⟨w, rfl, gate⟩, keyed⟩
  | timeout peer =>
    refine ⟨.inr ⟨fun _ => id, ?_, rfl⟩, ?_⟩
    · simp only [perform, expireHandshake]
      split
      · rfl
      · split
        · rfl
        · split
          · simp [failSession, discardFailedSession, hold, cancelHandshakeTimeout]
          · rfl
    · intro held held' found established
      have spared : (c.expireHandshake peer).sessions = c.sessions := expireHandshake_spares found established
      exact keyed_of_same (congrArg (InsertionMap.get? · peer) spared) held held' found established
  | expired peer =>
    refine ⟨.inr ⟨fun _ => id, ?_, rfl⟩, ?_⟩
    · simp only [perform, failHandshake]
      split
      · rfl
      · simp [failSession, discardFailedSession, hold, cancelHandshakeTimeout]
    · intro held held' found _ after
      have failed : c.failHandshake peer = c.failSession peer held := by
        unfold failHandshake
        rw [show c.sessions.get? peer = some held from found]
      have gone : (c.failHandshake peer).sessions.get? peer = none := failed ▸ congrArg Prod.fst slot_fail
      cases gone.symm.trans after
  | disconnected peer =>
    refine ⟨.inr ⟨fun _ => id, rfl, rfl⟩, ?_⟩
    intro held held' _ _ after
    simp [perform, dropPeer, Event.about] at after

end Handlers

section Contacts
variable [CaseMapping] {w : Surroundings} {peer fingerprint : Str} {contacts next : Option Contacts}

/-- No entry is changed by a check. -/
theorem verifyPeer_keeps {key value : Str} {known : Contacts} (before : contacts = some known)
    (found : known.get? key = some value) :
    ∃ later, (verifyPeer w peer fingerprint contacts).2 = some later ∧ later.get? key = some value := by
  subst before
  unfold verifyPeer
  simp only
  split
  · exact ⟨known, rfl, found⟩
  · refine ⟨_, rfl, ?_⟩
    split
    · rcases known.verifyContact_cases peer fingerprint with same | ⟨unknown, added⟩
      · rw [same]
        exact found
      · have other : key ≠ Contacts.cleaned peer := by
          rintro rfl
          cases unknown.symm.trans found
        simpa [added, other] using found
    · exact found

theorem Recorded.keeps {other text : Str} (recorded : Recorded contacts other text) :
    Recorded (verifyPeer w peer fingerprint contacts).2 other text := by
  obtain ⟨known, rfl, stored, found, same⟩ := recorded
  have keeps : ∃ later, (verifyPeer w peer fingerprint (some known)).2 = some later ∧
      later.get? (Contacts.cleaned other) = some stored := verifyPeer_keeps rfl found
  obtain ⟨later, after, kept⟩ := keeps
  exact ⟨later, after, stored, kept, same⟩

/-- A check that was made and passed records the contact, unless it is new and cannot be saved. -/
theorem verifyPeer_records (checked : fingerprint ≠ [] ∧ w.loadRaises = false)
    (verdict : (verifyPeer w peer fingerprint contacts).1 = true) {known : Contacts}
    (configured : contacts = some known) :
    verifies w peer fingerprint contacts = true ∧
    (Recorded (verifyPeer w peer fingerprint contacts).2 peer fingerprint ↔
      (w.saveRaises = true → known.contains (Contacts.cleaned peer))) := by
  subst configured
  have unskipped : ¬ (fingerprint = [] ∨ w.loadRaises = true) := by
    rintro (empty | raises)
    · exact checked.1 empty
    · cases checked.2.symm.trans raises
  simp only [verifyPeer, if_neg unskipped] at verdict ⊢
  refine ⟨by simp [verifies, checked, verdict], ?_⟩
  simp only [verdict, true_and]
  unfold Contacts.verifyContact at verdict ⊢
  split at verdict
  · cases verdict
  · next named =>
    rw [if_neg named]
    cases found : InsertionMap.get? known (Contacts.cleaned peer) with
    | none =>
      cases raises : w.saveRaises with
      | true => simp [Recorded, InsertionMap.contains, found]
      | false => simp [Recorded]
    | some stored =>
      simp only [found, decide_eq_true_eq] at verdict
      have kept : Recorded (some known) peer fingerprint := ⟨known, rfl, stored, found, .inr verdict⟩
      simp [kept, InsertionMap.contains, found]

theorem verifyPeer_configured (configured : contacts.isSome) :
    (verifyPeer w peer fingerprint contacts).2.isSome := by
  obtain ⟨known, rfl⟩ := Option.isSome_iff_exists.mp configured
  unfold verifyPeer
  simp only
  split
  · rfl
  · rfl

/-- A check that refuses was made, and the contact is known. -/
theorem verifyPeer_refuses {known : Contacts} (verdict : (verifyPeer w peer fingerprint contacts).1 = false)
    (configured : contacts = some known) (named : peer ≠ []) :
    fingerprint ≠ [] ∧ w.loadRaises = false ∧ known.contains (Contacts.cleaned peer) := by
  subst configured
  unfold verifyPeer at verdict
  simp only at verdict
  split at verdict
  · cases verdict
  · next unskipped =>
    obtain ⟨visible, loads⟩ := not_or.mp unskipped
    refine ⟨visible, by simpa using loads, ?_⟩
    unfold Contacts.verifyContact at verdict
    rw [if_neg (by simp [named, visible])] at verdict
    cases found : InsertionMap.get? known (Contacts.cleaned peer) with
    | none => simp [found] at verdict
    | some stored => simp [InsertionMap.contains, found]

/-- A check that is not made passes, and changes nothing. -/
theorem verifyPeer_skips (skipped : fingerprint = [] ∨ w.loadRaises = true) :
    verifyPeer w peer fingerprint contacts = (true, contacts) ∧
      verifies w peer fingerprint contacts = false := by
  constructor
  · unfold verifyPeer
    split
    · rfl
    · simp [skipped]
  · rcases skipped with empty | raises
    · simp [verifies, empty]
    · simp [verifies, raises]

end Contacts

namespace Audited
variable [Primitives] [CaseMapping] {s t : Audited} {event : Event} {peer fingerprint : Str} {held : Held}

/-- The sessions that were reported complete are trusted. -/
structure Gated (s : Audited) : Prop where
  configured : s.coordinator.contacts.isSome
  numbered : Numbered s.coordinator
  named : s.coordinator.sessions.get? [] = none
  used : ∀ peer serial, (peer, serial) ∈ s.finished → serial < s.coordinator.nextSerial
  trusted : ∀ peer held, s.coordinator.sessions.get? peer = some held → (peer, held.serial) ∈ s.finished →
    held.session.state = .established ∧ Trusted s peer held.fingerprint

theorem perform_coordinator : (s.perform event).coordinator = s.coordinator.perform event := by
  unfold perform
  split
  · rfl
  · rfl

theorem perform_quiet (quiet : ∀ p f, reply event s.coordinator ≠ .ok (some (.completed p f))) :
    s.perform event = { s with coordinator := s.coordinator.perform event } := by
  unfold perform
  split
  · next p f completed => exact absurd completed (quiet p f)
  · rfl

theorem perform_completed {w : Surroundings} (around : event.surroundings = some w)
    (completed : reply event s.coordinator = .ok (some (.completed peer fingerprint)))
    (stays : (s.coordinator.perform event).sessions.get? peer = some held) :
    s.perform event =
      { coordinator := s.coordinator.perform event
        verified := if verifies w peer fingerprint s.coordinator.contacts
          then s.verified ++ [(peer, fingerprint)] else s.verified
        finished := s.finished ++ [(peer, held.serial)] } := by
  simp only [perform, completed, around, stays, Option.any_some]

/-- Trust is not lost. -/
theorem Trusted.perform (trusted : Trusted s peer fingerprint) : Trusted (s.perform event) peer fingerprint := by
  obtain ⟨verified, recorded⟩ := trusted
  constructor
  · unfold Audited.perform
    split
    · simp only
      split
      · exact List.mem_append_left _ verified
      · exact verified
    · exact verified
  · rw [perform_coordinator]
    rcases (event_gate event s.coordinator).1 with ⟨w, _, gate⟩ | ⟨_, kept, _⟩
    · generalize s.coordinator.perform event = d, reply event s.coordinator = result at gate
      cases gate with
      | passed _ kept => exact kept ▸ recorded
      | refused _ _ _ kept => exact kept ▸ recorded
      | completed _ _ verdict =>
        have moved : d.contacts = _ := (congrArg Prod.snd verdict).symm
        rw [moved]
        exact recorded.keeps
    · exact kept ▸ recorded

theorem uses_found (uses : Uses s.coordinator peer held event) :
    s.coordinator.sessions.get? peer = some held := by
  unfold Uses at uses
  split at uses
  · obtain ⟨rfl, encrypts⟩ := uses
    exact encrypts.2.2.1
  · obtain ⟨rfl, encrypts⟩ := uses
    exact encrypts.2.2.1
  · obtain ⟨rfl, _, _, decrypts⟩ := uses
    exact decrypts.1
  · obtain ⟨rfl, _, decrypts⟩ := uses
    exact decrypts.1
  · exact uses.elim

theorem finishes_unused {finished : Held} (finishes : Finishes s.coordinator finished event) :
    ¬ Uses s.coordinator peer held event := by
  intro uses
  unfold Finishes at finishes
  split at finishes
  · exact uses
  · rcases finishes.2.1 with ⟨kind, _⟩ | kind
    · cases kind.symm.trans uses.2.2.1
    · cases kind.symm.trans uses.2.2.1
  · exact finishes

theorem finishes_established (finishes : Finishes s.coordinator held event) :
    held.session.state = .established := by
  unfold Finishes at finishes
  split at finishes
  · simpa [NoiseSession.isEstablished] using finishes.2.2
  · obtain ⟨_, _, _, _, _, established⟩ := finishes
    simpa [NoiseSession.isEstablished] using established
  · exact finishes.elim

theorem finishes_found (finishes : Finishes s.coordinator held event) :
    ∃ earlier, s.coordinator.sessions.get? event.about = some earlier := by
  unfold Finishes at finishes
  split at finishes
  · exact ⟨held, finishes.1⟩
  · obtain ⟨_, _, session, found, _⟩ := finishes
    exact ⟨_, found⟩
  · exact finishes.elim

/-- Under the invariant a step fails closed exactly when it is guarded. -/
theorem failsClosed_iff (gated : Gated s) :
    FailsClosed s event (s.perform event) ↔ Guarded s event := by
  obtain ⟨known, configured⟩ := Option.isSome_iff_exists.mp gated.configured
  -- the use of a session: one that was reported complete is trusted already
  have texts {t : Audited} (verified : t.verified = s.verified)
      (contacts : t.coordinator.contacts = s.coordinator.contacts) :
      (∀ peer held, Uses s.coordinator peer held event → Trusted t peer held.fingerprint) ↔
        ∀ peer held, Uses s.coordinator peer held event → (peer, held.serial) ∉ s.finished →
          Trusted s peer held.fingerprint := by
    simp only [Trusted, verified, contacts]
    refine forall₂_congr fun peer held => ⟨fun closed uses _ => closed uses, fun guarded uses => ?_⟩
    by_cases finished : (peer, held.serial) ∈ s.finished
    · exact (gated.trusted peer held (uses_found uses) finished).2
    · exact guarded uses finished
  have quietly (quiet : ∀ p f, reply event s.coordinator ≠ .ok (some (.completed p f)))
      (contacts : (s.coordinator.perform event).contacts = s.coordinator.contacts)
      (checks : ∀ w held, event.surroundings = some w → Finishes s.coordinator held event →
        (held.fingerprint = [] ∨ w.loadRaises = true → Trusted s event.about held.fingerprint) ∧
        (held.fingerprint ≠ [] → w.loadRaises = false → w.saveRaises = true →
          ∃ known, s.coordinator.contacts = some known ∧ known.contains (Contacts.cleaned event.about))) :
      FailsClosed s event (s.perform event) ↔ Guarded s event := by
    have same := texts (t := { s with coordinator := s.coordinator.perform event }) rfl contacts
    unfold FailsClosed Guarded
    rw [perform_quiet quiet, same]
    refine and_congr_right fun _ => iff_of_true (fun p f completed => ?_) checks
    exact absurd completed (quiet p f)
  rcases (event_gate event s.coordinator).1 with ⟨w, around, gate⟩ | ⟨none, kept, answer⟩
  · generalize same : reply event s.coordinator = result, next : s.coordinator.perform event = d at gate
    cases gate with
    | passed none kept quiet =>
      refine quietly (same ▸ quiet) (next ▸ kept) fun w held _ finishes => ?_
      exact absurd finishes (none held)
    | @refused finished _ found only verdict kept gone =>
      refine quietly (by simp [same]) (next ▸ kept) fun w' held around' finishes => ?_
      obtain rfl := only held finishes
      obtain rfl := Option.some.inj (around.symm.trans around')
      obtain ⟨earlier, here⟩ := finishes_found found
      have named : event.about ≠ [] := by
        intro empty
        rw [empty, gated.named] at here
        cases here
      obtain ⟨visible, loads, old⟩ := verifyPeer_refuses verdict configured named
      refine ⟨?_, fun _ _ _ => ⟨known, configured, old⟩⟩
      rintro (empty | raises)
      · exact absurd empty visible
      · cases loads.symm.trans raises
    | @completed finished _ found only verdict stays =>
      subst next
      have performed := perform_completed around same stays
      have idle : ∀ peer held, ¬ Uses s.coordinator peer held event := fun _ _ => finishes_unused found
      have reported : FailsClosed s event (s.perform event) ↔
          Trusted (s.perform event) event.about finished.fingerprint := by
        constructor
        · exact fun closed => closed.2 _ _ same
        · refine fun trusted => ⟨fun peer held uses => absurd uses (idle peer held), fun p f completed => ?_⟩
          obtain ⟨rfl, rfl⟩ := Output.completed.inj (Option.some.inj (Except.ok.inj (same.symm.trans completed)))
          exact trusted
      have checks : Guarded s event ↔
          (finished.fingerprint = [] ∨ w.loadRaises = true → Trusted s event.about finished.fingerprint) ∧
          (finished.fingerprint ≠ [] → w.loadRaises = false → w.saveRaises = true →
            known.contains (Contacts.cleaned event.about)) := by
        constructor
        · rintro ⟨_, guarded⟩
          obtain ⟨first, second⟩ := guarded w finished around found
          refine ⟨first, fun visible loads raises => ?_⟩
          obtain ⟨_, there, old⟩ := second visible loads raises
          obtain rfl := Option.some.inj (configured.symm.trans there)
          exact old
        · rintro ⟨first, second⟩
          refine ⟨fun peer held uses => absurd uses (idle peer held), fun w' held around' finishes => ?_⟩
          obtain rfl := only held finishes
          obtain rfl := Option.some.inj (around.symm.trans around')
          exact ⟨first, fun visible loads raises => ⟨known, configured, second visible loads raises⟩⟩
      have moved : (s.coordinator.perform event).contacts = _ := (congrArg Prod.snd verdict).symm
      rw [reported, checks, performed, Trusted, moved]
      by_cases checked : finished.fingerprint ≠ [] ∧ w.loadRaises = false
      · obtain ⟨verified, recorded⟩ := verifyPeer_records checked (congrArg Prod.fst verdict) configured
        simp [verified, recorded, checked]
      · have skipped : finished.fingerprint = [] ∨ w.loadRaises = true := by
          by_cases empty : finished.fingerprint = []
          · exact .inl empty
          · exact .inr (by simpa [empty] using checked)
        obtain ⟨passes, unverified⟩ : verifyPeer w event.about finished.fingerprint s.coordinator.contacts =
            (true, s.coordinator.contacts) ∧ _ := verifyPeer_skips skipped
        have unchecked : ¬ (finished.fingerprint ≠ [] ∧ w.loadRaises = false) := checked
        rw [passes, unverified]
        simp only [skipped, true_implies, Bool.false_eq_true, if_false]
        refine (and_iff_left fun visible loads => absurd ⟨visible, loads⟩ unchecked).symm
  · refine quietly (by simp [answer]) kept fun w held _ finishes => ?_
    exact absurd finishes (none held)

/-- No session is made for a peer without a name. -/
theorem unnamed_step {c d : SessionCoordinator} (step : SessionCoordinator.Step c event d)
    (unnamed : c.sessions.get? [] = none) : d.sessions.get? [] = none := by
  have acts := step_acts step
  by_cases same : [] = event.about
  · rw [← same] at acts
    cases acts with
    | shifted shift =>
      cases found : d.sessions.get? [] with
      | none => rfl
      | some held =>
        obtain ⟨earlier, known, _⟩ := moves_continue shift.moves found
        cases unnamed.symm.trans known
    | created session unknown made =>
      simp only [NoiseSession.new, determineHandshakeRole, Option.elim_none] at made
      split at made
      · cases made
      · cases made
  · exact (congrArg Prod.fst (acts.elsewhere [] same)).trans unnamed

/-- A session that was in the table stays the same one, with its fingerprint once it is
established. -/
theorem established_continues {c d : SessionCoordinator} (step : SessionCoordinator.Step c event d)
    {later : Held} (found : d.sessions.get? peer = some later)
    (known : c.sessions.get? peer = some held) (established : held.session.state = .established) :
    later.session.state = .established ∧ later.fingerprint = held.fingerprint := by
  have keyed : later.fingerprint = held.fingerprint := by
    by_cases same : peer = event.about
    · obtain rfl := step.2
      exact (event_gate event c).2 held later (same ▸ known) established (same ▸ found)
    · have kept := congrArg Prod.fst ((step_acts step).elsewhere peer same)
      obtain rfl := Option.some.inj (known.symm.trans (kept.symm.trans found))
      rfl
  rcases acts_found (step_acts step) found with ⟨earlier, before, continues⟩ | ⟨_, unknown, _⟩
  · obtain rfl := Option.some.inj (known.symm.trans before)
    exact ⟨continues.established established, keyed⟩
  · cases unknown.symm.trans known

theorem Gated.step (gated : Gated s) (guarded : Guarded s event) (step : Step s event t) : Gated t := by
  obtain ⟨possible, rfl⟩ := step
  have step : SessionCoordinator.Step s.coordinator event (s.coordinator.perform event) := ⟨possible, rfl⟩
  have closed := (failsClosed_iff gated).mpr guarded
  -- a session that was reported complete before this step
  have continued (peer : Str) (held : Held) (found : (s.perform event).coordinator.sessions.get? peer = some held)
      (finished : (peer, held.serial) ∈ s.finished) :
      held.session.state = .established ∧ Trusted (s.perform event) peer held.fingerprint := by
    rw [perform_coordinator] at found
    rcases acts_found (step_acts step) found with ⟨earlier, known, continues⟩ | ⟨_, _, _, _, _, continues⟩
    · rw [continues.serial] at finished
      obtain ⟨established, trusted⟩ := gated.trusted peer earlier known finished
      obtain ⟨still, same⟩ := established_continues step found known established
      rw [same]
      exact ⟨still, trusted.perform⟩
    · have older := gated.used peer held.serial finished
      rw [continues.serial] at older
      exact absurd older (lt_irrefl _)
  have numbered : Numbered (s.perform event).coordinator := perform_coordinator ▸ gated.numbered.step step
  have named : (s.perform event).coordinator.sessions.get? [] = none :=
    perform_coordinator ▸ unnamed_step step gated.named
  have older (peer : Str) (serial : Nat) (finished : (peer, serial) ∈ s.finished) :
      serial < (s.perform event).coordinator.nextSerial := by
    rw [perform_coordinator]
    exact (gated.used peer serial finished).trans_le (acts_serials (step_acts step))
  have unreported (quiet : ∀ p f, reply event s.coordinator ≠ .ok (some (.completed p f)))
      (contacts : (s.coordinator.perform event).contacts = s.coordinator.contacts) :
      Gated (s.perform event) := by
    have same : (s.perform event).finished = s.finished := by rw [perform_quiet quiet]
    rw [← same] at continued older
    refine ⟨?_, numbered, named, older, continued⟩
    rw [perform_coordinator, contacts]
    exact gated.configured
  rcases (event_gate event s.coordinator).1 with ⟨w, around, gate⟩ | ⟨none, kept, answer⟩
  · generalize same : reply event s.coordinator = result, next : s.coordinator.perform event = d at gate
    cases gate with
    | passed none kept quiet => exact unreported (same ▸ quiet) (next ▸ kept)
    | refused found only verdict kept gone => exact unreported (by simp [same]) (next ▸ kept)
    | @completed held _ found only verdict stays =>
      subst next
      have finished : (s.perform event).finished = s.finished ++ [(event.about, held.serial)] := by
        rw [perform_completed around same stays]
      have here : (s.perform event).coordinator.sessions.get? event.about = some held :=
        perform_coordinator ▸ stays
      refine ⟨?_, numbered, named, fun peer serial member => ?_, fun peer later known member => ?_⟩
      · have moved : (s.coordinator.perform event).contacts = _ := (congrArg Prod.snd verdict).symm
        rw [perform_coordinator, moved]
        exact verifyPeer_configured gated.configured
      · rw [finished] at member
        rcases List.mem_append.mp member with before | now
        · exact older peer serial before
        · obtain ⟨rfl, rfl⟩ := Prod.mk.inj (List.mem_singleton.mp now)
          exact numbered.used _ held here
      · rw [finished] at member
        rcases List.mem_append.mp member with before | now
        · exact continued peer later known before
        · obtain ⟨rfl, _⟩ := Prod.mk.inj (List.mem_singleton.mp now)
          obtain rfl := Option.some.inj (known.symm.trans here)
          exact ⟨finishes_established found, closed.2 _ _ same⟩
  · exact unreported (by simp [answer]) kept

/-- In a run with a storage, nothing is encrypted, delivered or reported complete without trust exactly
when every step is guarded. -/
theorem gate_closed_iff {identity : LocalIdentity} {contacts : Contacts}
    {history : List (Taken Audited Event)} (run : Run Step (start identity contacts) history s) :
    (∀ e ∈ history, FailsClosed e.before e.label e.after) ↔
      ∀ e ∈ history, Guarded e.before e.label := by
  apply run.meets_iff (P := Gated) (C := Guarded)
  · constructor
    · rfl
    · exact run_numbered .nil
    · rfl
    · exact fun _ _ member => by cases member
    · exact fun _ _ found => by cases found
  · rintro s event t gated ⟨possible, rfl⟩
    exact failsClosed_iff gated
  · intro s event t gated guarded step
    exact gated.step guarded step

end Audited
end SessionCoordinator
end Bitchat.App

namespace Bitchat.App.SessionCoordinator.Audited
open Crypto Protocol Storage Stateful Str Modular
attribute [local instance] Modular.primitives asciiCase

theorem secondMessage_short : secondMessage.length ≤ 65535 := by decide +kernel

/-- The answer of device 2 to a handshake of device 1. -/
def answered : BitchatPacket := { stray with payload := secondMessage, payload_size := secondMessage_short }

def other : Str := (device 2).peerIdHex

/-- The peer id of device 2 is pinned to another key. -/
def pinned : Contacts := InsertionMap.empty.set other "00".toList

def writing : Event := .message (steady 3) other []

/-- A text is written to device 2, which answers. -/
def meeting : List Event := [writing, .packet (steady 3) answered]

def met (contacts : Contacts) : Audited :=
  meeting.foldl (fun s event => s.perform event) (start (device 1) contacts)

theorem met_run (contacts : Contacts) :
    Run Step (start (device 1) contacts) (Run.trace perform (start (device 1) contacts) meeting) (met contacts) := by
  apply Run.of_trace perform
  intro s event member
  refine ⟨?_, rfl⟩
  rcases List.mem_cons.mp member with rfl | last
  · trivial
  · exact List.mem_singleton.mp last ▸ trivial

/-- The handler goes on after the answer. -/
def finishing (w : Surroundings) : Event := .resumed w (.finish other 0)

theorem finishing_possible {contacts : Contacts} {w : Surroundings}
    (waits : (Task.finish other 0) ∈ (met contacts).coordinator.backgroundTasks) :
    Step (met contacts) (finishing w) ((met contacts).perform (finishing w)) := ⟨waits, rfl⟩

theorem finishes_reply {s : Audited} {event : Event} {held : Held}
    (finishes : Finishes s.coordinator held event) : reply event s.coordinator = .ok none ∨
      ∃ fingerprint, reply event s.coordinator = .ok (some (.completed event.about fingerprint)) := by
  rcases (event_gate event s.coordinator).1 with ⟨w, _, gate⟩ | ⟨none, _⟩
  · generalize reply event s.coordinator = result, s.coordinator.perform event = d at gate
    cases gate with
    | passed none => exact absurd finishes (none held)
    | refused => exact .inl rfl
    | completed => exact .inr ⟨_, rfl⟩
  · exact absurd finishes (none held)

/-- The packet that a stretch sends. -/
def sends (event : Event) (s : Audited) : Option MessageType :=
  match reply event s.coordinator with
  | .ok (some (.sent _ packet)) => some packet.messageType
  | _ => none

theorem not_finishes {s : Audited} {event : Event} {held : Held} (sent : (sends event s).isSome) :
    ¬ Finishes s.coordinator held event := by
  intro finishes
  rcases finishes_reply finishes with quiet | ⟨_, completed⟩
  · simp [sends, quiet] at sent
  · simp [sends, completed] at sent

/-- The completion that a stretch reports. -/
def reports (event : Event) (s : Audited) : Option (Str × Str) :=
  match reply event s.coordinator with
  | .ok (some (.completed peer fingerprint)) => some (peer, fingerprint)
  | _ => none

theorem reply_of_reports {s : Audited} {event : Event} (reported : (reports event s).isSome) :
    ∃ peer fingerprint, reply event s.coordinator = .ok (some (.completed peer fingerprint)) := by
  unfold reports at reported
  split at reported
  · next peer fingerprint completed => exact ⟨peer, fingerprint, completed⟩
  · cases reported

/-- The session of device 2 can encrypt. -/
def ready (s : Audited) : Bool :=
  (s.coordinator.sessions.get? other).any fun held => held.session.isEstablished &&
    match NoiseSession.encrypt [] held.session with
    | .ok _ _ => true
    | .error _ _ => false

theorem writing_uses {s : Audited} (able : ready s = true) (foreign : s.coordinator.isSelf (strip other) = false) :
    ∃ held, s.coordinator.sessions.get? other = some held ∧ Uses s.coordinator other held writing := by
  obtain ⟨held, found, can⟩ := (Option.any_eq_true _ _).mp able
  obtain ⟨established, encrypts⟩ := Bool.and_eq_true_iff.mp can
  refine ⟨held, found, rfl, Nat.zero_le _, by simp [foreign], found, established, ?_⟩
  cases result : NoiseSession.encrypt [] held.session with
  | ok ciphertext session => exact ⟨ciphertext, session, rfl⟩
  | error e session => simp [result] at encrypts

/-- The texts of the first moments go to a session whose key is not the pinned one, before the check
refuses it; and a contact that cannot be loaded is not checked at all. -/
theorem used_before_check :
    (∃ history s, Run Step (start (device 1) pinned) history s ∧ Step s writing (s.perform writing) ∧
      ¬ FailsClosed s writing (s.perform writing) ∧ sends writing s = some .noiseEncrypted ∧
      ((s.perform writing).perform (finishing (steady 3))).coordinator.sessions.get? other = none) ∧
    ∃ history s w, Run Step (start (device 1) .empty) history s ∧ w.loadRaises = true ∧
      Step s (finishing w) (s.perform (finishing w)) ∧ ¬ FailsClosed s (finishing w) (s.perform (finishing w)) := by
  constructor
  · refine ⟨_, _, met_run pinned, ⟨trivial, rfl⟩, ?_, by decide +kernel, by decide +kernel⟩
    obtain ⟨held, found, uses⟩ := writing_uses (s := met pinned) (by decide +kernel) (by decide +kernel)
    intro closed
    have unverified : ((met pinned).perform writing).verified = [] := by decide +kernel
    have trusted := (closed.1 other held uses).1
    rw [unverified] at trusted
    cases trusted
  · let w : Surroundings := { steady 3 with loadRaises := true }
    refine ⟨_, _, w, met_run .empty, rfl, finishing_possible (by decide +kernel), ?_⟩
    have reported : (reports (finishing w) (met .empty)).isSome := by decide +kernel
    obtain ⟨peer, fingerprint, completed⟩ := reply_of_reports reported
    intro closed
    have unverified : ((met .empty).perform (finishing w)).verified = [] := by decide +kernel
    have trusted := (closed.2 peer fingerprint completed).1
    rw [unverified] at trusted
    cases trusted

/-- A check that loads and saves lets the handshake be reported, with trust. -/
theorem met_trusted : ∃ (s : Audited) (peer fingerprint : Str),
    reply (finishing (steady 3)) s.coordinator = .ok (some (.completed peer fingerprint)) ∧
      Trusted (s.perform (finishing (steady 3))) peer fingerprint := by
  have reported : (reports (finishing (steady 3)) (met .empty)).isSome := by decide +kernel
  obtain ⟨peer, fingerprint, completed⟩ := reply_of_reports reported
  have visible : ∀ held, (met .empty).coordinator.sessions.get? other = some held → held.fingerprint ≠ [] := by
    have some : (((met .empty).coordinator.sessions.get? other).all fun held => held.fingerprint ≠ []) = true := by
      decide +kernel
    intro held found
    simpa [found] using some
  have opening : ∀ e ∈ Run.trace perform (start (device 1) .empty) meeting, Guarded e.before e.label := by
    intro e member
    rcases List.mem_cons.mp member with rfl | second
    · refine ⟨fun peer held uses => ?_, fun _ _ _ finishes => finishes.elim⟩
      cases (uses_found uses).symm.trans (InsertionMap.get?_empty peer)
    · obtain rfl := List.mem_singleton.mp second
      have sent : (sends (.packet (steady 3) answered) ((start (device 1) .empty).perform writing)).isSome := by
        decide +kernel
      generalize (start (device 1) .empty).perform writing = s at sent
      refine ⟨fun peer held uses => ?_, fun _ held _ finishes => absurd finishes (not_finishes sent)⟩
      cases uses.2.2.1
  have guarded : Guarded (met .empty) (finishing (steady 3)) := by
    refine ⟨fun _ _ uses => uses.elim, fun w held around finishes => ?_⟩
    obtain rfl := Option.some.inj around
    refine ⟨?_, fun _ _ raises => by cases raises⟩
    rintro (empty | raises)
    · exact absurd empty (visible held finishes.1)
    · cases raises
  have run := (met_run .empty).snoc (finishing_possible (w := steady 3) (by decide +kernel))
  generalize met .empty = s at *
  have closed := (gate_closed_iff run).mpr ?_
  · exact ⟨s, peer, fingerprint, completed, (closed _ (List.mem_append_right _ (List.mem_singleton_self _))).2
      peer fingerprint completed⟩
  · intro e member
    rcases List.mem_append.mp member with before | last
    · exact opening e before
    · exact List.mem_singleton.mp last ▸ guarded

end Bitchat.App.SessionCoordinator.Audited
