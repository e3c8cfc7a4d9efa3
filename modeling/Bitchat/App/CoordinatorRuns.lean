import Bitchat.App.PeerSlots

/-! Runs of the coordinator: messages of the user, packets, handlers that resume, expiry
tasks that run out and peers that disconnect, in any order. -/
namespace Bitchat.App
open Crypto Protocol Storage Stateful Str

/-- The peer that a suspended handler deals with. -/
def Task.about : Task → Str
  | .send peer _ | .finish peer _ | .receive peer _ _ => peer

namespace SessionCoordinator

/-- What one stretch does to the slot of its peer. -/
inductive Acts [Primitives] (peer : Str) (c d : SessionCoordinator) : Prop where
  | shifted (shift : Shift peer c d)
  | created (session : NoiseSession) (unknown : c.sessions.get? peer = none)
      (made : NoiseSession.new c.localIdentity peer none = .ok session)
      (shift : Shift peer (c.enroll peer session) d)

section Handlers
variable [Primitives] {w : Surroundings} {sender payload : Bytes} {peer : Str} {held : Held}
  {c : SessionCoordinator}

omit [Primitives] in
theorem shift_spawn (task : Task) : Shift peer c (c.spawn task) := shift_of_same (fun _ _ => rfl) rfl rfl

variable [CaseMapping]

omit [Primitives] in
theorem finishHandshake_shift (serial : Nat) :
    Ends (finishHandshake w peer serial) c fun _ d => Shift peer c d := by
  apply finishHandshake_ends
  · exact fun _ => .refl
  · intro held found _ established _
    exact (shift_cancel found established).trans shift_fail
  · intro held fingerprint contacts found _ established _ _
    have flushed : Shift peer (c.cancelHandshakeTimeout peer)
        ({ c.cancelHandshakeTimeout peer with contacts }.flushPending peer) :=
      shift_of_same elsewhere_flush rfl rfl
    exact (shift_cancel found established).trans flushed

theorem answerHandshake_shift (response : Option Bytes) :
    Ends (answerHandshake w sender held response) c fun _ d =>
      Shift (hex sender) (c.watchHandshake (hex sender) held) d := by
  apply answerHandshake_ends
  · exact fun _ => finishHandshake_shift held.serial
  · exact fun _ _ _ => shift_spawn _
  · exact fun _ _ => .refl

theorem takeHandshake_shift (found : c.sessions.get? (hex sender) = some held) :
    Ends (takeHandshake w sender payload held) c fun _ d => Shift (hex sender) c d := by
  apply takeHandshake_ends
  · intro session failed
    exact shift_dropped (elsewhere_hold.trans (elsewhere_discard false)) (discard_serials false)
      (slot_discard sessions_hold failed)
  · intro response session returned
    have taken := shift_taken found (NoiseSession.handleMessage_state returned)
    exact (answerHandshake_shift response).mono fun _ _ => taken.trans

omit [CaseMapping] in
theorem deliverEncrypted_shift (found : c.sessions.get? peer = some held) :
    Ends (deliverEncrypted peer held payload) c fun _ d => Shift peer c d := by
  have keeps := NoiseSession.decrypt_keeps_state payload
  apply deliverEncrypted_ends
  · exact fun _ session delivered => shift_used found (keeps.ok delivered)
  · exact fun _ session dropped => shift_used found (keeps.error dropped)

omit [CaseMapping] in
theorem openHandshake_shift {send : Bytes → Stretch (Option Output)}
    (found : c.sessions.get? peer = some held) (idle : held.session.state = .uninitialized)
    (role : held.session.role = .initiator)
    (silent : ∀ payload e, Ends (send payload) e fun _ d => d = e) :
    Ends (openHandshake w peer held send) c fun _ d => Shift peer c d := by
  apply openHandshake_ends idle role
  intro payload session going
  apply (silent payload _).mono
  intro _ d same
  exact same ▸ shift_opened found idle going

omit [CaseMapping] in
theorem sendTo_silent {messageType : MessageType} (payload : Bytes) :
    Ends (sendTo w peer messageType payload) c fun _ d => d = c :=
  sendTo_ends (fun _ => rfl) fun _ => rfl

theorem getOrCreate_acts {next : Held → Stretch (Option Output)}
    (rest : ∀ held e, e.sessions.get? peer = some held → Ends (next held) e fun _ d => Shift peer e d) :
    Ends (getOrCreateSession peer >>= next) c fun _ d => Acts peer c d := by
  apply ends_bind.mpr
  apply getOrCreateSession_ends
  · exact fun _ _ => .shifted .refl
  · intro held found
    exact (rest held c found).mono fun _ _ => .shifted
  · intro session unknown made
    exact (rest _ _ sessions_enroll).mono fun _ _ => .created session unknown made

theorem sendDirectMessage_acts (text : Bytes) :
    Ends (sendDirectMessage w peer text) c fun _ d => Acts peer c d := by
  unfold sendDirectMessage
  rw [ends_ite]
  refine ⟨fun _ => .shifted .refl, fun _ => ?_⟩
  apply getOrCreate_acts
  intro held e found
  rw [ends_ite]
  constructor
  · intro _
    have keeps := NoiseSession.encrypt_keeps_state text
    apply ends_bind.mpr
    apply onSession_ends
    · intro ciphertext session returned
      apply (sendTo_silent ciphertext).mono
      intro _ d same
      exact same ▸ shift_used found (keeps.ok returned)
    · intro _ session raised
      exact shift_used found (keeps.error raised)
  · intro _
    have queued : Shift peer e (e.queueMessage peer text) := shift_of_same (elsewhere_queue text) rfl rfl
    rw [ends_modify_bind, ends_ite, ends_ite]
    refine ⟨fun idle => ⟨fun role => ?_, fun _ => ?_⟩, fun _ => queued⟩
    · apply (openHandshake_shift (c := e.queueMessage peer text) found idle role
        fun payload _ => sendTo_silent payload).mono
      exact fun _ _ => queued.trans
    · apply (sendTo_silent []).mono
      intro _ d same
      exact same ▸ queued

theorem handleHandshakeRequest_acts :
    Ends (handleHandshakeRequest w sender) c fun _ d => Acts (hex sender) c d := by
  rw [handleHandshakeRequest, ends_get_bind, ends_ite]
  refine ⟨fun _ => .shifted .refl, fun _ => ?_⟩
  apply getOrCreate_acts
  intro held e found
  rw [ends_ite]
  constructor
  · rintro ⟨role, idle⟩
    apply openHandshake_shift found idle role
    intro payload f
    apply ends_bind.mpr
    exact packetFor_ends (fun _ => rfl) fun _ => rfl
  · exact fun _ => .refl

theorem handleHandshakeInit_acts :
    Ends (handleHandshakeInit w sender payload) c fun _ d => Acts (hex sender) c d := by
  rw [handleHandshakeInit, ends_get_bind, ends_ite]
  refine ⟨fun _ => .shifted .refl, fun _ => ?_⟩
  apply getOrCreate_acts
  intro held e found
  exact takeHandshake_shift found

theorem handleHandshakeResp_shift :
    Ends (handleHandshakeResp w sender payload) c fun _ d => Shift (hex sender) c d := by
  rw [handleHandshakeResp, ends_get_bind]
  cases found : c.sessions.get? (hex sender) with
  | none => exact .refl
  | some held => exact takeHandshake_shift found

omit [CaseMapping] in
theorem handleEncrypted_shift :
    Ends (handleEncrypted sender payload) c fun _ d => Shift (hex sender) c d := by
  rw [handleEncrypted, ends_get_bind]
  cases found : c.sessions.get? (hex sender) with
  | none => exact .refl
  | some held =>
    apply ends_ite.mpr
    exact ⟨fun _ => deliverEncrypted_shift found, fun _ => shift_spawn _⟩

omit [CaseMapping] in
theorem receiveLater_shift (serial : Nat) :
    Ends (receiveLater peer serial payload) c fun _ d => Shift peer c d := by
  rw [receiveLater, ends_get_bind]
  cases found : c.sessions.get? peer with
  | none => exact .refl
  | some held =>
    apply ends_ite.mpr
    exact ⟨fun _ => deliverEncrypted_shift found, fun _ => .refl⟩

theorem processPacket_acts (packet : BitchatPacket) :
    Ends (processPacket w packet) c fun _ d => Acts (hex packet.senderId) c d := by
  rw [processPacket, ends_get_bind, ends_ite]
  refine ⟨fun _ => .shifted .refl, fun _ => ?_⟩
  cases packet.messageType with
  | handshakeRequest => exact handleHandshakeRequest_acts
  | noiseHandshakeInit => exact handleHandshakeInit_acts
  | noiseHandshakeResp => exact handleHandshakeResp_shift.mono fun _ _ => .shifted
  | noiseEncrypted => exact handleEncrypted_shift.mono fun _ _ => .shifted
  | _ => exact .shifted .refl

theorem resume_acts (task : Task) : Ends (resume w task) c fun _ d => Acts task.about c d := by
  cases task with
  | send peer text => exact sendDirectMessage_acts text
  | finish peer serial => exact (finishHandshake_shift serial).mono fun _ _ => .shifted
  | receive peer serial payload => exact (receiveLater_shift serial).mono fun _ _ => .shifted

end Handlers

/-- `expire_handshake` called for a peer. -/
def failHandshake (peer : Str) (c : SessionCoordinator) : SessionCoordinator :=
  match c.sessions.get? peer with
  | none => c
  | some held => c.failSession peer held

/-- The end of `_handle_peer_disconnected`, for a peer without a connection. -/
def dropPeer (peer : Str) (c : SessionCoordinator) : SessionCoordinator :=
  { c.cancelHandshakeTimeout peer with
    sessions := c.sessions.erase peer
    pendingMessages := c.pendingMessages.erase peer }

/-- What happens to a coordinator. -/
inductive Event where
  | message (w : Surroundings) (peer : Str) (text : Bytes)
  | packet (w : Surroundings) (packet : BitchatPacket)
  | resumed (w : Surroundings) (task : Task)
  | timeout (peer : Str)
  | expired (peer : Str)
  | disconnected (peer : Str)

def Event.about : Event → Str
  | .message _ peer _ | .timeout peer | .expired peer | .disconnected peer => peer
  | .packet _ received => hex received.senderId
  | .resumed _ task => task.about

/-- Only a task that waits is resumed. -/
def Event.Possible (c : SessionCoordinator) : Event → Prop
  | .resumed _ task => task ∈ c.backgroundTasks
  | _ => True

section Runs
variable [Primitives] [CaseMapping]

def perform (event : Event) (c : SessionCoordinator) : SessionCoordinator :=
  match event with
  | .message w peer text => (outcome (sendDirectMessage w peer text) c).2
  | .packet w packet => (outcome (processPacket w packet) c).2
  | .resumed w task =>
    (outcome (resume w task) { c with backgroundTasks := c.backgroundTasks.erase task }).2
  | .timeout peer => c.expireHandshake peer
  | .expired peer => c.failHandshake peer
  | .disconnected peer => c.dropPeer peer

def Step (c : SessionCoordinator) (event : Event) (d : SessionCoordinator) : Prop :=
  event.Possible c ∧ d = perform event c

/-- Events other than the resumption of a task, one after another. -/
def performAll (events : List Event) (c : SessionCoordinator) : SessionCoordinator :=
  events.foldl (fun c event => perform event c) c

def start (localIdentity : LocalIdentity) (contacts : Option Contacts) : SessionCoordinator :=
  { localIdentity, contacts }

variable {c d : SessionCoordinator} {event : Event} {peer : Str}

theorem run_performAll {events : List Event} (able : ∀ c, ∀ event ∈ events, event.Possible c) :
    Run Step c (Run.trace perform c events) (performAll events c) := by
  apply Run.of_trace perform
  intro s event member
  exact ⟨able s event member, rfl⟩

omit [Primitives] [CaseMapping] in
theorem expireHandshake_shift : Shift peer c (c.expireHandshake peer) := by
  have cancelled (e : SessionCoordinator) (free : ∀ held, e.sessions.get? peer = some held →
      held.isPending → e.handshakeTimeoutTasks.get? peer ≠ some held.serial) :
      Shift peer e (e.cancelHandshakeTimeout peer) := by
    apply shift_of_move elsewhere_cancel rfl
    have after : guard peer (e.cancelHandshakeTimeout peer) = (e.sessions.get? peer, none) := by
      simp [guard, cancelHandshakeTimeout]
    rw [after]
    exact .unwatched free
  unfold expireHandshake
  cases armed : c.handshakeTimeoutTasks.get? peer with
  | none => exact .refl
  | some serial =>
    cases found : c.sessions.get? peer with
    | none => exact cancelled c (by simp [found])
    | some held =>
      dsimp only
      split
      · apply shift_fail.trans
        apply cancelled
        intro other same
        rw [show (c.failSession peer held).sessions.get? peer = none from congrArg Prod.fst slot_fail] at same
        cases same
      · next other =>
        apply cancelled
        intro held' same pending watched
        cases found.symm.trans same
        exact other ⟨(Option.some.inj (armed.symm.trans watched)).symm, pending⟩

omit [Primitives] [CaseMapping] in
theorem failHandshake_shift : Shift peer c (c.failHandshake peer) := by
  unfold failHandshake
  split
  · exact .refl
  · exact shift_fail

omit [Primitives] [CaseMapping] in
theorem dropPeer_shift : Shift peer c (c.dropPeer peer) := by
  apply shift_dropped
  · intro other different
    simp [slot, dropPeer, cancelHandshakeTimeout, different]
  · rfl
  · simp [slot, dropPeer, cancelHandshakeTimeout]

/-- A step acts on the slot of one peer. -/
theorem step_acts (step : Step c event d) : Acts event.about c d := by
  obtain ⟨-, rfl⟩ := step
  cases event with
  | message w peer text => exact sendDirectMessage_acts text
  | packet w packet => exact processPacket_acts packet
  | resumed w task =>
    cases resume_acts (w := w) (c := { c with backgroundTasks := c.backgroundTasks.erase task }) task with
    | shifted shift => exact .shifted ⟨shift.elsewhere, shift.serials, shift.moves⟩
    | created session unknown made shift =>
      exact .created session unknown made ⟨shift.elsewhere, shift.serials, shift.moves⟩
  | timeout peer => exact .shifted expireHandshake_shift
  | expired peer => exact .shifted failHandshake_shift
  | disconnected peer => exact .shifted dropPeer_shift

/-- A session that has neither failed nor been closed. -/
def Live (held : Held) : Prop :=
  held.session.state = .uninitialized ∨ held.session.state = .handshaking ∨
    held.session.state = .established

/-- The same session object later on: it never begins anew, and once established it stays so
until it is dropped. -/
structure Continues (earlier later : Held) : Prop where
  serial : later.serial = earlier.serial
  established : earlier.session.state = .established → later.session.state = .established
  begun : later.session.state = .uninitialized → earlier.session.state = .uninitialized
  live : Live earlier → Live later

omit [Primitives] [CaseMapping] in
theorem Continues.refl (held : Held) : Continues held held := ⟨rfl, id, id, id⟩

omit [Primitives] [CaseMapping] in
theorem Continues.trans {first second third : Held} (before : Continues first second)
    (after : Continues second third) : Continues first third where
  serial := after.serial.trans before.serial
  established ready := after.established (before.established ready)
  begun idle := before.begun (after.begun idle)
  live living := after.live (before.live living)

omit [Primitives] [CaseMapping] in
theorem moves_continue {g h : Option Held × Option Nat} {held : Held}
    (moves : Relation.ReflTransGen Moves g h) (found : h.1 = some held) :
    ∃ earlier, g.1 = some earlier ∧ Continues earlier held := by
  induction moves generalizing held with
  | refl => exact ⟨held, found, .refl held⟩
  | @tail h i _ move ih =>
    have back (earlier : Held) (known : h.1 = some earlier) (next : Continues earlier held) :
        ∃ first, g.1 = some first ∧ Continues first held := by
      obtain ⟨first, origin, continues⟩ := ih known
      exact ⟨first, origin, continues.trans next⟩
    cases move with
    | watched open' going =>
      cases found
      exact back _ rfl ⟨rfl, fun ready => by simp [ready] at open', fun idle => by simp [going] at idle,
        fun _ => .inr (.inl going)⟩
    | ended going ready =>
      cases found
      exact back _ rfl ⟨rfl, fun _ => ready, fun idle => by simp [ready] at idle,
        fun _ => .inr (.inr ready)⟩
    | used same =>
      cases found
      exact back _ rfl ⟨rfl, same.trans, same.symm.trans, fun living => by simpa [Live, same] using living⟩
    | unwatched free => exact back held found (.refl held)
    | dropped => cases found

omit [CaseMapping] in
theorem Acts.elsewhere (acts : Acts peer c d) : Elsewhere peer c d := by
  cases acts with
  | shifted shift => exact shift.elsewhere
  | created session unknown made shift =>
    have enrolled : Elsewhere peer c (c.enroll peer session) := elsewhere_hold
    exact enrolled.trans shift.elsewhere

omit [CaseMapping] in
/-- A session after a stretch was there before, or it is the one that the stretch made. -/
theorem acts_found {other : Str} {held : Held} (acts : Acts peer c d)
    (found : d.sessions.get? other = some held) :
    (∃ earlier, c.sessions.get? other = some earlier ∧ Continues earlier held) ∨
    (other = peer ∧ c.sessions.get? other = none ∧ d.nextSerial = c.nextSerial + 1 ∧
      ∃ session, session.state = .uninitialized ∧ Continues ⟨c.nextSerial, session⟩ held) := by
  by_cases same : other = peer
  · subst same
    cases acts with
    | shifted shift => exact .inl (moves_continue shift.moves found)
    | created session unknown made shift =>
      obtain ⟨earlier, known, continues⟩ := moves_continue shift.moves found
      obtain rfl : earlier = ⟨c.nextSerial, session⟩ :=
        Option.some.inj (known.symm.trans sessions_enroll)
      obtain ⟨_, rfl⟩ := NoiseSession.new_eq_ok made
      exact .inr ⟨rfl, unknown, shift.serials, _, rfl, continues⟩
  · have kept := congrArg Prod.fst (acts.elsewhere other same)
    exact .inl ⟨held, kept.symm.trans found, .refl held⟩

omit [CaseMapping] in
theorem acts_serials (acts : Acts peer c d) : c.nextSerial ≤ d.nextSerial := by
  cases acts with
  | shifted shift => exact shift.serials.ge
  | created session unknown made shift => exact (Nat.le_succ _).trans shift.serials.ge

/-- Serials name the session objects: those in the table are used up and differ. -/
structure Numbered (c : SessionCoordinator) : Prop where
  used : ∀ peer held, c.sessions.get? peer = some held → held.serial < c.nextSerial
  distinct : ∀ peer other held held', c.sessions.get? peer = some held →
    c.sessions.get? other = some held' → held.serial = held'.serial → peer = other
  live : ∀ peer held, c.sessions.get? peer = some held → Live held

theorem Numbered.step (numbered : Numbered c) (step : Step c event d) : Numbered d := by
  have acts := step_acts step
  constructor
  · intro peer held found
    rcases acts_found acts found with ⟨earlier, known, continues⟩ | ⟨_, _, next, _, _, continues⟩
    · rw [continues.serial]
      exact (numbered.used peer earlier known).trans_le (acts_serials acts)
    · rw [continues.serial, next]
      exact Nat.lt_succ_self _
  · intro peer other held held' found found' same
    rcases acts_found acts found with ⟨earlier, known, continues⟩ | ⟨rfl, _, _, _, _, continues⟩ <;>
      rcases acts_found acts found' with ⟨earlier', known', continues'⟩ | ⟨rfl, _, _, _, _, continues'⟩
    · apply numbered.distinct peer other earlier earlier' known known'
      rw [← continues.serial, ← continues'.serial, same]
    · have smaller := numbered.used peer earlier known
      rw [← continues.serial, same, continues'.serial] at smaller
      exact absurd smaller (lt_irrefl _)
    · have smaller := numbered.used other earlier' known'
      rw [← continues'.serial, ← same, continues.serial] at smaller
      exact absurd smaller (lt_irrefl _)
    · rfl
  · intro peer held found
    rcases acts_found acts found with ⟨earlier, known, continues⟩ | ⟨_, _, _, _, idle, continues⟩
    · exact continues.live (numbered.live peer earlier known)
    · exact continues.live (.inl idle)

theorem run_numbered {identity : LocalIdentity} {contacts : Option Contacts}
    {history : List (Taken SessionCoordinator Event)}
    (run : Run Step (start identity contacts) history c) : Numbered c := by
  apply run.invariant
  · constructor
    · intro peer held found
      cases found
    · intro peer other held held' found
      cases found
    · intro peer held found
      cases found
  · exact Numbered.step

end Runs
end SessionCoordinator
end Bitchat.App
