import Bitchat.Crypto.SecureChannel

/-! The keys of the transport. Sessions that end their handshakes with one transcript have each other's
static keys, and each sends under the key that the other receives under. -/
namespace Bitchat.Crypto
open Stateful NoiseCipherState NoiseHandshakeState NoiseSession

section Calls
variable [Primitives] {send recv : Bytes} {sent received : List TransportMessage} {s : NoiseSession}
  {call : Call}

theorem Channel.keys (channel : Channel send recv sent received s) (opened : s.state = .established) :
    s.sendKey = some send ∧ s.recvKey = some recv := by
  obtain ⟨c, held, keyed, _⟩ := (channel.sends opened).cipher
  obtain ⟨d, found, tracks⟩ := (channel.receives opened).cipher
  rw [sendKey, recvKey, held, found, Option.bind_some, Option.bind_some, keyed, tracks.keyed]
  exact ⟨rfl, rfl⟩

/-- Only an established session encrypts, under its sending key. -/
theorem Channel.encrypted_inv {m : TransportMessage} (channel : Channel send recv sent received s)
    (made : m ∈ encrypted s call) : s.state = .established ∧ s.sendKey = some m.key := by
  cases call with
  | start | process | decrypt | close => cases made
  | encrypt plaintext =>
    by_cases opened : s.state = .established
    · have sends := channel.sends opened
      cases returned : NoiseSession.encrypt plaintext s with
      | error failure t =>
        rw [sends.encrypt_error returned] at returned
        rw [(encrypt_unchanged returned).2] at made
        cases made
      | ok ciphertext t =>
        rw [(encrypt_result returned sends).2] at made
        obtain rfl := List.mem_singleton.mp made
        exact ⟨opened, (channel.keys opened).1⟩
    · rw [(encrypt_unchanged (encrypt_refused opened plaintext)).2] at made
      cases made

/-- What the end of the handshake has settled. -/
def NoiseSession.terms (s : NoiseSession) :
    Option Bytes × Option Bytes × Option Bytes × Option Bytes :=
  (s.remoteStaticPublic, s.handshakeHash, s.sendKey, s.recvKey)

/-- An established session keeps what its handshake has settled for as long as it is established. -/
theorem Channel.perform_terms (channel : Channel send recv sent received s)
    (before : s.state = .established) (after : (perform call s).state = .established) :
    (perform call s).terms = s.terms := by
  obtain ⟨sends, receives⟩ := channel.keys before
  have settled {t : NoiseSession} {sent' received' : List TransportMessage}
      (next : Channel send recv sent' received' t) (done : t.state = .established)
      (remote : t.remoteStaticPublic = s.remoteStaticPublic)
      (hash : t.handshakeHash = s.handshakeHash) : t.terms = s.terms := by
    obtain ⟨sends', receives'⟩ := next.keys done
    rw [terms, terms, remote, hash, sends, sends', receives, receives']
  cases call with
  | start ephemeral => rw [perform_start (by simp [before])]
  | process ephemeral message =>
    rcases process_state s ephemeral message with failed | ⟨idle, _⟩ | ⟨going, _⟩
    · cases failed.symm.trans after
    · cases idle.symm.trans before
    · cases going.symm.trans before
  | encrypt plaintext =>
    obtain ⟨cipher, next⟩ := perform_encrypt s plaintext
    exact settled (channel.encrypt plaintext) after (by rw [next]) (by rw [next])
  | decrypt ciphertext =>
    obtain ⟨cipher, next⟩ := perform_decrypt s ciphertext
    exact settled (channel.decrypt ciphertext) after (by rw [next]) (by rw [next])
  | close => cases after

/-- What a session settles that ends the handshake of these messages. -/
def settledTerms (role : NoiseRole) (o : Opening) (c : Closing) (remote : Bytes) :
    Option Bytes × Option Bytes × Option Bytes × Option Bytes :=
  let (first, second) := transportKeys (c.se :: o.secrets)
  (some remote, some (transcriptHash (c.p3 :: c.s3 :: o.items)),
    some (if role = .initiator then first else second),
    some (if role = .initiator then second else first))

end Calls

/-- The two halves of a handshake with one transcript are about each other, and mix the same secrets. -/
theorem NoiseHandshakeState.Completes.halves_agree [Primitives] [LawfulPrimitives]
    {own priv ephemeral message message' answering remote remote' payload payload' : Bytes}
    {o o' : Opening} {c c' : Closing} (completes : Completes ephemeral message' o' c' remote' payload')
    (answers : Answers answering ephemeral o') (trusts : Trusts own message o remote payload)
    (closes : Closes priv o c) (same : c.p3 :: c.s3 :: o.items = c'.p3 :: c'.s3 :: o'.items) :
    remote = Primitives.publicKey answering ∧ remote' = Primitives.publicKey priv ∧
      c.se :: o.secrets = c'.se :: o'.secrets := by
  obtain ⟨_, third⟩ := List.cons.inj same
  obtain ⟨_, items⟩ := List.cons.inj third
  obtain ⟨_, before⟩ := List.cons.inj items
  obtain ⟨answerer, ee, es⟩ := trusts.agrees answers before
  have closer := completes.agrees answers trusts closes third
  have e2 : o.e2 = o'.e2 := by
    simp only [Opening.beforePayload, Opening.beforeStatic, List.cons.injEq] at before
    exact before.2.1
  have se : c.se = c'.se := by
    have mine := closes.mixedSE
    have theirs := completes.mixedSE
    rw [e2, answers.ephemeralKey] at mine
    rw [closer] at theirs
    exact shared_eq mine theirs
  refine ⟨answerer, closer, ?_⟩
  rw [Opening.secrets, Opening.secrets, ee, es, se]

namespace Dialogue
variable [Primitives]

/-- One of the calls ended the handshake that settled the terms of the session. -/
def Settled (calls : Dialogue) (role : NoiseRole) (t : NoiseSession) : Prop :=
  ∃ e ∈ calls, e.label.1 = role ∧ ∃ own o c remote, Finishes (e.before role) e.label.2 own o c remote ∧
    t.terms = settledTerms role o c remote

end Dialogue

/-- The initiator `x` and the responder `y` have each other's static keys, and each sends under the key
that the other receives under. -/
structure Joined [Primitives] (start : TwoSessions) (x y : NoiseSession) : Prop where
  initiator : x.remoteStaticPublic = some (start .responder).localIdentity.x25519Public
  responder : y.remoteStaticPublic = some (start .initiator).localIdentity.x25519Public
  forth : x.sendKey = y.recvKey
  back : y.sendKey = x.recvKey

namespace TwoSessions.Created
variable [Primitives] {start s : TwoSessions} {calls : Dialogue} {role : NoiseRole}
  {x y : NoiseSession}

variable (created : start.Created) (run : Run Step start calls s)
include created run

theorem settled (done : (s role).state = .established) : calls.Settled role (s role) := by
  induction run with
  | nil =>
    obtain ⟨_, _, _, _, made⟩ := created role
    obtain ⟨_, shape⟩ := new_eq_ok made
    rw [shape] at done
    cases done
  | @snoc history s label t run taken ih =>
    obtain ⟨rfl, _⟩ := taken
    have earlier {t : NoiseSession} (before : (s role).state = .established)
        (same : t.terms = (s role).terms) :
        Dialogue.Settled (history ++ [⟨s, label, s.perform label⟩]) role t := by
      obtain ⟨e, member, mine, own, o, c, remote, finishes, terms⟩ := ih before
      exact ⟨e, List.mem_append_left _ member, mine, own, o, c, remote, finishes, same.trans terms⟩
    by_cases mine : label.1 = role
    · subst mine
      have next : s.perform label label.1 = NoiseSession.perform label.2 (s label.1) :=
        Function.update_self ..
      obtain ⟨stage, endpoint⟩ := created.stage run label.1
      obtain ⟨send, recv, channel⟩ := (created.transported run label.1).channel
      rw [next] at done ⊢
      by_cases before : (s label.1).state = .established
      · exact earlier before (channel.perform_terms before done)
      · obtain ⟨_, own, o, c, remote, finishes, after⟩ := stage.opens before done
        have role : (s label.1).role = label.1 := congrArg Prod.fst endpoint
        refine ⟨⟨s, label, s.perform label⟩, by simp, rfl, own, o, c, remote, finishes, ?_⟩
        rw [after]
        simp only [terms, settledTerms, NoiseSession.established, sendKey, recvKey, transport,
          Option.bind_some, role]
    · have next : s.perform label role = s role := Function.update_of_ne (Ne.symm mine) _ _
      rw [next] at done ⊢
      exact earlier done rfl

omit run created in
theorem settled_sub {history : Dialogue} (settled : history.Settled role x) (sub : history ⊆ calls) :
    calls.Settled role x := by
  obtain ⟨e, member, rest⟩ := settled
  exact ⟨e, sub member, rest⟩

variable [laws : LawfulPrimitives]

/-- The responder's handshake ends a conversation that it read as one opening. -/
theorem settled_responder (settled : calls.Settled .responder y) : ∃ e ∈ calls, e.label.1 = .responder ∧
    ∃ own o c remote, Completed (e.before .responder) e.label.2 own o c remote ∧
      transcript (calls.conversation .responder) = c.p3 :: c.s3 :: o.items ∧
      y.terms = settledTerms .responder o c remote := by
  obtain ⟨e, member, mine, own, o, c, remote, finishes, terms⟩ := settled
  cases finishes with
  | closed closed => cases closed.role.symm.trans (created.endpoint run member .responder).1
  | completed completed =>
    obtain ⟨_, o', completed', whole, hash⟩ := created.completed run member mine completed
    refine ⟨e, member, mine, own, o', c, remote, completed', whole, terms.trans ?_⟩
    -- the secrets that the session has mixed are those of either reading
    have same := Option.some.inj (completed.waits.symm.trans completed'.waits)
    have chain : chainKey o.secrets = chainKey o'.secrets :=
      congrArg (fun handshake => handshake.symmetricState.chainingKey) same
    have keys : transportKeys (c.se :: o.secrets) = transportKeys (c.se :: o'.secrets) := by
      simp only [transportKeys, chainKey, chain]
    rw [settledTerms, settledTerms, keys, hash]

theorem settled_initiator (settled : calls.Settled .initiator x) : ∃ e ∈ calls, e.label.1 = .initiator ∧
    ∃ own o c remote, Closed (e.before .initiator) e.label.2 own o c remote ∧
      transcript (calls.conversation .initiator) = c.p3 :: c.s3 :: o.items ∧
      x.terms = settledTerms .initiator o c remote := by
  obtain ⟨e, member, mine, own, o, c, remote, finishes, terms⟩ := settled
  cases finishes with
  | closed closed =>
    exact ⟨e, member, mine, own, o, c, remote, closed, created.closed run member mine closed, terms⟩
  | completed completed => cases completed.role.symm.trans (created.endpoint run member .initiator).1

/-- An established session has the hash of all that was said. -/
theorem settled_hash {z : NoiseSession} (settled : calls.Settled role z) :
    z.handshakeHash = some (transcriptHash (transcript (calls.conversation role))) := by
  cases role with
  | initiator =>
    obtain ⟨_, _, _, _, o, c, remote, _, whole, terms⟩ := created.settled_initiator run settled
    rw [whole]
    exact congrArg (fun terms => terms.2.1) terms
  | responder =>
    obtain ⟨_, _, _, _, o, c, remote, _, whole, terms⟩ := created.settled_responder run settled
    rw [whole]
    exact congrArg (fun terms => terms.2.1) terms

/-- Sessions with one transcript are joined. -/
theorem joined (initiated : calls.Settled .initiator x) (responded : calls.Settled .responder y)
    (same : transcript (calls.conversation .initiator) = transcript (calls.conversation .responder)) :
    Joined start x y := by
  obtain ⟨e, member, mine, own, o, c, remote, closed, whole, terms⟩ :=
    created.settled_initiator run initiated
  obtain ⟨f, member', mine', own', o', c', remote', completed, whole', terms'⟩ :=
    created.settled_responder run responded
  obtain ⟨_, _, _, _, trusts⟩ := closed.reads
  obtain ⟨_, _, _, _, completes⟩ := completed.reads
  rw [whole, whole'] at same
  obtain ⟨answerer, closer, secrets⟩ :=
    completes.halves_agree completed.answers trusts closed.closes same
  rw [(created.endpoint run member' .responder).2] at answerer
  rw [(created.endpoint run member .initiator).2] at closer
  simp only [NoiseSession.terms, settledTerms, ← secrets, Prod.mk.injEq, if_true, reduceCtorEq, if_false]
    at terms terms'
  obtain ⟨remoteX, _, sendX, recvX⟩ := terms
  obtain ⟨remoteY, _, sendY, recvY⟩ := terms'
  exact ⟨remoteX.trans (congrArg some answerer), remoteY.trans (congrArg some closer),
    sendX.trans recvY.symm, sendY.trans recvX.symm⟩

omit laws in
theorem settled_before {e : Taken TwoSessions (NoiseRole × Call)} (member : e ∈ calls)
    (opened : (e.before role).state = .established) : calls.Settled role (e.before role) := by
  obtain ⟨earlier, later, rfl⟩ := List.append_of_mem member
  exact settled_sub (created.settled run.split.1 opened) (List.subset_append_left _ _)

variable {others : Others} (ideal : Dialogue.Ideal others calls) (secret : Dialogue.Secret others start calls)
  (tagged : ∀ e ∈ calls, Tagged (e.before e.label.1) e.label.2)
include ideal secret tagged

/-- A responder that has the initiator's static key has read what the initiator wrote. -/
theorem same_transcript (responded : calls.Settled .responder y)
    (key : y.remoteStaticPublic = some (start .initiator).localIdentity.x25519Public) :
    transcript (calls.conversation .initiator) = transcript (calls.conversation .responder) := by
  obtain ⟨e, member, mine, own, o, c, remote, completed, whole, terms⟩ :=
    created.settled_responder run responded
  obtain rfl : remote = _ := Option.some.inj ((congrArg (fun terms => terms.1) terms).symm.trans key)
  have tag := tagged e member
  rw [mine] at tag
  rcases Dialogue.closing_authentic created run ideal secret member mine completed
    (completed.carried tag) whole with ⟨_, _, same, _⟩ | ⟨_, held⟩
  · exact same
  · exact absurd held (secret.static .initiator)

/-- Established sessions have one handshake hash exactly when the responder has the initiator's key, and
then they are joined. -/
theorem hash_eq_iff (initiated : calls.Settled .initiator x) (responded : calls.Settled .responder y) :
    (x.handshakeHash = y.handshakeHash ↔
      y.remoteStaticPublic = some (start .initiator).localIdentity.x25519Public) ∧
    (x.handshakeHash = y.handshakeHash → Joined start x y) := by
  have hashX := created.settled_hash run initiated
  have hashY := created.settled_hash run responded
  have meets (same : x.handshakeHash = y.handshakeHash) : Joined start x y := by
    rw [hashX, hashY] at same
    exact created.joined run initiated responded (ideal.transcript_inj ⟨.initiator, List.suffix_rfl⟩
      ⟨.responder, List.suffix_rfl⟩ (Option.some.inj same))
  refine ⟨⟨fun same => (meets same).responder, fun key => ?_⟩, meets⟩
  rw [hashX, hashY, created.same_transcript run ideal secret tagged responded key]

/-- A message is decrypted under the key that it was sent under, to its text, once and in the window. -/
theorem decrypts_message {earlier later : Dialogue} {e : Taken TwoSessions (NoiseRole × Call)}
    (whole : calls = earlier ++ e :: later) {m : TransportMessage} (member : m ∈ earlier.sent role.other)
    (fits : m.number < 2 ^ 32) (opened : (e.before role).state = .established)
    (met : ∀ f ∈ calls, (f.before .responder).state = .established →
      (f.before .responder).remoteStaticPublic = some (start .initiator).localIdentity.x25519Public)
    (plaintext : Bytes) : (∃ t, decrypt m.ciphertext (e.before role) = .ok plaintext t) ↔
      plaintext = m.plaintext ∧ m.number ∉ (earlier.received role).map TransportMessage.number ∧
        highest ((earlier.received role).map TransportMessage.number) <
          m.number + noiseReplayWindowSize := by
  have here : e ∈ calls := whole ▸ by simp
  obtain ⟨f, sending, made⟩ := List.mem_flatMap.mp member
  split at made
  case isFalse => cases made
  case isTrue mine =>
    have there : f ∈ calls := whole ▸ List.mem_append_left _ sending
    obtain ⟨history, rest, split⟩ := List.append_of_mem there
    obtain ⟨_, _, sender⟩ := created.channel_at run split role.other
    obtain ⟨opened', keyed⟩ := sender.encrypted_inv made
    have receiver := created.settled_before run here opened
    have settled := created.settled_before run there opened'
    have joint {x y : NoiseSession} (initiated : calls.Settled .initiator x)
        (responded : calls.Settled .responder y)
        (key : y.remoteStaticPublic = some (start .initiator).localIdentity.x25519Public) :
        Joined start x y :=
      created.joined run initiated responded
        (created.same_transcript run ideal secret tagged responded key)
    have key : (e.before role).recvKey = some m.key := by
      cases role with
      | initiator => exact (joint receiver settled (met f there opened')).back ▸ keyed
      | responder => exact (joint settled receiver (met e here opened)).forth ▸ keyed
    obtain ⟨_, recv, channel⟩ := created.channel_at run whole role
    obtain ⟨_, _, theirs⟩ := created.channel_at run whole role.other
    obtain ⟨i, found⟩ := List.mem_iff_getElem?.mp member
    obtain ⟨_, _, sealed⟩ := theirs.made i m found
    obtain ⟨number, verifies⟩ := sealed.opens fits
    obtain rfl : recv = m.key := Option.some.inj ((channel.keys opened).2.symm.trans key)
    have receives := channel.receives opened
    obtain ⟨c, held, _⟩ := receives.cipher
    constructor
    · rintro ⟨t, returned⟩
      obtain ⟨⟨_, opens⟩, unseen, inRange, _⟩ := receives.decrypt_eq_ok.mp returned
      exact ⟨Option.some.inj (opens.symm.trans verifies.2), number ▸ unseen, number ▸ inRange⟩
    · rintro ⟨rfl, unseen, inRange⟩
      exact ⟨_, receives.decrypt_eq_ok.mpr ⟨verifies, number.symm ▸ unseen, number.symm ▸ inRange, c, held,
        rfl⟩⟩

/-- The sessions of an authenticated handshake are joined, and what one sends the other decrypts. -/
theorem one_channel :
    (∀ e ∈ calls, ∀ f ∈ calls, (e.before .initiator).state = .established →
      (f.before .responder).state = .established →
        ((e.before .initiator).handshakeHash = (f.before .responder).handshakeHash ↔
          (f.before .responder).remoteStaticPublic = some (start .initiator).localIdentity.x25519Public) ∧
        ((e.before .initiator).handshakeHash = (f.before .responder).handshakeHash →
          Joined start (e.before .initiator) (f.before .responder))) ∧
    ((∀ f ∈ calls, (f.before .responder).state = .established →
      (f.before .responder).remoteStaticPublic = some (start .initiator).localIdentity.x25519Public) →
      ∀ (earlier later : Dialogue) e role, calls = earlier ++ e :: later →
        (e.before role).state = .established → ∀ m ∈ earlier.sent role.other, m.number < 2 ^ 32 →
          ∀ plaintext, (∃ t, decrypt m.ciphertext (e.before role) = .ok plaintext t) ↔
            plaintext = m.plaintext ∧ m.number ∉ (earlier.received role).map TransportMessage.number ∧
              highest ((earlier.received role).map TransportMessage.number) <
                m.number + noiseReplayWindowSize) := by
  constructor
  · intro e member f member' opened opened'
    exact created.hash_eq_iff run ideal secret tagged (created.settled_before run member opened)
      (created.settled_before run member' opened')
  · intro met earlier later e role whole opened m member fits plaintext
    exact created.decrypts_message run ideal secret tagged whole member fits opened met plaintext

end TwoSessions.Created
end Bitchat.Crypto

namespace Bitchat.Crypto.Modular
open NoiseSession Dialogue Stateful
attribute [local instance] primitives lawful

theorem noteDialogue_delivered :
    noteDialogue.Delivered firstMessage secondMessage thirdMessage thirdMessage := by
  have sub : dialogue thirdMessage ⊆ noteDialogue := by
    rw [noteDialogue, noteCalls, Run.trace_append]
    exact List.subset_append_left _ _
  obtain ⟨e, member, answered⟩ := dialogue_answered thirdMessage
  obtain ⟨f, member', closed⟩ := dialogue_closed thirdMessage
  refine ⟨?_, ?_, rfl, Or.inl rfl, ⟨e, sub member, answered⟩, f, sub member', closed⟩ <;> decide +kernel

theorem noteDialogue_authentic : Ideal noOthers noteDialogue :=
  delivered_ideal noteDialogue_run noteDialogue_delivered thirdMessage_free.1 thirdMessage_free.2

theorem noteDialogue_long : 5 < noteDialogue.length := by decide +kernel

/-- The call that the first copy is given to. -/
def noteDelivery : Taken TwoSessions (NoiseRole × Call) := noteDialogue.get ⟨5, noteDialogue_long⟩

theorem noteDelivery_opened (role : NoiseRole) : (noteDelivery.before role).state = .established := by
  cases role <;> decide +kernel

/-- After a handshake that the network leaves alone, the first copy of the text is decrypted. -/
theorem one_channel_note : ∃ e ∈ noteDialogue,
    Joined twoDevices (e.before .initiator) (e.before .responder) ∧
    ∃ t, decrypt note (e.before .responder) = .ok [1, 2, 3] t := by
  have whole : noteDialogue = noteDialogue.take 5 ++ noteDelivery :: noteDialogue.drop 6 := by
    rw [noteDelivery, List.get_eq_getElem, ← List.drop_eq_getElem_cons noteDialogue_long,
      List.take_append_drop]
  have met : ∀ f ∈ noteDialogue, (f.before .responder).state = .established →
      (f.before .responder).remoteStaticPublic = some (twoDevices .initiator).localIdentity.x25519Public := by
    decide +kernel
  obtain ⟨m, member, fits, text, bytes, unseen, inRange⟩ :
      ∃ m ∈ Dialogue.sent (noteDialogue.take 5) .initiator, m.number < 2 ^ 32 ∧
        m.plaintext = [1, 2, 3] ∧ m.ciphertext = note ∧
        m.number ∉ (Dialogue.received (noteDialogue.take 5) .responder).map TransportMessage.number ∧
        NoiseCipherState.highest ((Dialogue.received (noteDialogue.take 5) .responder).map
          TransportMessage.number) < m.number + noiseReplayWindowSize := by
    decide +kernel
  have member' : noteDelivery ∈ noteDialogue := List.get_mem _ _
  obtain ⟨meets, delivers⟩ := twoDevices_created.one_channel noteDialogue_run noteDialogue_authentic
    (noOthers_secret _ _) (by decide +kernel)
  obtain ⟨agree, joined⟩ := meets _ member' _ member' (noteDelivery_opened .initiator)
    (noteDelivery_opened .responder)
  refine ⟨_, member', joined (agree.mpr (met _ member' (noteDelivery_opened .responder))), ?_⟩
  rw [← bytes]
  exact (delivers met _ _ _ .responder whole (noteDelivery_opened .responder) m member fits [1, 2, 3]).mpr
    ⟨text.symm, unseen, inRange⟩

end Bitchat.Crypto.Modular
