import Bitchat.Crypto.DeliveredHandshakes

/-! Authentication of the handshake under ideal cryptography. A handshake whose payloads are sealed
is authenticated: who seals the last payload of a message holds the static key that the message
claims. A message that ends behind its static key has no such seal, and is taken all the same. -/
namespace Bitchat.Crypto
open NoiseHandshakeState NoiseSession

/-- All others: the seals they make, the exchanged secrets they know, and the public keys whose
private keys they hold. -/
structure Others where
  seals : Set Seal
  secrets : Set Bytes
  holds : Set Bytes

namespace Dialogue
variable [Primitives]

/-- The cryptography is ideal in the run. -/
structure Ideal (others : Others) (calls : Dialogue) : Prop where
  /-- Data that open under a key and associated data were sealed under them. -/
  aead : ∀ role check, calls.Verified role check →
    (∃ sealer, calls.Sealed sealer check.sealed) ∨ check.sealed ∈ others.seals
  /-- Who seals under a derived key knows the secret that it was derived from. -/
  hkdf : ∀ role check, calls.Verified role check → check.sealed ∈ others.seals →
    check.secret ∈ others.secrets
  /-- Who knows an exchanged secret holds one of the two private keys. -/
  exchange : ∀ role check, calls.Verified role check → check.secret ∈ others.secrets →
    Primitives.publicKey check.localPrivate ∈ others.holds ∨ check.remotePublic ∈ others.holds
  /-- No two inputs have one hash, and none has the value that every transcript begins with. -/
  hash : Set.InjOn Primitives.sha256 calls.hashInputs
  start : ∀ input ∈ calls.hashInputs, Primitives.sha256 input ≠ initialHash

/-- The others do not hold the private keys of the two sessions. -/
structure Secret (others : Others) (start : TwoSessions) (calls : Dialogue) : Prop where
  static : ∀ role, (start role).localIdentity.x25519Public ∉ others.holds
  ephemeral : ∀ role, ∀ key ∈ calls.generated role, Primitives.publicKey key ∉ others.holds

/-- The holder of the remote private key made the seal: the other session, whose static key it
is, or one of the others. -/
def TookPart (others : Others) (start : TwoSessions) (calls : Dialogue) (role : NoiseRole)
    (check : Check) : Prop :=
  (calls.Sealed role.other check.sealed ∧
    check.remotePublic = (start role.other).localIdentity.x25519Public) ∨
  (check.sealed ∈ others.seals ∧ check.remotePublic ∈ others.holds)

/-- The handshakes of the run are authenticated. -/
structure Authentic (others : Others) (start : TwoSessions) (calls : Dialogue) : Prop where
  /-- An established session has verified a seal that took the private key of its remote side. -/
  authenticated : ∀ e ∈ calls, ∀ role remote, (e.after role).state = .established →
    (e.after role).remoteStaticPublic = some remote → ∃ check, calls.Verified role check ∧
      check.Valid ∧ check.token = (if role = .initiator then .es else .se) ∧
      check.localPrivate ∈ calls.generated role ∧ check.remotePublic = remote ∧
      TookPart others start calls role check
  /-- Sessions that are established with each other agree on the transcript. -/
  agreed : ∀ e ∈ calls, ∀ f ∈ calls, (e.after .initiator).state = .established →
    (f.after .responder).state = .established →
    (e.after .initiator).remoteStaticPublic = some (start .responder).localIdentity.x25519Public →
    (f.after .responder).remoteStaticPublic = some (start .initiator).localIdentity.x25519Public →
    (e.after .initiator).handshakeHash = (f.after .responder).handshakeHash
  /-- A message that is read as the peer's second or third is one that the peer returned. -/
  identical : ∀ e ∈ calls, ∀ role ephemeral message handshake payload read,
    e.label = (role, .process ephemeral message) → (e.before role).state = .handshaking →
    (e.before role).handshakeState = some handshake → handshake.currentPattern ≠ 0 →
    readMessage message handshake = .ok payload read →
    read.remoteStaticPublic = some (start role.other).localIdentity.x25519Public →
    calls.Returned role.other message

end Dialogue

namespace NoiseSession

/-- The message does not end right behind the sealed static key. -/
def Tagged (s : NoiseSession) : Call → Prop
  | .process _ message => ∀ handshake ∈ s.handshakeState,
      (handshake.currentPattern = 1 → message.length ≠ dhKeySize + (dhKeySize + tagSize)) ∧
      (handshake.currentPattern = 2 → message.length ≠ dhKeySize + tagSize)
  | _ => True

instance (s : NoiseSession) : DecidablePred s.Tagged
  | .process _ message => inferInstanceAs (Decidable (∀ handshake ∈ s.handshakeState,
      (handshake.currentPattern = 1 → message.length ≠ dhKeySize + (dhKeySize + tagSize)) ∧
      (handshake.currentPattern = 2 → message.length ≠ dhKeySize + tagSize)))
  | .start _ | .encrypt _ | .decrypt _ | .close => isTrue trivial

section
variable [Primitives] {s : NoiseSession} {call : Call} {own remote : Bytes} {o : Opening} {c : Closing}

theorem Trusted.carried (trusted : Trusted s call own o remote) (tagged : s.Tagged call) :
    o.p2 ≠ [] := by
  obtain ⟨ephemeral, message, payload, rfl, trusts⟩ := trusted.reads
  have uncut := (tagged _ trusted.waits).1 rfl
  have long := trusts.size
  rw [trusts.p2]
  intro none
  have size := congrArg List.length none
  rw [List.length_drop, List.length_nil] at size
  omega

theorem Completed.carried (completed : Completed s call own o c remote) (tagged : s.Tagged call) :
    c.p3 ≠ [] := by
  obtain ⟨ephemeral, message, payload, rfl, completes⟩ := completed.reads
  have uncut := (tagged _ completed.waits).2 rfl
  have long := completes.size
  rw [completes.p3]
  intro none
  have size := congrArg List.length none
  rw [List.length_drop, List.length_nil] at size
  omega

end
end NoiseSession

namespace Dialogue
variable [Primitives] [laws : LawfulPrimitives] {others : Others} {start s : TwoSessions}
  {calls : Dialogue} {e f : Taken TwoSessions (NoiseRole × Call)} {own remote : Bytes}
  {o : Opening} {c : Closing} {xs ys : List Bytes} {role : NoiseRole} {x : Seal}

/-- Different transcripts of the run have different hashes. -/
theorem Ideal.transcript_inj (ideal : Ideal others calls) (hx : calls.Hashed xs)
    (hy : calls.Hashed ys) (same : transcriptHash xs = transcriptHash ys) : xs = ys := by
  obtain ⟨roleX, suffixX⟩ := hx
  obtain ⟨roleY, suffixY⟩ := hy
  exact HashChain.value_inj laws.sha256_length initialHash_length ideal.hash ideal.start
    (fun i member => ⟨roleX, HashChain.inputs_suffix suffixX i member⟩)
    (fun i member => ⟨roleY, HashChain.inputs_suffix suffixY i member⟩) same

section Steps
variable (created : start.Created) (run : Run TwoSessions.Step start calls s)
  (ideal : Ideal others calls) (secret : Secret others start calls)
include created run ideal

/-- The associated data of a seal tell the transcript that it was made behind. -/
theorem Ideal.behind (sealed : calls.Sealed role x) (hashed : calls.Hashed xs)
    (associated : x.associated = transcriptHash xs) : ∃ e ∈ calls, e.label.1 = role ∧
      (e.before role).role = role ∧
      (e.before role).localIdentity = (start role).localIdentity ∧
      ∃ items, Seals (e.before role) e.label.2 items x ∧ items = xs := by
  obtain ⟨e, member, mine, items, seals⟩ := sealed
  obtain ⟨roles, identity⟩ := created.endpoint run member role
  refine ⟨e, member, mine, roles, identity, items, seals, ?_⟩
  exact ideal.transcript_inj (created.seals run member mine seals) hashed
    (seals.associated.symm.trans associated)

include secret

/-- Who answers an initiator in an authenticated message is the responder, or holds the key. -/
theorem answer_authentic (member : e ∈ calls) (mine : e.label.1 = .initiator)
    (trusted : Trusted (e.before .initiator) e.label.2 own o remote) (carried : o.p2 ≠ []) :
    (calls.Sealed .responder o.payloadSeal ∧
      remote = (start .responder).localIdentity.x25519Public ∧
      calls.Returned .responder (o.e2 ++ o.s2 ++ o.p2)) ∨
    (o.payloadSeal ∈ others.seals ∧ remote ∈ others.holds) := by
  have verified : calls.Verified .initiator ⟨.es, own, remote, o.es, o.payloadSeal⟩ :=
    ⟨e, member, mine, .payload2 trusted carried⟩
  obtain ⟨known, hashed⟩ := created.trusted run member mine trusted
  rcases ideal.aead _ _ verified with ⟨sealer, sealed⟩ | theirs
  · obtain ⟨f, member', mine', roles, identity, items, seals, same⟩ :=
      ideal.behind created run sealed (hashed.suffix (List.suffix_cons ..)) rfl
    generalize whole : o.payloadSeal = x at seals
    -- only the payload of message 2 stands behind as many items
    cases seals with
    | static2 | static3 | payload3 => cases congrArg List.length same
    | @payload2 ephemeral o' answered =>
      obtain rfl : sealer = .responder := roles.symm.trans answered.role
      have p2 : o.p2 = o'.p2 := congrArg Seal.ciphertext whole
      obtain ⟨_, _, _, _, trusts⟩ := trusted.reads
      obtain ⟨key, _⟩ := trusts.agrees answered.answers same.symm
      obtain ⟨label, t, returns⟩ := answered.returns
      refine Or.inl ⟨⟨f, member', mine', _, .payload2 answered⟩, identity ▸ key,
        f, member', mine', ephemeral, _, t, label, ?_⟩
      simp only [Opening.beforePayload, Opening.beforeStatic, List.cons.injEq, and_true] at same
      rw [← same.1, ← same.2.1, p2]
      exact returns
  · refine Or.inr ⟨theirs, ?_⟩
    exact (ideal.exchange _ _ verified (ideal.hkdf _ _ verified theirs)).resolve_left
      (secret.ephemeral _ _ known)

/-- Who closes a handshake in an authenticated message is the initiator, or holds the key. -/
theorem closing_authentic (member : e ∈ calls) (mine : e.label.1 = .responder)
    (completed : Completed (e.before .responder) e.label.2 own o c remote) (carried : c.p3 ≠ [])
    (hashed : transcript (calls.conversation .responder) = c.p3 :: c.s3 :: o.items) :
    (calls.Sealed .initiator (c.payloadSeal o) ∧
      remote = (start .initiator).localIdentity.x25519Public ∧
      transcript (calls.conversation .initiator) = transcript (calls.conversation .responder) ∧
      calls.Returned .initiator (c.s3 ++ c.p3)) ∨
    (c.payloadSeal o ∈ others.seals ∧ remote ∈ others.holds) := by
  have verified : calls.Verified .responder ⟨.se, own, remote, c.se, c.payloadSeal o⟩ :=
    ⟨e, member, mine, .payload3 completed carried⟩
  rcases ideal.aead _ _ verified with ⟨sealer, sealed⟩ | theirs
  · obtain ⟨f, member', mine', roles, identity, items, seals, same⟩ :=
      ideal.behind created run sealed ⟨.responder, hashed ▸ List.suffix_cons _ _⟩ rfl
    generalize whole : c.payloadSeal o = x at seals
    cases seals with
    | static2 | payload2 | static3 => cases congrArg List.length same
    | @payload3 own' o' c' remote' closed =>
      obtain rfl : sealer = .initiator := roles.symm.trans closed.role
      have conversation := created.closed run member' mine' closed
      have p3 : c.p3 = c'.p3 := congrArg Seal.ciphertext whole
      obtain ⟨_, _, _, _, completes⟩ := completed.reads
      obtain ⟨_, _, _, _, trusts⟩ := closed.reads
      have key := completes.agrees completed.answers trusts closed.closes same
      obtain ⟨ephemeral, label, t, returns⟩ := closed.returns
      refine Or.inl ⟨⟨f, member', mine', _, .payload3 closed⟩, identity ▸ key, ?_,
        f, member', mine', ephemeral, _, t, label, ?_⟩
      · rw [conversation, hashed, p3, same]
      · rw [p3, ← (List.cons.inj same).1]
        exact returns
  · refine Or.inr ⟨theirs, ?_⟩
    have known := (created.completed run member mine completed).1
    exact (ideal.exchange _ _ verified (ideal.hkdf _ _ verified theirs)).resolve_left
      (secret.ephemeral _ _ known)

variable (tagged : ∀ e ∈ calls, Tagged (e.before e.label.1) e.label.2)
include tagged

theorem established_authentic (member : e ∈ calls) (done : (e.after role).state = .established)
    (key : (e.after role).remoteStaticPublic = some remote) : ∃ check, calls.Verified role check ∧
      check.Valid ∧ check.token = (if role = .initiator then .es else .se) ∧
      check.localPrivate ∈ calls.generated role ∧ check.remotePublic = remote ∧
      TookPart others start calls role check := by
  obtain ⟨f, member', mine, remote', items, ends, key', _⟩ := created.ended run member done
  obtain rfl := Option.some.inj (key.symm.trans key')
  have tag := tagged f member'
  rw [mine] at tag
  cases role with
  | initiator =>
    obtain ⟨own, o, c, closed, _⟩ := created.ends_initiator run member' ends
    have carried := closed.toTrusted.carried tag
    obtain ⟨known, _⟩ := created.trusted run member' mine closed.toTrusted
    have verifies : ChecksSeal _ _ _ := .payload2 closed.toTrusted carried
    refine ⟨_, ⟨f, member', mine, verifies⟩, verifies.valid, rfl, known, rfl, ?_⟩
    exact (answer_authentic created run ideal secret member' mine closed.toTrusted carried).imp_left
      fun answered => ⟨answered.1, answered.2.1⟩
  | responder =>
    obtain ⟨own, o, c, completed, known, whole, _⟩ := created.ends_responder run member' mine ends
    have carried := completed.carried tag
    have verifies : ChecksSeal _ _ _ := .payload3 completed carried
    refine ⟨_, ⟨f, member', mine, verifies⟩, verifies.valid, rfl, known, rfl, ?_⟩
    exact (closing_authentic created run ideal secret member' mine completed carried whole).imp_left
      fun closed => ⟨closed.1, closed.2.1⟩

theorem established_agreed (member : e ∈ calls) (member' : f ∈ calls)
    (initiated : (e.after .initiator).state = .established)
    (responded : (f.after .responder).state = .established)
    (key : (f.after .responder).remoteStaticPublic =
      some (start .initiator).localIdentity.x25519Public) :
    (e.after .initiator).handshakeHash = (f.after .responder).handshakeHash := by
  obtain ⟨g, memberX, mineX, _, items, endsX, _, hashX⟩ := created.ended run member initiated
  obtain ⟨h, memberY, mineY, remote, items', endsY, keyY, hashY⟩ :=
    created.ended run member' responded
  obtain rfl := Option.some.inj (key.symm.trans keyY)
  obtain ⟨_, o, c, closed, rfl⟩ := created.ends_initiator run memberX endsX
  obtain ⟨own, o', c', completed, _, whole, hash⟩ := created.ends_responder run memberY mineY endsY
  have tag := tagged h memberY
  rw [mineY] at tag
  rcases closing_authentic created run ideal secret memberY mineY completed (completed.carried tag)
    whole with ⟨_, _, same, _⟩ | ⟨_, held⟩
  · rw [hashX, hashY, hash, ← created.closed run memberX mineX closed, ← whole, same]
  · exact absurd held (secret.static .initiator)

theorem read_returned {ephemeral message payload : Bytes} {handshake read : NoiseHandshakeState}
    (member : e ∈ calls) (label : e.label = (role, .process ephemeral message))
    (going : (e.before role).state = .handshaking)
    (held : (e.before role).handshakeState = some handshake) (begun : handshake.currentPattern ≠ 0)
    (reads : readMessage message handshake = .ok payload read)
    (key : read.remoteStaticPublic = some (start role.other).localIdentity.x25519Public) :
    calls.Returned role.other message := by
  have mine : e.label.1 = role := congrArg Prod.fst label
  have call : e.label.2 = .process ephemeral message := congrArg Prod.snd label
  have tag := tagged e member
  rw [mine] at tag
  obtain ⟨roles, _⟩ := created.endpoint run member role
  obtain ⟨keys, said, after, stage, _⟩ := created.at_call run member mine
  cases stage with
  | idle idle => cases idle.symm.trans going
  | begun _ _ waits =>
    obtain rfl := Option.some.inj (waits.symm.trans held)
    exact absurd rfl begun
  | outside _ ended => exact absurd going ended
  | waiting2 initiator _ _ waits =>
    obtain rfl : role = .initiator := roles.symm.trans initiator
    obtain rfl := Option.some.inj (waits.symm.trans held)
    obtain ⟨o, remote, trusts, rfl⟩ := read2_eq_ok.mp reads
    obtain rfl : remote = _ := Option.some.inj key
    have trusted : Trusted (e.before .initiator) e.label.2 _ o _ :=
      ⟨initiator, going, waits, ephemeral, message, payload, call, trusts⟩
    rcases answer_authentic created run ideal secret member mine trusted (trusted.carried tag) with
      ⟨_, _, returned⟩ | ⟨_, theirs⟩
    · rw [trusts.message_eq]
      exact returned
    · exact absurd theirs (secret.static .responder)
  | waiting3 responder _ _ waits answers _ =>
    obtain rfl : role = .responder := roles.symm.trans responder
    obtain rfl := Option.some.inj (waits.symm.trans held)
    obtain ⟨c, remote, completes, rfl⟩ := read3_eq_ok.mp reads
    obtain rfl : remote = _ := Option.some.inj key
    have completed : Completed (e.before .responder) e.label.2 _ _ c _ :=
      ⟨responder, going, waits, answers, ephemeral, message, payload, call, completes⟩
    obtain ⟨_, o', completed', whole, _⟩ := created.completed run member mine completed
    rcases closing_authentic created run ideal secret member mine completed' (completed.carried tag)
      whole with ⟨_, _, _, returned⟩ | ⟨_, theirs⟩
    · rw [completes.message_eq]
      exact returned
    · exact absurd theirs (secret.static .initiator)

end Steps

/-- Handshakes whose second and third messages carry their last seals are authenticated. -/
theorem handshakes_authentic (created : start.Created) (run : Run TwoSessions.Step start calls s)
    (ideal : Ideal others calls) (secret : Secret others start calls)
    (tagged : ∀ e ∈ calls, Tagged (e.before e.label.1) e.label.2) :
    Authentic others start calls where
  authenticated _ member _ _ done key :=
    established_authentic created run ideal secret tagged member done key
  agreed _ member _ member' initiated responded _ key :=
    established_agreed created run ideal secret tagged member member' initiated responded key
  identical _ member _ _ _ _ _ _ label going held begun reads key :=
    read_returned created run ideal secret tagged member label going held begun reads key

end Dialogue
end Bitchat.Crypto

namespace Bitchat.Crypto.Modular
open NoiseSession Dialogue Stateful
attribute [local instance] primitives lawful

def twoDevices : TwoSessions
  | .initiator => caller
  | .responder => callee

def thirdMessage : Bytes := answer (outcome (processHandshakeMessage (repeated 3) secondMessage)
  (perform (.start (repeated 3)) caller))

/-- The third message without the seal of its payload. -/
def truncatedMessage : Bytes := thirdMessage.take (dhKeySize + tagSize)

/-- The calls of a handshake that ends with the message `last`. -/
def callsEnding (last : Bytes) : List (NoiseRole × Call) :=
  [(.initiator, .start (repeated 3)), (.responder, .process (repeated 4) firstMessage),
    (.initiator, .process (repeated 3) secondMessage), (.responder, .process (repeated 4) last)]

def dialogue (last : Bytes) : Dialogue := Run.trace TwoSessions.perform twoDevices (callsEnding last)

def lastSessions (last : Bytes) : TwoSessions :=
  (callsEnding last).foldl (fun s label => s.perform label) twoDevices

/-- What the two sides hash. -/
def hashedInputs (last : Bytes) : List Bytes :=
  [thirdMessage, last].flatMap fun message => HashChain.inputs Primitives.sha256 initialHash
    (transcript [firstMessage, secondMessage, message])

theorem twoDevices_created : twoDevices.Created := by
  intro role
  cases role with
  | initiator => exact ⟨rfl, device 1, _, some .initiator, rfl⟩
  | responder => exact ⟨rfl, device 2, _, some .responder, rfl⟩

theorem dialogue_run (last : Bytes) :
    Run TwoSessions.Step twoDevices (dialogue last) (lastSessions last) := by
  apply Run.of_trace
  intro s label member
  refine ⟨rfl, ?_⟩
  simp only [callsEnding, List.mem_cons, List.not_mem_nil, or_false] at member
  rcases member with rfl | rfl | rfl | rfl <;> simp [Call.generated, repeated_length]

theorem lastSessions_reached (last : Bytes) : ∃ e ∈ dialogue last, e.after = lastSessions last := by
  refine ⟨_, List.mem_cons_of_mem _ (List.mem_cons_of_mem _ (List.mem_cons_of_mem _
    List.mem_cons_self)), ?_⟩
  simp only [lastSessions, callsEnding, List.foldl_cons, List.foldl_nil]

theorem first_answers : ∃ own o, Answered callee (.process (repeated 4) firstMessage) own o := by
  have answers : (perform (.process (repeated 4) firstMessage) callee).state ≠ .failed := by
    decide +kernel
  obtain ⟨o, answered, _⟩ := (process_first (repeated 4) firstMessage (s := callee) rfl
    (Or.inl rfl)).resolve_right answers
  exact ⟨_, o, answered⟩

theorem dialogue_answered (last : Bytes) : ∃ e ∈ dialogue last, e.label.1 = .responder ∧
    ∃ own o, Answered (e.before .responder) e.label.2 own o :=
  ⟨_, List.mem_cons_of_mem _ List.mem_cons_self, rfl, first_answers⟩

theorem second_closes : ∃ own o c remote, Closed (perform (.start (repeated 3)) caller)
    (.process (repeated 3) secondMessage) own o c remote := by
  have started : perform (.start (repeated 3)) caller =
      caller.holding (.awaiting2 caller.localIdentity.x25519Private (repeated 3)) :=
    (start_initiator rfl rfl (repeated_length 3)).1
  have closes : called.state ≠ .failed := by decide +kernel
  obtain ⟨o, c, remote, closed, _⟩ : ∃ o c remote, Closed (perform (.start (repeated 3)) caller)
      (.process (repeated 3) secondMessage) (repeated 3) o c remote ∧ _ := by
    refine (process_second (repeated 3) secondMessage ?_ ?_ ?_).resolve_right closes <;>
      rw [started] <;> rfl
  exact ⟨_, o, c, remote, closed⟩

theorem dialogue_closed (last : Bytes) : ∃ e ∈ dialogue last, e.label.1 = .initiator ∧
    ∃ own o c remote, Closed (e.before .initiator) e.label.2 own o c remote :=
  ⟨_, List.mem_cons_of_mem _ (List.mem_cons_of_mem _ List.mem_cons_self), rfl, second_closes⟩

/-- No one else seals anything, knows a secret or holds a key. -/
def noOthers : Others := ⟨∅, ∅, ∅⟩

theorem noOthers_secret (start : TwoSessions) (calls : Dialogue) : Secret noOthers start calls :=
  ⟨fun _ none => none.elim, fun _ _ _ none => none.elim⟩

/-- Where nobody else seals and the hashes differ, a run that delivers the messages is ideal. -/
theorem delivered_ideal {s : TwoSessions} {calls : Dialogue} {last : Bytes}
    (run : Run TwoSessions.Step twoDevices calls s)
    (delivered : calls.Delivered firstMessage secondMessage thirdMessage last)
    (free : ∀ a ∈ hashedInputs last, ∀ b ∈ hashedInputs last,
      Primitives.sha256 a = Primitives.sha256 b → a = b)
    (fresh : ∀ a ∈ hashedInputs last, Primitives.sha256 a ≠ initialHash) : Ideal noOthers calls := by
  have hashed : ∀ a ∈ calls.hashInputs, a ∈ hashedInputs last := by
    rintro a ⟨role, member⟩
    cases role with
    | initiator =>
      obtain ⟨later, same⟩ := delivered.initiator
      rw [← same] at member
      exact List.mem_flatMap.mpr ⟨thirdMessage, by simp, member⟩
    | responder =>
      obtain ⟨later, same⟩ := delivered.responder
      rw [← same] at member
      exact List.mem_flatMap.mpr ⟨last, by simp, member⟩
  refine ⟨fun role check verified => Or.inl ⟨role.other, ?_⟩, fun _ _ _ none => none.elim,
    fun _ _ _ none => none.elim, ?_, ?_⟩
  · exact delivered.sealed twoDevices_created run verified
  · exact fun a ha b hb => free a (hashed a ha) b (hashed b hb)
  · exact fun a ha => fresh a (hashed a ha)

/-- The inputs of an untouched handshake have different hashes. -/
theorem thirdMessage_free : (∀ a ∈ hashedInputs thirdMessage, ∀ b ∈ hashedInputs thirdMessage,
      Primitives.sha256 a = Primitives.sha256 b → a = b) ∧
    ∀ a ∈ hashedInputs thirdMessage, Primitives.sha256 a ≠ initialHash := by
  constructor <;> decide +kernel

/-- A handshake, a forged ciphertext while it is under way and another one after it, and the first
message once more, which ends the session that gets it. -/
def disturbedCalls : List (NoiseRole × Call) :=
  (callsEnding thirdMessage).take 2 ++ [(.initiator, .decrypt (repeated 9))] ++
    (callsEnding thirdMessage).drop 2 ++
    [(.responder, .decrypt (repeated 9)), (.initiator, .process (repeated 3) firstMessage)]

def disturbed : Dialogue := Run.trace TwoSessions.perform twoDevices disturbedCalls

theorem disturbed_run : Run TwoSessions.Step twoDevices disturbed
    (disturbedCalls.foldl (fun s label => s.perform label) twoDevices) := by
  apply Run.of_trace
  intro s label member
  refine ⟨rfl, ?_⟩
  simp only [disturbedCalls, callsEnding, List.take_succ_cons, List.take_zero, List.drop_succ_cons,
    List.drop_zero, List.cons_append, List.nil_append, List.mem_cons, List.not_mem_nil, or_false] at member
  rcases member with rfl | rfl | rfl | rfl | rfl | rfl | rfl <;> simp [Call.generated, repeated_length]

theorem disturbed_delivered :
    disturbed.Delivered firstMessage secondMessage thirdMessage thirdMessage := by
  have answered : ∃ e ∈ disturbed, e.label.1 = .responder ∧
      ∃ own o, Answered (e.before .responder) e.label.2 own o :=
    ⟨_, List.mem_cons_of_mem _ List.mem_cons_self, rfl, first_answers⟩
  have closed : ∃ e ∈ disturbed, e.label.1 = .initiator ∧
      ∃ own o c remote, Closed (e.before .initiator) e.label.2 own o c remote := by
    have untouched : perform (.decrypt (repeated 9)) (perform (.start (repeated 3)) caller) =
        perform (.start (repeated 3)) caller := rfl
    have closes := second_closes
    rw [← untouched] at closes
    exact ⟨_, List.mem_cons_of_mem _ (List.mem_cons_of_mem _ (List.mem_cons_of_mem _ List.mem_cons_self)),
      rfl, closes⟩
  refine ⟨?_, ?_, rfl, Or.inl rfl, answered, closed⟩ <;> decide +kernel

/-- The sessions of a handshake authenticate each other, whatever else they are sent. -/
theorem delivered_handshake_authentic : Authentic noOthers twoDevices disturbed ∧
    ∃ e ∈ disturbed, (e.after .initiator).state = .established ∧
      (e.after .responder).state = .established ∧
      (e.after .initiator).handshakeHash = (e.after .responder).handshakeHash := by
  have ideal := delivered_ideal disturbed_run disturbed_delivered thirdMessage_free.1 thirdMessage_free.2
  have authentic := handshakes_authentic twoDevices_created disturbed_run ideal (noOthers_secret _ _)
    (by decide +kernel)
  have met : ∃ e ∈ disturbed, (e.after .initiator).state = .established ∧
      (e.after .responder).state = .established ∧
      (e.after .initiator).remoteStaticPublic = some (twoDevices .responder).localIdentity.x25519Public ∧
      (e.after .responder).remoteStaticPublic = some (twoDevices .initiator).localIdentity.x25519Public := by
    decide +kernel
  obtain ⟨e, member, initiated, responded, theirs, ours⟩ := met
  exact ⟨authentic, e, member, initiated, responded,
    authentic.agreed e member e member initiated responded theirs ours⟩

/-- The third message is taken without its last seal, and the sides disagree on the transcript. -/
theorem truncated_message_accepted : ¬ ∀ (others : Others) (start s : TwoSessions) (calls : Dialogue),
    start.Created → Run TwoSessions.Step start calls s → Ideal others calls →
    Secret others start calls → Authentic others start calls := by
  intro authenticity
  have delivered : (dialogue truncatedMessage).Delivered firstMessage secondMessage thirdMessage
      truncatedMessage := by
    refine ⟨?_, ?_, ?_, Or.inr ?_, dialogue_answered truncatedMessage, dialogue_closed truncatedMessage⟩ <;>
      decide +kernel
  have ideal : Ideal noOthers (dialogue truncatedMessage) := by
    refine delivered_ideal (dialogue_run truncatedMessage) delivered ?_ ?_ <;> decide +kernel
  have authentic := authenticity noOthers twoDevices _ _ twoDevices_created (dialogue_run truncatedMessage)
    ideal (noOthers_secret _ _)
  obtain ⟨e, last, same⟩ := lastSessions_reached truncatedMessage
  have agreed := authentic.agreed e last e last
  rw [same] at agreed
  have differ : (lastSessions truncatedMessage .initiator).handshakeHash ≠
      (lastSessions truncatedMessage .responder).handshakeHash := by decide +kernel
  apply differ
  apply agreed <;> decide +kernel

end Bitchat.Crypto.Modular
