import Bitchat.Crypto.HandshakeStages
import Mathlib.Data.List.Infix

/-! Two sessions of a handshake, one in each role, and whoever calls them. The messages of a call
are the caller's choice, so the network may replay, cut, replace, reorder and invent them. What a
session hashes is read off the messages that it took and returned. -/
namespace Bitchat.Crypto
open NoiseHandshakeState NoiseSession

def NoiseRole.other : NoiseRole → NoiseRole
  | .initiator => .responder
  | .responder => .initiator

/-- The two sessions of a handshake, each in its role. -/
abbrev TwoSessions := NoiseRole → NoiseSession

/-- The calls that were made of the two sessions. -/
abbrev Dialogue := List (Taken TwoSessions (NoiseRole × Call))

namespace TwoSessions
variable [Primitives]

def perform (label : NoiseRole × Call) (s : TwoSessions) : TwoSessions :=
  Function.update s label.1 (NoiseSession.perform label.2 (s label.1))

/-- The generator returns keys of the right size. -/
def Step (s : TwoSessions) (label : NoiseRole × Call) (t : TwoSessions) : Prop :=
  t = s.perform label ∧ ∀ k ∈ label.2.generated, k.length = x25519KeySize

/-- Each session is as its constructor leaves it. -/
def Created (s : TwoSessions) : Prop := ∀ role, (s role).role = role ∧
  ∃ identity remotePeerId chosen, NoiseSession.new identity remotePeerId chosen = .ok (s role)

end TwoSessions

/-- The parts of a conversation as they are hashed, latest first. Behind them stands the prologue. -/
def transcript : List Bytes → List Bytes
  | [] => [[]]
  | [m1] => first m1
  | [m1, m2] => second m2 ++ first m1
  | m1 :: m2 :: m3 :: _ => third m3 ++ (second m2 ++ first m1)
where
  first (m1 : Bytes) : List Bytes := [m1.drop dhKeySize, Bytes.slice m1 0 dhKeySize, []]
  second (m2 : Bytes) : List Bytes :=
    [m2.drop (dhKeySize + (dhKeySize + tagSize)),
      Bytes.slice m2 dhKeySize (dhKeySize + (dhKeySize + tagSize)), Bytes.slice m2 0 dhKeySize]
  third (m3 : Bytes) : List Bytes :=
    [m3.drop (dhKeySize + tagSize), Bytes.slice m3 0 (dhKeySize + tagSize)]

namespace Dialogue

/-- The private keys that the generator returned to a session. -/
def generated (calls : Dialogue) (role : NoiseRole) : List Bytes :=
  calls.flatMap fun e => if e.label.1 = role then e.label.2.generated else []

variable [Primitives]

/-- The handshake messages that a session took and returned, in order. -/
def conversation (calls : Dialogue) (role : NoiseRole) : List Bytes :=
  calls.flatMap fun e => if e.label.1 = role then messages (e.before role) e.label.2 else []

/-- The session sealed these data. -/
def Sealed (calls : Dialogue) (role : NoiseRole) (sealed : Seal) : Prop :=
  ∃ e ∈ calls, e.label.1 = role ∧ ∃ items, Seals (e.before role) e.label.2 items sealed

def Verified (calls : Dialogue) (role : NoiseRole) (check : Check) : Prop :=
  ∃ e ∈ calls, e.label.1 = role ∧ ChecksSeal (e.before role) e.label.2 check

/-- The session returned this message. -/
def Returned (calls : Dialogue) (role : NoiseRole) (message : Bytes) : Prop :=
  ∃ e ∈ calls, e.label.1 = role ∧ ∃ ephemeral received t, e.label.2 = .process ephemeral received ∧
    processHandshakeMessage ephemeral received (e.before role) = .ok (some message) t

/-- One of the calls ended the handshake that the session in state `t` is established by. -/
def Ended (calls : Dialogue) (role : NoiseRole) (t : NoiseSession) : Prop :=
  ∃ e ∈ calls, e.label.1 = role ∧ ∃ remote items, EndsWith (e.before role) e.label.2 remote items ∧
    t.remoteStaticPublic = some remote ∧ t.handshakeHash = some (transcriptHash items)

/-- A session hashed these items, in this order. -/
def Hashed (calls : Dialogue) (items : List Bytes) : Prop :=
  ∃ role, items <:+ transcript (calls.conversation role)

/-- The inputs of the hash function in the transcripts of both sessions. -/
def hashInputs (calls : Dialogue) : Set Bytes := {input | ∃ role, input ∈
  HashChain.inputs Primitives.sha256 initialHash (transcript (calls.conversation role))}

section
variable {earlier later calls : Dialogue} {role : NoiseRole} {xs ys : List Bytes}
  {e : Taken TwoSessions (NoiseRole × Call)}

omit [Primitives] in
theorem generated_append : generated (earlier ++ later) role =
    generated earlier role ++ generated later role := List.flatMap_append

theorem conversation_append : conversation (earlier ++ later) role =
    conversation earlier role ++ conversation later role := List.flatMap_append

omit [Primitives] in
theorem generated_cons (mine : e.label.1 = role) :
    generated (e :: later) role = e.label.2.generated ++ generated later role := by
  rw [generated, List.flatMap_cons, if_pos mine]
  rfl

theorem conversation_cons (mine : e.label.1 = role) : conversation (e :: later) role =
    messages (e.before role) e.label.2 ++ conversation later role := by
  rw [conversation, List.flatMap_cons, if_pos mine]
  rfl

theorem Hashed.suffix (hashed : calls.Hashed ys) (earlier : xs <:+ ys) : calls.Hashed xs := by
  obtain ⟨role, whole⟩ := hashed
  exact ⟨role, earlier.trans whole⟩

end
end Dialogue

section Transcript
variable {m1 m2 m3 own priv ephemeral remote payload : Bytes} {more : List Bytes} {o : Opening}
  {c : Closing}

theorem transcript_second :
    transcript.second m2 ++ transcript.first m1 <:+ transcript (m1 :: m2 :: more) := by
  cases more with
  | nil => exact List.suffix_rfl
  | cons m3 rest => exact List.suffix_append ..

theorem first_opening (size : o.e1.length = dhKeySize) :
    transcript.first (o.e1 ++ o.p1) = [o.p1, o.e1, []] := by
  rw [transcript.first, ← size, List.drop_left, Bytes.slice_left _ _ rfl]

variable [Primitives] [laws : LawfulPrimitives]

namespace NoiseHandshakeState

/-- What the initiator read is hashed as the opening that it took it for. -/
theorem Carries2.items_eq (carries : Carries2 own m2 o) (size : own.length = x25519KeySize) :
    o.items = transcript.second m2 ++ transcript.first (Primitives.publicKey own) := by
  have width : (Primitives.publicKey own).length = dhKeySize := publicKey_length size
  have first : transcript.first (o.e1 ++ o.p1) = [o.p1, o.e1, []] :=
    first_opening (by rw [carries.e1, width])
  rw [carries.p1, List.append_nil, carries.e1] at first
  rw [first]
  simp only [Opening.items, Opening.beforePayload, Opening.beforeStatic, transcript.second,
    carries.e1, carries.p1, carries.p2, carries.s2, carries.e2, List.cons_append, List.nil_append]

/-- What the responder wrote is hashed as the opening that it wrote it for. -/
theorem Answers.items_eq (answers : Answers priv ephemeral o) (size : priv.length = x25519KeySize)
    (e1 : o.e1.length = dhKeySize) :
    o.items = transcript.second (o.e2 ++ o.s2 ++ o.p2) ++ transcript.first (o.e1 ++ o.p1) := by
  obtain ⟨sizeE, sizeS, _⟩ := answers.lengths size
  have rest : o.e2 ++ o.s2 ++ o.p2 = o.e2 ++ (o.s2 ++ o.p2) := List.append_assoc ..
  have width : (o.e2 ++ o.s2).length = dhKeySize + (dhKeySize + tagSize) := by
    rw [List.length_append, sizeE, sizeS]
  rw [first_opening e1, transcript.second, List.drop_left' width, rest,
    Bytes.slice_append o.e2 o.s2 o.p2 sizeE.symm (by rw [sizeS]), Bytes.slice_left o.e2 _ sizeE.symm]
  rfl

omit laws in
theorem Completes.third_eq (completes : Completes own m3 o c remote payload) :
    transcript.third m3 = [c.p3, c.s3] := by
  rw [transcript.third, ← completes.p3, ← completes.s3]

theorem Closes.third_eq (closes : Closes priv o c) (size : priv.length = x25519KeySize) :
    transcript.third (c.s3 ++ c.p3) = [c.p3, c.s3] := by
  have sizeS : c.s3.length = dhKeySize + tagSize := by
    rw [laws.aead_length closes.sealedStatic, publicKey_length size]
  rw [transcript.third, List.drop_left' sizeS, Bytes.slice_left c.s3 c.p3 sizeS.symm]

end NoiseHandshakeState
end Transcript

namespace TwoSessions.Created
variable [Primitives] {start s : TwoSessions} {calls : Dialogue} {role : NoiseRole}
  {e : Taken TwoSessions (NoiseRole × Call)} {own remote : Bytes} {o : Opening} {c : Closing}
  {items : List Bytes}

variable (created : start.Created) (run : Run Step start calls s)
include created run

/-- Each session is at the stage that its calls have brought it to. -/
theorem stage (role : NoiseRole) : Stage (calls.generated role) (s role) (calls.conversation role) ∧
    (s role).endpoint = (role, (start role).localIdentity) := by
  induction run with
  | nil =>
    obtain ⟨same, identity, _, _, made⟩ := created role
    obtain ⟨_, shape⟩ := new_eq_ok made
    exact ⟨.idle (by rw [shape]), Prod.ext same rfl⟩
  | @snoc history s label t _ taken ih =>
    obtain ⟨stage, endpoint⟩ := ih
    obtain ⟨rfl, sizes⟩ := taken
    rw [Dialogue.generated_append, Dialogue.conversation_append]
    by_cases mine : label.1 = role
    · subst mine
      rw [Dialogue.generated_cons rfl, Dialogue.conversation_cons rfl]
      simp only [Dialogue.generated, Dialogue.conversation, List.flatMap_nil, List.append_nil]
      rw [perform, Function.update_self]
      exact ⟨stage.step sizes, (perform_endpoint ..).trans endpoint⟩
    · have other : s.perform label role = s role := Function.update_of_ne (Ne.symm mine) _ _
      simp only [Dialogue.generated, Dialogue.conversation, List.flatMap_cons, if_neg mine,
        List.flatMap_nil, List.append_nil]
      rw [other]
      exact ⟨stage, endpoint⟩

/-- A session that is established is so by one of its calls. -/
theorem established (done : (s role).state = .established) : calls.Ended role (s role) := by
  induction run with
  | nil =>
    obtain ⟨_, _, _, _, made⟩ := created role
    obtain ⟨_, shape⟩ := new_eq_ok made
    rw [shape] at done
    cases done
  | @snoc history s label t run taken ih =>
    obtain ⟨rfl, sizes⟩ := taken
    have earlier {t : NoiseSession} (before : (s role).state = .established)
        (key : t.remoteStaticPublic = (s role).remoteStaticPublic)
        (hash : t.handshakeHash = (s role).handshakeHash) :
        Dialogue.Ended (history ++ [⟨s, label, s.perform label⟩]) role t := by
      obtain ⟨e, member, mine, remote, items, ends, same⟩ := ih before
      rw [← key, ← hash] at same
      exact ⟨e, List.mem_append_left _ member, mine, remote, items, ends, same⟩
    by_cases mine : label.1 = role
    · subst mine
      have next : s.perform label label.1 = NoiseSession.perform label.2 (s label.1) :=
        Function.update_self ..
      obtain ⟨stage, _⟩ := created.stage run label.1
      rw [next] at done ⊢
      rcases stage.establishes done with ⟨before, key, hash⟩ | found
      · exact earlier before key hash
      · exact ⟨⟨s, label, s.perform label⟩, by simp, rfl, found⟩
    · have next : s.perform label role = s role := Function.update_of_ne (Ne.symm mine) _ _
      rw [next] at done ⊢
      exact earlier done rfl rfl

variable (member : e ∈ calls)
include member

theorem ended (done : (e.after role).state = .established) : calls.Ended role (e.after role) := by
  obtain ⟨earlier, before, sub⟩ := run.up_to member
  obtain ⟨f, found, rest⟩ := created.established before done
  exact ⟨f, sub found, rest⟩

/-- A session before one of its calls, and what comes behind it in the whole run. -/
theorem at_call (mine : e.label.1 = role) : ∃ keys said after, Stage keys (e.before role) said ∧
    keys ++ e.label.2.generated ⊆ calls.generated role ∧
    calls.conversation role = said ++ messages (e.before role) e.label.2 ++ after := by
  obtain ⟨earlier, later, rfl⟩ := List.append_of_mem member
  obtain ⟨stage, _⟩ := created.stage run.split.1 role
  refine ⟨_, _, Dialogue.conversation later role, stage, ?_, ?_⟩
  · rw [Dialogue.generated_append, Dialogue.generated_cons mine, ← List.append_assoc]
    exact List.subset_append_left ..
  · rw [Dialogue.conversation_append, Dialogue.conversation_cons mine, List.append_assoc]

theorem endpoint (role : NoiseRole) :
    (e.before role).role = role ∧ (e.before role).localIdentity = (start role).localIdentity := by
  obtain ⟨earlier, later, rfl⟩ := List.append_of_mem member
  obtain ⟨_, same⟩ := created.stage run.split.1 role
  exact Prod.ext_iff.mp same

variable [laws : LawfulPrimitives]

theorem trusted (mine : e.label.1 = .initiator)
    (trusted : Trusted (e.before .initiator) e.label.2 own o remote) :
    own ∈ calls.generated .initiator ∧ calls.Hashed o.items := by
  obtain ⟨keys, said, after, stage, generated, whole⟩ := created.at_call run member mine
  obtain ⟨known, rfl⟩ := stage.waiting2_inv trusted.role trusted.state trusted.waits
  obtain ⟨ephemeral, message, payload, label, trusts⟩ := trusted.reads
  refine ⟨generated (List.mem_append_left _ known), .initiator, ?_⟩
  rw [whole, label, trusts.items_eq (diffieHellman_eq_ok.mp trusts.mixedEE).1]
  exact transcript_second

theorem closed (mine : e.label.1 = .initiator)
    (closed : Closed (e.before .initiator) e.label.2 own o c remote) :
    transcript (calls.conversation .initiator) = c.p3 :: c.s3 :: o.items := by
  obtain ⟨keys, said, after, stage, _, whole⟩ := created.at_call run member mine
  obtain ⟨_, rfl⟩ := stage.waiting2_inv closed.role closed.state closed.waits
  obtain ⟨_, message, _, label, trusts⟩ := closed.reads
  obtain ⟨ephemeral, label', _, returns⟩ := closed.returns
  have third := closed.closes.third_eq (e.before .initiator).localIdentity.size
  have items := trusts.items_eq (diffieHellman_eq_ok.mp trusts.mixedEE).1
  rw [trusts.message_eq] at items
  rw [whole, label', messages_of_returns returns]
  simp only [List.cons_append, List.nil_append, transcript, third, ← items]

theorem answered (mine : e.label.1 = .responder)
    (answered : Answered (e.before .responder) e.label.2 own o) : calls.Hashed o.items := by
  obtain ⟨keys, said, after, stage, _, whole⟩ := created.at_call run member mine
  obtain rfl := stage.unanswered_inv answered.role answered.waits
  obtain ⟨label, _, returns⟩ := answered.returns
  refine ⟨.responder, ?_⟩
  rw [whole, label, messages_of_returns returns,
    answered.answers.items_eq (e.before .responder).localIdentity.size answered.e1_size]
  exact transcript_second

theorem completed (mine : e.label.1 = .responder)
    (completed : Completed (e.before .responder) e.label.2 own o c remote) :
    own ∈ calls.generated .responder ∧ ∃ o',
      Completed (e.before .responder) e.label.2 own o' c remote ∧
      transcript (calls.conversation .responder) = c.p3 :: c.s3 :: o'.items ∧
      transcriptHash (c.p3 :: c.s3 :: o'.items) = transcriptHash (c.p3 :: c.s3 :: o.items) := by
  obtain ⟨keys, said, after, stage, generated, whole⟩ := created.at_call run member mine
  obtain ⟨known, o', size, rfl, completed', _, _, hash⟩ := stage.completed_inv completed
  obtain ⟨ephemeral, message, payload, label, completes⟩ := completed'.reads
  refine ⟨generated (List.mem_append_left _ known), o', completed', ?_, hash⟩
  rw [whole, label,
    completed'.answers.items_eq (e.before .responder).localIdentity.size size]
  simp only [messages, List.cons_append, List.nil_append, transcript, completes.third_eq]

omit laws in
theorem ends_initiator (ends : EndsWith (e.before .initiator) e.label.2 remote items) :
    ∃ own o c, Closed (e.before .initiator) e.label.2 own o c remote ∧
      items = c.p3 :: c.s3 :: o.items := by
  cases ends with
  | closed closed => exact ⟨_, _, _, closed, rfl⟩
  | completed completed =>
    cases completed.role.symm.trans (created.endpoint run member .initiator).1

theorem ends_responder (mine : e.label.1 = .responder)
    (ends : EndsWith (e.before .responder) e.label.2 remote items) :
    ∃ own o c, Completed (e.before .responder) e.label.2 own o c remote ∧
      own ∈ calls.generated .responder ∧
      transcript (calls.conversation .responder) = c.p3 :: c.s3 :: o.items ∧
      transcriptHash items = transcriptHash (c.p3 :: c.s3 :: o.items) := by
  cases ends with
  | closed closed => cases closed.role.symm.trans (created.endpoint run member .responder).1
  | completed completed =>
    obtain ⟨known, o', completed', whole, hash⟩ := created.completed run member mine completed
    exact ⟨_, o', _, completed', known, whole, hash.symm⟩

/-- What a session seals, it seals behind what it has hashed. -/
theorem seals (mine : e.label.1 = role) {x : Seal}
    (seals : Seals (e.before role) e.label.2 items x) : calls.Hashed items := by
  have roles := (created.endpoint run member role).1
  cases seals with
  | static2 answered =>
    obtain rfl : role = .responder := roles.symm.trans answered.role
    exact (created.answered run member mine answered).suffix
      ((List.suffix_cons _ _).trans (List.suffix_cons _ _))
  | payload2 answered =>
    obtain rfl : role = .responder := roles.symm.trans answered.role
    exact (created.answered run member mine answered).suffix (List.suffix_cons _ _)
  | static3 closed =>
    obtain rfl : role = .initiator := roles.symm.trans closed.role
    exact (created.trusted run member mine closed.toTrusted).2
  | payload3 closed =>
    obtain rfl : role = .initiator := roles.symm.trans closed.role
    refine ⟨.initiator, ?_⟩
    rw [created.closed run member mine closed]
    exact List.suffix_cons _ _

end TwoSessions.Created
end Bitchat.Crypto
