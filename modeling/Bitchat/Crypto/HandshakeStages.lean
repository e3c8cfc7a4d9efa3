import Bitchat.Crypto.HandshakeSeals

/-! How far a session has come in its handshake, given the handshake messages that it took and
returned. Whatever is called, each call leaves a session at the stage that its messages tell. -/
namespace Bitchat.Crypto.NoiseSession
open Stateful NoiseHandshakeState

variable [Primitives]

/-- What the generator returns if the call asks for a key. -/
def Call.generated : Call → List Bytes
  | .start ephemeral | .process ephemeral _ => [ephemeral]
  | _ => []

/-- The message that a call returned, if there is one. -/
def returned (result : Except CryptoError (Option Bytes)) : List Bytes :=
  match result with
  | .ok (some message) => [message]
  | _ => []

/-- The handshake messages of a call: the one it is given and the one it returns. -/
def messages (s : NoiseSession) : Call → List Bytes
  | .start ephemeral => returned (outcome (startHandshake ephemeral) s).1
  | .process ephemeral message =>
      message :: returned (outcome (processHandshakeMessage ephemeral message) s).1
  | _ => []

section Calls
variable {s t : NoiseSession} {ephemeral message own remote : Bytes} {call : Call}
  {o : Opening} {c : Closing}

theorem perform_encrypt (s : NoiseSession) (plaintext : Bytes) :
    ∃ cipher, perform (.encrypt plaintext) s = { s with sendCipher := cipher } := by
  by_cases established : s.state = .established
  · have sent : NoiseSession.encrypt plaintext s =
        onSendCipher (NoiseCipherState.encrypt plaintext []) s := by
      rw [NoiseSession.encrypt, get_bind, if_apply, if_neg (not_not.mpr established)]
    obtain ⟨cipher, after, _⟩ := onSendCipher_outcome (NoiseCipherState.encrypt plaintext []) s
    exact ⟨cipher, (congrArg Prod.snd (outcome_congr sent)).trans after⟩
  · refine ⟨s.sendCipher, ?_⟩
    unfold perform outcome
    simp only [encrypt_refused established]

theorem perform_decrypt (s : NoiseSession) (ciphertext : Bytes) :
    ∃ cipher, perform (.decrypt ciphertext) s = { s with recvCipher := cipher } := by
  by_cases established : s.state = .established
  · have received : NoiseSession.decrypt ciphertext s =
        onRecvCipher (NoiseCipherState.decrypt ciphertext []) s := by
      rw [NoiseSession.decrypt, get_bind, if_apply, if_neg (not_not.mpr established)]
    obtain ⟨cipher, after, _⟩ := onRecvCipher_outcome (NoiseCipherState.decrypt ciphertext []) s
    exact ⟨cipher, (congrArg Prod.snd (outcome_congr received)).trans after⟩
  · refine ⟨s.recvCipher, ?_⟩
    unfold perform outcome
    simp only [decrypt_refused established]

/-- A call on a handshake message returns, or the session has failed. -/
theorem process_cases (s : NoiseSession) (ephemeral message : Bytes) :
    (∃ response, handleMessage ephemeral message s =
        .ok response (perform (.process ephemeral message) s) ∧
      messages s (.process ephemeral message) = message :: response.toList) ∨
    ((perform (.process ephemeral message) s).state = .failed ∧
      messages s (.process ephemeral message) = [message]) := by
  cases result : processHandshakeMessage ephemeral message s with
  | ok response t =>
    have whole := outcome_eq_ok.mpr result
    have next : perform (.process ephemeral message) s = t := by simp only [perform, whole]
    rw [next]
    refine Or.inl ⟨response, onError_eq_ok.mp result, ?_⟩
    simp only [messages, whole]
    cases response <;> rfl
  | error e t =>
    have whole := outcome_eq_error.mpr result
    obtain ⟨u, _, rfl⟩ := onError_eq_error.mp result
    have next : perform (.process ephemeral message) s = { u with state := .failed } := by
      simp only [perform, whole]
    rw [next]
    refine Or.inr ⟨rfl, ?_⟩
    simp only [messages, whole, returned]

theorem start_refused (ephemeral : Bytes) (begun : s.state ≠ .uninitialized) :
    perform (.start ephemeral) s = s ∧ messages s (.start ephemeral) = [] := by
  refine ⟨perform_start begun, ?_⟩
  have refused : startHandshake ephemeral s =
      .error (.noiseState s!"start_handshake() called in invalid state: {s.state.value}") s := by
    rw [startHandshake, get_bind, if_apply, if_pos begun]
    rfl
  simp only [messages, outcome_eq_error.mpr refused, returned]

/-- Out of the handshake a message makes the session fail. -/
theorem process_refused (idle : ¬ (s.state = .uninitialized ∧ s.role = .responder))
    (elsewhere : s.state ≠ .handshaking) : (perform (.process ephemeral message) s).state = .failed := by
  rcases process_cases s ephemeral message with ⟨response, handled, _⟩ | ⟨failed, _⟩
  · rw [handleMessage, bind_ok (autoInitialise_begun idle), get_bind, if_apply, if_pos elsewhere] at handled
    cases handled
  · exact failed

/-- The initiator's first message is its ephemeral key. -/
theorem start_initiator (idle : s.state = .uninitialized) (role : s.role = .initiator)
    (size : ephemeral.length = x25519KeySize) :
    perform (.start ephemeral) s = s.holding (awaiting2 s.localIdentity.x25519Private ephemeral) ∧
      messages s (.start ephemeral) = [Primitives.publicKey ephemeral] := by
  have started := outcome_eq_ok.mpr ((startHandshake_initiator idle role).mpr ⟨size, rfl, rfl⟩)
  constructor
  · simp only [perform, started]
  · simp only [messages, started, returned]

theorem start_responder (ephemeral : Bytes) (idle : s.state = .uninitialized)
    (role : s.role = .responder) :
    perform (.start ephemeral) s = s.holding (fresh .responder s.localIdentity.x25519Private) ∧
      messages s (.start ephemeral) = [] := by
  have started := outcome_eq_ok.mpr (startHandshake_responder ephemeral idle role)
  constructor
  · simp only [perform, started]
  · simp only [messages, started, returned]

/-- A responder that waits for message 1 takes it in a fresh handshake. -/
theorem Unanswered.handles (waits : s.Unanswered) (role : s.role = .responder) :
    handleMessage ephemeral message s =
      handleMessage ephemeral message (s.holding (fresh .responder s.localIdentity.x25519Private)) := by
  rcases waits with idle | ⟨state, held⟩
  · exact handleMessage_autoInitialises idle role
  · rw [holding_self state held]

/-- The responder answers message 1, or the session has failed. -/
theorem process_first (ephemeral message : Bytes) (role : s.role = .responder)
    (waits : s.Unanswered) :
    (∃ o, Answered s (.process ephemeral message) ephemeral o ∧
      messages s (.process ephemeral message) = [o.e1 ++ o.p1, o.e2 ++ o.s2 ++ o.p2] ∧
      perform (.process ephemeral message) s =
        s.holding (awaiting3 s.localIdentity.x25519Private ephemeral o)) ∨
    (perform (.process ephemeral message) s).state = .failed := by
  refine (process_cases s ephemeral message).imp ?_ And.left
  rintro ⟨response, handled, said⟩
  rw [waits.handles role] at handled
  obtain ⟨long, o, e1, p1, answers, rfl, next⟩ := handleMessage_first.mp handled
  have whole : message = o.e1 ++ o.p1 := by
    rw [e1, p1, Bytes.slice, List.drop_zero, Nat.sub_zero, List.take_append_drop]
  have size : o.e1.length = dhKeySize := by
    rw [e1, Bytes.slice_length]
    omega
  exact ⟨o, ⟨role, waits, congrArg _ whole, size, answers⟩, whole ▸ said, next⟩

/-- The initiator answers message 2 and is done, or the session has failed. -/
theorem process_second (ephemeral message : Bytes) (role : s.role = .initiator)
    (state : s.state = .handshaking)
    (waits : s.handshakeState = some (awaiting2 s.localIdentity.x25519Private own)) :
    (∃ o c remote, Closed s (.process ephemeral message) own o c remote ∧
      perform (.process ephemeral message) s =
        s.established remote (c.p3 :: c.s3 :: o.items) (c.se :: o.secrets)) ∨
    (perform (.process ephemeral message) s).state = .failed := by
  refine (process_cases s ephemeral message).imp ?_ And.left
  rintro ⟨response, handled, _⟩
  have same := holding_self state waits
  have second := handled
  rw [← same] at second
  obtain ⟨o, c, remote, payload, trusts, closes, binds, rfl, next⟩ :=
    (handleMessage_second role).mp second
  rw [same] at next
  exact ⟨o, c, remote, ⟨⟨role, state, waits, _, message, payload, rfl, trusts⟩, closes, binds⟩, next⟩

/-- The responder takes message 3 and is done, or the session has failed. -/
theorem process_third (ephemeral message : Bytes) (role : s.role = .responder)
    (state : s.state = .handshaking)
    (waits : s.handshakeState = some (awaiting3 s.localIdentity.x25519Private own o))
    (answers : Answers s.localIdentity.x25519Private own o) :
    messages s (.process ephemeral message) = [message] ∧
    ((∃ c remote, Completed s (.process ephemeral message) own o c remote ∧
      perform (.process ephemeral message) s =
        s.established remote (c.p3 :: c.s3 :: o.items) (c.se :: o.secrets)) ∨
    (perform (.process ephemeral message) s).state = .failed) := by
  rcases process_cases s ephemeral message with ⟨response, handled, said⟩ | ⟨failed, said⟩
  · have same := holding_self state waits
    have third := handled
    rw [← same] at third
    obtain ⟨c, remote, payload, completes, binds, rfl, next⟩ := (handleMessage_third role).mp third
    rw [same] at next
    exact ⟨said, Or.inl ⟨c, remote,
      ⟨role, state, waits, answers, _, message, payload, rfl, completes⟩, next⟩⟩
  · exact ⟨said, Or.inr failed⟩

theorem Answered.returns (answered : Answered s call own o) :
    call = .process own (o.e1 ++ o.p1) ∧ ∃ t, processHandshakeMessage own (o.e1 ++ o.p1) s =
      .ok (some (o.e2 ++ o.s2 ++ o.p2)) t := by
  refine ⟨answered.reads, s.holding (awaiting3 s.localIdentity.x25519Private own o),
    onError_eq_ok.mpr ?_⟩
  rw [answered.waits.handles answered.role]
  refine handleMessage_first.mpr ⟨?_, o, ?_, ?_, answered.answers, rfl, rfl⟩
  · rw [List.length_append, answered.e1_size]
    exact Nat.le_add_right _ _
  · rw [Bytes.slice_left _ _ answered.e1_size.symm]
  · rw [← answered.e1_size, List.drop_left]

theorem Closed.returns (closed : Closed s call own o c remote) :
    ∃ ephemeral, call = .process ephemeral (o.e2 ++ o.s2 ++ o.p2) ∧ ∃ t,
      processHandshakeMessage ephemeral (o.e2 ++ o.s2 ++ o.p2) s = .ok (some (c.s3 ++ c.p3)) t := by
  obtain ⟨ephemeral, message, payload, rfl, trusts⟩ := closed.reads
  obtain rfl := trusts.message_eq
  refine ⟨ephemeral, rfl, s.established remote (c.p3 :: c.s3 :: o.items) (c.se :: o.secrets),
    onError_eq_ok.mpr ?_⟩
  rw [← holding_self closed.state closed.waits]
  exact (handleMessage_second closed.role).mpr
    ⟨o, c, remote, payload, trusts, closed.closes, closed.binds, rfl, rfl⟩

theorem messages_of_returns {reply : Bytes}
    (returns : processHandshakeMessage ephemeral message s = .ok (some reply) t) :
    messages s (.process ephemeral message) = [message, reply] := by
  simp only [messages, outcome_eq_ok.mpr returns, returned]

end Calls

/-- What a session is made for, and no call changes. -/
def endpoint (s : NoiseSession) : NoiseRole × LocalIdentity := (s.role, s.localIdentity)

section Endpoint

theorem autoInitialise_keeps_endpoint : Keeps endpoint autoInitialise := by
  apply keeps_get_bind
  intro before
  refine Keeps.ite (fun s => ?_) (keeps_pure _)
  unfold outcome
  rw [beginHandshake_eq]
  rfl

theorem finaliseHandshake_keeps_endpoint : Keeps endpoint finaliseHandshake := by
  intro s
  unfold outcome
  rw [finaliseHandshake, get_bind]
  cases s.handshakeState with
  | none => rfl
  | some handshake =>
    simp only
    cases handshake.remoteStaticPublic with
    | none => rfl
    | some remote =>
      simp only
      cases s.claimedPeerId with
      | none => rfl
      | some claimed =>
        simp only [if_apply]
        split_ifs
        · rfl
        · rfl
        · cases handshake.getTransportCiphers <;> rfl

theorem finaliseIfComplete_keeps_endpoint : Keeps endpoint finaliseIfComplete := by
  apply keeps_get_bind
  intro s
  exact Keeps.ite finaliseHandshake_keeps_endpoint (keeps_pure _)

theorem handleMessage_keeps_endpoint (ephemeral message : Bytes) :
    Keeps endpoint (handleMessage ephemeral message) := by
  apply autoInitialise_keeps_endpoint.bind
  intro _
  apply keeps_get_bind
  intro s
  apply Keeps.ite (keeps_throw _)
  apply (onHandshake_keeps (fun _ _ => rfl) _).bind
  intro _
  apply (respond_keeps (fun _ _ => rfl) ephemeral).bind
  intro _
  exact finaliseIfComplete_keeps_endpoint.bind fun _ => keeps_pure _

theorem startHandshake_keeps_endpoint (ephemeral : Bytes) :
    Keeps endpoint (startHandshake ephemeral) := by
  apply keeps_get_bind
  intro s
  apply Keeps.ite (keeps_throw _)
  refine Keeps.bind (fun s => ?_) fun _ => Keeps.ite ?_ (keeps_pure _)
  · unfold outcome
    rw [beginHandshake_eq]
    rfl
  · exact (onHandshake_keeps (fun _ _ => rfl) _).bind fun _ => keeps_pure _

theorem perform_endpoint (call : Call) (s : NoiseSession) :
    (perform call s).endpoint = s.endpoint := by
  cases call with
  | start ephemeral => exact startHandshake_keeps_endpoint ephemeral s
  | process ephemeral message =>
    have keeps : Keeps endpoint (processHandshakeMessage ephemeral message) :=
      (handleMessage_keeps_endpoint ephemeral message).onError fun _ => rfl
    exact keeps s
  | encrypt plaintext => exact encrypt_keeps (f := endpoint) (fun _ _ => rfl) plaintext s
  | decrypt ciphertext => exact decrypt_keeps (f := endpoint) (fun _ _ => rfl) ciphertext s
  | close => rfl

end Endpoint

/-- The stage of a handshake, with the keys that were generated for it and the messages that were
taken and returned. -/
inductive Stage (keys : List Bytes) (s : NoiseSession) : List Bytes → Prop where
  | idle : s.state = .uninitialized → Stage keys s []
  | waiting2 {own} : s.role = .initiator → own ∈ keys → s.state = .handshaking →
      s.handshakeState = some (awaiting2 s.localIdentity.x25519Private own) →
      Stage keys s [Primitives.publicKey own]
  | begun : s.role = .responder → s.state = .handshaking →
      s.handshakeState = some (fresh .responder s.localIdentity.x25519Private) → Stage keys s []
  | waiting3 {own o} : s.role = .responder → own ∈ keys → s.state = .handshaking →
      s.handshakeState = some (awaiting3 s.localIdentity.x25519Private own o) →
      Answers s.localIdentity.x25519Private own o → o.e1.length = dhKeySize →
      Stage keys s [o.e1 ++ o.p1, o.e2 ++ o.s2 ++ o.p2]
  | outside {conversation} : s.state ≠ .uninitialized → s.state ≠ .handshaking →
      Stage keys s conversation

namespace Stage
variable {s t : NoiseSession} {keys more said : List Bytes} {call : Call} {own remote : Bytes}
  {o : Opening} {c : Closing}

theorem congr (stage : Stage keys s said) (state : t.state = s.state) (role : t.role = s.role)
    (identity : t.localIdentity = s.localIdentity) (handshake : t.handshakeState = s.handshakeState)
    (kept : keys ⊆ more) : Stage more t said := by
  cases stage with
  | idle waits => exact .idle (state.trans waits)
  | waiting2 r own going held =>
    exact .waiting2 (role.trans r) (kept own) (state.trans going) (by rw [handshake, identity, held])
  | begun r going held =>
    exact .begun (role.trans r) (state.trans going) (by rw [handshake, identity, held])
  | waiting3 r own going held answers size =>
    exact .waiting3 (role.trans r) (kept own) (state.trans going) (by rw [handshake, identity, held])
      (identity ▸ answers) size
  | outside begun ended => exact .outside (by rwa [state]) (by rwa [state])

theorem failed (failed : s.state = .failed) : Stage keys s said :=
  .outside (by simp [failed]) (by simp [failed])

theorem established (done : s.state = .established) : Stage keys s said :=
  .outside (by simp [done]) (by simp [done])

/-- A first message leads to the answer, or to nothing. -/
theorem answer {ephemeral message : Bytes} (role : s.role = .responder) (waits : s.Unanswered) :
    Stage (keys ++ [ephemeral]) (perform (.process ephemeral message) s)
      (messages s (.process ephemeral message)) := by
  rcases process_first ephemeral message role waits with
    ⟨o, answered, saying, next⟩ | lost
  · rw [saying, next]
    exact .waiting3 role (by simp) rfl rfl answered.answers answered.e1_size
  · exact failed lost

theorem step (stage : Stage keys s said) (sizes : ∀ k ∈ call.generated, k.length = x25519KeySize) :
    Stage (keys ++ call.generated) (perform call s) (said ++ messages s call) := by
  have kept : keys ⊆ keys ++ call.generated := List.subset_append_left ..
  cases call with
  | start ephemeral =>
    by_cases idle : s.state = .uninitialized
    · obtain rfl : said = [] := by cases stage <;> simp_all
      rw [List.nil_append]
      cases role : s.role with
      | initiator =>
        obtain ⟨next, saying⟩ := start_initiator idle role (sizes ephemeral (by simp [Call.generated]))
        rw [next, saying]
        exact .waiting2 role (by simp [Call.generated]) rfl rfl
      | responder =>
        obtain ⟨next, saying⟩ := start_responder ephemeral idle role
        rw [next, saying]
        exact .begun role rfl rfl
    · obtain ⟨next, saying⟩ := start_refused ephemeral idle
      rw [next, saying, List.append_nil]
      exact stage.congr rfl rfl rfl rfl kept
  | process ephemeral message =>
    cases stage with
    | idle idle =>
      cases role : s.role with
      | initiator => exact failed (process_refused (by simp [role]) (by simp [idle]))
      | responder => exact answer role (Or.inl idle)
    | begun role going held => exact answer role (Or.inr ⟨going, held⟩)
    | waiting2 role own going held =>
      rcases process_second ephemeral message role going held with
        ⟨_, _, _, _, next⟩ | lost
      · exact established (next ▸ rfl)
      · exact failed lost
    | waiting3 role own going held answers size =>
      rcases (process_third ephemeral message role going held answers).2
        with ⟨_, _, _, next⟩ | lost
      · exact established (next ▸ rfl)
      · exact failed lost
    | outside begun ended => exact failed (process_refused (fun idle => begun idle.1) ended)
  | encrypt plaintext =>
    obtain ⟨cipher, next⟩ := perform_encrypt s plaintext
    have quiet : messages s (.encrypt plaintext) = [] := rfl
    rw [next, quiet, List.append_nil]
    exact stage.congr rfl rfl rfl rfl kept
  | decrypt ciphertext =>
    obtain ⟨cipher, next⟩ := perform_decrypt s ciphertext
    have quiet : messages s (.decrypt ciphertext) = [] := rfl
    rw [next, quiet, List.append_nil]
    exact stage.congr rfl rfl rfl rfl kept
  | close => exact .outside (by simp [perform, close]) (by simp [perform, close])

theorem waiting2_inv (stage : Stage keys s said) (role : s.role = .initiator)
    (state : s.state = .handshaking)
    (waits : s.handshakeState = some (awaiting2 s.localIdentity.x25519Private own)) :
    own ∈ keys ∧ said = [Primitives.publicKey own] := by
  cases stage with
  | idle idle => simp [idle] at state
  | waiting2 _ member _ held =>
    have same := congrArg NoiseHandshakeState.localEphemeralPrivate
      (Option.some.inj (held.symm.trans waits))
    obtain rfl := Option.some.inj same
    exact ⟨member, rfl⟩
  | begun other => simp [other] at role
  | waiting3 other => simp [other] at role
  | outside _ ended => exact absurd state ended

theorem unanswered_inv (stage : Stage keys s said) (role : s.role = .responder)
    (waits : s.Unanswered) : said = [] := by
  cases stage with
  | idle => rfl
  | waiting2 other => simp [other] at role
  | begun => rfl
  | waiting3 _ _ going held =>
    rcases waits with idle | ⟨_, fresh'⟩
    · simp [idle] at going
    · have same := congrArg NoiseHandshakeState.currentPattern
        (Option.some.inj (held.symm.trans fresh'))
      cases same
  | outside begun ended =>
    rcases waits with idle | ⟨going, _⟩
    · exact absurd idle begun
    · exact absurd going ended

/-- The state of a responder tells the secrets and the transcript hash of its opening. The messages
that it took and returned tell the opening itself. -/
theorem completed_inv [laws : LawfulPrimitives] (stage : Stage keys s said)
    (completed : Completed s call own o c remote) : own ∈ keys ∧ ∃ o', o'.e1.length = dhKeySize ∧
      said = [o'.e1 ++ o'.p1, o'.e2 ++ o'.s2 ++ o'.p2] ∧ Completed s call own o' c remote ∧
      c.staticSeal o' = c.staticSeal o ∧ c.payloadSeal o' = c.payloadSeal o ∧
      transcriptHash (c.p3 :: c.s3 :: o'.items) = transcriptHash (c.p3 :: c.s3 :: o.items) := by
  cases stage with
  | idle idle => cases idle.symm.trans completed.state
  | waiting2 other => cases other.symm.trans completed.role
  | begun _ _ held =>
    have same := congrArg NoiseHandshakeState.currentPattern
      (Option.some.inj (held.symm.trans completed.waits))
    cases same
  | @waiting3 own' o' _ member _ held answers size =>
    have same := Option.some.inj (held.symm.trans completed.waits)
    obtain rfl := Option.some.inj (congrArg NoiseHandshakeState.localEphemeralPrivate same)
    have e1 : o'.e1 = o.e1 :=
      Option.some.inj (congrArg NoiseHandshakeState.remoteEphemeralPublic same)
    have items : transcriptHash o'.items = transcriptHash o.items :=
      congrArg (fun h => h.symmetricState.hash) same
    have ee : o'.ee = o.ee :=
      Except.ok.inj (answers.mixedEE.symm.trans (e1 ▸ completed.answers.mixedEE))
    have es : o'.es = o.es :=
      Except.ok.inj (answers.mixedES.symm.trans (e1 ▸ completed.answers.mixedES))
    have key : o'.payloadKey = o.payloadKey := by rw [Opening.payloadKey, Opening.payloadKey, ee, es]
    have secrets : o'.secrets = o.secrets := by rw [Opening.secrets, Opening.secrets, ee, es]
    have static3 : transcriptHash (c.s3 :: o'.items) = transcriptHash (c.s3 :: o.items) :=
      congrArg (fun hash => Primitives.sha256 (hash ++ c.s3)) items
    refine ⟨member, o', size, rfl, ?_, ?_, ?_, ?_⟩
    · obtain ⟨ephemeral, message, payload, rfl, completes⟩ := completed.reads
      refine ⟨completed.role, completed.state, held, answers, ephemeral, message, payload, rfl,
        completes.size, completes.s3, completes.p3, ?_, completes.valid, completes.mixedSE, ?_⟩
      · rw [key, items]
        exact completes.openedStatic
      · rw [Closing.lastKey, secrets, static3]
        exact completes.accepted
    · rw [Closing.staticSeal, Closing.staticSeal, key, items, answers.nonce, completed.answers.nonce]
    · rw [Closing.payloadSeal, Closing.payloadSeal, Closing.lastKey, Closing.lastKey, secrets, static3]
    · exact congrArg (fun hash => Primitives.sha256 (hash ++ c.p3)) static3
  | outside _ ended => exact absurd completed.state ended

/-- An established session was so before the call, or the call has ended its handshake. -/
theorem establishes (stage : Stage keys s said)
    (done : (perform call s).state = .established) :
    (s.state = .established ∧ (perform call s).remoteStaticPublic = s.remoteStaticPublic ∧
      (perform call s).handshakeHash = s.handshakeHash) ∨
    ∃ remote items, EndsWith s call remote items ∧
      (perform call s).remoteStaticPublic = some remote ∧
      (perform call s).handshakeHash = some (transcriptHash items) := by
  have lost {P : Prop} (failed : (perform call s).state = .failed) : P := by
    rw [failed] at done
    cases done
  have answers {ephemeral message} (same : call = .process ephemeral message)
      (role : s.role = .responder) (waits : s.Unanswered) :
      (perform call s).state ≠ .established := by
    subst same
    rcases process_first ephemeral message role waits with
      ⟨o, _, _, next⟩ | failed
    · rw [next]
      simp
    · exact lost failed
  cases call with
  | start ephemeral =>
    by_cases idle : s.state = .uninitialized
    · have state := startHandshake_state s ephemeral
      rw [if_pos idle] at state
      cases state.symm.trans done
    · rw [perform_start idle] at done ⊢
      exact Or.inl ⟨done, rfl, rfl⟩
  | process ephemeral message =>
    cases stage with
    | idle idle =>
      by_cases role : s.role = .responder
      · exact absurd done (answers rfl role (Or.inl idle))
      · exact lost (process_refused (fun both => role both.2) (by simp [idle]))
    | waiting2 role _ going held =>
      rcases process_second ephemeral message role going held with
        ⟨o, c, remote, closed, next⟩ | failed
      · rw [next]
        exact Or.inr ⟨remote, _, .closed closed, rfl, rfl⟩
      · exact lost failed
    | begun role going held => exact absurd done (answers rfl role (Or.inr ⟨going, held⟩))
    | waiting3 role _ going held answers _ =>
      rcases (process_third ephemeral message role going held answers).2
        with ⟨c, remote, completed, next⟩ | failed
      · rw [next]
        exact Or.inr ⟨remote, _, .completed completed, rfl, rfl⟩
      · exact lost failed
    | outside begun ended => exact lost (process_refused (fun idle => begun idle.1) ended)
  | encrypt plaintext =>
    obtain ⟨cipher, next⟩ := perform_encrypt s plaintext
    rw [next] at done ⊢
    exact Or.inl ⟨done, rfl, rfl⟩
  | decrypt ciphertext =>
    obtain ⟨cipher, next⟩ := perform_decrypt s ciphertext
    rw [next] at done ⊢
    exact Or.inl ⟨done, rfl, rfl⟩
  | close => cases done

end Stage
end Bitchat.Crypto.NoiseSession
