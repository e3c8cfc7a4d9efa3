import Bitchat.Crypto.HandshakeAuthentication
import Bitchat.Crypto.TransportStream

/-! The transport between two sessions as one channel, over runs that begin with their creation. The
network chooses every ciphertext that a session is given. -/
namespace Bitchat.Crypto
open Stateful NoiseCipherState NoiseHandshakeState NoiseSession

/-- A message of the transport: what it was sealed under, its text and its bytes. -/
structure TransportMessage where
  key : Bytes
  number : Nat
  plaintext : Bytes
  ciphertext : Bytes
deriving DecidableEq

namespace NoiseSession
variable [Primitives]

def sendKey (s : NoiseSession) : Option Bytes := s.sendCipher.bind NoiseCipherState.key

def recvKey (s : NoiseSession) : Option Bytes := s.recvCipher.bind NoiseCipherState.key

/-- The message that a call encrypts. -/
def encrypted (s : NoiseSession) : Call → List TransportMessage
  | .encrypt plaintext =>
    match (outcome (NoiseSession.encrypt plaintext) s).1, s.sendCipher, s.sendKey with
    | .ok ciphertext, some cipher, some key => [⟨key, cipher.nonce, plaintext, ciphertext⟩]
    | _, _, _ => []
  | _ => []

/-- The message that a call decrypts. -/
def decrypted (s : NoiseSession) : Call → List TransportMessage
  | .decrypt ciphertext =>
    match (outcome (NoiseSession.decrypt ciphertext) s).1, s.recvKey with
    | .ok plaintext, some key => [⟨key, wireNonce ciphertext, plaintext, ciphertext⟩]
    | _, _ => []
  | _ => []

end NoiseSession

/-- The message was sealed under its key and number, and carries the number. -/
def TransportMessage.Made [Primitives] (m : TransportMessage) : Prop :=
  m.number < 2 ^ 64 ∧ ∃ sealed,
    Primitives.aeadEncrypt m.key (aeadNonce m.number) m.plaintext [] = some sealed ∧
    m.ciphertext = wireCounter m.number ++ sealed

theorem wireCounter_wireNonce {ciphertext : Bytes} (size : nonceSizeBytes ≤ ciphertext.length) :
    wireCounter (wireNonce ciphertext) = ciphertext.take nonceSizeBytes := by
  have first : Bytes.toLE 8 (wireNonce ciphertext) = Bytes.toLE 4 (wireNonce ciphertext) ++
      Bytes.toLE 4 (wireNonce ciphertext / 256 / 256 / 256 / 256) := rfl
  have width : (ciphertext.take nonceSizeBytes).length = 4 := List.length_take_of_le size
  have back := Bytes.toLE_ofLE (ciphertext.take nonceSizeBytes)
  rw [width] at back
  rw [wireCounter, first, ← back]
  exact List.take_left' (Bytes.toLE_length _ _)

section Made
variable [Primitives] [laws : LawfulPrimitives] {m : TransportMessage} (made : m.Made)
include made

/-- A message whose number fits in its wire bits opens to its text. -/
theorem TransportMessage.Made.opens (fits : m.number < 2 ^ 32) :
    wireNonce m.ciphertext = m.number ∧ Verifies m.key m.ciphertext [] m.plaintext := by
  obtain ⟨_, sealed, seals, bytes⟩ := made
  have number : wireNonce m.ciphertext = m.number := by
    rw [bytes, wireNonce_wireCounter, Nat.mod_eq_of_lt fits]
  refine ⟨number, ?_, ?_⟩
  · rw [bytes, List.length_append, wireCounter_length]
    exact Nat.le_add_right _ _
  · rw [number, bytes, drop_wireCounter]
    exact laws.aead_opens seals

/-- Bytes that open as the sealed part of a message does, under its number, are its bytes. -/
theorem TransportMessage.Made.same {plaintext ciphertext : Bytes} (number : m.number = wireNonce ciphertext)
    (body : m.ciphertext.drop nonceSizeBytes = ciphertext.drop nonceSizeBytes)
    (verifies : Verifies m.key ciphertext [] plaintext) :
    m.plaintext = plaintext ∧ m.ciphertext = ciphertext := by
  obtain ⟨_, sealed, seals, bytes⟩ := made
  obtain ⟨size, opened⟩ := verifies
  rw [bytes, drop_wireCounter] at body
  rw [← number, ← body] at opened
  refine ⟨Option.some.inj ((laws.aead_opens seals).symm.trans opened), ?_⟩
  rw [bytes, number, wireCounter_wireNonce size, body, List.take_append_drop]

end Made

/-- The call ends the handshake of these messages with `remote`. -/
inductive NoiseSession.Finishes [Primitives] (s : NoiseSession) (call : Call) (own : Bytes) (o : Opening)
    (c : Closing) (remote : Bytes) : Prop where
  | closed : Closed s call own o c remote → Finishes s call own o c remote
  | completed : Completed s call own o c remote → Finishes s call own o c remote

/-- What a session has sent and received is numbered under one key for each direction, and an
established session goes on from there. -/
structure Channel [Primitives] (send recv : Bytes) (sent received : List TransportMessage)
    (s : NoiseSession) : Prop where
  made : ∀ (i : Nat) (m : TransportMessage), sent[i]? = some m → m.key = send ∧ m.number = i ∧ m.Made
  opened : ∀ m ∈ received, m.key = recv ∧ m.number = wireNonce m.ciphertext ∧
    Verifies recv m.ciphertext [] m.plaintext
  fresh : (received.map TransportMessage.number).Nodup
  sends : s.state = .established → Sends send sent.length s
  receives : s.state = .established → Receives recv (received.map TransportMessage.number) s

section Calls
variable [Primitives] {send recv plaintext ciphertext : Bytes} {sent received : List TransportMessage}
  {s t : NoiseSession} {call : Call} {keys said : List Bytes}

theorem encrypt_result (returned : encrypt plaintext s = .ok ciphertext t) {key : Bytes} {counter : Nat}
    (sends : Sends key counter s) : perform (.encrypt plaintext) s = t ∧
      encrypted s (.encrypt plaintext) = [⟨key, counter, plaintext, ciphertext⟩] := by
  obtain ⟨c, held, keyed, _, rfl⟩ := sends.cipher
  have whole := outcome_eq_ok.mpr returned
  constructor
  · simp only [perform, whole]
  · have own : s.sendKey = some key := by rw [sendKey, held, Option.bind_some, keyed]
    simp only [encrypted, whole, held, own]

theorem encrypt_unchanged {e : CryptoError} (raised : encrypt plaintext s = .error e s) :
    perform (.encrypt plaintext) s = s ∧ encrypted s (.encrypt plaintext) = [] := by
  have whole := outcome_eq_error.mpr raised
  constructor
  · simp only [perform, whole]
  · simp only [encrypted, whole]

theorem decrypt_result (returned : decrypt ciphertext s = .ok plaintext t) {key : Bytes}
    {numbers : List Nat} (receives : Receives key numbers s) : perform (.decrypt ciphertext) s = t ∧
      decrypted s (.decrypt ciphertext) = [⟨key, wireNonce ciphertext, plaintext, ciphertext⟩] := by
  obtain ⟨c, held, tracks⟩ := receives.cipher
  have whole := outcome_eq_ok.mpr returned
  constructor
  · simp only [perform, whole]
  · have own : s.recvKey = some key := by rw [recvKey, held, Option.bind_some, tracks.keyed]
    simp only [decrypted, whole, own]

theorem decrypt_unchanged {e : CryptoError} (raised : decrypt ciphertext s = .error e s) :
    perform (.decrypt ciphertext) s = s ∧ decrypted s (.decrypt ciphertext) = [] := by
  have whole := outcome_eq_error.mpr raised
  constructor
  · simp only [perform, whole]
  · simp only [decrypted, whole]

/-- A message that is not accepted leaves the session alone. -/
theorem NoiseSession.Receives.decrypt_error {key : Bytes} {numbers : List Nat} (receives : Receives key numbers s)
    {e : CryptoError} (raised : decrypt ciphertext s = .error e t) : t = s := by
  obtain ⟨c, held, _⟩ := receives.cipher
  rw [decrypt_established receives.established held] at raised
  unfold focus at raised
  cases inner : NoiseCipherState.decrypt ciphertext [] c with
  | ok a d => rw [inner] at raised; cases raised
  | error e' d =>
    rw [inner, decrypt_error_state inner] at raised
    obtain ⟨_, rfl⟩ := EStateM.Result.error.inj raised
    change { s with recvCipher := some c } = s
    rw [← held]

namespace Channel

theorem encrypt (channel : Channel send recv sent received s) (plaintext : Bytes) :
    Channel send recv (sent ++ encrypted s (.encrypt plaintext)) received
      (perform (.encrypt plaintext) s) := by
  have kept {e : CryptoError} (raised : NoiseSession.encrypt plaintext s = .error e s) :
      Channel send recv (sent ++ encrypted s (.encrypt plaintext)) received
        (perform (.encrypt plaintext) s) := by
    obtain ⟨same, none⟩ := encrypt_unchanged raised
    rwa [same, none, List.append_nil]
  by_cases established : s.state = .established
  · have sends := channel.sends established
    cases returned : NoiseSession.encrypt plaintext s with
    | error e t => exact kept (sends.encrypt_error returned ▸ returned)
    | ok ciphertext t =>
      obtain ⟨next, new⟩ := encrypt_result returned sends
      obtain ⟨fits, sealed, c, seals, rfl, held, after⟩ := sends.encrypt_eq_ok.mp returned
      rw [next, new]
      refine ⟨?_, channel.opened, channel.fresh, fun _ => ?_, fun _ => ?_⟩
      · intro i m found
        rw [List.getElem?_append] at found
        split at found
        · exact channel.made i m found
        · rw [List.getElem?_singleton] at found
          split at found
          · obtain rfl := Option.some.inj found
            exact ⟨rfl, by simp only; omega, fits, sealed, seals, rfl⟩
          · cases found
      · rw [List.length_append]
        exact sends.next returned
      · obtain ⟨d, found, tracks⟩ := (channel.receives established).cipher
        rw [after]
        exact ⟨established, d, found, tracks⟩
  · exact kept (encrypt_refused established plaintext)

theorem decrypt (channel : Channel send recv sent received s) (ciphertext : Bytes) :
    Channel send recv sent (received ++ decrypted s (.decrypt ciphertext))
      (perform (.decrypt ciphertext) s) := by
  have kept {e : CryptoError} (raised : NoiseSession.decrypt ciphertext s = .error e s) :
      Channel send recv sent (received ++ decrypted s (.decrypt ciphertext))
        (perform (.decrypt ciphertext) s) := by
    obtain ⟨same, none⟩ := decrypt_unchanged raised
    rwa [same, none, List.append_nil]
  by_cases established : s.state = .established
  · have receives := channel.receives established
    cases returned : NoiseSession.decrypt ciphertext s with
    | error e t => exact kept (receives.decrypt_error returned ▸ returned)
    | ok plaintext t =>
      obtain ⟨next, new⟩ := decrypt_result returned receives
      obtain ⟨verifies, unseen, _, c, held, after⟩ := receives.decrypt_eq_ok.mp returned
      rw [next, new]
      refine ⟨channel.made, ?_, ?_, fun _ => ?_, fun _ => ?_⟩
      · intro m member
        rcases List.mem_append.mp member with old | last
        · exact channel.opened m old
        · obtain rfl := List.mem_singleton.mp last
          exact ⟨rfl, rfl, verifies⟩
      · rw [List.map_append, List.map_singleton]
        refine List.nodup_append.mpr ⟨channel.fresh, List.nodup_singleton _, ?_⟩
        intro n old last member same
        have number : n = wireNonce ciphertext := same.trans (List.mem_singleton.mp member)
        exact unseen (number ▸ old)
      · obtain ⟨d, found, keyed, mode, number⟩ := (channel.sends established).cipher
        rw [after]
        exact ⟨established, d, found, keyed, mode, number⟩
      · rw [List.map_append, List.map_singleton]
        exact receives.next returned
  · exact kept (decrypt_refused established ciphertext)

theorem decrypted_inv {m : TransportMessage} (channel : Channel send recv sent received s)
    (accepted : m ∈ decrypted s call) : ∃ ciphertext plaintext t, call = .decrypt ciphertext ∧
      s.state = .established ∧ NoiseSession.decrypt ciphertext s = .ok plaintext t ∧
      m = ⟨recv, wireNonce ciphertext, plaintext, ciphertext⟩ := by
  cases call with
  | start | process | encrypt | close => cases accepted
  | decrypt ciphertext =>
    by_cases established : s.state = .established
    · have receives := channel.receives established
      cases returned : NoiseSession.decrypt ciphertext s with
      | error failure t =>
        rw [receives.decrypt_error returned] at returned
        rw [(decrypt_unchanged returned).2] at accepted
        cases accepted
      | ok plaintext t =>
        rw [(decrypt_result returned receives).2] at accepted
        exact ⟨ciphertext, plaintext, t, rfl, established, returned, List.mem_singleton.mp accepted⟩
    · rw [(decrypt_unchanged (decrypt_refused established ciphertext)).2] at accepted
      cases accepted

theorem lost (channel : Channel send recv sent received s) (unopened : t.state ≠ .established) :
    Channel send recv sent received t :=
  ⟨channel.made, channel.opened, channel.fresh, fun open' => absurd open' unopened,
    fun open' => absurd open' unopened⟩

/-- Before a session is established it has sent and received nothing. -/
theorem idle (send recv : Bytes) (unopened : s.state ≠ .established) : Channel send recv [] [] s :=
  ⟨fun _ _ none => by simp at none, fun _ none => by simp at none, List.nodup_nil,
    fun open' => absurd open' unopened, fun open' => absurd open' unopened⟩

end Channel

/-- The call that establishes a session ends its handshake and gives it new ciphers. -/
theorem NoiseSession.Stage.opens (stage : Stage keys s said) (unopened : s.state ≠ .established)
    (done : (perform call s).state = .established) : s.state = .handshaking ∧
      ∃ own o c remote, Finishes s call own o c remote ∧
        perform call s = s.established remote (c.p3 :: c.s3 :: o.items) (c.se :: o.secrets) := by
  have lost {P : Prop} (failed : (perform call s).state = .failed) : P := by
    rw [failed] at done
    cases done
  rcases stage.establishes done with ⟨before, _⟩ | ⟨remote, items, ends, _⟩
  · exact absurd before unopened
  · cases ends with
    | closed ended =>
      obtain ⟨ephemeral, message, _, rfl, _⟩ := ended.reads
      rcases process_second ephemeral message ended.role ended.state ended.waits with
        ⟨_, _, _, closed, next⟩ | failed
      · exact ⟨ended.state, _, _, _, _, .closed closed, next⟩
      · exact lost failed
    | completed ended =>
      obtain ⟨ephemeral, message, _, rfl, _⟩ := ended.reads
      rcases (process_third ephemeral message ended.role ended.state ended.waits ended.answers).2 with
        ⟨_, _, completed, next⟩ | failed
      · exact ⟨ended.state, _, _, _, _, .completed completed, next⟩
      · exact lost failed

theorem Channel.opening (remote : Bytes) (items secrets : List Bytes) :
    ∃ send recv, Channel send recv [] [] (s.established remote items secrets) :=
  ⟨_, _, fun _ _ none => by simp at none, fun _ none => by simp at none, List.nodup_nil,
    fun _ => ⟨rfl, _, rfl, rfl, rfl, rfl⟩, fun _ => ⟨rfl, _, rfl, rfl, rfl, rfl, rfl⟩⟩

/-- What a session has sent and received, over its whole life. -/
structure Transported (sent received : List TransportMessage) (s : NoiseSession) : Prop where
  channel : ∃ send recv, Channel send recv sent received s
  early : s.state = .uninitialized ∨ s.state = .handshaking → sent = [] ∧ received = []

namespace Transported

/-- Neither message goes through the transport, and the session is as established as before or new. -/
theorem turn (holds : Transported sent received s) (stage : Stage keys s said)
    (same : s.state = .established → (perform call s).state = .established → perform call s = s)
    (later : (perform call s).state = .uninitialized ∨ (perform call s).state = .handshaking →
      s.state = .uninitialized ∨ s.state = .handshaking) :
    Transported sent received (perform call s) := by
  refine ⟨?_, fun early => holds.early (later early)⟩
  obtain ⟨send, recv, channel⟩ := holds.channel
  by_cases done : (perform call s).state = .established
  · by_cases before : s.state = .established
    · rw [same before done]
      exact ⟨send, recv, channel⟩
    · obtain ⟨going, _, _, _, _, _, next⟩ := stage.opens before done
      obtain ⟨rfl, rfl⟩ := holds.early (Or.inr going)
      rw [next]
      exact Channel.opening _ _ _
  · exact ⟨send, recv, channel.lost done⟩

theorem step (holds : Transported sent received s) (stage : Stage keys s said) :
    Transported (sent ++ encrypted s call) (received ++ decrypted s call) (perform call s) := by
  cases call with
  | start ephemeral =>
    simp only [encrypted, decrypted, List.append_nil]
    refine holds.turn stage (fun before _ => perform_start (by simp [before])) fun early => ?_
    by_cases idle : s.state = .uninitialized
    · exact Or.inl idle
    · rw [perform_start idle] at early
      exact early
  | process ephemeral message =>
    have after := process_state s ephemeral message
    simp only [encrypted, decrypted, List.append_nil]
    refine holds.turn stage (fun before done => ?_) fun early => ?_
    · rcases after with failed | ⟨idle, _⟩ | ⟨going, _⟩
      · cases failed.symm.trans done
      · cases idle.symm.trans before
      · cases going.symm.trans before
    · rcases after with failed | ⟨idle, _⟩ | ⟨going, _⟩
      · rw [failed] at early
        cases early <;> contradiction
      · exact Or.inl idle
      · exact Or.inr going
  | encrypt plaintext =>
    obtain ⟨send, recv, channel⟩ := holds.channel
    simp only [decrypted, List.append_nil]
    refine ⟨⟨send, recv, channel.encrypt plaintext⟩, fun early => ?_⟩
    have state : (perform (.encrypt plaintext) s).state = s.state := encrypt_keeps_state plaintext s
    rw [state] at early
    obtain ⟨rfl, rfl⟩ := holds.early early
    have unopened : s.state ≠ .established := by rcases early with h | h <;> simp [h]
    rw [(encrypt_unchanged (encrypt_refused unopened plaintext)).2]
    exact ⟨rfl, rfl⟩
  | decrypt ciphertext =>
    obtain ⟨send, recv, channel⟩ := holds.channel
    simp only [encrypted, List.append_nil]
    refine ⟨⟨send, recv, channel.decrypt ciphertext⟩, fun early => ?_⟩
    have state : (perform (.decrypt ciphertext) s).state = s.state := decrypt_keeps_state ciphertext s
    rw [state] at early
    obtain ⟨rfl, rfl⟩ := holds.early early
    have unopened : s.state ≠ .established := by rcases early with h | h <;> simp [h]
    rw [(decrypt_unchanged (decrypt_refused unopened ciphertext)).2]
    exact ⟨rfl, rfl⟩
  | close =>
    simp only [encrypted, decrypted, List.append_nil]
    refine holds.turn stage (fun _ done => by cases done) fun early => ?_
    rcases early with h | h <;> cases h

end Transported
end Calls

namespace Dialogue
variable [Primitives]

def sent (calls : Dialogue) (role : NoiseRole) : List TransportMessage :=
  calls.flatMap fun e => if e.label.1 = role then encrypted (e.before role) e.label.2 else []

def received (calls : Dialogue) (role : NoiseRole) : List TransportMessage :=
  calls.flatMap fun e => if e.label.1 = role then decrypted (e.before role) e.label.2 else []

theorem sent_append {earlier later : Dialogue} {role : NoiseRole} :
    sent (earlier ++ later) role = sent earlier role ++ sent later role := List.flatMap_append

theorem received_append {earlier later : Dialogue} {role : NoiseRole} :
    received (earlier ++ later) role = received earlier role ++ received later role :=
  List.flatMap_append

/-- The transport cryptography is ideal in the run. -/
structure TransportIdeal (calls : Dialogue) : Prop where
  /-- Data that open under a transport key were sealed under it before, by one of the two sessions. -/
  unforged : ∀ (earlier later : Dialogue) (e : Taken TwoSessions (NoiseRole × Call)),
    calls = earlier ++ e :: later → ∀ m ∈ decrypted (e.before e.label.1) e.label.2,
      ∃ sealer, ∃ n ∈ earlier.sent sealer, n.key = m.key ∧ n.number = m.number ∧
        n.ciphertext.drop nonceSizeBytes = m.ciphertext.drop nonceSizeBytes
  /-- The keys of the two directions differ. -/
  separate : ∀ e ∈ calls, ∀ role, (e.before role).state = .established →
    (e.before role).sendKey ≠ (e.before role).recvKey

end Dialogue

namespace TwoSessions.Created
variable [Primitives] {start s : TwoSessions} {calls : Dialogue}

variable (created : start.Created) (run : Run Step start calls s)
include created run

theorem transported (role : NoiseRole) :
    Transported (calls.sent role) (calls.received role) (s role) := by
  induction run with
  | nil =>
    obtain ⟨_, identity, _, _, made⟩ := created role
    obtain ⟨_, shape⟩ := new_eq_ok made
    have idle : (start role).state ≠ .established := by simp [shape]
    exact ⟨⟨[], [], Channel.idle [] [] idle⟩, fun _ => ⟨rfl, rfl⟩⟩
  | @snoc history s label t run taken ih =>
    obtain ⟨rfl, _⟩ := taken
    obtain ⟨stage, _⟩ := created.stage run role
    rw [Dialogue.sent_append, Dialogue.received_append]
    simp only [Dialogue.sent, Dialogue.received, List.flatMap_singleton]
    by_cases mine : label.1 = role
    · subst mine
      have next : s.perform label label.1 = NoiseSession.perform label.2 (s label.1) :=
        Function.update_self ..
      rw [next, if_pos rfl, if_pos rfl]
      exact ih.step stage
    · have next : s.perform label role = s role := Function.update_of_ne (Ne.symm mine) _ _
      rw [next, if_neg mine, if_neg mine, List.append_nil, List.append_nil]
      exact ih

section Accepting
variable {earlier later : Dialogue} {e : Taken TwoSessions (NoiseRole × Call)} {role : NoiseRole}
  {ciphertext plaintext send recv : Bytes} (whole : calls = earlier ++ e :: later)
include whole

/-- The channel of a session as one of the calls finds it. -/
theorem channel_at (role : NoiseRole) : ∃ send recv,
    Channel send recv (earlier.sent role) (earlier.received role) (e.before role) := by
  subst whole
  exact (created.transported run.split.1 role).channel

variable [laws : LawfulPrimitives] (ideal : calls.TransportIdeal)
  (label : e.label = (role, .decrypt ciphertext))
  (channel : Channel send recv (earlier.sent role) (earlier.received role) (e.before role))
include ideal label channel

/-- What a session decrypts is a message of the other, as it was sent. -/
theorem decrypted_sent {t : NoiseSession} (established : (e.before role).state = .established)
    (returned : decrypt ciphertext (e.before role) = .ok plaintext t) :
    ⟨recv, wireNonce ciphertext, plaintext, ciphertext⟩ ∈ earlier.sent role.other := by
  have receives := channel.receives established
  have verifies := (receives.decrypt_eq_ok.mp returned).1
  have accepted : ⟨recv, wireNonce ciphertext, plaintext, ciphertext⟩ ∈
      decrypted (e.before e.label.1) e.label.2 := by
    rw [label, (decrypt_result returned receives).2]
    exact List.mem_singleton_self _
  obtain ⟨sealer, n, member, key, number, body⟩ := ideal.unforged earlier later e whole _ accepted
  simp only at key number body
  obtain ⟨own, his, theirs⟩ := created.channel_at run whole sealer
  obtain ⟨i, found⟩ := List.mem_iff_getElem?.mp member
  obtain ⟨sealedUnder, _, made⟩ := theirs.made i n found
  obtain ⟨text, bytes⟩ := made.same number body (key ▸ verifies)
  obtain rfl : n = ⟨recv, wireNonce ciphertext, plaintext, ciphertext⟩ := by
    rw [← key, ← number, ← text, ← bytes]
  by_cases mine : sealer = role
  · -- a session does not take its own messages for those of the other
    subst mine
    obtain ⟨c, held, keyed, _⟩ := (channel.sends established).cipher
    obtain ⟨d, found', tracks⟩ := receives.cipher
    obtain ⟨same, _⟩ := channel.made i _ found
    have separate := ideal.separate e (whole ▸ by simp) sealer established
    rw [sendKey, recvKey, held, found', Option.bind_some, Option.bind_some, keyed, tracks.keyed,
      ← same] at separate
    exact absurd rfl separate
  · have other : sealer = role.other := by cases sealer <;> cases role <;> first | rfl | contradiction
    exact other ▸ member

/-- An established session decrypts exactly the messages of the other that are under its key, new to it
and not behind its window. -/
theorem decrypts_iff (established : (e.before role).state = .established) :
    (∃ t, decrypt ciphertext (e.before role) = .ok plaintext t) ↔
      ∃ m ∈ earlier.sent role.other, m.plaintext = plaintext ∧ m.ciphertext = ciphertext ∧
        (e.before role).recvKey = some m.key ∧ m.number < 2 ^ 32 ∧
        m.number ∉ (earlier.received role).map TransportMessage.number ∧
        highest ((earlier.received role).map TransportMessage.number) <
          m.number + noiseReplayWindowSize := by
  have receives := channel.receives established
  obtain ⟨c, held, tracks⟩ := receives.cipher
  have own : (e.before role).recvKey = some recv := by
    rw [recvKey, held, Option.bind_some, tracks.keyed]
  constructor
  · rintro ⟨t, returned⟩
    obtain ⟨_, unseen, inRange, _⟩ := receives.decrypt_eq_ok.mp returned
    exact ⟨_, created.decrypted_sent run whole ideal label channel established returned, rfl, rfl, own,
      wireNonce_lt ciphertext, unseen, inRange⟩
  · rintro ⟨m, member, rfl, rfl, key, fits, unseen, inRange⟩
    obtain ⟨_, _, theirs⟩ := created.channel_at run whole role.other
    obtain ⟨i, found⟩ := List.mem_iff_getElem?.mp member
    obtain ⟨_, _, made⟩ := theirs.made i m found
    obtain ⟨number, verifies⟩ := made.opens fits
    obtain rfl : m.key = recv := Option.some.inj (key.symm.trans own)
    exact ⟨_, receives.decrypt_eq_ok.mpr ⟨verifies, number ▸ unseen, number ▸ inRange, c, held, rfl⟩⟩

end Accepting

variable [laws : LawfulPrimitives] (ideal : calls.TransportIdeal)
include ideal

theorem received_sent {role : NoiseRole} {m : TransportMessage} (member : m ∈ calls.received role) :
    m ∈ calls.sent role.other := by
  obtain ⟨e, taken, accepted⟩ := List.mem_flatMap.mp member
  obtain ⟨earlier, later, whole⟩ := List.append_of_mem taken
  split at accepted
  · rename_i mine
    subst mine
    obtain ⟨send, recv, channel⟩ := created.channel_at run whole e.label.1
    obtain ⟨ciphertext, plaintext, t, call, established, returned, rfl⟩ := channel.decrypted_inv accepted
    rw [whole, Dialogue.sent_append]
    exact List.mem_append_left _ (created.decrypted_sent run whole ideal (Prod.ext rfl call) channel
      established returned)
  · cases accepted

/-- The two sessions are joined by a channel. Each numbers what it sends from zero on under one key, it
decrypts exactly the messages of the other that are new and not behind its window, and so what it receives
is a part of what the other has sent, without repetition. -/
theorem secure_channel :
    (∀ role, ∃ key, ∀ (i : Nat) m, (calls.sent role)[i]? = some m → m.key = key ∧ m.number = i) ∧
    (∀ role, (calls.received role).Subperm (calls.sent role.other)) ∧
    ∀ (earlier later : Dialogue) e role ciphertext, calls = earlier ++ e :: later →
      e.label = (role, .decrypt ciphertext) → (e.before role).state = .established → ∀ plaintext,
        (∃ t, decrypt ciphertext (e.before role) = .ok plaintext t) ↔
          ∃ m ∈ earlier.sent role.other, m.plaintext = plaintext ∧ m.ciphertext = ciphertext ∧
            (e.before role).recvKey = some m.key ∧ m.number < 2 ^ 32 ∧
            m.number ∉ (earlier.received role).map TransportMessage.number ∧
            highest ((earlier.received role).map TransportMessage.number) <
              m.number + noiseReplayWindowSize := by
  refine ⟨fun role => ?_, fun role => ?_, fun earlier later e role ciphertext whole label established _ => ?_⟩
  · obtain ⟨send, _, channel⟩ := (created.transported run role).channel
    exact ⟨send, fun i m found => ⟨(channel.made i m found).1, (channel.made i m found).2.1⟩⟩
  · obtain ⟨_, _, channel⟩ := (created.transported run role).channel
    exact List.subperm_of_subset channel.fresh.of_map fun m member =>
      created.received_sent run ideal member
  · obtain ⟨_, _, channel⟩ := created.channel_at run whole role
    exact created.decrypts_iff run whole ideal label channel established

end TwoSessions.Created

end Bitchat.Crypto

namespace Bitchat.Crypto.Modular
open NoiseSession NoiseCipherState Dialogue Stateful
attribute [local instance] primitives lawful

/-- What the initiator's first text becomes. -/
def note : Bytes :=
  ((outcome (NoiseSession.encrypt [1, 2, 3]) (lastSessions thirdMessage .initiator)).1.toOption).getD []

/-- A handshake and a text, which the network delivers twice. -/
def noteCalls : List (NoiseRole × Call) := callsEnding thirdMessage ++
  [(.initiator, .encrypt [1, 2, 3]), (.responder, .decrypt note), (.responder, .decrypt note)]

def noteDialogue : Dialogue := Run.trace TwoSessions.perform twoDevices noteCalls

theorem noteDialogue_run : Run TwoSessions.Step twoDevices noteDialogue
    (noteCalls.foldl (fun s label => s.perform label) twoDevices) := by
  apply Run.of_trace
  intro s label member
  refine ⟨rfl, ?_⟩
  simp only [noteCalls, callsEnding, List.cons_append, List.nil_append, List.mem_cons, List.not_mem_nil,
    or_false] at member
  rcases member with rfl | rfl | rfl | rfl | rfl | rfl | rfl <;> simp [Call.generated, repeated_length]

theorem noteDialogue_unforged : ∀ i < noteCalls.length, ∀ e ∈ noteDialogue[i]?,
    ∀ m ∈ decrypted (e.before e.label.1) e.label.2, ∃ n ∈ Dialogue.sent (noteDialogue.take i) .initiator,
      n.key = m.key ∧ n.number = m.number ∧
      n.ciphertext.drop nonceSizeBytes = m.ciphertext.drop nonceSizeBytes := by
  decide +kernel

theorem noteDialogue_ideal : noteDialogue.TransportIdeal where
  unforged earlier later e whole m accepted := by
    have place : noteDialogue[earlier.length]? = some e := by simp [whole]
    have inside : earlier.length < noteCalls.length :=
      (List.getElem?_eq_some_iff.mp place).1.trans_eq (by rfl)
    have before : noteDialogue.take earlier.length = earlier := by simp [whole]
    obtain ⟨n, member, same⟩ := noteDialogue_unforged _ inside e place m accepted
    exact ⟨.initiator, n, before ▸ member, same⟩
  separate e member role := by
    cases role with
    | initiator => revert e; decide +kernel
    | responder => revert e; decide +kernel

/-- A text that arrives, and its copy, which is refused. -/
theorem secure_channel_note : ∃ calls s, Run TwoSessions.Step twoDevices calls s ∧
    (Dialogue.received calls .responder).map TransportMessage.plaintext = [[1, 2, 3]] ∧
    (Dialogue.received calls .responder).Subperm (Dialogue.sent calls .initiator) := by
  have texts : (Dialogue.received noteDialogue .responder).map TransportMessage.plaintext = [[1, 2, 3]] := by
    decide +kernel
  exact ⟨noteDialogue, _, noteDialogue_run, texts,
    (twoDevices_created.secure_channel noteDialogue_run noteDialogue_ideal).2.1 .responder⟩

end Bitchat.Crypto.Modular
