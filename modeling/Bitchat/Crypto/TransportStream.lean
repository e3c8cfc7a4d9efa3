import Bitchat.Crypto.ReplayWindow
import Bitchat.Crypto.Session

/-! A stream of transport messages from one session to another. The counter has 64
bits and travels in 32: up to 2^32 messages arrive, the one after is refused. -/
namespace Bitchat.Crypto.NoiseSession
open Stateful NoiseCipherState

/-- The session's next message is number `counter` under `key`. -/
structure Sends (key : Bytes) (counter : Nat) (s : NoiseSession) : Prop where
  established : s.state = .established
  cipher : ∃ c, s.sendCipher = some c ∧ c.key = some key ∧ c.useExtractedNonce = true ∧
    c.nonce = counter

/-- The session has received the messages with these numbers under `key`. -/
structure Receives (key : Bytes) (nonces : List Nat) (s : NoiseSession) : Prop where
  established : s.state = .established
  cipher : ∃ c, s.recvCipher = some c ∧ Tracks key nonces c

/-- The four bytes of the counter that travel. -/
def wireCounter (counter : Nat) : Bytes := (Bytes.toLE 8 counter).take nonceSizeBytes

theorem wireCounter_length (counter : Nat) : (wireCounter counter).length = nonceSizeBytes := by
  simp [wireCounter, nonceSizeBytes]

theorem wireNonce_wireCounter (counter : Nat) (sealed : Bytes) :
    wireNonce (wireCounter counter ++ sealed) = counter % 2 ^ 32 := by
  have first : Bytes.toLE 8 counter = Bytes.toLE 4 counter ++
      Bytes.toLE 4 (counter / 256 / 256 / 256 / 256) := rfl
  have low : (Bytes.toLE 8 counter).take nonceSizeBytes = Bytes.toLE 4 counter := by
    rw [first]
    exact List.take_left' (Bytes.toLE_length 4 counter)
  rw [wireNonce, List.take_left' (wireCounter_length counter), wireCounter, low]
  exact Bytes.ofLE_toLE_mod 4 counter

theorem drop_wireCounter (counter : Nat) (sealed : Bytes) :
    (wireCounter counter ++ sealed).drop nonceSizeBytes = sealed :=
  List.drop_left' (wireCounter_length counter)

section Streams
variable [Primitives] {key plaintext ciphertext : Bytes} {counter : Nat} {nonces : List Nat}
  {s t u : NoiseSession}

theorem encrypt_established {c : NoiseCipherState} (established : s.state = .established)
    (held : s.sendCipher = some c) : encrypt plaintext s =
      focus (fun _ => c) (fun cipher s => { s with sendCipher := some cipher })
        (NoiseCipherState.encrypt plaintext []) s := by
  rw [encrypt, get_bind, if_apply, if_neg (fun different => different established)]
  simp only [onSendCipher, held]

theorem decrypt_established {c : NoiseCipherState} (established : s.state = .established)
    (held : s.recvCipher = some c) : decrypt ciphertext s =
      focus (fun _ => c) (fun cipher s => { s with recvCipher := some cipher })
        (NoiseCipherState.decrypt ciphertext []) s := by
  rw [decrypt, get_bind, if_apply, if_neg (fun different => different established)]
  simp only [onRecvCipher, held]

theorem Sends.encrypt_eq_ok (sends : Sends key counter s) :
    encrypt plaintext s = .ok ciphertext t ↔ counter < 2 ^ 64 ∧
      ∃ sealed c, Primitives.aeadEncrypt key (aeadNonce counter) plaintext [] = some sealed ∧
        ciphertext = wireCounter counter ++ sealed ∧ s.sendCipher = some c ∧
        t = { s with sendCipher := some { c with nonce := counter + 1 } } := by
  obtain ⟨c, held, keyed, mode, rfl⟩ := sends.cipher
  rw [encrypt_established sends.established held, focus_eq_ok]
  have front : c.wirePrefix = wireCounter c.nonce := by simp [wirePrefix, mode, wireCounter]
  simp only [NoiseCipherState.encrypt_eq_ok keyed, front]
  constructor
  · rintro ⟨inner, ⟨fits, sealed, seals, rfl, rfl⟩, rfl⟩
    exact ⟨fits, sealed, c, seals, rfl, held, rfl⟩
  · rintro ⟨fits, sealed, d, seals, rfl, found, rfl⟩
    cases held.symm.trans found
    exact ⟨_, ⟨fits, sealed, seals, rfl, rfl⟩, rfl⟩

/-- One encryption moves the counter on by one. -/
theorem Sends.next (sends : Sends key counter s)
    (returned : encrypt plaintext s = .ok ciphertext t) : Sends key (counter + 1) t := by
  obtain ⟨_, _, c, _, _, held, rfl⟩ := sends.encrypt_eq_ok.mp returned
  obtain ⟨d, found, keyed, mode, _⟩ := sends.cipher
  cases held.symm.trans found
  exact ⟨sends.established, _, rfl, keyed, mode, rfl⟩

theorem Sends.encrypt_error (sends : Sends key counter s) {e : CryptoError}
    (raised : encrypt plaintext s = .error e t) : t = s := by
  obtain ⟨c, held, keyed, _, _⟩ := sends.cipher
  rw [encrypt_established sends.established held] at raised
  unfold focus at raised
  cases inner : NoiseCipherState.encrypt plaintext [] c with
  | ok a d => rw [inner] at raised; cases raised
  | error e' d =>
    rw [inner, encrypt_error_state keyed inner] at raised
    obtain ⟨_, rfl⟩ := EStateM.Result.error.inj raised
    change { s with sendCipher := some c } = s
    rw [← held]

theorem Receives.decrypt_eq_ok (receives : Receives key nonces s) :
    decrypt ciphertext s = .ok plaintext t ↔ Verifies key ciphertext [] plaintext ∧
      wireNonce ciphertext ∉ nonces ∧
      highest nonces < wireNonce ciphertext + noiseReplayWindowSize ∧
      ∃ c, s.recvCipher = some c ∧
        t = { s with recvCipher := some (c.markNonceSeen (wireNonce ciphertext)) } := by
  obtain ⟨c, held, tracks⟩ := receives.cipher
  rw [decrypt_established receives.established held, focus_eq_ok]
  simp only [NoiseCipherState.decrypt_eq_ok tracks.keyed tracks.mode, tracks.isValidNonce]
  constructor
  · rintro ⟨inner, ⟨verifies, ⟨fresh, inRange⟩, rfl⟩, rfl⟩
    exact ⟨verifies, fresh, inRange, c, held, rfl⟩
  · rintro ⟨verifies, fresh, inRange, d, found, rfl⟩
    cases held.symm.trans found
    exact ⟨_, ⟨verifies, ⟨fresh, inRange⟩, rfl⟩, rfl⟩

/-- One decryption adds the counter that came with the message. -/
theorem Receives.next (receives : Receives key nonces s)
    (returned : decrypt ciphertext s = .ok plaintext t) :
    Receives key (nonces ++ [wireNonce ciphertext]) t := by
  obtain ⟨_, _, inRange, c, held, rfl⟩ := receives.decrypt_eq_ok.mp returned
  obtain ⟨d, found, tracks⟩ := receives.cipher
  cases held.symm.trans found
  exact ⟨receives.established, _, rfl, tracks.markNonceSeen _ inRange⟩

/-- The library seals this plaintext under every nonce, and opens what it sealed. -/
def SealsAndOpens (key plaintext : Bytes) : Prop :=
  ∀ counter < 2 ^ 64, ∃ sealed,
    Primitives.aeadEncrypt key (aeadNonce counter) plaintext [] = some sealed ∧
    Primitives.aeadDecrypt key (aeadNonce counter) sealed [] = some plaintext

/-- Calls one after another, each on the state the one before left. -/
def inOrder (call : Bytes → EStateM CryptoError NoiseSession Bytes) :
    List Bytes → EStateM CryptoError NoiseSession (List Bytes)
  | [] => pure []
  | first :: rest => do
    let out ← call first
    let outs ← inOrder call rest
    return out :: outs

/-- Everything is encrypted in order and decrypts in that order to what it was. -/
def Arrives (plaintexts : List Bytes) (sender receiver : NoiseSession) : Prop :=
  ∃ ciphertexts s r, inOrder encrypt plaintexts sender = .ok ciphertexts s ∧
    inOrder decrypt ciphertexts receiver = .ok plaintexts r

omit [Primitives] in
theorem inOrder_cons {call : Bytes → EStateM CryptoError NoiseSession Bytes} {first : Bytes}
    {rest outs : List Bytes} : inOrder call (first :: rest) s = .ok outs t ↔
      ∃ out u others, call first s = .ok out u ∧ inOrder call rest u = .ok others t ∧
        outs = out :: others := by
  rw [inOrder, bind_eq_ok]
  constructor
  · rintro ⟨out, u, first, more⟩
    obtain ⟨others, v, rest, last⟩ := bind_eq_ok.mp more
    obtain ⟨rfl, rfl⟩ := EStateM.Result.ok.inj last
    exact ⟨out, u, others, first, rest, rfl⟩
  · rintro ⟨out, u, others, first, rest, rfl⟩
    exact ⟨out, u, first, bind_eq_ok.mpr ⟨others, t, rest, rfl⟩⟩

theorem arrives_cons {rest : List Bytes} : Arrives (plaintext :: rest) s t ↔
    ∃ ciphertext s' t', encrypt plaintext s = .ok ciphertext s' ∧
      decrypt ciphertext t = .ok plaintext t' ∧ Arrives rest s' t' := by
  constructor
  · rintro ⟨ciphertexts, s'', t'', sent, received⟩
    obtain ⟨ciphertext, s', others, first, more, rfl⟩ := inOrder_cons.mp sent
    obtain ⟨out, t', outs, opened, rest, same⟩ := inOrder_cons.mp received
    obtain ⟨rfl, rfl⟩ := List.cons.inj same
    exact ⟨ciphertext, s', t', first, opened, others, s'', t'', more, rest⟩
  · rintro ⟨ciphertext, s', t', first, opened, others, s'', t'', more, rest⟩
    exact ⟨_, s'', t'', inOrder_cons.mpr ⟨_, _, _, first, more, rfl⟩,
      inOrder_cons.mpr ⟨_, _, _, opened, rest, rfl⟩⟩

/-- A message whose number fits in the wire counter and is new to the receiver arrives. -/
theorem Sends.delivers (sends : Sends key counter s) (receives : Receives key nonces t)
    (past : ∀ n ∈ nonces, n < counter) (fits : counter < 2 ^ 32)
    (correct : SealsAndOpens key plaintext) : ∃ ciphertext s' t',
      encrypt plaintext s = .ok ciphertext s' ∧ decrypt ciphertext t = .ok plaintext t' ∧
      Sends key (counter + 1) s' ∧ Receives key (nonces ++ [counter]) t' := by
  have large : counter < 2 ^ 64 := fits.trans (by decide)
  obtain ⟨sealed, seals, opens⟩ := correct counter large
  obtain ⟨c, sendHeld, _⟩ := sends.cipher
  obtain ⟨d, recvHeld, _⟩ := receives.cipher
  have sent := sends.encrypt_eq_ok.mpr ⟨large, sealed, c, seals, rfl, sendHeld, rfl⟩
  have number : wireNonce (wireCounter counter ++ sealed) = counter := by
    rw [wireNonce_wireCounter, Nat.mod_eq_of_lt fits]
  have verifies : Verifies key (wireCounter counter ++ sealed) [] plaintext := by
    constructor
    · rw [List.length_append, wireCounter_length]
      exact Nat.le_add_right _ _
    · rw [number, drop_wireCounter]
      exact opens
  have received := receives.decrypt_eq_ok.mpr ⟨verifies, by
    rw [number]
    constructor
    · exact fun old => absurd (past counter old) (lt_irrefl _)
    · have := highest_le fun n old => (past n old).le
      simp only [noiseReplayWindowSize]
      exact ⟨by omega, d, recvHeld, rfl⟩⟩
  refine ⟨_, _, _, sent, received, sends.next sent, ?_⟩
  have after := receives.next received
  rwa [number] at after

theorem arrives {plaintexts : List Bytes} (sends : Sends key counter s)
    (receives : Receives key nonces t) (past : ∀ n ∈ nonces, n < counter)
    (room : counter + plaintexts.length ≤ 2 ^ 32)
    (correct : ∀ p ∈ plaintexts, SealsAndOpens key p) : Arrives plaintexts s t := by
  induction plaintexts generalizing counter nonces s t with
  | nil => exact ⟨[], s, t, rfl, rfl⟩
  | cons plaintext rest ih =>
    rw [List.length_cons] at room
    obtain ⟨ciphertext, s', t', sent, received, sends', receives'⟩ :=
      sends.delivers receives past (by omega) (correct plaintext List.mem_cons_self)
    have past' : ∀ n ∈ nonces ++ [counter], n < counter + 1 := by
      intro n member
      rcases List.mem_append.mp member with old | new
      · exact (past n old).trans (Nat.lt_succ_self _)
      · rw [List.mem_singleton.mp new]
        exact Nat.lt_succ_self _
    apply arrives_cons.mpr
    refine ⟨ciphertext, s', t', sent, received, ?_⟩
    exact ih sends' receives' past' (by omega) fun p later => correct p (List.mem_cons_of_mem _ later)

/-- The counter after 2^32 - 1 travels as zero, which is behind the window. -/
theorem Sends.wraps (sends : Sends key (2 ^ 32) s) (receives : Receives key nonces t)
    (latest : highest nonces = 2 ^ 32 - 1) (sent : encrypt plaintext s = .ok ciphertext u) :
    ¬ ∃ opened t', decrypt ciphertext t = .ok opened t' := by
  rintro ⟨opened, t', returned⟩
  obtain ⟨_, sealed, c, _, rfl, _⟩ := sends.encrypt_eq_ok.mp sent
  obtain ⟨_, _, inRange, _⟩ := receives.decrypt_eq_ok.mp returned
  rw [wireNonce_wireCounter, Nat.mod_self] at inRange
  simp only [noiseReplayWindowSize] at inRange
  omega

/-- No stream that goes on past 2^32 messages arrives, whatever the library does. -/
theorem not_arrives {plaintexts : List Bytes} (sends : Sends key counter s)
    (receives : Receives key nonces t) (latest : highest nonces = counter - 1)
    (start : counter ≤ 2 ^ 32) (long : 2 ^ 32 < counter + plaintexts.length) :
    ¬ Arrives plaintexts s t := by
  induction plaintexts generalizing counter nonces s t with
  | nil => simp only [List.length_nil] at long; omega
  | cons plaintext rest ih =>
    intro all
    obtain ⟨ciphertext, s', t', sent, received, others⟩ := arrives_cons.mp all
    rw [List.length_cons] at long
    rcases Nat.lt_or_eq_of_le start with small | rfl
    · obtain ⟨_, sealed, c, _, rfl, _⟩ := sends.encrypt_eq_ok.mp sent
      have receives' := receives.next received
      rw [wireNonce_wireCounter, Nat.mod_eq_of_lt small] at receives'
      have top : highest (nonces ++ [counter]) = counter + 1 - 1 := by
        rw [highest_append]
        omega
      exact ih (sends.next sent) receives' top (by omega) (by omega) others
    · exact sends.wraps receives latest sent ⟨plaintext, t', received⟩

section Nonces

/-- One call of `encrypt`: the plaintext, and what came back. -/
def EncryptStep (s : NoiseSession) (label : Bytes × Except CryptoError Bytes) (t : NoiseSession) :
    Prop := outcome (encrypt label.1) s = (label.2, t)

/-- The plaintexts that were encrypted, each with what was returned for it. -/
def encryptedMessages (calls : List (Taken NoiseSession (Bytes × Except CryptoError Bytes))) :
    List (Bytes × Bytes) :=
  calls.filterMap fun e => e.label.2.toOption.map fun ciphertext => (e.label.1, ciphertext)

/-- The library made the ciphertext behind the four wire bytes, and it was given this nonce. -/
def SealedUnder (key nonce : Bytes) (message : Bytes × Bytes) : Prop :=
  Primitives.aeadEncrypt key nonce message.1 [] = some (message.2.drop nonceSizeBytes)

theorem Sends.sealedUnder (sends : Sends key counter s)
    (returned : encrypt plaintext s = .ok ciphertext t) :
    SealedUnder key (aeadNonce counter) (plaintext, ciphertext) := by
  obtain ⟨_, sealed, _, seals, rfl, _⟩ := sends.encrypt_eq_ok.mp returned
  rw [SealedUnder, drop_wireCounter]
  exact seals

/-- The calls of a run are sealed under the nonces of consecutive counters below 2^64. -/
theorem run_sealedUnder {calls} (sends : Sends key counter s) (run : Run EncryptStep s calls t) :
    ∃ count, Sends key (counter + count) t ∧ (count = 0 ∨ counter + count ≤ 2 ^ 64) ∧
      List.Forall₂ (SealedUnder key) ((List.range count).map fun i => aeadNonce (counter + i))
        (encryptedMessages calls) := by
  induction run with
  | nil => exact ⟨0, sends, Or.inl rfl, .nil⟩
  | @snoc calls u label v _ step ih =>
    obtain ⟨count, sends', bound, sealings⟩ := ih
    obtain ⟨plaintext, result⟩ := label
    have grown : encryptedMessages (calls ++ [⟨u, (plaintext, result), v⟩]) =
        encryptedMessages calls ++ encryptedMessages [⟨u, (plaintext, result), v⟩] :=
      List.filterMap_append ..
    cases result with
    | error e =>
      have same := sends'.encrypt_error (outcome_eq_error.mp step)
      have nothing : encryptedMessages [⟨u, (plaintext, .error e), v⟩] = [] := rfl
      refine ⟨count, same ▸ sends', bound, ?_⟩
      rw [grown, nothing, List.append_nil]
      exact sealings
    | ok ciphertext =>
      have returned := outcome_eq_ok.mp step
      obtain ⟨fits, _⟩ := sends'.encrypt_eq_ok.mp returned
      refine ⟨count + 1, sends'.next returned, Or.inr fits, ?_⟩
      rw [grown, List.range_succ, List.map_append]
      exact List.rel_append sealings (.cons (sends'.sealedUnder returned) .nil)

theorem run_nonces {calls} (sends : Sends key counter s) (run : Run EncryptStep s calls t) :
    ∃ nonces, nonces.Nodup ∧ List.Forall₂ (SealedUnder key) nonces (encryptedMessages calls) := by
  obtain ⟨count, _, bound, sealings⟩ := run_sealedUnder sends run
  refine ⟨_, ?_, sealings⟩
  refine List.Nodup.map_on ?_ List.nodup_range
  intro i hi j hj same
  have hi := List.mem_range.mp hi
  have hj := List.mem_range.mp hj
  have := aeadNonce_inj (by omega) (by omega) same
  omega

end Nonces

/-- In-order streams arrive while the counter fits in its 32 wire bits, and the library seals
every encryption of a run of any length under a nonce of its own. -/
theorem transport_stream (sends : Sends key counter s) (receives : Receives key nonces t)
    (past : ∀ n ∈ nonces, n < counter) :
    (∀ plaintexts : List Bytes, (∀ p ∈ plaintexts, SealsAndOpens key p) →
      counter + plaintexts.length ≤ 2 ^ 32 → Arrives plaintexts s t) ∧
    ∀ calls u, Run EncryptStep s calls u →
      ∃ nonces, nonces.Nodup ∧ List.Forall₂ (SealedUnder key) nonces (encryptedMessages calls) :=
  ⟨fun _ correct room => arrives sends receives past room correct,
    fun _ _ => run_nonces sends⟩

end Streams

section Example
attribute [local instance] Modular.primitives

/-- An established session with one key for both directions. -/
def linked (key : Bytes) : NoiseSession where
  localIdentity := ⟨List.replicate 32 1, List.length_replicate⟩
  remotePeerId := Str.hex (List.replicate 8 2)
  role := .initiator
  state := .established
  sendCipher := some (.transport key)
  recvCipher := some (.transport key)

theorem linked_sends (key : Bytes) : Sends key 0 (linked key) := ⟨rfl, _, rfl, rfl, rfl, rfl⟩

theorem linked_receives (key : Bytes) : Receives key [] (linked key) :=
  ⟨rfl, _, rfl, rfl, rfl, rfl, rfl⟩

theorem modular_sealsAndOpens (key plaintext : Bytes) : SealsAndOpens key plaintext :=
  fun _ _ => ⟨_, rfl, Modular.openSealed_append ..⟩

/-- Three messages arrive. -/
theorem transport_stream_three :
    Arrives [[1], [], [2, 3]] (linked (List.replicate 32 5)) (linked (List.replicate 32 5)) :=
  (transport_stream (linked_sends _) (linked_receives _) (by simp)).1 _
    (fun p _ => modular_sealsAndOpens _ p) (by simp)

/-- Of 2^32 + 1 empty messages the last is refused. -/
theorem not_every_stream_arrives : ∃ (key : Bytes) (sender receiver : NoiseSession)
    (plaintexts : List Bytes), Sends key 0 sender ∧ Receives key [] receiver ∧
      (∀ p ∈ plaintexts, SealsAndOpens key p) ∧ ¬ Arrives plaintexts sender receiver := by
  refine ⟨List.replicate 32 5, _, _, List.replicate (2 ^ 32 + 1) [], linked_sends _,
    linked_receives _, fun p _ => modular_sealsAndOpens _ p, ?_⟩
  apply not_arrives (linked_sends _) (linked_receives _) rfl (Nat.zero_le _)
  rw [List.length_replicate, Nat.zero_add]
  exact Nat.lt_succ_self _

end Example
end Bitchat.Crypto.NoiseSession
