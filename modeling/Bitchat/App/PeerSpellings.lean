import Bitchat.App.RefusedTargets
import Mathlib.Data.Char
import Mathlib.Data.List.Lex

/-! The spellings of a peer id. Sessions are kept under the text a caller gives, and the role is
decided by comparing it, so two spellings of one id lead to two sessions, and to roles that need
not fit together. -/
namespace Bitchat.App.SessionCoordinator
open Crypto Protocol Storage Stateful Str

/-- The spellings differ in letter case and in the white space around them only. -/
def SameId [CaseMapping] (first second : Str) : Prop :=
  CaseMapping.lower (strip first) = CaseMapping.lower (strip second)

/-- The serial of the next session object is not in use. -/
def NextUnused (c : SessionCoordinator) : Prop :=
  ∀ peer held, c.sessions.get? peer = some held → held.serial < c.nextSerial

/-- One object is stored under both texts. -/
def Shared (first second : Str) (c : SessionCoordinator) : Prop :=
  ∃ held other, c.sessions.get? first = some held ∧ c.sessions.get? second = some other ∧
    other.serial = held.serial

section
variable [Primitives] [CaseMapping]

/-- The second call returns the session that the first one returned. -/
def SameSession (first second : Str) (c : SessionCoordinator) : Prop :=
  ∃ held d other e, getOrCreateSession first c = .ok held d ∧ getOrCreateSession second d = .ok other e ∧
    other.serial = held.serial

/-- Both spellings get one session, whichever is used first. -/
def OneSession (first second : Str) (c : SessionCoordinator) : Prop :=
  SameSession first second c ∧ SameSession second first c

/-- A call with the spelling gets the session that the handlers of packets from `id` look up. -/
def MeetsPackets (spelling : Str) (id : Bytes) (c : SessionCoordinator) : Prop :=
  ∃ held d other, getOrCreateSession spelling c = .ok held d ∧ d.sessions.get? (hex id) = some other ∧
    other.serial = held.serial

/-- A direct message under the spelling uses such a session: the call leaves it under the spelling. -/
def MessageMeetsPackets (w : Surroundings) (spelling : Str) (text id : Bytes) (c : SessionCoordinator) :
    Prop :=
  let d := (outcome (sendDirectMessage w spelling text) c).2
  ∃ used other, d.sessions.get? spelling = some used ∧ d.sessions.get? (hex id) = some other ∧
    other.serial = used.serial

/-- What a call returns: the session that is stored, or a new one that is stored now. -/
inductive Obtained (spelling : Str) (c : SessionCoordinator) (held : Held) : SessionCoordinator → Prop where
  | known : c.sessions.get? spelling = some held → Obtained spelling c held c
  | created : c.sessions.get? spelling = none → held.serial = c.nextSerial →
      Obtained spelling c held (c.enroll spelling held.session)

variable {w : Surroundings} {first second spelling : Str} {text : Bytes} {c d e : SessionCoordinator}
  {held other : Held}

theorem obtained (got : getOrCreateSession spelling c = .ok held d) : Obtained spelling c held d := by
  have ends : Ends (getOrCreateSession spelling) c fun result d =>
      ∀ held, result = .ok held → Obtained spelling c held d := by
    apply getOrCreateSession_ends
    · rintro e _ held ⟨⟩
    · rintro held found _ ⟨⟩
      exact .known found
    · rintro session unknown _ _ ⟨⟩
      exact .created unknown rfl
  exact (ends_of_ok got).mp ends held rfl

/-- A peer other than this device gets a session under any spelling. -/
theorem getOrCreateSession_ok (remote : ¬ c.isSelf (strip spelling) = true)
    (own : c.localIdentity.peerIdHex ≠ []) (named : spelling ≠ []) :
    ∃ held d, getOrCreateSession spelling c = .ok held d := by
  have ends : Ends (getOrCreateSession spelling) c fun result _ => ∃ held, result = .ok held := by
    rw [getOrCreateSession, ends_get_bind, ends_ite]
    refine ⟨fun self => absurd self remote, fun _ => ?_⟩
    cases found : c.sessions.get? spelling with
    | some held => exact ⟨held, rfl⟩
    | none =>
      cases made : NoiseSession.new c.localIdentity spelling none with
      | error e => exact absurd (new_error_iff.mp ⟨e, made⟩) (by simp [own, named])
      | ok session => exact ⟨_, rfl⟩
  cases result : getOrCreateSession spelling c with
  | ok held d => exact ⟨held, d, rfl⟩
  | error e d =>
    obtain ⟨held, same⟩ := (ends_of_error result).mp ends
    cases same

omit [CaseMapping] [Primitives] in
theorem Obtained.found (obtained : Obtained spelling c held d) : d.sessions.get? spelling = some held := by
  cases obtained with
  | known found => exact found
  | created _ serial => rw [sessions_enroll, ← serial]

/-- The session that was got is still under the spelling, and what is under other texts is as before. -/
def Carried (spelling : Str) (held : Held) (d e : SessionCoordinator) : Prop :=
  (∃ used, e.sessions.get? spelling = some used ∧ used.serial = held.serial) ∧
    ∀ other, other ≠ spelling → e.sessions.get? other = d.sessions.get? other

omit [CaseMapping] [Primitives] in
theorem carried_hold {session : NoiseSession} : Carried spelling held d (d.hold spelling { held with session }) :=
  ⟨⟨_, sessions_hold, rfl⟩, fun _ apart => by simp [hold, apart]⟩

/-- A message that is not too long goes over the session that `get_or_create_session` returns. -/
theorem sendDirectMessage_carried (small : text.length ≤ maxMessageSize)
    (got : getOrCreateSession spelling c = .ok held d) :
    Ends (sendDirectMessage w spelling text) c fun _ e => Carried spelling held d e := by
  have stored : Carried spelling held d d := ⟨⟨held, (obtained got).found, rfl⟩, fun _ _ => rfl⟩
  unfold sendDirectMessage
  rw [ends_ite]
  refine ⟨fun long => absurd small (not_le.mpr long), fun _ => ?_⟩
  rw [ends_bind, ends_of_ok got]
  simp only
  rw [ends_ite]
  constructor
  · intro _
    apply ends_bind.mpr
    apply onSession_ends
    · intro ciphertext session _
      apply (sendTo_silent ciphertext).mono
      rintro _ _ rfl
      exact carried_hold
    · exact fun _ _ _ => carried_hold
  · intro _
    rw [ends_modify_bind, ends_ite, ends_ite]
    refine ⟨fun idle => ⟨fun role => ?_, fun _ => ?_⟩, fun _ => stored⟩
    · apply openHandshake_ends idle role
      intro payload session _
      apply (sendTo_silent payload).mono
      rintro _ _ rfl
      rw [Carried, schedule_sessions]
      exact carried_hold
    · apply (sendTo_silent []).mono
      rintro _ _ rfl
      exact stored

omit [CaseMapping] [Primitives] in
/-- Under another text stands the same object only if it stood there before, under both texts. -/
theorem Obtained.shared (unused : NextUnused c) (obtained : Obtained spelling c held d)
    (apart : second ≠ spelling) (found : d.sessions.get? second = some other)
    (same : other.serial = held.serial) : Shared spelling second c := by
  cases obtained with
  | known known => exact ⟨held, other, known, found, same⟩
  | created _ serial =>
    have before : c.sessions.get? second = some other := by
      simpa [enroll, hold, apart] using found
    have used := unused second other before
    omega

theorem SameSession.shared (unused : NextUnused c) (same : SameSession first second c)
    (apart : second ≠ first) : Shared first second c := by
  obtain ⟨held, d, other, e, got, got', serials⟩ := same
  have before := obtained got
  cases obtained got' with
  | known found => exact before.shared unused apart found serials
  | created _ serial =>
    cases before with
    | known known =>
      have used := unused first held known
      omega
    | created _ serial' =>
      have next : (c.enroll first held.session).nextSerial = c.nextSerial + 1 := rfl
      omega

theorem sameSession_of_shared (remote : ¬ c.isSelf (strip first) = true)
    (remote' : ¬ c.isSelf (strip second) = true) (shared : Shared first second c) :
    SameSession first second c := by
  obtain ⟨held, other, found, found', serials⟩ := shared
  refine ⟨held, c, other, c, ?_, ?_, serials⟩
  · rw [getOrCreateSession, get_bind, if_apply, if_neg remote, found]
    rfl
  · rw [getOrCreateSession, get_bind, if_apply, if_neg remote', found']
    rfl

/-- One of two nodes that call each other by these spellings takes the role of the initiator. -/
def OneInitiator (a b : LocalIdentity) (spellingOfB spellingOfA : Str) : Prop :=
  ∃ roleA roleB, determineHandshakeRole a.peerIdHex spellingOfB = .ok roleA ∧
    determineHandshakeRole b.peerIdHex spellingOfA = .ok roleB ∧
    (roleA = .initiator ↔ roleB = .responder)

section Laws
variable [LawfulPrimitives] [UnicodeLower]

omit [Primitives] [LawfulPrimitives] in
theorem spelling_named (same : SameId first second) (named : strip first ≠ []) : second ≠ [] := by
  rintro rfl
  have empty : CaseMapping.lower (strip first) = [] := same.trans ((UnicodeLower.lower_eq_nil _).mpr rfl)
  exact named ((UnicodeLower.lower_eq_nil _).mp empty)

omit [CaseMapping] [UnicodeLower] in
theorem peerIdHex_named (identity : LocalIdentity) : identity.peerIdHex ≠ [] := by
  intro empty
  have size := congrArg List.length empty
  simp [LocalIdentity.peerIdHex, LocalIdentity.peerId, hex_length, LawfulPrimitives.sha256_length] at size

omit [LawfulPrimitives] [UnicodeLower] in
theorem isSelf_congr (same : SameId first second) : c.isSelf (strip first) = c.isSelf (strip second) := by
  rw [isSelf, isSelf, same]

theorem oneSession_iff (unused : NextUnused c) (remote : ¬ c.isSelf (strip first) = true)
    (named : strip first ≠ []) (same : SameId first second) :
    OneSession first second c ↔ first = second ∨ Shared first second c := by
  have remote' : ¬ c.isSelf (strip second) = true := isSelf_congr same ▸ remote
  constructor
  · rintro ⟨one, _⟩
    by_cases apart : first = second
    · exact .inl apart
    · exact .inr (one.shared unused (Ne.symm apart))
  · rintro (rfl | shared)
    · obtain ⟨held, d, got⟩ := getOrCreateSession_ok remote (peerIdHex_named _)
        (spelling_named same named)
      have found := (obtained got).found
      have remains : d.isSelf (strip first) = c.isSelf (strip first) := by
        cases obtained got <;> rfl
      have again : getOrCreateSession first d = .ok held d := by
        rw [getOrCreateSession, get_bind, if_apply, if_neg (remains ▸ remote), found]
        rfl
      exact ⟨⟨held, d, held, d, got, again, rfl⟩, ⟨held, d, held, d, got, again, rfl⟩⟩
    · refine ⟨sameSession_of_shared remote remote' shared, sameSession_of_shared remote' remote ?_⟩
      obtain ⟨held, other, found, found', serials⟩ := shared
      exact ⟨other, held, found', found, serials.symm⟩

theorem meetsPackets_iff {id : Bytes} (unused : NextUnused c) (remote : ¬ c.isSelf (strip spelling) = true)
    (named : strip spelling ≠ []) :
    MeetsPackets spelling id c ↔ spelling = hex id ∨ Shared spelling (hex id) c := by
  constructor
  · rintro ⟨held, d, other, got, found, serials⟩
    by_cases apart : spelling = hex id
    · exact .inl apart
    · exact .inr ((obtained got).shared unused (Ne.symm apart) found serials)
  · rintro (rfl | ⟨held, other, found, found', serials⟩)
    · obtain ⟨held, d, got⟩ := getOrCreateSession_ok remote (peerIdHex_named _) (spelling_named rfl named)
      exact ⟨held, d, held, got, (obtained got).found, rfl⟩
    · refine ⟨held, c, other, ?_, found', serials⟩
      rw [getOrCreateSession, get_bind, if_apply, if_neg remote, found]
      rfl

/-- A direct message and `get_or_create_session` meet the packets of a peer alike. -/
theorem messageMeetsPackets_iff {id : Bytes} (remote : ¬ c.isSelf (strip spelling) = true)
    (named : strip spelling ≠ []) (small : text.length ≤ maxMessageSize) :
    MessageMeetsPackets w spelling text id c ↔ MeetsPackets spelling id c := by
  obtain ⟨held, d, got⟩ := getOrCreateSession_ok remote (peerIdHex_named _) (spelling_named rfl named)
  obtain ⟨⟨used, left, serial⟩, kept⟩ := sendDirectMessage_carried (w := w) small got
  have found := (obtained got).found
  by_cases same : hex id = spelling
  · subst same
    exact iff_of_true ⟨used, used, left, left, rfl⟩ ⟨held, d, held, got, found, rfl⟩
  · constructor
    · rintro ⟨used', other, left', found', serials⟩
      obtain rfl := Option.some.inj (left.symm.trans left')
      exact ⟨held, d, other, got, (kept _ same).symm.trans found', serials.trans serial⟩
    · rintro ⟨held', d', other, got', found', serials⟩
      obtain ⟨rfl, rfl⟩ := EStateM.Result.ok.inj (got.symm.trans got')
      exact ⟨used, other, left, (kept _ same).trans found', serials.trans serial.symm⟩

omit [CaseMapping] [UnicodeLower] in
theorem determineHandshakeRole_eq (identity : LocalIdentity) (named : spelling ≠ []) :
    determineHandshakeRole identity.peerIdHex spelling =
      .ok (if identity.peerIdHex < spelling then .initiator else .responder) := by
  rw [determineHandshakeRole, if_neg (peerIdHex_named identity), if_neg named]
  split <;> rfl

omit [CaseMapping] [UnicodeLower] in
theorem oneInitiator_iff {a b : LocalIdentity} {spellingOfB spellingOfA : Str}
    (apart : a.peerIdHex ≠ b.peerIdHex) (named : spellingOfB ≠ []) (named' : spellingOfA ≠ []) :
    OneInitiator a b spellingOfB spellingOfA ↔
      ((a.peerIdHex < spellingOfB ↔ a.peerIdHex < b.peerIdHex) ↔
        (b.peerIdHex < spellingOfA ↔ b.peerIdHex < a.peerIdHex)) := by
  have either : a.peerIdHex < b.peerIdHex ↔ ¬ b.peerIdHex < a.peerIdHex :=
    ⟨fun less => lt_asymm less, fun notLess => lt_of_le_of_ne (not_lt.mp notLess) apart⟩
  rw [OneInitiator, determineHandshakeRole_eq a named, determineHandshakeRole_eq b named']
  have initiator (p : Prop) [Decidable p] :
      (if p then NoiseRole.initiator else .responder) = .initiator ↔ p := by split <;> simp_all
  have responder (p : Prop) [Decidable p] :
      (if p then NoiseRole.initiator else .responder) = .responder ↔ ¬p := by split <;> simp_all
  simp only [Except.ok.injEq, exists_and_left, exists_eq_left', initiator, responder, either]
  tauto

/-- Two spellings of a peer id get one session, a message under a spelling meets the packets of the
peer, and two nodes take one role each, exactly where the spellings are the same texts (or one object is stored
under both) and compare with the own ids as the ids themselves do. -/
theorem spellings_iff :
    (∀ (c : SessionCoordinator) (first second : Str), NextUnused c → ¬ c.isSelf (strip first) = true →
      strip first ≠ [] → SameId first second →
      (OneSession first second c ↔ first = second ∨ Shared first second c)) ∧
    (∀ (c : SessionCoordinator) (spelling : Str) (id : Bytes), NextUnused c → id.length = 8 →
      ¬ c.isSelf (hex id) = true → SameId spelling (hex id) →
      (MeetsPackets spelling id c ↔ spelling = hex id ∨ Shared spelling (hex id) c) ∧
      ∀ (w : Surroundings) (text : Bytes), text.length ≤ maxMessageSize →
        (MessageMeetsPackets w spelling text id c ↔ spelling = hex id ∨ Shared spelling (hex id) c)) ∧
    ∀ (a b : LocalIdentity) (spellingOfB spellingOfA : Str), a.peerIdHex ≠ b.peerIdHex →
      SameId spellingOfB b.peerIdHex → SameId spellingOfA a.peerIdHex →
      (OneInitiator a b spellingOfB spellingOfA ↔
        ((a.peerIdHex < spellingOfB ↔ a.peerIdHex < b.peerIdHex) ↔
          (b.peerIdHex < spellingOfA ↔ b.peerIdHex < a.peerIdHex))) := by
  refine ⟨fun c first second => oneSession_iff, fun c spelling id unused size remote same => ?_,
    fun a b spellingOfB spellingOfA apart same same' => ?_⟩
  · have named : hex id ≠ [] := by
      intro empty
      have length := congrArg List.length empty
      simp [hex_length, size] at length
    have remote' : ¬ c.isSelf (strip spelling) = true := by
      rw [isSelf_congr same, strip_hex]
      exact remote
    have written : strip spelling ≠ [] := by
      intro blank
      have empty : CaseMapping.lower (strip (hex id)) = [] := same.symm.trans (by
        rw [blank]
        exact (UnicodeLower.lower_eq_nil _).mpr rfl)
      rw [strip_hex] at empty
      exact named ((UnicodeLower.lower_eq_nil _).mp empty)
    have meets : MeetsPackets spelling id c ↔ _ := meetsPackets_iff unused remote' written
    exact ⟨meets, fun w text small => (messageMeetsPackets_iff remote' written small).trans meets⟩
  · have written (identity : LocalIdentity) : strip identity.peerIdHex ≠ [] := by
      rw [LocalIdentity.peerIdHex, strip_hex]
      exact peerIdHex_named identity
    exact oneInitiator_iff apart (spelling_named same.symm (written b))
      (spelling_named same'.symm (written a))

end Laws
end
end Bitchat.App.SessionCoordinator

namespace Bitchat.App.SessionCoordinator
open Crypto Protocol Storage Stateful Str Modular
attribute [local instance] Modular.primitives asciiCase

theorem same_spelling_agrees :
    OneSession (device 2).peerIdHex (device 2).peerIdHex alone ∧
    MessageMeetsPackets (steady 3) (device 2).peerIdHex [7] (device 2).peerId alone ∧
    OneInitiator (device 1) (device 2) (device 2).peerIdHex (device 1).peerIdHex := by
  have _ : LawfulPrimitives := lawful
  have _ : UnicodeLower := asciiCase_unicodeLower
  obtain ⟨sessions, messages, roles⟩ := spellings_iff
  have unused : NextUnused alone := by rintro peer held ⟨⟩
  refine ⟨?_, ?_, ?_⟩
  · exact (sessions alone _ _ unused (by decide +kernel) (by decide +kernel) rfl).mpr (.inl rfl)
  · have met := (messages alone (device 2).peerIdHex (device 2).peerId unused (by decide +kernel)
      (by decide +kernel) rfl).2 (steady 3) [7] (by decide)
    exact met.mpr (.inl rfl)
  · apply (roles (device 1) (device 2) _ _ (by decide +kernel) rfl rfl).mpr
    decide +kernel

/-- Capital letters make a second session, and white space in front makes both nodes responders. -/
theorem spellings_disagree :
    (SameId "0123456789abcdef".toList "0123456789ABCDEF".toList ∧
      ¬ OneSession "0123456789abcdef".toList "0123456789ABCDEF".toList alone) ∧
    ¬ OneInitiator (device 1) (device 2) (' ' :: (device 2).peerIdHex) (' ' :: (device 1).peerIdHex) := by
  refine ⟨⟨by rw [SameId]; decide, ?_⟩, ?_⟩
  · rintro ⟨one, _⟩
    obtain ⟨held, other, found, _, _⟩ := one.shared (by rintro peer held ⟨⟩) (by decide)
    cases found
  · rintro ⟨roleA, roleB, madeA, madeB, one⟩
    have responderA : determineHandshakeRole (device 1).peerIdHex (' ' :: (device 2).peerIdHex) =
        .ok .responder := by decide +kernel
    have responderB : determineHandshakeRole (device 2).peerIdHex (' ' :: (device 1).peerIdHex) =
        .ok .responder := by decide +kernel
    cases responderA.symm.trans madeA
    cases responderB.symm.trans madeB
    simp at one

end Bitchat.App.SessionCoordinator
