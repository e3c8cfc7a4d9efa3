import Bitchat.App.CoordinatorRuns

/-! Handshake packets against established sessions. A handler touches the entries of
its sender only, and it keeps an established session unless it takes the message. -/
namespace Bitchat.App.SessionCoordinator
open Crypto Protocol Storage Stateful Str

/-- The session with a peer and the texts that wait for it. -/
def entry (peer : Str) (c : SessionCoordinator) : Option Held × Option (List Bytes) :=
  (c.sessions.get? peer, c.pendingMessages.get? peer)

section Frame
variable {peer other : Str} {held : Held} {c d : SessionCoordinator}

theorem Elsewhere.entry (kept : Elsewhere peer c d) (different : other ≠ peer) :
    entry other d = entry other c := by
  have same := kept other different
  simp only [slot, Prod.mk.injEq] at same
  simp [SessionCoordinator.entry, same]

theorem entry_of_slot (gone : slot peer c = (none, none, none)) : entry peer c = (none, none) := by
  simp only [slot, Prod.mk.injEq] at gone
  simp [entry, gone]

end Frame

section Stretches
variable [Primitives] [CaseMapping] {w : Surroundings} {sender payload : Bytes} {peer other : Str}
  {held : Held} {c : SessionCoordinator}

theorem takeHandshake_entry (found : c.sessions.get? (hex sender) = some held)
    (different : other ≠ hex sender) :
    Ends (takeHandshake w sender payload held) c fun _ d => entry other d = entry other c :=
  (takeHandshake_shift found).mono fun _ _ shift => shift.elsewhere.entry different

/-- A message for an established session drops it with the texts that wait for it. -/
theorem takeHandshake_established (established : held.session.state = .established) :
    Ends (takeHandshake w sender payload held) c fun _ d => entry (hex sender) d = (none, none) := by
  apply takeHandshake_ends
  · intro session failed
    exact entry_of_slot (slot_discard sessions_hold failed)
  · intro response session taken
    rcases NoiseSession.handleMessage_state taken with ⟨idle, _⟩ | ⟨going, _⟩
    · simp [established] at idle
    · simp [established] at going

end Stretches

section Spared
variable [Primitives] [CaseMapping] {w : Surroundings} {packet : BitchatPacket}
  {c d : SessionCoordinator}

/-- Every established session is held as before, with the texts that wait for it. -/
def SparesEstablished (c d : SessionCoordinator) : Prop :=
  ∀ peer held, c.sessions.get? peer = some held → held.session.state = .established →
    entry peer d = entry peer c

/-- The packet comes from a peer with an established session, and is neither this device's
own nor refused for the number of open handshakes. -/
def Strikes (packet : BitchatPacket) (c : SessionCoordinator) : Prop :=
  (∃ held, c.sessions.get? (hex packet.senderId) = some held ∧
    held.session.state = .established) ∧
  ¬ c.isSelf (hex packet.senderId) ∧
  (packet.messageType = .noiseHandshakeResp ∨ c.pendingHandshakesCount < maxPendingHandshakes)

theorem handshake_spares (sender payload : Bytes) {held : Held}
    (found : c.sessions.get? (hex sender) = some held) :
    Ends (takeHandshake w sender payload held) c fun _ d =>
      SparesEstablished c d ↔ held.session.state ≠ .established := by
  by_cases established : held.session.state = .established
  · apply (takeHandshake_established established).mono
    intro _ d gone
    simp only [established, ne_eq, not_true, iff_false]
    intro spares
    have kept := spares _ held found established
    rw [gone] at kept
    exact absurd (congrArg Prod.fst kept) (by simp [entry, found])
  · have others (other : Str) (different : other ≠ hex sender) :
        Ends (takeHandshake w sender payload held) c fun _ d => entry other d = entry other c :=
      takeHandshake_entry found different
    unfold Ends at others ⊢
    simp only [established, ne_eq, not_false_eq_true, iff_true]
    intro peer found' known ready
    by_cases same : peer = hex sender
    · subst same
      cases found.symm.trans known
      exact absurd ready established
    · exact others peer same

/-- The sender had no session: a fresh one takes the message. -/
theorem handshake_spares_fresh (sender payload : Bytes) {session : NoiseSession}
    (unknown : c.sessions.get? (hex sender) = none) :
    Ends (takeHandshake w sender payload ⟨c.nextSerial, session⟩) (c.enroll (hex sender) session)
      fun _ d => SparesEstablished c d := by
  have enrolled : Elsewhere (hex sender) c (c.enroll (hex sender) session) := elsewhere_hold
  have kept (other : Str) (different : other ≠ hex sender) :
      Ends (takeHandshake w sender payload ⟨c.nextSerial, session⟩) (c.enroll (hex sender) session)
        fun _ d => entry other d = entry other c := by
    apply (takeHandshake_entry sessions_enroll different).mono
    exact fun _ _ same => same.trans (enrolled.entry different)
  unfold Ends at kept ⊢
  intro peer held known _
  by_cases same : peer = hex sender
  · subst same
    simp [unknown] at known
  · exact kept peer same

omit [Primitives] [CaseMapping] in
theorem SparesEstablished.refl (c : SessionCoordinator) : SparesEstablished c c :=
  fun _ _ _ _ => rfl

theorem handshakeInit_spares (notSelf : ¬ c.isSelf (hex packet.senderId))
    (kind : packet.messageType = .noiseHandshakeInit) :
    Ends (handleHandshakeInit w packet.senderId packet.payload) c fun _ d =>
      SparesEstablished c d ↔ ¬ Strikes packet c := by
  have strikes : Strikes packet c ↔ (∃ held, c.sessions.get? (hex packet.senderId) = some held ∧
      held.session.state = .established) ∧ c.pendingHandshakesCount < maxPendingHandshakes := by
    simp [Strikes, notSelf, kind]
  rw [strikes, handleHandshakeInit, ends_get_bind, ends_ite]
  refine ⟨fun refuses => ?_, fun accepts => ?_⟩
  · simp only [refusesHandshake, decide_eq_true_eq] at refuses
    have full : ¬ c.pendingHandshakesCount < maxPendingHandshakes := not_lt.mpr refuses.2
    exact iff_of_true (.refl c) fun struck => full struck.2
  · apply ends_bind.mpr
    apply getOrCreateSession_ends
    · rintro e (self | unknown)
      · rw [strip_hex] at self
        exact absurd self notSelf
      · exact iff_of_true (.refl c) (by simp [unknown])
    · intro held found
      apply (handshake_spares packet.senderId packet.payload found).mono
      intro _ d spares
      rw [spares]
      have room (established : held.session.state = .established) :
          c.pendingHandshakesCount < maxPendingHandshakes := by
        simp only [refusesHandshake, found, Option.any_some, Held.isPending, established] at accepts
        simpa using accepts
      simp only [found, Option.some.injEq, exists_eq_left', ne_eq, not_and]
      exact ⟨fun open' established => absurd established open',
        fun impossible established => impossible established (room established)⟩
    · intro session unknown _
      apply (handshake_spares_fresh packet.senderId packet.payload unknown).mono
      exact fun _ d spares => iff_of_true spares (by simp [unknown])

theorem handshakeResp_spares (notSelf : ¬ c.isSelf (hex packet.senderId))
    (kind : packet.messageType = .noiseHandshakeResp) :
    Ends (handleHandshakeResp w packet.senderId packet.payload) c fun _ d =>
      SparesEstablished c d ↔ ¬ Strikes packet c := by
  have strikes : Strikes packet c ↔ ∃ held, c.sessions.get? (hex packet.senderId) = some held ∧
      held.session.state = .established := by
    simp [Strikes, notSelf, kind]
  rw [strikes, handleHandshakeResp, ends_get_bind]
  cases found : c.sessions.get? (hex packet.senderId) with
  | none => exact iff_of_true (.refl c) (by simp)
  | some held =>
    simp only [Option.some.injEq, exists_eq_left']
    exact handshake_spares packet.senderId packet.payload found

/-- A handshake packet spares the established sessions exactly when it strikes none. -/
theorem processPacket_spares
    (kind : packet.messageType = .noiseHandshakeInit ∨ packet.messageType = .noiseHandshakeResp) :
    Ends (processPacket w packet) c fun _ d => SparesEstablished c d ↔ ¬ Strikes packet c := by
  rw [processPacket, ends_get_bind, ends_ite]
  refine ⟨fun self => iff_of_true (.refl c) fun struck => struck.2.1 self, fun notSelf => ?_⟩
  rcases kind with kind | kind
  · rw [kind]
    exact handshakeInit_spares notSelf kind
  · rw [kind]
    exact handshakeResp_spares notSelf kind

/-- An answer to an established session drops it, whatever its payload. -/
theorem processPacket_established {held : Held} (kind : packet.messageType = .noiseHandshakeResp)
    (notSelf : ¬ c.isSelf (hex packet.senderId))
    (found : c.sessions.get? (hex packet.senderId) = some held)
    (established : held.session.state = .established) :
    entry (hex packet.senderId) (outcome (processPacket w packet) c).2 = (none, none) := by
  have dropped : Ends (processPacket w packet) c fun _ d =>
      entry (hex packet.senderId) d = (none, none) := by
    rw [processPacket, ends_get_bind, ends_ite]
    refine ⟨fun self => absurd self notSelf, fun _ => ?_⟩
    rw [kind]
    simp only [handleHandshakeResp]
    rw [ends_get_bind, found]
    exact takeHandshake_established established
  exact dropped

omit [Primitives] in
/-- What follows the await of an answer drops only the session it waits for, and that
only when the contacts refuse its key. -/
theorem finishHandshake_spares (peer : Str) (serial : Nat) :
    Ends (finishHandshake w peer serial) c fun _ d => ∀ other held,
      c.sessions.get? other = some held → d.sessions.get? other = some held ∨
      (other = peer ∧ held.serial = serial ∧
        (verifyPeer w peer (held.session.remoteFingerprint.getD []) c.contacts).1 = false) := by
  apply finishHandshake_ends
  · exact fun _ other held found => Or.inl found
  · intro held known same _ refused other found member
    by_cases own : other = peer
    · subst own
      cases known.symm.trans member
      exact Or.inr ⟨rfl, same, refused⟩
    · have kept : entry other ((c.cancelHandshakeTimeout peer).failSession peer held) = entry other c :=
        (elsewhere_cancel.trans elsewhere_fail).entry own
      exact Or.inl ((congrArg Prod.fst kept).trans member)
  · intro held fingerprint contacts _ _ _ _ _ other found member
    exact Or.inl member

/-- Where a session survives: a session follows its diagram exactly in the runs without a
late handshake message, and the coordinator keeps its established sessions exactly on
the handshake packets that bring it none. -/
theorem survives_iff :
    (∀ start history s, Run NoiseSession.Step start history s →
      (NoiseSession.FollowsDiagram history ↔
        ∀ e ∈ history, NoiseSession.Timely e.before.state e.label)) ∧
    (∀ (w : Surroundings) (packet : BitchatPacket) (c : SessionCoordinator),
      packet.messageType = .noiseHandshakeInit ∨ packet.messageType = .noiseHandshakeResp →
      (SparesEstablished c (outcome (processPacket w packet) c).2 ↔ ¬ Strikes packet c)) ∧
    ∀ (w : Surroundings) (peer : Str) (serial : Nat) (c : SessionCoordinator) (other : Str)
      (held : Held), c.sessions.get? other = some held →
      (outcome (finishHandshake w peer serial) c).2.sessions.get? other = some held ∨
      (other = peer ∧ held.serial = serial ∧
        (verifyPeer w peer (held.session.remoteFingerprint.getD []) c.contacts).1 = false) := by
  refine ⟨fun _ _ _ run => NoiseSession.followsDiagram_iff run, fun w packet c kind => ?_,
    fun w peer serial c => ?_⟩
  · exact processPacket_spares kind
  · exact finishHandshake_spares peer serial

end Spared
end Bitchat.App.SessionCoordinator

namespace Bitchat.App.SessionCoordinator
open Crypto Protocol Storage Stateful Str Modular
attribute [local instance] Modular.primitives asciiCase

/-- A device whose handshake is over, and a message that comes once more. -/
theorem late_message (s : NoiseSession) (ephemeral message : Bytes)
    (established : s.state = .established) :
    (NoiseSession.perform (.process ephemeral message) s).state = .failed := by
  rcases NoiseSession.process_state s ephemeral message with failed | ⟨idle, _⟩ | ⟨going, _⟩
  · exact failed
  · simp [established] at idle
  · simp [established] at going

/-- A session of device 1 with device 2 before any call. -/
def fresh : NoiseSession :=
  { localIdentity := device 1, remotePeerId := (device 2).peerIdHex, role := .initiator }

/-- A handshake with device 2, without a message that comes late. -/
theorem ready_run : ∃ history ready, Run NoiseSession.Step fresh history ready ∧
    ready.state = .established ∧ ∀ e ∈ history, NoiseSession.Timely e.before.state e.label := by
  have laws : LawfulPrimitives := lawful
  let peer : NoiseSession :=
    { localIdentity := device 2, remotePeerId := (device 1).peerIdHex, role := .responder }
  have different : (device 1).x25519Public ≠ (device 2).x25519Public := by decide +kernel
  obtain ⟨m1, m2, m3, x1, y1, items, secrets, started, first, second, third⟩ :=
    NoiseSession.honest_calls (x := fresh) (y := peer) ⟨rfl, rfl⟩ ⟨rfl, rfl⟩
      (NoiseSession.binds_peer (b := device 2) rfl different.symm)
      (NoiseSession.binds_peer (b := device 1) rfl different)
      (compatible (valid_keys 3 (by simp)) (valid_keys 4 (by simp)))
      (compatible (valid_keys 3 (by simp)) (valid_keys 2 (by simp)))
      (compatible (valid_keys 1 (by simp)) (valid_keys 4 (by simp)))
  have going : x1.state = .handshaking := by
    have begun := NoiseSession.startHandshake_state fresh (repeated 3)
    rwa [outcome_eq_ok.mpr started, if_pos (show fresh.state = .uninitialized from rfl)] at begun
  refine ⟨_, _, (Run.nil.snoc (NoiseSession.step_start started)).snoc (NoiseSession.step_process second),
    rfl, fun e member => ?_⟩
  simp only [List.nil_append, List.cons_append, List.mem_cons, List.not_mem_nil, or_false] at member
  rcases member with rfl | rfl
  · trivial
  · simp [NoiseSession.Timely, going]

theorem start_of_time : 0 ≤ 0xFFFFFFFFFFFFFFFF := by decide

/-- Surroundings that always give the same key. -/
def steady (byte : UInt8) : Surroundings :=
  ⟨repeated byte, 0, false, false, repeated_length byte, start_of_time⟩

/-- An empty handshake answer in the name of device 2. -/
def stray : BitchatPacket :=
  { BitchatPacket.plainMessage (device 2).peerId [] (by decide +kernel) (by decide) with
    messageType := .noiseHandshakeResp }

/-- The handshake message of a device with a lesser id than device 1. -/
def approach : BitchatPacket :=
  { BitchatPacket.plainMessage (device 0).peerId (repeated 4) (by decide +kernel) (by decide +kernel) with
    messageType := .noiseHandshakeInit }

/-- A coordinator that holds this session with device 2, for which a text waits. -/
def holding (session : NoiseSession) : SessionCoordinator where
  localIdentity := device 1
  contacts := none
  sessions := InsertionMap.empty.set (hex stray.senderId) ⟨0, session⟩
  pendingMessages := InsertionMap.empty.set (hex stray.senderId) [[]]

/-- A session that is closed after its handshake has followed its diagram, and a coordinator keeps it
when another device begins a handshake. -/
theorem survives_until_close :
    (∃ history s, Run NoiseSession.Step fresh history s ∧ s.state = .closed ∧
      (∃ e ∈ history, e.before.state = .established) ∧ NoiseSession.FollowsDiagram history) ∧
    ∃ ready : NoiseSession, ready.state = .established ∧
      SparesEstablished (holding ready) (outcome (processPacket (steady 3) approach) (holding ready)).2 := by
  obtain ⟨history, ready, run, established, timely⟩ := ready_run
  have closed : Run NoiseSession.Step fresh (history ++ [⟨ready, .close, ready.close⟩]) ready.close :=
    run.snoc rfl
  have all : ∀ e ∈ history ++ [⟨ready, .close, ready.close⟩],
      NoiseSession.Timely e.before.state e.label := by
    intro e member
    rcases List.mem_append.mp member with member | member
    · exact timely e member
    · obtain rfl := List.mem_singleton.mp member
      trivial
  refine ⟨⟨_, _, closed, rfl, ⟨_, List.mem_append_right _ List.mem_cons_self, established⟩,
    (survives_iff.1 _ _ _ closed).mpr all⟩, ready, established,
    (survives_iff.2.1 (steady 3) approach (holding ready) (Or.inl rfl)).mpr ?_⟩
  rintro ⟨⟨held, found, _⟩, _⟩
  have other : hex approach.senderId ≠ hex stray.senderId := by decide +kernel
  simp [holding, InsertionMap.get?_set, other] at found

/-- An established session ends with one late message, at the session and at its coordinator. -/
theorem not_every_session_survives :
    (∃ history s, Run NoiseSession.Step fresh history s ∧
      (∃ e ∈ history, e.before.state = .established ∧ e.after.state = .failed) ∧
      ¬ NoiseSession.FollowsDiagram history) ∧
    ∃ (c : SessionCoordinator) (held : Held) (texts : List Bytes),
      c.sessions.get? (hex stray.senderId) = some held ∧ held.session.state = .established ∧
      c.pendingMessages.get? (hex stray.senderId) = some texts ∧
      entry (hex stray.senderId) (outcome (processPacket (steady 3) stray) c).2 = (none, none) := by
  obtain ⟨history, ready, run, established, -⟩ := ready_run
  let failed := NoiseSession.perform (.process (repeated 3) []) ready
  have ended : failed.state = .failed := late_message ready _ _ established
  have late : Run NoiseSession.Step fresh (history ++ [⟨ready, .process (repeated 3) [], failed⟩]) failed :=
    run.snoc rfl
  refine ⟨⟨_, _, late, ⟨_, List.mem_append_right _ List.mem_cons_self, established, ended⟩, ?_⟩,
    holding ready, ⟨0, ready⟩, [[]], by simp [holding], established, by simp [holding], ?_⟩
  · intro follows
    have last := follows _ (List.mem_append_right _ List.mem_cons_self)
    simp only [established, ended] at last
    cases last
  · have other : CaseMapping.lower (hex stray.senderId) ≠ CaseMapping.lower (device 1).peerIdHex := by
      decide +kernel
    have notSelf : ¬ (holding ready).isSelf (hex stray.senderId) :=
      fun same => other (of_decide_eq_true same)
    have found : (holding ready).sessions.get? (hex stray.senderId) = some ⟨0, ready⟩ := by simp [holding]
    exact processPacket_established rfl notSelf found established

end Bitchat.App.SessionCoordinator
