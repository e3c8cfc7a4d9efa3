import Bitchat.App.CoordinatorRuns
import Bitchat.App.EstablishedSessions

/-! How many sessions packets can make. The limit counts open handshakes only, and a
request from a peer that is to begin itself makes a session without one. -/
namespace Bitchat.App.SessionCoordinator
open Crypto Protocol Storage Stateful Str

def serials (c : SessionCoordinator) : List Nat := c.sessions.values.map Held.serial

/-- The sessions that the packets of a run have made. -/
def admitted (history : List (Taken SessionCoordinator Event)) : List Nat :=
  history.flatMap fun e => match e.label with
    | .packet _ _ => e.after.serials.filter fun serial => serial ∉ e.before.serials
    | _ => []

/-- The number of those that are in the table and not established. -/
def unauthenticated (history : List (Taken SessionCoordinator Event)) (c : SessionCoordinator) : Nat :=
  c.sessions.values.countP fun held => held.serial ∈ admitted history ∧ ¬ held.session.isEstablished

section Admission
variable [Primitives] [CaseMapping]

/-- A request that is not refused comes from an unknown peer which is to begin the handshake
itself: its id is not greater than this device's. -/
def LeavesIdle (c : SessionCoordinator) : Event → Prop
  | .packet _ packet => packet.messageType = .handshakeRequest ∧ ¬ c.isSelf (hex packet.senderId) ∧
      ¬ c.refusesHandshake (hex packet.senderId) ∧ c.sessions.get? (hex packet.senderId) = none ∧
      ¬ c.localIdentity.peerIdHex < hex packet.senderId
  | _ => False

variable {w : Surroundings} {packet : BitchatPacket} {sender payload : Bytes} {peer : Str}
  {held : Held} {c d : SessionCoordinator}

omit [CaseMapping] in
theorem new_role {session : NoiseSession} (greater : c.localIdentity.peerIdHex < peer)
    (made : NoiseSession.new c.localIdentity peer none = .ok session) : session.role = .initiator := by
  unfold NoiseSession.new at made
  simp only [Option.elim_none, determineHandshakeRole, if_pos greater] at made
  split at made
  · cases made
  · split at made
    · cases made
    · cases made
      rfl

/-- A handshake message that is taken begins the handshake. -/
theorem takeHandshake_begun :
    Ends (takeHandshake w sender payload held) c fun _ d => ∀ later,
      d.sessions.get? (hex sender) = some later → later.session.state ≠ .uninitialized := by
  apply takeHandshake_ends
  · intro session failed later known
    have gone : slot (hex sender) ((c.hold (hex sender) { held with session }).discardFailedSession
        (hex sender) { held with session } false) = (none, none, none) :=
      slot_discard sessions_hold failed
    simp only [slot, Prod.mk.injEq] at gone
    cases gone.1.symm.trans known
  · intro response session returned
    apply (answerHandshake_shift response).mono
    intro _ d shift later known idle
    obtain ⟨earlier, before, continues⟩ := moves_continue shift.moves known
    obtain rfl : { held with session } = earlier := by
      rw [guard, watch_sessions, sessions_hold] at before
      exact Option.some.inj before
    rcases NoiseSession.handleMessage_state returned with ⟨_, going⟩ | ⟨_, going | ready⟩
    · exact absurd (continues.begun idle) (by simp [going])
    · exact absurd (continues.begun idle) (by simp [going])
    · exact absurd (continues.begun idle) (by simp [ready])

omit [Primitives] [CaseMapping] in
/-- A peer without a session is refused exactly when the limit is reached. -/
theorem room_of_accepted (unknown : c.sessions.get? peer = none) (accepts : ¬ c.refusesHandshake peer) :
    c.pendingHandshakesCount < maxPendingHandshakes := by
  simpa [refusesHandshake, unknown] using accepts

omit [Primitives] [CaseMapping] in
theorem unmade {P : Held → Prop} (unknown : c.sessions.get? peer = none) :
    ∀ held, c.sessions.get? peer = some held → P held := by
  intro held found
  cases unknown.symm.trans found

omit [CaseMapping] in
theorem openHandshake_begun {send : Bytes → Stretch (Option Output)}
    (idle : held.session.state = .uninitialized) (role : held.session.role = .initiator)
    (silent : ∀ payload e, Ends (send payload) e fun _ d => d = e) :
    Ends (openHandshake w peer held send) c fun _ d => ∀ later,
      d.sessions.get? peer = some later → later.session.state ≠ .uninitialized := by
  apply openHandshake_ends idle role
  intro payload session going
  apply (silent payload _).mono
  rintro _ _ rfl later known
  rw [schedule_sessions, sessions_hold] at known
  cases known
  simp [going]

/-- A peer without a session gets one, and the rest goes on with it. -/
theorem made_begun {rest : Held → Stretch (Option Output)} (unknown : c.sessions.get? peer = none)
    (fresh : ∀ session, NoiseSession.new c.localIdentity peer none = .ok session →
      Ends (rest ⟨c.nextSerial, session⟩) (c.enroll peer session) fun _ d => ∀ later,
        d.sessions.get? peer = some later → later.session.state ≠ .uninitialized) :
    Ends (getOrCreateSession peer >>= rest) c fun _ d => ∀ later,
      d.sessions.get? peer = some later → later.session.state ≠ .uninitialized := by
  apply ends_bind.mpr
  apply getOrCreateSession_ends
  · exact fun _ _ => unmade unknown
  · intro held found
    cases unknown.symm.trans found
  · exact fun session _ made => fresh session made

theorem handleHandshakeRequest_begun (unknown : c.sessions.get? (hex sender) = none)
    (greater : c.localIdentity.peerIdHex < hex sender) :
    Ends (handleHandshakeRequest w sender) c fun _ d => ∀ later,
      d.sessions.get? (hex sender) = some later → later.session.state ≠ .uninitialized := by
  rw [handleHandshakeRequest, ends_get_bind, ends_ite]
  refine ⟨fun _ => unmade unknown, fun _ => ?_⟩
  apply made_begun unknown
  intro session made
  have role := new_role greater made
  obtain ⟨_, rfl⟩ := NoiseSession.new_eq_ok made
  apply ends_ite.mpr
  refine ⟨fun _ => ?_, fun other => absurd ⟨role, rfl⟩ other⟩
  apply openHandshake_begun rfl role
  intro initPayload e
  apply ends_bind.mpr
  exact packetFor_ends (fun _ => rfl) fun _ => rfl

theorem handleHandshakeInit_begun (unknown : c.sessions.get? (hex sender) = none) :
    Ends (handleHandshakeInit w sender payload) c fun _ d => ∀ later,
      d.sessions.get? (hex sender) = some later → later.session.state ≠ .uninitialized := by
  rw [handleHandshakeInit, ends_get_bind, ends_ite]
  refine ⟨fun _ => unmade unknown, fun _ => ?_⟩
  exact made_begun unknown fun _ _ => takeHandshake_begun

omit [Primitives] [CaseMapping] in
theorem shift_unmade {P : Held → Prop} (unknown : c.sessions.get? peer = none) (shift : Shift peer c d) :
    ∀ held, d.sessions.get? peer = some held → P held := by
  intro held found
  obtain ⟨earlier, known, _⟩ := moves_continue shift.moves found
  cases unknown.symm.trans known

/-- The session that a packet has made: there was room for it, and it has begun its handshake
unless the packet leaves it idle. -/
def Admits (w : Surroundings) (packet : BitchatPacket) (c d : SessionCoordinator) : Prop :=
  ∀ later, d.sessions.get? (hex packet.senderId) = some later →
    c.pendingHandshakesCount < maxPendingHandshakes ∧
    (¬ LeavesIdle c (.packet w packet) → later.session.state ≠ .uninitialized)

theorem request_admits (unknown : c.sessions.get? (hex packet.senderId) = none)
    (kind : packet.messageType = .handshakeRequest) (notSelf : ¬ c.isSelf (hex packet.senderId)) :
    Ends (handleHandshakeRequest w packet.senderId) c fun _ d => Admits w packet c d := by
  by_cases refuses : c.refusesHandshake (hex packet.senderId)
  · rw [handleHandshakeRequest, ends_get_bind, ends_ite]
    exact ⟨fun _ => unmade unknown, fun accepts => absurd refuses accepts⟩
  have room := room_of_accepted unknown refuses
  by_cases greater : c.localIdentity.peerIdHex < hex packet.senderId
  · apply (handleHandshakeRequest_begun unknown greater).mono
    exact fun _ _ begun later found => ⟨room, fun _ => begun later found⟩
  · have leaves : LeavesIdle c (.packet w packet) := ⟨kind, notSelf, refuses, unknown, greater⟩
    exact fun later _ => ⟨room, fun spared => absurd leaves spared⟩

theorem init_admits (unknown : c.sessions.get? (hex packet.senderId) = none) :
    Ends (handleHandshakeInit w packet.senderId packet.payload) c fun _ d => Admits w packet c d := by
  by_cases refuses : c.refusesHandshake (hex packet.senderId)
  · rw [handleHandshakeInit, ends_get_bind, ends_ite]
    exact ⟨fun _ => unmade unknown, fun accepts => absurd refuses accepts⟩
  have room := room_of_accepted unknown refuses
  apply (handleHandshakeInit_begun unknown).mono
  exact fun _ _ begun later found => ⟨room, fun _ => begun later found⟩

theorem processPacket_admits (unknown : c.sessions.get? (hex packet.senderId) = none) :
    Ends (processPacket w packet) c fun _ d => Admits w packet c d := by
  rw [processPacket, ends_get_bind, ends_ite]
  refine ⟨fun _ => unmade unknown, fun notSelf => ?_⟩
  cases kind : packet.messageType with
  | handshakeRequest => exact request_admits unknown kind notSelf
  | noiseHandshakeInit => exact init_admits unknown
  | noiseHandshakeResp => exact handleHandshakeResp_shift.mono fun _ _ => shift_unmade unknown
  | noiseEncrypted => exact handleEncrypted_shift.mono fun _ _ => shift_unmade unknown
  | _ => exact unmade unknown

end Admission

section Bound
variable [Primitives] [CaseMapping] {c d : SessionCoordinator} {event : Event}
  {history : List (Taken SessionCoordinator Event)} {identity : LocalIdentity}
  {contacts : Option Contacts}

/-- What bounds the sessions that packets have made: each has begun its handshake. -/
structure Bounded (history : List (Taken SessionCoordinator Event)) (c : SessionCoordinator) : Prop where
  used : ∀ serial ∈ admitted history, serial < c.nextSerial
  begun : ∀ peer held, c.sessions.get? peer = some held → held.serial ∈ admitted history →
    held.session.state ≠ .uninitialized
  bound : unauthenticated history c ≤ maxPendingHandshakes

omit [Primitives] [CaseMapping] in
theorem admitted_append (e : Taken SessionCoordinator Event) :
    admitted (history ++ [e]) = admitted history ++ admitted [e] := by
  simp [admitted]

omit [Primitives] [CaseMapping] in
theorem mem_serials {serial : Nat} : serial ∈ c.serials ↔
    ∃ peer held, c.sessions.get? peer = some held ∧ held.serial = serial := by
  simp only [serials, List.mem_map, InsertionMap.mem_values]
  constructor
  · rintro ⟨held, ⟨peer, found⟩, same⟩
    exact ⟨peer, held, found, same⟩
  · rintro ⟨peer, held, found, same⟩
    exact ⟨held, ⟨peer, found⟩, same⟩

/-- A session that packets have made was one of these before, or a packet makes it now. -/
theorem admitted_origin {peer : Str} {held : Held} (bounded : Bounded history c)
    (step : Step c event d) (found : d.sessions.get? peer = some held)
    (member : held.serial ∈ admitted (history ++ [⟨c, event, d⟩])) :
    (∃ earlier, c.sessions.get? peer = some earlier ∧ Continues earlier held ∧
      earlier.serial ∈ admitted history) ∨
    ∃ w packet, event = .packet w packet ∧ peer = hex packet.senderId ∧ c.sessions.get? peer = none := by
  rw [admitted_append, List.mem_append] at member
  rcases acts_found (step_acts step) found with
    ⟨earlier, known, continues⟩ | ⟨about, unknown, _, session, _, continues⟩
  · left
    refine ⟨earlier, known, continues, ?_⟩
    rw [← continues.serial]
    refine member.resolve_right fun new => ?_
    have present : held.serial ∈ c.serials := mem_serials.mpr ⟨peer, earlier, known, continues.serial.symm⟩
    cases event <;> simp [admitted] at new
    exact new.2 present
  · right
    rcases member with old | new
    · have smaller := bounded.used _ old
      rw [continues.serial] at smaller
      exact absurd smaller (lt_irrefl _)
    · cases event with
      | packet w packet => exact ⟨w, packet, rfl, about, unknown⟩
      | _ => simp [admitted] at new

omit [Primitives] [CaseMapping] in
/-- The limit counts the sessions that packets have made and that are still open. -/
theorem unauthenticated_le (bounded : Bounded history c) (numbered : Numbered c) :
    unauthenticated history c ≤ c.pendingHandshakesCount := by
  apply List.countP_mono_left
  intro held member open'
  obtain ⟨peer, found⟩ := InsertionMap.mem_values.mp member
  simp only [NoiseSession.isEstablished, decide_eq_true_eq] at open'
  rcases numbered.live peer held found with idle | going | ready
  · exact absurd idle (bounded.begun peer held found open'.1)
  · simp [Held.isPending, going]
  · exact absurd ready open'.2

theorem Bounded.step (bounded : Bounded history c) (numbered : Numbered c) (step : Step c event d)
    (spared : ¬ LeavesIdle c event) : Bounded (history ++ [⟨c, event, d⟩]) d := by
  have admits {w : Surroundings} {packet : BitchatPacket} (received : event = .packet w packet)
      (unknown : c.sessions.get? (hex packet.senderId) = none) : Admits w packet c d := by
    subst received
    rw [step.2]
    exact processPacket_admits unknown
  constructor
  · intro serial member
    rw [admitted_append, List.mem_append] at member
    rcases member with old | new
    · exact (bounded.used serial old).trans_le (acts_serials (step_acts step))
    · have present : serial ∈ d.serials := by
        cases event <;> simp [admitted] at new
        exact new.1
      obtain ⟨peer, held, found, rfl⟩ := mem_serials.mp present
      exact (numbered.step step).used peer held found
  · intro peer held found member
    rcases admitted_origin bounded step found member with
      ⟨earlier, known, continues, old⟩ | ⟨w, packet, received, rfl, unknown⟩
    · exact fun idle => bounded.begun peer earlier known old (continues.begun idle)
    · exact (admits received unknown held found).2 (received ▸ spared)
  · have counted (excepted : List Str) (rest : ∀ w packet held, event = .packet w packet →
        hex packet.senderId ∉ excepted → d.sessions.get? (hex packet.senderId) = some held →
        c.sessions.get? (hex packet.senderId) ≠ none) :
        unauthenticated (history ++ [⟨c, event, d⟩]) d ≤ unauthenticated history c + excepted.length := by
      apply InsertionMap.countP_values_le excepted
      intro peer held special found open'
      simp only [decide_eq_true_eq, NoiseSession.isEstablished] at open' ⊢
      rcases admitted_origin bounded step found open'.1 with
        ⟨earlier, known, continues, old⟩ | ⟨w, packet, received, rfl, unknown⟩
      · exact ⟨earlier, known, old, fun ready => open'.2 (continues.established ready)⟩
      · exact absurd unknown (rest w packet held received special found)
    by_cases makes : ∃ w packet held, event = .packet w packet ∧
        c.sessions.get? (hex packet.senderId) = none ∧ d.sessions.get? (hex packet.senderId) = some held
    · obtain ⟨w, packet, held, received, unknown, found⟩ := makes
      have room := (admits received unknown held found).1
      have one := counted [hex packet.senderId] fun w' packet' held' received' special => by
        cases received.symm.trans received'
        exact absurd List.mem_cons_self special
      exact one.trans ((unauthenticated_le bounded numbered).trans_lt room)
    · have none := counted [] fun w packet held received _ found unknown =>
        makes ⟨w, packet, held, received, unknown, found⟩
      exact none.trans bounded.bound

/-- While no packet leaves a session idle, packets make at most as many open sessions as the
limit on pending handshakes allows. -/
theorem unauthenticated_bounded (run : Run Step (start identity contacts) history c)
    (spared : ∀ e ∈ history, ¬ LeavesIdle e.before e.label) :
    unauthenticated history c ≤ maxPendingHandshakes := by
  suffices bounded : Bounded history c from bounded.bound
  induction run with
  | nil => exact ⟨by simp [admitted], by simp [admitted], by simp [unauthenticated, admitted]⟩
  | @snoc history s label t before step ih =>
    have bounded := ih fun e member => spared e (List.mem_append_left _ member)
    exact bounded.step (run_numbered before) step (spared ⟨s, label, t⟩ (by simp))

end Bound

section Flood
variable [Primitives] [CaseMapping] {w : Surroundings} {packet : BitchatPacket}
  {c : SessionCoordinator} {history : List (Taken SessionCoordinator Event)}

/-- The session with a peer that is to begin the handshake. -/
def idleSession (peer : Str) (c : SessionCoordinator) : NoiseSession :=
  { localIdentity := c.localIdentity, remotePeerId := peer, role := .responder }

omit [CaseMapping] in
theorem new_responder {peer : Str} (own : c.localIdentity.peerIdHex ≠ []) (named : peer ≠ [])
    (smaller : ¬ c.localIdentity.peerIdHex < peer) :
    NoiseSession.new c.localIdentity peer none = .ok (c.idleSession peer) := by
  simp only [NoiseSession.new, Option.elim_none, determineHandshakeRole, if_neg own, if_neg named,
    if_neg smaller]
  rfl

/-- A request that leaves its session idle, from an id that this device can be asked by. -/
def Idles (c : SessionCoordinator) (packet : BitchatPacket) : Prop :=
  packet.messageType = .handshakeRequest ∧ ¬ c.isSelf (hex packet.senderId) ∧
    c.localIdentity.peerIdHex ≠ [] ∧ ¬ c.localIdentity.peerIdHex < hex packet.senderId

theorem request_enrolls (idles : Idles c packet) (unknown : c.sessions.get? (hex packet.senderId) = none)
    (room : c.pendingHandshakesCount < maxPendingHandshakes) :
    perform (.packet w packet) c =
      c.enroll (hex packet.senderId) (c.idleSession (hex packet.senderId)) := by
  obtain ⟨kind, notSelf, own, smaller⟩ := idles
  have named : hex packet.senderId ≠ [] := by
    intro empty
    have size := congrArg List.length empty
    simp [hex_length, packet.senderId_size, senderIdSize] at size
  have accepted : ¬ c.refusesHandshake (hex packet.senderId) := by
    simpa [refusesHandshake, unknown] using room
  have made : getOrCreateSession (hex packet.senderId) c =
      .ok ⟨c.nextSerial, c.idleSession (hex packet.senderId)⟩
        (c.enroll (hex packet.senderId) (c.idleSession (hex packet.senderId))) := by
    rw [getOrCreateSession, get_bind, if_apply, if_neg (by rwa [strip_hex])]
    simp only [unknown, new_responder own named smaller]
    rfl
  have handled : processPacket w packet c = .ok none
      (c.enroll (hex packet.senderId) (c.idleSession (hex packet.senderId))) := by
    rw [processPacket, get_bind, if_apply, if_neg notSelf, kind]
    simp only [handleHandshakeRequest]
    rw [get_bind, if_apply, if_neg accepted, bind_ok made, if_apply, if_neg (by simp [idleSession])]
    rfl
  simp only [perform, outcome, handled]

/-- After requests from these packets and nothing else, each has left an idle session. -/
structure Flooded (identity : LocalIdentity) (packets : List BitchatPacket)
    (history : List (Taken SessionCoordinator Event)) (c : SessionCoordinator) : Prop where
  identity : c.localIdentity = identity
  idle : ∀ peer held, c.sessions.get? peer = some held →
    peer ∈ packets.map (fun p => hex p.senderId) ∧ held.session.state = .uninitialized ∧
      held.serial ∈ admitted history
  size : c.sessions.size = packets.length

omit [Primitives] [CaseMapping] in
theorem Flooded.unauthenticated {identity : LocalIdentity} {packets : List BitchatPacket}
    (flooded : Flooded identity packets history c) : unauthenticated history c = packets.length := by
  rw [SessionCoordinator.unauthenticated, List.countP_eq_length.mpr, InsertionMap.values,
    List.length_map]
  · exact flooded.size
  · intro held member
    obtain ⟨peer, found⟩ := InsertionMap.mem_values.mp member
    obtain ⟨-, idle, born⟩ := flooded.idle peer held found
    simp [NoiseSession.isEstablished, idle, born]

omit [Primitives] [CaseMapping] in
theorem Flooded.room {identity : LocalIdentity} {packets : List BitchatPacket}
    (flooded : Flooded identity packets history c) : c.pendingHandshakesCount = 0 := by
  apply List.countP_eq_zero.mpr
  intro held member
  obtain ⟨peer, found⟩ := InsertionMap.mem_values.mp member
  simp [Held.isPending, (flooded.idle peer held found).2.1]

theorem Flooded.next {identity : LocalIdentity} {packets : List BitchatPacket}
    (flooded : Flooded identity packets history c) (numbered : Numbered c) (idles : Idles c packet)
    (fresh : hex packet.senderId ∉ packets.map fun p => hex p.senderId) :
    Flooded identity (packets ++ [packet])
      (history ++ [⟨c, .packet w packet, perform (.packet w packet) c⟩]) (perform (.packet w packet) c) := by
  have unknown : c.sessions.get? (hex packet.senderId) = none := by
    cases found : c.sessions.get? (hex packet.senderId) with
    | none => rfl
    | some held => exact absurd (flooded.idle _ held found).1 fresh
  have enrolled := request_enrolls (w := w) idles unknown (by rw [flooded.room]; decide)
  rw [enrolled]
  have known (peer : Str) (held : Held)
      (found : (c.enroll (hex packet.senderId) (c.idleSession (hex packet.senderId))).sessions.get? peer =
        some held) : (peer = hex packet.senderId ∧
          held = ⟨c.nextSerial, c.idleSession (hex packet.senderId)⟩) ∨ c.sessions.get? peer = some held := by
    by_cases same : peer = hex packet.senderId
    · subst same
      exact .inl ⟨rfl, Option.some.inj (found.symm.trans sessions_enroll)⟩
    · exact .inr (by simpa [enroll, hold, same] using found)
  constructor
  · exact flooded.identity
  · intro peer held found
    rw [admitted_append, List.map_append]
    rcases known peer held found with ⟨rfl, rfl⟩ | old
    · refine ⟨by simp, rfl, List.mem_append_right _ ?_⟩
      have present : c.nextSerial ∈
          (c.enroll (hex packet.senderId) (c.idleSession (hex packet.senderId))).serials :=
        mem_serials.mpr ⟨_, _, sessions_enroll, rfl⟩
      have absent : c.nextSerial ∉ c.serials := by
        intro member
        obtain ⟨peer, held, found, same⟩ := mem_serials.mp member
        exact absurd same (numbered.used peer held found).ne
      simp [admitted, present, absent]
    · obtain ⟨among, idle, born⟩ := flooded.idle peer held old
      exact ⟨List.mem_append_left _ among, idle, List.mem_append_left _ born⟩
  · rw [List.length_append, ← flooded.size]
    exact InsertionMap.size_set_new unknown _

/-- Requests from distinct ids that are not greater than this device's leave one idle session
each, however many they are. -/
theorem requests_accumulate {identity : LocalIdentity} {contacts : Option Contacts}
    {packets : List BitchatPacket} (idles : ∀ p ∈ packets, Idles (start identity contacts) p)
    (distinct : (packets.map fun p => hex p.senderId).Nodup) :
    ∃ history c, Run Step (start identity contacts) history c ∧
      history.map (·.label) = packets.map (Event.packet w) ∧ Flooded identity packets history c := by
  induction packets using List.reverseRecOn with
  | nil => exact ⟨[], _, .nil, rfl, rfl, by rintro _ _ ⟨⟩, rfl⟩
  | append_singleton packets packet ih =>
    rw [List.map_append, List.nodup_append] at distinct
    obtain ⟨history, c, run, labels, flooded⟩ :=
      ih (fun p member => idles p (List.mem_append_left _ member)) distinct.1
    have here : Idles c packet := by
      have origin := idles packet (by simp)
      have same : c.localIdentity = (start identity contacts).localIdentity := flooded.identity
      unfold Idles isSelf at origin ⊢
      rwa [same]
    have fresh : hex packet.senderId ∉ packets.map fun p => hex p.senderId :=
      fun member => distinct.2.2 _ member _ (by simp) rfl
    have step : Step c (.packet w packet) (perform (.packet w packet) c) := ⟨trivial, rfl⟩
    refine ⟨_, _, run.snoc step, ?_, flooded.next (run_numbered run) here fresh⟩
    rw [List.map_append, List.map_append, labels]
    rfl

end Flood
end Bitchat.App.SessionCoordinator

namespace Bitchat.App.SessionCoordinator
open Crypto Protocol Str Modular
attribute [local instance] Modular.primitives asciiCase

/-- A handshake request from the device with this number. -/
def request (number : UInt8) : BitchatPacket :=
  { BitchatPacket.plainMessage (List.replicate 7 0 ++ [number]) [] (by simp [senderIdSize]) (by simp) with
    messageType := .handshakeRequest }

def forged : List BitchatPacket := (List.range 65).map fun number => request (UInt8.ofNat number)

theorem forged_idle : ∀ p ∈ forged, Idles (start (device 1) none) p := by
  have each : ∀ number ∈ List.range 65, Idles (start (device 1) none) (request (UInt8.ofNat number)) := by
    unfold Idles isSelf
    decide +kernel
  simpa [forged] using each

theorem forged_distinct : (forged.map fun p => hex p.senderId).Nodup := by
  rw [forged, List.map_map]
  refine List.nodup_range.map_on fun n small m small' same => ?_
  have digits : [UInt8.ofNat n] = [UInt8.ofNat m] := List.append_cancel_left (hex_injective same)
  have numbers := congrArg UInt8.toNat (List.cons.inj digits).1
  rw [UInt8.toNat_ofNat', UInt8.toNat_ofNat'] at numbers
  rw [List.mem_range] at small small'
  omega

/-- Packets alone make one session more than the limit, none of them established. -/
theorem requests_exceed : ∃ history c, Run Step (start (device 1) none) history c ∧
    (∀ e ∈ history, ∃ w packet, e.label = .packet w packet) ∧
    maxPendingHandshakes < unauthenticated history c := by
  obtain ⟨history, c, run, labels, flooded⟩ :=
    requests_accumulate (w := steady 3) forged_idle forged_distinct
  refine ⟨history, c, run, fun e member => ?_, ?_⟩
  · have labelled : e.label ∈ forged.map (Event.packet (steady 3)) :=
      labels ▸ List.mem_map.mpr ⟨e, member, rfl⟩
    obtain ⟨packet, _, same⟩ := List.mem_map.mp labelled
    exact ⟨_, packet, same.symm⟩
  · rw [flooded.unauthenticated]
    decide

/-- A request in the name of a greater id, which makes this device begin the handshake. -/
def invitation (byte : UInt8) : BitchatPacket :=
  { request 0 with senderId := List.replicate 8 byte, senderId_size := rfl }

/-- Two invitations, a handshake that another device begins, the first invitation once more, and the
end of its wait. -/
def invited : List Event :=
  [.packet (steady 3) (invitation 0xff), .packet (steady 3) (invitation 0xfe),
    .packet (steady 3) approach, .packet (steady 3) (invitation 0xff),
    .timeout (hex (List.replicate 8 0xff))]

instance (c : SessionCoordinator) : (event : Event) → Decidable (LeavesIdle c event)
  | .packet .. => inferInstanceAs (Decidable (_ ∧ _ ∧ _ ∧ _ ∧ _))
  | .message .. | .resumed .. | .timeout .. | .expired .. | .disconnected .. => isFalse id

/-- Three handshakes are counted until one of them runs out of time. -/
theorem invited_bounded :
    ((List.range 6).map fun n => unauthenticated
      (Run.trace perform (start (device 1) none) (invited.take n))
      (performAll (invited.take n) (start (device 1) none))) = [0, 1, 2, 3, 3, 2] ∧
    ∀ n, unauthenticated (Run.trace perform (start (device 1) none) (invited.take n))
      (performAll (invited.take n) (start (device 1) none)) ≤ maxPendingHandshakes := by
  refine ⟨by decide +kernel, fun n => ?_⟩
  have possible : ∀ c : SessionCoordinator, ∀ event ∈ invited, event.Possible c := by
    intro c event listed
    simp only [invited, List.mem_cons, List.not_mem_nil, or_false] at listed
    rcases listed with rfl | rfl | rfl | rfl | rfl <;> trivial
  have spared : ∀ e ∈ Run.trace perform (start (device 1) none) invited, ¬ LeavesIdle e.before e.label := by
    decide +kernel
  refine unauthenticated_bounded (run_performAll fun c event listed =>
    possible c event (List.mem_of_mem_take listed)) fun e member => spared e ?_
  rw [← List.take_append_drop n invited, Run.trace_append]
  exact List.mem_append_left _ member

end Bitchat.App.SessionCoordinator
