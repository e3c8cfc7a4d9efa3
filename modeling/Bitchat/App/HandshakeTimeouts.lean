import Bitchat.App.CoordinatorRuns
import Bitchat.App.EstablishedSessions

/-! Every open handshake is watched. Expiry tasks are kept by peer, but each watches one
session object: no task outlives the session it was armed for. -/
namespace Bitchat.App.SessionCoordinator
open Crypto Protocol Storage Stateful Str

/-- An open handshake has its expiry task, and a task watches the session that is in the
table, which has begun. -/
structure Guards (g : Option Held × Option Nat) : Prop where
  watched : ∀ held, g.1 = some held → held.isPending → g.2 = some held.serial
  current : ∀ serial, g.2 = some serial → ∃ held, g.1 = some held ∧ held.serial = serial ∧
    held.session.state ≠ .uninitialized

section Steps
variable {g h : Option Held × Option Nat}

theorem Guards.move (guards : Guards g) (move : Moves g h) : Guards h := by
  cases move with
  | @watched held session timer open' going =>
    have armed : timer.getD held.serial = held.serial := by
      cases timer with
      | none => rfl
      | some serial =>
        obtain ⟨current, same, serial, _⟩ := guards.current serial rfl
        cases same
        exact serial.symm
    constructor
    · rintro _ ⟨⟩ _
      exact congrArg some armed
    · rintro _ ⟨⟩
      exact ⟨_, rfl, armed.symm, by simp [going]⟩
  | ended going ready =>
    constructor
    · rintro _ ⟨⟩ pending
      simp [Held.isPending, ready] at pending
    · intro serial armed
      obtain ⟨_, ⟨⟩, same, _⟩ := guards.current serial armed
      exact ⟨_, rfl, same, by simp [ready]⟩
  | @used held session timer same =>
    constructor
    · rintro _ ⟨⟩ pending
      have before : held.isPending := by simpa [Held.isPending, same] using pending
      exact guards.watched held rfl before
    · intro serial armed
      obtain ⟨_, ⟨⟩, serial, begun⟩ := guards.current serial armed
      exact ⟨_, rfl, serial, same ▸ begun⟩
  | unwatched free =>
    constructor
    · intro held found pending
      exact absurd (guards.watched held found pending) (free held found pending)
    · rintro _ ⟨⟩
  | dropped => exact ⟨by rintro _ ⟨⟩, by rintro _ ⟨⟩⟩

theorem Guards.moves (guards : Guards g) (moves : Relation.ReflTransGen Moves g h) : Guards h := by
  induction moves with
  | refl => exact guards
  | tail _ move ih => exact ih.move move

end Steps

section Runs
variable [Primitives] {c d : SessionCoordinator} {peer : Str}

/-- A session that was just made is not watched yet, and no other task is there. -/
theorem guards_enroll {session : NoiseSession} (guards : Guards (guard peer c))
    (unknown : c.sessions.get? peer = none)
    (made : NoiseSession.new c.localIdentity peer none = .ok session) :
    Guards (guard peer (c.enroll peer session)) := by
  have idle : session.state = .uninitialized := by
    obtain ⟨_, rfl⟩ := NoiseSession.new_eq_ok made
    rfl
  have unarmed : c.handshakeTimeoutTasks.get? peer = none := by
    cases armed : c.handshakeTimeoutTasks.get? peer with
    | none => rfl
    | some serial =>
      obtain ⟨held, found, _⟩ := guards.current serial armed
      cases unknown.symm.trans found
  have after : guard peer (c.enroll peer session) = (some ⟨c.nextSerial, session⟩, none) := by
    rw [← unarmed]
    exact guard_hold
  rw [after]
  constructor
  · rintro _ ⟨⟩ pending
    simp [Held.isPending, idle] at pending
  · rintro _ ⟨⟩

theorem acts_guards (acts : Acts peer c d) (guards : ∀ other, Guards (guard other c)) (other : Str) :
    Guards (guard other d) := by
  by_cases same : other = peer
  · subst same
    cases acts with
    | shifted shift => exact (guards other).moves shift.moves
    | created session unknown made shift =>
      exact (guards_enroll (guards other) unknown made).moves shift.moves
  · have kept := acts.elsewhere other same
    simp only [slot, Prod.mk.injEq] at kept
    have untouched : guard other d = guard other c := by simp [guard, kept]
    exact untouched ▸ guards other

variable [CaseMapping] {identity : LocalIdentity} {contacts : Option Contacts}
  {history : List (Taken SessionCoordinator Event)}

theorem run_guards (run : Run Step (start identity contacts) history c) (peer : Str) :
    Guards (guard peer c) := by
  suffices all : ∀ peer, Guards (guard peer c) from all peer
  refine run.invariant (P := fun c => ∀ peer, Guards (guard peer c)) ?_ ?_
  · intro peer
    exact ⟨by rintro _ ⟨⟩, by rintro _ ⟨⟩⟩
  · intro s label t guards step
    exact acts_guards (step_acts step) guards

omit [Primitives] [CaseMapping] in
/-- The expiry task of an open handshake fails that session and drops it with all that was
kept for its peer. -/
theorem expire_watched {held : Held} (found : c.sessions.get? peer = some held)
    (pending : held.isPending) (armed : c.handshakeTimeoutTasks.get? peer = some held.serial) :
    c.expireHandshake peer = (c.failSession peer held).cancelHandshakeTimeout peer ∧
      slot peer (c.expireHandshake peer) = (none, none, none) := by
  have expired : c.expireHandshake peer = (c.failSession peer held).cancelHandshakeTimeout peer := by
    simp [expireHandshake, armed, found, pending]
  have failed : slot peer (c.failSession peer held) = (none, none, none) := slot_fail
  simp only [slot, Prod.mk.injEq] at failed
  refine ⟨expired, ?_⟩
  rw [expired]
  simp [slot, cancelHandshakeTimeout, failed]

/-- After any run each open handshake has an expiry task, which will fail that very session,
and there is no task but that of the session in the table. -/
theorem handshakes_watched (run : Run Step (start identity contacts) history c) :
    (∀ peer held, c.sessions.get? peer = some held → held.session.state = .handshaking →
      c.handshakeTimeoutTasks.get? peer = some held.serial ∧
      c.expireHandshake peer = (c.failSession peer held).cancelHandshakeTimeout peer ∧
      slot peer (c.expireHandshake peer) = (none, none, none)) ∧
    (∀ peer serial, c.handshakeTimeoutTasks.get? peer = some serial →
      ∃ held, c.sessions.get? peer = some held ∧ held.serial = serial) ∧
    Numbered c := by
  refine ⟨fun peer held found going => ?_, fun peer serial armed => ?_, run_numbered run⟩
  · have pending : held.isPending := by simp [Held.isPending, going]
    have armed := (run_guards run peer).watched held found pending
    exact ⟨armed, expire_watched found pending armed⟩
  · obtain ⟨held, found, same, _⟩ := (run_guards run peer).current serial armed
    exact ⟨held, found, same⟩

end Runs
end Bitchat.App.SessionCoordinator

namespace Bitchat.App.SessionCoordinator
open Crypto Str Modular
attribute [local instance] Modular.primitives asciiCase

/-- The last of all peer ids. -/
def lastPeer : Str := List.replicate 16 'f'

/-- Two texts to one peer, which disconnects between them. -/
def reopening : List Event :=
  [.message (steady 3) lastPeer [], .disconnected lastPeer, .message (steady 4) lastPeer []]

def afterReopening : SessionCoordinator := performAll reopening (start (device 1) none)

/-- The task of the second session is not mistaken for that of the first. -/
theorem reopened_watched : ∃ held, afterReopening.sessions.get? lastPeer = some held ∧
    held.serial = 1 ∧ afterReopening.handshakeTimeoutTasks.get? lastPeer = some held.serial ∧
    slot lastPeer (afterReopening.expireHandshake lastPeer) = (none, none, none) := by
  have run : Run Step (start (device 1) none) _ afterReopening :=
    run_performAll (by simp [reopening, Event.Possible])
  have second : (afterReopening.sessions.get? lastPeer).map (fun held =>
      (held.serial, held.session.state)) = some (1, .handshaking) := by decide +kernel
  obtain ⟨held, found, same⟩ := Option.map_eq_some_iff.mp second
  obtain ⟨serial, going⟩ := Prod.mk.inj same
  obtain ⟨armed, _, gone⟩ := (handshakes_watched run).1 lastPeer held found going
  exact ⟨held, found, serial, armed, gone⟩

end Bitchat.App.SessionCoordinator
