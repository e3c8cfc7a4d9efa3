import Bitchat.App.TransportLifecycle

/-! Invariants of the transports' lifecycle, over every interleaving of the calls. -/
namespace Bitchat.App.TransportCoordinator
open Coroutine
open Lan (TransportState)
open Str (CaseMapping)
variable {τ : Type} {s t u : TransportCoordinator τ}

/-- Only the active transport calls back, and only it is up. -/
structure Always (s : TransportCoordinator τ) : Prop where
  registered : s.registered s.activeTransportName = true
  wired : ∀ name, (s.transport name).wired = true → name = s.activeTransportName
  up : ∀ name, (s.transport name).up = true → name = s.activeTransportName

/-- As long as `stop()` was not called, the active transport calls back. -/
structure Base (s : TransportCoordinator τ) : Prop extends Always s where
  callsBack : s.stopped = false → s.activeTransport.wired = true

/-- The transport was started, by a call that may end well. -/
structure On (s : TransportCoordinator τ) : Prop extends Base s where
  running : s.stopped = false → s.isRunning = true
  isUp : s.stopped = false → s.activeTransport.up = true
  online : s.offlineMode = false

structure Off (s : TransportCoordinator τ) : Prop extends Base s where
  halted : s.stopped = false → s.isRunning = false
  isDown : s.stopped = false → s.activeTransport.up = false

/-- With the lock free, the coordinator runs exactly when its transport is up, and then it is not offline
and prunes its caches. -/
structure Idle (s : TransportCoordinator τ) : Prop extends Base s where
  running_iff : s.stopped = false → (s.isRunning = true ↔ s.activeTransport.up = true)
  online : s.stopped = false → s.isRunning = true → s.offlineMode = false
  prunes : s.stopped = false → s.isRunning = true → s.pruning = true

/-- The fields that the calls depend on. -/
def core (s : TransportCoordinator τ) :=
  (s.activeTransportName, s.registered, s.offlineMode, s.stopped, s.isRunning, s.pruning,
    fun name => ((s.transport name).wired, (s.transport name).up))

/-- What may happen to the coordinator while a call waits that has the lock. -/
structure Others (s t : TransportCoordinator τ) : Prop where
  active : t.activeTransportName = s.activeTransportName
  registered : t.registered = s.registered
  offline : t.offlineMode = s.offlineMode
  stopped : s.stopped = true → t.stopped = true
  wired : ∀ name, (t.transport name).wired = true → (s.transport name).wired = true
  up : ∀ name, (t.transport name).up = true → (s.transport name).up = true
  running : t.stopped = false → t.isRunning = s.isRunning
  calls : t.stopped = false → ∀ name, (t.transport name).wired = (s.transport name).wired ∧
    (t.transport name).up = (s.transport name).up
  pruning : t.stopped = false → s.isRunning = true → s.pruning = true → t.pruning = true

namespace Others

theorem refl (s : TransportCoordinator τ) : Others s s :=
  ⟨rfl, rfl, rfl, id, fun _ => id, fun _ => id, fun _ => rfl, fun _ _ => ⟨rfl, rfl⟩, fun _ _ => id⟩

theorem of_core (same : t.core = s.core) : Others s t := by
  simp only [core, Prod.mk.injEq] at same
  obtain ⟨active, registered, offline, stopped, running, pruning, transports⟩ := same
  have calls (name : TransportName) : (t.transport name).wired = (s.transport name).wired ∧
      (t.transport name).up = (s.transport name).up := Prod.ext_iff.mp (congrFun transports name)
  refine ⟨active, registered, offline, fun before => stopped.trans before, fun name wired => ?_,
    fun name up => ?_, fun _ => running, fun _ => calls, fun _ _ before => pruning.trans before⟩
  · rwa [(calls name).1] at wired
  · rwa [(calls name).2] at up

theorem before (others : Others s t) (never : t.stopped = false) : s.stopped = false := by
  cases stopped : s.stopped with
  | false => rfl
  | true => exact absurd (others.stopped stopped) (by simp [never])

theorem trans (first : Others s t) (second : Others t u) : Others s u where
  active := second.active.trans first.active
  registered := second.registered.trans first.registered
  offline := second.offline.trans first.offline
  stopped := second.stopped ∘ first.stopped
  wired name := first.wired name ∘ second.wired name
  up name := first.up name ∘ second.up name
  running never := (second.running never).trans (first.running (second.before never))
  calls never name := by
    obtain ⟨wired, up⟩ := second.calls never name
    obtain ⟨wired', up'⟩ := first.calls (second.before never) name
    exact ⟨wired.trans wired', up.trans up'⟩
  pruning never running pruning := by
    have between := second.before never
    exact second.pruning never ((first.running between).trans running) (first.pruning between running pruning)

theorem always (others : Others s t) (always : Always s) : Always t where
  registered := by rw [others.active, others.registered, always.registered]
  wired name wired := others.active ▸ always.wired name (others.wired name wired)
  up name up := others.active ▸ always.up name (others.up name up)

theorem activeTransport (others : Others s t) (never : t.stopped = false) :
    t.activeTransport.wired = s.activeTransport.wired ∧ t.activeTransport.up = s.activeTransport.up := by
  rw [TransportCoordinator.activeTransport, TransportCoordinator.activeTransport, others.active]
  exact others.calls never _

theorem base (others : Others s t) (base : Base s) : Base t where
  toAlways := others.always base.toAlways
  callsBack never := (others.activeTransport never).1.trans (base.callsBack (others.before never))

theorem on (others : Others s t) (on : On s) : On t where
  toBase := others.base on.toBase
  running never := (others.running never).trans (on.running (others.before never))
  isUp never := (others.activeTransport never).2.trans (on.isUp (others.before never))
  online := others.offline.trans on.online

theorem off (others : Others s t) (off : Off s) : Off t where
  toBase := others.base off.toBase
  halted never := (others.running never).trans (off.halted (others.before never))
  isDown never := (others.activeTransport never).2.trans (off.isDown (others.before never))

theorem idle (others : Others s t) (idle : Idle s) : Idle t where
  toBase := others.base idle.toBase
  running_iff never := by
    rw [others.running never, (others.activeTransport never).2]
    exact idle.running_iff (others.before never)
  online never running := by
    rw [others.offline]
    rw [others.running never] at running
    exact idle.online (others.before never) running
  prunes never running := by
    have between := others.before never
    rw [others.running never] at running
    exact others.pruning never running (idle.prunes between running)

end Others

theorem Off.idle (off : Off s) : Idle s where
  toBase := off.toBase
  running_iff never := by simp [off.halted never, off.isDown never]
  online never running := by simp [off.halted never] at running
  prunes never running := by simp [off.halted never] at running

theorem On.idle (on : On s) (pruning : s.pruning = true) : Idle s where
  toBase := on.toBase
  running_iff never := by simp [on.running never, on.isUp never]
  online _ _ := on.online
  prunes _ _ := pruning

section SetTransport
variable {name : TransportName} {f : Transport → Transport}

@[simp] theorem setTransport_same : (s.setTransport name f).transport name = f (s.transport name) :=
  Function.update_self ..

theorem setTransport_other {other : TransportName} (different : other ≠ name) :
    (s.setTransport name f).transport other = s.transport other :=
  Function.update_of_ne different ..

/-- A transport that changes by itself changes nothing that the calls depend on. -/
theorem setTransport_core (keeps : ∀ t, (f t).wired = t.wired ∧ (f t).up = t.up) :
    (s.setTransport name f).core = s.core := by
  have same : (fun other => (((s.setTransport name f).transport other).wired,
      ((s.setTransport name f).transport other).up)) =
      fun other => ((s.transport other).wired, (s.transport other).up) := by
    funext other
    by_cases same : other = name
    · rw [same, setTransport_same, (keeps _).1, (keeps _).2]
    · rw [setTransport_other same]
  rw [core, core, same]
  rfl

@[simp] theorem wired_markStopped (other : TransportName) :
    ((s.markStopped name).transport other).wired = (s.transport other).wired := by
  by_cases same : other = name
  · rw [same, markStopped, setTransport_same]
  · rw [markStopped, setTransport_other same]

@[simp] theorem up_markStopped (other : TransportName) :
    ((s.markStopped name).transport other).up = true ↔ other ≠ name ∧ (s.transport other).up = true := by
  by_cases same : other = name
  · simp [markStopped, same]
  · simp [markStopped, setTransport_other same, same]

@[simp] theorem wired_detach (other : TransportName) :
    ((s.detachTransportCallbacks name).transport other).wired = true ↔
      other ≠ name ∧ (s.transport other).wired = true := by
  by_cases same : other = name
  · simp [detachTransportCallbacks, same]
  · simp [detachTransportCallbacks, setTransport_other same, same]

@[simp] theorem up_detach (other : TransportName) :
    ((s.detachTransportCallbacks name).transport other).up = (s.transport other).up := by
  by_cases same : other = name
  · rw [same, detachTransportCallbacks, setTransport_same]
  · rw [detachTransportCallbacks, setTransport_other same]

/-- A transport is registered down and detached. -/
theorem register_transport (other : TransportName) :
    (((s.register name).transport other).wired = true → (s.transport other).wired = true) ∧
    (((s.register name).transport other).up = true → (s.transport other).up = true) := by
  unfold register
  split
  · exact ⟨id, id⟩
  · by_cases same : other = name
    · simp [setTransport, same]
    · simp [setTransport, Function.update_of_ne same]

theorem register_registered : (s.register name).registered name = true := by
  unfold register
  split
  · assumption
  · exact Function.update_self ..

theorem register_mode : ((s.register name).offlineMode, (s.register name).stopped, (s.register name).tables) =
    (s.offlineMode, s.stopped, s.tables) := by
  unfold register
  split <;> rfl

end SetTransport

/-- A report is all that reporting leaves behind. -/
theorem reportError_eq (s : TransportCoordinator τ) (message : Str) :
    ∃ reported, s.reportError message = { s with reported } := by
  unfold reportError
  split
  · split
    · exact ⟨_, rfl⟩
    · split
      · exact ⟨_, rfl⟩
      · exact ⟨s.reported, rfl⟩
  · split
    · exact ⟨_, rfl⟩
    · exact ⟨s.reported, rfl⟩

theorem reportError_core (message : Str) : (s.reportError message).core = s.core := by
  obtain ⟨reported, same⟩ := s.reportError_eq message
  rw [same]
  rfl

/-- What happens outside is within what a waiting call can rely on. -/
theorem Others.of_happens {happening : Happening τ} (happens : Happens happening s t) : Others s t := by
  cases happening with
  | stateChanged name state =>
    have changed : (s.setTransport name fun t => { t with state }).core = s.core :=
      setTransport_core fun _ => ⟨rfl, rfl⟩
    rw [show t = _ from happens]
    apply Others.of_core
    split <;> exact changed
  | error name message =>
    have changed : (s.setTransport name fun t => { t with errorMessage := some message }).core = s.core :=
      setTransport_core fun _ => ⟨rfl, rfl⟩
    rw [show t = _ from happens]
    apply Others.of_core
    split
    · exact (reportError_core message).trans changed
    · exact changed
  | news name tables =>
    rw [happens.2]
    exact .of_core rfl
  | silent name isRunning errorMessage telemetry =>
    rw [show t = _ from happens]
    exact .of_core (setTransport_core fun _ => ⟨rfl, rfl⟩)
  | use tables =>
    rw [show t = _ from happens]
    exact .of_core rfl
  | callbacks lan ble =>
    rw [show t = _ from happens]
    exact .of_core rfl
  | prune =>
    rw [show t = _ from happens]
    split
    · exact .refl s
    · rename_i halted
      exact { Others.refl s with pruning := fun _ running => absurd running halted }

section Updates
variable {f : Transport → Transport}

@[simp] theorem activeTransport_setActive :
    (s.setTransport s.activeTransportName f).activeTransport = f s.activeTransport := setTransport_same

theorem Always.setActive (always : Always s) (f : Transport → Transport) :
    Always (s.setTransport s.activeTransportName f) where
  registered := always.registered
  wired name wired := by
    by_cases same : name = s.activeTransportName
    · exact same
    · exact always.wired name (setTransport_other same ▸ wired)
  up name up := by
    by_cases same : name = s.activeTransportName
    · exact same
    · exact always.up name (setTransport_other same ▸ up)

theorem Base.setActive (base : Base s) (keeps : ∀ t, (f t).wired = t.wired) :
    Base (s.setTransport s.activeTransportName f) where
  toAlways := base.toAlways.setActive f
  callsBack never := by
    rw [activeTransport_setActive, keeps]
    exact base.callsBack never

theorem Base.recordFailure (base : Base s) (failed : TransportState) (message : Str) :
    Base (s.recordFailure failed message) := by
  have preserved : Base (s.preserveFailedTransportState s.activeTransportName failed message) :=
    base.setActive fun _ => rfl
  have same : (s.recordFailure failed message).core =
      (s.preserveFailedTransportState s.activeTransportName failed message).core := rfl
  exact (Others.of_core same).base preserved

theorem Base.giveUp (base : Base s) (failed : TransportState) (message : Str) :
    Base (s.giveUp failed message) :=
  { toAlways := ⟨base.registered, (base.recordFailure failed message).wired,
      (base.recordFailure failed message).up⟩
    callsBack := (base.recordFailure failed message).callsBack }

theorem recordFailure_up (failed : TransportState) (message : Str) :
    (s.recordFailure failed message).activeTransport.up = s.activeTransport.up := by
  rw [activeTransport, recordFailure, preserveFailedTransportState]
  simp only [setTransport, Function.update_self]
  rfl

/-- The transport is down and the status says that it failed. -/
structure Failed (s : TransportCoordinator τ) : Prop where
  halted : s.stopped = false → s.isRunning = false
  down : s.activeTransport.up = false
  status : s.bleStatus ∈ [TransportState.unavailable, .disabled, .error]
  state : s.activeTransport.state = s.bleStatus
  message : ∃ message, s.bleErrorMessage = some message ∧ s.activeTransport.errorMessage = some message

theorem effectiveState_failed (failed : TransportState) :
    effectiveState failed ∈ [TransportState.unavailable, .disabled, .error] := by
  unfold effectiveState
  split
  · assumption
  · simp

theorem recordFailure_shows (failed : TransportState) (message : Str) :
    (s.recordFailure failed message).activeTransport.state = effectiveState failed ∧
    (s.recordFailure failed message).activeTransport.errorMessage = some message := by
  simp only [recordFailure, preserveFailedTransportState, activeTransport, setTransport,
    Function.update_self, and_self]

theorem failed_recordFailure (halted : s.stopped = false → s.isRunning = false)
    (down : s.activeTransport.up = false) (failed : TransportState) (message : Str) :
    Failed (s.recordFailure failed message) :=
  ⟨halted, (recordFailure_up failed message).trans down, effectiveState_failed failed,
    (recordFailure_shows failed message).1, message, rfl, (recordFailure_shows failed message).2⟩

theorem failed_giveUp (down : s.activeTransport.up = false) (failed : TransportState) (message : Str) :
    Failed (s.giveUp failed message) :=
  ⟨fun _ => rfl, (recordFailure_up failed message).trans down, effectiveState_failed failed,
    (recordFailure_shows failed message).1, message, rfl, (recordFailure_shows failed message).2⟩

theorem off_giveUp (base : Base s) (down : s.activeTransport.up = false) (failed : TransportState)
    (message : Str) : Off (s.giveUp failed message) :=
  ⟨base.giveUp failed message, fun _ => rfl, fun _ => (recordFailure_up failed message).trans down⟩

theorem Base.markStopped (base : Base s) (name : TransportName) : Base (s.markStopped name) where
  registered := base.registered
  wired other wired := base.wired other (by simpa using wired)
  up other up := base.up other ((up_markStopped other).mp up).2
  callsBack never := (wired_markStopped _).trans (base.callsBack never)

/-- The active transport is down behind its stop. -/
theorem Base.stopActive (base : Base s) (others : Others s t) :
    Base (t.markStopped s.activeTransportName) ∧
    (t.markStopped s.activeTransportName).activeTransport.up = false := by
  refine ⟨(others.base base).markStopped _, Bool.eq_false_iff.mpr fun up => ?_⟩
  exact ((up_markStopped _).mp up).1 others.active

end Updates

section Rules
variable {rely : TransportCoordinator τ → TransportCoordinator τ → Prop}
  {demands : Demands (TransportCoordinator τ) Failure Awaited Unit}

theorem meets_stopTransportSafely (name : TransportName) :
    (stopTransportSafely name).Meets rely demands s t ↔ demands.pause (.stop name) s t ∧
      ∀ u, rely t u → demands.returns () u (u.markStopped name) := by
  simp only [stopTransportSafely, meets_bind, meets_attempt, meets_wait, meets_pure, meets_modify,
    Unique.forall_iff, forall_const, and_self]

theorem meets_waitQuietly (awaited : Awaited) :
    (waitQuietly awaited).Meets rely demands s t ↔ demands.pause awaited s t ∧
      ∀ u, rely t u → demands.returns () u u := by
  simp only [waitQuietly, meets_attempt, meets_wait, meets_pure, Unique.forall_iff,
    PUnit.default_eq_unit, forall_const, and_self]

/-- The state in which the active transport is asked to start. -/
def asked (s : TransportCoordinator τ) : TransportCoordinator τ :=
  s.setTransport s.activeTransportName fun x => { x with up := true }

theorem meets_startActiveTransport (bounded : Bool) :
    (startActiveTransport bounded).Meets rely demands s t ↔
      demands.pause (.start t.activeTransportName bounded) s t.asked ∧
      ∀ u, rely t.asked u → demands.returns () u u ∧ ∀ e, demands.raises e u u := by
  simp only [startActiveTransport, meets_bind, meets_get, meets_modify, meets_wait, Unique.forall_iff,
    PUnit.default_eq_unit]
  exact Iff.rfl

end Rules

/-- The active transport is in a state in which it can be used. -/
def Usable (s : TransportCoordinator τ) : Prop :=
  s.activeTransport.state ∉ [TransportState.unavailable, .disabled, .error, .offline, .checking]

/-- A stretch that ends offline mode belongs to a retry or a switch whose transport can be used. -/
def Clears (call : Call) (s t : TransportCoordinator τ) : Prop :=
  s.offlineMode = true → t.offlineMode = false →
    (call = .retryActiveTransport ∨ ∃ target, call = .switchTransport target) ∧ Usable t

/-- What holds where a call awaits. -/
def Requests (s : TransportCoordinator τ) : Call → Awaited → Prop
  | .start, .start name _ => name = s.activeTransportName ∧ s.offlineMode = false
  | .retryActiveTransport, .start name _ => name = s.activeTransportName
  | .retryActiveTransport, .announce => s.transportIsOperational = true
  | .switchTransport _, .start name _ => name = s.activeTransportName ∧ s.tables = {}
  | .goOffline, .start _ _ | .stop, .start _ _ => False
  | _, _ => True

/-- What holds where a call returns. -/
def Ends (s t : TransportCoordinator τ) : Call → Result → Prop
  | .start, _ => (t = s ∧ (s.isRunning = true ∨ s.offlineMode = true)) ∨ On t ∨ Failed t
  | .retryActiveTransport, result => (result = .flag true ∧ On t) ∨ (result = .flag false ∧ Failed t)
  | .switchTransport _, .switched true _ => (t = s ∧ s.activeTransport.isRunning = true) ∨ On t
  | .switchTransport _, .switched false _ => t = s ∨ Failed t
  | .switchTransport _, _ => False
  | .goOffline, _ => t.offlineMode = true ∧ t.isRunning = false ∧ t.bleStatus = .offline ∧
      t.bleErrorMessage = none ∧ t.tables = {} ∧ ∀ name, (t.transport name).up = false
  | .stop, _ => True

/-- What no wiring or starting of transports changes. -/
def mode (s : TransportCoordinator τ) : Bool × Bool := (s.offlineMode, s.stopped)

/-- Whatever runs, a coordinator that was stopped stays so. -/
def Stays (s t : TransportCoordinator τ) : Prop := s.stopped = true → t.stopped = true

/-- What a stretch of a call that has the lock may change of the mode. -/
structure Moves (call : Call) (s t : TransportCoordinator τ) : Prop where
  clears : Clears call s t
  stays : Stays s t

/-- The demands on a call that has the lock. -/
def heldDemands (call : Call) : Demands (TransportCoordinator τ) Failure Awaited Result where
  pause r s t := Always t ∧ Moves call s t ∧ Requests t call r
  returns result s t := Idle t ∧ Moves call s t ∧ Ends s t call result
  raises _ _ _ := False

/-- A call without the lock does no more than a call with it relies on. -/
def freeDemands (call : Call) : Demands (TransportCoordinator τ) Failure Awaited Result where
  pause r s t := Others s t ∧ Requests t call r
  returns result s t := Others s t ∧ Ends s t call result
  raises _ _ _ := False

def demands [CaseMapping] (call : Call) : Demands (TransportCoordinator τ) Failure Awaited Result :=
  if Locked call then heldDemands call else freeDemands call

theorem Moves.same {call : Call} (same : t.mode = s.mode) : Moves call s t := by
  obtain ⟨offline, stopped⟩ := Prod.mk.inj same
  refine ⟨fun before after => ?_, stopped.trans⟩
  rw [offline, before] at after
  cases after

theorem On.prune (on : On s) : On (startPruneTask s) :=
  ⟨⟨⟨on.registered, on.wired, on.up⟩, on.callsBack⟩, on.running, on.isUp, on.online⟩

theorem Base.halt (base : Base s) : Base { s with isRunning := false } :=
  ⟨⟨base.registered, base.wired, base.up⟩, base.callsBack⟩

section Start

/-- What a start demands of its attempt. -/
def startDemands : Demands (TransportCoordinator τ) Failure Awaited (Option Str) where
  pause := (heldDemands .start).pause
  returns errorToNotify s t := t.mode = s.mode ∧ match errorToNotify with
    | none => On t ∧ t.pruning = true
    | some _ => Off t ∧ Failed t
  raises _ _ _ := False

theorem startFailed_meets (e : Failure) (base : Base s) : (startFailed e).Meets Others startDemands s s := by
  simp only [startFailed, meets_bind, meets_modify, meets_get, meets_stopTransportSafely, meets_pure]
  refine ⟨⟨base.halt.toAlways, Moves.same rfl, trivial⟩, fun t others => ⟨rfl, ?_⟩⟩
  obtain ⟨stopped, down⟩ := base.halt.stopActive others
  have halted : t.stopped = false → t.isRunning = false := others.running
  refine ⟨⟨stopped.recordFailure _ _, halted, fun _ => (recordFailure_up _ _).trans down⟩, ?_⟩
  exact failed_recordFailure (by exact halted) down _ _

theorem tryStart_meets (on : On s.asked) (mode : t.mode = s.mode) :
    tryStart.Meets Others startDemands t s := by
  rw [tryStart, meets_attempt, meets_bind, meets_startActiveTransport]
  refine ⟨⟨on.toAlways, Moves.same mode.symm, rfl, on.online⟩, fun u others => ?_⟩
  have started := others.on on
  refine ⟨?_, fun e => startFailed_meets e started.toBase⟩
  have same : ({ u with bleStatus := u.activeTransport.state }).core = u.core := rfl
  have checked := (Others.of_core same).on started
  simp only [meets_bind, meets_modify, meets_wait, meets_pure, Unique.forall_iff]
  refine ⟨⟨checked.toAlways, Moves.same rfl, trivial⟩, fun v others' => ⟨⟨rfl, ?_, rfl⟩, fun e => ?_⟩⟩
  · exact (others'.on checked).prune
  · exact startFailed_meets e (others'.on checked).toBase

theorem On.of_ask (base : Base s) (running : s.isRunning = true) (online : s.offlineMode = false) :
    On s.asked where
  toBase := base.setActive fun _ => rfl
  running _ := running
  isUp _ := by rw [asked, activeTransport_setActive]
  online := online

/-- A wired active transport, with the others as they were. -/
theorem Always.wire (always : Always s) : Base (s.wireTransportCallbacks s.activeTransportName) where
  toAlways := always.setActive _
  callsBack _ := by rw [wireTransportCallbacks, activeTransport_setActive]

theorem notify_eq (s : TransportCoordinator τ) (errorToNotify : Option Str) :
    ∃ reported, s.notify errorToNotify = { s with reported } := by
  unfold notify
  split
  · split
    · exact ⟨s.reported, rfl⟩
    · exact s.reportError_eq _
  · exact ⟨s.reported, rfl⟩

theorem start_meets (idle : Idle s) : start.Meets Others (heldDemands .start) s s := by
  simp only [start, meets_bind, meets_get]
  split
  · rename_i running
    exact ⟨idle, .same rfl, Or.inl ⟨rfl, Or.inl running⟩⟩
  · split
    · rename_i offline
      exact ⟨idle, .same rfl, Or.inl ⟨rfl, Or.inr offline⟩⟩
    · rename_i online
      simp only [meets_bind, meets_modify, meets_pure]
      have always : Always s.beginStart := ⟨idle.registered, idle.wired, idle.up⟩
      have on := On.of_ask always.wire rfl (Bool.eq_false_iff.mpr online)
      have met : tryStart.Meets Others startDemands s
          (s.beginStart.wireTransportCallbacks s.beginStart.activeTransportName) := tryStart_meets on rfl
      refine met.mono (fun _ _ _ => id) (fun errorToNotify u v ended => ?_) fun _ _ _ none => none
      obtain ⟨mode, ended⟩ := ended
      obtain ⟨reported, same⟩ := v.notify_eq errorToNotify
      have others : Others v (v.notify errorToNotify) := .of_core (by rw [same]; rfl)
      have moves : Moves .start u (v.notify errorToNotify) := .same (by rw [same]; exact mode)
      cases errorToNotify with
      | none =>
        obtain ⟨on, pruning⟩ := ended
        exact ⟨on.idle pruning, moves, Or.inr (Or.inl on)⟩
      | some message =>
        obtain ⟨off, failed⟩ := ended
        refine ⟨others.idle off.idle, moves, Or.inr (Or.inr ?_)⟩
        rw [same]
        exact ⟨failed.halted, failed.down, failed.status, failed.state, failed.message⟩

end Start

section Retry

theorem operational_usable (operational : s.transportIsOperational = true) : Usable s := by
  intro unusable
  simp [transportIsOperational, unusable] at operational

theorem retryFailed_meets (e : Failure) (base : Base s) :
    (retryFailed e).Meets Others (heldDemands .retryActiveTransport) s s := by
  simp only [retryFailed, meets_bind, meets_get, meets_stopTransportSafely]
  refine ⟨⟨base.toAlways, Moves.same rfl, trivial⟩, fun t others => ?_⟩
  obtain ⟨stopped, down⟩ := base.stopActive others
  split
  · exact ⟨(off_giveUp stopped down _ _).idle, Moves.same rfl, Or.inr ⟨rfl, failed_giveUp down _ _⟩⟩
  · exact ⟨(off_giveUp stopped down _ _).idle, Moves.same rfl, Or.inr ⟨rfl, failed_giveUp down _ _⟩⟩

theorem tryRetry_meets (base : Base s) (mode : t.mode = s.mode) :
    tryRetry.Meets Others (heldDemands .retryActiveTransport) t s := by
  rw [tryRetry, meets_attempt, meets_bind, meets_startActiveTransport]
  have asked : Base s.asked := base.setActive fun _ => rfl
  refine ⟨⟨asked.toAlways, Moves.same mode.symm, rfl⟩, fun u others => ?_⟩
  have started := others.base asked
  refine ⟨?_, fun e => retryFailed_meets e started⟩
  have isUp (never : u.stopped = false) : u.activeTransport.up = true := by
    rw [(others.activeTransport never).2, TransportCoordinator.asked, activeTransport_setActive]
  simp only [meets_bind, meets_modify, meets_get]
  split
  · rename_i operational
    have on : On { u with isRunning := true, bleStatus := u.activeTransport.state, offlineMode := false } :=
      ⟨⟨⟨started.registered, started.wired, started.up⟩, started.callsBack⟩, fun _ => rfl, isUp, rfl⟩
    simp only [meets_bind, meets_modify, meets_wait, meets_pure, Unique.forall_iff]
    have moves : Moves .retryActiveTransport u
        { u with isRunning := true, bleStatus := u.activeTransport.state, offlineMode := false } :=
      ⟨fun _ _ => ⟨Or.inl rfl, operational_usable operational⟩, id⟩
    refine ⟨⟨on.toAlways, moves, operational⟩,
      fun v others' => ⟨?_, fun e => retryFailed_meets e (others'.on on).toBase⟩⟩
    have done := (others'.on on).prune
    exact ⟨done.idle rfl, Moves.same rfl, Or.inl ⟨rfl, done⟩⟩
  · have running : Base { u with isRunning := true, bleStatus := u.activeTransport.state } :=
      ⟨⟨started.registered, started.wired, started.up⟩, started.callsBack⟩
    simp only [meets_bind, meets_modify, meets_stopTransportSafely, meets_pure]
    refine ⟨⟨running.toAlways, Moves.same rfl, trivial⟩, fun v others' => ?_⟩
    obtain ⟨stopped, down⟩ := running.stopActive others'
    exact ⟨(off_giveUp stopped down _ _).idle, Moves.same rfl, Or.inr ⟨rfl, failed_giveUp down _ _⟩⟩

theorem retryActiveTransport_meets (idle : Idle s) :
    retryActiveTransport.Meets Others (heldDemands .retryActiveTransport) s s := by
  have base : Base { s with bleStatus := .checking, bleErrorMessage := none } :=
    ⟨⟨idle.registered, idle.wired, idle.up⟩, idle.callsBack⟩
  simp only [retryActiveTransport, meets_bind, meets_modify, meets_get, meets_stopTransportSafely]
  refine ⟨⟨base.toAlways, Moves.same rfl, trivial⟩, fun t others => ?_⟩
  exact tryRetry_meets (base.stopActive others).1 rfl

end Retry

section GoOffline

/-- Offline, with only these transports left to stop. -/
structure Leaving (rest : List TransportName) (s : TransportCoordinator τ) : Prop extends Base s where
  offline : s.offlineMode = true
  left : ∀ name, (s.transport name).up = true → name ∈ rest

theorem Others.leaving {rest : List TransportName} (others : Others s t) (leaving : Leaving rest s) :
    Leaving rest t where
  toBase := others.base leaving.toBase
  offline := others.offline.trans leaving.offline
  left name up := leaving.left name (others.up name up)

theorem Leaving.markStopped {name : TransportName} {rest : List TransportName}
    (leaving : Leaving (name :: rest) s) :
    Leaving rest (s.markStopped name) where
  toBase := leaving.toBase.markStopped name
  offline := leaving.offline
  left other up := by
    obtain ⟨different, up⟩ := (up_markStopped other).mp up
    exact (List.mem_cons.mp (leaving.left other up)).resolve_left different

def leavingDemands : Demands (TransportCoordinator τ) Failure Awaited Unit where
  pause := (heldDemands .goOffline).pause
  returns _ s t := t.stopped = s.stopped ∧ Leaving [] t
  raises _ _ _ := False

theorem Leaving.moves {rest : List TransportName} {call : Call} (leaving : Leaving rest t)
    (stopped : t.stopped = s.stopped) : Moves call s t :=
  ⟨fun _ online => absurd leaving.offline (by simp [online]), stopped.trans⟩

/-- By induction on the transports that are left to stop. -/
theorem stopTransports_meets {rest : List TransportName} (leaving : Leaving rest s)
    (stopped : s.stopped = t.stopped) : (stopTransports rest).Meets Others leavingDemands t s := by
  induction rest generalizing s t with
  | nil => exact ⟨stopped, leaving⟩
  | cons name rest ih =>
    simp only [stopTransports, meets_bind, meets_stopTransportSafely]
    exact ⟨⟨leaving.toAlways, leaving.moves stopped, trivial⟩, fun u others =>
      ih (others.leaving leaving).markStopped rfl⟩

theorem transport_mem (always : Always s) (name : TransportName) (up : (s.transport name).up = true) :
    name ∈ s.transportNames := by
  have active := always.up name up
  refine List.mem_filter.mpr ⟨?_, active ▸ always.registered⟩
  cases name <;> simp

theorem goOffline_meets (idle : Idle s) : goOffline.Meets Others (heldDemands .goOffline) s s := by
  have leaving : Leaving s.transportNames { s with offlineMode := true } :=
    ⟨⟨⟨idle.registered, idle.wired, idle.up⟩, idle.callsBack⟩, rfl, fun name => transport_mem idle.toAlways name⟩
  have stopping : (stopTransports s.transportNames).Meets Others leavingDemands s
      { s with offlineMode := true } := stopTransports_meets leaving rfl
  simp only [goOffline, resetSessionState, meets_bind, meets_modify, meets_get, meets_waitQuietly]
  refine stopping.mono (fun _ _ _ => id) (fun _ u v ended => ?_) fun _ _ _ => id
  obtain ⟨stopped, left⟩ := ended
  refine ⟨⟨left.toAlways, left.moves stopped, trivial⟩, fun w others => ?_⟩
  have away := others.leaving left
  have down (name : TransportName) : (w.transport name).up = false := by
    rw [Bool.eq_false_iff]
    intro up
    exact absurd (away.left name up) List.not_mem_nil
  have off : Off { w with
      tables := ({} : PeerTables τ), isRunning := false, bleStatus := .offline, bleErrorMessage := none } :=
    ⟨⟨⟨away.registered, away.wired, away.up⟩, away.callsBack⟩, fun _ => rfl, fun _ => down _⟩
  exact ⟨off.idle, .same rfl, away.offline, rfl, rfl, rfl, rfl, down⟩

end GoOffline

section Switch
variable {target : TransportName} {text : Str}

/-- Between two transports: nothing is wired or up. -/
structure Between (s : TransportCoordinator τ) : Prop where
  registered : s.registered s.activeTransportName = true
  wired : ∀ name, (s.transport name).wired ≠ true
  up : ∀ name, (s.transport name).up ≠ true

theorem Between.always (between : Between s) : Always s where
  registered := between.registered
  wired name wired := absurd wired (between.wired name)
  up name up := absurd up (between.up name)

theorem Others.between (others : Others s t) (between : Between s) : Between t where
  registered := by rw [others.active, others.registered, between.registered]
  wired name := between.wired name ∘ others.wired name
  up name := between.up name ∘ others.up name

/-- The active transport, stopped and detached. -/
theorem Always.retire (always : Always s) : Between ((s.markStopped s.activeTransportName).detachTransportCallbacks
    s.activeTransportName) where
  registered := always.registered
  wired name wired := by
    obtain ⟨different, wired⟩ := (wired_detach name).mp wired
    exact different (always.wired name (by simpa using wired))
  up name up := by
    rw [up_detach, up_markStopped] at up
    exact up.1 (always.up name up.2)

/-- The transport to switch to, registered if it was not. -/
theorem Between.register (between : Between s) :
    Between { s.register target with activeTransportName := target } where
  registered := register_registered
  wired name := between.wired name ∘ (register_transport name).1
  up name := between.up name ∘ (register_transport name).2

theorem switchFailed_meets (e : Failure) (base : Base s) (active : s.activeTransportName = target) :
    (switchFailed target e).Meets Others (heldDemands (.switchTransport text)) s s := by
  simp only [switchFailed, meets_bind, meets_get, meets_stopTransportSafely, meets_modify, meets_pure]
  refine ⟨⟨base.toAlways, .same rfl, trivial⟩, fun t others => ?_⟩
  obtain ⟨stopped, down⟩ := base.stopActive others
  rw [active] at stopped down
  exact ⟨(off_giveUp stopped down _ _).idle, .same rfl, Or.inr (failed_giveUp down _ _)⟩

theorem trySwitch_meets (base : Base s) (active : s.activeTransportName = target)
    (mode : t.mode = s.mode) (empty : s.tables = {}) :
    (trySwitch target).Meets Others (heldDemands (.switchTransport text)) t s := by
  rw [trySwitch, meets_attempt, meets_bind, meets_startActiveTransport]
  have asked : Base s.asked := base.setActive fun _ => rfl
  refine ⟨⟨asked.toAlways, .same mode.symm, rfl, empty⟩, fun u others => ?_⟩
  have started := others.base asked
  have still : u.activeTransportName = target := others.active.trans active
  refine ⟨?_, fun e => switchFailed_meets e started still⟩
  have isUp (never : u.stopped = false) : u.activeTransport.up = true := by
    rw [(others.activeTransport never).2, TransportCoordinator.asked, activeTransport_setActive]
  simp only [meets_bind, meets_get]
  split
  · exact switchFailed_meets _ started still
  · rename_i operational
    have usable : Usable u := fun unusable => operational (by simp [unusable])
    have on : On { u with
        bleStatus := u.activeTransport.state, bleErrorMessage := none, offlineMode := false, isRunning := true } :=
      ⟨⟨⟨started.registered, started.wired, started.up⟩, started.callsBack⟩, fun _ => rfl, isUp, rfl⟩
    have moves : Moves (.switchTransport text) u { u with
        bleStatus := u.activeTransport.state, bleErrorMessage := none, offlineMode := false, isRunning := true } :=
      ⟨fun _ _ => ⟨Or.inr ⟨text, rfl⟩, usable⟩, id⟩
    simp only [meets_bind, meets_modify, meets_wait, meets_pure, Unique.forall_iff]
    refine ⟨⟨on.toAlways, moves, trivial⟩, fun v others' => ⟨?_, fun e => ?_⟩⟩
    · have done := (others'.on on).prune
      exact ⟨done.idle rfl, .same rfl, Or.inr done⟩
    · exact switchFailed_meets e (others'.on on).toBase (others'.active.trans still)

theorem switchTo_meets (idle : Idle s) :
    (switchTo target).Meets Others (heldDemands (.switchTransport text)) s s := by
  simp only [switchTo, resetSessionState, meets_bind, meets_get]
  split
  · rename_i already
    exact ⟨idle, .same rfl, Or.inl ⟨rfl, (Bool.and_eq_true_iff.mp already).2⟩⟩
  · split
    · exact ⟨idle, .same rfl, Or.inl rfl⟩
    · simp only [meets_bind, meets_modify, meets_stopTransportSafely, meets_waitQuietly]
      refine ⟨⟨idle.toAlways, .same rfl, trivial⟩, fun t others => ?_⟩
      have between := (others.always idle.toAlways).retire
      rw [others.active] at between
      refine ⟨⟨between.always, .same rfl, trivial⟩, fun u others' => ?_⟩
      have cleared : Between { u with tables := ({} : PeerTables τ) } := by
        have away := others'.between between
        exact ⟨away.registered, away.wired, away.up⟩
      have registered : Between { register { u with tables := ({} : PeerTables τ) } target with
          activeTransportName := target } := cleared.register
      obtain ⟨offline, still⟩ := Prod.mk.inj (register_mode (s := { u with tables := ({} : PeerTables τ) }))
      obtain ⟨stopped, empty⟩ := Prod.mk.inj still
      exact trySwitch_meets registered.always.wire rfl (Prod.ext offline.symm stopped.symm) empty

end Switch

section Stop

theorem Others.of_stopped (stopped : t.stopped = true) (active : t.activeTransportName = s.activeTransportName)
    (registered : t.registered = s.registered) (offline : t.offlineMode = s.offlineMode)
    (wired : ∀ name, (t.transport name).wired = true → (s.transport name).wired = true)
    (up : ∀ name, (t.transport name).up = true → (s.transport name).up = true) : Others s t where
  active := active
  registered := registered
  offline := offline
  stopped _ := stopped
  wired := wired
  up := up
  running never := by simp [never] at stopped
  calls never := by simp [never] at stopped
  pruning never := by simp [never] at stopped

theorem Others.detach (others : Others s t) (stopped : t.stopped = true) (name : TransportName) :
    Others s (t.detachTransportCallbacks name) :=
  others.trans (.of_stopped stopped rfl rfl rfl (fun other wired => ((wired_detach other).mp wired).2)
    fun other up => by simpa using up)

theorem Others.markStopped (stopped : t.stopped = true) (name : TransportName) : Others t (t.markStopped name) :=
  .of_stopped stopped rfl rfl rfl (fun other wired => by simpa using wired)
    fun other up => ((up_markStopped other).mp up).2

/-- By induction on the transports that are left to stop. -/
theorem detachAndStop_meets {rest : List TransportName} (others : Others s t) (stopped : t.stopped = true) :
    (detachAndStop rest).Meets Stays ⟨(freeDemands .stop).pause, fun _ s t => Others s t, fun _ _ _ => False⟩
      s t := by
  induction rest generalizing s t with
  | nil => exact others
  | cons name rest ih =>
    simp only [detachAndStop, meets_bind, meets_modify, meets_stopTransportSafely]
    refine ⟨⟨others.detach stopped name, trivial⟩, fun u stays => ?_⟩
    have still : u.stopped = true := stays stopped
    exact ih (.markStopped still name) still

/-- What comes behind the prune task. -/
theorem stopRest_meets (others : Others s { t with pruning := false }) (stopped : t.stopped = true) :
    (freeDemands .stop).pause .handshakeTimeouts s { t with pruning := false } ∧
    ∀ u, Stays { t with pruning := false } u → (freeDemands .stop).pause .backgroundTasks u u.closeSessions ∧
      ∀ v, Stays u.closeSessions v → (detachAndStop v.transportNames).Meets Stays
        ⟨(freeDemands .stop).pause, fun _ => (freeDemands .stop).returns .none, (freeDemands .stop).raises⟩
        v v := by
  refine ⟨⟨others, trivial⟩, fun u stays => ⟨⟨.of_core rfl, trivial⟩, fun v stays' => ?_⟩⟩
  have still : v.stopped = true := stays' (stays stopped)
  exact (detachAndStop_meets (.refl v) still).mono (fun _ _ _ => id) (fun _ _ _ others => ⟨others, trivial⟩)
    fun _ _ _ => id

theorem stop_meets (s : TransportCoordinator τ) : stop.Meets Stays (freeDemands .stop) s s := by
  have begun : Others s s.beginStop := .of_stopped rfl rfl rfl rfl (fun _ => id) fun _ => id
  simp only [stop, meets_bind, meets_modify, meets_get]
  split
  · simp only [meets_bind, meets_modify, meets_get, meets_pure, meets_waitQuietly]
    refine ⟨⟨begun, trivial⟩, fun t stays => ?_⟩
    have stopped : t.stopped = true := stays rfl
    exact stopRest_meets (.of_stopped stopped rfl rfl rfl (fun _ => id) fun _ => id) stopped
  · simp only [meets_bind, meets_modify, meets_get, meets_pure, meets_waitQuietly]
    exact stopRest_meets (t := s.beginStop) (.of_stopped rfl rfl rfl rfl (fun _ => id) fun _ => id) rfl

end Stop

/-- A transport that is wired is as down as before. -/
theorem Between.begin (between : Between s) (halted : s.isRunning = false) :
    Idle (s.wireTransportCallbacks s.activeTransportName) := by
  have off : Off (s.wireTransportCallbacks s.activeTransportName) :=
    ⟨between.always.wire, fun _ => halted, fun _ => by
      rw [wireTransportCallbacks, activeTransport_setActive]
      exact Bool.eq_false_iff.mpr (between.up _)⟩
  exact off.idle

section Runs
variable [CaseMapping]

theorem body_meets_held {call : Call} (needs : Locked call) (idle : Idle s) :
    (body call).Meets Others (heldDemands call) s s := by
  cases call with
  | start => exact start_meets idle
  | retryActiveTransport => exact retryActiveTransport_meets idle
  | goOffline => exact goOffline_meets idle
  | switchTransport text =>
    obtain ⟨target, named⟩ := Option.ne_none_iff_exists'.mp needs
    rw [body, switchTransport, named]
    exact switchTo_meets idle
  | stop => exact needs.elim

theorem body_meets_free {call : Call} (s : TransportCoordinator τ) (runs_free : ¬ Locked call) :
    (body call).Meets Stays (freeDemands call) s s := by
  cases call with
  | start | retryActiveTransport | goOffline => exact absurd trivial runs_free
  | switchTransport text =>
    rw [body, switchTransport, not_ne_iff.mp runs_free]
    exact ⟨.refl s, Or.inl rfl⟩
  | stop => exact stop_meets s

theorem demands_held {call : Call} (needs : Locked call) {o : Outcome Failure Awaited Result}
    (met : (demands call).At s t o) : Always t ∧ Stays s t ∧ ((∀ r, o ≠ .waits r) → Idle t) := by
  rw [demands, if_pos needs] at met
  cases o with
  | waits r =>
    obtain ⟨always, moves, -⟩ := met
    exact ⟨always, moves.stays, fun ended => absurd rfl (ended r)⟩
  | returned result =>
    obtain ⟨idle, moves, -⟩ := met
    exact ⟨idle.toAlways, moves.stays, fun _ => idle⟩
  | raised e => exact False.elim met

theorem demands_free {call : Call} (runs_free : ¬ Locked call) {o : Outcome Failure Awaited Result}
    (met : (demands call).At s t o) : Others s t := by
  rw [demands, if_neg runs_free] at met
  cases o with
  | waits r => exact met.1
  | returned result => exact met.1
  | raised e => exact False.elim met

theorem guarded : Calls.Guarded (body (τ := τ)) Locked Happens Always Idle Others Stays demands where
  refl := .refl
  trans := .trans
  frame_trans first second := second ∘ first
  rely_frame others := others.stopped
  always_rely always others := others.always always
  idle_rely idle others := others.idle idle
  event_rely := .of_happens
  holds needs _ idle := by
    rw [demands, if_pos needs]
    exact body_meets_held needs idle
  holds_frame needs met := (demands_held needs met).2.1
  holds_always needs met := (demands_held needs met).1
  holds_idle needs met := (demands_held needs met).2.2
  free s runs_free := by
    rw [demands, if_neg runs_free]
    exact body_meets_free s runs_free
  free_rely runs_free met := demands_free runs_free met

end Runs

end Bitchat.App.TransportCoordinator
