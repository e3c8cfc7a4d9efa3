import Bitchat.Data.Coroutine
import Bitchat.Lan.Transport

/-! The lifecycle of the coordinator's transports: starting, retrying, switching and going offline, which
exclude each other by a lock, and stopping, which takes no lock. A call that is cancelled while it waits
is left out. -/
namespace Bitchat.App
open Coroutine
open Lan (TransportState)
open Str (CaseMapping)

inductive TransportName where
  | bluetooth
  | lan
deriving DecidableEq

namespace TransportName

/-- The value of the enumeration, and the text that names the transport to the user. -/
def value : TransportName → Str
  | bluetooth => "bluetooth".toList
  | lan => "lan".toList

def displayName : TransportName → Str
  | bluetooth => "Bluetooth".toList
  | lan => "LAN / Wi-Fi".toList

end TransportName

/-- What of a transport's telemetry the coordinator asks about. -/
structure Telemetry where
  adapterOn : Bool := false
  scannerActive : Bool := false
  advertisingActive : Bool := false
  centralSupported : Bool := false
  peripheralSupported : Bool := false
  connected : Bool := false
  discoveryActive : Bool := false
  listeningActive : Bool := false
deriving DecidableEq

/-- `up` is not a field of the source: `start()` was called, and no `stop()` has come back since. -/
structure Transport where
  isRunning : Bool := false
  state : TransportState := .offline
  errorMessage : Option Str := none
  telemetry : Telemetry := {}
  wired : Bool := false
  up : Bool := false
deriving DecidableEq

/-- What the coordinator keeps about peers. -/
structure PeerTables (τ : Type) where
  sessions : InsertionMap Str τ := .empty
  pendingMessages : InsertionMap Str (List Str) := .empty
  peerAddresses : InsertionMap Str Str := .empty
  addressToPeerId : InsertionMap Str Str := .empty
  peerNicknames : InsertionMap Str Str := .empty
  announcedPeers : List Str := []

/-- The callback that an error reaches the user through. -/
inductive ErrorCallback where
  | onLanError
  | onBleError
deriving DecidableEq

/-- `reported` are the calls of the error callbacks, and `stopped` says that `stop()` was called. -/
structure TransportCoordinator (τ : Type) where
  localPeerId : Str
  registered : TransportName → Bool
  transport : TransportName → Transport
  activeTransportName : TransportName
  isRunning : Bool := false
  offlineMode : Bool := false
  bleStatus : TransportState := .offline
  bleErrorMessage : Option Str := none
  notifiedError : Option Str := none
  tables : PeerTables τ := {}
  pruning : Bool := false
  injectedBleBackend : Bool := false
  hasLanErrorCallback : Bool := false
  hasBleErrorCallback : Bool := false
  reported : List (ErrorCallback × Str) := []
  stopped : Bool := false

/-- What a coordinator is made from. -/
structure Setup where
  localPeerId : Str
  hasBleBackend : Bool := false
  injectedBleBackend : Bool := false
  transport : Option (TransportName × Transport) := none
  initialTransport : Str := "bluetooth".toList
  bluetoothAvailable : Bool := false
deriving DecidableEq

/-- An exception: whether it is a `TimeoutError`, and its text. -/
structure Failure where
  isTimeout : Bool := false
  text : Str
deriving DecidableEq, Inhabited

/-- What the coordinator awaits. Only a retry bounds the time that a transport has to start. -/
inductive Awaited where
  | start (name : TransportName) (bounded : Bool)
  | stop (name : TransportName)
  | announce
  | handshakeTimeouts
  | pruneTask
  | backgroundTasks
deriving DecidableEq

abbrev Lifecycle (τ : Type) := Coroutine (TransportCoordinator τ) Failure Awaited (fun _ => Unit)

namespace TransportCoordinator
variable {τ : Type}

section
variable (s : TransportCoordinator τ)

def activeTransport : Transport := s.transport s.activeTransportName

def setTransport (name : TransportName) (f : Transport → Transport) : TransportCoordinator τ :=
  { s with transport := Function.update s.transport name (f (s.transport name)) }

def wireTransportCallbacks (name : TransportName) : TransportCoordinator τ :=
  s.setTransport name fun t => { t with wired := true }

def detachTransportCallbacks (name : TransportName) : TransportCoordinator τ :=
  s.setTransport name fun t => { t with wired := false }

def markStopped (name : TransportName) : TransportCoordinator τ :=
  s.setTransport name fun t => { t with up := false }

/-- A transport that was never there is made new. -/
def register (name : TransportName) : TransportCoordinator τ :=
  if s.registered name then s
  else { s.setTransport name fun _ => {} with registered := Function.update s.registered name true }

/-- An error goes to the callback of the active transport's kind; without one, a LAN error goes to the
other. -/
def reportError (message : Str) : TransportCoordinator τ :=
  let report (callback : ErrorCallback) := { s with reported := s.reported ++ [(callback, message)] }
  if s.activeTransportName = .lan then
    if s.hasLanErrorCallback then report .onLanError
    else if s.hasBleErrorCallback then report .onBleError
    else s
  else if s.hasBleErrorCallback then report .onBleError
  else s

def handleTransportStateChanged (state : TransportState) : TransportCoordinator τ :=
  { s with bleStatus := state }

def handleTransportError (message : Str) : TransportCoordinator τ :=
  { s with bleErrorMessage := some message, notifiedError := some message }.reportError message

def transportIsOperational : Bool :=
  let telem := s.activeTransport.telemetry
  if s.activeTransport.state ∈ [.unavailable, .disabled, .error, .offline, .checking] then false
  else match s.activeTransportName with
    | .bluetooth =>
      if telem.adapterOn then
        (telem.centralSupported && telem.scannerActive) ||
          (telem.peripheralSupported && telem.advertisingActive)
      else s.injectedBleBackend && (telem.scannerActive || telem.advertisingActive)
    | .lan => telem.connected && telem.discoveryActive && telem.listeningActive

/-- A transport failed in one of these states; any other is taken for `unavailable`. -/
def effectiveState (failed : TransportState) : TransportState :=
  if failed ∈ [.unavailable, .disabled, .error] then failed else .unavailable

def preserveFailedTransportState (name : TransportName) (failed : TransportState) (message : Str) :
    TransportCoordinator τ :=
  s.setTransport name fun t => { t with state := effectiveState failed, errorMessage := some message }

/-- `get_telemetry().get("error_message") or default`. -/
def failedMessage (default : Str) : Str :=
  match s.activeTransport.errorMessage with
  | some message => if message = [] then default else message
  | none => default

/-- The names of `_transports`, in the order in which they are registered. -/
def transportNames : List TransportName := [.bluetooth, .lan].filter fun name => s.registered name

end

/-- Shutdown failures are logged. -/
def stopTransportSafely (name : TransportName) : Lifecycle τ Unit := do
  (wait (.stop name)).attempt fun _ => pure ()
  modify fun s => s.markStopped name

def startActiveTransport (bounded : Bool) : Lifecycle τ Unit := do
  let s ← get
  modify fun s => s.setTransport s.activeTransportName fun t => { t with up := true }
  wait (.start s.activeTransportName bounded)

/-- An await whose exceptions are suppressed. -/
def waitQuietly (awaited : Awaited) : Lifecycle τ Unit := (wait awaited).attempt fun _ => pure ()

def startPruneTask (s : TransportCoordinator τ) : TransportCoordinator τ := { s with pruning := true }

/-- The active transport failed, and the status says why. -/
def recordFailure (failed : TransportState) (message : Str) (s : TransportCoordinator τ) :
    TransportCoordinator τ :=
  { s.preserveFailedTransportState s.activeTransportName failed message with
    bleStatus := effectiveState failed, bleErrorMessage := some message }

/-- Nor is the coordinator running then. -/
def giveUp (failed : TransportState) (message : Str) (s : TransportCoordinator τ) :
    TransportCoordinator τ :=
  { s.recordFailure failed message with isRunning := false }

/-- What a call returns. -/
inductive Result where
  | none
  | flag (success : Bool)
  | switched (success : Bool) (message : Str)
deriving DecidableEq

def startFailed (e : Failure) : Lifecycle τ (Option Str) := do
  modify fun s => { s with isRunning := false }
  let s ← get
  stopTransportSafely s.activeTransportName
  modify (recordFailure s.activeTransport.state e.text)
  pure (some e.text)

/-- The error that `start` has to notify, behind the lock. -/
def tryStart : Lifecycle τ (Option Str) := attempt
  (do
    startActiveTransport false
    modify fun s => { s with bleStatus := s.activeTransport.state }
    wait .announce
    modify startPruneTask
    pure none)
  startFailed

def beginStart (s : TransportCoordinator τ) : TransportCoordinator τ :=
  { s with isRunning := true, bleStatus := .checking, bleErrorMessage := none, notifiedError := none }

/-- An error that the transport has delivered is not reported again. -/
def notify (errorToNotify : Option Str) (s : TransportCoordinator τ) : TransportCoordinator τ :=
  match errorToNotify with
  | some message => if errorToNotify = s.notifiedError then s else s.reportError message
  | none => s

def start : Lifecycle τ Result := do
  let s ← get
  if s.isRunning then pure .none
  else if s.offlineMode then pure .none
  else do
    modify beginStart
    modify fun s => s.wireTransportCallbacks s.activeTransportName
    let errorToNotify ← tryStart
    modify (notify errorToNotify)
    pure .none

def notOperational : Str := "Transport is not operational".toList

def retryTimedOut : Str := "Retry timed out after 30s".toList

def retryFailed (e : Failure) : Lifecycle τ Result := do
  let s ← get
  stopTransportSafely s.activeTransportName
  if e.isTimeout then modify (giveUp .unavailable retryTimedOut)
  else modify (giveUp s.activeTransport.state e.text)
  pure (.flag false)

def tryRetry : Lifecycle τ Result := attempt
  (do
    startActiveTransport true
    modify fun s => { s with isRunning := true, bleStatus := s.activeTransport.state }
    let s ← get
    if s.transportIsOperational then do
      modify fun s => { s with offlineMode := false }
      wait .announce
      modify startPruneTask
      pure (.flag true)
    else do
      stopTransportSafely s.activeTransportName
      modify (giveUp s.activeTransport.state (s.failedMessage notOperational))
      pure (.flag false))
  retryFailed

def retryActiveTransport : Lifecycle τ Result := do
  modify fun s => { s with bleStatus := .checking, bleErrorMessage := none }
  let s ← get
  stopTransportSafely s.activeTransportName
  tryRetry

def resetSessionState : Lifecycle τ Unit := do
  waitQuietly .handshakeTimeouts
  modify fun s => { s with tables := {} }

def stopTransports : List TransportName → Lifecycle τ Unit
  | [] => pure ()
  | name :: rest => do
    stopTransportSafely name
    stopTransports rest

def goOffline : Lifecycle τ Result := do
  modify fun s => { s with offlineMode := true }
  let s ← get
  stopTransports s.transportNames
  resetSessionState
  modify fun s => { s with isRunning := false, bleStatus := .offline, bleErrorMessage := none }
  pure .none

section
variable [CaseMapping]

/-- The transport that a text names, spaces and case aside. -/
def targetTransport (target : Str) : Option TransportName :=
  let target := Str.strip (CaseMapping.lower target)
  if target ∈ ["wifi".toList, "wi-fi".toList, "lan".toList, "ethernet".toList] then some .lan
  else if target ∈ ["ble".toList, "bluetooth".toList, "bt".toList] then some .bluetooth
  else none

def switchFailed (target : TransportName) (e : Failure) : Lifecycle τ Result := do
  let s ← get
  stopTransportSafely target
  modify (giveUp s.activeTransport.state e.text)
  pure (.switched false ("Failed starting ".toList ++ target.value ++ " transport: ".toList ++ e.text))

def trySwitch (target : TransportName) : Lifecycle τ Result := attempt
  (do
    startActiveTransport false
    let s ← get
    if !s.activeTransport.isRunning ||
        s.activeTransport.state ∈ [.unavailable, .disabled, .error, .offline, .checking] then
      raise { text := s.failedMessage (target.value ++ " transport is not operational".toList) }
    else do
      modify fun s => { s with
        bleStatus := s.activeTransport.state, bleErrorMessage := none, offlineMode := false, isRunning := true }
      wait .announce
      modify startPruneTask
      pure (.switched true ("Switched transport to ".toList ++ target.displayName ++
        ". New secure chat session created. Peer identity: ".toList ++ s.localPeerId.take 12)))
  (switchFailed target)

/-- A coordinator begins with the given transport, which is not started yet, or else with one that is chosen
by its name, where "auto" leaves the choice to the adapter. -/
def new (setup : Setup) : TransportCoordinator τ :=
  let s : TransportCoordinator τ := match setup.transport with
    | some (name, transport) =>
      { localPeerId := setup.localPeerId, injectedBleBackend := setup.injectedBleBackend,
        registered := fun other => other = name || (other = .bluetooth && setup.hasBleBackend),
        transport := Function.update (fun _ => {}) name { transport with wired := false, up := false },
        activeTransportName := name }
    | none =>
      let sel := CaseMapping.lower setup.initialTransport
      let sel := if sel ≠ "auto".toList then sel
        else if setup.bluetoothAvailable then "bluetooth".toList else "lan".toList
      { localPeerId := setup.localPeerId, injectedBleBackend := setup.injectedBleBackend,
        registered := fun _ => true, transport := fun _ => {},
        activeTransportName := if sel = "lan".toList then .lan else .bluetooth }
  s.wireTransportCallbacks s.activeTransportName

/-- A switch that has the lock. -/
def switchTo (target : TransportName) : Lifecycle τ Result := do
  let s ← get
  if target = s.activeTransportName && s.activeTransport.isRunning then
    pure (.switched true ("Already active on ".toList ++ target.value ++ " transport.".toList))
  else if target = .bluetooth && !s.registered .bluetooth then
    pure (.switched false "Bluetooth transport not available".toList)
  else do
    stopTransportSafely s.activeTransportName
    modify fun t => t.detachTransportCallbacks s.activeTransportName
    resetSessionState
    modify fun t => t.register target
    modify fun t => { t with activeTransportName := target }
    modify fun t => t.wireTransportCallbacks target
    trySwitch target

/-- A text that names no transport is refused without the lock. -/
def switchTransport (target : Str) : Lifecycle τ Result :=
  match targetTransport target with
  | some name => switchTo name
  | none => pure (.switched false
      ("Unknown transport: ".toList ++ Str.strip (CaseMapping.lower target)))

end

def detachAndStop : List TransportName → Lifecycle τ Unit
  | [] => pure ()
  | name :: rest => do
    modify fun s => s.detachTransportCallbacks name
    stopTransportSafely name
    detachAndStop rest

def beginStop (s : TransportCoordinator τ) : TransportCoordinator τ :=
  { s with isRunning := false, bleStatus := .offline, bleErrorMessage := none, stopped := true }

/-- What `stop` clears of the tables, behind the sessions' own ends. -/
def closeSessions (s : TransportCoordinator τ) : TransportCoordinator τ :=
  { s with tables := { s.tables with sessions := .empty, pendingMessages := .empty, announcedPeers := [] } }

def stop : Lifecycle τ Result := do
  modify beginStop
  let s ← get
  if s.pruning then waitQuietly .pruneTask else pure ()
  modify fun s => { s with pruning := false }
  waitQuietly .handshakeTimeouts
  modify closeSessions
  waitQuietly .backgroundTasks
  let s ← get
  detachAndStop s.transportNames
  pure .none

/-- The calls that a user or the application makes. -/
inductive Call where
  | start
  | retryActiveTransport
  | goOffline
  | switchTransport (target : Str)
  | stop
deriving DecidableEq

section
variable [CaseMapping]

def body : Call → Lifecycle τ Result
  | .start => start
  | .retryActiveTransport => retryActiveTransport
  | .goOffline => goOffline
  | .switchTransport target => switchTransport target
  | .stop => stop

/-- The calls that take the lock. -/
def Locked : Call → Prop
  | .start | .retryActiveTransport | .goOffline => True
  | .switchTransport target => targetTransport target ≠ none
  | .stop => False

instance : DecidablePred Locked
  | .start | .retryActiveTransport | .goOffline => isTrue trivial
  | .switchTransport target => inferInstanceAs (Decidable (targetTransport target ≠ none))
  | .stop => isFalse id

end

/-- What happens besides: a transport changes its state, reports an error, brings news of peers or changes
without a word; the application uses the tables or sets the error callbacks; and the prune task wakes up. -/
inductive Happening (τ : Type) where
  | stateChanged (name : TransportName) (state : TransportState)
  | error (name : TransportName) (message : Str)
  | news (name : TransportName) (tables : PeerTables τ)
  | silent (name : TransportName) (isRunning : Bool) (errorMessage : Option Str) (telemetry : Telemetry)
  | use (tables : PeerTables τ)
  | callbacks (lan ble : Bool)
  | prune

def Happens : Happening τ → TransportCoordinator τ → TransportCoordinator τ → Prop
  | .stateChanged name state, s, t =>
    let s' := s.setTransport name fun t => { t with state }
    t = if (s.transport name).wired then s'.handleTransportStateChanged state else s'
  | .error name message, s, t =>
    let s' := s.setTransport name fun t => { t with errorMessage := some message }
    t = if (s.transport name).wired then s'.handleTransportError message else s'
  | .news name tables, s, t => (s.transport name).wired = true ∧ t = { s with tables }
  | .silent name isRunning errorMessage telemetry, s, t =>
    t = s.setTransport name fun t => { t with isRunning, errorMessage, telemetry }
  | .use tables, s, t => t = { s with tables }
  | .callbacks lan ble, s, t => t = { s with hasLanErrorCallback := lan, hasBleErrorCallback := ble }
  | .prune, s, t => t = if s.isRunning then s else { s with pruning := false }

end TransportCoordinator
end Bitchat.App
