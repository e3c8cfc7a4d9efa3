import Bitchat.App.SessionCoordinator
import Bitchat.Data.Run
import Bitchat.Storage.Config

/-! Who writes the configuration. The coordinator loads it, pins a contact and saves it; the
interface saves its own object, which it loaded when it was started. -/
namespace Bitchat.App
open Storage Str

/-- The texts of the `OSError`s that a load and a save of the file raise. -/
structure Failures where
  load : Option String := none
  save : Option String := none

/-- The configuration that the interface holds, and the storage it shares with the coordinator. -/
structure BitChatApp where
  storage : FileConfigStorage
  config : AppConfig

section
variable [CaseMapping]

/-- What the coordinator does with the storage when a handshake is over: whether the peer is
let in, and the storage afterwards. An error is only logged. -/
def pinContact (failures : Failures) (peer fingerprint : Str) (storage : FileConfigStorage) :
    Bool × FileConfigStorage :=
  if fingerprint = [] then (true, storage)
  else match storage.loadConfig failures.load with
    | .error _ => (true, storage)
    | .ok config =>
      let (verified, config) := config.verifyContact peer fingerprint
      (verified, if verified then storage.saved failures.save config else storage)

inductive ContactEdit where
  | add (peerId fingerprint : Str)
  | remove (peerId : Str)

def ContactEdit.apply : ContactEdit → AppConfig → AppConfig
  | .add peerId fingerprint => AppConfig.addContact peerId fingerprint
  | .remove peerId => AppConfig.removeContact peerId

/-- The contact that is edited. -/
def ContactEdit.key : ContactEdit → Str
  | .add peerId _ | .remove peerId => Contacts.cleaned peerId

/-- Load the configuration, edit a contact and save it. -/
def editContact (failures : Failures) (edit : ContactEdit) (storage : FileConfigStorage) :
    FileConfigStorage :=
  match storage.loadConfig failures.load with
  | .error _ => storage
  | .ok config => storage.saved failures.save (edit.apply config)

namespace BitChatApp

/-- Start-up: a configuration that is not to be loaded is replaced by the defaults. -/
def launch (failures : Failures) (storage : FileConfigStorage) : BitChatApp :=
  { storage
    config := match storage.loadConfig failures.load with
      | .ok config => config
      | .error _ => {} }

omit [CaseMapping] in
/-- Change the configuration of the interface and save it. -/
def persist (failures : Failures) (config : AppConfig) (app : BitChatApp) : BitChatApp :=
  { storage := app.storage.saved failures.save config, config }

omit [CaseMapping] in
def onSettingsSaved (failures : Failures) (nickname : Str) (maxHops interFragmentDelayMs : Int)
    (keybindings : InsertionMap Str Str) (app : BitChatApp) : BitChatApp :=
  app.persist failures { app.config with nickname, maxHops, interFragmentDelayMs, keybindings }

omit [CaseMapping] in
def onThemeApplied (failures : Failures) (density : Str) (showTimestamps : Bool) (accent : Str)
    (app : BitChatApp) : BitChatApp :=
  app.persist failures { app.config with density, showTimestamps, accent }

omit [CaseMapping] in
/-- The `/name` command. -/
def onName (failures : Failures) (nickname : Str) (app : BitChatApp) : BitChatApp :=
  app.persist failures { app.config with nickname }

omit [CaseMapping] in
def handleTransportSwitch (failures : Failures) (target : Str) (app : BitChatApp) : BitChatApp :=
  app.persist failures { app.config with transport := target }

end BitChatApp

/-- What happens to the configuration. -/
inductive ConfigEvent where
  | settings (failures : Failures) (nickname : Str) (maxHops interFragmentDelayMs : Int)
      (keybindings : InsertionMap Str Str)
  | theme (failures : Failures) (density : Str) (showTimestamps : Bool) (accent : Str)
  | name (failures : Failures) (nickname : Str)
  | transport (failures : Failures) (target : Str)
  | established (failures : Failures) (peer fingerprint : Str)
  | edited (failures : Failures) (edit : ContactEdit)
  | closed
  | relaunched (failures : Failures)

/-- The saves of the interface. -/
def ConfigEvent.saves : ConfigEvent → Option Failures
  | .settings failures .. | .theme failures .. | .name failures .. | .transport failures .. => some failures
  | _ => none

namespace BitChatApp

def perform (event : ConfigEvent) (app : BitChatApp) : BitChatApp :=
  match event with
  | .settings failures nickname maxHops delay keybindings =>
    app.onSettingsSaved failures nickname maxHops delay keybindings
  | .theme failures density showTimestamps accent => app.onThemeApplied failures density showTimestamps accent
  | .name failures nickname => app.onName failures nickname
  | .transport failures target => app.handleTransportSwitch failures target
  | .established failures peer fingerprint =>
    { app with storage := (pinContact failures peer fingerprint app.storage).2 }
  | .edited failures edit => { app with storage := editContact failures edit app.storage }
  | .closed => { app with storage := { app.storage with isClosed := true } }
  | .relaunched failures => launch failures { app.storage with isClosed := false }

def Step (app : BitChatApp) (event : ConfigEvent) (next : BitChatApp) : Prop := next = perform event app

/-- The contacts that are pinned in the stored configuration. -/
def pins (app : BitChatApp) : Contacts := app.storage.stored

/-- Every pin is still there, but for those that were edited. -/
def KeepsPins (app : BitChatApp) (event : ConfigEvent) (next : BitChatApp) : Prop :=
  ∀ peer fingerprint, app.pins.get? peer = some fingerprint →
    (∀ failures edit, event = .edited failures edit → edit.key ≠ peer) →
    next.pins.get? peer = some fingerprint

/-- A save of the interface reaches the file while its own configuration misses a pin. -/
def Overwrites (app : BitChatApp) (event : ConfigEvent) : Prop :=
  ∃ failures, event.saves = some failures ∧ failures.save = none ∧ app.storage.isClosed = false ∧
    ∃ peer fingerprint, app.pins.get? peer = some fingerprint ∧
      app.config.contacts.get? peer ≠ some fingerprint

section Facts
variable [LawfulCase] {app next : BitChatApp} {storage : FileConfigStorage} {failures : Failures}
  {peer fingerprint key value : Str}

/-- A load finds the contacts of the file, and finds them cleaned. -/
theorem loaded_keeps {config : AppConfig} {failure : Option String}
    (loaded : storage.loadConfig failure = .ok config)
    (found : storage.stored.get? key = some value) :
    config.contacts.Cleaned ∧ config.contacts.get? key = some value := by
  rw [FileConfigStorage.loadConfig_contacts loaded]
  exact ⟨FileConfigStorage.stored_cleaned, found⟩

/-- The coordinator keeps every pin. -/
theorem pinContact_keeps (found : storage.stored.get? key = some value) :
    (pinContact failures peer fingerprint storage).2.stored.get? key = some value := by
  unfold pinContact
  split
  · exact found
  · cases loaded : storage.loadConfig failures.load with
    | error e => exact found
    | ok config =>
      obtain ⟨before, known⟩ := loaded_keeps loaded found
      obtain ⟨cleaned, kept⟩ := AppConfig.verifyContact_keeps before peer fingerprint
      dsimp only
      split
      · exact FileConfigStorage.saved_keeps cleaned found (kept key value known)
      · exact found

/-- A contact that is pinned with both texts has them in the file. -/
theorem verifyContact_named (visible : strip peer ≠ [] ∧ strip fingerprint ≠ []) :
    ((storage.stored.verifyContact peer fingerprint).2.filter fun e => named e.1 e.2) =
      (storage.stored.verifyContact peer fingerprint).2 := by
  apply InsertionMap.ext
  apply List.filter_eq_self.mpr
  intro e member
  have found := InsertionMap.get?_eq_some_of_mem member
  rcases storage.stored.verifyContact_cases peer fingerprint with same | ⟨_, added⟩
  · rw [same] at found
    exact (FileConfigStorage.stored_found found).2.2
  · rw [added, InsertionMap.get?_set] at found
    split at found
    · next key =>
      rw [key, ← Option.some.inj found]
      simpa [named, cleaned_eq_nil] using visible
    · exact (FileConfigStorage.stored_found found).2.2

/-- What the session coordinator does with its contacts is what happens to those in the file. -/
theorem pinContact_verifies {w : Surroundings} (visible : strip peer ≠ [] ∧ strip fingerprint ≠ [])
    (loads : w.loadRaises = false ↔ ∃ config, storage.loadConfig failures.load = .ok config)
    (saves : w.saveRaises = false ↔ failures.save = none) :
    SessionCoordinator.verifyPeer w peer fingerprint (some storage.stored) =
      ((pinContact failures peer fingerprint storage).1,
        some (pinContact failures peer fingerprint storage).2.stored) := by
  unfold SessionCoordinator.verifyPeer pinContact
  by_cases empty : fingerprint = []
  · simp [empty]
  rw [if_neg empty]
  cases loaded : storage.loadConfig failures.load with
  | error e =>
    have raises : w.loadRaises = true := by
      by_contra other
      obtain ⟨config, found⟩ := loads.mp (by simpa using other)
      cases loaded.symm.trans found
    simp [raises]
  | ok config =>
    have quiet : w.loadRaises = false := loads.mpr ⟨config, loaded⟩
    have same := FileConfigStorage.loadConfig_contacts loaded
    have before : config.contacts.Cleaned := same ▸ FileConfigStorage.stored_cleaned
    obtain ⟨cleaned, -⟩ := AppConfig.verifyContact_keeps before peer fingerprint
    have pinned : (config.verifyContact peer fingerprint).2.contacts =
        (storage.stored.verifyContact peer fingerprint).2 := by rw [← same]; rfl
    have verdict : (config.verifyContact peer fingerprint).1 =
        (storage.stored.verifyContact peer fingerprint).1 := by rw [← same]; rfl
    have opened : storage.isClosed = false := FileConfigStorage.loadConfig_open loaded
    have after : (storage.saved failures.save (config.verifyContact peer fingerprint).2).stored = _ :=
      FileConfigStorage.saved_stored cleaned
    rw [pinned, verifyContact_named visible] at after
    cases accepted : (storage.stored.verifyContact peer fingerprint).1 with
    | false => simp [quiet, empty, verdict, accepted]
    | true =>
      cases raises : w.saveRaises with
      | false =>
        rw [if_pos ⟨saves.mp raises, opened⟩] at after
        simp [quiet, empty, verdict, accepted, after]
      | true =>
        have failed : failures.save ≠ none := fun none => by simp [saves.mpr none] at raises
        simp [quiet, empty, verdict, accepted, after, failed]

/-- An edit keeps every pin but the one that is edited. -/
theorem editContact_keeps {edit : ContactEdit} (found : storage.stored.get? key = some value)
    (other : edit.key ≠ key) : (editContact failures edit storage).stored.get? key = some value := by
  unfold editContact
  cases loaded : storage.loadConfig failures.load with
  | error e => exact found
  | ok config =>
    obtain ⟨before, known⟩ := loaded_keeps loaded found
    cases edit with
    | add peerId fingerprint =>
      have different : key ≠ Contacts.cleaned peerId := fun same => other same.symm
      apply FileConfigStorage.saved_keeps (before.add peerId fingerprint) found
      simpa [ContactEdit.apply, AppConfig.addContact, different] using known
    | remove peerId =>
      have different : key ≠ Contacts.cleaned peerId := fun same => other same.symm
      apply FileConfigStorage.saved_keeps (before.remove peerId) found
      simpa [ContactEdit.apply, AppConfig.removeContact, different] using known

/-- The contacts of the interface come from a load: they are cleaned and have both texts. -/
def Loaded (app : BitChatApp) : Prop :=
  ∀ peer fingerprint, app.config.contacts.get? peer = some fingerprint →
    Contacts.cleaned peer = peer ∧ Contacts.cleaned fingerprint = fingerprint ∧ named peer fingerprint

theorem launch_loaded : (launch failures storage).Loaded := by
  intro peer fingerprint found
  unfold launch at found
  cases loaded : storage.loadConfig failures.load with
  | error e =>
    rw [loaded] at found
    cases found
  | ok config =>
    rw [loaded] at found
    exact FileConfigStorage.stored_found ((FileConfigStorage.loadConfig_contacts loaded) ▸ found)

/-- A save of the interface replaces the pins by its own contacts. -/
theorem persist_pins {config : AppConfig} (loaded : app.Loaded)
    (same : config.contacts = app.config.contacts) : (app.persist failures config).pins =
      if failures.save = none ∧ app.storage.isClosed = false then app.config.contacts else app.pins := by
  have cleaned : config.contacts.Cleaned := by
    intro peer fingerprint found
    obtain ⟨key, value, _⟩ := loaded peer fingerprint (same ▸ found)
    exact ⟨key, value⟩
  have whole : (app.config.contacts.filter fun e => named e.1 e.2) = app.config.contacts := by
    apply InsertionMap.ext
    apply List.filter_eq_self.mpr
    intro e member
    exact (loaded e.1 e.2 (InsertionMap.get?_eq_some_of_mem member)).2.2
  have after : (app.storage.saved failures.save config).stored = _ := FileConfigStorage.saved_stored cleaned
  rw [same, whole] at after
  exact after

/-- A save keeps the pins exactly when it does not overwrite one. -/
theorem persist_keeps_iff {config : AppConfig} {event : ConfigEvent} (loaded : app.Loaded)
    (same : config.contacts = app.config.contacts) (saves : event.saves = some failures) :
    KeepsPins app event (app.persist failures config) ↔ ¬ Overwrites app event := by
  have unedited : ∀ peer, ∀ failures edit, event = .edited failures edit → edit.key ≠ peer := by
    rintro _ _ _ rfl
    cases saves
  have keeps : KeepsPins app event (app.persist failures config) ↔ ∀ peer fingerprint,
      app.pins.get? peer = some fingerprint →
        (app.persist failures config).pins.get? peer = some fingerprint :=
    ⟨fun kept peer fingerprint found => kept peer fingerprint found (unedited peer),
      fun kept peer fingerprint found _ => kept peer fingerprint found⟩
  have overwrites : Overwrites app event ↔ failures.save = none ∧ app.storage.isClosed = false ∧
      ∃ peer fingerprint, app.pins.get? peer = some fingerprint ∧
        app.config.contacts.get? peer ≠ some fingerprint := by
    unfold Overwrites
    simp [saves]
  rw [keeps, overwrites, persist_pins loaded same]
  split
  · next reached =>
    simp only [reached, true_and, not_exists, not_and, not_not]
  · next missed =>
    exact iff_of_true (fun _ _ found => found) fun overwritten =>
      missed ⟨overwritten.1, overwritten.2.1⟩

theorem Loaded.step {event : ConfigEvent} (loaded : app.Loaded) (step : Step app event next) :
    next.Loaded := by
  subst step
  cases event with
  | relaunched failures => exact launch_loaded
  | _ => exact loaded

/-- A step keeps the pins exactly when it is no save that overwrites one. -/
theorem step_keeps_iff {event : ConfigEvent} (loaded : app.Loaded) (step : Step app event next) :
    KeepsPins app event next ↔ ¬ Overwrites app event := by
  subst step
  have spares (silent : event.saves = none) : ¬ Overwrites app event := by
    rintro ⟨failures, saves, _⟩
    cases silent.symm.trans saves
  cases event with
  | settings | theme | name | transport => exact persist_keeps_iff loaded rfl rfl
  | established failures peer fingerprint =>
    exact iff_of_true (fun key value found _ => pinContact_keeps found) (spares rfl)
  | edited failures edit =>
    refine iff_of_true (fun key value found other => ?_) (spares rfl)
    exact editContact_keeps found (other failures edit rfl)
  | closed => exact iff_of_true (fun key value found _ => found) (spares rfl)
  | relaunched failures => exact iff_of_true (fun key value found _ => found) (spares rfl)

/-- The pin is not edited from here on. -/
def Unedited (peer : Str) (events : List (Taken BitChatApp ConfigEvent)) : Prop :=
  ∀ e ∈ events, ∀ failures edit, e.label = .edited failures edit → edit.key ≠ peer

/-- Every run keeps its pins exactly when no save of the interface overwrites one, and then
what was stored at any time of the run is stored in the end unless it was edited since. -/
theorem pins_kept_iff {history : List (Taken BitChatApp ConfigEvent)}
    (run : Run Step (launch failures storage) history app) :
    ((∀ e ∈ history, KeepsPins e.before e.label e.after) ↔
      ∀ e ∈ history, ¬ Overwrites e.before e.label) ∧
    ((∀ e ∈ history, ¬ Overwrites e.before e.label) → ∀ earlier e later,
      history = earlier ++ e :: later → ∀ peer fingerprint,
        e.before.pins.get? peer = some fingerprint → Unedited peer (e :: later) →
        app.pins.get? peer = some fingerprint) := by
  have each : (∀ e ∈ history, KeepsPins e.before e.label e.after) ↔
      ∀ e ∈ history, ¬ Overwrites e.before e.label :=
    run.meets_iff (P := Loaded) (Q := KeepsPins) (C := fun s label => ¬ Overwrites s label) launch_loaded
      step_keeps_iff fun loaded _ step => loaded.step step
  refine ⟨each, fun spared earlier e later whole peer fingerprint found unedited => ?_⟩
  subst whole
  apply run.persists (P := fun s => s.pins.get? peer = some fingerprint) found
  intro x member stored
  have kept := each.mpr spared x (List.mem_append_right _ member)
  exact kept peer fingerprint stored (unedited x member)

end Facts
end BitChatApp
end
end Bitchat.App

namespace Bitchat.App.BitChatApp
open Storage Str
attribute [local instance] asciiCase

/-- The first start, without a file. -/
def firstStart : BitChatApp := launch {} ⟨"config.json", .missing, false⟩

theorem run_events (events : List ConfigEvent) : Run Step firstStart
    (Run.trace perform firstStart events) (events.foldl (fun app event => perform event app) firstStart) :=
  Run.of_trace perform fun _ _ _ => rfl

/-- A save of the theme loses the pin, and another key is trusted in its place. -/
theorem theme_loses_pin : ∃ history app next, Run Step firstStart history app ∧
    app.pins.get? ['a', '1'] = some ['b', '2'] ∧
    next = perform (.theme {} "compact".toList true "cyan".toList) app ∧
    next.pins.get? ['a', '1'] = none ∧
    (pinContact {} ['a', '1'] ['c', '3'] app.storage).1 = false ∧
    (pinContact {} ['a', '1'] ['c', '3'] next.storage).1 = true := by
  refine ⟨_, _, _, run_events [.established {} ['a', '1'] ['b', '2']], ?_, rfl, ?_, ?_, ?_⟩ <;> decide +kernel

/-- A save before the first handshake is harmless. -/
theorem theme_then_pin : ∃ history app, Run Step firstStart history app ∧
    (∀ e ∈ history, KeepsPins e.before e.label e.after) ∧ app.pins.get? ['a', '1'] = some ['b', '2'] := by
  have : LawfulCase := asciiCase_lawful
  have run := run_events [.theme {} "compact".toList true "cyan".toList, .established {} ['a', '1'] ['b', '2']]
  refine ⟨_, _, run, (pins_kept_iff run).1.mpr ?_, by decide +kernel⟩
  intro e member
  have empty : firstStart.pins = .empty := rfl
  simp only [Run.trace, List.mem_cons, List.not_mem_nil, or_false] at member
  rcases member with rfl | rfl
  · rintro ⟨_, _, _, _, peer, fingerprint, found, _⟩
    rw [empty] at found
    cases found
  · rintro ⟨_, saves, _⟩
    cases saves

end Bitchat.App.BitChatApp
