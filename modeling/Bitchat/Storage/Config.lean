import Bitchat.Storage.Contacts

/-! The configuration and the file it is stored in. A save writes the whole configuration,
and a load checks every entry again. -/
namespace Bitchat.Storage
open Str

def validDensities : List Str := ["comfortable".toList, "compact".toList]
def validAccents : List Str := ["blue".toList, "cyan".toList, "emerald".toList, "purple".toList]
def validTransports : List Str := ["bluetooth".toList, "lan".toList]

def defaultKeybindings : List (Str × Str) :=
  [("help".toList, "f1".toList), ("edit_theme".toList, "f2".toList), ("settings".toList, "f3".toList),
    ("clear_chat".toList, "ctrl+l".toList), ("quit".toList, "ctrl+q".toList),
    ("scroll_up".toList, "pageup".toList), ("scroll_down".toList, "pagedown".toList)]

/-- The dictionary with these entries; the last of those with one key counts. -/
def dictOf (entries : List (Str × Str)) : InsertionMap Str Str :=
  entries.foldl (fun m e => m.set e.1 e.2) .empty

structure AppConfig where
  nickname : Str := "Anonymous".toList
  debug : Bool := false
  density : Str := "comfortable".toList
  showTimestamps : Bool := true
  accent : Str := "blue".toList
  transport : Str := "bluetooth".toList
  maxHops : Int := 3
  interFragmentDelayMs : Int := 20
  keybindings : InsertionMap Str Str := dictOf defaultKeybindings
  contacts : Contacts := .empty

/-- A value under `contacts` in the file. -/
inductive StoredContact where
  | text (fingerprint : Str)
  | record (fingerprint : Option Str)
  | other

/-- The dictionary in the file. An entry is `none` where it is missing or not to be converted
to its type. -/
structure StoredConfig where
  nickname : Option Str
  debug : Option Bool
  density : Option Str
  showTimestamps : Option Bool
  accent : Option Str
  transport : Option Str
  maxHops : Option Int
  interFragmentDelayMs : Option Int
  keybindings : Option (InsertionMap Str Str)
  contacts : List (Str × StoredContact)

def StoredContact.fingerprint : StoredContact → Option Str
  | .text fingerprint => some fingerprint
  | .record fingerprint => fingerprint
  | .other => none

/-- Both texts of a contact are there. -/
def named (peer fingerprint : Str) : Bool := peer ≠ [] ∧ fingerprint ≠ []

section
variable [CaseMapping]

/-- A key is given to one action: where two want it, the later falls back to its default. -/
def normalizeKeybindings (keybindings : InsertionMap Str Str) : InsertionMap Str Str :=
  let choose (taken : List (Str × Str)) (action default : Str) : Str :=
    match keybindings.get? action with
    | none => default
    | some raw =>
      if strip raw = [] ∨ Contacts.cleaned raw ∈ taken.map Prod.snd then default
      else Contacts.cleaned raw
  dictOf (defaultKeybindings.foldl (fun taken e => taken ++ [(e.1, choose taken e.1 e.2)]) [])

/-- Each entry in its cleaned form; the last of those with one key counts. -/
def Contacts.ofEntries (entries : List (Str × Str)) : Contacts :=
  entries.foldl (fun m e => m.set (cleaned e.1) (cleaned e.2)) .empty

/-- Contacts in their cleaned form, without those of no text. -/
def Contacts.normalize (contacts : Contacts) : Contacts :=
  ofEntries (contacts.entries.filter fun e => strip e.1 ≠ [] ∧ strip e.2 ≠ [])

namespace AppConfig

/-- A value of a list, or a default. -/
def oneOf (valid : List Str) (default value : Str) : Str := if value ∈ valid then value else default

def clamp (low high value : Int) : Int := max low (min high value)

/-- `__post_init__`. -/
def validated (config : AppConfig) : AppConfig :=
  { config with
    nickname := if strip config.nickname = [] then "Anonymous".toList else (strip config.nickname).take 32
    density := oneOf validDensities "comfortable".toList config.density
    accent := oneOf validAccents "blue".toList config.accent
    transport := oneOf validTransports "bluetooth".toList config.transport
    maxHops := clamp 1 7 config.maxHops
    interFragmentDelayMs := clamp 5 500 config.interFragmentDelayMs
    keybindings := normalizeKeybindings config.keybindings
    contacts := config.contacts.normalize }

/-- The contacts of the file that have a fingerprint. -/
def readContacts (stored : List (Str × StoredContact)) : Contacts :=
  .ofEntries ((stored.filterMap fun e => e.2.fingerprint.map (e.1, ·)).filter fun e => named e.1 e.2)

def fromDict (data : StoredConfig) : AppConfig :=
  let lowered (valid : List Str) (default : Str) (value : Option Str) : Str :=
    oneOf valid default ((value.map CaseMapping.lower).getD default)
  validated
    { nickname := match data.nickname with
        | none => "Anonymous".toList
        | some nickname => if strip nickname = [] then "Anonymous".toList else (strip nickname).take 32
      debug := data.debug.getD false
      density := lowered validDensities "comfortable".toList data.density
      showTimestamps := data.showTimestamps.getD true
      accent := lowered validAccents "blue".toList data.accent
      transport := lowered validTransports "bluetooth".toList data.transport
      maxHops := clamp 1 7 (data.maxHops.getD 3)
      interFragmentDelayMs := clamp 5 500 (data.interFragmentDelayMs.getD 20)
      keybindings := (data.keybindings.map normalizeKeybindings).getD (dictOf defaultKeybindings)
      contacts := readContacts data.contacts }

omit [CaseMapping] in
def toDict (config : AppConfig) : StoredConfig :=
  { nickname := some config.nickname
    debug := some config.debug
    density := some config.density
    showTimestamps := some config.showTimestamps
    accent := some config.accent
    transport := some config.transport
    maxHops := some config.maxHops
    interFragmentDelayMs := some config.interFragmentDelayMs
    keybindings := some config.keybindings
    contacts := config.contacts.entries.map fun e => (e.1, .text e.2) }

def verifyContact (peerId fingerprint : Str) (config : AppConfig) : Bool × AppConfig :=
  let (verified, contacts) := config.contacts.verifyContact peerId fingerprint
  (verified, { config with contacts })

def addContact (peerId fingerprint : Str) (config : AppConfig) : AppConfig :=
  { config with contacts := config.contacts.set (Contacts.cleaned peerId) (Contacts.cleaned fingerprint) }

def removeContact (peerId : Str) (config : AppConfig) : AppConfig :=
  { config with contacts := config.contacts.erase (Contacts.cleaned peerId) }

end AppConfig

inductive ConfigFile where
  | missing
  | notJson (reason : String)
  | notDict
  | written (data : StoredConfig)

structure FileConfigStorage where
  configPath : String
  file : ConfigFile
  isClosed : Bool := false

structure ConfigurationError where
  message : String
deriving DecidableEq

namespace FileConfigStorage

/-- `failure` is the text of an `OSError` that reading the file raises. -/
def loadConfig (failure : Option String) (storage : FileConfigStorage) :
    Except ConfigurationError AppConfig :=
  let path := storage.configPath
  if storage.isClosed then .error ⟨"Cannot load configuration from closed storage."⟩
  else match storage.file, failure with
    | .missing, _ => .ok {}
    | _, some reason | .notJson reason, none =>
      .error ⟨s!"Failed to read configuration from {path}: {reason}"⟩
    | .notDict, none => .error ⟨s!"Invalid configuration file format: {path}"⟩
    | .written data, none => .ok (AppConfig.fromDict data)

omit [CaseMapping] in
/-- The file is replaced as a whole or not at all. -/
def saveConfig (failure : Option String) (config : AppConfig) (storage : FileConfigStorage) :
    Except ConfigurationError FileConfigStorage :=
  let path := storage.configPath
  if storage.isClosed then .error ⟨"Cannot save configuration to closed storage."⟩
  else match failure with
    | some reason => .error ⟨s!"Failed to write configuration to {path}: {reason}"⟩
    | none => .ok { storage with file := .written config.toDict }

omit [CaseMapping] in
/-- The storage after a save of which an error is only logged. -/
def saved (failure : Option String) (config : AppConfig) (storage : FileConfigStorage) :
    FileConfigStorage :=
  match storage.saveConfig failure config with
  | .ok storage => storage
  | .error _ => storage

/-- The contacts of the stored configuration. -/
def stored (storage : FileConfigStorage) : Contacts :=
  match storage.file with
  | .written data => (AppConfig.fromDict data).contacts
  | _ => .empty

end FileConfigStorage
end

/-- What is used of lower-casing: cleaning twice does no more than once, and no text vanishes. -/
class LawfulCase [CaseMapping] : Prop where
  cleaned_cleaned : ∀ text, Contacts.cleaned (Contacts.cleaned text) = Contacts.cleaned text
  lower_eq_nil : ∀ text, CaseMapping.lower text = [] ↔ text = []

theorem asciiCase_lawful : @LawfulCase asciiCase := by
  let _ : CaseMapping := asciiCase
  constructor
  · intro text
    have lower (s : Str) : (CaseMapping.lower s : Str) = s.map Char.toLower := rfl
    unfold Contacts.cleaned
    rw [lower, lower, strip_map fun c => (toLower_cases c).2, strip_strip, List.map_map]
    apply List.map_congr_left
    exact fun c _ => (toLower_cases c).1
  · exact fun text => List.map_eq_nil_iff

section Cleaned
variable [CaseMapping] [UnicodeLower]

theorem strip_cleaned (text : Str) : strip (Contacts.cleaned text) = Contacts.cleaned text := by
  rw [Contacts.cleaned, UnicodeLower.strip_lower, strip_strip]

theorem lower_cleaned (text : Str) : CaseMapping.lower (Contacts.cleaned text) = Contacts.cleaned text :=
  UnicodeLower.lower_lower _

instance : LawfulCase where
  cleaned_cleaned text := by
    conv_lhs => rw [Contacts.cleaned, strip_cleaned, lower_cleaned]
  lower_eq_nil := UnicodeLower.lower_eq_nil

end Cleaned

section Facts
variable [CaseMapping]

/-- Every contact is in its cleaned form. -/
def Contacts.Cleaned (contacts : Contacts) : Prop :=
  ∀ peer fingerprint, contacts.get? peer = some fingerprint →
    cleaned peer = peer ∧ cleaned fingerprint = fingerprint

variable [LawfulCase] {contacts : Contacts} {config : AppConfig}

theorem cleaned_eq_nil (text : Str) : Contacts.cleaned text = [] ↔ strip text = [] :=
  LawfulCase.lower_eq_nil (strip text)

/-- What a load returns are cleaned contacts with both their texts. -/
theorem normalize_found {peer fingerprint : Str}
    (found : contacts.normalize.get? peer = some fingerprint) :
    Contacts.cleaned peer = peer ∧ Contacts.cleaned fingerprint = fingerprint ∧ named peer fingerprint := by
  let P (peer fingerprint : Str) : Prop := Contacts.cleaned peer = peer ∧
    Contacts.cleaned fingerprint = fingerprint ∧ named peer fingerprint
  have assigned : ∀ e ∈ contacts.entries.filter (fun e => strip e.1 ≠ [] ∧ strip e.2 ≠ []),
      P (Contacts.cleaned e.1) (Contacts.cleaned e.2) := by
    intro e member
    have visible := (List.mem_filter.mp member).2
    refine ⟨LawfulCase.cleaned_cleaned _, LawfulCase.cleaned_cleaned _, ?_⟩
    simpa [named, cleaned_eq_nil] using visible
  exact InsertionMap.forall_foldl_set (f := fun e : Str × Str => (Contacts.cleaned e.1,
    Contacts.cleaned e.2)) .empty assigned (by rintro _ _ ⟨⟩) peer fingerprint found

omit [LawfulCase] in
theorem ofEntries_entries {entries : List (Str × Str)} (distinct : (entries.map Prod.fst).Nodup)
    (fixed : ∀ e ∈ entries, Contacts.cleaned e.1 = e.1 ∧ Contacts.cleaned e.2 = e.2) :
    (Contacts.ofEntries entries).entries = entries := by
  apply InsertionMap.foldl_set_entries (f := fun e : Str × Str => (Contacts.cleaned e.1,
    Contacts.cleaned e.2)) .empty
  · intro e member
    exact Prod.ext (fixed e member).1 (fixed e member).2
  · exact distinct

omit [LawfulCase] in
/-- Reading back what was written keeps the contacts that have both texts. -/
theorem readContacts_written (cleaned : contacts.Cleaned) :
    AppConfig.readContacts (contacts.entries.map fun e => (e.1, .text e.2)) =
      contacts.filter fun e => named e.1 e.2 := by
  have texts : (contacts.entries.map fun e => (e.1, StoredContact.text e.2)).filterMap
      (fun e => e.2.fingerprint.map (e.1, ·)) = contacts.entries := by
    simp [List.filterMap_map, StoredContact.fingerprint]
  apply InsertionMap.ext
  rw [AppConfig.readContacts, texts]
  apply ofEntries_entries
  · exact contacts.nodup.sublist (List.filter_sublist.map _)
  · intro e member
    exact cleaned e.1 e.2 (InsertionMap.get?_eq_some_of_mem (List.mem_filter.mp member).1)

theorem normalize_filter (cleaned : contacts.Cleaned) :
    Contacts.normalize (contacts.filter fun e => named e.1 e.2) =
      contacts.filter fun e => named e.1 e.2 := by
  have kept : ∀ e ∈ (contacts.filter fun e => named e.1 e.2).entries,
      (Contacts.cleaned e.1 = e.1 ∧ Contacts.cleaned e.2 = e.2) ∧ strip e.1 ≠ [] ∧ strip e.2 ≠ [] := by
    intro e member
    obtain ⟨entry, both⟩ := List.mem_filter.mp member
    have fixed := cleaned e.1 e.2 (InsertionMap.get?_eq_some_of_mem entry)
    refine ⟨fixed, ?_⟩
    rw [← fixed.1, ← fixed.2] at both
    simpa [named, cleaned_eq_nil] using both
  apply InsertionMap.ext
  rw [Contacts.normalize, List.filter_eq_self.mpr fun e member => by simpa using (kept e member).2]
  exact ofEntries_entries (InsertionMap.nodup _) fun e member => (kept e member).1

/-- A save and a load keep the cleaned contacts that have both texts. -/
theorem fromDict_toDict (cleaned : config.contacts.Cleaned) :
    (AppConfig.fromDict config.toDict).contacts = config.contacts.filter fun e => named e.1 e.2 := by
  have read := readContacts_written cleaned
  exact (congrArg Contacts.normalize read).trans (normalize_filter cleaned)

omit [LawfulCase] in
theorem Contacts.Cleaned.set {peer fingerprint : Str} (before : contacts.Cleaned)
    (key : cleaned peer = peer) (value : cleaned fingerprint = fingerprint) :
    Contacts.Cleaned (InsertionMap.set contacts peer fingerprint) := by
  intro other known found
  rw [InsertionMap.get?_set] at found
  split at found
  · next same =>
    cases found
    exact ⟨same ▸ key, value⟩
  · exact before other known found

theorem Contacts.Cleaned.add (before : config.contacts.Cleaned) (peerId fingerprint : Str) :
    (config.addContact peerId fingerprint).contacts.Cleaned :=
  before.set (LawfulCase.cleaned_cleaned _) (LawfulCase.cleaned_cleaned _)

omit [LawfulCase] in
theorem Contacts.Cleaned.remove (before : config.contacts.Cleaned) (peerId : Str) :
    (config.removeContact peerId).contacts.Cleaned := by
  intro other known found
  rw [AppConfig.removeContact, InsertionMap.get?_erase] at found
  split at found
  · cases found
  · exact before other known found

omit [LawfulCase] in
theorem Contacts.verifyContact_cases (contacts : Contacts) (peerId fingerprint : Str) :
    (contacts.verifyContact peerId fingerprint).2 = contacts ∨
    (InsertionMap.get? contacts (cleaned peerId) = none ∧ (contacts.verifyContact peerId fingerprint).2 =
      InsertionMap.set contacts (cleaned peerId) (cleaned fingerprint)) := by
  unfold verifyContact
  split
  · exact .inl rfl
  · split
    · next unknown => exact .inr ⟨unknown, rfl⟩
    · exact .inl rfl

/-- Trust on first use changes no contact that is there. -/
theorem AppConfig.verifyContact_keeps (before : config.contacts.Cleaned) (peerId fingerprint : Str) :
    (config.verifyContact peerId fingerprint).2.contacts.Cleaned ∧
      ∀ key value, config.contacts.get? key = some value →
        (config.verifyContact peerId fingerprint).2.contacts.get? key = some value := by
  have pinned : (config.verifyContact peerId fingerprint).2.contacts =
      (config.contacts.verifyContact peerId fingerprint).2 := rfl
  rw [pinned]
  rcases config.contacts.verifyContact_cases peerId fingerprint with same | ⟨unknown, added⟩
  · rw [same]
    exact ⟨before, fun _ _ => id⟩
  · rw [added]
    refine ⟨before.add peerId fingerprint, fun key value known => ?_⟩
    have other : key ≠ Contacts.cleaned peerId := by
      rintro rfl
      cases unknown.symm.trans known
    simpa [other] using known

namespace FileConfigStorage
variable {storage : FileConfigStorage} {failure : Option String}

theorem stored_found {peer fingerprint : Str} (found : storage.stored.get? peer = some fingerprint) :
    Contacts.cleaned peer = peer ∧ Contacts.cleaned fingerprint = fingerprint ∧
      named peer fingerprint := by
  unfold stored at found
  split at found
  · exact normalize_found found
  · cases found

theorem stored_cleaned : storage.stored.Cleaned := by
  intro peer fingerprint found
  obtain ⟨key, value, _⟩ := stored_found found
  exact ⟨key, value⟩

omit [LawfulCase] in
theorem loadConfig_contacts (loaded : storage.loadConfig failure = .ok config) :
    config.contacts = storage.stored := by
  unfold loadConfig at loaded
  unfold stored
  split at loaded
  · cases loaded
  · cases kind : storage.file <;> cases failure <;> simp only [kind] at loaded <;> cases loaded <;> rfl

omit [LawfulCase] in
theorem loadConfig_open (loaded : storage.loadConfig failure = .ok config) :
    storage.isClosed = false := by
  unfold loadConfig at loaded
  split at loaded
  · cases loaded
  · next opened => simpa using opened

/-- A save reaches the file unless it raises. -/
theorem saved_stored (cleaned : config.contacts.Cleaned) : (storage.saved failure config).stored =
    if failure = none ∧ storage.isClosed = false then config.contacts.filter fun e => named e.1 e.2
    else storage.stored := by
  unfold saved saveConfig
  cases closed : storage.isClosed with
  | true => simp
  | false =>
    cases failure with
    | some reason => simp
    | none => simpa [stored] using fromDict_toDict cleaned

/-- A save keeps a contact that the saved configuration has. -/
theorem saved_keeps {peer fingerprint : Str} (cleaned : config.contacts.Cleaned)
    (found : storage.stored.get? peer = some fingerprint)
    (known : config.contacts.get? peer = some fingerprint) :
    (storage.saved failure config).stored.get? peer = some fingerprint := by
  rw [saved_stored cleaned]
  split
  · rw [InsertionMap.get?_filter, known, Option.filter_some, if_pos (stored_found found).2.2]
  · exact found

end FileConfigStorage
end Facts
end Bitchat.Storage
