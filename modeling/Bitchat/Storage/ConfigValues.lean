import Bitchat.Data.Json
import Bitchat.Storage.Keybindings

/-! The configuration made from values of any type: by the constructor from its arguments, and
from the dictionary that a file holds. -/
namespace Bitchat.Storage
open Str Python DefaultedChoice

/-- A dictionary of texts as a value. -/
def textDict (texts : InsertionMap Str Str) : Value := .dict (texts.entries.map fun e => (.text e.1, .str e.2))

/-- The fingerprint in a value under `contacts`. -/
def storedContact : Value → StoredContact
  | .str fingerprint => .text fingerprint
  | .dict record => .record ((lookup record "fingerprint".toList).bind Value.text?)
  | _ => .other

/-- An entry of two texts. -/
def textEntry : Key × Value → Option (Str × Str)
  | (.text name, .str text) => some (name, text)
  | _ => none

/-- The texts under the known actions, blank where there is none. -/
def knownTexts (entries : List (Key × Value)) : InsertionMap Str Str :=
  dictOf (defaultKeybindings.map fun e => (e.1, (get entries e.1).text?.getD []))

/-- A contact of the file that has both texts. -/
def readContact (e : Key × Value) : Option (Str × Str) :=
  (storedContact e.2).fingerprint.bind fun fingerprint =>
    if e.1.truth ∧ fingerprint ≠ [] then some (e.1.shown, fingerprint) else none

section
variable [CaseMapping]

def parseBool (val : Value) (default : Bool) : Bool :=
  match val with
  | .bool truth => truth
  | .str text =>
    let v := CaseMapping.lower (strip text)
    if v ∈ ["true".toList, "1".toList, "yes".toList, "on".toList] then true
    else if v ∈ ["false".toList, "0".toList, "no".toList, "off".toList] then false
    else default
  | _ => default

omit [CaseMapping] in
/-- A value of a set, or a default; the test for membership raises where the value has no hash. -/
def chosen (valid : List Str) (default : Str) (value : Value) : Except Error Str :=
  if value.hashable then
    match value with
    | .str text => .ok (AppConfig.oneOf valid default text)
    | _ => .ok default
  else .error .typeError

omit [CaseMapping] in
def cutNickname (value : Value) : Str :=
  match value with
  | .str text => if strip text = [] then "Anonymous".toList else (strip text).take 32
  | _ => "Anonymous".toList

/-- The entries of two texts, neither of them blank, in their cleaned form. -/
def contactsOf (value : Value) : Contacts :=
  match value with
  | .dict entries =>
    .ofEntries ((entries.filterMap textEntry).filter fun e => strip e.1 ≠ [] ∧ strip e.2 ≠ [])
  | _ => .empty

/-- A text in lower case, if it is of the set. -/
def loweredOf (valid : List Str) (default : Str) (value : Value) : Str :=
  AppConfig.oneOf valid default (match value with
    | .str text => CaseMapping.lower text
    | _ => default)

/-- The truth value that a value stands for. -/
def readBool (val : Value) : Option Bool :=
  if parseBool val true = parseBool val false then some (parseBool val true) else none

namespace AppConfig

/-- The arguments of the constructor. -/
structure Fields where
  nickname : Value := .str "Anonymous".toList
  debug : Value := .bool false
  density : Value := .str "comfortable".toList
  showTimestamps : Value := .bool true
  accent : Value := .str "blue".toList
  transport : Value := .str "bluetooth".toList
  maxHops : Value := .int 3
  interFragmentDelayMs : Value := .int 20
  keybindings : Value := textDict (dictOf defaultKeybindings)
  contacts : Value := .dict []

/-- The dictionary that is written to the file. -/
def asDict (config : AppConfig) : Value := .dict [
  (.text "nickname".toList, .str config.nickname),
  (.text "debug".toList, .bool config.debug),
  (.text "density".toList, .str config.density),
  (.text "show_timestamps".toList, .bool config.showTimestamps),
  (.text "accent".toList, .str config.accent),
  (.text "transport".toList, .str config.transport),
  (.text "max_hops".toList, .int config.maxHops),
  (.text "inter_fragment_delay_ms".toList, .int config.interFragmentDelayMs),
  (.text "keybindings".toList, textDict config.keybindings),
  (.text "contacts".toList, textDict config.contacts)]

variable [DigitTable]

omit [CaseMapping] in
/-- A number within bounds, or a default where the conversion raises one of the two errors that
are caught. -/
def bounded (low high default : Int) (value : Value) : Except Error Int :=
  match value.toInt with
  | .ok number => .ok (clamp low high number)
  | .error .valueError | .error .typeError => .ok default
  | .error error => .error error

/-- `__post_init__`. -/
def postInit (fields : Fields) : Except Error AppConfig := do
  let density ← chosen validDensities "comfortable".toList fields.density
  let accent ← chosen validAccents "blue".toList fields.accent
  let transport ← chosen validTransports "bluetooth".toList fields.transport
  let maxHops ← bounded 1 7 3 fields.maxHops
  let interFragmentDelayMs ← bounded 5 500 20 fields.interFragmentDelayMs
  return {
    nickname := cutNickname fields.nickname
    debug := parseBool fields.debug false
    density
    showTimestamps := parseBool fields.showTimestamps true
    accent
    transport
    maxHops
    interFragmentDelayMs
    keybindings := validateAndNormalizeKeybindings fields.keybindings
    contacts := contactsOf fields.contacts }

/-- `from_dict`. -/
def ofDict (data : Value) : Except Error AppConfig :=
  match data with
  | .dict entries => do
    let nickname := cutNickname (get entries "nickname".toList)
    let debug := parseBool (get entries "debug".toList) false
    let density := loweredOf validDensities "comfortable".toList (get entries "density".toList)
    let showTimestamps := parseBool (get entries "show_timestamps".toList) true
    let accent := loweredOf validAccents "blue".toList (get entries "accent".toList)
    let transport := loweredOf validTransports "bluetooth".toList (get entries "transport".toList)
    let maxHops ← bounded 1 7 3 ((lookup entries "max_hops".toList).getD (.int 3))
    let interFragmentDelayMs ← bounded 5 500 20
      ((lookup entries "inter_fragment_delay_ms".toList).getD (.int 20))
    let keybindings := validateAndNormalizeKeybindings (get entries "keybindings".toList)
    let contacts := Contacts.ofEntries ((get entries "contacts".toList).items.filterMap readContact)
    postInit {
      nickname := .str nickname
      debug := .bool debug
      density := .str density
      showTimestamps := .bool showTimestamps
      accent := .str accent
      transport := .str transport
      maxHops := .int maxHops
      interFragmentDelayMs := .int interFragmentDelayMs
      keybindings := textDict keybindings
      contacts := textDict contacts }
  | _ => postInit {}

/-- The dictionary of a file, each entry converted to its type. -/
def storedConfig (entries : List (Key × Value)) : StoredConfig where
  nickname := (get entries "nickname".toList).text?
  debug := readBool (get entries "debug".toList)
  density := (get entries "density".toList).text?
  showTimestamps := readBool (get entries "show_timestamps".toList)
  accent := (get entries "accent".toList).text?
  transport := (get entries "transport".toList).text?
  maxHops := ((lookup entries "max_hops".toList).getD (.int 3)).toInt.toOption
  interFragmentDelayMs := ((lookup entries "inter_fragment_delay_ms".toList).getD (.int 20)).toInt.toOption
  keybindings := (get entries "keybindings".toList).dict?.map knownTexts
  contacts := (get entries "contacts".toList).items.map fun e => (e.1.shown, storedContact e.2)

/-- The configuration as arguments of the constructor. -/
def fields (config : AppConfig) : Fields where
  nickname := .str config.nickname
  debug := .bool config.debug
  density := .str config.density
  showTimestamps := .bool config.showTimestamps
  accent := .str config.accent
  transport := .str config.transport
  maxHops := .int config.maxHops
  interFragmentDelayMs := .int config.interFragmentDelayMs
  keybindings := textDict config.keybindings
  contacts := textDict config.contacts

/-- The invariants of a configuration. -/
structure Valid (config : AppConfig) : Prop where
  maxHops : 1 ≤ config.maxHops ∧ config.maxHops ≤ 7
  interFragmentDelayMs : 5 ≤ config.interFragmentDelayMs ∧ config.interFragmentDelayMs ≤ 500
  density : config.density ∈ validDensities
  accent : config.accent ∈ validAccents
  transport : config.transport ∈ validTransports
  nickname : strip config.nickname = config.nickname ∧ 1 ≤ config.nickname.length ∧
    config.nickname.length ≤ 32
  contacts : ∀ peer fingerprint, config.contacts.get? peer = some fingerprint →
    Tidy peer ∧ Tidy fingerprint

end AppConfig

omit [CaseMapping] in
theorem lookup_textDict (texts : InsertionMap Str Str) (name : Str) :
    lookup (texts.entries.map fun e => (Key.text e.1, Value.str e.2)) name =
      (texts.get? name).map Value.str := by
  rw [lookup, InsertionMap.get?, List.find?_map, Option.map_map, Option.map_map]
  have same : (fun e : Key × Value => decide (e.1 = .text name)) ∘
      (fun e : Str × Str => (Key.text e.1, Value.str e.2)) = fun e => decide (e.1 = name) := by
    funext e
    simp
  rw [same]
  rfl

/-- Of a dictionary of texts the keybindings are made as of a table of texts. -/
theorem validateAndNormalizeKeybindings_textDict (keybindings : InsertionMap Str Str) :
    validateAndNormalizeKeybindings (textDict keybindings) = normalizeKeybindings keybindings := by
  have wishes : userKey (textDict keybindings) = fun action => wantedKey (keybindings.get? action) := by
    funext action
    rw [textDict, userKey, Python.get, lookup_textDict]
    cases keybindings.get? action <;> rfl
  apply InsertionMap.ext
  rw [validateAndNormalizeKeybindings_entries, normalizeKeybindings_entries, wishes]

theorem contactsOf_textDict (contacts : Contacts) : contactsOf (textDict contacts) = contacts.normalize := by
  have texts : (contacts.entries.map fun e => (Key.text e.1, Value.str e.2)).filterMap textEntry =
      contacts.entries := by
    rw [List.filterMap_map]
    exact List.filterMap_some
  rw [textDict, contactsOf, texts]
  rfl

namespace AppConfig
variable [DigitTable]

/-- Of values of their own types the constructor makes what the typed constructor makes. -/
theorem postInit_fields (config : AppConfig) : postInit config.fields = .ok config.validated := by
  have bindings := validateAndNormalizeKeybindings_textDict config.keybindings
  have known := contactsOf_textDict config.contacts
  change Except.ok { validated config with
    keybindings := validateAndNormalizeKeybindings (textDict config.keybindings)
    contacts := contactsOf (textDict config.contacts) } = _
  rw [bindings, known]
  rfl

/-- What the dictionary of a file says, with these numbers. -/
def drafted (entries : List (Key × Value)) (maxHops interFragmentDelayMs : Int) : AppConfig where
  nickname := cutNickname (get entries "nickname".toList)
  debug := parseBool (get entries "debug".toList) false
  density := loweredOf validDensities "comfortable".toList (get entries "density".toList)
  showTimestamps := parseBool (get entries "show_timestamps".toList) true
  accent := loweredOf validAccents "blue".toList (get entries "accent".toList)
  transport := loweredOf validTransports "bluetooth".toList (get entries "transport".toList)
  maxHops
  interFragmentDelayMs
  keybindings := validateAndNormalizeKeybindings (get entries "keybindings".toList)
  contacts := .ofEntries ((get entries "contacts".toList).items.filterMap readContact)

theorem ofDict_eq (entries : List (Key × Value)) : ofDict (.dict entries) =
    (bounded 1 7 3 ((lookup entries "max_hops".toList).getD (.int 3)) >>= fun maxHops =>
      bounded 5 500 20 ((lookup entries "inter_fragment_delay_ms".toList).getD (.int 20)) >>=
        fun delay => .ok (drafted entries maxHops delay).validated) := by
  have made (maxHops delay : Int) : postInit (drafted entries maxHops delay).fields =
      .ok (drafted entries maxHops delay).validated := postInit_fields _
  simp only [← made]
  rfl

omit [CaseMapping] [DigitTable] in
theorem cutNickname_text (value : Value) : cutNickname value = match value.text? with
    | none => "Anonymous".toList
    | some nickname => if strip nickname = [] then "Anonymous".toList else (strip nickname).take 32 := by
  cases value <;> rfl

omit [DigitTable] in
theorem loweredOf_text (valid : List Str) (default : Str) (value : Value) : loweredOf valid default value =
    oneOf valid default ((value.text?.map CaseMapping.lower).getD default) := by
  cases value <;> rfl

omit [DigitTable] in
theorem parseBool_eq (val : Value) (default : Bool) : parseBool val default = (readBool val).getD default := by
  unfold readBool
  cases val with
  | bool truth => simp [parseBool]
  | str text =>
    unfold parseBool
    simp only
    split
    · rfl
    · split
      · rfl
      · rfl
  | _ => rfl

omit [DigitTable] in
/-- What is no text counts as a blank one. -/
theorem validateAndNormalizeKeybindings_knownTexts (entries : List (Key × Value)) :
    validateAndNormalizeKeybindings (.dict entries) = normalizeKeybindings (knownTexts entries) := by
  have actions : (defaultKeybindings.map fun e => (e.1, (Python.get entries e.1).text?.getD [])).map
      Prod.fst = defaultKeybindings.map Prod.fst := by rw [List.map_map]; rfl
  have texts : (knownTexts entries).entries =
      defaultKeybindings.map fun e => (e.1, (Python.get entries e.1).text?.getD []) := by
    apply dictOf_entries
    rw [actions]
    exact defaultKeybindings_distinct.1
  have same : ∀ e ∈ defaultKeybindings,
      userKey (.dict entries) e.1 = wantedKey ((knownTexts entries).get? e.1) := by
    intro e member
    have found : (knownTexts entries).get? e.1 = some ((Python.get entries e.1).text?.getD []) := by
      rw [InsertionMap.get?_eq_some, texts]
      exact List.mem_map_of_mem member
    rw [found, userKey]
    cases (Python.get entries e.1).text? <;> rfl
  apply InsertionMap.ext
  rw [validateAndNormalizeKeybindings_entries, normalizeKeybindings_entries, boundKeys, boundKeys,
    assign_congr same]

omit [CaseMapping] in
theorem bounded_eq {low high default number : Int} {value : Value}
    (inside : clamp low high default = default) (made : bounded low high default value = .ok number) :
    number = clamp low high (value.toInt.toOption.getD default) := by
  unfold bounded at made
  split at made <;> cases made
  · next read => rw [read]; rfl
  · next read => rw [read]; exact inside.symm
  · next read => rw [read]; exact inside.symm

omit [DigitTable] in
theorem readContact_shown {entries : List (Key × Value)} (texts : ∀ e ∈ entries, ∃ name, e.1 = .text name) :
    Contacts.ofEntries (entries.filterMap readContact) =
      readContacts (entries.map fun e => (e.1.shown, storedContact e.2)) := by
  have each : ∀ e ∈ entries, readContact e = ((storedContact e.2).fingerprint.map (e.1.shown, ·)).filter
      fun e => named e.1 e.2 := by
    intro e member
    obtain ⟨name, text⟩ := texts e member
    rw [readContact, text]
    cases (storedContact e.2).fingerprint with
    | none => rfl
    | some fingerprint => simp [Key.truth, Key.shown, named, Option.filter]
  rw [readContacts, List.filterMap_map, List.filter_filterMap]
  congr 1
  exact List.filterMap_congr each

omit [DigitTable] in
theorem validateAndNormalizeKeybindings_stored (value : Value) : validateAndNormalizeKeybindings value =
    ((value.dict?.map knownTexts).map normalizeKeybindings).getD (dictOf defaultKeybindings) := by
  cases value with
  | dict keys =>
    simp only [Value.dict?, Option.map_some, Option.getD_some]
    exact validateAndNormalizeKeybindings_knownTexts keys
  | _ => simp only [validateAndNormalizeKeybindings, Value.dict?, Option.map_none, Option.getD_none]

/-- The dictionary of a file makes the configuration that the typed file makes. -/
theorem ofDict_stored {entries : List (Key × Value)} {config : AppConfig} (json : IsJson (.dict entries))
    (made : ofDict (.dict entries) = .ok config) : config = fromDict (storedConfig entries) := by
  rw [ofDict_eq] at made
  cases hops : bounded 1 7 3 ((lookup entries "max_hops".toList).getD (.int 3)) with
  | error _ => rw [hops] at made; cases made
  | ok maxHops =>
  cases delay : bounded 5 500 20 ((lookup entries "inter_fragment_delay_ms".toList).getD (.int 20)) with
  | error _ => rw [hops, delay] at made; cases made
  | ok interFragmentDelayMs =>
  rw [hops, delay] at made
  cases made
  refine congrArg validated (?_ : drafted entries maxHops interFragmentDelayMs = _)
  unfold drafted
  congr 1
  · exact cutNickname_text _
  · exact parseBool_eq _ _
  · exact loweredOf_text ..
  · exact parseBool_eq _ _
  · exact loweredOf_text ..
  · exact loweredOf_text ..
  · exact bounded_eq (by decide) hops
  · exact bounded_eq (by decide) delay
  · exact validateAndNormalizeKeybindings_stored _
  · exact readContact_shown (get_json json).texts

/-- The configuration that is read from the text of a file. -/
theorem ofDict_loads [Json.FloatReader] {text : Str} {entries : List (Key × Value)} {config : AppConfig}
    (read : Json.loads text = some (.dict entries)) (made : ofDict (.dict entries) = .ok config) :
    config = fromDict (storedConfig entries) :=
  ofDict_stored (Json.loads_json read) made

omit [CaseMapping] in
theorem bounded_json (low high default : Int) {value : Value} (json : IsJson value) :
    (value.isInfinite = true ∧ bounded low high default value = .error .overflowError) ∨
      (value.isInfinite = false ∧ ∃ number, bounded low high default value = .ok number) := by
  unfold bounded
  rcases Value.toInt_json json with ⟨infinite, raised⟩ | ⟨finite, ⟨number, read⟩ | raised | raised⟩
  · exact .inl ⟨infinite, by rw [raised]⟩
  · exact .inr ⟨finite, _, by rw [read]⟩
  · exact .inr ⟨finite, _, by rw [raised]⟩
  · exact .inr ⟨finite, _, by rw [raised]⟩

omit [CaseMapping] [DigitTable] in
theorem cutNickname_visible (value : Value) : strip (cutNickname value) ≠ [] := by
  have anonymous : strip "Anonymous".toList ≠ [] := by decide
  unfold cutNickname
  split
  · split
    · exact anonymous
    · next visible => exact strip_take_ne_nil visible 31
  · exact anonymous

omit [CaseMapping] [DigitTable] in
theorem cutNickname_length (value : Value) : (cutNickname value).length ≤ 32 := by
  have anonymous : "Anonymous".toList.length ≤ 32 := by decide
  unfold cutNickname
  split
  · split
    · exact anonymous
    · exact List.length_take_le ..
  · exact anonymous

omit [CaseMapping] [DigitTable] in
/-- A nickname that is cut once more loses the space at its end. -/
theorem cutNickname_again (value : Value) :
    cutNickname (.str (cutNickname value)) = strip (cutNickname value) := by
  have short := (strip_length_le _).trans (cutNickname_length value)
  exact (if_neg (cutNickname_visible value)).trans (List.take_of_length_le short)

omit [CaseMapping] [DigitTable] in
theorem oneOf_mem {valid : List Str} {default : Str} (ok : default ∈ valid) (value : Str) :
    oneOf valid default value ∈ valid := by
  unfold oneOf
  split
  · assumption
  · exact ok

section
variable [UnicodeLower]

omit [DigitTable] in
theorem contactsOf_tidy {entries : List (Str × Str)} {peer fingerprint : Str}
    (found : (Contacts.ofEntries (entries.filter fun e => strip e.1 ≠ [] ∧ strip e.2 ≠ [])).get? peer =
      some fingerprint) : Tidy peer ∧ Tidy fingerprint := by
  let P (peer fingerprint : Str) : Prop := Tidy peer ∧ Tidy fingerprint
  have assigned : ∀ e ∈ entries.filter (fun e => strip e.1 ≠ [] ∧ strip e.2 ≠ []),
      P (Contacts.cleaned e.1) (Contacts.cleaned e.2) := by
    intro e member
    have visible : strip e.1 ≠ [] ∧ strip e.2 ≠ [] := by simpa using (List.mem_filter.mp member).2
    exact ⟨tidy_cleaned visible.1, tidy_cleaned visible.2⟩
  exact InsertionMap.forall_foldl_set (f := fun e : Str × Str => (Contacts.cleaned e.1,
    Contacts.cleaned e.2)) .empty assigned (by rintro _ _ ⟨⟩) peer fingerprint found

omit [DigitTable] in
/-- All of the typed constructor's work but on a nickname that has not been cut yet. -/
theorem validated_valid {config : AppConfig} {value : Value} (cut : config.nickname = cutNickname value) :
    config.validated.Valid := by
  have nickname : config.validated.nickname = strip (cutNickname value) := by
    rw [← cutNickname_again, ← cut]
    rfl
  constructor
  · exact ⟨le_max_left .., max_le (by decide) (min_le_left ..)⟩
  · exact ⟨le_max_left .., max_le (by decide) (min_le_left ..)⟩
  · exact oneOf_mem (by decide) _
  · exact oneOf_mem (by decide) _
  · exact oneOf_mem (by decide) _
  · rw [nickname, strip_strip]
    refine ⟨rfl, List.length_pos_iff.mpr (cutNickname_visible value), ?_⟩
    exact (strip_length_le _).trans (cutNickname_length value)
  · exact fun peer fingerprint found => contactsOf_tidy found

omit [CaseMapping] [DigitTable] [UnicodeLower] in
theorem isInfinite_lookup (entries : List (Key × Value)) (name : Str) (number : Int) :
    ((lookup entries name).getD (.int number)).isInfinite = (Python.get entries name).isInfinite := by
  rw [Python.get]
  cases lookup entries name <;> rfl

/-- The dictionary of a file makes a valid configuration if and only if neither number is
infinite. -/
theorem ofDict_valid_iff {entries : List (Key × Value)} (json : IsJson (.dict entries)) :
    (∃ config, ofDict (.dict entries) = .ok config ∧ config.Valid) ↔
      (Python.get entries "max_hops".toList).isInfinite = false ∧
        (Python.get entries "inter_fragment_delay_ms".toList).isInfinite = false := by
  have value (name : Str) (number : Int) : IsJson ((lookup entries name).getD (.int number)) := by
    cases found : lookup entries name with
    | none => exact .int number
    | some value => exact lookup_json json found
  rw [← isInfinite_lookup entries _ 3, ← isInfinite_lookup entries _ 20, ofDict_eq]
  rcases bounded_json 1 7 3 (value "max_hops".toList 3) with
    ⟨infinite, raised⟩ | ⟨finite, hops, read⟩
  · rw [raised, infinite]
    simp [bind, Except.bind]
  · rcases bounded_json 5 500 20 (value "inter_fragment_delay_ms".toList 20) with
      ⟨infinite, raised⟩ | ⟨finite', delay, read'⟩
    · rw [read, raised, infinite]
      simp [bind, Except.bind]
    · rw [read, read', finite, finite']
      exact iff_of_true ⟨_, rfl, validated_valid rfl⟩ ⟨rfl, rfl⟩

end
end AppConfig
end

theorem AppConfig.named_file_valid : ∃ config, @AppConfig.ofDict asciiCase asciiDigits
    (.dict [(.text "nickname".toList, .str " Bob ".toList)]) = .ok config ∧ @AppConfig.Valid asciiCase config := by
  let _ : CaseMapping := asciiCase
  let _ : DigitTable := asciiDigits
  have _ : UnicodeLower := asciiCase_unicodeLower
  have json : IsJson (.dict [(.text "nickname".toList, .str " Bob ".toList)]) := by
    refine .dict ?_ (by decide) ?_
    · simp
    · simpa using IsJson.str " Bob ".toList
  exact (AppConfig.ofDict_valid_iff json).mpr ⟨rfl, rfl⟩

/-- A file with an infinite `max_hops`, which the parser of the file lets through. -/
theorem AppConfig.infinite_hops_raise : IsJson (.dict [(.text "max_hops".toList, .float (.infinity false))]) ∧
    ¬∃ config, @AppConfig.ofDict asciiCase asciiDigits
      (.dict [(.text "max_hops".toList, .float (.infinity false))]) = .ok config ∧
        @AppConfig.Valid asciiCase config := by
  constructor
  · refine .dict ?_ (by decide) ?_
    · simp
    · simpa using IsJson.float (.infinity false)
  · rintro ⟨config, made, _⟩
    cases made

section
variable [CaseMapping] [DigitTable] [UnicodeLower]
namespace AppConfig

/-- What the constructor leaves of its arguments. -/
structure Made (fields : Fields) (config : AppConfig) : Prop where
  nickname : config.nickname = cutNickname fields.nickname
  density : config.density ∈ validDensities
  accent : config.accent ∈ validAccents
  transport : config.transport ∈ validTransports
  maxHops : clamp 1 7 config.maxHops = config.maxHops
  interFragmentDelayMs : clamp 5 500 config.interFragmentDelayMs = config.interFragmentDelayMs
  keybindings : config.keybindings = validateAndNormalizeKeybindings fields.keybindings
  contacts : config.contacts = contactsOf fields.contacts

omit [CaseMapping] [DigitTable] [UnicodeLower] in
theorem chosen_mem {valid : List Str} {default text : Str} {value : Value} (ok : default ∈ valid)
    (made : chosen valid default value = .ok text) : text ∈ valid := by
  unfold chosen at made
  split at made
  · split at made <;> cases made
    · exact oneOf_mem ok _
    · exact ok
  · cases made

omit [CaseMapping] [UnicodeLower] in
theorem bounded_clamp {low high default number : Int} {value : Value}
    (inside : clamp low high default = default) (made : bounded low high default value = .ok number)
    (ordered : low ≤ high) : clamp low high number = number := by
  unfold bounded at made
  split at made <;> cases made
  · unfold clamp
    omega
  · exact inside
  · exact inside

omit [UnicodeLower] in
theorem postInit_made {fields : Fields} {config : AppConfig} (made : postInit fields = .ok config) :
    Made fields config := by
  unfold postInit at made
  cases density : chosen validDensities "comfortable".toList fields.density with
  | error _ => rw [density] at made; cases made
  | ok _ =>
  cases accent : chosen validAccents "blue".toList fields.accent with
  | error _ => rw [density, accent] at made; cases made
  | ok _ =>
  cases transport : chosen validTransports "bluetooth".toList fields.transport with
  | error _ => rw [density, accent, transport] at made; cases made
  | ok _ =>
  cases hops : bounded 1 7 3 fields.maxHops with
  | error _ => rw [density, accent, transport, hops] at made; cases made
  | ok _ =>
  cases delay : bounded 5 500 20 fields.interFragmentDelayMs with
  | error _ => rw [density, accent, transport, hops, delay] at made; cases made
  | ok _ =>
  rw [density, accent, transport, hops, delay] at made
  cases made
  constructor
  · rfl
  · exact chosen_mem (by decide) density
  · exact chosen_mem (by decide) accent
  · exact chosen_mem (by decide) transport
  · exact bounded_clamp (by decide) hops (by decide)
  · exact bounded_clamp (by decide) delay (by decide)
  · rfl
  · rfl

omit [DigitTable] in
theorem loweredOf_self {valid : List Str} {default text : Str} (member : text ∈ valid)
    (plain : ∀ text ∈ valid, isPlain text = true) :
    oneOf valid default (loweredOf valid default (.str text)) = text := by
  have same : loweredOf valid default (.str text) = text := by
    change oneOf valid default (CaseMapping.lower text) = text
    rw [lower_plain (plain text member)]
    exact if_pos member
  rw [same]
  exact if_pos member

omit [DigitTable] in
/-- Keys that were given are given again. -/
theorem normalizeKeybindings_again (kb : Value) :
    normalizeKeybindings (validateAndNormalizeKeybindings kb) = validateAndNormalizeKeybindings kb := by
  apply InsertionMap.ext
  rw [normalizeKeybindings_entries, validateAndNormalizeKeybindings_entries, boundKeys, boundKeys]
  congr 1
  apply assign_again
  rintro ⟨entry, key⟩ got
  have bound : (validateAndNormalizeKeybindings kb).get? entry.1 = some key :=
    get?_bound.mpr ⟨entry, rfl, got⟩
  obtain ⟨present, stripped, lower⟩ := bound_cleaned bound
  simp [bound, wantedKey, Option.filter, stripped, present, Contacts.cleaned, lower]

omit [DigitTable] [UnicodeLower] in
theorem readContact_textDict (contacts : Contacts) : Contacts.ofEntries
    ((contacts.entries.map fun e => (Key.text e.1, Value.str e.2)).filterMap readContact) =
      readContacts (contacts.entries.map fun e => (e.1, .text e.2)) := by
  have each : readContact ∘ (fun e : Str × Str => (Key.text e.1, Value.str e.2)) =
      Option.guard fun e => named e.1 e.2 := by
    funext e
    simp [readContact, storedContact, StoredContact.fingerprint, Key.truth, Key.shown, named,
      Option.guard]
  have texts : (contacts.entries.map fun e => (e.1, StoredContact.text e.2)).filterMap
      (fun e => e.2.fingerprint.map (e.1, ·)) = contacts.entries := by
    simp [List.filterMap_map, StoredContact.fingerprint]
  rw [readContacts, texts, List.filterMap_map, each, List.filterMap_eq_filter]

omit [DigitTable] in
/-- Contacts in their cleaned form are read back as they were written. -/
theorem contacts_again {contacts : Contacts} (tidy : ∀ peer fingerprint,
    contacts.get? peer = some fingerprint → Tidy peer ∧ Tidy fingerprint) :
    contactsOf (textDict (Contacts.ofEntries
      ((contacts.entries.map fun e => (Key.text e.1, Value.str e.2)).filterMap readContact))) = contacts := by
  have cleaned : contacts.Cleaned := by
    intro peer fingerprint found
    obtain ⟨⟨_, stripped, lower⟩, _, stripped', lower'⟩ := tidy peer fingerprint found
    exact ⟨by rw [Contacts.cleaned, stripped, lower], by rw [Contacts.cleaned, stripped', lower']⟩
  have all : contacts.filter (fun e => named e.1 e.2) = contacts := by
    apply InsertionMap.ext
    apply List.filter_eq_self.mpr
    intro e member
    obtain ⟨key, value⟩ := tidy e.1 e.2 (InsertionMap.get?_eq_some_of_mem member)
    simp [named, key.1, value.1]
  have normal := normalize_filter cleaned
  rw [readContact_textDict, readContacts_written cleaned, contactsOf_textDict, normal, all]

/-- What is read of a configuration that the constructor made has its nickname stripped again. -/
theorem ofDict_asDict {fields : Fields} {config : AppConfig} (made : Made fields config) :
    ofDict config.asDict = .ok { config with nickname := strip config.nickname } := by
  have read : ofDict config.asDict = .ok
      { nickname := cutNickname (.str (cutNickname (.str config.nickname)))
        debug := config.debug
        density := oneOf validDensities "comfortable".toList
          (loweredOf validDensities "comfortable".toList (.str config.density))
        showTimestamps := config.showTimestamps
        accent := oneOf validAccents "blue".toList (loweredOf validAccents "blue".toList (.str config.accent))
        transport := oneOf validTransports "bluetooth".toList
          (loweredOf validTransports "bluetooth".toList (.str config.transport))
        maxHops := clamp 1 7 (clamp 1 7 config.maxHops)
        interFragmentDelayMs := clamp 5 500 (clamp 5 500 config.interFragmentDelayMs)
        keybindings := validateAndNormalizeKeybindings
          (textDict (validateAndNormalizeKeybindings (textDict config.keybindings)))
        contacts := contactsOf (textDict (Contacts.ofEntries
          ((config.contacts.entries.map fun e => (Key.text e.1, Value.str e.2)).filterMap readContact))) } := rfl
  have nickname : cutNickname (.str (cutNickname (.str config.nickname))) = strip config.nickname := by
    rw [cutNickname_again, made.nickname, cutNickname_again, strip_strip]
  have bindings : validateAndNormalizeKeybindings
      (textDict (validateAndNormalizeKeybindings (textDict config.keybindings))) = config.keybindings := by
    rw [validateAndNormalizeKeybindings_textDict, validateAndNormalizeKeybindings_textDict,
      made.keybindings, normalizeKeybindings_again, normalizeKeybindings_again]
  have tidy (peer fingerprint : Str) (found : config.contacts.get? peer = some fingerprint) :
      Tidy peer ∧ Tidy fingerprint := by
    rw [made.contacts] at found
    unfold contactsOf at found
    split at found
    · exact contactsOf_tidy found
    · cases found
  rw [read, nickname, loweredOf_self made.density (by decide), loweredOf_self made.accent (by decide),
    loweredOf_self made.transport (by decide), made.maxHops, made.maxHops, made.interFragmentDelayMs,
    made.interFragmentDelayMs, bindings, contacts_again tidy]

theorem round_trip_iff {fields : Fields} {config : AppConfig} (made : postInit fields = .ok config) :
    ofDict config.asDict = .ok config ↔ ∀ text, fields.nickname = .str text →
      ∀ c ∈ (strip text)[31]?, isSpace c = false := by
  have parts := postInit_made made
  rw [ofDict_asDict parts, Except.ok.injEq]
  have nickname : { config with nickname := strip config.nickname } = config ↔
      strip config.nickname = config.nickname :=
    ⟨fun same => congrArg AppConfig.nickname same, fun same => by rw [same]⟩
  rw [nickname, parts.nickname]
  have anonymous : strip "Anonymous".toList = "Anonymous".toList := by decide
  cases value : fields.nickname with
  | str text =>
    rw [cutNickname]
    split
    · next blank =>
      refine iff_of_true anonymous ?_
      rintro _ ⟨⟩ c char
      simp [blank] at char
    · rw [strip_take_iff (strip_strip text)]
      simp
  | _ => exact iff_of_true anonymous (by rintro _ ⟨⟩)

end AppConfig
end

/-- A nickname to be trimmed and cut, a key, a contact and a number out of range. -/
def AppConfig.tailored : Fields where
  nickname := .str "  abcdefghijklmnopqrstuvwxyz0123456789 ".toList
  maxHops := .str " 9 ".toList
  keybindings := .dict [(.text "help".toList, .str " F9 ".toList)]
  contacts := .dict [(.text " AABB ".toList, .str "C0DE".toList)]

theorem AppConfig.tailored_round_trip : ∃ config,
    @AppConfig.postInit asciiCase asciiDigits AppConfig.tailored = .ok config ∧
    config.nickname = "abcdefghijklmnopqrstuvwxyz012345".toList ∧ config.maxHops = 7 ∧
    config.keybindings.get? "help".toList = some "f9".toList ∧
    config.contacts.get? "aabb".toList = some "c0de".toList ∧
    @AppConfig.ofDict asciiCase asciiDigits config.asDict = .ok config := by
  let _ : CaseMapping := asciiCase
  let _ : DigitTable := asciiDigits
  have _ : UnicodeLower := asciiCase_unicodeLower
  have values : (AppConfig.postInit AppConfig.tailored).toOption.map (fun config =>
      (config.nickname, config.maxHops, config.keybindings.get? "help".toList,
        config.contacts.get? "aabb".toList)) =
      some ("abcdefghijklmnopqrstuvwxyz012345".toList, 7, some "f9".toList, some "c0de".toList) := by
    decide +kernel
  cases made : AppConfig.postInit AppConfig.tailored with
  | error e =>
    rw [made] at values
    cases values
  | ok config =>
    rw [made] at values
    simp only [Except.toOption, Option.map_some, Option.some.injEq, Prod.mk.injEq] at values
    refine ⟨config, rfl, values.1, values.2.1, values.2.2.1, values.2.2.2,
      (AppConfig.round_trip_iff made).mpr ?_⟩
    rintro _ ⟨⟩ c char
    have visible : (strip "  abcdefghijklmnopqrstuvwxyz0123456789 ".toList)[31]? = some '5' := by
      decide +kernel
    obtain rfl := Option.some.inj (visible.symm.trans char)
    rfl

/-- The 32nd character of this nickname is a space: the constructor leaves it at the end, and
reading strips it. -/
theorem AppConfig.cut_nickname_changes : ∃ config, @AppConfig.postInit asciiCase asciiDigits
    { nickname := .str ("aaaaaaaaaaaaaaaaaaaaaaaaaaaaaaa b".toList) } = .ok config ∧
      @AppConfig.ofDict asciiCase asciiDigits config.asDict ≠ .ok config := by
  let _ : CaseMapping := asciiCase
  let _ : DigitTable := asciiDigits
  have _ : UnicodeLower := asciiCase_unicodeLower
  have made := AppConfig.postInit_fields { nickname := "aaaaaaaaaaaaaaaaaaaaaaaaaaaaaaa b".toList }
  refine ⟨_, made, ?_⟩
  rw [AppConfig.ofDict_asDict (AppConfig.postInit_made made)]
  intro same
  have nickname := congrArg AppConfig.nickname (Except.ok.inj same)
  revert nickname
  decide

end Bitchat.Storage
