import Bitchat.Data.DefaultedChoice
import Bitchat.Data.PythonValue
import Bitchat.Storage.Config

/-! The keys of the known actions, read from a value of any type. A default is given without a
look at the keys in use, so two actions can end up with one key. -/
namespace Bitchat.Storage
open Str Python DefaultedChoice

section
variable [CaseMapping]

/-- The key that an action with this default gets. -/
def pickKey (usedKeys : InsertionMap Str Str) (default : Str) (rawKey : Value) : Str :=
  match rawKey with
  | .str rawKey =>
    if strip rawKey = [] then default
    else
      let k := CaseMapping.lower (strip rawKey)
      if usedKeys.contains k then default else k
  | _ => default

/-- One turn of the loop: `cleaned` and `used_keys` after the next action. -/
def bindAction (entries : List (Key × Value)) (state : InsertionMap Str Str × InsertionMap Str Str)
    (entry : Str × Str) : InsertionMap Str Str × InsertionMap Str Str :=
  let (cleaned, usedKeys) := state
  let (action, default) := entry
  let key := pickKey usedKeys default (get entries action)
  (cleaned.set action key, usedKeys.set key action)

def validateAndNormalizeKeybindings (kb : Value) : InsertionMap Str Str :=
  match kb with
  | .dict entries => (defaultKeybindings.foldl (bindAction entries) (.empty, .empty)).1
  | _ => dictOf defaultKeybindings

/-- A key of the user in its cleaned form, if it is not blank. -/
def wantedKey (raw : Option Str) : Option Str :=
  (raw.filter fun text => strip text ≠ []).map Contacts.cleaned

/-- The key that the user wants for an action. -/
def userKey (kb : Value) (action : Str) : Option Str :=
  match kb with
  | .dict entries => wantedKey (get entries action).text?
  | _ => none

/-- What the actions get where these are the keys wanted. -/
def boundKeys (wanted : Str → Option Str) (items : List (Str × Str)) : List (Str × Str) :=
  (assign Prod.snd (fun e => wanted e.1) items).map fun e => (e.1.1, e.2)

/-- A text that cleaning leaves as it is. -/
def Tidy (text : Str) : Prop := text ≠ [] ∧ strip text = text ∧ CaseMapping.lower text = text

/-- The known actions have keys in their cleaned form, no two the same, and an action has the
key that the user wants for it unless another action has that key. -/
structure Resolved (kb : Value) (bindings : InsertionMap Str Str) : Prop where
  actions : bindings.keys = defaultKeybindings.map Prod.fst
  cleaned : ∀ action key, bindings.get? action = some key → Tidy key
  distinct : bindings.values.Nodup
  kept : ∀ action key, action ∈ defaultKeybindings.map Prod.fst → userKey kb action = some key →
    (∀ other, other ≠ action → bindings.get? other ≠ some key) → bindings.get? action = some key

variable {wanted : Str → Option Str} {items : List (Str × Str)}

omit [CaseMapping] in
theorem boundKeys_actions : (boundKeys wanted items).map Prod.fst = items.map Prod.fst := by
  have same : (assign Prod.snd (fun e => wanted e.1) items).map Prod.fst = items := assign_items items
  conv_rhs => rw [← same]
  rw [boundKeys, List.map_map, List.map_map]
  rfl

omit [CaseMapping] in
theorem boundKeys_keys : (boundKeys wanted items).map Prod.snd =
    choices Prod.snd (fun e => wanted e.1) items := by
  rw [boundKeys, List.map_map]
  rfl

theorem pickKey_eq {usedKeys : InsertionMap Str Str} {taken : List Str} {wish : Str × Str → Option Str}
    (used : ∀ key, usedKeys.contains key = true ↔ key ∈ taken) {entry : Str × Str} {rawKey : Value}
    (wants : wish entry = wantedKey rawKey.text?) :
    pickKey usedKeys entry.2 rawKey = choose Prod.snd wish taken entry := by
  rw [choose, wants]
  cases rawKey with
  | str rawKey =>
    by_cases blank : strip rawKey = []
    · simp [pickKey, wantedKey, Value.text?, Option.filter, blank]
    · simp [pickKey, wantedKey, Value.text?, Option.filter, blank, used, Contacts.cleaned]
  | _ => rfl

theorem bindAction_eq (entries : List (Key × Value)) {state : InsertionMap Str Str × InsertionMap Str Str}
    {taken : List Str} (used : ∀ key, state.2.contains key = true ↔ key ∈ taken) (entry : Str × Str) :
    bindAction entries state entry =
      let key := choose Prod.snd (fun e => userKey (.dict entries) e.1) taken entry
      (state.1.set entry.1 key, state.2.set key entry.1) := by
  have same : pickKey state.2 entry.2 (get entries entry.1) =
      choose Prod.snd (fun e => userKey (.dict entries) e.1) taken entry := pickKey_eq used rfl
  rw [← same]
  rfl

/-- After each turn of the loop the first actions have got their keys, and these are in use. -/
theorem foldl_bindAction (entries : List (Key × Value)) (distinct : (items.map Prod.fst).Nodup) :
    (items.foldl (bindAction entries) (.empty, .empty)).1.entries =
        boundKeys (userKey (.dict entries)) items ∧
      ∀ key, (items.foldl (bindAction entries) (.empty, .empty)).2.contains key = true ↔
        key ∈ choices Prod.snd (fun e => userKey (.dict entries) e.1) items := by
  induction items using List.reverseRecOn with
  | nil => simp [boundKeys, choices, assign, InsertionMap.empty, InsertionMap.contains, InsertionMap.get?]
  | append_singleton items entry ih =>
    rw [List.map_append, List.nodup_append] at distinct
    obtain ⟨bound, used⟩ := ih distinct.1
    rw [List.foldl_append, List.foldl_cons, List.foldl_nil, bindAction_eq entries used]
    constructor
    · have fresh : (items.foldl (bindAction entries) (.empty, .empty)).1.get? entry.1 = none := by
        rw [InsertionMap.get?_eq_none, bound, boundKeys_actions]
        exact fun member => distinct.2.2 _ member _ (List.mem_singleton_self _) rfl
      rw [InsertionMap.set_entries_new fresh, bound, boundKeys, boundKeys, assign_snoc, List.map_append]
      rfl
    · intro key
      have before := used key
      simp only [InsertionMap.contains] at before
      rw [choices_snoc, List.mem_append, List.mem_singleton, ← before]
      simp only [InsertionMap.contains, InsertionMap.get?_set]
      split
      · next same => simp [same]
      · next other => simp [other]

omit [CaseMapping] in
theorem defaultKeybindings_distinct : (defaultKeybindings.map Prod.fst).Nodup ∧
    (defaultKeybindings.map Prod.snd).Nodup := by
  constructor <;> decide

omit [CaseMapping] in
theorem dictOf_entries {entries : List (Str × Str)} (distinct : (entries.map Prod.fst).Nodup) :
    (dictOf entries).entries = entries :=
  InsertionMap.foldl_set_entries (f := id) .empty (fun _ _ => rfl) distinct

/-- The loop gives each action its wanted key or its default. -/
theorem validateAndNormalizeKeybindings_entries (kb : Value) :
    (validateAndNormalizeKeybindings kb).entries = boundKeys (userKey kb) defaultKeybindings := by
  have unmapped (nothing : userKey kb = fun _ => none) : (dictOf defaultKeybindings).entries =
      boundKeys (userKey kb) defaultKeybindings := by
    rw [dictOf_entries defaultKeybindings_distinct.1, nothing]
    decide
  cases kb with
  | dict entries => exact (foldl_bindAction entries defaultKeybindings_distinct.1).1
  | _ => exact unmapped rfl

/-- Of a dictionary of texts the loop makes what the typed constructor makes of it. -/
theorem normalizeKeybindings_entries (keybindings : InsertionMap Str Str) :
    (normalizeKeybindings keybindings).entries =
      boundKeys (fun action => wantedKey (keybindings.get? action)) defaultKeybindings := by
  let wanted (action : Str) : Option Str := wantedKey (keybindings.get? action)
  have turns (turn : List (Str × Str) → Str × Str → Str)
      (same : ∀ taken e, turn taken e = choose Prod.snd (fun e => wanted e.1) (taken.map Prod.snd) e)
      (items : List (Str × Str)) :
      items.foldl (fun taken e => taken ++ [(e.1, turn taken e)]) [] = boundKeys wanted items := by
    induction items using List.reverseRecOn with
    | nil => rfl
    | append_singleton items entry ih =>
      rw [List.foldl_append, List.foldl_cons, List.foldl_nil, ih, same, boundKeys_keys, boundKeys, boundKeys,
        assign_snoc, List.map_append]
      rfl
  have distinct : ((boundKeys wanted defaultKeybindings).map Prod.fst).Nodup := by
    rw [boundKeys_actions]
    exact defaultKeybindings_distinct.1
  refine (congrArg (fun entries => (dictOf entries).entries) (turns _ (fun taken e => ?_) _)).trans
    (dictOf_entries distinct)
  simp only [choose, wanted, wantedKey]
  cases keybindings.get? e.1 with
  | none => rfl
  | some raw =>
    by_cases blank : strip raw = []
    · simp [Option.filter, blank]
    · simp only [blank, false_or]
      simp [Option.filter, blank]

theorem get?_bound {kb : Value} {action key : Str} :
    (validateAndNormalizeKeybindings kb).get? action = some key ↔
      ∃ entry, entry.1 = action ∧ (entry, key) ∈ assign Prod.snd (fun e => userKey kb e.1) defaultKeybindings := by
  rw [InsertionMap.get?_eq_some, validateAndNormalizeKeybindings_entries, boundKeys, List.mem_map]
  constructor
  · rintro ⟨⟨entry, _⟩, member, same⟩
    cases same
    exact ⟨entry, rfl, member⟩
  · rintro ⟨entry, rfl, member⟩
    exact ⟨_, member, rfl⟩

theorem bound_values (kb : Value) : (validateAndNormalizeKeybindings kb).values =
    choices Prod.snd (fun e => userKey kb e.1) defaultKeybindings := by
  rw [InsertionMap.values, validateAndNormalizeKeybindings_entries, boundKeys_keys]

/-- A key that the user wants is refused to an action only where another action has it. -/
theorem bound_kept {kb : Value} {action key : Str} (known : action ∈ defaultKeybindings.map Prod.fst)
    (wish : userKey kb action = some key)
    (alone : ∀ other, other ≠ action → (validateAndNormalizeKeybindings kb).get? other ≠ some key) :
    (validateAndNormalizeKeybindings kb).get? action = some key := by
  obtain ⟨entry, member, rfl⟩ := List.mem_map.mp known
  obtain ⟨before, after, whole⟩ := List.append_of_mem member
  apply get?_bound.mpr
  refine ⟨entry, rfl, DefaultedChoice.kept whole wish ?_⟩
  intro used
  obtain ⟨⟨b, _⟩, got, rfl⟩ := List.mem_map.mp used
  have earlier : b ∈ before := mem_of_assign got
  have apart : b.1 ≠ entry.1 := by
    have distinct := defaultKeybindings_distinct.1
    rw [whole, List.map_append, List.nodup_append] at distinct
    exact distinct.2.2 _ (List.mem_map_of_mem earlier) _ (List.mem_map_of_mem List.mem_cons_self)
  apply alone b.1 apart
  apply get?_bound.mpr
  refine ⟨b, rfl, ?_⟩
  rw [whole]
  exact (assign_earlier before (entry :: after)).subset got

section
variable [UnicodeLower]

theorem tidy_cleaned {text : Str} (visible : strip text ≠ []) : Tidy (Contacts.cleaned text) :=
  ⟨mt (cleaned_eq_nil text).mp visible, strip_cleaned text, lower_cleaned text⟩

theorem wantedKey_cleaned {raw : Option Str} {key : Str} (wanted : wantedKey raw = some key) :
    Tidy key := by
  obtain ⟨text, visible, rfl⟩ := Option.map_eq_some_iff.mp wanted
  exact tidy_cleaned (by simpa using (Option.filter_eq_some_iff.mp visible).2)

theorem defaultKeybindings_tidy : ∀ e ∈ defaultKeybindings, Tidy e.2 := by
  have plain : ∀ e ∈ defaultKeybindings, e.2 ≠ [] ∧ strip e.2 = e.2 ∧ isPlain e.2 = true := by
    decide
  intro e member
  obtain ⟨some, stripped, plain⟩ := plain e member
  exact ⟨some, stripped, lower_plain plain⟩

theorem bound_cleaned {kb : Value} {action key : Str}
    (bound : (validateAndNormalizeKeybindings kb).get? action = some key) : Tidy key := by
  obtain ⟨entry, rfl, got⟩ := get?_bound.mp bound
  have member : entry ∈ defaultKeybindings := mem_of_assign got
  rcases assign_cases got with rfl | wish
  · exact defaultKeybindings_tidy entry member
  · unfold userKey at wish
    split at wish
    · exact wantedKey_cleaned wish
    · cases wish

/-- Two actions have one key if and only if one of them falls back to its default and the user
wants that default for an action before it. -/
theorem keybindings_resolved_iff (kb : Value) : Resolved kb (validateAndNormalizeKeybindings kb) ↔
    ∀ before entry after, defaultKeybindings = before ++ entry :: after →
      FallsBack Prod.snd (fun e => userKey kb e.1) before entry →
      ∀ other ∈ before, userKey kb other.1 ≠ some entry.2 := by
  have distinct : (validateAndNormalizeKeybindings kb).values.Nodup ↔ _ :=
    bound_values kb ▸ choices_nodup defaultKeybindings_distinct.2
  rw [← distinct]
  constructor
  · exact fun resolved => resolved.distinct
  · intro apart
    refine ⟨?_, fun _ _ => bound_cleaned, apart, fun _ _ => bound_kept⟩
    rw [InsertionMap.keys, validateAndNormalizeKeybindings_entries, boundKeys_actions]

end
end

theorem help_key_resolved : @Resolved asciiCase (.dict [(.text "help".toList, .str " F9".toList)])
    (@validateAndNormalizeKeybindings asciiCase (.dict [(.text "help".toList, .str " F9".toList)])) := by
  let _ : CaseMapping := asciiCase
  have _ : UnicodeLower := asciiCase_unicodeLower
  apply (keybindings_resolved_iff _).mpr
  intro before entry after whole _ other earlier
  have free : ∀ a ∈ defaultKeybindings, ∀ b ∈ defaultKeybindings,
      userKey (.dict [(.text "help".toList, .str " F9".toList)]) a.1 ≠ some b.2 := by decide
  apply free
  · rw [whole]
    exact List.mem_append_left _ earlier
  · rw [whole]
    exact List.mem_append_right _ List.mem_cons_self

/-- The user's key for `help` is the default of `edit_theme`. -/
theorem help_key_shared : ¬@Resolved asciiCase (.dict [(.text "help".toList, .str "f2".toList)])
    (@validateAndNormalizeKeybindings asciiCase (.dict [(.text "help".toList, .str "f2".toList)])) := by
  let _ : CaseMapping := asciiCase
  intro resolved
  have distinct := resolved.distinct
  revert distinct
  decide

end Bitchat.Storage
