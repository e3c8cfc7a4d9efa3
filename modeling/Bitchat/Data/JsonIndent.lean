import Bitchat.Data.JsonRoundTrip

/-! A flat dictionary that is written with an entry on each line is read back. -/

namespace Json
open Python Str

/-- The end of a line and the indentation of the next. -/
def newLine : Str := ['\n', ' ', ' ']

def writeLines : List (Str × Scalar) → Str
  | [] => []
  | [e] => quote e.1 ++ ':' :: ' ' :: e.2.write
  | e :: rest => quote e.1 ++ ':' :: ' ' :: e.2.write ++ ',' :: (newLine ++ writeLines rest)

/-- `json.dumps` of a flat dictionary with `indent=2`. -/
def dumpsIndented (entries : List (Str × Scalar)) : Str :=
  if entries = [] then ['{', '}'] else '{' :: (newLine ++ (writeLines entries ++ ['\n', '}']))

section RoundTrip
variable {entries : List (Str × Scalar)} {rest : Str}

theorem writeLines_cons (e : Str × Scalar) (some' : entries ≠ []) (rest : Str) :
    writeLines (e :: entries) ++ rest =
      quote e.1 ++ ':' :: ' ' :: (e.2.write ++ ',' :: (newLine ++ (writeLines entries ++ rest))) := by
  cases entries with
  | nil => exact absurd rfl some'
  | cons f entries => simp [writeLines]

/-- A line begins with the quote of its key, which no blank covers. -/
theorem skip_lines (some' : entries ≠ []) (rest : Str) :
    skip (newLine ++ (writeLines entries ++ rest)) = writeLines entries ++ rest ∧
      (writeLines entries ++ rest).head? = some '"' := by
  obtain ⟨text, written⟩ : ∃ text, writeLines entries ++ rest = '"' :: text := by
    cases entries with
    | nil => exact absurd rfl some'
    | cons e entries => cases entries <;> exact ⟨_, rfl⟩
  rw [written]
  exact ⟨rfl, rfl⟩

variable [FloatReader]

theorem member_line (fuel : Nat) (name : Str) {scalar : Scalar} (fits : scalar.Fits)
    (ends : EndsNumeral rest) :
    member (value (fuel + 1)) (quote name ++ ':' :: ' ' :: (scalar.write ++ rest)) =
      some ((name, scalar.value), rest) := by
  obtain ⟨read, shown⟩ := value_write fuel fits ends
  have key := string_text name (':' :: ' ' :: (scalar.write ++ rest))
  have colon : skip (':' :: ' ' :: (scalar.write ++ rest)) = ':' :: ' ' :: (scalar.write ++ rest) := rfl
  have blank : skip (' ' :: (scalar.write ++ rest)) = skip (scalar.write ++ rest) := rfl
  simp only [quote, List.cons_append, List.append_assoc, List.nil_append, member, key, colon, blank, shown,
    read, Option.bind_eq_bind, Option.bind_some, Option.pure_def]

/-- The reader takes the lines back one by one. -/
theorem listed_lines (fuel : Nat) (fits : ∀ e ∈ entries, e.2.Fits) (some' : entries ≠ []) {count : Nat}
    (enough : entries.length ≤ count) :
    listed (member (value (fuel + 1))) '}' count (writeLines entries ++ ['\n', '}']) =
      some (entries.map fun e => (e.1, e.2.value), []) := by
  have comma (rest : Str) : EndsNumeral (',' :: rest) := by
    rintro _ ⟨⟩
    decide
  have lineEnd : EndsNumeral ['\n', '}'] := by
    rintro _ ⟨⟩
    decide
  induction entries generalizing count with
  | nil => exact absurd rfl some'
  | cons e entries ih =>
    obtain ⟨count, rfl⟩ := Nat.exists_eq_succ_of_ne_zero (Nat.ne_zero_of_lt enough)
    have here := fits e List.mem_cons_self
    by_cases last : entries = []
    · subst last
      have read := member_line fuel e.1 here lineEnd
      have text : writeLines [e] ++ ['\n', '}'] = quote e.1 ++ ':' :: ' ' :: (e.2.write ++ ['\n', '}']) := by
        simp [writeLines]
      have close : skip ['\n', '}'] = ['}'] := rfl
      simp only [text, listed, read, close, Option.bind_eq_bind, Option.bind_some, if_true, Option.pure_def,
        List.map_cons, List.map_nil]
    · have later := ih (fun e he => fits e (List.mem_cons_of_mem _ he)) last (Nat.le_of_succ_le_succ enough)
      have read := member_line fuel e.1 here (comma (newLine ++ (writeLines entries ++ ['\n', '}'])))
      have next : skip (',' :: (newLine ++ (writeLines entries ++ ['\n', '}']))) =
          ',' :: (newLine ++ (writeLines entries ++ ['\n', '}'])) := rfl
      have behind := (skip_lines last ['\n', '}']).1
      have apart : ¬ ',' = '}' := by decide
      rw [writeLines_cons e last, listed, read]
      simp only [next, apart, behind, later, Option.bind_eq_bind, Option.bind_some, if_false, if_true,
        Option.pure_def, List.map_cons]

/-- What is written with an indentation is read back. -/
theorem loads_dumpsIndented (fits : ∀ e ∈ entries, e.2.Fits) (once : (entries.map Prod.fst).Nodup) :
    loads (dumpsIndented entries) = some (.dict (entries.map fun e => (.text e.1, e.2.value))) := by
  by_cases none : entries = []
  · subst none
    rfl
  · have entered : (entries.map fun e => (e.1, e.2.value)).foldl enter [] =
        entries.map fun e => (.text e.1, e.2.value) := by
      rw [foldl_enter _ [] (by simp)]
      · simp
      · rwa [List.map_map]
    have closed : skip ([] : Str) = [] := rfl
    obtain ⟨visible, first⟩ := skip_lines none ['\n', '}']
    have shown : (writeLines entries ++ ['\n', '}']).head? ≠ some '}' := by
      rw [first]
      decide
    have open' : skip (dumpsIndented entries) = dumpsIndented entries := by
      rw [dumpsIndented, if_neg none]
      rfl
    suffices read : value ((dumpsIndented entries).length + entries.length + 2) (dumpsIndented entries) =
        some (.dict (entries.map fun e => (.text e.1, e.2.value)), []) by
      have same : value ((dumpsIndented entries).length + 1) (dumpsIndented entries) =
          value ((dumpsIndented entries).length + entries.length + 2) (dumpsIndented entries) :=
        value_fuel (by omega) (by omega)
      simp only [loads, open', same, read, closed, Option.bind_eq_bind, Option.bind_some, guard_true,
        Option.pure_def]
    generalize (dumpsIndented entries).length = size
    have items := listed_lines (size + entries.length) fits none
      (show entries.length ≤ size + entries.length + 1 by omega)
    rw [dumpsIndented, if_neg none, value, visible, if_neg shown, items, Option.map_some, entered]

end RoundTrip
end Json
