import Bitchat.Data.PythonValue

/-! JSON texts as the `json` module reads them, and flat dictionaries as it writes them with ASCII
escapes. The reader runs on fuel, and the length of the text is always enough. -/

namespace Json
open Python Str

/-- The floating numbers of numerals; results that use it hold for any. -/
class FloatReader where
  float : Str → Floating

section Scanner

def isBlank (c : Char) : Bool := c = ' ' ∨ c = '\t' ∨ c = '\n' ∨ c = '\r'

def skip (text : Str) : Str := text.dropWhile isBlank

def hex4 (a b c d : Char) : Option Nat := do
  return 4096 * (← hexValue a) + 256 * (← hexValue b) + 16 * (← hexValue c) + (← hexValue d)

def shortEscape : Char → Option Char
  | '"' => some '"'
  | '\\' => some '\\'
  | '/' => some '/'
  | 'b' => some '\x08'
  | 'f' => some '\x0c'
  | 'n' => some '\n'
  | 'r' => some '\r'
  | 't' => some '\t'
  | _ => none

/-- The code units up to the closing quote, and the text behind it. -/
def units : Str → Option (List Nat × Str)
  | [] => none
  | '"' :: rest => some ([], rest)
  | '\\' :: 'u' :: a :: b :: c :: d :: rest => do
    let unit ← hex4 a b c d
    let (more, rest) ← units rest
    return (unit :: more, rest)
  | '\\' :: c :: rest => do
    let named ← shortEscape c
    let (more, rest) ← units rest
    return (named.toNat :: more, rest)
  | c :: rest => do
    guard (0x20 ≤ c.toNat ∧ c ≠ '\\')
    let (more, rest) ← units rest
    return (c.toNat :: more, rest)

/-- The character of a unit. A surrogate by itself is none; U+FFFD stands for it, which like it is
no space, digit or letter. -/
def single (unit : Nat) : Char := if 0xD800 ≤ unit ∧ unit < 0xE000 then '\uFFFD' else Char.ofNat unit

def isPair (high low : Nat) : Bool :=
  0xD800 ≤ high ∧ high < 0xDC00 ∧ 0xDC00 ≤ low ∧ low < 0xE000

/-- The characters of code units. -/
def joined : List Nat → Str
  | [] => []
  | [unit] => [single unit]
  | high :: low :: rest =>
    if isPair high low then
      Char.ofNat (0x10000 + (high - 0xD800) * 0x400 + (low - 0xDC00)) :: joined rest
    else single high :: joined (low :: rest)

def string (text : Str) : Option (Str × Str) := (units text).map fun p => (joined p.1, p.2)

/-- The fraction of a numeral, empty where no digit follows the point. -/
def fraction : Str → Str
  | '.' :: rest => if rest.takeWhile Char.isDigit = [] then [] else '.' :: rest.takeWhile Char.isDigit
  | _ => []

def exponent : Str → Str
  | e :: rest =>
    let sign := (rest.take 1).filter fun c => c = '+' ∨ c = '-'
    let digits := (rest.drop sign.length).takeWhile Char.isDigit
    if (e = 'e' ∨ e = 'E') ∧ digits ≠ [] then e :: sign ++ digits else []
  | [] => []

/-- The digits of a numeral before its point: a zero stands alone. -/
def whole : Str → Str
  | '0' :: _ => ['0']
  | rest => rest.takeWhile Char.isDigit

/-- The names that stand for a value. -/
def constants : List (Str × Value) :=
  [("null".toList, .none), ("true".toList, .bool true), ("false".toList, .bool false),
    ("NaN".toList, .float .nan), ("Infinity".toList, .float (.infinity false)),
    ("-Infinity".toList, .float (.infinity true))]

/-- Items with commas between them, up to the closing character. -/
def listed {α : Type} (item : Str → Option (α × Str)) (close : Char) :
    Nat → Str → Option (List α × Str)
  | 0, _ => none
  | fuel + 1, text => do
    let (a, rest) ← item text
    match skip rest with
    | [] => none
    | c :: rest =>
      if c = close then return ([a], rest)
      else if c = ',' then
        let (more, rest) ← listed item close fuel (skip rest)
        return (a :: more, rest)
      else none

/-- A text and what stands behind its colon. -/
def member {α : Type} (item : Str → Option (α × Str)) : Str → Option ((Str × α) × Str)
  | '"' :: rest => do
    let (name, rest) ← string rest
    match skip rest with
    | ':' :: rest =>
      let (a, rest) ← item (skip rest)
      return ((name, a), rest)
    | _ => none
  | _ => none

/-- Put a value under a key. A key keeps its first place. -/
def enter (entries : List (Key × Value)) (e : Str × Value) : List (Key × Value) :=
  if .text e.1 ∈ entries.map Prod.fst then
    entries.map fun f => if f.1 = .text e.1 then (f.1, e.2) else f
  else entries ++ [(.text e.1, e.2)]

variable [FloatReader]

def number (text : Str) : Option (Value × Str) :=
  let unsigned := if text.head? = some '-' then text.tail else text
  let digits := whole unsigned
  let rest := unsigned.drop digits.length
  let fraction := fraction rest
  let rest := rest.drop fraction.length
  let exponent := exponent rest
  let rest := rest.drop exponent.length
  if digits = [] then none
  else if fraction ≠ [] ∨ exponent ≠ [] then
    some (.float (FloatReader.float (text.take (text.length - rest.length))), rest)
  -- the interpreter's limit on the digits of a conversion
  else if 4300 < digits.length then none
  else
    let natural : Int := Nat.ofDigitChars 10 digits 0
    some (.int (if text.head? = some '-' then -natural else natural), rest)

/-- The value at the start of a text, and the text behind it. -/
def value : Nat → Str → Option (Value × Str)
  | 0, _ => none
  | fuel + 1, text =>
    match text with
    | '"' :: rest => (string rest).map fun p => (.str p.1, p.2)
    | '{' :: rest =>
      if (skip rest).head? = some '}' then some (.dict [], (skip rest).tail)
      else (listed (member (value fuel)) '}' fuel (skip rest)).map fun p =>
        (.dict (p.1.foldl enter []), p.2)
    | '[' :: rest =>
      if (skip rest).head? = some ']' then some (.list [], (skip rest).tail)
      else (listed (value fuel) ']' fuel (skip rest)).map fun p => (.list p.1, p.2)
    | text =>
      match constants.find? fun e => e.1.isPrefixOf text with
      | some (name, named) => some (named, text.drop name.length)
      | none => number text

/-- `json.loads`, `none` where it raises. -/
def loads (text : Str) : Option Value := do
  let (found, rest) ← value (text.length + 1) (skip text)
  guard (skip rest = [])
  return found

end Scanner

section Writer

def escapeUnit (unit : Nat) : Str :=
  ['\\', 'u', hexDigit (unit / 4096), hexDigit (unit / 256 % 16), hexDigit (unit / 16 % 16),
    hexDigit (unit % 16)]

/-- The code units of a character. -/
def unitsOf (c : Char) : List Nat :=
  if c.toNat < 0x10000 then [c.toNat]
  else [0xD800 + (c.toNat - 0x10000) / 0x400, 0xDC00 + (c.toNat - 0x10000) % 0x400]

def escape (c : Char) : Str :=
  match c with
  | '"' => ['\\', '"']
  | '\\' => ['\\', '\\']
  | '\x08' => ['\\', 'b']
  | '\x0c' => ['\\', 'f']
  | '\n' => ['\\', 'n']
  | '\r' => ['\\', 'r']
  | '\t' => ['\\', 't']
  | c => if 0x20 ≤ c.toNat ∧ c.toNat ≤ 0x7E then [c] else (unitsOf c).flatMap escapeUnit

def quote (text : Str) : Str := '"' :: text.flatMap escape ++ ['"']

/-- The values of a flat dictionary. -/
inductive Scalar where
  | text (t : Str)
  | number (n : Nat)
deriving DecidableEq

def Scalar.value : Scalar → Value
  | .text t => .str t
  | .number n => .int n

def Scalar.write : Scalar → Str
  | .text t => quote t
  | .number n => Nat.toDigits 10 n

def writeEntries : List (Str × Scalar) → Str
  | [] => []
  | [e] => quote e.1 ++ ':' :: e.2.write
  | e :: rest => quote e.1 ++ ':' :: e.2.write ++ ',' :: writeEntries rest

/-- `json.dumps` of a flat dictionary, without blanks. -/
def dumps (entries : List (Str × Scalar)) : Str := '{' :: writeEntries entries ++ ['}']

end Writer

section Fuel
variable {α : Type} {item other : Str → Option (α × Str)} {text rest : Str} {close : Char}

/-- A reader takes at least a character. -/
def Shrinks (item : Str → Option (α × Str)) : Prop :=
  ∀ {text a rest}, item text = some (a, rest) → rest.length < text.length

theorem skip_length (text : Str) : (skip text).length ≤ text.length :=
  (List.dropWhile_suffix isBlank).length_le

/-- A unit is followed by the units of the text behind it. -/
theorem units_behind {o : Option α} {unit : α → Nat} {found : List Nat}
    (read : (do
      let a ← o
      let (more, left) ← units text
      return (unit a :: more, left)) = some (found, rest)) : ∃ more, units text = some (more, rest) := by
  obtain ⟨a, _, read⟩ := Option.bind_eq_some_iff.mp read
  obtain ⟨⟨more, left⟩, body, result⟩ := Option.bind_eq_some_iff.mp read
  obtain ⟨-, rfl⟩ := Prod.mk.inj (Option.some.inj result)
  exact ⟨more, body⟩

theorem units_shrinks : Shrinks units := by
  intro text found rest read
  fun_induction units text generalizing found rest with
  | case1 => cases read
  | case2 rest =>
    cases read
    simp
  | case3 a b c d behind ih =>
    obtain ⟨more, body⟩ := units_behind read
    have := ih body
    simp only [List.length_cons]
    omega
  | case4 c behind _ ih =>
    obtain ⟨more, body⟩ := units_behind read
    have := ih body
    simp only [List.length_cons]
    omega
  | case5 c behind _ _ _ ih =>
    obtain ⟨more, body⟩ := units_behind read
    have := ih body
    simp only [List.length_cons]
    omega

theorem string_shrinks : Shrinks string := by
  intro text found rest read
  obtain ⟨⟨us, left⟩, body, result⟩ := Option.map_eq_some_iff.mp read
  cases result
  exact units_shrinks body

/-- A member is a name and, behind its colon, an item. -/
theorem member_eq_some {found : Str × α} (read : member item text = some (found, rest)) :
    ∃ behind left after, text = '"' :: behind ∧ string behind = some (found.1, left) ∧
      skip left = ':' :: after ∧ item (skip after) = some (found.2, rest) := by
  unfold member at read
  split at read
  · next behind =>
    obtain ⟨⟨name, left⟩, body, read⟩ := Option.bind_eq_some_iff.mp read
    dsimp only at read
    split at read
    · next after colon =>
      obtain ⟨⟨a, last⟩, value, result⟩ := Option.bind_eq_some_iff.mp read
      obtain ⟨rfl, rfl⟩ := Prod.mk.inj (Option.some.inj result)
      exact ⟨behind, left, after, rfl, body, colon, value⟩
    · cases read
  · cases read

/-- Items begin with one, and end there or go on behind a comma. -/
theorem listed_eq_some {fuel : Nat} {found : List α}
    (read : listed item close (fuel + 1) text = some (found, rest)) :
    ∃ a left c behind, item text = some (a, left) ∧ skip left = c :: behind ∧
      ((found = [a] ∧ rest = behind) ∨
        ∃ more, listed item close fuel (skip behind) = some (more, rest) ∧ found = a :: more) := by
  obtain ⟨⟨a, left⟩, first, read⟩ := Option.bind_eq_some_iff.mp read
  dsimp only at read
  split at read
  · cases read
  · next c behind next =>
    refine ⟨a, left, c, behind, first, next, ?_⟩
    split at read
    · obtain ⟨rfl, rfl⟩ := Prod.mk.inj (Option.some.inj read)
      exact Or.inl ⟨rfl, rfl⟩
    · split at read
      · obtain ⟨⟨more, last⟩, tail, result⟩ := Option.bind_eq_some_iff.mp read
        obtain ⟨rfl, rfl⟩ := Prod.mk.inj (Option.some.inj result)
        exact Or.inr ⟨more, tail, rfl⟩
      · cases read

theorem member_shrinks (shrinks : Shrinks item) : Shrinks (member item) := by
  intro text found rest read
  obtain ⟨behind, left, after, rfl, body, colon, value⟩ := member_eq_some read
  have key := string_shrinks body
  have blank := skip_length left
  have blanks := skip_length after
  have taken := shrinks value
  rw [colon, List.length_cons] at blank
  rw [List.length_cons]
  omega

theorem listed_shrinks (shrinks : Shrinks item) (fuel : Nat) : Shrinks (listed item close fuel) := by
  intro text found rest read
  induction fuel generalizing text found rest with
  | zero => cases read
  | succ fuel ih =>
    obtain ⟨a, left, c, behind, first, next, ends⟩ := listed_eq_some read
    have taken := shrinks first
    have blank := skip_length left
    rw [next, List.length_cons] at blank
    obtain ⟨_, rfl⟩ | ⟨more, tail, _⟩ := ends
    · omega
    · have later := ih tail
      have blanks := skip_length behind
      omega

theorem member_congr {size : Nat} (same : ∀ t, t.length < size → item t = other t)
    (short : text.length < size) : member item text = member other text := by
  unfold member
  split
  · next behind =>
    rw [List.length_cons] at short
    cases body : string behind with
    | none => rfl
    | some p =>
      have key := string_shrinks body
      have blank := skip_length p.2
      simp only [Option.bind_eq_bind, Option.bind_some]
      split
      · next after colon =>
        have blanks := skip_length after
        rw [colon, List.length_cons] at blank
        rw [same _ (by omega)]
      · rfl
  · rfl

/-- Fuel beyond the length of the text makes no difference. -/
theorem listed_congr {size : Nat} (shrinks : Shrinks item) (same : ∀ t, t.length < size → item t = other t)
    {fuel fuel' : Nat} (short : text.length < size) (enough : text.length < fuel)
    (enough' : text.length < fuel') : listed item close fuel text = listed other close fuel' text := by
  induction fuel generalizing text fuel' with
  | zero => exact absurd enough (Nat.not_lt_zero _)
  | succ fuel ih =>
    obtain ⟨fuel', rfl⟩ := Nat.exists_eq_succ_of_ne_zero (Nat.ne_zero_of_lt enough')
    rw [listed, listed, ← same _ short]
    cases first : item text with
    | none => rfl
    | some p =>
      obtain ⟨a, left⟩ := p
      have taken := shrinks first
      have blank := skip_length left
      simp only [Option.bind_eq_bind, Option.bind_some]
      split
      · rfl
      · next c behind next =>
        have blanks := skip_length behind
        rw [next, List.length_cons] at blank
        have more : listed item close fuel (skip behind) = listed other close fuel' (skip behind) :=
          ih (by omega) (by omega) (by omega)
        rw [more]

theorem constants_shrinks {named : Str × Value}
    (found : constants.find? (fun e => e.1.isPrefixOf text) = some named) :
    (text.drop named.1.length).length < text.length := by
  have listed := List.mem_of_find?_eq_some found
  have starts : named.1.isPrefixOf text = true :=
    List.find?_some (p := fun e : Str × Value => e.1.isPrefixOf text) found
  have fits := (List.isPrefixOf_iff_prefix.mp starts).length_le
  have visible : ∀ e ∈ constants, 0 < e.1.length := by decide
  have := visible _ listed
  rw [List.length_drop]
  omega

variable [FloatReader]

theorem number_shrinks : Shrinks number := by
  intro text found rest read
  unfold number at read
  extract_lets unsigned digits after fraction after' exponent last natural at read
  have short : unsigned.length ≤ text.length := by
    simp only [unsigned]
    split
    · rw [List.length_tail]
      omega
    · rfl
  have lasts : last.length ≤ unsigned.length - digits.length := by
    simp only [last, after', after, List.length_drop]
    omega
  have consumed (digit : digits ≠ []) : last.length < text.length := by
    have some' : 0 < digits.length := List.length_pos_iff.mpr digit
    have visible : unsigned ≠ [] := by
      intro none
      exact digit (by simp only [digits, none]; rfl)
    have := List.length_pos_iff.mpr visible
    omega
  split at read
  · cases read
  · next digit =>
    split at read
    · obtain ⟨-, rfl⟩ := Prod.mk.inj (Option.some.inj read)
      exact consumed digit
    · split at read
      · cases read
      · obtain ⟨-, rfl⟩ := Prod.mk.inj (Option.some.inj read)
        exact consumed digit

/-- The ways in which a value is read. -/
inductive Taken (fuel : Nat) (text : Str) : Value → Str → Prop
  | quoted {behind t rest} (mark : text = '"' :: behind) (body : string behind = some (t, rest)) :
    Taken fuel text (.str t) rest
  | empty {mark behind found} (opens : text = mark :: behind) (kind : found = .dict [] ∨ found = .list []) :
    Taken fuel text found (skip behind).tail
  | entries {behind read rest} (mark : text = '{' :: behind)
    (members : listed (member (value fuel)) '}' fuel (skip behind) = some (read, rest)) :
    Taken fuel text (.dict (read.foldl enter [])) rest
  | items {behind read rest} (mark : text = '[' :: behind)
    (values : listed (value fuel) ']' fuel (skip behind) = some (read, rest)) :
    Taken fuel text (.list read) rest
  | constant {e} (named : constants.find? (fun e => e.1.isPrefixOf text) = some e) :
    Taken fuel text e.2 (text.drop e.1.length)
  | numeral {found rest} (digits : number text = some (found, rest)) : Taken fuel text found rest

theorem value_taken {fuel : Nat} {found : Value} (read : value (fuel + 1) text = some (found, rest)) :
    Taken fuel text found rest := by
  unfold value at read
  split at read
  · obtain ⟨p, body, result⟩ := Option.map_eq_some_iff.mp read
    obtain ⟨rfl, rfl⟩ := Prod.mk.inj result
    exact .quoted rfl body
  · split at read
    · obtain ⟨rfl, rfl⟩ := Prod.mk.inj (Option.some.inj read)
      exact .empty rfl (Or.inl rfl)
    · obtain ⟨p, members, result⟩ := Option.map_eq_some_iff.mp read
      obtain ⟨rfl, rfl⟩ := Prod.mk.inj result
      exact .entries rfl members
  · split at read
    · obtain ⟨rfl, rfl⟩ := Prod.mk.inj (Option.some.inj read)
      exact .empty rfl (Or.inr rfl)
    · obtain ⟨p, values, result⟩ := Option.map_eq_some_iff.mp read
      obtain ⟨rfl, rfl⟩ := Prod.mk.inj result
      exact .items rfl values
  · split at read
    · next name named constant =>
      obtain ⟨rfl, rfl⟩ := Prod.mk.inj (Option.some.inj read)
      exact .constant constant
    · exact .numeral read

theorem value_shrinks (fuel : Nat) : Shrinks (value fuel) := by
  induction fuel with
  | zero => exact fun read => nomatch read
  | succ fuel ih =>
    intro text found rest read
    cases value_taken read with
    | quoted mark body =>
      have := string_shrinks body
      rw [mark, List.length_cons]
      omega
    | @empty _ behind _ opens =>
      have blank := skip_length behind
      rw [opens, List.length_tail, List.length_cons]
      omega
    | @entries behind _ _ mark members =>
      have blank := skip_length behind
      have := listed_shrinks (member_shrinks ih) fuel members
      rw [mark, List.length_cons]
      omega
    | @items behind _ _ mark values =>
      have blank := skip_length behind
      have := listed_shrinks ih fuel values
      rw [mark, List.length_cons]
      omega
    | constant named => exact constants_shrinks named
    | numeral digits => exact number_shrinks digits

/-- The length of the text is enough fuel: more of it reads the same. -/
theorem value_fuel {fuel fuel' : Nat} (enough : text.length < fuel) (enough' : text.length < fuel') :
    value fuel text = value fuel' text := by
  induction fuel generalizing text fuel' with
  | zero => exact absurd enough (Nat.not_lt_zero _)
  | succ fuel ih =>
    obtain ⟨fuel', rfl⟩ := Nat.exists_eq_succ_of_ne_zero (Nat.ne_zero_of_lt enough')
    unfold value
    split
    · rfl
    · next behind =>
      have blank := skip_length behind
      rw [List.length_cons] at enough enough'
      have same (t : Str) (short : t.length < behind.length + 1) :
          member (value fuel) t = member (value fuel') t := by
        refine member_congr (fun t short => ?_) short
        exact ih (by omega) (by omega)
      have entries : listed (member (value fuel)) '}' fuel (skip behind) =
          listed (member (value fuel')) '}' fuel' (skip behind) :=
        listed_congr (member_shrinks (value_shrinks fuel)) same (by omega) (by omega) (by omega)
      rw [entries]
    · next behind =>
      have blank := skip_length behind
      rw [List.length_cons] at enough enough'
      have same (t : Str) (short : t.length < behind.length + 1) : value fuel t = value fuel' t :=
        ih (by omega) (by omega)
      have items : listed (value fuel) ']' fuel (skip behind) = listed (value fuel') ']' fuel' (skip behind) :=
        listed_congr (value_shrinks fuel) same (by omega) (by omega) (by omega)
      rw [items]
    · rfl

end Fuel

section Values
variable {α : Type} {P : α → Prop} {item : Str → Option (α × Str)} {text rest : Str} {close : Char}

/-- What holds of all that is read of the items holds of the list. -/
theorem listed_all (one : ∀ {text a rest}, item text = some (a, rest) → P a) {fuel : Nat} {found : List α}
    (read : listed item close fuel text = some (found, rest)) : ∀ a ∈ found, P a := by
  induction fuel generalizing text found rest with
  | zero => cases read
  | succ fuel ih =>
    obtain ⟨a, left, c, behind, first, _, ⟨rfl, _⟩ | ⟨more, tail, rfl⟩⟩ := listed_eq_some read
    · exact List.forall_mem_singleton.mpr (one first)
    · exact List.forall_mem_cons.mpr ⟨one first, ih tail⟩

theorem member_all (one : ∀ {text a rest}, item text = some (a, rest) → P a) {found : Str × α}
    (read : member item text = some (found, rest)) : P found.2 := by
  obtain ⟨_, _, _, _, _, _, value⟩ := member_eq_some read
  exact one value

theorem enter_json {entries : List (Key × Value)} {e : Str × Value} (json : IsJson (.dict entries))
    (value : IsJson e.2) : IsJson (.dict (enter entries e)) := by
  obtain _ | _ | _ | _ | _ | _ | ⟨texts, once, values⟩ := json
  unfold enter
  split
  · have keys : (entries.map fun f => if f.1 = .text e.1 then (f.1, e.2) else f).map Prod.fst =
        entries.map Prod.fst := by
      rw [List.map_map]
      refine List.map_congr_left fun f _ => ?_
      simp only [Function.comp_apply]
      split <;> rfl
    refine .dict ?_ (keys ▸ once) ?_
    · intro f member
      obtain ⟨g, earlier, rfl⟩ := List.mem_map.mp member
      split
      · exact texts g earlier
      · exact texts g earlier
    · intro f member
      obtain ⟨g, earlier, rfl⟩ := List.mem_map.mp member
      split
      · exact value
      · exact values g earlier
  · next new =>
    refine .dict ?_ ?_ ?_
    · exact List.forall_mem_append.mpr ⟨texts, List.forall_mem_singleton.mpr ⟨e.1, rfl⟩⟩
    · rw [List.map_append, List.nodup_append_comm]
      exact List.nodup_cons.mpr ⟨new, once⟩
    · exact List.forall_mem_append.mpr ⟨values, List.forall_mem_singleton.mpr value⟩

theorem entries_json {read : List (Str × Value)} (values : ∀ e ∈ read, IsJson e.2)
    {before : List (Key × Value)} (json : IsJson (.dict before)) :
    IsJson (.dict (read.foldl enter before)) := by
  induction read generalizing before with
  | nil => exact json
  | cons e read ih =>
    obtain ⟨first, values⟩ := List.forall_mem_cons.mp values
    exact ih values (enter_json json first)

theorem constants_json : ∀ e ∈ constants, IsJson e.2 := by
  intro e named
  simp only [constants, List.mem_cons, List.not_mem_nil, or_false] at named
  obtain rfl | rfl | rfl | rfl | rfl | rfl := named
  · exact .none
  · exact .bool true
  · exact .bool false
  · exact .float .nan
  · exact .float (.infinity false)
  · exact .float (.infinity true)

variable [FloatReader]

theorem number_json {found : Value} (read : number text = some (found, rest)) : IsJson found := by
  unfold number at read
  extract_lets unsigned digits after fraction after' exponent last natural at read
  split at read
  · cases read
  · split at read
    · obtain ⟨rfl, -⟩ := Prod.mk.inj (Option.some.inj read)
      exact .float _
    · split at read
      · cases read
      · obtain ⟨rfl, -⟩ := Prod.mk.inj (Option.some.inj read)
        exact .int _

theorem value_json {fuel : Nat} {found : Value} (read : value fuel text = some (found, rest)) :
    IsJson found := by
  have nothing : IsJson (.dict []) := .dict (by simp) (by simp) (by simp)
  induction fuel generalizing text found rest with
  | zero => cases read
  | succ fuel ih =>
    cases value_taken read with
    | quoted => exact .str _
    | empty _ kind =>
      obtain rfl | rfl := kind
      · exact nothing
      · exact .list (by simp)
    | entries _ members =>
      have values := listed_all (P := fun e : Str × Value => IsJson e.2) (member_all ih) members
      exact entries_json values nothing
    | items _ values => exact .list (listed_all ih values)
    | constant named => exact constants_json _ (List.mem_of_find?_eq_some named)
    | numeral digits => exact number_json digits

/-- A text that is read is read to a value of a file. -/
theorem loads_json {found : Value} (read : loads text = some found) : IsJson found := by
  obtain ⟨⟨first, left⟩, taken, read⟩ := Option.bind_eq_some_iff.mp read
  obtain ⟨_, _, result⟩ := Option.bind_eq_some_iff.mp read
  obtain rfl := Option.some.inj result
  exact value_json taken

end Values

end Json
