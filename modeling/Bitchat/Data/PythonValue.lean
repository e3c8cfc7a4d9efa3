import Bitchat.Data.Text
import Mathlib.Data.Rat.Defs

/-! Values of Python as a function meets them that has to look at the type of its argument, and
the conversions such functions try. -/

namespace Python
open Str

inductive Error where
  | valueError
  | typeError
  | overflowError
  | other (name : Str)
deriving DecidableEq

inductive Floating where
  | finite (value : ℚ)
  | infinity (negative : Bool)
  | nan
deriving DecidableEq

/-- A key of a dictionary; of one that is no text, what `str` makes of it and whether it is true. -/
inductive Key where
  | text (name : Str)
  | other (shown : Str) (truth : Bool)
deriving DecidableEq

def Key.shown : Key → Str
  | .text name => name
  | .other shown _ => shown

def Key.truth : Key → Bool
  | .text name => name ≠ []
  | .other _ truth => truth

/-- An `object` is of any other type; what is asked of it is its hash and its `__int__`. -/
inductive Value where
  | none
  | bool (truth : Bool)
  | int (number : Int)
  | float (number : Floating)
  | str (text : Str)
  | list (items : List Value)
  | dict (entries : List (Key × Value))
  | object (hashable : Bool) (asInt : Except Error Int)

/-- What `json.load` returns: texts for keys, no key twice. -/
inductive IsJson : Value → Prop where
  | none : IsJson .none
  | bool (truth : Bool) : IsJson (.bool truth)
  | int (number : Int) : IsJson (.int number)
  | float (number : Floating) : IsJson (.float number)
  | str (text : Str) : IsJson (.str text)
  | list {items : List Value} : (∀ item ∈ items, IsJson item) → IsJson (.list items)
  | dict {entries : List (Key × Value)} : (∀ e ∈ entries, ∃ text, e.1 = .text text) →
      (entries.map Prod.fst).Nodup → (∀ e ∈ entries, IsJson e.2) → IsJson (.dict entries)

/-- The value under a text. -/
def lookup (entries : List (Key × Value)) (name : Str) : Option Value :=
  (entries.find? fun e => e.1 = .text name).map Prod.snd

/-- `dict.get`. -/
def get (entries : List (Key × Value)) (name : Str) : Value := (lookup entries name).getD .none

/-- Unicode's table of decimal digits; results that use it hold for any table. -/
class DigitTable where
  digit : Char → Option Nat

/-- The table restricted to the digits 0 to 9. -/
@[reducible] def asciiDigits : DigitTable where
  digit c := if 0x30 ≤ c.toNat ∧ c.toNat ≤ 0x39 then some (c.toNat - 0x30) else none

namespace Value

def text? : Value → Option Str
  | .str text => some text
  | _ => Option.none

/-- The entries of a dictionary. -/
def dict? : Value → Option (List (Key × Value))
  | .dict entries => some entries
  | _ => Option.none

/-- The entries of a dictionary, of another value none. -/
def items (value : Value) : List (Key × Value) := value.dict?.getD []

/-- `hash`, which the test for membership of a set needs. -/
def hashable : Value → Bool
  | .list _ | .dict _ => false
  | .object hashable _ => hashable
  | _ => true

def isInfinite : Value → Bool
  | .float (.infinity _) => true
  | _ => false

end Value

section
variable [DigitTable]

/-- Decimal digits, with single underscores between them. -/
def digits : Str → Option (List Nat)
  | [] => none
  | [c] => (DigitTable.digit c).map fun d => [d]
  | c :: '_' :: rest => do return (← DigitTable.digit c) :: (← digits rest)
  | c :: rest => do return (← DigitTable.digit c) :: (← digits rest)

/-- `int` of a text, `none` where it raises `ValueError`. -/
def readInt (text : Str) : Option Int :=
  -- the separators U+001C to U+001F are white space to `str`, not to `int`
  let around (c : Char) : Bool := isSpace c && !(0x1C ≤ c.toNat && c.toNat ≤ 0x1F)
  let inner := ((text.dropWhile around).reverse.dropWhile around).reverse
  let natural (digitsText : Str) : Option Int := do
    let found ← digits digitsText
    -- the interpreter's limit on the digits of a conversion
    guard (found.length ≤ 4300)
    return ((found.foldl (fun n d => 10 * n + d) 0 : Nat) : Int)
  match inner with
  | '-' :: rest => (natural rest).map fun n => -n
  | '+' :: rest => natural rest
  | rest => natural rest

/-- `int`. -/
def Value.toInt : Value → Except Error Int
  | .bool truth => .ok (if truth then 1 else 0)
  | .int number => .ok number
  | .float (.finite value) => .ok (value.num.tdiv value.den)
  | .float (.infinity _) => .error .overflowError
  | .float .nan => .error .valueError
  | .str text => match readInt text with
    | some number => .ok number
    | Option.none => .error .valueError
  | .object _ asInt => asInt
  | .none | .list _ | .dict _ => .error .typeError

example : @readInt asciiDigits " -1_000 ".toList = some (-1000) := by decide

/-- No value of a file but an infinite one makes `int` raise anything else than the two errors
that its callers catch. -/
theorem Value.toInt_json {value : Value} (json : IsJson value) :
    (value.isInfinite = true ∧ value.toInt = .error .overflowError) ∨
      (value.isInfinite = false ∧ ((∃ number, value.toInt = .ok number) ∨
        value.toInt = .error .valueError ∨ value.toInt = .error .typeError)) := by
  cases json with
  | none => exact .inr ⟨rfl, .inr (.inr rfl)⟩
  | bool truth => exact .inr ⟨rfl, .inl ⟨_, rfl⟩⟩
  | int number => exact .inr ⟨rfl, .inl ⟨_, rfl⟩⟩
  | float number =>
    cases number with
    | finite value => exact .inr ⟨rfl, .inl ⟨_, rfl⟩⟩
    | infinity negative => exact .inl ⟨rfl, rfl⟩
    | nan => exact .inr ⟨rfl, .inr (.inl rfl)⟩
  | str text =>
    refine .inr ⟨rfl, ?_⟩
    cases read : readInt text with
    | some number => exact .inl ⟨number, by simp only [toInt, read]⟩
    | none => exact .inr (.inl (by simp only [toInt, read]))
  | list _ => exact .inr ⟨rfl, .inr (.inr rfl)⟩
  | dict _ _ _ => exact .inr ⟨rfl, .inr (.inr rfl)⟩

end

/-- What stands under a name in a dictionary of a file is a value of a file. -/
theorem lookup_json {entries : List (Key × Value)} {name : Str} {value : Value}
    (json : IsJson (.dict entries)) (found : lookup entries name = some value) : IsJson value := by
  cases json with
  | dict _ _ values =>
    obtain ⟨e, first, rfl⟩ := Option.map_eq_some_iff.mp found
    exact values e (List.mem_of_find?_eq_some first)

theorem get_json {entries : List (Key × Value)} {name : Str} (json : IsJson (.dict entries)) :
    IsJson (get entries name) := by
  rw [get]
  cases found : lookup entries name with
  | none => exact .none
  | some value => exact lookup_json json found

theorem IsJson.texts {value : Value} (json : IsJson value) : ∀ e ∈ value.items, ∃ name, e.1 = .text name := by
  cases json with
  | dict texts _ _ => exact texts
  | _ => exact fun _ member => nomatch member

end Python
