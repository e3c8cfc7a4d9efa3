import Bitchat.Data.Bytes

/-! Character strings as sequences of code points, with the operations on white
space, letter case and hexadecimal digits that identifiers go through. -/

abbrev Str := List Char

namespace Str

instance : LawfulBEq Str := inferInstance

/-- The characters `str.isspace` accepts. -/
def isSpace (c : Char) : Bool :=
  let n := c.toNat
  (0x09 ≤ n && n ≤ 0x0D) || (0x1C ≤ n && n ≤ 0x20) || n == 0x85 || n == 0xA0 || n == 0x1680 ||
    (0x2000 ≤ n && n ≤ 0x200A) || n == 0x2028 || n == 0x2029 || n == 0x202F || n == 0x205F ||
    n == 0x3000

def strip (s : Str) : Str := ((s.dropWhile isSpace).reverse.dropWhile isSpace).reverse

/-- Unicode lower-casing is a table; results that use it hold for any table. -/
class CaseMapping where
  lower : Str → Str

/-- The table restricted to the letters A to Z. -/
@[reducible] def asciiCase : CaseMapping where
  lower s := s.map Char.toLower

/-- What is used of lower-casing elsewhere: once is enough, and no text stays no text. -/
class LawfulLower [CaseMapping] : Prop where
  lower_lower : ∀ s, CaseMapping.lower (CaseMapping.lower s) = CaseMapping.lower s
  lower_nil : CaseMapping.lower [] = []

def hexDigit (n : Nat) : Char := ['0', '1', '2', '3', '4', '5', '6', '7', '8', '9', 'a', 'b', 'c',
  'd', 'e', 'f'].getD n '0'

/-- `bytes.hex`. -/
def hex (data : Bytes) : Str :=
  data.flatMap fun b => [hexDigit (b.toNat / 16), hexDigit (b.toNat % 16)]

def hexValue (c : Char) : Option Nat :=
  let n := c.toNat
  if 0x30 ≤ n ∧ n ≤ 0x39 then some (n - 0x30)
  else if 0x41 ≤ n ∧ n ≤ 0x46 then some (n - 0x41 + 10)
  else if 0x61 ≤ n ∧ n ≤ 0x66 then some (n - 0x61 + 10)
  else none

/-- ASCII white space, which `bytes.fromhex` skips between two bytes. -/
def isAsciiSpace (c : Char) : Bool := c.toNat == 0x20 || (0x09 ≤ c.toNat && c.toNat ≤ 0x0D)

/-- `bytes.fromhex`, `none` where Python raises `ValueError`. -/
def fromHex : Str → Option Bytes
  | [] => some []
  | c :: rest =>
    if isAsciiSpace c then fromHex rest else
      match rest with
      | [] => none
      | d :: rest =>
        match hexValue c, hexValue d with
        | some high, some low => (fromHex rest).map (UInt8.ofNat (16 * high + low) :: ·)
        | _, _ => none

theorem hex_length (data : Bytes) : (hex data).length = 2 * data.length := by
  induction data with
  | nil => rfl
  | cons b rest ih =>
    simp only [hex, List.flatMap_cons, List.length_append, List.length_cons, List.length_nil] at ih ⊢
    omega

theorem hexDigit_spec {n : Nat} (h : n < 16) :
    hexValue (hexDigit n) = some n ∧ isAsciiSpace (hexDigit n) = false := by
  revert n
  decide

theorem fromHex_hex (data : Bytes) : fromHex (hex data) = some data := by
  induction data with
  | nil => rfl
  | cons b rest ih =>
    have hb : b.toNat < 256 := b.toNat_lt
    obtain ⟨high, notSpace⟩ := hexDigit_spec (n := b.toNat / 16) (by omega)
    have low := (hexDigit_spec (n := b.toNat % 16) (by omega)).1
    have whole : UInt8.ofNat (16 * (b.toNat / 16) + b.toNat % 16) = b := by
      rw [Nat.div_add_mod]
      simp
    change fromHex (hexDigit (b.toNat / 16) :: hexDigit (b.toNat % 16) :: hex rest) = _
    simp only [fromHex, notSpace, Bool.false_eq_true, if_false, high, low, ih, Option.map_some, whole]

theorem hexDigit_not_space (n : Nat) : isSpace (hexDigit n) = false := by
  by_cases h : n < 16
  · revert n
    decide
  · have : hexDigit n = '0' := by simp [hexDigit, not_lt.mp h]
    rw [this]
    rfl

theorem dropWhile_self {s : Str} (visible : ∀ c ∈ s.head?, isSpace c = false) :
    s.dropWhile isSpace = s := by
  cases s with
  | nil => rfl
  | cons c rest => rw [List.dropWhile_cons_of_neg (by simp [visible c rfl])]

theorem strip_of_no_space {s : Str} (visible : ∀ c ∈ s, isSpace c = false) : strip s = s := by
  have first : ∀ c ∈ s.head?, isSpace c = false := fun c head => visible c (List.mem_of_head? head)
  have last : ∀ c ∈ s.reverse.head?, isSpace c = false :=
    fun c head => visible c (List.mem_reverse.mp (List.mem_of_head? head))
  rw [strip, dropWhile_self first, dropWhile_self last, List.reverse_reverse]

theorem strip_hex (data : Bytes) : strip (hex data) = hex data := by
  apply strip_of_no_space
  intro c member
  obtain ⟨b, _, digit⟩ := List.mem_flatMap.mp member
  rcases List.mem_pair.mp digit with rfl | rfl
  · apply hexDigit_not_space
  · apply hexDigit_not_space

/-- Hexadecimal digits are written in lower case. -/
theorem asciiCase_lower_hex (data : Bytes) : asciiCase.lower (hex data) = hex data := by
  have digit : ∀ n < 16, (hexDigit n).toLower = hexDigit n := by decide
  change (hex data).map Char.toLower = hex data
  conv_rhs => rw [← List.map_id (hex data)]
  apply List.map_congr_left
  intro c member
  obtain ⟨b, _, either⟩ := List.mem_flatMap.mp member
  have bound : b.toNat < 256 := b.toNat_lt
  rcases List.mem_pair.mp either with rfl | rfl
  · exact digit _ (by omega)
  · exact digit _ (by omega)

theorem head_dropWhile (s : Str) : ∀ c ∈ (s.dropWhile isSpace).head?, isSpace c = false := by
  intro c first
  have := List.head?_dropWhile_not isSpace s
  rw [Option.mem_def.mp first] at this
  simpa using this

theorem head_strip (s : Str) : ∀ c ∈ (strip s).head?, isSpace c = false := by
  intro c first
  have leading : strip s <+: s.dropWhile isSpace := by
    rw [← List.reverse_suffix, strip, List.reverse_reverse]
    exact List.dropWhile_suffix isSpace
  obtain ⟨rest, whole⟩ := leading
  apply head_dropWhile s c
  rw [← whole]
  cases same : strip s with
  | nil => simp [same] at first
  | cons d t => simpa [same] using first

theorem strip_strip (s : Str) : strip (strip s) = strip s := by
  have inner : (strip s).dropWhile isSpace = strip s := dropWhile_self (head_strip s)
  conv_lhs => rw [strip, inner]
  rw [strip, List.reverse_reverse, dropWhile_self (head_dropWhile _)]

theorem strip_length_le (s : Str) : (strip s).length ≤ s.length := by
  rw [strip, List.length_reverse]
  have inner := (List.dropWhile_suffix (l := (s.dropWhile isSpace).reverse) isSpace).length_le
  have outer := (List.dropWhile_suffix (l := s) isSpace).length_le
  rw [List.length_reverse] at inner
  omega

theorem getLast_strip (s : Str) : ∀ c ∈ (strip s).getLast?, isSpace c = false := by
  rw [strip, List.getLast?_reverse]
  exact head_dropWhile _

theorem strip_eq_self_iff {s : Str} : strip s = s ↔
    (∀ c ∈ s.head?, isSpace c = false) ∧ ∀ c ∈ s.getLast?, isSpace c = false := by
  constructor
  · intro fixed
    rw [← fixed]
    exact ⟨head_strip s, getLast_strip s⟩
  · rintro ⟨first, last⟩
    rw [← List.head?_reverse] at last
    rw [strip, dropWhile_self first, dropWhile_self last, List.reverse_reverse]

/-- A stripped text that is cut ends in space if and only if its last character kept is one. -/
theorem strip_take_iff {s : Str} (fixed : strip s = s) (n : Nat) :
    strip (s.take (n + 1)) = s.take (n + 1) ↔ ∀ c ∈ s[n]?, isSpace c = false := by
  have ends := strip_eq_self_iff.mp fixed
  have first : (s.take (n + 1)).head? = s.head? := by cases s <;> rfl
  rw [strip_eq_self_iff, first, List.getLast?_take]
  cases char : s[n]? with
  | none => simpa [char] using ends
  | some c => simpa [char] using fun _ => ends.1

theorem strip_take_ne_nil {s : Str} (visible : strip s ≠ []) (n : Nat) :
    strip ((strip s).take (n + 1)) ≠ [] := by
  obtain ⟨c, rest, text⟩ := List.exists_cons_of_ne_nil visible
  have shown : isSpace c = false := head_strip s c (by rw [text]; rfl)
  rw [text, List.take_succ_cons, strip, List.dropWhile_cons_of_neg (by simp [shown]), ne_eq,
    List.reverse_eq_nil_iff, List.reverse_cons, List.dropWhile_append]
  split
  · simp [shown]
  · simp

theorem strip_map {f : Char → Char} (keeps : ∀ c, isSpace (f c) = isSpace c) (s : Str) :
    strip (s.map f) = (strip s).map f := by
  have same : isSpace ∘ f = isSpace := funext keeps
  simp only [strip, List.dropWhile_map, same, ← List.map_reverse]

/-- A letter is put in lower case once, and space stays space. -/
theorem toLower_cases (c : Char) : c.toLower.toLower = c.toLower ∧ isSpace c.toLower = isSpace c := by
  have letter : ∀ n < 91, 65 ≤ n → (Char.ofNat n).toLower = Char.ofNat (n + 32) ∧
      (Char.ofNat (n + 32)).toLower = Char.ofNat (n + 32) ∧
      isSpace (Char.ofNat (n + 32)) = isSpace (Char.ofNat n) := by decide
  by_cases upper : 'A'.val ≤ c.val ∧ c.val ≤ 'Z'.val
  · have low : 65 ≤ c.toNat := UInt32.le_iff_toNat_le.mp upper.1
    have high : c.toNat ≤ 90 := UInt32.le_iff_toNat_le.mp upper.2
    obtain ⟨lower, again⟩ := letter c.toNat (by omega) low
    rw [Char.ofNat_toNat] at lower again
    rw [lower]
    exact again
  · have same : c.toLower = c := dif_neg upper
    rw [same, same]
    exact ⟨rfl, rfl⟩

theorem asciiCase_lawfulLower : @LawfulLower asciiCase := by
  let _ : CaseMapping := asciiCase
  constructor
  · intro s
    change (s.map Char.toLower).map Char.toLower = s.map Char.toLower
    rw [List.map_map]
    exact List.map_congr_left fun c _ => (toLower_cases c).1
  · rfl

/-- Unicode's table as far as white space and the letters of ASCII go. -/
class UnicodeLower [CaseMapping] : Prop where
  lower_lower : ∀ s, CaseMapping.lower (CaseMapping.lower s) = CaseMapping.lower s
  strip_lower : ∀ s, strip (CaseMapping.lower s) = CaseMapping.lower (strip s)
  lower_eq_nil : ∀ s, CaseMapping.lower s = [] ↔ s = []
  lower_ascii : ∀ s, (∀ c ∈ s, c.toNat < 128) → CaseMapping.lower s = s.map Char.toLower

theorem asciiCase_unicodeLower : @UnicodeLower asciiCase := by
  let _ : CaseMapping := asciiCase
  constructor
  · exact asciiCase_lawfulLower.lower_lower
  · exact strip_map fun c => (toLower_cases c).2
  · exact fun s => List.map_eq_nil_iff
  · exact fun s _ => rfl

theorem lower_fixed [CaseMapping] [UnicodeLower] {s : Str}
    (small : ∀ c ∈ s, c.toNat < 128 ∧ c.toLower = c) : CaseMapping.lower s = s := by
  rw [UnicodeLower.lower_ascii s fun c member => (small c member).1]
  conv_rhs => rw [← List.map_id s]
  exact List.map_congr_left fun c member => (small c member).2

/-- ASCII text without capitals. -/
def isPlain (s : Str) : Bool := s.all fun c => c.toNat < 128 ∧ c.toLower = c

theorem lower_plain [CaseMapping] [UnicodeLower] {s : Str} (plain : isPlain s = true) :
    CaseMapping.lower s = s :=
  lower_fixed fun c member => of_decide_eq_true (List.all_eq_true.mp plain c member)

/-- `str.encode`. -/
def encodeUtf8 (text : Str) : Bytes := text.flatMap String.utf8EncodeChar

/-- `bytes.decode`, `none` where the bytes are no UTF-8. -/
def decodeUtf8 (data : Bytes) : Option Str := data.toByteArray.utf8Decode?.map Array.toList

theorem decodeUtf8_encodeUtf8 (text : Str) : decodeUtf8 (encodeUtf8 text) = some text := by
  rw [decodeUtf8, encodeUtf8]
  change Option.map _ (List.utf8Encode text).utf8Decode? = _
  rw [List.utf8Decode?_utf8Encode]
  rfl

theorem encodeUtf8_length {text : Str} (small : ∀ c ∈ text, c.toNat < 128) :
    (encodeUtf8 text).length = text.length := by
  induction text with
  | nil => rfl
  | cons c text ih =>
    obtain ⟨first, small⟩ := List.forall_mem_cons.mp small
    have one : c.utf8Size = 1 :=
      Char.utf8Size_eq_one_iff.mpr (UInt32.le_iff_toNat_le.mpr (Nat.le_of_lt_succ first))
    rw [encodeUtf8, List.flatMap_cons, List.length_append, String.length_utf8EncodeChar, one,
      List.length_cons, Nat.add_comm]
    exact congrArg Nat.succ (ih small)

theorem hex_injective : Function.Injective hex := by
  intro a b same
  have h := congrArg fromHex same
  rwa [fromHex_hex, fromHex_hex, Option.some.injEq] at h

end Str
