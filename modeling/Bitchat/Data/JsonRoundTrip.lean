import Bitchat.Data.Json

/-! A flat dictionary that is written as JSON is read back: its texts through their escapes, its
numerals, and its entries in their order. -/

namespace Json
open Python Str

section RoundTrip
variable {text rest : Str} {c : Char}

theorem hex4_digits {unit : Nat} (small : unit < 0x10000) :
    hex4 (hexDigit (unit / 4096)) (hexDigit (unit / 256 % 16)) (hexDigit (unit / 16 % 16))
      (hexDigit (unit % 16)) = some unit := by
  have first := (hexDigit_spec (n := unit / 4096) (by omega)).1
  have second := (hexDigit_spec (n := unit / 256 % 16) (by omega)).1
  have third := (hexDigit_spec (n := unit / 16 % 16) (by omega)).1
  have last := (hexDigit_spec (n := unit % 16) (by omega)).1
  simp only [hex4, first, second, third, last, Option.pure_def, Option.bind_eq_bind, Option.bind_some,
    Option.some.injEq]
  omega

theorem units_escapeUnit {unit : Nat} (small : unit < 0x10000) (rest : Str) :
    units (escapeUnit unit ++ rest) = (units rest).map fun p => (unit :: p.1, p.2) := by
  simp only [escapeUnit, List.cons_append, List.nil_append, units, hex4_digits small, Option.bind_eq_bind,
    Option.bind_some, Option.pure_def, Option.map_eq_bind]
  rfl

theorem units_short {e : Char} (named : shortEscape e = some c) (rest : Str) :
    units ('\\' :: e :: rest) = (units rest).map fun p => (c.toNat :: p.1, p.2) := by
  have other : e ≠ 'u' := by
    rintro rfl
    cases named
  rw [units.eq_4 _ _ fun _ _ _ _ _ same _ => other same]
  simp only [named, Option.bind_eq_bind, Option.bind_some, Option.pure_def, Option.map_eq_bind]
  rfl

theorem units_plain (quote : c ≠ '"') (escape : c ≠ '\\') (visible : 0x20 ≤ c.toNat) (rest : Str) :
    units (c :: rest) = (units rest).map fun p => (c.toNat :: p.1, p.2) := by
  rw [units.eq_5 _ _ quote (fun _ _ _ _ _ same _ => escape same) fun _ _ same _ => escape same]
  simp only [visible, escape, ne_eq, not_false_eq_true, and_self, guard_true, Option.bind_eq_bind,
    Option.pure_def, Option.bind_some, Option.map_eq_bind]
  rfl

theorem char_range (c : Char) : c.toNat < 0xD800 ∨ (0xDFFF < c.toNat ∧ c.toNat < 0x110000) := c.valid

theorem units_escape (c : Char) (rest : Str) :
    units (escape c ++ rest) = (units rest).map fun p => (unitsOf c ++ p.1, p.2) := by
  unfold escape
  split
  case h_8 quote backslash _ _ _ _ _ =>
    split
    · next shown =>
      have small : c.toNat < 0x10000 := by omega
      rw [unitsOf, if_pos small]
      exact units_plain quote backslash shown.1 rest
    · have range := char_range c
      rw [unitsOf]
      split
      · next small =>
        rw [List.flatMap_singleton, units_escapeUnit small]
        rfl
      · have high : 0xD800 + (c.toNat - 0x10000) / 0x400 < 0x10000 := by omega
        have low : 0xDC00 + (c.toNat - 0x10000) % 0x400 < 0x10000 := by omega
        rw [List.flatMap_cons, List.flatMap_singleton, List.append_assoc, units_escapeUnit high,
          units_escapeUnit low, Option.map_map]
        rfl
  all_goals exact units_short rfl rest

/-- The code units of the escapes are those of the text. -/
theorem units_text (text rest : Str) :
    units (text.flatMap escape ++ '"' :: rest) = some (text.flatMap unitsOf, rest) := by
  induction text with
  | nil => rfl
  | cons c text ih =>
    rw [List.flatMap_cons, List.append_assoc, units_escape, ih]
    rfl

theorem joined_cons {unit : Nat} (low : ¬ (0xD800 ≤ unit ∧ unit < 0xDC00)) (more : List Nat) :
    joined (unit :: more) = single unit :: joined more := by
  cases more with
  | nil => rfl
  | cons next more =>
    have apart : isPair unit next = false := by
      rw [isPair, decide_eq_false_iff_not]
      exact fun pair => low ⟨pair.1, pair.2.1⟩
    rw [joined, apart]
    rfl

theorem joined_units (c : Char) (more : List Nat) : joined (unitsOf c ++ more) = c :: joined more := by
  have range := char_range c
  unfold unitsOf
  split
  · next small =>
    rw [List.singleton_append, joined_cons (by omega), single, if_neg (by omega), Char.ofNat_toNat]
  · next large =>
    have pair : isPair (0xD800 + (c.toNat - 0x10000) / 0x400)
        (0xDC00 + (c.toNat - 0x10000) % 0x400) = true := by
      rw [isPair, decide_eq_true_eq]
      omega
    have whole : 0x10000 + (0xD800 + (c.toNat - 0x10000) / 0x400 - 0xD800) * 0x400 +
        (0xDC00 + (c.toNat - 0x10000) % 0x400 - 0xDC00) = c.toNat := by
      omega
    rw [List.cons_append, List.singleton_append, joined, if_pos pair, whole, Char.ofNat_toNat]

theorem string_text (text rest : Str) : string (text.flatMap escape ++ '"' :: rest) = some (text, rest) := by
  have letters : joined (text.flatMap unitsOf) = text := by
    induction text with
    | nil => rfl
    | cons c text ih => rw [List.flatMap_cons, joined_units, ih]
  rw [string, units_text, Option.map_some, letters]

section Numbers
variable {n : Nat}

theorem takeWhile_digits {digits : Str} (all : ∀ c ∈ digits, c.isDigit = true)
    (behind : ∀ c ∈ rest.head?, c.isDigit = false) : (digits ++ rest).takeWhile Char.isDigit = digits := by
  rw [List.takeWhile_append_of_pos all]
  cases rest with
  | nil => simp
  | cons c rest => rw [List.takeWhile_cons_of_neg (by simp [behind c rfl]), List.append_nil]

/-- A numeral has no leading zero. -/
theorem toDigits_leading (positive : n ≠ 0) : ∃ d more, Nat.toDigits 10 n = d :: more ∧ d ≠ '0' := by
  induction n using Nat.strong_induction_on with
  | h n ih =>
    by_cases small : n < 10
    · have digits : ∀ m < 10, m ≠ 0 → m.digitChar ≠ '0' := by decide
      exact ⟨_, [], Nat.toDigits_of_lt_base small, digits n small positive⟩
    · obtain ⟨d, more, shorter, leading⟩ := ih (n / 10) (by omega) (by omega)
      rw [Nat.toDigits_of_base_le (by decide) (not_lt.mp small), shorter]
      exact ⟨d, _, rfl, leading⟩

theorem toDigits_digit (n : Nat) : ∀ c ∈ Nat.toDigits 10 n, c.isDigit = true :=
  fun _ digit => Nat.isDigit_of_mem_toDigits (by decide) (by decide) digit

/-- What may stand behind a numeral so that it ends there. -/
def EndsNumeral (rest : Str) : Prop :=
  ∀ c ∈ rest.head?, c.isDigit = false ∧ c ≠ '.' ∧ c ≠ 'e' ∧ c ≠ 'E'

theorem whole_toDigits (ends : EndsNumeral rest) (n : Nat) :
    whole (Nat.toDigits 10 n ++ rest) = Nat.toDigits 10 n := by
  by_cases zero : n = 0
  · subst zero
    rfl
  · have taken := takeWhile_digits (toDigits_digit n) fun c first => (ends c first).1
    obtain ⟨d, more, digits, leading⟩ := toDigits_leading zero
    rw [digits, List.cons_append] at taken ⊢
    rw [← taken]
    exact whole.eq_2 _ fun _ same => leading (List.cons.inj same).1

theorem fraction_ends (ends : EndsNumeral rest) : fraction rest = [] := by
  unfold fraction
  split
  · exact absurd rfl (ends _ rfl).2.1
  · rfl

theorem exponent_ends (ends : EndsNumeral rest) : exponent rest = [] := by
  cases rest with
  | nil => rfl
  | cons c rest =>
    obtain ⟨_, _, lower, upper⟩ := ends c rfl
    simp only [exponent, lower, upper, or_self, false_and, if_false]

theorem number_toDigits [FloatReader] (ends : EndsNumeral rest)
    (short : (Nat.toDigits 10 n).length ≤ 4300) :
    number (Nat.toDigits 10 n ++ rest) = some (.int n, rest) := by
  have unsigned : (Nat.toDigits 10 n ++ rest).head? ≠ some '-' := by
    intro sign
    rw [List.head?_append_of_ne_nil _ Nat.toDigits_ne_nil] at sign
    have digit := toDigits_digit n _ (List.mem_of_mem_head? sign)
    revert digit
    decide
  unfold number
  simp only [if_neg unsigned, whole_toDigits ends, List.drop_left, fraction_ends ends, exponent_ends ends,
    List.length_nil, List.drop_zero, Nat.toDigits_ne_nil, ne_eq, not_true, or_self, if_false,
    not_lt.mpr short, Nat.ofDigitChars_ten_toDigits]

end Numbers

section Entries
variable {fuel : Nat} {entries : List (Str × Scalar)}

/-- The interpreter writes and reads numerals of at most this many digits. -/
def Scalar.Fits : Scalar → Prop
  | .text _ => True
  | .number n => (Nat.toDigits 10 n).length ≤ 4300

theorem skip_visible {c : Char} (visible : isBlank c = false) (rest : Str) : skip (c :: rest) = c :: rest :=
  List.dropWhile_cons_of_neg (by simp [visible])

theorem constants_digit {d : Char} (digit : d.isDigit = true) (more : Str) :
    constants.find? (fun e => e.1.isPrefixOf (d :: more)) = none := by
  rw [List.find?_eq_none]
  intro e named starts
  have letters : ∀ e ∈ constants, e.1.head?.map Char.isDigit = some false := by decide
  obtain ⟨c, first, letter⟩ := Option.map_eq_some_iff.mp (letters e named)
  obtain ⟨behind, spelled⟩ := List.isPrefixOf_iff_prefix.mp starts
  obtain ⟨tail, name⟩ := List.head?_eq_some_iff.mp first
  rw [name, List.cons_append] at spelled
  rw [(List.cons.inj spelled).1, digit] at letter
  cases letter

theorem enter_new {before : List (Key × Value)} {e : Str × Value}
    (new : .text e.1 ∉ before.map Prod.fst) : enter before e = before ++ [(.text e.1, e.2)] :=
  if_neg new

/-- Without a key twice the entries stay as they are. -/
theorem foldl_enter {read : List (Str × Value)} (once : (read.map Prod.fst).Nodup)
    (before : List (Key × Value)) (new : ∀ e ∈ read, .text e.1 ∉ before.map Prod.fst) :
    read.foldl enter before = before ++ read.map fun e => (.text e.1, e.2) := by
  induction read generalizing before with
  | nil => simp
  | cons e read ih =>
    obtain ⟨first, once⟩ := List.nodup_cons.mp once
    rw [List.foldl_cons, enter_new (new e List.mem_cons_self), ih once]
    · rw [List.append_assoc]
      rfl
    · intro f member
      rw [List.map_append, List.mem_append, not_or]
      refine ⟨new f (List.mem_cons_of_mem _ member), ?_⟩
      intro same
      have named : f.1 = e.1 := Key.text.inj (List.mem_singleton.mp same)
      exact first (named ▸ List.mem_map_of_mem member)

theorem head_write (some' : entries ≠ []) (rest : Str) : (writeEntries entries ++ rest).head? = some '"' := by
  cases entries with
  | nil => exact absurd rfl some'
  | cons e entries => cases entries <;> rfl

theorem skip_write (some' : entries ≠ []) (rest : Str) :
    skip (writeEntries entries ++ rest) = writeEntries entries ++ rest := by
  obtain ⟨tail, text⟩ := List.head?_eq_some_iff.mp (head_write some' rest)
  rw [text]
  exact skip_visible rfl tail

variable [FloatReader]

theorem value_digit {d : Char} (digit : d.isDigit = true) (more : Str) :
    value (fuel + 1) (d :: more) = number (d :: more) := by
  have other (c : Char) (no : c.isDigit = false) (tail : Str) (same : d :: more = c :: tail) : False := by
    rw [(List.cons.inj same).1, no] at digit
    cases digit
  rw [value.eq_5 _ _ (other _ rfl) (other _ rfl) (other _ rfl), constants_digit digit]

theorem value_write (fuel : Nat) {scalar : Scalar} (fits : scalar.Fits) (ends : EndsNumeral rest) :
    value (fuel + 1) (scalar.write ++ rest) = some (scalar.value, rest) ∧
      skip (scalar.write ++ rest) = scalar.write ++ rest := by
  cases scalar with
  | text t =>
    refine ⟨?_, skip_visible rfl _⟩
    simp only [Scalar.write, quote, List.cons_append, List.append_assoc, List.nil_append, value,
      string_text, Option.map_some]
    rfl
  | number n =>
    have read := number_toDigits ends fits
    obtain ⟨d, more, digits⟩ := List.exists_cons_of_ne_nil (Nat.toDigits_ne_nil : Nat.toDigits 10 n ≠ [])
    have digit : d.isDigit = true := toDigits_digit n d (by rw [digits]; exact List.mem_cons_self)
    simp only [Scalar.write, Scalar.value]
    have shown : isBlank d = false := by
      rw [isBlank, decide_eq_false_iff_not]
      rintro (rfl | rfl | rfl | rfl) <;> exact absurd digit (by decide)
    rw [digits, List.cons_append] at read ⊢
    exact ⟨(value_digit digit _).trans read, skip_visible shown _⟩

theorem member_write (fuel : Nat) (name : Str) {scalar : Scalar} (fits : scalar.Fits)
    (ends : EndsNumeral rest) :
    member (value (fuel + 1)) (quote name ++ ':' :: scalar.write ++ rest) =
      some ((name, scalar.value), rest) := by
  obtain ⟨read, shown⟩ := value_write fuel fits ends
  have key := string_text name (':' :: (scalar.write ++ rest))
  have colon : skip (':' :: (scalar.write ++ rest)) = ':' :: (scalar.write ++ rest) := skip_visible rfl _
  simp only [quote, List.cons_append, List.append_assoc, List.nil_append, member, key, colon, shown, read,
    Option.bind_eq_bind, Option.bind_some, Option.pure_def]

/-- The reader takes the entries back one by one. -/
theorem listed_write (fuel : Nat) (rest : Str) (fits : ∀ e ∈ entries, e.2.Fits) (some' : entries ≠ [])
    {count : Nat} (enough : entries.length ≤ count) :
    listed (member (value (fuel + 1))) '}' count (writeEntries entries ++ '}' :: rest) =
      some (entries.map fun e => (e.1, e.2.value), rest) := by
  have comma (rest : Str) : EndsNumeral (',' :: rest) := by
    rintro _ ⟨⟩
    decide
  have brace : EndsNumeral ('}' :: rest) := by
    rintro _ ⟨⟩
    decide
  induction entries generalizing count with
  | nil => exact absurd rfl some'
  | cons e entries ih =>
    obtain ⟨count, rfl⟩ := Nat.exists_eq_succ_of_ne_zero (Nat.ne_zero_of_lt enough)
    have here := fits e List.mem_cons_self
    cases entries with
    | nil =>
      have read := member_write fuel e.1 here brace
      have last : skip ('}' :: rest) = '}' :: rest := skip_visible rfl _
      simp only [writeEntries, listed, read, last, Option.bind_eq_bind, Option.bind_some, if_true,
        Option.pure_def, List.map_cons, List.map_nil]
    | cons f entries =>
      have later := ih (fun e he => fits e (List.mem_cons_of_mem _ he)) (List.cons_ne_nil _ _)
        (Nat.le_of_succ_le_succ enough)
      have read := member_write fuel e.1 here
        (comma (writeEntries (f :: entries) ++ '}' :: rest))
      have next : skip (',' :: (writeEntries (f :: entries) ++ '}' :: rest)) =
          ',' :: (writeEntries (f :: entries) ++ '}' :: rest) := skip_visible rfl _
      have behind := skip_write (List.cons_ne_nil f entries) ('}' :: rest)
      have text : writeEntries (e :: f :: entries) ++ '}' :: rest =
          quote e.1 ++ ':' :: e.2.write ++ ',' :: (writeEntries (f :: entries) ++ '}' :: rest) := by
        rw [writeEntries, List.append_assoc, List.cons_append]
        exact List.cons_ne_nil _ _
      have apart : ¬ ',' = '}' := by decide
      rw [text, listed, read]
      simp only [next, apart, behind, later, Option.bind_eq_bind, Option.bind_some, if_false, if_true,
        Option.pure_def, List.map_cons]

/-- What is written is read back. -/
theorem loads_dumps (fits : ∀ e ∈ entries, e.2.Fits) (once : (entries.map Prod.fst).Nodup) :
    loads (dumps entries) = some (.dict (entries.map fun e => (.text e.1, e.2.value))) := by
  have open' : skip (dumps entries) = dumps entries := skip_visible rfl _
  have closed : skip ([] : Str) = [] := rfl
  suffices read : value ((dumps entries).length + entries.length + 2) (dumps entries) =
      some (.dict (entries.map fun e => (.text e.1, e.2.value)), []) by
    have same : value ((dumps entries).length + 1) (dumps entries) =
        value ((dumps entries).length + entries.length + 2) (dumps entries) :=
      value_fuel (by omega) (by omega)
    simp only [loads, open', same, read, closed, Option.bind_eq_bind, Option.bind_some, guard_true,
      Option.pure_def]
  by_cases none : entries = []
  · subst none
    rfl
  · have entered : (entries.map fun e => (e.1, e.2.value)).foldl enter [] =
        entries.map fun e => (.text e.1, e.2.value) := by
      rw [foldl_enter _ [] (by simp)]
      · simp
      · rwa [List.map_map]
    have visible := skip_write none ['}']
    have shown : (writeEntries entries ++ ['}']).head? ≠ some '}' := by
      rw [head_write none]
      decide
    generalize (dumps entries).length = size
    have items := listed_write (size + entries.length) [] fits none
      (show entries.length ≤ size + entries.length + 1 by omega)
    rw [dumps, List.cons_append, value, visible, if_neg shown, items, Option.map_some, entered]

end Entries

end RoundTrip

section Size
variable {c : Char}

/-- The characters that a character is written with. -/
def escapedSize (c : Char) : Nat :=
  if c ∈ ['"', '\\', '\x08', '\x0c', '\n', '\r', '\t'] then 2
  else if 0x20 ≤ c.toNat ∧ c.toNat ≤ 0x7E then 1
  else if c.toNat < 0x10000 then 6
  else 12

def escapedLength (text : Str) : Nat := (text.map escapedSize).sum

theorem escape_length (c : Char) : (escape c).length = escapedSize c := by
  unfold escape
  split
  case h_8 quote backslash _ _ _ _ _ =>
    have other : c ∉ ['"', '\\', '\x08', '\x0c', '\n', '\r', '\t'] := by
      simp only [List.mem_cons, List.not_mem_nil, or_false, not_or]
      exact ⟨‹_›, ‹_›, ‹_›, ‹_›, ‹_›, ‹_›, ‹_›⟩
    rw [escapedSize, if_neg other]
    split
    · rfl
    · rw [unitsOf]
      split
      · rfl
      · rfl
  all_goals rfl

theorem quote_length (text : Str) : (quote text).length = escapedLength text + 2 := by
  have letters : (text.flatMap escape).length = escapedLength text := by
    rw [List.length_flatMap, escapedLength]
    simp only [escape_length]
  rw [quote, List.length_append, List.length_cons, letters]
  rfl

theorem hexDigit_ascii (n : Nat) : (hexDigit n).toNat < 128 := by
  by_cases small : n < 16
  · revert n
    decide
  · have other : hexDigit n = '0' := by simp [hexDigit, not_lt.mp small]
    rw [other]
    decide

theorem escape_ascii (c : Char) : ∀ d ∈ escape c, d.toNat < 128 := by
  have unit (n : Nat) : ∀ d ∈ escapeUnit n, d.toNat < 128 := by
    intro d member
    simp only [escapeUnit, List.mem_cons, List.not_mem_nil, or_false] at member
    obtain rfl | rfl | rfl | rfl | rfl | rfl := member
    · decide
    · decide
    all_goals exact hexDigit_ascii _
  unfold escape
  split
  case h_8 =>
    split
    · next shown =>
      rw [List.forall_mem_singleton]
      omega
    · intro d member
      obtain ⟨n, _, written⟩ := List.mem_flatMap.mp member
      exact unit n d written
  all_goals exact List.forall_mem_cons.mpr ⟨by decide, List.forall_mem_singleton.mpr (by decide)⟩

theorem quote_ascii (text : Str) : ∀ c ∈ quote text, c.toNat < 128 := by
  have letters : ∀ c ∈ text.flatMap escape, c.toNat < 128 := by
    intro c member
    obtain ⟨d, _, written⟩ := List.mem_flatMap.mp member
    exact escape_ascii d c written
  have mark : ('"').toNat < 128 := by decide
  exact List.forall_mem_append.mpr ⟨List.forall_mem_cons.mpr ⟨mark, letters⟩,
    List.forall_mem_singleton.mpr mark⟩

theorem write_ascii (scalar : Scalar) : ∀ c ∈ scalar.write, c.toNat < 128 := by
  cases scalar with
  | text t => exact quote_ascii t
  | number n =>
    intro c member
    have digit := toDigits_digit n c member
    simp only [Char.isDigit, Bool.and_eq_true, decide_eq_true_eq] at digit
    have high : c.toNat ≤ 57 := UInt32.le_iff_toNat_le.mp digit.2
    omega

theorem entries_ascii (entries : List (Str × Scalar)) : ∀ c ∈ writeEntries entries, c.toNat < 128 := by
  have entry (e : Str × Scalar) : ∀ c ∈ quote e.1 ++ ':' :: e.2.write, c.toNat < 128 :=
    List.forall_mem_append.mpr ⟨quote_ascii e.1, List.forall_mem_cons.mpr ⟨by decide, write_ascii e.2⟩⟩
  fun_induction writeEntries entries with
  | case1 => simp
  | case2 e => exact entry e
  | case3 e rest _ ih =>
    exact List.forall_mem_append.mpr ⟨entry e, List.forall_mem_cons.mpr ⟨by decide, ih⟩⟩

/-- What is written is ASCII. -/
theorem dumps_ascii (entries : List (Str × Scalar)) : ∀ c ∈ dumps entries, c.toNat < 128 :=
  List.forall_mem_append.mpr ⟨List.forall_mem_cons.mpr ⟨by decide, entries_ascii entries⟩,
    List.forall_mem_singleton.mpr (by decide)⟩

end Size
end Json
