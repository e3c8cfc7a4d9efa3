import Bitchat.Data.JsonRoundTrip
import Bitchat.Lan.Discovery

/-! Beacons as datagrams: the JSON that a node sends, and what is read of the JSON that arrives. The
bytes of a beacon grow with the escapes of its texts, and `int` takes more for a base 16 numeral than
digits. -/
namespace Bitchat.Lan
open Python Str

/-- `str` of a floating number, a list or a dictionary; results that use it hold for any. -/
class Rendering where
  shown : Value → Str

/-- `str`. -/
def textOf [Rendering] : Value → Str
  | .str text => text
  | .int number =>
    if number < 0 then '-' :: Nat.toDigits 10 number.natAbs else Nat.toDigits 10 number.natAbs
  | .bool true => "True".toList
  | .bool false => "False".toList
  | .none => "None".toList
  | value => Rendering.shown value

/-- The comparison with the integer one. -/
def isOne : Value → Bool
  | .int number => number = 1
  | .bool truth => truth
  | .float (.finite number) => number = 1
  | _ => false

/-- How `int` spells a character in ASCII: a digit of another script by its value. -/
def asciiForm [DigitTable] (c : Char) : Char :=
  if c.toNat < 128 then c
  else if isSpace c then ' '
  else match DigitTable.digit c with
    | some d => Nat.digitChar d
    | none => '?'

/-- Base 16 digits, with single underscores between them. -/
def base16Digits : Str → Option (List Nat)
  | [] => none
  | [c] => (hexValue c).map fun d => [d]
  | c :: '_' :: rest => do return (← hexValue c) :: (← base16Digits rest)
  | c :: rest => do return (← hexValue c) :: (← base16Digits rest)

/-- The digits behind a sign. An underscore may follow a prefix. -/
def base16Unsigned : Str → Option (List Nat)
  | '0' :: x :: rest =>
    if x = 'x' ∨ x = 'X' then base16Digits (if rest.head? = some '_' then rest.tail else rest)
    else base16Digits ('0' :: x :: rest)
  | rest => base16Digits rest

def base16Signed : Str → Option Int
  | '-' :: rest => (base16Unsigned rest).map fun digits => -(digits.foldl (fun n d => 16 * n + d) 0 : Nat)
  | '+' :: rest => (base16Unsigned rest).map fun digits => (digits.foldl (fun n d => 16 * n + d) 0 : Nat)
  | rest => (base16Unsigned rest).map fun digits => (digits.foldl (fun n d => 16 * n + d) 0 : Nat)

/-- `int` of a text to base 16, `none` where it raises `ValueError`. -/
def readBase16 [DigitTable] (text : Str) : Option Int :=
  base16Signed (((text.map asciiForm).dropWhile isAsciiSpace).reverse.dropWhile isAsciiSpace).reverse

section Wire
variable [Json.FloatReader] [DigitTable] [Rendering]

/-- What `from_bytes` takes from a dictionary. -/
def beaconFields (data : List (Key × Value)) : BeaconFields where
  protocol := (lookup data "protocol".toList).bind Value.text?
  versionIsOne := (lookup data "version".toList).any isOne
  transport := (lookup data "transport".toList).bind Value.text?
  peerId := ((lookup data "peer_id".toList).map textOf).getD []
  port := ((lookup data "port".toList).getD (.int 0)).toInt.toOption
  nickname := ((lookup data "nickname".toList).map textOf).getD "Anonymous".toList
  ssid := ((lookup data "ssid".toList).map textOf).getD []
  instanceId := ((lookup data "instance_id".toList).map textOf).getD []

/-- The standard library's reading. -/
@[reducible] def wireReader : BeaconReader where
  loads raw := do
    let text ← decodeUtf8 raw
    let value ← Json.loads text
    let data ← value.dict?
    return beaconFields data
  isHex text := (readBase16 text).isSome

end Wire

namespace DiscoveryPacket

def payload (packet : DiscoveryPacket) : List (Str × Json.Scalar) :=
  [("protocol".toList, .text "bitchat".toList),
    ("version".toList, .number 1),
    ("transport".toList, .text "lan".toList),
    ("peer_id".toList, .text packet.peerId),
    ("nickname".toList, .text (packet.nickname.take 32)),
    ("port".toList, .number packet.port),
    ("ssid".toList, .text (if packet.ssid ≠ [] then packet.ssid.take 64 else [])),
    ("instance_id".toList, .text (if packet.instanceId ≠ [] then packet.instanceId.take 32 else []))]

def toBytes (packet : DiscoveryPacket) : Except String Bytes :=
  let raw := encodeUtf8 (Json.dumps packet.payload)
  if maxDiscoveryPacketSize < raw.length then
    .error s!"Discovery packet exceeds max size {maxDiscoveryPacketSize} bytes"
  else .ok raw

end DiscoveryPacket

-- ahead of the instance that goes through all characters there are
instance (priority := 2000) decidableLetters {p : Char → Prop} [DecidablePred p] (text : Str) :
    Decidable (∀ c ∈ text, p c) :=
  List.decidableBAll p text

section Base16
variable {text : Str}

def hexCharacters : Str := "0123456789abcdef".toList

/-- A character that `int` takes in a base 16 numeral besides the digits: a sign, the letter of a
prefix, an underscore, or a digit of another script. -/
def isDisguise (c : Char) : Bool := c ∈ ['+', '-', 'x', 'X', '_'] ∨ 128 ≤ c.toNat

/-- The characters of an ASCII numeral. -/
def InNumeral (c : Char) : Prop := (hexValue c).isSome = true ∨ c ∈ ['+', '-', '_', 'x', 'X']

theorem base16Digits_letters {digits : List Nat} (read : base16Digits text = some digits) :
    ∀ c ∈ text, InNumeral c := by
  fun_induction base16Digits text generalizing digits with
  | case1 => cases read
  | case2 c =>
    obtain ⟨d, value, _⟩ := Option.map_eq_some_iff.mp read
    exact List.forall_mem_singleton.mpr (Or.inl (Option.isSome_of_eq_some value))
  | case3 c rest ih =>
    obtain ⟨d, value, more, later, _⟩ := by
      simpa only [Option.bind_eq_bind, Option.bind_eq_some_iff] using read
    have underscore : InNumeral '_' := Or.inr (by decide)
    refine List.forall_mem_cons.mpr ⟨Or.inl (Option.isSome_of_eq_some value), ?_⟩
    exact List.forall_mem_cons.mpr ⟨underscore, ih later⟩
  | case4 c rest _ _ ih =>
    obtain ⟨d, value, more, later, _⟩ := by
      simpa only [Option.bind_eq_bind, Option.bind_eq_some_iff] using read
    exact List.forall_mem_cons.mpr ⟨Or.inl (Option.isSome_of_eq_some value), ih later⟩

theorem base16Unsigned_letters {digits : List Nat} (read : base16Unsigned text = some digits) :
    ∀ c ∈ text, InNumeral c := by
  unfold base16Unsigned at read
  split at read
  · next x rest =>
    split at read
    · next letter =>
      have zero : InNumeral '0' := Or.inl rfl
      have marks : InNumeral x := Or.inr (by rcases letter with rfl | rfl <;> decide)
      refine List.forall_mem_cons.mpr ⟨zero, List.forall_mem_cons.mpr ⟨marks, ?_⟩⟩
      split at read
      · next underscore =>
        obtain ⟨tail, rfl⟩ := List.head?_eq_some_iff.mp underscore
        exact List.forall_mem_cons.mpr ⟨Or.inr (by decide), base16Digits_letters read⟩
      · exact base16Digits_letters read
    · exact base16Digits_letters read
  · exact base16Digits_letters read

theorem base16Signed_letters {number : Int} (read : base16Signed text = some number) :
    ∀ c ∈ text, InNumeral c := by
  unfold base16Signed at read
  split at read
  · obtain ⟨digits, unsigned, _⟩ := Option.map_eq_some_iff.mp read
    exact List.forall_mem_cons.mpr ⟨Or.inr (by decide), base16Unsigned_letters unsigned⟩
  · obtain ⟨digits, unsigned, _⟩ := Option.map_eq_some_iff.mp read
    exact List.forall_mem_cons.mpr ⟨Or.inr (by decide), base16Unsigned_letters unsigned⟩
  · obtain ⟨digits, unsigned, _⟩ := Option.map_eq_some_iff.mp read
    exact base16Unsigned_letters unsigned

theorem dropWhile_first {p : Char → Bool} {s : Str} (first : ∀ c ∈ s.head?, p c = false) :
    s.dropWhile p = s := by
  cases s with
  | nil => rfl
  | cons c rest => exact List.dropWhile_cons_of_neg (by simp [first c rfl])

theorem trim_self {p : Char → Bool} (first : ∀ c ∈ text.head?, p c = false)
    (last : ∀ c ∈ text.getLast?, p c = false) :
    ((text.dropWhile p).reverse.dropWhile p).reverse = text := by
  rw [← List.head?_reverse] at last
  rw [dropWhile_first first, dropWhile_first last, List.reverse_reverse]

theorem digitChar_visible (d : Nat) : isAsciiSpace (Nat.digitChar d) = false := by
  by_cases small : d < 16
  · revert d
    decide
  · have other : Nat.digitChar d = '*' := by
      unfold Nat.digitChar
      repeat rw [if_neg (by omega)]
    rw [other]
    rfl

theorem asciiForm_visible [DigitTable] {c : Char} (visible : isSpace c = false) :
    isAsciiSpace (asciiForm c) = false := by
  unfold asciiForm
  split
  · simp only [isSpace, Bool.or_eq_false_iff, Bool.and_eq_false_iff, decide_eq_false_iff_not] at visible
    simp only [isAsciiSpace, Bool.or_eq_false_iff, Bool.and_eq_false_iff, decide_eq_false_iff_not,
      beq_eq_false_iff_ne]
    omega
  · rw [visible]
    simp only [Bool.false_eq_true, if_false]
    split
    · exact digitChar_visible _
    · rfl

/-- A numeral without space around it has no other characters than the digits and the disguises. -/
theorem readBase16_letters [DigitTable] {number : Int} (stripped : strip text = text)
    (read : readBase16 text = some number) : ∀ c ∈ text, 128 ≤ c.toNat ∨ InNumeral c := by
  obtain ⟨first, last⟩ := strip_eq_self_iff.mp stripped
  rw [readBase16, trim_self] at read
  · intro c member
    by_cases ascii : c.toNat < 128
    · have same : asciiForm c = c := if_pos ascii
      exact Or.inr (same ▸ base16Signed_letters read _ (List.mem_map_of_mem member))
    · exact Or.inl (not_lt.mp ascii)
  · intro c spelled
    rw [List.head?_map] at spelled
    obtain ⟨d, letter, rfl⟩ := Option.map_eq_some_iff.mp spelled
    exact asciiForm_visible (first d letter)
  · intro c spelled
    rw [List.getLast?_map] at spelled
    obtain ⟨d, letter, rfl⟩ := Option.map_eq_some_iff.mp spelled
    exact asciiForm_visible (last d letter)

theorem hexCharacters_value : ∀ c ∈ hexCharacters, (hexValue c).isSome = true := by decide

theorem hexCharacters_marks : ∀ c ∈ hexCharacters, c ∉ ['+', '-', '_', 'x', 'X'] := by decide

theorem hexCharacters_visible : ∀ c ∈ hexCharacters, isSpace c = false ∧ isAsciiSpace c = false := by
  decide

theorem hexCharacters_lower : ∀ c ∈ hexCharacters, c.toNat < 128 ∧ c.toLower = c := by decide

theorem base16Digits_plain (plain : ∀ c ∈ text, c ∈ hexCharacters) (some' : text ≠ []) :
    (base16Digits text).isSome = true := by
  fun_induction base16Digits text with
  | case1 => exact absurd rfl some'
  | case2 c =>
    rw [Option.isSome_map]
    exact hexCharacters_value c (plain c List.mem_cons_self)
  | case3 c rest => exact absurd (by decide) (hexCharacters_marks '_' (plain '_' (by simp)))
  | case4 c rest more _ ih =>
    obtain ⟨first, plain⟩ := List.forall_mem_cons.mp plain
    obtain ⟨d, value⟩ := Option.isSome_iff_exists.mp (hexCharacters_value c first)
    obtain ⟨digits, later⟩ := Option.isSome_iff_exists.mp (ih plain more)
    simp [value, later]

theorem base16Unsigned_plain (plain : ∀ c ∈ text, c ∈ hexCharacters) :
    base16Unsigned text = base16Digits text := by
  unfold base16Unsigned
  split
  · next x rest =>
    have mark := hexCharacters_marks x (plain x (by simp))
    rw [if_neg]
    rintro (rfl | rfl) <;> exact absurd (by decide) mark
  · rfl

/-- Digits alone are a numeral. -/
theorem readBase16_plain [DigitTable] (plain : ∀ c ∈ text, c ∈ hexCharacters) (some' : text ≠ []) :
    (readBase16 text).isSome = true := by
  have spelled : text.map asciiForm = text := by
    have same : text.map asciiForm = text.map id :=
      List.map_congr_left fun c member => if_pos (hexCharacters_lower c (plain c member)).1
    rw [same, List.map_id]
  rw [readBase16, spelled, trim_self]
  · unfold base16Signed
    split
    · next rest => exact absurd (by decide) (hexCharacters_marks '-' (plain '-' (by simp)))
    · next rest => exact absurd (by decide) (hexCharacters_marks '+' (plain '+' (by simp)))
    · rw [Option.isSome_map, base16Unsigned_plain plain]
      exact base16Digits_plain plain some'
  · exact fun c first => (hexCharacters_visible c (plain c (List.mem_of_mem_head? first))).2
  · exact fun c last => (hexCharacters_visible c (plain c (List.mem_of_mem_getLast? last))).2

/-- The digits that lower-casing leaves. -/
theorem hexCharacters_iff {c : Char} (ascii : c.toNat < 128) :
    c.toLower ∈ hexCharacters ↔
      (128 ≤ c.toLower.toNat ∨ InNumeral c.toLower) ∧ isDisguise c = false := by
  have codes : ∀ n < 128, (Char.ofNat n).toLower ∈ hexCharacters ↔
      (128 ≤ (Char.ofNat n).toLower.toNat ∨ (hexValue (Char.ofNat n).toLower).isSome = true ∨
        (Char.ofNat n).toLower ∈ ['+', '-', '_', 'x', 'X']) ∧ isDisguise (Char.ofNat n) = false := by
    decide +kernel
  have code := codes c.toNat ascii
  rwa [Char.ofNat_toNat] at code

variable [CaseMapping]

/-- The base 16 digits are the lower case of ASCII alone. -/
class HexLower : Prop where
  ascii_of_hex : ∀ s, (∀ c ∈ CaseMapping.lower s, c ∈ hexCharacters) → ∀ c ∈ s, c.toNat < 128

variable [UnicodeLower]

theorem claimedId_stripped (data : BeaconFields) : strip data.claimedId = data.claimedId := by
  rw [BeaconFields.claimedId, UnicodeLower.strip_lower, strip_strip]

/-- A name that `int` reads is plain exactly when it was sent without a disguise. -/
theorem claimedId_plain_iff [HexLower] [DigitTable] {data : BeaconFields} {number : Int}
    (read : readBase16 data.claimedId = some number) :
    (∀ c ∈ data.claimedId, c ∈ hexCharacters) ↔ ∀ c ∈ strip data.peerId, isDisguise c = false := by
  have letters := readBase16_letters (claimedId_stripped data) read
  have spelled (ascii : ∀ c ∈ strip data.peerId, c.toNat < 128) :
      data.claimedId = (strip data.peerId).map Char.toLower :=
    UnicodeLower.lower_ascii _ ascii
  constructor
  · intro plain c member
    have ascii := HexLower.ascii_of_hex _ plain
    have lowered : c.toLower ∈ data.claimedId := spelled ascii ▸ List.mem_map_of_mem member
    exact ((hexCharacters_iff (ascii c member)).mp (plain _ lowered)).2
  · intro open' d member
    have ascii : ∀ c ∈ strip data.peerId, c.toNat < 128 := by
      intro c member
      have other := open' c member
      rw [isDisguise, decide_eq_false_iff_not, not_or, not_le] at other
      exact other.2
    have numeral := letters d member
    rw [spelled ascii] at member
    obtain ⟨c, sent, rfl⟩ := List.mem_map.mp member
    exact (hexCharacters_iff (ascii c sent)).mpr ⟨numeral, open' c sent⟩

end Base16

/-- What the fields of a beacon are limited to. -/
structure DiscoveryPacket.WellFormed (packet : DiscoveryPacket) : Prop where
  long : 8 ≤ packet.peerId.length
  short : packet.peerId.length ≤ 64
  digits : ∀ c ∈ packet.peerId, c ∈ hexCharacters
  low : 1024 ≤ packet.port
  high : packet.port ≤ 65535
  nickname : packet.nickname.length ≤ 32
  ssid : packet.ssid.length ≤ 64
  instanceId : packet.instanceId.length ≤ 32

section Received
variable [CaseMapping] [UnicodeLower] [HexLower] [Json.FloatReader] [DigitTable] [Rendering]
attribute [local instance] wireReader

/-- A datagram that is taken gives a well-formed packet exactly when its name has no disguise. -/
theorem accepted_wellFormed_iff {raw : Bytes} {data : BeaconFields} {port : Int}
    (accepted : AcceptedBeacon raw data port) :
    (data.packet port).WellFormed ↔ ∀ c ∈ strip data.peerId, isDisguise c = false := by
  obtain ⟨number, read⟩ := Option.isSome_iff_exists.mp accepted.hex
  rw [← claimedId_plain_iff read]
  have low := accepted.low
  have high := accepted.high
  constructor
  · exact fun formed => formed.digits
  · intro digits
    refine ⟨accepted.long, accepted.short, digits, ?_, ?_, ?_, ?_, ?_⟩
    · simp only [BeaconFields.packet]
      omega
    · simp only [BeaconFields.packet]
      omega
    · exact List.length_take_le 32 _
    · exact List.length_take_le 64 _
    · exact List.length_take_le 32 _

/-- Datagrams are read as well-formed packets or not at all, except for those with a disguise. -/
theorem fromBytes_wellFormed_iff (raw : Bytes) :
    (∀ packet, DiscoveryPacket.fromBytes raw = some packet → packet.WellFormed) ↔
      ∀ data port, AcceptedBeacon raw data port → ∀ c ∈ strip data.peerId, isDisguise c = false := by
  constructor
  · intro formed data port accepted
    have read := fromBytes_eq_some.mpr ⟨data, port, accepted, rfl⟩
    exact (accepted_wellFormed_iff accepted).mp (formed _ read)
  · intro open' packet read
    obtain ⟨data, port, accepted, rfl⟩ := fromBytes_eq_some.mp read
    exact (accepted_wellFormed_iff accepted).mpr (open' data port accepted)

end Received

section Sent
variable {packet : DiscoveryPacket}

namespace DiscoveryPacket

/-- What a node may announce: its id in lower-case base 16 digits, and a port of its own. -/
structure Announceable (packet : DiscoveryPacket) : Prop where
  long : 8 ≤ packet.peerId.length
  short : packet.peerId.length ≤ 64
  digits : ∀ c ∈ packet.peerId, c ∈ hexCharacters
  low : 1024 ≤ packet.port
  high : packet.port ≤ 65535

/-- What is left of a packet behind the cuts of the sender and of the receiver. -/
def received (packet : DiscoveryPacket) : DiscoveryPacket where
  peerId := packet.peerId
  port := packet.port
  nickname := strip (packet.nickname.take 32)
  ssid := strip (packet.ssid.take 64)
  instanceId := strip (packet.instanceId.take 32)

/-- The bytes of a beacon: those of its keys and marks, and of its values with their escapes. -/
def beaconSize (packet : DiscoveryPacket) : Nat :=
  114 + Json.escapedLength packet.peerId + (Nat.toDigits 10 packet.port).length +
    Json.escapedLength (packet.nickname.take 32) + Json.escapedLength (packet.ssid.take 64) +
    Json.escapedLength (packet.instanceId.take 32)

theorem payload_eq (packet : DiscoveryPacket) : packet.payload =
    [("protocol".toList, .text "bitchat".toList),
      ("version".toList, .number 1),
      ("transport".toList, .text "lan".toList),
      ("peer_id".toList, .text packet.peerId),
      ("nickname".toList, .text (packet.nickname.take 32)),
      ("port".toList, .number packet.port),
      ("ssid".toList, .text (packet.ssid.take 64)),
      ("instance_id".toList, .text (packet.instanceId.take 32))] := by
  have cut (text : Str) (n : Nat) : (if text ≠ [] then text.take n else []) = text.take n := by
    by_cases none : text = []
    · subst none
      simp
    · rw [if_pos none]
  rw [payload, cut, cut]

theorem payload_fits (high : packet.port ≤ 65535) : ∀ e ∈ packet.payload, e.2.Fits := by
  have digits : (Nat.toDigits 10 packet.port).length ≤ 5 :=
    (Nat.length_toDigits_le_iff (by decide) (by decide)).mpr (by omega)
  rw [payload_eq]
  simp only [List.forall_mem_cons, List.not_mem_nil, false_implies, implies_true, and_true, true_and,
    Json.Scalar.Fits]
  exact ⟨by decide, by omega⟩

theorem payload_keys (packet : DiscoveryPacket) : (packet.payload.map Prod.fst).Nodup := by
  rw [payload_eq]
  simp only [List.map_cons, List.map_nil]
  decide

theorem dumps_payload_length (packet : DiscoveryPacket) :
    (encodeUtf8 (Json.dumps packet.payload)).length = packet.beaconSize := by
  have keys : Json.escapedLength "protocol".toList = 8 ∧ Json.escapedLength "bitchat".toList = 7 ∧
      Json.escapedLength "version".toList = 7 ∧ (Nat.toDigits 10 1).length = 1 ∧
      Json.escapedLength "transport".toList = 9 ∧ Json.escapedLength "lan".toList = 3 ∧
      Json.escapedLength "peer_id".toList = 7 ∧ Json.escapedLength "nickname".toList = 8 ∧
      Json.escapedLength "port".toList = 4 ∧ Json.escapedLength "ssid".toList = 4 ∧
      Json.escapedLength "instance_id".toList = 11 := by
    decide
  rw [encodeUtf8_length (Json.dumps_ascii _), payload_eq]
  simp only [Json.dumps, Json.writeEntries, Json.Scalar.write, List.length_append, List.length_cons,
    List.length_nil, Json.quote_length, keys, beaconSize]
  omega

/-- The dictionary that a beacon arrives as. -/
def fields (packet : DiscoveryPacket) : BeaconFields where
  protocol := some "bitchat".toList
  versionIsOne := true
  transport := some "lan".toList
  peerId := packet.peerId
  port := some packet.port
  nickname := packet.nickname.take 32
  ssid := packet.ssid.take 64
  instanceId := packet.instanceId.take 32

theorem beaconFields_payload [Json.FloatReader] [DigitTable] [Rendering] (packet : DiscoveryPacket) :
    beaconFields (packet.payload.map fun e => (.text e.1, e.2.value)) = packet.fields := by
  rw [payload_eq]
  rfl

section Arrival

theorem cut_strip (text : Str) (n : Nat) : (strip (text.take n)).take n = strip (text.take n) := by
  apply List.take_of_length_le
  exact (strip_length_le _).trans (List.length_take_le n text)

variable [Json.FloatReader] [DigitTable] [Rendering]
attribute [local instance] wireReader

theorem loads_payload (high : packet.port ≤ 65535) :
    BeaconReader.loads (encodeUtf8 (Json.dumps packet.payload)) = some packet.fields := by
  rw [← beaconFields_payload]
  change ((decodeUtf8 (encodeUtf8 (Json.dumps packet.payload))).bind fun text =>
    (Json.loads text).bind fun value => value.dict?.bind fun data => some (beaconFields data)) = _
  rw [decodeUtf8_encodeUtf8, Option.bind_some, Json.loads_dumps (payload_fits high) (payload_keys packet)]
  rfl

variable [CaseMapping]

/-- A beacon that fits is taken if its name passes the checks. -/
theorem fromBytes_payload (fixed : CaseMapping.lower (strip packet.peerId) = packet.peerId)
    (long : 8 ≤ packet.peerId.length) (short : packet.peerId.length ≤ 64)
    (hex : (readBase16 packet.peerId).isSome = true) (low : 1024 ≤ packet.port)
    (high : packet.port ≤ 65535) (size : packet.beaconSize ≤ maxDiscoveryPacketSize) :
    fromBytes (encodeUtf8 (Json.dumps packet.payload)) = some packet.received := by
  have filled : encodeUtf8 (Json.dumps packet.payload) ≠ [] := by
    intro empty
    have written := encodeUtf8_length (Json.dumps_ascii packet.payload)
    rw [empty, Json.dumps, List.cons_append, List.length_cons] at written
    cases written
  have claimed : packet.fields.claimedId = packet.peerId := fixed
  refine fromBytes_eq_some.mpr ⟨packet.fields, packet.port, ?_, ?_⟩
  · constructor
    · exact filled
    · exact (dumps_payload_length packet).trans_le size
    · exact loads_payload high
    · rfl
    · rfl
    · rfl
    · rwa [claimed]
    · rwa [claimed]
    · rwa [claimed]
    · rfl
    · exact_mod_cast low
    · exact_mod_cast high
  · rw [BeaconFields.packet, claimed]
    simp only [received, fields, cut_strip, Int.toNat_natCast]

/-- A beacon is sent and read back, cut and stripped, as long as it fits into a datagram. One that does
not is not made. -/
theorem fromBytes_toBytes [UnicodeLower] (packet : DiscoveryPacket) (announced : packet.Announceable) :
    (packet.beaconSize ≤ maxDiscoveryPacketSize → ∃ raw, packet.toBytes = .ok raw ∧
      raw.length ≤ maxDiscoveryPacketSize ∧ fromBytes raw = some packet.received) ∧
    (maxDiscoveryPacketSize < packet.beaconSize →
      packet.toBytes = .error "Discovery packet exceeds max size 1024 bytes") := by
  have long := announced.long
  have some' : packet.peerId ≠ [] := List.length_pos_iff.mp (by omega)
  have stripped : strip packet.peerId = packet.peerId :=
    strip_of_no_space fun c member => (hexCharacters_visible c (announced.digits c member)).1
  have fixed : CaseMapping.lower (strip packet.peerId) = packet.peerId := by
    rw [stripped]
    exact lower_fixed fun c member => hexCharacters_lower c (announced.digits c member)
  rw [toBytes, dumps_payload_length]
  constructor
  · intro fits
    refine ⟨_, if_neg (not_lt.mpr fits), (dumps_payload_length packet).trans_le fits, ?_⟩
    exact fromBytes_payload fixed long announced.short (readBase16_plain announced.digits some')
      announced.low announced.high fits
  · exact fun large => if_pos large

end Arrival

end DiscoveryPacket
end Sent

section Examples
open DiscoveryPacket
attribute [local instance] asciiCase asciiDigits wireReader

/-- No numeral of the examples is floating. -/
@[reducible] def noFloats : Json.FloatReader where
  float _ := .nan

@[reducible] def noContainers : Rendering where
  shown _ := []

attribute [local instance] noFloats noContainers

/-- The beacon of a named node. -/
def beaconNamed (peerId : Str) : DiscoveryPacket where
  peerId
  nickname := "Zoë 😀 ".toList
  port := 41235
  ssid := "Home".toList
  instanceId := "7f3a".toList

theorem beacon_arrives : ∃ raw, (beaconNamed "0123456789abcdef".toList).toBytes = .ok raw ∧
    raw.length ≤ maxDiscoveryPacketSize ∧
    fromBytes raw = some (beaconNamed "0123456789abcdef".toList).received := by
  have _ : UnicodeLower := asciiCase_unicodeLower
  exact (fromBytes_toBytes (beaconNamed "0123456789abcdef".toList)
    ⟨by decide, by decide, by decide, by decide, by decide⟩).1 (by decide)

/-- A nickname and a network of emoji alone. -/
def emojiBeacon : DiscoveryPacket where
  peerId := "0123456789abcdef".toList
  nickname := List.replicate 32 '😀'
  port := 41235
  ssid := List.replicate 64 '😀'
  instanceId := []

theorem emoji_beacon_refused : emojiBeacon.Announceable ∧
    emojiBeacon.toBytes = .error "Discovery packet exceeds max size 1024 bytes" := by
  have announced : emojiBeacon.Announceable := ⟨by decide, by decide, by decide, by decide, by decide⟩
  refine ⟨announced, ?_⟩
  rw [toBytes, dumps_payload_length]
  exact if_pos (by decide)

theorem asciiCase_hexLower : HexLower := by
  constructor
  intro s plain c member
  have lowered := (hexCharacters_lower _ (plain _ (List.mem_map_of_mem member))).1
  by_contra other
  have same : c.toLower = c := by
    refine dif_neg fun upper => other ?_
    have high : c.toNat ≤ 90 := UInt32.le_iff_toNat_le.mp upper.2
    omega
  exact other (same ▸ lowered)

theorem plain_beacon_wellFormed :
    fromBytes (encodeUtf8 (Json.dumps (beaconNamed "0123456789abcdef".toList).payload)) =
        some (beaconNamed "0123456789abcdef".toList).received ∧
      (beaconNamed "0123456789abcdef".toList).received.WellFormed := by
  have _ : UnicodeLower := asciiCase_unicodeLower
  have _ : HexLower := asciiCase_hexLower
  have taken : fromBytes (encodeUtf8 (Json.dumps (beaconNamed "0123456789abcdef".toList).payload)) =
      some (beaconNamed "0123456789abcdef".toList).received := by
    apply fromBytes_payload
    all_goals decide
  refine ⟨taken, (fromBytes_wellFormed_iff _).mpr (fun data port accepted => ?_) _ taken⟩
  obtain rfl := Option.some.inj (accepted.loaded.symm.trans (loads_payload (by decide)))
  decide

/-- A prefix is taken for digits. -/
theorem prefixed_beacon_taken :
    fromBytes (encodeUtf8 (Json.dumps (beaconNamed "0x1234ab".toList).payload)) =
        some (beaconNamed "0x1234ab".toList).received ∧
      ¬ (beaconNamed "0x1234ab".toList).received.WellFormed := by
  constructor
  · apply fromBytes_payload
    all_goals decide
  · exact fun formed => absurd (formed.digits 'x' (by decide)) (by decide)

end Examples
end Bitchat.Lan
