import Bitchat.Crypto.Curve25519
import Bitchat.Crypto.Laws
import Bitchat.Crypto.Messages

/-! The encodings of the u-coordinates of low order, and which of them the key validation
refuses. A coordinate below 19 has a second encoding above the prime, and the top bit counts for
nothing. -/
namespace Bitchat.Crypto
open Stateful

/-- The number a key encodes: little-endian, without the top bit. -/
def uNumber (key : Bytes) : ℕ := Bytes.ofLE key % 2 ^ 255

def uCoordinate (key : Bytes) : FieldElement := (uNumber key : FieldElement)

def eighthNumber : ℕ := 325606250916557431795983626356110631294008115727848805560023387167927233504
def otherEighthNumber : ℕ :=
  39382357235489614581723060781553021112529911719440698176882885853963445705823

/-- The encoded numbers of low order. -/
def lowOrderNumbers : List ℕ :=
  [0, 1, fieldPrime - 1, fieldPrime, fieldPrime + 1, eighthNumber, otherEighthNumber]

/-- The keys of low order, each with the top bit clear and set. -/
def lowOrderKeys : List Bytes :=
  lowOrderNumbers.flatMap fun n => [Bytes.toLE 32 n, Bytes.toLE 32 (n + 2 ^ 255)]

/-- The keys of low order that are not in the table: those of the coordinates one and minus one,
those of zero and one above the prime, and those with the top bit set. -/
def unlistedKeys : List Bytes :=
  [List.replicate 31 0x00 ++ [0x80],
   0x01 :: List.replicate 31 0x00,
   0x01 :: List.replicate 30 0x00 ++ [0x80],
   0xEC :: List.replicate 30 0xFF ++ [0x7F],
   0xEC :: List.replicate 31 0xFF,
   0xED :: List.replicate 30 0xFF ++ [0x7F],
   0xED :: List.replicate 31 0xFF,
   0xEE :: List.replicate 30 0xFF ++ [0x7F],
   0xEE :: List.replicate 31 0xFF,
   [0xE0, 0xEB, 0x7A, 0x7C, 0x3B, 0x41, 0xB8, 0xAE, 0x16, 0x56, 0xE3, 0xFA, 0xF1, 0x9F, 0xC4, 0x6A,
    0xDA, 0x09, 0x8D, 0xEB, 0x9C, 0x32, 0xB1, 0xFD, 0x86, 0x62, 0x05, 0x16, 0x5F, 0x49, 0xB8, 0x80],
   [0x5F, 0x9C, 0x95, 0xBC, 0xA3, 0x50, 0x8C, 0x24, 0xB1, 0xD0, 0xB1, 0x55, 0x9C, 0x83, 0xEF, 0x5B,
    0x04, 0x44, 0x5C, 0xC4, 0x58, 0x1C, 0x8E, 0x86, 0xD8, 0x22, 0x4E, 0xDD, 0xD0, 0x9F, 0x11, 0xD7]]

section Encodings
variable {key : Bytes} {n : ℕ}

/-- Below the top bit a residue has one encoding, or two if it is below 19. -/
theorem cast_eq_iff (small : n < 2 ^ 255) {c : ℕ} (reduced : c < fieldPrime) :
    (n : FieldElement) = (c : FieldElement) ↔ n = c ∨ n = c + fieldPrime := by
  rw [ZMod.natCast_eq_natCast_iff', Nat.mod_eq_of_lt reduced]
  have prime := fieldPrime_eq
  have positive : 0 < fieldPrime := by norm_num
  generalize fieldPrime = p at *
  constructor
  · intro residue
    have parts := Nat.div_add_mod n p
    have quotient : n / p < 2 := Nat.div_lt_of_lt_mul (by omega)
    obtain none | once := Nat.le_one_iff_eq_zero_or_eq_one.mp (Nat.lt_succ_iff.mp quotient)
    · rw [none] at parts
      omega
    · rw [once] at parts
      omega
  · rintro (rfl | rfl)
    · exact Nat.mod_eq_of_lt reduced
    · rw [Nat.add_mod_right, Nat.mod_eq_of_lt reduced]

/-- The numbers of low order below the top bit. -/
theorem lowOrder_number_iff (small : n < 2 ^ 255) :
    LowOrder (n : FieldElement) ↔ n ∈ lowOrderNumbers := by
  have zero : (n : FieldElement) = 0 ↔ n = 0 ∨ n = 0 + fieldPrime := by
    rw [← cast_eq_iff small (by norm_num), Nat.cast_zero]
  have one : (n : FieldElement) = 1 ↔ n = 1 ∨ n = 1 + fieldPrime := by
    rw [← cast_eq_iff small (by norm_num), Nat.cast_one]
  have minus : (-1 : FieldElement) = (fieldPrime - 1 : ℕ) := by decide +kernel
  have first : eighth = (eighthNumber : ℕ) := rfl
  have second : otherEighth = (otherEighthNumber : ℕ) := rfl
  rw [lowOrder_iff]
  simp only [List.mem_cons, List.not_mem_nil, or_false, zero, one, minus, first, second, lowOrderNumbers]
  rw [cast_eq_iff small (by norm_num), cast_eq_iff small (by norm_num [eighthNumber]),
    cast_eq_iff small (by norm_num [otherEighthNumber])]
  simp only [fieldPrime, eighthNumber, otherEighthNumber]
  omega

theorem toLE_eq_iff (size : key.length = 32) (fits : n < 2 ^ 256) :
    key = Bytes.toLE 32 n ↔ Bytes.ofLE key = n := by
  constructor
  · rintro rfl
    exact Bytes.ofLE_toLE (fits.trans_eq (by norm_num))
  · rintro rfl
    rw [← size, Bytes.toLE_ofLE]

theorem lowOrderNumbers_lt {n : ℕ} (listed : n ∈ lowOrderNumbers) : n < 2 ^ 255 := by
  revert n
  decide +kernel

/-- A number has two encodings, one for each value of the top bit. -/
theorem uNumber_eq_iff (size : key.length = 32) (small : n < 2 ^ 255) :
    uNumber key = n ↔ key ∈ [Bytes.toLE 32 n, Bytes.toLE 32 (n + 2 ^ 255)] := by
  have bound : Bytes.ofLE key < 2 ^ 256 := by
    have whole := Bytes.ofLE_lt key
    rw [size] at whole
    exact whole.trans_eq (by norm_num)
  rw [List.mem_cons, List.mem_singleton, toLE_eq_iff size (by omega), toLE_eq_iff size (by omega), uNumber]
  omega

/-- The keys of low order are these fourteen. -/
theorem lowOrder_key_iff (size : key.length = 32) :
    LowOrder (uCoordinate key) ↔ key ∈ lowOrderKeys := by
  have small : uNumber key < 2 ^ 255 := Nat.mod_lt _ (by norm_num)
  rw [uCoordinate, lowOrder_number_iff small, lowOrderKeys, List.mem_flatMap]
  constructor
  · intro listed
    exact ⟨uNumber key, listed, (uNumber_eq_iff size (lowOrderNumbers_lt listed)).mp rfl⟩
  · rintro ⟨n, listed, encoding⟩
    rwa [(uNumber_eq_iff size (lowOrderNumbers_lt listed)).mpr encoding]

end Encodings

section Table

theorem unlistedKeys_lowOrder : ∀ key ∈ unlistedKeys, key ∈ lowOrderKeys := by decide +kernel

theorem unlistedKeys_apart : ∀ key ∈ unlistedKeys, key ∉ lowOrderPoints := by decide +kernel

theorem lowOrderKeys_split : ∀ key ∈ lowOrderKeys, key ∈ lowOrderPoints ∨ key ∈ unlistedKeys := by
  decide +kernel

end Table

section Validation
variable [Primitives] {key : Bytes}

/-- No key of low order passes the validation, or is mixed in by a step of the handshake. -/
def RejectsLowOrder (key : Bytes) : Prop :=
  LowOrder (uCoordinate key) →
    (∃ message, validatePublicKey key = .error (.invalidKey message)) ∧
    ∀ (token : Token) (s : NoiseHandshakeState) (localPrivate : Bytes) (label : String),
      s.dhOperands token = (some localPrivate, some key, label) →
      ∃ message, NoiseHandshakeState.dhToken token s = .error (.invalidKey message) s

theorem validatePublicKey_listed (size : key.length = 32) (listed : key ∈ lowOrderPoints) :
    validatePublicKey key = .error (.invalidKey "X25519 public key is a known low-order/weak point") := by
  have right : ¬ key.length ≠ x25519KeySize := not_not.mpr size
  rw [validatePublicKey, if_neg right, if_pos listed]

theorem validatePublicKey_unlisted (size : key.length = 32) (parses : Primitives.parsesPublic key = true)
    (unlisted : key ∉ lowOrderPoints) : validatePublicKey key = .ok key := by
  have right : ¬ key.length ≠ x25519KeySize := not_not.mpr size
  rw [validatePublicKey, if_neg right, if_neg unlisted, if_neg (not_not.mpr parses)]

/-- The private key is checked first, and is refused with the same error. -/
theorem diffieHellman_refused (localPrivate : Bytes) {message : String}
    (refused : validatePublicKey key = .error (.invalidKey message)) :
    ∃ message, diffieHellman localPrivate key = .error (.invalidKey message) := by
  unfold diffieHellman checkPrivateKey
  by_cases size : localPrivate.length = x25519KeySize
  · rw [if_neg (not_not.mpr size), refused]
    exact ⟨message, rfl⟩
  · rw [if_pos size]
    exact ⟨_, rfl⟩

theorem dhToken_refused {token : Token} {s : NoiseHandshakeState} {localPrivate : Bytes}
    {label message : String} (operands : s.dhOperands token = (some localPrivate, some key, label))
    (refused : validatePublicKey key = .error (.invalidKey message)) :
    ∃ message, NoiseHandshakeState.dhToken token s = .error (.invalidKey message) s := by
  obtain ⟨text, failed⟩ := diffieHellman_refused localPrivate refused
  rw [NoiseHandshakeState.dhToken, get_bind, operands]
  simp only [NoiseHandshakeState.dhMixKey, failed]
  exact ⟨text, bind_error (lift_error _ s)⟩

/-- The keys of low order that the code accepts are the eleven unlisted ones. -/
theorem lowOrder_rejected_iff (parses : ∀ key : Bytes, key.length = 32 → Primitives.parsesPublic key = true)
    (size : key.length = 32) : RejectsLowOrder key ↔ key ∉ unlistedKeys := by
  constructor
  · intro rejects unlisted
    have low := (lowOrder_key_iff size).mpr (unlistedKeys_lowOrder key unlisted)
    obtain ⟨message, refused⟩ := (rejects low).1
    have accepted := validatePublicKey_unlisted size (parses key size) (unlistedKeys_apart key unlisted)
    rw [accepted] at refused
    cases refused
  · intro notUnlisted low
    have listed := (lowOrderKeys_split key ((lowOrder_key_iff size).mp low)).resolve_right notUnlisted
    have refused := validatePublicKey_listed size listed
    exact ⟨⟨_, refused⟩, fun token s localPrivate label operands => dhToken_refused operands refused⟩

end Validation

section Examples
attribute [local instance] Modular.primitives

theorem modular_parses (key : Bytes) (size : key.length = 32) : Primitives.parsesPublic key = true :=
  decide_eq_true size

/-- The key of the coordinate zero is listed. -/
theorem zero_key_rejected : LowOrder (uCoordinate (List.replicate 32 0x00)) ∧
    RejectsLowOrder (List.replicate 32 0x00) :=
  ⟨(lowOrder_key_iff rfl).mpr (by decide +kernel),
    (lowOrder_rejected_iff modular_parses rfl).mpr (by decide +kernel)⟩

/-- The key of the coordinate one is of low order, and passes. -/
theorem one_key_accepted : LowOrder (uCoordinate (0x01 :: List.replicate 31 0x00)) ∧
    validatePublicKey (0x01 :: List.replicate 31 0x00) = .ok (0x01 :: List.replicate 31 0x00) ∧
    ¬ RejectsLowOrder (0x01 :: List.replicate 31 0x00) := by
  have low : LowOrder (uCoordinate (0x01 :: List.replicate 31 0x00)) :=
    (lowOrder_key_iff rfl).mpr (by decide +kernel)
  have accepted : validatePublicKey (0x01 :: List.replicate 31 0x00) =
      .ok (0x01 :: List.replicate 31 0x00) :=
    validatePublicKey_unlisted rfl (modular_parses _ rfl) (by decide +kernel)
  refine ⟨low, accepted, fun rejects => ?_⟩
  obtain ⟨message, refused⟩ := (rejects low).1
  rw [accepted] at refused
  cases refused

end Examples
end Bitchat.Crypto
