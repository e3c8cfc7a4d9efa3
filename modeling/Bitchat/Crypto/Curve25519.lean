import Bitchat.Data.MontgomeryCurve
import Mathlib.Data.List.Prime
import Mathlib.Data.ZMod.Basic
import Mathlib.NumberTheory.LucasPrimality
import Mathlib.Tactic.NormNum.LegendreSymbol
import Mathlib.Tactic.NormNum.Prime
import Mathlib.Tactic.ReduceModChar

/-! Curve25519: its field, and the u-coordinates of the points of order dividing eight on the curve
and on its twist. -/

namespace Bitchat.Crypto
open Montgomery

abbrev fieldPrime : ℕ := 57896044618658097711785492504343953926634992332820282019728792003956564819949

theorem fieldPrime_eq : fieldPrime = 2 ^ 255 - 19 := by norm_num

section Primality

/-- Lucas's test with the prime factors and their exponents. -/
theorem prime_of_factors {p : ℕ} (a : ZMod p) (factors : List (ℕ × ℕ))
    (whole : (factors.map fun f => f.1 ^ f.2).prod = p - 1) (primes : ∀ f ∈ factors, f.1.Prime)
    (one : a ^ (p - 1) = 1) (others : ∀ f ∈ factors, a ^ ((p - 1) / f.1) ≠ 1) : p.Prime := by
  refine lucas_primality p a one fun q prime divides => ?_
  rw [← whole, Prime.dvd_prod_iff prime.prime] at divides
  obtain ⟨power, listed, divides⟩ := divides
  obtain ⟨f, member, rfl⟩ := List.mem_map.mp listed
  have base := prime.dvd_of_dvd_pow divides
  rw [(Nat.prime_dvd_prime_iff_eq prime (primes f member)).mp base]
  exact others f member

theorem prime_10_digits : Nat.Prime 2773320623 := by
  apply prime_of_factors 5 [(2, 1), (2437, 1), (569003, 1)]
  · norm_num
  · simp only [List.forall_mem_cons, List.not_mem_nil, false_implies, implies_true, and_true]
    exact ⟨Nat.prime_two, by norm_num, by norm_num⟩
  · reduce_mod_char
  · simp only [List.forall_mem_cons, List.not_mem_nil, false_implies, implies_true, and_true,
      Nat.reduceSub, Nat.reduceDiv]
    refine ⟨?_, ?_, ?_⟩ <;> reduce_mod_char <;> decide +kernel

theorem prime_11_digits : Nat.Prime 72106336199 := by
  apply prime_of_factors 7 [(2, 1), (13, 1), (2773320623, 1)]
  · norm_num
  · simp only [List.forall_mem_cons, List.not_mem_nil, false_implies, implies_true, and_true]
    exact ⟨Nat.prime_two, by norm_num, prime_10_digits⟩
  · reduce_mod_char
  · simp only [List.forall_mem_cons, List.not_mem_nil, false_implies, implies_true, and_true,
      Nat.reduceSub, Nat.reduceDiv]
    refine ⟨?_, ?_, ?_⟩ <;> reduce_mod_char <;> decide +kernel

theorem prime_16_digits : Nat.Prime 1919519569386763 := by
  apply prime_of_factors 2 [(2, 1), (3, 1), (7, 1), (19, 1), (47, 2), (127, 1), (8574133, 1)]
  · norm_num
  · simp only [List.forall_mem_cons, List.not_mem_nil, false_implies, implies_true, and_true]
    exact ⟨Nat.prime_two, Nat.prime_three, by norm_num, by norm_num, by norm_num, by norm_num,
      by norm_num⟩
  · reduce_mod_char
  · simp only [List.forall_mem_cons, List.not_mem_nil, false_implies, implies_true, and_true,
      Nat.reduceSub, Nat.reduceDiv]
    refine ⟨?_, ?_, ?_, ?_, ?_, ?_, ?_⟩ <;> reduce_mod_char <;> decide +kernel

theorem prime_17_digits : Nat.Prime 31757755568855353 := by
  apply prime_of_factors 10 [(2, 3), (3, 1), (31, 1), (107, 1), (223, 1), (4153, 1), (430751, 1)]
  · norm_num
  · simp only [List.forall_mem_cons, List.not_mem_nil, false_implies, implies_true, and_true]
    exact ⟨Nat.prime_two, Nat.prime_three, by norm_num, by norm_num, by norm_num, by norm_num,
      by norm_num⟩
  · reduce_mod_char
  · simp only [List.forall_mem_cons, List.not_mem_nil, false_implies, implies_true, and_true,
      Nat.reduceSub, Nat.reduceDiv]
    refine ⟨?_, ?_, ?_, ?_, ?_, ?_, ?_⟩ <;> reduce_mod_char <;> decide +kernel

theorem prime_35_digits : Nat.Prime 75445702479781427272750846543864801 := by
  apply prime_of_factors 7 [(2, 5), (3, 2), (5, 2), (75707, 1), (72106336199, 1), (1919519569386763, 1)]
  · norm_num
  · simp only [List.forall_mem_cons, List.not_mem_nil, false_implies, implies_true, and_true]
    exact ⟨Nat.prime_two, Nat.prime_three, by norm_num, by norm_num, prime_11_digits, prime_16_digits⟩
  · reduce_mod_char
  · simp only [List.forall_mem_cons, List.not_mem_nil, false_implies, implies_true, and_true,
      Nat.reduceSub, Nat.reduceDiv]
    refine ⟨?_, ?_, ?_, ?_, ?_, ?_⟩ <;> reduce_mod_char <;> decide +kernel

theorem prime_71_digits : Nat.Prime 74058212732561358302231226437062788676166966415465897661863160754340907 := by
  apply prime_of_factors 2 [(2, 1), (3, 1), (353, 1), (57467, 1), (132049, 1), (1923133, 1),
    (31757755568855353, 1), (75445702479781427272750846543864801, 1)]
  · norm_num
  · simp only [List.forall_mem_cons, List.not_mem_nil, false_implies, implies_true, and_true]
    exact ⟨Nat.prime_two, Nat.prime_three, by norm_num, by norm_num, by norm_num, by norm_num,
      prime_17_digits, prime_35_digits⟩
  · reduce_mod_char
  · simp only [List.forall_mem_cons, List.not_mem_nil, false_implies, implies_true, and_true,
      Nat.reduceSub, Nat.reduceDiv]
    refine ⟨?_, ?_, ?_, ?_, ?_, ?_, ?_, ?_⟩ <;> reduce_mod_char <;> decide +kernel

theorem fieldPrime_prime : fieldPrime.Prime := by
  apply prime_of_factors 2 [(2, 2), (3, 1), (65147, 1),
    (74058212732561358302231226437062788676166966415465897661863160754340907, 1)]
  · norm_num
  · simp only [List.forall_mem_cons, List.not_mem_nil, false_implies, implies_true, and_true]
    exact ⟨Nat.prime_two, Nat.prime_three, by norm_num, prime_71_digits⟩
  · reduce_mod_char
  · simp only [List.forall_mem_cons, List.not_mem_nil, false_implies, implies_true, and_true,
      Nat.reduceSub, Nat.reduceDiv, fieldPrime]
    refine ⟨?_, ?_, ?_, ?_⟩ <;> reduce_mod_char <;> decide +kernel

instance : Fact fieldPrime.Prime := ⟨fieldPrime_prime⟩

end Primality

abbrev FieldElement := ZMod fieldPrime

/-- The coefficient of the curve. -/
def coefficient : FieldElement := 486662

/-- The coordinate is that of a point of order dividing eight, on the curve or on its twist. -/
def LowOrder (u : FieldElement) : Prop := Killed coefficient 1 8 u ∨ Killed coefficient 2 8 u

/-- The two coordinates of order eight. -/
def eighth : FieldElement := 325606250916557431795983626356110631294008115727848805560023387167927233504
def otherEighth : FieldElement :=
  39382357235489614581723060781553021112529911719440698176882885853963445705823

section Constants

/-- A square root of the coefficient plus two. -/
def halfTrace : FieldElement :=
  48802004052532134862652268456126542835229456083994414501085850622543968879637

theorem not_isSquare {a : FieldElement} (n : ℤ) (value : a = n) (symbol : jacobiSym n fieldPrime = -1) :
    ¬ IsSquare a := by
  rw [value]
  exact ZMod.nonsquare_of_jacobiSym_eq_neg_one symbol

theorem two_ne_zero' : (2 : FieldElement) ≠ 0 := by
  intro zero
  have divides : fieldPrime ∣ 2 := (ZMod.natCast_eq_zero_iff 2 fieldPrime).mp zero
  exact absurd divides (by norm_num)

theorem single : ¬ IsSquare (coefficient ^ 2 - 4) := by
  have value : coefficient ^ 2 - 4 = (236839902240 : ℤ) := by
    rw [coefficient]
    norm_num
  exact not_isSquare _ value (by norm_num)

theorem root : halfTrace ^ 2 = coefficient + 2 := by
  unfold halfTrace coefficient FieldElement fieldPrime
  reduce_mod_char

theorem other : ¬ IsSquare (halfTrace ^ 2 - 2 * halfTrace) := by
  have value : halfTrace ^ 2 - 2 * halfTrace =
      (18188081132251925698266448096434822182811072497651735037285882762825192367288 : ℤ) := by
    unfold halfTrace FieldElement fieldPrime
    rw [Int.cast_ofNat]
    reduce_mod_char
  exact not_isSquare _ value (by norm_num)

theorem twisted : ¬ IsSquare (2 - coefficient) := by
  have value : 2 - coefficient = (-486660 : ℤ) := by
    rw [coefficient]
    norm_num
  exact not_isSquare _ value (by norm_num)

theorem eighth_sum : eighth + otherEighth = 2 + 2 * halfTrace := by
  unfold eighth otherEighth halfTrace FieldElement fieldPrime
  reduce_mod_char

theorem eighth_product : eighth * otherEighth = 1 := by
  unfold eighth otherEighth FieldElement fieldPrime
  reduce_mod_char

end Constants

theorem killed_iff {d u : FieldElement} (twist : d ≠ 0) :
    Killed coefficient d 8 u ↔ (∃ y, y ^ 2 = d ^ 3 * cubic coefficient u) ∧
      ((u = 0 ∨ u = 1 ∨ u = -1) ∨ u = eighth ∨ u = otherEighth) :=
  killed_eight_iff two_ne_zero' twist single root other twisted eighth_sum eighth_product

/-- The coordinates of low order: the origin, those of order four on the curve and on the twist, and
the two of order eight on the curve. -/
theorem lowOrder_iff (u : FieldElement) : LowOrder u ↔ u ∈ [0, 1, -1, eighth, otherEighth] := by
  have listed : u ∈ [0, 1, -1, eighth, otherEighth] ↔
      (u = 0 ∨ u = 1 ∨ u = -1) ∨ u = eighth ∨ u = otherEighth := by
    simp only [List.mem_cons, List.not_mem_nil, or_false, or_assoc]
  rw [listed, LowOrder, killed_iff one_ne_zero, killed_iff two_ne_zero', ← or_and_right]
  refine and_iff_right_of_imp fun place => ?_
  rcases place with (rfl | rfl | rfl) | rfl | rfl
  · exact Or.inl ⟨0, by decide +kernel⟩
  · exact Or.inl ⟨halfTrace, by decide +kernel⟩
  · exact Or.inr ⟨25851164624550389790290378414333342085686308113475858052691635106742954981832,
      by decide +kernel⟩
  · exact Or.inl ⟨32026303591712962751241307547882981359278212717910236697706316503764922500307,
      by decide +kernel⟩
  · exact Or.inl ⟨47389623381099381275796781267935282128369626952426857267179501978497824351671,
      by decide +kernel⟩

end Bitchat.Crypto
