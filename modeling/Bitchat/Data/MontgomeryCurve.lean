import Mathlib.AlgebraicGeometry.EllipticCurve.Affine.Point
import Mathlib.Tactic.FieldSimp
import Mathlib.Tactic.LinearCombination

/-! Points of order dividing eight on a Montgomery curve and its twists, read off their
u-coordinates. Doubling is a rational function of the coordinate, so the points whose double is
killed are found one power of two after the other. -/

open WeierstrassCurve

universe u

namespace Montgomery
variable {K : Type u} [Field K]

/-- The curve `d v² = u³ + A u² + u` in the coordinates `x = d u` and `y = d² v`. -/
def curve (A d : K) : Affine K := ⟨0, d * A, 0, d ^ 2, 0⟩

def cubic (A u : K) : K := u ^ 3 + A * u ^ 2 + u

variable {A d u y : K}

theorem equation_iff : (curve A d).Equation (d * u) y ↔ y ^ 2 = d ^ 3 * cubic A u := by
  rw [Affine.equation_iff]
  simp only [curve, cubic]
  constructor
  · intro on
    linear_combination on
  · intro on
    linear_combination on

theorem negY_eq (x : K) : (curve A d).negY x y = -y := by
  simp [Affine.negY, curve]

/-- A point off the axis differs from its negative. -/
theorem ne_negY (two : (2 : K) ≠ 0) (off : y ≠ 0) (x : K) : y ≠ (curve A d).negY x y := by
  rw [negY_eq]
  intro same
  have double : 2 * y = 0 := by linear_combination same
  exact off ((mul_eq_zero.mp double).resolve_left two)

/-- A point with the coordinate whose multiple by a number is zero. -/
def Killed [DecidableEq K] (A d : K) (n : ℕ) (u : K) : Prop :=
  ∃ y, ∃ h : (curve A d).Nonsingular (d * u) y, n • Affine.Point.some (d * u) y h = 0

section Doubling
variable [DecidableEq K] (two : (2 : K) ≠ 0) (twist : d ≠ 0)
include two

theorem double_eq_zero {h : (curve A d).Nonsingular (d * u) y} :
    2 • Affine.Point.some (d * u) y h = 0 ↔ y = 0 := by
  rw [two_nsmul]
  constructor
  · intro zero
    by_contra off
    rw [Affine.Point.add_self_of_Y_ne (ne_negY two off _)] at zero
    exact Affine.Point.some_ne_zero _ zero
  · rintro rfl
    exact Affine.Point.add_self_of_Y_eq (by rw [negY_eq, neg_zero])

include twist

/-- The coordinate of the double. -/
theorem double_eq_some {h : (curve A d).Nonsingular (d * u) y} (off : y ≠ 0) :
    ∃ u' y', ∃ h' : (curve A d).Nonsingular (d * u') y',
      2 • Affine.Point.some (d * u) y h = .some (d * u') y' h' ∧
        u' * (4 * cubic A u) = (u ^ 2 - 1) ^ 2 := by
  have on := equation_iff.mp h.left
  have away := ne_negY (A := A) (d := d) two off (d * u)
  have slope : (curve A d).slope (d * u) (d * u) y y = d ^ 2 * (3 * u ^ 2 + 2 * A * u + 1) / (2 * y) := by
    rw [Affine.slope_of_Y_ne rfl away, negY_eq]
    simp only [curve]
    congr 1 <;> ring
  have coordinate : (curve A d).addX (d * u) (d * u) ((curve A d).slope (d * u) (d * u) y y) *
      (4 * cubic A u) = d * (u ^ 2 - 1) ^ 2 := by
    have value : cubic A u = y ^ 2 / d ^ 3 := by
      rw [on]
      field_simp
    rw [slope, Affine.addX, value]
    simp only [curve]
    field_simp
    rw [on]
    unfold cubic
    ring
  have scaled {x y' : K} (h' : (curve A d).Nonsingular x y') (value : x * (4 * cubic A u) = d * (u ^ 2 - 1) ^ 2) :
      ∃ u' y'', ∃ h'' : (curve A d).Nonsingular (d * u') y'',
        Affine.Point.some x y' h' = .some (d * u') y'' h'' ∧ u' * (4 * cubic A u) = (u ^ 2 - 1) ^ 2 := by
    obtain ⟨u', rfl⟩ : ∃ u', x = d * u' := ⟨x / d, by field_simp⟩
    exact ⟨u', y', h', rfl, mul_left_cancel₀ twist (by linear_combination value)⟩
  rw [two_nsmul, Affine.Point.add_self_of_Y_ne away]
  exact scaled _ coordinate

end Doubling

section Orders
variable [DecidableEq K] (two : (2 : K) ≠ 0) (twist : d ≠ 0) (single : ¬ IsSquare (A ^ 2 - 4))

include single in
omit [DecidableEq K] in
/-- The origin is the only point of order two. -/
theorem cubic_eq_zero : cubic A u = 0 ↔ u = 0 := by
  have factor : cubic A u = u * (u ^ 2 + A * u + 1) := by
    unfold cubic
    ring
  have nonzero : u ^ 2 + A * u + 1 ≠ 0 := fun root =>
    single ⟨2 * u + A, by linear_combination -4 * root⟩
  rw [factor, mul_eq_zero, or_iff_left nonzero]

include twist single in
omit [DecidableEq K] in
theorem axis_iff (on : y ^ 2 = d ^ 3 * cubic A u) : y = 0 ↔ u = 0 := by
  have zero : y ^ 2 = 0 ↔ u = 0 := by
    rw [on, mul_eq_zero, or_iff_right (pow_ne_zero 3 twist), cubic_eq_zero single]
  exact (pow_eq_zero_iff two_ne_zero).symm.trans zero

include two single in
omit [DecidableEq K] in
/-- Which coordinate the double has. -/
theorem double_eq_iff {u' : K} (away : u ≠ 0) (value : u' * (4 * cubic A u) = (u ^ 2 - 1) ^ 2) (c : K) :
    u' = c ↔ (u ^ 2 - 1) ^ 2 = c * (4 * cubic A u) := by
  have four : (4 : K) = 2 * 2 := by norm_num
  have scale : 4 * cubic A u ≠ 0 := by
    rw [four]
    exact mul_ne_zero (mul_ne_zero two two) (mt (cubic_eq_zero single).mp away)
  rw [← value]
  exact (mul_left_inj' scale).symm

include two twist single

theorem two_nsmul_iff {h : (curve A d).Nonsingular (d * u) y} :
    2 • Affine.Point.some (d * u) y h = 0 ↔ u = 0 := by
  rw [double_eq_zero two, axis_iff twist single (equation_iff.mp h.left)]

theorem four_nsmul_iff {h : (curve A d).Nonsingular (d * u) y} :
    4 • Affine.Point.some (d * u) y h = 0 ↔ u = 0 ∨ u = 1 ∨ u = -1 := by
  have axis := axis_iff twist single (equation_iff.mp h.left)
  rw [show (4 : ℕ) = 2 * 2 from rfl, mul_nsmul]
  by_cases off : y = 0
  · rw [(double_eq_zero two).mpr off, nsmul_zero]
    exact iff_of_true rfl (Or.inl (axis.mp off))
  · obtain ⟨u', y', h', double, value⟩ := double_eq_some two twist (h := h) off
    have away : u ≠ 0 := mt axis.mpr off
    rw [double, two_nsmul_iff two twist single, or_iff_right away, double_eq_iff two single away value,
      zero_mul, pow_eq_zero_iff two_ne_zero, sub_eq_zero, sq, mul_self_eq_one_iff]

theorem eight_nsmul_iff {h : (curve A d).Nonsingular (d * u) y} :
    8 • Affine.Point.some (d * u) y h = 0 ↔ (u = 0 ∨ u = 1 ∨ u = -1) ∨
      (u ^ 2 - 1) ^ 2 = 4 * cubic A u ∨ (u ^ 2 - 1) ^ 2 = -(4 * cubic A u) := by
  have axis := axis_iff twist single (equation_iff.mp h.left)
  rw [show (8 : ℕ) = 2 * 4 from rfl, mul_nsmul]
  by_cases off : y = 0
  · rw [(double_eq_zero two).mpr off, nsmul_zero]
    exact iff_of_true rfl (Or.inl (Or.inl (axis.mp off)))
  · obtain ⟨u', y', h', double, value⟩ := double_eq_some two twist (h := h) off
    have away : u ≠ 0 := mt axis.mpr off
    have coordinate := double_eq_iff two single away value
    have quarter : (u ^ 2 - 1) ^ 2 = 0 ↔ u = 1 ∨ u = -1 := by
      rw [pow_eq_zero_iff two_ne_zero, sub_eq_zero, sq, mul_self_eq_one_iff]
    rw [double, four_nsmul_iff two twist single, coordinate, coordinate, coordinate, zero_mul, one_mul,
      neg_one_mul, quarter, or_iff_right away, or_assoc]

end Orders

/-- Where the coordinates of order eight are. -/
theorem quartic_iff (two : (2 : K) ≠ 0) {s α β : K} (root : s ^ 2 = A + 2)
    (other : ¬ IsSquare (s ^ 2 - 2 * s)) (twisted : ¬ IsSquare (2 - A)) (sum : α + β = 2 + 2 * s)
    (product : α * β = 1) :
    (u ^ 2 - 1) ^ 2 = 4 * cubic A u ∨ (u ^ 2 - 1) ^ 2 = -(4 * cubic A u) ↔ u = α ∨ u = β := by
  have split : (u ^ 2 - 1) ^ 2 - 4 * cubic A u = (u - α) * (u - β) * (u ^ 2 - (2 - 2 * s) * u + 1) := by
    have first : (u - α) * (u - β) = u ^ 2 - (2 + 2 * s) * u + 1 := by
      linear_combination -u * sum + product
    rw [first]
    unfold cubic
    linear_combination (4 * u ^ 2) * root
  have second : u ^ 2 - (2 - 2 * s) * u + 1 ≠ 0 := fun zero =>
    other ⟨u - (1 - s), by linear_combination -zero⟩
  have third : (u ^ 2 - 1) ^ 2 ≠ -(4 * cubic A u) := by
    intro zero
    have away : u ≠ 0 := by
      rintro rfl
      simp [cubic] at zero
    refine twisted ⟨(u + 1) ^ 2 / (2 * u), ?_⟩
    field_simp
    unfold cubic at zero
    linear_combination -zero
  rw [or_iff_left third, ← sub_eq_zero, split, mul_eq_zero, or_iff_left second, mul_eq_zero, sub_eq_zero,
    sub_eq_zero]

section Killed
variable [DecidableEq K] (two : (2 : K) ≠ 0) (twist : d ≠ 0) (single : ¬ IsSquare (A ^ 2 - 4))
include two twist single

theorem nonsingular_iff : (curve A d).Nonsingular (d * u) y ↔ y ^ 2 = d ^ 3 * cubic A u := by
  rw [Affine.nonsingular_iff, equation_iff]
  refine and_iff_left_of_imp fun on => ?_
  by_cases off : y = 0
  · obtain rfl := (axis_iff twist single on).mp off
    left
    simpa [curve] using (pow_ne_zero 2 twist).symm
  · exact Or.inr (by simpa [Affine.negY] using ne_negY (A := A) (d := d) two off (d * u))

/-- The coordinates of the points of order dividing eight. -/
theorem killed_eight_iff {s α β : K} (root : s ^ 2 = A + 2) (other : ¬ IsSquare (s ^ 2 - 2 * s))
    (twisted : ¬ IsSquare (2 - A)) (sum : α + β = 2 + 2 * s) (product : α * β = 1) :
    Killed A d 8 u ↔ (∃ y, y ^ 2 = d ^ 3 * cubic A u) ∧
      ((u = 0 ∨ u = 1 ∨ u = -1) ∨ u = α ∨ u = β) := by
  constructor
  · rintro ⟨y, h, zero⟩
    refine ⟨⟨y, equation_iff.mp h.left⟩, ?_⟩
    rwa [eight_nsmul_iff two twist single, quartic_iff two root other twisted sum product] at zero
  · rintro ⟨⟨y, on⟩, place⟩
    refine ⟨y, (nonsingular_iff two twist single).mpr on, ?_⟩
    rwa [eight_nsmul_iff two twist single, quartic_iff two root other twisted sum product]

end Killed

end Montgomery
