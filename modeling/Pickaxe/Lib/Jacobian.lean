/-
# Jacobian coordinates

Points of a curve `y² = x³ + b` as triples: `z` is zero at infinity, and elsewhere the point is
`(x / z², y / z³)`.  Twice a point and its sum with an affine point are computed without inverses;
where the formulas do not apply the coordinates say so.
-/
import Mathlib.AlgebraicGeometry.EllipticCurve.Affine.Point
import Mathlib.Tactic.FieldSimp
import Mathlib.Tactic.LinearCombination

namespace Pickaxe.Lib

open WeierstrassCurve

variable {F : Type} [Field F]

/-- The curve `y² = x³ + b`. -/
def shortCurve (b : F) : Affine F := ⟨0, 0, 0, 0, b⟩

section Curve

variable {b : F}

@[simp] lemma shortCurve_a₁ : (shortCurve b).a₁ = 0 := rfl

@[simp] lemma shortCurve_a₂ : (shortCurve b).a₂ = 0 := rfl

@[simp] lemma shortCurve_a₃ : (shortCurve b).a₃ = 0 := rfl

@[simp] lemma shortCurve_a₄ : (shortCurve b).a₄ = 0 := rfl

@[simp] lemma shortCurve_a₆ : (shortCurve b).a₆ = b := rfl

@[simp] lemma shortCurve_negY (x y : F) : (shortCurve b).negY x y = -y := by
  simp [Affine.negY]

lemma shortCurve_equation_iff {x y : F} : (shortCurve b).Equation x y ↔ y ^ 2 = x ^ 3 + b := by
  rw [Affine.equation_iff]
  simp

end Curve

/-- A point in Jacobian coordinates. -/
structure Jacobian (F : Type) where
  x : F
  y : F
  z : F

namespace Jacobian

/-- Infinity. -/
def infinity : Jacobian F := ⟨0, 0, 0⟩

variable [DecidableEq F]

/-- Twice a point, where the formula applies. -/
def doubled (p : Jacobian F) : Jacobian F :=
  let s := 4 * (p.x * p.y ^ 2)
  let m := 3 * p.x ^ 2
  let x := m ^ 2 - 2 * s
  ⟨x, m * (s - x) - 8 * p.y ^ 4, 2 * (p.y * p.z)⟩

/-- Twice a point. -/
def double (p : Jacobian F) : Jacobian F := if p.z = 0 ∨ p.y = 0 then infinity else p.doubled

/-- The sum with an affine point, where the formula applies. -/
def added (p : Jacobian F) (x y : F) : Jacobian F :=
  let h := x * p.z ^ 2 - p.x
  let r := y * p.z ^ 3 - p.y
  let v := p.x * h ^ 2
  let x' := r ^ 2 - h ^ 3 - 2 * v
  ⟨x', r * (v - x') - p.y * h ^ 3, p.z * h⟩

/-- The sum with an affine point. -/
def addAffine (p : Jacobian F) (x y : F) : Jacobian F :=
  if p.z = 0 then ⟨x, y, 1⟩
  else if x * p.z ^ 2 - p.x = 0 then if y * p.z ^ 3 - p.y = 0 then p.double else infinity
  else p.added x y

/-- The multiple of an affine point by a number of at most `n` bits, by doubling and adding. -/
def ladder (x y : F) : (n k : ℕ) → Jacobian F
  | 0, _ => infinity
  | n + 1, k =>
    let p := (ladder x y n (k / 2)).double
    if k % 2 = 1 then p.addAffine x y else p

variable {b : F}

/-- The point of the curve that a triple stands for. -/
def Stands (p : Jacobian F) (g : (shortCurve b).Point) : Prop :=
  if p.z = 0 then g = 0 else ∃ h, g = .some (p.x / p.z ^ 2) (p.y / p.z ^ 3) h

variable {p : Jacobian F} {g : (shortCurve b).Point} {x y : F}

lemma stands_infinity : (infinity : Jacobian F).Stands (0 : (shortCurve b).Point) := by
  rw [Stands, infinity, if_pos rfl]

lemma Stands.eq_zero (h : p.Stands g) (hz : p.z = 0) : g = 0 := by
  rwa [Stands, if_pos hz] at h

lemma stands_of_z_eq_zero (hz : p.z = 0) : p.Stands g ↔ g = 0 := by
  rw [Stands, if_pos hz]

lemma Stands.eq_some (h : p.Stands g) (hz : p.z ≠ 0) :
    ∃ h, g = .some (p.x / p.z ^ 2) (p.y / p.z ^ 3) h := by
  rwa [Stands, if_neg hz] at h

/-- A triple stands for an affine point with its quotients. -/
lemma stands_some (hz : p.z ≠ 0) (h : (shortCurve b).Nonsingular x y) (hx : x * p.z ^ 2 = p.x)
    (hy : y * p.z ^ 3 = p.y) : p.Stands (.some x y h) := by
  obtain rfl : x = p.x / p.z ^ 2 := by rw [← hx, mul_div_cancel_right₀ _ (pow_ne_zero 2 hz)]
  obtain rfl : y = p.y / p.z ^ 3 := by rw [← hy, mul_div_cancel_right₀ _ (pow_ne_zero 3 hz)]
  rw [Stands, if_neg hz]
  exact ⟨h, rfl⟩

/-- A point with `y = 0` is its own opposite. -/
lemma Stands.double (htwo : (2 : F) ≠ 0) (h : p.Stands g) : p.double.Stands (g + g) := by
  rw [Jacobian.double]
  by_cases hz : p.z = 0
  · rw [if_pos (.inl hz), h.eq_zero hz, add_zero]
    exact stands_infinity
  obtain ⟨hns, rfl⟩ := h.eq_some hz
  by_cases hy : p.y = 0
  · rw [if_pos (.inr hy), Affine.Point.add_self_of_Y_eq]
    · exact stands_infinity
    · rw [shortCurve_negY, hy, zero_div, neg_zero]
  rw [if_neg (by tauto)]
  have hne : p.y / p.z ^ 3 ≠ (shortCurve b).negY (p.x / p.z ^ 2) (p.y / p.z ^ 3) := by
    rw [shortCurve_negY]
    intro heq
    have hsum : 2 * (p.y / p.z ^ 3) = 0 := by linear_combination heq
    rcases mul_eq_zero.mp hsum with htwo' | hquot
    · exact htwo htwo'
    · exact div_ne_zero hy (pow_ne_zero 3 hz) hquot
  have hslope : (shortCurve b).slope (p.x / p.z ^ 2) (p.x / p.z ^ 2) (p.y / p.z ^ 3) (p.y / p.z ^ 3) =
      3 * p.x ^ 2 / (2 * p.y * p.z) := by
    rw [Affine.slope_of_Y_ne rfl hne, shortCurve_negY, sub_neg_eq_add, ← two_mul]
    simp only [shortCurve_a₁, shortCurve_a₂, shortCurve_a₄]
    field_simp
    ring
  rw [Affine.Point.add_self_of_Y_ne hne, Jacobian.doubled]
  refine stands_some (mul_ne_zero htwo (mul_ne_zero hy hz)) _ ?_ ?_
  · rw [hslope, Affine.addX]
    simp only [shortCurve_a₁, shortCurve_a₂]
    field_simp
    ring
  · rw [hslope, Affine.addY, shortCurve_negY, Affine.negAddY, Affine.addX]
    simp only [shortCurve_a₁, shortCurve_a₂]
    field_simp
    ring

/-- The sum, with infinity, the point itself and its opposite each on a branch. -/
lemma Stands.addAffine (htwo : (2 : F) ≠ 0) (h : p.Stands g) (hns : (shortCurve b).Nonsingular x y) :
    (p.addAffine x y).Stands (g + .some x y hns) := by
  rw [Jacobian.addAffine]
  by_cases hz : p.z = 0
  · rw [if_pos hz, h.eq_zero hz, zero_add]
    exact stands_some one_ne_zero hns (by ring) (by ring)
  rw [if_neg hz]
  have hstands := h
  obtain ⟨hns', rfl⟩ := h.eq_some hz
  by_cases hx : x * p.z ^ 2 - p.x = 0
  · have hxs : p.x / p.z ^ 2 = x := by
      rw [← sub_eq_zero.mp hx, mul_div_cancel_right₀ _ (pow_ne_zero 2 hz)]
    rw [if_pos hx]
    by_cases hy : y * p.z ^ 3 - p.y = 0
    · have hys : p.y / p.z ^ 3 = y := by
        rw [← sub_eq_zero.mp hy, mul_div_cancel_right₀ _ (pow_ne_zero 3 hz)]
      rw [if_pos hy]
      subst hxs hys
      exact hstands.double htwo
    · -- the same abscissa and another ordinate
      have hys : p.y / p.z ^ 3 = (shortCurve b).negY x y := by
        refine (Affine.Y_eq_of_X_eq hns'.1 hns.1 hxs).resolve_left fun heq => hy ?_
        rw [← heq, div_mul_cancel₀ _ (pow_ne_zero 3 hz), sub_self]
      rw [if_neg hy, Affine.Point.add_of_Y_eq hxs hys]
      exact stands_infinity
  · have hxs : p.x / p.z ^ 2 ≠ x := by
      rintro rfl
      rw [div_mul_cancel₀ _ (pow_ne_zero 2 hz), sub_self] at hx
      exact hx rfl
    rw [if_neg hx, Affine.Point.add_of_X_ne hxs, Jacobian.added]
    refine stands_some (mul_ne_zero hz hx) _ ?_ ?_
    all_goals
      rw [Affine.slope_of_X_ne hxs]
      generalize hh : x * p.z ^ 2 - p.x = h at hx ⊢
      obtain rfl : x = (p.x + h) / p.z ^ 2 := by
        rw [← hh, add_sub_cancel, mul_div_cancel_right₀ _ (pow_ne_zero 2 hz)]
      have hdiff : p.x / p.z ^ 2 - (p.x + h) / p.z ^ 2 = -h / p.z ^ 2 := by ring
      rw [hdiff]
    · rw [Affine.addX]
      simp only [shortCurve_a₁, shortCurve_a₂]
      field_simp
      ring
    · rw [Affine.addY, shortCurve_negY, Affine.negAddY, Affine.addX]
      simp only [shortCurve_a₁, shortCurve_a₂]
      field_simp
      ring

/-- The formula for twice a point is right where it is not needed, too. -/
lemma Stands.doubled (htwo : (2 : F) ≠ 0) (h : p.Stands g) : p.doubled.Stands (g + g) := by
  have hdouble := h.double htwo
  rw [Jacobian.double] at hdouble
  by_cases hzero : p.z = 0 ∨ p.y = 0
  · have hz : p.doubled.z = 0 := by
      rw [Jacobian.doubled]
      rcases hzero with hz | hy
      · simp [hz]
      · simp [hy]
    rw [if_pos hzero] at hdouble
    exact (stands_of_z_eq_zero hz).mpr (hdouble.eq_zero rfl)
  · rwa [if_neg hzero] at hdouble

/-- The formula for a sum is right for a point and its opposite, too. -/
lemma Stands.added (htwo : (2 : F) ≠ 0) (h : p.Stands g) (hns : (shortCurve b).Nonsingular x y)
    (hz : p.z ≠ 0) (hy : y * p.z ^ 3 - p.y ≠ 0) : (p.added x y).Stands (g + .some x y hns) := by
  have hadd := h.addAffine htwo hns
  rw [Jacobian.addAffine, if_neg hz] at hadd
  by_cases hx : x * p.z ^ 2 - p.x = 0
  · have hz' : (p.added x y).z = 0 := by
      rw [Jacobian.added]
      simp [hx]
    rw [if_pos hx, if_neg hy] at hadd
    exact (stands_of_z_eq_zero hz').mpr (hadd.eq_zero rfl)
  · rwa [if_neg hx] at hadd

/-- The ladder gives the multiple. -/
lemma stands_ladder (htwo : (2 : F) ≠ 0) (hns : (shortCurve b).Nonsingular x y) {n k : ℕ}
    (hk : k < 2 ^ n) : (ladder x y n k).Stands (k • Affine.Point.some x y hns) := by
  induction n generalizing k with
  | zero =>
    obtain rfl : k = 0 := by omega
    rw [zero_nsmul]
    exact stands_infinity
  | succ n ih =>
    have hdouble := (ih (k := k / 2) (by omega)).double htwo
    rw [← two_nsmul, ← mul_nsmul'] at hdouble
    rw [ladder]
    by_cases hodd : k % 2 = 1
    · have hadd := hdouble.addAffine htwo hns
      rw [← succ_nsmul, show 2 * (k / 2) + 1 = k by omega] at hadd
      rwa [if_pos hodd]
    · rw [show 2 * (k / 2) = k by omega] at hdouble
      rwa [if_neg hodd]

end Jacobian

end Pickaxe.Lib
