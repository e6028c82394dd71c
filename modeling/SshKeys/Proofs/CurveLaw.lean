/-
**Points by the chord and tangent rules.**

The coordinates of a point of a curve are numbers below the field prime.  To add two points by the
chord and tangent rules on these numbers is to add them in the group of the curve, and to add and
double along the bits of a number is to take the multiple by it.

Main definitions:

* `SshKeys.CurveParams.weierstrass` — the curve over the field of residues;
* `SshKeys.CurveParams.coordinates` — a point of the group as numbers.

Main results:

* `SshKeys.CurveParams.add_coordinates` — **the sum**;
* `SshKeys.CurveParams.multiply_coordinates` — **the multiple**;
* `SshKeys.CurveParams.isOnCurve_iff` — which numbers are the coordinates of a point.
-/

import Mathlib.AlgebraicGeometry.EllipticCurve.Affine.Point
import SshKeys.Arithmetic.CurveGroup
import SshKeys.Proofs.FieldPrimes

set_option relaxedAutoImplicit false
set_option autoImplicit false

namespace SshKeys

open WeierstrassCurve.Affine

/-! ### Residues as numbers -/

section Residues

variable {p : ℕ} [Fact p.Prime]

theorem eq_val_of_cast {n : ℕ} {z : ZMod p} (hn : n < p) (hz : (n : ZMod p) = z) : n = z.val := by
  rw [← hz, ZMod.val_cast_of_lt hn]

theorem subMod_lt (a b : ℕ) : subMod a b p < p := Nat.mod_lt _ (Nat.Prime.pos Fact.out)

theorem cast_subMod {a b : ℕ} (hb : b < p) : (subMod a b p : ZMod p) = a - b := by
  have hle : b ≤ a + p := hb.le.trans (Nat.le_add_left p a)
  rw [subMod, ZMod.natCast_mod, Nat.cast_sub hle, Nat.cast_add, ZMod.natCast_self, add_zero]

/-- Two residues are opposite exactly if the prime divides the sum of their numbers. -/
theorem val_add_val_mod_eq_zero_iff {y z : ZMod p} : (y.val + z.val) % p = 0 ↔ y = -z := by
  rw [← Nat.dvd_iff_mod_eq_zero, ← ZMod.natCast_eq_zero_iff, Nat.cast_add, ZMod.natCast_zmod_val,
    ZMod.natCast_zmod_val, add_eq_zero_iff_eq_neg]

end Residues

namespace CurveParams

variable (c : CurveParams)

/-! ### The curve -/

/-- The curve over the field of residues. -/
def weierstrass : WeierstrassCurve.Affine (ZMod c.p) := ⟨0, 0, 0, -3, c.b⟩

/-- A point of the curve as numbers. -/
def coordinates : c.weierstrass.Point → GroupPoint
  | .zero => .infinity
  | .some x y _ => .affine x.val y.val

@[simp] theorem coordinates_zero : c.coordinates 0 = .infinity := rfl

variable {c}

theorem isOnCurve_eq_true_iff {x y : ℕ} :
    c.isOnCurve x y = true ↔ x < c.p ∧ y < c.p ∧ y * y % c.p = c.cubic x := by
  simp only [isOnCurve, Bool.and_eq_true, decide_eq_true_eq, beq_iff_eq, and_assoc]

variable [Fact c.p.Prime]

/-- Opposite points of the curve have opposite second coordinates. -/
theorem negY_weierstrass (x y : ZMod c.p) : c.weierstrass.negY x y = -y := by
  simp [weierstrass, negY]

/-- A curve without a singular point. -/
def Smooth (c : CurveParams) : Prop := ¬(c.p : ℤ) ∣ 1728 - 432 * c.b ^ 2

theorem Smooth.discriminant_ne (h : c.Smooth) : WeierstrassCurve.Δ c.weierstrass ≠ 0 := by
  intro hzero
  refine h ((ZMod.intCast_zmod_eq_zero_iff_dvd _ _).1 ?_)
  simp only [WeierstrassCurve.Δ, WeierstrassCurve.b₂, WeierstrassCurve.b₄, WeierstrassCurve.b₆,
    WeierstrassCurve.b₈, weierstrass] at hzero
  push_cast
  linear_combination hzero

theorem equation_iff_isOnCurve (hp : 3 ≤ c.p) {x y : ℕ} :
    c.weierstrass.Equation x y ↔ y * y % c.p = c.cubic x := by
  have hcast : (y : ZMod c.p) ^ 2 = x ^ 3 - 3 * x + c.b ↔
      ((y * y : ℕ) : ZMod c.p) = ((x * x * x + (c.p - 3) * x + c.b : ℕ) : ZMod c.p) := by
    push_cast [Nat.cast_sub hp]
    rw [ZMod.natCast_self]
    ring_nf
  rw [equation_iff, cubic, ← Nat.ModEq, ← ZMod.natCast_eq_natCast_iff, ← hcast]
  simp only [weierstrass]
  ring_nf

theorem nonsingular_of_isOnCurve (hp : 3 ≤ c.p) (hsmooth : c.Smooth) {x y : ℕ}
    (h : c.isOnCurve x y = true) : c.weierstrass.Nonsingular x y :=
  (equation_iff_nonsingular_of_Δ_ne_zero hsmooth.discriminant_ne).1
    ((equation_iff_isOnCurve hp).2 (isOnCurve_eq_true_iff.1 h).2.2)

/-- **Which numbers are coordinates**: those below the prime that solve the equation. -/
theorem isOnCurve_iff (hp : 3 ≤ c.p) (hsmooth : c.Smooth) {x y : ℕ} :
    c.isOnCurve x y = true ↔ ∃ P, c.coordinates P = .affine x y := by
  constructor
  · intro h
    obtain ⟨hx, hy, -⟩ := isOnCurve_eq_true_iff.1 h
    refine ⟨.some x y (nonsingular_of_isOnCurve hp hsmooth h), ?_⟩
    rw [coordinates, ZMod.val_cast_of_lt hx, ZMod.val_cast_of_lt hy]
  · rintro ⟨P, hP⟩
    cases P with
    | zero => exact absurd hP nofun
    | some X Y hpoint =>
        obtain ⟨rfl, rfl⟩ := GroupPoint.affine.inj hP
        refine isOnCurve_eq_true_iff.2
          ⟨ZMod.val_lt X, ZMod.val_lt Y, (equation_iff_isOnCurve hp).1 ?_⟩
        rw [ZMod.natCast_zmod_val, ZMod.natCast_zmod_val]
        exact hpoint.1

/-! ### Sums -/

theorem cast_quotient (numerator denominator : ℕ) :
    (c.quotient numerator denominator : ZMod c.p) = numerator / denominator := by
  rw [quotient, ZMod.natCast_mod, Nat.cast_mul, cast_inverseMod?, div_eq_mul_inv]

/-- The third point on a line, mirrored. -/
theorem alongLine_eq {slope : ℕ} {ℓ : ZMod c.p} (hslope : (slope : ZMod c.p) = ℓ)
    (x₁ y₁ x₂ : ZMod c.p) :
    c.alongLine slope x₁.val y₁.val x₂.val =
      .affine (c.weierstrass.addX x₁ x₂ ℓ).val (c.weierstrass.addY x₁ x₂ y₁ ℓ).val := by
  have hx : subMod (subMod (slope * slope % c.p) x₁.val c.p) x₂.val c.p =
      (c.weierstrass.addX x₁ x₂ ℓ).val := by
    refine eq_val_of_cast (subMod_lt _ _) ?_
    rw [cast_subMod (ZMod.val_lt x₂), cast_subMod (ZMod.val_lt x₁), ZMod.natCast_mod, Nat.cast_mul,
      hslope, ZMod.natCast_zmod_val, ZMod.natCast_zmod_val]
    simp only [weierstrass, addX]
    ring
  rw [alongLine, hx]
  refine congrArg _ (eq_val_of_cast (subMod_lt _ _) ?_)
  rw [cast_subMod (ZMod.val_lt y₁), ZMod.natCast_mod, Nat.cast_mul, hslope,
    cast_subMod (ZMod.val_lt _), ZMod.natCast_zmod_val, ZMod.natCast_zmod_val,
    ZMod.natCast_zmod_val]
  simp only [weierstrass, addX, addY, negY, negAddY]
  ring

/-- **The sum by the chord and tangent rules** is the sum in the group of the curve. -/
theorem add_coordinates (hp : 3 ≤ c.p) (P Q : c.weierstrass.Point) :
    c.add (c.coordinates P) (c.coordinates Q) = c.coordinates (P + Q) := by
  cases P with
  | zero =>
      rw [← Point.zero_def, zero_add]
      rfl
  | some x₁ y₁ hP =>
      cases Q with
      | zero =>
          rw [← Point.zero_def, add_zero]
          rfl
      | some x₂ y₂ hQ =>
          rw [coordinates, coordinates, add]
          by_cases hx : x₁ = x₂
          · subst hx
            rw [if_pos rfl]
            by_cases hy : y₁ = c.weierstrass.negY x₁ y₂
            · rw [if_pos (val_add_val_mod_eq_zero_iff.2 (hy.trans (negY_weierstrass x₁ y₂))),
                Point.add_of_Y_eq rfl hy]
              rfl
            · -- the tangent
              have hsum : ¬(y₁.val + y₂.val) % c.p = 0 := fun h =>
                hy ((val_add_val_mod_eq_zero_iff.1 h).trans (negY_weierstrass x₁ y₂).symm)
              rw [if_neg hsum, Point.add_of_Y_ne hy]
              refine alongLine_eq ?_ x₁ y₁ x₁
              rw [cast_quotient, slope_of_Y_ne rfl hy, negY_weierstrass, ZMod.natCast_mod]
              push_cast [Nat.cast_sub hp]
              simp only [ZMod.natCast_zmod_val, ZMod.natCast_self, weierstrass]
              ring
          · -- the chord
            have hval : ¬x₁.val = x₂.val := fun h => hx (ZMod.val_injective _ h)
            rw [if_neg hval, Point.add_of_X_ne hx]
            refine alongLine_eq ?_ x₁ y₁ x₂
            rw [cast_quotient, cast_subMod (ZMod.val_lt y₁), cast_subMod (ZMod.val_lt x₁),
              slope_of_X_ne hx]
            simp only [ZMod.natCast_zmod_val]
            rw [← neg_sub y₁ y₂, ← neg_sub x₁ x₂, neg_div_neg_eq]

/-! ### Multiples -/

theorem multiplyBits_coordinates (hp : 3 ≤ c.p) (bits k : ℕ) (P : c.weierstrass.Point) :
    c.multiplyBits bits k (c.coordinates P) = c.coordinates ((k % 2 ^ bits) • P) := by
  induction bits generalizing k P with
  | zero => rw [multiplyBits, pow_zero, Nat.mod_one, zero_nsmul, coordinates_zero]
  | succ bits ih =>
      have hsplit : k % 2 ^ (bits + 1) = k % 2 + 2 * (k / 2 % 2 ^ bits) := by
        rw [pow_succ', Nat.mod_mul]
      have hdouble : (2 * (k / 2 % 2 ^ bits)) • P = (k / 2 % 2 ^ bits) • (P + P) := by
        rw [mul_comm, mul_nsmul', two_nsmul]
      rw [multiplyBits, add_coordinates hp, ih, hsplit, add_nsmul, hdouble]
      rcases Nat.mod_two_eq_zero_or_one k with heven | hodd
      · rw [heven, zero_nsmul, zero_add]
        rfl
      · rw [hodd, one_nsmul, ← add_coordinates hp]
        rfl

/-- **Adding and doubling** along the bits of a number gives the multiple in the group. -/
theorem multiply_coordinates (hp : 3 ≤ c.p) (k : ℕ) (P : c.weierstrass.Point) :
    c.multiply k (c.coordinates P) = c.coordinates (k • P) := by
  rw [multiply, multiplyBits_coordinates hp, Nat.mod_eq_of_lt (lt_two_pow_bitLength k)]

end CurveParams

/-! ### The supported curves -/

namespace Curve

instance (curve : Curve) : Fact curve.params.p.Prime := ⟨curve.prime_p⟩

theorem three_le_p (curve : Curve) : 3 ≤ curve.params.p := by
  cases curve <;> decide +kernel

theorem smooth (curve : Curve) : curve.params.Smooth := by
  cases curve <;> (unfold CurveParams.Smooth; decide +kernel)

/-- The generator lies on the curve. -/
theorem isOnCurve_generator (curve : Curve) :
    curve.params.isOnCurve curve.params.generatorX curve.params.generatorY = true := by
  cases curve <;> decide +kernel

/-- The group of points of a curve. -/
abbrev Group (curve : Curve) : Type := curve.params.weierstrass.Point

/-- The generator as a point of the group. -/
def base (curve : Curve) : curve.Group :=
  .some _ _ (CurveParams.nonsingular_of_isOnCurve curve.three_le_p curve.smooth
    curve.isOnCurve_generator)

theorem coordinates_base (curve : Curve) :
    curve.params.coordinates curve.base = curve.params.generator := by
  obtain ⟨hx, hy, -⟩ := CurveParams.isOnCurve_eq_true_iff.1 curve.isOnCurve_generator
  rw [base, CurveParams.coordinates, ZMod.val_cast_of_lt hx, ZMod.val_cast_of_lt hy]
  rfl

/-- The multiple of the generator by a scalar is what adding and doubling gives. -/
theorem multiply_generator (curve : Curve) (scalar : ℕ) :
    curve.params.multiply scalar curve.params.generator =
      curve.params.coordinates (scalar • curve.base) := by
  rw [← coordinates_base, CurveParams.multiply_coordinates curve.three_le_p]

end Curve

end SshKeys
