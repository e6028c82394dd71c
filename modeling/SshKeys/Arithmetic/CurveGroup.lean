/-
**The group of points of a curve.**

The curves are `y² = x³ - 3x + b` over the integers modulo a prime `p` that is three modulo four.
A point of the group is the point at infinity or a pair of coordinates below `p`; points are added
by the chord and tangent rules.  Because `p` is three modulo four, a square root is a power.

Which of the two square roots is the odd one is read off their lowest bits.  On the curve over the
integers modulo `2 ^ 521 - 1` the root is held in limbs that are not brought below the prime, and
the bit is that of the limbs: for a root close to zero it may be the other one.

Main definitions:

* `SshKeys.CurveParams` — the prime, the constant term, the generator and its order;
* `SshKeys.Curve.params` — the parameters of each supported curve;
* `SshKeys.CurveParams.isOnCurve` — whether two numbers are the coordinates of a point;
* `SshKeys.CurveParams.root?` — a second coordinate over a first one;
* `SshKeys.Curve.recoverY?` — the second coordinate, from the first one and a parity;
* `SshKeys.CurveParams.add`, `SshKeys.CurveParams.multiply` — the group law and its multiples.

Main results:

* `SshKeys.Curve.represents_limbRoot` — the root in limbs is the root, up to the prime.
-/

import SshKeys.Arithmetic.Modular
import SshKeys.Arithmetic.LimbResidue
import SshKeys.Key.Algorithm

set_option relaxedAutoImplicit false
set_option autoImplicit false

namespace SshKeys

/-! ### Parameters -/

/-- A curve `y² = x³ - 3x + b` modulo `p` with a generator of prime order. -/
structure CurveParams where
  /-- The field prime. -/
  p : Nat
  /-- The constant term. -/
  b : Nat
  /-- The order of the generator. -/
  order : Nat
  /-- The first coordinate of the generator. -/
  generatorX : Nat
  /-- The second coordinate of the generator. -/
  generatorY : Nat

/-- The standard parameters of each supported curve. -/
def Curve.params : Curve → CurveParams
  | .nistP256 => {
      p := 0xffffffff00000001000000000000000000000000ffffffffffffffffffffffff
      b := 0x5ac635d8aa3a93e7b3ebbd55769886bc651d06b0cc53b0f63bce3c3e27d2604b
      order := 0xffffffff00000000ffffffffffffffffbce6faada7179e84f3b9cac2fc632551
      generatorX := 0x6b17d1f2e12c4247f8bce6e563a440f277037d812deb33a0f4a13945d898c296
      generatorY := 0x4fe342e2fe1a7f9b8ee7eb4a7c0f9e162bce33576b315ececbb6406837bf51f5 }
  | .nistP384 => {
      p := 0xfffffffffffffffffffffffffffffffffffffffffffffffffffffffffffffffeffffffff0000000000000000ffffffff
      b := 0xb3312fa7e23ee7e4988e056be3f82d19181d9c6efe8141120314088f5013875ac656398d8a2ed19d2a85c8edd3ec2aef
      order := 0xffffffffffffffffffffffffffffffffffffffffffffffffc7634d81f4372ddf581a0db248b0a77aecec196accc52973
      generatorX := 0xaa87ca22be8b05378eb1c71ef320ad746e1d3b628ba79b9859f741e082542a385502f25dbf55296c3a545e3872760ab7
      generatorY := 0x3617de4a96262c6f5d9e98bf9292dc29f8f41dbd289a147ce9da3113b5f0b8c00a60b1ce1d7e819d7a431d7c90ea0e5f }
  | .nistP521 => {
      p := 0x1ffffffffffffffffffffffffffffffffffffffffffffffffffffffffffffffffffffffffffffffffffffffffffffffffffffffffffffffffffffffffffffffffff
      b := 0x51953eb9618e1c9a1f929a21a0b68540eea2da725b99b315f3b8b489918ef109e156193951ec7e937b1652c0bd3bb1bf073573df883d2c34f1ef451fd46b503f00
      order := 0x1fffffffffffffffffffffffffffffffffffffffffffffffffffffffffffffffffa51868783bf2f966b7fcc0148f709a5d03bb5c9b8899c47aebb6fb71e91386409
      generatorX := 0xc6858e06b70404e9cd9e3ecb662395b4429c648139053fb521f828af606b4d3dbaa14b5e77efe75928fe1dc127a2ffa8de3348b3c1856a429bf97e7e31c2e5bd66
      generatorY := 0x11839296a789a3bc0045c8a5fb42c7d1bd998f54449579b446817afbd17273e662c97ee72995ef42640c550b9013fad0761353c7086a272c24088be94769fd16650 }

/-- A point of the group. -/
inductive GroupPoint where
  /-- The neutral element. -/
  | infinity
  /-- A point with coordinates. -/
  | affine (x y : Nat)
  deriving DecidableEq

namespace CurveParams

/-! ### The equation -/

/-- The right side of the equation, `x³ - 3x + b` modulo `p`. -/
def cubic (c : CurveParams) (x : Nat) : Nat :=
  (x * x * x + (c.p - 3) * x + c.b) % c.p

/-- Whether two numbers are the coordinates of a point. -/
def isOnCurve (c : CurveParams) (x y : Nat) : Bool :=
  x < c.p && y < c.p && y * y % c.p == c.cubic x

/-- A second coordinate over `x`, a power of the right side, if there is a point over `x`. -/
def root? (c : CurveParams) (x : Nat) : Option Nat :=
  if x < c.p then
    let root := powMod (c.cubic x) ((c.p + 1) / 4) c.p
    if root * root % c.p = c.cubic x then some root else none
  else none

/-! ### The group law -/

/-- The third point, mirrored, on the line of a given slope through a point over `x₁` and one
over `x₂`. -/
def alongLine (c : CurveParams) (slope x₁ y₁ x₂ : Nat) : GroupPoint :=
  let x₃ := subMod (subMod (slope * slope % c.p) x₁ c.p) x₂ c.p
  .affine x₃ (subMod (slope * subMod x₁ x₃ c.p % c.p) y₁ c.p)

/-- The quotient of two residues; zero where there is none. -/
def quotient (c : CurveParams) (numerator denominator : Nat) : Nat :=
  numerator * (inverseMod? denominator c.p).getD 0 % c.p

/-- The sum of two points. -/
def add (c : CurveParams) : GroupPoint → GroupPoint → GroupPoint
  | .infinity, Q => Q
  | P, .infinity => P
  | .affine x₁ y₁, .affine x₂ y₂ =>
    if x₁ = x₂ then
      if (y₁ + y₂) % c.p = 0 then .infinity
      else c.alongLine (c.quotient (3 * x₁ * x₁ + (c.p - 3)) (2 * y₁ % c.p)) x₁ y₁ x₂
    else c.alongLine (c.quotient (subMod y₂ y₁ c.p) (subMod x₂ x₁ c.p)) x₁ y₁ x₂

/-- The multiple of a point by the number in the lowest `bits` bits of `k`. -/
def multiplyBits (c : CurveParams) : Nat → Nat → GroupPoint → GroupPoint
  | 0, _, _ => .infinity
  | bits + 1, k, P =>
    let rest := c.multiplyBits bits (k / 2) (c.add P P)
    if k % 2 = 0 then rest else c.add P rest

/-- The `k`-th multiple of a point. -/
def multiply (c : CurveParams) (k : Nat) (P : GroupPoint) : GroupPoint :=
  c.multiplyBits (bitLength k) k P

/-- The generator. -/
def generator (c : CurveParams) : GroupPoint := .affine c.generatorX c.generatorY

end CurveParams

/-! ### Parity -/

namespace Curve

/-- The right side over `x` in limbs. -/
def limbCubic (x : Nat) : LimbResidue :=
  let params := nistP521.params
  let x := LimbResidue.ofNat x
  x * x * x + .ofNat (params.p - 3) * x + .ofNat params.b

/-- The second coordinate over `x` in limbs: the right side, squared 519 times over, which is its
power by a quarter of `2 ^ 521`. -/
def limbRoot (x : Nat) : LimbResidue := (limbCubic x).squareTimes 519

theorem modulus_eq : Limbs.modulus = nistP521.params.p := by decide +kernel

theorem represents_limbCubic {x : Nat} (h : x < nistP521.params.p) :
    (limbCubic x).Represents (x * x * x + (nistP521.params.p - 3) * x + nistP521.params.b) := by
  have hx := LimbResidue.represents_ofNat x (modulus_eq ▸ h)
  have ha := LimbResidue.represents_ofNat (nistP521.params.p - 3) (by decide +kernel)
  have hb := LimbResidue.represents_ofNat nistP521.params.b (by decide +kernel)
  exact (((hx.mul hx).mul hx).add (ha.mul hx)).add hb

/-- The limbs hold the residue of the power that `CurveParams.root?` takes. -/
theorem represents_limbRoot (x : Nat) (h : x < nistP521.params.p) :
    (limbRoot x).Represents
      ((x * x * x + (nistP521.params.p - 3) * x + nistP521.params.b) ^ 2 ^ 519) :=
  (represents_limbCubic h).squareTimes 519

/-- Whether the second coordinate `root` over `x` counts as odd. -/
def rootIsOdd (curve : Curve) (x root : Nat) : Bool :=
  match curve with
  | nistP521 => (limbRoot x).isOdd
  | _ => root % 2 == 1

/-- The second coordinate over `x` that counts as odd or even as asked, if there is a point over
`x`. -/
def recoverY? (curve : Curve) (x : Nat) (odd : Bool) : Option Nat :=
  (curve.params.root? x).map fun root =>
    if curve.rootIsOdd x root == odd then root else curve.params.p - root

end Curve

end SshKeys
