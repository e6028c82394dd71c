/-
**No point lies on the axis.**

A point with the second coordinate zero would have a root of the cubic `x³ - 3x + b` for its first
one, and there would be no two points over it to choose from.  None of the cubics has a root modulo
its prime.  Every residue is its own power by the prime, so a root of the cubic is a root of
`Xᵖ - X` too, and of what this leaves when it is divided by the cubic.  That remainder can be
computed.  A polynomial whose product with it leaves one shows that the two have no root in common.

Main definitions:

* `SshKeys.CubicRemainder` — what polynomials leave when they are divided by the cubic;
* `SshKeys.CubicRemainder.mul`, `SshKeys.CubicRemainder.powBits` — products and powers of them;
* `SshKeys.Curve.cubicInverse` — the inverse that excludes the roots, for each curve.

Main results:

* `SshKeys.CubicRemainder.eval_mul`, `SshKeys.CubicRemainder.eval_powBits` — at a root of the cubic,
  nothing is lost by dividing;
* `SshKeys.Curve.cubic_ne_zero` — **the cubics have no roots**.
-/

import SshKeys.Proofs.CurveLaw

set_option relaxedAutoImplicit false
set_option autoImplicit false

namespace SshKeys

/-! ### Remainders by the cubic -/

/-- What a polynomial leaves when it is divided by the cubic: a polynomial of degree two. -/
structure CubicRemainder where
  constant : ℕ
  linear : ℕ
  quadratic : ℕ
  deriving DecidableEq

namespace CubicRemainder

/-- The polynomial one. -/
def one : CubicRemainder := ⟨1, 0, 0⟩

/-- The polynomial `X`. -/
def identity : CubicRemainder := ⟨0, 1, 0⟩

/-- The product, in which `X³` is `3X - b` and `X⁴` is `3X² - bX`. -/
def mul (c : CurveParams) (s t : CubicRemainder) : CubicRemainder :=
  let cube := s.linear * t.quadratic + s.quadratic * t.linear
  let fourth := s.quadratic * t.quadratic
  ⟨(s.constant * t.constant + (c.p - c.b) * cube) % c.p,
    (s.constant * t.linear + s.linear * t.constant + 3 * cube + (c.p - c.b) * fourth) % c.p,
    (s.constant * t.quadratic + s.linear * t.linear + s.quadratic * t.constant + 3 * fourth) % c.p⟩

/-- The power by the number in the lowest `bits` bits of `exponent`. -/
def powBits (c : CurveParams) : ℕ → CubicRemainder → ℕ → CubicRemainder
  | 0, _, _ => one
  | bits + 1, base, exponent =>
    let rest := powBits c bits (mul c base base) (exponent / 2)
    if exponent % 2 = 0 then rest else mul c rest base

/-- What `Xᵖ - X` leaves. -/
def frobenius (c : CurveParams) : CubicRemainder :=
  let power := powBits c (bitLength c.p) identity c.p
  { power with linear := power.linear + (c.p - 1) }

variable {c : CurveParams}

/-- The value of the polynomial. -/
def eval (t : CubicRemainder) (x : ZMod c.p) : ZMod c.p :=
  t.constant + t.linear * x + t.quadratic * x ^ 2

@[simp] theorem eval_one (x : ZMod c.p) : one.eval x = 1 := by
  simp [eval, one]

@[simp] theorem eval_identity (x : ZMod c.p) : identity.eval x = x := by
  simp [eval, identity]

section Root

variable {x : ZMod c.p} (hb : c.b ≤ c.p) (hroot : x ^ 3 - 3 * x + c.b = 0)

include hb hroot

/-- At a root of the cubic, the value of a product is the product of the values. -/
theorem eval_mul (s t : CubicRemainder) : (mul c s t).eval x = s.eval x * t.eval x := by
  simp only [eval, mul, ZMod.natCast_mod]
  push_cast [Nat.cast_sub hb]
  rw [ZMod.natCast_self]
  linear_combination (-(s.linear * t.quadratic + s.quadratic * t.linear : ZMod c.p) -
    s.quadratic * t.quadratic * x) * hroot

theorem eval_powBits (bits : ℕ) (base : CubicRemainder) (exponent : ℕ) :
    (powBits c bits base exponent).eval x = base.eval x ^ (exponent % 2 ^ bits) := by
  induction bits generalizing base exponent with
  | zero => simp [powBits, Nat.mod_one]
  | succ bits ih =>
      have hsplit : exponent % 2 ^ (bits + 1) = exponent % 2 + 2 * (exponent / 2 % 2 ^ bits) := by
        rw [pow_succ', Nat.mod_mul]
      have hsquare : (powBits c bits (mul c base base) (exponent / 2)).eval x =
          base.eval x ^ (2 * (exponent / 2 % 2 ^ bits)) := by
        rw [ih, eval_mul hb hroot, ← sq, ← pow_mul]
      rw [powBits, hsplit]
      rcases Nat.mod_two_eq_zero_or_one exponent with heven | hodd
      · rw [heven, Nat.zero_add, if_pos rfl, hsquare]
      · rw [hodd, if_neg one_ne_zero, eval_mul hb hroot, hsquare, Nat.add_comm, pow_succ]

/-- A root of the cubic is a root of `Xᵖ - X`. -/
theorem eval_frobenius [Fact c.p.Prime] : (frobenius c).eval x = 0 := by
  have hpower : (powBits c (bitLength c.p) identity c.p).eval x = x := by
    rw [eval_powBits hb hroot, eval_identity, Nat.mod_eq_of_lt (lt_two_pow_bitLength c.p),
      ZMod.pow_card]
  have hp : 1 ≤ c.p := (Nat.Prime.pos Fact.out)
  simp only [eval, frobenius] at hpower ⊢
  push_cast [Nat.cast_sub hp]
  rw [ZMod.natCast_self]
  linear_combination hpower

/-- So there is none, if what `Xᵖ - X` leaves has an inverse. -/
theorem not_root [Fact c.p.Prime] {inverse : CubicRemainder}
    (h : mul c inverse (frobenius c) = one) : False := by
  have hone : (mul c inverse (frobenius c)).eval x = 1 := by rw [h, eval_one]
  rw [eval_mul hb hroot, eval_frobenius hb hroot, mul_zero] at hone
  exact zero_ne_one hone

end Root

end CubicRemainder

namespace Curve

/-! ### The curves -/

/-- For each curve, the polynomial that is inverse to what `Xᵖ - X` leaves. -/
def cubicInverse : Curve → CubicRemainder
  | nistP256 => {
      constant := 0xa969487079f1744798bf0de6fded091b66e9d328eb0645fe5d979d1339b7f47f
      linear := 0xa4a08891884100c13323460107a8d28eede4387fa3e6e9bfebec9f6d72d0b5cc
      quadratic := 0x4cde11cf86cb876cd59cf0115813c55af0ecd3cda667d98bb9a347a56aa74a6d }
  | nistP384 => {
      constant := 0x95adec811ebe8d4b9e2b41150d78f91a619189a415583b8f5e01888da3353b61765cde8cd6c12846310c3f0c10aae682
      linear := 0x3581b884702fb0931c541a5cacefbe3bea864db86e01e048170560418dca3aa8689f246d9d11ccd2e145532dd48491af
      quadratic := 0x4efcebfdccd7cb25d1b864228f0c32d3a83ec026134ae4753bdff5d3f1fa20b278b31dc3487beb792024fe436f36b43a }
  | nistP521 => {
      constant := 0x19e72e5691af1c1f1d3f2591c5ad09ec28f1c524714ca75db089cdb9151ca2289840d94ce56793c78b66ef3540572cc405cdc465d82e1a6f69d82c27053ff163aa6
      linear := 0xc15e4c9246ef30c73585fc1a490df170ef8e757f1f37e7a6cde9349746d8493ebb31a91aea6f35b910d943c96ba37d442ea7bb6d45c60ec76150edba53d1fc8264
      quadratic := 0x124521c5a63d25338751ea837916053183423f151d92bf4710ef90df9f8ccdf063f99af3ab0f0bd1843a16afc69f16b49b9890c324999f97e8e4650532aea382f92 }

theorem mul_cubicInverse (curve : Curve) :
    CubicRemainder.mul curve.params curve.cubicInverse (.frobenius curve.params) = .one := by
  cases curve <;> decide +kernel

/-- **The cubics have no roots** modulo their primes. -/
theorem cubic_ne_zero (curve : Curve) (x : ℕ) : curve.params.cubic x ≠ 0 := by
  intro hzero
  have hb : curve.params.b ≤ curve.params.p := by cases curve <;> decide +kernel
  have hroot : (x : ZMod curve.params.p) ^ 3 - 3 * x + curve.params.b = 0 := by
    have hcast : ((x * x * x + (curve.params.p - 3) * x + curve.params.b : ℕ) :
        ZMod curve.params.p) = 0 := by
      rw [ZMod.natCast_eq_zero_iff]
      exact Nat.dvd_of_mod_eq_zero hzero
    push_cast [Nat.cast_sub curve.three_le_p] at hcast
    rw [ZMod.natCast_self] at hcast
    linear_combination hcast
  exact CubicRemainder.not_root hb hroot curve.mul_cubicInverse

end Curve

end SshKeys
