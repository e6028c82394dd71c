/-
**What the two halves of an accepted keypair have in common.**

The three families check different things.  The public point of an ECDSA keypair has to be the
multiple of the generator by the secret scalar, in the group of the curve, and this says it all.
The primes of an RSA keypair have to give the modulus, and the exponents have to cancel modulo each
prime less one; but the inverse of one prime modulo the other is not looked at.  Of a DSA keypair
both halves are looked at, but not whether they belong together, and the secret exponent may be as
large as the order.

Main definitions:

* `SshKeys.RsaKeypair.Coherent`, `SshKeys.DsaKeypair.Coherent`, `SshKeys.EcdsaKeypair.Coherent` —
  what holds of an accepted keypair;
* `SshKeys.Keypair.Coherent` — the same for any family.

Main results:

* `SshKeys.Keypair.accepted_iff_coherent` — **a keypair is accepted exactly if it is coherent**.
-/

import Mathlib.Data.Nat.ModEq
import SshKeys.Proofs.Acceptance
import SshKeys.Proofs.CurveLaw

set_option relaxedAutoImplicit false
set_option autoImplicit false

namespace SshKeys

/-! ### RSA -/

/-- The numbers of an RSA keypair fit together.  The inverse of `q` is not among them. -/
structure RsaKeypair.Coherent (pair : RsaKeypair) : Prop where
  modulus_odd : pair.publicKey.n.toNat % 2 = 1
  exponent_odd : pair.publicKey.e.toNat % 2 = 1
  exponent_range : 2 ≤ pair.publicKey.e.toNat ∧
    pair.publicKey.e.toNat ≤ RsaVerifyingKey.maxExponent ∧
    pair.publicKey.e.toNat < pair.publicKey.n.toNat
  primes_range : 1 < pair.privateKey.p.toNat ∧ 1 < pair.privateKey.q.toNat
  modulus_eq : pair.publicKey.n.toNat = pair.privateKey.p.toNat * pair.privateKey.q.toNat
  cancel_p : pair.privateKey.d.toNat * pair.publicKey.e.toNat ≡ 1
    [MOD pair.privateKey.p.toNat - 1]
  cancel_q : pair.privateKey.d.toNat * pair.publicKey.e.toNat ≡ 1
    [MOD pair.privateKey.q.toNat - 1]

/-- A factor of an odd modulus is above two. -/
theorem two_lt_of_odd {n p q : ℕ} (hodd : n % 2 = 1) (hn : n = p * q) (hp : 1 < p) : 2 < p := by
  have hne : p ≠ 2 := by
    rintro rfl
    omega
  omega

/-- Where there is a remainder one, two exponents cancel if it is left. -/
theorem mod_pred_eq_one_iff {product prime : ℕ} (hprime : 2 < prime) :
    product % (prime - 1) = 1 ↔ product ≡ 1 [MOD prime - 1] := by
  have hone : 1 % (prime - 1) = 1 := Nat.mod_eq_of_lt (by omega)
  rw [Nat.ModEq, hone]

theorem RsaKeypair.accepted_iff {pair : RsaKeypair} :
    (∃ numbers, pair.accept = .ok numbers) ↔ pair.Coherent := by
  constructor
  · rintro ⟨numbers, haccept⟩
    obtain ⟨hcheck, rfl⟩ := accept_eq_ok_iff.1 haccept
    obtain ⟨hpublic, hprimes, hproduct, hcancel⟩ := RsaSigningKey.check_eq_ok_iff.1 hcheck
    obtain ⟨hn, he, hrange⟩ := RsaVerifyingKey.check_eq_ok_iff.1 hpublic
    have hp : 1 < pair.privateKey.p.toNat := hprimes _ (by simp [numbers])
    have hq : 1 < pair.privateKey.q.toNat := hprimes _ (by simp [numbers])
    have hmodulus : pair.publicKey.n.toNat = pair.privateKey.p.toNat * pair.privateKey.q.toNat := by
      simpa [numbers, RsaPublicKey.numbers] using hproduct.symm
    refine ⟨hn, he, hrange, ⟨hp, hq⟩, hmodulus, ?_, ?_⟩
    · exact (mod_pred_eq_one_iff (two_lt_of_odd hn hmodulus hp)).1 (hcancel _ (by simp [numbers]))
    · rw [Nat.mul_comm] at hmodulus
      exact (mod_pred_eq_one_iff (two_lt_of_odd hn hmodulus hq)).1 (hcancel _ (by simp [numbers]))
  · rintro ⟨hn, he, hrange, ⟨hp, hq⟩, hmodulus, hcancelP, hcancelQ⟩
    refine ⟨pair.numbers, accept_eq_ok_iff.2 ⟨RsaSigningKey.check_eq_ok_iff.2
      ⟨RsaVerifyingKey.check_eq_ok_iff.2 ⟨hn, he, hrange⟩, ?_, ?_, ?_⟩, rfl⟩⟩
    · intro prime hprime
      simp only [numbers, List.mem_cons, List.not_mem_nil, or_false] at hprime
      rcases hprime with rfl | rfl
      · exact hp
      · exact hq
    · simpa [numbers, RsaPublicKey.numbers] using hmodulus.symm
    · intro prime hprime
      simp only [numbers, List.mem_cons, List.not_mem_nil, or_false] at hprime
      rcases hprime with rfl | rfl
      · exact (mod_pred_eq_one_iff (two_lt_of_odd hn hmodulus hp)).2 hcancelP
      · rw [Nat.mul_comm] at hmodulus
        exact (mod_pred_eq_one_iff (two_lt_of_odd hn hmodulus hq)).2 hcancelQ

/-! ### DSA -/

/-- The numbers of a DSA keypair are in range, and the public component is in the subgroup.  It need
not be the power of the generator by the secret exponent. -/
structure DsaKeypair.Coherent (pair : DsaKeypair) : Prop where
  domain : 2 ≤ pair.publicKey.p.toNat ∧ 2 ≤ pair.publicKey.q.toNat
  generator_range : 0 < pair.publicKey.g.toNat ∧ pair.publicKey.g.toNat ≤ pair.publicKey.p.toNat
  public_range : 2 ≤ pair.publicKey.y.toNat
  subgroup : pair.publicKey.y.toNat ^ pair.publicKey.q.toNat ≡ 1 [MOD pair.publicKey.p.toNat]
  secret_range : 0 < pair.privateKey.x.toNat ∧
    pair.privateKey.x.toNat ≤ pair.publicKey.q.toNat

theorem DsaKeypair.accepted_iff {pair : DsaKeypair} :
    (∃ numbers, pair.accept = .ok numbers) ↔ pair.Coherent := by
  have hsubgroup {p : ℕ} (hp : 2 ≤ p) (y q : ℕ) : powMod y q p = 1 ↔ y ^ q ≡ 1 [MOD p] := by
    rw [powMod_eq, Nat.ModEq, Nat.mod_eq_of_lt (a := 1) hp]
  constructor
  · rintro ⟨numbers, haccept⟩
    obtain ⟨hpublic, hx, hpos, hle⟩ := accept_eq_ok_iff.1 haccept
    obtain ⟨hcheck, hnumbers⟩ := DsaPublicKey.accept_eq_ok_iff.1 hpublic
    obtain ⟨hp, hq, hg, hgp, hy, hpower⟩ := DsaVerifyingKey.check_eq_ok_iff.1 hcheck
    rw [← hx] at hpos hle
    rw [← hnumbers] at hle
    exact ⟨⟨hp, hq⟩, ⟨hg, hgp⟩, hy, (hsubgroup hp _ _).1 hpower, hpos, hle⟩
  · rintro ⟨⟨hp, hq⟩, ⟨hg, hgp⟩, hy, hpower, hpos, hle⟩
    refine ⟨⟨pair.publicKey.numbers, pair.privateKey.x.toNat⟩, accept_eq_ok_iff.2
      ⟨DsaPublicKey.accept_eq_ok_iff.2 ⟨?_, rfl⟩, rfl, hpos, hle⟩⟩
    exact DsaVerifyingKey.check_eq_ok_iff.2 ⟨hp, hq, hg, hgp, hy, (hsubgroup hp _ _).2 hpower⟩

/-! ### ECDSA -/

/-- The public point of an ECDSA keypair is the multiple of the generator by the secret scalar. -/
structure EcdsaKeypair.Coherent (pair : EcdsaKeypair) : Prop where
  scalar_range : 0 < pair.privateKey.scalar.toNat ∧
    pair.privateKey.scalar.toNat < pair.publicKey.curve.params.order
  point_eq : pair.publicKey.curve.params.coordinates
      (pair.privateKey.scalar.toNat • pair.publicKey.curve.base) =
    .affine pair.publicKey.point.x.toNat pair.publicKey.point.y.toNat

/-- The order of the generator is no wider than a coordinate. -/
theorem Curve.order_lt (curve : Curve) : curve.params.order < 256 ^ curve.fieldSize := by
  cases curve <;> decide

/-- The public half of a scalar is the multiple of the generator. -/
theorem EcdsaSigningKey.publicKey?_eq_some_iff {key : EcdsaSigningKey} {x y : ℕ} :
    key.publicKey? = some ⟨key.curve, x, y⟩ ↔
      key.curve.params.coordinates (key.scalar • key.curve.base) = .affine x y := by
  rw [publicKey?, key.curve.multiply_generator]
  cases key.curve.params.coordinates (key.scalar • key.curve.base) with
  | infinity => simp
  | affine x' y' => simp

theorem EcdsaKeypair.accepted_iff {pair : EcdsaKeypair} :
    (∃ numbers, pair.accept = .ok numbers) ↔ pair.Coherent := by
  constructor
  · rintro ⟨numbers, haccept⟩
    obtain ⟨publicKey, hpublic, -, hpos, hless, hmatch, rfl⟩ := acceptOn_eq_ok_iff.1 haccept
    obtain ⟨-, -, -, rfl⟩ := EcdsaPublicKey.acceptOn_eq_ok_iff.1 hpublic
    exact ⟨⟨hpos, hless⟩, EcdsaSigningKey.publicKey?_eq_some_iff.1 hmatch⟩
  · rintro ⟨⟨hpos, hless⟩, hpoint⟩
    -- a multiple of the generator is on the curve, so its coordinates are below the prime
    have hon := (CurveParams.isOnCurve_iff pair.publicKey.curve.three_le_p
      pair.publicKey.curve.smooth).2 ⟨_, hpoint⟩
    obtain ⟨hx, hy, -⟩ := CurveParams.isOnCurve_eq_true_iff.1 hon
    have hwithin : pair.publicKey.point.Within pair.publicKey.curve :=
      ⟨(Mpint.length_magnitude_le_iff _ _).2 (hx.trans pair.publicKey.curve.p_lt),
        (Mpint.length_magnitude_le_iff _ _).2 (hy.trans pair.publicKey.curve.p_lt)⟩
    refine ⟨⟨pair.publicKey.curve, pair.privateKey.scalar.toNat⟩, acceptOn_eq_ok_iff.2
      ⟨⟨pair.publicKey.curve, pair.publicKey.point.x.toNat, pair.publicKey.point.y.toNat⟩,
        EcdsaPublicKey.acceptOn_eq_ok_iff.2 ⟨rfl, hwithin, hon, rfl⟩, ?_, hpos, hless, ?_, rfl⟩⟩
    · exact (Mpint.length_magnitude_le_iff _ _).2 (hless.trans pair.publicKey.curve.order_lt)
    · exact EcdsaSigningKey.publicKey?_eq_some_iff.2 hpoint

/-! ### Keypairs of any family -/

namespace Keypair

/-- What holds of an accepted keypair.  There is none of a type without a codec. -/
def Coherent : Keypair → Prop
  | dsa pair => pair.Coherent
  | ecdsa pair => pair.Coherent
  | rsa pair => pair.Coherent
  | other _ => False

/-- **A keypair is accepted exactly if it is coherent.** -/
theorem accepted_iff_coherent {pair : Keypair} :
    (∃ numbers, pair.accept = .ok numbers) ↔ pair.Coherent := by
  have hmap {α β : Type} (f : α → β) (x : Except Error α) :
      (∃ b, f <$> x = .ok b) ↔ ∃ a, x = .ok a := by
    simp only [map_eq_ok_iff]
    exact ⟨fun ⟨_, a, ha, _⟩ => ⟨a, ha⟩, fun ⟨a, ha⟩ => ⟨f a, a, ha, rfl⟩⟩
  cases pair with
  | dsa pair => exact (hmap _ _).trans DsaKeypair.accepted_iff
  | ecdsa pair => exact (hmap _ _).trans EcdsaKeypair.accepted_iff
  | rsa pair => exact (hmap _ _).trans RsaKeypair.accepted_iff
  | other pair => exact iff_of_false (by simp [accept]) id

/-- A DSA keypair whose halves do not belong together is accepted, also if its secret exponent is
the order; and so is an RSA keypair without the inverse of `q`. -/
theorem accepted_without_belonging :
    (∃ numbers,
        (dsa ⟨⟨.ofNat 23, .ofNat 11, .ofNat 2, .ofNat 8⟩, ⟨.ofNat 5⟩⟩).accept = .ok numbers) ∧
      2 ^ 5 % 23 ≠ 8 ∧
      (∃ numbers,
        (dsa ⟨⟨.ofNat 23, .ofNat 11, .ofNat 2, .ofNat 8⟩, ⟨.ofNat 11⟩⟩).accept = .ok numbers) ∧
      (∃ numbers, (rsa ⟨⟨.ofNat 17, .ofNat 3233⟩, ⟨.ofNat 2753, .ofNat 0, .ofNat 61, .ofNat 53,
        .ofNat 53, .ofNat 49⟩⟩).accept = .ok numbers) ∧
      0 * 53 % 61 ≠ 1 := by
  refine ⟨accepted_iff_coherent.2 ?_, by decide, accepted_iff_coherent.2 ?_,
    accepted_iff_coherent.2 ?_, by decide⟩
  · constructor <;> simp only [Mpint.toNat_ofNat] <;> decide
  · constructor <;> simp only [Mpint.toNat_ofNat] <;> decide
  · constructor <;> simp only [Mpint.toNat_ofNat] <;> decide

end Keypair

end SshKeys
