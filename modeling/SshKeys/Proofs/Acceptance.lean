/-
**What acceptance asks.**

Acceptance is a list of checks in a fixed order, and the first one that fails decides.  For what is
accepted the order does not matter: every check has passed, and the numbers are those of the key.

Main results:

* `SshKeys.RsaVerifyingKey.check_eq_ok_iff`, `SshKeys.DsaVerifyingKey.check_eq_ok_iff`,
  `SshKeys.EcdsaPublicKey.acceptOn_eq_ok_iff` — the rules for public keys;
* `SshKeys.PublicKey.wellSized_of_accept` — an accepted key has a wire form;
* `SshKeys.RsaSigningKey.check_eq_ok_iff`, `SshKeys.DsaKeypair.accept_eq_ok_iff`,
  `SshKeys.EcdsaKeypair.acceptOn_eq_ok_iff` — the rules for keypairs.
-/

import SshKeys.Proofs.PublicKeyWire
import SshKeys.Key.Signing

set_option relaxedAutoImplicit false
set_option autoImplicit false

namespace SshKeys

/-! ### Public keys -/

theorem RsaVerifyingKey.check_eq_ok_iff {key : RsaVerifyingKey} :
    key.check = .ok () ↔
      key.n % 2 = 1 ∧ key.e % 2 = 1 ∧ 2 ≤ key.e ∧ key.e ≤ maxExponent ∧ key.e < key.n := by
  have hmax : maxExponent < 2 ^ 64 := by decide
  simp only [check, SshKeys.check_eq_ok_iff, Bool.or_eq_true, decide_eq_true_eq, and_true]
  omega

theorem DsaVerifyingKey.check_eq_ok_iff {key : DsaVerifyingKey} :
    key.check = .ok () ↔
      2 ≤ key.p ∧ 2 ≤ key.q ∧ 0 < key.g ∧ key.g ≤ key.p ∧ 2 ≤ key.y ∧
        powMod key.y key.q key.p = 1 := by
  simp only [check, SshKeys.check_eq_ok_iff, Bool.or_eq_true, decide_eq_true_eq, and_true]
  omega

theorem DsaPublicKey.accept_eq_ok_iff {key : DsaPublicKey} {numbers : DsaVerifyingKey} :
    key.accept = .ok numbers ↔ key.numbers.check = .ok () ∧ key.numbers = numbers := by
  unfold accept
  cases key.numbers.check with
  | error fault => simp
  | ok _ => simp

theorem EcdsaPublicKey.acceptOn_eq_ok_iff {curve : Curve} {key : EcdsaPublicKey}
    {numbers : EcdsaVerifyingKey} :
    key.acceptOn curve = .ok numbers ↔
      key.curve = curve ∧ key.point.Within curve ∧
        curve.params.isOnCurve key.point.x.toNat key.point.y.toNat = true ∧
        numbers = ⟨curve, key.point.x.toNat, key.point.y.toNat⟩ := by
  simp only [acceptOn, throw_eq_error, error_bind, bind_eq_ok_iff, SshKeys.check_eq_ok_iff, ne_eq,
    Decidable.not_not]
  constructor
  · rintro ⟨rfl, octets, hoctets, h⟩
    have hwithin : key.point.Within key.curve := by
      refine Decidable.byContradiction fun hnot => ?_
      rw [toOctets, Point.toOctets_of_not_within hnot] at hoctets
      simp at hoctets
    split at h
    · next hon => exact ⟨rfl, hwithin, hon, (pure_eq_ok_iff.1 h).symm⟩
    · simp at h
  · rintro ⟨rfl, hwithin, hon, rfl⟩
    refine ⟨rfl, _, Point.toOctets_of_within hwithin, ?_⟩
    rw [if_pos hon]
    rfl

/-- An accepted key has a wire form. -/
theorem PublicKey.wellSized_of_accept {key : PublicKey} {numbers : VerifyingKey}
    (h : key.accept = .ok numbers) : key.WellSized := by
  cases key with
  | dsa key => trivial
  | ecdsa key =>
      obtain ⟨_, haccept, -⟩ := map_eq_ok_iff.1 h
      exact (EcdsaPublicKey.acceptOn_eq_ok_iff.1 haccept).2.1
  | rsa key => trivial
  | other key => simp [accept] at h

/-! ### Keypairs -/

theorem RsaSigningKey.check_eq_ok_iff {key : RsaSigningKey} :
    key.check = .ok () ↔
      key.publicKey.check = .ok () ∧ (∀ prime ∈ key.primes, 1 < prime) ∧
        key.primes.foldl (· * ·) 1 = key.publicKey.n ∧
        ∀ prime ∈ key.primes, key.d * key.publicKey.e % (prime - 1) = 1 := by
  simp only [check, throw_eq_error, error_bind, bind_eq_ok_iff, SshKeys.check_eq_ok_iff,
    pure_eq_ok_iff, List.any_eq_true, decide_eq_true_eq, not_exists, not_and, Nat.not_le, ne_eq,
    Decidable.not_not, and_true]
  constructor
  · rintro ⟨_, h⟩
    exact h
  · intro h
    exact ⟨(), h⟩

theorem RsaKeypair.accept_eq_ok_iff {pair : RsaKeypair} {numbers : RsaSigningKey} :
    pair.accept = .ok numbers ↔ pair.numbers.check = .ok () ∧ pair.numbers = numbers := by
  unfold accept
  cases pair.numbers.check with
  | error fault => simp
  | ok _ => simp

theorem DsaKeypair.accept_eq_ok_iff {pair : DsaKeypair} {numbers : DsaSigningKey} :
    pair.accept = .ok numbers ↔
      pair.publicKey.accept = .ok numbers.publicKey ∧ pair.privateKey.x.toNat = numbers.x ∧
        0 < numbers.x ∧ numbers.x ≤ numbers.publicKey.q := by
  simp only [accept, throw_eq_error, error_bind, bind_eq_ok_iff, SshKeys.check_eq_ok_iff,
    pure_eq_ok_iff, Bool.or_eq_true, decide_eq_true_eq, not_or, Nat.not_lt]
  obtain ⟨publicKey, x⟩ := numbers
  constructor
  · rintro ⟨accepted, haccept, ⟨hzero, hle⟩, hnumbers⟩
    obtain ⟨rfl, rfl⟩ := DsaSigningKey.mk.inj hnumbers
    exact ⟨haccept, rfl, Nat.pos_of_ne_zero hzero, hle⟩
  · rintro ⟨haccept, rfl, hpos, hle⟩
    exact ⟨publicKey, haccept, ⟨Nat.ne_of_gt hpos, hle⟩, rfl⟩

theorem EcdsaKeypair.acceptOn_eq_ok_iff {curve : Curve} {pair : EcdsaKeypair}
    {numbers : EcdsaSigningKey} :
    pair.acceptOn curve = .ok numbers ↔
      ∃ publicKey, pair.publicKey.acceptOn curve = .ok publicKey ∧
        pair.privateKey.scalar.magnitude.length ≤ curve.fieldSize ∧
        0 < pair.privateKey.scalar.toNat ∧ pair.privateKey.scalar.toNat < curve.params.order ∧
        numbers.publicKey? = some publicKey ∧
        numbers = ⟨curve, pair.privateKey.scalar.toNat⟩ := by
  simp only [acceptOn, throw_eq_error, error_bind, bind_eq_ok_iff, SshKeys.check_eq_ok_iff,
    Bool.or_eq_true, decide_eq_true_eq, not_or, Nat.not_le]
  constructor
  · rintro ⟨publicKey, haccept, bs, hpadded, ⟨hzero, hless⟩, h⟩
    have hfits : pair.privateKey.scalar.magnitude.length ≤ curve.fieldSize := by
      refine Decidable.byContradiction fun hnot => ?_
      rw [Mpint.padded_of_not_le hnot] at hpadded
      simp at hpadded
    split at h
    · next hmatch =>
        obtain rfl := pure_eq_ok_iff.1 h
        exact ⟨publicKey, haccept, hfits, Nat.pos_of_ne_zero hzero, hless, hmatch, rfl⟩
    · simp at h
  · rintro ⟨publicKey, haccept, hfits, hpos, hless, hmatch, rfl⟩
    refine ⟨publicKey, haccept, _, Mpint.padded_of_le hfits, ⟨by omega, hless⟩, ?_⟩
    rw [if_pos hmatch]
    rfl

end SshKeys
