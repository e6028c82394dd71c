/-
**Powers and inverses modulo a number.**

Repeated squaring gives the power, and the Euclidean algorithm gives the inverse wherever there is
one.

Main results:

* `SshKeys.powMod_eq` — the power;
* `SshKeys.euclid_spec` — the greatest common divisor and its coefficient;
* `SshKeys.inverseMod?_of_coprime`, `SshKeys.inverseMod?_of_not_coprime` — the inverse modulo any
  number;
* `SshKeys.cast_inverseMod?` — the inverse, in the field of residues modulo a prime.
-/

import Mathlib.Data.ZMod.Basic
import Mathlib.Algebra.Field.ZMod
import Mathlib.Tactic.LinearCombination
import SshKeys.Arithmetic.Modular

set_option relaxedAutoImplicit false
set_option autoImplicit false

namespace SshKeys

/-! ### Powers -/

theorem powModBits_eq (m bits base exponent : ℕ) :
    powModBits m bits base exponent = base ^ (exponent % 2 ^ bits) % m := by
  induction bits generalizing base exponent with
  | zero => rw [powModBits, pow_zero, Nat.mod_one, pow_zero]
  | succ bits ih =>
      have hsplit : exponent % 2 ^ (bits + 1) = exponent % 2 + 2 * (exponent / 2 % 2 ^ bits) := by
        rw [pow_succ', Nat.mod_mul]
      have hsquare : (base * base % m) ^ (exponent / 2 % 2 ^ bits) % m =
          base ^ (2 * (exponent / 2 % 2 ^ bits)) % m := by
        rw [← Nat.pow_mod, ← sq, ← pow_mul]
      rw [powModBits, ih, hsquare, hsplit]
      rcases Nat.mod_two_eq_zero_or_one exponent with heven | hodd
      · rw [heven, Nat.zero_add]
        rfl
      · rw [hodd, Nat.add_comm, pow_succ]
        exact Nat.mod_mul_mod _ _ _

/-- Repeated squaring gives the power. -/
theorem powMod_eq (base exponent m : ℕ) : powMod base exponent m = base ^ exponent % m := by
  rw [powMod, powModBits_eq, Nat.mod_eq_of_lt (lt_two_pow_bitLength exponent)]

/-! ### The Euclidean algorithm -/

/-- **The Euclidean algorithm** ends with the greatest common divisor, and keeps the coefficients of
`a` right modulo `m`. -/
theorem euclid_spec {a m : ℤ} (fuel r s : ℕ) (t u : ℤ) (hfuel : s ≤ fuel)
    (hr : m ∣ r - t * a) (hs : m ∣ s - u * a) :
    (euclid fuel r s t u).1 = r.gcd s ∧
      m ∣ (euclid fuel r s t u).1 - (euclid fuel r s t u).2 * a := by
  induction fuel generalizing r s t u with
  | zero =>
      obtain rfl : s = 0 := by omega
      exact ⟨(Nat.gcd_zero_right r).symm, hr⟩
  | succ fuel ih =>
      rw [euclid]
      split
      · next hzero =>
          rw [hzero, Nat.gcd_zero_right]
          exact ⟨rfl, hr⟩
      · next hpos =>
          have hless : r % s ≤ fuel := by
            have hlt := Nat.mod_lt r (Nat.pos_of_ne_zero hpos)
            omega
          -- the remainder is `r` less a multiple of `s`, and so is its coefficient
          have hrest : m ∣ (r % s : ℕ) - (t - (r / s : ℕ) * u) * a := by
            have hdivision : ((r % s : ℕ) : ℤ) + s * (r / s : ℕ) = r := by
              rw [← Nat.cast_mul, ← Nat.cast_add, Nat.mod_add_div]
            have hsplit : ((r % s : ℕ) : ℤ) - (t - (r / s : ℕ) * u) * a =
                (r - t * a) - (r / s : ℕ) * (s - u * a) := by
              linear_combination hdivision
            rw [hsplit]
            exact dvd_sub hr (hs.mul_left _)
          obtain ⟨hgcd, hcoefficient⟩ := ih s (r % s) u _ hless hs hrest
          refine ⟨?_, hcoefficient⟩
          rw [hgcd, Nat.gcd_comm r s, Nat.gcd_rec s r, Nat.gcd_comm]

/-! ### Inverses -/

theorem inverseMod?_eq (a m : ℕ) :
    inverseMod? a m = if (euclid (a % m) m (a % m) 0 1).1 = 1 then
      some ((euclid (a % m) m (a % m) 0 1).2 % m).toNat else none := rfl

/-- What the algorithm finds out about a number and a modulus. -/
theorem euclid_start (a m : ℕ) :
    (euclid (a % m) m (a % m) 0 1).1 = a.gcd m ∧
      (m : ℤ) ∣ (a.gcd m : ℕ) - (euclid (a % m) m (a % m) 0 1).2 * a := by
  have hstart : (m : ℤ) ∣ (a % m : ℕ) - 1 * (a : ℤ) := by
    rw [one_mul, ← ZMod.intCast_zmod_eq_zero_iff_dvd]
    simp
  obtain ⟨hgcd, hcoefficient⟩ := euclid_spec (a % m) m (a % m) 0 1 le_rfl (by simp) hstart
  have hsame : m.gcd (a % m) = a.gcd m := by
    rw [Nat.gcd_comm, ← Nat.gcd_rec, Nat.gcd_comm]
  rw [hgcd, hsame] at hcoefficient
  exact ⟨hgcd.trans hsame, hcoefficient⟩

/-- Where there is an inverse it is found, below the modulus. -/
theorem inverseMod?_of_coprime {a m : ℕ} (hm : 1 < m) (h : a.Coprime m) :
    ∃ inverse, inverseMod? a m = some inverse ∧ inverse < m ∧ inverse * a ≡ 1 [MOD m] := by
  obtain ⟨hgcd, hcoefficient⟩ := euclid_start a m
  rw [h] at hgcd hcoefficient
  rw [inverseMod?_eq, if_pos hgcd]
  generalize (euclid (a % m) m (a % m) 0 1).2 = coefficient at hcoefficient ⊢
  have hnonneg : 0 ≤ coefficient % m := Int.emod_nonneg _ (by omega)
  have hless : coefficient % m < m := Int.emod_lt_of_pos _ (by omega)
  refine ⟨_, rfl, by omega, ?_⟩
  rw [← Int.natCast_modEq_iff, Nat.cast_mul, Int.toNat_of_nonneg hnonneg]
  calc coefficient % m * a ≡ coefficient * a [ZMOD m] := (Int.mod_modEq _ _).mul_right _
    _ ≡ 1 [ZMOD m] := Int.modEq_iff_dvd.2 hcoefficient

/-- Where there is no inverse none is found. -/
theorem inverseMod?_of_not_coprime {a m : ℕ} (h : ¬a.Coprime m) : inverseMod? a m = none := by
  rw [inverseMod?_eq, if_neg ((euclid_start a m).1 ▸ h)]

/-- **The inverse modulo a prime** is that of the field of residues, and zero for zero. -/
theorem cast_inverseMod? {p : ℕ} [Fact p.Prime] (a : ℕ) :
    (((inverseMod? a p).getD 0 : ℕ) : ZMod p) = (a : ZMod p)⁻¹ := by
  have hp : p.Prime := Fact.out
  have hcoprime : a.Coprime p ↔ ¬(a : ZMod p) = 0 := by
    rw [Nat.coprime_comm, hp.coprime_iff_not_dvd, ZMod.natCast_eq_zero_iff]
  by_cases hzero : (a : ZMod p) = 0
  · rw [inverseMod?_of_not_coprime (fun h => hcoprime.1 h hzero), hzero, inv_zero]
    exact Nat.cast_zero
  · obtain ⟨inverse, hfound, -, hinverse⟩ :=
      inverseMod?_of_coprime hp.one_lt (hcoprime.2 hzero)
    have hcast : (inverse : ZMod p) * a = 1 := by
      rw [← Nat.cast_mul, ← Nat.cast_one, ZMod.natCast_eq_natCast_iff]
      exact hinverse
    rw [hfound, Option.getD_some]
    exact eq_inv_of_mul_eq_one_left hcast

end SshKeys
