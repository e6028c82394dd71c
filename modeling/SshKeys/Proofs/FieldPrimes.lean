/-
**The field primes are prime.**

A number is prime if enough is known of the primes that divide its predecessor.  Let `q` be one of
them, and let two to the power of the predecessor be one, but not so two to a `q`-th part of the
predecessor, modulo any divisor.  Then `q` divides the predecessor of every prime divisor.  So if
the product of all these `q` is above the square root, there is no prime divisor below it.  This is
the criterion of Pocklington.  It reduces two of the field primes to small ones; the third is a
Mersenne prime.

Main definitions:

* `SshKeys.PrimeClaim` — a number with some of the primes that divide its predecessor;
* `SshKeys.PrimeClaim.holds` — the criterion, which can be computed.

Main results:

* `SshKeys.PrimeClaim.prime` — **the criterion**;
* `SshKeys.Curve.prime_p` — **the field primes of all curves are prime**.
-/

import Mathlib.FieldTheory.Finite.Basic
import Mathlib.NumberTheory.LucasLehmer
import Mathlib.Tactic.NormNum.Prime
import SshKeys.Arithmetic.CurveGroup
import SshKeys.Proofs.ModularArithmetic

set_option relaxedAutoImplicit false
set_option autoImplicit false

namespace SshKeys

/-! ### The criterion -/

/-- A number that is claimed to be prime, with primes that divide its predecessor. -/
structure PrimeClaim where
  number : ℕ
  factors : List ℕ

namespace PrimeClaim

/-- Whether two, as a residue modulo the number, is as the criterion asks. -/
def holds (claim : PrimeClaim) : Bool :=
  decide claim.factors.Nodup && decide (1 < claim.number) &&
    decide (claim.number < claim.factors.prod ^ 2) &&
    powMod 2 (claim.number - 1) claim.number == 1 &&
    claim.factors.all fun q => (claim.number - 1) % q == 0 &&
      (powMod 2 ((claim.number - 1) / q) claim.number - 1).gcd claim.number == 1

/-- A power modulo a number, seen modulo a divisor of the number. -/
theorem cast_powMod {n r : ℕ} (hr : r ∣ n) (base exponent : ℕ) :
    ((powMod base exponent n : ℕ) : ZMod r) = (base : ZMod r) ^ exponent := by
  rw [powMod_eq, ← Nat.cast_pow, ZMod.natCast_eq_natCast_iff']
  exact Nat.mod_mod_of_dvd _ hr

/-- One prime divides the predecessor of every prime divisor. -/
theorem dvd_pred_of_witness {n r q : ℕ} (hr : r.Prime) (hrn : r ∣ n) (hq : q.Prime)
    (hqn : q ∣ n - 1) (hfermat : powMod 2 (n - 1) n = 1)
    (hwitness : (powMod 2 ((n - 1) / q) n - 1).gcd n = 1) : q ∣ r - 1 := by
  have : Fact r.Prime := ⟨hr⟩
  have hpow : (2 : ZMod r) ^ (n - 1) = 1 := by
    have hcast := cast_powMod hrn 2 (n - 1)
    rw [hfermat] at hcast
    exact_mod_cast hcast.symm
  have hpart : (2 : ZMod r) ^ ((n - 1) / q) ≠ 1 := by
    intro hone
    have hcast := cast_powMod hrn 2 ((n - 1) / q)
    generalize powMod 2 ((n - 1) / q) n = t at hcast hwitness
    have ht : (t : ZMod r) = 1 := hcast.trans (by exact_mod_cast hone)
    -- then the divisor divides both numbers, which have none in common
    have hdvd : r ∣ t - 1 := by
      rcases Nat.eq_zero_or_pos t with rfl | hpos
      · exact dvd_zero r
      · rw [← ZMod.natCast_eq_zero_iff, Nat.cast_sub hpos, ht, Nat.cast_one, sub_self]
    have hboth := Nat.dvd_gcd hdvd hrn
    rw [hwitness] at hboth
    exact hr.one_lt.ne' (Nat.dvd_one.1 hboth)
  -- so the order of two is divided by `q`
  have horder : orderOf (2 : ZMod r) ∣ n - 1 := orderOf_dvd_of_pow_eq_one hpow
  have hnot : ¬orderOf (2 : ZMod r) ∣ (n - 1) / q := fun h => hpart (orderOf_dvd_iff_pow_eq_one.1 h)
  have hqorder : q ∣ orderOf (2 : ZMod r) := by
    by_contra hcoprime
    have h := (hq.coprime_iff_not_dvd.2 hcoprime).symm
    rw [← Nat.div_mul_cancel hqn] at horder
    exact hnot (h.dvd_of_dvd_mul_right horder)
  have hne : (2 : ZMod r) ≠ 0 := by
    intro hzero
    rw [hzero] at hpow
    rcases Nat.eq_zero_or_pos (n - 1) with hnone | hpos
    · rw [hzero, hnone] at hpart
      exact hpart (by simp)
    · rw [zero_pow hpos.ne'] at hpow
      exact zero_ne_one hpow
  exact hqorder.trans (ZMod.orderOf_dvd_card_sub_one hne)

/-- **The criterion**: a claim that holds is true, if its factors are primes. -/
theorem prime {claim : PrimeClaim} (h : claim.holds = true)
    (hfactors : ∀ q ∈ claim.factors, q.Prime) : claim.number.Prime := by
  simp only [holds, Bool.and_eq_true, decide_eq_true_eq, beq_iff_eq, List.all_eq_true] at h
  obtain ⟨⟨⟨⟨hnodup, hone⟩, hlarge⟩, hfermat⟩, hwitness⟩ := h
  by_contra hcomposite
  have hr := Nat.minFac_prime hone.ne'
  have hrn := Nat.minFac_dvd claim.number
  have hsquare := Nat.minFac_sq_le_self (by omega) hcomposite
  generalize claim.number.minFac = r at hr hrn hsquare
  have hprod : claim.factors.prod ∣ r - 1 := by
    have hset : ∏ q ∈ claim.factors.toFinset, q = claim.factors.prod := by
      rw [List.prod_toFinset _ hnodup, List.map_id']
    rw [← hset]
    refine Finset.prod_primes_dvd _ ?_ ?_
    · exact fun q hq => (hfactors q (List.mem_toFinset.1 hq)).prime
    · intro q hq
      have hmem := List.mem_toFinset.1 hq
      obtain ⟨hmod, hgcd⟩ := hwitness q hmem
      exact dvd_pred_of_witness hr hrn (hfactors q hmem) (Nat.dvd_of_mod_eq_zero hmod) hfermat hgcd
  have hle := Nat.le_of_dvd (by have := hr.two_le; omega) hprod
  have hless : claim.factors.prod ^ 2 ≤ r ^ 2 := Nat.pow_le_pow_left (by omega) 2
  omega

/-- Whether claims hold one after the other, the factors of each being known before it. -/
def allHold (known : List ℕ) : List PrimeClaim → Bool
  | [] => true
  | claim :: rest =>
    claim.factors.all known.contains && claim.holds && allHold (claim.number :: known) rest

theorem prime_of_allHold {known : List ℕ} {claims : List PrimeClaim}
    (h : allHold known claims = true) (hknown : ∀ q ∈ known, q.Prime) :
    ∀ claim ∈ claims, claim.number.Prime := by
  induction claims generalizing known with
  | nil => exact fun claim hclaim => absurd hclaim List.not_mem_nil
  | cons first rest ih =>
      simp only [allHold, Bool.and_eq_true, List.all_eq_true, List.contains_iff_mem] at h
      obtain ⟨⟨hfactors, hholds⟩, hrest⟩ := h
      have hfirst := first.prime hholds fun q hq => hknown q (hfactors q hq)
      intro claim hclaim
      rcases List.mem_cons.1 hclaim with rfl | hclaim
      · exact hfirst
      · refine ih hrest (fun q hq => ?_) claim hclaim
        rcases List.mem_cons.1 hq with rfl | hq
        · exact hfirst
        · exact hknown q hq

end PrimeClaim

/-! ### The field primes -/

/-- The primes that the claims start from. -/
def smallPrimes : List ℕ :=
  [197, 211, 599, 661, 881, 3677, 8389, 21407, 38557, 78283, 312289, 704251]

theorem prime_of_mem_smallPrimes : ∀ q ∈ smallPrimes, q.Prime := by
  simp only [smallPrimes, List.forall_mem_cons]
  norm_num

/-- The claims that lead from small primes to the prime of the curve P-256. -/
def nistP256Claims : List PrimeClaim :=
  [⟨66417393611, [197, 3677]⟩,
    ⟨11290956913871, [66417393611]⟩,
    ⟨46076956964474543, [78283, 704251]⟩,
    ⟨774023187263532362759620327192479577272145303, [11290956913871, 46076956964474543]⟩,
    ⟨835945042244614951780389953367877943453916927241,
      [774023187263532362759620327192479577272145303]⟩,
    ⟨Curve.nistP256.params.p, [835945042244614951780389953367877943453916927241]⟩]

/-- The claims that lead from small primes to the prime of the curve P-384. -/
def nistP384Claims : List PrimeClaim :=
  [⟨105957871, [211, 881]⟩,
    ⟨246608641, [21407]⟩,
    ⟨529709925838459440593, [105957871, 246608641]⟩,
    ⟨513928823, [599, 661]⟩,
    ⟨53448597593, [513928823]⟩,
    ⟨1357291859799823621, [53448597593]⟩,
    ⟨19173790298027098165721053155794528970226934547887232785722672956982046098136719667167519737147526097,
      [8389, 38557, 312289, 1357291859799823621, 529709925838459440593]⟩,
    ⟨Curve.nistP384.params.p,
      [19173790298027098165721053155794528970226934547887232785722672956982046098136719667167519737147526097]⟩]

/-- **The field primes of all curves are prime.** -/
theorem Curve.prime_p (curve : Curve) : curve.params.p.Prime := by
  cases curve with
  | nistP256 =>
      have h : PrimeClaim.allHold smallPrimes nistP256Claims = true := by decide +kernel
      exact PrimeClaim.prime_of_allHold h prime_of_mem_smallPrimes ⟨nistP256.params.p, _⟩
        (List.getLast_mem (l := nistP256Claims) (by decide))
  | nistP384 =>
      have h : PrimeClaim.allHold smallPrimes nistP384Claims = true := by decide +kernel
      exact PrimeClaim.prime_of_allHold h prime_of_mem_smallPrimes ⟨nistP384.params.p, _⟩
        (List.getLast_mem (l := nistP384Claims) (by decide))
  | nistP521 =>
      have h : (mersenne 521).Prime := lucas_lehmer_sufficiency 521 (by decide) (by norm_num)
      have hmersenne : nistP521.params.p = mersenne 521 := by decide +kernel
      rw [hmersenne]
      exact h

end SshKeys
