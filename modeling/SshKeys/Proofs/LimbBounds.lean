/-
**How far a residue in limbs may stand above the modulus.**

The operations on residues in limbs do not bring the number below the modulus.  Each of them passes
the carries up once.  The limbs are then below their bounds and spell less than `2 ^ 521`, but what
ran over the top is added at the bottom afterwards.  It is short against the modulus, because no
limb of a product is large before the carries are passed.  So a residue is spelled by its number or
by the one that is larger by the modulus, and by the larger one only if the residue is close to
zero.

Main definitions:

* `SshKeys.LimbResidue.Tight` — what holds of the limbs after every operation.

Main results:

* `SshKeys.Limbs.reduce_tight` — what passing the carries leaves;
* `SshKeys.LimbResidue.Tight.add`, `SshKeys.LimbResidue.Tight.mul`,
  `SshKeys.LimbResidue.Tight.squareTimes` — **every operation keeps the limbs tight**;
* `SshKeys.LimbResidue.Tight.value_eq` — which numbers tight limbs can spell for a residue;
* `SshKeys.LimbResidue.Tight.eq_ofNat` — when the limbs of a residue can be told from its number.
-/

import SshKeys.Arithmetic.LimbResidue

set_option relaxedAutoImplicit false
set_option autoImplicit false

namespace SshKeys

namespace Limbs

/-! ### Bounds on limbs -/

/-- Limbs up to a bound spell no more than limbs that reach it. -/
theorem value_le {limbs : List Nat} {bound : Nat} (h : ∀ limb ∈ limbs, limb ≤ bound) :
    value limbs ≤ bound * value (List.replicate limbs.length 1) := by
  induction limbs with
  | nil => exact Nat.zero_le _
  | cons limb rest ih =>
      obtain ⟨hlimb, hrest⟩ := List.forall_mem_cons.1 h
      have hscaled := Nat.mul_le_mul_left radix (ih hrest)
      rw [List.length_cons, List.replicate_succ, value, value, Nat.mul_add, Nat.mul_one,
        Nat.mul_left_comm]
      exact Nat.add_le_add hlimb hscaled

theorem ofNat_lt (count n : Nat) : ∀ limb ∈ ofNat count n, limb < radix := by
  induction count generalizing n with
  | zero => exact fun limb hlimb => absurd hlimb List.not_mem_nil
  | succ count ih => exact List.forall_mem_cons.2 ⟨Nat.mod_lt _ (by decide), ih _⟩

/-- Passing the carry up leaves limbs below the radix. -/
theorem carryUp_lt (carry : Nat) (limbs : List Nat) :
    ∀ limb ∈ (carryUp carry limbs).1, limb < radix := by
  fun_induction carryUp carry limbs with
  | case1 => exact fun limb hlimb => absurd hlimb List.not_mem_nil
  | case2 carry top =>
      have htop : (carry + top) % topRadix < radix :=
        Nat.lt_trans (Nat.mod_lt _ (by decide)) (by decide)
      simpa using htop
  | case3 carry limb rest _ low overflow hc ih =>
      rw [hc] at ih
      exact List.forall_mem_cons.2 ⟨Nat.mod_lt _ (by decide), ih⟩

/-- Together they spell a number below the bound of all limbs. -/
theorem value_carryUp_lt (carry : Nat) {limbs : List Nat} (h : limbs ≠ []) :
    value (carryUp carry limbs).1 < radix ^ (limbs.length - 1) * topRadix := by
  fun_induction carryUp carry limbs with
  | case1 => exact absurd rfl h
  | case2 carry top =>
      have htop : (carry + top) % topRadix < topRadix := Nat.mod_lt _ (by decide)
      simpa [value] using htop
  | case3 carry limb rest nonempty low overflow hc ih =>
      have hrest : rest ≠ [] := fun none => nonempty none
      have hlimb : (carry + limb) % radix < radix := Nat.mod_lt _ (by decide)
      obtain ⟨n, hn⟩ : ∃ n, rest.length = n + 1 :=
        Nat.exists_eq_succ_of_ne_zero fun none => hrest (List.length_eq_zero_iff.1 none)
      have ih := ih hrest
      simp only [hc, hn, Nat.add_sub_cancel] at ih
      have hscaled := Nat.mul_le_mul_left radix (Nat.succ_le_of_lt ih)
      rw [List.length_cons, hn, Nat.add_sub_cancel, Nat.pow_succ', Nat.mul_assoc, value]
      rw [Nat.mul_succ] at hscaled
      omega

/-- A carry that is spent within the steps leaves no limb above the radix. -/
theorem addLow_le (steps carry : Nat) {limbs : List Nat} (hcarry : carry ≤ radix ^ steps)
    (h : ∀ limb ∈ limbs, limb < radix) : ∀ limb ∈ addLow steps carry limbs, limb ≤ radix := by
  fun_induction addLow steps carry limbs with
  | case1 => exact fun limb hlimb => absurd hlimb List.not_mem_nil
  | case2 carry limb rest =>
      obtain ⟨hlimb, hrest⟩ := List.forall_mem_cons.1 h
      have hone : carry ≤ 1 := by simpa using hcarry
      refine List.forall_mem_cons.2 ⟨by omega, fun limb hlimb => Nat.le_of_lt (hrest limb hlimb)⟩
  | case3 steps carry limb rest ih =>
      obtain ⟨hlimb, hrest⟩ := List.forall_mem_cons.1 h
      have hpos : 0 < radix := by decide
      have hspent : (carry + limb) / radix ≤ radix ^ steps := by
        rw [← Nat.lt_succ_iff, Nat.div_lt_iff_lt_mul hpos, Nat.succ_mul, ← Nat.pow_succ]
        omega
      exact List.forall_mem_cons.2 ⟨Nat.le_of_lt (Nat.mod_lt _ hpos), ih hspent hrest⟩

/-- Limbs up to the radix are the digits of their number, unless it has a digit that is zero: a limb
that reaches the radix leaves one behind. -/
theorem ofNat_value {limbs : List Nat} (h : ∀ limb ∈ limbs, limb ≤ radix)
    (hdigits : 0 ∉ ofNat limbs.length (value limbs)) :
    ofNat limbs.length (value limbs) = limbs := by
  induction limbs with
  | nil => rfl
  | cons limb rest ih =>
      obtain ⟨hlimb, hrest⟩ := List.forall_mem_cons.1 h
      rw [List.length_cons, ofNat, value, Nat.add_mul_mod_self_left] at hdigits ⊢
      have hlt : limb < radix := by
        refine Nat.lt_of_le_of_ne hlimb fun hradix => hdigits ?_
        rw [hradix, Nat.mod_self]
        exact List.mem_cons_self
      have habove : (limb + radix * value rest) / radix = value rest := by
        rw [Nat.add_mul_div_left _ _ (by decide), Nat.div_eq_of_lt hlt, Nat.zero_add]
      rw [habove] at hdigits ⊢
      rw [Nat.mod_eq_of_lt hlt, ih hrest fun hzero => hdigits (List.mem_cons_of_mem _ hzero)]

/-! ### Sums and products -/

/-- The largest limb that a product of residues can have. -/
def productBound : Nat := (2 ^ 9 - 1) * (radix * radix)

/-- The most that can be left above the modulus. -/
def slack : Nat := 2 ^ 68

/-- Passing the carries of nine limbs leaves no limb above the radix, and a number that is not much
larger than the modulus. -/
theorem reduce_tight {limbs : List Nat} (hlength : limbs.length = 9)
    (h : ∀ limb ∈ limbs, limb ≤ productBound) :
    (∀ limb ∈ reduce limbs, limb ≤ radix) ∧ value (reduce limbs) < modulus + slack := by
  have hne : limbs ≠ [] := List.ne_nil_of_length_pos (by omega)
  have hup := value_carryUp 0 limbs hne
  have hlow := value_carryUp_lt 0 hne
  have hvalue := value_le h
  have htop : radix ^ (limbs.length - 1) * topRadix = modulus + 1 := by rw [hlength]; decide +kernel
  have hall : productBound * value (List.replicate limbs.length 1) < (modulus + 1) * slack := by
    rw [hlength]
    decide +kernel
  rw [htop] at hup hlow
  -- what runs over the top is short
  have hover : (carryUp 0 limbs).2 < slack := by
    refine Nat.lt_of_mul_lt_mul_left (a := modulus + 1) ?_
    omega
  have hsteps : (carryUp 0 limbs).2 ≤ radix ^ 2 :=
    Nat.le_trans (Nat.le_of_lt hover) (by decide +kernel)
  refine ⟨addLow_le 2 _ hsteps (carryUp_lt 0 limbs), ?_⟩
  rw [reduce, value_addLow 2 _ _ (by simp [hlength])]
  omega

theorem zipWith_le {k : Nat} {a b : List Nat} {A B : Nat} (ha : ∀ limb ∈ a, limb ≤ A)
    (hb : ∀ limb ∈ b, limb ≤ B) :
    ∀ limb ∈ List.zipWith (k * · + ·) a b, limb ≤ k * A + B := by
  induction a generalizing b with
  | nil => exact fun limb hlimb => absurd hlimb (by simp)
  | cons x a ih =>
      cases b with
      | nil => exact fun limb hlimb => absurd hlimb (by simp)
      | cons y b =>
          obtain ⟨hx, ha⟩ := List.forall_mem_cons.1 ha
          obtain ⟨hy, hb⟩ := List.forall_mem_cons.1 hb
          exact List.forall_mem_cons.2 ⟨Nat.add_le_add (Nat.mul_le_mul_left k hx) hy, ih ha hb⟩

/-- Turning doubles one limb. -/
theorem turn_le {limbs : List Nat} {bound : Nat} (h : ∀ limb ∈ limbs, limb ≤ bound) :
    ∀ limb ∈ turn limbs, limb ≤ 2 * bound := by
  have hlast : limbs.getLastD 0 ≤ bound := by
    rw [List.getLastD_eq_getLast?]
    cases hlast : limbs.getLast? with
    | none => exact Nat.zero_le _
    | some last => exact h last (List.mem_of_getLast? hlast)
  refine List.forall_mem_cons.2 ⟨Nat.mul_le_mul_left 2 hlast, fun limb hlimb => ?_⟩
  have := h limb (List.dropLast_subset _ hlimb)
  omega

/-- A product of limbs doubles at each turn what was summed up before. -/
theorem product_le {a b : List Nat} {A B : Nat} (ha : ∀ limb ∈ a, limb ≤ A)
    (hb : ∀ limb ∈ b, limb ≤ B) :
    ∀ limb ∈ product a b, limb ≤ (2 ^ a.length - 1) * (A * B) := by
  induction a with
  | nil =>
      intro limb hlimb
      rw [product] at hlimb
      exact Nat.le_of_eq ((List.eq_of_mem_replicate hlimb).trans (by simp))
  | cons first rest ih =>
      obtain ⟨hfirst, hrest⟩ := List.forall_mem_cons.1 ha
      intro limb hlimb
      have hpos : 1 ≤ 2 ^ rest.length := Nat.one_le_two_pow
      have hcount : 2 ^ (rest.length + 1) - 1 = 1 + 2 * (2 ^ rest.length - 1) := by omega
      calc limb ≤ first * B + 2 * ((2 ^ rest.length - 1) * (A * B)) :=
            zipWith_le hb (turn_le (ih hrest)) limb hlimb
        _ ≤ A * B + 2 * ((2 ^ rest.length - 1) * (A * B)) :=
            Nat.add_le_add_right (Nat.mul_le_mul_right B hfirst) _
        _ = (2 ^ (first :: rest).length - 1) * (A * B) := by
            rw [List.length_cons, hcount, Nat.add_mul, Nat.one_mul, Nat.mul_assoc]

end Limbs

namespace LimbResidue

open Limbs (modulus slack radix)

/-! ### Tight limbs -/

/-- What every operation leaves: no limb above the radix, and a number that is below the modulus or
not much above it. -/
structure Tight (r : LimbResidue) : Prop where
  limb_le : ∀ limb ∈ r.limbs, limb ≤ radix
  value_lt : r.value < modulus + slack

variable {a b r : LimbResidue}

theorem tight_ofNat {n : Nat} (h : n < modulus) : (ofNat n).Tight where
  limb_le := fun limb hlimb => Nat.le_of_lt (Limbs.ofNat_lt 9 n limb hlimb)
  value_lt := by
    rw [value_ofNat n h]
    exact Nat.lt_add_right _ h

theorem Tight.add (ha : a.Tight) (hb : b.Tight) : (a + b).Tight := by
  have hsum : ∀ limb ∈ List.zipWith (1 * · + ·) a.limbs b.limbs, limb ≤ Limbs.productBound :=
    fun limb hlimb =>
      Nat.le_trans (Limbs.zipWith_le ha.limb_le hb.limb_le limb hlimb) (by decide +kernel)
  simp only [Nat.one_mul] at hsum
  obtain ⟨hlimbs, hvalue⟩ :=
    Limbs.reduce_tight (by simp [a.length_limbs, b.length_limbs]) hsum
  exact ⟨hlimbs, hvalue⟩

theorem Tight.mul (ha : a.Tight) (hb : b.Tight) : (a * b).Tight := by
  have hproduct := Limbs.product_le ha.limb_le hb.limb_le
  rw [a.length_limbs] at hproduct
  obtain ⟨hlimbs, hvalue⟩ := Limbs.reduce_tight (by simp [b.length_limbs]) hproduct
  exact ⟨hlimbs, hvalue⟩

/-- **A run of squarings** keeps the limbs tight, because each squaring does. -/
theorem Tight.squareTimes (h : r.Tight) (times : Nat) : (r.squareTimes times).Tight := by
  induction times generalizing r with
  | zero => exact h
  | succ times ih => exact ih (h.mul h)

/-- Tight limbs spell the residue itself, or a number above it by the modulus if it is small. -/
theorem Tight.value_eq {n : Nat} (h : r.Tight) (hn : n < modulus) (hr : r.Represents n) :
    r.value = n ∨ r.value = n + modulus ∧ n < slack := by
  have hmod : r.value % modulus = n := hr.trans (Nat.mod_eq_of_lt hn)
  have hslack : slack ≤ modulus := by decide +kernel
  have hlt := h.value_lt
  rcases Nat.lt_or_ge r.value modulus with hbelow | habove
  · exact .inl ((Nat.mod_eq_of_lt hbelow).symm.trans hmod)
  · right
    rw [Nat.mod_eq_sub_mod habove, Nat.mod_eq_of_lt (by omega)] at hmod
    omega

/-- A residue that is not small, and none of whose digits is zero, has only its digits for tight
limbs. -/
theorem Tight.eq_ofNat {n : Nat} (h : r.Tight) (hn : n < modulus) (hr : r.Represents n)
    (hslack : slack ≤ n) (hdigits : 0 ∉ (ofNat n).limbs) : r = ofNat n := by
  have hvalue : r.value = n := by
    rcases h.value_eq hn hr with hsame | ⟨-, hsmall⟩
    · exact hsame
    · omega
  obtain ⟨limbs, hlength⟩ := r
  have hlimbs : Limbs.ofNat 9 n = limbs := by
    rw [← hvalue, value, ← hlength]
    refine Limbs.ofNat_value h.limb_le ?_
    rw [hlength]
    rwa [← hvalue] at hdigits
  simp only [ofNat, hlimbs]

theorem squareTimes_succ (r : LimbResidue) (times : Nat) :
    r.squareTimes (times + 1) = r.squareTimes times * r.squareTimes times := by
  induction times generalizing r with
  | zero => rfl
  | succ times ih => exact ih (r * r)

end LimbResidue

end SshKeys
