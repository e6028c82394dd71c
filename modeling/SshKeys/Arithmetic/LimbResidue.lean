/-
**Residues modulo `2 ^ 521 - 1` in limbs.**

A residue is held in nine limbs, the lowest first: eight of 58 bits and a top one of 57 bits.  The
product of two residues and their sum are formed limb by limb, and then carries are passed up.
What runs over the top comes back at the bottom, since `2 ^ 521` is one modulo `2 ^ 521 - 1`.
Carries are passed only as far as the limbs stay small, and the number the limbs spell is not
brought below the modulus.  So a residue close to zero may be spelled by a number above the
modulus, and the lowest bit of its limbs is then not the parity of the residue.

Main definitions:

* `SshKeys.LimbResidue` — nine limbs;
* `SshKeys.LimbResidue.value` — the number they spell;
* `SshKeys.LimbResidue.ofNat`, `+`, `*`, `SshKeys.LimbResidue.squareTimes` — the operations;
* `SshKeys.LimbResidue.isOdd` — the lowest bit of the limbs;
* `SshKeys.LimbResidue.Represents` — being the residue of a number.

Main results:

* `SshKeys.LimbResidue.value_ofNat` — the limbs of a number spell it;
* `SshKeys.LimbResidue.Represents.add`, `SshKeys.LimbResidue.Represents.mul`,
  `SshKeys.LimbResidue.Represents.squareTimes` — the operations are right modulo `2 ^ 521 - 1`.
-/

import SshKeys.Wire.Bytes

set_option relaxedAutoImplicit false
set_option autoImplicit false

namespace SshKeys

namespace Limbs

/-! ### Limbs -/

/-- The weight of a limb relative to the one below it. -/
def radix : Nat := 2 ^ 58

/-- The bound on the top limb. -/
def topRadix : Nat := 2 ^ 57

/-- The number that limbs spell, the lowest limb first. -/
def value : List Nat → Nat
  | [] => 0
  | limb :: rest => limb + radix * value rest

/-- The lowest `count` limbs of a number. -/
def ofNat : Nat → Nat → List Nat
  | 0, _ => []
  | count + 1, n => n % radix :: ofNat count (n / radix)

/-- Passes a carry up through all limbs: the limbs below their bounds, and what runs over the
top. -/
def carryUp : Nat → List Nat → List Nat × Nat
  | carry, [] => ([], carry)
  | carry, [top] => ([(carry + top) % topRadix], (carry + top) / topRadix)
  | carry, limb :: rest =>
    let (limbs, overflow) := carryUp ((carry + limb) / radix) rest
    ((carry + limb) % radix :: limbs, overflow)

/-- Adds a number at the bottom, and passes the carry up no more than `steps` times. -/
def addLow : Nat → Nat → List Nat → List Nat
  | _, _, [] => []
  | 0, carry, limb :: rest => (carry + limb) :: rest
  | steps + 1, carry, limb :: rest =>
    (carry + limb) % radix :: addLow steps ((carry + limb) / radix) rest

/-- Passes all carries up once; what runs over the top is added at the bottom, and moves two limbs
up at most. -/
def reduce (limbs : List Nat) : List Nat :=
  let (low, overflow) := carryUp 0 limbs
  addLow 2 overflow low

/-- Moves each limb one place up, and the top limb, twice, to the bottom. -/
def turn (limbs : List Nat) : List Nat := 2 * limbs.getLastD 0 :: limbs.dropLast

/-- The sum of the multiples of `b` by the limbs of `a`, each one turned to its place. -/
def product : List Nat → List Nat → List Nat
  | [], b => List.replicate b.length 0
  | limb :: rest, b => List.zipWith (limb * · + ·) b (turn (product rest b))

/-! ### Lengths -/

@[simp] theorem length_ofNat (count n : Nat) : (ofNat count n).length = count := by
  induction count generalizing n with
  | zero => rfl
  | succ count ih => simp [ofNat, ih]

@[simp] theorem length_carryUp (carry : Nat) (limbs : List Nat) :
    (carryUp carry limbs).1.length = limbs.length := by
  fun_induction carryUp carry limbs with
  | case1 | case2 => simp
  | case3 carry limb rest _ low overflow h ih => simpa [h] using ih

@[simp] theorem length_addLow (steps carry : Nat) (limbs : List Nat) :
    (addLow steps carry limbs).length = limbs.length := by
  fun_induction addLow steps carry limbs <;> simp_all

@[simp] theorem length_reduce (limbs : List Nat) : (reduce limbs).length = limbs.length := by
  simp [reduce]

theorem length_turn (limbs : List Nat) (h : 0 < limbs.length) :
    (turn limbs).length = limbs.length := by
  simp [turn]
  omega

@[simp] theorem length_product (a b : List Nat) : (product a b).length = b.length := by
  induction a with
  | nil => simp [product]
  | cons limb rest ih =>
    rcases Nat.eq_zero_or_pos b.length with hzero | hpos
    · simp [product, hzero]
    · simp [product, length_turn, ih, hpos]

/-! ### Values -/

theorem value_ofNat (count n : Nat) (h : n < radix ^ count) : value (ofNat count n) = n := by
  induction count generalizing n with
  | zero => simp at h; simp [ofNat, value, h]
  | succ count ih =>
    have hrest : n / radix < radix ^ count := by
      rw [Nat.div_lt_iff_lt_mul (by decide), ← Nat.pow_succ]
      exact h
    rw [ofNat, value, ih _ hrest]
    exact Nat.mod_add_div n radix

theorem value_append (a b : List Nat) :
    value (a ++ b) = value a + radix ^ a.length * value b := by
  induction a with
  | nil => simp [value]
  | cons limb rest ih =>
    simp only [List.cons_append, value, ih, List.length_cons, Nat.pow_succ]
    grind

/-- Passing a carry up loses nothing: the limbs and what ran over spell the sum. -/
theorem value_carryUp (carry : Nat) (limbs : List Nat) (h : limbs ≠ []) :
    value (carryUp carry limbs).1
      + radix ^ (limbs.length - 1) * topRadix * (carryUp carry limbs).2 =
      carry + value limbs := by
  fun_induction carryUp carry limbs with
  | case1 => exact absurd rfl h
  | case2 carry top =>
    have hcarry := Nat.mod_add_div (carry + top) topRadix
    simp [value]
    omega
  | case3 carry limb rest hrest low overflow hc ih =>
    have hne : rest ≠ [] := hrest
    have ih := ih hne
    have hcarry := Nat.mod_add_div (carry + limb) radix
    obtain ⟨n, hn⟩ : ∃ n, rest.length = n + 1 :=
      Nat.exists_eq_succ_of_ne_zero fun hzero => hne (List.length_eq_zero_iff.mp hzero)
    simp only [hc, hn, Nat.add_sub_cancel, List.length_cons, value, Nat.pow_succ] at ih ⊢
    grind

/-- Adding at the bottom loses nothing, if the carry stops below the top. -/
theorem value_addLow (steps carry : Nat) (limbs : List Nat) (h : steps < limbs.length) :
    value (addLow steps carry limbs) = carry + value limbs := by
  fun_induction addLow steps carry limbs with
  | case1 => simp at h
  | case2 carry limb rest => simp [value, Nat.add_assoc]
  | case3 steps carry limb rest ih =>
    have hcarry := Nat.mod_add_div (carry + limb) radix
    rw [value, value, ih (by simpa using h)]
    grind

/-- The modulus. -/
def modulus : Nat := 2 ^ 521 - 1

theorem value_reduce_mod (limbs : List Nat) (h : limbs.length = 9) :
    value (reduce limbs) % modulus = value limbs % modulus := by
  have hup := value_carryUp 0 limbs (by rintro rfl; simp at h)
  have hlow := value_addLow 2 (carryUp 0 limbs).2 (carryUp 0 limbs).1 (by simp [h])
  have htop : radix ^ (limbs.length - 1) * topRadix = modulus + 1 := by rw [h]; decide +kernel
  rw [htop, Nat.zero_add, Nat.add_mul, Nat.one_mul] at hup
  rw [reduce, hlow, ← hup, Nat.add_left_comm, Nat.mul_add_mod, Nat.add_comm]

theorem value_turn_mod (limbs : List Nat) (h : limbs.length = 9) :
    value (turn limbs) % modulus = radix * value limbs % modulus := by
  obtain ⟨low, top, rfl⟩ : ∃ low top, limbs = low ++ [top] :=
    ⟨_, _, (List.dropLast_concat_getLast (List.ne_nil_of_length_pos (by omega))).symm⟩
  have hlength : low.length = 8 := by simpa using h
  have haround : radix ^ 9 = 2 + modulus * 2 := by decide +kernel
  have hturn :
      radix * value (low ++ [top]) = value (turn (low ++ [top])) + modulus * (2 * top) := by
    rw [value_append, hlength]
    simp [turn, value]
    grind
  rw [hturn, Nat.add_mul_mod_self_left]

theorem value_zipWith (k : Nat) (a b : List Nat) (h : a.length = b.length) :
    value (List.zipWith (k * · + ·) a b) = k * value a + value b := by
  induction a generalizing b with
  | nil =>
    cases b with
    | nil => simp [value]
    | cons => simp at h
  | cons x a ih =>
    cases b with
    | nil => simp at h
    | cons y b =>
      simp only [List.zipWith_cons_cons, value, ih b (by simpa using h)]
      grind

theorem value_replicate_zero (count : Nat) : value (List.replicate count 0) = 0 := by
  induction count with
  | zero => rfl
  | succ count ih => simp only [List.replicate_succ, value, ih, Nat.mul_zero]

theorem value_product_mod (a b : List Nat) (h : b.length = 9) :
    value (product a b) % modulus = value a * value b % modulus := by
  induction a with
  | nil => rw [product, value_replicate_zero, value, Nat.zero_mul]
  | cons limb rest ih =>
    rw [product, value_zipWith _ _ _ (by simp [length_turn, h]), Nat.add_mod,
      value_turn_mod _ (by simp [h]), Nat.mul_mod radix, ih, ← Nat.mul_mod, ← Nat.add_mod, value]
    congr 1
    grind

end Limbs

/-! ### Residues -/

open Limbs (modulus)

/-- A residue modulo `2 ^ 521 - 1` in nine limbs. -/
structure LimbResidue where
  /-- The limbs, the lowest first. -/
  limbs : List Nat
  length_limbs : limbs.length = 9

namespace LimbResidue

/-- The number the limbs spell. -/
def value (r : LimbResidue) : Nat := Limbs.value r.limbs

/-- The residue of a number below `2 ^ 521`. -/
def ofNat (n : Nat) : LimbResidue := ⟨Limbs.ofNat 9 n, Limbs.length_ofNat 9 n⟩

/-- The sum, limb by limb and then reduced. -/
def add (a b : LimbResidue) : LimbResidue :=
  ⟨Limbs.reduce (List.zipWith (· + ·) a.limbs b.limbs), by simp [a.length_limbs, b.length_limbs]⟩

/-- The product, limb by limb and then reduced. -/
def mul (a b : LimbResidue) : LimbResidue :=
  ⟨Limbs.reduce (Limbs.product a.limbs b.limbs), by simp [b.length_limbs]⟩

instance : Add LimbResidue := ⟨add⟩
instance : Mul LimbResidue := ⟨mul⟩

/-- The residue squared so many times over. -/
def squareTimes (r : LimbResidue) : Nat → LimbResidue
  | 0 => r
  | times + 1 => (r * r).squareTimes times

/-- Whether the lowest bit of the limbs is set. -/
def isOdd (r : LimbResidue) : Bool := r.limbs.headD 0 % 2 == 1

theorem value_ofNat (n : Nat) (h : n < modulus) : (ofNat n).value = n :=
  Limbs.value_ofNat 9 n (Nat.lt_trans h (by decide +kernel))

/-- The limbs spell a number up to multiples of the modulus. -/
def Represents (r : LimbResidue) (n : Nat) : Prop := r.value % modulus = n % modulus

theorem represents_ofNat (n : Nat) (h : n < modulus) : (ofNat n).Represents n := by
  rw [Represents, value_ofNat n h]

theorem Represents.add {a b : LimbResidue} {m n : Nat} (ha : a.Represents m)
    (hb : b.Represents n) : (a + b).Represents (m + n) := by
  have hsum := Limbs.value_zipWith 1 a.limbs b.limbs (a.length_limbs.trans b.length_limbs.symm)
  simp only [Nat.one_mul] at hsum
  show Limbs.value (Limbs.reduce _) % modulus = _
  rw [Limbs.value_reduce_mod _ (by simp [a.length_limbs, b.length_limbs]), hsum, Nat.add_mod]
  show (a.value % modulus + b.value % modulus) % modulus = _
  rw [ha, hb, ← Nat.add_mod]

theorem Represents.mul {a b : LimbResidue} {m n : Nat} (ha : a.Represents m)
    (hb : b.Represents n) : (a * b).Represents (m * n) := by
  show Limbs.value (Limbs.reduce _) % modulus = _
  rw [Limbs.value_reduce_mod _ (by simp [b.length_limbs]),
    Limbs.value_product_mod _ _ b.length_limbs, Nat.mul_mod]
  show (a.value % modulus) * (b.value % modulus) % modulus = _
  rw [ha, hb, ← Nat.mul_mod]

theorem Represents.squareTimes {r : LimbResidue} {n : Nat} (h : r.Represents n) (times : Nat) :
    (r.squareTimes times).Represents (n ^ 2 ^ times) := by
  induction times generalizing r n with
  | zero => simpa [LimbResidue.squareTimes] using h
  | succ times ih =>
    have hsquared := ih (h.mul h)
    rwa [← Nat.pow_two, ← Nat.pow_mul, Nat.mul_comm 2, ← Nat.pow_succ] at hsquared

/-- The lowest bit of the limbs is the parity of the number they spell. -/
theorem isOdd_eq (r : LimbResidue) : r.isOdd = (r.value % 2 == 1) := by
  obtain ⟨limbs, h⟩ := r
  cases limbs with
  | nil => simp at h
  | cons limb rest =>
    simp only [isOdd, value, Limbs.value, Limbs.radix, List.headD_cons]
    congr 1
    omega

end LimbResidue

end SshKeys
