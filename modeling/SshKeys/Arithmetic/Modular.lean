/-
**Arithmetic modulo a number.**

Powers by repeated squaring and inverses by the Euclidean algorithm, on natural numbers.

Main definitions:

* `SshKeys.powMod` — a power modulo a number;
* `SshKeys.inverseMod?` — the inverse modulo a number, if there is one;
* `SshKeys.subMod` — a difference modulo a number.
-/

import SshKeys.Wire.Bytes

set_option relaxedAutoImplicit false
set_option autoImplicit false

namespace SshKeys

/-! ### Powers -/

/-- `base` to the number in the lowest `bits` bits of `exponent`, modulo `m`. -/
def powModBits (m : Nat) : Nat → Nat → Nat → Nat
  | 0, _, _ => 1 % m
  | bits + 1, base, exponent =>
    let rest := powModBits m bits (base * base % m) (exponent / 2)
    if exponent % 2 = 0 then rest else rest * base % m

/-- `base ^ exponent` modulo `m`. -/
def powMod (base exponent m : Nat) : Nat :=
  powModBits m (bitLength exponent) base exponent

/-! ### Differences and inverses -/

/-- `a - b` modulo `m`, for `a` and `b` below `m`. -/
def subMod (a b m : Nat) : Nat := (a + m - b) % m

/-- The Euclidean algorithm on `r` and `s` with coefficients `t` and `u` for one of the two
numbers it started from: the greatest common divisor and its coefficient.  There are never more
steps than `fuel = s`. -/
def euclid : Nat → Nat → Nat → Int → Int → Nat × Int
  | 0, r, _, t, _ => (r, t)
  | fuel + 1, r, s, t, u =>
    if s = 0 then (r, t)
    else euclid fuel s (r % s) u (t - (r / s : Nat) * u)

/-- The number below `m` whose product with `a` is one modulo `m`, if there is one. -/
def inverseMod? (a m : Nat) : Option Nat :=
  let (divisor, coefficient) := euclid (a % m) m (a % m) 0 1
  if divisor = 1 then some (coefficient % m).toNat else none

end SshKeys
