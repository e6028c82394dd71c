/-
**Generation of keypairs.**

Secret numbers are drawn from a random source by rejection: numbers of the right size are drawn
until one is in range.  A random source is modelled by the bytes it yields; behind a given start
it yields the byte one for ever, so that every drawing comes to an end.

Main definitions:

* `SshKeys.Entropy` — a random source and the number of bytes drawn from it;
* `SshKeys.Entropy.search` — drawing until a number is in range;
* `SshKeys.EcdsaKeypair.generate`, `SshKeys.DsaKeypair.generate` — new keypairs;
* `SshKeys.RsaKeypair.checkSize` — the sizes that RSA keypairs may not have.
-/

import SshKeys.Key.Signing

set_option relaxedAutoImplicit false
set_option autoImplicit false

namespace SshKeys

/-! ### Random sources -/

/-- A random source: the bytes it yields first, before it yields ones for ever, and how many have
been drawn. -/
structure Entropy where
  /-- The bytes that come first. -/
  script : Bytes
  /-- The number of bytes that have been drawn. -/
  drawn : Nat

namespace Entropy

/-- A source of which nothing has been drawn. -/
def ofScript (script : Bytes) : Entropy := ⟨script, 0⟩

/-- The next `count` bytes. -/
def draw (count : Nat) (s : Entropy) : Bytes × Entropy :=
  let fresh := s.script.take count
  (fresh ++ List.replicate (count - fresh.length) 1, ⟨s.script.drop count, s.drawn + count⟩)

/-- Draws `count` bytes at a time until the number they spell in the manner of `read` is in range,
at most `attempts` times and once more.  The last number is returned whether it is in range or
not. -/
def search (count : Nat) (read : Bytes → Nat) (inRange : Nat → Bool) :
    Nat → Entropy → Nat × Entropy
  | 0, s =>
    let (bs, s) := s.draw count
    (read bs, s)
  | attempts + 1, s =>
    let (bs, s) := s.draw count
    if inRange (read bs) then (read bs, s) else search count read inRange attempts s

/-- The number of attempts after which nothing of the script is left. -/
def attempts (s : Entropy) : Nat := s.script.length

end Entropy

/-! ### ECDSA -/

/-- A new keypair on a curve.  The scalar has as many bytes as a coordinate and lies between zero
and the order of the generator. -/
def EcdsaKeypair.generate (curve : Curve) (s : Entropy) :
    Except Error (EcdsaKeypair × Entropy) := do
  let inRange := fun n => decide (0 < n ∧ n < curve.params.order)
  let (scalar, s) := Entropy.search curve.fieldSize natOfBytes inRange s.attempts s
  let pair ← (EcdsaSigningKey.mk curve scalar).toKeypair
  pure (pair, s)

/-! ### DSA -/

/-- The number that bytes spell as words of 32 bits, the least significant word and the least
significant byte of each word first.  Of the last word only the highest `bits % 32` bits count,
unless that is zero. -/
def natOfWords (bits : Nat) (bs : Bytes) : Nat :=
  let lower := 4 * (bits / 32)
  let last := natOfBytes (bs.drop lower).reverse
  natOfBytes (bs.take lower).reverse + 2 ^ (8 * lower) * (last / 2 ^ (32 - bits % 32))

/-- A new keypair with given domain parameters, which have to be those of an acceptable key.  The
secret exponent lies between one and the order of the subgroup. -/
def DsaKeypair.generate (domain : DsaPublicKey) (s : Entropy) :
    Except Error (DsaKeypair × Entropy) := do
  let key ← domain.accept
  let bits := bitLength (key.q - 1)
  let inRange := fun n => decide (n < key.q - 1)
  let (value, s) := Entropy.search (4 * ((bits + 31) / 32)) (natOfWords bits) inRange s.attempts s
  let x := 1 + value
  let publicKey := { key with y := powMod key.g x key.p }
  pure ((DsaSigningKey.mk publicKey x).toKeypair, s)

/-! ### RSA -/

/-- The least number of bits of a new modulus. -/
def RsaKeypair.minKeySize : Nat := 1024

/-- Refuses a number of bits that is too small for a new modulus. -/
def RsaKeypair.checkSize (bits : Nat) : Except Error Unit :=
  if bits < minKeySize then
    .error (.materialRejected .rsa
      s!"key size {bits} is below the {minKeySize} bit minimum")
  else .ok ()

end SshKeys
