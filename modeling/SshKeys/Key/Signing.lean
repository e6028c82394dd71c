/-
**Acceptance of keypairs.**

A keypair is accepted if its public half obeys the rules of its algorithm and its private half
belongs to it, as far as that can be checked at once.  An accepted keypair holds its numbers as
numbers.  The way back can fail for RSA, where the inverse of one prime modulo the other has to
exist; for ECDSA it goes through the octets of the point and of the scalar.

Main definitions:

* `SshKeys.SigningKey` — the numbers of an accepted keypair;
* `SshKeys.RsaSigningKey.check` — the rules for RSA, with any number of primes;
* `SshKeys.Keypair.accept`, `SshKeys.SigningKey.toKeypair` — acceptance, and the way back;
* `SshKeys.SigningKey.verifyingKey` — the public half;
* `SshKeys.Keypair.acceptedDecoder` — a keypair that is accepted as it is read.
-/

import SshKeys.Key.Verifying
import SshKeys.Key.Keypair

set_option relaxedAutoImplicit false
set_option autoImplicit false

namespace SshKeys

/-! ### RSA -/

/-- The numbers of an RSA keypair. -/
structure RsaSigningKey where
  publicKey : RsaVerifyingKey
  /-- The private exponent. -/
  d : Nat
  /-- The prime factors of the modulus. -/
  primes : List Nat
  deriving DecidableEq

namespace RsaSigningKey

/-- The primes are above one, their product is the modulus, and the two exponents cancel modulo
every prime less one. -/
def check (key : RsaSigningKey) : Except RsaFault Unit := do
  key.publicKey.check
  if key.primes.any (· ≤ 1) then throw .invalidPrime
  if key.primes.foldl (· * ·) 1 ≠ key.publicKey.n then throw .invalidModulus
  if key.primes.any fun prime => key.d * key.publicKey.e % (prime - 1) ≠ 1 then
    throw .invalidExponent

/-- The keypair with these numbers, of which exactly two have to be primes. -/
def toKeypair (key : RsaSigningKey) : Except Error RsaKeypair :=
  match key.primes with
  | [p, q] =>
    match inverseMod? q p with
    | some iqmp => do
      let privateKey ← RsaPrivateKey.derive (.ofNat key.d) (.ofNat iqmp) (.ofNat p) (.ofNat q)
      pure ⟨key.publicKey.toPublicKey, privateKey⟩
    | none => .error (.materialRejected .rsa "missing CRT coefficient")
  | _ => .error (.materialRejected .rsa "expected exactly two primes")

end RsaSigningKey

/-- The numbers of an RSA keypair. -/
def RsaKeypair.numbers (pair : RsaKeypair) : RsaSigningKey :=
  ⟨pair.publicKey.numbers, pair.privateKey.d.toNat,
    [pair.privateKey.p.toNat, pair.privateKey.q.toNat]⟩

/-- The numbers of an RSA keypair, if they obey the rules. -/
def RsaKeypair.accept (pair : RsaKeypair) : Except Error RsaSigningKey :=
  match pair.numbers.check with
  | .ok () => .ok pair.numbers
  | .error fault => .error fault.toError

/-! ### DSA -/

/-- The numbers of a DSA keypair. -/
structure DsaSigningKey where
  publicKey : DsaVerifyingKey
  /-- The secret exponent. -/
  x : Nat
  deriving DecidableEq

/-- The keypair with these numbers. -/
def DsaSigningKey.toKeypair (key : DsaSigningKey) : DsaKeypair :=
  ⟨key.publicKey.toPublicKey, ⟨.ofNat key.x⟩⟩

/-- The numbers of a DSA keypair, if the public ones obey the rules and the secret exponent lies
between zero and the order of the subgroup. -/
def DsaKeypair.accept (pair : DsaKeypair) : Except Error DsaSigningKey := do
  let publicKey ← pair.publicKey.accept
  let x := pair.privateKey.x.toNat
  if x = 0 || publicKey.q < x then throw DsaFault.privateComponent.toError
  pure ⟨publicKey, x⟩

/-! ### ECDSA -/

/-- A secret scalar of a curve. -/
structure EcdsaSigningKey where
  curve : Curve
  scalar : Nat
  deriving DecidableEq

namespace EcdsaSigningKey

/-- The coordinates of the public point, the multiple of the generator by the scalar; `none` where
that multiple is the neutral element. -/
def publicKey? (key : EcdsaSigningKey) : Option EcdsaVerifyingKey :=
  match key.curve.params.multiply key.scalar key.curve.params.generator with
  | .affine x y => some ⟨key.curve, x, y⟩
  | .infinity => none

/-- The coordinates of the public point; the neutral element, which no scalar below the order
yields, would count as the origin. -/
def publicKey (key : EcdsaSigningKey) : EcdsaVerifyingKey :=
  key.publicKey?.getD ⟨key.curve, 0, 0⟩

/-- The scalar at the width of a coordinate. -/
def scalarBytes (key : EcdsaSigningKey) : Bytes :=
  bigEndian key.curve.fieldSize key.scalar

/-- The keypair with this scalar. -/
def toKeypair (key : EcdsaSigningKey) : Except Error EcdsaKeypair := do
  let publicKey ← key.publicKey.toPublicKey
  pure ⟨publicKey, ⟨.ofMagnitude key.scalarBytes⟩⟩

end EcdsaSigningKey

namespace EcdsaKeypair

/-- The scalar of a keypair on a given curve.  The public half has to be accepted there; the scalar
has to fit a coordinate, lie between zero and the order of the generator, and yield the public
point. -/
def acceptOn (curve : Curve) (pair : EcdsaKeypair) : Except Error EcdsaSigningKey := do
  let publicKey ← pair.publicKey.acceptOn curve
  let _ ← pair.privateKey.scalar.padded curve.fieldSize
  let scalar := pair.privateKey.scalar.toNat
  if scalar = 0 || curve.params.order ≤ scalar then
    throw (pair.publicKey.reject "scalar out of range")
  let key : EcdsaSigningKey := ⟨curve, scalar⟩
  if key.publicKey? = some publicKey then pure key
  else throw (pair.publicKey.reject "public point doesn't match private scalar")

/-- The scalar of a keypair on its own curve. -/
def accept (pair : EcdsaKeypair) : Except Error EcdsaSigningKey :=
  pair.acceptOn pair.publicKey.curve

end EcdsaKeypair

/-! ### Keypairs of any family -/

/-- The numbers of an accepted keypair. -/
inductive SigningKey where
  | dsa (key : DsaSigningKey)
  | ecdsa (key : EcdsaSigningKey)
  | rsa (key : RsaSigningKey)
  deriving DecidableEq

namespace SigningKey

/-- The key type of an accepted keypair. -/
def algorithm : SigningKey → Algorithm
  | dsa _ => .dsa
  | ecdsa key => .ecdsa key.curve
  | rsa _ => .rsa

/-- The public half. -/
def verifyingKey : SigningKey → VerifyingKey
  | dsa key => .dsa key.publicKey
  | ecdsa key => .ecdsa key.publicKey
  | rsa key => .rsa key.publicKey

/-- The keypair with these numbers. -/
def toKeypair : SigningKey → Except Error Keypair
  | dsa key => .ok (.dsa key.toKeypair)
  | ecdsa key => .ecdsa <$> key.toKeypair
  | rsa key => .rsa <$> key.toKeypair

end SigningKey

namespace Keypair

/-- The numbers of a keypair, if they obey the rules of its algorithm. -/
def accept : Keypair → Except Error SigningKey
  | dsa pair => .dsa <$> pair.accept
  | ecdsa pair => .ecdsa <$> pair.accept
  | rsa pair => .rsa <$> pair.accept
  | other pair => .error (.algorithmUnsupported pair.publicKey.name.text)

/-- A keypair that has to be accepted once it has been read. -/
def acceptedDecoder : Decoder Keypair := do
  let pair ← decoder
  let _ ← Decoder.ofExcept pair.accept
  pure pair

end Keypair

end SshKeys
