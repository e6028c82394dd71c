/-
**Acceptance of public keys.**

A key that decodes is not yet a key to verify with: its numbers have to fit the algorithm.  The
rules ask for what can be checked at once; no number is tested for being prime.  An accepted key
holds its numbers as numbers, and can be turned back into the key it came from.

Main definitions:

* `SshKeys.VerifyingKey` — the numbers of an accepted public key;
* `SshKeys.RsaFault`, `SshKeys.DsaFault` — why RSA and DSA numbers are refused;
* `SshKeys.RsaPublicKey.accept`, `SshKeys.DsaPublicKey.accept`, `SshKeys.EcdsaPublicKey.accept` —
  the rules of each family;
* `SshKeys.PublicKey.accept`, `SshKeys.VerifyingKey.toPublicKey` — acceptance, and the way back;
* `SshKeys.PublicKey.acceptedDecoder` — a key that is accepted as it is read.
-/

import SshKeys.Key.PublicKey

set_option relaxedAutoImplicit false
set_option autoImplicit false

namespace SshKeys

/-! ### RSA -/

/-- Why RSA numbers are refused. -/
inductive RsaFault where
  | modulusTooLarge
  | invalidModulus
  | invalidExponent
  | exponentTooSmall
  | exponentTooLarge
  | invalidPrime
  deriving DecidableEq

/-- The wording of a fault. -/
def RsaFault.reason : RsaFault → String
  | modulusTooLarge => "modulus too large"
  | invalidModulus => "invalid modulus"
  | invalidExponent => "invalid exponent"
  | exponentTooSmall => "public exponent too small"
  | exponentTooLarge => "public exponent too large"
  | invalidPrime => "invalid prime value"

/-- An RSA modulus with its public exponent. -/
structure RsaVerifyingKey where
  n : Nat
  e : Nat
  deriving DecidableEq

namespace RsaVerifyingKey

/-- The longest modulus of a public key, in bits. -/
def maxBits : Nat := 4096

/-- The largest public exponent. -/
def maxExponent : Nat := 2 ^ 33 - 1

/-- The rules that public keys and keypairs share.  The modulus is odd and above the exponent, and
the exponent is odd and neither too small nor too large. -/
def check (key : RsaVerifyingKey) : Except RsaFault Unit :=
  if 2 ^ 64 ≤ key.e then .error .exponentTooLarge
  else if key.n ≤ key.e || key.n % 2 = 0 then .error .invalidModulus
  else if key.e % 2 = 0 then .error .invalidExponent
  else if key.e < 2 then .error .exponentTooSmall
  else if maxExponent < key.e then .error .exponentTooLarge
  else .ok ()

/-- The rules for a public key on its own, whose modulus is also bounded. -/
def checkAlone (key : RsaVerifyingKey) : Except RsaFault Unit :=
  if maxBits < bitLength key.n then .error .modulusTooLarge else key.check

/-- The public key with these numbers. -/
def toPublicKey (key : RsaVerifyingKey) : RsaPublicKey := ⟨.ofNat key.e, .ofNat key.n⟩

end RsaVerifyingKey

/-- A fault in RSA numbers as an error. -/
def RsaFault.toError (fault : RsaFault) : Error := .materialRejected .rsa fault.reason

/-- The numbers of an RSA key. -/
def RsaPublicKey.numbers (key : RsaPublicKey) : RsaVerifyingKey := ⟨key.n.toNat, key.e.toNat⟩

/-- The numbers of an RSA key, if they obey the rules. -/
def RsaPublicKey.accept (key : RsaPublicKey) : Except Error RsaVerifyingKey :=
  match key.numbers.checkAlone with
  | .ok () => .ok key.numbers
  | .error fault => .error fault.toError

/-! ### DSA -/

/-- Why DSA numbers are refused. -/
inductive DsaFault where
  | domain
  | publicComponent
  | privateComponent
  deriving DecidableEq

/-- The wording of a fault. -/
def DsaFault.reason : DsaFault → String
  | domain => "invalid domain parameters"
  | publicComponent => "invalid public component"
  | privateComponent => "private component out of range"

/-- A fault in DSA numbers as an error. -/
def DsaFault.toError (fault : DsaFault) : Error := .materialRejected .dsa fault.reason

/-- DSA domain parameters with a public component. -/
structure DsaVerifyingKey where
  p : Nat
  q : Nat
  g : Nat
  y : Nat
  deriving DecidableEq

namespace DsaVerifyingKey

/-- The generator lies between zero and the modulus, and the public component is above one and in
the subgroup. -/
def check (key : DsaVerifyingKey) : Except DsaFault Unit :=
  if key.p < 2 || key.q < 2 || key.g = 0 || key.p < key.g then .error .domain
  else if key.y < 2 || powMod key.y key.q key.p ≠ 1 then .error .publicComponent
  else .ok ()

/-- The public key with these numbers. -/
def toPublicKey (key : DsaVerifyingKey) : DsaPublicKey :=
  ⟨.ofNat key.p, .ofNat key.q, .ofNat key.g, .ofNat key.y⟩

end DsaVerifyingKey

/-- The numbers of a DSA key. -/
def DsaPublicKey.numbers (key : DsaPublicKey) : DsaVerifyingKey :=
  ⟨key.p.toNat, key.q.toNat, key.g.toNat, key.y.toNat⟩

/-- The numbers of a DSA key, if they obey the rules. -/
def DsaPublicKey.accept (key : DsaPublicKey) : Except Error DsaVerifyingKey :=
  match key.numbers.check with
  | .ok () => .ok key.numbers
  | .error fault => .error fault.toError

/-! ### ECDSA -/

/-- The coordinates of a point on a curve. -/
structure EcdsaVerifyingKey where
  curve : Curve
  x : Nat
  y : Nat
  deriving DecidableEq

namespace EcdsaVerifyingKey

/-- The octet string of the point: both coordinates at full width. -/
def octets (key : EcdsaVerifyingKey) : Bytes :=
  PointForm.uncompressed.indicator ::
    (bigEndian key.curve.fieldSize key.x ++ bigEndian key.curve.fieldSize key.y)

/-- The public key with these coordinates, read from the octet string of the point. -/
def toPublicKey (key : EcdsaVerifyingKey) : Except Error EcdsaPublicKey :=
  EcdsaPublicKey.ofOctets key.curve key.octets

end EcdsaVerifyingKey

namespace EcdsaPublicKey

/-- The error that the numbers of a key do not fit the algorithm. -/
def reject (key : EcdsaPublicKey) (reason : String) : Error :=
  .materialRejected key.algorithm reason

/-- The coordinates of a key as a point of a given curve.  The key has to name that curve, its
coordinates have to fit the octet string of a point, and the point has to lie on the curve. -/
def acceptOn (curve : Curve) (key : EcdsaPublicKey) : Except Error EcdsaVerifyingKey := do
  if key.curve ≠ curve then throw (.curveMismatch curve.name key.curve.name)
  let _ ← key.toOctets
  let x := key.point.x.toNat
  let y := key.point.y.toNat
  if curve.params.isOnCurve x y then pure ⟨curve, x, y⟩
  else throw (key.reject "point is not on the curve")

/-- The coordinates of a key as a point of its own curve. -/
def accept (key : EcdsaPublicKey) : Except Error EcdsaVerifyingKey :=
  key.acceptOn key.curve

end EcdsaPublicKey

/-! ### Keys of any family -/

/-- The numbers of an accepted public key. -/
inductive VerifyingKey where
  | dsa (key : DsaVerifyingKey)
  | ecdsa (key : EcdsaVerifyingKey)
  | rsa (key : RsaVerifyingKey)
  deriving DecidableEq

namespace VerifyingKey

/-- The key type of an accepted key. -/
def algorithm : VerifyingKey → Algorithm
  | dsa _ => .dsa
  | ecdsa key => .ecdsa key.curve
  | rsa _ => .rsa

/-- The public key with these numbers. -/
def toPublicKey : VerifyingKey → Except Error PublicKey
  | dsa key => .ok (.dsa key.toPublicKey)
  | ecdsa key => .ecdsa <$> key.toPublicKey
  | rsa key => .ok (.rsa key.toPublicKey)

end VerifyingKey

namespace PublicKey

/-- The numbers of a key, if they obey the rules of its algorithm. -/
def accept : PublicKey → Except Error VerifyingKey
  | dsa key => .dsa <$> key.accept
  | ecdsa key => .ecdsa <$> key.accept
  | rsa key => .rsa <$> key.accept
  | other key => .error (.algorithmUnsupported key.name.text)

/-- A key that has to be accepted once it has been read. -/
def acceptedDecoder : Decoder PublicKey := do
  let key ← decoder
  let _ ← Decoder.ofExcept key.accept
  pure key

/-- An accepted key behind the length of its blob. -/
def framedDecoder : Decoder PublicKey := acceptedDecoder.framed

end PublicKey

end SshKeys
