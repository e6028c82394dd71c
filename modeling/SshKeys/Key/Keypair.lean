/-
**Keypairs and their wire form.**

A keypair is written as its public key and then the private fields.  For RSA these are `d`, the
inverse of `q` modulo `p`, `q` and `p`; the two exponents for the primes are never written but
derived from `d`.  Keypairs of a type without a codec can be held but not written.

Main definitions:

* `SshKeys.RsaPrivateKey`, `SshKeys.RsaKeypair`, `SshKeys.DsaKeypair`, `SshKeys.EcdsaKeypair`,
  `SshKeys.ForeignKeypair` — the four families;
* `SshKeys.RsaPrivateKey.derive` — the derived exponents;
* `SshKeys.Keypair` — a keypair of any family;
* `SshKeys.Keypair.encoding`, `SshKeys.Keypair.decoder` — the wire form.
-/

import SshKeys.Key.PublicKey

set_option relaxedAutoImplicit false
set_option autoImplicit false

namespace SshKeys

/-! ### RSA -/

/-- The private half of an RSA keypair. -/
structure RsaPrivateKey where
  /-- The private exponent. -/
  d : Mpint
  /-- The inverse of `q` modulo `p`. -/
  iqmp : Mpint
  /-- The first prime. -/
  p : Mpint
  /-- The second prime. -/
  q : Mpint
  /-- The private exponent modulo `p - 1`. -/
  dp : Mpint
  /-- The private exponent modulo `q - 1`. -/
  dq : Mpint

namespace RsaPrivateKey

/-- The private exponent reduced for a prime; a number below two is no prime. -/
def reducedExponent (d prime : Mpint) : Except Error Mpint :=
  if prime.toNat ≤ 1 then .error (.materialRejected .rsa "prime factor less than 2")
  else .ok (.ofNat (d.toNat % (prime.toNat - 1)))

/-- A private key from the fields that are written, with the two derived exponents. -/
def derive (d iqmp p q : Mpint) : Except Error RsaPrivateKey := do
  let dp ← reducedExponent d p
  let dq ← reducedExponent d q
  pure ⟨d, iqmp, p, q, dp, dq⟩

/-- Private keys are compared by the fields that are written. -/
instance : BEq RsaPrivateKey :=
  ⟨fun a b => a.d == b.d && a.iqmp == b.iqmp && a.p == b.p && a.q == b.q⟩

end RsaPrivateKey

/-- An RSA keypair. -/
structure RsaKeypair where
  publicKey : RsaPublicKey
  privateKey : RsaPrivateKey
  deriving BEq

namespace RsaKeypair

/-- The public fields, then `d`, the inverse of `q`, `q` and `p`. -/
def encoding (pair : RsaKeypair) : Encoding :=
  .sequence [pair.publicKey.encoding, pair.privateKey.d.encoding, pair.privateKey.iqmp.encoding,
    pair.privateKey.q.encoding, pair.privateKey.p.encoding]

/-- The public fields, then `d`, the inverse of `q`, `q` and `p`. -/
def decoder : Decoder RsaKeypair := do
  let publicKey ← RsaPublicKey.decoder
  let d ← Mpint.decoder
  let iqmp ← Mpint.decoder
  let q ← Mpint.decoder
  let p ← Mpint.decoder
  let privateKey ← Decoder.ofExcept (RsaPrivateKey.derive d iqmp p q)
  pure ⟨publicKey, privateKey⟩

/-- The text of a keypair for diagnosis; the private half is withheld. -/
def diagnostic (pair : RsaKeypair) : String :=
  Diagnostic.openRecord "RsaKeypair" [("public", pair.publicKey.diagnostic)]

end RsaKeypair

/-! ### DSA -/

/-- The private half of a DSA keypair. -/
structure DsaPrivateKey where
  /-- The secret exponent. -/
  x : Mpint
  deriving DecidableEq

namespace DsaPrivateKey

/-- The secret exponent. -/
def encoding (key : DsaPrivateKey) : Encoding := key.x.encoding

/-- The text of a private key for diagnosis; the secret is withheld. -/
def diagnostic (_ : DsaPrivateKey) : String := Diagnostic.openRecord "DsaPrivateKey" []

end DsaPrivateKey

/-- A DSA keypair. -/
structure DsaKeypair where
  publicKey : DsaPublicKey
  privateKey : DsaPrivateKey
  deriving DecidableEq

namespace DsaKeypair

/-- The public fields, then the secret exponent. -/
def encoding (pair : DsaKeypair) : Encoding :=
  .sequence [pair.publicKey.encoding, pair.privateKey.encoding]

/-- The public fields, then the secret exponent. -/
def decoder : Decoder DsaKeypair := do
  let publicKey ← DsaPublicKey.decoder
  let x ← Mpint.decoder
  pure ⟨publicKey, ⟨x⟩⟩

/-- The text of a keypair for diagnosis; the private half is withheld. -/
def diagnostic (pair : DsaKeypair) : String :=
  Diagnostic.openRecord "DsaKeypair" [("public", pair.publicKey.diagnostic)]

end DsaKeypair

/-! ### ECDSA -/

/-- The private half of an ECDSA keypair. -/
structure EcdsaPrivateKey where
  /-- The secret scalar. -/
  scalar : Mpint
  deriving DecidableEq

/-- The text of a private key for diagnosis; the secret is withheld. -/
def EcdsaPrivateKey.diagnostic (_ : EcdsaPrivateKey) : String :=
  Diagnostic.openRecord "EcdsaPrivateKey" []

/-- An ECDSA keypair. -/
structure EcdsaKeypair where
  publicKey : EcdsaPublicKey
  privateKey : EcdsaPrivateKey
  deriving DecidableEq

namespace EcdsaKeypair

/-- The public fields, then the secret scalar. -/
def encoding (pair : EcdsaKeypair) : Encoding :=
  .sequence [pair.publicKey.encoding, pair.privateKey.scalar.encoding]

/-- The public fields, then the secret scalar. -/
def decoder (curve : Curve) : Decoder EcdsaKeypair := do
  let publicKey ← EcdsaPublicKey.decoder curve
  let scalar ← Mpint.decoder
  pure ⟨publicKey, ⟨scalar⟩⟩

/-- The text of a keypair for diagnosis; the private half is withheld. -/
def diagnostic (pair : EcdsaKeypair) : String :=
  Diagnostic.openRecord "EcdsaKeypair" [("public", pair.publicKey.diagnostic)]

end EcdsaKeypair

/-! ### Keypairs without a codec -/

/-- A keypair of a type without a codec. -/
structure ForeignKeypair where
  publicKey : ForeignPublicKey
  /-- The private half as it came. -/
  secret : Bytes
  deriving DecidableEq

/-- The text of a keypair for diagnosis; the private half is withheld. -/
def ForeignKeypair.diagnostic (pair : ForeignKeypair) : String :=
  Diagnostic.openRecord "OpaqueKeypair" [("public", pair.publicKey.diagnostic)]

/-! ### Keypairs of any family -/

/-- A keypair. -/
inductive Keypair where
  | dsa (pair : DsaKeypair)
  | ecdsa (pair : EcdsaKeypair)
  | rsa (pair : RsaKeypair)
  | other (pair : ForeignKeypair)
  deriving BEq

namespace Keypair

/-- The public half. -/
def publicKey : Keypair → PublicKey
  | dsa pair => .dsa pair.publicKey
  | ecdsa pair => .ecdsa pair.publicKey
  | rsa pair => .rsa pair.publicKey
  | other pair => .other pair.publicKey

/-- The key type of a keypair. -/
def algorithm (pair : Keypair) : Algorithm := pair.publicKey.algorithm

/-- An encoding that is refused at once. -/
def refusedEncoding (error : Error) : Encoding := ⟨.error error, .fail error⟩

/-- The fields of a keypair, without its type. -/
def fieldEncoding : Keypair → Encoding
  | dsa pair => pair.encoding
  | ecdsa pair => pair.encoding
  | rsa pair => pair.encoding
  | other pair => refusedEncoding (.keyTypeUnsupported pair.publicKey.name.text)

/-- The key type, then the fields; nothing at all for a type without a codec. -/
def encoding (pair : Keypair) : Encoding :=
  match pair with
  | other _ => pair.fieldEncoding
  | _ => .sequence [.label pair.algorithm, pair.fieldEncoding]

/-- The fields of a keypair of a given type. -/
def fieldDecoder : Algorithm → Decoder Keypair
  | .dsa => .dsa <$> DsaKeypair.decoder
  | .ecdsa curve => .ecdsa <$> EcdsaKeypair.decoder curve
  | .rsa => .rsa <$> RsaKeypair.decoder
  | .other name => .fail (.algorithmUnsupported name.text)

/-- The key type, then the fields. -/
def decoder : Decoder Keypair := do
  let algorithm ← Decoder.keyType
  fieldDecoder algorithm

/-- The bytes of a keypair, written without announcing their length. -/
def toBytes (pair : Keypair) : Except Error Bytes := pair.encoding.emission.result

/-- The keypair in a byte string. -/
def ofBytes (bs : Bytes) : Except Error Keypair := decoder.ofBytes bs

/-- The text of a keypair for diagnosis. -/
def diagnostic : Keypair → String
  | dsa pair => Diagnostic.variant "Dsa" pair.diagnostic
  | ecdsa pair => Diagnostic.variant "Ecdsa" pair.diagnostic
  | rsa pair => Diagnostic.variant "Rsa" pair.diagnostic
  | other pair => Diagnostic.variant "Other" pair.diagnostic

end Keypair

end SshKeys
