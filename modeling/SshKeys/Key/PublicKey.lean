/-
**Public keys and their wire form.**

A public key is written as its key type and then its fields, one after another, with nothing
around them.  Reading refuses key types without a codec; a key of such a type can still be held
and written, as a name with the bytes that follow it.

Main definitions:

* `SshKeys.RsaPublicKey`, `SshKeys.DsaPublicKey`, `SshKeys.EcdsaPublicKey`,
  `SshKeys.ForeignPublicKey` — the four families;
* `SshKeys.PublicKey` — a key of any family;
* `SshKeys.PublicKey.encoding`, `SshKeys.PublicKey.decoder` — the wire form;
* `SshKeys.PublicKey.toBytes`, `SshKeys.PublicKey.ofBytes` — the key blob.
-/

import SshKeys.Key.Point

set_option relaxedAutoImplicit false
set_option autoImplicit false

namespace SshKeys

/-! ### RSA -/

/-- An RSA public key. -/
structure RsaPublicKey where
  /-- The public exponent. -/
  e : Mpint
  /-- The modulus. -/
  n : Mpint
  deriving DecidableEq

namespace RsaPublicKey

/-- The number of binary digits of the modulus. -/
def keySize (key : RsaPublicKey) : Nat := key.n.bits

/-- The exponent, then the modulus. -/
def encoding (key : RsaPublicKey) : Encoding :=
  .sequence [key.e.encoding, key.n.encoding]

/-- The exponent, then the modulus. -/
def decoder : Decoder RsaPublicKey := do
  let e ← Mpint.decoder
  let n ← Mpint.decoder
  pure ⟨e, n⟩

/-- The text of a key for diagnosis. -/
def diagnostic (key : RsaPublicKey) : String :=
  Diagnostic.record "RsaPublicKey" [("e", key.e.diagnostic), ("n", key.n.diagnostic)]

end RsaPublicKey

/-! ### DSA -/

/-- A DSA public key. -/
structure DsaPublicKey where
  /-- The prime modulus. -/
  p : Mpint
  /-- The order of the subgroup. -/
  q : Mpint
  /-- The generator of the subgroup. -/
  g : Mpint
  /-- The public component. -/
  y : Mpint
  deriving DecidableEq

namespace DsaPublicKey

/-- The domain parameters, then the public component. -/
def encoding (key : DsaPublicKey) : Encoding :=
  .sequence [key.p.encoding, key.q.encoding, key.g.encoding, key.y.encoding]

/-- The domain parameters, then the public component. -/
def decoder : Decoder DsaPublicKey := do
  let p ← Mpint.decoder
  let q ← Mpint.decoder
  let g ← Mpint.decoder
  let y ← Mpint.decoder
  pure ⟨p, q, g, y⟩

/-- The text of a key for diagnosis. -/
def diagnostic (key : DsaPublicKey) : String :=
  Diagnostic.record "DsaPublicKey" [("p", key.p.diagnostic), ("q", key.q.diagnostic),
    ("g", key.g.diagnostic), ("y", key.y.diagnostic)]

end DsaPublicKey

/-! ### ECDSA -/

/-- An ECDSA public key. -/
structure EcdsaPublicKey where
  curve : Curve
  point : Point
  deriving DecidableEq

namespace EcdsaPublicKey

/-- The key type on the curve of a key. -/
def algorithm (key : EcdsaPublicKey) : Algorithm := .ecdsa key.curve

/-- The key whose point is spelled by an octet string. -/
def ofOctets (curve : Curve) (octets : Bytes) : Except Error EcdsaPublicKey := do
  let point ← Point.ofOctets (some curve) octets
  pure ⟨curve, point⟩

/-- The octet string of the point. -/
def toOctets (key : EcdsaPublicKey) : Except Error Bytes :=
  key.point.toOctets key.curve

/-- The octet string of the point behind its length, which is known from the curve alone. -/
def pointEncoding (key : EcdsaPublicKey) : Encoding where
  announced := checkedSum [4, 1 + 2 * key.curve.fieldSize]
  emission :=
    match key.toOctets with
    | .ok octets => .string octets
    | .error error => .fail error

/-- The curve name, then the point. -/
def encoding (key : EcdsaPublicKey) : Encoding :=
  .sequence [.label key.curve, key.pointEncoding]

/-- The curve name, which has to be the one of the key type, then the point. -/
def decoder (curve : Curve) : Decoder EcdsaPublicKey := do
  let name ← Decoder.text
  if name = curve.name then
    let octets ← Decoder.string
    .ofExcept (ofOctets curve octets)
  else .fail (.curveMismatch curve.name name)

/-- The text of a key for diagnosis. -/
def diagnostic (key : EcdsaPublicKey) : String :=
  Diagnostic.record "EcdsaPublicKey"
    [("curve", key.curve.diagnostic), ("point", key.point.diagnostic)]

end EcdsaPublicKey

/-! ### Keys without a codec -/

/-- A public key of a type without a codec, kept as it came. -/
structure ForeignPublicKey where
  /-- The key type. -/
  name : AlgorithmName
  /-- What follows the key type. -/
  body : Bytes
  deriving DecidableEq

namespace ForeignPublicKey

/-- The key type, then the bytes that follow it. -/
def encoding (key : ForeignPublicKey) : Encoding :=
  .sequence [.label key.name, .fixed key.body]

/-- All bytes that are left. -/
def decoder (name : AlgorithmName) : Decoder ForeignPublicKey := do
  let body ← Decoder.rest
  pure ⟨name, body⟩

/-- The text of a key for diagnosis. -/
def diagnostic (key : ForeignPublicKey) : String :=
  Diagnostic.record "OpaquePublicKey" [("algorithm", key.name.diagnostic),
    ("key", Diagnostic.list (key.body.map fun b => toString b.toNat))]

end ForeignPublicKey

/-! ### Keys of any family -/

/-- A public key. -/
inductive PublicKey where
  | dsa (key : DsaPublicKey)
  | ecdsa (key : EcdsaPublicKey)
  | rsa (key : RsaPublicKey)
  | other (key : ForeignPublicKey)
  deriving DecidableEq

namespace PublicKey

/-- The key type of a key. -/
def algorithm : PublicKey → Algorithm
  | dsa _ => .dsa
  | ecdsa key => key.algorithm
  | rsa _ => .rsa
  | other key => .other key.name

/-- The fields of a key, without its type. -/
def fieldEncoding : PublicKey → Encoding
  | dsa key => key.encoding
  | ecdsa key => key.encoding
  | rsa key => key.encoding
  | other key => .fixed key.body

/-- The key type, then the fields. -/
def encoding (key : PublicKey) : Encoding :=
  .sequence [.label key.algorithm, key.fieldEncoding]

/-- The fields of a key of a given type. -/
def fieldDecoder : Algorithm → Decoder PublicKey
  | .dsa => .dsa <$> DsaPublicKey.decoder
  | .ecdsa curve => .ecdsa <$> EcdsaPublicKey.decoder curve
  | .rsa => .rsa <$> RsaPublicKey.decoder
  | .other name => .fail (.algorithmUnsupported name.text)

end PublicKey

/-- A key type that has a codec. -/
def Decoder.keyType : Decoder Algorithm := do
  let name ← Decoder.text
  match Algorithm.ofName? name with
  | some algorithm =>
    if algorithm.isBuiltin then pure algorithm else .fail (.algorithmUnsupported name)
  | none => .fail (.algorithmUnsupported name)

namespace PublicKey

/-- The key type, then the fields. -/
def decoder : Decoder PublicKey := do
  let algorithm ← Decoder.keyType
  fieldDecoder algorithm

/-- The key blob. -/
def toBytes (key : PublicKey) : Except Error Bytes := key.encoding.toBytes

/-- The key in a blob. -/
def ofBytes (bs : Bytes) : Except Error PublicKey := decoder.ofBytes bs

end PublicKey

end SshKeys
