/-
**Key types, curves and hash functions, and their names.**

An algorithm is one of the key types with a codec of its own, or a name that only an extension
understands.  A name has from one to 64 printable ASCII characters, none of them a comma, because
names travel in comma-separated lists.

Main definitions:

* `SshKeys.Curve`, `SshKeys.HashAlgorithm` — the supported curves and hash functions;
* `SshKeys.AlgorithmName` — a well-formed name;
* `SshKeys.Algorithm` — what a key-type name stands for;
* `SshKeys.Label` — the kinds of value that are written as their name.
-/

import SshKeys.Text.Ascii
import SshKeys.Text.Diagnostic

set_option relaxedAutoImplicit false
set_option autoImplicit false

namespace SshKeys

/-! ### Labels -/

/-- A kind of value that is written as a name and found again by it. -/
class Label (α : Type) where
  /-- The name of a value. -/
  name : α → String
  /-- The value a name belongs to. -/
  ofName? : String → Option α

/-! ### Curves -/

/-- The elliptic curves that keys may use. -/
inductive Curve where
  | nistP256
  | nistP384
  | nistP521
  deriving DecidableEq, Ord

namespace Curve

/-- Every curve, in order of size. -/
def all : List Curve := [nistP256, nistP384, nistP521]

/-- The name of a curve inside a key. -/
def name : Curve → String
  | nistP256 => "nistp256"
  | nistP384 => "nistp384"
  | nistP521 => "nistp521"

/-- The key type of the keys on a curve. -/
def keyType : Curve → String
  | nistP256 => "ecdsa-sha2-nistp256"
  | nistP384 => "ecdsa-sha2-nistp384"
  | nistP521 => "ecdsa-sha2-nistp521"

/-- The number of bytes of a coordinate. -/
def fieldSize : Curve → Nat
  | nistP256 => 32
  | nistP384 => 48
  | nistP521 => 66

/-- The curve with a given name. -/
def ofName? (text : String) : Option Curve :=
  all.find? fun curve => curve.name == text

/-- The text of a curve for diagnosis. -/
def diagnostic : Curve → String
  | nistP256 => "NistP256"
  | nistP384 => "NistP384"
  | nistP521 => "NistP521"

instance : Label Curve := ⟨name, ofName?⟩

end Curve

/-! ### Hash functions -/

/-- The hash functions of fingerprints. -/
inductive HashAlgorithm where
  | sha256
  | sha512
  deriving DecidableEq, Ord

namespace HashAlgorithm

/-- The hash function that is used when none is asked for. -/
instance : Inhabited HashAlgorithm := ⟨sha256⟩

/-- The name of a hash function. -/
def name : HashAlgorithm → String
  | sha256 => "sha256"
  | sha512 => "sha512"

/-- The number of bytes of a digest. -/
def digestSize : HashAlgorithm → Nat
  | sha256 => 32
  | sha512 => 64

/-- The hash function with a given name. -/
def ofName? (text : String) : Option HashAlgorithm :=
  [sha256, sha512].find? fun hash => hash.name == text

/-- The text of a hash function for diagnosis. -/
def diagnostic : HashAlgorithm → String
  | sha256 => "Sha256"
  | sha512 => "Sha512"

instance : Label HashAlgorithm := ⟨name, ofName?⟩

end HashAlgorithm

/-! ### Algorithm names -/

/-- Whether a text is a well-formed algorithm name. -/
def isAlgorithmName (text : String) : Bool :=
  let cs := text.toList
  1 ≤ cs.length && cs.length ≤ 64 && cs.all fun c => isGraphic c && c != ','

/-- A well-formed algorithm name. -/
structure AlgorithmName where
  /-- The name itself. -/
  text : String
  /-- The name is well formed. -/
  wellFormed : isAlgorithmName text = true
  deriving DecidableEq

namespace AlgorithmName

/-- The name a text spells, if it spells one. -/
def ofText? (text : String) : Option AlgorithmName :=
  if h : isAlgorithmName text = true then some ⟨text, h⟩ else none

/-- Names are ordered as texts. -/
instance : Ord AlgorithmName := ⟨fun a b => compare a.text b.text⟩

instance : Label AlgorithmName := ⟨text, ofText?⟩

/-- The text of a name for diagnosis. -/
def diagnostic (name : AlgorithmName) : String :=
  Diagnostic.record "AlgorithmName" [("id", Diagnostic.quoted name.text)]

end AlgorithmName

/-! ### Algorithms -/

/-- What a key-type name stands for. -/
inductive Algorithm where
  | dsa
  | ecdsa (curve : Curve)
  | rsa
  | other (name : AlgorithmName)
  deriving DecidableEq, Ord

namespace Algorithm

/-- The algorithms with a codec of their own. -/
def builtins : List Algorithm :=
  dsa :: Curve.all.map ecdsa ++ [rsa]

/-- The key-type name of an algorithm. -/
def name : Algorithm → String
  | dsa => "ssh-dss"
  | ecdsa curve => curve.keyType
  | rsa => "ssh-rsa"
  | other name => name.text

/-- The algorithm with a given name: a built-in one, or else any well-formed name. -/
def ofName? (text : String) : Option Algorithm :=
  match builtins.find? fun algorithm => algorithm.name == text with
  | some algorithm => some algorithm
  | none => (AlgorithmName.ofText? text).map other

/-- Whether the algorithm has a codec of its own. -/
def isBuiltin : Algorithm → Bool
  | other _ => false
  | _ => true

/-- Whether the algorithm is DSA. -/
def isDsa : Algorithm → Bool
  | dsa => true
  | _ => false

/-- Whether the algorithm is ECDSA on some curve. -/
def isEcdsa : Algorithm → Bool
  | ecdsa _ => true
  | _ => false

/-- Whether the algorithm is RSA. -/
def isRsa : Algorithm → Bool
  | rsa => true
  | _ => false

/-- The text of an algorithm for diagnosis. -/
def diagnostic : Algorithm → String
  | dsa => "Dsa"
  | ecdsa curve => Diagnostic.record "Ecdsa" [("curve", curve.diagnostic)]
  | rsa => "Rsa"
  | other name => Diagnostic.variant "Other" name.diagnostic

instance : Label Algorithm := ⟨name, ofName?⟩

end Algorithm

end SshKeys
