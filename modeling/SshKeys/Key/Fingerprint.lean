/-
**Fingerprints of public keys.**

A fingerprint is the digest of a key blob.  Its text is the name of the hash function in upper
case, a colon, and the digest in Base64 without padding; only exactly this text is read back.

Main definitions:

* `SshKeys.HashAlgorithm.digest` — the digest of a message;
* `SshKeys.Fingerprint` — a hash function and a digest of its size;
* `SshKeys.Fingerprint.ofKey` — the fingerprint of a key;
* `SshKeys.Fingerprint.text`, `SshKeys.Fingerprint.ofText` — the text form.
-/

import SshKeys.Arithmetic.Sha2
import SshKeys.Text.Base64
import SshKeys.Text.Scan
import SshKeys.Key.PublicKey

set_option relaxedAutoImplicit false
set_option autoImplicit false

namespace SshKeys

namespace HashAlgorithm

/-! ### Digests -/

/-- The digest of a message. -/
def digest : HashAlgorithm → Bytes → Bytes
  | sha256 => SshKeys.sha256
  | sha512 => SshKeys.sha512

theorem length_digest (hash : HashAlgorithm) (message : Bytes) :
    (hash.digest message).length = hash.digestSize := by
  cases hash
  · exact length_sha256 message
  · exact length_sha512 message

/-- The digest of what an emission writes, if it is complete. -/
def digestOf (hash : HashAlgorithm) (e : Emission) : Except Error Bytes := do
  let message ← e.result
  pure (hash.digest message)

/-- The name of a hash function at the start of a fingerprint. -/
def fingerprintName : HashAlgorithm → String
  | sha256 => "SHA256"
  | sha512 => "SHA512"

/-- The hash function with a given name at the start of a fingerprint. -/
def ofFingerprintName? (text : String) : Option HashAlgorithm :=
  [sha256, sha512].find? fun hash => hash.fingerprintName == text

end HashAlgorithm

/-! ### Fingerprints -/

/-- The digest of a key blob. -/
structure Fingerprint where
  hash : HashAlgorithm
  digest : Bytes
  /-- The digest has the size that belongs to its hash function. -/
  length_digest : digest.length = hash.digestSize
  deriving DecidableEq

namespace Fingerprint

/-- The fingerprint with a given digest, if that has the right size. -/
def ofDigest (hash : HashAlgorithm) (digest : Bytes) : Except Error Fingerprint :=
  if h : digest.length = hash.digestSize then .ok ⟨hash, digest, h⟩
  else .error (.wire .length)

/-- The fingerprint of a message. -/
def ofMessage (hash : HashAlgorithm) (message : Bytes) : Fingerprint :=
  ⟨hash, hash.digest message, hash.length_digest message⟩

/-- The fingerprint of a public key. -/
def ofKey (hash : HashAlgorithm) (key : PublicKey) : Except Error Fingerprint := do
  let blob ← key.encoding.emission.result
  pure (ofMessage hash blob)

/-- Fingerprints are ordered by hash function and then by digest. -/
instance : Ord Fingerprint :=
  ⟨fun a b => (compare a.hash b.hash).then (compare a.digest b.digest)⟩

/-! ### Text -/

/-- The name of the hash function, a colon, and the digest in Base64 without padding. -/
def text (f : Fingerprint) : String :=
  f.hash.fingerprintName ++ ":" ++ String.ofList (Base64.encodeBare f.digest)

/-- The room for the symbols of a digest that is written as text. -/
def symbolCapacity : Nat := 86

/-- The text of a fingerprint, if the symbols of the digest fit into the room that there is for
them. -/
def written? (f : Fingerprint) : Option String :=
  if (Base64.encodeBare f.digest).length ≤ symbolCapacity then some f.text else none

/-- The room for a digest that is read from text. -/
def digestCapacity : Nat := 64

/-- The number of bytes that a bare Base64 text of a given length stands for. -/
def decodedLength (length : Nat) : Nat := 3 * (length / 4) + 3 * (length % 4) / 4

/-- The bytes of a bare Base64 text.  A text that stands for more bytes than there is room for is
refused before its symbols are looked at. -/
def digestOfText (text : String) : Except Error Bytes :=
  if digestCapacity < decodedLength text.utf8ByteSize then .error (.wire (.base64 .length))
  else
    match Base64.decodeBare? text.toList with
    | some bs => .ok bs
    | none => .error (.wire (.base64 .encoding))

/-- The fingerprint a text spells. -/
def ofText (text : String) : Except Error Fingerprint :=
  match cutAt? ':' text.toList with
  | none => .error (.badFormat .missingFingerprintAlgorithm text)
  | some (name, symbols) =>
    match HashAlgorithm.ofFingerprintName? (String.ofList name) with
    | none => .error (.algorithmUnsupported (String.ofList name))
    | some hash => do
      let digest ← digestOfText (String.ofList symbols)
      ofDigest hash digest

/-- The text of a fingerprint for diagnosis. -/
def diagnostic (f : Fingerprint) : String :=
  Diagnostic.variant f.hash.diagnostic (Diagnostic.list (f.digest.map fun b => toString b.toNat))

end Fingerprint

end SshKeys
