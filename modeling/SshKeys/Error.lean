/-
**What can go wrong, and how it is said.**

An error is a cause with the facts a reader needs.  Causes that lie in the wire format are a type
of their own, because every kind of value can meet them.

Main definitions:

* `SshKeys.WireError` — the causes that lie in the form of encoded data;
* `SshKeys.FormatFault` — what is wrong with a line of text;
* `SshKeys.Error` — all causes;
* `SshKeys.Error.message` — the wording of every cause.
-/

import SshKeys.Wire.Bytes
import SshKeys.Key.Algorithm

set_option relaxedAutoImplicit false
set_option autoImplicit false

namespace SshKeys

/-! ### Causes in encoded data -/

/-- Why a text is not Base64 of the expected size. -/
inductive Base64Fault where
  | encoding
  | length
  deriving DecidableEq

/-- A cause that lies in the form of encoded data. -/
inductive WireError where
  /-- A text is not Base64. -/
  | base64 (fault : Base64Fault)
  /-- A text is not UTF-8. -/
  | characterEncoding
  /-- A text is no name of the expected kind. -/
  | label (text : String)
  /-- A length is outside of its bounds. -/
  | length
  /-- A length prefix has its sign bit set. -/
  | malformedLength (declared : UInt32)
  /-- A number that may not be negative is. -/
  | negativeMpint
  /-- A length does not fit its prefix. -/
  | overflow
  /-- A value ended before its data did. -/
  | trailingData (remaining : Nat)
  /-- Data ended before the value did. -/
  | underflow (requested available : Nat)
  deriving DecidableEq

/-- The wording of a fault in Base64 text. -/
def Base64Fault.message : Base64Fault → String
  | encoding => "invalid Base64 encoding"
  | length => "invalid Base64 length"

namespace WireError

/-- The wording of a cause in encoded data.  A length prefix is shown as the signed number it
would be. -/
def message : WireError → String
  | base64 fault => "invalid Base64: " ++ fault.message
  | characterEncoding => "invalid UTF-8 string"
  | label text => "invalid label: '" ++ text ++ "'"
  | length => "invalid length"
  | malformedLength declared => s!"bad item length: {declared.toBitVec.toInt}"
  | negativeMpint => "negative mpint"
  | overflow => "length overflow"
  | trailingData remaining => s!"{remaining} bytes of trailing data"
  | underflow requested available =>
    s!"buffer underflow: {requested} bytes requested, {available} available"

/-- The wordings of the causes behind a cause. -/
def sources : WireError → List String
  | base64 fault => [fault.message]
  | error@(label _) => [error.message]
  | _ => []

end WireError

/-! ### Causes in text -/

/-- What is wrong with a line of text. -/
inductive FormatFault where
  | noDelimiter
  | invalidBase64
  | noBase64
  | emptyEntry
  | missingKeyType
  | missingKeyData
  | noKeyAfterOptions
  | unrecognizedKeyType
  | missingFingerprintAlgorithm
  /-- A fault that a decoder from outside describes in its own words. -/
  | described (reason : String)
  deriving DecidableEq

/-- The wording of a fault in a line. -/
def FormatFault.reason : FormatFault → String
  | noDelimiter => "no key data delimiter"
  | invalidBase64 => "invalid Base64 key data"
  | noBase64 => "no Base64 key data"
  | emptyEntry => "empty entry"
  | missingKeyType => "missing key type"
  | missingKeyData => "missing key data"
  | noKeyAfterOptions => "no key data after login options"
  | unrecognizedKeyType => "unrecognized key type"
  | missingFingerprintAlgorithm => "missing fingerprint algorithm"
  | described reason => reason

/-- Why a file could not be read. -/
inductive FileFault where
  | notFound
  | invalidData
  deriving DecidableEq

/-- The wording of a fault of a file. -/
def FileFault.message : FileFault → String
  | notFound => "entity not found"
  | invalidData => "invalid data"

/-! ### All causes -/

/-- Why an operation failed. -/
inductive Error where
  | algorithmUnsupported (name : String)
  | badFormat (fault : FormatFault) (line : String)
  | compressionUnsupported (indicator : UInt8)
  | curveMismatch (expected actual : String)
  | duplicateOption (name : String)
  | duplicateRegistration (name : String)
  | wire (cause : WireError)
  | invalidPoint
  | file (fault : FileFault)
  | materialRejected (algorithm : Algorithm) (reason : String)
  | keyTypeMismatch (expected actual : String)
  | keyTypeUnsupported (keyType : String)
  | malformedPoint (length : Nat)
  deriving DecidableEq

namespace Error

/-- The wording of every cause. -/
def message : Error → String
  | algorithmUnsupported name => "unsupported algorithm: " ++ name
  | badFormat fault line => "bad format (" ++ fault.reason ++ "): " ++ line
  | compressionUnsupported indicator =>
    "unsupported EC point compression indicator: 0x" ++ hexLower [indicator]
  | curveMismatch expected actual =>
    "mismatched key curve name (" ++ expected ++ ") vs. encoded one (" ++ actual ++ ")"
  | duplicateOption name => "duplicate login option: " ++ name
  | duplicateRegistration name => "key type already registered: " ++ name
  | wire cause => cause.message
  | invalidPoint => "invalid EC point: empty or all zeroes"
  | file fault => "I/O error: " ++ fault.message
  | materialRejected algorithm reason =>
    algorithm.name ++ " key material rejected: " ++ reason
  | keyTypeMismatch expected actual =>
    "key type mismatch: expected " ++ expected ++ ", found " ++ actual
  | keyTypeUnsupported keyType => "unsupported key type: " ++ keyType
  | malformedPoint length => s!"malformed EC point: odd coordinate length {length}"

/-- The wordings of the causes behind an error, the nearest one first. -/
def sources : Error → List String
  | wire cause => cause.message :: cause.sources
  | _ => []

end Error

/-- The value a name belongs to, or the error that it belongs to none. -/
def Label.parse {α : Type} [Label α] (text : String) : Except Error α :=
  match Label.ofName? text with
  | some a => .ok a
  | none => .error (.wire (.label text))

/-! ### Computations that can fail -/

variable {ε α β : Type}

theorem pure_eq_ok_iff {a b : α} : (pure a : Except ε α) = .ok b ↔ a = b := by
  simp [pure, Except.pure]

/-- A check is passed if its condition for failing does not hold. -/
theorem check_eq_ok_iff {c : Prop} [Decidable c] {error : ε} {x : Except ε α} {a : α} :
    (if c then .error error else x) = .ok a ↔ ¬c ∧ x = .ok a := by
  split <;> simp_all

theorem throw_eq_error (error : ε) : (throw error : Except ε α) = .error error := rfl

theorem error_bind (error : ε) (f : α → Except ε β) :
    (.error error : Except ε α) >>= f = .error error := rfl

theorem ok_bind (a : α) (f : α → Except ε β) : (.ok a : Except ε α) >>= f = f a := rfl

/-- A sequence succeeds if its first part does, and its second part does with the result. -/
theorem bind_eq_ok_iff {x : Except ε α} {f : α → Except ε β} {b : β} :
    x >>= f = .ok b ↔ ∃ a, x = .ok a ∧ f a = .ok b := by
  cases x with
  | error error => simp [bind, Except.bind]
  | ok a => simp [bind, Except.bind]

theorem map_eq_ok_iff {x : Except ε α} {f : α → β} {b : β} :
    f <$> x = .ok b ↔ ∃ a, x = .ok a ∧ f a = b := by
  cases x with
  | error error => simp [Functor.map, Except.map]
  | ok a => simp [Functor.map, Except.map]

end SshKeys
