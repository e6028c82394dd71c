/-
**Fields: values with a wire form of their own.**

Every wire format is a sequence of fields.  A field knows its kind, and a kind knows how its
fields are read, so that a list of kinds describes a format.

Main definitions:

* `SshKeys.FieldKind` — the kinds of fields;
* `SshKeys.Field` — a field of any kind;
* `SshKeys.Field.encoding`, `SshKeys.FieldKind.decoder` — the wire form;
* `SshKeys.FieldKind.decodeAll`, `SshKeys.Field.encodeAll` — sequences of fields.
-/

import SshKeys.Wire.Mpint

set_option relaxedAutoImplicit false
set_option autoImplicit false

namespace SshKeys

/-- The kinds of fields. -/
inductive FieldKind where
  | boolean
  | byte
  | uint16
  | uint32
  | uint64
  /-- A fixed number of bytes. -/
  | array (size : Nat)
  /-- A byte string behind its length. -/
  | string
  /-- A text behind its length. -/
  | text
  | mpint
  | algorithm
  | curve
  | hash
  deriving DecidableEq

/-- A field with its value. -/
inductive Field where
  | boolean (value : Bool)
  | byte (value : UInt8)
  | uint16 (value : UInt16)
  | uint32 (value : UInt32)
  | uint64 (value : UInt64)
  | array (value : Bytes)
  | string (value : Bytes)
  | text (value : String)
  | mpint (value : Mpint)
  | algorithm (value : Algorithm)
  | curve (value : Curve)
  | hash (value : HashAlgorithm)
  deriving DecidableEq

namespace Field

/-- The kind of a field. -/
def kind : Field → FieldKind
  | boolean _ => .boolean
  | byte _ => .byte
  | uint16 _ => .uint16
  | uint32 _ => .uint32
  | uint64 _ => .uint64
  | array value => .array value.length
  | string _ => .string
  | text _ => .text
  | mpint _ => .mpint
  | algorithm _ => .algorithm
  | curve _ => .curve
  | hash _ => .hash

/-- How a field is written. -/
def encoding : Field → Encoding
  | boolean value => .boolean value
  | byte value => .number 1 value.toNat
  | uint16 value => .number 2 value.toNat
  | uint32 value => .number 4 value.toNat
  | uint64 value => .number 8 value.toNat
  | array value => .fixed value
  | string value => .string value
  | text value => .text value
  | mpint value => value.encoding
  | algorithm value => .label value
  | curve value => .label value
  | hash value => .label value

/-- How a sequence of fields is written. -/
def encodeAll (fields : List Field) : Encoding :=
  .sequence (fields.map encoding)

end Field

namespace FieldKind

/-- How a field of a given kind is read. -/
def decoder : FieldKind → Decoder Field
  | boolean => .boolean <$> Decoder.boolean
  | byte => .byte <$> Decoder.byte
  | uint16 => .uint16 <$> Decoder.uint16
  | uint32 => .uint32 <$> Decoder.uint32
  | uint64 => .uint64 <$> Decoder.uint64
  | array size => .array <$> Decoder.bytes size
  | string => .string <$> Decoder.string
  | text => .text <$> Decoder.text
  | mpint => .mpint <$> Mpint.decoder
  | algorithm => .algorithm <$> Decoder.label
  | curve => .curve <$> Decoder.label
  | hash => .hash <$> Decoder.label

/-- How a sequence of fields of given kinds is read. -/
def decodeAll : List FieldKind → Decoder (List Field)
  | [] => pure []
  | kind :: kinds => do
    let field ← kind.decoder
    let fields ← decodeAll kinds
    pure (field :: fields)

end FieldKind

end SshKeys
