/-
**Encodings as lists of writes.**

To write a value is to make a number of writes, one after another, and perhaps to stop at an
error.  An *emission* records the writes and the error, so that what has reached a writer before a
failure is part of its meaning.  An *encoding* is an emission together with the length that is
announced for it beforehand; the announced length is computed without writing anything.

Main definitions:

* `SshKeys.Emission` — writes in order, and the error that stopped them;
* `SshKeys.Encoding` — an emission and its announced length;
* `SshKeys.checkedSum` — a sum of lengths, which have to fit in 64 bits;
* `SshKeys.Encoding.framed` — an encoding behind its announced length.

Main results:

* `SshKeys.Emission.result_append` — what two emissions in a row write.
-/

import SshKeys.Wire.Decoder

set_option relaxedAutoImplicit false
set_option autoImplicit false

namespace SshKeys

/-! ### Emissions -/

/-- The writes that a value makes, in order, and the error that stopped them, if one did. -/
structure Emission where
  /-- What is written, one write after another. -/
  writes : List Bytes
  /-- Why nothing more is written. -/
  stop : Option Error

namespace Emission

/-- A single write. -/
def write (bs : Bytes) : Emission := ⟨[bs], none⟩

/-- An error before anything is written. -/
def fail (error : Error) : Emission := ⟨[], some error⟩

/-- Nothing at all. -/
def empty : Emission := ⟨[], none⟩

/-- One emission after another; an error in the first one stops both. -/
def append (a b : Emission) : Emission :=
  match a.stop with
  | none => ⟨a.writes ++ b.writes, b.stop⟩
  | some _ => a

instance : Append Emission := ⟨append⟩

/-- The bytes that are written. -/
def bytes (e : Emission) : Bytes := e.writes.flatten

/-- The bytes of a complete emission, or the error that stopped it. -/
def result (e : Emission) : Except Error Bytes :=
  match e.stop with
  | none => .ok e.bytes
  | some error => .error error

@[simp] theorem result_write (bs : Bytes) : (write bs).result = .ok bs := by
  simp [write, result, bytes]

@[simp] theorem result_fail (error : Error) : (fail error).result = .error error := rfl

@[simp] theorem result_empty : empty.result = .ok [] := rfl

/-- Two emissions in a row write the bytes of the one and then those of the other. -/
@[simp] theorem result_append (a b : Emission) :
    (a ++ b).result = a.result >>= fun front => (front ++ ·) <$> b.result := by
  change (append a b).result = _
  cases ha : a.stop with
  | none =>
    cases hb : b.stop with
    | none =>
      simp [append, result, bytes, ha, hb, bind, Except.bind, Functor.map, Except.map]
    | some error => simp [append, result, ha, hb, bind, Except.bind, Functor.map, Except.map]
  | some error => simp [append, result, ha, bind, Except.bind]

/-- A length prefix; a length that would read back as negative is refused. -/
def length (count : Nat) : Emission :=
  if count ≤ maxLength then write (bigEndian 4 count) else fail (.wire .overflow)

/-- A byte string behind its length. -/
def string (bs : Bytes) : Emission := length bs.length ++ write bs

end Emission

/-! ### Sums of lengths -/

/-- The sum of two lengths, if it fits in 64 bits. -/
def addLength (total count : Nat) : Except Error Nat :=
  if total + count < 2 ^ 64 then .ok (total + count) else .error (.wire .length)

/-- The sum of lengths, which fails at the first partial sum that does not fit in 64 bits. -/
def checkedSum (lengths : List Nat) : Except Error Nat :=
  lengths.foldlM addLength 0

/-! ### Encodings -/

/-- How a value is written: the length announced for it, and what it writes. -/
structure Encoding where
  /-- The announced length. -/
  announced : Except Error Nat
  /-- The writes. -/
  emission : Emission

namespace Encoding

/-- A fixed number of bytes without a length. -/
def fixed (bs : Bytes) : Encoding := ⟨.ok bs.length, .write bs⟩

/-- A byte string behind its length. -/
def string (bs : Bytes) : Encoding := ⟨checkedSum [4, bs.length], .string bs⟩

/-- A text behind its length. -/
def text (s : String) : Encoding := string (utf8Bytes s)

/-- A value that is written as its name. -/
def label {α : Type} [Label α] (a : α) : Encoding := text (Label.name a)

/-- A number of `width` bytes. -/
def number (width n : Nat) : Encoding := fixed (bigEndian width n)

/-- A truth value as the byte one or zero. -/
def boolean (b : Bool) : Encoding := fixed [if b then 1 else 0]

/-- Nothing at all. -/
def empty : Encoding := ⟨.ok 0, .empty⟩

/-- Encodings one after another; their announced lengths are added up before anything is
written. -/
def sequence (parts : List Encoding) : Encoding where
  announced := do
    let lengths ← parts.mapM Encoding.announced
    checkedSum lengths
  emission := (parts.map Encoding.emission).foldr Emission.append .empty

/-- The announced length of an encoding together with its own length prefix. -/
def announcedFramed (e : Encoding) : Except Error Nat := do
  let count ← e.announced
  checkedSum [4, count]

/-- An encoding behind its announced length. -/
def framed (e : Encoding) : Encoding where
  announced := e.announcedFramed
  emission :=
    match e.announced with
    | .ok count => .length count ++ e.emission
    | .error error => .fail error

/-- The bytes of a value, once its length has been announced. -/
def toBytes (e : Encoding) : Except Error Bytes := do
  let _ ← e.announced
  e.emission.result

end Encoding

end SshKeys
