/-
**Multiple-precision integers.**

A non-negative integer is stored as its magnitude without leading zero bytes, so that equal
numbers are equal values.  On the wire it is a byte string in two's complement: a magnitude whose
first bit is set gets a zero byte in front, and zero is the empty string.  Reading is lenient: any
byte string is taken as an unsigned number.

Main definitions:

* `SshKeys.Mpint` — a magnitude without leading zero bytes;
* `SshKeys.Mpint.ofMagnitude`, `SshKeys.Mpint.ofSigned` — from unsigned and from signed bytes;
* `SshKeys.Mpint.ofNat`, `SshKeys.Mpint.toNat` — from and to numbers;
* `SshKeys.Mpint.padded` — the number in a fixed number of bytes;
* `SshKeys.Mpint.encoding`, `SshKeys.Mpint.decoder` — the wire form.

Main results:

* `SshKeys.Mpint.toNat_ofMagnitude`, `SshKeys.Mpint.toNat_ofNat` — leading zero bytes do not
  matter, and a number is the number of its representation.
-/

import SshKeys.Wire.Encoding

set_option relaxedAutoImplicit false
set_option autoImplicit false

namespace SshKeys

/-- A non-negative integer, as its big-endian magnitude. -/
structure Mpint where
  /-- The bytes of the number, most significant first. -/
  magnitude : Bytes
  /-- The first byte is not zero. -/
  minimal : magnitude.head? ≠ some 0
  deriving DecidableEq

namespace Mpint

/-- A byte string without its leading zero bytes. -/
def stripZeros (bs : Bytes) : Bytes :=
  bs.dropWhile (· == 0)

theorem head?_stripZeros (bs : Bytes) : (stripZeros bs).head? ≠ some 0 := by
  induction bs with
  | nil => simp [stripZeros]
  | cons b bs ih =>
    by_cases h : b = 0
    · simpa [stripZeros, h] using ih
    · simp [stripZeros, h]

theorem natOfBytes_stripZeros (bs : Bytes) : natOfBytes (stripZeros bs) = natOfBytes bs := by
  induction bs with
  | nil => rfl
  | cons b bs ih =>
    by_cases h : b = 0
    · rw [natOfBytes_cons]
      simpa [stripZeros, h] using ih
    · simp [stripZeros, h]

/-! ### Construction and views -/

/-- The unsigned number a byte string spells. -/
def ofMagnitude (bs : Bytes) : Mpint :=
  ⟨stripZeros bs, head?_stripZeros bs⟩

/-- The number a byte string spells in two's complement, which must not be negative. -/
def ofSigned (bs : Bytes) : Except Error Mpint :=
  match bs with
  | b :: _ => if 0x80 ≤ b then .error (.wire .negativeMpint) else .ok (ofMagnitude bs)
  | [] => .ok (ofMagnitude bs)

/-- The representation of a number. -/
def ofNat (n : Nat) : Mpint :=
  ofMagnitude (shortestBytes n)

/-- The representation of a word. -/
def ofUInt32 (n : UInt32) : Mpint :=
  ofMagnitude (bigEndian 4 n.toNat)

/-- The represented number. -/
def toNat (m : Mpint) : Nat :=
  natOfBytes m.magnitude

@[simp] theorem toNat_ofMagnitude (bs : Bytes) : (ofMagnitude bs).toNat = natOfBytes bs :=
  natOfBytes_stripZeros bs

@[simp] theorem toNat_ofNat (n : Nat) : (ofNat n).toNat = n := by
  rw [ofNat, toNat_ofMagnitude, natOfBytes_shortestBytes]

/-- Zero is the empty magnitude. -/
instance : Inhabited Mpint := ⟨⟨[], by simp⟩⟩

/-- Whether the number is zero. -/
def isZero (m : Mpint) : Bool := m.magnitude.isEmpty

/-- The number of binary digits. -/
def bits (m : Mpint) : Nat :=
  match m.magnitude with
  | [] => 0
  | first :: rest => 8 * rest.length + bitLength first.toNat

/-- The number in exactly `width` bytes. -/
def padded (m : Mpint) (width : Nat) : Except Error Bytes :=
  if m.magnitude.length ≤ width then
    .ok (List.replicate (width - m.magnitude.length) 0 ++ m.magnitude)
  else .error (.wire .length)

/-! ### The wire form -/

/-- Whether a zero byte has to stand in front for the number not to look negative. -/
def needsPad (m : Mpint) : Bool :=
  match m.magnitude with
  | first :: _ => 0x80 ≤ first
  | [] => false

/-- The shortest two's-complement form behind its length. -/
def encoding (m : Mpint) : Encoding :=
  if m.needsPad then
    ⟨checkedSum [4, 1, m.magnitude.length],
      .length (1 + m.magnitude.length) ++ .write [0] ++ .write m.magnitude⟩
  else
    ⟨checkedSum [4, 0, m.magnitude.length], .string m.magnitude⟩

/-- Any byte string, read as an unsigned number. -/
def decoder : Decoder Mpint := do
  let bs ← Decoder.string
  pure (ofMagnitude bs)

/-! ### Text -/

/-- The hexadecimal text of a number: two lower-case digits for each byte. -/
def lowerText (m : Mpint) : String :=
  if m.isZero then "0" else hexLower m.magnitude

/-- The hexadecimal text of a number: two upper-case digits for each byte. -/
def upperText (m : Mpint) : String :=
  if m.isZero then "0" else hexUpper m.magnitude

/-- The text of a number for diagnosis. -/
def diagnostic (m : Mpint) : String :=
  Diagnostic.variant "Mpint" m.upperText

end Mpint

end SshKeys
