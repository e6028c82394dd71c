/-
**Base64.**

Three bytes become four symbols of six bits.  What is left at the end becomes two or three symbols
whose unused low bits are zero.  The padded form fills the last group up with `=`; the bare form
leaves it short.  Reading is strict: no blanks, no missing or misplaced padding, and no unused bit
that is set, so that every byte string has exactly one text.

Main definitions:

* `SshKeys.Base64.encode`, `SshKeys.Base64.decode?` — the padded form;
* `SshKeys.Base64.encodeBare`, `SshKeys.Base64.decodeBare?` — the form without padding.
-/

import SshKeys.Wire.Bytes

set_option relaxedAutoImplicit false
set_option autoImplicit false

namespace SshKeys.Base64

/-! ### Symbols -/

/-- The symbol of a six-bit number. -/
def symbol (n : Nat) : Char :=
  if n < 26 then Char.ofNat ('A'.toNat + n)
  else if n < 52 then Char.ofNat ('a'.toNat + (n - 26))
  else if n < 62 then Char.ofNat ('0'.toNat + (n - 52))
  else if n = 62 then '+'
  else '/'

/-- The six-bit number of a symbol. -/
def value? (c : Char) : Option Nat :=
  if 'A' ≤ c && c ≤ 'Z' then some (c.toNat - 'A'.toNat)
  else if 'a' ≤ c && c ≤ 'z' then some (c.toNat - 'a'.toNat + 26)
  else if '0' ≤ c && c ≤ '9' then some (c.toNat - '0'.toNat + 52)
  else if c = '+' then some 62
  else if c = '/' then some 63
  else none

/-! ### Groups -/

/-- The symbols of three bytes. -/
def group3 (a b c : UInt8) : List Char :=
  let n := 65536 * a.toNat + 256 * b.toNat + c.toNat
  [symbol (n / 262144), symbol (n / 4096 % 64), symbol (n / 64 % 64), symbol (n % 64)]

/-- The symbols of two bytes. -/
def group2 (a b : UInt8) : List Char :=
  let n := 256 * a.toNat + b.toNat
  [symbol (n / 1024), symbol (n / 16 % 64), symbol (4 * (n % 16))]

/-- The symbols of one byte. -/
def group1 (a : UInt8) : List Char :=
  [symbol (a.toNat / 4), symbol (16 * (a.toNat % 4))]

/-- The three bytes of four symbols. -/
def ungroup3? (a b c d : Char) : Option Bytes := do
  let n := 262144 * (← value? a) + 4096 * (← value? b) + 64 * (← value? c) + (← value? d)
  some [UInt8.ofNat (n / 65536), UInt8.ofNat (n / 256 % 256), UInt8.ofNat (n % 256)]

/-- The two bytes of three symbols; the two unused bits have to be zero. -/
def ungroup2? (a b c : Char) : Option Bytes := do
  let n := 4096 * (← value? a) + 64 * (← value? b) + (← value? c)
  if n % 4 = 0 then some [UInt8.ofNat (n / 1024), UInt8.ofNat (n / 4 % 256)] else none

/-- The byte of two symbols; the four unused bits have to be zero. -/
def ungroup1? (a b : Char) : Option Bytes := do
  let n := 64 * (← value? a) + (← value? b)
  if n % 16 = 0 then some [UInt8.ofNat (n / 16)] else none

/-! ### The padded form -/

/-- The padded text of a byte string. -/
def encode : Bytes → List Char
  | [] => []
  | [a] => group1 a ++ ['=', '=']
  | [a, b] => group2 a b ++ ['=']
  | a :: b :: c :: rest => group3 a b c ++ encode rest

/-- The bytes of a padded text. -/
def decode? : List Char → Option Bytes
  | [] => some []
  | [a, b, '=', '='] => ungroup1? a b
  | [a, b, c, '='] => ungroup2? a b c
  | a :: b :: c :: d :: rest => do
    let group ← ungroup3? a b c d
    let bs ← decode? rest
    some (group ++ bs)
  | _ => none

/-! ### The bare form -/

/-- The text of a byte string without padding. -/
def encodeBare : Bytes → List Char
  | [] => []
  | [a] => group1 a
  | [a, b] => group2 a b
  | a :: b :: c :: rest => group3 a b c ++ encodeBare rest

/-- The bytes of a text without padding. -/
def decodeBare? : List Char → Option Bytes
  | [] => some []
  | [a, b] => ungroup1? a b
  | [a, b, c] => ungroup2? a b c
  | a :: b :: c :: d :: rest => do
    let group ← ungroup3? a b c d
    let bs ← decodeBare? rest
    some (group ++ bs)
  | _ => none

end SshKeys.Base64
