/-
**Curve points as octet strings.**

A point is a pair of coordinates.  Its octet string starts with an indicator: 04 stands in front of
both coordinates, 02 and 03 in front of the first one alone, with the parity of the second.  The
written form is always 04 with both coordinates at full width.  Reading is lenient: zero bytes in
front of the indicator are skipped, and the two coordinates may be any two halves of equal length.

Main definitions:

* `SshKeys.PointForm` — the three indicators;
* `SshKeys.Point` — a pair of coordinates;
* `SshKeys.Point.ofOctets`, `SshKeys.Point.toOctets` — reading and writing octet strings.
-/

import SshKeys.Wire.Mpint
import SshKeys.Arithmetic.CurveGroup

set_option relaxedAutoImplicit false
set_option autoImplicit false

namespace SshKeys

/-! ### Indicators -/

/-- How the coordinates stand in an octet string. -/
inductive PointForm where
  | compressedEven
  | compressedOdd
  | uncompressed
  deriving DecidableEq

namespace PointForm

/-- The byte that announces a form. -/
def indicator : PointForm → UInt8
  | compressedEven => 0x02
  | compressedOdd => 0x03
  | uncompressed => 0x04

/-- The form a byte announces. -/
def ofIndicator? (b : UInt8) : Option PointForm :=
  [compressedEven, compressedOdd, uncompressed].find? fun form => form.indicator == b

/-- Whether the second coordinate is left out. -/
def isCompressed : PointForm → Bool
  | uncompressed => false
  | _ => true

/-- The text of a form for diagnosis. -/
def diagnostic : PointForm → String
  | compressedEven => "CompressedEvenY"
  | compressedOdd => "CompressedOddY"
  | uncompressed => "Uncompressed"

end PointForm

/-! ### Points -/

/-- A pair of coordinates, on a curve or not. -/
structure Point where
  x : Mpint
  y : Mpint
  deriving DecidableEq

namespace Point

/-- Both coordinates, as two halves of equal length. -/
def ofHalves (curve? : Option Curve) (coordinates : Bytes) : Except Error Point :=
  let tooLong := match curve? with
    | some curve => 2 * curve.fieldSize < coordinates.length
    | none => false
  if coordinates.length % 2 ≠ 0 || tooLong then .error (.malformedPoint coordinates.length)
  else
    let half := coordinates.length / 2
    .ok ⟨.ofMagnitude (coordinates.take half), .ofMagnitude (coordinates.drop half)⟩

/-- The point of a curve over a first coordinate, with a second coordinate of the asked parity. -/
def decompress (curve : Curve) (odd : Bool) (xBytes : Bytes) : Except Error Point :=
  let x := Mpint.ofMagnitude xBytes
  match curve.recoverY? x.toNat odd with
  | some y => .ok ⟨x, .ofNat y⟩
  | none => .error .invalidPoint

/-- The point an octet string spells.  The compressed forms need a curve. -/
def ofOctets (curve? : Option Curve) (octets : Bytes) : Except Error Point :=
  match Mpint.stripZeros octets with
  | [] => .error .invalidPoint
  | indicator :: coordinates =>
    match PointForm.ofIndicator? indicator, curve? with
    | some .uncompressed, _ => ofHalves curve? coordinates
    | some .compressedEven, some curve => decompress curve false coordinates
    | some .compressedOdd, some curve => decompress curve true coordinates
    | _, _ => .error (.compressionUnsupported indicator)

/-- The octet string of a point: both coordinates at full width. -/
def toOctets (point : Point) (curve : Curve) : Except Error Bytes := do
  let x ← point.x.padded curve.fieldSize
  let y ← point.y.padded curve.fieldSize
  pure (PointForm.uncompressed.indicator :: (x ++ y))

/-- The text of a point for diagnosis. -/
def diagnostic (point : Point) : String :=
  Diagnostic.record "EcPoint" [("x", point.x.diagnostic), ("y", point.y.diagnostic)]

end Point

end SshKeys
