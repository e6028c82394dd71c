/-
**Uncompressed points and their grammar.**

The octets of an uncompressed point are any number of zero bytes, the indicator 04 and two
coordinates of equal width.  A curve limits the width to that of its field, and nothing else does.
What fails to be of this form behind the indicator is refused for the length of its coordinates.
The form that is written is one of the forms that are read, with a curve and without one, so a point
comes back whenever it can be written at all.

Main definitions:

* `SshKeys.Point.Uncompressed` — the uncompressed forms of a point.

Main results:

* `SshKeys.Point.ofOctets_eq_ok_iff_uncompressed` — which octets behind the indicator are a point;
* `SshKeys.Point.within_iff`, `SshKeys.Point.toOctets_eq_ok_iff` — which points can be written;
* `SshKeys.Point.uncompressed_forms` — **uncompressed points are read by exactly their grammar, and
  what is written is read back**.
-/

import SshKeys.Proofs.PointForms

set_option relaxedAutoImplicit false
set_option autoImplicit false

namespace SshKeys

namespace Point

variable {point : Point} {curve : Curve} {curve? : Option Curve}

/-! ### The grammar -/

/-- The uncompressed forms of a point: zero bytes, the indicator 04, and two halves of equal length
that spell the coordinates.  If a curve is given, each half has room in its field. -/
inductive Uncompressed (curve? : Option Curve) (point : Point) : Bytes → Prop
  | octets (zeros : Nat) (x y : Bytes) (equal : x.length = y.length)
      (room : ∀ curve ∈ curve?, x.length ≤ curve.fieldSize)
      (first : point.x.toNat = natOfBytes x) (second : point.y.toNat = natOfBytes y) :
      Uncompressed curve? point (List.replicate zeros 0 ++ 0x04 :: (x ++ y))

theorem ofOctets_zeros_uncompressed (curve? : Option Curve) (zeros : Nat) (coordinates : Bytes) :
    ofOctets curve? (List.replicate zeros 0 ++ 0x04 :: coordinates) =
      ofHalves curve? coordinates := by
  rw [ofOctets_append_replicate, ofOctets_uncompressed]

theorem Uncompressed.ofOctets_eq {octets : Bytes} (h : Uncompressed curve? point octets) :
    ofOctets curve? octets = .ok point := by
  obtain ⟨zeros, x, y, hequal, hroom, hx, hy⟩ := h
  rw [ofOctets_zeros_uncompressed, ofHalves_eq_ok_iff]
  refine ⟨x, y, rfl, hequal, fun curve hcurve => hequal ▸ hroom curve hcurve, ?_⟩
  rw [← Mpint.eq_ofMagnitude_iff.2 hx, ← Mpint.eq_ofMagnitude_iff.2 hy]

/-- Behind zero bytes and the indicator, the octets of a point are an uncompressed form of it. -/
theorem ofOctets_eq_ok_iff_uncompressed {zeros : Nat} {coordinates : Bytes} :
    ofOctets curve? (List.replicate zeros 0 ++ 0x04 :: coordinates) = .ok point ↔
      Uncompressed curve? point (List.replicate zeros 0 ++ 0x04 :: coordinates) := by
  constructor
  · intro h
    rw [ofOctets_zeros_uncompressed, ofHalves_eq_ok_iff] at h
    obtain ⟨x, y, rfl, hequal, hroom, rfl⟩ := h
    exact .octets zeros x y hequal (fun curve hcurve => hequal ▸ hroom curve hcurve)
      (Mpint.toNat_ofMagnitude x) (Mpint.toNat_ofMagnitude y)
  · exact Uncompressed.ofOctets_eq

/-- Coordinates that are no two halves are refused for their length. -/
theorem ofHalves_eq_error {coordinates : Bytes}
    (h : ∀ point, ofHalves curve? coordinates ≠ .ok point) :
    ofHalves curve? coordinates = .error (.malformedPoint coordinates.length) := by
  rw [ofHalves_eq] at h ⊢
  split at h
  · exact absurd rfl (h _)
  · next hlength => rw [if_neg hlength]

/-! ### The form that is written -/

/-- A point can be written on a curve if its coordinates are numbers of the width of the field. -/
theorem within_iff : point.Within curve ↔
    point.x.toNat < 256 ^ curve.fieldSize ∧ point.y.toNat < 256 ^ curve.fieldSize := by
  rw [Within, Mpint.length_magnitude_le_iff, Mpint.length_magnitude_le_iff]

theorem toOctets_eq_ok_iff {written : Bytes} :
    point.toOctets curve = .ok written ↔ point.Within curve ∧ point.octets curve = written := by
  constructor
  · intro h
    by_cases hwithin : point.Within curve
    · rw [toOctets_of_within hwithin, Except.ok.injEq] at h
      exact ⟨hwithin, h⟩
    · rw [toOctets_of_not_within hwithin] at h
      simp at h
  · rintro ⟨hwithin, rfl⟩
    exact toOctets_of_within hwithin

/-- What is written is an uncompressed form, for every field that is as wide. -/
theorem uncompressed_octets (h : point.Within curve)
    (hroom : ∀ other ∈ curve?, curve.fieldSize ≤ other.fieldSize) (zeros : Nat) :
    Uncompressed curve? point (List.replicate zeros 0 ++ point.octets curve) := by
  have hx := Mpint.length_leftPadded h.1
  have hy := Mpint.length_leftPadded h.2
  refine .octets zeros _ _ (hx.trans hy.symm) (fun other hother => ?_) ?_ ?_
  · rw [hx]
    exact hroom other hother
  · rw [← Mpint.toNat_ofMagnitude, Mpint.ofMagnitude_leftPadded]
  · rw [← Mpint.toNat_ofMagnitude, Mpint.ofMagnitude_leftPadded]

/-! ### Both ways -/

/-- **Uncompressed points are read by exactly their grammar, and what is written is read back.**
Octets with the indicator 04 behind any zero bytes are a point exactly if they are an uncompressed
form of it, and are refused for the length of their coordinates otherwise.  Every point that is read
on a curve, in whatever form, can be written there at full width.  The points that can be written
are those whose coordinates are numbers of the width of the field, and what is written is read back
behind any zero bytes, on the curve and without a curve. -/
theorem uncompressed_forms :
    (∀ (curve? : Option Curve) (octets : Bytes) (point : Point),
      ofOctets curve? octets = .ok point ∧
          (∃ zeros coordinates, octets = List.replicate zeros 0 ++ 0x04 :: coordinates) ↔
        Uncompressed curve? point octets) ∧
    (∀ (curve? : Option Curve) (zeros : Nat) (coordinates : Bytes),
      (∀ point, ¬Uncompressed curve? point (List.replicate zeros 0 ++ 0x04 :: coordinates)) →
        ofOctets curve? (List.replicate zeros 0 ++ 0x04 :: coordinates) =
          .error (.malformedPoint coordinates.length)) ∧
    (∀ (curve : Curve) (octets : Bytes) (point : Point), ofOctets (some curve) octets = .ok point →
      ∃ written, point.toOctets curve = .ok written ∧
        written.length = 1 + 2 * curve.fieldSize) ∧
    ∀ (point : Point) (curve : Curve),
      ((∃ written, point.toOctets curve = .ok written) ↔
        point.x.toNat < 256 ^ curve.fieldSize ∧ point.y.toNat < 256 ^ curve.fieldSize) ∧
      ∀ written, point.toOctets curve = .ok written → ∀ zeros,
        ofOctets (some curve) (List.replicate zeros 0 ++ written) = .ok point ∧
          ofOctets none (List.replicate zeros 0 ++ written) = .ok point := by
  refine ⟨fun curve? octets point => ?_, fun curve? zeros coordinates hnone => ?_,
    fun curve octets point hread => ?_, fun point curve => ⟨?_, fun written hwritten zeros => ?_⟩⟩
  · constructor
    · rintro ⟨hread, zeros, coordinates, rfl⟩
      exact ofOctets_eq_ok_iff_uncompressed.1 hread
    · intro h
      refine ⟨h.ofOctets_eq, ?_⟩
      obtain ⟨zeros, x, y, -, -, -, -⟩ := h
      exact ⟨zeros, x ++ y, rfl⟩
  · rw [ofOctets_zeros_uncompressed]
    refine ofHalves_eq_error fun point hpoint => hnone point ?_
    rwa [← ofOctets_eq_ok_iff_uncompressed, ofOctets_zeros_uncompressed]
  · have hwithin := within_of_ofOctets hread
    exact ⟨_, toOctets_of_within hwithin, length_octets hwithin⟩
  · rw [← within_iff]
    constructor
    · rintro ⟨written, hwritten⟩
      exact (toOctets_eq_ok_iff.1 hwritten).1
    · exact fun hwithin => ⟨_, toOctets_of_within hwithin⟩
  · obtain ⟨hwithin, rfl⟩ := toOctets_eq_ok_iff.1 hwritten
    exact ⟨(uncompressed_octets hwithin (by simp) zeros).ofOctets_eq,
      (uncompressed_octets hwithin (by simp) zeros).ofOctets_eq⟩

/-- Short halves with zero bytes in front are a point; three bytes are no halves; and the point is
read back from its 133 bytes on P-521. -/
theorem uncompressed_forms_short :
    ofOctets none [0, 0, 0x04, 0, 5, 0, 7] = .ok ⟨.ofNat 5, .ofNat 7⟩ ∧
      ofOctets (some .nistP256) [0, 0x04, 1, 2, 3] = .error (.malformedPoint 3) ∧
      ∃ written, toOctets ⟨.ofNat 5, .ofNat 7⟩ .nistP521 = .ok written ∧ written.length = 133 ∧
        ofOctets none (0 :: written) = .ok ⟨.ofNat 5, .ofNat 7⟩ := by
  obtain ⟨hgrammar, hrefused, hreadable, hwritable⟩ := uncompressed_forms
  have hform (curve? : Option Curve) (hroom : ∀ curve ∈ curve?, 2 ≤ curve.fieldSize) :
      ofOctets curve? [0, 0, 0x04, 0, 5, 0, 7] = .ok ⟨.ofNat 5, .ofNat 7⟩ :=
    ((hgrammar curve? _ _).2 (.octets 2 [0, 5] [0, 7] rfl hroom (Mpint.toNat_ofNat 5)
      (Mpint.toNat_ofNat 7))).1
  refine ⟨hform none (by simp), hrefused _ 1 [1, 2, 3] fun point hpoint => ?_, ?_⟩
  · have hread := ((hgrammar _ _ _).2 hpoint).1
    exact absurd hread nofun
  · obtain ⟨written, hwritten, hlength⟩ :=
      hreadable .nistP521 _ _ (hform (some .nistP521) (by simp; decide))
    exact ⟨written, hwritten, hlength, ((hwritable _ _).2 written hwritten 1).2⟩

end Point

end SshKeys
