/-
**The octet forms of a curve point.**

A point is read from octets with zero bytes in front, with coordinates of any equal widths up to
that of the field, and with a second coordinate that has to be found first.  It is written in one
way, behind the indicator 04 with both coordinates at the width of the field.  Whatever was read
can be written, because every way of reading ends in coordinates that are narrow enough.

Main definitions:

* `SshKeys.Point.Within` — both coordinates have the width of the field;
* `SshKeys.Point.octets` — the form that is written.

Main results:

* `SshKeys.Point.ofOctets_octets` — what is written is read back;
* `SshKeys.Point.within_of_ofOctets` — **what is read can be written**;
* `SshKeys.Point.octets_eq_iff` — **octets come back exactly if they are uncompressed and of full
  width**.
-/

import SshKeys.Proofs.MpintForms
import SshKeys.Key.Point

set_option relaxedAutoImplicit false
set_option autoImplicit false

namespace SshKeys

/-! ### Numbers at a fixed width -/

namespace Mpint

/-- A magnitude is as wide as the number is large. -/
theorem length_magnitude_le_iff (m : Mpint) (width : Nat) :
    m.magnitude.length ≤ width ↔ m.toNat < 256 ^ width := by
  obtain ⟨magnitude, hminimal⟩ := m
  constructor
  · intro h
    exact Nat.lt_of_lt_of_le (natOfBytes_lt magnitude) (Nat.pow_le_pow_right (by decide) h)
  · intro h
    cases magnitude with
    | nil => exact Nat.zero_le _
    | cons b rest =>
        have hb : b ≠ 0 := by simpa using hminimal
        have hpositive : 1 ≤ b.toNat := by
          have hzero : b.toNat ≠ 0 := fun hb' => hb (UInt8.toNat_inj.1 hb')
          omega
        have hlarge : 256 ^ rest.length ≤ natOfBytes (b :: rest) := by
          rw [natOfBytes_cons]
          exact Nat.le_add_right_of_le (Nat.le_mul_of_pos_left _ hpositive)
        -- a first byte that is not zero puts the number above all narrower ones
        exact (Nat.pow_lt_pow_iff_right (by decide)).1 (Nat.lt_of_le_of_lt hlarge h)

/-- Equal numbers are equal values. -/
theorem eq_of_toNat_eq {m n : Mpint} (h : m.toNat = n.toNat) : m = n := by
  have hwidth (width : Nat) : m.magnitude.length ≤ width ↔ n.magnitude.length ≤ width := by
    rw [length_magnitude_le_iff, length_magnitude_le_iff, h]
  have hlength : m.magnitude.length = n.magnitude.length :=
    Nat.le_antisymm ((hwidth _).2 (Nat.le_refl _)) ((hwidth _).1 (Nat.le_refl _))
  apply ext
  calc m.magnitude = bigEndian m.magnitude.length m.toNat := (bigEndian_natOfBytes _).symm
    _ = bigEndian n.magnitude.length n.toNat := by rw [hlength, h]
    _ = n.magnitude := bigEndian_natOfBytes _

theorem toNat_inj {m n : Mpint} : m.toNat = n.toNat ↔ m = n := ⟨eq_of_toNat_eq, congrArg toNat⟩

/-- A value is what its bytes spell. -/
theorem eq_ofMagnitude_iff {m : Mpint} {bs : Bytes} :
    m = ofMagnitude bs ↔ m.toNat = natOfBytes bs := by
  rw [← toNat_inj, toNat_ofMagnitude]

@[simp] theorem ofNat_toNat (m : Mpint) : ofNat m.toNat = m :=
  eq_of_toNat_eq (toNat_ofNat _)

/-- The number with zero bytes in front, in `width` bytes if it has room there. -/
def leftPadded (m : Mpint) (width : Nat) : Bytes :=
  List.replicate (width - m.magnitude.length) 0 ++ m.magnitude

theorem length_leftPadded {m : Mpint} {width : Nat} (h : m.magnitude.length ≤ width) :
    (m.leftPadded width).length = width := by
  rw [leftPadded, List.length_append, List.length_replicate]
  omega

@[simp] theorem ofMagnitude_leftPadded (m : Mpint) (width : Nat) :
    ofMagnitude (m.leftPadded width) = m := by
  rw [leftPadded, ofMagnitude_append_replicate, ofMagnitude_magnitude]

/-- A byte string is the number it spells at its own width. -/
theorem leftPadded_ofMagnitude (bs : Bytes) : (ofMagnitude bs).leftPadded bs.length = bs := by
  induction bs with
  | nil => rfl
  | cons b bs ih =>
      by_cases hb : b = 0
      · have hlength := length_ofMagnitude_le bs
        have hmore : bs.length + 1 - (ofMagnitude bs).magnitude.length =
            bs.length - (ofMagnitude bs).magnitude.length + 1 := by omega
        rw [leftPadded] at ih
        rw [hb, ofMagnitude_cons_zero, leftPadded, List.length_cons, hmore, List.replicate_succ,
          List.cons_append, ih]
      · have hmagnitude : (ofMagnitude (b :: bs)).magnitude = b :: bs :=
          stripZeros_of_head? (by simpa using hb)
        rw [leftPadded, hmagnitude, Nat.sub_self]
        rfl

/-- The number at a fixed width, spelled from its bytes and from its value. -/
theorem bigEndian_toNat {m : Mpint} {width : Nat} (h : m.magnitude.length ≤ width) :
    bigEndian width m.toNat = m.leftPadded width := by
  have hvalue : natOfBytes (m.leftPadded width) = m.toNat := by
    rw [← toNat_ofMagnitude, ofMagnitude_leftPadded]
  calc bigEndian width m.toNat
      = bigEndian (m.leftPadded width).length (natOfBytes (m.leftPadded width)) := by
        rw [length_leftPadded h, hvalue]
    _ = m.leftPadded width := bigEndian_natOfBytes _

theorem padded_of_le {m : Mpint} {width : Nat} (h : m.magnitude.length ≤ width) :
    m.padded width = .ok (m.leftPadded width) := by
  rw [padded, if_pos h, leftPadded]

theorem padded_of_not_le {m : Mpint} {width : Nat} (h : ¬m.magnitude.length ≤ width) :
    m.padded width = .error (.wire .length) := by
  rw [padded, if_neg h]

end Mpint

/-! ### Coordinates that are found -/

theorem powMod_lt {m : Nat} (base exponent : Nat) (h : 0 < m) : powMod base exponent m < m := by
  have hbits : ∀ bits base exponent, powModBits m bits base exponent < m := by
    intro bits
    induction bits with
    | zero => exact fun _ _ => Nat.mod_lt _ h
    | succ bits ih =>
        intro base exponent
        rw [powModBits]
        split
        · exact ih _ _
        · exact Nat.mod_lt _ h
  exact hbits _ _ _

namespace Curve

theorem p_pos (curve : Curve) : 0 < curve.params.p := by
  cases curve <;> decide

theorem p_lt (curve : Curve) : curve.params.p < 256 ^ curve.fieldSize := by
  cases curve <;> decide

/-- A coordinate that is found over another one is no larger than the prime, and the other one is
smaller. -/
theorem lt_of_recoverY? {curve : Curve} {x y : Nat} {odd : Bool}
    (h : curve.recoverY? x odd = some y) : x < curve.params.p ∧ y ≤ curve.params.p := by
  obtain ⟨root, hroot, hy⟩ := Option.map_eq_some_iff.1 h
  unfold CurveParams.root? at hroot
  split at hroot
  · next hx =>
      refine ⟨hx, ?_⟩
      simp only [Option.ite_none_right_eq_some, Option.some.injEq] at hroot
      have hlt := powMod_lt (curve.params.cubic x) ((curve.params.p + 1) / 4) curve.p_pos
      rw [hroot.2] at hlt
      rw [← hy]
      split <;> omega
  · simp at hroot

end Curve

namespace Point

/-! ### The form that is written -/

/-- Both coordinates have room at the width of the field. -/
def Within (point : Point) (curve : Curve) : Prop :=
  point.x.magnitude.length ≤ curve.fieldSize ∧ point.y.magnitude.length ≤ curve.fieldSize

instance (point : Point) (curve : Curve) : Decidable (point.Within curve) :=
  inferInstanceAs (Decidable (_ ∧ _))

/-- The indicator 04, then both coordinates at full width. -/
def octets (point : Point) (curve : Curve) : Bytes :=
  0x04 :: (point.x.leftPadded curve.fieldSize ++ point.y.leftPadded curve.fieldSize)

variable {point : Point} {curve : Curve}

theorem toOctets_of_within (h : point.Within curve) :
    point.toOctets curve = .ok (point.octets curve) := by
  rw [toOctets, Mpint.padded_of_le h.1, Mpint.padded_of_le h.2]
  rfl

/-- A coordinate that is too wide is refused. -/
theorem toOctets_of_not_within (h : ¬point.Within curve) :
    point.toOctets curve = .error (.wire .length) := by
  rw [toOctets]
  by_cases hx : point.x.magnitude.length ≤ curve.fieldSize
  · have hy : ¬point.y.magnitude.length ≤ curve.fieldSize := fun hy => h ⟨hx, hy⟩
    rw [Mpint.padded_of_le hx, Mpint.padded_of_not_le hy]
    rfl
  · rw [Mpint.padded_of_not_le hx]
    rfl

theorem length_octets (h : point.Within curve) :
    (point.octets curve).length = 1 + 2 * curve.fieldSize := by
  rw [octets, List.length_cons, List.length_append, Mpint.length_leftPadded h.1,
    Mpint.length_leftPadded h.2]
  omega

theorem fits_octets (h : point.Within curve) : Fits (point.octets curve) := by
  rw [Fits, length_octets h]
  cases curve <;> decide

/-! ### What is read -/

/-- Zero bytes in front of the indicator are skipped. -/
theorem ofOctets_append_replicate (curve? : Option Curve) (zeros : Nat) (octets : Bytes) :
    ofOctets curve? (List.replicate zeros 0 ++ octets) = ofOctets curve? octets := by
  have hstrip : Mpint.stripZeros (List.replicate zeros 0 ++ octets) = Mpint.stripZeros octets :=
    congrArg Mpint.magnitude (Mpint.ofMagnitude_append_replicate zeros octets)
  rw [ofOctets, hstrip, ofOctets]

/-- Octets behind the indicator 04 are two halves. -/
theorem ofOctets_uncompressed (curve? : Option Curve) (coordinates : Bytes) :
    ofOctets curve? (0x04 :: coordinates) = ofHalves curve? coordinates := by
  rw [ofOctets, Mpint.stripZeros_of_head? (by simp)]
  cases curve? <;> rfl

/-- Two halves are a point if they are equally long and not too long, and refused in one way. -/
theorem ofHalves_eq (curve? : Option Curve) (coordinates : Bytes) :
    ofHalves curve? coordinates =
      if coordinates.length % 2 = 0 ∧
          ∀ curve ∈ curve?, coordinates.length ≤ 2 * curve.fieldSize then
        .ok ⟨.ofMagnitude (coordinates.take (coordinates.length / 2)),
          .ofMagnitude (coordinates.drop (coordinates.length / 2))⟩
      else .error (.malformedPoint coordinates.length) := by
  unfold ofHalves
  cases curve? with
  | none => by_cases hodd : coordinates.length % 2 = 0 <;> simp [hodd]
  | some curve =>
      by_cases hodd : coordinates.length % 2 = 0
      · by_cases hroom : coordinates.length ≤ 2 * curve.fieldSize
        · simp [hodd, hroom, Nat.not_lt.2 hroom]
        · simp [hodd, hroom, Nat.lt_of_not_le hroom]
      · simp [hodd]

/-- Which two halves are a point. -/
theorem ofHalves_eq_ok_iff {curve? : Option Curve} {coordinates : Bytes} :
    ofHalves curve? coordinates = .ok point ↔
      ∃ x y, coordinates = x ++ y ∧ x.length = y.length ∧
        (∀ curve ∈ curve?, y.length ≤ curve.fieldSize) ∧
        point = ⟨.ofMagnitude x, .ofMagnitude y⟩ := by
  rw [ofHalves_eq]
  constructor
  · intro h
    split at h
    · next hlength =>
        rw [Except.ok.injEq] at h
        refine ⟨_, _, (List.take_append_drop _ _).symm, ?_, fun curve hcurve => ?_, h.symm⟩
        · rw [List.length_take, List.length_drop]
          omega
        · have hroom := hlength.2 curve hcurve
          rw [List.length_drop]
          omega
    · simp at h
  · rintro ⟨x, y, rfl, hlength, hroom, rfl⟩
    have hsum : (x ++ y).length = 2 * y.length := by
      rw [List.length_append]
      omega
    have hhalf : 2 * y.length / 2 = x.length := by omega
    have hguard : 2 * y.length % 2 = 0 ∧ ∀ curve ∈ curve?, 2 * y.length ≤ 2 * curve.fieldSize :=
      ⟨by omega, fun curve hcurve => Nat.mul_le_mul_left 2 (hroom curve hcurve)⟩
    rw [hsum, if_pos hguard, hhalf, List.take_left' rfl, List.drop_left' rfl]

theorem ofHalves_eq_ok {coordinates : Bytes} :
    ofHalves (some curve) coordinates = .ok point ↔
      ∃ x y, coordinates = x ++ y ∧ x.length = y.length ∧ y.length ≤ curve.fieldSize ∧
        point = ⟨.ofMagnitude x, .ofMagnitude y⟩ := by
  simp [ofHalves_eq_ok_iff]

/-- What is written is read back. -/
theorem ofOctets_octets (h : point.Within curve) :
    ofOctets (some curve) (point.octets curve) = .ok point := by
  rw [octets, ofOctets_uncompressed, ofHalves_eq_ok]
  refine ⟨_, _, rfl, ?_, ?_, ?_⟩
  · rw [Mpint.length_leftPadded h.1, Mpint.length_leftPadded h.2]
  · exact Nat.le_of_eq (Mpint.length_leftPadded h.2)
  · rw [Mpint.ofMagnitude_leftPadded, Mpint.ofMagnitude_leftPadded]

theorem within_of_decompress {odd : Bool} {xBytes : Bytes}
    (h : decompress curve odd xBytes = .ok point) : point.Within curve := by
  simp only [decompress] at h
  split at h
  · next y hy =>
      rw [Except.ok.injEq] at h
      have hbounds := Curve.lt_of_recoverY? hy
      have hp := curve.p_lt
      rw [← h, Within, Mpint.length_magnitude_le_iff, Mpint.length_magnitude_le_iff]
      constructor
      · exact Nat.lt_trans hbounds.1 hp
      · rw [Mpint.toNat_ofNat]
        exact Nat.lt_of_le_of_lt hbounds.2 hp
  · simp at h

/-- **What is read can be written**: every form ends in coordinates of at most the width of the
field. -/
theorem within_of_ofOctets {octets : Bytes} (h : ofOctets (some curve) octets = .ok point) :
    point.Within curve := by
  unfold ofOctets at h
  split at h
  · simp at h
  · next indicator coordinates _ =>
      split at h
      · obtain ⟨x, y, -, hlength, hroom, rfl⟩ := ofHalves_eq_ok.1 h
        have hx := Mpint.length_ofMagnitude_le x
        have hy := Mpint.length_ofMagnitude_le y
        constructor
        · change (Mpint.ofMagnitude x).magnitude.length ≤ _
          omega
        · change (Mpint.ofMagnitude y).magnitude.length ≤ _
          omega
      · next hcurve =>
          cases hcurve
          exact within_of_decompress h
      · next hcurve =>
          cases hcurve
          exact within_of_decompress h
      · simp at h

/-- **Octets come back exactly if they are uncompressed and of full width.** -/
theorem octets_eq_iff {form : Bytes} (h : ofOctets (some curve) form = .ok point) :
    point.octets curve = form ↔
      ∃ coordinates, form = 0x04 :: coordinates ∧ coordinates.length = 2 * curve.fieldSize := by
  constructor
  · rintro rfl
    refine ⟨_, rfl, ?_⟩
    have hlength := length_octets (within_of_ofOctets h)
    rw [octets, List.length_cons] at hlength
    omega
  · rintro ⟨coordinates, rfl, hfull⟩
    rw [ofOctets_uncompressed, ofHalves_eq_ok] at h
    obtain ⟨x, y, rfl, hlength, hroom, rfl⟩ := h
    rw [List.length_append] at hfull
    have hx : x.length = curve.fieldSize := by omega
    have hy : y.length = curve.fieldSize := by omega
    rw [octets]
    congr 2
    · rw [← hx]
      exact Mpint.leftPadded_ofMagnitude x
    · rw [← hy]
      exact Mpint.leftPadded_ofMagnitude y

end Point

end SshKeys
