/-
**Points from their first coordinate.**

A compressed point is a first coordinate and a parity.  There are two points of the curve over a
first coordinate, or none.  Because the prime is three modulo four, a power of the right side of the
equation is a square root of it if there is one.  Because the cubic has no roots, the two square
roots are different numbers below the prime, and because the prime is odd, one of them is odd and
the other one even.  So the parity tells them apart.

On the curve P-521 the parity is not that of the root but of the limbs that hold it.  Where these
spell a number above the modulus, the other point is found.

Main definitions:

* `SshKeys.Point.OnCurve` — being a point of the curve;
* `SshKeys.Point.opposite` — the other point over the first coordinate;
* `SshKeys.Point.compressedOctets` — a first coordinate behind the indicator for a parity;
* `SshKeys.Curve.runsOver` — whether the limbs of the root spell a number above the modulus.

Main results:

* `SshKeys.CurveParams.exists_root?` — **a root is found if there is one**;
* `SshKeys.CurveParams.eq_or_eq_sub_of_isOnCurve` — there are two points over a first coordinate;
* `SshKeys.Curve.rootIsOdd_eq` — what parity the root counts for;
* `SshKeys.Curve.recoverY?_eq_some_iff` — **which second coordinate is found**;
* `SshKeys.Point.compressed_recovery` — **which point a compressed form is read as**.
-/

import SshKeys.Proofs.CubicRoots
import SshKeys.Proofs.LimbBounds
import SshKeys.Proofs.PublicKeyWire

set_option relaxedAutoImplicit false
set_option autoImplicit false

namespace SshKeys

/-! ### Square roots -/

/-- A power of a square is a root of it, modulo a prime that is three modulo four. -/
theorem sq_pow_quarter {p : ℕ} [Fact p.Prime] (hp : p % 4 = 3) (z : ZMod p) :
    ((z ^ 2) ^ ((p + 1) / 4)) ^ 2 = z ^ 2 := by
  have hexponent : 2 * ((p + 1) / 4 * 2) = p + 1 := by omega
  rw [← pow_mul, ← pow_mul, hexponent, pow_succ, ZMod.pow_card, sq]

namespace Curve

theorem p_mod_four (curve : Curve) : curve.params.p % 4 = 3 := by
  cases curve <;> decide +kernel

end Curve

namespace CurveParams

variable {c : CurveParams} {x y root : ℕ}

theorem isOnCurve_of_root? (h : c.root? x = some root) : c.isOnCurve x root = true := by
  unfold root? at h
  split at h
  · next hx =>
      simp only [Option.ite_none_right_eq_some, Option.some.injEq] at h
      obtain ⟨hsquare, rfl⟩ := h
      have hpos : 0 < c.p := Nat.zero_lt_of_lt hx
      exact isOnCurve_eq_true_iff.2 ⟨hx, powMod_lt _ _ hpos, hsquare⟩
  · exact absurd h nofun

variable [Fact c.p.Prime]

/-- **A root is found if there is one.** -/
theorem exists_root? (hp : c.p % 4 = 3) (h : c.isOnCurve x y = true) :
    ∃ root, c.root? x = some root := by
  obtain ⟨hx, hy, hsquare⟩ := isOnCurve_eq_true_iff.1 h
  have hcubic : (c.cubic x : ZMod c.p) = y ^ 2 := by
    rw [← hsquare, ZMod.natCast_mod, Nat.cast_mul, sq]
  have hroot : powMod (c.cubic x) ((c.p + 1) / 4) c.p * powMod (c.cubic x) ((c.p + 1) / 4) c.p %
      c.p = c.cubic x := by
    have hlt : c.cubic x < c.p := Nat.mod_lt _ (Nat.zero_lt_of_lt hx)
    rw [← Nat.mod_eq_of_lt hlt, ← Nat.ModEq, ← ZMod.natCast_eq_natCast_iff, Nat.mod_eq_of_lt hlt,
      powMod_eq, Nat.cast_mul, ZMod.natCast_mod, Nat.cast_pow, hcubic, ← sq, sq_pow_quarter hp]
  exact ⟨_, by rw [root?, if_pos hx, if_pos hroot]⟩

/-- The second coordinates of two points over one first coordinate are equal or opposite. -/
theorem eq_or_eq_sub_of_isOnCurve (hroot : c.isOnCurve x root = true)
    (h : c.isOnCurve x y = true) : y = root ∨ y = c.p - root := by
  obtain ⟨-, hrootlt, hrootsquare⟩ := isOnCurve_eq_true_iff.1 hroot
  obtain ⟨-, hy, hsquare⟩ := isOnCurve_eq_true_iff.1 h
  have hsquares : (y : ZMod c.p) ^ 2 = root ^ 2 := by
    rw [sq, sq, ← Nat.cast_mul, ← Nat.cast_mul, ZMod.natCast_eq_natCast_iff]
    exact hsquare.trans hrootsquare.symm
  rcases sq_eq_sq_iff_eq_or_eq_neg.1 hsquares with heq | hneg
  · left
    rw [ZMod.natCast_eq_natCast_iff] at heq
    exact heq.eq_of_lt_of_lt hy hrootlt
  · -- their sum is divided by the prime, and less than twice as large
    have hsum : c.p ∣ y + root := by
      rw [← ZMod.natCast_eq_zero_iff, Nat.cast_add, hneg, neg_add_cancel]
    obtain ⟨k, hk⟩ := hsum
    rcases Nat.lt_trichotomy k 1 with hzero | rfl | hmore
    · obtain rfl : k = 0 := by omega
      omega
    · omega
    · have := Nat.mul_le_mul_left c.p hmore
      omega

/-- The opposite of a point. -/
theorem isOnCurve_sub (hy : y ≠ 0) (h : c.isOnCurve x y = true) :
    c.isOnCurve x (c.p - y) = true := by
  obtain ⟨hx, hlt, hsquare⟩ := isOnCurve_eq_true_iff.1 h
  refine isOnCurve_eq_true_iff.2 ⟨hx, by omega, ?_⟩
  rw [← hsquare, ← Nat.ModEq, ← ZMod.natCast_eq_natCast_iff, Nat.cast_mul, Nat.cast_mul,
    Nat.cast_sub hlt.le, ZMod.natCast_self, zero_sub, neg_mul_neg]

end CurveParams

/-! ### Parities -/

namespace Curve

variable {curve : Curve} {x y root : ℕ} {odd : Bool}

/-- No point of a curve has zero for its second coordinate. -/
theorem ne_zero_of_isOnCurve (h : curve.params.isOnCurve x y = true) : y ≠ 0 := by
  rintro rfl
  obtain ⟨-, -, hsquare⟩ := CurveParams.isOnCurve_eq_true_iff.1 h
  exact curve.cubic_ne_zero x (hsquare.symm.trans (Nat.zero_mod _))

/-- Whether the limbs of the root over a first coordinate spell a number that is not below the
modulus. -/
def runsOver : Curve → ℕ → Bool
  | nistP521, x => decide (nistP521.params.p ≤ (limbRoot x).value)
  | _, _ => false

theorem tight_limbCubic (hx : x < nistP521.params.p) : (limbCubic x).Tight := by
  have hfirst := LimbResidue.tight_ofNat (modulus_eq ▸ hx)
  have hlinear : (LimbResidue.ofNat (nistP521.params.p - 3)).Tight :=
    LimbResidue.tight_ofNat (by decide +kernel)
  have hconstant : (LimbResidue.ofNat nistP521.params.b).Tight :=
    LimbResidue.tight_ofNat (by decide +kernel)
  exact (((hfirst.mul hfirst).mul hfirst).add (hlinear.mul hfirst)).add hconstant

/-- The limbs spell the root or a number above it by the modulus. -/
theorem value_limbRoot (h : nistP521.params.root? x = some root) :
    (limbRoot x).value = root ∨
      (limbRoot x).value = root + nistP521.params.p ∧ root < Limbs.slack := by
  obtain ⟨hx, hroot, -⟩ :=
    CurveParams.isOnCurve_eq_true_iff.1 (CurveParams.isOnCurve_of_root? h)
  have hpower : root = (x * x * x + (nistP521.params.p - 3) * x + nistP521.params.b) ^ 2 ^ 519 %
      nistP521.params.p := by
    have hquarter : (nistP521.params.p + 1) / 4 = 2 ^ 519 := by decide +kernel
    simp only [CurveParams.root?, if_pos hx, Option.ite_none_right_eq_some, Option.some.injEq] at h
    rw [← h.2, powMod_eq, hquarter, CurveParams.cubic, ← Nat.pow_mod]
  have hrepresents : (limbRoot x).Represents root := by
    rw [LimbResidue.Represents, represents_limbRoot x hx, modulus_eq, hpower, Nat.mod_mod]
  have htight : (limbRoot x).Tight := (tight_limbCubic hx).squareTimes 519
  have hvalue := htight.value_eq (modulus_eq ▸ hroot) hrepresents
  rwa [modulus_eq] at hvalue

/-- The limbs before the last squaring are the digits of their residue, if it is not small and has no
digit that is zero. -/
theorem limbRoot_eq_mul (hx : x < nistP521.params.p) {n : ℕ}
    (hn : powMod (x * x * x + (nistP521.params.p - 3) * x + nistP521.params.b) (2 ^ 518)
      nistP521.params.p = n)
    (hslack : Limbs.slack ≤ n) (hdigits : 0 ∉ (LimbResidue.ofNat n).limbs) :
    limbRoot x = .ofNat n * .ofNat n := by
  rw [powMod_eq] at hn
  have hlt : n < Limbs.modulus := by
    rw [modulus_eq, ← hn]
    exact Nat.mod_lt _ nistP521.p_pos
  have hrepresents : ((limbCubic x).squareTimes 518).Represents n := by
    rw [LimbResidue.Represents, (represents_limbCubic hx).squareTimes 518, ← hn, modulus_eq,
      Nat.mod_mod]
  rw [limbRoot, LimbResidue.squareTimes_succ,
    ((tight_limbCubic hx).squareTimes 518).eq_ofNat hlt hrepresents hslack hdigits]

/-- **What parity the root counts for**: its own, unless its limbs run over. -/
theorem rootIsOdd_eq (h : curve.params.root? x = some root) :
    curve.rootIsOdd x root = ((root % 2 == 1) ^^ curve.runsOver x) := by
  cases curve with
  | nistP256 | nistP384 => exact (Bool.xor_false _).symm
  | nistP521 =>
      have hroot : root < nistP521.params.p :=
        (CurveParams.isOnCurve_eq_true_iff.1 (CurveParams.isOnCurve_of_root? h)).2.1
      have hodd := p_mod_four nistP521
      rw [rootIsOdd, LimbResidue.isOdd_eq, runsOver]
      rcases value_limbRoot h with hvalue | ⟨hvalue, -⟩
      · rw [hvalue, decide_eq_false (by omega), Bool.xor_false]
      · rw [hvalue, decide_eq_true (by omega), Bool.xor_true, Bool.eq_iff_iff]
        simp only [beq_iff_eq, Bool.not_eq_true', beq_eq_false_iff_ne]
        omega

/-- The number opposite to an odd one is even, and to an even one odd. -/
theorem odd_sub (h : y < curve.params.p) :
    ((curve.params.p - y) % 2 == 1) = !(y % 2 == 1) := by
  have hp := curve.p_mod_four
  rw [Bool.eq_iff_iff]
  simp only [beq_iff_eq, Bool.not_eq_true', beq_eq_false_iff_ne]
  omega

theorem xor_beq_iff {own runs odd : Bool} :
    ((own ^^ runs) == odd) = true ↔ own = (odd ^^ runs) := by
  cases own <;> cases runs <;> cases odd <;> decide

/-- **Which second coordinate is found**: the one of the asked parity, or the other one where the
limbs run over. -/
theorem recoverY?_eq_some_iff :
    curve.recoverY? x odd = some y ↔
      curve.params.isOnCurve x y = true ∧ (y % 2 == 1) = (odd ^^ curve.runsOver x) := by
  rw [recoverY?, Option.map_eq_some_iff]
  constructor
  · rintro ⟨root, hroot, rfl⟩
    have hon := CurveParams.isOnCurve_of_root? hroot
    have hlt := (CurveParams.isOnCurve_eq_true_iff.1 hon).2.1
    rw [rootIsOdd_eq hroot]
    split
    · next hasked => exact ⟨hon, xor_beq_iff.1 hasked⟩
    · next hother =>
        refine ⟨CurveParams.isOnCurve_sub (ne_zero_of_isOnCurve hon) hon, ?_⟩
        rw [odd_sub hlt]
        exact Bool.not_eq.2 (mt xor_beq_iff.2 hother)
  · rintro ⟨hon, hasked⟩
    obtain ⟨root, hroot⟩ := CurveParams.exists_root? curve.p_mod_four hon
    have hrooton := CurveParams.isOnCurve_of_root? hroot
    have hlt := (CurveParams.isOnCurve_eq_true_iff.1 hrooton).2.1
    refine ⟨root, hroot, ?_⟩
    rw [rootIsOdd_eq hroot]
    rcases CurveParams.eq_or_eq_sub_of_isOnCurve hrooton hon with rfl | rfl
    · rw [if_pos (xor_beq_iff.2 hasked)]
    · rw [odd_sub hlt] at hasked
      rw [if_neg (mt xor_beq_iff.1 (Bool.not_eq.1 hasked))]

/-- The limbs run over on P-521 only, and only for a point close to the axis. -/
theorem lt_of_runsOver (h : curve.runsOver x = true) (hon : curve.params.isOnCurve x y = true) :
    curve = nistP521 ∧ (y < Limbs.slack ∨ curve.params.p - y < Limbs.slack) := by
  cases curve with
  | nistP256 | nistP384 => exact absurd h nofun
  | nistP521 =>
      obtain ⟨root, hroot⟩ := CurveParams.exists_root? nistP521.p_mod_four hon
      have hrooton := CurveParams.isOnCurve_of_root? hroot
      have hlt := (CurveParams.isOnCurve_eq_true_iff.1 hrooton).2.1
      rw [runsOver, decide_eq_true_eq] at h
      have hsmall : root < Limbs.slack := by
        rcases value_limbRoot hroot with hvalue | ⟨-, hsmall⟩
        · omega
        · exact hsmall
      refine ⟨rfl, ?_⟩
      rcases CurveParams.eq_or_eq_sub_of_isOnCurve hrooton hon with rfl | rfl
      · exact .inl hsmall
      · right
        omega

end Curve

/-! ### Points -/

namespace Point

variable {point : Point} {curve : Curve} {odd : Bool} {xBytes : Bytes}

/-- Being a point of the curve: both coordinates are below the prime, and they solve the equation
over the residues. -/
structure OnCurve (point : Point) (curve : Curve) : Prop where
  x_lt : point.x.toNat < curve.params.p
  y_lt : point.y.toNat < curve.params.p
  equation : (point.y.toNat : ZMod curve.params.p) ^ 2 =
    point.x.toNat ^ 3 - 3 * point.x.toNat + curve.params.b

/-- Whether the second coordinate is odd. -/
def isOdd (point : Point) : Bool := point.y.toNat % 2 == 1

/-- The other point over the first coordinate. -/
def opposite (point : Point) (curve : Curve) : Point :=
  ⟨point.x, .ofNat (curve.params.p - point.y.toNat)⟩

/-- A first coordinate behind the indicator for a parity. -/
def compressedOctets (odd : Bool) (xBytes : Bytes) : Bytes :=
  (if odd then PointForm.compressedOdd else .compressedEven).indicator :: xBytes

theorem onCurve_iff :
    point.OnCurve curve ↔ curve.params.isOnCurve point.x.toNat point.y.toNat = true := by
  have hequation : (point.y.toNat : ZMod curve.params.p) ^ 2 =
      point.x.toNat ^ 3 - 3 * point.x.toNat + curve.params.b ↔
        point.y.toNat * point.y.toNat % curve.params.p = curve.params.cubic point.x.toNat := by
    rw [← CurveParams.equation_iff_isOnCurve curve.three_le_p, WeierstrassCurve.Affine.equation_iff]
    simp only [CurveParams.weierstrass]
    ring_nf
  rw [CurveParams.isOnCurve_eq_true_iff, ← hequation]
  constructor
  · exact fun h => ⟨h.x_lt, h.y_lt, h.equation⟩
  · rintro ⟨hx, hy, h⟩
    exact ⟨hx, hy, h⟩

theorem OnCurve.within (h : point.OnCurve curve) : point.Within curve :=
  ⟨(Mpint.length_magnitude_le_iff _ _).2 (h.x_lt.trans curve.p_lt),
    (Mpint.length_magnitude_le_iff _ _).2 (h.y_lt.trans curve.p_lt)⟩

theorem OnCurve.opposite (h : point.OnCurve curve) : (point.opposite curve).OnCurve curve := by
  have hon := onCurve_iff.1 h
  rw [onCurve_iff, Point.opposite, Mpint.toNat_ofNat]
  exact CurveParams.isOnCurve_sub (Curve.ne_zero_of_isOnCurve hon) hon

/-- Of two opposite points, one is odd. -/
theorem OnCurve.isOdd_opposite (h : point.OnCurve curve) :
    (point.opposite curve).isOdd = !point.isOdd := by
  rw [isOdd, isOdd, Point.opposite, Mpint.toNat_ofNat]
  exact Curve.odd_sub h.y_lt

/-! ### Compressed forms -/

theorem ofOctets_compressedOctets (curve : Curve) (zeros : ℕ) (odd : Bool) (xBytes : Bytes) :
    ofOctets (some curve) (List.replicate zeros 0 ++ compressedOctets odd xBytes) =
      decompress curve odd xBytes := by
  have hhead : (compressedOctets odd xBytes).head? ≠ some 0 := by
    cases odd <;> simp [compressedOctets, PointForm.indicator]
  rw [ofOctets_append_replicate, ofOctets, Mpint.stripZeros_of_head? hhead]
  cases odd <;> rfl

theorem decompress_eq_ok_iff :
    decompress curve odd xBytes = .ok point ↔
      point.OnCurve curve ∧ point.x.toNat = natOfBytes xBytes ∧
        point.isOdd = (odd ^^ curve.runsOver (natOfBytes xBytes)) := by
  have hread : decompress curve odd xBytes = .ok point ↔
      point.x = .ofMagnitude xBytes ∧
        curve.recoverY? (natOfBytes xBytes) odd = some point.y.toNat := by
    rw [decompress, Mpint.toNat_ofMagnitude]
    obtain ⟨x, y⟩ := point
    cases curve.recoverY? (natOfBytes xBytes) odd with
    | none => simp
    | some found =>
        simp only [Except.ok.injEq, mk.injEq, Option.some.injEq]
        constructor
        · rintro ⟨rfl, rfl⟩
          exact ⟨rfl, (Mpint.toNat_ofNat found).symm⟩
        · rintro ⟨rfl, rfl⟩
          exact ⟨rfl, Mpint.ofNat_toNat y⟩
  rw [hread, Mpint.eq_ofMagnitude_iff, Curve.recoverY?_eq_some_iff, onCurve_iff, isOdd]
  constructor
  · rintro ⟨hx, hon, hasked⟩
    exact ⟨hx ▸ hon, hx, hasked⟩
  · rintro ⟨hon, hx, hasked⟩
    exact ⟨hx, hx ▸ hon, hasked⟩

/-- A compressed form is refused in one way, and only if no point of the curve lies over its first
coordinate. -/
theorem decompress_total (curve : Curve) (odd : Bool) (xBytes : Bytes) :
    (∃ point, decompress curve odd xBytes = .ok point) ∨
      decompress curve odd xBytes = .error .invalidPoint ∧
        ∀ point : Point, point.OnCurve curve → point.x.toNat ≠ natOfBytes xBytes := by
  by_cases hpoint : ∃ point : Point, point.OnCurve curve ∧ point.x.toNat = natOfBytes xBytes
  · left
    obtain ⟨point, hon, hx⟩ := hpoint
    -- one of the two points over the first coordinate has the parity
    by_cases hodd : point.isOdd = (odd ^^ curve.runsOver (natOfBytes xBytes))
    · exact ⟨point, decompress_eq_ok_iff.2 ⟨hon, hx, hodd⟩⟩
    · refine ⟨point.opposite curve, decompress_eq_ok_iff.2 ⟨hon.opposite, hx, ?_⟩⟩
      rw [hon.isOdd_opposite]
      exact Bool.not_eq.2 hodd
  · right
    refine ⟨?_, fun point hon hx => hpoint ⟨point, hon, hx⟩⟩
    cases hread : decompress curve odd xBytes with
    | ok point =>
        obtain ⟨hon, hx, -⟩ := decompress_eq_ok_iff.1 hread
        exact absurd ⟨point, hon, hx⟩ hpoint
    | error error =>
        simp only [decompress] at hread
        split at hread
        · simp at hread
        · exact hread.symm

/-- The compressed form of a point of the curve. -/
theorem decompress_leftPadded (h : point.OnCurve curve) :
    decompress curve point.isOdd (point.x.leftPadded curve.fieldSize) =
      .ok (if curve.runsOver point.x.toNat then point.opposite curve else point) := by
  have hx : natOfBytes (point.x.leftPadded curve.fieldSize) = point.x.toNat := by
    rw [← Mpint.toNat_ofMagnitude, Mpint.ofMagnitude_leftPadded]
  rw [decompress_eq_ok_iff, hx]
  cases hover : curve.runsOver point.x.toNat with
  | false => exact ⟨h, rfl, (Bool.xor_false _).symm⟩
  | true => exact ⟨h.opposite, rfl, h.isOdd_opposite.trans (Bool.xor_true _).symm⟩

/-- **Which point a compressed form is read as.**  Behind any zero bytes, it is the point of the
curve over the first coordinate that has the asked parity; only where the limbs of the root run
over, it is the opposite one.  There is no other way to be refused than for want of a point.  So the
two forms of a point are read as one key, except that the limbs run over, which they do on P-521 for
points close to the axis. -/
theorem compressed_recovery (curve : Curve) :
    (∀ zeros odd xBytes (point : Point),
      ofOctets (some curve) (List.replicate zeros 0 ++ compressedOctets odd xBytes) = .ok point ↔
        point.OnCurve curve ∧ point.x.toNat = natOfBytes xBytes ∧
          point.isOdd = (odd ^^ curve.runsOver (natOfBytes xBytes))) ∧
    (∀ zeros odd xBytes,
      (∃ point, ofOctets (some curve) (List.replicate zeros 0 ++ compressedOctets odd xBytes) =
        .ok point) ∨
      ofOctets (some curve) (List.replicate zeros 0 ++ compressedOctets odd xBytes) =
          .error .invalidPoint ∧
        ∀ point : Point, point.OnCurve curve → point.x.toNat ≠ natOfBytes xBytes) ∧
    (∀ point : Point, point.OnCurve curve →
      EcdsaPublicKey.ofOctets curve (point.octets curve) = .ok ⟨curve, point⟩ ∧
      EcdsaPublicKey.ofOctets curve
          (compressedOctets point.isOdd (point.x.leftPadded curve.fieldSize)) =
        .ok ⟨curve, if curve.runsOver point.x.toNat then point.opposite curve else point⟩ ∧
      (curve.runsOver point.x.toNat = true → curve = .nistP521 ∧
        (point.y.toNat < 2 ^ 68 ∨ curve.params.p - point.y.toNat < 2 ^ 68))) := by
  simp only [ofOctets_compressedOctets]
  refine ⟨fun _ _ _ _ => decompress_eq_ok_iff, fun _ => decompress_total curve,
    fun point hon => ⟨?_, ?_, fun hover => Curve.lt_of_runsOver hover (onCurve_iff.1 hon)⟩⟩
  · exact EcdsaPublicKey.ofOctets_eq_ok.2 ⟨rfl, ofOctets_octets hon.within⟩
  · have hread := (ofOctets_compressedOctets curve 0 _ _).trans (decompress_leftPadded hon)
    exact EcdsaPublicKey.ofOctets_eq_ok.2 ⟨rfl, hread⟩

/-- A point of P-521 whose second coordinate is five. -/
def nearAxis : Point where
  x := .ofNat 0x1ffd8039dc64fe6497ece809915d331305b319b4c0e3e4082a802fac04a1b7fee5817f10ac2d9aa339f4e38bd7400eadf0732f8849d50046864e77fd8040c523fe5
  y := .ofNat 5

theorem onCurve_nearAxis : nearAxis.OnCurve .nistP521 := by
  rw [onCurve_iff, nearAxis, Mpint.toNat_ofNat, Mpint.toNat_ofNat]
  decide +kernel

theorem runsOver_nearAxis : Curve.nistP521.runsOver nearAxis.x.toNat = true := by
  rw [nearAxis, Mpint.toNat_ofNat, Curve.runsOver,
    Curve.limbRoot_eq_mul (by decide +kernel) rfl (by decide +kernel) (by decide +kernel)]
  decide +kernel

/-- Five is odd and is found where an even number is asked for, and the two forms of the point are
read as two keys. -/
theorem compressed_recovery_nearAxis :
    nearAxis.isOdd = true ∧
      ofOctets (some .nistP521) (compressedOctets false (nearAxis.x.leftPadded 66)) =
        .ok nearAxis ∧
      EcdsaPublicKey.ofOctets .nistP521 (nearAxis.octets .nistP521) = .ok ⟨.nistP521, nearAxis⟩ ∧
      EcdsaPublicKey.ofOctets .nistP521 (compressedOctets true (nearAxis.x.leftPadded 66)) =
        .ok ⟨.nistP521, nearAxis.opposite .nistP521⟩ := by
  obtain ⟨hread, -, hkeys⟩ := compressed_recovery .nistP521
  obtain ⟨huncompressed, hcompressed, -⟩ := hkeys nearAxis onCurve_nearAxis
  have hodd : nearAxis.isOdd = true := by
    rw [isOdd, nearAxis, Mpint.toNat_ofNat]
    rfl
  have hx : nearAxis.x.toNat = natOfBytes (nearAxis.x.leftPadded 66) := by
    rw [← Mpint.toNat_ofMagnitude, Mpint.ofMagnitude_leftPadded]
  refine ⟨hodd, ?_, huncompressed, ?_⟩
  · refine (hread 0 false _ nearAxis).2 ⟨onCurve_nearAxis, hx, ?_⟩
    rw [hodd, ← hx, runsOver_nearAxis]
    rfl
  · rw [hodd, runsOver_nearAxis, if_pos rfl] at hcompressed
    exact hcompressed

end Point

end SshKeys
