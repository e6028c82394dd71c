/-
**The normal form of a key blob.**

Reading a public key is lenient, and writing it is not, so a blob that is accepted need not be the
one that is written for its key.  It is the same blob exactly if all its fields are in the form in
which they are written.  No blob that is accepted is the beginning of another one.

There is one gap.  A number of `2 ^ 31 - 1` bytes whose first bit is set may stand on the wire
without a sign byte, and has no room for the sign byte that writing would give it.  A key with such
a number is read and cannot be written.

Main definitions:

* `SshKeys.PublicKey.IsNormal` — fields in the form in which they are written.

Main results:

* `SshKeys.PublicKey.fields_eq_iff` — which forms are the ones that are written;
* `SshKeys.PublicKey.fits_fields_iff` — which forms come from a key that can be written;
* `SshKeys.PublicKey.SpelledBy.exists_written` — what is written for a key outside the gap;
* `SshKeys.PublicKey.ofBytes_normal_form` — **every accepted blob outside the gap has one normal
  form**;
* `SshKeys.PublicKey.exists_unwritable` — there is a key in the gap.
-/

import SshKeys.Proofs.PublicKeyWire

set_option relaxedAutoImplicit false
set_option autoImplicit false

namespace SshKeys

/-- The first byte of octets that spell a point does not look negative. -/
theorem Point.not_isOverlong {curve : Curve} {point : Point} {octets : Bytes}
    (h : ofOctets (some curve) octets = .ok point) : ¬Mpint.IsOverlong octets := by
  rintro ⟨-, b, rest, rfl, hsigned⟩
  have hzero : b ≠ 0 := by
    rintro rfl
    exact absurd hsigned (by decide)
  -- octets that start with such a byte lose nothing in front, and no form has it as indicator
  have hform : PointForm.ofIndicator? b = none := by
    rw [PointForm.ofIndicator?, List.find?_eq_none]
    intro form _
    rw [beq_iff_eq]
    rintro rfl
    cases form <;> exact absurd hsigned (by decide)
  rw [ofOctets, Mpint.stripZeros_of_head? (by simpa using hzero)] at h
  simp [hform] at h

theorem Curve.not_isOverlong_name (curve : Curve) : ¬Mpint.IsOverlong (utf8Bytes curve.name) := by
  rintro ⟨hlength, -⟩
  revert hlength
  cases curve <;> decide

namespace PublicKey

variable {key : PublicKey} {forms : List Bytes}

/-! ### The forms that are written -/

/-- Fields in the form in which they are written: numbers as short as they can be, and points
uncompressed at full width. -/
def IsNormal : PublicKey → List Bytes → Prop
  | ecdsa key, forms => ∃ coordinates, forms = [utf8Bytes key.curve.name, 0x04 :: coordinates] ∧
      coordinates.length = 2 * key.curve.fieldSize
  | _, forms => ∀ form ∈ forms, Mpint.IsMinimal form

/-- The forms that are written are the normal ones. -/
theorem fields_eq_iff (h : key.SpelledBy forms) : key.fields = forms ↔ key.IsNormal forms := by
  cases h with
  | dsa p q g y => simp [fields, DsaPublicKey.fields, IsNormal, Mpint.body_ofMagnitude_eq_iff]
  | @ecdsa curve point octets h =>
      have hoctets := Point.octets_eq_iff h
      simp only [fields, EcdsaPublicKey.fields, IsNormal, List.cons.injEq, true_and, and_true]
      exact hoctets
  | rsa e n => simp [fields, RsaPublicKey.fields, IsNormal, Mpint.body_ofMagnitude_eq_iff]

/-- A key can be written unless one of the forms it was read from is too long for its sign byte. -/
theorem fits_fields_iff (h : key.SpelledBy forms) (hfit : ∀ form ∈ forms, Fits form) :
    (∀ field ∈ key.fields, Fits field) ↔ ∀ form ∈ forms, ¬Mpint.IsOverlong form := by
  have hnumber : ∀ form ∈ forms,
      (Fits (Mpint.ofMagnitude form).body ↔ ¬Mpint.IsOverlong form) := fun form hform => by
    rw [← Mpint.not_fits_body_iff (hfit form hform), Decidable.not_not]
  cases h with
  | dsa p q g y =>
      simp only [List.forall_mem_cons, List.not_mem_nil] at hnumber
      simp [fields, DsaPublicKey.fields, hnumber]
  | ecdsa h =>
      have hpoint := Point.fits_octets (Point.within_of_ofOctets h)
      simp [fields, EcdsaPublicKey.fields, Curve.fits_name, hpoint, Curve.not_isOverlong_name,
        Point.not_isOverlong h]
  | rsa e n =>
      simp only [List.forall_mem_cons, List.not_mem_nil] at hnumber
      simp [fields, RsaPublicKey.fields, hnumber]

/-- A field that is written is at most a sign byte longer than the form it was read from. -/
theorem length_fields_le (h : key.SpelledBy forms) (hfit : ∀ form ∈ forms, Fits form) :
    ∀ field ∈ key.fields, field.length ≤ 2 ^ 31 := by
  have hnumber : ∀ form ∈ forms, (Mpint.ofMagnitude form).body.length ≤ 2 ^ 31 := by
    intro form hform
    have hbody := Mpint.length_body_le (Mpint.ofMagnitude form)
    have hmagnitude := Mpint.length_ofMagnitude_le form
    have hlength := fits_iff.1 (hfit form hform)
    omega
  cases h with
  | dsa p q g y => simpa [fields, DsaPublicKey.fields] using hnumber
  | @ecdsa curve point octets h =>
      have hname := Nat.le_of_lt (fits_iff.1 curve.fits_name)
      have hpoint := Nat.le_of_lt (fits_iff.1 (Point.fits_octets (Point.within_of_ofOctets h)))
      simpa [fields, EcdsaPublicKey.fields] using ⟨hname, hpoint⟩
  | rsa e n => simpa [fields, RsaPublicKey.fields] using hnumber

theorem toBytes_of_isOverlong (h : key.SpelledBy forms) (hfit : ∀ form ∈ forms, Fits form)
    (hlong : ∃ form ∈ forms, Mpint.IsOverlong form) : key.toBytes = .error (.wire .overflow) := by
  have hunfit : ∃ field ∈ key.fields, ¬Fits field := by
    have hnot := mt (fits_fields_iff h hfit).1 fun hall => by
      obtain ⟨form, hform, hoverlong⟩ := hlong
      exact hall form hform hoverlong
    simpa using hnot
  obtain ⟨field, hfield, hunfit⟩ := hunfit
  have hsized := h.wellSized
  refine (spells_encoding hsized).toBytes_of_not_fits (List.mem_cons_of_mem _ hfield) hunfit
    (length_prefixedAll_lt ?_ ?_)
  · have hname := Nat.le_of_lt (fits_iff.1 (Algorithm.fits_name h.isBuiltin))
    exact List.forall_mem_cons.2 ⟨hname, length_fields_le h hfit⟩
  · have hlength := hsized.length_fields_le
    rw [List.length_cons]
    omega

/-! ### Accepted blobs -/

/-- A blob is accepted exactly if it is made up of a key type and one form of each field. -/
theorem ofBytes_eq_ok_iff {blob : Bytes} :
    ofBytes blob = .ok key ↔ ∃ forms, key.SpelledBy forms ∧ (∀ form ∈ forms, Fits form) ∧
      blob = prefixedAll (utf8Bytes key.algorithm.name :: forms) := by
  rw [ofBytes, Decoder.ofBytes_eq_ok, reads_decoder]
  simp only [List.append_nil]

/-- No form of a point or of the name of its curve is too long. -/
theorem SpelledBy.not_isOverlong {onCurve : EcdsaPublicKey}
    (h : (PublicKey.ecdsa onCurve).SpelledBy forms) : ∀ form ∈ forms, ¬Mpint.IsOverlong form := by
  cases h with
  | @ecdsa curve point octets h =>
      simp [Curve.not_isOverlong_name, Point.not_isOverlong h]

/-- The key type of a key on a curve ends in the name of the curve, which stands first among its
fields. -/
theorem SpelledBy.curve_eq {onCurve : EcdsaPublicKey}
    (h : (PublicKey.ecdsa onCurve).SpelledBy forms) :
    (PublicKey.ecdsa onCurve).algorithm.name = "ecdsa-sha2-" ++ onCurve.curve.name ∧
      ∃ octets, forms = [utf8Bytes onCurve.curve.name, octets] := by
  cases h with
  | @ecdsa curve point octets h =>
      refine ⟨?_, octets, rfl⟩
      cases curve <;> rfl

/-- A key whose numbers all have room for a sign byte is written, and read back.  What is written is
what it was read from exactly if the forms are normal. -/
theorem SpelledBy.exists_written (h : key.SpelledBy forms) (hfit : ∀ form ∈ forms, Fits form)
    (hshort : ∀ form ∈ forms, ¬Mpint.IsOverlong form) :
    ∃ written, key.toBytes = .ok written ∧ ofBytes written = .ok key ∧
      (written = prefixedAll (utf8Bytes key.algorithm.name :: forms) ↔ key.IsNormal forms) := by
  have hfields := (fits_fields_iff h hfit).2 hshort
  have hsized := h.wellSized
  refine ⟨_, toBytes_eq hsized hfields, ?_, ?_⟩
  · exact ofBytes_eq_ok_iff.2 ⟨key.fields, hsized.spelledBy_fields, hfields, rfl⟩
  · -- the blobs are equal if the strings in them are
    rw [← fields_eq_iff h]
    constructor
    · intro hsame
      rw [prefixedAll_cons, prefixedAll_cons, List.append_cancel_left_eq] at hsame
      exact prefixedAll_inj hfields hfit hsame
    · intro hsame
      rw [hsame]

/-- **Every accepted blob outside the gap has one normal form.**  A blob is the key type and one
form of each field.  If none of them is too long for the sign byte it lacks, a blob is written for
the key, which is the same one exactly if the forms are normal; otherwise the key is not written.
Neither an extension nor a beginning of an accepted blob is accepted. -/
theorem ofBytes_normal_form {blob : Bytes} (h : ofBytes blob = .ok key) :
    ∃ forms, key.SpelledBy forms ∧ (∀ form ∈ forms, form.length < 2 ^ 31) ∧
      blob = prefixedAll (utf8Bytes key.algorithm.name :: forms) ∧
      (∀ onCurve, key = .ecdsa onCurve →
        (key.algorithm.name = "ecdsa-sha2-" ++ onCurve.curve.name ∧
          ∃ octets, forms = [utf8Bytes onCurve.curve.name, octets]) ∧
        ∀ form ∈ forms, ¬Mpint.IsOverlong form) ∧
      ((∀ form ∈ forms, ¬Mpint.IsOverlong form) → ∃ written, key.toBytes = .ok written ∧
        ofBytes written = .ok key ∧ (written = blob ↔ key.IsNormal forms)) ∧
      ((∃ form ∈ forms, Mpint.IsOverlong form) → key.toBytes = .error (.wire .overflow)) ∧
      (∀ more, more ≠ [] → ∀ other, ofBytes (blob ++ more) ≠ .ok other) ∧
      ∀ front more, blob = front ++ more → more ≠ [] → ∀ other, ofBytes front ≠ .ok other := by
  obtain ⟨forms, hspelled, hfit, rfl⟩ := ofBytes_eq_ok_iff.1 h
  refine ⟨forms, hspelled, fun form hform => fits_iff.1 (hfit form hform), rfl, ?_, ?_, ?_, ?_, ?_⟩
  · rintro onCurve rfl
    exact ⟨hspelled.curve_eq, hspelled.not_isOverlong⟩
  · exact hspelled.exists_written hfit
  · exact toBytes_of_isOverlong hspelled hfit
  · -- what follows an accepted blob is left unread
    intro more hmore other haccepted
    exact hmore (steady_decoder.eq_nil_of_reads (Decoder.ofBytes_eq_ok.1 h)
      (Decoder.ofBytes_eq_ok.1 haccepted))
  · intro front more hsplit hmore other haccepted
    rw [hsplit] at h
    exact hmore (steady_decoder.eq_nil_of_reads (Decoder.ofBytes_eq_ok.1 haccepted)
      (Decoder.ofBytes_eq_ok.1 h))

/-- An RSA blob with a zero byte too many and a sign byte too few is accepted and comes back in
its normal form. -/
theorem ofBytes_normal_form_lenient :
    ofBytes (prefixedAll [utf8Bytes "ssh-rsa", [0, 3], [0xff]]) =
      .ok (.rsa ⟨.ofMagnitude [3], .ofMagnitude [0xff]⟩) ∧
    ∃ written, (rsa ⟨.ofMagnitude [3], .ofMagnitude [0xff]⟩).toBytes = .ok written ∧
      ofBytes written = .ok (.rsa ⟨.ofMagnitude [3], .ofMagnitude [0xff]⟩) ∧
      written ≠ prefixedAll [utf8Bytes "ssh-rsa", [0, 3], [0xff]] := by
  have haccepted : ofBytes (prefixedAll [utf8Bytes "ssh-rsa", [0, 3], [0xff]]) =
      .ok (.rsa ⟨.ofMagnitude [3], .ofMagnitude [0xff]⟩) := rfl
  have hblob : (rsa ⟨.ofMagnitude [3], .ofMagnitude [0xff]⟩).toBytes =
      .ok (prefixedAll [utf8Bytes "ssh-rsa", [3], [0, 0xff]]) := rfl
  refine ⟨haccepted, ?_⟩
  obtain ⟨forms, -, -, -, -, hwritten, hrefused, -⟩ := ofBytes_normal_form haccepted
  have hshort : ∀ form ∈ forms, ¬Mpint.IsOverlong form := by
    intro form hform hlong
    have herror := hrefused ⟨form, hform, hlong⟩
    rw [hblob] at herror
    cases herror
  obtain ⟨written, hwritten, hread, -⟩ := hwritten hshort
  refine ⟨written, hwritten, hread, ?_⟩
  obtain rfl := Except.ok.inj (hblob.symm.trans hwritten)
  decide

/-- The gap is there: a modulus of `2 ^ 31 - 1` bytes without a sign byte is read and cannot be
written. -/
theorem exists_unwritable :
    ∃ key, ofBytes (prefixedAll [utf8Bytes "ssh-rsa", [3], List.replicate maxLength 0xff]) =
      .ok key ∧ key.toBytes = .error (.wire .overflow) := by
  have hfit : ∀ form ∈ [[3], List.replicate maxLength 0xff], Fits form := by
    simp only [List.forall_mem_cons, Fits, List.length_replicate]
    simp [maxLength]
  have hlong : Mpint.IsOverlong (List.replicate maxLength 0xff) := by
    refine ⟨List.length_replicate, 0xff, List.replicate (maxLength - 1) 0xff, ?_, by decide⟩
    rw [← List.replicate_succ]
    rfl
  have hspelled := SpelledBy.rsa [3] (List.replicate maxLength 0xff)
  exact ⟨_, ofBytes_eq_ok_iff.2 ⟨_, hspelled, hfit, rfl⟩,
    toBytes_of_isOverlong hspelled hfit ⟨_, by simp, hlong⟩⟩

end PublicKey

end SshKeys
