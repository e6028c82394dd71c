/-
**Numbers in two's complement.**

A byte string whose first bit is set spells a negative number in two's complement, and every other
one spells the same number as without signs.  So a natural number has one shortest form, and all its
other forms are this one behind zero bytes.  The shortest form is the one that a number is written
in, although the numbers that are read may come in any form, even in one that looks negative.

Main definitions:

* `SshKeys.StartsSigned` — the first bit is set;
* `SshKeys.signedOfBytes` — the number a byte string spells in two's complement;
* `SshKeys.IsShortest` — a form that is shorter than every other form of its number.

Main results:

* `SshKeys.Mpint.signedOfBytes_eq_toNat_iff` — all forms of a number;
* `SshKeys.Mpint.isShortest_body` — what is written is the shortest form;
* `SshKeys.Mpint.ofSigned_eq` — reading signed bytes refuses the negative numbers and no others;
* `SshKeys.Mpint.wire_form_canonical` — **any form is read as its unsigned number, and the number is
  written in its shortest form**.
-/

import SshKeys.Proofs.PointForms

set_option relaxedAutoImplicit false
set_option autoImplicit false

namespace SshKeys

/-! ### Signed numbers -/

/-- The first bit of a byte string is set. -/
def StartsSigned : Bytes → Prop
  | [] => False
  | b :: _ => 0x80 ≤ b

instance : (bs : Bytes) → Decidable (StartsSigned bs)
  | [] => inferInstanceAs (Decidable False)
  | b :: _ => inferInstanceAs (Decidable (0x80 ≤ b))

/-- A zero byte in front takes the sign away. -/
theorem not_startsSigned_zero_cons (bs : Bytes) : ¬StartsSigned (0 :: bs) := by
  change ¬(0x80 : UInt8) ≤ 0
  decide

/-- The number a byte string spells in two's complement. -/
def signedOfBytes (bs : Bytes) : Int :=
  natOfBytes bs - (if StartsSigned bs then 256 ^ bs.length else 0 : Nat)

theorem signedOfBytes_of_not_startsSigned {bs : Bytes} (h : ¬StartsSigned bs) :
    signedOfBytes bs = natOfBytes bs := by
  rw [signedOfBytes, if_neg h]
  omega

/-- The negative numbers are those whose first bit is set. -/
theorem signedOfBytes_neg_iff {bs : Bytes} : signedOfBytes bs < 0 ↔ StartsSigned bs := by
  constructor
  · intro hneg
    refine Decidable.byContradiction fun hplain => ?_
    rw [signedOfBytes_of_not_startsSigned hplain] at hneg
    omega
  · intro hsigned
    have hlt := natOfBytes_lt bs
    rw [signedOfBytes, if_pos hsigned]
    omega

/-- The forms of a natural number are its unsigned forms whose first bit is not set. -/
theorem signedOfBytes_eq_natCast_iff {bs : Bytes} {n : Nat} :
    signedOfBytes bs = n ↔ natOfBytes bs = n ∧ ¬StartsSigned bs := by
  constructor
  · intro h
    have hplain : ¬StartsSigned bs := by
      rw [← signedOfBytes_neg_iff, h]
      omega
    rw [signedOfBytes_of_not_startsSigned hplain] at h
    exact ⟨Int.ofNat_inj.1 h, hplain⟩
  · rintro ⟨rfl, hplain⟩
    exact signedOfBytes_of_not_startsSigned hplain

/-- A form of a number that is shorter than every other form of it. -/
structure IsShortest (form : Bytes) (n : Nat) : Prop where
  value : signedOfBytes form = n
  shortest : ∀ other, signedOfBytes other = n → other ≠ form → form.length < other.length

/-- A number has only one shortest form. -/
theorem IsShortest.unique {form form' : Bytes} {n : Nat} (h : IsShortest form n)
    (h' : IsShortest form' n) : form = form' := by
  refine Decidable.byContradiction fun hne => ?_
  have hless := h.shortest form' h'.value (Ne.symm hne)
  have hmore := h'.shortest form h.value hne
  omega

namespace Mpint

variable {m : Mpint} {form : Bytes}

/-! ### The forms of a number -/

/-- An unsigned form is the magnitude behind zero bytes. -/
theorem exists_zeros (bs : Bytes) :
    ∃ zeros, bs = List.replicate zeros 0 ++ (ofMagnitude bs).magnitude := by
  induction bs with
  | nil => exact ⟨0, rfl⟩
  | cons b bs ih =>
      by_cases hb : b = 0
      · obtain ⟨zeros, hzeros⟩ := ih
        refine ⟨zeros + 1, ?_⟩
        rw [hb, ofMagnitude_cons_zero, List.replicate_succ, List.cons_append, ← hzeros]
      · have hmagnitude : (ofMagnitude (b :: bs)).magnitude = b :: bs :=
          stripZeros_of_head? (by simpa using hb)
        exact ⟨0, hmagnitude.symm⟩

theorem needsPad_iff : m.needsPad = true ↔ StartsSigned m.magnitude := by
  unfold needsPad
  cases m.magnitude with
  | nil => simp [StartsSigned]
  | cons b rest => simp [StartsSigned]

theorem not_startsSigned_body (m : Mpint) : ¬StartsSigned m.body := by
  unfold body
  split
  · exact not_startsSigned_zero_cons m.magnitude
  · next hplain => exact mt needsPad_iff.2 hplain

@[simp] theorem natOfBytes_body (m : Mpint) : natOfBytes m.body = m.toNat := by
  rw [← toNat_ofMagnitude, ofMagnitude_body]

/-- **All forms of a number** in two's complement: the one that is written, behind zero bytes. -/
theorem signedOfBytes_eq_toNat_iff :
    signedOfBytes form = m.toNat ↔ ∃ zeros, form = List.replicate zeros 0 ++ m.body := by
  rw [signedOfBytes_eq_natCast_iff]
  constructor
  · rintro ⟨hvalue, hplain⟩
    obtain rfl : ofMagnitude form = m :=
      eq_of_toNat_eq ((toNat_ofMagnitude form).trans hvalue)
    obtain ⟨zeros, hzeros⟩ := exists_zeros form
    rw [body]
    split
    · next hpad =>
        -- a magnitude that looks negative has a zero byte in front of it
        cases zeros with
        | zero =>
            rw [List.replicate_zero, List.nil_append] at hzeros
            rw [needsPad_iff, ← hzeros] at hpad
            exact absurd hpad hplain
        | succ zeros =>
            refine ⟨zeros, ?_⟩
            rw [List.replicate_succ', List.append_assoc] at hzeros
            exact hzeros
    · exact ⟨zeros, hzeros⟩
  · rintro ⟨zeros, rfl⟩
    constructor
    · rw [← toNat_ofMagnitude, ofMagnitude_append_replicate, ofMagnitude_body]
    · cases zeros with
      | zero => exact not_startsSigned_body m
      | succ zeros => exact not_startsSigned_zero_cons _

/-- What is written is the shortest form. -/
theorem isShortest_body (m : Mpint) : IsShortest m.body m.toNat where
  value := signedOfBytes_eq_toNat_iff.2 ⟨0, rfl⟩
  shortest other hvalue hother := by
    obtain ⟨zeros, rfl⟩ := signedOfBytes_eq_toNat_iff.1 hvalue
    have hzeros : zeros ≠ 0 := by
      rintro rfl
      exact hother rfl
    rw [List.length_append, List.length_replicate]
    omega

/-- Only zero is written with no byte at all. -/
theorem body_eq_nil_iff : m.body = [] ↔ m.toNat = 0 := by
  constructor
  · intro h
    rw [← natOfBytes_body, h]
    rfl
  · intro h
    have hzero : m = ofMagnitude [] := eq_of_toNat_eq h
    rw [hzero]
    rfl

/-! ### Signed bytes -/

/-- Signed bytes are refused if they spell a negative number, and are read as unsigned ones
otherwise. -/
theorem ofSigned_eq (bs : Bytes) :
    ofSigned bs =
      if StartsSigned bs then .error (.wire .negativeMpint) else .ok (ofMagnitude bs) := by
  cases bs with
  | nil => rfl
  | cons b rest => rfl

theorem ofSigned_body (m : Mpint) : ofSigned m.body = .ok m := by
  rw [ofSigned_eq, if_neg (not_startsSigned_body m), ofMagnitude_body]

/-! ### The wire -/

theorem run_decoder (hfit : Fits form) (rest : Bytes) :
    decoder.run (prefixed form ++ rest) = .ok (ofMagnitude form) rest :=
  reads_decoder.2 ⟨form, hfit, rfl, rfl⟩

theorem toBytes_eq (hfit : Fits m.body) : m.encoding.toBytes = .ok (prefixed m.body) := by
  have hwritten := ((spells_encoding m).toBytes_eq (by simpa using hfit) (by simp)).1
  rwa [prefixedAll_cons, prefixedAll_nil, List.append_nil] at hwritten

/-- There is room for a sign byte in front of every form that is a byte shorter than a length prefix
allows. -/
theorem fits_body_of_length_lt (h : form.length < maxLength) : Fits (ofMagnitude form).body := by
  have hbody := length_body_le (ofMagnitude form)
  have hmagnitude := length_ofMagnitude_le form
  rw [Fits]
  omega

/-- **Any form is read as its unsigned number, and the number is written in its shortest form.**
The shortest form is minimal, and it is empty for zero alone.  It is read back as the number, from
the wire and as signed bytes, and it is the form that was read exactly if that was minimal.  Two
forms are read as one number exactly if they spell the same number without signs.  As signed bytes,
a form that starts with a set bit is refused, and every other form is read as from the wire. -/
theorem wire_form_canonical (form : Bytes) (hshort : form.length < 2 ^ 31 - 1) :
    ∃ (m : Mpint) (shortest : Bytes),
      m.toNat = natOfBytes form ∧
      (∀ rest, decoder.run (prefixed form ++ rest) = .ok m rest) ∧
      m.encoding.toBytes = .ok (prefixed shortest) ∧
      IsShortest shortest m.toNat ∧ IsMinimal shortest ∧ (shortest = [] ↔ m.toNat = 0) ∧
      (∀ rest, decoder.run (prefixed shortest ++ rest) = .ok m rest) ∧
      ofSigned shortest = .ok m ∧
      (shortest = form ↔ IsMinimal form) ∧
      (∀ (other : Bytes) (m' : Mpint), other.length < 2 ^ 31 - 1 →
        decoder.run (prefixed other) = .ok m' ([] : Bytes) →
          (m' = m ↔ natOfBytes other = natOfBytes form)) ∧
      (ofSigned form = .error (.wire .negativeMpint) ↔ StartsSigned form) ∧
      (¬StartsSigned form → ofSigned form = .ok m) := by
  have hfit : Fits form := Nat.le_of_lt hshort
  have hbody : Fits (ofMagnitude form).body := fits_body_of_length_lt hshort
  refine ⟨ofMagnitude form, (ofMagnitude form).body, toNat_ofMagnitude form, run_decoder hfit,
    toBytes_eq hbody, isShortest_body _, isMinimal_body _, body_eq_nil_iff,
    reads_body hbody, ofSigned_body _, body_ofMagnitude_eq_iff, ?_, ?_, ?_⟩
  · intro other m' hother hread
    have hread' := run_decoder (Nat.le_of_lt hother) []
    rw [List.append_nil] at hread'
    obtain ⟨rfl, -⟩ := Decoder.Reads.unique hread hread'
    rw [eq_ofMagnitude_iff, toNat_ofMagnitude]
  · rw [ofSigned_eq]
    split
    · next hsigned => exact iff_of_true rfl hsigned
    · next hplain => exact iff_of_false (by simp) hplain
  · intro hplain
    rw [ofSigned_eq, if_neg hplain]

/-- A byte that looks negative is read as 255, and written behind a zero byte. -/
theorem wire_form_canonical_signed :
    [0xff].length < 2 ^ 31 - 1 ∧ ∃ m : Mpint, m.toNat = 255 ∧
      decoder.run (prefixed [0xff] ++ [1, 2]) = .ok m [1, 2] ∧
      m.encoding.toBytes = .ok (prefixed [0, 0xff]) ∧
      ofSigned [0xff] = .error (.wire .negativeMpint) ∧ ofSigned [0, 0xff] = .ok m := by
  obtain ⟨m, shortest, hvalue, hread, hwritten, hshortest, -, -, -, hsigned, -, -, hrefused, -⟩ :=
    wire_form_canonical [0xff] (by decide)
  have hpadded : IsShortest [0, 0xff] m.toNat := by
    rw [hvalue]
    exact isShortest_body (ofMagnitude [0xff])
  obtain rfl := hshortest.unique hpadded
  exact ⟨by decide, m, hvalue, hread [1, 2], hwritten, hrefused.2 (by decide), hsigned⟩

end Mpint

end SshKeys
