/-
**The wire forms of a multiple-precision integer.**

A number is read from any byte string, so that a number has many forms: zero bytes in front of the
magnitude do not count, and the sign byte may be left out.  Exactly one form is written, the
shortest one in two's complement.  It is the form a byte string has when nothing about it is lost
in reading.

Main definitions:

* `SshKeys.Mpint.body` — the form that is written, without its length;
* `SshKeys.Mpint.IsMinimal` — the shortest forms;
* `SshKeys.Mpint.IsOverlong` — the longest forms that lack a sign byte.

Main results:

* `SshKeys.Mpint.reads_decoder`, `SshKeys.Mpint.spells_encoding` — reading and writing;
* `SshKeys.Mpint.body_ofMagnitude_eq_iff` — **a form comes back exactly if it is minimal**;
* `SshKeys.Mpint.not_fits_body_iff` — the one kind of number that is read and cannot be written.
-/

import SshKeys.Proofs.Writes
import SshKeys.Wire.Mpint

set_option relaxedAutoImplicit false
set_option autoImplicit false

namespace SshKeys.Mpint

/-! ### Magnitudes -/

theorem ext {m n : Mpint} (h : m.magnitude = n.magnitude) : m = n := by
  cases m
  cases n
  cases h
  rfl

/-- A byte string that does not start with a zero byte has none to lose. -/
theorem stripZeros_of_head? {bs : Bytes} (h : bs.head? ≠ some 0) : stripZeros bs = bs := by
  cases bs with
  | nil => rfl
  | cons b bs =>
      have hb : b ≠ 0 := by simpa using h
      simp [stripZeros, hb]

@[simp] theorem ofMagnitude_magnitude (m : Mpint) : ofMagnitude m.magnitude = m :=
  ext (stripZeros_of_head? m.minimal)

@[simp] theorem ofMagnitude_cons_zero (bs : Bytes) : ofMagnitude (0 :: bs) = ofMagnitude bs :=
  ext (by simp [ofMagnitude, stripZeros])

theorem ofMagnitude_append_replicate (count : Nat) (bs : Bytes) :
    ofMagnitude (List.replicate count 0 ++ bs) = ofMagnitude bs := by
  induction count with
  | zero => rfl
  | succ count ih => rw [List.replicate_succ, List.cons_append, ofMagnitude_cons_zero, ih]

theorem length_ofMagnitude_le (bs : Bytes) : (ofMagnitude bs).magnitude.length ≤ bs.length :=
  (List.dropWhile_sublist _).length_le

/-! ### The form that is written -/

/-- The shortest form in two's complement. -/
def body (m : Mpint) : Bytes := if m.needsPad then 0 :: m.magnitude else m.magnitude

/-- What is written is read back. -/
@[simp] theorem ofMagnitude_body (m : Mpint) : ofMagnitude m.body = m := by
  unfold body
  split
  · rw [ofMagnitude_cons_zero, ofMagnitude_magnitude]
  · exact ofMagnitude_magnitude m

theorem length_body_le (m : Mpint) : m.body.length ≤ m.magnitude.length + 1 := by
  unfold body
  split <;> simp

theorem spells_encoding (m : Mpint) : m.encoding.Spells [m.body] := by
  unfold encoding body
  split
  · refine ⟨checkedSum_congr (by simp; omega), ?_⟩
    -- the two writes behind the length come to one write of both
    have hlength : 1 + m.magnitude.length = (0 :: m.magnitude).length := Nat.add_comm _ _
    rw [hlength, ← (Encoding.spells_string (0 :: m.magnitude)).result]
    change _ = (Emission.string (0 :: m.magnitude)).result
    rw [Emission.string, Emission.result_append, Emission.result_append, Emission.result_append]
    cases (Emission.length (0 :: m.magnitude).length).result with
    | error error => rfl
    | ok front => simp [bind, Except.bind, Functor.map, Except.map]
  · exact ⟨checkedSum_congr (by simp), (Encoding.spells_string m.magnitude).result⟩

/-- Reading a number: any byte string behind its length. -/
@[simp] theorem reads_decoder {m : Mpint} {bs rest : Bytes} :
    decoder.Reads bs m rest ↔
      ∃ form, Fits form ∧ ofMagnitude form = m ∧ bs = prefixed form ++ rest := by
  simp only [decoder, Decoder.reads_bind, Decoder.reads_string, Decoder.reads_pure]
  constructor
  · rintro ⟨form, mid, ⟨hfit, rfl⟩, rfl, rfl⟩
    exact ⟨form, hfit, rfl, rfl⟩
  · rintro ⟨form, hfit, rfl, rfl⟩
    exact ⟨form, rest, ⟨hfit, rfl⟩, rfl, rfl⟩

theorem reads_body {m : Mpint} (hfit : Fits m.body) (rest : Bytes) :
    decoder.Reads (prefixed m.body ++ rest) m rest :=
  reads_decoder.2 ⟨m.body, hfit, ofMagnitude_body m, rfl⟩

theorem steady_decoder : decoder.Steady :=
  Decoder.steady_string.bind fun _ => .done _

/-! ### Minimal forms -/

/-- The shortest forms: the empty string for zero, a byte string that neither starts with a zero
byte nor looks negative, and one that would look negative behind a zero byte. -/
inductive IsMinimal : Bytes → Prop
  | zero : IsMinimal []
  | plain (b : UInt8) (rest : Bytes) (positive : 0x01 ≤ b) (unsigned : b ≤ 0x7f) :
      IsMinimal (b :: rest)
  | padded (b : UInt8) (rest : Bytes) (signed : 0x80 ≤ b) : IsMinimal (0 :: b :: rest)

theorem isMinimal_body (m : Mpint) : IsMinimal m.body := by
  obtain ⟨magnitude, hminimal⟩ := m
  cases magnitude with
  | nil => exact .zero
  | cons b rest =>
      have hb : b ≠ 0 := by simpa using hminimal
      by_cases hsigned : 0x80 ≤ b
      · simpa [body, needsPad, hsigned] using IsMinimal.padded b rest hsigned
      · have hplain : 0x01 ≤ b ∧ b ≤ 0x7f := by
          simp only [UInt8.le_iff_toNat_le, ← UInt8.toNat_inj, ne_eq] at hb hsigned ⊢
          simp at hb hsigned ⊢
          omega
        simpa [body, needsPad, hsigned] using IsMinimal.plain b rest hplain.1 hplain.2

/-- **A form comes back exactly if it is minimal.** -/
theorem body_ofMagnitude_eq_iff {form : Bytes} : (ofMagnitude form).body = form ↔ IsMinimal form := by
  constructor
  · intro h
    rw [← h]
    exact isMinimal_body _
  · intro h
    cases h with
    | zero => rfl
    | plain b rest hpositive hunsigned =>
        have hb : b ≠ 0 := by
          rintro rfl
          exact absurd hpositive (by decide)
        have hsigned : ¬0x80 ≤ b := by
          simp only [UInt8.le_iff_toNat_le] at hunsigned ⊢
          simp at hunsigned ⊢
          omega
        simp [body, needsPad, ofMagnitude, stripZeros, hb, hsigned]
    | padded b rest hsigned =>
        have hb : b ≠ 0 := by
          rintro rfl
          exact absurd hsigned (by decide)
        simp [body, needsPad, ofMagnitude, stripZeros, hb, hsigned]

/-- A form as long as a length prefix allows that would look negative and has no sign byte. -/
def IsOverlong (form : Bytes) : Prop :=
  form.length = maxLength ∧ ∃ b rest, form = b :: rest ∧ 0x80 ≤ b

/-- The one kind of number that is read and cannot be written. -/
theorem not_fits_body_iff {form : Bytes} (hfit : Fits form) :
    ¬Fits (ofMagnitude form).body ↔ IsOverlong form := by
  unfold IsOverlong
  cases form with
  | nil => simp [Fits, body, needsPad, ofMagnitude, stripZeros]
  | cons b rest =>
      by_cases hb : b = 0
      · -- a zero byte in front makes room for the sign byte
        have hlength := length_body_le (ofMagnitude rest)
        have hshorter := length_ofMagnitude_le rest
        have hbound : rest.length + 1 ≤ maxLength := hfit
        have hwritten : Fits (ofMagnitude rest).body := by
          rw [Fits]
          omega
        simp [hb, hwritten]
      · have hmagnitude : (ofMagnitude (b :: rest)).magnitude = b :: rest :=
          stripZeros_of_head? (by simpa using hb)
        by_cases hsigned : 0x80 ≤ b
        · simp [Fits, body, needsPad, hmagnitude, hsigned] at hfit ⊢
          omega
        · simp [Fits, body, needsPad, hmagnitude, hsigned] at hfit ⊢
          omega

end SshKeys.Mpint
