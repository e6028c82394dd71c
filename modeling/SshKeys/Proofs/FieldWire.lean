/-
**The wire form of fields.**

A field stands on the wire as its bytes, or as a byte string behind its length.  Writing the first
kind never fails.  Writing the second fails if the string is too long for its length, and then
nothing of it has been written.

Main definitions:

* `SshKeys.WireForm` — bytes, or a byte string behind its length;
* `SshKeys.Field.form` — the wire form of a field.

Main results:

* `SshKeys.Field.adds_put` — **writing a field adds its wire form to a buffer, or nothing**.
-/

import SshKeys.Proofs.BufferWrites
import SshKeys.Proofs.MpintForms
import SshKeys.Wire.Field

set_option relaxedAutoImplicit false
set_option autoImplicit false

namespace SshKeys

/-! ### Emissions in a row -/

theorem Emission.append_assoc (a b c : Emission) : a ++ b ++ c = a ++ (b ++ c) := by
  change (a.append b).append c = a.append (b.append c)
  obtain ⟨writes, _ | error⟩ := a
  · obtain ⟨writes', _ | error⟩ := b
    · simp only [append, List.append_assoc]
    · rfl
  · rfl

/-! ### Forms -/

/-- How a value stands on the wire. -/
inductive WireForm where
  /-- As bytes whose number is known. -/
  | plain (bs : Bytes)
  /-- As a byte string behind its length. -/
  | framed (bs : Bytes)

namespace WireForm

/-- The bytes on the wire. -/
def bytes : WireForm → Bytes
  | plain bs => bs
  | framed bs => prefixed bs

/-- Whether the form can be written: a length in front of it has to be one that can be read. -/
def Writable : WireForm → Prop
  | plain _ => True
  | framed bs => Fits bs

instance : (form : WireForm) → Decidable form.Writable
  | plain _ => inferInstanceAs (Decidable True)
  | framed bs => inferInstanceAs (Decidable (Fits bs))

/-- How the writing of a form ends. -/
def verdict (form : WireForm) : Except Error Unit :=
  if form.Writable then .ok () else .error (.wire .overflow)

/-- The bytes that are written of a form. -/
def written (form : WireForm) : Bytes :=
  if form.Writable then form.bytes else []

/-- An emission writes a form, or nothing if it cannot be written. -/
structure WrittenBy (form : WireForm) (e : Emission) : Prop where
  verdict_eq : e.verdict = form.verdict
  bytes_eq : e.bytes = form.written

theorem plain_writtenBy (bs : Bytes) : (plain bs).WrittenBy (.write bs) :=
  ⟨rfl, List.append_nil bs⟩

/-- A length and what follows it write a byte string behind its length. -/
theorem framed_writtenBy {bs : Bytes} {e : Emission} (hstop : e.stop = none)
    (hbytes : e.bytes = bs) :
    (framed bs).WrittenBy (.length bs.length ++ e) := by
  change (framed bs).WrittenBy ((Emission.length bs.length).append e)
  by_cases hfits : bs.length ≤ maxLength
  · constructor
    · simp [Emission.length, hfits, Emission.append, Emission.write, Emission.verdict, verdict,
        Writable, Fits, hstop]
    · have hflat : e.writes.flatten = bs := hbytes
      simp [Emission.length, hfits, Emission.append, Emission.write, Emission.bytes, written,
        Writable, Fits, bytes, prefixed, hflat]
  · constructor
    · simp [Emission.length, hfits, Emission.append, Emission.fail, Emission.verdict, verdict,
        Writable, Fits]
    · simp [Emission.length, hfits, Emission.append, Emission.fail, Emission.bytes, written,
        Writable, Fits]

theorem string_writtenBy (bs : Bytes) : (framed bs).WrittenBy (.string bs) :=
  framed_writtenBy rfl (List.append_nil bs)

end WireForm

/-! ### Fields -/

/-- The sign byte and the magnitude of a number are two writes. -/
theorem Mpint.form_writtenBy (m : Mpint) :
    (WireForm.framed m.body).WrittenBy m.encoding.emission := by
  unfold Mpint.encoding Mpint.body
  split
  · have hlength : 1 + m.magnitude.length = (0 :: m.magnitude).length := Nat.add_comm _ _
    rw [hlength, Emission.append_assoc]
    exact WireForm.framed_writtenBy rfl (congrArg _ (List.append_nil m.magnitude))
  · exact WireForm.string_writtenBy _

namespace Field

/-- The wire form of a field. -/
def form : Field → WireForm
  | boolean value => .plain [if value then 1 else 0]
  | byte value => .plain (bigEndian 1 value.toNat)
  | uint16 value => .plain (bigEndian 2 value.toNat)
  | uint32 value => .plain (bigEndian 4 value.toNat)
  | uint64 value => .plain (bigEndian 8 value.toNat)
  | array value => .plain value
  | string value => .framed value
  | text value => .framed (utf8Bytes value)
  | mpint value => .framed value.body
  | algorithm value => .framed (utf8Bytes value.name)
  | curve value => .framed (utf8Bytes value.name)
  | hash value => .framed (utf8Bytes value.name)

theorem form_writtenBy (field : Field) : field.form.WrittenBy field.encoding.emission := by
  cases field with
  | boolean value => exact WireForm.plain_writtenBy _
  | byte value => exact WireForm.plain_writtenBy _
  | uint16 value => exact WireForm.plain_writtenBy _
  | uint32 value => exact WireForm.plain_writtenBy _
  | uint64 value => exact WireForm.plain_writtenBy _
  | array value => exact WireForm.plain_writtenBy _
  | string value => exact WireForm.string_writtenBy _
  | text value => exact WireForm.string_writtenBy _
  | mpint value => exact value.form_writtenBy
  | algorithm value => exact WireForm.string_writtenBy _
  | curve value => exact WireForm.string_writtenBy _
  | hash value => exact WireForm.string_writtenBy _

/-- **Writing a field adds its wire form to a buffer, or nothing** if it cannot be written. -/
theorem adds_put (field : Field) :
    Buffer.Adds (Buffer.put field.encoding) field.form.verdict field.form.written := by
  rw [← field.form_writtenBy.verdict_eq, ← field.form_writtenBy.bytes_eq]
  exact Buffer.adds_put field.encoding

end Field

end SshKeys
