/-
**Fields in a row come back.**

A list of fields is written one field after another, with nothing between them and nothing that
says how many there are.  The list of their kinds is enough to read them again: each kind of field
says where its field ends.  So what is read does not depend on what follows the last field, and a
stream that is cut off anywhere is not read as another list.

Two things do not come back, and both are excluded: a string that is too long for the length in
front of it, and an opaque algorithm with the name of a built-in one.

Main definitions:

* `SshKeys.Field.Regular` — fields that can be written and are found again;
* `SshKeys.Field.stream` — the bytes of fields in a row;
* `SshKeys.Field.putAll` — fields written to a buffer one after another.

Main results:

* `SshKeys.Field.reads_form` — one field is read back, whatever follows;
* `SshKeys.Field.regular_iff` — the regular fields are those that come back;
* `SshKeys.Field.result_encodeAll`, `SshKeys.Field.adds_putAll` — what fields in a row write;
* `SshKeys.Field.streams_round_trip` — **fields in a row come back, and a beginning of them
  does not**.
-/

import SshKeys.Proofs.FieldWire
import SshKeys.Proofs.NamesOnWire

set_option relaxedAutoImplicit false
set_option autoImplicit false

namespace SshKeys

/-! ### Kinds of fields -/

namespace Decoder

/-- Reading a number of a type with as many values as its bytes have. -/
theorem reads_numberAs {α : Type} (width : Nat) {n : Nat} {ofNat : Nat → α} {a : α}
    (hn : n < 256 ^ width) (ha : ofNat n = a) (rest : Bytes) :
    (number width >>= fun n => pure (ofNat n)).Reads (bigEndian width n ++ rest) a rest :=
  reads_bind.2 ⟨n, rest, reads_number.2 ⟨hn, rfl⟩, reads_pure.2 ⟨ha, rfl⟩⟩

theorem steady_number (width : Nat) : (number width).Steady :=
  Steady.bind (.take width .done) fun _ => .done _

theorem steady_numberAs {α : Type} (width : Nat) (ofNat : Nat → α) :
    (number width >>= fun n => pure (ofNat n)).Steady :=
  (steady_number width).bind fun _ => .done _

end Decoder

namespace FieldKind

/-- No kind of field asks how much is left. -/
theorem steady_decoder (kind : FieldKind) : kind.decoder.Steady := by
  cases kind with
  | boolean => exact ((Decoder.steady_numberAs 1 UInt8.ofNat).bind fun _ => .done _).map _
  | byte => exact (Decoder.steady_numberAs 1 UInt8.ofNat).map _
  | uint16 => exact (Decoder.steady_numberAs 2 UInt16.ofNat).map _
  | uint32 => exact (Decoder.steady_numberAs 4 UInt32.ofNat).map _
  | uint64 => exact (Decoder.steady_numberAs 8 UInt64.ofNat).map _
  | array size => exact Decoder.Steady.map _ (.take size .done)
  | string => exact Decoder.steady_string.map _
  | text => exact Decoder.steady_text.map _
  | mpint => exact Mpint.steady_decoder.map _
  | algorithm => exact Decoder.steady_label.map _
  | curve => exact Decoder.steady_label.map _
  | hash => exact Decoder.steady_label.map _

/-- Neither do kinds in a row. -/
theorem steady_decodeAll (kinds : List FieldKind) : (decodeAll kinds).Steady := by
  induction kinds with
  | nil => exact .done []
  | cons kind kinds ih => exact kind.steady_decoder.bind fun _ => ih.bind fun _ => .done _

end FieldKind

namespace Field

/-! ### One field -/

/-- A field that can be written and is found again: a string is shorter than `2 ^ 31` bytes, with
the sign byte of a number counted, and an opaque algorithm has no built-in name.  The names of
labels are always short. -/
def Regular : Field → Prop
  | string value => value.length < 2 ^ 31
  | text value => (utf8Bytes value).length < 2 ^ 31
  | mpint value => value.body.length < 2 ^ 31
  | algorithm value => value.OwnsName
  | _ => True

instance : (field : Field) → Decidable field.Regular
  | string value => inferInstanceAs (Decidable (value.length < 2 ^ 31))
  | text value => inferInstanceAs (Decidable ((utf8Bytes value).length < 2 ^ 31))
  | mpint value => inferInstanceAs (Decidable (value.body.length < 2 ^ 31))
  | algorithm value => inferInstanceAs (Decidable value.OwnsName)
  | boolean _ | byte _ | uint16 _ | uint32 _ | uint64 _ | array _ | curve _ | hash _ =>
    inferInstanceAs (Decidable True)

variable {field : Field}

theorem Regular.writable (h : field.Regular) : field.form.Writable := by
  cases field with
  | string value => exact fits_iff.2 h
  | text value => exact fits_iff.2 h
  | mpint value => exact fits_iff.2 h
  | algorithm value => exact fits_label value
  | curve value => exact fits_label value
  | hash value => exact fits_label value
  | _ => trivial

/-- One field is read back, whatever follows. -/
theorem reads_form (h : field.Regular) (rest : Bytes) :
    field.kind.decoder.Reads (field.form.bytes ++ rest) field rest := by
  cases field with
  | boolean value =>
      have hbyte : Decoder.byte.Reads ([if value then 1 else 0] ++ rest) (if value then 1 else 0)
          rest := by
        cases value
        · exact Decoder.reads_numberAs 1 (n := 0) (by decide) rfl rest
        · exact Decoder.reads_numberAs 1 (n := 1) (by decide) rfl rest
      refine Decoder.reads_map.2 ⟨value, Decoder.reads_bind.2 ⟨_, rest, hbyte, ?_⟩, rfl⟩
      exact Decoder.reads_pure.2 ⟨by cases value <;> rfl, rfl⟩
  | byte value =>
      have hread := Decoder.reads_numberAs 1 value.toNat_lt value.ofNat_toNat rest
      exact Decoder.reads_map.2 ⟨value, hread, rfl⟩
  | uint16 value =>
      have hread := Decoder.reads_numberAs 2 value.toNat_lt value.ofNat_toNat rest
      exact Decoder.reads_map.2 ⟨value, hread, rfl⟩
  | uint32 value =>
      have hread := Decoder.reads_numberAs 4 value.toNat_lt value.ofNat_toNat rest
      exact Decoder.reads_map.2 ⟨value, hread, rfl⟩
  | uint64 value =>
      have hread := Decoder.reads_numberAs 8 value.toNat_lt value.ofNat_toNat rest
      exact Decoder.reads_map.2 ⟨value, hread, rfl⟩
  | array value => exact Decoder.reads_map.2 ⟨value, Decoder.reads_bytes.2 ⟨rfl, rfl⟩, rfl⟩
  | string value =>
      exact Decoder.reads_map.2 ⟨value, Decoder.reads_string.2 ⟨fits_iff.2 h, rfl⟩, rfl⟩
  | text value =>
      exact Decoder.reads_map.2 ⟨value, Decoder.reads_text.2 ⟨fits_iff.2 h, rfl⟩, rfl⟩
  | mpint value => exact Decoder.reads_map.2 ⟨value, Mpint.reads_body (fits_iff.2 h) rest, rfl⟩
  | algorithm value =>
      have hname := Algorithm.ofName?_name_iff.2 h
      exact Decoder.reads_map.2 ⟨value, Decoder.reads_label.2 ⟨hname, rfl⟩, rfl⟩
  | curve value =>
      have hname := Curve.ofName?_eq_some.2 (Eq.refl value.name)
      exact Decoder.reads_map.2 ⟨value, Decoder.reads_label.2 ⟨hname, rfl⟩, rfl⟩
  | hash value =>
      have hname := HashAlgorithm.ofName?_eq_some.2 (Eq.refl value.name)
      exact Decoder.reads_map.2 ⟨value, Decoder.reads_label.2 ⟨hname, rfl⟩, rfl⟩

/-- A field is written as its form, if that can be written. -/
theorem result_encoding_eq_ok {bytes : Bytes} :
    field.encoding.emission.result = .ok bytes ↔
      field.form.Writable ∧ field.form.bytes = bytes := by
  rw [Emission.result_eq_ok, field.form_writtenBy.verdict_eq, field.form_writtenBy.bytes_eq,
    WireForm.verdict, WireForm.written]
  by_cases h : field.form.Writable
  · simp [h]
  · simp [h]

/-- The regular fields are those that come back. -/
theorem regular_iff : field.Regular ↔ ∃ bytes,
    field.encoding.emission.result = .ok bytes ∧ field.kind.decoder.Reads bytes field [] := by
  constructor
  · intro h
    have hread := reads_form h []
    rw [List.append_nil] at hread
    exact ⟨_, result_encoding_eq_ok.2 ⟨h.writable, rfl⟩, hread⟩
  · rintro ⟨bytes, hwritten, hread⟩
    obtain ⟨hwritable, rfl⟩ := result_encoding_eq_ok.1 hwritten
    cases field with
    | string value => exact fits_iff.1 hwritable
    | text value => exact fits_iff.1 hwritable
    | mpint value => exact fits_iff.1 hwritable
    | algorithm value =>
        obtain ⟨found, hfound, hsame⟩ := Decoder.reads_map.1 hread
        cases hsame
        exact Algorithm.ofName?_name_iff.1 (Decoder.reads_label.1 hfound).1
    | _ => trivial

theorem adds_put_of_regular (h : field.Regular) :
    Buffer.Adds (Buffer.put field.encoding) (.ok ()) field.form.bytes := by
  have hadds := field.adds_put
  rwa [WireForm.verdict, WireForm.written, if_pos h.writable, if_pos h.writable] at hadds

/-! ### Fields in a row -/

/-- The bytes of fields in a row. -/
def stream (fields : List Field) : Bytes := fields.flatMap fun field => field.form.bytes

/-- Fields written to a buffer one after another. -/
def putAll : List Field → BufferAction Unit
  | [] => pure ()
  | field :: fields => do
    Buffer.put field.encoding
    putAll fields

variable {fields : List Field}

theorem result_encodeAll (h : ∀ field ∈ fields, field.Regular) :
    (encodeAll fields).emission.result = .ok (stream fields) := by
  unfold encodeAll stream
  induction fields with
  | nil => rfl
  | cons field fields ih =>
      obtain ⟨hfield, hfields⟩ := List.forall_mem_cons.1 h
      have hresult := result_encoding_eq_ok.2 ⟨hfield.writable, rfl⟩
      rw [List.map_cons, Encoding.result_sequence_cons, hresult, ih hfields]
      rfl

theorem adds_putAll (h : ∀ field ∈ fields, field.Regular) :
    Buffer.Adds (putAll fields) (.ok ()) (stream fields) := by
  induction fields with
  | nil => exact Buffer.adds_pure ()
  | cons field fields ih =>
      obtain ⟨hfield, hfields⟩ := List.forall_mem_cons.1 h
      intro b hb
      obtain ⟨b', hput, hextends⟩ := adds_put_of_regular hfield b hb
      obtain ⟨b'', hputAll, hextends'⟩ := ih hfields b' (hextends.wellFormed hb)
      refine ⟨b'', ?_, hextends.trans hextends'⟩
      rw [putAll, bind_apply, outcome_eq_ok.1 hput]
      exact hputAll

/-- Fields in a row are read back by the list of their kinds, whatever follows. -/
theorem reads_stream (h : ∀ field ∈ fields, field.Regular) (rest : Bytes) :
    (FieldKind.decodeAll (fields.map kind)).Reads (stream fields ++ rest) fields rest := by
  induction fields with
  | nil => exact Decoder.reads_pure.2 ⟨rfl, rfl⟩
  | cons field fields ih =>
      obtain ⟨hfield, hfields⟩ := List.forall_mem_cons.1 h
      have hread := reads_form hfield (stream fields ++ rest)
      rw [← List.append_assoc] at hread
      refine Decoder.reads_bind.2 ⟨field, stream fields ++ rest, hread, ?_⟩
      exact Decoder.reads_bind.2 ⟨fields, rest, ih hfields, Decoder.reads_pure.2 ⟨rfl, rfl⟩⟩

/-- A stream that is cut off is not read as any list. -/
theorem not_reads_front (h : ∀ field ∈ fields, field.Regular) {front more : Bytes}
    (hsplit : stream fields = front ++ more) (hmore : more ≠ []) (others : List Field)
    (rest : Bytes) : ¬(FieldKind.decodeAll (fields.map kind)).Reads front others rest := by
  intro hfront
  -- what was read from the beginning would be read from the whole, and leave the missing part
  obtain ⟨used, rfl, hused⟩ := (FieldKind.steady_decodeAll _).exists_used hfront
  have hwhole := hused (rest ++ more)
  have hstream := reads_stream h []
  rw [List.append_nil, hsplit, List.append_assoc] at hstream
  have hnone := (hwhole.unique hstream).2
  exact hmore (List.append_eq_nil_iff.1 hnone).2

/-- **Fields in a row come back, and a beginning of them does not.**  The fields can be written,
and a buffer that they are written to has their bytes behind those that were unread.  Whatever
follows these bytes, the kinds of the fields read the same fields and leave exactly that, from a
byte string and from a buffer.  From less than all of the bytes they read nothing. -/
theorem streams_round_trip (fields : List Field) (h : ∀ field ∈ fields, field.Regular) :
    ∃ bytes, (encodeAll fields).emission.result = .ok bytes ∧
      (∀ b : Buffer, b.WellFormed → ∃ b', putAll fields b = .ok () b' ∧ b'.WellFormed ∧
        b'.unread = b.unread ++ bytes) ∧
      (∀ rest : Bytes,
        (FieldKind.decodeAll (fields.map kind)).run (bytes ++ rest) = .ok fields rest ∧
        ∀ b : Buffer, b.WellFormed → b.unread = bytes ++ rest →
          (FieldKind.decodeAll (fields.map kind)).run b = .ok fields (b.advance bytes.length) ∧
            (b.advance bytes.length).unread = rest) ∧
      ∀ front more : Bytes, bytes = front ++ more → more ≠ [] →
        (∃ error left, (FieldKind.decodeAll (fields.map kind)).run front = .error error left) ∧
        ∀ b : Buffer, b.WellFormed → b.unread = front →
          ∃ error b', (FieldKind.decodeAll (fields.map kind)).run b = .error error b' := by
  refine ⟨stream fields, result_encodeAll h, ?_, ?_, ?_⟩
  · intro b hb
    obtain ⟨b', hput, hextends⟩ := adds_putAll h b hb
    exact ⟨b', outcome_eq_ok.1 hput, hextends.wellFormed hb, hextends.unread hb⟩
  · intro rest
    refine ⟨reads_stream h rest, fun b hb hunread => ?_⟩
    refine ⟨Buffer.run_of_reads hb hunread (reads_stream h rest), ?_⟩
    rw [Buffer.unread_advance, hunread, List.drop_left' rfl]
  · intro front more hsplit hmore
    have hnot := not_reads_front h hsplit hmore
    constructor
    · cases hrun : (FieldKind.decodeAll (fields.map kind)).run front with
      | ok others rest => exact absurd hrun (hnot others rest)
      | error error left => exact ⟨error, left, rfl⟩
    · intro b hb hunread
      cases hrun : (FieldKind.decodeAll (fields.map kind)).run b with
      | ok others b' =>
          have hreads := (Buffer.run_eq_ok_iff hb).1 ⟨b', hrun, rfl⟩
          rw [hunread] at hreads
          exact absurd hreads (hnot others _)
      | error error b' => exact ⟨error, b', rfl⟩

/-- Fields of many kinds, some of them empty. -/
def mixed : List Field :=
  [.boolean true, .array [], .uint64 5, .string [], .mpint (.ofMagnitude []), .text "é",
    .mpint (.ofMagnitude [0x80]), .algorithm .rsa, .algorithm (.other ⟨"ssh-ed25519", by decide⟩),
    .curve .nistP521, .array [1, 2, 3], .hash .sha512]

/-- They come back from a byte string with a byte behind them, and not from one that lacks their
last byte. -/
theorem streams_round_trip_mixed :
    (∀ field ∈ mixed, field.Regular) ∧ ∃ bytes, (encodeAll mixed).emission.result = .ok bytes ∧
      (FieldKind.decodeAll (mixed.map kind)).run (bytes ++ [0xff]) = .ok mixed [0xff] ∧
      ∃ error left, (FieldKind.decodeAll (mixed.map kind)).run bytes.dropLast =
        .error error left := by
  have hregular : ∀ field ∈ mixed, field.Regular := by decide
  obtain ⟨bytes, hwritten, -, hread, hcut⟩ := streams_round_trip mixed hregular
  have hbytes : bytes ≠ [] := by
    rintro rfl
    rw [result_encodeAll hregular, Except.ok.injEq] at hwritten
    exact absurd hwritten (by decide)
  refine ⟨hregular, bytes, hwritten, (hread [0xff]).1, ?_⟩
  exact (hcut bytes.dropLast [bytes.getLast hbytes] (List.dropLast_concat_getLast hbytes).symm
    (by simp)).1

end Field

end SshKeys
