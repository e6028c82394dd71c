/-
**Public keys on the wire.**

A public key is its key type and its fields, all of them byte strings behind their lengths.  A
blob is read exactly if it is made up that way and each of its fields is a form of the field of
the key.  A key whose coordinates have the width of their field is written with one form of each
field, and read back from it, whatever follows.

Main definitions:

* `SshKeys.PublicKey.fields` — the forms that are written;
* `SshKeys.PublicKey.SpelledBy` — the forms that are read;
* `SshKeys.PublicKey.WellSized` — a key of a type with a codec whose coordinates are narrow enough.

Main results:

* `SshKeys.PublicKey.reads_decoder` — **which byte strings are read as which key**;
* `SshKeys.PublicKey.spells_encoding` — what is written for a key;
* `SshKeys.PublicKey.survives_wire` — **a key is read back from its blob, and the blob says where
  it ends**.
-/

import SshKeys.Proofs.BufferReads
import SshKeys.Proofs.PointForms
import SshKeys.Key.PublicKey

set_option relaxedAutoImplicit false
set_option autoImplicit false

namespace SshKeys

/-! ### Key types -/

namespace Algorithm

/-- A built-in algorithm is the only one with its name. -/
theorem ofName?_eq_builtin {text : String} {algorithm : Algorithm}
    (hbuiltin : algorithm.isBuiltin = true) :
    ofName? text = some algorithm ↔ text = algorithm.name := by
  constructor
  · intro h
    unfold ofName? at h
    split at h
    · next found hfound =>
        cases h
        have hname := List.find?_some hfound
        rw [beq_iff_eq] at hname
        exact hname.symm
    · -- any other name stands for an algorithm that is not built in
      obtain ⟨name, -, rfl⟩ := Option.map_eq_some_iff.1 h
      simp [isBuiltin] at hbuiltin
  · rintro rfl
    cases algorithm with
    | dsa => rfl
    | ecdsa curve => cases curve <;> rfl
    | rsa => rfl
    | other name => simp [isBuiltin] at hbuiltin

theorem fits_name {algorithm : Algorithm} (hbuiltin : algorithm.isBuiltin = true) :
    Fits (utf8Bytes algorithm.name) := by
  cases algorithm with
  | dsa => decide
  | ecdsa curve => cases curve <;> decide
  | rsa => decide
  | other name => simp [isBuiltin] at hbuiltin

end Algorithm

theorem Curve.fits_name (curve : Curve) : Fits (utf8Bytes curve.name) := by
  cases curve <;> decide

namespace Decoder

/-- Reading a key type: the name of a built-in algorithm behind its length. -/
@[simp] theorem reads_keyType {algorithm : Algorithm} {bs rest : Bytes} :
    keyType.Reads bs algorithm rest ↔
      algorithm.isBuiltin = true ∧ bs = prefixed (utf8Bytes algorithm.name) ++ rest := by
  simp only [keyType, reads_bind, reads_text]
  constructor
  · rintro ⟨name, mid, ⟨-, rfl⟩, h⟩
    split at h
    · next found hfound =>
        split at h
        · next hbuiltin =>
            obtain ⟨rfl, rfl⟩ := reads_pure.1 h
            rw [(Algorithm.ofName?_eq_builtin hbuiltin).1 hfound]
            exact ⟨hbuiltin, rfl⟩
        · simp at h
    · simp at h
  · rintro ⟨hbuiltin, rfl⟩
    refine ⟨algorithm.name, rest, ⟨Algorithm.fits_name hbuiltin, rfl⟩, ?_⟩
    simp [(Algorithm.ofName?_eq_builtin hbuiltin).2 rfl, hbuiltin]

theorem steady_keyType : keyType.Steady := by
  refine steady_text.bind fun name => ?_
  split
  · split
    · exact .done _
    · exact .fail _
  · exact .fail _

end Decoder

/-! ### RSA -/

namespace RsaPublicKey

/-- The forms of the fields that are written. -/
def fields (key : RsaPublicKey) : List Bytes := [key.e.body, key.n.body]

theorem spells_encoding (key : RsaPublicKey) : key.encoding.Spells key.fields :=
  key.e.spells_encoding.sequence_cons key.n.spells_encoding.sequence_singleton

theorem reads_decoder {key : RsaPublicKey} {bs rest : Bytes} :
    decoder.Reads bs key rest ↔
      ∃ e n, key = ⟨.ofMagnitude e, .ofMagnitude n⟩ ∧ (∀ form ∈ [e, n], Fits form) ∧
        bs = prefixedAll [e, n] ++ rest := by
  simp only [decoder, Decoder.reads_bind, Mpint.reads_decoder, Decoder.reads_pure]
  constructor
  · rintro ⟨_, _, ⟨e, he, rfl, rfl⟩, _, _, ⟨n, hn, rfl, rfl⟩, rfl, rfl⟩
    exact ⟨e, n, rfl, by simp [he, hn], by simp⟩
  · rintro ⟨e, n, rfl, hfit, rfl⟩
    exact ⟨_, prefixedAll [n] ++ rest, ⟨e, hfit e (by simp), rfl, by simp⟩,
      _, rest, ⟨n, hfit n (by simp), rfl, by simp⟩, rfl, rfl⟩

theorem reads_fields {key : RsaPublicKey} (hfit : ∀ field ∈ key.fields, Fits field) (rest : Bytes) :
    decoder.Reads (prefixedAll key.fields ++ rest) key rest :=
  reads_decoder.2 ⟨key.e.body, key.n.body, by simp, hfit, rfl⟩

theorem steady_decoder : decoder.Steady :=
  Mpint.steady_decoder.bind fun _ => Mpint.steady_decoder.bind fun _ => .done _

end RsaPublicKey

/-! ### DSA -/

namespace DsaPublicKey

/-- The forms of the fields that are written. -/
def fields (key : DsaPublicKey) : List Bytes := [key.p.body, key.q.body, key.g.body, key.y.body]

theorem spells_encoding (key : DsaPublicKey) : key.encoding.Spells key.fields :=
  key.p.spells_encoding.sequence_cons <| key.q.spells_encoding.sequence_cons <|
    key.g.spells_encoding.sequence_cons key.y.spells_encoding.sequence_singleton

theorem reads_decoder {key : DsaPublicKey} {bs rest : Bytes} :
    decoder.Reads bs key rest ↔
      ∃ p q g y, key = ⟨.ofMagnitude p, .ofMagnitude q, .ofMagnitude g, .ofMagnitude y⟩ ∧
        (∀ form ∈ [p, q, g, y], Fits form) ∧ bs = prefixedAll [p, q, g, y] ++ rest := by
  simp only [decoder, Decoder.reads_bind, Mpint.reads_decoder, Decoder.reads_pure]
  constructor
  · rintro ⟨_, _, ⟨p, hp, rfl, rfl⟩, _, _, ⟨q, hq, rfl, rfl⟩, _, _, ⟨g, hg, rfl, rfl⟩, _, _,
      ⟨y, hy, rfl, rfl⟩, rfl, rfl⟩
    exact ⟨p, q, g, y, rfl, by simp [hp, hq, hg, hy], by simp⟩
  · rintro ⟨p, q, g, y, rfl, hfit, rfl⟩
    exact ⟨_, prefixedAll [q, g, y] ++ rest, ⟨p, hfit p (by simp), rfl, by simp⟩,
      _, prefixedAll [g, y] ++ rest, ⟨q, hfit q (by simp), rfl, by simp⟩,
      _, prefixedAll [y] ++ rest, ⟨g, hfit g (by simp), rfl, by simp⟩,
      _, rest, ⟨y, hfit y (by simp), rfl, by simp⟩, rfl, rfl⟩

theorem reads_fields {key : DsaPublicKey} (hfit : ∀ field ∈ key.fields, Fits field) (rest : Bytes) :
    decoder.Reads (prefixedAll key.fields ++ rest) key rest :=
  reads_decoder.2
    ⟨key.p.body, key.q.body, key.g.body, key.y.body, by simp, hfit, rfl⟩

theorem steady_decoder : decoder.Steady :=
  Mpint.steady_decoder.bind fun _ => Mpint.steady_decoder.bind fun _ =>
    Mpint.steady_decoder.bind fun _ => Mpint.steady_decoder.bind fun _ => .done _

end DsaPublicKey

/-! ### ECDSA -/

namespace EcdsaPublicKey

/-- The forms of the fields that are written. -/
def fields (key : EcdsaPublicKey) : List Bytes :=
  [utf8Bytes key.curve.name, key.point.octets key.curve]

theorem spells_pointEncoding {key : EcdsaPublicKey} (h : key.point.Within key.curve) :
    key.pointEncoding.Spells [key.point.octets key.curve] where
  announced := checkedSum_congr (by simp [Point.length_octets h])
  result := by
    rw [pointEncoding, toOctets, Point.toOctets_of_within h]
    exact (Encoding.spells_string _).result

theorem spells_encoding {key : EcdsaPublicKey} (h : key.point.Within key.curve) :
    key.encoding.Spells key.fields :=
  (Encoding.spells_label key.curve).sequence_cons (spells_pointEncoding h).sequence_singleton

/-- Coordinates that are too wide stop the writing, once the curve name has been written. -/
theorem result_of_not_within {key : EcdsaPublicKey} (h : ¬key.point.Within key.curve) :
    key.encoding.emission.result = .error (.wire .length) := by
  refine Encoding.result_sequence_of_error (Encoding.result_label key.curve.fits_name) ?_
  rw [pointEncoding, toOctets, Point.toOctets_of_not_within h]
  rfl

/-- The octets of a key on a curve spell its point on that curve. -/
theorem ofOctets_eq_ok {curve : Curve} {octets : Bytes} {key : EcdsaPublicKey} :
    ofOctets curve octets = .ok key ↔
      key.curve = curve ∧ Point.ofOctets (some curve) octets = .ok key.point := by
  unfold ofOctets
  cases Point.ofOctets (some curve) octets with
  | error error => simp [bind, Except.bind]
  | ok point =>
      simp only [bind, Except.bind, pure, Except.pure, Except.ok.injEq]
      constructor
      · rintro rfl
        exact ⟨rfl, rfl⟩
      · rintro ⟨rfl, rfl⟩
        rfl

theorem reads_decoder {curve : Curve} {key : EcdsaPublicKey} {bs rest : Bytes} :
    (decoder curve).Reads bs key rest ↔
      key.curve = curve ∧ ∃ octets, Point.ofOctets (some curve) octets = .ok key.point ∧
        Fits octets ∧ bs = prefixedAll [utf8Bytes curve.name, octets] ++ rest := by
  simp only [decoder, Decoder.reads_bind, Decoder.reads_text]
  constructor
  · rintro ⟨name, mid, ⟨-, rfl⟩, h⟩
    split at h
    · next hname =>
        simp only [Decoder.reads_bind, Decoder.reads_string, Decoder.reads_ofExcept,
          ofOctets_eq_ok] at h
        obtain ⟨octets, mid', ⟨hfit, rfl⟩, ⟨hcurve, hpoint⟩, rfl⟩ := h
        exact ⟨hcurve, octets, hpoint, hfit, by simp [hname]⟩
    · simp at h
  · rintro ⟨hcurve, octets, hpoint, hfit, rfl⟩
    refine ⟨curve.name, prefixed octets ++ rest, ⟨curve.fits_name, by simp⟩, ?_⟩
    rw [if_pos rfl]
    simp only [Decoder.reads_bind, Decoder.reads_string, Decoder.reads_ofExcept, ofOctets_eq_ok]
    exact ⟨octets, rest, ⟨hfit, rfl⟩, ⟨hcurve, hpoint⟩, rfl⟩

theorem reads_fields {key : EcdsaPublicKey} (h : key.point.Within key.curve) (rest : Bytes) :
    (decoder key.curve).Reads (prefixedAll key.fields ++ rest) key rest :=
  reads_decoder.2 ⟨rfl, _, Point.ofOctets_octets h, Point.fits_octets h, rfl⟩

theorem steady_decoder (curve : Curve) : (decoder curve).Steady := by
  refine Decoder.steady_text.bind fun name => ?_
  split
  · exact Decoder.steady_string.bind fun _ => Decoder.steady_ofExcept _
  · exact .fail _

end EcdsaPublicKey

namespace PublicKey

/-! ### Fields of any family -/

/-- The forms of the fields that are written, without the key type.  A key without a codec has
none. -/
def fields : PublicKey → List Bytes
  | dsa key => key.fields
  | ecdsa key => key.fields
  | rsa key => key.fields
  | other _ => []

/-- A key of a type with a codec, whose coordinates have the width of their field. -/
def WellSized : PublicKey → Prop
  | ecdsa key => key.point.Within key.curve
  | other _ => False
  | _ => True

/-- The fields of a key in any of the forms that are read. -/
inductive SpelledBy : PublicKey → List Bytes → Prop
  | dsa (p q g y : Bytes) :
      SpelledBy (.dsa ⟨.ofMagnitude p, .ofMagnitude q, .ofMagnitude g, .ofMagnitude y⟩) [p, q, g, y]
  | ecdsa {curve : Curve} {point : Point} {octets : Bytes}
      (h : Point.ofOctets (some curve) octets = .ok point) :
      SpelledBy (.ecdsa ⟨curve, point⟩) [utf8Bytes curve.name, octets]
  | rsa (e n : Bytes) : SpelledBy (.rsa ⟨.ofMagnitude e, .ofMagnitude n⟩) [e, n]

variable {key : PublicKey}

theorem WellSized.isBuiltin (h : key.WellSized) : key.algorithm.isBuiltin = true := by
  cases key with
  | other key => exact absurd h id
  | _ => rfl

theorem SpelledBy.isBuiltin {forms : List Bytes} (h : key.SpelledBy forms) :
    key.algorithm.isBuiltin = true := by
  cases h <;> rfl

theorem SpelledBy.wellSized {forms : List Bytes} (h : key.SpelledBy forms) : key.WellSized := by
  cases h with
  | dsa p q g y => trivial
  | ecdsa h => exact Point.within_of_ofOctets h
  | rsa e n => trivial

/-- What is written is one of the forms that are read. -/
theorem WellSized.spelledBy_fields (h : key.WellSized) : key.SpelledBy key.fields := by
  cases key with
  | dsa key =>
      have hspelled := SpelledBy.dsa key.p.body key.q.body key.g.body key.y.body
      simp only [Mpint.ofMagnitude_body] at hspelled
      exact hspelled
  | ecdsa key => exact .ecdsa (Point.ofOctets_octets h)
  | rsa key =>
      have hspelled := SpelledBy.rsa key.e.body key.n.body
      simp only [Mpint.ofMagnitude_body] at hspelled
      exact hspelled
  | other key => exact absurd h id

theorem WellSized.length_fields_le (h : key.WellSized) : key.fields.length ≤ 4 := by
  cases key with
  | other key => exact absurd h id
  | _ => simp [fields, DsaPublicKey.fields, EcdsaPublicKey.fields, RsaPublicKey.fields]

/-! ### Reading and writing -/

theorem reads_fieldDecoder {algorithm : Algorithm} {bs rest : Bytes} :
    (fieldDecoder algorithm).Reads bs key rest ↔
      key.algorithm = algorithm ∧ ∃ forms, key.SpelledBy forms ∧ (∀ form ∈ forms, Fits form) ∧
        bs = prefixedAll forms ++ rest := by
  constructor
  · intro h
    -- the decoder is chosen by the algorithm
    cases algorithm with
    | dsa =>
        obtain ⟨_, hread, rfl⟩ := Decoder.reads_map.1 h
        obtain ⟨p, q, g, y, rfl, hfit, rfl⟩ := DsaPublicKey.reads_decoder.1 hread
        exact ⟨rfl, _, .dsa p q g y, hfit, rfl⟩
    | ecdsa curve =>
        obtain ⟨⟨_, point⟩, hread, rfl⟩ := Decoder.reads_map.1 h
        obtain ⟨rfl, octets, hpoint, hfit, rfl⟩ := EcdsaPublicKey.reads_decoder.1 hread
        refine ⟨rfl, _, .ecdsa hpoint, ?_, rfl⟩
        exact List.forall_mem_cons.2 ⟨Curve.fits_name _, List.forall_mem_singleton.2 hfit⟩
    | rsa =>
        obtain ⟨_, hread, rfl⟩ := Decoder.reads_map.1 h
        obtain ⟨e, n, rfl, hfit, rfl⟩ := RsaPublicKey.reads_decoder.1 hread
        exact ⟨rfl, _, .rsa e n, hfit, rfl⟩
    | other name => exact absurd h Decoder.not_reads_fail
  · rintro ⟨rfl, forms, hspelled, hfit, rfl⟩
    cases hspelled with
    | dsa p q g y =>
        exact Decoder.reads_map.2 ⟨_, DsaPublicKey.reads_decoder.2 ⟨p, q, g, y, rfl, hfit, rfl⟩, rfl⟩
    | @ecdsa curve point octets h =>
        refine Decoder.reads_map.2 ⟨⟨curve, point⟩, EcdsaPublicKey.reads_decoder.2 ⟨rfl, ?_⟩, rfl⟩
        exact ⟨octets, h, hfit octets (by simp), rfl⟩
    | rsa e n =>
        exact Decoder.reads_map.2 ⟨_, RsaPublicKey.reads_decoder.2 ⟨e, n, rfl, hfit, rfl⟩, rfl⟩

/-- Only a key of a type with a codec is read. -/
theorem isBuiltin_of_reads {algorithm : Algorithm} {bs rest : Bytes}
    (h : (fieldDecoder algorithm).Reads bs key rest) : key.algorithm.isBuiltin = true := by
  obtain ⟨-, forms, hspelled, -, -⟩ := reads_fieldDecoder.1 h
  exact hspelled.isBuiltin

/-- **Which byte strings are read as which key**: the key type and one form of each field, all
behind their lengths. -/
theorem reads_decoder {bs rest : Bytes} :
    decoder.Reads bs key rest ↔
      ∃ forms, key.SpelledBy forms ∧ (∀ form ∈ forms, Fits form) ∧
        bs = prefixedAll (utf8Bytes key.algorithm.name :: forms) ++ rest := by
  simp only [decoder, Decoder.reads_bind, Decoder.reads_keyType, reads_fieldDecoder]
  constructor
  · rintro ⟨_, _, ⟨hbuiltin, rfl⟩, rfl, forms, hspelled, hfit, rfl⟩
    exact ⟨forms, hspelled, hfit, by simp⟩
  · rintro ⟨forms, hspelled, hfit, rfl⟩
    exact ⟨_, _, ⟨hspelled.isBuiltin, by simp⟩, rfl, forms, hspelled, hfit, rfl⟩

theorem steady_decoder : decoder.Steady := by
  refine Decoder.steady_keyType.bind fun algorithm => ?_
  cases algorithm with
  | dsa => exact DsaPublicKey.steady_decoder.map _
  | ecdsa curve => exact (EcdsaPublicKey.steady_decoder curve).map _
  | rsa => exact RsaPublicKey.steady_decoder.map _
  | other name => exact .fail _

/-- What is written for a key: the key type and the fields. -/
theorem spells_encoding (h : key.WellSized) :
    key.encoding.Spells (utf8Bytes key.algorithm.name :: key.fields) := by
  refine (Encoding.spells_label key.algorithm).sequence_cons (Encoding.Spells.sequence_singleton ?_)
  cases key with
  | dsa key => exact key.spells_encoding
  | ecdsa key => exact EcdsaPublicKey.spells_encoding h
  | rsa key => exact key.spells_encoding
  | other key => exact absurd h id

/-- The blob of a key that can be written. -/
theorem toBytes_eq (h : key.WellSized) (hfit : ∀ field ∈ key.fields, Fits field) :
    key.toBytes = .ok (prefixedAll (utf8Bytes key.algorithm.name :: key.fields)) := by
  have hlength := h.length_fields_le
  refine ((spells_encoding h).toBytes_eq ?_ ?_).1
  · exact List.forall_mem_cons.2 ⟨Algorithm.fits_name h.isBuiltin, hfit⟩
  · rw [List.length_cons]
    omega

/-- A curve point whose coordinates are too wide stops the writing of its key. -/
theorem toBytes_of_not_within {key : EcdsaPublicKey} (h : ¬key.point.Within key.curve) :
    (ecdsa key).toBytes = .error (.wire .length) := by
  obtain ⟨curve, point⟩ := key
  have hannounced : ∃ count, (ecdsa ⟨curve, point⟩).encoding.announced = .ok count := by
    -- the announced length depends on the curve alone
    cases curve <;> exact ⟨_, rfl⟩
  obtain ⟨count, hcount⟩ := hannounced
  have hkey : (ecdsa ⟨curve, point⟩).encoding.emission.result = .error (.wire .length) :=
    Encoding.result_sequence_of_error
      (Encoding.result_label (@Algorithm.fits_name (.ecdsa curve) rfl))
      (EcdsaPublicKey.result_of_not_within h)
  rw [toBytes, Encoding.toBytes, hcount, hkey]
  rfl

/-! ### Round trip -/

/-- **A key is read back from its blob, and the blob says where it ends.**  The lengths of the
fields are those of their forms on the wire, sign bytes included. -/
theorem survives_wire (key : PublicKey) :
    (key.WellSized → (∀ field ∈ key.fields, field.length < 2 ^ 31) →
      ∃ blob, key.toBytes = .ok blob ∧ ofBytes blob = .ok key ∧ ∀ rest : Bytes,
        (decoder.run (blob ++ rest) : EStateM.Result Error Bytes PublicKey) = .ok key rest ∧
        (∀ b : Buffer, b.WellFormed → b.unread = blob ++ rest →
          decoder.run b = .ok key (b.advance blob.length) ∧
            (b.advance blob.length).unread = rest) ∧
        (rest ≠ [] → ofBytes (blob ++ rest) = .error (.wire (.trailingData rest.length)))) ∧
    ∀ wide : EcdsaPublicKey, key = .ecdsa wide → ¬wide.point.Within wide.curve →
      key.toBytes = .error (.wire .length) := by
  constructor
  · intro hsized hshort
    have hfit : ∀ field ∈ key.fields, Fits field := fun field hfield =>
      fits_iff.2 (hshort field hfield)
    -- what is read in front of any rest decides every way of reading
    have hreads : ∀ rest, decoder.Reads
        (prefixedAll (utf8Bytes key.algorithm.name :: key.fields) ++ rest) key rest := fun rest =>
      reads_decoder.2 ⟨key.fields, hsized.spelledBy_fields, hfit, rfl⟩
    refine ⟨_, toBytes_eq hsized hfit, ?_, fun rest => ⟨hreads rest, ?_, ?_⟩⟩
    · have hall := hreads []
      rw [List.append_nil] at hall
      exact Decoder.ofBytes_eq_ok.2 hall
    · intro b hb hunread
      refine ⟨Buffer.run_of_reads hb hunread (hreads rest), ?_⟩
      rw [Buffer.unread_advance, hunread, List.drop_left' rfl]
    · exact Decoder.ofBytes_of_reads (hreads rest)
  · rintro wide rfl hwide
    exact toBytes_of_not_within hwide

/-- A point off the curve with short coordinates survives, and one with a coordinate of 33 bytes is
refused. -/
theorem survives_wire_off_curve :
    (∃ blob, (ecdsa ⟨.nistP256, ⟨.ofMagnitude [7], .ofMagnitude []⟩⟩).toBytes = .ok blob ∧
      ofBytes (blob ++ [0xff]) = .error (.wire (.trailingData 1))) ∧
    (ecdsa ⟨.nistP256, ⟨.ofMagnitude [7], .ofMagnitude (List.replicate 33 1)⟩⟩).toBytes =
      .error (.wire .length) := by
  constructor
  · obtain ⟨blob, hblob, -, hrest⟩ :=
      (survives_wire (ecdsa ⟨.nistP256, ⟨.ofMagnitude [7], .ofMagnitude []⟩⟩)).1
        (show Point.Within _ _ by decide) (by decide)
    exact ⟨blob, hblob, (hrest [0xff]).2.2 (by decide)⟩
  · exact (survives_wire _).2 _ rfl (by decide)

end PublicKey

end SshKeys
