/-
**What a key blob says about its key.**

A blob is the name of a key type and what stands behind it.  The name tells the key types apart,
and behind it the fields of a typed key are told apart by their lengths.  What is behind the name of
an opaque key is any bytes at all, and its name is any well-formed one.  So one pair of keys cannot
be told apart: a typed key, and an opaque key that holds the name of the built-in key type with the
bytes of the fields.  Every typed key that can be written has such a double, and it is the only one.
Keys whose type owns its name are known by their blobs.

Main definitions:

* `SshKeys.PublicKey.PosesAs` — an opaque key with the name and the fields of a typed one.

Main results:

* `SshKeys.PublicKey.toBytes_eq_ok_iff` — the blob of a key of any family;
* `SshKeys.PublicKey.eq_of_same_fields` — typed keys of one type are told apart by their fields;
* `SshKeys.PublicKey.exists_double` — **a typed key that can be written has one double**;
* `SshKeys.PublicKey.blob_tells_key` — **blobs tell all keys apart but a typed one and its
  double**.
-/

import SshKeys.Proofs.NamesOnWire
import SshKeys.Proofs.NormalForm
import SshKeys.Key.Fingerprint

set_option relaxedAutoImplicit false
set_option autoImplicit false

namespace SshKeys

namespace PublicKey

variable {key a b : PublicKey} {body blob blob' : Bytes}

/-! ### The blob of a key -/

/-- A key is written as the name of its type and its fields. -/
theorem result_encoding_eq_ok :
    key.encoding.emission.result = .ok blob ↔ ∃ body,
      key.fieldEncoding.emission.result = .ok body ∧
        blob = prefixed (utf8Bytes key.algorithm.name) ++ body := by
  have hname : (Encoding.label key.algorithm).emission.result =
      .ok (prefixed (utf8Bytes key.algorithm.name)) :=
    Encoding.result_label (fits_label key.algorithm)
  rw [encoding, Encoding.result_sequence_cons, hname, Encoding.result_sequence_cons]
  cases key.fieldEncoding.emission.result with
  | error error => simp [bind, Except.bind, Functor.map, Except.map]
  | ok fields =>
      simp [Encoding.sequence, bind, Except.bind, Functor.map, Except.map, eq_comm]

theorem WellSized.spells_fieldEncoding (h : key.WellSized) :
    key.fieldEncoding.Spells key.fields := by
  cases key with
  | dsa key => exact key.spells_encoding
  | ecdsa key => exact EcdsaPublicKey.spells_encoding h
  | rsa key => exact key.spells_encoding
  | other key => exact absurd h id

theorem WellSized.of_result (hbuiltin : key.algorithm.isBuiltin = true)
    (h : key.fieldEncoding.emission.result = .ok body) : key.WellSized := by
  cases key with
  | ecdsa key =>
      by_cases hwithin : key.point.Within key.curve
      · exact hwithin
      · rw [fieldEncoding, EcdsaPublicKey.result_of_not_within hwithin] at h
        cases h
  | other key => simp [algorithm, Algorithm.isBuiltin] at hbuiltin
  | _ => trivial

/-- The fields of a typed key that can be written are byte strings behind their lengths. -/
theorem result_fieldEncoding_eq_ok (hbuiltin : key.algorithm.isBuiltin = true) :
    key.fieldEncoding.emission.result = .ok body ↔
      key.WellSized ∧ (∀ field ∈ key.fields, Fits field) ∧ body = prefixedAll key.fields := by
  constructor
  · intro h
    have hsized := WellSized.of_result hbuiltin h
    rw [hsized.spells_fieldEncoding.result, writeAll] at h
    split at h
    · next hfit =>
        cases h
        exact ⟨hsized, hfit, rfl⟩
    · cases h
  · rintro ⟨hsized, hfit, rfl⟩
    rw [hsized.spells_fieldEncoding.result, writeAll, if_pos hfit]

/-- The fields of an opaque key are the bytes it holds. -/
theorem result_fieldEncoding_other {foreign : ForeignPublicKey} :
    (other foreign).fieldEncoding.emission.result = .ok foreign.body :=
  Emission.result_write foreign.body

theorem announced_other (foreign : ForeignPublicKey) :
    (other foreign).encoding.announced =
      checkedSum [(prefixed (utf8Bytes foreign.name.text) ++ foreign.body).length] := by
  have hname : (Encoding.label foreign.name).announced =
      .ok (prefixed (utf8Bytes foreign.name.text)).length := by
    rw [length_prefixed]
    refine checkedSum_of_lt ?_
    have hlength := foreign.name.length_utf8Bytes_text_le
    change 4 + ((utf8Bytes foreign.name.text).length + 0) < 2 ^ 64
    omega
  have hlengths : (other foreign).encoding.announced =
      checkedSum [(prefixed (utf8Bytes foreign.name.text)).length, foreign.body.length] := by
    change ([Encoding.label foreign.name, .fixed foreign.body].mapM Encoding.announced >>=
      checkedSum) = _
    simp only [List.mapM_cons, List.mapM_nil, hname]
    rfl
  rw [hlengths, List.length_append]
  exact checkedSum_congr (by simp)

/-- A key announces the length of its blob, as long as that has 64 bits. -/
theorem announced_of_result (h : key.encoding.emission.result = .ok blob) :
    key.encoding.announced = checkedSum [blob.length] := by
  obtain ⟨body, hbody, rfl⟩ := result_encoding_eq_ok.1 h
  by_cases hbuiltin : key.algorithm.isBuiltin = true
  · obtain ⟨hsized, -, rfl⟩ := (result_fieldEncoding_eq_ok hbuiltin).1 hbody
    rw [(spells_encoding hsized).announced]
    refine checkedSum_congr ?_
    rw [← length_prefixedAll, prefixedAll_cons, List.sum_singleton]
  · cases key with
    | other foreign =>
        rw [result_fieldEncoding_other] at hbody
        cases hbody
        exact announced_other foreign
    | _ => exact absurd rfl hbuiltin

/-- **The blob of a key of any family**: the name of its type and its fields, if the length of both
has 64 bits. -/
theorem toBytes_eq_ok_iff :
    key.toBytes = .ok blob ↔ blob.length < 2 ^ 64 ∧ ∃ body,
      key.fieldEncoding.emission.result = .ok body ∧
        blob = prefixed (utf8Bytes key.algorithm.name) ++ body := by
  rw [← result_encoding_eq_ok, toBytes, Encoding.toBytes]
  cases hresult : key.encoding.emission.result with
  | error error => cases key.encoding.announced <;> simp [bind, Except.bind]
  | ok written =>
      rw [announced_of_result hresult, checkedSum_eq, List.sum_singleton]
      by_cases hlength : written.length < 2 ^ 64
      · rw [if_pos hlength]
        simp only [bind, Except.bind, Except.ok.injEq]
        constructor
        · rintro rfl
          exact ⟨hlength, rfl⟩
        · exact fun h => h.2
      · rw [if_neg hlength]
        simp only [bind, Except.bind, Except.ok.injEq, reduceCtorEq, false_iff]
        rintro ⟨hshort, rfl⟩
        exact hlength hshort

/-- Keys have the same blob if their types have the same name and their fields are the same. -/
theorem blob_eq_iff (ha : a.toBytes = .ok blob) (hb : b.toBytes = .ok blob') :
    blob = blob' ↔ a.algorithm.name = b.algorithm.name ∧
      a.fieldEncoding.emission.result = b.fieldEncoding.emission.result := by
  obtain ⟨-, body, hbody, rfl⟩ := toBytes_eq_ok_iff.1 ha
  obtain ⟨-, body', hbody', rfl⟩ := toBytes_eq_ok_iff.1 hb
  rw [hbody, hbody', Except.ok.injEq]
  constructor
  · intro h
    obtain ⟨hname, hsame⟩ := prefixed_inj (fits_label a.algorithm) (fits_label b.algorithm) h
    refine ⟨?_, hsame⟩
    have htext := congrArg ofUtf8? hname
    rw [ofUtf8?_utf8Bytes, ofUtf8?_utf8Bytes] at htext
    exact Option.some.inj htext
  · rintro ⟨hname, rfl⟩
    rw [hname]

/-! ### Keys and their doubles -/

/-- Typed keys of one type are told apart by their fields. -/
theorem eq_of_same_fields (hbuiltin : a.algorithm.isBuiltin = true)
    (halgorithm : a.algorithm = b.algorithm) (ha : a.fieldEncoding.emission.result = .ok body)
    (hb : b.fieldEncoding.emission.result = .ok body) : a = b := by
  obtain ⟨hsized, hfit, rfl⟩ := (result_fieldEncoding_eq_ok hbuiltin).1 ha
  rw [halgorithm] at hbuiltin
  obtain ⟨hsized', hfit', hsame⟩ := (result_fieldEncoding_eq_ok hbuiltin).1 hb
  -- the decoder of the key type reads both keys from the same fields
  have hread : (fieldDecoder a.algorithm).Reads (prefixedAll a.fields ++ []) a [] :=
    reads_fieldDecoder.2 ⟨rfl, a.fields, hsized.spelledBy_fields, hfit, rfl⟩
  have hread' : (fieldDecoder a.algorithm).Reads (prefixedAll a.fields ++ []) b [] :=
    reads_fieldDecoder.2
      ⟨halgorithm.symm, b.fields, hsized'.spelledBy_fields, hfit', by rw [hsame]⟩
  exact (hread.unique hread').1

/-- An opaque key that poses as a typed one: it holds the name of the built-in key type, and behind
it what would be the fields. -/
inductive PosesAs : PublicKey → PublicKey → Prop
  | mk {foreign : ForeignPublicKey} {key : PublicKey} (builtin : key.algorithm.isBuiltin = true)
      (name_eq : foreign.name.text = key.algorithm.name)
      (body_eq : key.fieldEncoding.emission.result = .ok foreign.body) :
      PosesAs (.other foreign) key

/-- A double does not own its name. -/
theorem PosesAs.not_ownsName (h : a.PosesAs b) : ¬a.algorithm.OwnsName := by
  obtain ⟨hbuiltin, hname, -⟩ := h
  exact fun howns => howns _ (Algorithm.mem_builtins hbuiltin) hname.symm

/-- **A typed key that can be written has one double.** -/
theorem exists_double (hbuiltin : key.algorithm.isBuiltin = true) (h : key.toBytes = .ok blob) :
    ∃ double : PublicKey, double.PosesAs key ∧
      ∀ other : PublicKey, other.PosesAs key → other = double := by
  obtain ⟨-, body, hbody, -⟩ := toBytes_eq_ok_iff.1 h
  have hname : isAlgorithmName key.algorithm.name = true := by
    have hall : ∀ builtin ∈ Algorithm.builtins, isAlgorithmName builtin.name = true := by decide
    exact hall _ (Algorithm.mem_builtins hbuiltin)
  refine ⟨other ⟨⟨key.algorithm.name, hname⟩, body⟩, .mk hbuiltin rfl hbody, ?_⟩
  rintro _ ⟨-, hsame, hbody'⟩
  rename_i foreign
  obtain ⟨⟨text, hwellFormed⟩, body'⟩ := foreign
  rw [hbody] at hbody'
  cases hsame
  cases hbody'
  rfl

/-- Keys with the same name and the same fields are equal, or one of them is the double of the
other. -/
theorem eq_or_posesAs (hname : a.algorithm.name = b.algorithm.name)
    (ha : a.fieldEncoding.emission.result = .ok body)
    (hb : b.fieldEncoding.emission.result = .ok body) : a = b ∨ a.PosesAs b ∨ b.PosesAs a := by
  by_cases htyped : a.algorithm.isBuiltin = true
  · by_cases htyped' : b.algorithm.isBuiltin = true
    · have hfound := (Algorithm.ofName?_eq_builtin htyped).2 rfl
      have hfound' := (Algorithm.ofName?_eq_builtin htyped').2 rfl
      rw [hname, hfound', Option.some.injEq] at hfound
      exact .inl (eq_of_same_fields htyped hfound.symm ha hb)
    · cases b with
      | other foreign =>
          rw [result_fieldEncoding_other] at hb
          cases hb
          exact .inr (.inr (.mk htyped hname.symm ha))
      | _ => exact absurd rfl htyped'
  · cases a with
    | other foreign =>
        rw [result_fieldEncoding_other] at ha
        cases ha
        by_cases htyped' : b.algorithm.isBuiltin = true
        · exact .inr (.inl (.mk htyped' hname hb))
        · cases b with
          | other foreign' =>
              rw [result_fieldEncoding_other] at hb
              obtain ⟨⟨text, hwellFormed⟩, body⟩ := foreign
              obtain ⟨⟨text', hwellFormed'⟩, body'⟩ := foreign'
              cases hname
              cases hb
              exact .inl rfl
          | _ => exact absurd rfl htyped'
    | _ => exact absurd rfl htyped

theorem PosesAs.same_fields (h : a.PosesAs b) : a.algorithm.name = b.algorithm.name ∧
    a.fieldEncoding.emission.result = b.fieldEncoding.emission.result := by
  obtain ⟨-, hname, hbody⟩ := h
  exact ⟨hname, result_fieldEncoding_other.trans hbody.symm⟩

/-- **Blobs tell all keys apart but a typed one and its double.**  Two keys that can be written have
the same blob exactly if they are equal or one of them poses as the other, which happens only if its
type does not own its name.  Fingerprints tell apart what the digests of the blobs do. -/
theorem blob_tells_key (ha : a.toBytes = .ok blob) (hb : b.toBytes = .ok blob') :
    (blob = blob' ↔ a = b ∨ a.PosesAs b ∨ b.PosesAs a) ∧
    (a.algorithm.OwnsName → b.algorithm.OwnsName → (blob = blob' ↔ a = b)) ∧
    ∀ hash, Fingerprint.ofKey hash a = Fingerprint.ofKey hash b ↔
      hash.digest blob = hash.digest blob' := by
  have hblobs : blob = blob' ↔ a = b ∨ a.PosesAs b ∨ b.PosesAs a := by
    rw [blob_eq_iff ha hb]
    constructor
    · rintro ⟨hname, hfields⟩
      obtain ⟨-, body, hbody, -⟩ := toBytes_eq_ok_iff.1 ha
      exact eq_or_posesAs hname hbody (hfields ▸ hbody)
    · rintro (rfl | hposes | hposes)
      · exact ⟨rfl, rfl⟩
      · exact hposes.same_fields
      · exact ⟨hposes.same_fields.1.symm, hposes.same_fields.2.symm⟩
  refine ⟨hblobs, fun howns howns' => ?_, fun hash => ?_⟩
  · have hnot : ¬a.PosesAs b := fun hposes => hposes.not_ownsName howns
    have hnot' : ¬b.PosesAs a := fun hposes => hposes.not_ownsName howns'
    simpa [hnot, hnot'] using hblobs
  · obtain ⟨-, hresult⟩ := toBytes_eq_ok_iff.1 ha
    obtain ⟨-, hresult'⟩ := toBytes_eq_ok_iff.1 hb
    rw [Fingerprint.ofKey, Fingerprint.ofKey, result_encoding_eq_ok.2 hresult,
      result_encoding_eq_ok.2 hresult']
    simp [bind, Except.bind, pure, Except.pure, Fingerprint.ofMessage]

/-- A small RSA key, and an opaque key that holds the same name and the same bytes behind it. -/
theorem blob_tells_key_small_rsa : ∃ typed double : PublicKey, typed ≠ double ∧
    double.PosesAs typed ∧ typed = rsa ⟨.ofMagnitude [0x11], .ofMagnitude [0x0c, 0xa1]⟩ ∧
    typed.toBytes = .ok (prefixedAll [utf8Bytes "ssh-rsa", [0x11], [0x0c, 0xa1]]) ∧
    double.toBytes = .ok (prefixedAll [utf8Bytes "ssh-rsa", [0x11], [0x0c, 0xa1]]) := by
  let typed := rsa ⟨.ofMagnitude [0x11], .ofMagnitude [0x0c, 0xa1]⟩
  let double := other ⟨⟨"ssh-rsa", by decide⟩, prefixedAll [[0x11], [0x0c, 0xa1]]⟩
  have htyped : typed.toBytes = .ok (prefixedAll [utf8Bytes "ssh-rsa", [0x11], [0x0c, 0xa1]]) := rfl
  have hdouble : double.toBytes = .ok (prefixedAll [utf8Bytes "ssh-rsa", [0x11], [0x0c, 0xa1]]) :=
    rfl
  have hne : typed ≠ double := PublicKey.noConfusion
  refine ⟨typed, double, hne, ?_, rfl, htyped, hdouble⟩
  rcases (blob_tells_key htyped hdouble).1.1 rfl with hsame | hposes | hposes
  · exact absurd hsame hne
  · exact absurd (show typed.algorithm.OwnsName from trivial) hposes.not_ownsName
  · exact hposes

end PublicKey

end SshKeys
