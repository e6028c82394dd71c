/-
**Keypairs on the wire.**

The blob of a keypair begins with the blob of its public key, and the private fields follow it,
each behind its length.  What is not written, the two exponents of an RSA key for its primes, is
derived again from what is.  Two keypairs count as equal exactly if the same blob is written for
them.

Main definitions:

* `SshKeys.RsaPrivateKey.IsDerived` — a private key with the exponents that its primes call for;
* `SshKeys.Keypair.secretFields` — the private fields in the form in which they are written;
* `SshKeys.Keypair.WellBuilt` — a keypair that can be written and read.

Main results:

* `SshKeys.Keypair.reads_blob`, `SshKeys.Keypair.spells_encoding` — reading and writing;
* `SshKeys.Keypair.blob_embeds_publicKey` — **a keypair is read back from its blob, which begins
  with that of its public key**, and equal keypairs are those with equal blobs.
-/

import SshKeys.Proofs.PublicKeyWire
import SshKeys.Key.Keypair

set_option relaxedAutoImplicit false
set_option autoImplicit false

namespace SshKeys

/-! ### Derived exponents -/

namespace RsaPrivateKey

/-- The exponents for the primes were derived. -/
def IsDerived (key : RsaPrivateKey) : Prop :=
  ∃ d iqmp p q, derive d iqmp p q = .ok key

/-- A derived key is derived again from the fields that are written. -/
theorem IsDerived.derive_eq {key : RsaPrivateKey} (h : key.IsDerived) :
    derive key.d key.iqmp key.p key.q = .ok key := by
  obtain ⟨d, iqmp, p, q, hderive⟩ := h
  have hfields : key.d = d ∧ key.iqmp = iqmp ∧ key.p = p ∧ key.q = q := by
    unfold derive at hderive
    cases hp : reducedExponent d p with
    | error error => simp [hp, bind, Except.bind] at hderive
    | ok dp =>
        cases hq : reducedExponent d q with
        | error error => simp [hp, hq, bind, Except.bind] at hderive
        | ok dq =>
            simp only [hp, hq, bind, Except.bind, pure, Except.pure, Except.ok.injEq] at hderive
            rw [← hderive]
            exact ⟨rfl, rfl, rfl, rfl⟩
  obtain ⟨rfl, rfl, rfl, rfl⟩ := hfields
  exact hderive

end RsaPrivateKey

/-! ### The families -/

namespace DsaKeypair

/-- The private fields in the form in which they are written. -/
def secretFields (pair : DsaKeypair) : List Bytes := [pair.privateKey.x.body]

theorem spells_encoding (pair : DsaKeypair) :
    pair.encoding.Spells (pair.publicKey.fields ++ pair.secretFields) :=
  pair.publicKey.spells_encoding.sequence_cons
    pair.privateKey.x.spells_encoding.sequence_singleton

theorem reads_fields {pair : DsaKeypair} (hpublic : ∀ field ∈ pair.publicKey.fields, Fits field)
    (hsecret : ∀ field ∈ pair.secretFields, Fits field) (rest : Bytes) :
    decoder.Reads (prefixedAll pair.publicKey.fields ++ (prefixedAll pair.secretFields ++ rest))
      pair rest := by
  simp only [secretFields, List.forall_mem_cons] at hsecret
  simp only [secretFields, prefixedAll_cons, prefixedAll_nil, List.append_nil, decoder,
    Decoder.reads_bind, Decoder.reads_pure]
  exact ⟨_, _, DsaPublicKey.reads_fields hpublic _, _, _, Mpint.reads_body hsecret.1 rest, rfl, rfl⟩

end DsaKeypair

namespace EcdsaKeypair

/-- The private fields in the form in which they are written. -/
def secretFields (pair : EcdsaKeypair) : List Bytes := [pair.privateKey.scalar.body]

variable {pair : EcdsaKeypair}

theorem spells_encoding (h : pair.publicKey.point.Within pair.publicKey.curve) :
    pair.encoding.Spells (pair.publicKey.fields ++ pair.secretFields) :=
  (EcdsaPublicKey.spells_encoding h).sequence_cons
    pair.privateKey.scalar.spells_encoding.sequence_singleton

theorem reads_fields (h : pair.publicKey.point.Within pair.publicKey.curve)
    (hsecret : ∀ field ∈ pair.secretFields, Fits field) (rest : Bytes) :
    (decoder pair.publicKey.curve).Reads
      (prefixedAll pair.publicKey.fields ++ (prefixedAll pair.secretFields ++ rest)) pair rest := by
  simp only [secretFields, List.forall_mem_cons] at hsecret
  simp only [secretFields, prefixedAll_cons, prefixedAll_nil, List.append_nil, decoder,
    Decoder.reads_bind, Decoder.reads_pure]
  exact ⟨_, _, EcdsaPublicKey.reads_fields h _, _, _, Mpint.reads_body hsecret.1 rest, rfl, rfl⟩

end EcdsaKeypair

namespace RsaKeypair

/-- The private fields in the form in which they are written. -/
def secretFields (pair : RsaKeypair) : List Bytes :=
  [pair.privateKey.d.body, pair.privateKey.iqmp.body, pair.privateKey.q.body,
    pair.privateKey.p.body]

theorem spells_encoding (pair : RsaKeypair) :
    pair.encoding.Spells (pair.publicKey.fields ++ pair.secretFields) :=
  pair.publicKey.spells_encoding.sequence_cons <|
    pair.privateKey.d.spells_encoding.sequence_cons <|
      pair.privateKey.iqmp.spells_encoding.sequence_cons <|
        pair.privateKey.q.spells_encoding.sequence_cons
          pair.privateKey.p.spells_encoding.sequence_singleton

theorem reads_fields {pair : RsaKeypair} (hderived : pair.privateKey.IsDerived)
    (hpublic : ∀ field ∈ pair.publicKey.fields, Fits field)
    (hsecret : ∀ field ∈ pair.secretFields, Fits field) (rest : Bytes) :
    decoder.Reads (prefixedAll pair.publicKey.fields ++ (prefixedAll pair.secretFields ++ rest))
      pair rest := by
  simp only [secretFields, List.forall_mem_cons] at hsecret
  obtain ⟨hd, hiqmp, hq, hp, -⟩ := hsecret
  simp only [secretFields, prefixedAll_cons, prefixedAll_nil, List.append_nil, List.append_assoc,
    decoder, Decoder.reads_bind, Decoder.reads_pure, Decoder.reads_ofExcept]
  -- the exponents are derived from the primes in the order in which the key names them
  exact ⟨_, _, RsaPublicKey.reads_fields hpublic _, _, _, Mpint.reads_body hd _,
    _, _, Mpint.reads_body hiqmp _, _, _, Mpint.reads_body hq _, _, _, Mpint.reads_body hp rest,
    _, _, ⟨hderived.derive_eq, rfl⟩, rfl, rfl⟩

end RsaKeypair

namespace Keypair

/-! ### Fields of any family -/

/-- The private fields in the form in which they are written.  A keypair without a codec has
none. -/
def secretFields : Keypair → List Bytes
  | dsa pair => pair.secretFields
  | ecdsa pair => pair.secretFields
  | rsa pair => pair.secretFields
  | other _ => []

/-- All fields in the form in which they are written, without the key type. -/
def fields (pair : Keypair) : List Bytes := pair.publicKey.fields ++ pair.secretFields

/-- A keypair of a type with a codec, with derived exponents and with coordinates of the width of
their field. -/
def WellBuilt : Keypair → Prop
  | rsa pair => pair.privateKey.IsDerived
  | pair => pair.publicKey.WellSized

variable {pair other : Keypair}

theorem WellBuilt.wellSized (h : pair.WellBuilt) : pair.publicKey.WellSized := by
  cases pair with
  | rsa pair => trivial
  | _ => exact h

theorem length_secretFields_le (pair : Keypair) : pair.secretFields.length ≤ 4 := by
  cases pair <;> simp [secretFields, DsaKeypair.secretFields, EcdsaKeypair.secretFields,
    RsaKeypair.secretFields]

/-! ### Writing and reading -/

/-- What is written for a keypair: the key type, the public fields and the private ones. -/
theorem spells_encoding (h : pair.WellBuilt) :
    pair.encoding.Spells (utf8Bytes pair.algorithm.name :: pair.fields) := by
  have hfields : pair.fieldEncoding.Spells pair.fields := by
    cases pair with
    | dsa pair => exact pair.spells_encoding
    | ecdsa pair => exact EcdsaKeypair.spells_encoding h
    | rsa pair => exact pair.spells_encoding
    | other pair => exact absurd h id
  -- the fields stand behind the key type for each family alike
  have hsequence := (Encoding.spells_label pair.algorithm).sequence_cons hfields.sequence_singleton
  cases pair with
  | other pair => exact absurd h id
  | _ => exact hsequence

/-- The blob of a keypair, and the length that is announced for it. -/
theorem toBytes_eq (h : pair.WellBuilt) (hfit : ∀ field ∈ pair.fields, Fits field) :
    pair.toBytes = .ok (prefixedAll (utf8Bytes pair.algorithm.name :: pair.fields)) ∧
      pair.encoding.announced =
        .ok (prefixedAll (utf8Bytes pair.algorithm.name :: pair.fields)).length := by
  have hpublic := h.wellSized.length_fields_le
  have hsecret := pair.length_secretFields_le
  have hname : Fits (utf8Bytes pair.algorithm.name) := Algorithm.fits_name h.wellSized.isBuiltin
  have hwritten := (spells_encoding h).toBytes_eq (List.forall_mem_cons.2 ⟨hname, hfit⟩) ?_
  · exact ⟨hwritten.2.2, hwritten.2.1⟩
  · rw [List.length_cons, fields, List.length_append]
    omega

/-- A keypair is read back from what is written for it, whatever follows. -/
theorem reads_blob (h : pair.WellBuilt) (hfit : ∀ field ∈ pair.fields, Fits field) (rest : Bytes) :
    decoder.Reads (prefixedAll (utf8Bytes pair.algorithm.name :: pair.fields) ++ rest) pair rest := by
  have hpublic : ∀ field ∈ pair.publicKey.fields, Fits field := fun field hfield =>
    hfit field (List.mem_append_left _ hfield)
  have hsecret : ∀ field ∈ pair.secretFields, Fits field := fun field hfield =>
    hfit field (List.mem_append_right _ hfield)
  have hfields : (fieldDecoder pair.algorithm).Reads
      (prefixedAll pair.publicKey.fields ++ (prefixedAll pair.secretFields ++ rest)) pair rest := by
    cases pair with
    | dsa pair =>
        exact Decoder.reads_map.2 ⟨pair, DsaKeypair.reads_fields hpublic hsecret rest, rfl⟩
    | ecdsa pair =>
        exact Decoder.reads_map.2 ⟨pair, EcdsaKeypair.reads_fields h hsecret rest, rfl⟩
    | rsa pair =>
        exact Decoder.reads_map.2 ⟨pair, RsaKeypair.reads_fields h hpublic hsecret rest, rfl⟩
    | other pair => exact absurd h id
  refine Decoder.reads_bind.2 ⟨pair.algorithm, _, Decoder.reads_keyType.2 ⟨?_, ?_⟩, hfields⟩
  · exact h.wellSized.isBuiltin
  · rw [prefixedAll_cons, fields, prefixedAll_append, List.append_assoc, List.append_assoc]

/-! ### Equality -/

theorem beq_self (pair : Keypair) : (pair == pair) = true := by
  cases pair with
  | dsa pair => exact beq_self_eq_true pair
  | ecdsa pair => exact beq_self_eq_true pair
  | rsa pair =>
      change (pair.publicKey == pair.publicKey && (_ && _ && _ && _)) = true
      simp
  | other pair => exact beq_self_eq_true pair

/-- Keypairs that count as equal have the same fields. -/
theorem fields_eq_of_beq (h : (pair == other) = true) :
    pair.publicKey = other.publicKey ∧ pair.fields = other.fields := by
  cases pair with
  | dsa pair =>
      cases other with
      | dsa other =>
          obtain rfl : pair = other := eq_of_beq h
          exact ⟨rfl, rfl⟩
      | _ => exact Bool.noConfusion h
  | ecdsa pair =>
      cases other with
      | ecdsa other =>
          obtain rfl : pair = other := eq_of_beq h
          exact ⟨rfl, rfl⟩
      | _ => exact Bool.noConfusion h
  | rsa pair =>
      cases other with
      | rsa other =>
          change (pair.publicKey == other.publicKey && (_ && _ && _ && _)) = true at h
          simp only [Bool.and_eq_true, beq_iff_eq] at h
          obtain ⟨hpublic, ⟨⟨hd, hiqmp⟩, hp⟩, hq⟩ := h
          simp [fields, publicKey, secretFields, RsaKeypair.secretFields, hpublic, hd, hiqmp, hp, hq]
      | _ => exact Bool.noConfusion h
  | other pair =>
      cases other with
      | other other =>
          obtain rfl : pair = other := eq_of_beq h
          exact ⟨rfl, rfl⟩
      | _ => exact Bool.noConfusion h

/-- Two keypairs count as equal exactly if the same blob is written for them. -/
theorem beq_iff_toBytes_eq (h : pair.WellBuilt) (hfit : ∀ field ∈ pair.fields, Fits field)
    (hother : other.WellBuilt) (hotherFit : ∀ field ∈ other.fields, Fits field) :
    (pair == other) = true ↔ pair.toBytes = other.toBytes := by
  rw [(toBytes_eq h hfit).1, (toBytes_eq hother hotherFit).1, Except.ok.injEq]
  constructor
  · intro hequal
    obtain ⟨hpublic, hfields⟩ := fields_eq_of_beq hequal
    rw [algorithm, algorithm, hpublic, hfields]
  · intro hblob
    -- the same bytes are read as both keypairs
    have hreads := reads_blob h hfit []
    rw [hblob] at hreads
    obtain ⟨rfl, -⟩ := hreads.unique (reads_blob hother hotherFit [])
    exact beq_self pair

/-! ### Round trip -/

/-- **A keypair is read back from its blob, which begins with that of its public key.**  Read as a
public key, the blob gives the public half and leaves the private fields.  Two keypairs count as
equal exactly if the same blob is written for them. -/
theorem blob_embeds_publicKey (h : pair.WellBuilt)
    (hshort : ∀ field ∈ pair.fields, field.length < 2 ^ 31) :
    (∃ blob publicBlob,
      pair.toBytes = .ok blob ∧ pair.encoding.announced = .ok blob.length ∧
      (∀ rest, (decoder.run (blob ++ rest) : EStateM.Result Error Bytes Keypair) =
        .ok pair rest) ∧
      pair.publicKey.toBytes = .ok publicBlob ∧
      blob = publicBlob ++ prefixedAll pair.secretFields ∧
      (PublicKey.decoder.run blob : EStateM.Result Error Bytes PublicKey) =
        .ok pair.publicKey (prefixedAll pair.secretFields)) ∧
    ∀ other : Keypair, other.WellBuilt → (∀ field ∈ other.fields, field.length < 2 ^ 31) →
      ((pair == other) = true ↔ pair.toBytes = other.toBytes) := by
  have hfit : ∀ field ∈ pair.fields, Fits field := fun field hfield =>
    fits_iff.2 (hshort field hfield)
  have hpublic : ∀ field ∈ pair.publicKey.fields, Fits field := fun field hfield =>
    hfit field (List.mem_append_left _ hfield)
  obtain ⟨hwritten, hannounced⟩ := toBytes_eq h hfit
  constructor
  · refine ⟨_, _, hwritten, hannounced, fun rest => reads_blob h hfit rest,
      PublicKey.toBytes_eq h.wellSized hpublic, by simp [fields, algorithm], ?_⟩
    refine PublicKey.reads_decoder.2
      ⟨pair.publicKey.fields, h.wellSized.spelledBy_fields, hpublic, ?_⟩
    simp [fields, algorithm]
  · intro other hother hotherShort
    exact beq_iff_toBytes_eq h hfit hother fun field hfield =>
      fits_iff.2 (hotherShort field hfield)

/-- An RSA keypair survives, and the one with its primes swapped has another blob. -/
theorem blob_embeds_publicKey_swapped :
    (∃ blob,
      (rsa ⟨⟨.ofMagnitude [3], .ofMagnitude [15]⟩, ⟨.ofMagnitude [3], .ofMagnitude [2],
        .ofMagnitude [3], .ofMagnitude [5], .ofNat 1, .ofNat 3⟩⟩).toBytes = .ok blob ∧
      (decoder.run (blob ++ [0]) : EStateM.Result Error Bytes Keypair) =
        .ok (rsa ⟨⟨.ofMagnitude [3], .ofMagnitude [15]⟩, ⟨.ofMagnitude [3], .ofMagnitude [2],
          .ofMagnitude [3], .ofMagnitude [5], .ofNat 1, .ofNat 3⟩⟩) [0]) ∧
    (rsa ⟨⟨.ofMagnitude [3], .ofMagnitude [15]⟩, ⟨.ofMagnitude [3], .ofMagnitude [2],
        .ofMagnitude [3], .ofMagnitude [5], .ofNat 1, .ofNat 3⟩⟩).toBytes ≠
      (rsa ⟨⟨.ofMagnitude [3], .ofMagnitude [15]⟩, ⟨.ofMagnitude [3], .ofMagnitude [2],
        .ofMagnitude [5], .ofMagnitude [3], .ofNat 3, .ofNat 1⟩⟩).toBytes := by
  have hderived : RsaPrivateKey.IsDerived ⟨.ofMagnitude [3], .ofMagnitude [2],
      .ofMagnitude [3], .ofMagnitude [5], .ofNat 1, .ofNat 3⟩ :=
    ⟨.ofMagnitude [3], .ofMagnitude [2], .ofMagnitude [3], .ofMagnitude [5], rfl⟩
  have hswapped : RsaPrivateKey.IsDerived ⟨.ofMagnitude [3], .ofMagnitude [2],
      .ofMagnitude [5], .ofMagnitude [3], .ofNat 3, .ofNat 1⟩ :=
    ⟨.ofMagnitude [3], .ofMagnitude [2], .ofMagnitude [5], .ofMagnitude [3], rfl⟩
  obtain ⟨⟨blob, -, hblob, -, hreads, -⟩, hequal⟩ := blob_embeds_publicKey
    (show (rsa ⟨⟨.ofMagnitude [3], .ofMagnitude [15]⟩, _⟩).WellBuilt from hderived) (by decide)
  refine ⟨⟨blob, hblob, hreads [0]⟩, fun hsame => ?_⟩
  have hsame' := (hequal (rsa ⟨⟨.ofMagnitude [3], .ofMagnitude [15]⟩, _⟩) hswapped (by decide)).2
    hsame
  exact absurd hsame' (by decide)

end Keypair

end SshKeys
