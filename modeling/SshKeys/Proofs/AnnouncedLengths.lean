/-
**Values announce as many bytes as they write.**

The length in front of a value is announced before anything of the value is written, and computed
from its parts.  It is the number of bytes that are written, if all of them are.  No length is
announced only if the sum leaves 64 bits, and then the bytes are too many for a length in front of
them anyway.

Main definitions:

* `SshKeys.Encoding.Honest` — an encoding that announces what it writes;
* `SshKeys.Encoding.OfValue` — the encodings of the values that can be written.

Main results:

* `SshKeys.Encoding.Honest.sequence_cons` — honest encodings in a row are honest;
* `SshKeys.Encoding.OfValue.honest` — **every value announces as many bytes as it writes**;
* `SshKeys.Encoding.Honest.framed_eq_ok_iff` — what an honest encoding writes behind its length.
-/

import SshKeys.Key.Keypair
import SshKeys.Proofs.PublicKeyWire
import SshKeys.Wire.Field

set_option relaxedAutoImplicit false
set_option autoImplicit false

namespace SshKeys

namespace Encoding

/-! ### Honest encodings -/

/-- An encoding that announces as many bytes as it writes, unless their number leaves 64 bits. -/
def Honest (e : Encoding) : Prop :=
  ∀ bs, e.emission.result = .ok bs →
    e.announced = .ok bs.length ∨ (∃ error, e.announced = .error error) ∧ 2 ^ 64 ≤ bs.length

theorem honest_of_error {e : Encoding} {error : Error} (h : e.emission.result = .error error) :
    e.Honest := by
  intro bs hbs
  rw [h] at hbs
  cases hbs

theorem honest_fixed (bs : Bytes) : (fixed bs).Honest := by
  intro written hwritten
  rw [fixed, Emission.result_write] at hwritten
  cases hwritten
  exact .inl rfl

/-- A sum of lengths is the number of the bytes, or leaves 64 bits. -/
theorem checkedSum_eq_or (lengths : List Nat) :
    checkedSum lengths = .ok lengths.sum ∨
      (∃ error, checkedSum lengths = .error error) ∧ 2 ^ 64 ≤ lengths.sum := by
  by_cases h : lengths.sum < 2 ^ 64
  · exact .inl (checkedSum_of_lt h)
  · exact .inr ⟨⟨_, checkedSum_of_not_lt h⟩, Nat.not_lt.1 h⟩

/-- What is written is announced, if its length is a number of 64 bits. -/
theorem Honest.announced_eq {e : Encoding} (he : e.Honest) {bs : Bytes}
    (h : e.emission.result = .ok bs) (hlength : bs.length < 2 ^ 64) :
    e.announced = .ok bs.length := by
  rcases he bs h with hcount | ⟨-, hlong⟩
  · exact hcount
  · exact absurd hlength (Nat.not_lt.2 hlong)

/-- What fits behind a length is announced. -/
theorem Honest.announced_of_fits {e : Encoding} (he : e.Honest) {bs : Bytes}
    (h : e.emission.result = .ok bs) (hfits : Fits bs) : e.announced = .ok bs.length :=
  he.announced_eq h (Nat.lt_of_le_of_lt hfits (by decide))

/-- Byte strings behind their lengths are announced as they are. -/
theorem Spells.honest {e : Encoding} {strings : List Bytes} (he : e.Spells strings) :
    e.Honest := by
  intro bs hbs
  rw [he.result, writeAll] at hbs
  split at hbs
  · cases hbs
    rw [he.announced, length_prefixedAll]
    exact checkedSum_eq_or _
  · cases hbs

theorem honest_sequence_nil : (sequence []).Honest :=
  spells_sequence_nil.honest

/-- Honest encodings in a row are honest: if one of them is too long, so are all of them. -/
theorem Honest.sequence_cons {e : Encoding} {parts : List Encoding} (he : e.Honest)
    (hparts : (sequence parts).Honest) : (sequence (e :: parts)).Honest := by
  intro bs hbs
  rw [result_sequence_cons] at hbs
  cases hfront : e.emission.result with
  | error error =>
      rw [hfront] at hbs
      cases hbs
  | ok front =>
      cases hback : (sequence parts).emission.result with
      | error error =>
          rw [hfront, hback] at hbs
          cases hbs
      | ok back =>
          rw [hfront, hback] at hbs
          cases hbs
          rw [announced_sequence_cons, List.length_append]
          rcases he front hfront with hcount | ⟨⟨error, hrefused⟩, hlong⟩
          · rcases hparts back hback with htotal | ⟨⟨error, hrefused⟩, hlong⟩
            · rw [hcount, htotal]
              exact checkedSum_eq_or [front.length, back.length]
            · rw [hcount, hrefused]
              exact .inr ⟨⟨error, rfl⟩, by omega⟩
          · rw [hrefused]
            exact .inr ⟨⟨error, rfl⟩, by omega⟩

theorem honest_sequence {parts : List Encoding} (h : ∀ e ∈ parts, e.Honest) :
    (sequence parts).Honest := by
  induction parts with
  | nil => exact honest_sequence_nil
  | cons e parts ih =>
      obtain ⟨he, hparts⟩ := List.forall_mem_cons.1 h
      exact he.sequence_cons (ih hparts)

theorem honest_pair {e e' : Encoding} (he : e.Honest) (he' : e'.Honest) :
    (sequence [e, e']).Honest :=
  he.sequence_cons (he'.sequence_cons honest_sequence_nil)

/-! ### Behind a length -/

theorem result_length_append (count : Nat) (e : Emission) :
    (Emission.length count ++ e).result =
      if count ≤ maxLength then (bigEndian 4 count ++ ·) <$> e.result
      else .error (.wire .overflow) := by
  rw [Emission.result_append, Emission.length]
  split
  · rw [Emission.result_write]
    rfl
  · rfl

/-- An honest encoding is written behind its announced length exactly if its bytes fit. -/
theorem Honest.framed_eq_ok_iff {e : Encoding} (he : e.Honest) {bs : Bytes} :
    e.framed.emission.result = .ok bs ↔
      ∃ content, e.emission.result = .ok content ∧ Fits content ∧ bs = prefixed content := by
  constructor
  · intro hbs
    cases hannounced : e.announced with
    | error error => simp [framed, hannounced] at hbs
    | ok count =>
        simp only [framed, hannounced, result_length_append] at hbs
        split at hbs
        · rename_i hfits
          cases hresult : e.emission.result with
          | error error =>
              rw [hresult] at hbs
              cases hbs
          | ok content =>
              rw [hresult] at hbs
              cases hbs
              rcases he content hresult with hcount | ⟨⟨error, hrefused⟩, -⟩
              · rw [hannounced] at hcount
                cases hcount
                exact ⟨content, rfl, hfits, rfl⟩
              · rw [hannounced] at hrefused
                cases hrefused
        · cases hbs
  · rintro ⟨content, hresult, hfits, rfl⟩
    have hmax : content.length ≤ maxLength := hfits
    simp only [framed, he.announced_of_fits hresult hfits, result_length_append, if_pos hmax,
      hresult]
    rfl

/-- An honest encoding has given bytes, if they fit, exactly if it writes them. -/
theorem Honest.toBytes_eq_ok_iff {e : Encoding} (he : e.Honest) {bs : Bytes} (hfits : Fits bs) :
    e.toBytes = .ok bs ↔ e.emission.result = .ok bs := by
  rw [toBytes]
  constructor
  · intro hbs
    cases hannounced : e.announced with
    | error error =>
        rw [hannounced] at hbs
        cases hbs
    | ok count =>
        rw [hannounced] at hbs
        exact hbs
  · intro hresult
    rw [he.announced_of_fits hresult hfits]
    exact hresult

end Encoding

/-! ### Values -/

theorem Mpint.honest_encoding (m : Mpint) : m.encoding.Honest := m.spells_encoding.honest

/-- Every field announces as many bytes as it writes. -/
theorem Field.honest_encoding (field : Field) : field.encoding.Honest := by
  cases field with
  | boolean value => exact Encoding.honest_fixed _
  | byte value => exact Encoding.honest_fixed _
  | uint16 value => exact Encoding.honest_fixed _
  | uint32 value => exact Encoding.honest_fixed _
  | uint64 value => exact Encoding.honest_fixed _
  | array value => exact Encoding.honest_fixed _
  | string value => exact (Encoding.spells_string _).honest
  | text value => exact (Encoding.spells_string _).honest
  | mpint value => exact value.honest_encoding
  | algorithm value => exact (Encoding.spells_label _).honest
  | curve value => exact (Encoding.spells_label _).honest
  | hash value => exact (Encoding.spells_label _).honest

theorem RsaPublicKey.honest_encoding (key : RsaPublicKey) : key.encoding.Honest :=
  key.spells_encoding.honest

theorem DsaPublicKey.honest_encoding (key : DsaPublicKey) : key.encoding.Honest :=
  key.spells_encoding.honest

/-- The length of a point is announced from the curve alone.  A point that is written has it. -/
theorem EcdsaPublicKey.honest_encoding (key : EcdsaPublicKey) : key.encoding.Honest := by
  by_cases h : key.point.Within key.curve
  · exact (EcdsaPublicKey.spells_encoding h).honest
  · exact Encoding.honest_of_error (EcdsaPublicKey.result_of_not_within h)

theorem ForeignPublicKey.honest_encoding (key : ForeignPublicKey) : key.encoding.Honest :=
  Encoding.honest_pair (Encoding.spells_label _).honest (Encoding.honest_fixed _)

theorem PublicKey.honest_encoding (key : PublicKey) : key.encoding.Honest := by
  refine Encoding.honest_pair (Encoding.spells_label _).honest ?_
  cases key with
  | dsa key => exact key.honest_encoding
  | ecdsa key => exact key.honest_encoding
  | rsa key => exact key.honest_encoding
  | other key => exact Encoding.honest_fixed _

theorem RsaKeypair.honest_encoding (pair : RsaKeypair) : pair.encoding.Honest := by
  refine Encoding.honest_sequence ?_
  simp [pair.publicKey.honest_encoding, Mpint.honest_encoding]

theorem DsaKeypair.honest_encoding (pair : DsaKeypair) : pair.encoding.Honest :=
  Encoding.honest_pair pair.publicKey.honest_encoding pair.privateKey.x.honest_encoding

theorem EcdsaKeypair.honest_encoding (pair : EcdsaKeypair) : pair.encoding.Honest :=
  Encoding.honest_pair pair.publicKey.honest_encoding pair.privateKey.scalar.honest_encoding

theorem Keypair.honest_encoding (pair : Keypair) : pair.encoding.Honest := by
  cases pair with
  | dsa pair => exact Encoding.honest_pair (Encoding.spells_label _).honest pair.honest_encoding
  | ecdsa pair => exact Encoding.honest_pair (Encoding.spells_label _).honest pair.honest_encoding
  | rsa pair => exact Encoding.honest_pair (Encoding.spells_label _).honest pair.honest_encoding
  | other pair => exact Encoding.honest_of_error rfl

namespace Encoding

/-- The encodings of the values that can be written. -/
inductive OfValue : Encoding → Prop
  | field (field : Field) : OfValue field.encoding
  | label {α : Type} [Label α] (a : α) : OfValue (label a)
  | rsaPublicKey (key : RsaPublicKey) : OfValue key.encoding
  | dsaPublicKey (key : DsaPublicKey) : OfValue key.encoding
  | ecdsaPublicKey (key : EcdsaPublicKey) : OfValue key.encoding
  | foreignPublicKey (key : ForeignPublicKey) : OfValue key.encoding
  | publicKey (key : PublicKey) : OfValue key.encoding
  | dsaPrivateKey (key : DsaPrivateKey) : OfValue key.encoding
  | rsaKeypair (pair : RsaKeypair) : OfValue pair.encoding
  | dsaKeypair (pair : DsaKeypair) : OfValue pair.encoding
  | ecdsaKeypair (pair : EcdsaKeypair) : OfValue pair.encoding
  | keypair (pair : Keypair) : OfValue pair.encoding

/-- **Every value announces as many bytes as it writes.** -/
theorem OfValue.honest {e : Encoding} (h : e.OfValue) : e.Honest := by
  cases h with
  | field field => exact field.honest_encoding
  | label a => exact (spells_label a).honest
  | rsaPublicKey key => exact key.honest_encoding
  | dsaPublicKey key => exact key.honest_encoding
  | ecdsaPublicKey key => exact key.honest_encoding
  | foreignPublicKey key => exact key.honest_encoding
  | publicKey key => exact key.honest_encoding
  | dsaPrivateKey key => exact key.x.honest_encoding
  | rsaKeypair pair => exact pair.honest_encoding
  | dsaKeypair pair => exact pair.honest_encoding
  | ecdsaKeypair pair => exact pair.honest_encoding
  | keypair pair => exact pair.honest_encoding

end Encoding

end SshKeys
