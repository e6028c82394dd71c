/-
**Fingerprints are their texts.**

A fingerprint is written as the name of its hash function, a colon and the symbols of its digest,
and the symbols of the longest digest just fill the room there is for them.  A text is read by
cutting it at the colon, and symbols that stand for more bytes than the longest digest has are
refused before they are looked at.  Neither limit is ever met by what has been written, and each
part of a text is determined by what it stands for.  So writing and reading are inverse to each
other: every fingerprint has a text, and every text that is read is the one of its fingerprint.

Main results:

* `SshKeys.HashAlgorithm.ofFingerprintName?_eq_some_iff` — which name names which hash function;
* `SshKeys.Fingerprint.digestOfText_eq_ok_iff` — which symbols stand for which digest;
* `SshKeys.Fingerprint.ofText_eq_ok_iff_eq_text` — **a fingerprint has one text**, which fits the
  room for it and is read back.
-/

import SshKeys.Proofs.Base64Text
import SshKeys.Proofs.NamesOnWire
import SshKeys.Proofs.TextScans
import SshKeys.Key.Fingerprint

set_option relaxedAutoImplicit false
set_option autoImplicit false

namespace SshKeys

/-! ### Names of hash functions -/

namespace HashAlgorithm

/-- A hash function is found by its name in upper case, and by no other name. -/
theorem ofFingerprintName?_eq_some_iff {name : String} {hash : HashAlgorithm} :
    ofFingerprintName? name = some hash ↔ name = hash.fingerprintName := by
  constructor
  · intro h
    have hname := List.find?_some h
    exact (beq_iff_eq.1 hname).symm
  · rintro rfl
    cases hash <;> rfl

theorem not_mem_fingerprintName (hash : HashAlgorithm) :
    ':' ∉ hash.fingerprintName.toList := by
  cases hash <;> decide

theorem digestSize_le (hash : HashAlgorithm) :
    hash.digestSize ≤ Fingerprint.digestCapacity := by
  cases hash <;> decide

end HashAlgorithm

namespace Fingerprint

variable {f : Fingerprint} {s : String}

/-! ### The room for a digest -/

/-- The symbols of a byte string stand for as many bytes as it has. -/
theorem decodedLength_encodeBare (bs : Bytes) :
    decodedLength (Base64.encodeBare bs).length = bs.length := by
  rw [Base64.length_encodeBare, decodedLength]
  omega

/-- Symbols take one byte each. -/
theorem utf8ByteSize_encodeBare (bs : Bytes) :
    (String.ofList (Base64.encodeBare bs)).utf8ByteSize = (Base64.encodeBare bs).length := by
  have hlength := @length_utf8Bytes_of_isGraphic (.ofList (Base64.encodeBare bs)) fun c hc =>
    Base64.isGraphic_of_mem_encodeBare (by rwa [String.toList_ofList] at hc)
  rwa [String.toList_ofList] at hlength

/-- Symbols are read as a byte string exactly if they are its symbols, and it is no longer than the
longest digest. -/
theorem digestOfText_eq_ok_iff {bs : Bytes} :
    digestOfText s = .ok bs ↔
      s.toList = Base64.encodeBare bs ∧ bs.length ≤ digestCapacity := by
  rw [digestOfText]
  constructor
  · intro h
    split at h
    · cases h
    · next hroom =>
        split at h
        · next bs' hdecode =>
            cases h
            have hsymbols := Base64.eq_encodeBare_of_decodeBare? hdecode
            refine ⟨hsymbols, ?_⟩
            rw [← String.ofList_toList (s := s), hsymbols, utf8ByteSize_encodeBare,
              decodedLength_encodeBare] at hroom
            exact Nat.not_lt.1 hroom
        · cases h
  · rintro ⟨hsymbols, hroom⟩
    obtain rfl : s = .ofList (Base64.encodeBare bs) := by rw [← hsymbols, String.ofList_toList]
    rw [utf8ByteSize_encodeBare, decodedLength_encodeBare, if_neg (Nat.not_lt.2 hroom),
      String.toList_ofList, Base64.decodeBare?_encodeBare]

/-! ### Reading and writing -/

theorem ofDigest_eq_ok_iff {hash : HashAlgorithm} {digest : Bytes} :
    ofDigest hash digest = .ok f ↔ f.hash = hash ∧ f.digest = digest := by
  rw [ofDigest]
  constructor
  · intro h
    split at h
    · cases h
      exact ⟨rfl, rfl⟩
    · cases h
  · rintro ⟨rfl, rfl⟩
    exact dif_pos f.length_digest

theorem toList_text (f : Fingerprint) :
    f.text.toList = f.hash.fingerprintName.toList ++ ':' :: Base64.encodeBare f.digest := by
  simp [text]

/-- What a text has to be cut into for a fingerprint to be read from it. -/
theorem ofText_eq_ok_iff :
    ofText s = .ok f ↔ cutAt? ':' s.toList =
      some (f.hash.fingerprintName.toList, Base64.encodeBare f.digest) := by
  rw [ofText]
  constructor
  · intro h
    split at h
    · cases h
    · next name symbols hcut =>
        split at h
        · cases h
        · next hash hname =>
            obtain ⟨digest, hdigest, h⟩ := bind_eq_ok_iff.1 h
            obtain ⟨rfl, rfl⟩ := ofDigest_eq_ok_iff.1 h
            have hsymbols := (digestOfText_eq_ok_iff.1 hdigest).1
            have hname' := HashAlgorithm.ofFingerprintName?_eq_some_iff.1 hname
            rw [hcut, ← hname', String.toList_ofList, ← hsymbols, String.toList_ofList]
  · intro hcut
    have hroom : f.digest.length ≤ digestCapacity := by
      rw [f.length_digest]
      exact f.hash.digestSize_le
    have hname : HashAlgorithm.ofFingerprintName? (.ofList f.hash.fingerprintName.toList) =
        some f.hash := by
      rw [String.ofList_toList]
      exact HashAlgorithm.ofFingerprintName?_eq_some_iff.2 rfl
    have hdigest : digestOfText (.ofList (Base64.encodeBare f.digest)) = .ok f.digest :=
      digestOfText_eq_ok_iff.2 ⟨String.toList_ofList, hroom⟩
    simp only [hcut, hname]
    exact bind_eq_ok_iff.2 ⟨f.digest, hdigest, ofDigest_eq_ok_iff.2 ⟨rfl, rfl⟩⟩

/-- The symbols of a digest fit the room for them. -/
theorem length_symbols_le (f : Fingerprint) :
    (Base64.encodeBare f.digest).length ≤ symbolCapacity := by
  have hsize := f.hash.digestSize_le
  rw [← f.length_digest, digestCapacity] at hsize
  rw [Base64.length_encodeBare, symbolCapacity]
  omega

/-- **A fingerprint has one text.**  Its digest fits the room that there is while it is written, the
text is read back as the fingerprint, and no other text is. -/
theorem ofText_eq_ok_iff_eq_text (f : Fingerprint) :
    f.written? = some f.text ∧ ∀ s, ofText s = .ok f ↔ s = f.text := by
  refine ⟨if_pos f.length_symbols_le, fun s => ?_⟩
  rw [ofText_eq_ok_iff, cutAt?_eq_some_iff, ← toList_text, String.toList_inj]
  exact and_iff_left f.hash.not_mem_fingerprintName

end Fingerprint

end SshKeys
