/-
**A value is written alike everywhere.**

A value is written in pieces: to a byte string that collects them, to a buffer that appends each one
behind the last, to a digest that takes them in one by one.  None of them sees more than the bytes
in a row.  The length that is announced for a value is computed without writing anything, and still
it is the number of these bytes, so a value may be put behind it: the stream is framed by the very
length that the value turns out to have.  Only a value of `2 ^ 31` bytes or more has no frame, since
a length is a signed number of 32 bits.  A fingerprint is the digest of a key that was never put
together.

Main definitions:

* `SshKeys.Emission.Collects` — what an emission puts into memory;
* `SshKeys.Emission.Delivers` — an emission writes the same bytes everywhere;
* `SshKeys.Encoding.WrittenAs` — what is announced for a value and written of it.

Main results:

* `SshKeys.Emission.delivers` — a complete emission writes the same bytes everywhere;
* `SshKeys.Encoding.OfValue.begins` — a value is written in at least one piece;
* `SshKeys.Encoding.written_alike` — **every value is written alike everywhere**, and in the length
  announced for it;
* `SshKeys.Encoding.longest_string_unframed` — there is a value without a frame.
-/

import SshKeys.Proofs.AnnouncedLengths
import SshKeys.Proofs.BufferWrites
import SshKeys.Proofs.StreamedDigests

set_option relaxedAutoImplicit false
set_option autoImplicit false

namespace SshKeys

/-! ### The same bytes everywhere -/

namespace Emission

variable {e e' : Emission} {bs : Bytes}

/-- An emission is collected as a byte string in memory, where a byte string has fewer than `2 ^ 63`
bytes. -/
def Collects (e : Emission) (bs : Bytes) : Prop := e.result = .ok bs ∧ bs.length < 2 ^ 63

/-- An emission writes the same bytes to whatever takes them: they are collected, they are appended
to a buffer, and a digest that takes them piece by piece is the digest of them. -/
structure Delivers (e : Emission) (bs : Bytes) : Prop where
  collected : e.result = .ok bs
  appended : ∀ b : Buffer, b.WellFormed → ∃ b', Buffer.emit e b = .ok () b' ∧ b.Extends b' bs
  digested : ∀ D : StreamingDigest, D.digestOf e = .ok (D.digest bs)

/-- A complete emission of at least one piece writes the same bytes everywhere. -/
theorem delivers (h : e.result = .ok bs) (hne : e.writes ≠ []) : e.Delivers bs where
  collected := h
  appended b hb := by
    obtain ⟨hverdict, hbytes⟩ := result_eq_ok.1 h
    obtain ⟨b', houtcome, hextends⟩ := Buffer.adds_emit e b hb
    rw [hverdict] at houtcome
    rw [hbytes] at hextends
    exact ⟨b', outcome_eq_ok.1 houtcome, hextends⟩
  digested D := D.digestOf_eq h hne

/-- An emission that is not stopped writes at least one piece. -/
def Begins (e : Emission) : Prop := e.stop = none → e.writes ≠ []

theorem begins_write (bs : Bytes) : (write bs).Begins := fun _ => List.cons_ne_nil _ _

theorem begins_fail (error : Error) : (fail error).Begins := nofun

theorem Begins.append (h : e.Begins) (e' : Emission) : (e ++ e').Begins := by
  change (Emission.append e e').Begins
  rw [Emission.append]
  cases hstop : e.stop with
  | none => exact fun _ => List.append_ne_nil_of_left_ne_nil (h hstop) _
  | some error => exact h

theorem begins_length (count : Nat) : (length count).Begins := by
  rw [length]
  split
  · exact begins_write _
  · exact begins_fail _

theorem begins_string (bs : Bytes) : (string bs).Begins := (begins_length _).append _

theorem Begins.delivers (hbegins : e.Begins) (h : e.result = .ok bs) : e.Delivers bs := by
  refine Emission.delivers h (hbegins ?_)
  rw [result] at h
  cases hstop : e.stop with
  | none => rfl
  | some error =>
      rw [hstop] at h
      cases h

end Emission

/-! ### Values begin -/

theorem Encoding.begins_sequence_cons {e : Encoding} (h : e.emission.Begins)
    (parts : List Encoding) : (Encoding.sequence (e :: parts)).emission.Begins :=
  h.append _

theorem Mpint.begins_encoding (m : Mpint) : m.encoding.emission.Begins := by
  rw [encoding]
  split
  · exact ((Emission.begins_length _).append _).append _
  · exact Emission.begins_string _

theorem Field.begins_encoding (field : Field) : field.encoding.emission.Begins := by
  cases field with
  | boolean value => exact Emission.begins_write _
  | byte value => exact Emission.begins_write _
  | uint16 value => exact Emission.begins_write _
  | uint32 value => exact Emission.begins_write _
  | uint64 value => exact Emission.begins_write _
  | array value => exact Emission.begins_write _
  | string value => exact Emission.begins_string _
  | text value => exact Emission.begins_string _
  | mpint value => exact value.begins_encoding
  | algorithm value => exact Emission.begins_string _
  | curve value => exact Emission.begins_string _
  | hash value => exact Emission.begins_string _

namespace Encoding

/-- A value is written in at least one piece. -/
theorem OfValue.begins {e : Encoding} (h : e.OfValue) : e.emission.Begins := by
  have hlabel : ∀ {α : Type} [Label α] (a : α), (Encoding.label a).emission.Begins :=
    fun _ => Emission.begins_string _
  cases h with
  | field field => exact field.begins_encoding
  | label a => exact hlabel a
  | rsaPublicKey key => exact begins_sequence_cons key.e.begins_encoding _
  | dsaPublicKey key => exact begins_sequence_cons key.p.begins_encoding _
  | ecdsaPublicKey key => exact begins_sequence_cons (hlabel key.curve) _
  | foreignPublicKey key => exact begins_sequence_cons (hlabel key.name) _
  | publicKey key => exact begins_sequence_cons (hlabel key.algorithm) _
  | dsaPrivateKey key => exact key.x.begins_encoding
  | rsaKeypair pair =>
      exact begins_sequence_cons (begins_sequence_cons pair.publicKey.e.begins_encoding _) _
  | dsaKeypair pair =>
      exact begins_sequence_cons (begins_sequence_cons pair.publicKey.p.begins_encoding _) _
  | ecdsaKeypair pair =>
      exact begins_sequence_cons (begins_sequence_cons (hlabel pair.publicKey.curve) _) _
  | keypair pair =>
      cases pair with
      | dsa pair => exact begins_sequence_cons (hlabel _) _
      | ecdsa pair => exact begins_sequence_cons (hlabel _) _
      | rsa pair => exact begins_sequence_cons (hlabel _) _
      | other pair => exact Emission.begins_fail _

/-! ### What is announced and written -/

/-- A value is written as `bs`: this is what comes out of it everywhere, the announced lengths are
the number of bytes, and behind its length it is written everywhere as well, unless the length would
read back as negative. -/
structure WrittenAs (e : Encoding) (bs : Bytes) : Prop where
  announced : e.announced = .ok bs.length
  announcedFramed : e.announcedFramed = .ok (bs.length + 4)
  complete : e.toBytes = .ok bs
  plain : e.emission.Delivers bs
  framed : bs.length < 2 ^ 31 → e.framed.emission.Delivers (bigEndian 4 bs.length ++ bs)
  refused : 2 ^ 31 ≤ bs.length → e.framed.emission.result = .error (.wire .overflow)

/-- An encoding that announces what it writes is written alike everywhere. -/
theorem Honest.writtenAs {e : Encoding} (he : e.Honest) (hbegins : e.emission.Begins) {bs : Bytes}
    (hcollects : e.emission.Collects bs) : e.WrittenAs bs := by
  obtain ⟨h, hmemory⟩ := hcollects
  have hannounced := he.announced_eq h (by omega)
  constructor
  case announced => exact hannounced
  case announcedFramed =>
    have hsum : [4, bs.length].sum < 2 ^ 64 := by
      simp only [List.sum_cons, List.sum_nil]
      omega
    rw [Encoding.announcedFramed, hannounced]
    refine (checkedSum_of_lt hsum).trans (congrArg Except.ok ?_)
    simp only [List.sum_cons, List.sum_nil]
    omega
  case complete =>
    rw [toBytes, hannounced]
    exact h
  case plain => exact hbegins.delivers h
  case framed =>
    intro hshort
    have hframed := he.framed_eq_ok_iff.2 ⟨bs, h, fits_iff.2 hshort, rfl⟩
    refine Emission.Begins.delivers ?_ hframed
    simp only [Encoding.framed, hannounced]
    exact (Emission.begins_length _).append _
  case refused =>
    intro hlong
    have hnot : ¬bs.length ≤ maxLength := fun hfits => absurd (fits_iff.1 hfits) (by omega)
    simp only [Encoding.framed, hannounced, result_length_append, if_neg hnot]

end Encoding

/-- A fingerprint is the digest of what is written for a key. -/
theorem Fingerprint.ofKey_eq_ok_iff {hash : HashAlgorithm} {key : PublicKey} {f : Fingerprint} :
    ofKey hash key = .ok f ↔
      ∃ bs, key.encoding.emission.result = .ok bs ∧ f = ofMessage hash bs := by
  rw [ofKey, bind_eq_ok_iff]
  constructor
  · rintro ⟨bs, h, hf⟩
    exact ⟨bs, h, (pure_eq_ok_iff.1 hf).symm⟩
  · rintro ⟨bs, h, rfl⟩
    exact ⟨bs, h, rfl⟩

namespace Encoding

/-- **Every value is written alike everywhere**, and in the length that is announced for it, if it
can be put into memory at all; behind its length, if it has fewer than `2 ^ 31` bytes.  The
fingerprint of a key is the digest of its blob, though the blob is never put together but taken in
piece by piece; there is one if there is a blob, and no other way.  A key without a codec is written
like the public key it is. -/
theorem written_alike :
    (∀ e : Encoding, e.OfValue → ∀ bs, e.emission.Collects bs → e.WrittenAs bs) ∧
    (∀ (hash : HashAlgorithm) (key : PublicKey),
      (∀ bs, key.toBytes = .ok bs → ∃ f, Fingerprint.ofKey hash key = .ok f ∧ f.hash = hash ∧
        f.digest = hash.digest bs ∧
        hash.streaming.digestOf key.encoding.emission = .ok f.digest) ∧
      ∀ f, Fingerprint.ofKey hash key = .ok f → ∃ bs, key.encoding.emission.result = .ok bs ∧
        f.hash = hash ∧ f.digest = hash.digest bs ∧
        (key.encoding.emission.Collects bs → key.toBytes = .ok bs)) ∧
    ∀ key : ForeignPublicKey, key.encoding = (PublicKey.other key).encoding := by
  refine ⟨fun e he bs hbs => he.honest.writtenAs he.begins hbs, ?_, fun _ => rfl⟩
  intro hash key
  have hvalue := OfValue.publicKey key
  constructor
  · intro bs hblob
    obtain ⟨_, -, h⟩ := bind_eq_ok_iff.1 hblob
    refine ⟨_, Fingerprint.ofKey_eq_ok_iff.2 ⟨bs, h, rfl⟩, rfl, rfl, ?_⟩
    rw [(hvalue.begins.delivers h).digested, hash.digest_streaming]
    rfl
  · intro f hf
    obtain ⟨bs, h, rfl⟩ := Fingerprint.ofKey_eq_ok_iff.1 hf
    exact ⟨bs, h, rfl, rfl, fun hbs => (hvalue.honest.writtenAs hvalue.begins hbs).complete⟩

/-- A small key whose modulus needs a sign byte. -/
theorem written_alike_with_sign_byte :
    let key : PublicKey := .rsa ⟨.ofMagnitude [3], .ofMagnitude [0x80]⟩
    let blob := prefixedAll [utf8Bytes "ssh-rsa", [3], [0, 0x80]]
    key.encoding.WrittenAs blob ∧
      ∀ hash, ∃ f, Fingerprint.ofKey hash key = .ok f ∧ f.digest = hash.digest blob := by
  intro key blob
  have hcollects : key.encoding.emission.Collects blob := ⟨rfl, by decide⟩
  have hwritten : key.encoding.WrittenAs blob :=
    written_alike.1 _ (.publicKey key) blob hcollects
  refine ⟨hwritten, fun hash => ?_⟩
  obtain ⟨f, hf, -, hdigest, -⟩ := (written_alike.2.1 hash key).1 blob hwritten.complete
  exact ⟨f, hf, hdigest⟩

/-- A byte string of `2 ^ 31 - 1` bytes just fits behind its own length, but with that length it
does not fit behind another one: it is collected in memory, and there is no frame for it. -/
theorem longest_string_unframed :
    let value := (Field.string (List.replicate maxLength 0)).encoding
    value.OfValue ∧ value.emission.Collects (prefixed (List.replicate maxLength 0)) ∧
      value.framed.emission.result = .error (.wire .overflow) := by
  intro value
  have hvalue : value.OfValue := .field _
  have hfits : Fits (List.replicate maxLength 0) := Nat.le_of_eq List.length_replicate
  have hlength : (prefixed (List.replicate maxLength 0)).length = 4 + maxLength := by
    rw [length_prefixed, List.length_replicate]
  have hcollects : value.emission.Collects (prefixed (List.replicate maxLength 0)) := by
    refine ⟨result_string hfits, ?_⟩
    rw [hlength]
    decide
  refine ⟨hvalue, hcollects, (hvalue.honest.writtenAs hvalue.begins hcollects).refused ?_⟩
  rw [hlength]
  decide

end Encoding

end SshKeys
