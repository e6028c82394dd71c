/-
**Numbers by their digits.**

A number is kept as its digits to the base 256, the most significant one first, and zero has none.
Whichever way a number comes in, its digits are what is kept, so equal numbers are equal values, and
how many bytes or bits a number takes can be read off the bytes that are kept.

Main definitions:

* `SshKeys.Mpint.Keeps` — what is kept are the digits of a number.

Main results:

* `SshKeys.digits_natOfBytes` — a byte string without zero bytes in front is the digits of its
  number;
* `SshKeys.Mpint.bits_eq_size` — the number of binary digits;
* `SshKeys.Mpint.padded_eq_ok_iff` — which numbers have room in a width;
* `SshKeys.Mpint.keeps_numbers` — **numbers are kept faithfully**.
-/

import Mathlib.Data.Nat.Digits.Lemmas
import Mathlib.Data.Nat.Size
import SshKeys.Key.PublicKey
import SshKeys.Proofs.BufferReads
import SshKeys.Proofs.TwosComplement

set_option relaxedAutoImplicit false
set_option autoImplicit false

namespace SshKeys

/-! ### Digits -/

theorem natOfBytes_eq_ofDigits (bs : Bytes) :
    natOfBytes bs = Nat.ofDigits 256 (bs.map UInt8.toNat).reverse := by
  induction bs with
  | nil => rfl
  | cons b bs ih =>
      rw [natOfBytes_cons, List.map_cons, List.reverse_cons, Nat.ofDigits_append,
        Nat.ofDigits_singleton, List.length_reverse, List.length_map, ← ih, Nat.add_comm,
        Nat.mul_comm]

/-- A byte string without zero bytes in front is the digits of its number. -/
theorem digits_natOfBytes {bs : Bytes} (h : bs.head? ≠ some 0) :
    Nat.digits 256 (natOfBytes bs) = (bs.map UInt8.toNat).reverse := by
  rw [natOfBytes_eq_ofDigits]
  refine Nat.digits_ofDigits 256 (by decide) _ ?_ ?_
  · intro digit hdigit
    obtain ⟨b, -, rfl⟩ := List.mem_map.1 (List.mem_reverse.1 hdigit)
    exact b.toNat_lt
  · cases bs with
    | nil => exact fun hne => absurd rfl hne
    | cons b rest =>
        intro _ hlast
        have hzero : b.toNat = 0 := by simpa using hlast
        exact h (congrArg some (UInt8.toNat_inj.1 hzero))

theorem bitLength_eq_size (n : ℕ) : bitLength n = n.size := by
  unfold bitLength
  split
  · next hzero => rw [hzero, Nat.size_zero]
  · next hpos =>
      apply Nat.le_antisymm
      · exact Nat.lt_size.2 (Nat.log2_self_le hpos)
      · exact Nat.size_le.2 Nat.lt_log2_self

/-- The binary digits of a number are those of its first byte and eight for every other one. -/
theorem size_natOfBytes_cons {b : UInt8} (hb : b ≠ 0) (rest : Bytes) :
    (natOfBytes (b :: rest)).size = 8 * rest.length + b.toNat.size := by
  have hshift : 256 ^ rest.length = 2 ^ (8 * rest.length) := by
    rw [pow_mul]
    rfl
  have hrest := natOfBytes_lt rest
  have hpos : 0 < b.toNat.size :=
    Nat.size_pos.2 (Nat.pos_of_ne_zero fun hzero => hb (UInt8.toNat_inj.1 hzero))
  rw [natOfBytes_cons, hshift]
  rw [hshift] at hrest
  apply Nat.le_antisymm
  · -- the number is below the next multiple of the power
    have hnext := Nat.mul_le_mul_right (2 ^ (8 * rest.length)) (Nat.lt_size_self b.toNat)
    rw [← pow_add, Nat.succ_mul, Nat.add_comm b.toNat.size] at hnext
    exact Nat.size_le.2 (by omega)
  · have hless : b.toNat.size - 1 < b.toNat.size := by omega
    have hfirst := Nat.mul_le_mul_right (2 ^ (8 * rest.length)) (Nat.lt_size.1 hless)
    rw [← pow_add] at hfirst
    have hlt : b.toNat.size - 1 + 8 * rest.length <
        (b.toNat * 2 ^ (8 * rest.length) + natOfBytes rest).size :=
      Nat.lt_size.2 (by omega)
    omega

namespace Mpint

variable {m : Mpint}

/-- The number of binary digits. -/
theorem bits_eq_size (m : Mpint) : m.bits = m.toNat.size := by
  obtain ⟨magnitude, hminimal⟩ := m
  cases magnitude with
  | nil => exact Nat.size_zero.symm
  | cons b rest =>
      have hb : b ≠ 0 := by simpa using hminimal
      exact (congrArg _ (bitLength_eq_size b.toNat)).trans (size_natOfBytes_cons hb rest).symm

/-- What is kept are the digits of a number, the most significant one first. -/
structure Keeps (m : Mpint) (n : ℕ) : Prop where
  value : m.toNat = n
  noZero : m.magnitude.head? ≠ some 0
  digits : m.magnitude.map UInt8.toNat = (Nat.digits 256 n).reverse

theorem keeps_iff {n : ℕ} : m.Keeps n ↔ m.toNat = n := by
  constructor
  · exact Keeps.value
  · rintro rfl
    have hdigits : Nat.digits 256 m.toNat = _ := digits_natOfBytes m.minimal
    exact ⟨rfl, m.minimal, by rw [hdigits, List.reverse_reverse]⟩

theorem keeps_ofMagnitude (bs : Bytes) : (ofMagnitude bs).Keeps (natOfBytes bs) :=
  keeps_iff.2 (toNat_ofMagnitude bs)

/-- A word has no more digits than its four bytes. -/
theorem keeps_ofUInt32 (n : UInt32) : (ofUInt32 n).Keeps n.toNat := by
  rw [keeps_iff, ofUInt32, toNat_ofMagnitude, natOfBytes_bigEndian]
  exact Nat.mod_eq_of_lt n.toNat_lt

theorem keeps_ofSigned {bs : Bytes} (h : ofSigned bs = .ok m) : m.Keeps (natOfBytes bs) := by
  rw [ofSigned_eq] at h
  split at h
  · simp at h
  · obtain rfl := Except.ok.inj h
    exact keeps_ofMagnitude bs

/-- A number has room in a width if it is below that power, and is the same number there. -/
theorem padded_eq_ok_iff {width : ℕ} {bs : Bytes} :
    m.padded width = .ok bs ↔ m.toNat < 256 ^ width ∧ m.leftPadded width = bs := by
  rw [← length_magnitude_le_iff]
  by_cases hroom : m.magnitude.length ≤ width
  · simp [padded_of_le hroom, hroom]
  · simp [padded_of_not_le hroom, hroom]

/-! ### Faithfulness -/

/-- **Numbers are kept faithfully.**  From unsigned bytes, from signed ones, from a word, from a
number and from the wire, what is kept are the digits of the number that came in.  Going to numbers
and back changes nothing, on either side, so values are equal if their numbers are.  A number is
written in a width exactly if it is below that power of 256; then it takes the width, spells the
number and leads back to the value.  The size of an RSA key is the number of binary digits of the
modulus. -/
theorem keeps_numbers :
    (∀ bs, (ofMagnitude bs).Keeps (natOfBytes bs)) ∧
    (∀ bs m, ofSigned bs = .ok m → m.Keeps (natOfBytes bs)) ∧
    (∀ n : UInt32, (ofUInt32 n).Keeps n.toNat) ∧
    (∀ n, (ofNat n).Keeps n) ∧
    (∀ (bs rest : Bytes) m, decoder.run bs = .ok m rest →
      ∃ form, bs = prefixed form ++ rest ∧ m.Keeps (natOfBytes form)) ∧
    (∀ (b b' : Buffer) m, b.WellFormed → decoder.run b = .ok m b' →
      ∃ form, b.unread = prefixed form ++ b'.unread ∧ m.Keeps (natOfBytes form)) ∧
    (∀ m : Mpint, ofNat m.toNat = m) ∧ (∀ n, (ofNat n).toNat = n) ∧
    (∀ m m' : Mpint, (m == m') = true ↔ m.toNat = m'.toNat) ∧
    (∀ (m : Mpint) (width : ℕ), (∃ bs, m.padded width = .ok bs) ↔ m.toNat < 256 ^ width) ∧
    (∀ (m : Mpint) (width : ℕ) (bs : Bytes), m.padded width = .ok bs →
      bs.length = width ∧ natOfBytes bs = m.toNat ∧ ofMagnitude bs = m) ∧
    ∀ key : RsaPublicKey, key.keySize = key.n.toNat.size := by
  have hwire (bs rest : Bytes) (m : Mpint) (hread : decoder.Reads bs m rest) :
      ∃ form, bs = prefixed form ++ rest ∧ m.Keeps (natOfBytes form) := by
    obtain ⟨form, -, rfl, hbs⟩ := reads_decoder.1 hread
    exact ⟨form, hbs, keeps_ofMagnitude form⟩
  refine ⟨keeps_ofMagnitude, fun bs m => keeps_ofSigned, keeps_ofUInt32,
    fun n => keeps_iff.2 (toNat_ofNat n), hwire, ?_, ofNat_toNat, toNat_ofNat, ?_, ?_, ?_,
    fun key => bits_eq_size key.n⟩
  · intro b b' m hb hread
    exact hwire _ _ _ ((Buffer.run_eq_ok_iff hb).1 ⟨b', hread, rfl⟩)
  · intro m m'
    rw [beq_iff_eq, toNat_inj]
  · intro m width
    simp [padded_eq_ok_iff]
  · intro m width bs hpadded
    obtain ⟨hroom, rfl⟩ := padded_eq_ok_iff.1 hpadded
    have hsame := ofMagnitude_leftPadded m width
    refine ⟨length_leftPadded ((length_magnitude_le_iff m width).2 hroom), ?_, hsame⟩
    rw [← toNat_ofMagnitude, hsame]

/-- Zero bytes in front are dropped, one of them comes back with the width, and a modulus of zero has
no size. -/
theorem keeps_numbers_signed :
    (∃ m, ofSigned [0, 0, 0x80] = .ok m ∧ m.Keeps 128 ∧ m.padded 2 = .ok [0, 0x80]) ∧
      RsaPublicKey.keySize ⟨.ofNat 3, .ofNat 0⟩ = 0 := by
  obtain ⟨-, hsigned, -, -, -, -, -, hvalue, -, -, -, hsize⟩ := keeps_numbers
  refine ⟨⟨ofMagnitude [0x80], rfl, hsigned [0, 0, 0x80] _ rfl, rfl⟩, ?_⟩
  rw [hsize, hvalue, Nat.size_zero]

end Mpint

end SshKeys
