/-
**Byte strings and the numbers they spell.**

Everything on the wire is a byte string, and every number in it is big-endian.  Byte strings are
lists, so that the statements about them are statements about lists.

Main definitions:

* `SshKeys.Bytes` — byte strings;
* `SshKeys.natOfBytes` — the number a byte string spells, most significant byte first;
* `SshKeys.bigEndian` — a number spelled with a fixed number of bytes;
* `SshKeys.shortestBytes` — a number spelled without leading zero bytes;
* `SshKeys.hexLower`, `SshKeys.hexUpper` — two hexadecimal digits for each byte.

Main results:

* `SshKeys.natOfBytes_bigEndian` — a number is read back from its spelling, modulo the width;
* `SshKeys.bigEndian_natOfBytes` — a byte string is the only spelling of its number at its width;
* `SshKeys.natOfBytes_shortestBytes` — the shortest spelling is long enough.
-/

set_option relaxedAutoImplicit false
set_option autoImplicit false

namespace SshKeys

/-- A power of numbers is the built-in one, also where a library brings powers of its own. -/
@[default_instance 20000]
instance (priority := 20000) builtinPow : Pow Nat Nat := instPowNat

/-- A byte string. -/
abbrev Bytes := List UInt8

/-! ### Big-endian numbers -/

/-- The number a byte string spells, most significant byte first. -/
def natOfBytes (bs : Bytes) : Nat :=
  bs.foldl (fun acc b => 256 * acc + b.toNat) 0

/-- `n` modulo `256 ^ width`, spelled with exactly `width` bytes. -/
def bigEndian : Nat → Nat → Bytes
  | 0, _ => []
  | width + 1, n => bigEndian width (n / 256) ++ [UInt8.ofNat n]

/-- The number of binary digits of `n`; zero has none. -/
def bitLength (n : Nat) : Nat :=
  if n = 0 then 0 else n.log2 + 1

/-- `n` spelled without leading zero bytes; zero is spelled by no byte at all. -/
def shortestBytes (n : Nat) : Bytes :=
  bigEndian ((bitLength n + 7) / 8) n

@[simp] theorem natOfBytes_nil : natOfBytes [] = 0 := rfl

@[simp] theorem length_bigEndian (width n : Nat) : (bigEndian width n).length = width := by
  induction width generalizing n with
  | zero => rfl
  | succ width ih => simp [bigEndian, ih]

/-! ### Spelling and reading -/

theorem foldl_natOfBytes (acc : Nat) (bs : Bytes) :
    bs.foldl (fun acc b => 256 * acc + b.toNat) acc = acc * 256 ^ bs.length + natOfBytes bs := by
  induction bs generalizing acc with
  | nil => simp
  | cons b bs ih =>
    rw [natOfBytes, List.foldl_cons, List.foldl_cons, ih, ih (256 * 0 + b.toNat)]
    simp only [List.length_cons, Nat.pow_succ, Nat.add_mul]
    rw [Nat.mul_comm 256 acc, Nat.mul_assoc acc, Nat.mul_comm 256]
    omega

theorem natOfBytes_cons (b : UInt8) (bs : Bytes) :
    natOfBytes (b :: bs) = b.toNat * 256 ^ bs.length + natOfBytes bs := by
  rw [natOfBytes, List.foldl_cons, foldl_natOfBytes]
  simp

/-- Bytes that follow shift the number in front of them up. -/
theorem natOfBytes_append (as bs : Bytes) :
    natOfBytes (as ++ bs) = natOfBytes as * 256 ^ bs.length + natOfBytes bs := by
  rw [natOfBytes, List.foldl_append, foldl_natOfBytes]
  rfl

theorem natOfBytes_lt (bs : Bytes) : natOfBytes bs < 256 ^ bs.length := by
  induction bs with
  | nil => simp
  | cons b bs ih =>
    rw [natOfBytes_cons, List.length_cons, Nat.pow_succ]
    have hb : b.toNat < 256 := b.toNat_lt
    have h : b.toNat * 256 ^ bs.length ≤ 255 * 256 ^ bs.length :=
      Nat.mul_le_mul_right _ (by omega)
    omega

/-- A number is read back from its spelling, modulo the width. -/
theorem natOfBytes_bigEndian (width n : Nat) :
    natOfBytes (bigEndian width n) = n % 256 ^ width := by
  induction width generalizing n with
  | zero => simp [bigEndian, Nat.mod_one]
  | succ width ih =>
    rw [bigEndian, natOfBytes_append, ih, natOfBytes_cons, Nat.pow_succ,
      Nat.mul_comm (256 ^ width), Nat.mod_mul]
    simp
    omega

/-- A byte string is the only spelling of its number at its width. -/
theorem bigEndian_natOfBytes (bs : Bytes) : bigEndian bs.length (natOfBytes bs) = bs := by
  induction h : bs.length generalizing bs with
  | zero => simp [bigEndian, List.length_eq_zero_iff.1 h]
  | succ n ih =>
    obtain ⟨init, last, rfl⟩ : ∃ init last, bs = init ++ [last] :=
      ⟨bs.dropLast, bs.getLast (by intro h'; simp [h'] at h),
        (List.dropLast_concat_getLast _).symm⟩
    simp only [List.length_append, List.length_singleton, Nat.add_right_cancel_iff] at h
    have hlast : last.toNat < 256 := last.toNat_lt
    have hdiv : natOfBytes (init ++ [last]) / 256 = natOfBytes init := by
      rw [natOfBytes_append]
      simp [natOfBytes]
      omega
    have hmod : UInt8.ofNat (natOfBytes (init ++ [last])) = last := by
      apply UInt8.toNat_inj.1
      rw [natOfBytes_append]
      simp [natOfBytes]
    rw [bigEndian, hdiv, hmod, ih init h]

theorem lt_two_pow_bitLength (n : Nat) : n < 2 ^ bitLength n := by
  unfold bitLength
  split
  · omega
  · exact Nat.lt_log2_self

/-- The shortest spelling is long enough. -/
theorem natOfBytes_shortestBytes (n : Nat) : natOfBytes (shortestBytes n) = n := by
  rw [shortestBytes, natOfBytes_bigEndian]
  apply Nat.mod_eq_of_lt
  have h : (256 : Nat) ^ ((bitLength n + 7) / 8) = 2 ^ (8 * ((bitLength n + 7) / 8)) := by
    rw [Nat.pow_mul]
  rw [h]
  exact Nat.lt_of_lt_of_le (lt_two_pow_bitLength n)
    (Nat.pow_le_pow_right (by omega) (by omega))

/-! ### Hexadecimal text -/

/-- The two hexadecimal digits of a byte, in lower case. -/
def hexDigits (b : UInt8) : List Char :=
  [Nat.digitChar (b.toNat / 16), Nat.digitChar (b.toNat % 16)]

/-- Two lower-case digits for each byte. -/
def hexLower (bs : Bytes) : String :=
  String.ofList (bs.flatMap hexDigits)

/-- Two upper-case digits for each byte. -/
def hexUpper (bs : Bytes) : String :=
  String.ofList ((bs.flatMap hexDigits).map Char.toUpper)

/-- Two lower-case digits for each byte, with a colon between bytes. -/
def hexColons (bs : Bytes) : String :=
  ":".intercalate (bs.map fun b => String.ofList (hexDigits b))

end SshKeys
