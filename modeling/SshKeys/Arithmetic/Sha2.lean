/-
**SHA-256 and SHA-512.**

The two functions are one construction at two word sizes.  A message is padded to whole blocks of
sixteen words; each block is expanded into a schedule of words, and a state of eight words absorbs
the schedule round by round.  Everything that depends on the word size is gathered in one record
of parameters.

Main definitions:

* `SshKeys.Sha2.Params` — the constants and amounts that depend on the word size;
* `SshKeys.Sha2.State` — the eight words;
* `SshKeys.Sha2.compress` — one block absorbed;
* `SshKeys.Sha2.digest` — the digest of a message;
* `SshKeys.sha256`, `SshKeys.sha512` — the two functions.
-/

import SshKeys.Wire.Bytes

set_option relaxedAutoImplicit false
set_option autoImplicit false

namespace SshKeys.Sha2

/-! ### Parameters and state -/

/-- Eight words of `w` bits. -/
structure State (w : Nat) where
  a : BitVec w
  b : BitVec w
  c : BitVec w
  d : BitVec w
  e : BitVec w
  f : BitVec w
  g : BitVec w
  h : BitVec w

/-- Three amounts by which a word is turned or shifted before the results are combined. -/
structure Mix where
  first : Nat
  second : Nat
  third : Nat

/-- What distinguishes the functions of the family. -/
structure Params (w : Nat) where
  /-- The state before the first block. -/
  start : State w
  /-- One constant for each round. -/
  constants : List (BitVec w)
  /-- The rotations of the first working word. -/
  upperA : Mix
  /-- The rotations of the fifth working word. -/
  upperE : Mix
  /-- Two rotations and a shift of the schedule word fifteen places back. -/
  lowerFar : Mix
  /-- Two rotations and a shift of the schedule word two places back. -/
  lowerNear : Mix

/-- The number of bytes of a word. -/
def wordBytes (w : Nat) : Nat := w / 8

/-- The number of bytes of a block. -/
def blockBytes (w : Nat) : Nat := 16 * wordBytes w

namespace Mix

/-- Three rotations. -/
def rotate {w : Nat} (m : Mix) (x : BitVec w) : BitVec w :=
  x.rotateRight m.first ^^^ x.rotateRight m.second ^^^ x.rotateRight m.third

/-- Two rotations and a shift. -/
def shift {w : Nat} (m : Mix) (x : BitVec w) : BitVec w :=
  x.rotateRight m.first ^^^ x.rotateRight m.second ^^^ (x >>> m.third)

end Mix

namespace State

/-- Word by word addition. -/
def add {w : Nat} (s t : State w) : State w :=
  ⟨s.a + t.a, s.b + t.b, s.c + t.c, s.d + t.d, s.e + t.e, s.f + t.f, s.g + t.g, s.h + t.h⟩

/-- The words in order. -/
def words {w : Nat} (s : State w) : List (BitVec w) :=
  [s.a, s.b, s.c, s.d, s.e, s.f, s.g, s.h]

/-- The words in order, each of them big-endian. -/
def bytes {w : Nat} (s : State w) : Bytes :=
  s.words.flatMap fun x => bigEndian (wordBytes w) x.toNat

end State

/-! ### One block -/

/-- One round with its constant and its schedule word. -/
def round {w : Nat} (P : Params w) (s : State w) (constant word : BitVec w) : State w :=
  let choice := (s.e &&& s.f) ^^^ (~~~s.e &&& s.g)
  let majority := (s.a &&& s.b) ^^^ (s.a &&& s.c) ^^^ (s.b &&& s.c)
  let t1 := s.h + P.upperE.rotate s.e + choice + constant + word
  let t2 := P.upperA.rotate s.a + majority
  ⟨t1 + t2, s.a, s.b, s.c, s.d + t1, s.e, s.f, s.g⟩

/-- The schedule word after the sixteen words of a window. -/
def nextWord {w : Nat} (P : Params w) (window : List (BitVec w)) : BitVec w :=
  P.lowerNear.shift (window.getD 14 0) + window.getD 9 0 +
    P.lowerFar.shift (window.getD 1 0) + window.getD 0 0

/-- The rounds for the remaining constants, with the next sixteen schedule words at hand. -/
def rounds {w : Nat} (P : Params w) :
    List (BitVec w) → List (BitVec w) → State w → State w
  | [], _, s => s
  | constant :: constants, window, s =>
    rounds P constants (window.drop 1 ++ [nextWord P window])
      (round P s constant (window.getD 0 0))

/-- A byte string cut into `count` pieces of `size` bytes. -/
def pieces (size : Nat) : Nat → Bytes → List Bytes
  | 0, _ => []
  | count + 1, bs => bs.take size :: pieces size count (bs.drop size)

/-- One block absorbed. -/
def compress {w : Nat} (P : Params w) (s : State w) (block : Bytes) : State w :=
  let window := (pieces (wordBytes w) 16 block).map fun word => BitVec.ofNat w (natOfBytes word)
  s.add (rounds P P.constants window s)

/-! ### Messages -/

/-- A message followed by a single set bit, zero bits, and the number of its bits in the last two
words of a block. -/
def pad (w : Nat) (message : Bytes) : Bytes :=
  let used := message.length + 1 + 2 * wordBytes w
  let zeros := (blockBytes w - used % blockBytes w) % blockBytes w
  message ++ [0x80] ++ List.replicate zeros 0 ++ bigEndian (2 * wordBytes w) (8 * message.length)

/-- The digest of a message. -/
def digest {w : Nat} (P : Params w) (message : Bytes) : Bytes :=
  let padded := pad w message
  let blocks := pieces (blockBytes w) (padded.length / blockBytes w) padded
  (blocks.foldl (compress P) P.start).bytes

/-- A state has eight times as many bytes as a word. -/
@[simp] theorem length_bytes {w : Nat} (s : State w) : s.bytes.length = 8 * wordBytes w := by
  simp [State.bytes, State.words]
  omega

/-- A digest has the length of a state. -/
@[simp] theorem length_digest {w : Nat} (P : Params w) (message : Bytes) :
    (digest P message).length = 8 * wordBytes w := by
  simp [digest]

/-! ### The two functions -/

/-- The parameters for words of 32 bits. -/
def params256 : Params 32 where
  start := ⟨0x6a09e667, 0xbb67ae85, 0x3c6ef372, 0xa54ff53a,
    0x510e527f, 0x9b05688c, 0x1f83d9ab, 0x5be0cd19⟩
  constants := [
    0x428a2f98, 0x71374491, 0xb5c0fbcf, 0xe9b5dba5, 0x3956c25b, 0x59f111f1,
    0x923f82a4, 0xab1c5ed5, 0xd807aa98, 0x12835b01, 0x243185be, 0x550c7dc3,
    0x72be5d74, 0x80deb1fe, 0x9bdc06a7, 0xc19bf174, 0xe49b69c1, 0xefbe4786,
    0x0fc19dc6, 0x240ca1cc, 0x2de92c6f, 0x4a7484aa, 0x5cb0a9dc, 0x76f988da,
    0x983e5152, 0xa831c66d, 0xb00327c8, 0xbf597fc7, 0xc6e00bf3, 0xd5a79147,
    0x06ca6351, 0x14292967, 0x27b70a85, 0x2e1b2138, 0x4d2c6dfc, 0x53380d13,
    0x650a7354, 0x766a0abb, 0x81c2c92e, 0x92722c85, 0xa2bfe8a1, 0xa81a664b,
    0xc24b8b70, 0xc76c51a3, 0xd192e819, 0xd6990624, 0xf40e3585, 0x106aa070,
    0x19a4c116, 0x1e376c08, 0x2748774c, 0x34b0bcb5, 0x391c0cb3, 0x4ed8aa4a,
    0x5b9cca4f, 0x682e6ff3, 0x748f82ee, 0x78a5636f, 0x84c87814, 0x8cc70208,
    0x90befffa, 0xa4506ceb, 0xbef9a3f7, 0xc67178f2]
  upperA := ⟨2, 13, 22⟩
  upperE := ⟨6, 11, 25⟩
  lowerFar := ⟨7, 18, 3⟩
  lowerNear := ⟨17, 19, 10⟩

/-- The parameters for words of 64 bits. -/
def params512 : Params 64 where
  start := ⟨0x6a09e667f3bcc908, 0xbb67ae8584caa73b,
    0x3c6ef372fe94f82b, 0xa54ff53a5f1d36f1, 0x510e527fade682d1,
    0x9b05688c2b3e6c1f, 0x1f83d9abfb41bd6b, 0x5be0cd19137e2179⟩
  constants := [
    0x428a2f98d728ae22, 0x7137449123ef65cd, 0xb5c0fbcfec4d3b2f, 0xe9b5dba58189dbbc,
    0x3956c25bf348b538, 0x59f111f1b605d019, 0x923f82a4af194f9b, 0xab1c5ed5da6d8118,
    0xd807aa98a3030242, 0x12835b0145706fbe, 0x243185be4ee4b28c, 0x550c7dc3d5ffb4e2,
    0x72be5d74f27b896f, 0x80deb1fe3b1696b1, 0x9bdc06a725c71235, 0xc19bf174cf692694,
    0xe49b69c19ef14ad2, 0xefbe4786384f25e3, 0x0fc19dc68b8cd5b5, 0x240ca1cc77ac9c65,
    0x2de92c6f592b0275, 0x4a7484aa6ea6e483, 0x5cb0a9dcbd41fbd4, 0x76f988da831153b5,
    0x983e5152ee66dfab, 0xa831c66d2db43210, 0xb00327c898fb213f, 0xbf597fc7beef0ee4,
    0xc6e00bf33da88fc2, 0xd5a79147930aa725, 0x06ca6351e003826f, 0x142929670a0e6e70,
    0x27b70a8546d22ffc, 0x2e1b21385c26c926, 0x4d2c6dfc5ac42aed, 0x53380d139d95b3df,
    0x650a73548baf63de, 0x766a0abb3c77b2a8, 0x81c2c92e47edaee6, 0x92722c851482353b,
    0xa2bfe8a14cf10364, 0xa81a664bbc423001, 0xc24b8b70d0f89791, 0xc76c51a30654be30,
    0xd192e819d6ef5218, 0xd69906245565a910, 0xf40e35855771202a, 0x106aa07032bbd1b8,
    0x19a4c116b8d2d0c8, 0x1e376c085141ab53, 0x2748774cdf8eeb99, 0x34b0bcb5e19b48a8,
    0x391c0cb3c5c95a63, 0x4ed8aa4ae3418acb, 0x5b9cca4f7763e373, 0x682e6ff3d6b2b8a3,
    0x748f82ee5defb2fc, 0x78a5636f43172f60, 0x84c87814a1f0ab72, 0x8cc702081a6439ec,
    0x90befffa23631e28, 0xa4506cebde82bde9, 0xbef9a3f7b2c67915, 0xc67178f2e372532b,
    0xca273eceea26619c, 0xd186b8c721c0c207, 0xeada7dd6cde0eb1e, 0xf57d4f7fee6ed178,
    0x06f067aa72176fba, 0x0a637dc5a2c898a6, 0x113f9804bef90dae, 0x1b710b35131c471b,
    0x28db77f523047d84, 0x32caab7b40c72493, 0x3c9ebe0a15c9bebc, 0x431d67c49c100d4c,
    0x4cc5d4becb3e42b6, 0x597f299cfc657e2a, 0x5fcb6fab3ad6faec, 0x6c44198c4a475817]
  upperA := ⟨28, 34, 39⟩
  upperE := ⟨14, 18, 41⟩
  lowerFar := ⟨1, 8, 7⟩
  lowerNear := ⟨19, 61, 6⟩

end SshKeys.Sha2

namespace SshKeys

/-- The SHA-256 digest of a message. -/
def sha256 (message : Bytes) : Bytes := Sha2.digest Sha2.params256 message

/-- The SHA-512 digest of a message. -/
def sha512 (message : Bytes) : Bytes := Sha2.digest Sha2.params512 message

@[simp] theorem length_sha256 (message : Bytes) : (sha256 message).length = 32 := by
  simp [sha256, Sha2.wordBytes]

@[simp] theorem length_sha512 (message : Bytes) : (sha512 message).length = 64 := by
  simp [sha512, Sha2.wordBytes]

end SshKeys
