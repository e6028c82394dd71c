/-
**Digests of a message that comes in pieces.**

A digest may be computed while its message is written, piece by piece, without the message ever
being there as a whole.  All this needs is that two pieces in a row count as one piece, and then the
digest does not depend on where the message was cut.  SHA-2 is computed in this way: bytes are held
back until there is a whole block, which the state absorbs, and the padding comes at the end, when
the number of bytes is known.

Main definitions:

* `SshKeys.StreamingDigest` — digests that take their message in pieces;
* `SshKeys.StreamingDigest.digestOf` — the digest of what an emission writes;
* `SshKeys.Sha2.Progress` — SHA-2 between two pieces of a message;
* `SshKeys.HashAlgorithm.streaming` — the two hash functions, computed in pieces.

Main results:

* `SshKeys.StreamingDigest.digestOf_eq` — an emission has the digest of its bytes;
* `SshKeys.Sha2.digest_streaming_eq` — **SHA-2 in pieces is SHA-2**;
* `SshKeys.HashAlgorithm.digest_streaming` — the same for the two hash functions.
-/

import SshKeys.Key.Fingerprint

set_option relaxedAutoImplicit false
set_option autoImplicit false

namespace SshKeys

/-! ### Messages in pieces -/

/-- A digest that takes its message in pieces; two pieces in a row count as one. -/
structure StreamingDigest where
  State : Type
  start : State
  update : State → Bytes → State
  finish : State → Bytes
  update_append : ∀ s front back, update (update s front) back = update s (front ++ back)

namespace StreamingDigest

variable (D : StreamingDigest)

/-- The digest of a message that comes in one piece. -/
def digest (message : Bytes) : Bytes := D.finish (D.update D.start message)

/-- The digest of what an emission writes, if it is complete; each write is a piece. -/
def digestOf (e : Emission) : Except Error Bytes :=
  match e.stop with
  | none => .ok (D.finish (e.writes.foldl D.update D.start))
  | some error => .error error

/-- Pieces in a row count as one, if there are any. -/
theorem foldl_update (s : D.State) (piece : Bytes) (pieces : List Bytes) :
    (piece :: pieces).foldl D.update s = D.update s (piece :: pieces).flatten := by
  induction pieces generalizing piece with
  | nil => simp
  | cons next pieces ih =>
      rw [List.foldl_cons, List.foldl_cons, D.update_append]
      have hjoined := ih (piece ++ next)
      rw [List.foldl_cons] at hjoined
      rw [hjoined, List.flatten_cons, List.flatten_cons, List.flatten_cons, List.append_assoc]

/-- An emission that writes anything, were it nothing but an empty piece, has the digest of its
bytes. -/
theorem digestOf_eq {e : Emission} {bs : Bytes} (h : e.result = .ok bs) (hne : e.writes ≠ []) :
    D.digestOf e = .ok (D.digest bs) := by
  rw [Emission.result] at h
  rw [digestOf]
  cases hstop : e.stop with
  | some error =>
      rw [hstop] at h
      cases h
  | none =>
      rw [hstop] at h
      cases h
      cases hwrites : e.writes with
      | nil => exact absurd hwrites hne
      | cons piece pieces =>
          simp only [foldl_update, digest, Emission.bytes, hwrites]

end StreamingDigest

/-! ### SHA-2 in pieces -/

namespace Sha2

/-- Where SHA-2 is between two pieces of a message. -/
structure Progress (w : Nat) where
  /-- The state after the whole blocks. -/
  state : State w
  /-- The bytes of a block that is not whole yet. -/
  pending : Bytes
  /-- The number of bytes so far. -/
  count : Nat

namespace Progress

variable {w : Nat} (P : Params w)

/-- Before the first byte. -/
def start : Progress w := ⟨P.start, [], 0⟩

/-- One more byte, which may complete a block. -/
def absorb (s : Progress w) (b : UInt8) : Progress w :=
  let pending := s.pending ++ [b]
  if pending.length = blockBytes w then ⟨compress P s.state pending, [], s.count + 1⟩
  else ⟨s.state, pending, s.count + 1⟩

/-- A piece of a message. -/
def update (s : Progress w) (bs : Bytes) : Progress w := bs.foldl (absorb P) s

/-- What is put behind a message of `count` bytes. -/
def padding (w count : Nat) : Bytes :=
  let used := count + 1 + 2 * wordBytes w
  let zeros := (blockBytes w - used % blockBytes w) % blockBytes w
  [0x80] ++ List.replicate zeros 0 ++ bigEndian (2 * wordBytes w) (8 * count)

/-- The digest, once the message has ended. -/
def finish (s : Progress w) : Bytes := (s.update P (padding w s.count)).state.bytes

theorem update_append (s : Progress w) (front back : Bytes) :
    (s.update P front).update P back = s.update P (front ++ back) :=
  List.foldl_append.symm

theorem count_update (s : Progress w) (bs : Bytes) :
    (s.update P bs).count = s.count + bs.length := by
  induction bs generalizing s with
  | nil => rfl
  | cons b bs ih =>
      have hone : (s.absorb P b).count = s.count + 1 := by
        rw [absorb]
        split <;> rfl
      rw [update, List.foldl_cons, ← update, ih, hone, List.length_cons]
      omega

/-- Bytes that complete no block are held back. -/
theorem update_of_lt {s : Progress w} {bs : Bytes}
    (h : s.pending.length + bs.length < blockBytes w) :
    s.update P bs = ⟨s.state, s.pending ++ bs, s.count + bs.length⟩ := by
  induction bs generalizing s with
  | nil => simp [update]
  | cons b bs ih =>
      rw [List.length_cons] at h
      have hnot : ¬(s.pending ++ [b]).length = blockBytes w := by
        rw [List.length_append, List.length_singleton]
        omega
      have hone : s.absorb P b = ⟨s.state, s.pending ++ [b], s.count + 1⟩ := if_neg hnot
      have hrest : (s.pending ++ [b]).length + bs.length < blockBytes w := by
        rw [List.length_append, List.length_singleton]
        omega
      rw [update, List.foldl_cons, ← update, hone, ih hrest, List.append_assoc, List.length_cons,
        Nat.add_assoc, Nat.add_comm 1]
      rfl

/-- A whole block is absorbed. -/
theorem update_block {s : Progress w} {block : Bytes} (hnone : s.pending = [])
    (hlength : block.length = blockBytes w) (hpos : 0 < blockBytes w) :
    s.update P block = ⟨compress P s.state block, [], s.count + blockBytes w⟩ := by
  obtain ⟨init, last, rfl⟩ : ∃ init last, block = init ++ [last] := by
    refine ⟨block.dropLast, block.getLast ?_, (List.dropLast_concat_getLast _).symm⟩
    rintro rfl
    rw [← hlength] at hpos
    exact Nat.lt_irrefl 0 hpos
  rw [List.length_append, List.length_singleton] at hlength
  have hinit : s.update P init = ⟨s.state, init, s.count + init.length⟩ := by
    have hheld := @update_of_lt w P s init (by rw [hnone, List.length_nil]; omega)
    rwa [hnone, List.nil_append] at hheld
  have hwhole : (init ++ [last]).length = blockBytes w := by
    rw [List.length_append, List.length_singleton, hlength]
  rw [← update_append, hinit]
  change absorb P _ last = _
  rw [absorb, if_pos hwhole, ← hlength, Nat.add_assoc]

/-- Whole blocks are absorbed one after the other. -/
theorem update_blocks {s : Progress w} {blocks : Nat} {bs : Bytes} (hnone : s.pending = [])
    (hlength : bs.length = blocks * blockBytes w) (hpos : 0 < blockBytes w) :
    (s.update P bs).state = (pieces (blockBytes w) blocks bs).foldl (compress P) s.state := by
  induction blocks generalizing s bs with
  | zero =>
      rw [Nat.zero_mul] at hlength
      rw [List.eq_nil_of_length_eq_zero hlength]
      rfl
  | succ blocks ih =>
      rw [Nat.succ_mul] at hlength
      have hfirst : (bs.take (blockBytes w)).length = blockBytes w := by
        rw [List.length_take]
        omega
      have hrest : (bs.drop (blockBytes w)).length = blocks * blockBytes w := by
        rw [List.length_drop]
        omega
      rw [pieces, List.foldl_cons, ← List.take_append_drop (blockBytes w) bs, ← update_append,
        update_block P hnone hfirst hpos, ih rfl hrest]
      simp

/-- SHA-2 as a digest that takes its message in pieces. -/
def streaming : StreamingDigest :=
  ⟨Progress w, start P, update P, finish P, update_append P⟩

end Progress

open Progress

variable {w : Nat}

theorem pad_eq (message : Bytes) : pad w message = message ++ padding w message.length := by
  simp [pad, padding]

/-- A padded message consists of whole blocks. -/
theorem blockBytes_dvd_length_pad (message : Bytes) (hpos : 0 < blockBytes w) :
    blockBytes w ∣ (pad w message).length := by
  generalize hused : message.length + 1 + 2 * wordBytes w = used
  have hlength : (pad w message).length =
      used + (blockBytes w - used % blockBytes w) % blockBytes w := by
    simp only [pad, hused, List.length_append, List.length_singleton, List.length_replicate,
      length_bigEndian]
    omega
  rw [hlength]
  have hpart := Nat.mod_lt used hpos
  rcases Nat.eq_zero_or_pos (used % blockBytes w) with hwhole | hmore
  · rw [hwhole, Nat.sub_zero, Nat.mod_self, Nat.add_zero]
    exact Nat.dvd_of_mod_eq_zero hwhole
  · -- the zeros fill up the block that has been begun
    rw [Nat.mod_eq_of_lt (Nat.sub_lt hpos hmore)]
    have hblocks := Nat.div_add_mod used (blockBytes w)
    refine ⟨used / blockBytes w + 1, ?_⟩
    rw [Nat.mul_add, Nat.mul_one]
    omega

/-- **SHA-2 in pieces is SHA-2.** -/
theorem digest_streaming_eq (P : Params w) (message : Bytes) (hpos : 0 < blockBytes w) :
    (streaming P).digest message = digest P message := by
  have hcount : (update P (start P) message).count = message.length := by
    rw [count_update]
    exact Nat.zero_add _
  have hblocks := (Nat.div_mul_cancel (blockBytes_dvd_length_pad message hpos)).symm
  change finish P (update P (start P) message) = _
  rw [finish, hcount, update_append, ← pad_eq]
  exact congrArg State.bytes (update_blocks P rfl hblocks hpos)

end Sha2

namespace HashAlgorithm

/-- The two hash functions, computed in pieces. -/
def streaming : HashAlgorithm → StreamingDigest
  | sha256 => Sha2.Progress.streaming Sha2.params256
  | sha512 => Sha2.Progress.streaming Sha2.params512

/-- **The hash functions in pieces are the hash functions.** -/
theorem digest_streaming (hash : HashAlgorithm) (message : Bytes) :
    hash.streaming.digest message = hash.digest message := by
  cases hash
  · exact Sha2.digest_streaming_eq Sha2.params256 message (by decide)
  · exact Sha2.digest_streaming_eq Sha2.params512 message (by decide)

end HashAlgorithm

end SshKeys
