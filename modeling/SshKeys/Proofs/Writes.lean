/-
**What encodings come to.**

An encoding announces a length and makes writes.  Most of the wire is a list of byte strings behind
their lengths, however the encoding of it is nested; `Spells` says which list.  From the list
follows everything else: the announced length, the bytes, and the one way in which writing them can
fail, a string that is too long for its prefix.

Main definitions:

* `SshKeys.Fits` — a byte string whose length can be written in front of it;
* `SshKeys.Encoding.Spells` — an encoding comes to a list of byte strings behind their lengths.

Main results:

* `SshKeys.checkedSum_eq` — a sum of lengths is exact up to 64 bits;
* `SshKeys.prefixedAll_inj` — strings that fit are told apart by what stands on the wire;
* `SshKeys.Encoding.Spells.sequence_cons` — encodings in a row spell their lists in a row;
* `SshKeys.Encoding.Spells.toBytes_eq` — **the bytes of what an encoding spells**, with the length
  announced for them;
* `SshKeys.Encoding.Spells.toBytes_of_not_fits` — a string that does not fit stops the writing.
-/

import Mathlib.Algebra.GroupWithZero.Nat
import SshKeys.Proofs.Reads
import SshKeys.Wire.Encoding

set_option relaxedAutoImplicit false
set_option autoImplicit false

namespace SshKeys

/-! ### Sums of lengths -/

theorem foldlM_addLength (lengths : List Nat) {total : Nat} (h : total < 2 ^ 64) :
    lengths.foldlM addLength total =
      if total + lengths.sum < 2 ^ 64 then .ok (total + lengths.sum)
      else .error (.wire .length) := by
  induction lengths generalizing total with
  | nil =>
      rw [List.foldlM_nil, List.sum_nil, Nat.add_zero, if_pos h]
      rfl
  | cons count lengths ih =>
      rw [List.foldlM_cons, List.sum_cons, ← Nat.add_assoc, addLength]
      by_cases hcount : total + count < 2 ^ 64
      · rw [if_pos hcount]
        exact ih hcount
      · have hsum : ¬total + count + lengths.sum < 2 ^ 64 := by omega
        rw [if_neg hcount, if_neg hsum]
        rfl

/-- A sum of lengths is exact up to 64 bits, and refused above. -/
theorem checkedSum_eq (lengths : List Nat) :
    checkedSum lengths =
      if lengths.sum < 2 ^ 64 then .ok lengths.sum else .error (.wire .length) := by
  have h := foldlM_addLength lengths (show 0 < 2 ^ 64 by decide)
  rwa [Nat.zero_add] at h

theorem checkedSum_of_lt {lengths : List Nat} (h : lengths.sum < 2 ^ 64) :
    checkedSum lengths = .ok lengths.sum := by
  rw [checkedSum_eq, if_pos h]

theorem checkedSum_of_not_lt {lengths : List Nat} (h : ¬lengths.sum < 2 ^ 64) :
    checkedSum lengths = .error (.wire .length) := by
  rw [checkedSum_eq, if_neg h]

/-- Sums of lengths depend on the mathematical sum alone. -/
theorem checkedSum_congr {lengths lengths' : List Nat} (h : lengths.sum = lengths'.sum) :
    checkedSum lengths = checkedSum lengths' := by
  rw [checkedSum_eq, checkedSum_eq, h]

/-- A length is added to a list of lengths by adding it to their sum. -/
theorem checkedSum_cons (count : Nat) (lengths : List Nat) :
    checkedSum (count :: lengths) =
      checkedSum lengths >>= fun total => checkedSum [count, total] := by
  by_cases h : lengths.sum < 2 ^ 64
  · rw [checkedSum_of_lt h]
    exact checkedSum_congr (by simp)
  · have hsum : ¬(count :: lengths).sum < 2 ^ 64 := by
      rw [List.sum_cons]
      omega
    rw [checkedSum_of_not_lt h, checkedSum_of_not_lt hsum]
    rfl

/-- The lengths of two lists are added up as those of one list are. -/
theorem checkedSum_append (front back : List Nat) :
    checkedSum (front ++ back) =
      checkedSum front >>= fun count => checkedSum back >>= fun total =>
        checkedSum [count, total] := by
  by_cases h : front.sum < 2 ^ 64
  · rw [checkedSum_of_lt h]
    refine (checkedSum_congr ?_).trans (checkedSum_cons front.sum back)
    rw [List.sum_append, List.sum_cons]
  · have hsum : ¬(front ++ back).sum < 2 ^ 64 := by
      rw [List.sum_append]
      omega
    rw [checkedSum_of_not_lt h, checkedSum_of_not_lt hsum]
    rfl

/-! ### Strings that fit their prefix -/

/-- A byte string whose length can be written in front of it. -/
def Fits (bs : Bytes) : Prop := bs.length ≤ maxLength

instance (bs : Bytes) : Decidable (Fits bs) :=
  inferInstanceAs (Decidable (bs.length ≤ maxLength))

/-- A byte string fits exactly when it is shorter than `2 ^ 31` bytes. -/
theorem fits_iff {bs : Bytes} : Fits bs ↔ bs.length < 2 ^ 31 := by
  simp only [Fits, maxLength]
  omega

/-- Byte strings behind their lengths, if all of them fit. -/
def writeAll (strings : List Bytes) : Except Error Bytes :=
  if ∀ s ∈ strings, Fits s then .ok (prefixedAll strings) else .error (.wire .overflow)

theorem writeAll_append (front back : List Bytes) :
    writeAll (front ++ back) = writeAll front >>= fun bs => (bs ++ ·) <$> writeAll back := by
  simp only [writeAll, List.mem_append, or_imp, forall_and, prefixedAll_append]
  by_cases hfront : ∀ s ∈ front, Fits s
  · by_cases hback : ∀ s ∈ back, Fits s
    · rw [if_pos ⟨hfront, hback⟩, if_pos hfront, if_pos hback]
      rfl
    · rw [if_neg fun h => hback h.2, if_pos hfront, if_neg hback]
      rfl
  · rw [if_neg fun h => hfront h.1, if_neg hfront]
    rfl

/-- A string that fits is told by what stands on the wire, and so is what follows it. -/
theorem prefixed_inj {s t front back : Bytes} (hs : Fits s) (ht : Fits t)
    (h : prefixed s ++ front = prefixed t ++ back) : s = t ∧ front = back := by
  -- both strings are what reading one string from the same bytes gives
  have hreads : Decoder.string.Reads (prefixed s ++ front) s front :=
    Decoder.reads_string.2 ⟨hs, rfl⟩
  exact hreads.unique (Decoder.reads_string.2 ⟨ht, h⟩)

/-- Strings that fit are told apart by what stands on the wire. -/
theorem prefixedAll_inj {front back : List Bytes} (hfront : ∀ s ∈ front, Fits s)
    (hback : ∀ s ∈ back, Fits s) (h : prefixedAll front = prefixedAll back) : front = back := by
  induction front generalizing back with
  | nil =>
      cases back with
      | nil => rfl
      | cons t back =>
          have hlength := congrArg List.length h
          simp at hlength
          omega
  | cons s front ih =>
      cases back with
      | nil =>
          have hlength := congrArg List.length h
          simp at hlength
      | cons t back =>
          obtain ⟨hs, hfront'⟩ := List.forall_mem_cons.1 hfront
          obtain ⟨ht, hback'⟩ := List.forall_mem_cons.1 hback
          obtain ⟨rfl, hrest⟩ := prefixed_inj hs ht h
          rw [ih hfront' hback' hrest]

/-- A few strings that fit, or almost, are shorter than `2 ^ 64` bytes together. -/
theorem length_prefixedAll_lt {strings : List Bytes} (hshort : ∀ s ∈ strings, s.length ≤ 2 ^ 31)
    (hfew : strings.length < 2 ^ 32) : (prefixedAll strings).length < 2 ^ 64 := by
  have hbound : (prefixedAll strings).length ≤ strings.length * (4 + 2 ^ 31) := by
    clear hfew
    induction strings with
    | nil => simp
    | cons s strings ih =>
        have hs : s.length ≤ 2 ^ 31 := hshort s (by simp)
        have hrest := ih fun s' hs' => hshort s' (by simp [hs'])
        rw [prefixedAll_cons, List.length_append, length_prefixed, List.length_cons, Nat.succ_mul]
        omega
  have hmax : strings.length * (4 + 2 ^ 31) ≤ 2 ^ 32 * (4 + 2 ^ 31) :=
    Nat.mul_le_mul_right _ (Nat.le_of_lt hfew)
  have hlimit : 2 ^ 32 * (4 + 2 ^ 31) < 2 ^ 64 := by decide
  omega

theorem length_prefixedAll (strings : List Bytes) :
    (prefixedAll strings).length = (strings.map fun s => 4 + s.length).sum := by
  induction strings with
  | nil => rfl
  | cons s strings ih => simp [ih]

/-! ### Encodings that spell strings -/

namespace Encoding

/-- An encoding comes to a list of byte strings behind their lengths: it announces the length of
all of them and writes them in order. -/
structure Spells (e : Encoding) (strings : List Bytes) : Prop where
  announced : e.announced = checkedSum (strings.map fun s => 4 + s.length)
  result : e.emission.result = writeAll strings

theorem spells_string (bs : Bytes) : (string bs).Spells [bs] where
  announced := checkedSum_congr (by simp)
  result := by
    by_cases h : Fits bs
    · have hlength : bs.length ≤ maxLength := h
      simp [string, Emission.string, Emission.length, writeAll, h, hlength, prefixed,
        bind, Except.bind, Functor.map, Except.map]
    · have hlength : ¬bs.length ≤ maxLength := h
      simp [string, Emission.string, Emission.length, writeAll, h, hlength, bind, Except.bind]

theorem spells_label {α : Type} [Label α] (a : α) :
    (label a).Spells [utf8Bytes (Label.name a)] :=
  spells_string _

theorem result_string {bs : Bytes} (h : Fits bs) :
    (string bs).emission.result = .ok (prefixed bs) := by
  rw [(spells_string bs).result, writeAll, if_pos (by simpa using h)]
  simp

theorem result_label {α : Type} [Label α] {a : α} (h : Fits (utf8Bytes (Label.name a))) :
    (label a).emission.result = .ok (prefixed (utf8Bytes (Label.name a))) :=
  result_string h

theorem spells_sequence_nil : (sequence []).Spells [] where
  announced := rfl
  result := rfl

theorem result_sequence_cons (e : Encoding) (parts : List Encoding) :
    (sequence (e :: parts)).emission.result =
      e.emission.result >>= fun front => (front ++ ·) <$> (sequence parts).emission.result :=
  Emission.result_append _ _

/-- The lengths of encodings in a row are added up from the last one on. -/
theorem announced_sequence_cons (e : Encoding) (parts : List Encoding) :
    (sequence (e :: parts)).announced =
      e.announced >>= fun count => (sequence parts).announced >>= fun total =>
        checkedSum [count, total] := by
  simp only [sequence, List.mapM_cons]
  cases e.announced with
  | error error => rfl
  | ok count =>
      cases parts.mapM Encoding.announced with
      | error error => rfl
      | ok lengths => exact checkedSum_cons count lengths

/-- An error in the second of two encodings stops both. -/
theorem result_sequence_of_error {e e' : Encoding} {front : Bytes} {error : Error}
    (he : e.emission.result = .ok front) (he' : e'.emission.result = .error error) :
    (sequence [e, e']).emission.result = .error error := by
  rw [result_sequence_cons, he, result_sequence_cons, he']
  rfl

/-- Encodings in a row spell their strings in a row. -/
theorem Spells.sequence_cons {e : Encoding} {parts : List Encoding} {front back : List Bytes}
    (he : e.Spells front) (hparts : (sequence parts).Spells back) :
    (sequence (e :: parts)).Spells (front ++ back) where
  announced := by
    rw [List.map_append, checkedSum_append, ← he.announced, ← hparts.announced,
      announced_sequence_cons]
  result := by
    rw [writeAll_append, ← he.result, ← hparts.result, result_sequence_cons]

theorem Spells.sequence_singleton {e : Encoding} {strings : List Bytes} (he : e.Spells strings) :
    (sequence [e]).Spells strings := by
  simpa using he.sequence_cons spells_sequence_nil

variable {e : Encoding} {strings : List Bytes}

/-- **The bytes of what an encoding spells**, if every string fits: they are written, and their
number is announced. -/
theorem Spells.toBytes_eq (he : e.Spells strings) (hfit : ∀ s ∈ strings, Fits s)
    (hfew : strings.length < 2 ^ 32) :
    e.toBytes = .ok (prefixedAll strings) ∧ e.announced = .ok (prefixedAll strings).length ∧
      e.emission.result = .ok (prefixedAll strings) := by
  have hlength := length_prefixedAll_lt (fun s hs => Nat.le_of_lt (fits_iff.1 (hfit s hs))) hfew
  have hannounced : e.announced = .ok (prefixedAll strings).length := by
    rw [he.announced, checkedSum_eq, ← length_prefixedAll, if_pos hlength]
  have hresult : e.emission.result = .ok (prefixedAll strings) := by
    rw [he.result, writeAll, if_pos hfit]
  refine ⟨?_, hannounced, hresult⟩
  rw [toBytes, hannounced, hresult]
  rfl

/-- A string that does not fit stops the writing, unless the sum of lengths is refused before. -/
theorem Spells.toBytes_of_not_fits (he : e.Spells strings) {long : Bytes} (hlong : long ∈ strings)
    (hfit : ¬Fits long) (hlength : (prefixedAll strings).length < 2 ^ 64) :
    e.toBytes = .error (.wire .overflow) := by
  have hannounced : e.announced = .ok (prefixedAll strings).length := by
    rw [he.announced, checkedSum_eq, ← length_prefixedAll, if_pos hlength]
  have hresult : e.emission.result = .error (.wire .overflow) := by
    rw [he.result, writeAll, if_neg fun hall => hfit (hall long hlong)]
  rw [toBytes, hannounced, hresult]
  rfl

end Encoding

end SshKeys
