/-
**Names on the wire.**

Curves, hash functions and algorithms are written as their names and found again by them.  There is
room for 64 bytes, and every name fits.  The name of a value need not lead back to it: any
well-formed name can be held as an opaque algorithm, also the name of a built-in one.  Such an
algorithm does not own its name, and what is read in its place is the built-in one.

Main definitions:

* `SshKeys.LawfulLabel` — values that are found by their own name alone;
* `SshKeys.Algorithm.OwnsName` — an algorithm that is no opaque one with a built-in name.

Main results:

* `SshKeys.AlgorithmName.length_utf8Bytes_text_le` — names take 64 bytes at most;
* `SshKeys.Algorithm.ofName?_name_iff` — **which algorithms their name leads back to**;
* `SshKeys.Decoder.reads_label` — what is read as a value that is written as its name.
-/

import SshKeys.Proofs.KeyPaths

set_option relaxedAutoImplicit false
set_option autoImplicit false

namespace SshKeys

/-! ### The length of names -/

theorem utf8Size_of_isGraphic {c : Char} (h : isGraphic c = true) : c.utf8Size = 1 := by
  rw [isGraphic, Bool.and_eq_true, decide_eq_true_eq, decide_eq_true_eq] at h
  rw [Char.utf8Size_eq_one_iff, UInt32.le_iff_toNat_le]
  exact Nat.le_trans h.2 (by decide)

/-- A text of printable ASCII characters has as many bytes as characters. -/
theorem length_utf8Bytes_of_isGraphic {text : String} (h : ∀ c ∈ text.toList, isGraphic c = true) :
    (utf8Bytes text).length = text.toList.length := by
  have hone : text.toList.map (fun c => (String.utf8EncodeChar c).length) =
      text.toList.map fun _ => 1 :=
    List.map_congr_left fun c hc => by
      rw [String.length_utf8EncodeChar, utf8Size_of_isGraphic (h c hc)]
  rw [utf8Bytes_eq_flatMap, List.length_flatMap, hone, List.map_const', List.sum_replicate_nat,
    Nat.mul_one]

namespace AlgorithmName

/-- Names take 64 bytes at most. -/
theorem length_utf8Bytes_text_le (name : AlgorithmName) : (utf8Bytes name.text).length ≤ 64 := by
  obtain ⟨text, hname⟩ := name
  simp only [isAlgorithmName, Bool.and_eq_true, decide_eq_true_eq, List.all_eq_true] at hname
  obtain ⟨⟨-, hlength⟩, hgraphic⟩ := hname
  rw [length_utf8Bytes_of_isGraphic fun c hc => (hgraphic c hc).1]
  exact hlength

/-- A name is found by its own text alone. -/
theorem ofText?_eq_some {text : String} {name : AlgorithmName} :
    ofText? text = some name ↔ text = name.text := by
  unfold ofText?
  constructor
  · intro h
    split at h
    · cases h
      rfl
    · simp at h
  · rintro rfl
    exact dif_pos name.wellFormed

end AlgorithmName

/-! ### Names that lead back -/

namespace Algorithm

theorem length_utf8Bytes_name_le (algorithm : Algorithm) :
    (utf8Bytes algorithm.name).length ≤ 64 := by
  cases algorithm with
  | dsa => decide
  | ecdsa curve => cases curve <;> decide
  | rsa => decide
  | other name => exact name.length_utf8Bytes_text_le

theorem mem_builtins {algorithm : Algorithm} (h : algorithm.isBuiltin = true) :
    algorithm ∈ builtins := by
  cases algorithm with
  | dsa => decide
  | ecdsa curve => cases curve <;> decide
  | rsa => decide
  | other name => simp [isBuiltin] at h

/-- Whatever is found by a name has it. -/
theorem name_of_ofName? {text : String} {algorithm : Algorithm}
    (h : ofName? text = some algorithm) : algorithm.name = text := by
  unfold ofName? at h
  split at h
  · next found hfound =>
      cases h
      have hname := List.find?_some hfound
      rwa [beq_iff_eq] at hname
  · obtain ⟨name, hname, rfl⟩ := Option.map_eq_some_iff.1 h
    exact (AlgorithmName.ofText?_eq_some.1 hname).symm

/-- An algorithm that is built in or has a name that no built-in one has. -/
def OwnsName : Algorithm → Prop
  | other name => ∀ builtin ∈ builtins, builtin.name ≠ name.text
  | _ => True

instance : (algorithm : Algorithm) → Decidable algorithm.OwnsName
  | other name => inferInstanceAs (Decidable (∀ builtin ∈ builtins, builtin.name ≠ name.text))
  | dsa | ecdsa _ | rsa => inferInstanceAs (Decidable True)

/-- **Which algorithms their name leads back to.** -/
theorem ofName?_name_iff {algorithm : Algorithm} :
    ofName? algorithm.name = some algorithm ↔ algorithm.OwnsName := by
  cases algorithm with
  | dsa => exact ⟨fun _ => trivial, fun _ => rfl⟩
  | ecdsa curve => exact ⟨fun _ => trivial, fun _ => by cases curve <;> rfl⟩
  | rsa => exact ⟨fun _ => trivial, fun _ => rfl⟩
  | other name =>
      -- the built-in algorithms are looked through first
      have hname : AlgorithmName.ofText? name.text = some name :=
        AlgorithmName.ofText?_eq_some.2 rfl
      change ofName? name.text = some (other name) ↔ ∀ builtin ∈ builtins, builtin.name ≠ name.text
      unfold ofName?
      constructor
      · intro h builtin hbuiltin hsame
        split at h
        · next found hfound =>
            cases h
            have hother := List.mem_of_find?_eq_some hfound
            simp [builtins, Curve.all] at hother
        · next hnone =>
            have hmiss := List.find?_eq_none.1 hnone builtin hbuiltin
            simp [hsame] at hmiss
      · intro h
        have hnone : builtins.find? (fun algorithm => algorithm.name == name.text) = none := by
          rw [List.find?_eq_none]
          intro builtin hbuiltin
          simpa using h builtin hbuiltin
        rw [hnone, hname]
        rfl

end Algorithm

/-- A curve is found by its own name alone. -/
theorem Curve.ofName?_eq_some {text : String} {curve : Curve} :
    ofName? text = some curve ↔ curve.name = text := by
  constructor
  · intro h
    unfold ofName? at h
    have hname := List.find?_some h
    rwa [beq_iff_eq] at hname
  · rintro rfl
    cases curve <;> rfl

/-- A hash function is found by its own name alone. -/
theorem HashAlgorithm.ofName?_eq_some {text : String} {hash : HashAlgorithm} :
    ofName? text = some hash ↔ hash.name = text := by
  constructor
  · intro h
    unfold ofName? at h
    have hname := List.find?_some h
    rwa [beq_iff_eq] at hname
  · rintro rfl
    cases hash <;> rfl

/-- A kind of value that is found by its own name alone, which fits into the room for names. -/
class LawfulLabel (α : Type) [Label α] : Prop where
  name_of_ofName? : ∀ {text : String} {a : α}, Label.ofName? text = some a → Label.name a = text
  length_name_le : ∀ a : α, (utf8Bytes (Label.name a)).length ≤ Decoder.labelCapacity

instance : LawfulLabel Algorithm where
  name_of_ofName? := Algorithm.name_of_ofName?
  length_name_le := Algorithm.length_utf8Bytes_name_le

instance : LawfulLabel AlgorithmName where
  name_of_ofName? h := (AlgorithmName.ofText?_eq_some.1 h).symm
  length_name_le := AlgorithmName.length_utf8Bytes_text_le

instance : LawfulLabel Curve where
  name_of_ofName? := Curve.ofName?_eq_some.1
  length_name_le curve := by cases curve <;> decide

instance : LawfulLabel HashAlgorithm where
  name_of_ofName? := HashAlgorithm.ofName?_eq_some.1
  length_name_le hash := by cases hash <;> decide

theorem fits_of_length_le {bs : Bytes} (h : bs.length ≤ Decoder.labelCapacity) : Fits bs :=
  Nat.le_trans h (by decide)

/-- The name of a value fits behind its length. -/
theorem fits_label {α : Type} [Label α] [LawfulLabel α] (a : α) : Fits (utf8Bytes (Label.name a)) :=
  fits_of_length_le (LawfulLabel.length_name_le a)

/-! ### Reading names -/

namespace Decoder

/-- Reading a byte string behind its length, for which there is limited room. -/
@[simp] theorem reads_stringWithin {capacity : Nat} {bs string rest : Bytes} :
    (stringWithin capacity).Reads bs string rest ↔
      string.length ≤ capacity ∧ Fits string ∧ bs = prefixed string ++ rest := by
  simp only [stringWithin, reads_framed, reads_bind, reads_countLeft]
  constructor
  · rintro ⟨stretch, hmax, rfl, _, _, ⟨rfl, rfl⟩, hbody⟩
    split at hbody
    · next hroom =>
        obtain ⟨hlength, hsplit⟩ := reads_bytes.1 hbody
        rw [List.append_nil] at hsplit
        subst hsplit
        exact ⟨hroom, hmax, rfl⟩
    · simp [failWire] at hbody
  · rintro ⟨hroom, hmax, rfl⟩
    refine ⟨string, hmax, rfl, _, _, ⟨rfl, rfl⟩, ?_⟩
    rw [if_pos hroom]
    exact reads_bytes.2 ⟨rfl, (List.append_nil string).symm⟩

@[simp] theorem reads_ofUtf8 {bs rest rest' : Bytes} {text : String} :
    (ofUtf8 bs).Reads rest text rest' ↔ utf8Bytes text = bs ∧ rest = rest' := by
  rw [← ofUtf8?_eq_some]
  unfold ofUtf8
  split
  · next found hfound => simp [hfound]
  · next hnone => simp [hnone, failWire]

@[simp] theorem reads_parse {α : Type} [Label α] {text : String} {a : α} {bs rest : Bytes} :
    (ofExcept (Label.parse text)).Reads bs a rest ↔ Label.ofName? text = some a ∧ bs = rest := by
  rw [reads_ofExcept, Label.parse]
  cases Label.ofName? (α := α) text <;> simp

/-- Reading a value that is written as its name: one that its name leads back to. -/
theorem reads_label {α : Type} [Label α] [LawfulLabel α] {a : α} {bs rest : Bytes} :
    (label : Decoder α).Reads bs a rest ↔
      Label.ofName? (Label.name a) = some a ∧ bs = prefixed (utf8Bytes (Label.name a)) ++ rest := by
  simp only [label, textWithin, reads_bind, reads_stringWithin, reads_ofUtf8, reads_parse]
  constructor
  · rintro ⟨text, _, ⟨_, _, ⟨-, -, rfl⟩, rfl, rfl⟩, hfound, rfl⟩
    have hname := LawfulLabel.name_of_ofName? hfound
    rw [hname]
    exact ⟨hfound, rfl⟩
  · rintro ⟨hfound, rfl⟩
    exact ⟨_, rest, ⟨_, rest, ⟨LawfulLabel.length_name_le a, fits_label a, rfl⟩, rfl, rfl⟩, hfound,
      rfl⟩

theorem steady_ofUtf8 (bs : Bytes) : (ofUtf8 bs).Steady := by
  unfold ofUtf8
  split
  · exact .done _
  · exact .fail _

theorem steady_label {α : Type} [Label α] : (label : Decoder α).Steady :=
  Steady.bind (Steady.bind (steady_framed _) steady_ofUtf8) fun _ => steady_ofExcept _

end Decoder

end SshKeys
