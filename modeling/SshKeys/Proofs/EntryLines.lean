/-
**Entries and their lines.**

An entry is read from the front of a line, and what stands behind a space after it is left alone.
So an entry that has a key type and a blob is read back from its line, with whatever words behind
it; and only such entries are read, from any line, so that each one that is read can be written and
read again.  A line that is read with other blanks or other words in it has the line of its entry as
the plain form.

Main definitions:

* `SshKeys.KeyEntry.ReadFrom` — an entry is read from a line, whichever way the line is read.

Main results:

* `SshKeys.KeyEntry.readFrom_iff_split` — reading a line is reading its front;
* `SshKeys.KeyEntry.line_comes_back` — **an entry is read back from its line, whatever follows it**,
  and every entry that is read from some line is read back from its own.
-/

import SshKeys.Proofs.KeyLines

set_option relaxedAutoImplicit false
set_option autoImplicit false

namespace SshKeys.KeyEntry

variable {entry : KeyEntry} {line : String}

/-- An entry is read from a line, also if the line may be empty. -/
def ReadFrom (entry : KeyEntry) (line : String) : Prop :=
  ofLine? line = .ok (some entry) ∧ ofLine line = .ok entry

/-! ### Reading the front of a line -/

theorem ofLine?_eq_ok_some_iff :
    ofLine? line = .ok (some entry) ↔ ∃ trailer?, split line = .ok (entry, trailer?) := by
  rw [ofLine?]
  split
  · next hempty =>
      -- an empty line has no first word
      rw [hempty]
      simp [KeyEntry.split, cutAt?]
  · rw [bind_eq_ok_iff]
    constructor
    · rintro ⟨⟨found, trailer?⟩, hsplit, hfound⟩
      cases pure_eq_ok_iff.1 hfound
      exact ⟨trailer?, hsplit⟩
    · rintro ⟨trailer?, hsplit⟩
      exact ⟨(entry, trailer?), hsplit, rfl⟩

/-- A line that has to have an entry is read like one that may be empty. -/
theorem ofLine_eq_ok_iff : ofLine line = .ok entry ↔ ofLine? line = .ok (some entry) := by
  rw [ofLine, bind_eq_ok_iff]
  constructor
  · rintro ⟨found?, hline, hfound⟩
    cases found? with
    | none => cases hfound
    | some found =>
        cases pure_eq_ok_iff.1 hfound
        exact hline
  · exact fun hline => ⟨some entry, hline, rfl⟩

/-- Reading a line is reading its front, whatever follows. -/
theorem readFrom_iff_split :
    entry.ReadFrom line ↔ ∃ trailer?, split line = .ok (entry, trailer?) := by
  rw [ReadFrom, ofLine_eq_ok_iff, and_self, ofLine?_eq_ok_some_iff]

/-! ### There and back -/

theorem wellFormed_iff :
    entry.WellFormed ↔ entry.keyType ≠ "" ∧ ' ' ∉ entry.keyType.toList ∧ entry.blob ≠ [] := by
  constructor
  · intro h
    exact ⟨mt String.toList_eq_nil_iff.2 h.keyType_ne, h.keyType_word, h.blob_ne⟩
  · rintro ⟨hne, hword, hblob⟩
    exact ⟨mt String.toList_eq_nil_iff.1 hne, hword, hblob⟩

theorem WellFormed.readFrom (h : entry.WellFormed) {trailer? : Option (List Char)}
    (hline : line.toList = entry.text.toList ++ behind trailer?) : entry.ReadFrom line :=
  readFrom_iff_split.2 ⟨trailer?, split_text h hline⟩

theorem ReadFrom.wellFormed (h : entry.ReadFrom line) : entry.WellFormed := by
  obtain ⟨trailer?, hsplit⟩ := readFrom_iff_split.1 h
  exact (split_eq_ok_iff.1 hsplit).1

/-- **An entry is read back from its line, whatever follows it.**  This holds for every entry with a
blob and a key type that is a word.  Every entry that is read from some line is one of these, and so
it is read back from its own line. -/
theorem line_comes_back (entry : KeyEntry) :
    (entry.keyType ≠ "" → ' ' ∉ entry.keyType.toList → entry.blob ≠ [] →
      entry.ReadFrom entry.text ∧ ∀ words, entry.ReadFrom (entry.text ++ " " ++ words)) ∧
    ∀ line, ofLine? line = .ok (some entry) ∨ ofLine line = .ok entry →
      (entry.keyType ≠ "" ∧ ' ' ∉ entry.keyType.toList ∧ entry.blob ≠ []) ∧
        entry.ReadFrom entry.text := by
  have hnothing : entry.text.toList = entry.text.toList ++ behind none :=
    (List.append_nil _).symm
  have hback : entry.WellFormed → entry.ReadFrom entry.text := fun h => h.readFrom hnothing
  constructor
  · intro hne hword hblob
    have h := wellFormed_iff.2 ⟨hne, hword, hblob⟩
    refine ⟨hback h, fun words => ?_⟩
    have hline : (entry.text ++ " " ++ words).toList =
        entry.text.toList ++ behind (some words.toList) := by simp
    exact h.readFrom hline
  · intro line hline
    have hread : entry.ReadFrom line := by
      rcases hline with hline | hline
      · exact ⟨hline, ofLine_eq_ok_iff.2 hline⟩
      · exact ⟨ofLine_eq_ok_iff.1 hline, hline⟩
    exact ⟨wellFormed_iff.1 hread.wellFormed, hback hread.wellFormed⟩

/-- A key type need not be ASCII, the words behind an entry may hold spaces and symbols of Base64,
and a blank that is no space does not matter behind the symbols. -/
theorem line_comes_back_beyond_ascii :
    KeyEntry.ReadFrom ⟨"clé", [0xFB, 0xFF]⟩ "clé +/8=  AAAA= \"" ∧
      KeyEntry.ReadFrom ⟨"clé", [0xFB, 0xFF]⟩ "clé \t+/8=\n x" ∧
      (KeyEntry.text ⟨"clé", [0xFB, 0xFF]⟩ = "clé +/8=" ∧
        KeyEntry.ReadFrom ⟨"clé", [0xFB, 0xFF]⟩ "clé +/8=") := by
  obtain ⟨hfront, hall⟩ := line_comes_back ⟨"clé", [0xFB, 0xFF]⟩
  have hblanks : ofLine? "clé \t+/8=\n x" = .ok (some ⟨"clé", [0xFB, 0xFF]⟩) := rfl
  have htext : KeyEntry.text ⟨"clé", [0xFB, 0xFF]⟩ = "clé +/8=" := by decide
  have hwords := (hfront (by decide) (by decide) (by decide)).2 " AAAA= \""
  rw [htext] at hwords
  refine ⟨hwords, ⟨hblanks, ofLine_eq_ok_iff.2 hblanks⟩, htext, ?_⟩
  rw [← htext]
  exact (hall _ (Or.inl hblanks)).2

end SshKeys.KeyEntry
