/-
**Texts among bytes.**

The bytes of a text stand for its characters one after another.  If some bytes at one end of a text
are a text of their own, then so are the bytes at the other end: taking a text off never cuts a
character in two.  So bytes that are no text do not become one when a text is put in front of them
or behind them.

Main results:

* `SshKeys.utf8Bytes_append` — the bytes of two texts in a row;
* `SshKeys.exists_append_of_front`, `SshKeys.exists_append_of_back` — taking a text off;
* `SshKeys.mem_of_mem_utf8Bytes` — a character of one byte is found where its byte is;
* `SshKeys.ofUtf8?_front`, `SshKeys.ofUtf8?_back` — **bytes are read alike with a text in front of
  them or behind them**.
-/

import SshKeys.Proofs.Reads

set_option relaxedAutoImplicit false
set_option autoImplicit false

namespace SshKeys

/-! ### The bytes of a text -/

@[simp] theorem utf8Bytes_append (s t : String) :
    utf8Bytes (s ++ t) = utf8Bytes s ++ utf8Bytes t := by
  simp [utf8Bytes, String.toByteArray_append]

theorem length_utf8Bytes (s : String) : (utf8Bytes s).length = s.utf8ByteSize := by
  simp [utf8Bytes]

/-- A text is told by its bytes. -/
theorem utf8Bytes_inj {s t : String} (h : utf8Bytes s = utf8Bytes t) : s = t := by
  have hread := ofUtf8?_eq_some.2 h
  rw [ofUtf8?_utf8Bytes] at hread
  exact (Option.some.inj hread).symm

theorem ofUtf8?_eq_none_iff {bs : Bytes} : ofUtf8? bs = none ↔ ∀ t, utf8Bytes t ≠ bs := by
  rw [Option.eq_none_iff_forall_ne_some]
  exact forall_congr' fun t => not_congr ofUtf8?_eq_some

/-! ### Taking a text off -/

/-- At a place between two characters a text is two texts in a row. -/
theorem exists_append_of_isValid {t : String} {front back : Bytes}
    (ht : utf8Bytes t = front ++ back) (h : String.Pos.Raw.IsValid t ⟨front.length⟩) :
    ∃ u v, t = u ++ v ∧ utf8Bytes u = front ∧ utf8Bytes v = back := by
  obtain ⟨u, v, rfl, hplace⟩ := String.Pos.Raw.isValid_iff_exists_append.1 h
  have hlength : (utf8Bytes u).length = front.length := by
    rw [length_utf8Bytes]
    exact (congrArg String.Pos.Raw.byteIdx hplace).symm
  rw [utf8Bytes_append] at ht
  obtain ⟨hfront, hback⟩ := List.append_inj ht hlength
  exact ⟨u, v, rfl, hfront, hback⟩

theorem isValidUTF8_of_toList_eq {b : ByteArray} {s : String} (h : b.data.toList = utf8Bytes s) :
    b.IsValidUTF8 := by
  have hsame : b = s.toByteArray := ByteArray.ext (Array.toList_inj.1 h)
  rw [hsame]
  exact s.isValidUTF8

theorem le_rawEndPos_of_append {t : String} {front back : Bytes}
    (h : utf8Bytes t = front ++ back) : (⟨front.length⟩ : String.Pos.Raw) ≤ t.rawEndPos := by
  have hsize : t.utf8ByteSize = front.length + back.length := by
    rw [← length_utf8Bytes, h, List.length_append]
  rw [String.Pos.Raw.le_iff, String.byteIdx_rawEndPos, hsize]
  exact Nat.le_add_right _ _

/-- Behind a text at the front of a text stands a text. -/
theorem exists_append_of_front {t u : String} {back : Bytes}
    (h : utf8Bytes t = utf8Bytes u ++ back) : ∃ v, t = u ++ v ∧ utf8Bytes v = back := by
  have hbytes : t.toByteArray.data.toList = utf8Bytes u ++ back := h
  have hvalid : String.Pos.Raw.IsValid t ⟨(utf8Bytes u).length⟩ := by
    refine String.Pos.Raw.isValid_iff_isValidUTF8_extract_zero.2 ⟨le_rawEndPos_of_append h, ?_⟩
    refine isValidUTF8_of_toList_eq (s := u) ?_
    rw [ByteArray.data_extract, Array.toList_extract, hbytes]
    simp
  obtain ⟨u', v, rfl, hu, hv⟩ := exists_append_of_isValid h hvalid
  rw [utf8Bytes_inj hu]
  exact ⟨v, rfl, hv⟩

/-- In front of a text at the end of a text stands a text. -/
theorem exists_append_of_back {t v : String} {front : Bytes}
    (h : utf8Bytes t = front ++ utf8Bytes v) : ∃ u, t = u ++ v ∧ utf8Bytes u = front := by
  have hbytes : t.toByteArray.data.toList = front ++ utf8Bytes v := h
  have hsize : t.utf8ByteSize = front.length + v.utf8ByteSize := by
    rw [← length_utf8Bytes, h, List.length_append, length_utf8Bytes]
  have hvalid : String.Pos.Raw.IsValid t ⟨front.length⟩ := by
    refine String.Pos.Raw.isValid_iff_isValidUTF8_extract_utf8ByteSize.2
      ⟨le_rawEndPos_of_append h, ?_⟩
    refine isValidUTF8_of_toList_eq (s := v) ?_
    rw [ByteArray.data_extract, Array.toList_extract, hbytes, hsize, ← length_utf8Bytes]
    simp
  obtain ⟨u, v', rfl, hu, hv⟩ := exists_append_of_isValid h hvalid
  rw [utf8Bytes_inj hv]
  exact ⟨u, rfl, hu⟩

theorem getUTF8Byte_of_append {t : String} {front back : Bytes} {b : UInt8}
    (ht : utf8Bytes t = front ++ b :: back) : ∃ h, t.getUTF8Byte ⟨front.length⟩ h = b := by
  have hbytes : t.toByteArray.data.toList = front ++ b :: back := ht
  have hsize : t.utf8ByteSize = front.length + (back.length + 1) := by
    rw [← length_utf8Bytes, ht, List.length_append, List.length_cons]
  have hinside : (⟨front.length⟩ : String.Pos.Raw) < t.rawEndPos := by
    rw [String.Pos.Raw.lt_iff, String.byteIdx_rawEndPos, hsize]
    exact Nat.lt_add_of_pos_right (Nat.succ_pos _)
  refine ⟨hinside, ?_⟩
  rw [String.getUTF8Byte, ByteArray.getElem_eq_getElem_data, ← Array.getElem_toList]
  simp [hbytes]

/-- A byte that is a character by itself is that character wherever it stands in a text. -/
theorem mem_of_mem_utf8Bytes {t : String} {c : Char} {b : UInt8}
    (hb : utf8Bytes (String.singleton c) = [b]) (h : b ∈ utf8Bytes t) : c ∈ t.toList := by
  obtain ⟨front, back, ht⟩ := List.append_of_mem h
  have hfirst : b.IsUTF8FirstByte := by
    have hsplit : utf8Bytes (String.singleton c) = [] ++ b :: [] := hb
    obtain ⟨hinside, hsame⟩ := getUTF8Byte_of_append hsplit
    rw [← hsame]
    exact String.isUTF8FirstByte_getUTF8Byte_zero
  -- a character starts at the byte, so the text can be taken apart there
  have hvalid : String.Pos.Raw.IsValid t ⟨front.length⟩ := by
    obtain ⟨hinside, hsame⟩ := getUTF8Byte_of_append ht
    exact String.Pos.Raw.isValid_iff_isUTF8FirstByte.2 (Or.inr ⟨hinside, hsame ▸ hfirst⟩)
  obtain ⟨u, v, rfl, -, hv⟩ := exists_append_of_isValid ht hvalid
  have hsplit : utf8Bytes v = utf8Bytes (String.singleton c) ++ back := by
    rw [hv, hb]
    rfl
  obtain ⟨w, rfl, -⟩ := exists_append_of_front hsplit
  simp

/-! ### Reading -/

/-- A text in front of bytes does not decide whether they are a text. -/
theorem ofUtf8?_front (u : String) (bs : Bytes) :
    ofUtf8? (utf8Bytes u ++ bs) = (ofUtf8? bs).map (u ++ ·) := by
  cases hread : ofUtf8? bs with
  | some v =>
      obtain rfl := ofUtf8?_eq_some.1 hread
      rw [← utf8Bytes_append, ofUtf8?_utf8Bytes]
      rfl
  | none =>
      rw [Option.map_none, ofUtf8?_eq_none_iff]
      intro t ht
      obtain ⟨v, -, hv⟩ := exists_append_of_front ht
      exact ofUtf8?_eq_none_iff.1 hread v hv

/-- Nor does a text behind them. -/
theorem ofUtf8?_back (bs : Bytes) (v : String) :
    ofUtf8? (bs ++ utf8Bytes v) = (ofUtf8? bs).map (· ++ v) := by
  cases hread : ofUtf8? bs with
  | some u =>
      obtain rfl := ofUtf8?_eq_some.1 hread
      rw [← utf8Bytes_append, ofUtf8?_utf8Bytes]
      rfl
  | none =>
      rw [Option.map_none, ofUtf8?_eq_none_iff]
      intro t ht
      obtain ⟨u, -, hu⟩ := exists_append_of_back ht
      exact ofUtf8?_eq_none_iff.1 hread u hu

end SshKeys
