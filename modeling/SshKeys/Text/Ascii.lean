/-
**Text as lists of characters.**

Text is a `String`, seen through `String.toList`.  Three rules about characters are shared by all
that is read from text: which characters are blank, how letter case is folded, and how a text
becomes bytes.

Main definitions:

* `SshKeys.isBlank` — the characters with the Unicode property `White_Space`;
* `SshKeys.trim` — a text without the blanks at its two ends;
* `SshKeys.foldCase` — a text with the ASCII letters in lower case and all else as it was;
* `SshKeys.utf8Bytes`, `SshKeys.ofUtf8?` — a text as UTF-8, and back.
-/

import SshKeys.Wire.Bytes

set_option relaxedAutoImplicit false
set_option autoImplicit false

namespace SshKeys

/-! ### Blanks -/

/-- The characters with the Unicode property `White_Space`. -/
def isBlank (c : Char) : Bool :=
  let n := c.toNat
  (0x09 ≤ n && n ≤ 0x0D) || n == 0x20 || n == 0x85 || n == 0xA0 || n == 0x1680 ||
    (0x2000 ≤ n && n ≤ 0x200A) || n == 0x2028 || n == 0x2029 || n == 0x202F || n == 0x205F ||
    n == 0x3000

/-- The characters without the blanks at the two ends. -/
def trimChars (cs : List Char) : List Char :=
  (((cs.dropWhile isBlank).reverse).dropWhile isBlank).reverse

/-- A text without the blanks at its two ends. -/
def trim (s : String) : String :=
  String.ofList (trimChars s.toList)

@[simp] theorem toList_trim (s : String) : (trim s).toList = trimChars s.toList := by
  simp [trim]

/-! ### Letter case -/

/-- A text with the ASCII letters in lower case and every other character as it was. -/
def foldCase (s : String) : String :=
  String.ofList (s.toList.map Char.toLower)

@[simp] theorem toList_foldCase (s : String) :
    (foldCase s).toList = s.toList.map Char.toLower := by
  simp [foldCase]

/-- The printable ASCII characters other than the space. -/
def isGraphic (c : Char) : Bool :=
  0x21 ≤ c.toNat && c.toNat ≤ 0x7E

/-! ### UTF-8 -/

/-- The UTF-8 form of a text. -/
def utf8Bytes (s : String) : Bytes :=
  s.toUTF8.data.toList

/-- The text a byte string is the UTF-8 form of, if there is one. -/
def ofUtf8? (bs : Bytes) : Option String :=
  String.fromUTF8? ⟨bs.toArray⟩

/-- A text is read back from its UTF-8 form. -/
@[simp] theorem ofUtf8?_utf8Bytes (s : String) : ofUtf8? (utf8Bytes s) = some s := by
  have h : (⟨(utf8Bytes s).toArray⟩ : ByteArray) = s.toUTF8 := rfl
  rw [ofUtf8?, h, String.fromUTF8?]
  exact dif_pos s.isValidUTF8

end SshKeys
