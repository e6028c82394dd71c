/-
**The text of a value for diagnosis.**

Diagnostic text names the kind of a value and its public fields, as in `Point \x7b x: 1, y: 2 \x7d`;
two dots stand for fields that are withheld.  Strings are quoted so that every character that is
not plainly visible shows as an escape.

Main definitions:

* `SshKeys.Diagnostic.record`, `SshKeys.Diagnostic.openRecord` — a value with named fields, all of
  them or only some;
* `SshKeys.Diagnostic.variant` — a value with one unnamed part;
* `SshKeys.Diagnostic.list`, `SshKeys.Diagnostic.quoted` — lists and strings.
-/

import SshKeys.Text.Visible

set_option relaxedAutoImplicit false
set_option autoImplicit false

namespace SshKeys.Diagnostic

/-! ### Shapes -/

/-- The fields of a record, each as `name: text`. -/
def fieldTexts (fields : List (String × String)) : List String :=
  fields.map fun (name, text) => name ++ ": " ++ text

/-- A record of which every field is shown. -/
def record (name : String) (fields : List (String × String)) : String :=
  name ++ " \x7b " ++ ", ".intercalate (fieldTexts fields) ++ " \x7d"

/-- A record with fields that are withheld. -/
def openRecord (name : String) (fields : List (String × String)) : String :=
  name ++ " \x7b " ++ ", ".intercalate (fieldTexts fields ++ [".."]) ++ " \x7d"

/-- A value with one unnamed part. -/
def variant (name part : String) : String :=
  name ++ "(" ++ part ++ ")"

/-- A list of texts in brackets. -/
def list (items : List String) : String :=
  "[" ++ ", ".intercalate items ++ "]"

/-! ### Quoted strings -/

/-- The number `n` in lower-case hexadecimal digits, in braces after `\u`. -/
def codePointEscape (c : Char) : String :=
  "\\u\x7b" ++ String.ofList (Nat.toDigits 16 c.toNat) ++ "\x7d"

/-- A character as it stands inside a quoted string. -/
def quotedChar (c : Char) : String :=
  if c = '"' then "\\\""
  else if c = '\\' then "\\\\"
  else if c = '\n' then "\\n"
  else if c = '\r' then "\\r"
  else if c = '\t' then "\\t"
  else if c = '\x00' then "\\0"
  else if isInvisible c then codePointEscape c
  else c.toString

/-- A string in double quotes. -/
def quoted (s : String) : String :=
  "\"" ++ String.join (s.toList.map quotedChar) ++ "\""

end SshKeys.Diagnostic
