/-
**Login options.**

Options stand in front of a key and restrict its use.  An option is a flag or a setting with a
value; a flag counts as having the value `true`.  Names are kept in lower case and in order, and
no name occurs twice.

Main definitions:

* `SshKeys.LoginOption` — a flag or a setting;
* `SshKeys.LoginOptions` — options in the order of their names;
* `SshKeys.LoginOptions.insert`, `SshKeys.LoginOptions.insertFlag` — one more option;
* `SshKeys.LoginOptions.ofText`, `SshKeys.LoginOptions.text` — the text form.
-/

import SshKeys.Error
import SshKeys.Text.Scan

set_option relaxedAutoImplicit false
set_option autoImplicit false

namespace SshKeys

/-! ### Single options -/

/-- An option: a flag, or a setting with a value. -/
inductive LoginOption where
  | flag (name : String)
  | setting (name value : String)
  deriving DecidableEq

namespace LoginOption

/-- The name of an option. -/
def name : LoginOption → String
  | flag name => name
  | setting name _ => name

/-- The value of an option. -/
def value : LoginOption → String
  | flag _ => "true"
  | setting _ value => value

/-- Whether the option is a flag. -/
def isFlag : LoginOption → Bool
  | flag _ => true
  | setting _ _ => false

/-- The text of an option: a flag is bare, a value stands in double quotes. -/
def text : LoginOption → String
  | flag name => name
  | setting name value => name ++ "=\"" ++ value ++ "\""

/-- The option an item spells.  The first `=` ends the name; double quotes around a value are no
part of it. -/
def ofItem (item : List Char) : LoginOption :=
  match cutAt? '=' item with
  | some (name, value) =>
    setting (String.ofList (trimChars name)) (String.ofList (stripQuotes (trimChars value)))
  | none => flag (String.ofList item)

/-- An option with its name in lower case. -/
def folded : LoginOption → LoginOption
  | flag name => flag (foldCase name)
  | setting name value => setting (foldCase name) value

end LoginOption

/-! ### Collections of options -/

/-- Options in the order of their names. -/
structure LoginOptions where
  options : List LoginOption
  deriving DecidableEq

namespace LoginOptions

/-- No options. -/
def empty : LoginOptions := ⟨[]⟩

instance : Inhabited LoginOptions := ⟨empty⟩

/-- The option with exactly this name. -/
def find? (o : LoginOptions) (name : String) : Option LoginOption :=
  o.options.find? fun option => option.name == name

/-- Whether an option has exactly this name. -/
def containsName (o : LoginOptions) (name : String) : Bool := (o.find? name).isSome

/-- The value of an option, whatever the case of its name. -/
def get? (o : LoginOptions) (name : String) : Option String :=
  (o.find? (foldCase name)).map LoginOption.value

/-- Whether an option is there as a flag, whatever the case of its name. -/
def isFlag (o : LoginOptions) (name : String) : Bool :=
  (o.find? (foldCase name)).any LoginOption.isFlag

/-- Puts an option in its place among options in order. -/
def place (option : LoginOption) : List LoginOption → List LoginOption
  | [] => [option]
  | other :: rest =>
    if option.name < other.name then option :: other :: rest else other :: place option rest

/-- One more option, whose name must not be there yet. -/
def add (o : LoginOptions) (option : LoginOption) : Except Error LoginOptions :=
  let option := option.folded
  if o.containsName option.name then .error (.duplicateOption option.name)
  else .ok ⟨place option o.options⟩

/-- One more setting. -/
def insert (o : LoginOptions) (name value : String) : Except Error LoginOptions :=
  o.add (.setting name value)

/-- One more flag. -/
def insertFlag (o : LoginOptions) (name : String) : Except Error LoginOptions :=
  o.add (.flag name)

/-! ### Text -/

/-- The items of a text: what stands between commas outside quotes, without the blanks around it;
blank items are skipped. -/
def items (text : String) : List (List Char) :=
  ((splitUnquoted ',' text.toList).map trimChars).filter (!·.isEmpty)

/-- The options a text spells. -/
def ofText (text : String) : Except Error LoginOptions :=
  ((items text).map LoginOption.ofItem).foldlM add empty

/-- The options in order, with commas between them. -/
def text (o : LoginOptions) : String :=
  String.ofList (joinOn ',' (o.options.map fun option => option.text.toList))

end LoginOptions

end SshKeys
