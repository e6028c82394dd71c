/-
**Files of authorized keys.**

Each line grants one key: login options if there are any, an entry, and a comment if there is one.
Empty lines and lines that start with `#` grant nothing.  What stands before the first space
outside quotes is a key type if the registry knows it, and options otherwise.  A file with a line
that cannot be read grants nothing at all.

Main definitions:

* `SshKeys.AuthorizedKey` — a key with its options and its comment;
* `SshKeys.AuthorizedKey.ofLine?`, `SshKeys.AuthorizedKey.text` — the line form;
* `SshKeys.AuthorizedKeys.lines` — the lines of a file;
* `SshKeys.AuthorizedKeys.ofBytes` — the keys of a file, or the error of its first bad line;
* `SshKeys.AuthorizedKeys.ofFile`, `SshKeys.AuthorizedKeys.ofDefaultFile` — a file that may be
  missing.
-/

import SshKeys.Login.KeyEntry
import SshKeys.Login.Options

set_option relaxedAutoImplicit false
set_option autoImplicit false

namespace SshKeys

/-! ### Lines -/

/-- A key that may log in, with the options for its use. -/
structure AuthorizedKey where
  entry : KeyEntry
  options : LoginOptions
  comment? : Option String

namespace AuthorizedKey

/-- Two grants are the same if they are for the same key, whatever the options. -/
instance : BEq AuthorizedKey := ⟨fun a b => a.entry == b.entry⟩

/-- The comment in what follows an entry; a blank one is none. -/
def commentOf (trailer? : Option (List Char)) : Option String :=
  (trailer?.map fun trailer => String.ofList (trimChars trailer)).filter (· != "")

/-- The key of a line without options. -/
def ofEntryLine (line : String) : Except Error AuthorizedKey := do
  let (entry, trailer?) ← KeyEntry.split line
  pure ⟨entry, .empty, commentOf trailer?⟩

/-- Whether a text starts a comment. -/
def startsComment (cs : List Char) : Bool := cs.head? == some '#'

/-- The key of a line that starts with options: `first` are the options, `after` is what follows
the space behind them, and `line` is the whole line. -/
def ofOptionLine (registry : Registry) (line : String) (first after : List Char) :
    Except Error AuthorizedKey :=
  let rest := trimChars after
  if rest.isEmpty || startsComment rest then .error (.badFormat .noKeyAfterOptions line)
  else
    match (cutAt? ' ' rest).filter fun (keyType, _) => registry.isSupported (.ofList keyType) with
    | none => .error (.badFormat .unrecognizedKeyType line)
    | some _ => do
      let key ← ofEntryLine (String.ofList rest)
      let options ← LoginOptions.ofText (String.ofList first)
      pure { key with options }

/-- The key that a line grants, if it grants one. -/
def ofLine? (registry : Registry) (line : String) : Except Error (Option AuthorizedKey) :=
  if line = "" || startsComment line.toList then .ok none
  else
    match cutUnquoted? ' ' line.toList with
    | none => .error (.badFormat .noDelimiter line)
    | some ([], _) => .error (.badFormat .noDelimiter line)
    | some (first, after) =>
      if registry.isSupported (String.ofList first) then some <$> ofEntryLine line
      else some <$> ofOptionLine registry line first after

/-- The line of a key. -/
def text (key : AuthorizedKey) : String :=
  let options := if key.options.options.isEmpty then "" else key.options.text ++ " "
  let comment := match key.comment? with
    | some comment => " " ++ comment
    | none => ""
  options ++ key.entry.text ++ comment

/-- The key in the blob of the entry. -/
def resolve (key : AuthorizedKey) (registry : Registry) : Except Error PublicKey :=
  key.entry.resolve registry

end AuthorizedKey

/-! ### Files -/

namespace AuthorizedKeys

/-- A line without the carriage return at its end. -/
def dropReturn (line : Bytes) : Bytes :=
  if line.getLast? = some 0x0D then line.dropLast else line

/-- The lines that end with a line feed, and then the rest if there is any.  `line` is the line so
far, backwards. -/
def linesFrom (line : Bytes) : Bytes → List Bytes
  | [] => if line.isEmpty then [] else [line.reverse]
  | b :: bs =>
    if b = 0x0A then dropReturn line.reverse :: linesFrom [] bs else linesFrom (b :: line) bs

/-- The lines of a file.  A line ends with a line feed, with or without a carriage return before
it; the last line may lack its end. -/
def lines (content : Bytes) : List Bytes := linesFrom [] content

/-- The key that a line grants, if it grants one; blanks at its ends do not matter. -/
def ofRawLine? (registry : Registry) (line : Bytes) : Except Error (Option AuthorizedKey) :=
  match ofUtf8? line with
  | none => .error (.file .invalidData)
  | some text => AuthorizedKey.ofLine? registry (trim text)

/-- The keys that lines grant, in order; the first line that cannot be read decides. -/
def ofLines (registry : Registry) : List Bytes → Except Error (List AuthorizedKey)
  | [] => .ok []
  | line :: rest => do
    let key? ← ofRawLine? registry line
    let keys ← ofLines registry rest
    pure (key?.toList ++ keys)

/-- The keys that a file grants. -/
def ofBytes (registry : Registry) (content : Bytes) : Except Error (List AuthorizedKey) :=
  ofLines registry (lines content)

/-- The keys that a file grants, which has to be there. -/
def ofFile (registry : Registry) : Option Bytes → Except Error (List AuthorizedKey)
  | some content => ofBytes registry content
  | none => .error (.file .notFound)

/-- The place of the file in a home directory. -/
def defaultPath : String := ".ssh/authorized_keys"

/-- The keys that the file in a home directory grants; a file that is not there grants nothing. -/
def ofDefaultFile (registry : Registry) : Option Bytes → Except Error (List AuthorizedKey)
  | some content => ofBytes registry content
  | none => .ok []

/-- The public keys of grants, in order; the first one that cannot be decoded decides. -/
def resolveAll (registry : Registry) (keys : List AuthorizedKey) : Except Error (List PublicKey) :=
  keys.mapM fun key => key.resolve registry

end AuthorizedKeys

end SshKeys
