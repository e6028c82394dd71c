/-
**Public keys as lines of text.**

An entry is a key type, a space, and the key blob in padded Base64.  What follows after a further
space belongs to somebody else and is left alone.

Main definitions:

* `SshKeys.KeyEntry` — a key type and a blob;
* `SshKeys.KeyEntry.text` — the line of an entry;
* `SshKeys.KeyEntry.split` — an entry at the start of a line, and what follows it;
* `SshKeys.KeyEntry.ofLine?`, `SshKeys.KeyEntry.ofLine` — the entry of a line;
* `SshKeys.KeyEntry.build` — an entry from parts that have to be there.
-/

import SshKeys.Text.Base64
import SshKeys.Key.Registry

set_option relaxedAutoImplicit false
set_option autoImplicit false

namespace SshKeys

/-- A key blob with the key type it was declared with. -/
structure KeyEntry where
  keyType : String
  blob : Bytes
  deriving DecidableEq

namespace KeyEntry

/-! ### Writing -/

/-- The line of an entry. -/
def text (entry : KeyEntry) : String :=
  if entry.blob.isEmpty then entry.keyType ++ " <no-key>"
  else entry.keyType ++ " " ++ String.ofList (Base64.encode entry.blob)

/-- The entry of a key. -/
def ofKey (key : PublicKey) : Except Error KeyEntry := do
  let blob ← key.toBytes
  pure ⟨key.algorithm.name, blob⟩

/-- An entry from a key type and a blob, neither of which may be missing or empty. -/
def build (keyType? : Option String) (blob? : Option Bytes) : Except Error KeyEntry :=
  match keyType?.filter (· != "") with
  | none => .error (.badFormat .missingKeyType "")
  | some keyType =>
    match blob?.filter (!·.isEmpty) with
    | none => .error (.badFormat .missingKeyData keyType)
    | some blob => .ok ⟨keyType, blob⟩

/-! ### Reading -/

/-- The payload up to the first space, and what follows that space, if there is one. -/
def cutTrailer (cs : List Char) : List Char × Option (List Char) :=
  match cutAt? ' ' cs with
  | some (payload, trailer) => (payload, some trailer)
  | none => (cs, none)

/-- The entry at the start of a line, and what follows the space behind it. -/
def split (line : String) : Except Error (KeyEntry × Option (List Char)) :=
  match cutAt? ' ' line.toList with
  | none => .error (.badFormat .noDelimiter line)
  | some ([], _) => .error (.badFormat .noDelimiter line)
  | some (keyType, rest) =>
    let (payload, trailer?) := cutTrailer rest
    match Base64.decode? (trimChars payload) with
    | none => .error (.badFormat .invalidBase64 line)
    | some [] => .error (.badFormat .noBase64 line)
    | some blob => .ok (⟨String.ofList keyType, blob⟩, trailer?)

/-- The entry of a line; an empty line has none. -/
def ofLine? (line : String) : Except Error (Option KeyEntry) :=
  if line = "" then .ok none
  else do
    let (entry, _) ← split line
    pure (some entry)

/-- The entry of a line that has to have one. -/
def ofLine (line : String) : Except Error KeyEntry := do
  match ← ofLine? line with
  | some entry => pure entry
  | none => .error (.badFormat .emptyEntry line)

/-! ### Resolution -/

/-- The key in the blob of an entry. -/
def resolve (entry : KeyEntry) (registry : Registry) : Except Error PublicKey :=
  registry.decode entry.keyType entry.blob

end KeyEntry

end SshKeys
