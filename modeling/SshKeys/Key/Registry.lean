/-
**Which key types can be decoded.**

A decoder handles the blobs of one or more key types.  The built-in decoders are always there and
can be neither replaced nor removed; extensions come and go.  Key types are compared without
regard to the case of ASCII letters.

An extension claims all of its names or none.  So a registry is a list of extensions with the
names each of them holds, and looking a name up means finding the extension that holds it.

Main definitions:

* `SshKeys.KeyDecoder` — a decoder of key blobs;
* `SshKeys.KeyDecoder.rsa`, `SshKeys.KeyDecoder.dsa`, `SshKeys.KeyDecoder.ecdsa` — the built-in
  decoders;
* `SshKeys.Registry` — the extensions that are registered;
* `SshKeys.Registry.register`, `SshKeys.Registry.unregister` — extensions come and go;
* `SshKeys.Registry.resolve?`, `SshKeys.Registry.decode` — the decoder of a key type;
* `SshKeys.Registry.partitionNames` — a list of names, known and unknown ones apart.
-/

import SshKeys.Text.Scan
import SshKeys.Key.Verifying

set_option relaxedAutoImplicit false
set_option autoImplicit false

namespace SshKeys

/-! ### Decoders -/

/-- A decoder for the key blobs of one or more key types. -/
structure KeyDecoder where
  /-- The key types it handles. -/
  keyTypes : List String
  /-- Decodes a complete blob that was declared with a given key type. -/
  decode : String → Bytes → Except Error PublicKey

namespace KeyDecoder

/-- The program of a built-in decoder.  The key type inside the blob has to be the declared one
and one of those handled, both up to the case of letters; the fields have to use up the blob, and
the numbers have to be accepted. -/
def builtinProgram (keyTypes : List String) (declared : String) : Decoder PublicKey := do
  let embedded ← Decoder.text
  if foldCase embedded ≠ foldCase declared then .fail (.keyTypeMismatch declared embedded)
  match (Algorithm.ofName? (foldCase embedded)).filter (keyTypes.contains ·.name) with
  | none => .fail (.algorithmUnsupported embedded)
  | some algorithm =>
    let key ← (PublicKey.fieldDecoder algorithm).toEnd
    let _ ← Decoder.ofExcept key.accept
    pure key

/-- A decoder for algorithms that have a codec. -/
def builtin (algorithms : List Algorithm) : KeyDecoder where
  keyTypes := algorithms.map Algorithm.name
  decode declared blob :=
    (builtinProgram (algorithms.map Algorithm.name) declared).value blob

/-- The decoder for RSA keys. -/
def rsa : KeyDecoder := builtin [.rsa]

/-- The decoder for DSA keys. -/
def dsa : KeyDecoder := builtin [.dsa]

/-- The decoder for ECDSA keys on every curve. -/
def ecdsa : KeyDecoder := builtin (Curve.all.map .ecdsa)

/-- The program of a decoder that keeps a key as it came: the name inside the blob, and all that
follows it. -/
def foreignProgram : Decoder PublicKey := do
  let text ← Decoder.text
  let name : AlgorithmName ← Decoder.ofExcept (Label.parse text)
  let key ← ForeignPublicKey.decoder name
  pure (.other key)

/-- A decoder that keeps keys as they came. -/
def foreign (keyTypes : List String) : KeyDecoder where
  keyTypes := keyTypes
  decode _ blob := foreignProgram.value blob

end KeyDecoder

/-! ### Registries -/

/-- An extension and the names it holds, in lower case. -/
structure Extension where
  names : List String
  decoder : KeyDecoder

/-- The extensions that are registered. -/
structure Registry where
  extensions : List Extension

namespace Registry

/-- The registry without extensions. -/
def empty : Registry := ⟨[]⟩

/-- The built-in decoders. -/
def builtins : List KeyDecoder := [.rsa, .dsa, .ecdsa]

/-- Texts in order, each one once for each time it occurs. -/
def sorted (texts : List String) : List String := texts.mergeSort

/-- The names of the built-in decoders, in order. -/
def builtinNames : List String :=
  sorted (builtins.flatMap fun decoder => decoder.keyTypes.map foldCase)

/-- The names of the extensions, in order. -/
def extensionNames (r : Registry) : List String :=
  sorted (r.extensions.flatMap Extension.names)

/-- The built-in decoder that holds a name in lower case. -/
def builtin? (name : String) : Option KeyDecoder :=
  builtins.find? fun decoder => (decoder.keyTypes.map foldCase).contains name

/-- The extension that holds a name in lower case. -/
def extension? (r : Registry) (name : String) : Option Extension :=
  r.extensions.find? fun extension => extension.names.contains name

/-! ### Extensions come and go -/

/-- The first of `names` that is taken, by a decoder or by an earlier name of the list. -/
def conflict? (r : Registry) (earlier : List String) : List String → Option String
  | [] => none
  | name :: names =>
    if (builtin? name).isSome || (r.extension? name).isSome || earlier.contains name then some name
    else r.conflict? (name :: earlier) names

/-- Registers a decoder under every name it claims, or under none if one of them is taken. -/
def register (r : Registry) (decoder : KeyDecoder) : Except Error Registry :=
  let names := decoder.keyTypes.map foldCase
  match r.conflict? [] names with
  | some name => .error (.duplicateRegistration name)
  | none => .ok ⟨⟨names, decoder⟩ :: r.extensions⟩

/-- Removes the extension that holds a name, with all of its names. -/
def unregister (r : Registry) (name : String) : Option (KeyDecoder × Registry) :=
  match r.extension? (foldCase name) with
  | none => none
  | some extension =>
    some (extension.decoder,
      ⟨r.extensions.filter fun other => !other.names.contains (foldCase name)⟩)

/-! ### Look-up -/

/-- The decoder of a key type; the built-in ones come first. -/
def resolve? (r : Registry) (name : String) : Option KeyDecoder :=
  match builtin? (foldCase name) with
  | some decoder => some decoder
  | none => (r.extension? (foldCase name)).map Extension.decoder

/-- Whether a key type can be decoded. -/
def isSupported (r : Registry) (name : String) : Bool := (r.resolve? name).isSome

/-- The key in a blob that was declared with a given key type. -/
def decode (r : Registry) (keyType : String) (blob : Bytes) : Except Error PublicKey :=
  match r.resolve? keyType with
  | some decoder => decoder.decode keyType blob
  | none => .error (.algorithmUnsupported keyType)

/-! ### Lists of names -/

/-- The names of a comma-separated list without the blanks around them; blank ones are skipped. -/
def listedNames (list : String) : List String :=
  ((splitOn ',' list.toList).map fun item => String.ofList (trimChars item)).filter (· != "")

/-- The names of a list that can be decoded, in lower case, and the others as they are written. -/
def partitionNames (r : Registry) (list : String) : List String × List String :=
  let names := listedNames list
  ((names.filter r.isSupported).map foldCase, names.filter fun name => !r.isSupported name)

/-- The text of a registry for diagnosis. -/
def diagnostic (r : Registry) : String :=
  Diagnostic.record "DecoderRegistry"
    [("builtins", Diagnostic.list (builtinNames.map Diagnostic.quoted)),
      ("extensions", Diagnostic.list (r.extensionNames.map Diagnostic.quoted))]

end Registry

end SshKeys
