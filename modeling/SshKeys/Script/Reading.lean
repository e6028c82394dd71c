/-
**Scripts of reads.**

A script is a list of steps, each of which reads something and replies with what it found.  Steps
can be nested: a framed step runs a script on the stretch that a length prefix announces.  A script
stops at its first error.  Every script is a decoder, so it runs on every source.

Main definitions:

* `SshKeys.Reply` — what a step replies with;
* `SshKeys.KeyForm` — the forms in which keys and keypairs are read;
* `SshKeys.ReadStep` — the steps;
* `SshKeys.ReadStep.decoder`, `SshKeys.ReadStep.decodeAll` — steps and scripts as decoders;
* `SshKeys.ReadStep.trace` — the reply to every step of a script, and what is left after it.
-/

import SshKeys.Wire.Field
import SshKeys.Key.Signing

set_option relaxedAutoImplicit false
set_option autoImplicit false

namespace SshKeys

/-! ### Replies -/

/-- What a step replies with. -/
inductive Reply where
  | nothing
  | flag (value : Bool)
  | count (value : Nat)
  | bytes (value : Bytes)
  | text (value : String)
  | field (value : Field)
  | publicKey (value : PublicKey)
  | keypair (value : Keypair)
  /-- The replies of a nested script. -/
  | list (replies : List Reply)

/-! ### Keys -/

/-- The forms in which keys and keypairs are read. -/
inductive KeyForm where
  /-- A public key behind its key type. -/
  | publicKey
  /-- The fields of a public key of a given type. -/
  | publicFields (algorithm : Algorithm)
  /-- A keypair behind its key type. -/
  | keypair
  /-- The fields of a keypair of a given type. -/
  | keypairFields (algorithm : Algorithm)
  /-- All that is left, as the body of a key of a type without a codec. -/
  | foreign (name : AlgorithmName)
  /-- A public key that has to be accepted. -/
  | acceptedKey
  /-- A public key that has to be accepted, behind the length of its blob. -/
  | framedKey
  /-- A keypair that has to be accepted. -/
  | acceptedKeypair

/-- How a key or a keypair is read in a given form. -/
def KeyForm.decoder : KeyForm → Decoder Reply
  | publicKey => .publicKey <$> PublicKey.decoder
  | publicFields algorithm => .publicKey <$> PublicKey.fieldDecoder algorithm
  | keypair => .keypair <$> Keypair.decoder
  | keypairFields algorithm => .keypair <$> Keypair.fieldDecoder algorithm
  | foreign name => (fun key => .publicKey (.other key)) <$> ForeignPublicKey.decoder name
  | acceptedKey => .publicKey <$> PublicKey.acceptedDecoder
  | framedKey => .publicKey <$> PublicKey.framedDecoder
  | acceptedKeypair => .keypair <$> Keypair.acceptedDecoder

/-! ### Steps -/

/-- A step that reads. -/
inductive ReadStep where
  /-- The next bytes. -/
  | take (count : Nat)
  /-- A byte string behind its length, of bounded size. -/
  | stringWithin (capacity : Nat)
  /-- A text behind its length, of bounded size. -/
  | textWithin (capacity : Nat)
  /-- The number of bytes that are left. -/
  | countLeft
  /-- Whether nothing is left. -/
  | isFinished
  /-- Fails unless nothing is left, and replies with `answer` otherwise. -/
  | finish (answer : Reply)
  /-- A field. -/
  | field (kind : FieldKind)
  /-- A key or a keypair. -/
  | key (form : KeyForm)
  /-- An error. -/
  | fail (error : Error)
  /-- A script on exactly the bytes that a length prefix announces. -/
  | framed (steps : List ReadStep)

namespace ReadStep

mutual

/-- A step as a decoder. -/
def decoder : ReadStep → Decoder Reply
  | take count => .bytes <$> Decoder.bytes count
  | stringWithin capacity => .bytes <$> Decoder.stringWithin capacity
  | textWithin capacity => .text <$> Decoder.textWithin capacity
  | countLeft => .count <$> Decoder.countLeft
  | isFinished => (fun count => .flag (count == 0)) <$> Decoder.countLeft
  | finish answer => (fun _ => answer) <$> Decoder.finished
  | field kind => .field <$> kind.decoder
  | key form => form.decoder
  | fail error => .fail error
  | framed steps => .list <$> (decodeAll steps).framed

/-- A script as a decoder. -/
def decodeAll : List ReadStep → Decoder (List Reply)
  | [] => pure []
  | step :: steps => do
    let reply ← step.decoder
    let replies ← decodeAll steps
    pure (reply :: replies)

end

/-- The reply to every step of a script of reads on a byte string, and the bytes that are left
after it. -/
def trace (bs : Bytes) : List ReadStep → List (Except Error Reply × Bytes)
  | [] => []
  | step :: steps =>
    let (reply, bs) := outcome (step.decoder.run bs)
    (reply, bs) :: trace bs steps

end ReadStep

end SshKeys
