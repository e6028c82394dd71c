/-
**Keys in buffers.**

Keys pass between programs inside buffers.  A public key goes in as it is or behind the length of
its blob, a keypair as it is; what comes out has to be accepted for its algorithm.

Main definitions:

* `SshKeys.Buffer.putKey`, `SshKeys.Buffer.getKey` — a public key;
* `SshKeys.Buffer.putFramedKey`, `SshKeys.Buffer.getFramedKey` — a public key behind its length;
* `SshKeys.Buffer.putKeypair`, `SshKeys.Buffer.getKeypair` — a keypair.
-/

import SshKeys.Wire.Buffer
import SshKeys.Key.Signing

set_option relaxedAutoImplicit false
set_option autoImplicit false

namespace SshKeys.Buffer

/-! ### Public keys -/

/-- Writes a public key. -/
def putKey (key : PublicKey) : BufferAction Unit := put key.encoding

/-- Reads a public key, which has to be accepted. -/
def getKey : BufferAction PublicKey := get PublicKey.acceptedDecoder

/-- Writes a public key behind the length of its blob. -/
def putFramedKey (key : PublicKey) : BufferAction Unit := putFramed (putKey key)

/-- Reads a public key behind the length of its blob, which has to be accepted. -/
def getFramedKey : BufferAction PublicKey := get PublicKey.framedDecoder

/-! ### Keypairs -/

/-- Writes a keypair. -/
def putKeypair (pair : Keypair) : BufferAction Unit := put pair.encoding

/-- Reads a keypair, which has to be accepted. -/
def getKeypair : BufferAction Keypair := get Keypair.acceptedDecoder

end SshKeys.Buffer
