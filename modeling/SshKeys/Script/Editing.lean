/-
**Scripts on a buffer.**

A script on a buffer mixes writes, reads and moves of the two positions, in any order and nested
in framed writes and framed reads.  It stops at its first error.  At the top level every step is
run on its own, and its effects stay whether it fails or not.

Main definitions:

* `SshKeys.BufferStep` — the steps;
* `SshKeys.BufferStep.action`, `SshKeys.BufferStep.runAll` — steps and scripts as computations;
* `SshKeys.BufferStep.trace` — the reply to every step of a script, and the buffer after it.
-/

import SshKeys.Key.Exchange
import SshKeys.Script.Reading

set_option relaxedAutoImplicit false
set_option autoImplicit false

namespace SshKeys

/-! ### Steps -/

/-- A step on a buffer. -/
inductive BufferStep where
  /-- Writes bytes as they are. -/
  | append (bs : Bytes)
  /-- Writes a value. -/
  | put (value : Encoding)
  /-- Writes the unread bytes of another buffer. -/
  | appendUnread (other : Buffer)
  /-- Reads. -/
  | read (step : ReadStep)
  /-- Writes a public key behind the length of its blob. -/
  | putKey (key : PublicKey)
  /-- Runs a script whose writes stand behind their length. -/
  | putFramed (steps : List BufferStep)
  /-- Runs a script on exactly the bytes that a length prefix announces. -/
  | getFramed (steps : List BufferStep)
  /-- Fails unless enough bytes are unread. -/
  | ensureAvailable (count : Nat)
  /-- Makes room. -/
  | reserve (count : Nat)
  /-- Moves the read position. -/
  | seekRead (pos : Nat)
  /-- Moves the write position. -/
  | seekWrite (pos : Nat)
  /-- Moves the unread bytes to the start. -/
  | compact
  /-- Moves both positions to the start. -/
  | clear
  /-- Replies with the unread bytes. -/
  | unread
  /-- Replies with the unread bytes in hexadecimal. -/
  | hexText
  /-- Replies with the text for diagnosis, which shows the positions. -/
  | diagnostic
  /-- An error. -/
  | fail (error : Error)

namespace BufferStep

/-- A computation that changes the buffer or fails and leaves it as it is. -/
def modifyOrFail (f : Buffer → Except Error Buffer) : BufferAction Reply := fun b =>
  match f b with
  | .ok changed => .ok .nothing changed
  | .error error => .error error b

/-- A computation that replies with something about the buffer as it is. -/
def view (f : Buffer → Reply) : BufferAction Reply := fun b => .ok (f b) b

mutual

/-- A step as a computation. -/
def action : BufferStep → BufferAction Reply
  | append bs => modifyOrFail fun b => .ok (b.append bs)
  | put value => do
    Buffer.put value
    pure .nothing
  | appendUnread other => modifyOrFail fun b => .ok (b.append other.unread)
  | putKey key => do
    Buffer.putFramedKey key
    pure .nothing
  | read step => Buffer.get step.decoder
  | putFramed steps => .list <$> Buffer.putFramed (runAll steps)
  | getFramed steps => .list <$> Buffer.getFramed (runAll steps)
  | ensureAvailable count => modifyOrFail fun b => do
    b.ensureAvailable count
    pure b
  | reserve count => modifyOrFail fun b => .ok (b.reserve count)
  | seekRead pos => modifyOrFail fun b => b.seekRead pos
  | seekWrite pos => modifyOrFail fun b => b.seekWrite pos
  | compact => modifyOrFail fun b => .ok b.compact
  | clear => modifyOrFail fun b => .ok b.clear
  | unread => view fun b => .bytes b.unread
  | hexText => view fun b => .text b.hexText
  | diagnostic => view fun b => .text b.diagnostic
  | fail error => throw error

/-- A script as a computation. -/
def runAll : List BufferStep → BufferAction (List Reply)
  | [] => pure []
  | step :: steps => do
    let reply ← action step
    let replies ← runAll steps
    pure (reply :: replies)

end

/-- The reply to every step of a script, and the buffer after it. -/
def trace (b : Buffer) : List BufferStep → List (Except Error Reply × Buffer)
  | [] => []
  | step :: steps =>
    let (reply, b) := outcome (step.action b)
    (reply, b) :: trace b steps

end BufferStep

end SshKeys
