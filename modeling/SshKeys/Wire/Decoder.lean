/-
**Decoders as programs of reads.**

A decoder is a program: it takes bytes, asks how many are left, confines a part of itself to a
stretch of the input, and ends with a value or an error.  It does not say what it reads from.  A
*source* is anything such a program can run on, and it keeps its state when a run fails, because
what was consumed before a failure stays consumed.

The plain source is a byte string: taking bytes drops them from its front, and a failure inside a
confined stretch leaves the whole stretch unread.

Main definitions:

* `SshKeys.Decoder` — programs of reads, a monad;
* `SshKeys.Source` — what a program needs of its input;
* `SshKeys.Decoder.run` — a program run on a source;
* `SshKeys.Decoder.framed` — a program confined to the stretch that a length prefix announces;
* `SshKeys.Decoder.ofBytes` — a program run on a byte string that it has to use up.

Main results:

* `SshKeys.Decoder.run_bind` — running a sequence is running its parts in turn.
-/

import SshKeys.Error

set_option relaxedAutoImplicit false
set_option autoImplicit false

namespace SshKeys

/-! ### Programs -/

/-- A program of reads that ends with a value or an error. -/
inductive Decoder : Type → Type 1 where
  /-- Ends with a value. -/
  | done {α : Type} (a : α) : Decoder α
  /-- Ends with an error. -/
  | fail {α : Type} (error : Error) : Decoder α
  /-- Takes the next `count` bytes. -/
  | take {α : Type} (count : Nat) (next : Bytes → Decoder α) : Decoder α
  /-- Asks for the number of bytes that are left. -/
  | remaining {α : Type} (next : Nat → Decoder α) : Decoder α
  /-- Runs `body` on exactly the next `length` bytes, all of which it has to take. -/
  | confine {α β : Type} (length : Nat) (body : Decoder β) (next : β → Decoder α) : Decoder α

namespace Decoder

/-- One program after another. -/
def bind {α β : Type} (d : Decoder α) (f : α → Decoder β) : Decoder β :=
  match d with
  | done a => f a
  | fail error => fail error
  | take count next => take count fun bs => (next bs).bind f
  | remaining next => remaining fun count => (next count).bind f
  | confine length body next => confine length body fun b => (next b).bind f

instance : Monad Decoder where
  pure := done
  bind := bind

theorem bind_done {α : Type} (d : Decoder α) : d.bind done = d := by
  induction d with
  | done a => rfl
  | fail error => rfl
  | take count next ih => simp [bind, ih]
  | remaining next ih => simp [bind, ih]
  | confine length body next _ ih => simp [bind, ih]

theorem bind_assoc {α β γ : Type} (d : Decoder α) (f : α → Decoder β) (g : β → Decoder γ) :
    (d.bind f).bind g = d.bind fun a => (f a).bind g := by
  induction d with
  | done a => rfl
  | fail error => rfl
  | take count next ih => simp [bind, ih]
  | remaining next ih => simp [bind, ih]
  | confine length body next _ ih => simp [bind, ih]

instance : LawfulMonad Decoder :=
  LawfulMonad.mk' Decoder bind_done (fun _ _ => rfl) bind_assoc

/-- A computation that reads nothing. -/
def ofExcept {α : Type} : Except Error α → Decoder α
  | .ok a => done a
  | .error error => fail error

/-- Ends with an error in the form of the data. -/
def failWire {α : Type} (cause : WireError) : Decoder α :=
  fail (.wire cause)

end Decoder

/-! ### Sources -/

/-- Input that a decoder can read from.  An operation that fails still leaves a state behind. -/
class Source (σ : Type) where
  /-- The number of bytes that are left. -/
  remaining : σ → Nat
  /-- Takes the next bytes, or fails if there are fewer. -/
  take : Nat → EStateM Error σ Bytes
  /-- Confines a computation to the next bytes, all of which it has to take. -/
  confine : {α : Type} → Nat → EStateM Error σ α → EStateM Error σ α

/-- A decoder run on a source. -/
def Decoder.run {σ : Type} [Source σ] {α : Type} : Decoder α → EStateM Error σ α
  | .done a => pure a
  | .fail error => throw error
  | .take count next => do
    let bs ← Source.take count
    (next bs).run
  | .remaining next => do
    let s ← get
    (next (Source.remaining s)).run
  | .confine length body next => do
    let b ← Source.confine length body.run
    (next b).run

namespace Decoder

@[simp] theorem run_pure {σ α : Type} [Source σ] (a : α) :
    ((pure a : Decoder α).run : EStateM Error σ α) = pure a := rfl

@[simp] theorem run_fail {σ α : Type} [Source σ] (error : Error) :
    ((fail error : Decoder α).run : EStateM Error σ α) = throw error := rfl

/-- A program followed by another runs as the one and then the other, on every source. -/
@[simp] theorem run_bind {σ α β : Type} [Source σ] (d : Decoder α) (f : α → Decoder β) :
    ((d >>= f).run : EStateM Error σ β) = d.run >>= fun a => (f a).run := by
  change (d.bind f).run = _
  induction d with
  | done a => simp [bind, run]
  | fail error => rfl
  | take count next ih => simp [bind, run, ih]
  | remaining next ih => simp [bind, run, ih]
  | confine length body next _ ih => simp [bind, run, ih]

end Decoder

/-! ### Byte strings as sources -/

namespace ByteSource

/-- Splits `count` bytes off the front. -/
def take (count : Nat) : EStateM Error Bytes Bytes := fun bs =>
  if count ≤ bs.length then .ok (bs.take count) (bs.drop count)
  else .error (.wire (.underflow count bs.length)) bs

/-- Runs a computation on the first `length` bytes alone.  Unless it succeeds and uses them up, all
of them stay. -/
def confine {α : Type} (length : Nat) (body : EStateM Error Bytes α) : EStateM Error Bytes α :=
  fun bs =>
    if bs.length < length then .error (.wire (.underflow length bs.length)) bs
    else
      match body (bs.take length) with
      | .error error _ => .error error bs
      | .ok a [] => .ok a (bs.drop length)
      | .ok _ rest => .error (.wire (.trailingData rest.length)) bs

end ByteSource

instance : Source Bytes where
  remaining := List.length
  take := ByteSource.take
  confine := ByteSource.confine

/-! ### Simple programs -/

/-- The largest length that is written in front of data: lengths are signed 32-bit numbers. -/
def maxLength : Nat := 2 ^ 31 - 1

namespace Decoder

/-- The next `count` bytes. -/
def bytes (count : Nat) : Decoder Bytes :=
  take count done

/-- The number of bytes that are left. -/
def countLeft : Decoder Nat :=
  remaining done

/-- All bytes that are left. -/
def rest : Decoder Bytes := do
  let count ← countLeft
  bytes count

/-- Fails unless every byte has been taken. -/
def finished : Decoder Unit := do
  let count ← countLeft
  if count = 0 then pure () else failWire (.trailingData count)

/-- The big-endian number in the next `width` bytes. -/
def number (width : Nat) : Decoder Nat := do
  let bs ← bytes width
  pure (natOfBytes bs)

/-- One byte. -/
def byte : Decoder UInt8 := do
  let n ← number 1
  pure (UInt8.ofNat n)

/-- A truth value: any byte other than zero is true. -/
def boolean : Decoder Bool := do
  let b ← byte
  pure (b != 0)

/-- A number of 16 bits. -/
def uint16 : Decoder UInt16 := do
  let n ← number 2
  pure (UInt16.ofNat n)

/-- A number of 32 bits. -/
def uint32 : Decoder UInt32 := do
  let n ← number 4
  pure (UInt32.ofNat n)

/-- A number of 64 bits. -/
def uint64 : Decoder UInt64 := do
  let n ← number 8
  pure (UInt64.ofNat n)

/-- A length prefix.  One with its sign bit set is refused before anything is read. -/
def length : Decoder Nat := do
  let declared ← uint32
  if declared.toNat ≤ maxLength then pure declared.toNat
  else failWire (.malformedLength declared)

/-! ### Framed programs -/

/-- A program that has to use up exactly the bytes its length prefix announces. -/
def framed {α : Type} (body : Decoder α) : Decoder α := do
  let count ← length
  confine count body done

/-- A byte string behind its length. -/
def string : Decoder Bytes :=
  framed rest

/-- A byte string behind its length, of at most `capacity` bytes. -/
def stringWithin (capacity : Nat) : Decoder Bytes :=
  framed do
    let count ← countLeft
    if count ≤ capacity then bytes count else failWire .length

/-- The text in a byte string. -/
def ofUtf8 (bs : Bytes) : Decoder String :=
  match ofUtf8? bs with
  | some text => pure text
  | none => failWire .characterEncoding

/-- A text behind its length. -/
def text : Decoder String := do
  let bs ← string
  ofUtf8 bs

/-- A text behind its length, of at most `capacity` bytes. -/
def textWithin (capacity : Nat) : Decoder String := do
  let bs ← stringWithin capacity
  ofUtf8 bs

/-- The room for the name of a label. -/
def labelCapacity : Nat := 64

/-- A value that is written as its name. -/
def label {α : Type} [Label α] : Decoder α := do
  let name ← textWithin labelCapacity
  ofExcept (Label.parse name)

/-! ### Outcomes -/

end Decoder

/-- The outcome of a computation, and the state it leaves behind. -/
def outcome {σ α : Type} : EStateM.Result Error σ α → Except Error α × σ
  | .ok a s => (.ok a, s)
  | .error error s => (.error error, s)

namespace Decoder

/-- A program that has to use up all that is left. -/
def toEnd {α : Type} (d : Decoder α) : Decoder α := do
  let a ← d
  finished
  pure a

/-- The outcome of a program on a byte string, whatever it leaves unread. -/
def value {α : Type} (d : Decoder α) (bs : Bytes) : Except Error α :=
  (outcome (d.run bs)).1

/-- The outcome of a program on a byte string that it has to use up. -/
def ofBytes {α : Type} (d : Decoder α) (bs : Bytes) : Except Error α :=
  d.toEnd.value bs

end Decoder

end SshKeys
