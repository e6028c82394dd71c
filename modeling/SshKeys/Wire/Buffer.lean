/-
**Buffers with a read and a write position.**

A buffer is a stretch of storage with two positions: bytes are read from the one and written at
the other, and what lies between them is unread.  Storage grows as bytes are written and never
shrinks; moving a position never erases anything, so bytes that were once written can come back
into view.

A buffer is a source for decoders.  Reading within a stretch lowers the write position while the
read goes on; writing behind a length leaves room for the length and fills it in afterwards.

Main definitions:

* `SshKeys.Buffer` — storage and two positions;
* `SshKeys.Buffer.WellFormed` — the positions are in order and inside the storage;
* `SshKeys.Buffer.unread` — the view: the bytes that are still to be read;
* `SshKeys.Buffer.append`, `SshKeys.Buffer.put`, `SshKeys.Buffer.get` — writing and reading;
* `SshKeys.Buffer.confine` — a computation that sees the next bytes alone;
* `SshKeys.Buffer.putFramed` — a computation whose writes stand behind their length.

Main results:

* `SshKeys.Buffer.take_drop_overwrite` — bytes that are put down stand behind those before them;
* `SshKeys.Buffer.unread_compact` — moving the unread bytes keeps them.
-/

import SshKeys.Wire.Encoding

set_option relaxedAutoImplicit false
set_option autoImplicit false

namespace SshKeys

/-- Storage with a read and a write position. -/
structure Buffer where
  /-- All bytes there is room for. -/
  storage : Bytes
  /-- Where the next byte is read. -/
  readPos : Nat
  /-- Where the next byte is written. -/
  writePos : Nat
  deriving DecidableEq

/-- A computation on a buffer, which keeps its effects when it fails. -/
abbrev BufferAction (α : Type) := EStateM Error Buffer α

namespace Buffer

/-! ### Construction and views -/

/-- An empty buffer with room for `capacity` bytes. -/
def withCapacity (capacity : Nat) : Buffer := ⟨List.replicate capacity 0, 0, 0⟩

/-- An empty buffer. -/
def empty : Buffer := withCapacity 0

/-- A buffer that holds bytes to be read. -/
def ofBytes (bs : Bytes) : Buffer := ⟨bs, 0, bs.length⟩

/-- The positions are in order and inside the storage. -/
def WellFormed (b : Buffer) : Prop :=
  b.readPos ≤ b.writePos ∧ b.writePos ≤ b.storage.length

/-- The number of bytes there is room for. -/
def capacity (b : Buffer) : Nat := b.storage.length

/-- The number of unread bytes. -/
def available (b : Buffer) : Nat := b.writePos - b.readPos

/-- The unread bytes. -/
def unread (b : Buffer) : Bytes := (b.storage.drop b.readPos).take b.available

/-- The unread bytes in hexadecimal, with colons between them. -/
def hexText (b : Buffer) : String := hexColons b.unread

/-- The text of a buffer for diagnosis; the content is withheld. -/
def diagnostic (b : Buffer) : String :=
  Diagnostic.openRecord "Buffer" [("rpos", toString b.readPos), ("wpos", toString b.writePos),
    ("capacity", toString b.capacity)]

/-! ### Room and positions -/

/-- The least capacity that storage grows to. -/
def defaultCapacity : Nat := 256

/-- The capacity with room for `count` more bytes at the write position.  Storage that has to grow
at least doubles. -/
def capacityFor (b : Buffer) (count : Nat) : Nat :=
  if b.writePos + count ≤ b.capacity then b.capacity
  else max (max (2 * b.capacity) defaultCapacity) (b.writePos + count)

/-- Makes room for `count` bytes at the write position; new room is filled with zeros. -/
def reserve (b : Buffer) (count : Nat) : Buffer :=
  { b with storage := b.storage ++ List.replicate (b.capacityFor count - b.capacity) 0 }

/-- Fails unless `count` bytes are unread. -/
def ensureAvailable (b : Buffer) (count : Nat) : Except Error Unit :=
  if count ≤ b.available then .ok () else .error (.wire (.underflow count b.available))

/-- Moves the read position, which may not pass the write position. -/
def seekRead (b : Buffer) (pos : Nat) : Except Error Buffer :=
  if b.writePos < pos then .error (.wire .length) else .ok { b with readPos := pos }

/-- Moves the write position, which may not fall behind the read position; storage grows if it has
to. -/
def seekWrite (b : Buffer) (pos : Nat) : Except Error Buffer :=
  if pos < b.readPos then .error (.wire .length)
  else .ok { b.reserve (pos - b.writePos) with writePos := pos }

/-- Bytes put over others from a position on. -/
def overwrite (storage : Bytes) (pos : Nat) (bs : Bytes) : Bytes :=
  storage.take pos ++ bs ++ storage.drop (pos + bs.length)

/-- Moves the unread bytes to the start of the storage. -/
def compact (b : Buffer) : Buffer :=
  ⟨overwrite b.storage 0 b.unread, 0, b.available⟩

/-- Moves both positions to the start. -/
def clear (b : Buffer) : Buffer := { b with readPos := 0, writePos := 0 }

/-! ### Writing -/

/-- Writes bytes at the write position. -/
def append (b : Buffer) (bs : Bytes) : Buffer :=
  let b := b.reserve bs.length
  { b with
    storage := overwrite b.storage b.writePos bs
    writePos := b.writePos + bs.length }

/-- Makes the writes of an emission, up to the error that stops them. -/
def emit (e : Emission) : BufferAction Unit := fun b =>
  let b := e.writes.foldl append b
  match e.stop with
  | none => .ok () b
  | some error => .error error b

/-- Writes a value. -/
def put (e : Encoding) : BufferAction Unit := emit e.emission

/-- The outcome of a computation whose writes stand behind their length, once the computation has
ended: the length goes into the room that was left at `start`.  A write position that has come to
stand before the end of this room leaves no length to fill in; the difference wraps around, and is
too large for one. -/
def fillLength {α : Type} (start : Nat) (a : α) (b : Buffer) : EStateM.Result Error Buffer α :=
  if b.writePos < start + 4 then .error (.wire .overflow) { b with writePos := start }
  else
    match emit (.length (b.writePos - start - 4)) { b with writePos := start } with
    | .ok _ filled => .ok a { filled with writePos := b.writePos }
    | .error error filled => .error error { filled with writePos := start }

/-- A computation whose writes stand behind their length.  If it fails, the write position goes
back to where it was. -/
def putFramed {α : Type} (body : BufferAction α) : BufferAction α := fun b =>
  match body (b.append (bigEndian 4 0)) with
  | .error error ended => .error error { ended with writePos := b.writePos }
  | .ok a ended => fillLength b.writePos a ended

/-! ### Reading -/

/-- Takes the next bytes. -/
def take (count : Nat) : BufferAction Bytes := fun b =>
  match b.ensureAvailable count with
  | .ok () => .ok (b.unread.take count) { b with readPos := b.readPos + count }
  | .error error => .error error b

/-- A computation that sees the next `length` bytes alone and has to take all of them.  The write
position is lowered meanwhile and comes back whatever happens; the read position stays where the
computation left it. -/
def confine {α : Type} (length : Nat) (body : BufferAction α) : BufferAction α := fun b =>
  match b.ensureAvailable length with
  | .error error => .error error b
  | .ok () =>
    match body { b with writePos := b.readPos + length } with
    | .error error ended => .error error { ended with writePos := b.writePos }
    | .ok a ended =>
      if ended.available = 0 then .ok a { ended with writePos := b.writePos }
      else .error (.wire (.trailingData ended.available)) { ended with writePos := b.writePos }

instance : Source Buffer where
  remaining := available
  take := take
  confine := confine

/-- Reads a value. -/
def get {α : Type} (d : Decoder α) : BufferAction α := d.run

/-- A computation that sees the bytes alone that a length prefix announces, and has to take all of
them. -/
def getFramed {α : Type} (body : BufferAction α) : BufferAction α := do
  let length ← get Decoder.length
  confine length body

/-! ### The view -/

@[simp] theorem unread_ofBytes (bs : Bytes) : (ofBytes bs).unread = bs := by
  simp [ofBytes, unread, available]

theorem length_unread {b : Buffer} (h : b.WellFormed) : b.unread.length = b.available := by
  have := h.2
  simp only [unread, available, List.length_take, List.length_drop]
  omega

theorem length_overwrite {storage bs : Bytes} {pos : Nat} (h : pos + bs.length ≤ storage.length) :
    (overwrite storage pos bs).length = storage.length := by
  simp only [overwrite, List.length_append, List.length_take, List.length_drop]
  omega

/-- What stands before the bytes that are put down stays in front of them. -/
theorem take_drop_overwrite {storage bs : Bytes} {start pos : Nat} (h : start ≤ pos)
    (h' : pos ≤ storage.length) :
    ((overwrite storage pos bs).drop start).take (pos - start + bs.length) =
      (storage.drop start).take (pos - start) ++ bs := by
  have hkept : (storage.take pos).length = pos := by
    simp only [List.length_take]
    omega
  rw [overwrite, List.append_assoc, List.drop_append_of_le_length (by omega), ← List.append_assoc,
    List.drop_take, List.take_left']
  simp only [List.length_append, List.length_take, List.length_drop]
  omega

theorem le_capacity_reserve (b : Buffer) (count : Nat) :
    b.writePos + count ≤ (b.reserve count).capacity := by
  have hgrown : b.writePos + count ≤ b.capacityFor count := by
    by_cases hfits : b.writePos + count ≤ b.capacity
    · simp [capacityFor, hfits]
    · simp only [capacityFor, hfits, ↓reduceIte]
      omega
  simp only [reserve, capacity, List.length_append, List.length_replicate] at hgrown ⊢
  omega

theorem WellFormed.reserve {b : Buffer} (h : b.WellFormed) (count : Nat) :
    (b.reserve count).WellFormed :=
  ⟨h.1, Nat.le_trans (Nat.le_add_right _ _) (le_capacity_reserve b count)⟩

theorem WellFormed.compact {b : Buffer} (h : b.WellFormed) : b.compact.WellFormed := by
  have hlength := length_unread h
  have h₂ := h.2
  refine ⟨Nat.zero_le _, ?_⟩
  simp only [Buffer.compact]
  rw [length_overwrite] <;> simp only [hlength, available] <;> omega

/-- Moving the unread bytes keeps them. -/
theorem unread_compact {b : Buffer} (h : b.WellFormed) : b.compact.unread = b.unread := by
  have hmoved := @take_drop_overwrite b.storage b.unread 0 0 (Nat.le_refl 0) (Nat.zero_le _)
  rw [Nat.sub_self, Nat.zero_add, List.take_zero, List.nil_append, length_unread h] at hmoved
  exact hmoved

end Buffer

end SshKeys
