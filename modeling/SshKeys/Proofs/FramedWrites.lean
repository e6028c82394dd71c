/-
**A framed write frames exactly, or is undone.**

A computation whose writes stand behind their length leaves room for the length first, and fills it
in over what stands there once the number of bytes is known.  If the computation fails, or writes
too many bytes for a length, the write position goes back.  Either way the buffer has been extended:
by a length and exactly the bytes the computation adds on its own, or by nothing.  So framed writes
nest, and go on after one that has failed, and all of it comes to a list of bytes that does not
depend on the buffer.

Main definitions:

* `SshKeys.Appending` — computations that write, and may go on after a write has failed;
* `SshKeys.Appending.verdict`, `SshKeys.Appending.bytes` — what becomes of one, on every buffer;
* `SshKeys.Buffer.Undone` — a buffer that is as before up to its write position.

Main results:

* `SshKeys.Buffer.Adds.putFramed` — a framed computation adds a length and its bytes, or nothing;
* `SshKeys.Appending.adds` — every computation of writes adds its bytes;
* `SshKeys.Appending.putFramed_exact_or_undone` — **a framed write frames exactly, or is undone**,
  and agrees with the encoding that announces its length.
-/

import SshKeys.Key.Exchange
import SshKeys.Proofs.AnnouncedLengths
import SshKeys.Proofs.BufferWrites

set_option relaxedAutoImplicit false
set_option autoImplicit false

namespace SshKeys

namespace Buffer

/-! ### Filling in a length -/

variable {α : Type} {b b' : Buffer} {bs : Bytes}

/-- Bytes put over others that have been added, and that are as many. -/
theorem Extends.overwrite {old : Bytes} (h : b.Extends b' (old ++ bs)) (hb : b.WellFormed)
    {new : Bytes} (hlength : old.length = new.length) :
    b.Extends { b' with storage := Buffer.overwrite b'.storage b.writePos new } (new ++ bs) := by
  have hend : b.writePos + new.length ≤ b'.writePos := by
    rw [h.writePos_eq, List.length_append, hlength]
    omega
  have hcapacity : (Buffer.overwrite b'.storage b.writePos new).length = b'.storage.length :=
    length_overwrite (Nat.le_trans hend h.writePos_le)
  have hfront : (b.storage.take b.writePos).length = b.writePos := List.length_take_of_le hb.2
  refine ⟨h.readPos_eq, ?_, ?_, ?_, ?_⟩
  · change b'.writePos = _
    rw [h.writePos_eq, List.length_append, List.length_append, hlength]
  · change (Buffer.overwrite b'.storage b.writePos new).take b'.writePos = _
    rw [take_overwrite hend h.writePos_le, h.written, ← List.append_assoc, ← List.append_assoc]
    have hput := @overwrite_append new (b.storage.take b.writePos) old bs hlength
    rwa [hfront] at hput
  · exact Nat.le_trans h.capacity_le (Nat.le_of_eq hcapacity.symm)
  · exact Nat.le_trans h.writePos_le (Nat.le_of_eq hcapacity.symm)

/-- A write position that goes back takes back what has been added. -/
theorem Extends.undo (h : b.Extends b' bs) (hb : b.WellFormed) :
    b.Extends { b' with writePos := b.writePos } [] := by
  have hfront : (b.storage.take b.writePos).length = b.writePos := List.length_take_of_le hb.2
  have hend : b.writePos ≤ b'.writePos := by
    rw [h.writePos_eq]
    exact Nat.le_add_right _ _
  refine ⟨h.readPos_eq, rfl, ?_, h.capacity_le, Nat.le_trans hend h.writePos_le⟩
  have hwritten := congrArg (List.take b.writePos) h.written
  rw [List.take_take, Nat.min_eq_left hend, List.take_left' hfront] at hwritten
  rw [List.append_nil]
  exact hwritten

/-- Nothing has to be done for room that is there. -/
theorem reserve_of_le {count : Nat} (h : b.writePos + count ≤ b.capacity) :
    b.reserve count = b := by
  simp [reserve, capacityFor, h]

/-- A length that fits is put into the room that was left for it. -/
theorem fillLength_of_le {start : Nat} (a : α) (hroom : start + 4 ≤ b.writePos)
    (hend : b.writePos ≤ b.capacity) (hcount : b.writePos - start - 4 ≤ maxLength) :
    fillLength start a b =
      .ok a { b with
        storage := overwrite b.storage start (bigEndian 4 (b.writePos - start - 4)) } := by
  have hreserve : ({ b with writePos := start } : Buffer).reserve 4 =
      { b with writePos := start } := reserve_of_le (Nat.le_trans hroom hend)
  simp [fillLength, Nat.not_lt.2 hroom, Emission.length, hcount, emit, Emission.write, append,
    hreserve]

/-- A length that does not fit undoes the writes behind it. -/
theorem fillLength_of_not_le {start : Nat} (a : α)
    (hcount : ¬b.writePos - start - 4 ≤ maxLength) :
    fillLength start a b = .error (.wire .overflow) { b with writePos := start } := by
  have hroom : ¬b.writePos < start + 4 := by omega
  simp [fillLength, hroom, Emission.length, hcount, emit, Emission.fail]

/-! ### Framed computations -/

/-- What becomes of a computation that adds `bs` and ends in `result`, if its writes stand behind
their length. -/
def framedVerdict (result : Except Error α) (bs : Bytes) : Except Error α :=
  match result with
  | .ok a => if Fits bs then .ok a else .error (.wire .overflow)
  | .error error => .error error

/-- What a computation that adds `bs` and ends in `result` adds, if its writes stand behind their
length. -/
def framedBytes (result : Except Error α) (bs : Bytes) : Bytes :=
  match result with
  | .ok _ => if Fits bs then prefixed bs else []
  | .error _ => []

/-- If a computation ends in `result` and has added `bs` behind the room for a length, then the
framed computation has added the length and the bytes, or nothing. -/
theorem putFramed_extends {body : BufferAction α} {result : Except Error α} {ended : Buffer}
    (h : b.WellFormed) (hended : outcome (body (b.append (bigEndian 4 0))) = (result, ended))
    (hextends : (b.append (bigEndian 4 0)).Extends ended bs) :
    ∃ b', outcome (Buffer.putFramed body b) = (framedVerdict result bs, b') ∧
      b.Extends b' (framedBytes result bs) := by
  have hall := (extends_append h (bigEndian 4 0)).trans hextends
  have hcount : ended.writePos - b.writePos - 4 = bs.length := by
    rw [hall.writePos_eq, List.length_append, length_bigEndian]
    omega
  rw [Buffer.putFramed]
  cases result with
  | error error =>
      rw [outcome_eq_error.1 hended]
      exact ⟨_, rfl, hall.undo h⟩
  | ok a =>
      rw [outcome_eq_ok.1 hended]
      by_cases hfits : Fits bs
      · have hmax : ended.writePos - b.writePos - 4 ≤ maxLength := hcount ▸ hfits
        have hroom : b.writePos + 4 ≤ ended.writePos := by
          rw [hall.writePos_eq, List.length_append, length_bigEndian]
          omega
        have hfill := fillLength_of_le a hroom hall.writePos_le hmax
        rw [hcount] at hfill
        rw [framedVerdict, framedBytes, if_pos hfits, if_pos hfits]
        exact ⟨_, congrArg outcome hfill, hall.overwrite h (by simp)⟩
      · have hlong : ¬ended.writePos - b.writePos - 4 ≤ maxLength := hcount ▸ hfits
        have hfill := fillLength_of_not_le a hlong
        rw [framedVerdict, framedBytes, if_neg hfits, if_neg hfits]
        exact ⟨_, congrArg outcome hfill, hall.undo h⟩

/-- **A framed computation adds a length and its bytes, or nothing.** -/
theorem Adds.putFramed {body : BufferAction α} {result : Except Error α}
    (hbody : Adds body result bs) :
    Adds (Buffer.putFramed body) (framedVerdict result bs) (framedBytes result bs) := by
  intro b h
  obtain ⟨ended, hended, hextends⟩ := hbody _ ((extends_append h _).wellFormed h)
  exact putFramed_extends h hended hextends

theorem framed_eq_ok_iff {result : Except Error α} {a : α} {added : Bytes} :
    framedVerdict result added = .ok a ∧ framedBytes result added = bs ↔
      result = .ok a ∧ Fits added ∧ bs = prefixed added := by
  cases result with
  | error error => simp [framedVerdict]
  | ok value =>
      by_cases hfits : Fits added
      · simp [framedVerdict, framedBytes, hfits, eq_comm]
      · simp [framedVerdict, hfits]

/-! ### What is seen of a buffer -/

/-- The buffer `b'` is `b` as far as it can be seen: the positions are the same, and so is every
byte before the write position. -/
structure Undone (b b' : Buffer) : Prop where
  readPos_eq : b'.readPos = b.readPos
  writePos_eq : b'.writePos = b.writePos
  kept : b'.storage.take b.writePos = b.storage.take b.writePos

theorem Extends.undone (h : b.Extends b' []) : b.Undone b' where
  readPos_eq := h.readPos_eq
  writePos_eq := h.writePos_eq
  kept := by
    have hwritten := h.written
    rwa [h.writePos_eq, List.length_nil, Nat.add_zero, List.append_nil] at hwritten

/-- A computation of writes that succeeds. -/
theorem Adds.of_ok {x : BufferAction α} {a : α} (hx : Adds x (.ok a) bs) (h : b.WellFormed) :
    ∃ b', x b = .ok a b' ∧ b'.readPos = b.readPos ∧ b'.unread = b.unread ++ bs := by
  obtain ⟨b', hresult, hextends⟩ := hx b h
  exact ⟨b', outcome_eq_ok.1 hresult, hextends.readPos_eq, hextends.unread h⟩

/-- A computation of writes that fails and adds nothing. -/
theorem Adds.of_error {x : BufferAction α} {error : Error} (hx : Adds x (.error error) [])
    (h : b.WellFormed) : ∃ b', x b = .error error b' ∧ b.Undone b' := by
  obtain ⟨b', hresult, hextends⟩ := hx b h
  exact ⟨b', outcome_eq_error.1 hresult, hextends.undone⟩

/-- A framed computation that succeeds with bytes that fit adds a length and the bytes. -/
theorem Adds.putFramed_of_fits {body : BufferAction α} {a : α} (hbody : Adds body (.ok a) bs)
    (hfits : Fits bs) (h : b.WellFormed) :
    ∃ b', Buffer.putFramed body b = .ok a b' ∧ b'.readPos = b.readPos ∧
      b'.unread = b.unread ++ bigEndian 4 bs.length ++ bs := by
  have hframed := hbody.putFramed
  rw [framedVerdict, framedBytes, if_pos hfits, if_pos hfits, prefixed] at hframed
  rw [List.append_assoc]
  exact hframed.of_ok h

/-- A framed computation that succeeds with too many bytes fails and is undone. -/
theorem Adds.putFramed_of_not_fits {body : BufferAction α} {a : α} (hbody : Adds body (.ok a) bs)
    (hfits : ¬Fits bs) (h : b.WellFormed) :
    ∃ b', Buffer.putFramed body b = .error (.wire .overflow) b' ∧ b.Undone b' := by
  have hframed := hbody.putFramed
  rw [framedVerdict, framedBytes, if_neg hfits, if_neg hfits] at hframed
  exact hframed.of_error h

/-- A framed computation that fails is undone. -/
theorem Adds.putFramed_of_error {body : BufferAction α} {error : Error}
    (hbody : Adds body (.error error) bs) (h : b.WellFormed) :
    ∃ b', Buffer.putFramed body b = .error error b' ∧ b.Undone b' :=
  hbody.putFramed.of_error h

/-! ### Keys behind their length -/

/-- A public key goes in behind the length of its blob, if there is a blob that fits. -/
theorem putFramedKey_of_toBytes {key : PublicKey} {blob : Bytes} (hblob : key.toBytes = .ok blob)
    (hfits : Fits blob) (h : b.WellFormed) :
    ∃ b', putFramedKey key b = .ok () b' ∧ b'.readPos = b.readPos ∧
      b'.unread = b.unread ++ bigEndian 4 blob.length ++ blob := by
  have hresult := (key.honest_encoding.toBytes_eq_ok_iff hfits).1 hblob
  obtain ⟨hverdict, rfl⟩ := Emission.result_eq_ok.1 hresult
  have hput := adds_put key.encoding
  rw [hverdict] at hput
  exact hput.putFramed_of_fits hfits h

/-- A public key without a blob that fits is refused, and the buffer is as before. -/
theorem putFramedKey_of_not_toBytes {key : PublicKey}
    (hblob : ∀ blob, key.toBytes = .ok blob → ¬Fits blob) (h : b.WellFormed) :
    ∃ error b', putFramedKey key b = .error error b' ∧ b.Undone b' := by
  have hput := adds_put key.encoding
  cases hverdict : key.encoding.emission.verdict with
  | error error =>
      rw [hverdict] at hput
      exact ⟨error, hput.putFramed_of_error h⟩
  | ok u =>
      rw [hverdict] at hput
      have hlong : ¬Fits key.encoding.emission.bytes := fun hfits =>
        hblob _ ((key.honest_encoding.toBytes_eq_ok_iff hfits).2
          (Emission.result_eq_ok.2 ⟨hverdict, rfl⟩)) hfits
      exact ⟨_, hput.putFramed_of_not_fits hlong h⟩

end Buffer

/-! ### Computations of writes -/

/-- A computation that writes to a buffer.  What follows a write that can fail is told its outcome,
so that it can go on after a failure. -/
inductive Appending : Type → Type 1 where
  /-- Ends with a value. -/
  | done {α : Type} (a : α) : Appending α
  /-- Ends with an error. -/
  | fail {α : Type} (error : Error) : Appending α
  /-- Writes bytes as they are. -/
  | append {α : Type} (bs : Bytes) (next : Appending α) : Appending α
  /-- Makes room. -/
  | reserve {α : Type} (count : Nat) (next : Appending α) : Appending α
  /-- Writes a value: a field, a key, a keypair, or whatever else has an encoding. -/
  | put {α : Type} (value : Encoding) (next : Except Error Unit → Appending α) : Appending α
  /-- Writes behind a length. -/
  | framed {α β : Type} (body : Appending β) (next : Except Error β → Appending α) : Appending α

namespace Appending

/-- A computation of writes on a buffer. -/
def run {α : Type} : Appending α → BufferAction α
  | done a => pure a
  | fail error => throw error
  | append bs next => fun b => next.run (b.append bs)
  | reserve count next => fun b => next.run (b.reserve count)
  | put value next => fun b =>
    let (result, b) := outcome (Buffer.put value b)
    (next result).run b
  | framed body next => fun b =>
    let (result, b) := outcome (Buffer.putFramed body.run b)
    (next result).run b

/-- How a computation of writes ends, and the bytes it adds; no buffer is looked at. -/
def meaning {α : Type} : Appending α → Except Error α × Bytes
  | done a => (.ok a, [])
  | fail error => (.error error, [])
  | append bs next => (next.meaning.1, bs ++ next.meaning.2)
  | reserve _ next => next.meaning
  | put value next =>
    let after := (next value.emission.verdict).meaning
    (after.1, value.emission.bytes ++ after.2)
  | framed body next =>
    let inner := body.meaning
    let after := (next (Buffer.framedVerdict inner.1 inner.2)).meaning
    (after.1, Buffer.framedBytes inner.1 inner.2 ++ after.2)

/-- How a computation of writes ends. -/
def verdict {α : Type} (body : Appending α) : Except Error α := body.meaning.1

/-- The bytes a computation of writes adds. -/
def bytes {α : Type} (body : Appending α) : Bytes := body.meaning.2

/-- Every computation of writes adds its bytes, wherever it is run.  The induction is on the
computation, and what it goes on with after a failure is one more computation of writes. -/
theorem adds {α : Type} (body : Appending α) :
    Buffer.Adds body.run body.verdict body.bytes := by
  induction body with
  | done a => exact Buffer.adds_pure a
  | fail error => exact Buffer.adds_throw error
  | append bs next ih =>
      intro b h
      have hfirst := Buffer.extends_append h bs
      obtain ⟨b', hresult, hextends⟩ := ih _ (hfirst.wellFormed h)
      exact ⟨b', hresult, hfirst.trans hextends⟩
  | reserve count next ih =>
      intro b h
      have hfirst := Buffer.extends_reserve h count
      obtain ⟨b', hresult, hextends⟩ := ih _ (hfirst.wellFormed h)
      exact ⟨b', hresult, hfirst.trans hextends⟩
  | put value next ih =>
      exact (Buffer.adds_put value).followed (fun result => (next result).run) (ih _)
  | framed body next ihbody ihnext =>
      exact ihbody.putFramed.followed (fun result => (next result).run) (ihnext _)

/-! ### Framed writes -/

variable {b : Buffer}

/-- A value behind its length is written exactly as the encoding that announces the length. -/
theorem putFramed_put_eq_ok_iff {e : Encoding} (he : e.Honest) (h : b.WellFormed) {bs : Bytes} :
    (∃ b', Buffer.putFramed (Buffer.put e) b = .ok () b' ∧ b'.unread = b.unread ++ bs) ↔
      e.framed.emission.result = .ok bs := by
  rw [(Buffer.adds_put e).putFramed.eq_ok_iff h, Buffer.framed_eq_ok_iff, he.framed_eq_ok_iff]
  constructor
  · rintro ⟨hverdict, hfits, rfl⟩
    exact ⟨_, Emission.result_eq_ok.2 ⟨hverdict, rfl⟩, hfits, rfl⟩
  · rintro ⟨content, hresult, hfits, rfl⟩
    obtain ⟨hverdict, rfl⟩ := Emission.result_eq_ok.1 hresult
    exact ⟨hverdict, hfits, rfl⟩

/-- **A framed write frames exactly, or is undone.**

A computation of writes ends in the same way and adds the same bytes on every buffer.  If it
succeeds and its bytes fit a length, the framed computation adds the length and the bytes; otherwise
it fails, and the buffer is as before.  In particular a public key goes in behind the length of its
blob, or not at all; and a value goes in behind its length as the encoding writes it that announces
the length beforehand. -/
theorem putFramed_exact_or_undone {α : Type} (body : Appending α) (key : PublicKey) {e : Encoding}
    (he : e.OfValue) (h : b.WellFormed) :
    (∃ ended, outcome (body.run b) = (body.verdict, ended) ∧
        ended.unread = b.unread ++ body.bytes) ∧
      (∀ a, body.verdict = .ok a → body.bytes.length < 2 ^ 31 →
        ∃ b', Buffer.putFramed body.run b = .ok a b' ∧ b'.readPos = b.readPos ∧
          b'.unread = b.unread ++ bigEndian 4 body.bytes.length ++ body.bytes) ∧
      (∀ a, body.verdict = .ok a → ¬body.bytes.length < 2 ^ 31 →
        ∃ b', Buffer.putFramed body.run b = .error (.wire .overflow) b' ∧ b.Undone b') ∧
      (∀ error, body.verdict = .error error →
        ∃ b', Buffer.putFramed body.run b = .error error b' ∧ b.Undone b') ∧
      (∀ blob, key.toBytes = .ok blob → blob.length < 2 ^ 31 →
        ∃ b', Buffer.putFramedKey key b = .ok () b' ∧ b'.readPos = b.readPos ∧
          b'.unread = b.unread ++ bigEndian 4 blob.length ++ blob) ∧
      ((∀ blob, key.toBytes = .ok blob → ¬blob.length < 2 ^ 31) →
        ∃ error b', Buffer.putFramedKey key b = .error error b' ∧ b.Undone b') ∧
      ∀ bs, ((∃ b', Buffer.putFramed (Buffer.put e) b = .ok () b' ∧ b'.unread = b.unread ++ bs) ↔
          e.framed.emission.result = .ok bs) ∧
        ((∃ b', Buffer.put e.framed b = .ok () b' ∧ b'.unread = b.unread ++ bs) ↔
          e.framed.emission.result = .ok bs) := by
  have hadds := body.adds
  simp only [← fits_iff]
  refine ⟨?_, ?_, ?_, ?_, ?_, ?_, fun bs => ⟨?_, ?_⟩⟩
  · obtain ⟨ended, hended, hextends⟩ := hadds b h
    exact ⟨ended, hended, hextends.unread h⟩
  · intro a hok hfits
    rw [hok] at hadds
    exact hadds.putFramed_of_fits hfits h
  · intro a hok hfits
    rw [hok] at hadds
    exact hadds.putFramed_of_not_fits hfits h
  · intro error herror
    rw [herror] at hadds
    exact hadds.putFramed_of_error h
  · exact fun blob hblob hfits => Buffer.putFramedKey_of_toBytes hblob hfits h
  · exact fun hblob => Buffer.putFramedKey_of_not_toBytes hblob h
  · exact putFramed_put_eq_ok_iff he.honest h
  · rw [(Buffer.adds_put e.framed).eq_ok_iff h, Emission.result_eq_ok]

/-- A framed write of a byte that fails, and two bytes after it. -/
def afterFailure : Appending Unit :=
  framed (append [1] (fail (.wire .length) : Appending Unit)) fun _ => append [2, 3] (done ())

/-- A stretch that fails in a stretch leaves no trace, and the bytes after it are framed. -/
theorem putFramed_exact_after_failure :
    ∃ b', Buffer.putFramed afterFailure.run ⟨[9, 7], 1, 2⟩ = .ok () b' ∧
      b'.unread = [7, 0, 0, 0, 2, 2, 3] := by
  have hordered : (⟨[9, 7], 1, 2⟩ : Buffer).WellFormed := ⟨by decide, by decide⟩
  obtain ⟨-, hok, -⟩ := putFramed_exact_or_undone afterFailure
    (.rsa ⟨.ofMagnitude [3], .ofMagnitude [15]⟩) (.field (.byte 7)) hordered
  obtain ⟨b', hput, -, hunread⟩ := hok () rfl (by decide)
  exact ⟨b', hput, hunread⟩

end Appending

end SshKeys
