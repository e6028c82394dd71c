/-
**Writing extends a buffer.**

Whatever is written to a buffer stands behind what stood before its write position, which stays as
it is; the read position does not move, and storage grows at most.  A buffer *extends* another by
the bytes that were written in between.  Extensions compose, so a computation of writes is
described by the bytes it adds, wherever it is run.

Main definitions:

* `SshKeys.Buffer.Extends` — a buffer to which bytes have been added;
* `SshKeys.Buffer.Adds` — a computation that adds the same bytes to every buffer.

Main results:

* `SshKeys.Buffer.Extends.trans` — extensions compose;
* `SshKeys.Buffer.Extends.unread` — what has been added stands behind what is unread;
* `SshKeys.Buffer.extends_append`, `SshKeys.Buffer.extends_reserve` — bytes, and room;
* `SshKeys.Buffer.Adds.followed` — what one computation adds stands behind what the one before it
  adds;
* `SshKeys.Buffer.adds_emit` — **an emission adds its bytes to every buffer**.
-/

import SshKeys.Proofs.Reads
import SshKeys.Wire.Buffer

set_option relaxedAutoImplicit false
set_option autoImplicit false

namespace SshKeys

namespace Buffer

/-! ### Extensions -/

/-- The buffer `b'` is `b` after `bs` has been written, and perhaps with more room. -/
structure Extends (b b' : Buffer) (bs : Bytes) : Prop where
  /-- The read position stays. -/
  readPos_eq : b'.readPos = b.readPos
  /-- The write position is behind what has been written. -/
  writePos_eq : b'.writePos = b.writePos + bs.length
  /-- What stood before the write position is still there, and the bytes stand behind it. -/
  written : b'.storage.take b'.writePos = b.storage.take b.writePos ++ bs
  /-- Storage does not shrink. -/
  capacity_le : b.capacity ≤ b'.capacity
  /-- The write position is inside the storage. -/
  writePos_le : b'.writePos ≤ b'.capacity

theorem WellFormed.extends_nil {b : Buffer} (h : b.WellFormed) : b.Extends b [] :=
  ⟨rfl, rfl, by rw [List.append_nil], Nat.le_refl _, h.2⟩

/-- Extensions compose. -/
theorem Extends.trans {b b' b'' : Buffer} {bs bs' : Bytes} (h : b.Extends b' bs)
    (h' : b'.Extends b'' bs') : b.Extends b'' (bs ++ bs') where
  readPos_eq := h'.readPos_eq.trans h.readPos_eq
  writePos_eq := by
    rw [h'.writePos_eq, h.writePos_eq, List.length_append, Nat.add_assoc]
  written := by
    rw [h'.written, h.written, List.append_assoc]
  capacity_le := Nat.le_trans h.capacity_le h'.capacity_le
  writePos_le := h'.writePos_le

variable {b b' : Buffer} {bs : Bytes}

theorem Extends.wellFormed (h : b.Extends b' bs) (hb : b.WellFormed) : b'.WellFormed := by
  refine ⟨?_, h.writePos_le⟩
  rw [h.readPos_eq, h.writePos_eq]
  exact Nat.le_trans hb.1 (Nat.le_add_right _ _)

/-- The unread bytes are what stands between the positions. -/
theorem unread_eq_drop (b : Buffer) : b.unread = (b.storage.take b.writePos).drop b.readPos :=
  List.drop_take.symm

/-- What has been added stands behind what is unread. -/
theorem Extends.unread (h : b.Extends b' bs) (hb : b.WellFormed) :
    b'.unread = b.unread ++ bs := by
  have hlength : b.readPos ≤ (b.storage.take b.writePos).length := by
    rw [List.length_take_of_le hb.2]
    exact hb.1
  rw [unread_eq_drop, unread_eq_drop, h.written, h.readPos_eq,
    List.drop_append_of_le_length hlength]

/-! ### Writes -/

theorem extends_reserve (h : b.WellFormed) (count : Nat) : b.Extends (b.reserve count) [] where
  readPos_eq := rfl
  writePos_eq := rfl
  written := by
    rw [List.append_nil]
    exact List.take_append_of_le_length h.2
  capacity_le := by
    simp only [capacity, reserve, List.length_append]
    omega
  writePos_le := (h.reserve count).2

/-- Bytes put over others up to a position behind them. -/
theorem take_overwrite {storage : Bytes} {pos count : Nat} (h : pos + bs.length ≤ count)
    (hcount : count ≤ storage.length) :
    (overwrite storage pos bs).take count = overwrite (storage.take count) pos bs := by
  have hfront : (storage.take pos ++ bs).length = pos + bs.length := by
    rw [List.length_append, List.length_take_of_le (by omega)]
  rw [overwrite, overwrite, List.take_append, hfront, List.take_of_length_le (by omega),
    List.take_take, Nat.min_eq_left (by omega), List.drop_take]

/-- Bytes put over others of the same number. -/
theorem overwrite_append {front old : Bytes} (back : Bytes) (h : old.length = bs.length) :
    overwrite (front ++ old ++ back) front.length bs = front ++ bs ++ back := by
  have hbehind : (front ++ old).length = front.length + bs.length := by
    rw [List.length_append, h]
  rw [overwrite, ← hbehind, List.drop_left, List.append_assoc front old back, List.take_left]

theorem extends_append (h : b.WellFormed) (bs : Bytes) : b.Extends (b.append bs) bs := by
  have hroom : b.Extends (b.reserve bs.length) [] := extends_reserve h bs.length
  have hfits : b.writePos + bs.length ≤ (b.reserve bs.length).storage.length :=
    le_capacity_reserve b bs.length
  have hcapacity : (b.append bs).capacity = (b.reserve bs.length).capacity :=
    length_overwrite hfits
  refine ⟨rfl, rfl, ?_, ?_, ?_⟩
  · have hwritten := @take_drop_overwrite _ bs 0 _ (Nat.zero_le _) (hroom.wellFormed h).2
    simp only [List.drop_zero, Nat.sub_zero] at hwritten
    rw [← List.append_nil (b.storage.take b.writePos), ← hroom.written]
    exact hwritten
  · rw [hcapacity]
    exact hroom.capacity_le
  · rw [hcapacity]
    exact hfits

/-- The writes of an emission extend a buffer one after another. -/
theorem extends_foldl_append (h : b.WellFormed) (writes : List Bytes) :
    b.Extends (writes.foldl append b) writes.flatten := by
  induction writes generalizing b with
  | nil => exact h.extends_nil
  | cons bs writes ih =>
      have hfirst := extends_append h bs
      exact hfirst.trans (ih (hfirst.wellFormed h))

/-- Moving the unread bytes to the start keeps the storage as large as it is. -/
theorem capacity_compact (h : b.WellFormed) : b.compact.capacity = b.capacity := by
  have hlength := length_unread h
  have hroom := h.2
  refine length_overwrite ?_
  rw [hlength, available]
  omega

end Buffer

/-! ### Computations of writes -/

/-- How an emission ends. -/
def Emission.verdict (e : Emission) : Except Error Unit :=
  match e.stop with
  | none => .ok ()
  | some error => .error error

theorem Emission.result_eq_ok {e : Emission} {bs : Bytes} :
    e.result = .ok bs ↔ e.verdict = .ok () ∧ e.bytes = bs := by
  unfold result verdict
  cases e.stop <;> simp

namespace Buffer

variable {α β : Type}

/-- A computation that ends in the same way and adds the same bytes, whatever buffer it is run
on. -/
def Adds (x : BufferAction α) (result : Except Error α) (bs : Bytes) : Prop :=
  ∀ b : Buffer, b.WellFormed → ∃ b', outcome (x b) = (result, b') ∧ b.Extends b' bs

theorem adds_pure (a : α) : Adds (pure a) (.ok a) [] :=
  fun b h => ⟨b, rfl, h.extends_nil⟩

theorem adds_throw (error : Error) : Adds (throw error : BufferAction α) (.error error) [] :=
  fun b h => ⟨b, rfl, h.extends_nil⟩

/-- What follows a computation of writes, whatever its outcome is. -/
theorem Adds.followed {x : BufferAction β} {first : Except Error β} {result : Except Error α}
    {bs bs' : Bytes} (hx : Adds x first bs) (next : Except Error β → BufferAction α)
    (hnext : Adds (next first) result bs') :
    Adds (fun b => next (outcome (x b)).1 (outcome (x b)).2) result (bs ++ bs') := by
  intro b h
  obtain ⟨b', hfirst, hextends⟩ := hx b h
  obtain ⟨b'', hresult, hextends'⟩ := hnext b' (hextends.wellFormed h)
  refine ⟨b'', ?_, hextends.trans hextends'⟩
  change outcome (next (outcome (x b)).1 (outcome (x b)).2) = _
  rw [hfirst, hresult]

/-- A computation of writes that ends with another value. -/
theorem Adds.answer {x : BufferAction β} {result : Except Error β} {bs : Bytes}
    (hx : Adds x result bs) (a : α) : Adds (x >>= fun _ => pure a) (result.map fun _ => a) bs := by
  intro b h
  obtain ⟨b', hresult, hextends⟩ := hx b h
  refine ⟨b', ?_, hextends⟩
  rw [bind_apply]
  cases result with
  | ok value =>
      rw [outcome_eq_ok.1 hresult]
      rfl
  | error error =>
      rw [outcome_eq_error.1 hresult]
      rfl

/-- A computation of writes succeeds with a value and adds given bytes exactly if these are its
own. -/
theorem Adds.eq_ok_iff {x : BufferAction α} {result : Except Error α} {added bs : Bytes}
    (hx : Adds x result added) {b : Buffer} (h : b.WellFormed) {a : α} :
    (∃ b', x b = .ok a b' ∧ b'.unread = b.unread ++ bs) ↔ result = .ok a ∧ added = bs := by
  obtain ⟨b', hresult, hextends⟩ := hx b h
  have hunread := hextends.unread h
  cases result with
  | error error => simp [outcome_eq_error.1 hresult]
  | ok value =>
      rw [outcome_eq_ok.1 hresult]
      constructor
      · rintro ⟨b'', hsame, hbytes⟩
        cases hsame
        rw [hunread] at hbytes
        exact ⟨rfl, List.append_cancel_left hbytes⟩
      · rintro ⟨hok, rfl⟩
        cases hok
        exact ⟨b', rfl, hunread⟩

/-- An emission extends every buffer by its bytes, also if it is stopped. -/
theorem adds_emit (e : Emission) : Adds (emit e) e.verdict e.bytes := by
  intro b h
  refine ⟨e.writes.foldl append b, ?_, extends_foldl_append h e.writes⟩
  simp only [emit, Emission.verdict]
  cases e.stop <;> rfl

theorem adds_put (e : Encoding) : Adds (put e) e.emission.verdict e.emission.bytes :=
  adds_emit e.emission

end Buffer

end SshKeys
