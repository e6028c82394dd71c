/-
**A framed read stays in its stretch.**

While a computation runs on the stretch that a length prefix announces, the write position of the
buffer is lowered to the end of the stretch.  Whatever the computation reads, whether it fails, and
whether it goes on after a failure, the storage and the write position are as before in the end,
the read position has not left the stretch, and nothing has depended on the bytes behind it.

Main definitions:

* `SshKeys.Reading` — computations that read, and may go on after a read has failed;
* `SshKeys.Buffer.OnlyReads` — a computation on a buffer that is a function of the unread bytes
  and moves the read position at most;
* `SshKeys.Buffer.StaysInStretch` — a computation that is confined to the stretch behind a length.

Main results:

* `SshKeys.Buffer.OnlyReads.confine` — reading within a stretch is reading;
* `SshKeys.Reading.onlyReads` — every reading reads only;
* `SshKeys.Reading.framed_stays_in_stretch` — **every reading that is framed stays in its stretch**,
  and so does the reading of a public key behind its length.
-/

import SshKeys.Key.Exchange
import SshKeys.Proofs.SettledReads
import SshKeys.Proofs.Writes

set_option relaxedAutoImplicit false
set_option autoImplicit false

namespace SshKeys

/-! ### Readings -/

/-- A computation that reads from a buffer.  What follows a read is told its outcome, so that it can
go on after a failure. -/
inductive Reading : Type → Type 1 where
  /-- Ends with a value. -/
  | done {α : Type} (a : α) : Reading α
  /-- Ends with an error. -/
  | fail {α : Type} (error : Error) : Reading α
  /-- Reads a value: bytes, a field, a key, or whatever else a decoder reads. -/
  | read {α β : Type} (d : Decoder β) (next : Except Error β → Reading α) : Reading α
  /-- Reads within the stretch that a length prefix announces. -/
  | framed {α β : Type} (body : Reading β) (next : Except Error β → Reading α) : Reading α

/-- A reading as a computation on a buffer. -/
def Reading.run {α : Type} : Reading α → BufferAction α
  | done a => pure a
  | fail error => throw error
  | read d next => fun b =>
    let (result, b) := outcome (Buffer.get d b)
    (next result).run b
  | framed body next => fun b =>
    let (result, b) := outcome (Buffer.getFramed body.run b)
    (next result).run b

namespace Buffer

/-! ### Computations that only read -/

variable {α β : Type}

/-- A computation whose result is a function of the unread bytes, and which moves the read position
over some of them and changes nothing else. -/
def OnlyReads (x : BufferAction α) : Prop :=
  ∀ unread : Bytes, ∃ result count, count ≤ unread.length ∧
    ∀ b : Buffer, b.WellFormed → b.unread = unread → outcome (x b) = (result, b.advance count)

theorem onlyReads_pure (a : α) : OnlyReads (pure a) :=
  fun _ => ⟨.ok a, 0, Nat.zero_le _, fun _ _ _ => rfl⟩

theorem onlyReads_throw (error : Error) : OnlyReads (throw error : BufferAction α) :=
  fun _ => ⟨.error error, 0, Nat.zero_le _, fun _ _ _ => rfl⟩

/-- What follows a reading, whatever its outcome is. -/
theorem OnlyReads.followed {x : BufferAction β} {next : Except Error β → BufferAction α}
    (hx : OnlyReads x) (hnext : ∀ result, OnlyReads (next result)) :
    OnlyReads fun b => next (outcome (x b)).1 (outcome (x b)).2 := by
  intro unread
  obtain ⟨first, count, hcount, hfirst⟩ := hx unread
  obtain ⟨result, more, hmore, hresult⟩ := hnext first (unread.drop count)
  rw [List.length_drop] at hmore
  refine ⟨result, count + more, by omega, fun b h hunread => ?_⟩
  have havailable := length_unread h
  rw [hunread] at havailable
  change outcome (next (outcome (x b)).1 (outcome (x b)).2) = _
  rw [hfirst b h hunread, ← advance_advance]
  refine hresult _ (h.advance (by omega)) ?_
  rw [unread_advance, hunread]

/-- What follows a success, and passes a failure on. -/
def onSuccess (f : β → BufferAction α) : Except Error β → BufferAction α
  | .ok a => f a
  | .error error => throw error

theorem OnlyReads.bind {x : BufferAction β} {f : β → BufferAction α} (hx : OnlyReads x)
    (hf : ∀ a, OnlyReads (f a)) : OnlyReads (x >>= f) := by
  have hsame : (x >>= f) = fun b => onSuccess f (outcome (x b)).1 (outcome (x b)).2 := by
    funext b
    rw [bind_apply]
    cases x b <;> rfl
  rw [hsame]
  refine hx.followed fun result => ?_
  cases result with
  | ok a => exact hf a
  | error error => exact onlyReads_throw error

theorem onlyReads_take (count : Nat) : OnlyReads (take count) := by
  intro unread
  by_cases hcount : count ≤ unread.length
  · refine ⟨.ok (unread.take count), count, hcount, fun b h hunread => ?_⟩
    have havailable := length_unread h
    rw [hunread] at havailable
    rw [take, ensureAvailable, if_pos (havailable ▸ hcount), hunread]
    rfl
  · refine ⟨.error (.wire (.underflow count unread.length)), 0, Nat.zero_le _,
      fun b h hunread => ?_⟩
    have havailable := length_unread h
    rw [hunread] at havailable
    rw [take, ensureAvailable, if_neg (havailable ▸ hcount), havailable]
    rfl

/-! ### Stretches -/

/-- A reading that is confined to a stretch is a function of the stretch alone.  If it succeeds, it
takes all of it. -/
theorem OnlyReads.confine_stretch {body : BufferAction α} (hbody : OnlyReads body)
    (stretch : Bytes) :
    ∃ result count, count ≤ stretch.length ∧ (∀ a, result = .ok a → count = stretch.length) ∧
      ∀ b : Buffer, b.WellFormed → ∀ tail, b.unread = stretch ++ tail →
        outcome (confine stretch.length body b) = (result, b.advance count) := by
  obtain ⟨inner, count, hcount, hinner⟩ := hbody stretch
  -- the outcome on the stretch decides; the buffer only has to hold the stretch
  have hrun : ∀ b : Buffer, b.WellFormed → ∀ tail, b.unread = stretch ++ tail →
      stretch.length ≤ b.available ∧
        outcome (body (b.narrow stretch.length)) =
          (inner, (b.narrow stretch.length).advance count) := by
    intro b h tail hunread
    have havailable := length_unread h
    rw [hunread, List.length_append] at havailable
    have hroom : stretch.length ≤ b.available := by omega
    refine ⟨hroom, hinner _ (h.narrow hroom) ?_⟩
    rw [unread_narrow hroom, hunread, List.take_left]
  cases inner with
  | error error =>
      refine ⟨.error error, count, hcount, by simp, fun b h tail hunread => ?_⟩
      obtain ⟨hroom, hended⟩ := hrun b h tail hunread
      rw [confine, ensureAvailable, if_pos hroom, narrow_eq]
      simp only [outcome_eq_error.1 hended]
      rfl
  | ok a =>
      by_cases hall : count = stretch.length
      · refine ⟨.ok a, count, hcount, fun _ _ => hall, fun b h tail hunread => ?_⟩
        obtain ⟨hroom, hended⟩ := hrun b h tail hunread
        rw [confine, ensureAvailable, if_pos hroom, narrow_eq]
        simp [outcome_eq_ok.1 hended, hall, outcome, advance_narrow_widen]
      · have hleft : stretch.length - count ≠ 0 := by omega
        refine ⟨.error (.wire (.trailingData (stretch.length - count))), count, hcount, by simp,
          fun b h tail hunread => ?_⟩
        obtain ⟨hroom, hended⟩ := hrun b h tail hunread
        rw [confine, ensureAvailable, if_pos hroom, narrow_eq]
        simp [outcome_eq_ok.1 hended, hleft, outcome, advance_narrow_widen]

/-- Reading within a stretch is reading. -/
theorem OnlyReads.confine {body : BufferAction α} (hbody : OnlyReads body) (length : Nat) :
    OnlyReads (confine length body) := by
  intro unread
  by_cases hlength : length ≤ unread.length
  · obtain ⟨result, count, hcount, -, hrun⟩ := hbody.confine_stretch (unread.take length)
    rw [List.length_take_of_le hlength] at hcount hrun
    refine ⟨result, count, Nat.le_trans hcount hlength, fun b h hunread => ?_⟩
    exact hrun b h (unread.drop length) (by rw [hunread, List.take_append_drop])
  · refine ⟨.error (.wire (.underflow length unread.length)), 0, Nat.zero_le _,
      fun b h hunread => ?_⟩
    have havailable := length_unread h
    rw [hunread] at havailable
    rw [Buffer.confine, ensureAvailable, if_neg (havailable ▸ hlength), havailable]
    rfl

/-- A decoder only reads. -/
theorem onlyReads_get (d : Decoder α) : OnlyReads (get d) := by
  unfold get
  induction d with
  | done a => exact onlyReads_pure a
  | fail error => exact onlyReads_throw error
  | take count next ih => exact (onlyReads_take count).bind ih
  | remaining next ih =>
      intro unread
      obtain ⟨result, count, hcount, hrun⟩ := ih unread.length unread
      refine ⟨result, count, hcount, fun b h hunread => ?_⟩
      have havailable := length_unread h
      rw [hunread] at havailable
      have hnext := hrun b h hunread
      rw [havailable] at hnext
      exact hnext
  | confine length body next ihbody ihnext => exact (ihbody.confine length).bind ihnext

theorem OnlyReads.getFramed {body : BufferAction α} (hbody : OnlyReads body) :
    OnlyReads (getFramed body) :=
  (onlyReads_get Decoder.length).bind fun length => hbody.confine length

/-- A framed computation on a stretch that is there is the computation confined to it, behind the
length. -/
theorem getFramed_of_unread {body : BufferAction α} {b : Buffer} {stretch tail : Bytes}
    (h : b.WellFormed) (hfits : Fits stretch) (hunread : b.unread = prefixed stretch ++ tail) :
    Buffer.getFramed body b = Buffer.confine stretch.length body (b.advance 4) := by
  have hlength := @run_of_reads _ Decoder.length b stretch.length h (bigEndian 4 stretch.length)
    (stretch ++ tail) (by rw [hunread, prefixed, List.append_assoc])
    (Decoder.reads_length.2 ⟨hfits, rfl⟩)
  rw [length_bigEndian] at hlength
  rw [Buffer.getFramed, bind_apply, get, hlength]

/-- A framed reading is a function of its stretch, if the stretch is there.  If it succeeds, it
takes the length and all of the stretch. -/
theorem OnlyReads.getFramed_stretch {body : BufferAction α} (hbody : OnlyReads body)
    {stretch : Bytes} (hfits : Fits stretch) :
    ∃ result count, count ≤ stretch.length ∧ (∀ a, result = .ok a → count = stretch.length) ∧
      ∀ b : Buffer, b.WellFormed → ∀ tail, b.unread = prefixed stretch ++ tail →
        outcome (Buffer.getFramed body b) = (result, b.advance (4 + count)) := by
  obtain ⟨result, count, hcount, hall, hrun⟩ := hbody.confine_stretch stretch
  refine ⟨result, count, hcount, hall, fun b h tail hunread => ?_⟩
  have havailable := length_unread h
  rw [hunread, List.length_append, length_prefixed] at havailable
  have hbehind : (b.advance 4).unread = stretch ++ tail := by
    rw [unread_advance, hunread, prefixed, List.append_assoc]
    exact List.drop_left' (length_bigEndian 4 _)
  rw [getFramed_of_unread h hfits hunread, hrun _ (h.advance (by omega)) tail hbehind,
    advance_advance]

/-! ### Computations that stay in their stretch -/

/-- A computation that reads a length and stays in the stretch behind it, whatever becomes of it. -/
structure StaysInStretch (x : BufferAction α) : Prop where
  /-- The storage, and with it the capacity, and the write position are unchanged. -/
  keeps : ∀ b : Buffer, b.WellFormed →
    (outcome (x b)).2.storage = b.storage ∧ (outcome (x b)).2.writePos = b.writePos
  /-- If the stretch is there, the read position ends behind the length and not behind the
  stretch. -/
  bounds : ∀ b : Buffer, b.WellFormed → ∀ stretch tail, Fits stretch →
    b.unread = prefixed stretch ++ tail →
      b.readPos + 4 ≤ (outcome (x b)).2.readPos ∧
        (outcome (x b)).2.readPos ≤ b.readPos + 4 + stretch.length
  /-- If the computation succeeds, the read position ends right behind the stretch. -/
  whole : ∀ b : Buffer, b.WellFormed → ∀ stretch tail, Fits stretch →
    b.unread = prefixed stretch ++ tail → ∀ a, (outcome (x b)).1 = .ok a →
      (outcome (x b)).2.readPos = b.readPos + 4 + stretch.length
  /-- Other bytes behind the stretch, more or fewer of them, make no difference to the result and to
  the read position. -/
  blind : ∀ b b' : Buffer, b.WellFormed → b'.WellFormed → b'.readPos = b.readPos →
    ∀ stretch tail tail', Fits stretch → b.unread = prefixed stretch ++ tail →
      b'.unread = prefixed stretch ++ tail' →
        (outcome (x b')).1 = (outcome (x b)).1 ∧
          (outcome (x b')).2.readPos = (outcome (x b)).2.readPos

/-- A framed reading stays in its stretch. -/
theorem OnlyReads.staysInStretch {body : BufferAction α} (hbody : OnlyReads body) :
    StaysInStretch (Buffer.getFramed body) where
  keeps b h := by
    obtain ⟨result, count, -, hrun⟩ := hbody.getFramed b.unread
    rw [hrun b h rfl]
    exact ⟨rfl, rfl⟩
  bounds b h stretch tail hfits hunread := by
    obtain ⟨result, count, hcount, -, hrun⟩ := hbody.getFramed_stretch hfits
    rw [hrun b h tail hunread]
    simp only [advance]
    omega
  whole b h stretch tail hfits hunread a hok := by
    obtain ⟨result, count, -, hall, hrun⟩ := hbody.getFramed_stretch hfits
    rw [hrun b h tail hunread] at hok ⊢
    rw [hall a hok, advance, Nat.add_assoc]
  blind b b' h h' hread stretch tail tail' hfits hunread hunread' := by
    obtain ⟨result, count, -, -, hrun⟩ := hbody.getFramed_stretch hfits
    rw [hrun b h tail hunread, hrun b' h' tail' hunread']
    exact ⟨rfl, by rw [advance, advance, hread]⟩

end Buffer

/-! ### Readings stay in their stretch -/

/-- Every reading reads only.  The induction is on the reading, and what follows a failure is one
more reading. -/
theorem Reading.onlyReads {α : Type} (body : Reading α) : Buffer.OnlyReads body.run := by
  induction body with
  | done a => exact Buffer.onlyReads_pure a
  | fail error => exact Buffer.onlyReads_throw error
  | read d next ih => exact (Buffer.onlyReads_get d).followed ih
  | framed body next ihbody ihnext => exact ihbody.getFramed.followed ihnext

/-- A public key behind its length is read by a framed reading. -/
theorem Buffer.getFramedKey_eq : Buffer.getFramedKey = Buffer.getFramed Buffer.getKey :=
  Decoder.run_framed _

/-- **Every reading that is framed stays in its stretch**, and so does the reading of a public key
behind its length, whatever the bytes are. -/
theorem Reading.framed_stays_in_stretch :
    (∀ {α : Type} (body : Reading α), Buffer.StaysInStretch (Buffer.getFramed body.run)) ∧
      Buffer.StaysInStretch Buffer.getFramedKey := by
  refine ⟨fun body => body.onlyReads.staysInStretch, ?_⟩
  rw [Buffer.getFramedKey_eq]
  exact (Buffer.onlyReads_get _).staysInStretch

/-- A string in the stretch that reaches behind the stretch is not read, though the bytes are
there. -/
example : outcome (Buffer.getFramedKey (.ofBytes [0, 0, 0, 4, 0, 0, 0, 2, 7, 7])) =
    (.error (.wire (.underflow 2 0)), ⟨[0, 0, 0, 4, 0, 0, 0, 2, 7, 7], 8, 10⟩) := rfl

end SshKeys
