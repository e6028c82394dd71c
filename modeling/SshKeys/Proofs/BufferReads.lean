/-
**A buffer is read like the bytes that are unread in it.**

A decoder runs on a byte string and on a buffer by different means: a byte string is split, and a
buffer moves its read position, after lowering its write position for a stretch.  The two runs go
hand in hand.  They end with the same value or the same error, and a run that succeeds takes the
same bytes off the front of both.  Only the read position of a buffer ever moves.

Main definitions:

* `SshKeys.Buffer.advance` — a buffer some of whose unread bytes have been read;
* `SshKeys.Buffer.narrow` — a buffer of which only the next unread bytes are in view;
* `SshKeys.Buffer.SameRun` — a run on a buffer ends as a run on a byte string does.

Main results:

* `SshKeys.Buffer.sameRun_run` — **every decoder runs on a buffer as on its unread bytes**;
* `SshKeys.Buffer.run_eq_ok_iff` — what succeeds on a buffer is what reads from its unread bytes.
-/

import SshKeys.Proofs.Reads
import SshKeys.Wire.Buffer

set_option relaxedAutoImplicit false
set_option autoImplicit false

namespace SshKeys.Buffer

/-! ### Moving the read position -/

/-- A buffer whose next `count` unread bytes have been read. -/
def advance (b : Buffer) (count : Nat) : Buffer := { b with readPos := b.readPos + count }

/-- A buffer of which only the next `count` unread bytes are in view. -/
def narrow (b : Buffer) (count : Nat) : Buffer := { b with writePos := b.readPos + count }

@[simp] theorem advance_advance (b : Buffer) (m n : Nat) :
    (b.advance m).advance n = b.advance (m + n) := by
  simp [advance, Nat.add_assoc]

@[simp] theorem available_advance (b : Buffer) (count : Nat) :
    (b.advance count).available = b.available - count := by
  simp only [advance, available]
  omega

@[simp] theorem unread_advance (b : Buffer) (count : Nat) :
    (b.advance count).unread = b.unread.drop count := by
  rw [unread, unread, available_advance, List.drop_take, List.drop_drop]
  rfl

theorem WellFormed.advance {b : Buffer} (h : b.WellFormed) {count : Nat}
    (hcount : count ≤ b.available) : (b.advance count).WellFormed := by
  have hread := h.1
  refine ⟨?_, h.2⟩
  simp only [available] at hcount
  simp only [Buffer.advance]
  omega

@[simp] theorem available_narrow (b : Buffer) (count : Nat) : (b.narrow count).available = count := by
  simp [narrow, available]

theorem unread_narrow {b : Buffer} {count : Nat} (h : count ≤ b.available) :
    (b.narrow count).unread = b.unread.take count := by
  rw [unread, unread, available_narrow, List.take_take, Nat.min_eq_left h]
  rfl

theorem narrow_eq (b : Buffer) (count : Nat) :
    { b with writePos := b.readPos + count } = b.narrow count := rfl

theorem WellFormed.narrow {b : Buffer} (h : b.WellFormed) {count : Nat}
    (hcount : count ≤ b.available) : (b.narrow count).WellFormed := by
  have hread := h.1
  have hwrite := h.2
  simp only [available] at hcount
  refine ⟨Nat.le_add_right _ _, ?_⟩
  simp only [Buffer.narrow]
  omega

/-- A buffer that was narrowed and read from is wide again once its write position is back. -/
theorem advance_narrow_widen (b : Buffer) (count read : Nat) :
    { (b.narrow count).advance read with writePos := b.writePos } = b.advance read := rfl

/-! ### Runs on a buffer and on a byte string -/

/-- A run on a buffer ends as a run on a byte string does: with the same value, having taken the
same number of bytes, or with the same error.  Nothing but the read position has moved, and it is
still in the part that was unread. -/
inductive SameRun {α : Type} (b : Buffer) :
    EStateM.Result Error Bytes α → EStateM.Result Error Buffer α → Prop
  | ok (a : α) {count : Nat} (h : count ≤ b.available) :
      SameRun b (.ok a (b.unread.drop count)) (.ok a (b.advance count))
  | error (error : Error) (left : Bytes) {count : Nat} (h : count ≤ b.available) :
      SameRun b (.error error left) (.error error (b.advance count))

theorem SameRun.ok_zero {α : Type} (b : Buffer) (a : α) :
    b.SameRun (.ok a b.unread) (.ok a b) :=
  @SameRun.ok α b a 0 (Nat.zero_le _)

theorem SameRun.error_zero {α : Type} (b : Buffer) (error : Error) (left : Bytes) :
    SameRun b (.error error left : EStateM.Result Error Bytes α) (.error error b) :=
  @SameRun.error α b error left 0 (Nat.zero_le _)

/-- Runs that go on after some bytes have been read. -/
theorem SameRun.of_advance {α : Type} {b : Buffer} {count : Nat} (hcount : count ≤ b.available)
    {r : EStateM.Result Error Bytes α} {r' : EStateM.Result Error Buffer α}
    (h : (b.advance count).SameRun r r') : b.SameRun r r' := by
  cases h with
  | ok a hmore =>
      rw [unread_advance, List.drop_drop, advance_advance]
      rw [available_advance] at hmore
      exact .ok a (by omega)
  | error error left hmore =>
      rw [advance_advance]
      rw [available_advance] at hmore
      exact .error error left (by omega)

/-- Taking bytes. -/
theorem sameRun_take {b : Buffer} (h : b.WellFormed) (count : Nat) :
    b.SameRun (ByteSource.take count b.unread) (take count b) := by
  simp only [ByteSource.take, take, ensureAvailable, length_unread h]
  by_cases hcount : count ≤ b.available
  · rw [if_pos hcount, if_pos hcount]
    exact .ok _ hcount
  · rw [if_neg hcount, if_neg hcount]
    exact .error_zero b _ _

/-- A stretch of which the runs inside end alike. -/
theorem sameRun_confine {α : Type} {b : Buffer} (h : b.WellFormed) {count : Nat}
    {onBytes : EStateM Error Bytes α} {onBuffer : EStateM Error Buffer α}
    (hbody : count ≤ b.available →
      (b.narrow count).SameRun (onBytes (b.unread.take count)) (onBuffer (b.narrow count))) :
    b.SameRun (ByteSource.confine count onBytes b.unread) (confine count onBuffer b) := by
  by_cases hcount : count ≤ b.available
  · have hshort : ¬b.unread.length < count := by
      rw [length_unread h]
      omega
    have hrun := hbody hcount
    simp only [ByteSource.confine, confine, ensureAvailable, if_neg hshort, if_pos hcount]
    rw [narrow_eq]
    generalize onBytes (b.unread.take count) = r at hrun
    generalize onBuffer (b.narrow count) = r' at hrun
    cases hrun with
    | error error left hread =>
        rw [available_narrow] at hread
        exact .error error _ (Nat.le_trans hread hcount)
    | @ok a read hread =>
        rw [available_narrow] at hread
        simp only [available_advance, available_narrow, unread_narrow hcount, advance_narrow_widen]
        -- all of the stretch has been taken, or what is left of it is counted
        by_cases hall : read = count
        · subst hall
          rw [List.drop_take, Nat.sub_self, List.take_zero, if_pos rfl]
          exact .ok a hcount
        · have hleft : count - read ≠ 0 := by omega
          have hlength : ((b.unread.take count).drop read).length = count - read := by
            rw [List.length_drop, List.length_take_of_le (by rw [length_unread h]; exact hcount)]
          cases hrest : (b.unread.take count).drop read with
          | nil =>
              rw [hrest] at hlength
              exact absurd hlength.symm hleft
          | cons c rest =>
              rw [hrest] at hlength
              rw [if_neg hleft, ← hlength]
              exact .error _ _ (Nat.le_trans hread hcount)
  · have hshort : b.available < count := Nat.lt_of_not_le hcount
    simp only [ByteSource.confine, confine, ensureAvailable, length_unread h, if_neg hcount,
      if_pos hshort]
    exact .error_zero b _ _

/-- Runs that go on after runs that end alike. -/
theorem SameRun.bind {α β : Type} {b : Buffer} {onBytes : EStateM Error Bytes α}
    {onBuffer : EStateM Error Buffer α} {nextBytes : α → EStateM Error Bytes β}
    {nextBuffer : α → EStateM Error Buffer β} (h : b.SameRun (onBytes b.unread) (onBuffer b))
    (hnext : ∀ a {count : Nat}, count ≤ b.available →
      (b.advance count).SameRun (nextBytes a (b.unread.drop count))
        (nextBuffer a (b.advance count))) :
    b.SameRun ((onBytes >>= nextBytes) b.unread) ((onBuffer >>= nextBuffer) b) := by
  rw [bind_apply, bind_apply]
  generalize onBytes b.unread = r at h
  generalize onBuffer b = r' at h
  cases h with
  | ok a hcount => exact (hnext a hcount).of_advance hcount
  | error error left hcount => exact .error error left hcount

/-- **Every decoder runs on a buffer as on its unread bytes.** -/
theorem sameRun_run {α : Type} (d : Decoder α) {b : Buffer} (h : b.WellFormed) :
    b.SameRun (d.run b.unread) (d.run b) := by
  induction d generalizing b with
  | done a => exact .ok_zero b a
  | fail error => exact .error_zero b error b.unread
  | take count next ih =>
      refine (sameRun_take h count).bind fun bs read hread => ?_
      rw [← unread_advance]
      exact ih bs (h.advance hread)
  | remaining next ih =>
      change b.SameRun ((next b.unread.length).run b.unread) ((next b.available).run b)
      rw [length_unread h]
      exact ih _ h
  | confine count body next ihbody ihnext =>
      refine SameRun.bind (sameRun_confine h fun hcount => ?_) fun a read hread => ?_
      · rw [← unread_narrow hcount]
        exact ihbody (h.narrow hcount)
      · rw [← unread_advance]
        exact ihnext a (h.advance hread)

/-! ### What succeeds -/

variable {α : Type} {d : Decoder α} {b : Buffer} {a : α}

/-- A decoder succeeds on a buffer exactly when it reads from the unread bytes, and leaves the same
bytes. -/
theorem run_eq_ok_iff (h : b.WellFormed) {rest : Bytes} :
    (∃ b', d.run b = .ok a b' ∧ b'.unread = rest) ↔ d.Reads b.unread a rest := by
  have hsame := sameRun_run d h
  unfold Decoder.Reads
  generalize (d.run b.unread : EStateM.Result Error Bytes α) = r at hsame
  generalize (d.run b : EStateM.Result Error Buffer α) = r' at hsame
  cases hsame with
  | error error left hcount => simp
  | @ok a' count hcount =>
      simp only [EStateM.Result.ok.injEq]
      constructor
      · rintro ⟨b', ⟨rfl, rfl⟩, rfl⟩
        exact ⟨rfl, (unread_advance b count).symm⟩
      · rintro ⟨rfl, rfl⟩
        exact ⟨b.advance count, ⟨rfl, rfl⟩, unread_advance b count⟩

/-- A decoder that reads from the unread bytes moves the read position behind what it took. -/
theorem run_of_reads (h : b.WellFormed) {used rest : Bytes} (hunread : b.unread = used ++ rest)
    (hreads : d.Reads (used ++ rest) a rest) : d.run b = .ok a (b.advance used.length) := by
  have hsame := sameRun_run d h
  rw [hunread, show (d.run (used ++ rest) : EStateM.Result Error Bytes α) = .ok a rest from hreads]
    at hsame
  generalize hrest : rest = left at hsame
  generalize (d.run b : EStateM.Result Error Buffer α) = r at hsame
  cases hsame with
  | @ok _ count hcount =>
      have hlength : used.length + rest.length = b.available := by
        rw [← length_unread h, hunread, List.length_append]
      have hleft := congrArg List.length hrest
      rw [List.length_drop, length_unread h] at hleft
      have hused : count = used.length := by omega
      rw [hused]

end SshKeys.Buffer
