/-
**Moving the unread bytes to the start.**

Storage that has been read is won back by moving the unread bytes to the start.  Between the steps
of a program this is never noticed: every step is a function of the unread bytes, and they are the
same before and after.  Within a stretch it is another matter.  A framed write fills its length in
where the room for it was left, and a framed read puts the write position back to where it was;
both are places in the storage, and they are wrong once the bytes have moved.  So nothing may have
been read before the unread bytes are moved within a stretch, for then they do not move.

Main definitions:

* `SshKeys.Session` — programs of writes and reads that move the unread bytes now and then;
* `SshKeys.Session.bare` — the program without these moves;
* `SshKeys.Session.Still` — within a stretch, nothing is moved from its place;
* `SshKeys.Session.MovesBetween` — within a stretch, no move is made;
* `SshKeys.Access.Governs` — what a computation may depend on and may change;
* `SshKeys.Session.Unnoticed` — a program does what the bare program does.

Main results:

* `SshKeys.Session.governs` — a bare program writes only, reads only, or sees the unread bytes only;
* `SshKeys.Session.run_eq_bare` — within a stretch, a program that is still is the bare program;
* `SshKeys.Session.endAlike` — a program that is still ends as the bare program does;
* `SshKeys.Session.unnoticed_writing` — when the right bytes are left by a framed write that moves
  the unread bytes and then writes;
* `SshKeys.Session.compaction_unseen_while_still` — **moving the unread bytes is not noticed as long
  as they stay in place within a stretch**, and is noticed otherwise.
-/

import SshKeys.Proofs.FramedReads
import SshKeys.Proofs.FramedWrites

set_option relaxedAutoImplicit false
set_option autoImplicit false

namespace SshKeys

/-! ### Sessions -/

/-- What the steps of a program may do to a buffer. -/
inductive Access where
  | writes
  | reads
  | both
  deriving DecidableEq

/-- Steps that write are allowed. -/
def Access.canWrite : Access → Bool
  | reads => false
  | _ => true

/-- Steps that read are allowed. -/
def Access.canRead : Access → Bool
  | writes => false
  | _ => true

/-- A program of writes and reads that moves the unread bytes to the start now and then.  Within a
stretch that is framed it only writes, or only reads.  What follows a step is told its outcome. -/
inductive Session : Access → Type → Type 1 where
  /-- Ends with a value. -/
  | done {access : Access} {α : Type} (a : α) : Session access α
  /-- Ends with an error. -/
  | fail {access : Access} {α : Type} (error : Error) : Session access α
  /-- Looks at the unread bytes. -/
  | look {access : Access} {α : Type} (next : Bytes → Session access α) : Session access α
  /-- Moves the unread bytes to the start. -/
  | compact {access : Access} {α : Type} (next : Session access α) : Session access α
  /-- Writes. -/
  | write {access : Access} {α β : Type} (h : access.canWrite = true) (step : Appending β)
      (next : Except Error β → Session access α) : Session access α
  /-- Reads. -/
  | read {access : Access} {α β : Type} (h : access.canRead = true) (step : Reading β)
      (next : Except Error β → Session access α) : Session access α
  /-- Writes behind a length. -/
  | putFramed {access : Access} {α β : Type} (h : access.canWrite = true)
      (body : Session .writes β) (next : Except Error β → Session access α) : Session access α
  /-- Reads within the stretch that a length prefix announces. -/
  | getFramed {access : Access} {α β : Type} (h : access.canRead = true)
      (body : Session .reads β) (next : Except Error β → Session access α) : Session access α

namespace Session

/-- A program on a buffer. -/
def run {access : Access} {α : Type} : Session access α → BufferAction α
  | done a => pure a
  | fail error => throw error
  | look next => fun b => (next b.unread).run b
  | compact next => fun b => next.run b.compact
  | write _ step next => fun b =>
    let (result, b) := outcome (step.run b)
    (next result).run b
  | read _ step next => fun b =>
    let (result, b) := outcome (step.run b)
    (next result).run b
  | putFramed _ body next => fun b =>
    let (result, b) := outcome (Buffer.putFramed body.run b)
    (next result).run b
  | getFramed _ body next => fun b =>
    let (result, b) := outcome (Buffer.getFramed body.run b)
    (next result).run b

/-- The program without moving anything. -/
def bare {access : Access} {α : Type} : Session access α → Session access α
  | done a => done a
  | fail error => fail error
  | look next => look fun bs => (next bs).bare
  | compact next => next.bare
  | write h step next => write h step fun result => (next result).bare
  | read h step next => read h step fun result => (next result).bare
  | putFramed h body next => putFramed h body.bare fun result => (next result).bare
  | getFramed h body next => getFramed h body.bare fun result => (next result).bare

/-- Nothing is moved from its place within a stretch when the program runs on a buffer: whenever the
unread bytes are to be moved there, they are at the start. -/
def Still {access : Access} {α : Type} : Session access α → Buffer → Prop
  | done _, _ => True
  | fail _, _ => True
  | look next, b => (next b.unread).Still b
  | compact next, b => (access = .both ∨ b.readPos = 0) ∧ next.Still b.compact
  | write _ step next, b => (next (outcome (step.run b)).1).Still (outcome (step.run b)).2
  | read _ step next, b => (next (outcome (step.run b)).1).Still (outcome (step.run b)).2
  | putFramed _ body next, b =>
    body.Still (b.append (bigEndian 4 0)) ∧
      (next (outcome (Buffer.putFramed body.run b)).1).Still
        (outcome (Buffer.putFramed body.run b)).2
  | getFramed _ body next, b =>
    (∀ count b', Buffer.get Decoder.length b = .ok count b' → count ≤ b'.available →
        body.Still (b'.narrow count)) ∧
      (next (outcome (Buffer.getFramed body.run b)).1).Still
        (outcome (Buffer.getFramed body.run b)).2

/-- The unread bytes are moved between the steps of the program, and never within a stretch. -/
def MovesBetween {access : Access} {α : Type} : Session access α → Prop
  | done _ => True
  | fail _ => True
  | look next => ∀ bs, (next bs).MovesBetween
  | compact next => access = .both ∧ next.MovesBetween
  | write _ _ next => ∀ result, (next result).MovesBetween
  | read _ _ next => ∀ result, (next result).MovesBetween
  | putFramed _ body next => body.MovesBetween ∧ ∀ result, (next result).MovesBetween
  | getFramed _ body next => body.MovesBetween ∧ ∀ result, (next result).MovesBetween

theorem MovesBetween.still {access : Access} {α : Type} {p : Session access α}
    (h : p.MovesBetween) (b : Buffer) : p.Still b := by
  induction p generalizing b with
  | done a => trivial
  | fail error => trivial
  | look next ih => exact ih _ (h _) b
  | compact next ih => exact ⟨.inl h.1, ih h.2 _⟩
  | write hwrite step next ih => exact ih _ (h _) _
  | read hread step next ih => exact ih _ (h _) _
  | putFramed hwrite body next ihbody ihnext => exact ⟨ihbody h.1 _, ihnext _ (h.2 _) _⟩
  | getFramed hread body next ihbody ihnext =>
      exact ⟨fun _ _ _ _ => ihbody h.1 _, ihnext _ (h.2 _) _⟩

end Session

namespace Buffer

variable {α β : Type}

/-! ### Computations that only write -/

/-- A computation whose result and whose writes are a function of the unread bytes. -/
def OnlyWrites (x : BufferAction α) : Prop :=
  ∀ unread : Bytes, ∃ result bs, ∀ b : Buffer, b.WellFormed → b.unread = unread →
    ∃ b', outcome (x b) = (result, b') ∧ b.Extends b' bs

/-- A computation that adds the same bytes everywhere. -/
theorem Adds.onlyWrites {x : BufferAction α} {result : Except Error α} {bs : Bytes}
    (hx : Adds x result bs) : OnlyWrites x :=
  fun _ => ⟨result, bs, fun b h _ => hx b h⟩

/-- What follows a computation of writes, whatever its outcome is. -/
theorem OnlyWrites.followed {x : BufferAction β} {next : Except Error β → BufferAction α}
    (hx : OnlyWrites x) (hnext : ∀ result, OnlyWrites (next result)) :
    OnlyWrites fun b => next (outcome (x b)).1 (outcome (x b)).2 := by
  intro unread
  obtain ⟨first, bs, hfirst⟩ := hx unread
  obtain ⟨result, more, hresult⟩ := hnext first (unread ++ bs)
  refine ⟨result, bs ++ more, fun b h hunread => ?_⟩
  obtain ⟨b', hrun, hextends⟩ := hfirst b h hunread
  have hunread' : b'.unread = unread ++ bs := by rw [hextends.unread h, hunread]
  obtain ⟨b'', hrun', hextends'⟩ := hresult b' (hextends.wellFormed h) hunread'
  refine ⟨b'', ?_, hextends.trans hextends'⟩
  change outcome (next (outcome (x b)).1 (outcome (x b)).2) = _
  rw [hrun, hrun']

/-- Writing behind a length is writing. -/
theorem OnlyWrites.putFramed {body : BufferAction α} (hbody : OnlyWrites body) :
    OnlyWrites (Buffer.putFramed body) := by
  intro unread
  obtain ⟨result, bs, hrun⟩ := hbody (unread ++ bigEndian 4 0)
  refine ⟨framedVerdict result bs, framedBytes result bs, fun b h hunread => ?_⟩
  have hroom := extends_append h (bigEndian 4 0)
  have hunread' : (b.append (bigEndian 4 0)).unread = unread ++ bigEndian 4 0 := by
    rw [hroom.unread h, hunread]
  obtain ⟨ended, hended, hextends⟩ := hrun _ (hroom.wellFormed h) hunread'
  exact putFramed_extends h hended hextends

/-! ### Buffers that resemble each other -/

/-- Two buffers of which the same bytes are unread. -/
structure Resembles (b b₀ : Buffer) : Prop where
  wellFormed : b.WellFormed
  wellFormed₀ : b₀.WellFormed
  unread_eq : b.unread = b₀.unread

theorem WellFormed.resembles_self {b : Buffer} (h : b.WellFormed) : b.Resembles b := ⟨h, h, rfl⟩

/-- Nobody who sees the unread bytes only sees them move. -/
theorem Resembles.compact {b b₀ : Buffer} (h : b.Resembles b₀) : b.compact.Resembles b₀ where
  wellFormed := h.wellFormed.compact
  wellFormed₀ := h.wellFormed₀
  unread_eq := (unread_compact h.wellFormed).trans h.unread_eq

/-- Two runs end alike: in the same way, with the same bytes unread. -/
structure EndAlike (r r₀ : Except Error α × Buffer) : Prop where
  result_eq : r.1 = r₀.1
  resembles : r.2.Resembles r₀.2

/-- A computation whose result is a function of the unread bytes, and so are the unread bytes in the
end. -/
def SeesUnread (x : BufferAction α) : Prop :=
  ∀ b b₀ : Buffer, b.Resembles b₀ → EndAlike (outcome (x b)) (outcome (x b₀))

/-- A computation that sees the unread bytes only leaves the positions in order. -/
theorem SeesUnread.wellFormed {x : BufferAction α} (hx : SeesUnread x) {b : Buffer}
    (h : b.WellFormed) : (outcome (x b)).2.WellFormed :=
  (hx b b h.resembles_self).resembles.wellFormed

theorem OnlyWrites.seesUnread {x : BufferAction α} (hx : OnlyWrites x) : SeesUnread x := by
  intro b b₀ h
  obtain ⟨result, bs, hrun⟩ := hx b₀.unread
  obtain ⟨b', hended, hextends⟩ := hrun b h.wellFormed h.unread_eq
  obtain ⟨b₀', hended₀, hextends₀⟩ := hrun b₀ h.wellFormed₀ rfl
  rw [hended, hended₀]
  refine ⟨rfl, hextends.wellFormed h.wellFormed, hextends₀.wellFormed h.wellFormed₀, ?_⟩
  change b'.unread = b₀'.unread
  rw [hextends.unread h.wellFormed, hextends₀.unread h.wellFormed₀, h.unread_eq]

theorem OnlyReads.seesUnread {x : BufferAction α} (hx : OnlyReads x) : SeesUnread x := by
  intro b b₀ h
  obtain ⟨result, count, hcount, hrun⟩ := hx b₀.unread
  have hcount₀ : count ≤ b₀.available := by rwa [← length_unread h.wellFormed₀]
  rw [← h.unread_eq, length_unread h.wellFormed] at hcount
  rw [hrun b h.wellFormed h.unread_eq, hrun b₀ h.wellFormed₀ rfl]
  refine ⟨rfl, h.wellFormed.advance hcount, h.wellFormed₀.advance hcount₀, ?_⟩
  change (b.advance count).unread = (b₀.advance count).unread
  rw [unread_advance, unread_advance, h.unread_eq]

theorem SeesUnread.followed {x : BufferAction β} {next : Except Error β → BufferAction α}
    (hx : SeesUnread x) (hnext : ∀ result, SeesUnread (next result)) :
    SeesUnread fun b => next (outcome (x b)).1 (outcome (x b)).2 := by
  intro b b₀ h
  have hfirst := hx b b₀ h
  change EndAlike (outcome (next (outcome (x b)).1 (outcome (x b)).2)) _
  rw [hfirst.result_eq]
  exact hnext _ _ _ hfirst.resembles

end Buffer

/-! ### What a computation depends on -/

namespace Access

variable {α β : Type} {access : Access}

/-- A computation depends on the unread bytes only, and changes no more than it may: it extends the
buffer, or it moves the read position, or it does whatever looks the same on all buffers with the
same bytes unread. -/
def Governs : Access → BufferAction α → Prop
  | writes, x => Buffer.OnlyWrites x
  | reads, x => Buffer.OnlyReads x
  | both, x => Buffer.SeesUnread x

theorem governs_of_onlyWrites (h : access.canWrite = true) {x : BufferAction α}
    (hx : Buffer.OnlyWrites x) : access.Governs x := by
  cases access with
  | writes => exact hx
  | reads => cases h
  | both => exact hx.seesUnread

theorem governs_of_onlyReads (h : access.canRead = true) {x : BufferAction α}
    (hx : Buffer.OnlyReads x) : access.Governs x := by
  cases access with
  | writes => cases h
  | reads => exact hx
  | both => exact hx.seesUnread

/-- A computation that ends at once is both a computation of writes and a reading. -/
theorem governs_pure (a : α) : access.Governs (pure a) := by
  cases access with
  | reads => exact Buffer.onlyReads_pure a
  | _ => exact governs_of_onlyWrites rfl (Buffer.adds_pure a).onlyWrites

theorem governs_throw (error : Error) : access.Governs (throw error : BufferAction α) := by
  cases access with
  | reads => exact Buffer.onlyReads_throw error
  | _ => exact governs_of_onlyWrites rfl (Buffer.adds_throw error).onlyWrites

/-- What follows a look at the unread bytes. -/
theorem governs_look {next : Bytes → BufferAction α} (hnext : ∀ bs, access.Governs (next bs)) :
    access.Governs fun b => next b.unread b := by
  cases access with
  | writes =>
      intro unread
      obtain ⟨result, bs, hrun⟩ := hnext unread unread
      exact ⟨result, bs, fun b h hunread => by simpa only [hunread] using hrun b h hunread⟩
  | reads =>
      intro unread
      obtain ⟨result, count, hcount, hrun⟩ := hnext unread unread
      exact ⟨result, count, hcount,
        fun b h hunread => by simpa only [hunread] using hrun b h hunread⟩
  | both =>
      intro b b₀ h
      change Buffer.EndAlike (outcome (next b.unread b)) _
      rw [h.unread_eq]
      exact hnext _ b b₀ h

/-- What follows a step, whatever its outcome is. -/
theorem Governs.followed {x : BufferAction β} {next : Except Error β → BufferAction α}
    (hx : access.Governs x) (hnext : ∀ result, access.Governs (next result)) :
    access.Governs fun b => next (outcome (x b)).1 (outcome (x b)).2 := by
  cases access with
  | writes => exact Buffer.OnlyWrites.followed hx hnext
  | reads => exact Buffer.OnlyReads.followed hx hnext
  | both => exact Buffer.SeesUnread.followed hx hnext

end Access

namespace Session

variable {access : Access} {α : Type}

/-- A program that moves nothing does what it may and depends on the unread bytes only.  The
induction is on the program; within a stretch that is written it only writes, and within a stretch
that is read it only reads. -/
theorem governs (p : Session access α) : access.Governs p.bare.run := by
  induction p with
  | done a => exact Access.governs_pure a
  | fail error => exact Access.governs_throw error
  | look next ih => exact Access.governs_look ih
  | compact next ih => exact ih
  | write h step next ih =>
      exact (Access.governs_of_onlyWrites h step.adds.onlyWrites).followed ih
  | read h step next ih => exact (Access.governs_of_onlyReads h step.onlyReads).followed ih
  | putFramed h body next ihbody ihnext =>
      exact (Access.governs_of_onlyWrites h (Buffer.OnlyWrites.putFramed ihbody)).followed ihnext
  | getFramed h body next ihbody ihnext =>
      exact (Access.governs_of_onlyReads h (Buffer.OnlyReads.getFramed ihbody)).followed ihnext

end Session

/-! ### Within a stretch -/

namespace Buffer

variable {α : Type} {x y : BufferAction α} {b : Buffer}

/-- Bytes at the start do not move. -/
theorem compact_of_readPos_eq_zero (h : b.WellFormed) (hread : b.readPos = 0) : b.compact = b := by
  have hlength := length_unread h
  have hunread : b.unread = b.storage.take b.available := by
    rw [Buffer.unread, hread, List.drop_zero]
  have havailable : b.available = b.writePos := by
    rw [available, hread, Nat.sub_zero]
  have hstorage : overwrite b.storage 0 b.unread = b.storage := by
    rw [overwrite, hlength, Nat.zero_add, List.take_zero, List.nil_append, hunread,
      List.take_append_drop]
  rw [compact, hstorage, havailable, ← hread]

/-- A framed write depends on what is done behind the room for the length. -/
theorem putFramed_congr (h : x (b.append (bigEndian 4 0)) = y (b.append (bigEndian 4 0))) :
    putFramed x b = putFramed y b := by
  rw [putFramed, putFramed, h]

/-- A framed read depends on what is done with the stretch. -/
theorem getFramed_congr
    (h : ∀ count b', get Decoder.length b = .ok count b' → count ≤ b'.available →
      x (b'.narrow count) = y (b'.narrow count)) : getFramed x b = getFramed y b := by
  rw [getFramed, getFramed, bind_apply, bind_apply]
  cases hlength : get Decoder.length b with
  | error error b' => rfl
  | ok count b' =>
      by_cases hroom : count ≤ b'.available
      · simp only [confine, ensureAvailable, if_pos hroom]
        rw [narrow_eq, h count b' hlength hroom]
      · simp only [confine, ensureAvailable, if_neg hroom]

/-- The stretch behind a length that has been read. -/
theorem WellFormed.stretch (h : b.WellFormed) {count : Nat} {b' : Buffer}
    (hlength : get Decoder.length b = .ok count b') (hroom : count ≤ b'.available) :
    (b'.narrow count).WellFormed := by
  have hbehind := (onlyReads_get Decoder.length).seesUnread.wellFormed h
  rw [hlength] at hbehind
  exact hbehind.narrow hroom

end Buffer

namespace Session

variable {access : Access} {α : Type} {b : Buffer}

/-- Within a stretch, a program that is still is the bare program.  The induction is on the program,
and the buffer stays well-formed by what the bare program does. -/
theorem run_eq_bare (p : Session access α) (hwithin : access ≠ .both) (h : b.WellFormed)
    (hstill : p.Still b) : p.run b = p.bare.run b := by
  induction p generalizing b with
  | done a => rfl
  | fail error => rfl
  | look next ih => exact ih _ hwithin h hstill
  | compact next ih =>
      obtain ⟨hplace, hnext⟩ := hstill
      have hkept := Buffer.compact_of_readPos_eq_zero h (hplace.resolve_left hwithin)
      rw [hkept] at hnext
      change next.run b.compact = next.bare.run b
      rw [hkept]
      exact ih hwithin h hnext
  | write hwrite step next ih =>
      exact ih _ hwithin (step.adds.onlyWrites.seesUnread.wellFormed h) hstill
  | read hread step next ih =>
      exact ih _ hwithin (step.onlyReads.seesUnread.wellFormed h) hstill
  | putFramed hwrite body next ihbody ihnext =>
      obtain ⟨hbody, hnext⟩ := hstill
      have hroom := (Buffer.extends_append h (bigEndian 4 0)).wellFormed h
      have hframed : Buffer.putFramed body.run b = Buffer.putFramed body.bare.run b :=
        Buffer.putFramed_congr (ihbody (by decide) hroom hbody)
      have hended := (Buffer.OnlyWrites.putFramed body.governs).seesUnread.wellFormed h
      rw [hframed] at hnext
      simp only [run, bare, hframed]
      exact ihnext _ hwithin hended hnext
  | getFramed hread body next ihbody ihnext =>
      obtain ⟨hbody, hnext⟩ := hstill
      have hframed : Buffer.getFramed body.run b = Buffer.getFramed body.bare.run b :=
        Buffer.getFramed_congr fun count b' hlength hroom =>
          ihbody (by decide) (h.stretch hlength hroom) (hbody count b' hlength hroom)
      have hended := (Buffer.OnlyReads.getFramed body.governs).seesUnread.wellFormed h
      rw [hframed] at hnext
      simp only [run, bare, hframed]
      exact ihnext _ hwithin hended hnext

/-- A framed write whose bytes stay in place is the bare one. -/
theorem putFramed_eq_bare {body : Session .writes α} (h : b.WellFormed)
    (hbody : body.Still (b.append (bigEndian 4 0))) :
    Buffer.putFramed body.run b = Buffer.putFramed body.bare.run b :=
  Buffer.putFramed_congr
    (run_eq_bare body (by decide) ((Buffer.extends_append h _).wellFormed h) hbody)

/-- A framed read whose bytes stay in place is the bare one. -/
theorem getFramed_eq_bare {body : Session .reads α} (h : b.WellFormed)
    (hbody : ∀ count b', Buffer.get Decoder.length b = .ok count b' → count ≤ b'.available →
      body.Still (b'.narrow count)) :
    Buffer.getFramed body.run b = Buffer.getFramed body.bare.run b :=
  Buffer.getFramed_congr fun count b' hlength hroom =>
    run_eq_bare body (by decide) (h.stretch hlength hroom) (hbody count b' hlength hroom)

/-- **A program that is still ends as the bare program does**, on any two buffers of which the same
bytes are unread: between the steps of both, the same bytes are unread. -/
theorem endAlike (p : Session access α) {b b₀ : Buffer} (h : b.Resembles b₀) (hstill : p.Still b) :
    Buffer.EndAlike (outcome (p.run b)) (outcome (p.bare.run b₀)) := by
  induction p generalizing b b₀ with
  | done a => exact ⟨rfl, h⟩
  | fail error => exact ⟨rfl, h⟩
  | look next ih =>
      change Buffer.EndAlike _ (outcome ((next b₀.unread).bare.run b₀))
      rw [← h.unread_eq]
      exact ih _ h hstill
  | compact next ih => exact ih h.compact hstill.2
  | write hwrite step next ih =>
      have hstep := step.adds.onlyWrites.seesUnread b b₀ h
      simp only [bare, run, ← hstep.result_eq]
      exact ih _ hstep.resembles hstill
  | read hread step next ih =>
      have hstep := step.onlyReads.seesUnread b b₀ h
      simp only [bare, run, ← hstep.result_eq]
      exact ih _ hstep.resembles hstill
  | putFramed hwrite body next ihbody ihnext =>
      obtain ⟨hbody, hnext⟩ := hstill
      have hstep := (Buffer.OnlyWrites.putFramed body.governs).seesUnread b b₀ h
      rw [putFramed_eq_bare h.wellFormed hbody] at hnext
      simp only [bare, run, putFramed_eq_bare h.wellFormed hbody, ← hstep.result_eq]
      exact ihnext _ hstep.resembles hnext
  | getFramed hread body next ihbody ihnext =>
      obtain ⟨hbody, hnext⟩ := hstill
      have hstep := (Buffer.OnlyReads.getFramed body.governs).seesUnread b b₀ h
      rw [getFramed_eq_bare h.wellFormed hbody] at hnext
      simp only [bare, run, getFramed_eq_bare h.wellFormed hbody, ← hstep.result_eq]
      exact ihnext _ hstep.resembles hnext

end Session

/-! ### Places in the storage -/

/-- The bytes in front spell no more than all of them. -/
theorem natOfBytes_take_le (count : Nat) (bs : Bytes) :
    natOfBytes (bs.take count) ≤ natOfBytes bs :=
  calc natOfBytes (bs.take count)
      ≤ natOfBytes (bs.take count) * 256 ^ (bs.drop count).length :=
        Nat.le_mul_of_pos_right _ (Nat.pow_pos (by decide))
    _ ≤ natOfBytes (bs.take count) * 256 ^ (bs.drop count).length + natOfBytes (bs.drop count) :=
        Nat.le_add_right _ _
    _ = natOfBytes bs := by rw [← natOfBytes_append, List.take_append_drop]

namespace Buffer

variable {α : Type} {b : Buffer}

/-- With the read position at the start, as many bytes are unread as stand before the write
position. -/
theorem length_unread_of_readPos_eq_zero (hread : b.readPos = 0) {pos : Nat}
    (hpos : pos ≤ b.capacity) : ({ b with writePos := pos } : Buffer).unread.length = pos := by
  have hordered : ({ b with writePos := pos } : Buffer).WellFormed :=
    ⟨Nat.le_trans (Nat.le_of_eq hread) (Nat.zero_le pos), hpos⟩
  rw [length_unread hordered, available, hread]
  exact Nat.sub_zero pos

/-- If a write position goes back to where it was before the unread bytes were moved, then there are
as many unread bytes as there were bytes in front of it. -/
theorem length_unread_moved (h : b.WellFormed) {pos : Nat} (hpos : pos ≤ b.capacity) :
    ({ b.compact with writePos := pos } : Buffer).unread.length = pos :=
  length_unread_of_readPos_eq_zero rfl (Nat.le_trans hpos (Nat.le_of_eq (capacity_compact h).symm))

/-- A length that is filled in among the unread bytes, when these are at the start. -/
theorem unread_fillLength (h : b.WellFormed) (hread : b.readPos = 0) {start : Nat}
    (hroom : start + 4 ≤ b.writePos) (hcount : b.writePos - start - 4 ≤ maxLength) (a : α) :
    ∃ b', fillLength start a b = .ok a b' ∧
      b'.unread = overwrite b.unread start (bigEndian 4 (b.writePos - start - 4)) := by
  refine ⟨_, fillLength_of_le a hroom h.2 hcount, ?_⟩
  rw [unread_eq_drop, unread_eq_drop, hread, List.drop_zero, List.drop_zero]
  exact take_overwrite (by rw [length_bigEndian]; exact hroom) h.2

/-- A number that is put over a zero, but too far behind, leaves no more than the number there. -/
theorem natOfBytes_overwrite_le (front bs : Bytes) (offset n : Nat) :
    natOfBytes (((overwrite (front ++ bigEndian 4 0 ++ bs) (front.length + offset)
      (bigEndian 4 n)).drop front.length).take 4) ≤ n := by
  rw [overwrite, List.append_assoc front, List.take_length_add_append, List.append_assoc,
    List.append_assoc, List.drop_left]
  by_cases hoffset : offset ≤ 4
  · -- zeros up to the offset, and then the number as far as there is room
    have hzero : natOfBytes ((bigEndian 4 0).take offset) = 0 :=
      Nat.le_zero.1 (natOfBytes_take_le offset (bigEndian 4 0))
    have hlength : ((bigEndian 4 0).take offset).length = offset :=
      List.length_take_of_le (by rw [length_bigEndian]; exact hoffset)
    have hzeros : (bigEndian 4 0 ++ bs).take offset = (bigEndian 4 0).take offset :=
      List.take_append_of_le_length (by rw [length_bigEndian]; exact hoffset)
    rw [hzeros, List.take_append, hlength, List.take_of_length_le (by omega), natOfBytes_append,
      hzero, Nat.zero_mul, Nat.zero_add,
      List.take_append_of_le_length (by rw [length_bigEndian]; omega)]
    calc natOfBytes ((bigEndian 4 n).take (4 - offset))
        ≤ natOfBytes (bigEndian 4 n) := natOfBytes_take_le _ _
      _ = n % 256 ^ 4 := natOfBytes_bigEndian 4 n
      _ ≤ n := Nat.mod_le _ _
  · -- the zero is still there
    have hroom : 4 ≤ ((bigEndian 4 0 ++ bs).take offset).length := by
      rw [List.length_take, List.length_append, length_bigEndian]
      omega
    have hkept : (bigEndian 4 0 ++ bs).take 4 = bigEndian 4 0 :=
      List.take_left' (length_bigEndian 4 0)
    rw [List.take_append_of_le_length hroom, List.take_take, Nat.min_eq_left (by omega), hkept]
    exact Nat.zero_le n

end Buffer

namespace Session

variable {access : Access} {α : Type} {b : Buffer}

/-! ### What is moved out of its place -/

/-- A program on a buffer ends in the same way without moving anything, and with the same bytes
unread. -/
def Unnoticed (p : Session access α) (b : Buffer) : Prop :=
  (outcome (p.run b)).1 = (outcome (p.bare.run b)).1 ∧
    (outcome (p.run b)).2.unread = (outcome (p.bare.run b)).2.unread

/-- A framed write whose outcome does not matter. -/
def behindLength (body : Session .writes α) : Session .both Unit :=
  putFramed rfl body fun _ => done ()

/-- A framed read whose outcome does not matter. -/
def withinLength (body : Session .reads α) : Session .both Unit :=
  getFramed rfl body fun _ => done ()

/-- A stretch that moves the unread bytes and fails. -/
def failing (access : Access) (error : Error) : Session access Unit := compact (fail error)

/-- A stretch that moves the unread bytes and writes some. -/
def writing (bs : Bytes) : Session .writes Unit :=
  compact (write rfl (.append bs (.done ())) fun _ => done ())

/-- A program that is still is not noticed. -/
theorem Still.unnoticed {p : Session access α} (hstill : p.Still b) (h : b.WellFormed) :
    p.Unnoticed b := by
  have hended := p.endAlike h.resembles_self hstill
  exact ⟨hended.result_eq, hended.resembles.unread_eq⟩

/-- A framed write that moves the unread bytes first is not noticed if nothing had been read. -/
theorem unnoticed_of_readPos_eq_zero {next : Session .writes α} (h : b.WellFormed)
    (hread : b.readPos = 0) (hnext : ∀ b, next.Still b) :
    (behindLength (compact next)).Unnoticed b := by
  have hplace : (b.append (bigEndian 4 0)).readPos = 0 :=
    (Buffer.extends_append h (bigEndian 4 0)).readPos_eq.trans hread
  have hstill : (behindLength (compact next)).Still b := ⟨⟨.inr hplace, hnext _⟩, trivial⟩
  exact hstill.unnoticed h

/-- A framed write that moves the unread bytes and fails is undone if nothing had been read, and not
otherwise. -/
theorem unnoticed_failing_write (h : b.WellFormed) (error : Error) :
    (behindLength (failing .writes error)).Unnoticed b ↔ b.readPos = 0 := by
  constructor
  · rintro ⟨-, hsame⟩
    have hroom := Buffer.extends_append h (bigEndian 4 0)
    have hmoved : (outcome ((behindLength (failing .writes error)).run b)).2.unread.length =
        b.writePos :=
      Buffer.length_unread_moved (hroom.wellFormed h) (Nat.le_trans h.2 hroom.capacity_le)
    have hundone : (outcome ((behindLength (failing .writes error)).bare.run b)).2.unread =
        b.unread ++ [] := (hroom.undo h).unread h
    rw [hsame, hundone, List.append_nil, Buffer.length_unread h, Buffer.available] at hmoved
    have hread := h.1
    omega
  · intro hread
    exact unnoticed_of_readPos_eq_zero h hread fun _ => trivial

/-- A framed read that moves the unread bytes and fails brings bytes into view that had been read,
the length among them. -/
theorem not_unnoticed_failing_read (h : b.WellFormed) (error : Error) {stretch tail : Bytes}
    (hfits : Fits stretch) (hunread : b.unread = prefixed stretch ++ tail) :
    ¬(withinLength (failing .reads error)).Unnoticed b := by
  have havailable := Buffer.length_unread h
  rw [hunread, List.length_append, length_prefixed] at havailable
  have hbehind : (b.advance 4).WellFormed := h.advance (by omega)
  have hroom : stretch.length ≤ (b.advance 4).available := by
    rw [Buffer.available_advance]
    omega
  have hframed (body : Session .reads Unit) :
      (outcome ((withinLength body).run b)).2 =
        (outcome (Buffer.confine stretch.length body.run (b.advance 4))).2 := by
    rw [← Buffer.getFramed_of_unread h hfits hunread]
    rfl
  have hmoved : (outcome ((withinLength (failing .reads error)).run b)).2.unread.length =
      b.writePos := by
    rw [hframed, Buffer.confine, Buffer.ensureAvailable, if_pos hroom]
    exact Buffer.length_unread_moved (hbehind.narrow hroom) h.2
  have hkept : (outcome ((withinLength (failing .reads error)).bare.run b)).2.unread =
      (b.advance 4).unread := by
    change (outcome ((withinLength (failing .reads error).bare).run b)).2.unread = _
    rw [hframed, Buffer.confine, Buffer.ensureAvailable, if_pos hroom]
    rfl
  rintro ⟨-, hsame⟩
  rw [hsame, hkept, Buffer.unread_advance, List.length_drop, Buffer.length_unread h,
    Buffer.available] at hmoved
  rw [Buffer.available] at havailable
  omega

/-! ### Lengths in the wrong place -/

/-- A buffer on which a framed write has moved the unread bytes and written some, and its length is
still to be filled in. -/
def unfilled (b : Buffer) (bs : Bytes) : Buffer := (b.append (bigEndian 4 0)).compact.append bs

theorem putFramed_writing (b : Buffer) (bs : Bytes) :
    Buffer.putFramed (writing bs).run b = Buffer.fillLength b.writePos () (unfilled b bs) := rfl

theorem wellFormed_moved (h : b.WellFormed) : (b.append (bigEndian 4 0)).compact.WellFormed :=
  ((Buffer.extends_append h _).wellFormed h).compact

theorem extends_unfilled (h : b.WellFormed) (bs : Bytes) :
    (b.append (bigEndian 4 0)).compact.Extends (unfilled b bs) bs :=
  Buffer.extends_append (wellFormed_moved h) bs

theorem wellFormed_unfilled (h : b.WellFormed) (bs : Bytes) : (unfilled b bs).WellFormed :=
  (extends_unfilled h bs).wellFormed (wellFormed_moved h)

theorem unread_unfilled (h : b.WellFormed) (bs : Bytes) :
    (unfilled b bs).unread = b.unread ++ bigEndian 4 0 ++ bs := by
  have hroom := Buffer.extends_append h (bigEndian 4 0)
  rw [(extends_unfilled h bs).unread (wellFormed_moved h),
    Buffer.unread_compact (hroom.wellFormed h), hroom.unread h]

/-- The bytes that had been read are missing in front. -/
theorem writePos_unfilled (h : b.WellFormed) (bs : Bytes) :
    (unfilled b bs).writePos = b.writePos - b.readPos + 4 + bs.length := by
  have hlength := Buffer.length_unread (wellFormed_unfilled h bs)
  rw [unread_unfilled h, List.length_append, List.length_append, length_bigEndian,
    Buffer.length_unread h] at hlength
  exact hlength.symm

theorem writePos_le_capacity_unfilled (h : b.WellFormed) (bs : Bytes) :
    b.writePos ≤ (unfilled b bs).capacity := by
  have hroom := Buffer.extends_append h (bigEndian 4 0)
  have hmoved := Buffer.capacity_compact (hroom.wellFormed h)
  calc b.writePos
      ≤ b.capacity := h.2
    _ ≤ (b.append (bigEndian 4 0)).capacity := hroom.capacity_le
    _ = (b.append (bigEndian 4 0)).compact.capacity := hmoved.symm
    _ ≤ (unfilled b bs).capacity := (extends_unfilled h bs).capacity_le

/-- A framed write that moves the unread bytes and then writes as many as had been read, or more,
fills the length in as far behind its room as bytes had been read, and takes as much off it. -/
theorem unread_writing (h : b.WellFormed) {bs : Bytes} (hfits : Fits bs)
    (hlong : b.readPos ≤ bs.length) :
    ∃ b', Buffer.putFramed (writing bs).run b = .ok () b' ∧
      b'.unread = Buffer.overwrite (b.unread ++ bigEndian 4 0 ++ bs) (b.unread.length + b.readPos)
        (bigEndian 4 (bs.length - b.readPos)) := by
  have hread := h.1
  have hmax : bs.length ≤ maxLength := hfits
  have hend := writePos_unfilled h bs
  have hcount : (unfilled b bs).writePos - b.writePos - 4 = bs.length - b.readPos := by omega
  have hstart : b.unread.length + b.readPos = b.writePos := by
    rw [Buffer.length_unread h, Buffer.available]
    omega
  rw [putFramed_writing, hstart, ← unread_unfilled h, ← hcount]
  exact Buffer.unread_fillLength (wellFormed_unfilled h bs) rfl (by omega) (by omega) ()

/-- A framed write that moves the unread bytes and then writes fewer than had been read has no
length to fill in. -/
theorem putFramed_writing_of_lt (h : b.WellFormed) {bs : Bytes} (hshort : bs.length < b.readPos) :
    Buffer.putFramed (writing bs).run b =
      .error (.wire .overflow) { unfilled b bs with writePos := b.writePos } := by
  have hread := h.1
  have hend := writePos_unfilled h bs
  rw [putFramed_writing, Buffer.fillLength, if_pos (by omega)]

/-- A framed write that moves the unread bytes and then writes succeeds if it writes as many bytes
as had been read, or more. -/
theorem putFramed_writing_eq_ok_iff (h : b.WellFormed) {bs : Bytes} (hfits : Fits bs) :
    (∃ b', Buffer.putFramed (writing bs).run b = .ok () b') ↔ b.readPos ≤ bs.length := by
  constructor
  · rintro ⟨b', hput⟩
    refine Nat.le_of_not_lt fun hshort => ?_
    rw [putFramed_writing_of_lt h hshort] at hput
    cases hput
  · intro hlong
    obtain ⟨b', hput, -⟩ := unread_writing h hfits hlong
    exact ⟨b', hput⟩

/-- A length that fits is read back from its four bytes. -/
theorem natOfBytes_length {bs : Bytes} (hfits : Fits bs) :
    natOfBytes (bigEndian 4 bs.length) = bs.length := by
  rw [natOfBytes_bigEndian]
  exact Nat.mod_eq_of_lt (Nat.lt_trans (fits_iff.1 hfits) (by decide))

/-- Without the move, the bytes stand behind their length. -/
theorem unread_bare_writing (h : b.WellFormed) {bs : Bytes} (hfits : Fits bs) :
    (outcome ((behindLength (writing bs)).bare.run b)).2.unread =
      b.unread ++ bigEndian 4 bs.length ++ bs := by
  have hadds : Buffer.Adds (writing bs).bare.run (.ok ()) bs :=
    fun b h => ⟨b.append bs, rfl, Buffer.extends_append h bs⟩
  obtain ⟨kept, hput, -, hkept⟩ := hadds.putFramed_of_fits hfits h
  have hended : (outcome ((behindLength (writing bs)).bare.run b)).2 = kept :=
    congrArg (fun r => (outcome r).2) hput
  rw [hended, hkept]

/-- Behind enough bytes, where the length belongs, the bytes spell too little unless nothing had
been read. -/
theorem unnoticed_writing_of_le (h : b.WellFormed) {bs : Bytes} (hfits : Fits bs)
    (hlong : b.readPos ≤ bs.length) :
    (behindLength (writing bs)).Unnoticed b ↔ b.readPos = 0 := by
  constructor
  · rintro ⟨-, hsame⟩
    obtain ⟨moved, hput, hmoved⟩ := unread_writing h hfits hlong
    have hended : (outcome ((behindLength (writing bs)).run b)).2 = moved :=
      congrArg (fun r => (outcome r).2) hput
    rw [hended, hmoved, unread_bare_writing h hfits] at hsame
    have hspelled := Buffer.natOfBytes_overwrite_le b.unread bs b.readPos (bs.length - b.readPos)
    rw [hsame, List.append_assoc, List.drop_left, List.take_left' (length_bigEndian 4 _),
      natOfBytes_length hfits] at hspelled
    omega
  · intro hread
    exact unnoticed_of_readPos_eq_zero h hread fun _ => trivial

/-- Behind too few bytes the write position goes back to where it was, which is another place among
the bytes now unless four more had been read than are written; and then the zero stands where the
length belongs. -/
theorem unnoticed_writing_of_lt (h : b.WellFormed) {bs : Bytes} (hfits : Fits bs)
    (hshort : bs.length < b.readPos) :
    (behindLength (writing bs)).Unnoticed b ↔ b.readPos = 4 ∧ bs = [] := by
  have hread := h.1
  have hend := writePos_unfilled h bs
  have hended : (outcome ((behindLength (writing bs)).run b)).2 =
      { unfilled b bs with writePos := b.writePos } :=
    congrArg (fun r => (outcome r).2) (putFramed_writing_of_lt h hshort)
  have hplace (hfour : b.readPos = bs.length + 4) :
      ({ unfilled b bs with writePos := b.writePos } : Buffer).unread =
        b.unread ++ bigEndian 4 0 ++ bs := by
    have hback : b.writePos = (unfilled b bs).writePos := by omega
    rw [hback]
    exact unread_unfilled h bs
  rw [Unnoticed, hended, unread_bare_writing h hfits]
  constructor
  · rintro ⟨-, hsame⟩
    have hlength := Buffer.length_unread_of_readPos_eq_zero (b := unfilled b bs) rfl
      (writePos_le_capacity_unfilled h bs)
    rw [hsame, List.length_append, List.length_append, length_bigEndian, Buffer.length_unread h,
      Buffer.available] at hlength
    have hfour : b.readPos = bs.length + 4 := by omega
    rw [hplace hfour, List.append_left_inj, List.append_cancel_left_eq] at hsame
    have hspelled := congrArg natOfBytes hsame
    rw [natOfBytes_length hfits, natOfBytes_bigEndian, Nat.zero_mod] at hspelled
    obtain rfl : bs = [] := List.length_eq_zero_iff.1 hspelled.symm
    exact ⟨hfour, rfl⟩
  · rintro ⟨hfour, rfl⟩
    exact ⟨rfl, hplace hfour⟩

/-- A framed write that moves the unread bytes and then writes leaves the right bytes if nothing had
been read, and not otherwise, but for the one case in which it fails and nobody sees it. -/
theorem unnoticed_writing (h : b.WellFormed) {bs : Bytes} (hfits : Fits bs) :
    (behindLength (writing bs)).Unnoticed b ↔ b.readPos = 0 ∨ b.readPos = 4 ∧ bs = [] := by
  rcases Nat.lt_or_ge bs.length b.readPos with hshort | hlong
  · rw [unnoticed_writing_of_lt h hfits hshort]
    exact (or_iff_right (by omega)).symm
  · rw [unnoticed_writing_of_le h hfits hlong]
    refine (or_iff_left ?_).symm
    rintro ⟨hfour, rfl⟩
    rw [hfour] at hlong
    exact absurd hlong (by decide)

/-- **Moving the unread bytes is not noticed as long as they stay in place within a stretch**, and
in particular if they are moved between the steps of a program only.  Otherwise it is noticed.  A
framed write that moves the unread bytes and fails is as it should be exactly if nothing had been
read.  One that moves them and then writes succeeds exactly if it writes as many bytes as had been
read, or more; and the right bytes are unread after it exactly if nothing had been read, or if it
writes nothing and fails, and four bytes had been read: for then the zero that made room for the
length is left.  A framed read that moves the unread bytes and fails brings bytes back into view. -/
theorem compaction_unseen_while_still (p : Session access α) (h : b.WellFormed) :
    (p.Still b → p.Unnoticed b) ∧
      (p.MovesBetween → p.Unnoticed b) ∧
      (∀ error, (behindLength (failing .writes error)).Unnoticed b ↔ b.readPos = 0) ∧
      (∀ bs, Fits bs →
        ((∃ b', Buffer.putFramed (writing bs).run b = .ok () b') ↔ b.readPos ≤ bs.length) ∧
          ((behindLength (writing bs)).Unnoticed b ↔ b.readPos = 0 ∨ b.readPos = 4 ∧ bs = [])) ∧
      ∀ error stretch tail, Fits stretch → b.unread = prefixed stretch ++ tail →
        ¬(withinLength (failing .reads error)).Unnoticed b := by
  refine ⟨?_, ?_, unnoticed_failing_write h, ?_, ?_⟩
  · intro hstill
    exact hstill.unnoticed h
  · intro hbetween
    exact (hbetween.still b).unnoticed h
  · intro bs hfits
    exact ⟨putFramed_writing_eq_ok_iff h hfits, unnoticed_writing h hfits⟩
  · intro error stretch tail hfits hunread
    exact not_unnoticed_failing_read h error hfits hunread

/-- Two bytes are read, the rest is moved to the start, and a framed write may move it again. -/
def tidied (bs : Bytes) : Session .both Bytes :=
  read rfl (.read (Decoder.bytes 2) fun _ => .done ()) fun _ =>
    compact (putFramed rfl (writing bs) fun _ => look done)

/-- A framed write finds the unread bytes at the start if they have been moved there before it, and
the frame is as it should be.  Without that the length of five bytes goes over the first of the
seven that follow their length. -/
theorem compaction_unseen_while_still_tidied :
    (outcome ((tidied [9, 8]).run (.ofBytes [1, 2, 3]))).1 = .ok [3, 0, 0, 0, 2, 9, 8] ∧
      ¬(behindLength (writing [0, 0x11, 0x22, 0x33, 0x44, 0x55, 0x66])).Unnoticed
        ⟨[1, 2, 3, 4, 5], 2, 5⟩ ∧
      (outcome ((behindLength (writing [0, 0x11, 0x22, 0x33, 0x44, 0x55, 0x66])).run
        ⟨[1, 2, 3, 4, 5], 2, 5⟩)).2.unread =
          [3, 4, 5, 0, 0, 0, 0, 0, 5, 0x22, 0x33, 0x44, 0x55, 0x66] := by
  refine ⟨?_, ?_, by decide⟩
  · have hplace : (tidied [9, 8]).Still (.ofBytes [1, 2, 3]) :=
      ⟨.inl rfl, ⟨.inr rfl, trivial⟩, trivial⟩
    have hordered : (Buffer.ofBytes [1, 2, 3]).WellFormed := ⟨by decide, by decide⟩
    obtain ⟨hstill, -⟩ := compaction_unseen_while_still (tidied [9, 8]) hordered
    rw [(hstill hplace).1]
    rfl
  · have hordered : (⟨[1, 2, 3, 4, 5], 2, 5⟩ : Buffer).WellFormed := ⟨by decide, by decide⟩
    obtain ⟨-, -, -, hwrites, -⟩ := compaction_unseen_while_still (tidied []) hordered
    rw [(hwrites _ (by decide)).2]
    decide

end Session

end SshKeys
