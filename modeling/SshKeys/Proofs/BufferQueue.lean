/-
**A buffer is a queue of bytes.**

Seen through its unread bytes, a buffer is a queue: what is written goes to the back, what is read
comes off the front, and making room or moving the unread bytes to the start changes nothing.
Neither the storage with its stale bytes nor the positions are visible in the queue, and no run of
steps, whether they succeed or fail, brings them back into view.

Main definitions:

* `SshKeys.QueueStep` — the steps under which a buffer is a queue;
* `SshKeys.QueueStep.onBuffer` — a step on a buffer;
* `SshKeys.QueueStep.onQueue`, `SshKeys.QueueStep.queueTrace` — a step and a run on a queue.

Main results:

* `SshKeys.QueueStep.refines` — a step on a buffer is the step on the queue of its unread bytes;
* `SshKeys.QueueStep.buffer_refines_queue` — **every run on a buffer is the run on the queue**, in
  good order after each step and without ever losing room.
-/

import SshKeys.Proofs.FieldWire
import SshKeys.Proofs.SettledReads
import SshKeys.Script.Editing

set_option relaxedAutoImplicit false
set_option autoImplicit false

namespace SshKeys

/-! ### Steps -/

/-- A step under which a buffer is a queue. -/
inductive QueueStep where
  /-- Writes a field. -/
  | put (field : Field)
  /-- Writes bytes as they are. -/
  | append (bs : Bytes)
  /-- Writes the unread bytes of another buffer. -/
  | appendUnread (other : Buffer)
  /-- Reads a field. -/
  | get (kind : FieldKind)
  /-- Reads bytes as they are. -/
  | take (count : Nat)
  /-- Makes room. -/
  | reserve (count : Nat)
  /-- Moves the unread bytes to the start. -/
  | compact

namespace QueueStep

/-- A step on a buffer. -/
def onBuffer : QueueStep → BufferStep
  | put field => .put field.encoding
  | append bs => .append bs
  | appendUnread other => .appendUnread other
  | get kind => .read (.field kind)
  | take count => .read (.take count)
  | reserve count => .reserve count
  | compact => .compact

/-- Bytes that go to the back of a queue, and how that ends. -/
def enqueue (queue : Bytes) (form : WireForm) : Except Error Reply × Bytes :=
  if form.Writable then (.ok .nothing, queue ++ form.bytes)
  else (.error (.wire .overflow), queue)

/-- A step on a queue of bytes: the reply, and the queue after it. -/
def onQueue (queue : Bytes) : QueueStep → Except Error Reply × Bytes
  | put field => enqueue queue field.form
  | append bs => (.ok .nothing, queue ++ bs)
  | appendUnread other => (.ok .nothing, queue ++ other.unread)
  | get kind => outcome ((ReadStep.field kind).decoder.run queue)
  | take count => outcome ((ReadStep.take count).decoder.run queue)
  | reserve _ => (.ok .nothing, queue)
  | compact => (.ok .nothing, queue)

/-- The reply to every step of a run on a queue, and the queue after it. -/
def queueTrace (queue : Bytes) : List QueueStep → List (Except Error Reply × Bytes)
  | [] => []
  | step :: steps =>
    let (reply, queue) := step.onQueue queue
    (reply, queue) :: queueTrace queue steps

/-! ### One step -/

/-- A step on a buffer ends as a step on a queue does: with the same reply, and with the unread
bytes as the queue.  The buffer is in order and has lost no room. -/
structure Refines (b : Buffer) (onQueue : Except Error Reply × Bytes)
    (onBuffer : Except Error Reply × Buffer) : Prop where
  reply_eq : onBuffer.1 = onQueue.1
  unread_eq : onBuffer.2.unread = onQueue.2
  wellFormed : onBuffer.2.WellFormed
  capacity_le : b.capacity ≤ onBuffer.2.capacity

variable {b : Buffer}

/-- A step that extends the buffer. -/
theorem Refines.of_extends (h : b.WellFormed) {b' : Buffer} {bs : Bytes}
    (reply : Except Error Reply) (hextends : b.Extends b' bs) :
    Refines b (reply, b.unread ++ bs) (reply, b') where
  reply_eq := rfl
  unread_eq := hextends.unread h
  wellFormed := hextends.wellFormed h
  capacity_le := hextends.capacity_le

theorem enqueue_eq (queue : Bytes) (form : WireForm) :
    enqueue queue form = (form.verdict.map fun _ => .nothing, queue ++ form.written) := by
  unfold enqueue WireForm.verdict WireForm.written
  split
  · rfl
  · rw [List.append_nil]
    rfl

theorem refines_put (h : b.WellFormed) (field : Field) :
    Refines b ((put field).onQueue b.unread) (outcome ((put field).onBuffer.action b)) := by
  obtain ⟨b', hput, hextends⟩ := (field.adds_put.answer Reply.nothing) b h
  rw [onQueue, enqueue_eq, onBuffer, BufferStep.action, hput]
  exact .of_extends h _ hextends

/-- A settled decoder reads from a buffer as from a queue. -/
theorem refines_get (h : b.WellFormed) {d : Decoder Reply} (hd : d.Settled) :
    Refines b (outcome (d.run b.unread)) (outcome (Buffer.get d b)) := by
  have hviewed := hd b h
  rw [Buffer.get]
  rcases Buffer.run_cases d h with
    ⟨reply, count, hcount, hbuffer, hbytes⟩ | ⟨error, count, left, hcount, hbuffer, hbytes⟩
  all_goals
    rw [hbuffer] at hviewed ⊢
    rw [← hviewed]
    exact ⟨rfl, rfl, h.advance hcount, Nat.le_refl _⟩

/-- What is read comes off the front of a queue, also if the reading fails. -/
theorem suffix_of_settled (queue : Bytes) {d : Decoder Reply} (hd : d.Settled) :
    (outcome (d.run queue)).2 <:+ queue := by
  have h : (Buffer.ofBytes queue).WellFormed := ⟨Nat.zero_le _, Nat.le_refl _⟩
  have hviewed := hd _ h
  rw [Buffer.unread_ofBytes] at hviewed
  rw [← hviewed]
  rcases Buffer.run_cases d h with ⟨_, count, -, hbuffer, -⟩ | ⟨_, count, _, -, hbuffer, -⟩
  all_goals
    rw [hbuffer, Buffer.viewed, Buffer.unread_advance, Buffer.unread_ofBytes]
    exact List.drop_suffix count queue

/-- A step on a buffer is the step on the queue of its unread bytes. -/
theorem refines (h : b.WellFormed) (step : QueueStep) :
    Refines b (step.onQueue b.unread) (outcome (step.onBuffer.action b)) := by
  cases step with
  | put field => exact refines_put h field
  | append bs => exact .of_extends h _ (Buffer.extends_append h bs)
  | appendUnread other => exact .of_extends h _ (Buffer.extends_append h other.unread)
  | get kind => exact refines_get h (kind.settled_decoder.map _)
  | take count => exact refines_get h ((Decoder.settled_bytes count).map _)
  | reserve count =>
      have hroom := Refines.of_extends h (.ok .nothing) (Buffer.extends_reserve h count)
      rwa [List.append_nil] at hroom
  | compact =>
      exact ⟨rfl, Buffer.unread_compact h, h.compact, Nat.le_of_eq (Buffer.capacity_compact h).symm⟩

/-! ### Runs -/

/-- A run on a buffer is the run on the queue of its unread bytes.  Each step hands a buffer in order
to the next one. -/
theorem trace_eq_queueTrace (steps : List QueueStep) (h : b.WellFormed) :
    (BufferStep.trace b (steps.map onBuffer)).map (fun (reply, b) => (reply, b.unread)) =
      queueTrace b.unread steps := by
  induction steps generalizing b with
  | nil => rfl
  | cons step steps ih =>
      have hstep := refines h step
      have hrest := ih hstep.wellFormed
      simp only [List.map_cons, BufferStep.trace, queueTrace]
      rw [hrest, hstep.reply_eq, hstep.unread_eq]

theorem wellFormed_of_mem_trace (steps : List QueueStep) (h : b.WellFormed) :
    ∀ entry ∈ BufferStep.trace b (steps.map onBuffer), entry.2.WellFormed := by
  induction steps generalizing b with
  | nil => simp [BufferStep.trace]
  | cons step steps ih =>
      have hstep := refines h step
      exact List.forall_mem_cons.2 ⟨hstep.wellFormed, ih hstep.wellFormed⟩

/-- The storage does not shrink in a run. -/
theorem capacity_trace (steps : List QueueStep) (h : b.WellFormed) :
    (b.capacity :: (BufferStep.trace b (steps.map onBuffer)).map (·.2.capacity)).Pairwise
      (· ≤ ·) := by
  induction steps generalizing b with
  | nil => simp [BufferStep.trace]
  | cons step steps ih =>
      have hstep := refines h step
      have hgrowing := ih hstep.wellFormed
      have hlater := (List.pairwise_cons.1 hgrowing).1
      refine List.pairwise_cons.2 ⟨List.forall_mem_cons.2 ⟨hstep.capacity_le, ?_⟩, hgrowing⟩
      exact fun capacity hmem => Nat.le_trans hstep.capacity_le (hlater capacity hmem)

/-- **Every run on a buffer is the run on the queue of its unread bytes.**  The replies are the
same, and after each step the queue is what is unread.  The positions stay in order and inside the
storage all along, and the storage never shrinks.  What a step of the queue reads comes off its
front. -/
theorem buffer_refines_queue (steps : List QueueStep) (h : b.WellFormed) :
    (BufferStep.trace b (steps.map onBuffer)).map (fun (reply, b) => (reply, b.unread)) =
        queueTrace b.unread steps ∧
      (∀ entry ∈ BufferStep.trace b (steps.map onBuffer), entry.2.WellFormed) ∧
      (b.capacity :: (BufferStep.trace b (steps.map onBuffer)).map (·.2.capacity)).Pairwise
        (· ≤ ·) ∧
      (∀ kind queue, ((get kind).onQueue queue).2 <:+ queue) ∧
      ∀ count queue, ((take count).onQueue queue).2 <:+ queue := by
  refine ⟨trace_eq_queueTrace steps h, wellFormed_of_mem_trace steps h, capacity_trace steps h,
    fun kind queue => ?_, fun count queue => ?_⟩
  · exact suffix_of_settled queue (kind.settled_decoder.map _)
  · exact suffix_of_settled queue ((Decoder.settled_bytes count).map _)

/-- A run in which a string is announced that is not there: the length is gone, and what stands
behind it is left. -/
theorem buffer_refines_queue_underflow :
    (BufferStep.trace ⟨[9, 2, 3], 1, 3⟩ ([append [0, 0, 0, 9, 7], take 2, get .string, compact,
        put (.mpint (.ofMagnitude [128]))].map onBuffer)).map
          (fun (reply, b) => (reply, b.unread)) =
      [(.ok .nothing, [2, 3, 0, 0, 0, 9, 7]), (.ok (.bytes [2, 3]), [0, 0, 0, 9, 7]),
        (.error (.wire (.underflow 9 1)), [7]), (.ok .nothing, [7]),
        (.ok .nothing, [7, 0, 0, 0, 2, 0, 128])] := by
  have hordered : (⟨[9, 2, 3], 1, 3⟩ : Buffer).WellFormed := ⟨by decide, by decide⟩
  rw [(buffer_refines_queue _ hordered).1]
  rfl

end QueueStep

end SshKeys
