/-
**Programs of reads end alike on bytes and on buffers.**

A program of reads makes steps, each of which may depend on the replies to those before it, and
runs other programs on the stretches that length prefixes announce, to any depth.  It ends at its
first error.  On a byte string a stretch is split off, and a failure inside of it undoes what was
taken from it; on a buffer the write position is lowered for a while, and nothing is undone.  The
replies and the error are the same all the same, and the bytes that are left differ in one case
only: if the program failed in a stretch.

Main definitions:

* `SshKeys.ReadProgram` — programs of reads;
* `SshKeys.ReadProgram.run` — the replies to a program, its error, and what it leaves;
* `SshKeys.ReadProgram.FailsInFrame` — a program fails in a stretch, and where.

Main results:

* `SshKeys.ReadStep.settled_decoder` — a step without a stretch of its own is settled;
* `SshKeys.ReadProgram.run_eq_decoder` — a program runs as the decoder it stands for;
* `SshKeys.ReadProgram.readers_agree` — **a program ends alike on a buffer and on its unread
  bytes**.
-/

import SshKeys.Proofs.SettledReads

set_option relaxedAutoImplicit false
set_option autoImplicit false

namespace SshKeys

/-! ### Steps without a stretch of their own -/

/-- Whether a key is read from a stretch that a length announces. -/
def KeyForm.isFramed : KeyForm → Bool
  | framedKey => true
  | _ => false

/-- Whether a step runs something on a stretch that a length announces. -/
def ReadStep.isFramed : ReadStep → Bool
  | framed _ => true
  | key form => form.isFramed
  | _ => false

theorem KeyForm.settled_decoder {form : KeyForm} (h : form.isFramed = false) :
    form.decoder.Settled := by
  cases form with
  | publicKey => exact PublicKey.settled_decoder.map _
  | publicFields algorithm => exact (PublicKey.settled_fieldDecoder algorithm).map _
  | keypair => exact Keypair.settled_decoder.map _
  | keypairFields algorithm => exact (Keypair.settled_fieldDecoder algorithm).map _
  | foreign name => exact (Decoder.settled_rest.bind fun _ => Decoder.settled_pure _).map _
  | acceptedKey => exact PublicKey.settled_acceptedDecoder.map _
  | framedKey => simp [isFramed] at h
  | acceptedKeypair => exact Keypair.settled_acceptedDecoder.map _

/-- A step without a stretch of its own leaves the same bytes wherever it reads. -/
theorem ReadStep.settled_decoder {step : ReadStep} (h : step.isFramed = false) :
    step.decoder.Settled := by
  unfold decoder
  cases step with
  | take count => exact (Decoder.settled_bytes count).map _
  | stringWithin capacity => exact (Decoder.settled_stringWithin capacity).map _
  | textWithin capacity => exact (Decoder.settled_textWithin capacity).map _
  | countLeft => exact Decoder.settled_countLeft.map _
  | isFinished => exact Decoder.settled_countLeft.map _
  | finish answer => exact Decoder.settled_finished.map _
  | field kind => exact kind.settled_decoder.map _
  | key form => exact KeyForm.settled_decoder h
  | fail error => exact Decoder.settled_fail error
  | framed steps => simp [isFramed] at h

/-! ### Programs -/

/-- A program of reads. -/
inductive ReadProgram where
  /-- The end of the program. -/
  | done
  /-- A step, and a program that depends on the reply. -/
  | read (step : ReadStep) (plain : step.isFramed = false) (next : Reply → ReadProgram)
  /-- A program that is run on exactly the bytes that a length prefix announces, and one that
  depends on the replies to it. -/
  | framed (body : ReadProgram) (next : List Reply → ReadProgram)

namespace ReadProgram

/-- A program as a decoder of the list of its replies. -/
def decoder : ReadProgram → Decoder (List Reply)
  | done => pure []
  | read step _ next => do
    let reply ← step.decoder
    let replies ← (next reply).decoder
    pure (reply :: replies)
  | framed body next => do
    let inner ← body.decoder.framed
    let replies ← (next inner).decoder
    pure (.list inner :: replies)

/-- How a program ended. -/
structure Ended (σ : Type) where
  /-- The replies up to the end or the first error. -/
  replies : List Reply
  /-- The first error. -/
  error? : Option Error
  /-- What is left of the source. -/
  source : σ

/-- The end of a program that had one more reply before. -/
def Ended.after {σ : Type} (reply : Reply) (ended : Ended σ) : Ended σ :=
  { ended with replies := reply :: ended.replies }

/-- A program run on a source, up to its first error. -/
def run {σ : Type} [Source σ] : ReadProgram → σ → Ended σ
  | done, s => ⟨[], none, s⟩
  | read step _ next, s =>
    match step.decoder.run s with
    | .ok reply s' => ((next reply).run s').after reply
    | .error error s' => ⟨[], some error, s'⟩
  | framed body next, s =>
    match body.decoder.framed.run s with
    | .ok inner s' => ((next inner).run s').after (.list inner)
    | .error error s' => ⟨[], some error, s'⟩

/-- The end of a program as the result of a computation. -/
def Ended.result {σ : Type} : Ended σ → EStateM.Result Error σ (List Reply)
  | ⟨replies, none, s⟩ => .ok replies s
  | ⟨_, some error, s⟩ => .error error s

theorem Ended.result_after {σ : Type} (reply : Reply) (ended : Ended σ) :
    (ended.after reply).result = match ended.result with
      | .ok replies s => .ok (reply :: replies) s
      | .error error s => .error error s := by
  obtain ⟨replies, error?, s⟩ := ended
  cases error? <;> rfl

theorem Ended.result_eq_ok {σ : Type} {ended : Ended σ} {replies : List Reply} {s : σ} :
    ended.result = .ok replies s ↔ ended = ⟨replies, none, s⟩ := by
  obtain ⟨replies', error?, s'⟩ := ended
  cases error? <;> simp [result]

theorem Ended.result_eq_error {σ : Type} {ended : Ended σ} {error : Error} {s : σ} :
    ended.result = .error error s ↔ ended.error? = some error ∧ ended.source = s := by
  obtain ⟨replies', error?, s'⟩ := ended
  cases error? <;> simp [result]

/-- A program runs as the decoder it stands for. -/
theorem run_eq_decoder {σ : Type} [Source σ] (program : ReadProgram) (s : σ) :
    (program.run s).result = program.decoder.run s := by
  induction program generalizing s with
  | done => rfl
  | read step plain next ih =>
      simp only [run, decoder, Decoder.run_bind, bind_apply]
      cases hstep : step.decoder.run s with
      | error error s' => rfl
      | ok reply s' =>
          simp only [Ended.result_after, ih]
          cases (next reply).decoder.run s' <;> rfl
  | framed body next _ ih =>
      simp only [run, decoder, Decoder.run_bind, bind_apply]
      cases hbody : body.decoder.framed.run s with
      | error error s' => rfl
      | ok inner s' =>
          simp only [Ended.result_after, ih]
          cases (next inner).decoder.run s' <;> rfl

/-! ### Failures in a stretch -/

/-- A program that is run on a stretch fails there, or leaves some of it. -/
def StopsShort (body : ReadProgram) (stretch : Buffer) : Prop :=
  (body.run stretch).error? ≠ none ∨ (body.run stretch).source.unread ≠ []

/-- A program, run on a buffer, fails in a stretch.  The outermost stretch that fails starts at
`behind`, right behind its length prefix; the program that was run on it stopped at `stopped`, with
the end of the stretch as its write position. -/
inductive FailsInFrame : ReadProgram → Buffer → Buffer → Buffer → Prop
  | here {body : ReadProgram} {next : List Reply → ReadProgram} {b behind : Buffer} {count : Nat}
      (hlength : Decoder.length.run b = .ok count behind) (hroom : count ≤ behind.available)
      (hstop : body.StopsShort (behind.narrow count)) :
      FailsInFrame (framed body next) b behind (body.run (behind.narrow count)).source
  | afterRead {step : ReadStep} {plain : step.isFramed = false} {next : Reply → ReadProgram}
      {b b' behind stopped : Buffer} {reply : Reply} (hstep : step.decoder.run b = .ok reply b')
      (hnext : FailsInFrame (next reply) b' behind stopped) :
      FailsInFrame (read step plain next) b behind stopped
  | afterFrame {body : ReadProgram} {next : List Reply → ReadProgram}
      {b b' behind stopped : Buffer} {inner : List Reply}
      (hbody : body.decoder.framed.run b = .ok inner b')
      (hnext : FailsInFrame (next inner) b' behind stopped) :
      FailsInFrame (framed body next) b behind stopped

/-! ### One stretch -/

variable {body : ReadProgram} {b behind : Buffer} {count : Nat}

/-- A program that stops short on its stretch fails.  The buffer stays where the program stopped,
and the byte string goes back to the start of the stretch. -/
theorem StopsShort.confine (hstop : body.StopsShort (behind.narrow count)) (h : behind.WellFormed)
    (hroom : count ≤ behind.available) :
    ∃ error, Buffer.confine count body.decoder.run behind = .error error
        { (body.run (behind.narrow count)).source with writePos := behind.writePos } ∧
      ByteSource.confine count body.decoder.run behind.unread = .error error behind.unread := by
  have hnarrow := h.narrow hroom
  have hresult := body.run_eq_decoder (behind.narrow count)
  simp only [Buffer.confine, ByteSource.confine, Buffer.ensureAvailable, Buffer.length_unread h,
    if_pos hroom, if_neg (Nat.not_lt.2 hroom), Buffer.narrow_eq, ← Buffer.unread_narrow hroom]
  rcases Buffer.run_cases body.decoder hnarrow with
    ⟨replies, read, hread, hbuffer, hbytes⟩ | ⟨error, read, left, hread, hbuffer, hbytes⟩
  · -- the program succeeds, so something of the stretch is left
    rw [hbuffer] at hresult
    have hended := Ended.result_eq_ok.1 hresult
    simp only [StopsShort, hended, ne_eq, not_true_eq_false, false_or] at hstop
    have hlength := Buffer.length_unread (hnarrow.advance hread)
    rw [hbuffer, hbytes, hended, ← Buffer.unread_advance]
    cases hleft : ((behind.narrow count).advance read).unread with
    | nil => exact absurd hleft hstop
    | cons c rest =>
        rw [hleft] at hlength
        refine ⟨.wire (.trailingData (c :: rest).length), ?_, rfl⟩
        simp [← hlength]
  · rw [hbuffer] at hresult
    obtain ⟨-, hsource⟩ := Ended.result_eq_error.1 hresult
    rw [hbuffer, hbytes, hsource]
    exact ⟨error, rfl, rfl⟩

/-- A program that does not stop short on its stretch takes all of it. -/
theorem confine_of_not_stopsShort (h : behind.WellFormed) (hroom : count ≤ behind.available)
    (hstop : ¬body.StopsShort (behind.narrow count)) :
    ∃ replies b', Buffer.confine count body.decoder.run behind = .ok replies b' := by
  have hnarrow := h.narrow hroom
  have hresult := body.run_eq_decoder (behind.narrow count)
  simp only [StopsShort, not_or, ne_eq, Decidable.not_not] at hstop
  simp only [Buffer.confine, Buffer.ensureAvailable, if_pos hroom, Buffer.narrow_eq]
  rcases Buffer.run_cases body.decoder hnarrow with
    ⟨replies, read, hread, hbuffer, -⟩ | ⟨error, read, left, -, hbuffer, -⟩
  · rw [hbuffer] at hresult
    have hended := Ended.result_eq_ok.1 hresult
    have hlength := Buffer.length_unread (hnarrow.advance hread)
    rw [hended] at hstop
    rw [hstop.2, List.length_nil] at hlength
    simp [hbuffer, ← hlength]
  · rw [hbuffer] at hresult
    obtain ⟨herror, -⟩ := Ended.result_eq_error.1 hresult
    rw [herror] at hstop
    cases hstop.1

/-- A stretch that fails on a buffer fails alike on its unread bytes, or a program stops short on
it. -/
theorem framed_error_cases {b' : Buffer} {error : Error} (h : b.WellFormed)
    (hrun : body.decoder.framed.run b = .error error b') :
    (body.decoder.framed.run b.unread : EStateM.Result Error Bytes (List Reply)) =
        .error error b'.unread ∨
      ∃ behind count, Decoder.length.run b = .ok count behind ∧ count ≤ behind.available ∧
        body.StopsShort (behind.narrow count) := by
  have hsettled := Decoder.settled_length b h
  rw [Decoder.run_framed, bind_apply] at hrun ⊢
  cases hlength : (Decoder.length.run b : EStateM.Result Error Buffer Nat) with
  | error error' behind =>
      rw [hlength] at hrun hsettled
      rw [← hsettled]
      cases hrun
      exact .inl rfl
  | ok count behind =>
      obtain ⟨taken, htaken, rfl⟩ := Buffer.exists_advance_of_run h hlength
      have hbehind := h.advance htaken
      rw [hlength] at hrun hsettled
      rw [← hsettled]
      by_cases hroom : count ≤ (b.advance taken).available
      · by_cases hstop : body.StopsShort ((b.advance taken).narrow count)
        · exact .inr ⟨_, count, rfl, hroom, hstop⟩
        · obtain ⟨replies, ended, hok⟩ := confine_of_not_stopsShort hbehind hroom hstop
          simp only [Source.confine, hok] at hrun
          cases hrun
      · left
        simp only [Source.confine, Buffer.confine, ByteSource.confine, Buffer.ensureAvailable,
          if_neg hroom, Buffer.viewed, Buffer.length_unread hbehind,
          if_pos (Nat.lt_of_not_le hroom)] at hrun ⊢
        cases hrun
        rfl

/-- A framed program that stops short fails.  The buffer stays where it stopped, and the byte
string goes back to the start of the stretch. -/
theorem StopsShort.framed (hstop : body.StopsShort (behind.narrow count)) (h : b.WellFormed)
    (hlength : Decoder.length.run b = .ok count behind) (hroom : count ≤ behind.available) :
    ∃ error, body.decoder.framed.run b = .error error
        { (body.run (behind.narrow count)).source with writePos := b.writePos } ∧
      (body.decoder.framed.run b.unread : EStateM.Result Error Bytes (List Reply)) =
        .error error behind.unread := by
  have hsettled := Decoder.settled_length b h
  obtain ⟨taken, htaken, rfl⟩ := Buffer.exists_advance_of_run h hlength
  rw [hlength] at hsettled
  obtain ⟨error, hbuffer, hbytes⟩ := hstop.confine (h.advance htaken) hroom
  refine ⟨error, ?_, ?_⟩
  · rw [Decoder.run_framed, bind_apply, hlength]
    exact hbuffer
  · rw [Decoder.run_framed, bind_apply, ← hsettled]
    exact hbytes

/-! ### Whole programs -/

theorem failsInFrame_read {step : ReadStep} {plain : step.isFramed = false}
    {next : Reply → ReadProgram} {stopped : Buffer} :
    (read step plain next).FailsInFrame b behind stopped ↔
      ∃ reply b', step.decoder.run b = .ok reply b' ∧
        (next reply).FailsInFrame b' behind stopped := by
  constructor
  · rintro (_ | ⟨hstep, hnext⟩)
    exact ⟨_, _, hstep, hnext⟩
  · rintro ⟨reply, b', hstep, hnext⟩
    exact .afterRead hstep hnext

theorem failsInFrame_framed_of_ok {next : List Reply → ReadProgram} {b' stopped : Buffer}
    {inner : List Reply} (h : b.WellFormed) (hbody : body.decoder.framed.run b = .ok inner b') :
    (framed body next).FailsInFrame b behind stopped ↔
      (next inner).FailsInFrame b' behind stopped := by
  constructor
  · intro hframe
    cases hframe with
    | here hlength hroom hstop =>
        obtain ⟨error, hfailed, -⟩ := hstop.framed h hlength hroom
        rw [hbody] at hfailed
        cases hfailed
    | afterFrame hbody' hnext =>
        rw [hbody] at hbody'
        cases hbody'
        exact hnext
  · exact .afterFrame hbody

/-- A program ends alike on a buffer and on its unread bytes. -/
structure EndsAlike (program : ReadProgram) (b : Buffer) : Prop where
  /-- The replies are the same. -/
  replies_eq : (program.run b).replies = (program.run b.unread).replies
  /-- The first error is the same. -/
  error?_eq : (program.run b).error? = (program.run b.unread).error?
  /-- What is left is the same, unless the program failed in a stretch. -/
  unread_eq : (¬∃ behind stopped, program.FailsInFrame b behind stopped) →
    (program.run b).source.unread = (program.run b.unread).source
  /-- If it did, the bytes behind the outermost length prefix are left of the byte string, and the
  buffer stays where the program in the stretch stopped. -/
  of_failsInFrame : ∀ behind stopped, program.FailsInFrame b behind stopped →
    (program.run b).error? ≠ none ∧ (program.run b.unread).source = behind.unread ∧
      (program.run b).source = { stopped with writePos := b.writePos }

/-- A program that ends alike after a reply ends alike from the start. -/
theorem EndsAlike.after {program next : ReadProgram} {b' : Buffer} (reply : Reply)
    (h : next.EndsAlike b') (hwrite : b'.writePos = b.writePos)
    (hbuffer : program.run b = (next.run b').after reply)
    (hbytes : program.run b.unread = (next.run b'.unread).after reply)
    (hfails : ∀ behind stopped,
      program.FailsInFrame b behind stopped ↔ next.FailsInFrame b' behind stopped) :
    program.EndsAlike b where
  replies_eq := by
    rw [hbuffer, hbytes]
    exact congrArg (reply :: ·) h.replies_eq
  error?_eq := by
    rw [hbuffer, hbytes]
    exact h.error?_eq
  unread_eq hnone := by
    rw [hbuffer, hbytes]
    simp only [hfails] at hnone
    exact h.unread_eq hnone
  of_failsInFrame behind stopped hframe := by
    rw [hbuffer, hbytes, ← hwrite]
    exact h.of_failsInFrame behind stopped ((hfails behind stopped).1 hframe)

/-- A step and what follows it. -/
theorem endsAlike_read {step : ReadStep} {plain : step.isFramed = false}
    {next : Reply → ReadProgram} (h : b.WellFormed)
    (hnext : ∀ reply {b' : Buffer}, b'.WellFormed → (next reply).EndsAlike b') :
    (read step plain next).EndsAlike b := by
  have hsettled := ReadStep.settled_decoder plain b h
  cases hstep : (step.decoder.run b : EStateM.Result Error Buffer Reply) with
  | ok reply b' =>
      obtain ⟨count, hcount, rfl⟩ := Buffer.exists_advance_of_run h hstep
      rw [hstep] at hsettled
      refine (hnext reply (h.advance hcount)).after reply rfl ?_ ?_ fun behind stopped => ?_
      · simp only [run, hstep]
      · simp only [run, ← hsettled, Buffer.viewed]
      · rw [failsInFrame_read]
        constructor
        · rintro ⟨reply', b', hstep', hfails⟩
          rw [hstep] at hstep'
          cases hstep'
          exact hfails
        · exact fun hfails => ⟨_, _, hstep, hfails⟩
  | error error b' =>
      rw [hstep] at hsettled
      have hbuffer : (read step plain next).run b = ⟨[], some error, b'⟩ := by
        simp only [run, hstep]
      have hbytes : (read step plain next).run b.unread = ⟨[], some error, b'.unread⟩ := by
        simp only [run, ← hsettled, Buffer.viewed]
      have hnone : ∀ behind stopped, ¬(read step plain next).FailsInFrame b behind stopped := by
        simp [failsInFrame_read, hstep]
      exact ⟨by rw [hbuffer, hbytes], by rw [hbuffer, hbytes], fun _ => by rw [hbuffer, hbytes],
        fun behind stopped hframe => absurd hframe (hnone behind stopped)⟩

/-- A stretch and what follows it.  What follows runs only if the stretch was taken as a whole. -/
theorem endsAlike_framed {next : List Reply → ReadProgram} (h : b.WellFormed)
    (hnext : ∀ inner {b' : Buffer}, b'.WellFormed → (next inner).EndsAlike b') :
    (framed body next).EndsAlike b := by
  rcases Buffer.run_cases body.decoder.framed h with
    ⟨inner, count, hcount, hbody, hbytes⟩ | ⟨error, count, left, -, hbody, hbytes⟩
  · refine (hnext inner (h.advance hcount)).after (.list inner) rfl ?_ ?_ fun behind stopped => ?_
    · simp only [run, hbody]
    · simp only [run, hbytes, Buffer.unread_advance]
    · exact failsInFrame_framed_of_ok h hbody
  · have hbuffer : (framed body next).run b = ⟨[], some error, b.advance count⟩ := by
      simp only [run, hbody]
    have hbytes' : (framed body next).run b.unread = ⟨[], some error, left⟩ := by
      simp only [run, hbytes]
    refine ⟨by rw [hbuffer, hbytes'], by rw [hbuffer, hbytes'], fun hnone => ?_,
      fun behind stopped hframe => ?_⟩
    · rw [hbuffer, hbytes']
      rcases framed_error_cases h hbody with hleft | ⟨behind, count', hlength, hroom, hstop⟩
      · rw [hbytes] at hleft
        cases hleft
        rfl
      · exact absurd ⟨behind, _, .here hlength hroom hstop⟩ hnone
    · rw [hbuffer, hbytes']
      cases hframe with
      | here hlength hroom hstop =>
          obtain ⟨error', hfailed, hgone⟩ := hstop.framed h hlength hroom
          rw [hbody] at hfailed
          rw [hbytes] at hgone
          simp only [EStateM.Result.error.injEq] at hfailed hgone
          exact ⟨by simp, hgone.2, hfailed.2⟩
      | afterFrame hbody' _ =>
          rw [hbody] at hbody'
          cases hbody'

/-- Every program ends alike, by induction on the program. -/
theorem endsAlike (program : ReadProgram) {b : Buffer} (h : b.WellFormed) :
    program.EndsAlike b := by
  induction program generalizing b with
  | done => exact ⟨rfl, rfl, fun _ => rfl, fun _ _ hframe => nomatch hframe⟩
  | read step plain next ih => exact endsAlike_read h ih
  | framed body next _ ih => exact endsAlike_framed h ih

/-- **A program ends alike on a buffer and on its unread bytes.**  The replies and the first error
are the same.  What is left is the same too, unless the program failed in a stretch; then the byte
string goes back to right behind the length prefix of the outermost stretch that failed, and the
buffer stays where the program in it stopped. -/
theorem readers_agree (program : ReadProgram) {b : Buffer} (h : b.WellFormed) :
    (program.run b).replies = (program.run b.unread).replies ∧
      (program.run b).error? = (program.run b.unread).error? ∧
      ((¬∃ behind stopped, program.FailsInFrame b behind stopped) →
        (program.run b).source.unread = (program.run b.unread).source) ∧
      ∀ behind stopped, program.FailsInFrame b behind stopped →
        (program.run b).error? ≠ none ∧ (program.run b.unread).source = behind.unread ∧
          (program.run b).source = { stopped with writePos := b.writePos } := by
  have halike := program.endsAlike h
  exact ⟨halike.replies_eq, halike.error?_eq, halike.unread_eq, halike.of_failsInFrame⟩

/-- A byte, and a stretch that a number of two bytes takes. -/
def framedNumber : ReadProgram :=
  read (.field .byte) rfl fun _ => framed (read (.field .uint16) rfl fun _ => done) fun _ => done

/-- A byte, and a stretch of the same. -/
def nestedNumber : ReadProgram :=
  read (.field .byte) rfl fun _ => framed framedNumber fun _ => done

/-- Bytes on which the inner stretch has one byte too many. -/
def nestedBytes : Bytes := [7, 0, 0, 0, 8, 1, 0, 0, 0, 3, 2, 3, 4, 9]

/-- A stretch in a stretch is not used up: the byte string goes back to the outer stretch, and the
buffer stays in the inner one. -/
theorem readers_agree_nested :
    (nestedNumber.run (Buffer.ofBytes nestedBytes)).error? = some (.wire (.trailingData 1)) ∧
      (nestedNumber.run nestedBytes).error? = some (.wire (.trailingData 1)) ∧
      (nestedNumber.run nestedBytes).source = nestedBytes.drop 5 ∧
      (nestedNumber.run (Buffer.ofBytes nestedBytes)).source.unread = nestedBytes.drop 12 := by
  have hstep : (ReadStep.field .byte).decoder.run (Buffer.ofBytes nestedBytes) =
      .ok (.field (.byte 7)) ((Buffer.ofBytes nestedBytes).advance 1) := rfl
  have hlength : Decoder.length.run ((Buffer.ofBytes nestedBytes).advance 1) =
      .ok 8 ((Buffer.ofBytes nestedBytes).advance 5) := rfl
  have hinner : (framedNumber.run (((Buffer.ofBytes nestedBytes).advance 5).narrow 8)).error? =
      some (.wire (.trailingData 1)) := rfl
  have hstop : framedNumber.StopsShort (((Buffer.ofBytes nestedBytes).advance 5).narrow 8) :=
    .inl (by simp [hinner])
  have hframe : nestedNumber.FailsInFrame (.ofBytes nestedBytes) _ _ :=
    .afterRead hstep (.here hlength (by decide) hstop)
  obtain ⟨-, herror, -, hfails⟩ :=
    @readers_agree nestedNumber (.ofBytes nestedBytes) ⟨by decide, by decide⟩
  obtain ⟨-, hbytes, hbuffer⟩ := hfails _ _ hframe
  have houter : (nestedNumber.run (Buffer.ofBytes nestedBytes)).error? =
      some (.wire (.trailingData 1)) := rfl
  rw [Buffer.unread_ofBytes] at herror hbytes
  refine ⟨houter, herror ▸ houter, hbytes, ?_⟩
  rw [hbuffer]
  rfl

end ReadProgram

end SshKeys
