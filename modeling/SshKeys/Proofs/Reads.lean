/-
**What decoders read from byte strings.**

A run that succeeds splits its input in two: what the decoder took and what it left.  The relation
`Reads` speaks of such runs alone, and has one equivalence for each way a decoder is put together,
so that a whole format unfolds into an equation between byte strings.  A length-prefixed stretch is
the prefix, then exactly what the decoder inside takes.

Main definitions:

* `SshKeys.Decoder.Reads` — a decoder takes a value off the front of a byte string;
* `SshKeys.prefixed`, `SshKeys.prefixedAll` — byte strings behind their lengths;
* `SshKeys.Decoder.Steady` — a decoder that never asks how much is left.

Main results:

* `SshKeys.Decoder.reads_bind`, `SshKeys.Decoder.reads_framed` — a sequence, and a stretch;
* `SshKeys.Decoder.reads_string`, `SshKeys.Decoder.reads_text` — the strings of the wire;
* `SshKeys.Decoder.Steady.exists_used` — **what a steady decoder takes does not depend on what
  follows**;
* `SshKeys.Decoder.Steady.eq_nil_of_reads` — so what it accepts is prefix-free.
-/

import SshKeys.Wire.Decoder

set_option relaxedAutoImplicit false
set_option autoImplicit false

namespace SshKeys

/-! ### Byte strings behind their lengths -/

/-- A byte string behind its length. -/
def prefixed (bs : Bytes) : Bytes := bigEndian 4 bs.length ++ bs

/-- Byte strings behind their lengths, one after another. -/
def prefixedAll (strings : List Bytes) : Bytes := strings.flatMap prefixed

@[simp] theorem length_prefixed (bs : Bytes) : (prefixed bs).length = 4 + bs.length := by
  simp [prefixed]

@[simp] theorem prefixedAll_nil : prefixedAll [] = [] := rfl

@[simp] theorem prefixedAll_cons (bs : Bytes) (strings : List Bytes) :
    prefixedAll (bs :: strings) = prefixed bs ++ prefixedAll strings := rfl

@[simp] theorem prefixedAll_append (front back : List Bytes) :
    prefixedAll (front ++ back) = prefixedAll front ++ prefixedAll back := by
  simp [prefixedAll]

/-- A text is the only one with its UTF-8 form. -/
theorem ofUtf8?_eq_some {bs : Bytes} {text : String} :
    ofUtf8? bs = some text ↔ utf8Bytes text = bs := by
  constructor
  · intro h
    unfold ofUtf8? String.fromUTF8? at h
    split at h
    · rw [Option.some.injEq] at h
      rw [← h]
      rfl
    · simp at h
  · rintro rfl
    exact ofUtf8?_utf8Bytes text

/-- A computation that failed is not continued. -/
theorem bind_apply {σ α β : Type} (x : EStateM Error σ α) (f : α → EStateM Error σ β) (s : σ) :
    (x >>= f) s = match x s with
      | .ok a s' => f a s'
      | .error error s' => .error error s' := by
  cases h : x s <;> simp [bind, EStateM.bind, h]

theorem outcome_eq_ok {σ α : Type} {r : EStateM.Result Error σ α} {a : α} {s : σ} :
    outcome r = (.ok a, s) ↔ r = .ok a s := by
  cases r <;> simp [outcome]

theorem outcome_eq_error {σ α : Type} {r : EStateM.Result Error σ α} {error : Error} {s : σ} :
    outcome r = (.error error, s) ↔ r = .error error s := by
  cases r <;> simp [outcome]

namespace Decoder

variable {α β : Type}

/-! ### Successful runs -/

/-- A decoder takes a value off the front of a byte string and leaves the rest. -/
def Reads (d : Decoder α) (bs : Bytes) (a : α) (rest : Bytes) : Prop :=
  d.run bs = .ok a rest

/-- What a decoder reads is determined by the input. -/
theorem Reads.unique {d : Decoder α} {bs rest rest' : Bytes} {a a' : α} (h : d.Reads bs a rest)
    (h' : d.Reads bs a' rest') : a = a' ∧ rest = rest' := by
  have hrun := h.symm.trans h'
  simpa using hrun

@[simp] theorem reads_pure {a b : α} {bs rest : Bytes} :
    (pure a : Decoder α).Reads bs b rest ↔ a = b ∧ bs = rest := by
  simp [Reads, pure, EStateM.pure, run]

@[simp] theorem not_reads_fail {error : Error} {a : α} {bs rest : Bytes} :
    ¬(fail error : Decoder α).Reads bs a rest := by
  intro h
  have herror : (.error error bs : EStateM.Result Error Bytes α) = .ok a rest := h
  cases herror

/-- A sequence reads what its first part reads, and then what its second part reads. -/
@[simp] theorem reads_bind {d : Decoder α} {f : α → Decoder β} {bs rest : Bytes} {b : β} :
    (d >>= f).Reads bs b rest ↔ ∃ a mid, d.Reads bs a mid ∧ (f a).Reads mid b rest := by
  rw [Reads, run_bind]
  cases h : d.run bs with
  | ok a mid =>
      simp only [Reads, bind_apply, h, EStateM.Result.ok.injEq]
      exact ⟨fun hf => ⟨a, mid, ⟨rfl, rfl⟩, hf⟩, fun ⟨_, _, ⟨ha, hmid⟩, hf⟩ => ha ▸ hmid ▸ hf⟩
  | error error mid => simp [Reads, bind_apply, h]

/-- A run goes on from what its first part has read. -/
theorem Reads.run_bind {d : Decoder α} {bs mid : Bytes} {a : α} (h : d.Reads bs a mid)
    (f : α → Decoder β) : (d >>= f).run bs = (f a).run mid := by
  have hrun : d.run bs = .ok a mid := h
  rw [Decoder.run_bind, bind_apply, hrun]

@[simp] theorem reads_map {d : Decoder α} {f : α → β} {bs rest : Bytes} {b : β} :
    (f <$> d).Reads bs b rest ↔ ∃ a, d.Reads bs a rest ∧ f a = b := by
  rw [← bind_pure_comp, reads_bind]
  simp

@[simp] theorem reads_ofExcept {result : Except Error α} {a : α} {bs rest : Bytes} :
    (ofExcept result).Reads bs a rest ↔ result = .ok a ∧ bs = rest := by
  cases result with
  | ok b =>
      rw [Except.ok.injEq]
      exact reads_pure
  | error error => simp [ofExcept]

/-! ### Bytes and numbers -/

theorem reads_take {count : Nat} {next : Bytes → Decoder α} {bs rest : Bytes} {a : α} :
    (take count next).Reads bs a rest ↔
      ∃ taken mid, taken.length = count ∧ bs = taken ++ mid ∧ (next taken).Reads mid a rest := by
  simp only [Reads, run, bind_apply, Source.take, ByteSource.take]
  constructor
  · intro h
    by_cases hcount : count ≤ bs.length
    · rw [if_pos hcount] at h
      exact ⟨bs.take count, bs.drop count, List.length_take_of_le hcount,
        (List.take_append_drop count bs).symm, h⟩
    · simp [hcount] at h
  · rintro ⟨taken, mid, rfl, rfl, h⟩
    simpa using h

@[simp] theorem reads_bytes {count : Nat} {bs taken rest : Bytes} :
    (bytes count).Reads bs taken rest ↔ taken.length = count ∧ bs = taken ++ rest := by
  rw [bytes, reads_take]
  constructor
  · rintro ⟨taken', mid, hlength, rfl, h⟩
    obtain ⟨rfl, rfl⟩ := reads_pure.1 h
    exact ⟨hlength, rfl⟩
  · rintro ⟨hlength, rfl⟩
    exact ⟨taken, rest, hlength, rfl, reads_pure.2 ⟨rfl, rfl⟩⟩

@[simp] theorem reads_countLeft {bs rest : Bytes} {count : Nat} :
    countLeft.Reads bs count rest ↔ bs.length = count ∧ bs = rest := by
  change (EStateM.Result.ok bs.length bs : EStateM.Result Error Bytes Nat) = .ok count rest ↔ _
  simp

/-- Reading all that is left. -/
@[simp] theorem reads_rest {bs taken rest : Bytes} :
    Decoder.rest.Reads bs taken rest ↔ bs = taken ∧ rest = [] := by
  simp only [Decoder.rest, reads_bind, reads_countLeft, reads_bytes]
  constructor
  · rintro ⟨count, mid, ⟨rfl, rfl⟩, hlength, hsplit⟩
    -- as many bytes were taken as there were
    have hrest : rest = [] := by
      have := congrArg List.length hsplit
      simp only [List.length_append] at this
      exact List.length_eq_zero_iff.1 (by omega)
    simp [hsplit, hrest]
  · rintro ⟨rfl, rfl⟩
    exact ⟨_, _, ⟨rfl, rfl⟩, rfl, by simp⟩

@[simp] theorem reads_finished {bs rest : Bytes} {u : Unit} :
    finished.Reads bs u rest ↔ bs = [] ∧ rest = [] := by
  simp only [finished, reads_bind, reads_countLeft]
  constructor
  · rintro ⟨count, mid, ⟨rfl, rfl⟩, h⟩
    by_cases hbs : bs = []
    · subst hbs
      simpa using h
    · simp [hbs, failWire] at h
  · rintro ⟨rfl, rfl⟩
    exact ⟨0, [], ⟨rfl, rfl⟩, by simp⟩

@[simp] theorem reads_number {width n : Nat} {bs rest : Bytes} :
    (number width).Reads bs n rest ↔ n < 256 ^ width ∧ bs = bigEndian width n ++ rest := by
  simp only [number, reads_bind, reads_bytes, reads_pure]
  constructor
  · rintro ⟨taken, mid, ⟨rfl, rfl⟩, rfl, rfl⟩
    exact ⟨natOfBytes_lt taken, by rw [bigEndian_natOfBytes]⟩
  · rintro ⟨hn, rfl⟩
    exact ⟨_, _, ⟨length_bigEndian width n, rfl⟩,
      by rw [natOfBytes_bigEndian, Nat.mod_eq_of_lt hn], rfl⟩

/-- Reading a length prefix. -/
@[simp] theorem reads_length {n : Nat} {bs rest : Bytes} :
    length.Reads bs n rest ↔ n ≤ maxLength ∧ bs = bigEndian 4 n ++ rest := by
  simp only [length, uint32, reads_bind, reads_number, reads_pure]
  constructor
  · rintro ⟨declared, mid, ⟨m, mid', ⟨hm, rfl⟩, rfl, rfl⟩, h⟩
    have hdeclared : (UInt32.ofNat m).toNat = m := UInt32.toNat_ofNat_of_lt' hm
    by_cases hmax : m ≤ maxLength
    · simp only [hdeclared, hmax, ↓reduceIte, reads_pure] at h
      obtain ⟨rfl, rfl⟩ := h
      exact ⟨hmax, rfl⟩
    · simp [hdeclared, hmax, failWire] at h
  · rintro ⟨hmax, rfl⟩
    -- a length below the limit is its own value in four bytes
    have hn : n < 256 ^ 4 := Nat.lt_of_le_of_lt hmax (by decide)
    have hdeclared : (UInt32.ofNat n).toNat = n := UInt32.toNat_ofNat_of_lt' hn
    exact ⟨_, _, ⟨n, _, ⟨hn, rfl⟩, rfl, rfl⟩, by simp [hdeclared, hmax]⟩

/-! ### Stretches -/

theorem reads_confine {count : Nat} {body : Decoder β} {next : β → Decoder α} {bs rest : Bytes}
    {a : α} :
    (confine count body next).Reads bs a rest ↔
      ∃ stretch mid b, stretch.length = count ∧ bs = stretch ++ mid ∧ body.Reads stretch b [] ∧
        (next b).Reads mid a rest := by
  simp only [Reads, run, bind_apply, Source.confine, ByteSource.confine]
  constructor
  · intro h
    by_cases hcount : bs.length < count
    · simp [hcount] at h
    · rw [if_neg hcount] at h
      refine ⟨bs.take count, bs.drop count, ?_⟩
      cases hbody : (body.run (bs.take count) : EStateM.Result Error Bytes β) with
      | error error left => simp [hbody] at h
      | ok b left =>
          cases left with
          | cons c left => simp [hbody] at h
          | nil =>
              rw [hbody] at h
              exact ⟨b, List.length_take_of_le (Nat.le_of_not_lt hcount),
                (List.take_append_drop count bs).symm, rfl, h⟩
  · rintro ⟨stretch, mid, b, rfl, rfl, hbody, hnext⟩
    have hcount : ¬(stretch ++ mid).length < stretch.length := by simp
    rw [if_neg hcount, List.take_left' rfl, List.drop_left' rfl, hbody]
    exact hnext

/-- A framed decoder reads a byte string behind its length, all of which the decoder inside has to
take. -/
@[simp] theorem reads_framed {body : Decoder α} {bs rest : Bytes} {a : α} :
    (framed body).Reads bs a rest ↔
      ∃ stretch, stretch.length ≤ maxLength ∧ bs = prefixed stretch ++ rest ∧
        body.Reads stretch a [] := by
  simp only [framed, reads_bind, reads_length, reads_confine]
  constructor
  · rintro ⟨count, mid, ⟨hmax, rfl⟩, stretch, mid', b, rfl, rfl, hbody, hdone⟩
    obtain ⟨rfl, rfl⟩ := reads_pure.1 hdone
    exact ⟨stretch, hmax, by simp [prefixed], hbody⟩
  · rintro ⟨stretch, hmax, rfl, hbody⟩
    exact ⟨stretch.length, stretch ++ rest, ⟨hmax, by simp [prefixed]⟩, stretch, rest, a, rfl, rfl,
      hbody, reads_pure.2 ⟨rfl, rfl⟩⟩

/-- Reading a byte string behind its length. -/
@[simp] theorem reads_string {bs string rest : Bytes} :
    Decoder.string.Reads bs string rest ↔
      string.length ≤ maxLength ∧ bs = prefixed string ++ rest := by
  simp only [Decoder.string, reads_framed, reads_rest]
  constructor
  · rintro ⟨stretch, hmax, rfl, rfl, -⟩
    exact ⟨hmax, rfl⟩
  · rintro ⟨hmax, rfl⟩
    exact ⟨string, hmax, rfl, rfl, trivial⟩

/-- Reading a text behind its length. -/
@[simp] theorem reads_text {bs rest : Bytes} {text : String} :
    Decoder.text.Reads bs text rest ↔
      (utf8Bytes text).length ≤ maxLength ∧ bs = prefixed (utf8Bytes text) ++ rest := by
  simp only [Decoder.text, reads_bind, reads_string]
  constructor
  · rintro ⟨string, mid, ⟨hmax, rfl⟩, h⟩
    cases htext : ofUtf8? string with
    | none => simp [ofUtf8, htext, failWire] at h
    | some text' =>
        simp only [ofUtf8, htext, reads_pure] at h
        obtain ⟨rfl, rfl⟩ := h
        rw [ofUtf8?_eq_some.1 htext]
        exact ⟨hmax, rfl⟩
  · rintro ⟨hmax, rfl⟩
    exact ⟨utf8Bytes text, rest, ⟨hmax, rfl⟩, by simp [ofUtf8]⟩

/-! ### Using up the input -/

theorem reads_toEnd {d : Decoder α} {bs rest : Bytes} {a : α} :
    d.toEnd.Reads bs a rest ↔ d.Reads bs a [] ∧ rest = [] := by
  simp only [toEnd, reads_bind, reads_finished, reads_pure]
  constructor
  · rintro ⟨a', mid, hread, u, mid', ⟨rfl, rfl⟩, rfl, rfl⟩
    exact ⟨hread, rfl⟩
  · rintro ⟨hread, rfl⟩
    exact ⟨a, [], hread, (), [], ⟨rfl, rfl⟩, rfl, rfl⟩

theorem value_eq_ok {d : Decoder α} {bs : Bytes} {a : α} :
    d.value bs = .ok a ↔ ∃ rest, d.Reads bs a rest := by
  unfold value Reads
  cases h : (d.run bs : EStateM.Result Error Bytes α) with
  | ok b rest => simp [outcome]
  | error error rest => simp [outcome]

/-- A decoder accepts a byte string exactly when it reads a value and leaves nothing. -/
theorem ofBytes_eq_ok {d : Decoder α} {bs : Bytes} {a : α} :
    d.ofBytes bs = .ok a ↔ d.Reads bs a [] := by
  simp [ofBytes, value_eq_ok, reads_toEnd]

/-- What is left over is counted in the error. -/
theorem ofBytes_of_reads {d : Decoder α} {bs rest : Bytes} {a : α} (h : d.Reads bs a rest)
    (hrest : rest ≠ []) : d.ofBytes bs = .error (.wire (.trailingData rest.length)) := by
  have hfinished : (finished.run rest : EStateM.Result Error Bytes Unit) =
      .error (.wire (.trailingData rest.length)) rest := by
    have hlength : rest.length ≠ 0 := by simpa using hrest
    change (ite (rest.length = 0) (pure ()) (failWire (.trailingData rest.length)) :
      Decoder Unit).run rest = _
    rw [if_neg hlength]
    rfl
  have hrun : (d.toEnd.run bs : EStateM.Result Error Bytes α) =
      .error (.wire (.trailingData rest.length)) rest := by
    rw [Reads] at h
    simp only [toEnd, run_bind, bind_apply, h, hfinished]
  rw [ofBytes, value, hrun, outcome]

/-! ### Steady decoders -/

/-- A decoder that never asks how much is left, except inside a stretch. -/
inductive Steady : {α : Type} → Decoder α → Prop
  | done {α : Type} (a : α) : Steady (done a)
  | fail {α : Type} (error : Error) : Steady (fail error : Decoder α)
  | take {α : Type} (count : Nat) {next : Bytes → Decoder α} (h : ∀ bs, Steady (next bs)) :
      Steady (take count next)
  | confine {α β : Type} (count : Nat) (body : Decoder β) {next : β → Decoder α}
      (h : ∀ b, Steady (next b)) : Steady (confine count body next)

theorem Steady.bind {d : Decoder α} {f : α → Decoder β} (hd : d.Steady)
    (hf : ∀ a, (f a).Steady) : (d >>= f).Steady := by
  change (d.bind f).Steady
  induction hd with
  | done a => exact hf a
  | fail error => exact .fail error
  | take count _ ih => exact .take count fun bs => ih bs
  | confine count body _ ih => exact .confine count body fun b => ih b

theorem Steady.map {d : Decoder α} (f : α → β) (hd : d.Steady) : (f <$> d).Steady := by
  rw [← bind_pure_comp]
  exact hd.bind fun a => .done (f a)

theorem steady_ofExcept (result : Except Error α) : (ofExcept result).Steady := by
  cases result with
  | ok a => exact .done a
  | error error => exact .fail error

theorem steady_framed (body : Decoder α) : (framed body).Steady := by
  have hlength : Decoder.length.Steady := by
    refine .bind (.bind (.bind (.take 4 .done) fun _ => .done _) fun _ => .done _) fun n => ?_
    split
    · exact .done _
    · exact .fail _
  exact hlength.bind fun count => .confine count body .done

theorem steady_string : Decoder.string.Steady := steady_framed _

theorem steady_text : Decoder.text.Steady := by
  refine steady_string.bind fun string => ?_
  unfold ofUtf8
  split
  · exact .done _
  · exact .fail _

/-- **What a steady decoder takes does not depend on what follows.** -/
theorem Steady.exists_used {d : Decoder α} (hd : d.Steady) {bs rest : Bytes} {a : α}
    (h : d.Reads bs a rest) :
    ∃ used, bs = used ++ rest ∧ ∀ rest', d.Reads (used ++ rest') a rest' := by
  -- a program that never counts what is left takes the same steps in front of any rest
  induction hd generalizing bs with
  | done b =>
      obtain ⟨rfl, rfl⟩ := reads_pure.1 h
      exact ⟨[], rfl, fun rest' => reads_pure.2 ⟨rfl, rfl⟩⟩
  | fail error => exact absurd h not_reads_fail
  | take count _ ih =>
      obtain ⟨taken, mid, hlength, rfl, hnext⟩ := reads_take.1 h
      obtain ⟨used, rfl, hused⟩ := ih taken hnext
      refine ⟨taken ++ used, (List.append_assoc _ _ _).symm, fun rest' => ?_⟩
      exact reads_take.2 ⟨taken, used ++ rest', hlength, List.append_assoc _ _ _, hused rest'⟩
  | confine count body _ ih =>
      obtain ⟨stretch, mid, b, hlength, rfl, hbody, hnext⟩ := reads_confine.1 h
      obtain ⟨used, rfl, hused⟩ := ih b hnext
      refine ⟨stretch ++ used, (List.append_assoc _ _ _).symm, fun rest' => ?_⟩
      exact reads_confine.2
        ⟨stretch, used ++ rest', b, hlength, List.append_assoc _ _ _, hbody, hused rest'⟩

/-- Behind a byte string that a steady decoder accepts, it leaves everything unread. -/
theorem Steady.reads_append {d : Decoder α} (hd : d.Steady) {bs : Bytes} {a : α}
    (h : d.Reads bs a []) (rest : Bytes) : d.Reads (bs ++ rest) a rest := by
  obtain ⟨used, rfl, hused⟩ := hd.exists_used h
  simpa using hused rest

/-- **What a steady decoder accepts is prefix-free.** -/
theorem Steady.eq_nil_of_reads {d : Decoder α} (hd : d.Steady) {bs rest : Bytes} {a a' : α}
    (h : d.Reads bs a []) (h' : d.Reads (bs ++ rest) a' []) : rest = [] :=
  ((hd.reads_append h rest).unique h').2

end Decoder

end SshKeys
