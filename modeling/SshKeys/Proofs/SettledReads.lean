/-
**Decoders that leave the same bytes wherever they read.**

A run that fails leaves a buffer where it stopped, but a byte string goes back to the start of the
stretch in which it failed.  The two differ only if something was taken from the stretch before.
A decoder is settled if they never differ: whatever becomes of a run, the bytes left in the buffer
are the bytes left of the byte string.  The values of the wire are read by settled decoders,
because the stretches inside of them are taken as a whole or not at all.

Main definitions:

* `SshKeys.Buffer.viewed` — the result of a run on a buffer, as a result of a run on bytes;
* `SshKeys.Decoder.Settled` — a decoder that leaves the same bytes on both, also when it fails;
* `SshKeys.Decoder.TakesWhole` — a decoder that takes all of its input or nothing.

Main results:

* `SshKeys.Decoder.Settled.bind`, `SshKeys.Decoder.settled_framed` — **sequences of settled
  decoders are settled, and so are stretches that are taken as a whole**;
* `SshKeys.FieldKind.settled_decoder`, `SshKeys.PublicKey.settled_decoder`,
  `SshKeys.Keypair.settled_decoder` — fields and keys are read by settled decoders.
-/

import SshKeys.Proofs.BufferReads
import SshKeys.Script.Reading

set_option relaxedAutoImplicit false
set_option autoImplicit false

namespace SshKeys

/-! ### Results on a buffer -/

/-- The result of a run on a buffer, with the unread bytes in place of the buffer. -/
def Buffer.viewed {α : Type} : EStateM.Result Error Buffer α → EStateM.Result Error Bytes α
  | .ok a b => .ok a b.unread
  | .error error b => .error error b.unread

/-- A run on a buffer and the run on its unread bytes either both succeed, and take the same
bytes, or fail with the same error. -/
theorem Buffer.run_cases {α : Type} (d : Decoder α) {b : Buffer} (h : b.WellFormed) :
    (∃ a count, count ≤ b.available ∧ d.run b = .ok a (b.advance count) ∧
      (d.run b.unread : EStateM.Result Error Bytes α) = .ok a (b.unread.drop count)) ∨
    ∃ error count left, count ≤ b.available ∧ d.run b = .error error (b.advance count) ∧
      (d.run b.unread : EStateM.Result Error Bytes α) = .error error left := by
  have hsame := sameRun_run d h
  generalize (d.run b.unread : EStateM.Result Error Bytes α) = onBytes at hsame
  generalize (d.run b : EStateM.Result Error Buffer α) = onBuffer at hsame
  cases hsame with
  | ok a hcount => exact .inl ⟨a, _, hcount, rfl, rfl⟩
  | error error left hcount => exact .inr ⟨error, _, left, hcount, rfl, rfl⟩

/-- A run on a buffer that succeeds has moved the read position and nothing else. -/
theorem Buffer.exists_advance_of_run {α : Type} {d : Decoder α} {b b' : Buffer} {a : α}
    (h : b.WellFormed) (hrun : d.run b = .ok a b') :
    ∃ count, count ≤ b.available ∧ b' = b.advance count := by
  rcases run_cases d h with ⟨a', count, hcount, hbuffer, -⟩ | ⟨error, count, left, -, hbuffer, -⟩
  · rw [hbuffer] at hrun
    cases hrun
    exact ⟨count, hcount, rfl⟩
  · rw [hbuffer] at hrun
    cases hrun

/-- A buffer from which as many bytes are gone as were unread, or none, is told by what is left. -/
theorem Buffer.unread_advance_eq {b : Buffer} (h : b.WellFormed) {m n : Nat} (hm : m ≤ b.available)
    (hn : n ≤ b.available) (heq : (b.advance m).unread = b.unread.drop n) : m = n := by
  rw [unread_advance] at heq
  have hlength := congrArg List.length heq
  rw [List.length_drop, List.length_drop, length_unread h] at hlength
  omega

namespace Decoder

variable {α β : Type}

/-- A decoder that leaves the same bytes in a buffer and of a byte string, also when it fails. -/
def Settled (d : Decoder α) : Prop :=
  ∀ b : Buffer, b.WellFormed → Buffer.viewed (d.run b) = d.run b.unread

/-! ### Sequences -/

theorem settled_pure (a : α) : (pure a : Decoder α).Settled := fun _ _ => rfl

theorem settled_fail (error : Error) : (fail error : Decoder α).Settled := fun _ _ => rfl

theorem Settled.bind {d : Decoder α} {f : α → Decoder β} (hd : d.Settled)
    (hf : ∀ a, (f a).Settled) : (d >>= f).Settled := by
  intro b h
  have hfirst := hd b h
  rw [run_bind, run_bind, bind_apply, bind_apply]
  rcases Buffer.run_cases d h with
    ⟨a, count, hcount, hbuffer, hbytes⟩ | ⟨error, count, left, -, hbuffer, hbytes⟩
  · rw [hbuffer, hbytes]
    have hnext := hf a (b.advance count) (h.advance hcount)
    rwa [Buffer.unread_advance] at hnext
  · rw [hbuffer, hbytes] at hfirst ⊢
    simpa [Buffer.viewed] using hfirst

theorem Settled.map {d : Decoder α} (f : α → β) (hd : d.Settled) : (f <$> d).Settled := by
  rw [← bind_pure_comp]
  exact hd.bind fun a => settled_pure (f a)

theorem settled_ofExcept (result : Except Error α) : (ofExcept result).Settled := by
  cases result with
  | ok a => exact settled_pure a
  | error error => exact settled_fail error

/-! ### Bytes and numbers -/

theorem settled_bytes (count : Nat) : (bytes count).Settled := by
  intro b h
  change Buffer.viewed ((Source.take count >>= pure) b) = (Source.take count >>= pure) b.unread
  rw [bind_pure, bind_pure]
  simp only [Source.take, Buffer.take, ByteSource.take, Buffer.ensureAvailable,
    Buffer.length_unread h]
  by_cases hcount : count ≤ b.available
  · rw [if_pos hcount, if_pos hcount]
    exact congrArg _ (Buffer.unread_advance b count)
  · rw [if_neg hcount, if_neg hcount]
    rfl

theorem settled_countLeft : countLeft.Settled := by
  intro b h
  change EStateM.Result.ok b.available b.unread = EStateM.Result.ok b.unread.length b.unread
  rw [Buffer.length_unread h]

theorem settled_rest : rest.Settled := settled_countLeft.bind settled_bytes

theorem settled_finished : finished.Settled := by
  refine settled_countLeft.bind fun count => ?_
  split
  · exact settled_pure _
  · exact settled_fail _

theorem settled_number (width : Nat) : (number width).Settled :=
  (settled_bytes width).bind fun _ => settled_pure _

theorem settled_length : length.Settled := by
  refine ((settled_number 4).bind fun _ => settled_pure _).bind fun declared => ?_
  split
  · exact settled_pure _
  · exact settled_fail _

/-! ### Stretches -/

/-- A framed decoder reads a length, and is then confined to as many bytes. -/
theorem run_framed {σ : Type} [Source σ] (body : Decoder α) :
    (body.framed.run : EStateM Error σ α) =
      length.run >>= fun count => Source.confine count body.run := by
  rw [framed, run_bind]
  exact congrArg _ (funext fun count => bind_pure _)

/-- A decoder that takes all of its input, or fails before it takes anything. -/
def TakesWhole (d : Decoder α) : Prop :=
  ∀ bs : Bytes, (∃ a, d.Reads bs a []) ∨
    ∃ error, (d.run bs : EStateM.Result Error Bytes α) = .error error bs

/-- A stretch that is taken as a whole, or not at all, ends alike on both. -/
theorem settled_confine {count : Nat} {body : Decoder α} (hbody : body.Settled)
    (hwhole : body.TakesWhole) : (confine count body done).Settled := by
  intro b h
  change Buffer.viewed ((Source.confine count body.run >>= pure) b) =
    (Source.confine count body.run >>= pure) b.unread
  rw [bind_pure, bind_pure]
  simp only [Source.confine, Buffer.confine, ByteSource.confine, Buffer.ensureAvailable,
    Buffer.length_unread h]
  by_cases hcount : count ≤ b.available
  · have hnarrow := h.narrow hcount
    have hviewed := hbody _ hnarrow
    have htaken := hwhole (b.narrow count).unread
    rw [if_pos hcount, if_neg (Nat.not_lt.2 hcount), Buffer.narrow_eq,
      ← Buffer.unread_narrow hcount]
    rcases Buffer.run_cases body hnarrow with
      ⟨a, read, hread, hbuffer, hbytes⟩ | ⟨error, read, left, hread, hbuffer, hbytes⟩
    · -- nothing is left of the bytes, so the buffer stopped at the end of the stretch
      have hnil : (b.narrow count).unread.drop read = [] := by
        simpa [Reads, hbytes] using htaken
      have hall : read = count := by
        have hlength := congrArg List.length hnil
        rw [List.length_drop, Buffer.length_unread hnarrow] at hlength
        simp only [Buffer.available_narrow, List.length_nil] at hlength hread
        omega
      rw [hbuffer, hbytes, hnil]
      simp [hall, Buffer.advance_narrow_widen, Buffer.viewed]
    · -- all of the bytes are left, so the buffer stopped where it started
      rw [hbuffer, hbytes] at hviewed
      have hleft : left = (b.narrow count).unread := by
        simpa [Reads, hbytes] using htaken
      have hnone : read = 0 := by
        refine Buffer.unread_advance_eq hnarrow hread (Nat.zero_le _) ?_
        simpa [Buffer.viewed, hleft] using hviewed
      rw [hbuffer, hbytes]
      simp [hnone, Buffer.advance_narrow_widen, Buffer.viewed]
  · rw [if_neg hcount, if_pos (Nat.lt_of_not_le hcount)]
    rfl

/-- A framed decoder is settled if it takes its stretch as a whole, or not at all. -/
theorem settled_framed {body : Decoder α} (hbody : body.Settled) (hwhole : body.TakesWhole) :
    body.framed.Settled :=
  settled_length.bind fun _ => settled_confine hbody hwhole

theorem settled_string : string.Settled :=
  settled_framed settled_rest fun bs => .inl ⟨bs, reads_rest.2 ⟨rfl, rfl⟩⟩

theorem settled_stringWithin (capacity : Nat) : (stringWithin capacity).Settled := by
  refine settled_framed (settled_countLeft.bind fun count => ?_) fun bs => ?_
  · split
    · exact settled_bytes _
    · exact settled_fail _
  · -- the room is compared with the whole stretch before anything is taken
    by_cases hroom : bs.length ≤ capacity
    · refine .inl ⟨bs, reads_bind.2 ⟨bs.length, bs, reads_countLeft.2 ⟨rfl, rfl⟩, ?_⟩⟩
      rw [if_pos hroom]
      exact reads_bytes.2 ⟨rfl, (List.append_nil bs).symm⟩
    · refine .inr ⟨.wire .length, ?_⟩
      change ((if bs.length ≤ capacity then bytes bs.length else failWire .length :
        Decoder Bytes).run bs : EStateM.Result Error Bytes Bytes) = _
      rw [if_neg hroom]
      rfl

theorem settled_ofUtf8 (bs : Bytes) : (ofUtf8 bs).Settled := by
  unfold ofUtf8
  split
  · exact settled_pure _
  · exact settled_fail _

theorem settled_text : text.Settled := settled_string.bind settled_ofUtf8

theorem settled_textWithin (capacity : Nat) : (textWithin capacity).Settled :=
  (settled_stringWithin capacity).bind settled_ofUtf8

theorem settled_label [Label α] : (label : Decoder α).Settled :=
  (settled_textWithin labelCapacity).bind fun _ => settled_ofExcept _

theorem settled_keyType : keyType.Settled := by
  refine settled_text.bind fun name => ?_
  split
  · split
    · exact settled_pure _
    · exact settled_fail _
  · exact settled_fail _

end Decoder

/-! ### Fields -/

theorem Mpint.settled_decoder : Mpint.decoder.Settled :=
  Decoder.settled_string.bind fun _ => Decoder.settled_pure _

/-- Every field is read by a settled decoder. -/
theorem FieldKind.settled_decoder (kind : FieldKind) : kind.decoder.Settled := by
  have hnumber {α : Type} (width : Nat) (f : Nat → α) :
      (Decoder.number width >>= fun n => pure (f n)).Settled :=
    (Decoder.settled_number width).bind fun _ => Decoder.settled_pure _
  cases kind with
  | boolean => exact ((hnumber 1 _).bind fun _ => Decoder.settled_pure _).map _
  | byte => exact (hnumber 1 _).map _
  | uint16 => exact (hnumber 2 _).map _
  | uint32 => exact (hnumber 4 _).map _
  | uint64 => exact (hnumber 8 _).map _
  | array size => exact (Decoder.settled_bytes size).map _
  | string => exact Decoder.settled_string.map _
  | text => exact Decoder.settled_text.map _
  | mpint => exact Mpint.settled_decoder.map _
  | algorithm => exact Decoder.settled_label.map _
  | curve => exact Decoder.settled_label.map _
  | hash => exact Decoder.settled_label.map _

/-! ### Keys -/

theorem RsaPublicKey.settled_decoder : RsaPublicKey.decoder.Settled :=
  Mpint.settled_decoder.bind fun _ => Mpint.settled_decoder.bind fun _ => Decoder.settled_pure _

theorem DsaPublicKey.settled_decoder : DsaPublicKey.decoder.Settled :=
  Mpint.settled_decoder.bind fun _ => Mpint.settled_decoder.bind fun _ =>
    Mpint.settled_decoder.bind fun _ => Mpint.settled_decoder.bind fun _ => Decoder.settled_pure _

theorem EcdsaPublicKey.settled_decoder (curve : Curve) :
    (EcdsaPublicKey.decoder curve).Settled := by
  refine Decoder.settled_text.bind fun name => ?_
  split
  · exact Decoder.settled_string.bind fun _ => Decoder.settled_ofExcept _
  · exact Decoder.settled_fail _

theorem PublicKey.settled_fieldDecoder (algorithm : Algorithm) :
    (PublicKey.fieldDecoder algorithm).Settled := by
  cases algorithm with
  | dsa => exact DsaPublicKey.settled_decoder.map _
  | ecdsa curve => exact (EcdsaPublicKey.settled_decoder curve).map _
  | rsa => exact RsaPublicKey.settled_decoder.map _
  | other name => exact Decoder.settled_fail _

theorem PublicKey.settled_decoder : PublicKey.decoder.Settled :=
  Decoder.settled_keyType.bind PublicKey.settled_fieldDecoder

theorem PublicKey.settled_acceptedDecoder : PublicKey.acceptedDecoder.Settled :=
  PublicKey.settled_decoder.bind fun _ => (Decoder.settled_ofExcept _).bind fun _ =>
    Decoder.settled_pure _

theorem RsaKeypair.settled_decoder : RsaKeypair.decoder.Settled :=
  RsaPublicKey.settled_decoder.bind fun _ => Mpint.settled_decoder.bind fun _ =>
    Mpint.settled_decoder.bind fun _ => Mpint.settled_decoder.bind fun _ =>
      Mpint.settled_decoder.bind fun _ => (Decoder.settled_ofExcept _).bind fun _ =>
        Decoder.settled_pure _

theorem Keypair.settled_fieldDecoder (algorithm : Algorithm) :
    (Keypair.fieldDecoder algorithm).Settled := by
  cases algorithm with
  | dsa =>
      exact (DsaPublicKey.settled_decoder.bind fun _ => Mpint.settled_decoder.bind fun _ =>
        Decoder.settled_pure _).map _
  | ecdsa curve =>
      exact ((EcdsaPublicKey.settled_decoder curve).bind fun _ =>
        Mpint.settled_decoder.bind fun _ => Decoder.settled_pure _).map _
  | rsa => exact RsaKeypair.settled_decoder.map _
  | other name => exact Decoder.settled_fail _

theorem Keypair.settled_decoder : Keypair.decoder.Settled :=
  Decoder.settled_keyType.bind Keypair.settled_fieldDecoder

theorem Keypair.settled_acceptedDecoder : Keypair.acceptedDecoder.Settled :=
  Keypair.settled_decoder.bind fun _ => (Decoder.settled_ofExcept _).bind fun _ =>
    Decoder.settled_pure _

end SshKeys
