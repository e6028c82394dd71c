/-
**How the material of a key is refused.**

Once a key has been read, what is left to fail is the judgement on its numbers.  A refusal names
the type of the key, so that a caller can tell it from data that are no key at all.  There is one
refusal of another kind: the secret scalar of an ECDSA keypair is padded to the width of a
coordinate before its range is looked at, and a scalar that is too wide for that ends the reading
with an error about a length.

Main definitions:

* `SshKeys.Decoder.Yields` — every value that a decoder can end with has a property;
* `SshKeys.Keypair.HasWideScalar` — a keypair whose secret scalar is too wide for its curve;
* `SshKeys.Buffer.HandsOut` — a key is handed out, or is refused in the name of its type.

Main results:

* `SshKeys.PublicKey.accept_cases`, `SshKeys.Keypair.accept_cases` — what acceptance can end with;
* `SshKeys.Buffer.refusals_name_type` — **what can fail once a key has been read**.
-/

import SshKeys.Proofs.Acceptance
import SshKeys.Proofs.CurveLaw
import SshKeys.Proofs.KeypairWire
import SshKeys.Key.Exchange

set_option relaxedAutoImplicit false
set_option autoImplicit false

namespace SshKeys

/-! ### What decoders end with -/

namespace Decoder

variable {α β : Type}

/-- Every value that a decoder can end with has a property, whatever it reads. -/
def Yields {α : Type} (d : Decoder α) (P : α → Prop) : Prop :=
  match d with
  | done a => P a
  | fail _ => True
  | take _ next => ∀ bs, (next bs).Yields P
  | remaining next => ∀ count, (next count).Yields P
  | confine _ _ next => ∀ b, (next b).Yields P

/-- What a run ends with has the property, on any source. -/
theorem Yields.of_run {σ : Type} [Source σ] {d : Decoder α} {P : α → Prop} (h : d.Yields P)
    {s s' : σ} {a : α} (hrun : d.run s = .ok a s') : P a := by
  induction d generalizing s with
  | done a' =>
      obtain ⟨rfl, -⟩ := EStateM.Result.ok.inj hrun
      exact h
  | fail error => cases hrun
  | take count next ih =>
      rw [run, bind_apply] at hrun
      split at hrun
      · exact ih _ (h _) hrun
      · cases hrun
  | remaining next ih =>
      exact ih _ (h _) hrun
  | confine length body next _ ih =>
      rw [run, bind_apply] at hrun
      split at hrun
      · exact ih _ (h _) hrun
      · cases hrun

theorem yields_true (d : Decoder α) : d.Yields fun _ => True := by
  induction d with
  | done a => trivial
  | fail error => trivial
  | take count next ih => exact ih
  | remaining next ih => exact ih
  | confine length body next _ ih => exact ih

theorem Yields.bind {d : Decoder α} {f : α → Decoder β} {P : α → Prop} {Q : β → Prop}
    (h : d.Yields P) (hf : ∀ a, P a → (f a).Yields Q) : (d >>= f).Yields Q := by
  change (d.bind f).Yields Q
  induction d with
  | done a => exact hf a h
  | fail error => trivial
  | take count next ih => exact fun bs => ih bs (h bs) hf
  | remaining next ih => exact fun count => ih count (h count) hf
  | confine length body next _ ih => exact fun b => ih b (h b) hf

/-- Where nothing needs to be known of what comes first. -/
theorem yields_bind_of_forall {d : Decoder α} {f : α → Decoder β} {P : β → Prop}
    (hf : ∀ a, (f a).Yields P) : (d >>= f).Yields P :=
  d.yields_true.bind fun a _ => hf a

theorem Yields.map {d : Decoder α} {f : α → β} {P : β → Prop} (h : d.Yields fun a => P (f a)) :
    (f <$> d).Yields P := by
  rw [← bind_pure_comp]
  exact h.bind fun _ ha => ha

theorem yields_ofExcept {x : Except Error α} {P : α → Prop} (h : ∀ a, x = .ok a → P a) :
    (ofExcept x).Yields P := by
  cases x with
  | error error => trivial
  | ok a => exact h a rfl

end Decoder

/-! ### Keys as they are read -/

/-- The point of a key that is read has room at the width of the field. -/
theorem EcdsaPublicKey.yields_decoder (curve : Curve) :
    (decoder curve).Yields fun key => key.point.Within key.curve := by
  refine Decoder.yields_bind_of_forall fun name => ?_
  split
  · refine Decoder.yields_bind_of_forall fun octets => Decoder.yields_ofExcept fun key hkey => ?_
    obtain ⟨hcurve, hpoint⟩ := ofOctets_eq_ok.1 hkey
    rw [hcurve]
    exact Point.within_of_ofOctets hpoint
  · trivial

theorem PublicKey.yields_decoder : decoder.Yields WellSized := by
  refine Decoder.yields_bind_of_forall fun algorithm => ?_
  cases algorithm with
  | dsa => exact DsaPublicKey.decoder.yields_true.map
  | ecdsa curve => exact (EcdsaPublicKey.yields_decoder curve).map
  | rsa => exact RsaPublicKey.decoder.yields_true.map
  | other name => trivial

theorem Keypair.yields_decoder : decoder.Yields fun pair => pair.publicKey.WellSized := by
  refine Decoder.yields_bind_of_forall fun algorithm => ?_
  cases algorithm with
  | dsa => exact DsaKeypair.decoder.yields_true.map
  | ecdsa curve =>
      have hpair : (EcdsaKeypair.decoder curve).Yields fun pair =>
          pair.publicKey.point.Within pair.publicKey.curve :=
        (EcdsaPublicKey.yields_decoder curve).bind fun _ hkey =>
          Decoder.yields_bind_of_forall fun _ => hkey
      exact hpair.map
  | rsa => exact RsaKeypair.decoder.yields_true.map
  | other name => trivial

/-! ### What acceptance can end with -/

/-- The outcome of an acceptance is the numbers, or a refusal in the name of a key type. -/
def Judged {α : Type} (outcome : Except Error α) (algorithm : Algorithm) : Prop :=
  (∃ numbers, outcome = .ok numbers) ∨ ∃ reason, outcome = .error (.materialRejected algorithm reason)

theorem Judged.map {α β : Type} {outcome : Except Error α} {algorithm : Algorithm}
    (h : Judged outcome algorithm) (f : α → β) : Judged (f <$> outcome) algorithm := by
  rcases h with ⟨numbers, rfl⟩ | ⟨reason, rfl⟩
  · exact .inl ⟨f numbers, rfl⟩
  · exact .inr ⟨reason, rfl⟩

theorem RsaPublicKey.judged_accept (key : RsaPublicKey) : Judged key.accept .rsa := by
  unfold accept
  split
  · exact .inl ⟨_, rfl⟩
  · exact .inr ⟨_, rfl⟩

theorem DsaPublicKey.judged_accept (key : DsaPublicKey) : Judged key.accept .dsa := by
  unfold accept
  split
  · exact .inl ⟨_, rfl⟩
  · exact .inr ⟨_, rfl⟩

theorem EcdsaPublicKey.judged_accept {key : EcdsaPublicKey} (h : key.point.Within key.curve) :
    Judged key.accept key.algorithm := by
  by_cases hon : key.curve.params.isOnCurve key.point.x.toNat key.point.y.toNat = true
  · exact .inl ⟨_, acceptOn_eq_ok_iff.2 ⟨rfl, h, hon, rfl⟩⟩
  · refine .inr ⟨"point is not on the curve", ?_⟩
    simp only [accept, acceptOn, toOctets, Point.toOctets_of_within h, if_neg hon]
    simp [throw_eq_error, reject, bind, Except.bind]

/-- A public key that was read is accepted, or its numbers are refused. -/
theorem PublicKey.judged_accept {key : PublicKey} (h : key.WellSized) :
    Judged key.accept key.algorithm := by
  cases key with
  | dsa key => exact key.judged_accept.map _
  | ecdsa key => exact (EcdsaPublicKey.judged_accept h).map _
  | rsa key => exact key.judged_accept.map _
  | other key => exact absurd h id

theorem RsaKeypair.judged_accept (pair : RsaKeypair) : Judged pair.accept .rsa := by
  unfold accept
  split
  · exact .inl ⟨_, rfl⟩
  · exact .inr ⟨_, rfl⟩

theorem DsaKeypair.judged_accept (pair : DsaKeypair) : Judged pair.accept .dsa := by
  rcases pair.publicKey.judged_accept with ⟨publicKey, hpublic⟩ | ⟨reason, hpublic⟩
  · simp only [accept, hpublic]
    by_cases hrange : (pair.privateKey.x.toNat = 0 || publicKey.q < pair.privateKey.x.toNat) = true
    · exact .inr ⟨_, if_pos hrange⟩
    · exact .inl ⟨_, if_neg hrange⟩
  · exact .inr ⟨reason, by simp only [accept, hpublic, error_bind]⟩

namespace EcdsaKeypair

/-- The public half is accepted, and the secret scalar has no room at the width of a coordinate. -/
def HasWideScalar (pair : EcdsaKeypair) : Prop :=
  (∃ numbers, pair.publicKey.accept = .ok numbers) ∧
    pair.publicKey.curve.fieldSize < pair.privateKey.scalar.magnitude.length

variable {pair : EcdsaKeypair}

/-- A scalar is judged by its value, unless it has no room. -/
theorem judged_accept (h : pair.publicKey.point.Within pair.publicKey.curve)
    (hnarrow : ¬pair.HasWideScalar) : Judged pair.accept pair.publicKey.algorithm := by
  rcases EcdsaPublicKey.judged_accept h with ⟨publicKey, hpublic⟩ | ⟨reason, hpublic⟩
  · have hroom : pair.privateKey.scalar.magnitude.length ≤ pair.publicKey.curve.fieldSize :=
      Nat.not_lt.1 fun hwide => hnarrow ⟨⟨publicKey, hpublic⟩, hwide⟩
    rw [EcdsaPublicKey.accept] at hpublic
    simp only [accept, acceptOn, hpublic, ok_bind, Mpint.padded_of_le hroom]
    split
    · exact .inr ⟨_, rfl⟩
    · split
      · exact .inl ⟨_, rfl⟩
      · exact .inr ⟨_, rfl⟩
  · rw [EcdsaPublicKey.accept] at hpublic
    exact .inr ⟨reason, by simp only [accept, acceptOn, hpublic, error_bind]⟩

/-- A scalar without room is an error about a length. -/
theorem HasWideScalar.accept_eq (h : pair.HasWideScalar) : pair.accept = .error (.wire .length) := by
  obtain ⟨⟨publicKey, hpublic⟩, hwide⟩ := h
  rw [EcdsaPublicKey.accept] at hpublic
  simp only [accept, acceptOn, hpublic, ok_bind, Mpint.padded_of_not_le (Nat.not_le.2 hwide),
    error_bind]

end EcdsaKeypair

namespace Keypair

/-- A keypair on a curve whose secret scalar has no room at the width of a coordinate, although the
public half is accepted. -/
def HasWideScalar : Keypair → Prop
  | ecdsa pair => pair.HasWideScalar
  | _ => False

variable {pair : Keypair}

/-- A keypair that was read is accepted, or its numbers are refused, unless its scalar has no
room. -/
theorem judged_accept (h : pair.publicKey.WellSized) (hnarrow : ¬pair.HasWideScalar) :
    Judged pair.accept pair.algorithm := by
  cases pair with
  | dsa pair => exact pair.judged_accept.map _
  | ecdsa pair => exact (EcdsaKeypair.judged_accept h hnarrow).map _
  | rsa pair => exact pair.judged_accept.map _
  | other pair => exact absurd h id

theorem HasWideScalar.accept_eq (h : pair.HasWideScalar) : pair.accept = .error (.wire .length) := by
  cases pair with
  | ecdsa pair =>
      rw [accept, EcdsaKeypair.HasWideScalar.accept_eq h]
      rfl
  | _ => exact absurd h id

end Keypair

/-! ### Keys in buffers -/

namespace Decoder

variable {α γ : Type}

/-- A decoder whose value is judged once it has been read. -/
def judgedBy (d : Decoder α) (judge : α → Except Error γ) : Decoder α := do
  let a ← d
  let _ ← ofExcept (judge a)
  pure a

theorem run_judgedBy {σ : Type} [Source σ] {d : Decoder α} (judge : α → Except Error γ) {s s' : σ}
    {a : α} (h : d.run s = .ok a s') :
    (d.judgedBy judge).run s =
      match judge a with
      | .ok _ => .ok a s'
      | .error error => .error error s' := by
  rw [judgedBy, run_bind, bind_apply, h]
  change (ofExcept (judge a) >>= fun _ => pure a : Decoder α).run s' = _
  cases judge a <;> rfl

end Decoder

namespace Buffer

/-- A key is handed out, or its numbers are refused in the name of its type.  Both leave what was
left behind the key. -/
def HandsOut {α : Type} (result : EStateM.Result Error Buffer α) (key : α) (algorithm : Algorithm)
    (left : Buffer) : Prop :=
  result = .ok key left ∨ ∃ reason, result = .error (.materialRejected algorithm reason) left

theorem handsOut_of_judged {α γ : Type} {d : Decoder α} {judge : α → Except Error γ}
    {b left : Buffer} {key : α} {algorithm : Algorithm} (h : d.run b = .ok key left)
    (hjudged : Judged (judge key) algorithm) :
    HandsOut ((d.judgedBy judge).run b) key algorithm left := by
  rw [Decoder.run_judgedBy _ h]
  rcases hjudged with ⟨numbers, hjudge⟩ | ⟨reason, hjudge⟩
  · exact .inl (by rw [hjudge])
  · exact .inr ⟨reason, by rw [hjudge]⟩

/-- **What can fail once a key has been read.**  A public key is handed out or refused in the name of
its type.  So is a keypair, with one exception: an ECDSA keypair whose public half is accepted and
whose secret scalar has no room at the width of a coordinate ends in an error about a length. -/
theorem refusals_name_type (b : Buffer) :
    (∀ key left, get PublicKey.decoder b = .ok key left →
      HandsOut (getKey b) key key.algorithm left) ∧
    ∀ pair left, get Keypair.decoder b = .ok pair left →
      (¬pair.HasWideScalar → HandsOut (getKeypair b) pair pair.algorithm left) ∧
      (pair.HasWideScalar → getKeypair b = .error (.wire .length) left) := by
  refine ⟨fun key left hread => ?_, fun pair left hread => ⟨fun hnarrow => ?_, fun hwide => ?_⟩⟩
  · have hsized : key.WellSized := PublicKey.yields_decoder.of_run hread
    exact handsOut_of_judged hread (PublicKey.judged_accept hsized)
  · have hsized : pair.publicKey.WellSized := Keypair.yields_decoder.of_run hread
    exact handsOut_of_judged hread (Keypair.judged_accept hsized hnarrow)
  · change (Keypair.decoder.judgedBy Keypair.accept).run b = _
    rw [Decoder.run_judgedBy _ hread, hwide.accept_eq]

/-- What reads from a whole byte string is read from a buffer that holds it. -/
theorem get_ofBytes_of_reads {α : Type} {d : Decoder α} {blob : Bytes} {a : α}
    (h : d.Reads blob a []) :
    get d (ofBytes blob) = .ok a ((ofBytes blob).advance blob.length) := by
  have hreads : d.Reads (blob ++ []) a [] := by rwa [List.append_nil]
  exact run_of_reads ⟨Nat.zero_le _, Nat.le_refl _⟩ (by rw [unread_ofBytes, List.append_nil]) hreads

/-- The generator of a curve with a secret scalar. -/
def generatorPair (curve : Curve) (scalar : Nat) : EcdsaKeypair :=
  ⟨⟨curve, .ofNat curve.params.generatorX, .ofNat curve.params.generatorY⟩, ⟨.ofNat scalar⟩⟩

theorem wellBuilt_generatorPair (curve : Curve) (scalar : Nat) :
    (Keypair.ecdsa (generatorPair curve scalar)).WellBuilt := by
  obtain ⟨hx, hy, -⟩ := CurveParams.isOnCurve_eq_true_iff.1 curve.isOnCurve_generator
  refine ⟨(Mpint.length_magnitude_le_iff _ _).2 ?_, (Mpint.length_magnitude_le_iff _ _).2 ?_⟩
  · exact (Mpint.toNat_ofNat _).trans_lt (hx.trans curve.p_lt)
  · exact (Mpint.toNat_ofNat _).trans_lt (hy.trans curve.p_lt)

/-- The least scalar of one byte more than a coordinate is too wide. -/
theorem hasWideScalar_generatorPair (curve : Curve) :
    (generatorPair curve (256 ^ curve.fieldSize)).HasWideScalar := by
  refine ⟨⟨⟨curve, _, _⟩, EcdsaPublicKey.acceptOn_eq_ok_iff.2
    ⟨rfl, wellBuilt_generatorPair curve 0, ?_, rfl⟩⟩, ?_⟩
  · simpa [generatorPair] using curve.isOnCurve_generator
  · refine Nat.lt_of_not_le fun hnarrow => ?_
    rw [Mpint.length_magnitude_le_iff, generatorPair, Mpint.toNat_ofNat] at hnarrow
    exact Nat.lt_irrefl _ hnarrow

/-- With a scalar of one byte more than a coordinate the generator of P-256 ends in an error about a
length, and with its own order it is refused in the name of its type.  So is a public point that is
not on the curve. -/
theorem refusals_name_type_generator :
    (∃ blob left, (PublicKey.ecdsa ⟨.nistP256, .ofNat 1, .ofNat 1⟩).toBytes = .ok blob ∧
      HandsOut (getKey (ofBytes blob)) (.ecdsa ⟨.nistP256, .ofNat 1, .ofNat 1⟩)
        (.ecdsa .nistP256) left) ∧
    (∃ blob left, (Keypair.ecdsa (generatorPair .nistP256 (256 ^ 32))).toBytes = .ok blob ∧
      getKeypair (ofBytes blob) = .error (.wire .length) left) ∧
    ∃ blob left,
      (Keypair.ecdsa (generatorPair .nistP256 Curve.nistP256.params.order)).toBytes = .ok blob ∧
      HandsOut (getKeypair (ofBytes blob))
        (.ecdsa (generatorPair .nistP256 Curve.nistP256.params.order)) (.ecdsa .nistP256) left := by
  refine ⟨?_, ?_, ?_⟩
  · have hsized : (PublicKey.ecdsa ⟨.nistP256, .ofNat 1, .ofNat 1⟩).WellSized := by
      change Point.Within ⟨.ofNat 1, .ofNat 1⟩ .nistP256
      decide
    have hread := get_ofBytes_of_reads (PublicKey.reads_decoder.2
      ⟨_, hsized.spelledBy_fields, by decide, (List.append_nil _).symm⟩)
    exact ⟨_, _, PublicKey.toBytes_eq hsized (by decide), (refusals_name_type _).1 _ _ hread⟩
  · have hbuilt := wellBuilt_generatorPair .nistP256 (256 ^ 32)
    have hfit : ∀ field ∈ (Keypair.ecdsa (generatorPair .nistP256 (256 ^ 32))).fields,
        Fits field := by decide +kernel
    have hread := get_ofBytes_of_reads (by simpa using Keypair.reads_blob hbuilt hfit [])
    have hwide : (Keypair.ecdsa (generatorPair .nistP256 (256 ^ 32))).HasWideScalar :=
      hasWideScalar_generatorPair .nistP256
    exact ⟨_, _, (Keypair.toBytes_eq hbuilt hfit).1,
      ((refusals_name_type _).2 _ _ hread).2 hwide⟩
  · have hbuilt := wellBuilt_generatorPair .nistP256 Curve.nistP256.params.order
    have hfit : ∀ field ∈
        (Keypair.ecdsa (generatorPair .nistP256 Curve.nistP256.params.order)).fields,
        Fits field := by decide +kernel
    have hread := get_ofBytes_of_reads (by simpa using Keypair.reads_blob hbuilt hfit [])
    have hnarrow :
        ¬(Keypair.ecdsa (generatorPair .nistP256 Curve.nistP256.params.order)).HasWideScalar :=
      fun hwide => absurd hwide.2 (by decide +kernel)
    exact ⟨_, _, (Keypair.toBytes_eq hbuilt hfit).1,
      ((refusals_name_type _).2 _ _ hread).1 hnarrow⟩

end Buffer

end SshKeys
