/-
**The public half of an accepted keypair.**

A keypair is judged with its public half, and what is asked of the public half there is what is
asked of a public key on its own.  The one rule that is missing is the bound on an RSA modulus: an
RSA keypair may have a modulus of any length, but a public key with more than 4096 bits is refused.
So the public half of a keypair that came out of a buffer can be sent on and is read back, unless
its modulus is that long.

Main definitions:

* `SshKeys.Keypair.HasLongModulus` — an RSA keypair whose modulus is too long for a public key.

Main results:

* `SshKeys.Keypair.accept_publicKey` — the judgement on the public half of an accepted keypair;
* `SshKeys.Buffer.getFramedKey_of_frame` — a framed key is handed out as its numbers are judged;
* `SshKeys.Buffer.public_halves_return` — **public halves are accepted and read back unless their
  modulus is too long**.
-/

import SshKeys.Proofs.AcceptedNumbers
import SshKeys.Proofs.FramedReads
import SshKeys.Proofs.FramedWrites
import SshKeys.Proofs.Refusals

set_option relaxedAutoImplicit false
set_option autoImplicit false

namespace SshKeys

/-! ### Judging the public half -/

/-- The modulus of a key is longer than a public key may have it. -/
def RsaPublicKey.HasLongModulus (key : RsaPublicKey) : Prop :=
  RsaVerifyingKey.maxBits < bitLength key.n.toNat

namespace RsaKeypair

variable {pair : RsaKeypair} {numbers : RsaSigningKey}

/-- A public key is judged as a keypair is, once its modulus is short enough. -/
theorem accept_publicKey (h : pair.accept = .ok numbers)
    (hshort : ¬pair.publicKey.HasLongModulus) :
    pair.publicKey.accept = .ok numbers.publicKey := by
  obtain ⟨hcheck, rfl⟩ := accept_eq_ok_iff.1 h
  have hpublic : pair.publicKey.numbers.check = .ok () := (RsaSigningKey.check_eq_ok_iff.1 hcheck).1
  have halone : pair.publicKey.numbers.checkAlone = pair.publicKey.numbers.check := if_neg hshort
  exact RsaPublicKey.accept_eq_ok_iff.2 ⟨halone.trans hpublic, rfl⟩

end RsaKeypair

/-- The length of the modulus is looked at before anything else. -/
theorem RsaPublicKey.accept_of_long {key : RsaPublicKey} (hlong : key.HasLongModulus) :
    key.accept = .error (.materialRejected .rsa "modulus too large") := by
  have hcheck : key.numbers.checkAlone = .error .modulusTooLarge := if_pos hlong
  rw [accept, hcheck]
  rfl

namespace Keypair

/-- An RSA keypair whose modulus is too long for a public key. -/
def HasLongModulus : Keypair → Prop
  | rsa pair => pair.publicKey.HasLongModulus
  | _ => False

variable {pair : Keypair} {numbers : SigningKey}

/-- The public half of an accepted keypair has the numbers of the keypair, unless its modulus is too
long. -/
theorem accept_publicKey (h : pair.accept = .ok numbers) (hshort : ¬pair.HasLongModulus) :
    pair.publicKey.accept = .ok numbers.verifyingKey := by
  cases pair with
  | dsa pair =>
      obtain ⟨accepted, haccept, rfl⟩ := map_eq_ok_iff.1 h
      exact map_eq_ok_iff.2 ⟨_, DsaKeypair.accept_publicKey haccept, rfl⟩
  | ecdsa pair =>
      obtain ⟨accepted, haccept, rfl⟩ := map_eq_ok_iff.1 h
      exact map_eq_ok_iff.2 ⟨_, EcdsaKeypair.accept_publicKey haccept, rfl⟩
  | rsa pair =>
      obtain ⟨accepted, haccept, rfl⟩ := map_eq_ok_iff.1 h
      exact map_eq_ok_iff.2 ⟨_, RsaKeypair.accept_publicKey haccept hshort, rfl⟩
  | other pair => simp [accept] at h

/-- A public half whose modulus is too long is refused. -/
theorem HasLongModulus.accept_publicKey (h : pair.HasLongModulus) :
    pair.publicKey.accept = .error (.materialRejected .rsa "modulus too large") := by
  cases pair with
  | rsa pair =>
      rw [publicKey, PublicKey.accept, RsaPublicKey.accept_of_long h]
      rfl
  | _ => exact absurd h id

end Keypair

/-! ### Room for the public half -/

/-- The public half stands in front of a keypair, and a private field behind it. -/
theorem Keypair.reads_publicKey {pair : Keypair} {bs rest : Bytes}
    (h : decoder.Reads bs pair rest) :
    ∃ mid, PublicKey.decoder.Reads bs pair.publicKey mid ∧ 4 ≤ mid.length := by
  obtain ⟨algorithm, fields, hkeyType, hpair⟩ := Decoder.reads_bind.1 h
  have hpublic {key : PublicKey} {mid : Bytes}
      (hfields : (PublicKey.fieldDecoder algorithm).Reads fields key mid) :
      PublicKey.decoder.Reads bs key mid :=
    Decoder.reads_bind.2 ⟨algorithm, fields, hkeyType, hfields⟩
  cases algorithm with
  | dsa =>
      obtain ⟨pair, hread, rfl⟩ := Decoder.reads_map.1 hpair
      obtain ⟨key, mid, hkey, hsecret⟩ := Decoder.reads_bind.1 hread
      obtain ⟨x, rest', hx, hpair⟩ := Decoder.reads_bind.1 hsecret
      obtain ⟨rfl, rfl⟩ := Decoder.reads_pure.1 hpair
      obtain ⟨form, -, -, rfl⟩ := Mpint.reads_decoder.1 hx
      exact ⟨_, hpublic (Decoder.reads_map.2 ⟨key, hkey, rfl⟩), by simp; omega⟩
  | ecdsa curve =>
      obtain ⟨pair, hread, rfl⟩ := Decoder.reads_map.1 hpair
      obtain ⟨key, mid, hkey, hsecret⟩ := Decoder.reads_bind.1 hread
      obtain ⟨scalar, rest', hscalar, hpair⟩ := Decoder.reads_bind.1 hsecret
      obtain ⟨rfl, rfl⟩ := Decoder.reads_pure.1 hpair
      obtain ⟨form, -, -, rfl⟩ := Mpint.reads_decoder.1 hscalar
      exact ⟨_, hpublic (Decoder.reads_map.2 ⟨key, hkey, rfl⟩), by simp; omega⟩
  | rsa =>
      obtain ⟨pair, hread, rfl⟩ := Decoder.reads_map.1 hpair
      obtain ⟨key, mid, hkey, hsecret⟩ := Decoder.reads_bind.1 hread
      simp only [Decoder.reads_bind, Decoder.reads_ofExcept, Decoder.reads_pure] at hsecret
      obtain ⟨d, _, hd, _, _, -, _, _, -, _, _, -, _, _, -, rfl, rfl⟩ := hsecret
      obtain ⟨form, -, -, rfl⟩ := Mpint.reads_decoder.1 hd
      exact ⟨_, hpublic (Decoder.reads_map.2 ⟨key, hkey, rfl⟩), by simp; omega⟩
  | other name => exact absurd hpair Decoder.not_reads_fail

/-- The blob of a key is hardly longer than what the key was read from: by a sign byte for each
number, or because a point is written at full width. -/
theorem PublicKey.SpelledBy.length_blob_le {key : PublicKey} {forms : List Bytes}
    (h : key.SpelledBy forms) :
    (prefixedAll (utf8Bytes key.algorithm.name :: key.fields)).length ≤
      max 172 ((prefixedAll (utf8Bytes key.algorithm.name :: forms)).length + 4) := by
  have hnumber (form : Bytes) : (Mpint.ofMagnitude form).body.length ≤ form.length + 1 :=
    (Mpint.length_body_le _).trans (Nat.succ_le_succ (Mpint.length_ofMagnitude_le form))
  cases h with
  | dsa p q g y =>
      have hp := hnumber p
      have hq := hnumber q
      have hg := hnumber g
      have hy := hnumber y
      simp [fields, DsaPublicKey.fields, algorithm]
      omega
  | @ecdsa curve point octets h =>
      have hname : (utf8Bytes (Algorithm.ecdsa curve).name).length = 19 := by cases curve <;> rfl
      have hcurve : (utf8Bytes curve.name).length = 8 := by cases curve <;> rfl
      have hwidth : curve.fieldSize ≤ 66 := by cases curve <;> decide
      have hpoint := Point.length_octets (Point.within_of_ofOctets h)
      simp [fields, EcdsaPublicKey.fields, algorithm, EcdsaPublicKey.algorithm, hname, hcurve, hpoint]
      omega
  | rsa e n =>
      have he := hnumber e
      have hn := hnumber n
      simp [fields, RsaPublicKey.fields, algorithm]
      omega

/-- A string is no longer than a row of strings in which it stands. -/
theorem length_le_prefixedAll {bs : Bytes} {strings : List Bytes} (h : bs ∈ strings) :
    bs.length ≤ (prefixedAll strings).length := by
  induction strings with
  | nil => cases h
  | cons s strings ih =>
      rw [prefixedAll_cons, List.length_append, length_prefixed]
      rcases List.mem_cons.1 h with rfl | h
      · omega
      · have hrest := ih h
        omega

/-- The public half of a keypair that was read from fewer than `2 ^ 31` bytes has a blob that
fits. -/
theorem Keypair.exists_publicBlob {pair : Keypair} {bs rest : Bytes} (h : decoder.Reads bs pair rest)
    (hshort : bs.length < 2 ^ 31) :
    ∃ blob, pair.publicKey.toBytes = .ok blob ∧ Fits blob := by
  obtain ⟨mid, hpublic, hmid⟩ := reads_publicKey h
  obtain ⟨forms, hspelled, -, rfl⟩ := PublicKey.reads_decoder.1 hpublic
  have hlength := hspelled.length_blob_le
  rw [List.length_append] at hshort
  have hfits : Fits (prefixedAll (utf8Bytes pair.publicKey.algorithm.name ::
      pair.publicKey.fields)) := by
    rw [fits_iff]
    omega
  refine ⟨_, PublicKey.toBytes_eq hspelled.wellSized ?_, hfits⟩
  intro field hfield
  exact (length_le_prefixedAll (List.mem_cons_of_mem _ hfield)).trans hfits

/-! ### Keys behind their length -/

/-- What is written for a key is read as the key. -/
theorem PublicKey.reads_written {key : PublicKey} (h : key.WellSized) {blob : Bytes}
    (hblob : key.encoding.emission.result = .ok blob) : decoder.Reads blob key [] := by
  rw [(spells_encoding h).result, writeAll] at hblob
  split at hblob
  · next hfit =>
      obtain rfl := Except.ok.inj hblob
      obtain ⟨-, hfields⟩ := List.forall_mem_cons.1 hfit
      exact reads_decoder.2 ⟨key.fields, h.spelledBy_fields, hfields, (List.append_nil _).symm⟩
  · cases hblob

namespace Buffer

/-- A decoder that is judged succeeds if what it reads is judged well. -/
theorem run_judgedBy_eq_ok {α γ : Type} {d : Decoder α} {judge : α → Except Error γ}
    {b left : Buffer} {a : α} (h : (d.judgedBy judge).run b = .ok a left) :
    d.run b = .ok a left ∧ ∃ numbers, judge a = .ok numbers := by
  cases hread : d.run b with
  | error error left' =>
      rw [Decoder.judgedBy, Decoder.run_bind, bind_apply, hread] at h
      cases h
  | ok a' left' =>
      rw [Decoder.run_judgedBy _ hread] at h
      cases hjudge : judge a' with
      | error error =>
          rw [hjudge] at h
          cases h
      | ok numbers =>
          rw [hjudge] at h
          cases h
          exact ⟨rfl, numbers, hjudge⟩

/-- A key that goes in behind its length leaves a frame of its bytes. -/
theorem frame_of_putFramedKey {key : PublicKey} {b b' : Buffer} (hb : b.WellFormed)
    (h : putFramedKey key b = .ok () b') :
    ∃ blob, key.encoding.emission.result = .ok blob ∧ Fits blob ∧ b'.WellFormed ∧
      b'.unread = b.unread ++ prefixed blob := by
  obtain ⟨written, hput, hextends⟩ := (adds_put key.encoding).putFramed b hb
  have hrun : outcome (putFramedKey key b) = (.ok (), b') := by rw [h]; rfl
  obtain ⟨hverdict, rfl⟩ := Prod.mk.inj (hput.symm.trans hrun)
  obtain ⟨hok, hfits, hbytes⟩ := framed_eq_ok_iff.1 ⟨hverdict, rfl⟩
  refine ⟨_, Emission.result_eq_ok.2 ⟨hok, rfl⟩, hfits, hextends.wellFormed hb, ?_⟩
  rw [hextends.unread hb, hbytes]

/-- A framed key is handed out or refused as its numbers are judged.  Either way the whole frame is
taken. -/
theorem getFramedKey_of_frame {key : PublicKey} {blob : Bytes} {b : Buffer} (h : b.WellFormed)
    (hfits : Fits blob) (hunread : b.unread = prefixed blob)
    (hread : PublicKey.decoder.Reads blob key []) :
    getFramedKey b =
      match key.accept with
      | .ok _ => .ok key (b.advance (4 + blob.length))
      | .error error => .error error (b.advance (4 + blob.length)) := by
  have havailable : b.available = 4 + blob.length := by
    rw [← length_unread h, hunread, length_prefixed]
  have hbehind : (b.advance 4).WellFormed := h.advance (by omega)
  have hroom : blob.length ≤ (b.advance 4).available := by
    rw [available_advance]
    omega
  -- the stretch holds the blob and nothing else
  have hstretch : ((b.advance 4).narrow blob.length).unread = blob ++ [] := by
    rw [unread_narrow hroom, unread_advance, hunread, prefixed,
      List.drop_left' (length_bigEndian 4 _), List.take_length, List.append_nil]
  have hkey := run_of_reads (hbehind.narrow hroom) hstretch (by rwa [List.append_nil])
  have hjudged : getKey ((b.advance 4).narrow blob.length) = _ :=
    Decoder.run_judgedBy PublicKey.accept hkey
  rw [getFramedKey_eq, getFramed_of_unread h hfits (by rw [hunread, List.append_nil]), confine,
    ensureAvailable, if_pos hroom, narrow_eq, hjudged]
  cases key.accept with
  | error error => simp [advance_narrow_widen]
  | ok numbers => simp [advance_narrow_widen]

/-- **Public halves are accepted and read back unless their modulus is too long.**  The numbers that
are accepted are those of the keypair.  If a keypair comes out of one buffer and its public half goes
into another behind its length, as it does if there were fewer than `2 ^ 31` bytes to read the
keypair from, then it is read back as soon as what stood before it has been read.  But a public half
whose modulus is too long is refused there. -/
theorem public_halves_return (pair : Keypair) :
    (∀ numbers, pair.accept = .ok numbers →
      (¬pair.HasLongModulus → pair.publicKey.accept = .ok numbers.verifyingKey) ∧
      (pair.HasLongModulus →
        pair.publicKey.accept = .error (.materialRejected .rsa "modulus too large"))) ∧
    ∀ source left b : Buffer, getKeypair source = .ok pair left → b.WellFormed →
      (source.WellFormed → source.available < 2 ^ 31 →
        ∃ b', putFramedKey pair.publicKey b = .ok () b') ∧
      ∀ b', putFramedKey pair.publicKey b = .ok () b' →
        (¬pair.HasLongModulus → ∃ ended,
          getFramedKey (b'.advance b.available) = .ok pair.publicKey ended ∧ ended.unread = []) ∧
        (pair.HasLongModulus → ∃ ended,
          getFramedKey (b'.advance b.available) =
            .error (.materialRejected .rsa "modulus too large") ended ∧ ended.unread = []) := by
  refine ⟨fun numbers haccept =>
    ⟨Keypair.accept_publicKey haccept, Keypair.HasLongModulus.accept_publicKey⟩, ?_⟩
  intro source left b hget hb
  obtain ⟨hread, numbers, haccept⟩ := run_judgedBy_eq_ok hget
  constructor
  · intro hsource hshort
    have hreads := (run_eq_ok_iff hsource).1 ⟨left, hread, rfl⟩
    rw [← length_unread hsource] at hshort
    obtain ⟨blob, hblob, hfits⟩ := Keypair.exists_publicBlob hreads hshort
    obtain ⟨b', hput, -⟩ := putFramedKey_of_toBytes hblob hfits hb
    exact ⟨b', hput⟩
  · intro b' hput
    have hsized : pair.publicKey.WellSized := Keypair.yields_decoder.of_run hread
    obtain ⟨blob, hblob, hfits, hb', hunread⟩ := frame_of_putFramedKey hb hput
    have hlength := length_unread hb'
    rw [hunread, List.length_append, length_unread hb] at hlength
    -- what stood before the frame has been read
    have hframe : (b'.advance b.available).unread = prefixed blob := by
      rw [unread_advance, hunread, ← length_unread hb, List.drop_left]
    have hfront : (b'.advance b.available).WellFormed := hb'.advance (by omega)
    have hwhole : ((b'.advance b.available).advance (4 + blob.length)).unread = [] := by
      rw [unread_advance, hframe, ← length_prefixed, List.drop_length]
    have hjudged := getFramedKey_of_frame hfront hfits hframe (PublicKey.reads_written hsized hblob)
    constructor
    · intro hshort
      rw [Keypair.accept_publicKey haccept hshort] at hjudged
      exact ⟨_, hjudged, hwhole⟩
    · intro hlong
      rw [hlong.accept_publicKey] at hjudged
      exact ⟨_, hjudged, hwhole⟩

/-- An RSA keypair of given numbers, without the inverse of `q`. -/
def rsaPair (e d p q : Nat) : RsaKeypair :=
  ⟨⟨.ofNat e, .ofNat (p * q)⟩,
    ⟨.ofNat d, .ofNat 0, .ofNat p, .ofNat q, .ofNat (d % (p - 1)), .ofNat (d % (q - 1))⟩⟩

theorem accept_rsaPair {e d p q : Nat}
    (h : RsaSigningKey.check ⟨⟨p * q, e⟩, d, [p, q]⟩ = .ok ()) :
    (Keypair.rsa (rsaPair e d p q)).accept = .ok (.rsa ⟨⟨p * q, e⟩, d, [p, q]⟩) := by
  have hnumbers : (rsaPair e d p q).numbers = ⟨⟨p * q, e⟩, d, [p, q]⟩ := by
    simp [RsaKeypair.numbers, RsaPublicKey.numbers, rsaPair]
  rw [← hnumbers] at h ⊢
  exact map_eq_ok_iff.2 ⟨_, RsaKeypair.accept_eq_ok_iff.2 ⟨h, rfl⟩, rfl⟩

theorem hasLongModulus_rsaPair {e d p q : Nat} :
    (Keypair.rsa (rsaPair e d p q)).HasLongModulus ↔ RsaVerifyingKey.maxBits < bitLength (p * q) := by
  rw [Keypair.HasLongModulus, RsaPublicKey.HasLongModulus, rsaPair, Mpint.toNat_ofNat]

/-- A small RSA keypair is read from its blob, and its public half goes into an empty buffer and comes
out again.  An RSA keypair with a modulus of 4102 bits is accepted, and its public half is not. -/
theorem public_halves_return_rsa :
    (∃ blob left b' ended, (Keypair.rsa (rsaPair 3 3 5 3)).toBytes = .ok blob ∧
      getKeypair (ofBytes blob) = .ok (.rsa (rsaPair 3 3 5 3)) left ∧
      putFramedKey (.rsa (rsaPair 3 3 5 3).publicKey) empty = .ok () b' ∧
      getFramedKey (b'.advance 0) = .ok (.rsa (rsaPair 3 3 5 3).publicKey) ended) ∧
    ∃ numbers,
      (Keypair.rsa (rsaPair 3 ((2 ^ 4101 + 1) / 3) (2 ^ 4100 + 1) 3)).accept = .ok numbers ∧
      (PublicKey.rsa (rsaPair 3 ((2 ^ 4101 + 1) / 3) (2 ^ 4100 + 1) 3).publicKey).accept =
        .error (.materialRejected .rsa "modulus too large") := by
  constructor
  · have hbuilt : (Keypair.rsa (rsaPair 3 3 5 3)).WellBuilt :=
      ⟨.ofNat 3, .ofNat 0, .ofNat 5, .ofNat 3, rfl⟩
    have hfit : ∀ field ∈ (Keypair.rsa (rsaPair 3 3 5 3)).fields, Fits field := by decide
    have hread := get_ofBytes_of_reads (by simpa using Keypair.reads_blob hbuilt hfit [])
    have hget : getKeypair _ = _ := Decoder.run_judgedBy Keypair.accept hread
    rw [accept_rsaPair (by decide)] at hget
    have hempty : empty.WellFormed := ⟨by decide, by decide⟩
    obtain ⟨hput, hback⟩ := (public_halves_return _).2 _ _ empty hget hempty
    obtain ⟨b', hput⟩ := hput ⟨Nat.zero_le _, Nat.le_refl _⟩ (by decide)
    have hshort : ¬(Keypair.rsa (rsaPair 3 3 5 3)).HasLongModulus :=
      fun hlong => absurd (hasLongModulus_rsaPair.1 hlong) (by decide)
    obtain ⟨ended, hended, -⟩ := (hback b' hput).1 hshort
    exact ⟨_, _, b', ended, (Keypair.toBytes_eq hbuilt hfit).1, hget, hput, hended⟩
  · have haccept := @accept_rsaPair 3 ((2 ^ 4101 + 1) / 3) (2 ^ 4100 + 1) 3 (by decide +kernel)
    have hlong : (Keypair.rsa (rsaPair 3 ((2 ^ 4101 + 1) / 3) (2 ^ 4100 + 1) 3)).HasLongModulus :=
      hasLongModulus_rsaPair.2 (by decide +kernel)
    exact ⟨_, haccept, ((public_halves_return _).1 _ haccept).2 hlong⟩

end Buffer

end SshKeys
