/-
**The exponents for the primes of an RSA key.**

The exponents for the primes are never written.  Wherever the private half of an RSA keypair comes
from — its fields, the wire, numbers that were accepted before — they are derived from the private
exponent, and no private half is made for a number below two.  In a keypair that is accepted each
of them cancels the public exponent modulo its prime less one, as the private exponent does.

Main definitions:

* `SshKeys.RsaPrivateKey.Reduced` — a private key with the exponents that its primes call for;
* `SshKeys.RsaKeypair.Obtained` — the ways in which an RSA keypair is obtained.

Main results:

* `SshKeys.RsaPrivateKey.derive_eq_ok_iff` — when a private half is derived, and which;
* `SshKeys.RsaKeypair.run_fields` — what is read from six fields;
* `SshKeys.RsaSigningKey.exists_toKeypair_iff` — which numbers make a keypair;
* `SshKeys.RsaKeypair.exponents_reduced` — **the exponents for the primes are always derived, and
  in an accepted keypair they are right**.
-/

import SshKeys.Proofs.AcceptedNumbers
import SshKeys.Proofs.KeypairHalves
import SshKeys.Proofs.Refusals

set_option relaxedAutoImplicit false
set_option autoImplicit false

namespace SshKeys

/-! ### Private keys -/

namespace RsaPrivateKey

/-- The exponents for the primes are the private exponent reduced for them. -/
structure Reduced (key : RsaPrivateKey) : Prop where
  primes_range : 2 ≤ key.p.toNat ∧ 2 ≤ key.q.toNat
  dp_eq : key.dp.toNat = key.d.toNat % (key.p.toNat - 1)
  dq_eq : key.dq.toNat = key.d.toNat % (key.q.toNat - 1)

variable {d iqmp p q prime exponent : Mpint} {key : RsaPrivateKey}

theorem reducedExponent_of_lt (h : prime.toNat < 2) (d : Mpint) :
    reducedExponent d prime = .error (.materialRejected .rsa "prime factor less than 2") :=
  if_pos (Nat.le_of_lt_succ h)

theorem reducedExponent_eq_ok_iff :
    reducedExponent d prime = .ok exponent ↔
      2 ≤ prime.toNat ∧ exponent.toNat = d.toNat % (prime.toNat - 1) := by
  rcases Nat.lt_or_ge prime.toNat 2 with hsmall | hlarge
  · rw [reducedExponent_of_lt hsmall]
    exact iff_of_false nofun fun h => Nat.not_le_of_lt hsmall h.1
  · rw [reducedExponent, if_neg (Nat.not_le_of_lt hlarge), Except.ok.injEq]
    constructor
    · rintro rfl
      exact ⟨hlarge, Mpint.toNat_ofNat _⟩
    · rintro ⟨-, h⟩
      rw [← h, Mpint.ofNat_toNat]

/-- **A private half is derived** from its fields if neither prime is below two. -/
theorem derive_eq_ok_iff :
    derive d iqmp p q = .ok key ↔
      key.d = d ∧ key.iqmp = iqmp ∧ key.p = p ∧ key.q = q ∧ key.Reduced := by
  simp only [derive, bind_eq_ok_iff, pure_eq_ok_iff, reducedExponent_eq_ok_iff]
  constructor
  · rintro ⟨dp, ⟨hp, hdp⟩, dq, ⟨hq, hdq⟩, rfl⟩
    exact ⟨rfl, rfl, rfl, rfl, ⟨hp, hq⟩, hdp, hdq⟩
  · rintro ⟨rfl, rfl, rfl, rfl, ⟨hp, hq⟩, hdp, hdq⟩
    exact ⟨key.dp, ⟨hp, hdp⟩, key.dq, ⟨hq, hdq⟩, rfl⟩

theorem exists_derive_iff (d iqmp p q : Mpint) :
    (∃ key, derive d iqmp p q = .ok key) ↔ 2 ≤ p.toNat ∧ 2 ≤ q.toNat := by
  constructor
  · rintro ⟨key, hderive⟩
    obtain ⟨-, -, rfl, rfl, hreduced⟩ := derive_eq_ok_iff.1 hderive
    exact hreduced.primes_range
  · intro hrange
    refine ⟨⟨d, iqmp, p, q, .ofNat (d.toNat % (p.toNat - 1)), .ofNat (d.toNat % (q.toNat - 1))⟩, ?_⟩
    exact derive_eq_ok_iff.2 ⟨rfl, rfl, rfl, rfl, hrange, Mpint.toNat_ofNat _, Mpint.toNat_ofNat _⟩

/-- A prime below two is refused, and there is no other refusal. -/
theorem derive_eq_error_iff {error : Error} :
    derive d iqmp p q = .error error ↔
      (p.toNat < 2 ∨ q.toNat < 2) ∧
        error = .materialRejected .rsa "prime factor less than 2" := by
  rw [derive]
  rcases Nat.lt_or_ge p.toNat 2 with hp | hp
  · rw [reducedExponent_of_lt hp, error_bind, Except.error.injEq]
    exact ⟨fun h => ⟨.inl hp, h.symm⟩, fun h => h.2.symm⟩
  · rw [reducedExponent_eq_ok_iff.2 ⟨hp, Mpint.toNat_ofNat _⟩, ok_bind]
    rcases Nat.lt_or_ge q.toNat 2 with hq | hq
    · rw [reducedExponent_of_lt hq, error_bind, Except.error.injEq]
      exact ⟨fun h => ⟨.inr hq, h.symm⟩, fun h => h.2.symm⟩
    · rw [reducedExponent_eq_ok_iff.2 ⟨hq, Mpint.toNat_ofNat _⟩, ok_bind]
      refine iff_of_false ?_ ?_
      · intro h
        cases h
      · rintro ⟨hsmall, -⟩
        omega

theorem isDerived_iff_reduced : key.IsDerived ↔ key.Reduced := by
  constructor
  · rintro ⟨d, iqmp, p, q, hderive⟩
    exact (derive_eq_ok_iff.1 hderive).2.2.2.2
  · intro hreduced
    exact ⟨_, _, _, _, derive_eq_ok_iff.2 ⟨rfl, rfl, rfl, rfl, hreduced⟩⟩

end RsaPrivateKey

/-! ### Keypairs from the wire -/

/-- The exponents of a keypair that is read are derived. -/
theorem RsaKeypair.yields_decoder : decoder.Yields fun pair => pair.privateKey.IsDerived := by
  refine Decoder.yields_bind_of_forall fun publicKey => ?_
  refine Decoder.yields_bind_of_forall fun d => ?_
  refine Decoder.yields_bind_of_forall fun iqmp => ?_
  refine Decoder.yields_bind_of_forall fun q => ?_
  refine Decoder.yields_bind_of_forall fun p => ?_
  have hderived : (Decoder.ofExcept (RsaPrivateKey.derive d iqmp p q)).Yields
      RsaPrivateKey.IsDerived :=
    Decoder.yields_ofExcept fun key hkey => ⟨d, iqmp, p, q, hkey⟩
  exact hderived.bind fun _ hkey => hkey

theorem Keypair.yields_isDerived : decoder.Yields Keypair.IsDerived := by
  refine Decoder.yields_bind_of_forall fun algorithm => ?_
  cases algorithm with
  | dsa => exact DsaKeypair.decoder.yields_true.map
  | ecdsa curve => exact (EcdsaKeypair.decoder curve).yields_true.map
  | rsa =>
      have hpair : RsaKeypair.decoder.Yields fun pair => (Keypair.rsa pair).IsDerived :=
        RsaKeypair.yields_decoder
      exact hpair.map
  | other name => trivial

/-- The first of some fields is read as a number. -/
theorem Mpint.reads_field {form : Bytes} (hfit : Fits form) (forms : List Bytes) (rest : Bytes) :
    decoder.Reads (prefixedAll (form :: forms) ++ rest) (ofMagnitude form)
      (prefixedAll forms ++ rest) :=
  reads_decoder.2 ⟨form, hfit, rfl, by simp⟩

/-- **What is read from six fields**: the keypair whose exponents are derived from them, or the
refusal of a prime.  The second prime comes first. -/
theorem RsaKeypair.run_fields {e n d iqmp q p : Bytes}
    (hfit : ∀ field ∈ [e, n, d, iqmp, q, p], Fits field) (rest : Bytes) :
    decoder.run (prefixedAll [e, n, d, iqmp, q, p] ++ rest) =
      match RsaPrivateKey.derive (.ofMagnitude d) (.ofMagnitude iqmp) (.ofMagnitude p)
          (.ofMagnitude q) with
      | .ok privateKey => .ok ⟨⟨.ofMagnitude e, .ofMagnitude n⟩, privateKey⟩ rest
      | .error error => .error error rest := by
  simp only [List.forall_mem_cons] at hfit
  obtain ⟨he, hn, hd, hiqmp, hq, hp, -⟩ := hfit
  have hpublic : RsaPublicKey.decoder.Reads (prefixedAll [e, n, d, iqmp, q, p] ++ rest)
      ⟨.ofMagnitude e, .ofMagnitude n⟩ (prefixedAll [d, iqmp, q, p] ++ rest) :=
    RsaPublicKey.reads_decoder.2 ⟨e, n, rfl, by simp [he, hn], by simp⟩
  rw [decoder, hpublic.run_bind, (Mpint.reads_field hd _ rest).run_bind,
    (Mpint.reads_field hiqmp _ rest).run_bind, (Mpint.reads_field hq _ rest).run_bind,
    (Mpint.reads_field hp _ rest).run_bind]
  cases RsaPrivateKey.derive (.ofMagnitude d) (.ofMagnitude iqmp) (.ofMagnitude p)
      (.ofMagnitude q) with
  | ok privateKey => rfl
  | error error => rfl

/-! ### Keypairs from numbers -/

namespace RsaSigningKey

variable {key : RsaSigningKey} {pair : RsaKeypair}

/-- What it takes to make a keypair from numbers. -/
theorem toKeypair_eq_ok_iff :
    key.toKeypair = .ok pair ↔
      ∃ p q iqmp, key.primes = [p, q] ∧ inverseMod? q p = some iqmp ∧
        RsaPrivateKey.derive (.ofNat key.d) (.ofNat iqmp) (.ofNat p) (.ofNat q) =
          .ok pair.privateKey ∧
        pair.publicKey = key.publicKey.toPublicKey := by
  unfold toKeypair
  constructor
  · intro h
    split at h
    · next p q hprimes =>
        split at h
        · next iqmp hiqmp =>
            obtain ⟨privateKey, hderive, hpair⟩ := bind_eq_ok_iff.1 h
            rw [← pure_eq_ok_iff.1 hpair]
            exact ⟨p, q, iqmp, hprimes, hiqmp, hderive, rfl⟩
        · cases h
    · cases h
  · rintro ⟨p, q, iqmp, hprimes, hiqmp, hderive, hpublic⟩
    simp only [hprimes, hiqmp, hderive, ok_bind, ← hpublic]
    rfl

/-- What a keypair that is made from numbers holds. -/
theorem of_toKeypair_eq_ok (h : key.toKeypair = .ok pair) :
    pair.publicKey = key.publicKey.toPublicKey ∧ pair.privateKey.d.toNat = key.d ∧
      key.primes = [pair.privateKey.p.toNat, pair.privateKey.q.toNat] ∧
      pair.privateKey.Reduced := by
  obtain ⟨p, q, iqmp, hprimes, -, hderive, hpublic⟩ := toKeypair_eq_ok_iff.1 h
  obtain ⟨hd, -, hp, hq, hreduced⟩ := RsaPrivateKey.derive_eq_ok_iff.1 hderive
  rw [hprimes, hd, hp, hq, Mpint.toNat_ofNat, Mpint.toNat_ofNat, Mpint.toNat_ofNat]
  exact ⟨hpublic, rfl, rfl, hreduced⟩

/-- **Which numbers make a keypair**: there are two primes, and an inverse of the second. -/
theorem exists_toKeypair_iff :
    (∃ pair, key.toKeypair = .ok pair) ↔
      ∃ p q, key.primes = [p, q] ∧ 2 ≤ p ∧ 2 ≤ q ∧ q.Coprime p := by
  constructor
  · rintro ⟨pair, hpair⟩
    obtain ⟨p, q, iqmp, hprimes, hiqmp, hderive, -⟩ := toKeypair_eq_ok_iff.1 hpair
    obtain ⟨hp, hq⟩ := (RsaPrivateKey.exists_derive_iff _ _ _ _).1 ⟨_, hderive⟩
    rw [Mpint.toNat_ofNat] at hp hq
    refine ⟨p, q, hprimes, hp, hq, ?_⟩
    by_contra hcommon
    rw [inverseMod?_of_not_coprime hcommon] at hiqmp
    cases hiqmp
  · rintro ⟨p, q, hprimes, hp, hq, hcoprime⟩
    obtain ⟨iqmp, hiqmp, -⟩ := inverseMod?_of_coprime hp hcoprime
    have hrange : 2 ≤ (Mpint.ofNat p).toNat ∧ 2 ≤ (Mpint.ofNat q).toNat := by
      rw [Mpint.toNat_ofNat, Mpint.toNat_ofNat]
      exact ⟨hp, hq⟩
    obtain ⟨privateKey, hderive⟩ :=
      (RsaPrivateKey.exists_derive_iff (.ofNat key.d) (.ofNat iqmp) _ _).2 hrange
    exact ⟨⟨_, privateKey⟩, toKeypair_eq_ok_iff.2 ⟨p, q, iqmp, hprimes, hiqmp, hderive, rfl⟩⟩

end RsaSigningKey

/-! ### However a keypair is obtained -/

namespace RsaKeypair

/-- The ways in which an RSA keypair is obtained. -/
inductive Obtained : RsaKeypair → Prop
  /-- From a private half that is derived from its fields, and any public half. -/
  | derived (publicKey : RsaPublicKey) {d iqmp p q : Mpint} {privateKey : RsaPrivateKey}
      (h : RsaPrivateKey.derive d iqmp p q = .ok privateKey) : Obtained ⟨publicKey, privateKey⟩
  /-- From its fields on the wire, whatever they are read from. -/
  | read {σ : Type} [Source σ] {s s' : σ} {pair : RsaKeypair}
      (h : RsaKeypair.decoder.run s = .ok pair s') : Obtained pair
  /-- From the wire, as a keypair of a type that is read first. -/
  | readKeypair {σ : Type} [Source σ] {s s' : σ} {pair : RsaKeypair}
      (h : Keypair.decoder.run s = .ok (.rsa pair) s') : Obtained pair
  /-- From numbers. -/
  | returned {numbers : RsaSigningKey} {pair : RsaKeypair} (h : numbers.toKeypair = .ok pair) :
      Obtained pair

variable {pair : RsaKeypair}

/-- The exponents are derived in each case. -/
theorem Obtained.reduced (h : pair.Obtained) : pair.privateKey.Reduced := by
  cases h with
  | derived publicKey hderive => exact (RsaPrivateKey.derive_eq_ok_iff.1 hderive).2.2.2.2
  | read hrun => exact RsaPrivateKey.isDerived_iff_reduced.1 (yields_decoder.of_run hrun)
  | readKeypair hrun =>
      exact RsaPrivateKey.isDerived_iff_reduced.1 (Keypair.yields_isDerived.of_run hrun)
  | returned hreturn => exact (RsaSigningKey.of_toKeypair_eq_ok hreturn).2.2.2

/-- An exponent that cancels another one still does so once it is reduced. -/
theorem cancel_of_reduced {d e m : ℕ} (h : d * e ≡ 1 [MOD m]) : e * (d % m) ≡ 1 [MOD m] := by
  calc e * (d % m) ≡ e * d [MOD m] := (Nat.mod_modEq d m).mul_left e
    _ = d * e := Nat.mul_comm e d
    _ ≡ 1 [MOD m] := h

/-- **The exponents for the primes cancel the public exponent**, as the private exponent does. -/
theorem cancel_of_coherent (hcoherent : pair.Coherent) (hreduced : pair.privateKey.Reduced) :
    pair.publicKey.e.toNat * pair.privateKey.dp.toNat ≡ 1 [MOD pair.privateKey.p.toNat - 1] ∧
      pair.publicKey.e.toNat * pair.privateKey.dq.toNat ≡ 1
        [MOD pair.privateKey.q.toNat - 1] := by
  rw [hreduced.dp_eq, hreduced.dq_eq]
  exact ⟨cancel_of_reduced hcoherent.cancel_p, cancel_of_reduced hcoherent.cancel_q⟩

/-- **The exponents for the primes are always derived**, whatever a keypair is obtained from, and
nothing is obtained with a prime below two.  **In an accepted keypair they are right.** -/
theorem exponents_reduced :
    (∀ d iqmp p q : Mpint,
      ((∃ key, RsaPrivateKey.derive d iqmp p q = .ok key) ↔ 2 ≤ p.toNat ∧ 2 ≤ q.toNat) ∧
      ∀ key, RsaPrivateKey.derive d iqmp p q = .ok key →
        key.d = d ∧ key.iqmp = iqmp ∧ key.p = p ∧ key.q = q ∧
          key.dp.toNat = d.toNat % (p.toNat - 1) ∧ key.dq.toNat = d.toNat % (q.toNat - 1)) ∧
    (∀ pair : RsaKeypair, pair.Obtained → pair.privateKey.Reduced) ∧
    (∀ e n d iqmp q p rest : Bytes, (∀ field ∈ [e, n, d, iqmp, q, p], Fits field) →
      (2 ≤ natOfBytes p ∧ 2 ≤ natOfBytes q →
        ∃ privateKey, decoder.run (prefixedAll [e, n, d, iqmp, q, p] ++ rest) =
            .ok ⟨⟨.ofMagnitude e, .ofMagnitude n⟩, privateKey⟩ rest ∧
          privateKey.d = .ofMagnitude d ∧ privateKey.iqmp = .ofMagnitude iqmp ∧
          privateKey.p = .ofMagnitude p ∧ privateKey.q = .ofMagnitude q) ∧
      (natOfBytes p < 2 ∨ natOfBytes q < 2 →
        decoder.run (prefixedAll [e, n, d, iqmp, q, p] ++ rest) =
          .error (.materialRejected .rsa "prime factor less than 2") rest)) ∧
    (∀ numbers : RsaSigningKey,
      ((∃ pair, numbers.toKeypair = .ok pair) ↔
        ∃ p q, numbers.primes = [p, q] ∧ 2 ≤ p ∧ 2 ≤ q ∧ q.Coprime p) ∧
      ∀ pair, numbers.toKeypair = .ok pair →
        pair.publicKey = numbers.publicKey.toPublicKey ∧ pair.privateKey.d.toNat = numbers.d ∧
          numbers.primes = [pair.privateKey.p.toNat, pair.privateKey.q.toNat]) ∧
    ∀ (pair : RsaKeypair) (numbers : SigningKey), pair.Obtained →
      (Keypair.rsa pair).accept = .ok numbers →
      3 ≤ pair.privateKey.p.toNat ∧ 3 ≤ pair.privateKey.q.toNat ∧
        pair.publicKey.n.toNat = pair.privateKey.p.toNat * pair.privateKey.q.toNat ∧
        pair.publicKey.e.toNat * pair.privateKey.dp.toNat ≡ 1
          [MOD pair.privateKey.p.toNat - 1] ∧
        pair.publicKey.e.toNat * pair.privateKey.dq.toNat ≡ 1
          [MOD pair.privateKey.q.toNat - 1] := by
  refine ⟨?_, ?_, ?_, ?_, ?_⟩
  · intro d iqmp p q
    refine ⟨RsaPrivateKey.exists_derive_iff d iqmp p q, fun key hderive => ?_⟩
    obtain ⟨rfl, rfl, rfl, rfl, hreduced⟩ := RsaPrivateKey.derive_eq_ok_iff.1 hderive
    exact ⟨rfl, rfl, rfl, rfl, hreduced.dp_eq, hreduced.dq_eq⟩
  · intro pair hobtained
    exact hobtained.reduced
  · intro e n d iqmp q p rest hfit
    rw [← Mpint.toNat_ofMagnitude p, ← Mpint.toNat_ofMagnitude q, run_fields hfit]
    constructor
    · intro hrange
      obtain ⟨privateKey, hderive⟩ :=
        (RsaPrivateKey.exists_derive_iff (.ofMagnitude d) (.ofMagnitude iqmp) _ _).2 hrange
      obtain ⟨hd, hiqmp, hp, hq, -⟩ := RsaPrivateKey.derive_eq_ok_iff.1 hderive
      rw [hderive]
      exact ⟨privateKey, rfl, hd, hiqmp, hp, hq⟩
    · intro hsmall
      rw [RsaPrivateKey.derive_eq_error_iff.2 ⟨hsmall, rfl⟩]
  · intro numbers
    refine ⟨RsaSigningKey.exists_toKeypair_iff, fun pair hreturn => ?_⟩
    obtain ⟨hpublic, hd, hprimes, -⟩ := RsaSigningKey.of_toKeypair_eq_ok hreturn
    exact ⟨hpublic, hd, hprimes⟩
  · intro pair numbers hobtained haccept
    obtain ⟨accepted, hpair, -⟩ := map_eq_ok_iff.1 haccept
    have hcoherent := accepted_iff.1 ⟨accepted, hpair⟩
    obtain ⟨hp, hq⟩ := hcoherent.primes_range
    have hmodulus := hcoherent.modulus_eq
    refine ⟨two_lt_of_odd hcoherent.modulus_odd hmodulus hp, ?_, hmodulus,
      cancel_of_coherent hcoherent hobtained.reduced⟩
    exact two_lt_of_odd hcoherent.modulus_odd (hmodulus.trans (Nat.mul_comm _ _)) hq

/-- The exponents for 61 and 53.  The keypair is accepted and comes back from its numbers; with the
number one for a prime it is refused. -/
theorem exponents_reduced_small :
    (∃ key, RsaPrivateKey.derive (.ofNat 2753) (.ofNat 38) (.ofNat 61) (.ofNat 53) = .ok key ∧
      key.dp.toNat = 53 ∧ key.dq.toNat = 49 ∧
      (∃ numbers, (Keypair.rsa ⟨⟨.ofNat 17, .ofNat 3233⟩, key⟩).accept = .ok numbers) ∧
      17 * key.dp.toNat ≡ 1 [MOD 60] ∧ 17 * key.dq.toNat ≡ 1 [MOD 52]) ∧
    (∃ pair, RsaSigningKey.toKeypair ⟨⟨3233, 17⟩, 2753, [61, 53]⟩ = .ok pair ∧
      pair.privateKey.dp.toNat = 53) ∧
    (∃ pair, decoder.run (prefixedAll [[17], [12, 161], [10, 193], [38], [53], [61]] ++ []) =
        .ok pair [] ∧ pair.privateKey.p = .ofMagnitude [61]) ∧
    decoder.run (prefixedAll [[17], [12, 161], [10, 193], [38], [53], [1]] ++ []) =
      .error (.materialRejected .rsa "prime factor less than 2") [] := by
  obtain ⟨hderived, hobtained, hread, hreturned, haccepted⟩ := exponents_reduced
  refine ⟨?_, ?_, ?_, ?_⟩
  · have hderive : RsaPrivateKey.derive (.ofNat 2753) (.ofNat 38) (.ofNat 61) (.ofNat 53) =
        .ok ⟨.ofNat 2753, .ofNat 38, .ofNat 61, .ofNat 53, .ofNat 53, .ofNat 49⟩ := rfl
    have haccept : (Keypair.rsa ⟨⟨.ofNat 17, .ofNat 3233⟩, ⟨.ofNat 2753, .ofNat 38, .ofNat 61,
        .ofNat 53, .ofNat 53, .ofNat 49⟩⟩).accept = .ok (.rsa ⟨⟨3233, 17⟩, 2753, [61, 53]⟩) := rfl
    obtain ⟨-, -, -, -, hdp, hdq⟩ := (hderived _ _ _ _).2 _ hderive
    obtain ⟨-, -, -, hp, hq⟩ := haccepted _ _ (.derived _ hderive) haccept
    exact ⟨_, hderive, hdp, hdq, ⟨_, haccept⟩, hp, hq⟩
  · obtain ⟨pair, hpair⟩ := (hreturned ⟨⟨3233, 17⟩, 2753, [61, 53]⟩).1.2
      ⟨61, 53, rfl, by decide, by decide, by decide⟩
    have hreduced := hobtained pair (.returned hpair)
    obtain ⟨-, hd, hprimes⟩ := (hreturned _).2 pair hpair
    obtain ⟨hp, -⟩ := List.cons.inj hprimes
    refine ⟨pair, hpair, ?_⟩
    rw [hreduced.dp_eq, hd, ← hp]
    rfl
  · obtain ⟨privateKey, hrun, -, -, hp, -⟩ := (hread [17] [12, 161] [10, 193] [38] [53] [61] []
      (by decide)).1 (by decide)
    exact ⟨_, hrun, hp⟩
  · exact (hread [17] [12, 161] [10, 193] [38] [53] [1] [] (by decide)).2 (by decide)

end RsaKeypair

end SshKeys
