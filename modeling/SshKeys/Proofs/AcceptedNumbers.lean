/-
**The numbers of an accepted key, and the way back.**

An accepted key holds numbers in place of magnitudes, and its point is written out and read again
on the way back.  Nothing is lost in this: a magnitude is determined by its number, and the
coordinates of an accepted point have room at the width of the field.  The one thing that an RSA
keypair does not bring along is the inverse of `q` modulo `p`, which is computed anew.

Main definitions:

* `SshKeys.Keypair.IsDerived` — the exponents for the primes were derived;
* `SshKeys.Keypair.ReturnsAs` — what a keypair comes back as.

Main results:

* `SshKeys.PublicKey.toPublicKey_of_accept` — an accepted public key comes back as it was;
* `SshKeys.Keypair.returnsAs_of_accept` — what comes back of an accepted keypair;
* `SshKeys.accepted_numbers_return` — **acceptance loses nothing**.
-/

import SshKeys.Proofs.Acceptance
import SshKeys.Proofs.KeypairWire
import SshKeys.Proofs.ModularArithmetic

set_option relaxedAutoImplicit false
set_option autoImplicit false

namespace SshKeys

/-! ### Public keys -/

@[simp] theorem RsaPublicKey.toPublicKey_numbers (key : RsaPublicKey) :
    key.numbers.toPublicKey = key := by
  simp [numbers, RsaVerifyingKey.toPublicKey]

@[simp] theorem DsaPublicKey.toPublicKey_numbers (key : DsaPublicKey) :
    key.numbers.toPublicKey = key := by
  simp [numbers, DsaVerifyingKey.toPublicKey]

theorem RsaPublicKey.accept_eq_ok_iff {key : RsaPublicKey} {numbers : RsaVerifyingKey} :
    key.accept = .ok numbers ↔ key.numbers.checkAlone = .ok () ∧ key.numbers = numbers := by
  unfold accept
  cases key.numbers.checkAlone with
  | error fault => simp
  | ok _ => simp

/-- The octet string of the coordinates is that of the point they were taken from. -/
theorem Point.octets_numbers {point : Point} {curve : Curve} (h : point.Within curve) :
    (EcdsaVerifyingKey.mk curve point.x.toNat point.y.toNat).octets = point.octets curve := by
  rw [EcdsaVerifyingKey.octets, octets, Mpint.bigEndian_toNat h.1, Mpint.bigEndian_toNat h.2]
  rfl

theorem EcdsaPublicKey.toPublicKey_of_accept {key : EcdsaPublicKey} {numbers : EcdsaVerifyingKey}
    (h : key.accept = .ok numbers) : numbers.toPublicKey = .ok key := by
  obtain ⟨-, hwithin, -, rfl⟩ := acceptOn_eq_ok_iff.1 h
  rw [EcdsaVerifyingKey.toPublicKey, Point.octets_numbers hwithin, ofOctets,
    Point.ofOctets_octets hwithin]
  rfl

/-- An accepted public key comes back as it was. -/
theorem PublicKey.toPublicKey_of_accept {key : PublicKey} {numbers : VerifyingKey}
    (h : key.accept = .ok numbers) :
    numbers.algorithm = key.algorithm ∧ numbers.toPublicKey = .ok key := by
  cases key with
  | dsa key =>
      obtain ⟨_, haccept, rfl⟩ := map_eq_ok_iff.1 h
      obtain ⟨-, rfl⟩ := DsaPublicKey.accept_eq_ok_iff.1 haccept
      exact ⟨rfl, by rw [VerifyingKey.toPublicKey, DsaPublicKey.toPublicKey_numbers]⟩
  | ecdsa key =>
      obtain ⟨accepted, haccept, rfl⟩ := map_eq_ok_iff.1 h
      obtain ⟨-, -, -, hnumbers⟩ := EcdsaPublicKey.acceptOn_eq_ok_iff.1 haccept
      refine ⟨?_, ?_⟩
      · rw [VerifyingKey.algorithm, hnumbers]
        rfl
      · rw [VerifyingKey.toPublicKey, EcdsaPublicKey.toPublicKey_of_accept haccept]
        rfl
  | rsa key =>
      obtain ⟨_, haccept, rfl⟩ := map_eq_ok_iff.1 h
      obtain ⟨-, rfl⟩ := RsaPublicKey.accept_eq_ok_iff.1 haccept
      exact ⟨rfl, by rw [VerifyingKey.toPublicKey, RsaPublicKey.toPublicKey_numbers]⟩
  | other key => simp [accept] at h

/-! ### Keypairs -/

theorem EcdsaSigningKey.curve_publicKey (key : EcdsaSigningKey) :
    key.publicKey.curve = key.curve := by
  unfold publicKey publicKey?
  cases key.curve.params.multiply key.scalar key.curve.params.generator <;> rfl

/-- Both halves have the key type of the keypair. -/
theorem SigningKey.algorithm_verifyingKey (key : SigningKey) :
    key.verifyingKey.algorithm = key.algorithm := by
  cases key with
  | dsa key => rfl
  | ecdsa key => exact congrArg Algorithm.ecdsa key.curve_publicKey
  | rsa key => rfl

/-- The public component is accepted with the secret exponent. -/
theorem DsaKeypair.accept_publicKey {pair : DsaKeypair} {numbers : DsaSigningKey}
    (h : pair.accept = .ok numbers) : pair.publicKey.accept = .ok numbers.publicKey :=
  (accept_eq_ok_iff.1 h).1

/-- The public point that the scalar yields is the one that is accepted with it. -/
theorem EcdsaKeypair.accept_publicKey {pair : EcdsaKeypair} {numbers : EcdsaSigningKey}
    (h : pair.accept = .ok numbers) : pair.publicKey.accept = .ok numbers.publicKey := by
  obtain ⟨publicKey, haccept, -, -, -, hmatch, -⟩ := acceptOn_eq_ok_iff.1 h
  rw [EcdsaSigningKey.publicKey, hmatch, Option.getD_some]
  exact haccept

theorem DsaKeypair.toKeypair_of_accept {pair : DsaKeypair} {numbers : DsaSigningKey}
    (h : pair.accept = .ok numbers) : numbers.toKeypair = pair := by
  obtain ⟨hpublic, hx, -⟩ := accept_eq_ok_iff.1 h
  obtain ⟨-, hnumbers⟩ := DsaPublicKey.accept_eq_ok_iff.1 hpublic
  rw [DsaSigningKey.toKeypair, ← hnumbers, ← hx, DsaPublicKey.toPublicKey_numbers,
    Mpint.ofNat_toNat]

theorem EcdsaKeypair.toKeypair_of_accept {pair : EcdsaKeypair} {numbers : EcdsaSigningKey}
    (h : pair.accept = .ok numbers) : numbers.toKeypair = .ok pair := by
  obtain ⟨_, -, hfits, -, -, -, rfl⟩ := acceptOn_eq_ok_iff.1 h
  rw [EcdsaSigningKey.toKeypair, EcdsaPublicKey.toPublicKey_of_accept (accept_publicKey h),
    EcdsaSigningKey.scalarBytes, Mpint.bigEndian_toNat hfits, Mpint.ofMagnitude_leftPadded]
  rfl

/-- The inverse of `q` plays no part in deriving the exponents. -/
theorem RsaPrivateKey.IsDerived.derive_iqmp {key : RsaPrivateKey} (h : key.IsDerived)
    (iqmp : Mpint) : derive key.d iqmp key.p key.q = .ok { key with iqmp } := by
  have hderive := h.derive_eq
  simp only [derive, bind_eq_ok_iff, pure_eq_ok_iff] at hderive ⊢
  obtain ⟨dp, hdp, dq, hdq, hkey⟩ := hderive
  exact ⟨dp, hdp, dq, hdq, congrArg (fun key => { key with iqmp }) hkey⟩

namespace RsaKeypair

variable {pair : RsaKeypair}

/-- With an inverse of `q` modulo `p` the keypair comes back, and holds that inverse. -/
theorem toKeypair_of_coprime (hderived : pair.privateKey.IsDerived)
    (hp : 1 < pair.privateKey.p.toNat)
    (h : pair.privateKey.q.toNat.Coprime pair.privateKey.p.toNat) :
    ∃ iqmp : Mpint,
      pair.numbers.toKeypair = .ok ⟨pair.publicKey, { pair.privateKey with iqmp }⟩ ∧
        iqmp.toNat < pair.privateKey.p.toNat ∧
        iqmp.toNat * pair.privateKey.q.toNat ≡ 1 [MOD pair.privateKey.p.toNat] := by
  obtain ⟨inverse, hfound, hless, hinverse⟩ := inverseMod?_of_coprime hp h
  refine ⟨.ofNat inverse, ?_, ?_, ?_⟩
  · simp only [RsaSigningKey.toKeypair, numbers, hfound, Mpint.ofNat_toNat,
      hderived.derive_iqmp, RsaPublicKey.toPublicKey_numbers]
    rfl
  · rwa [Mpint.toNat_ofNat]
  · rwa [Mpint.toNat_ofNat]

/-- Without an inverse of `q` modulo `p` the way back is refused. -/
theorem toKeypair_of_not_coprime
    (h : ¬pair.privateKey.q.toNat.Coprime pair.privateKey.p.toNat) :
    pair.numbers.toKeypair = .error (.materialRejected .rsa "missing CRT coefficient") := by
  simp only [RsaSigningKey.toKeypair, numbers, inverseMod?_of_not_coprime h]

end RsaKeypair

/-! ### Keypairs of any family -/

namespace Keypair

/-- The exponents for the primes of an RSA keypair were derived.  There is no other way of making
its private half. -/
def IsDerived : Keypair → Prop
  | rsa pair => pair.privateKey.IsDerived
  | _ => True

/-- What a keypair comes back as.  A DSA or an ECDSA keypair is what it was.  An RSA keypair holds
the inverse of `q` modulo `p`, whatever it held there before, and is refused if there is none. -/
def ReturnsAs : Keypair → Except Error Keypair → Prop
  | rsa pair, outcome =>
    (pair.privateKey.q.toNat.Coprime pair.privateKey.p.toNat →
      ∃ iqmp : Mpint, outcome = .ok (rsa ⟨pair.publicKey, { pair.privateKey with iqmp }⟩) ∧
        iqmp.toNat < pair.privateKey.p.toNat ∧
        iqmp.toNat * pair.privateKey.q.toNat ≡ 1 [MOD pair.privateKey.p.toNat]) ∧
    (¬pair.privateKey.q.toNat.Coprime pair.privateKey.p.toNat →
      outcome = .error (.materialRejected .rsa "missing CRT coefficient"))
  | pair, outcome => outcome = .ok pair

variable {pair : Keypair} {numbers : SigningKey}

/-- The public half of an accepted keypair comes back as it was. -/
theorem toPublicKey_of_accept (h : pair.accept = .ok numbers) :
    numbers.algorithm = pair.algorithm ∧
      numbers.verifyingKey.toPublicKey = .ok pair.publicKey := by
  cases pair with
  | dsa pair =>
      obtain ⟨accepted, haccept, rfl⟩ := map_eq_ok_iff.1 h
      have hpublic : (PublicKey.dsa pair.publicKey).accept = .ok (.dsa accepted.publicKey) :=
        map_eq_ok_iff.2 ⟨_, DsaKeypair.accept_publicKey haccept, rfl⟩
      exact PublicKey.toPublicKey_of_accept hpublic
  | ecdsa pair =>
      obtain ⟨accepted, haccept, rfl⟩ := map_eq_ok_iff.1 h
      have hpublic : (PublicKey.ecdsa pair.publicKey).accept = .ok (.ecdsa accepted.publicKey) :=
        map_eq_ok_iff.2 ⟨_, EcdsaKeypair.accept_publicKey haccept, rfl⟩
      obtain ⟨halgorithm, hback⟩ := PublicKey.toPublicKey_of_accept hpublic
      refine ⟨?_, hback⟩
      rw [← SigningKey.algorithm_verifyingKey]
      exact halgorithm
  | rsa pair =>
      -- the public half may be too large to be accepted alone, and comes back all the same
      obtain ⟨accepted, haccept, rfl⟩ := map_eq_ok_iff.1 h
      obtain ⟨-, rfl⟩ := RsaKeypair.accept_eq_ok_iff.1 haccept
      refine ⟨rfl, ?_⟩
      rw [SigningKey.verifyingKey, VerifyingKey.toPublicKey, RsaKeypair.numbers,
        RsaPublicKey.toPublicKey_numbers]
      rfl
  | other pair => simp [accept] at h

/-- What comes back of an accepted keypair. -/
theorem returnsAs_of_accept (hderived : pair.IsDerived) (h : pair.accept = .ok numbers) :
    pair.ReturnsAs numbers.toKeypair := by
  cases pair with
  | dsa pair =>
      obtain ⟨accepted, haccept, rfl⟩ := map_eq_ok_iff.1 h
      rw [SigningKey.toKeypair, DsaKeypair.toKeypair_of_accept haccept]
      rfl
  | ecdsa pair =>
      obtain ⟨accepted, haccept, rfl⟩ := map_eq_ok_iff.1 h
      rw [SigningKey.toKeypair, EcdsaKeypair.toKeypair_of_accept haccept]
      rfl
  | rsa pair =>
      obtain ⟨accepted, haccept, rfl⟩ := map_eq_ok_iff.1 h
      obtain ⟨hcheck, rfl⟩ := RsaKeypair.accept_eq_ok_iff.1 haccept
      obtain ⟨-, hprimes, -⟩ := RsaSigningKey.check_eq_ok_iff.1 hcheck
      have hp : 1 < pair.privateKey.p.toNat := hprimes _ (by simp [RsaKeypair.numbers])
      refine ⟨fun hcoprime => ?_, fun hcommon => ?_⟩
      · obtain ⟨iqmp, hback, hinverse⟩ := RsaKeypair.toKeypair_of_coprime hderived hp hcoprime
        refine ⟨iqmp, ?_, hinverse⟩
        rw [SigningKey.toKeypair, hback]
        rfl
      · rw [SigningKey.toKeypair, RsaKeypair.toKeypair_of_not_coprime hcommon]
        rfl
  | other pair => simp [accept] at h

end Keypair

/-- **Acceptance loses nothing.**  An accepted key keeps its type and comes back from its numbers as
it was, with the one exception of the inverse of `q` in an RSA keypair. -/
theorem accepted_numbers_return :
    (∀ (key : PublicKey) (numbers : VerifyingKey), key.accept = .ok numbers →
      numbers.algorithm = key.algorithm ∧ numbers.toPublicKey = .ok key) ∧
    ∀ (pair : Keypair) (numbers : SigningKey), pair.IsDerived → pair.accept = .ok numbers →
      numbers.algorithm = pair.algorithm ∧
      numbers.verifyingKey.toPublicKey = .ok pair.publicKey ∧
      pair.ReturnsAs numbers.toKeypair := by
  refine ⟨fun key numbers haccept => PublicKey.toPublicKey_of_accept haccept, ?_⟩
  intro pair numbers hderived haccept
  obtain ⟨halgorithm, hpublic⟩ := Keypair.toPublicKey_of_accept haccept
  exact ⟨halgorithm, hpublic, Keypair.returnsAs_of_accept hderived haccept⟩

/-- The generator of a curve comes back, and so does a keypair with the scalar one.  An RSA keypair
that holds a wrong inverse comes back with the right one, and with twice the same prime it does not
come back. -/
theorem accepted_numbers_return_cases :
    (∃ numbers, (PublicKey.ecdsa ⟨.nistP521, .ofNat Curve.nistP521.params.generatorX,
        .ofNat Curve.nistP521.params.generatorY⟩).accept = .ok numbers ∧
      numbers.toPublicKey = .ok (.ecdsa ⟨.nistP521, .ofNat Curve.nistP521.params.generatorX,
        .ofNat Curve.nistP521.params.generatorY⟩)) ∧
    (∃ numbers, (Keypair.ecdsa ⟨⟨.nistP521, .ofNat Curve.nistP521.params.generatorX,
        .ofNat Curve.nistP521.params.generatorY⟩, ⟨.ofNat 1⟩⟩).accept = .ok numbers ∧
      numbers.toKeypair = .ok (.ecdsa ⟨⟨.nistP521, .ofNat Curve.nistP521.params.generatorX,
        .ofNat Curve.nistP521.params.generatorY⟩, ⟨.ofNat 1⟩⟩)) ∧
    (∃ numbers iqmp, (Keypair.rsa ⟨⟨.ofNat 3, .ofNat 15⟩, ⟨.ofNat 3, .ofNat 9, .ofNat 5, .ofNat 3,
        .ofNat 3, .ofNat 1⟩⟩).accept = .ok numbers ∧
      numbers.toKeypair = .ok (.rsa ⟨⟨.ofNat 3, .ofNat 15⟩, ⟨.ofNat 3, iqmp, .ofNat 5, .ofNat 3,
        .ofNat 3, .ofNat 1⟩⟩) ∧ iqmp.toNat < 5 ∧ iqmp.toNat * 3 ≡ 1 [MOD 5]) ∧
    ∃ numbers, (Keypair.rsa ⟨⟨.ofNat 3, .ofNat 9⟩, ⟨.ofNat 1, .ofNat 0, .ofNat 3, .ofNat 3,
        .ofNat 1, .ofNat 1⟩⟩).accept = .ok numbers ∧
      numbers.toKeypair = .error (.materialRejected .rsa "missing CRT coefficient") := by
  refine ⟨?_, ?_, ?_, ?_⟩
  · refine ⟨.ecdsa ⟨.nistP521, Curve.nistP521.params.generatorX,
      Curve.nistP521.params.generatorY⟩, by decide +kernel, ?_⟩
    exact (accepted_numbers_return.1 _ _ (by decide +kernel)).2
  · refine ⟨.ecdsa ⟨.nistP521, 1⟩, by decide +kernel, ?_⟩
    exact (accepted_numbers_return.2 (.ecdsa _) _ trivial (by decide +kernel)).2.2
  · have hderived : RsaPrivateKey.IsDerived ⟨.ofNat 3, .ofNat 9, .ofNat 5, .ofNat 3, .ofNat 3,
        .ofNat 1⟩ := ⟨.ofNat 3, .ofNat 9, .ofNat 5, .ofNat 3, rfl⟩
    have haccept : (Keypair.rsa ⟨⟨.ofNat 3, .ofNat 15⟩, ⟨.ofNat 3, .ofNat 9, .ofNat 5, .ofNat 3,
        .ofNat 3, .ofNat 1⟩⟩).accept = .ok (.rsa ⟨⟨15, 3⟩, 3, [5, 3]⟩) := rfl
    obtain ⟨-, -, hreturn⟩ := accepted_numbers_return.2 (.rsa ⟨_, _⟩) _ hderived haccept
    obtain ⟨iqmp, hback, hinverse⟩ := hreturn.1 (by decide)
    exact ⟨_, iqmp, haccept, hback, hinverse⟩
  · have hderived : RsaPrivateKey.IsDerived ⟨.ofNat 1, .ofNat 0, .ofNat 3, .ofNat 3, .ofNat 1,
        .ofNat 1⟩ := ⟨.ofNat 1, .ofNat 0, .ofNat 3, .ofNat 3, rfl⟩
    have haccept : (Keypair.rsa ⟨⟨.ofNat 3, .ofNat 9⟩, ⟨.ofNat 1, .ofNat 0, .ofNat 3, .ofNat 3,
        .ofNat 1, .ofNat 1⟩⟩).accept = .ok (.rsa ⟨⟨9, 3⟩, 1, [3, 3]⟩) := rfl
    obtain ⟨-, -, hreturn⟩ := accepted_numbers_return.2 (.rsa ⟨_, _⟩) _ hderived haccept
    exact ⟨_, haccept, hreturn.2 (by decide)⟩

end SshKeys
