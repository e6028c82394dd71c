/-
**Ways of reading a public key.**

A public key is read from a complete blob, from a buffer, from a buffer behind its length, and
through a registry under a declared key type.  Each way checks the key type, the end of the data
and the numbers of the key in its own order, and only the registry looks past the case of letters.
They all come to the same judgement on a blob: which key it holds, and that the key type in front
is the type of the key.

Main definitions:

* `SshKeys.PublicKey.GoodFor` — a blob holds an accepted key of a given key type;
* `SshKeys.foldKeyType` — a blob with the key type in front of it in lower case;
* `SshKeys.SameButTypeCase` — two blobs that differ in the case of that key type at most.

Main results:

* `SshKeys.KeyDecoder.builtin_decode_eq_ok` — what a built-in decoder accepts;
* `SshKeys.Registry.decode_eq_ok_iff` — what a registry accepts under a built-in name;
* `SshKeys.PublicKey.paths_agree` — **all ways of reading a public key agree**.
-/

import SshKeys.Proofs.PublicKeyWire
import SshKeys.Key.Exchange
import SshKeys.Key.Registry

set_option relaxedAutoImplicit false
set_option autoImplicit false

namespace SshKeys

/-! ### Letter case -/

theorem utf8Bytes_eq_flatMap (s : String) :
    utf8Bytes s = s.toList.flatMap String.utf8EncodeChar := by
  rw [utf8Bytes, String.toUTF8_eq_toByteArray, ← String.utf8Encode_toList, List.utf8Encode]
  simp

theorem val_toLower (c : Char) :
    c.toLower.val = if 'A'.val ≤ c.val ∧ c.val ≤ 'Z'.val then c.val + 32 else c.val := by
  by_cases h : 'A'.val ≤ c.val ∧ c.val ≤ 'Z'.val
  · rw [if_pos h]
    exact congrArg Char.val (dif_pos h)
  · rw [if_neg h]
    exact congrArg Char.val (dif_neg h)

/-- A lower-case letter is none of those that are changed. -/
theorem toLower_toLower (c : Char) : c.toLower.toLower = c.toLower := by
  apply Char.ext
  rw [val_toLower, val_toLower]
  split
  · next h =>
      simp [UInt32.le_iff_toNat_le] at h ⊢
      omega
  · rfl

/-- All letters that are changed, and what they are changed into, take one byte. -/
theorem utf8Size_toLower (c : Char) : c.toLower.utf8Size = c.utf8Size := by
  have hval := val_toLower c
  split at hval
  · next h =>
      have hbound := h.2
      rw [UInt32.le_iff_toNat_le] at hbound
      simp at hbound
      rw [Char.utf8Size_eq_one_iff.2, Char.utf8Size_eq_one_iff.2]
      · rw [UInt32.le_iff_toNat_le]
        simp
        omega
      · rw [hval, UInt32.le_iff_toNat_le]
        simp
        omega
  · rw [Char.ext hval]

@[simp] theorem foldCase_foldCase (s : String) : foldCase (foldCase s) = foldCase s := by
  have hcomp : Char.toLower ∘ Char.toLower = Char.toLower := funext toLower_toLower
  simp only [foldCase, String.toList_ofList, List.map_map, hcomp]

/-- Letter case does not change the length of a text in UTF-8. -/
theorem length_utf8Bytes_foldCase (s : String) :
    (utf8Bytes (foldCase s)).length = (utf8Bytes s).length := by
  rw [utf8Bytes_eq_flatMap, utf8Bytes_eq_flatMap, toList_foldCase]
  induction s.toList with
  | nil => rfl
  | cons c cs ih =>
      simp only [List.map_cons, List.flatMap_cons, List.length_append,
        String.length_utf8EncodeChar, utf8Size_toLower, ih]

theorem Algorithm.foldCase_name {algorithm : Algorithm} (hbuiltin : algorithm.isBuiltin = true) :
    foldCase algorithm.name = algorithm.name := by
  cases algorithm with
  | dsa => rfl
  | ecdsa curve => cases curve <;> rfl
  | rsa => rfl
  | other name => simp [isBuiltin] at hbuiltin

/-! ### The key type in front of a blob -/

/-- A blob with the key type in front of it in lower case.  A blob without a key type in front
stays as it is. -/
def foldKeyType (blob : Bytes) : Bytes :=
  match (Decoder.text.run blob : EStateM.Result Error Bytes String) with
  | .ok name rest => prefixed (utf8Bytes (foldCase name)) ++ rest
  | .error _ _ => blob

/-- Two blobs are the same, or differ in the case of the key type in front of them alone. -/
inductive SameButTypeCase : Bytes → Bytes → Prop
  | refl (blob : Bytes) : SameButTypeCase blob blob
  | keyType {name name' : String} (rest : Bytes) (h : foldCase name = foldCase name') :
      SameButTypeCase (prefixed (utf8Bytes name) ++ rest) (prefixed (utf8Bytes name') ++ rest)

theorem foldKeyType_prefixed {name : String} (hfit : Fits (utf8Bytes name)) (rest : Bytes) :
    foldKeyType (prefixed (utf8Bytes name) ++ rest) = prefixed (utf8Bytes (foldCase name)) ++ rest := by
  have hread : Decoder.text.Reads (prefixed (utf8Bytes name) ++ rest) name rest :=
    Decoder.reads_text.2 ⟨hfit, rfl⟩
  rw [Decoder.Reads] at hread
  rw [foldKeyType, hread]

theorem foldKeyType_of_not_reads {blob : Bytes}
    (h : ∀ name rest, ¬Decoder.text.Reads blob name rest) : foldKeyType blob = blob := by
  unfold foldKeyType
  split
  · next name rest hread => exact absurd hread (h name rest)
  · rfl

/-- Blobs that differ in the case of their key type alone do not differ once it is folded. -/
theorem SameButTypeCase.foldKeyType_eq {blob blob' : Bytes} (h : SameButTypeCase blob blob')
    (hshort : blob.length < 2 ^ 31) : foldKeyType blob' = foldKeyType blob := by
  cases h with
  | refl => rfl
  | @keyType name name' rest hfold =>
      have hname : (utf8Bytes name).length < 2 ^ 31 := by
        rw [List.length_append, length_prefixed] at hshort
        omega
      have hname' : (utf8Bytes name').length < 2 ^ 31 := by
        rw [← length_utf8Bytes_foldCase, ← hfold, length_utf8Bytes_foldCase]
        exact hname
      rw [foldKeyType_prefixed (fits_iff.2 hname'), foldKeyType_prefixed (fits_iff.2 hname), hfold]

namespace PublicKey

/-! ### Good blobs -/

/-- A blob holds a key of a given key type, whose numbers are accepted. -/
def GoodFor (blob : Bytes) (keyType : String) (key : PublicKey) : Prop :=
  ofBytes blob = .ok key ∧ key.algorithm.name = keyType ∧ ∃ numbers, key.accept = .ok numbers

variable {key : PublicKey}

theorem goodFor_prefixed {name keyType : String} {rest : Bytes} (hfit : Fits (utf8Bytes name)) :
    GoodFor (prefixed (utf8Bytes name) ++ rest) keyType key ↔
      name = keyType ∧ key.algorithm.name = keyType ∧
        (fieldDecoder key.algorithm).Reads rest key [] ∧ ∃ numbers, key.accept = .ok numbers := by
  rw [GoodFor, ofBytes, Decoder.ofBytes_eq_ok]
  simp only [decoder, Decoder.reads_bind, Decoder.reads_keyType]
  constructor
  · rintro ⟨⟨algorithm, mid, ⟨hbuiltin, hblob⟩, hfields⟩, hkeyType, haccept⟩
    obtain ⟨rfl, -⟩ := reads_fieldDecoder.1 hfields
    -- the key type is the one text that is read from the front
    have hname : Decoder.text.Reads (prefixed (utf8Bytes name) ++ rest) name rest :=
      Decoder.reads_text.2 ⟨hfit, rfl⟩
    obtain ⟨rfl, rfl⟩ := hname.unique
      (Decoder.reads_text.2 ⟨Algorithm.fits_name hbuiltin, hblob⟩)
    exact ⟨hkeyType, hkeyType, hfields, haccept⟩
  · rintro ⟨rfl, hkeyType, hfields, haccept⟩
    have hbuiltin := isBuiltin_of_reads hfields
    exact ⟨⟨key.algorithm, rest, ⟨hbuiltin, by rw [hkeyType]⟩, hfields⟩, hkeyType, haccept⟩

/-- A good blob has a key type in front. -/
theorem GoodFor.reads_text {blob : Bytes} {keyType : String} (h : GoodFor blob keyType key) :
    ∃ name rest, Decoder.text.Reads blob name rest := by
  obtain ⟨forms, hspelled, -, rfl⟩ := reads_decoder.1 (Decoder.ofBytes_eq_ok.1 h.1)
  refine ⟨key.algorithm.name, prefixedAll forms, Decoder.reads_text.2 ⟨?_, ?_⟩⟩
  · exact Algorithm.fits_name hspelled.isBuiltin
  · rw [prefixedAll_cons, List.append_nil]

theorem GoodFor.isBuiltin {blob : Bytes} {keyType : String} (h : GoodFor blob keyType key) :
    key.algorithm.isBuiltin = true := by
  obtain ⟨forms, hspelled, -, -⟩ := reads_decoder.1 (Decoder.ofBytes_eq_ok.1 h.1)
  exact hspelled.isBuiltin

theorem reads_acceptedDecoder {bs rest : Bytes} :
    acceptedDecoder.Reads bs key rest ↔
      decoder.Reads bs key rest ∧ ∃ numbers, key.accept = .ok numbers := by
  simp only [acceptedDecoder, Decoder.reads_bind, Decoder.reads_ofExcept, Decoder.reads_pure]
  constructor
  · rintro ⟨key', mid, hread, numbers, mid', ⟨haccept, rfl⟩, rfl, rfl⟩
    exact ⟨hread, numbers, haccept⟩
  · rintro ⟨hread, numbers, haccept⟩
    exact ⟨key, rest, hread, numbers, rest, ⟨haccept, rfl⟩, rfl, rfl⟩

end PublicKey

/-! ### Built-in decoders -/

/-- What a built-in decoder accepts: a blob whose key type is the declared one and one of those
handled, up to the case of letters, followed by the fields of an accepted key of that type. -/
theorem KeyDecoder.builtin_decode_eq_ok {algorithms : List Algorithm} {declared : String}
    {blob : Bytes} {key : PublicKey} :
    (builtin algorithms).decode declared blob = .ok key ↔
      ∃ embedded rest, Fits (utf8Bytes embedded) ∧ blob = prefixed (utf8Bytes embedded) ++ rest ∧
        foldCase embedded = foldCase declared ∧ foldCase embedded = key.algorithm.name ∧
        key.algorithm.name ∈ algorithms.map Algorithm.name ∧
        (PublicKey.fieldDecoder key.algorithm).Reads rest key [] ∧
        ∃ numbers, key.accept = .ok numbers := by
  change (builtinProgram (algorithms.map Algorithm.name) declared).value blob = .ok key ↔ _
  rw [Decoder.value_eq_ok]
  simp only [builtinProgram, Decoder.reads_bind, Decoder.reads_text]
  constructor
  · rintro ⟨left, embedded, rest, ⟨hfit, rfl⟩, h⟩
    by_cases hdeclared : foldCase embedded = foldCase declared
    · -- the look-up finds an algorithm, and only a built-in one has fields that are read
      rw [if_neg fun hne => hne hdeclared] at h
      cases hfound : (Algorithm.ofName? (foldCase embedded)).filter
          ((algorithms.map Algorithm.name).contains ·.name) with
      | none =>
          simp only [hfound] at h
          exact absurd h Decoder.not_reads_fail
      | some algorithm =>
          simp only [hfound, Decoder.reads_bind, Decoder.reads_toEnd, Decoder.reads_ofExcept,
            Decoder.reads_pure] at h
          obtain ⟨key', mid, ⟨hfields, rfl⟩, numbers, mid', ⟨haccept, rfl⟩, rfl, rfl⟩ := h
          obtain ⟨hname, hhandled⟩ := Option.filter_eq_some_iff.1 hfound
          obtain ⟨rfl, -⟩ := PublicKey.reads_fieldDecoder.1 hfields
          have hbuiltin := PublicKey.isBuiltin_of_reads hfields
          exact ⟨embedded, rest, hfit, rfl, hdeclared,
            (Algorithm.ofName?_eq_builtin hbuiltin).1 hname, by simpa using hhandled, hfields,
            numbers, haccept⟩
    · rw [if_pos hdeclared] at h
      simp at h
  · rintro ⟨embedded, rest, hfit, rfl, hdeclared, hname, hhandled, hfields, numbers, haccept⟩
    have hbuiltin := PublicKey.isBuiltin_of_reads hfields
    have hfound : (Algorithm.ofName? (foldCase embedded)).filter
        ((algorithms.map Algorithm.name).contains ·.name) = some key.algorithm :=
      Option.filter_eq_some_iff.2
        ⟨(Algorithm.ofName?_eq_builtin hbuiltin).2 hname, by simpa using hhandled⟩
    refine ⟨[], embedded, rest, ⟨hfit, rfl⟩, ?_⟩
    rw [if_neg fun hne => hne hdeclared]
    simp only [hfound, Decoder.reads_bind, Decoder.reads_toEnd, Decoder.reads_ofExcept,
      Decoder.reads_pure]
    exact ⟨key, [], ⟨hfields, rfl⟩, numbers, [], ⟨haccept, rfl⟩, rfl, rfl⟩

/-- A key from a built-in decoder has the declared type, up to the case of letters, and one of
those the decoder handles. -/
theorem KeyDecoder.algorithm_of_builtin {algorithms : List Algorithm} {declared : String}
    {blob : Bytes} {key : PublicKey} (h : (builtin algorithms).decode declared blob = .ok key) :
    key.algorithm.name ∈ (builtin algorithms).keyTypes ∧
      foldCase key.algorithm.name = foldCase declared := by
  obtain ⟨embedded, rest, -, -, hdeclared, hname, hhandled, hfields, -⟩ := builtin_decode_eq_ok.1 h
  refine ⟨hhandled, ?_⟩
  rw [Algorithm.foldCase_name (PublicKey.isBuiltin_of_reads hfields), ← hname, hdeclared]

/-! ### Registries -/

namespace Registry

theorem mem_builtinNames {name : String} :
    name ∈ builtinNames ↔ ∃ decoder ∈ builtins, name ∈ decoder.keyTypes.map foldCase := by
  rw [builtinNames, sorted, List.mem_mergeSort, List.mem_flatMap]

/-- Built-in names are in lower case. -/
theorem foldCase_of_mem_builtinNames {name : String} (h : name ∈ builtinNames) :
    foldCase name = name := by
  obtain ⟨decoder, -, hheld⟩ := mem_builtinNames.1 h
  obtain ⟨keyType, -, rfl⟩ := List.mem_map.1 hheld
  exact foldCase_foldCase keyType

theorem name_mem_builtinNames {algorithm : Algorithm} (hbuiltin : algorithm.isBuiltin = true) :
    algorithm.name ∈ builtinNames := by
  rw [mem_builtinNames]
  cases algorithm with
  | dsa => exact ⟨.dsa, by simp [builtins], by decide⟩
  | ecdsa curve => exact ⟨.ecdsa, by simp [builtins], by cases curve <;> decide⟩
  | rsa => exact ⟨.rsa, by simp [builtins], by decide⟩
  | other name => simp [Algorithm.isBuiltin] at hbuiltin

/-- The built-in decoders are decoders of algorithms whose names are in lower case. -/
theorem exists_algorithms {decoder : KeyDecoder} (h : decoder ∈ builtins) :
    ∃ algorithms, decoder = .builtin algorithms ∧
      decoder.keyTypes.map foldCase = algorithms.map Algorithm.name := by
  simp only [builtins, List.mem_cons, List.not_mem_nil, or_false] at h
  rcases h with rfl | rfl | rfl
  · exact ⟨_, rfl, rfl⟩
  · exact ⟨_, rfl, rfl⟩
  · exact ⟨_, rfl, rfl⟩

/-- Whatever is registered, a built-in name belongs to a built-in decoder. -/
theorem resolve?_of_mem_builtinNames (r : Registry) {name declared : String}
    (hname : name ∈ builtinNames) (hdeclared : foldCase declared = name) :
    ∃ algorithms, r.resolve? declared = some (.builtin algorithms) ∧
      name ∈ algorithms.map Algorithm.name := by
  obtain ⟨holder, hholder, hholds⟩ := mem_builtinNames.1 hname
  -- the built-in decoders are asked before any extension
  have hsome : (builtin? name).isSome = true := by
    rw [builtin?, List.find?_isSome]
    exact ⟨holder, hholder, by simpa using hholds⟩
  obtain ⟨decoder, hdecoder⟩ := Option.isSome_iff_exists.1 hsome
  obtain ⟨algorithms, rfl, hnames⟩ := exists_algorithms (List.mem_of_find?_eq_some hdecoder)
  have hhandled := List.find?_some hdecoder
  rw [hnames, List.contains_iff_mem] at hhandled
  exact ⟨algorithms, by rw [resolve?, hdeclared, hdecoder], hhandled⟩

/-- **What a registry accepts under a built-in name**: a blob that is good for the name, up to the
case of the key type in front of it. -/
theorem decode_eq_ok_iff (r : Registry) {name declared : String} {blob : Bytes} {key : PublicKey}
    (hname : name ∈ builtinNames) (hdeclared : foldCase declared = name) :
    r.decode declared blob = .ok key ↔ PublicKey.GoodFor (foldKeyType blob) name key := by
  obtain ⟨algorithms, hresolve, hhandled⟩ := r.resolve?_of_mem_builtinNames hname hdeclared
  simp only [decode, hresolve, KeyDecoder.builtin_decode_eq_ok]
  constructor
  · rintro ⟨embedded, rest, hfit, rfl, hsame, hkey, -, hfields, haccept⟩
    have hfolded : Fits (utf8Bytes (foldCase embedded)) := by
      rw [hkey]
      exact Algorithm.fits_name (PublicKey.isBuiltin_of_reads hfields)
    rw [foldKeyType_prefixed hfit, PublicKey.goodFor_prefixed hfolded]
    exact ⟨hsame.trans hdeclared, hkey.symm.trans (hsame.trans hdeclared), hfields, haccept⟩
  · intro hgood
    by_cases htext : ∃ embedded rest, Decoder.text.Reads blob embedded rest
    · obtain ⟨embedded, rest, hread⟩ := htext
      obtain ⟨hfit, rfl⟩ := Decoder.reads_text.1 hread
      have hfolded : Fits (utf8Bytes (foldCase embedded)) := by
        rw [Fits, length_utf8Bytes_foldCase]
        exact hfit
      rw [foldKeyType_prefixed hfit, PublicKey.goodFor_prefixed hfolded] at hgood
      obtain ⟨hsame, hkey, hfields, haccept⟩ := hgood
      exact ⟨embedded, rest, hfit, rfl, hsame.trans hdeclared.symm, hsame.trans hkey.symm,
        hkey ▸ hhandled, hfields, haccept⟩
    · -- without a key type in front nothing is folded, and nothing is good
      have hnone : ∀ embedded rest, ¬Decoder.text.Reads blob embedded rest :=
        fun embedded rest hread => htext ⟨embedded, rest, hread⟩
      rw [foldKeyType_of_not_reads hnone] at hgood
      exact absurd hgood.reads_text htext

end Registry

/-! ### All ways of reading -/

namespace PublicKey

variable {key : PublicKey} {blob : Bytes}

/-- A blob is good for the type of the key it holds. -/
theorem exists_goodFor_iff :
    (∃ keyType ∈ Registry.builtinNames, GoodFor blob keyType key) ↔
      acceptedDecoder.Reads blob key [] := by
  rw [reads_acceptedDecoder, ← Decoder.ofBytes_eq_ok]
  constructor
  · rintro ⟨keyType, -, hread, -, haccept⟩
    exact ⟨hread, haccept⟩
  · rintro ⟨hread, haccept⟩
    have hgood : GoodFor blob key.algorithm.name key := ⟨hread, rfl, haccept⟩
    exact ⟨key.algorithm.name, Registry.name_mem_builtinNames hgood.isBuiltin, hgood⟩

/-- Reading from a buffer is reading from the bytes in it. -/
theorem get_ofBytes_eq_ok {d : Decoder PublicKey} {rest : Bytes} :
    (∃ b, Buffer.get d (.ofBytes blob) = .ok key b ∧ b.unread = rest) ↔ d.Reads blob key rest := by
  have hb : (Buffer.ofBytes blob).WellFormed := ⟨Nat.zero_le _, Nat.le_refl _⟩
  have hrun := @Buffer.run_eq_ok_iff _ d _ key hb rest
  rwa [Buffer.unread_ofBytes] at hrun

/-- A framed key is the key in the stretch behind the length. -/
theorem reads_framedDecoder (hfit : Fits blob) {rest : Bytes} :
    framedDecoder.Reads (prefixed blob ++ rest) key rest ↔ acceptedDecoder.Reads blob key [] := by
  rw [framedDecoder, Decoder.reads_framed]
  constructor
  · rintro ⟨stretch, hstretch, hsame, hread⟩
    obtain ⟨rfl, -⟩ := prefixed_inj hfit hstretch hsame
    exact hread
  · intro hread
    exact ⟨blob, hfit, rfl, hread⟩

/-- **All ways of reading a public key agree.**  A registry, whatever is registered in it, accepts
a blob under a built-in key type exactly if the blob is good for that type, up to the case of
letters in both; a buffer gives the key and nothing else, or the key behind its length and what
follows, exactly if the blob is good for some built-in type.  A built-in decoder on its own gives
keys of the declared type only. -/
theorem paths_agree (r : Registry) (hshort : blob.length < 2 ^ 31) (rest : Bytes) :
    (∀ keyType ∈ Registry.builtinNames, ∀ declared blob', foldCase declared = foldCase keyType →
      SameButTypeCase blob blob' →
      (r.decode declared blob' = .ok key ↔ GoodFor (foldKeyType blob) keyType key)) ∧
    ((∃ b, Buffer.getKey (.ofBytes blob) = .ok key b ∧ b.unread = []) ↔
      ∃ keyType ∈ Registry.builtinNames, GoodFor blob keyType key) ∧
    ((∃ b, Buffer.getFramedKey (.ofBytes (bigEndian 4 blob.length ++ blob ++ rest)) = .ok key b ∧
        b.unread = rest) ↔
      ∃ keyType ∈ Registry.builtinNames, GoodFor blob keyType key) ∧
    ∀ decoder ∈ [KeyDecoder.rsa, KeyDecoder.dsa, KeyDecoder.ecdsa], ∀ declared blob',
      decoder.decode declared blob' = .ok key →
      key.algorithm.name ∈ decoder.keyTypes ∧ foldCase key.algorithm.name = foldCase declared := by
  refine ⟨?_, ?_, ?_, ?_⟩
  · intro keyType hkeyType declared blob' hdeclared hsame
    have hlower := hdeclared.trans (Registry.foldCase_of_mem_builtinNames hkeyType)
    rw [r.decode_eq_ok_iff hkeyType hlower, hsame.foldKeyType_eq hshort]
  · rw [exists_goodFor_iff]
    exact get_ofBytes_eq_ok
  · rw [exists_goodFor_iff, ← reads_framedDecoder (fits_iff.2 hshort)]
    exact get_ofBytes_eq_ok
  · intro decoder hdecoder declared blob' haccepted
    obtain ⟨algorithms, rfl, -⟩ := Registry.exists_algorithms hdecoder
    exact KeyDecoder.algorithm_of_builtin haccepted

/-- A small RSA blob is read on every path, on the registry's also with its key type in upper
case. -/
theorem paths_agree_small_rsa :
    Registry.empty.decode "ssh-RSA" (prefixedAll [utf8Bytes "SSH-rsa", [3], [15]]) =
      .ok (.rsa ⟨.ofMagnitude [3], .ofMagnitude [15]⟩) ∧
    (∃ b, Buffer.getKey (.ofBytes (prefixedAll [utf8Bytes "ssh-rsa", [3], [15]])) =
      .ok (.rsa ⟨.ofMagnitude [3], .ofMagnitude [15]⟩) b ∧ b.unread = []) ∧
    ∃ b, Buffer.getFramedKey
        (.ofBytes (prefixed (prefixedAll [utf8Bytes "ssh-rsa", [3], [15]]) ++ [1, 2])) =
      .ok (.rsa ⟨.ofMagnitude [3], .ofMagnitude [15]⟩) b ∧ b.unread = [1, 2] := by
  have hgood : GoodFor (prefixedAll [utf8Bytes "ssh-rsa", [3], [15]]) "ssh-rsa"
      (.rsa ⟨.ofMagnitude [3], .ofMagnitude [15]⟩) := ⟨rfl, rfl, _, rfl⟩
  have hname : "ssh-rsa" ∈ Registry.builtinNames :=
    @Registry.name_mem_builtinNames .rsa rfl
  have hshort : (prefixedAll [utf8Bytes "ssh-rsa", [3], [15]]).length < 2 ^ 31 := by decide
  obtain ⟨hregistry, hraw, hframed, -⟩ := @paths_agree
    (.rsa ⟨.ofMagnitude [3], .ofMagnitude [15]⟩) _ .empty hshort [1, 2]
  refine ⟨?_, hraw.2 ⟨_, hname, hgood⟩, hframed.2 ⟨_, hname, hgood⟩⟩
  refine (hregistry "ssh-rsa" hname "ssh-RSA" _ (by decide) ?_).2 ?_
  · exact @SameButTypeCase.keyType "ssh-rsa" "SSH-rsa" _ (by decide)
  · exact hgood

end PublicKey

end SshKeys
