/-
**Keys as lines of text.**

An entry is a word, a space and the Base64 of a blob; what follows a further space is no part of
it.  A line of authorized keys is cut at its first space outside quotes: what stands before it is a
key type that the registry knows, or login options for the entry behind it.  A key that is written
as an entry comes back from the line, on its own or among authorized keys, and whatever is
registered the entry resolves to the key.

Main definitions:

* `SshKeys.KeyEntry.WellFormed` — the entries that a line can hold;
* `SshKeys.behind` — what follows an entry, with the space in front of it.

Main results:

* `SshKeys.KeyEntry.split_eq_ok_iff` — which lines hold which entry;
* `SshKeys.AuthorizedKey.ofLine?_eq_some_iff`, `SshKeys.AuthorizedKey.ofOptionLine_eq_ok_iff`,
  `SshKeys.AuthorizedKey.ofEntryLine_eq_ok_iff` — which lines grant which key;
* `SshKeys.PublicKey.survives_text` — **a key written as text resolves back to the key**.
-/

import SshKeys.Proofs.Acceptance
import SshKeys.Proofs.Base64Text
import SshKeys.Proofs.KeyPaths
import SshKeys.Proofs.TextScans
import SshKeys.Login.AuthorizedKeys

set_option relaxedAutoImplicit false
set_option autoImplicit false

namespace SshKeys

/-- What follows an entry, with the space in front of it. -/
def behind : Option (List Char) → List Char
  | none => []
  | some trailer => ' ' :: trailer

@[simp] theorem behind_none : behind none = [] := rfl

@[simp] theorem behind_some (trailer : List Char) : behind (some trailer) = ' ' :: trailer := rfl

/-! ### Entries -/

namespace KeyEntry

/-- An entry that a line can hold: its key type is a word, and its blob is not empty. -/
structure WellFormed (entry : KeyEntry) : Prop where
  keyType_ne : entry.keyType.toList ≠ []
  keyType_word : ' ' ∉ entry.keyType.toList
  blob_ne : entry.blob ≠ []

variable {entry : KeyEntry} {line : String} {trailer? : Option (List Char)}

theorem cutTrailer_eq_iff {cs payload : List Char} :
    cutTrailer cs = (payload, trailer?) ↔ cs = payload ++ behind trailer? ∧ ' ' ∉ payload := by
  rw [cutTrailer]
  cases hcut : cutAt? ' ' cs with
  | none =>
      have hspace := cutAt?_eq_none_iff.1 hcut
      simp only [Prod.mk.injEq]
      constructor
      · rintro ⟨rfl, rfl⟩
        exact ⟨by simp, hspace⟩
      · rintro ⟨rfl, -⟩
        cases trailer? with
        | none => simp
        | some trailer => simp at hspace
  | some pair =>
      obtain ⟨before, after⟩ := pair
      obtain ⟨rfl, hbefore⟩ := cutAt?_eq_some_iff.1 hcut
      simp only [Prod.mk.injEq]
      constructor
      · rintro ⟨rfl, rfl⟩
        exact ⟨rfl, hbefore⟩
      · rintro ⟨hsame, hpayload⟩
        cases trailer? with
        | none =>
            rw [behind_none, List.append_nil] at hsame
            exact absurd (by simp [← hsame]) hpayload
        | some trailer =>
            -- both sides are the cut at the first space
            have hcut' := cutAt?_eq_some_iff.2 ⟨hsame, hpayload⟩
            rw [hcut'] at hcut
            obtain ⟨rfl, rfl⟩ := Prod.mk.inj (Option.some.inj hcut)
            exact ⟨rfl, rfl⟩

/-- **Which lines hold which entry**: a word, a space and Base64 up to the next space. -/
theorem split_eq_ok_iff :
    split line = .ok (entry, trailer?) ↔
      entry.WellFormed ∧ ∃ payload, ' ' ∉ payload ∧
        Base64.decode? (trimChars payload) = some entry.blob ∧
        line.toList = entry.keyType.toList ++ ' ' :: (payload ++ behind trailer?) := by
  constructor
  · intro h
    unfold split at h
    split at h
    · simp at h
    · simp at h
    · next keyType rest hne hcut =>
        obtain ⟨hline, hword⟩ := cutAt?_eq_some_iff.1 hcut
        cases htrailer : cutTrailer rest with
        | mk payload trailer' =>
            obtain ⟨rfl, hpayload⟩ := cutTrailer_eq_iff.1 htrailer
            simp only [htrailer] at h
            split at h
            · simp at h
            · simp at h
            · next blob hblob hdecode =>
                simp only [Except.ok.injEq, Prod.mk.injEq] at h
                obtain ⟨rfl, rfl⟩ := h
                refine ⟨⟨?_, by simpa using hword, fun hnil => hblob hnil⟩,
                  payload, hpayload, hdecode, by simpa using hline⟩
                simpa using hne
  · rintro ⟨⟨hne, hword, hblob⟩, payload, hpayload, hdecode, hline⟩
    have hcut := cutAt?_eq_some_iff.2 ⟨hline, hword⟩
    have htrailer : cutTrailer (payload ++ behind trailer?) = (payload, trailer?) :=
      cutTrailer_eq_iff.2 ⟨rfl, hpayload⟩
    unfold split
    rw [hcut]
    cases hkeyType : entry.keyType.toList with
    | nil => exact absurd hkeyType hne
    | cons c cs =>
        simp only [htrailer, hdecode]
        cases hcase : entry.blob with
        | nil => exact absurd hcase hblob
        | cons b bs => simp [← hkeyType, ← hcase]

theorem toList_text (h : entry.blob ≠ []) :
    entry.text.toList = entry.keyType.toList ++ ' ' :: Base64.encode entry.blob := by
  have hblob : entry.blob.isEmpty = false := by simpa using h
  rw [text, if_neg (by simp [hblob])]
  simp

theorem not_mem_encode {c : Char} (h : isGraphic c = false) (bs : Bytes) :
    c ∉ Base64.encode bs := by
  intro hmem
  rw [Base64.isGraphic_of_mem_encode hmem] at h
  exact Bool.noConfusion h

/-- An entry is read back from its line, whatever follows it. -/
theorem split_text (h : entry.WellFormed)
    (hline : line.toList = entry.text.toList ++ behind trailer?) :
    split line = .ok (entry, trailer?) := by
  refine split_eq_ok_iff.2 ⟨h, Base64.encode entry.blob, not_mem_encode (by decide) _, ?_, ?_⟩
  · rw [trimChars_of_isGraphic fun c hc => Base64.isGraphic_of_mem_encode hc,
      Base64.decode?_encode]
  · rw [hline, toList_text h.blob_ne, List.append_assoc, List.cons_append]

theorem ofLine_text (h : entry.WellFormed) : ofLine entry.text = .ok entry := by
  have hsplit : split entry.text = .ok (entry, none) := split_text h (by simp)
  have hne : entry.text ≠ "" := by
    intro hempty
    have htext := toList_text h.blob_ne
    rw [hempty] at htext
    simp at htext
  rw [ofLine, ofLine?, if_neg hne, hsplit]
  rfl

end KeyEntry

/-! ### Authorized keys -/

namespace AuthorizedKey

variable {r : Registry} {line : String} {key : AuthorizedKey}

/-- A line without options: an entry, and a comment if there is one. -/
theorem ofEntryLine_eq_ok_iff :
    ofEntryLine line = .ok key ↔
      key.options = .empty ∧ ∃ trailer?, KeyEntry.split line = .ok (key.entry, trailer?) ∧
        key.comment? = commentOf trailer? := by
  rw [ofEntryLine, bind_eq_ok_iff]
  constructor
  · rintro ⟨⟨entry, trailer?⟩, hsplit, hkey⟩
    obtain rfl := pure_eq_ok_iff.1 hkey
    exact ⟨rfl, trailer?, hsplit, rfl⟩
  · rintro ⟨hoptions, trailer?, hsplit, hcomment⟩
    refine ⟨(key.entry, trailer?), hsplit, pure_eq_ok_iff.2 ?_⟩
    rw [← hoptions, ← hcomment]

/-- A line with options: behind them stands an entry of a key type that the registry knows. -/
theorem ofOptionLine_eq_ok_iff {first after : List Char} :
    ofOptionLine r line first after = .ok key ↔
      startsComment (trimChars after) = false ∧
        (∃ keyType rest, cutAt? ' ' (trimChars after) = some (keyType, rest) ∧
          r.isSupported (.ofList keyType) = true) ∧
        (∃ plain, ofEntryLine (.ofList (trimChars after)) = .ok plain ∧
          plain.entry = key.entry ∧ plain.comment? = key.comment?) ∧
        LoginOptions.ofText (.ofList first) = .ok key.options := by
  rw [ofOptionLine]
  constructor
  · intro h
    split at h
    · simp at h
    · next hguard =>
        split at h
        · simp at h
        · next pair hpair =>
            obtain ⟨plain, hplain, h⟩ := bind_eq_ok_iff.1 h
            obtain ⟨options, hoptions, h⟩ := bind_eq_ok_iff.1 h
            obtain rfl := pure_eq_ok_iff.1 h
            obtain ⟨hcut, hsupported⟩ := Option.filter_eq_some_iff.1 hpair
            simp only [Bool.or_eq_true, not_or, Bool.not_eq_true] at hguard
            exact ⟨hguard.2, ⟨pair.1, pair.2, hcut, hsupported⟩, ⟨plain, hplain, rfl, rfl⟩,
              hoptions⟩
  · rintro ⟨hcomment, ⟨keyType, rest, hcut, hsupported⟩, ⟨plain, hplain, hentry, hplainComment⟩,
      hoptions⟩
    have hne : (trimChars after).isEmpty = false := by
      cases hrest : trimChars after with
      | nil => simp [hrest, cutAt?] at hcut
      | cons c cs => rfl
    simp only [hne, hcomment, Bool.or_self, Bool.false_eq_true, ↓reduceIte, hcut,
      Option.filter_some, hsupported]
    refine bind_eq_ok_iff.2 ⟨plain, hplain, bind_eq_ok_iff.2 ⟨key.options, hoptions, ?_⟩⟩
    rw [pure_eq_ok_iff, hentry, hplainComment]

/-- **Which lines grant a key.**  The first word, up to a space outside quotes, is a key type that
the registry knows, and the line holds an entry; or it is something else, and the line starts with
options. -/
theorem ofLine?_eq_some_iff :
    ofLine? r line = .ok (some key) ↔
      startsComment line.toList = false ∧ ∃ first after, first ≠ [] ∧
        cutUnquoted? ' ' line.toList = some (first, after) ∧
        if r.isSupported (.ofList first) then ofEntryLine line = .ok key
        else ofOptionLine r line first after = .ok key := by
  rw [ofLine?]
  constructor
  · intro h
    split at h
    · simp at h
    · next hguard =>
        simp only [Bool.or_eq_true, not_or, Bool.not_eq_true] at hguard
        split at h
        · simp at h
        · simp at h
        · next first after hne hcut =>
            refine ⟨hguard.2, first, after, hne, hcut, ?_⟩
            split at h <;> next hsupported =>
              obtain ⟨key', hkey, hsame⟩ := map_eq_ok_iff.1 h
              cases hsame
              simpa [hsupported] using hkey
  · rintro ⟨hcomment, first, after, hne, hcut, h⟩
    have hline : line ≠ "" := by
      rintro rfl
      simp [cutUnquoted?, cutFrom?] at hcut
    simp only [hline, hcomment, decide_false, Bool.or_self, Bool.false_eq_true, ↓reduceIte, hcut]
    cases first with
    | nil => exact absurd rfl hne
    | cons c cs =>
        split at h <;> next hsupported =>
          simp only [hsupported, Bool.false_eq_true, ↓reduceIte]
          exact map_eq_ok_iff.2 ⟨key, h, rfl⟩

theorem startsComment_append {cs : List Char} (hne : cs ≠ []) (ds : List Char) :
    startsComment (cs ++ ds) = startsComment cs := by
  cases cs with
  | nil => exact absurd rfl hne
  | cons c cs => rfl

/-- A line that holds an entry, and whose first word the registry knows, grants the entry without
options. -/
theorem ofLine?_of_entry {entry : KeyEntry} {trailer? : Option (List Char)}
    {first after : List Char} (hentry : entry.WellFormed)
    (hline : line.toList = entry.text.toList ++ behind trailer?)
    (hcut : cutUnquoted? ' ' line.toList = some (first, after)) (hne : first ≠ [])
    (hcomment : startsComment first = false) (hsupported : r.isSupported (.ofList first) = true) :
    ofLine? r line = .ok (some ⟨entry, .empty, commentOf trailer?⟩) := by
  have hstart : startsComment line.toList = false := by
    rw [eq_of_cutFrom? hcut, startsComment_append hne, hcomment]
  refine ofLine?_eq_some_iff.2 ⟨hstart, first, after, hne, hcut, ?_⟩
  rw [if_pos hsupported]
  exact ofEntryLine_eq_ok_iff.2 ⟨rfl, trailer?, KeyEntry.split_text hentry hline, rfl⟩

/-- The first word of an entry is its key type, if the quotes in it are closed. -/
theorem cutUnquoted?_text {entry : KeyEntry} (hentry : entry.WellFormed)
    (hclosed : quotedThrough false entry.keyType.toList = false) (trailer : List Char) :
    cutUnquoted? ' ' (entry.text.toList ++ trailer) =
      some (entry.keyType.toList, Base64.encode entry.blob ++ trailer) := by
  refine (cutFrom?_eq_some_iff (by decide)).2
    ⟨?_, hidden_of_not_mem hentry.keyType_word false, hclosed⟩
  rw [KeyEntry.toList_text hentry.blob_ne, List.append_assoc, List.cons_append]

/-! ### Comments -/

/-- A comment is never blank, and has no blanks at its ends. -/
theorem trim_of_mem_commentOf {trailer? : Option (List Char)} {comment : String}
    (h : comment ∈ commentOf trailer?) :
    comment ≠ "" ∧ trimChars comment.toList = comment.toList := by
  obtain ⟨hmem, hne⟩ := Option.filter_eq_some_iff.1 h
  obtain ⟨trailer, -, rfl⟩ := Option.map_eq_some_iff.1 hmem
  exact ⟨by simpa using hne, by simp⟩

/-- Such a comment is read back from what follows an entry. -/
theorem commentOf_eq_self {comment? : Option String}
    (h : ∀ comment ∈ comment?, comment ≠ "" ∧ trimChars comment.toList = comment.toList) :
    commentOf (comment?.map String.toList) = comment? := by
  cases comment? with
  | none => rfl
  | some comment =>
      obtain ⟨hne, htrim⟩ := h comment rfl
      simp [commentOf, htrim, hne]

end AuthorizedKey

/-! ### Keys as text -/

/-- The name of a built-in algorithm is a word without quotes, and it starts no comment. -/
theorem Algorithm.name_word {algorithm : Algorithm} (hbuiltin : algorithm.isBuiltin = true) :
    algorithm.name.toList ≠ [] ∧ ' ' ∉ algorithm.name.toList ∧ '"' ∉ algorithm.name.toList ∧
      AuthorizedKey.startsComment algorithm.name.toList = false := by
  cases algorithm with
  | dsa => decide
  | ecdsa curve => cases curve <;> decide
  | rsa => decide
  | other name => simp [isBuiltin] at hbuiltin

/-- Whatever is registered, the name of a built-in algorithm is known. -/
theorem Registry.isSupported_name (r : Registry) {algorithm : Algorithm}
    (hbuiltin : algorithm.isBuiltin = true) : r.isSupported algorithm.name = true := by
  obtain ⟨algorithms, hresolve, -⟩ :=
    r.resolve?_of_mem_builtinNames (name_mem_builtinNames hbuiltin)
      (Algorithm.foldCase_name hbuiltin)
  rw [isSupported, hresolve]
  rfl

namespace PublicKey

variable {key : PublicKey}

/-- What is written for an accepted key is good for its key type. -/
theorem goodFor_written {numbers : VerifyingKey} (haccept : key.accept = .ok numbers)
    (hfit : ∀ field ∈ key.fields, Fits field) :
    GoodFor (prefixedAll (utf8Bytes key.algorithm.name :: key.fields)) key.algorithm.name key := by
  have hsized := wellSized_of_accept haccept
  rw [prefixedAll_cons, goodFor_prefixed (Algorithm.fits_name hsized.isBuiltin)]
  refine ⟨rfl, rfl, reads_fieldDecoder.2 ⟨rfl, key.fields, hsized.spelledBy_fields, hfit, ?_⟩,
    numbers, haccept⟩
  rw [List.append_nil]

/-- Whatever is registered, what is written for an accepted key is decoded to the key. -/
theorem decode_written (r : Registry) {numbers : VerifyingKey} (haccept : key.accept = .ok numbers)
    (hfit : ∀ field ∈ key.fields, Fits field) :
    r.decode key.algorithm.name (prefixedAll (utf8Bytes key.algorithm.name :: key.fields)) =
      .ok key := by
  have hbuiltin := (wellSized_of_accept haccept).isBuiltin
  refine (r.decode_eq_ok_iff (Registry.name_mem_builtinNames hbuiltin)
    (Algorithm.foldCase_name hbuiltin)).2 ?_
  rw [prefixedAll_cons, foldKeyType_prefixed (Algorithm.fits_name hbuiltin),
    Algorithm.foldCase_name hbuiltin]
  exact goodFor_written haccept hfit

/-- **A key written as text resolves back to the key.**  The entry of an accepted key is read back
from its line, the line grants it without options and without a comment, and whatever is
registered, the entry resolves to the key. -/
theorem survives_text (r : Registry) {numbers : VerifyingKey} (haccept : key.accept = .ok numbers)
    (hshort : ∀ field ∈ key.fields, field.length < 2 ^ 31) :
    ∃ entry granted, KeyEntry.ofKey key = .ok entry ∧ KeyEntry.ofLine entry.text = .ok entry ∧
      AuthorizedKey.ofLine? r entry.text = .ok (some granted) ∧ granted.entry = entry ∧
      granted.options = .empty ∧ granted.comment? = none ∧
      entry.resolve r = .ok key ∧ granted.resolve r = .ok key := by
  have hfit : ∀ field ∈ key.fields, Fits field := fun field hfield =>
    fits_iff.2 (hshort field hfield)
  have hsized := wellSized_of_accept haccept
  have hbuiltin := hsized.isBuiltin
  obtain ⟨hne, hword, hquote, hcomment⟩ := Algorithm.name_word hbuiltin
  have hwritten := toBytes_eq hsized hfit
  have hresolve := decode_written r haccept hfit
  have hblob : prefixedAll (utf8Bytes key.algorithm.name :: key.fields) ≠ [] := by
    rw [prefixedAll_cons, prefixed]
    simp [bigEndian]
  generalize prefixedAll (utf8Bytes key.algorithm.name :: key.fields) = blob at *
  have hentry : KeyEntry.WellFormed ⟨key.algorithm.name, blob⟩ := ⟨hne, hword, hblob⟩
  have hkey : KeyEntry.ofKey key = .ok ⟨key.algorithm.name, blob⟩ :=
    bind_eq_ok_iff.2 ⟨blob, hwritten, rfl⟩
  have hcut := AuthorizedKey.cutUnquoted?_text hentry (quotedThrough_of_not_mem hquote false) []
  rw [List.append_nil] at hcut
  have hsupported : r.isSupported (.ofList key.algorithm.name.toList) = true := by
    rw [String.ofList_toList]
    exact r.isSupported_name hbuiltin
  have hnothing : (KeyEntry.text ⟨key.algorithm.name, blob⟩).toList =
      (KeyEntry.text ⟨key.algorithm.name, blob⟩).toList ++ behind none := (List.append_nil _).symm
  have hline := AuthorizedKey.ofLine?_of_entry hentry hnothing hcut hne hcomment hsupported
  exact ⟨_, _, hkey, KeyEntry.ofLine_text hentry, hline, rfl, rfl, rfl, hresolve, hresolve⟩

/-- A small RSA key comes back from its line although an extension is registered. -/
theorem survives_text_beside_extension :
    ∃ entry, KeyEntry.ofKey (.rsa ⟨.ofMagnitude [3], .ofMagnitude [15]⟩) = .ok entry ∧
      KeyEntry.ofLine entry.text = .ok entry ∧
      entry.resolve ⟨[⟨["x"], .foreign ["X"]⟩]⟩ =
        .ok (.rsa ⟨.ofMagnitude [3], .ofMagnitude [15]⟩) := by
  obtain ⟨entry, -, hentry, hline, -, -, -, -, hresolve, -⟩ :=
    @survives_text (.rsa ⟨.ofMagnitude [3], .ofMagnitude [15]⟩) ⟨[⟨["x"], .foreign ["X"]⟩]⟩
      (.rsa ⟨15, 3⟩) rfl (by decide)
  exact ⟨entry, hentry, hline, hresolve⟩

end PublicKey

end SshKeys
