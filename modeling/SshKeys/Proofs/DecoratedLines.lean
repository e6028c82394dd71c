/-
**Options in front of a key.**

A line that grants a key can have a word of options in front of it, and it then grants the same key
with these options.  The word ends at the first space outside quotes, the key type at the first
space, and blanks around a part do not matter; where the registry knows no key type with a blank or
a quote in it, the three ways of cutting agree.

Main definitions:

* `SshKeys.isBare`, `SshKeys.Registry.KnowsWords` — no known key type has a blank or a quote in it;
* `SshKeys.AuthorizedKey.IsOptionWord` — what can stand in front of a key as its options;
* `SshKeys.AuthorizedKey.StartsKnown` — a line that starts with a known key type.

Main results:

* `SshKeys.AuthorizedKey.ofEntryLine_trim` — blanks at the end of a line do not matter;
* `SshKeys.AuthorizedKey.options_decorate` — **options change nothing about the key that a line
  grants**.
-/

import Mathlib.Data.List.Basic
import SshKeys.Proofs.AuthorizedKeyText
import SshKeys.Proofs.RegistryRuns
import SshKeys.Proofs.UnquotedItems

set_option relaxedAutoImplicit false
set_option autoImplicit false

namespace SshKeys

/-! ### Trimming in parts -/

theorem trimChars_append_blanks {after : List Char} (hafter : ∀ c ∈ after, isBlank c = true)
    (cs : List Char) : trimChars (cs ++ after) = trimChars cs := by
  have htrim := trimChars_blanks (List.forall_mem_nil _) hafter cs
  rwa [List.nil_append] at htrim

theorem trimChars_eq_nil_iff {cs : List Char} :
    trimChars cs = [] ↔ ∀ c ∈ cs, isBlank c = true := by
  constructor
  · intro hnil c hc
    cases hblank : isBlank c with
    | true => rfl
    | false =>
        have hmem := (mem_trimChars_iff hblank).2 hc
        rw [hnil] at hmem
        exact absurd hmem List.not_mem_nil
  · intro hblanks
    exact trimChars_append_blanks hblanks []

/-- Behind a text that no blank starts, trimming changes nothing but the end of the rest. -/
theorem exists_trimChars_append (front : List Char) {back : List Char} (hne : front ≠ [])
    (hhead : ∀ c ∈ front.head?, isBlank c = false) (hback : trimChars back ≠ []) :
    ∃ kept, kept <+: back ∧ trimChars kept = trimChars back ∧
      trimChars (front ++ back) = front ++ kept := by
  obtain ⟨before, after, hbefore, hafter, heq⟩ := exists_blanks back
  refine ⟨before ++ trimChars back, ⟨after, heq.symm⟩, ?_, ?_⟩
  · have hkept := trimChars_blanks hbefore (List.forall_mem_nil _) (trimChars back)
    rwa [List.append_nil, trimChars_trimChars] at hkept
  · have htrim := trimChars_append_blanks hafter (front ++ (before ++ trimChars back))
    rw [List.append_assoc, ← heq] at htrim
    rw [htrim]
    refine trimChars_eq_self ?_ ?_
    · rwa [List.head?_append_of_ne_nil _ hne]
    · rw [← List.append_assoc, List.getLast?_append_of_ne_nil _ hback]
      exact getLast?_trimChars back

namespace KeyEntry

variable {entry : KeyEntry} {line : String} {trailer? : Option (List Char)}

/-- Blanks at the end of a line are no part of the entry, and of no comment. -/
theorem split_trim (hhead : ∀ c ∈ line.toList.head?, isBlank c = false)
    (h : split line = .ok (entry, trailer?)) :
    ∃ kept?, split (trim line) = .ok (entry, kept?) ∧
      AuthorizedKey.commentOf kept? = AuthorizedKey.commentOf trailer? := by
  obtain ⟨hentry, payload, hpayload, hdecode, hline⟩ := split_eq_ok_iff.1 h
  have hpayloadNe : trimChars payload ≠ [] := by
    intro hnil
    rw [hnil] at hdecode
    exact hentry.blob_ne (Option.some.inj hdecode).symm
  rw [hline, List.head?_append_of_ne_nil _ hentry.keyType_ne] at hhead
  by_cases hcomment : ∀ c ∈ behind trailer?, isBlank c = true
  · -- nothing but blanks follows the payload, and they are gone
    obtain ⟨kept, hfront, hkept, htrim⟩ := exists_trimChars_append
      (entry.keyType.toList ++ [' ']) (by simp)
      (by rwa [List.head?_append_of_ne_nil _ hentry.keyType_ne]) hpayloadNe
    refine ⟨none, split_eq_ok_iff.2 ⟨hentry, kept, fun hmem => hpayload (hfront.subset hmem),
      hkept ▸ hdecode, ?_⟩, ?_⟩
    · have hblanks :=
        trimChars_append_blanks hcomment (entry.keyType.toList ++ [' '] ++ payload)
      rw [htrim] at hblanks
      simpa [hline] using hblanks
    · cases trailer? with
      | none => rfl
      | some trailer =>
          have hnil : trimChars trailer = [] :=
            trimChars_eq_nil_iff.2 fun c hc => hcomment c (List.mem_cons_of_mem _ hc)
          simp [AuthorizedKey.commentOf, hnil, Option.filter]
  · cases trailer? with
    | none => exact absurd (by simp) hcomment
    | some trailer =>
        have htrailer : trimChars trailer ≠ [] := by
          intro hnil
          refine hcomment fun c hc => ?_
          rcases List.mem_cons.1 hc with rfl | hc
          · rfl
          · exact trimChars_eq_nil_iff.1 hnil c hc
        obtain ⟨kept, -, hkept, htrim⟩ := exists_trimChars_append
          (entry.keyType.toList ++ ' ' :: (payload ++ [' '])) (by simp)
          (by rwa [List.head?_append_of_ne_nil _ hentry.keyType_ne]) htrailer
        refine ⟨some kept, split_eq_ok_iff.2 ⟨hentry, payload, hpayload, hdecode, ?_⟩, ?_⟩
        · simpa [hline] using htrim
        · simp [AuthorizedKey.commentOf, hkept]

end KeyEntry

/-! ### Known key types -/

/-- A word without blanks and without quotes. -/
def isBare (word : String) : Bool := word.toList.all fun c => !isBlank c && c != '"'

theorem isBare_iff {word : String} :
    isBare word = true ↔ ∀ c ∈ word.toList, isBlank c = false ∧ c ≠ '"' := by
  simp [isBare]

theorem isBare_foldCase (word : String) : isBare (foldCase word) = isBare word := by
  rw [Bool.eq_iff_iff, isBare_iff, isBare_iff, toList_foldCase, List.forall_mem_map]
  simp only [isBlank_toLower, ne_eq, toLower_eq_iff (d := '"') (by decide)]

namespace Registry

variable {r : Registry} {keyType : String}

/-- The key types that a registry knows are bare words. -/
def KnowsWords (r : Registry) : Prop := ∀ name, r.isSupported name = true → isBare name = true

/-- A known key type is held by a built-in decoder or by an extension. -/
theorem mem_names_of_isSupported (h : r.isSupported keyType = true) :
    foldCase keyType ∈ builtinNames ∨ foldCase keyType ∈ r.extensionNames := by
  rw [isSupported, resolve?] at h
  split at h
  · next decoder hdecoder =>
      refine Or.inl (Decidable.byContradiction fun hnot => ?_)
      rw [builtin?_eq_none_iff.2 hnot] at hdecoder
      simp at hdecoder
  · refine Or.inr (Decidable.byContradiction fun hnot => ?_)
    rw [extension?_eq_none_iff_not_mem.2 hnot] at h
    exact Bool.noConfusion h

/-- The built-in key types are bare words, so that only the names of extensions matter. -/
theorem knowsWords_of_extensions
    (h : ∀ extension ∈ r.extensions, ∀ name ∈ extension.names, isBare name = true) :
    r.KnowsWords := by
  have hbuiltin : ∀ decoder ∈ builtins, ∀ name ∈ decoder.keyTypes.map foldCase,
      isBare name = true := by decide
  intro name hsupported
  rw [← isBare_foldCase]
  rcases mem_names_of_isSupported hsupported with hname | hname
  · obtain ⟨decoder, hdecoder, hheld⟩ := mem_builtinNames.1 hname
    exact hbuiltin decoder hdecoder _ hheld
  · obtain ⟨extension, hextension, hheld⟩ := mem_extensionNames.1 hname
    exact h extension hextension _ hheld

namespace KnowsWords

variable (h : r.KnowsWords) (hknown : r.isSupported keyType = true)

include h hknown

theorem space_not_mem : ' ' ∉ keyType.toList :=
  fun hmem => Bool.noConfusion (isBare_iff.1 (h _ hknown) _ hmem).1

/-- A known key type is cut off by a quote-aware cut. -/
theorem cutUnquoted?_eq (rest : List Char) :
    cutUnquoted? ' ' (keyType.toList ++ ' ' :: rest) = some (keyType.toList, rest) := by
  refine (cutFrom?_eq_some_iff (by decide)).2
    ⟨rfl, hidden_of_not_mem (h.space_not_mem hknown) false, ?_⟩
  exact quotedThrough_of_not_mem (fun hmem => (isBare_iff.1 (h _ hknown) _ hmem).2 rfl) false

end KnowsWords

end Registry

/-! ### Options in front of a line -/

namespace AuthorizedKey

variable {r : Registry} {line word : String} {key : AuthorizedKey} {first after : List Char}

/-- A line that does not start with a blank grants the same without the blanks at its end. -/
theorem ofEntryLine_trim (hhead : ∀ c ∈ line.toList.head?, isBlank c = false)
    (h : ofEntryLine line = .ok key) : ofEntryLine (trim line) = .ok key := by
  obtain ⟨hoptions, trailer?, hsplit, hcomment⟩ := ofEntryLine_eq_ok_iff.1 h
  obtain ⟨kept?, hkept, hsame⟩ := KeyEntry.split_trim hhead hsplit
  exact ofEntryLine_eq_ok_iff.2 ⟨hoptions, kept?, hkept, hcomment.trans hsame.symm⟩

/-- What stands in front of a key as its options: a word that starts no comment, closes its quotes
and has spaces between quotes only, and that is no known key type. -/
structure IsOptionWord (r : Registry) (word : String) : Prop where
  nonempty : word ≠ ""
  noComment : word.toList.head? ≠ some '#'
  closed : Even (word.toList.count '"')
  quoted : ∀ before after, word.toList = before ++ ' ' :: after → Odd (before.count '"')
  unknown : r.isSupported word = false

/-- A line that starts with a known key type and a space. -/
def StartsKnown (r : Registry) (line : String) : Prop :=
  ∃ keyType rest, r.isSupported keyType = true ∧ line = keyType ++ " " ++ rest

/-- The conditions on options are what the scan of a line sees. -/
theorem isOptionWord_iff :
    IsOptionWord r word ↔
      word.toList ≠ [] ∧ startsComment word.toList = false ∧ Hidden ' ' false word.toList ∧
        quotedThrough false word.toList = false ∧ r.isSupported word = false := by
  have hstart : startsComment word.toList = false ↔ word.toList.head? ≠ some '#' :=
    beq_eq_false_iff_ne
  rw [hidden_false_iff (by decide), hstart, quotedThrough_eq_false_iff]
  constructor
  · intro h
    exact ⟨fun hnil => h.nonempty (String.toList_inj.1 hnil), h.noComment, h.quoted, h.closed,
      h.unknown⟩
  · rintro ⟨hne, hcomment, hquoted, hclosed, hunknown⟩
    exact ⟨fun hempty => hne (congrArg String.toList hempty), hcomment, hclosed, hquoted, hunknown⟩

/-- The line is read as its first word says. -/
theorem ofLine?_of_cut (hcomment : startsComment line.toList = false)
    (hcut : cutUnquoted? ' ' line.toList = some (first, after)) (hne : first ≠ []) :
    ofLine? r line = some <$> if r.isSupported (.ofList first) then ofEntryLine line
      else ofOptionLine r line first after := by
  have hline : line ≠ "" := by
    rintro rfl
    simp [cutUnquoted?, cutFrom?] at hcut
  rw [ofLine?, if_neg (by simp [hline, hcomment]), hcut]
  cases first with
  | nil => exact absurd rfl hne
  | cons c cs => exact (apply_ite (Functor.map some) _ _ _).symm

/-- Behind options, an entry of a known key type is read as it is read on its own. -/
theorem ofOptionLine_of_entry {keyType rest : List Char}
    (hcomment : startsComment (trimChars after) = false)
    (hcut : cutAt? ' ' (trimChars after) = some (keyType, rest))
    (hknown : r.isSupported (.ofList keyType) = true)
    (hentry : ofEntryLine (.ofList (trimChars after)) = .ok key) :
    ofOptionLine r line first after =
      (fun options => { key with options }) <$> LoginOptions.ofText (.ofList first) := by
  have hne : (trimChars after).isEmpty = false := by
    cases hrest : trimChars after with
    | nil => simp [hrest, cutAt?] at hcut
    | cons c cs => rfl
  rw [ofOptionLine]
  simp only [hne, hcomment, Bool.or_self, Bool.false_eq_true, ↓reduceIte, hcut,
    Option.filter_some, hknown, hentry]
  cases LoginOptions.ofText (.ofList first) with
  | error e => rfl
  | ok options => rfl

/-- The key type of an entry is the first word of its line. -/
theorem keyType_of_ofEntryLine {keyType rest : List Char} (h : ofEntryLine line = .ok key)
    (hline : line.toList = keyType ++ ' ' :: rest) (hword : ' ' ∉ keyType) :
    key.entry.keyType.toList = keyType := by
  obtain ⟨-, hentry, ⟨rest', hline'⟩, -⟩ := granted_of_ofEntryLine h
  have hcut := cutAt?_eq_some_iff.2 ⟨hline, hword⟩
  rw [cutAt?_eq_some_iff.2 ⟨hline', hentry.keyType_word⟩] at hcut
  exact (Prod.mk.inj (Option.some.inj hcut)).1

/-- A line that starts with a known key type is read as an entry. -/
theorem ofLine?_known (h : r.KnowsWords) {keyType : String} {rest : List Char}
    (hknown : r.isSupported keyType = true) (hline : line.toList = keyType.toList ++ ' ' :: rest) :
    ofLine? r line = .ok (some key) ↔
      startsComment line.toList = false ∧ ofEntryLine line = .ok key := by
  have hcut := h.cutUnquoted?_eq hknown rest
  rw [← hline] at hcut
  constructor
  · intro hread
    obtain ⟨hcomment, first, after, -, hcut', hread⟩ := ofLine?_eq_some_iff.1 hread
    rw [hcut] at hcut'
    obtain ⟨rfl, rfl⟩ := Prod.mk.inj (Option.some.inj hcut')
    rw [String.ofList_toList, if_pos hknown] at hread
    exact ⟨hcomment, hread⟩
  · rintro ⟨hcomment, hread⟩
    have hne : keyType.toList ≠ [] := by
      rw [← keyType_of_ofEntryLine hread hline (h.space_not_mem hknown)]
      exact (granted_of_ofEntryLine hread).2.1.keyType_ne
    rw [ofLine?_of_cut hcomment hcut hne, String.ofList_toList, if_pos hknown, hread]
    rfl

/-- Options in front of a line that starts with a known key type are added to what the line
grants. -/
theorem ofLine?_decorated (h : r.KnowsWords) (hword : IsOptionWord r word)
    (hstarts : StartsKnown r line) (hread : ofLine? r line = .ok (some key)) :
    ofLine? r (word ++ " " ++ line) =
      (fun options => some { key with options }) <$> LoginOptions.ofText word := by
  obtain ⟨hne, hwordComment, hhidden, hclosed, hunknown⟩ := isOptionWord_iff.1 hword
  obtain ⟨keyType, rest, hknown, hline⟩ := hstarts
  replace hline : line.toList = keyType.toList ++ ' ' :: rest.toList := by simp [hline]
  obtain ⟨hcomment, hentry⟩ := (ofLine?_known h hknown hline).1 hread
  have hkeyType := keyType_of_ofEntryLine hentry hline (h.space_not_mem hknown)
  have hkeyTypeNe : keyType.toList ≠ [] := by
    rw [← hkeyType]
    exact (granted_of_ofEntryLine hentry).2.1.keyType_ne
  -- the line still starts with its key type when it is trimmed
  have htrim : ofEntryLine (trim line) = .ok key := by
    refine ofEntryLine_trim (fun c hc => (isBare_iff.1 (h _ hknown) c ?_).1) hentry
    rw [hline, List.head?_append_of_ne_nil _ hkeyTypeNe] at hc
    exact List.mem_of_mem_head? hc
  obtain ⟨-, -, ⟨rest', htrimmed⟩, -⟩ := granted_of_ofEntryLine htrim
  rw [toList_trim, hkeyType] at htrimmed
  have hcut : cutAt? ' ' (trimChars line.toList) = some (keyType.toList, rest') :=
    cutAt?_eq_some_iff.2 ⟨htrimmed, h.space_not_mem hknown⟩
  have hsupported : r.isSupported (.ofList keyType.toList) = true := by
    rw [String.ofList_toList]
    exact hknown
  have hrest : startsComment (trimChars line.toList) = false := by
    rw [htrimmed, startsComment_append hkeyTypeNe, ← hcomment, hline,
      startsComment_append hkeyTypeNe]
  -- the word is cut off the whole line
  have hwhole : (word ++ " " ++ line).toList = word.toList ++ ' ' :: line.toList := by simp
  have hwholeComment : startsComment (word ++ " " ++ line).toList = false := by
    rw [hwhole, startsComment_append hne, hwordComment]
  have hwholeCut : cutUnquoted? ' ' (word ++ " " ++ line).toList =
      some (word.toList, line.toList) :=
    (cutFrom?_eq_some_iff (by decide)).2 ⟨hwhole, hhidden, hclosed⟩
  rw [ofLine?_of_cut hwholeComment hwholeCut hne, String.ofList_toList, hunknown,
    if_neg Bool.false_ne_true, ofOptionLine_of_entry hrest hcut hsupported htrim,
    String.ofList_toList]
  cases LoginOptions.ofText word with
  | error e => rfl
  | ok options => rfl

/-- A line that starts with a known key type grants a key of this type, without options. -/
theorem plain_of_startsKnown (h : r.KnowsWords) (hstarts : StartsKnown r line)
    (hread : ofLine? r line = .ok (some key)) :
    key.options = .empty ∧ r.isSupported key.entry.keyType = true := by
  obtain ⟨keyType, rest, hknown, hline⟩ := hstarts
  replace hline : line.toList = keyType.toList ++ ' ' :: rest.toList := by simp [hline]
  have hentry := ((ofLine?_known h hknown hline).1 hread).2
  have hkeyType := keyType_of_ofEntryLine hentry hline (h.space_not_mem hknown)
  exact ⟨(ofEntryLine_eq_ok_iff.1 hentry).1, String.toList_inj.1 hkeyType ▸ hknown⟩

/-- What stands behind options is a line of its own, which starts with a known key type. -/
theorem ofLine?_behind (h : r.KnowsWords) (hread : ofOptionLine r line first after = .ok key) :
    StartsKnown r (trim (.ofList after)) ∧
      ofLine? r (trim (.ofList after)) = .ok (some { key with options := .empty }) ∧
      LoginOptions.ofText (.ofList first) = .ok key.options := by
  obtain ⟨hcomment, ⟨keyType, more, hcut, hknown⟩, ⟨plain, hplain, hentry, hsame⟩, hoptions⟩ :=
    ofOptionLine_eq_ok_iff.1 hread
  have hkey : plain = { key with options := .empty } := by
    obtain ⟨entry, options, comment?⟩ := plain
    obtain rfl : options = .empty := (ofEntryLine_eq_ok_iff.1 hplain).1
    obtain rfl : entry = key.entry := hentry
    obtain rfl : comment? = key.comment? := hsame
    rfl
  have htrim : trim (.ofList after) = .ofList (trimChars after) := by
    rw [trim, String.toList_ofList]
  have hline : (String.ofList (trimChars after)).toList =
      (String.ofList keyType).toList ++ ' ' :: more := by
    rw [String.toList_ofList, String.toList_ofList]
    exact (cutAt?_eq_some_iff.1 hcut).1
  rw [htrim]
  refine ⟨⟨.ofList keyType, .ofList more, hknown, String.toList_inj.1 (by simp [hline])⟩,
    (ofLine?_known h hknown hline).2 ⟨?_, ?_⟩, hoptions⟩
  · rw [String.toList_ofList]
    exact hcomment
  · rw [hplain, hkey]

/-- **Options change nothing about the key that a line grants.**  Where the known key types are
words, a line that starts with one grants the same key with options in front of it, and its options
are what the word of options spells; the line fails as that word does.  Every line that grants a key
starts with a known key type and has no options, or it is a word of options in front of such a line,
which grants the same key without options.  The key type is always known, and there is always a
blob. -/
theorem options_decorate (r : Registry) (h : r.KnowsWords) :
    (∀ (word line : String) (key : AuthorizedKey), IsOptionWord r word → StartsKnown r line →
      ofLine? r line = .ok (some key) →
        ofLine? r (word ++ " " ++ line) =
          (fun options => some { key with options }) <$> LoginOptions.ofText word) ∧
    ∀ (line : String) (key : AuthorizedKey), ofLine? r line = .ok (some key) →
      r.isSupported key.entry.keyType = true ∧ key.entry.blob ≠ [] ∧
      (StartsKnown r line ∧ key.options = .empty ∨
        ∃ word rest, IsOptionWord r word ∧ line = word ++ " " ++ rest ∧
          StartsKnown r (trim rest) ∧
          ofLine? r (trim rest) = .ok (some { key with options := .empty }) ∧
          LoginOptions.ofText word = .ok key.options) := by
  refine ⟨fun word line key => ofLine?_decorated h, fun line key hread => ?_⟩
  obtain ⟨hcomment, first, after, hne, hcut, hfirst⟩ := ofLine?_eq_some_iff.1 hread
  obtain ⟨hline, hhidden, hclosed⟩ := (cutFrom?_eq_some_iff (by decide)).1 hcut
  have hwhole : line = .ofList first ++ " " ++ .ofList after :=
    String.toList_inj.1 (by simp [hline])
  have hblob := (granted_of_ofLine? hread).entry.blob_ne
  split at hfirst
  · next hknown =>
      have hstarts : StartsKnown r line := ⟨_, _, hknown, hwhole⟩
      obtain ⟨hoptions, hkeyType⟩ := plain_of_startsKnown h hstarts hread
      exact ⟨hkeyType, hblob, Or.inl ⟨hstarts, hoptions⟩⟩
  · next hunknown =>
      have hword : IsOptionWord r (.ofList first) := by
        rw [hline, startsComment_append hne] at hcomment
        rw [isOptionWord_iff, String.toList_ofList]
        exact ⟨hne, hcomment, hhidden, hclosed, Bool.eq_false_iff.2 hunknown⟩
      obtain ⟨hstarts, hbehind, hoptions⟩ := ofLine?_behind h hfirst
      obtain ⟨-, hkeyType⟩ := plain_of_startsKnown h hstarts hbehind
      exact ⟨hkeyType, hblob, Or.inr ⟨_, _, hword, hwhole, hstarts, hbehind, hoptions⟩⟩

/-- A command with a space in it stands in front of a key with a comment, beside an extension. -/
theorem options_decorate_command :
    Registry.KnowsWords ⟨[⟨["x"], .foreign ["X"]⟩]⟩ ∧
      ofLine? ⟨[⟨["x"], .foreign ["X"]⟩]⟩ "command=\"a b\",no-pty ssh-rsa AAAA my key" =
        .ok (some ⟨⟨"ssh-rsa", [0, 0, 0]⟩, ⟨[.setting "command" "a b", .flag "no-pty"]⟩,
          some "my key"⟩) := by
  have hwords : Registry.KnowsWords ⟨[⟨["x"], .foreign ["X"]⟩]⟩ :=
    Registry.knowsWords_of_extensions (by decide)
  refine ⟨hwords, ?_⟩
  exact (options_decorate _ hwords).1 "command=\"a b\",no-pty" "ssh-rsa AAAA my key"
    ⟨⟨"ssh-rsa", [0, 0, 0]⟩, .empty, some "my key"⟩ (isOptionWord_iff.2 (by decide))
    ⟨"ssh-rsa", "AAAA my key", rfl, rfl⟩ rfl

end AuthorizedKey

end SshKeys
