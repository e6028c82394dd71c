/-
**Authorized keys that a program puts together.**

Options come into a collection one at a time, as settings and flags.  If their names are words of
letters, digits and hyphens, and no value has a quote of its own, the quotes that are written around
the values hide everything in them, so that the line of the key is cut where it was joined.  Spaces,
commas and `=` in a value do not matter, nor do blanks at its ends, and a setting with the value
`true` is not taken for a flag.  The key comes back, unless its key type is empty: then the line has
no word where the key type should be.

Main definitions:

* `SshKeys.isNameChar`, `SshKeys.isTypeChar` — the characters of option names and of key types;
* `SshKeys.LoginOptions.Assembled` — options that were inserted one after the other;
* `SshKeys.LoginOptions.Orderly` — options in order, with names in lower case;
* `SshKeys.LoginOptions.Plain` — options without quotes but those that are written around values.

Main results:

* `SshKeys.LoginOptions.Orderly.add`, `SshKeys.LoginOptions.Plain.add` — what one insertion
  preserves;
* `SshKeys.LoginOptions.Assembled.plain` — so all options that are put together are plain;
* `SshKeys.AuthorizedKey.assembled_comes_back_iff` — **a key with such options comes back from its
  line exactly if its key type is not empty**.
-/

import SshKeys.Proofs.AuthorizedKeyText

set_option relaxedAutoImplicit false
set_option autoImplicit false

namespace SshKeys

/-! ### Characters of words -/

/-- The characters of option names: ASCII letters and digits, and the hyphen. -/
def isNameChar (c : Char) : Bool := c.isAlphanum || c == '-'

/-- The characters of key types: those of names, the dot and the at sign. -/
def isTypeChar (c : Char) : Bool := isNameChar c || c == '.' || c == '@'

theorem isTypeChar_of_isNameChar {c : Char} (h : isNameChar c = true) : isTypeChar c = true := by
  simp [isTypeChar, h]

theorem isAlphanum_iff {c : Char} : c.isAlphanum = true ↔
    65 ≤ c.toNat ∧ c.toNat ≤ 90 ∨ 97 ≤ c.toNat ∧ c.toNat ≤ 122 ∨ 48 ≤ c.toNat ∧ c.toNat ≤ 57 := by
  unfold Char.isAlphanum Char.isAlpha Char.isUpper Char.isLower Char.isDigit
  simp only [Bool.or_eq_true, Bool.and_eq_true, decide_eq_true_eq, ge_iff_le,
    UInt32.le_iff_toNat_le, or_assoc]
  rfl

theorem isGraphic_of_isTypeChar {c : Char} (h : isTypeChar c = true) : isGraphic c = true := by
  simp only [isTypeChar, isNameChar, Bool.or_eq_true, beq_iff_eq] at h
  rcases h with ((halphanum | rfl) | rfl) | rfl
  · rw [isAlphanum_iff] at halphanum
    rw [isGraphic, Bool.and_eq_true, decide_eq_true_eq, decide_eq_true_eq]
    omega
  · decide
  · decide
  · decide

theorem isNameChar_toLower {c : Char} (h : isNameChar c = true) : isNameChar c.toLower = true := by
  simp only [isNameChar, Bool.or_eq_true, beq_iff_eq] at h ⊢
  rcases h with halphanum | rfl
  · left
    have hlower := toNat_toLower c
    rw [isAlphanum_iff] at halphanum ⊢
    split at hlower <;> omega
  · exact .inr rfl

/-- A word has no characters but those it is made of. -/
theorem not_mem_of_isTypeChar {d : Char} {cs : List Char} (h : ∀ c ∈ cs, isTypeChar c = true)
    (hd : isTypeChar d = false) : d ∉ cs := by
  intro hmem
  rw [h d hmem] at hd
  cases hd

/-! ### Options with plain names -/

/-- A name of an option: letters, digits and hyphens, at least one of them. -/
def IsPlainName (name : String) : Prop :=
  name ≠ "" ∧ ∀ c ∈ name.toList, isNameChar c = true

instance (name : String) : Decidable (IsPlainName name) :=
  decidable_of_iff (name ≠ "" ∧ name.toList.all isNameChar = true)
    (and_congr_right' List.all_eq_true)

theorem IsPlainName.foldCase {name : String} (h : IsPlainName name) :
    IsPlainName (foldCase name) := by
  obtain ⟨hne, hchars⟩ := h
  constructor
  · intro hempty
    have hlist := congrArg String.toList hempty
    rw [toList_foldCase, String.toList_empty, List.map_eq_nil_iff] at hlist
    exact hne (String.toList_eq_nil_iff.1 hlist)
  · intro c hc
    rw [toList_foldCase] at hc
    obtain ⟨upper, hupper, rfl⟩ := List.mem_map.1 hc
    exact isNameChar_toLower (hchars upper hupper)

theorem IsPlainName.isTypeChar {name : String} (h : IsPlainName name) :
    ∀ c ∈ name.toList, isTypeChar c = true :=
  fun c hc => isTypeChar_of_isNameChar (h.2 c hc)

namespace LoginOption

/-- An option with a plain name, and without a quote in its value. -/
structure Plain (option : LoginOption) : Prop where
  name : IsPlainName option.name
  value : '"' ∉ option.value.toList

theorem Plain.folded {option : LoginOption} (h : option.Plain) : option.folded.Plain := by
  cases option with
  | flag name => exact ⟨h.name.foldCase, h.value⟩
  | setting name value => exact ⟨h.name.foldCase, h.value⟩

/-- A plain option is as it would be read, once its name is in lower case. -/
theorem Plain.normal {option : LoginOption} (h : option.Plain)
    (hfolded : foldCase option.name = option.name) : option.Normal := by
  have hname := h.name.isTypeChar
  have hquote : '"' ∉ option.name.toList := not_mem_of_isTypeChar hname (by decide)
  constructor
  · exact hfolded
  · exact trimChars_of_isGraphic fun c hc => isGraphic_of_isTypeChar (hname c hc)
  · exact not_mem_of_isTypeChar hname (by decide)
  · exact hidden_of_not_mem (not_mem_of_isTypeChar hname (by decide)) false
  · exact hidden_of_not_mem (not_mem_of_isTypeChar hname (by decide)) false
  · cases option with
    | flag name => exact quotedThrough_of_not_mem hquote false
    | setting name value =>
        -- one quote opens the value and one closes it
        have hopen : quotedThrough false name.toList = false :=
          quotedThrough_of_not_mem hquote false
        have hvalue : quotedThrough true value.toList = true :=
          quotedThrough_of_not_mem h.value true
        rw [toList_text_setting, quotedThrough_append, hopen, quotedThrough_cons,
          quotedAfter_equals, quotedThrough_cons, quotedAfter_quote, Bool.not_false,
          quotedThrough_append, hvalue]
        rfl
  · intro _ hempty
    exact h.name.1 (String.toList_eq_nil_iff.1 hempty)

/-- The text of an option starts with its name. -/
theorem exists_text_eq (option : LoginOption) :
    ∃ more, option.text.toList = option.name.toList ++ more := by
  cases option with
  | flag name => exact ⟨[], (List.append_nil _).symm⟩
  | setting name value => exact ⟨_, toList_text_setting name value⟩

theorem name_folded (option : LoginOption) : option.folded.name = foldCase option.name := by
  cases option <;> rfl

end LoginOption

/-! ### Options put together -/

/-- What is joined starts with its first item. -/
theorem exists_joinOn_cons (item : List Char) (items : List (List Char)) :
    ∃ tail, joinOn ',' (item :: items) = item ++ tail := by
  cases items with
  | nil => exact ⟨[], (List.append_nil item).symm⟩
  | cons next items => exact ⟨_, rfl⟩

theorem AuthorizedKey.startsComment_of_not_mem {cs : List Char} (h : '#' ∉ cs) :
    startsComment cs = false := by
  cases cs with
  | nil => rfl
  | cons c cs =>
      have hc : c ≠ '#' := fun hc => h (by simp [hc])
      simpa [startsComment] using hc

namespace LoginOptions

open AuthorizedKey

variable {o o' : LoginOptions}

/-- Options that were inserted one after the other into none: settings and flags with plain names,
and no value with a quote in it. -/
inductive Assembled : LoginOptions → Prop
  | empty : Assembled .empty
  | insert {o o' : LoginOptions} (name value : String) (before : Assembled o)
      (plain : IsPlainName name) (unquoted : '"' ∉ value.toList)
      (inserted : o.insert name value = .ok o') : Assembled o'
  | insertFlag {o o' : LoginOptions} (name : String) (before : Assembled o)
      (plain : IsPlainName name) (inserted : o.insertFlag name = .ok o') : Assembled o'

/-- The options are in order, and their names are in lower case. -/
structure Orderly (o : LoginOptions) : Prop where
  ordered : o.Ordered
  lower : ∀ option ∈ o.options, foldCase option.name = option.name

/-- One more option keeps them so. -/
theorem Orderly.add (h : o.Orderly) {option : LoginOption} (hadd : o.add option = .ok o') :
    o'.Orderly := by
  obtain ⟨hnew, rfl⟩ := add_eq_ok_iff.1 hadd
  refine ⟨ordered_place h.ordered hnew, fun other hother => ?_⟩
  rcases mem_place.1 hother with rfl | hother
  · rw [LoginOption.name_folded, foldCase_foldCase]
  · exact h.lower other hother

/-- Options in order, all of them plain and with names in lower case. -/
structure Plain (o : LoginOptions) : Prop where
  ordered : o.Ordered
  folded : ∀ option ∈ o.options, foldCase option.name = option.name
  plain : ∀ option ∈ o.options, option.Plain

theorem plain_empty : Plain .empty where
  ordered := List.Pairwise.nil
  folded _ hoption := absurd hoption List.not_mem_nil
  plain _ hoption := absurd hoption List.not_mem_nil

/-- One more plain option keeps all of them plain. -/
theorem Plain.add (h : o.Plain) {option : LoginOption} (hoption : option.Plain)
    (hadd : o.add option = .ok o') : o'.Plain := by
  have horderly : o'.Orderly := Orderly.add ⟨h.ordered, h.folded⟩ hadd
  obtain ⟨-, rfl⟩ := add_eq_ok_iff.1 hadd
  refine ⟨horderly.ordered, horderly.lower, fun other hother => ?_⟩
  rcases mem_place.1 hother with rfl | hother
  · exact hoption.folded
  · exact h.plain other hother

/-- All options that are put together are plain. -/
theorem Assembled.plain (h : o.Assembled) : o.Plain := by
  induction h with
  | empty => exact plain_empty
  | insert name value _ hname hvalue hinserted ih =>
      have hoption : (LoginOption.setting name value).Plain := ⟨hname, hvalue⟩
      exact ih.add hoption hinserted
  | insertFlag name _ hname hinserted ih =>
      have hvalue : '"' ∉ "true".toList := by decide
      have hoption : (LoginOption.flag name).Plain := ⟨hname, hvalue⟩
      exact ih.add hoption hinserted

namespace Plain

variable (h : o.Plain)

include h

theorem normal : ∀ option ∈ o.options, option.Normal :=
  fun option hoption => (h.plain option hoption).normal (h.folded option hoption)

theorem isWord : ∀ option ∈ o.options, option.IsWord := by
  intro option hoption
  have hplain := h.plain option hoption
  have hquote := not_mem_of_isTypeChar hplain.name.isTypeChar (d := '"') (by decide)
  exact (h.normal option hoption).isWord_of_plain hquote hplain.value

theorem spelledBy : SpelledBy o.text o := ofText_text h.ordered h.normal h.isWord

/-- What stands first in the text is a letter, a digit or a hyphen. -/
theorem noComment : AuthorizedKey.startsComment o.text.toList = false := by
  rw [toList_text, texts]
  cases hoptions : o.options with
  | nil => rfl
  | cons option rest =>
      have hplain := h.plain option (by simp [hoptions])
      have hname : option.name.toList ≠ [] := mt String.toList_eq_nil_iff.1 hplain.name.1
      obtain ⟨more, htext⟩ := option.exists_text_eq
      obtain ⟨tail, htail⟩ := exists_joinOn_cons option.text.toList
        (rest.map fun option => option.text.toList)
      rw [List.map_cons, htail, htext, List.append_assoc, startsComment_append hname]
      exact startsComment_of_not_mem (not_mem_of_isTypeChar hplain.name.isTypeChar (by decide))

end Plain

end LoginOptions

/-! ### Their lines -/

namespace AuthorizedKey

variable {r : Registry} {key : AuthorizedKey}

/-- What a key with plain options and a key type of word characters has in common with keys that
lines grant. -/
theorem granted_of_plain (hne : key.entry.keyType ≠ "")
    (htype : ∀ c ∈ key.entry.keyType.toList, isTypeChar c = true)
    (hsupported : r.isSupported key.entry.keyType = true) (hblob : key.entry.blob ≠ [])
    (hoptions : key.options.Plain)
    (hcomment : ∀ comment ∈ key.comment?, comment ≠ "" ∧ trim comment = comment) :
    Granted r key where
  entry := ⟨mt String.toList_eq_nil_iff.1 hne, not_mem_of_isTypeChar htype (by decide), hblob⟩
  noComment := startsComment_of_not_mem (not_mem_of_isTypeChar htype (by decide))
  trimmed comment hmem := by
    obtain ⟨hcommentNe, htrim⟩ := hcomment comment hmem
    exact ⟨hcommentNe, by rw [← toList_trim, htrim]⟩
  spelled := ⟨_, hoptions.spelledBy⟩
  behindOptions _ := ⟨hsupported, fun c hc =>
    isBlank_of_isGraphic (isGraphic_of_isTypeChar (htype c (List.mem_of_mem_head? hc)))⟩
  supported _ := hsupported

/-- **A key with assembled options comes back from its line exactly if its key type is not empty.**
The key type is known and a word, the blob is not empty, the options are not taken for a key type,
and a comment has no blanks at its ends. -/
theorem assembled_comes_back_iff (r : Registry) (entry : KeyEntry) (options : LoginOptions)
    (comment? : Option String) (hsupported : r.isSupported entry.keyType = true)
    (htype : ∀ c ∈ entry.keyType.toList, isTypeChar c = true) (hblob : entry.blob ≠ [])
    (hoptions : options.Assembled)
    (hunknown : options.options ≠ [] → r.isSupported options.text = false)
    (hcomment : ∀ comment ∈ comment?, comment ≠ "" ∧ trim comment = comment) :
    ofLine? r (text ⟨entry, options, comment?⟩) = .ok (some ⟨entry, options, comment?⟩) ↔
      entry.keyType ≠ "" := by
  constructor
  · intro hread
    -- no line grants a key without a key type
    have hkeyType := (granted_of_ofLine? hread).entry.keyType_ne
    exact mt String.toList_eq_nil_iff.2 hkeyType
  · intro hne
    have hplain := hoptions.plain
    have hgranted : Granted r ⟨entry, options, comment?⟩ :=
      granted_of_plain hne htype hsupported hblob hplain hcomment
    by_cases hempty : options.options = []
    · have hquote := not_mem_of_isTypeChar htype (d := '"') (by decide)
      have hcut := cutUnquoted?_text hgranted.entry (quotedThrough_of_not_mem hquote false)
        (behind (comment?.map String.toList))
      have hknown : r.isSupported (.ofList entry.keyType.toList) = true := by
        rwa [String.ofList_toList]
      rw [← toList_text_of_empty hempty] at hcut
      exact (ofLine?_text_of_empty hgranted hempty).2 ⟨_, _, hcut, hknown⟩
    · exact (ofLine?_text_of_options hgranted hempty).2
        ⟨hplain.isWord, hplain.noComment, hunknown hempty⟩

/-- Values with a comma, a space and an `=`, with nothing in them, and with the text `true` come
back, and the flag beside them stays a flag. -/
theorem assembled_comes_back_quoted : ∃ options : LoginOptions, options.Assembled ∧
    options.text = "command=\"a, b=c \",no-pty,x=\"\",y=\"true\"" ∧
    ofLine? ⟨[⟨["a.b@c"], .foreign ["a.b@c"]⟩]⟩
        (text ⟨⟨"A.b@c", [0, 1, 2]⟩, options, some "me, too"⟩) =
      .ok (some ⟨⟨"A.b@c", [0, 1, 2]⟩, options, some "me, too"⟩) := by
  let options : LoginOptions :=
    ⟨[.setting "command" "a, b=c ", .flag "no-pty", .setting "x" "", .setting "y" "true"]⟩
  have hflag : LoginOptions.Assembled ⟨[.flag "no-pty"]⟩ :=
    .insertFlag "No-PTY" .empty (by decide) rfl
  have hempty : LoginOptions.Assembled ⟨[.flag "no-pty", .setting "x" ""]⟩ :=
    .insert "x" "" hflag (by decide) (by decide) rfl
  have htrue : LoginOptions.Assembled ⟨[.flag "no-pty", .setting "x" "", .setting "y" "true"]⟩ :=
    .insert "y" "true" hempty (by decide) (by decide) rfl
  have hoptions : options.Assembled :=
    .insert "command" "a, b=c " htrue (by decide) (by decide) rfl
  refine ⟨options, hoptions, rfl, ?_⟩
  have htype : ∀ c ∈ "A.b@c".toList, isTypeChar c = true := List.all_eq_true.1 (by decide)
  exact (assembled_comes_back_iff ⟨[⟨["a.b@c"], .foreign ["a.b@c"]⟩]⟩ ⟨"A.b@c", [0, 1, 2]⟩ options
    (some "me, too") (by decide) htype (by decide) hoptions (by decide)
    (by simp; decide)).2 (by decide)

/-- An extension can be registered for the empty key type.  Behind options, no line has a place for
it. -/
theorem assembled_without_type_comes_not_back :
    ∃ (r : Registry) (entry : KeyEntry) (options : LoginOptions),
      r.isSupported entry.keyType = true ∧ (∀ c ∈ entry.keyType.toList, isTypeChar c = true) ∧
      entry.blob ≠ [] ∧ options.Assembled ∧ r.isSupported options.text = false ∧
      text ⟨entry, options, none⟩ = "no-pty  AAAAAXgB" ∧
      ofLine? r (text ⟨entry, options, none⟩) =
        .error (.badFormat .unrecognizedKeyType "no-pty  AAAAAXgB") := by
  refine ⟨⟨[⟨[""], .foreign [""]⟩]⟩, ⟨"", [0, 0, 0, 1, 0x78, 1]⟩, ⟨[.flag "no-pty"]⟩, by decide,
    List.all_eq_true.1 (by decide), by decide, ?_, by decide, rfl, rfl⟩
  exact .insertFlag "no-pty" .empty (by decide) rfl

end AuthorizedKey

end SshKeys
