/-
**Authorized keys as lines of text.**

The line of an authorized key has its options in order, with quotes around their values, then the
entry and the comment.  It grants the key again if no quote in a value brings a comma or a space
out into the open, if the options do not start a comment, and if neither the options nor the entry
are taken for something else.  A line may be read although its own text fails in one of these
points, so reading a line and writing it is not always the way back.

Main definitions:

* `SshKeys.AuthorizedKey.Granted` — what is known of a key that a line grants;
* `SshKeys.AuthorizedKey.ReadsBack` — the conditions under which its text grants it again.

Main results:

* `SshKeys.AuthorizedKey.granted_of_ofLine?` — each key that a line grants is one of these;
* `SshKeys.AuthorizedKey.comes_back_iff` — **a granted key comes back from its text exactly under
  these conditions**.
-/

import SshKeys.Proofs.OptionLists

set_option relaxedAutoImplicit false
set_option autoImplicit false

namespace SshKeys

/-! ### Texts with something in them -/

theorem exists_mem_of_mem_joinOn {d c : Char} {items : List (List Char)} (h : c ∈ joinOn d items) :
    c = d ∨ ∃ item ∈ items, c ∈ item := by
  induction items with
  | nil => exact absurd h List.not_mem_nil
  | cons item items ih =>
      cases items with
      | nil => exact Or.inr ⟨item, List.mem_cons_self, h⟩
      | cons next items =>
          rcases List.mem_append.1 h with hitem | hrest
          · exact Or.inr ⟨item, List.mem_cons_self, hitem⟩
          · rcases List.mem_cons.1 hrest with hd | hrest
            · exact Or.inl hd
            · rcases ih hrest with hd | ⟨other, hother, hc⟩
              · exact Or.inl hd
              · exact Or.inr ⟨other, List.mem_cons_of_mem _ hother, hc⟩

/-- A text that has more than commas and blanks spells an option. -/
theorem LoginOptions.ne_nil_of_ofText {text : String} {o : LoginOptions} {c : Char}
    (h : ofText text = .ok o) (hc : c ∈ text.toList) (hcomma : c ≠ ',')
    (hblank : isBlank c = false) : o.options ≠ [] := by
  rw [← joinOn_splitFrom ',' false text.toList] at hc
  rcases exists_mem_of_mem_joinOn hc with hd | ⟨part, hpart, hmem⟩
  · exact absurd hd hcomma
  · have hne : trimChars part ≠ [] := List.ne_nil_of_mem ((mem_trimChars_iff hblank).2 hmem)
    exact List.ne_nil_of_mem
      ((mem_ofText_iff h).2 ⟨_, mem_items_iff.2 ⟨hne, part, hpart, rfl⟩, rfl⟩)

namespace AuthorizedKey

variable {r : Registry} {line : String} {key : AuthorizedKey}

/-! ### What lines grant -/

/-- What is known of a key that a line grants. -/
structure Granted (r : Registry) (key : AuthorizedKey) : Prop where
  entry : key.entry.WellFormed
  noComment : startsComment key.entry.keyType.toList = false
  trimmed : ∀ comment ∈ key.comment?, comment ≠ "" ∧ trimChars comment.toList = comment.toList
  spelled : ∃ text, LoginOptions.SpelledBy text key.options
  /-- Behind options, the key type is known and no blank stands in front of it. -/
  behindOptions : key.options.options ≠ [] →
    r.isSupported key.entry.keyType = true ∧ ∀ c ∈ key.entry.keyType.toList.head?, isBlank c = false
  supported : quotedThrough false key.entry.keyType.toList = false →
    r.isSupported key.entry.keyType = true

theorem granted_of_ofEntryLine (h : ofEntryLine line = .ok key) :
    key.options = .empty ∧ key.entry.WellFormed ∧
      (∃ rest, line.toList = key.entry.keyType.toList ++ ' ' :: rest) ∧
      ∀ comment ∈ key.comment?, comment ≠ "" ∧ trimChars comment.toList = comment.toList := by
  obtain ⟨hoptions, trailer?, hsplit, hcomment⟩ := ofEntryLine_eq_ok_iff.1 h
  obtain ⟨hentry, payload, -, -, hline⟩ := KeyEntry.split_eq_ok_iff.1 hsplit
  refine ⟨hoptions, hentry, ⟨_, hline⟩, ?_⟩
  rw [hcomment]
  exact fun comment hmem => trim_of_mem_commentOf hmem

theorem granted_of_ofLine? (h : ofLine? r line = .ok (some key)) : Granted r key := by
  obtain ⟨hcomment, first, after, -, hcut, h⟩ := ofLine?_eq_some_iff.1 h
  split at h
  · next hsupported =>
      obtain ⟨hoptions, hentry, ⟨rest, hline⟩, htrimmed⟩ := granted_of_ofEntryLine h
      refine ⟨hentry, ?_, htrimmed, ⟨"", ?_⟩, ?_, ?_⟩
      · rw [← startsComment_append hentry.keyType_ne, ← hline, hcomment]
      · rw [hoptions]
        exact ⟨rfl, by decide, by decide⟩
      · intro hne
        exact absurd (congrArg LoginOptions.options hoptions) hne
      · intro hclosed
        -- the first word is the key type
        have hcut' : cutUnquoted? ' ' line.toList = some (key.entry.keyType.toList, rest) :=
          (cutFrom?_eq_some_iff (by decide)).2
            ⟨hline, hidden_of_not_mem hentry.keyType_word false, hclosed⟩
        rw [hcut'] at hcut
        obtain ⟨rfl, -⟩ := Prod.mk.inj (Option.some.inj hcut)
        rwa [String.ofList_toList] at hsupported
  · obtain ⟨hnone, ⟨keyType, rest, hkeyType, hsupported⟩, ⟨plain, hplain, hsame, hsameComment⟩,
      hread⟩ := ofOptionLine_eq_ok_iff.1 h
    obtain ⟨-, hentry, ⟨rest', hline⟩, htrimmed⟩ := granted_of_ofEntryLine hplain
    rw [hsame] at hentry hline
    rw [hsameComment] at htrimmed
    rw [String.toList_ofList] at hline
    rw [hline, startsComment_append hentry.keyType_ne] at hnone
    have hknown : r.isSupported key.entry.keyType = true := by
      have hcut' := cutAt?_eq_some_iff.2 ⟨hline, hentry.keyType_word⟩
      rw [hcut'] at hkeyType
      obtain ⟨rfl, -⟩ := Prod.mk.inj (Option.some.inj hkeyType)
      rwa [String.ofList_toList] at hsupported
    obtain ⟨-, hspace, hclosed⟩ := (cutFrom?_eq_some_iff (by decide)).1 hcut
    refine ⟨hentry, hnone, htrimmed, ⟨_, hread, ?_, ?_⟩, fun _ => ⟨hknown, ?_⟩, fun _ => hknown⟩
    · rwa [String.toList_ofList]
    · rwa [String.toList_ofList]
    · intro c hc
      have hhead := head?_trimChars after c
      rw [hline, List.head?_append, Option.mem_def.1 hc] at hhead
      exact hhead rfl

namespace Granted

variable (h : Granted r key)

include h

theorem ordered : key.options.Ordered := by
  obtain ⟨text, hspelled⟩ := h.spelled
  exact LoginOptions.ordered_of_ofText hspelled.read

theorem normal : ∀ option ∈ key.options.options, option.Normal := by
  obtain ⟨text, hspelled⟩ := h.spelled
  exact fun option hoption => hspelled.normal_of_mem hoption

theorem commentOf_eq : commentOf (key.comment?.map String.toList) = key.comment? :=
  commentOf_eq_self h.trimmed

end Granted

/-! ### What is written -/

theorem toList_text_of_empty (h : key.options.options = []) :
    key.text.toList = key.entry.text.toList ++ behind (key.comment?.map String.toList) := by
  rw [text, h]
  cases key.comment? with
  | none => simp
  | some comment => simp

theorem toList_text_of_options (h : key.options.options ≠ []) :
    key.text.toList = key.options.text.toList ++
      ' ' :: (key.entry.text.toList ++ behind (key.comment?.map String.toList)) := by
  have hempty : key.options.options.isEmpty = false := by simpa using h
  rw [text, if_neg (by simp [hempty])]
  cases key.comment? with
  | none => simp
  | some comment => simp

/-- An entry with its comment has no blank in front of it or behind it. -/
theorem trimChars_entry (h : Granted r key) (hne : key.options.options ≠ []) :
    trimChars (key.entry.text.toList ++ behind (key.comment?.map String.toList)) =
      key.entry.text.toList ++ behind (key.comment?.map String.toList) := by
  have hblob := h.entry.blob_ne
  refine trimChars_eq_self ?_ ?_
  · intro c hc
    rw [KeyEntry.toList_text hblob, List.append_assoc, List.head?_append] at hc
    cases hhead : key.entry.keyType.toList.head? with
    | none => exact absurd (List.head?_eq_none_iff.1 hhead) h.entry.keyType_ne
    | some first =>
        rw [hhead] at hc
        obtain rfl := Option.some.inj hc
        exact (h.behindOptions hne).2 first hhead
  · intro c hc
    cases hcomment : key.comment? with
    | none =>
        rw [hcomment, KeyEntry.toList_text hblob] at hc
        have hlast : c ∈ (Base64.encode key.entry.blob).getLast? := by
          cases hencoded : Base64.encode key.entry.blob with
          | nil => exact absurd hencoded (Base64.encode_ne_nil hblob)
          | cons first rest =>
              rw [hencoded] at hc
              simpa [List.getLast?_append, List.getLast?_cons_cons] using hc
        exact isBlank_of_isGraphic
          (Base64.isGraphic_of_mem_encode (List.mem_of_mem_getLast? hlast))
    | some comment =>
        obtain ⟨hcommentNe, htrim⟩ := h.trimmed comment hcomment
        have hlast : c ∈ comment.toList.getLast? := by
          cases hchars : comment.toList with
          | nil => exact absurd (String.toList_inj.1 hchars) hcommentNe
          | cons first rest =>
              rw [hcomment] at hc
              simpa [hchars, List.getLast?_append, List.getLast?_cons_cons] using hc
        have hblank := getLast?_trimChars comment.toList
        rw [htrim] at hblank
        exact hblank c hlast

/-! ### The way back -/

/-- The conditions under which the text of a granted key grants it again. -/
structure ReadsBack (r : Registry) (key : AuthorizedKey) : Prop where
  /-- No comma and no space in an option stands outside quotes when it is written. -/
  words : ∀ option ∈ key.options.options, option.IsWord
  /-- The option that comes first is not taken for a comment. -/
  noComment : startsComment key.options.text.toList = false
  /-- The options are not taken for a key type. -/
  noKeyType : key.options.options ≠ [] → r.isSupported key.options.text = false
  /-- An open quote in the key type hides the space behind it; then a longer word has to be
  known. -/
  openQuote : key.options.options = [] → quotedThrough false key.entry.keyType.toList = true →
    ∃ first after, cutUnquoted? ' ' key.text.toList = some (first, after) ∧
      r.isSupported (.ofList first) = true

/-- A quote-aware cut of a text that starts with a word does not end within the word. -/
theorem exists_more_of_cut {word rest first after : List Char} (hword : ' ' ∉ word)
    (hcut : cutUnquoted? ' ' (word ++ ' ' :: rest) = some (first, after)) :
    ∃ more, first = word ++ more := by
  rcases List.append_eq_append_iff.1 (eq_of_cutFrom? hcut) with
    ⟨more, hmore, -⟩ | ⟨more, hmore, hspace⟩
  · exact ⟨more, hmore⟩
  · cases more with
    | nil => exact ⟨[], by rw [hmore, List.append_nil, List.append_nil]⟩
    | cons c more =>
        obtain ⟨rfl, -⟩ := List.cons.inj hspace
        exact absurd (by simp [hmore]) hword

/-- A key without options starts with its key type. -/
theorem exists_rest_of_empty (h : Granted r key) (hempty : key.options.options = []) :
    ∃ rest, key.text.toList = key.entry.keyType.toList ++ ' ' :: rest := by
  rw [toList_text_of_empty hempty, KeyEntry.toList_text h.entry.blob_ne, List.append_assoc,
    List.cons_append]
  exact ⟨_, rfl⟩

/-- The first word of a key without options is not read as an option. -/
theorem isSupported_of_ofOptionLine (h : Granted r key) (hempty : key.options.options = [])
    {more after : List Char}
    (hcut : cutUnquoted? ' ' key.text.toList = some (key.entry.keyType.toList ++ more, after))
    (hread : ofOptionLine r key.text (key.entry.keyType.toList ++ more) after = .ok key) :
    r.isSupported (.ofList (key.entry.keyType.toList ++ more)) = true := by
  obtain ⟨rest, hrest⟩ := exists_rest_of_empty h hempty
  cases hclosed : quotedThrough false key.entry.keyType.toList with
  | false =>
      -- the first word is the key type, which is known
      have hcut' : cutUnquoted? ' ' key.text.toList = some (key.entry.keyType.toList, rest) :=
        (cutFrom?_eq_some_iff (by decide)).2
          ⟨hrest, hidden_of_not_mem h.entry.keyType_word false, hclosed⟩
      rw [hcut'] at hcut
      rw [← (Prod.mk.inj (Option.some.inj hcut)).1, String.ofList_toList]
      exact h.supported hclosed
  | true =>
      -- the first word has a quote in it, and spells an option
      exfalso
      have hquote : '"' ∈ key.entry.keyType.toList := by
        refine Decidable.byContradiction fun hnone => ?_
        rw [quotedThrough_of_not_mem hnone] at hclosed
        exact Bool.noConfusion hclosed
      have hoptions := (ofOptionLine_eq_ok_iff.1 hread).2.2.2
      refine LoginOptions.ne_nil_of_ofText hoptions (c := '"') ?_ (by decide) (by decide) hempty
      rw [String.toList_ofList]
      exact List.mem_append_left _ hquote

/-- Without options, the entry is read, unless the first word is not known. -/
theorem ofLine?_text_of_empty (h : Granted r key) (hempty : key.options.options = []) :
    ofLine? r key.text = .ok (some key) ↔
      ∃ first after, cutUnquoted? ' ' key.text.toList = some (first, after) ∧
        r.isSupported (.ofList first) = true := by
  -- the first word is the key type or starts with it
  have hstarts : ∀ first after, cutUnquoted? ' ' key.text.toList = some (first, after) →
      ∃ more, first = key.entry.keyType.toList ++ more := by
    intro first after hcut
    obtain ⟨rest, hrest⟩ := exists_rest_of_empty h hempty
    rw [hrest] at hcut
    exact exists_more_of_cut h.entry.keyType_word hcut
  constructor
  · intro hread
    obtain ⟨-, first, after, hne, hcut, hread⟩ := ofLine?_eq_some_iff.1 hread
    refine ⟨first, after, hcut, ?_⟩
    split at hread
    · assumption
    · obtain ⟨more, rfl⟩ := hstarts first after hcut
      exact isSupported_of_ofOptionLine h hempty hcut hread
  · rintro ⟨first, after, hcut, hsupported⟩
    obtain ⟨more, rfl⟩ := hstarts first after hcut
    have hkey : key = ⟨key.entry, .empty, key.comment?⟩ := by
      obtain ⟨entry, ⟨options⟩, comment?⟩ := key
      obtain rfl : options = [] := hempty
      rfl
    have hne : key.entry.keyType.toList ++ more ≠ [] := by
      simp [h.entry.keyType_ne]
    have hread := ofLine?_of_entry h.entry (toList_text_of_empty hempty) hcut hne
      ((startsComment_append h.entry.keyType_ne more).trans h.noComment) hsupported
    rw [h.commentOf_eq, ← hkey] at hread
    exact hread

/-- With options, they are read as the first word of the line, unless they are taken for a comment
or for a key type. -/
theorem ofLine?_text_of_options (h : Granted r key) (hne : key.options.options ≠ []) :
    ofLine? r key.text = .ok (some key) ↔
      (∀ option ∈ key.options.options, option.IsWord) ∧
        startsComment key.options.text.toList = false ∧
        r.isSupported key.options.text = false := by
  have htext := toList_text_of_options hne
  have hoptionsText : key.options.text.toList ≠ [] := by
    rw [LoginOptions.toList_text, LoginOptions.texts]
    cases hoptions : key.options.options with
    | nil => exact absurd hoptions hne
    | cons option rest =>
        have hoption := (h.normal option (by simp [hoptions])).text_ne
        cases rest with
        | nil => exact hoption
        | cons next rest => simp [joinOn, hoption]
  -- options that are words make the first word of the line
  have hfirst (hwords : ∀ option ∈ key.options.options, option.IsWord) :
      cutUnquoted? ' ' key.text.toList = some (key.options.text.toList,
        key.entry.text.toList ++ behind (key.comment?.map String.toList)) := by
    obtain ⟨-, hspace, hclosed⟩ := LoginOptions.ofText_text h.ordered h.normal hwords
    rw [htext]
    exact (cutFrom?_eq_some_iff (by decide)).2 ⟨rfl, hspace, hclosed⟩
  constructor
  · intro hread
    obtain ⟨hcomment, first, after, -, hcut, hread⟩ := ofLine?_eq_some_iff.1 hread
    rw [htext, startsComment_append hoptionsText] at hcomment
    split at hread
    · exact absurd (congrArg LoginOptions.options (ofEntryLine_eq_ok_iff.1 hread).1) hne
    · next hunknown =>
        have hoptions := (ofOptionLine_eq_ok_iff.1 hread).2.2.2
        have hwords : ∀ option ∈ key.options.options, option.IsWord := by
          rw [cutUnquoted?, htext] at hcut
          exact LoginOptions.isWord_of_ofText h.ordered h.normal hcut hoptions
        refine ⟨hwords, hcomment, ?_⟩
        rw [hfirst hwords] at hcut
        rw [← (Prod.mk.inj (Option.some.inj hcut)).1, String.ofList_toList] at hunknown
        exact Bool.eq_false_iff.2 hunknown
  · rintro ⟨hwords, hcomment, hunknown⟩
    have hoptions := (LoginOptions.ofText_text h.ordered h.normal hwords).read
    refine ofLine?_eq_some_iff.2 ⟨?_, _, _, hoptionsText, hfirst hwords, ?_⟩
    · rw [htext, startsComment_append hoptionsText, hcomment]
    · rw [String.ofList_toList, if_neg (by simp [hunknown])]
      have hsplit : KeyEntry.split (.ofList (key.entry.text.toList ++
          behind (key.comment?.map String.toList))) =
            .ok (key.entry, key.comment?.map String.toList) :=
        KeyEntry.split_text h.entry (String.toList_ofList)
      have hentry : key.entry.text.toList ++ behind (key.comment?.map String.toList) =
          key.entry.keyType.toList ++ ' ' :: (Base64.encode key.entry.blob ++
            behind (key.comment?.map String.toList)) := by
        rw [KeyEntry.toList_text h.entry.blob_ne, List.append_assoc, List.cons_append]
      refine ofOptionLine_eq_ok_iff.2 ?_
      rw [trimChars_entry h hne, String.ofList_toList]
      refine ⟨?_, ⟨key.entry.keyType.toList, _,
        cutAt?_eq_some_iff.2 ⟨hentry, h.entry.keyType_word⟩, ?_⟩,
        ⟨⟨key.entry, .empty, key.comment?⟩, ?_, rfl, rfl⟩, hoptions⟩
      · rw [hentry, startsComment_append h.entry.keyType_ne, h.noComment]
      · rw [String.ofList_toList, (h.behindOptions hne).1]
      · exact ofEntryLine_eq_ok_iff.2 ⟨rfl, _, hsplit, h.commentOf_eq.symm⟩

/-- **A granted key comes back from its text exactly if** the text keeps what stands in quotes, and
nothing in front of the entry is taken for something else. -/
theorem comes_back_iff (hline : ofLine? r line = .ok (some key)) :
    ofLine? r key.text = .ok (some key) ↔ key.ReadsBack r := by
  have h := granted_of_ofLine? hline
  by_cases hoptions : key.options.options = []
  · rw [ofLine?_text_of_empty h hoptions]
    constructor
    · intro hfirst
      refine ⟨by simp [hoptions], ?_, fun hne => absurd hoptions hne, fun _ _ => hfirst⟩
      rw [LoginOptions.toList_text, LoginOptions.texts, hoptions]
      rfl
    · rintro ⟨-, -, -, hopen⟩
      cases hclosed : quotedThrough false key.entry.keyType.toList with
      | false =>
          have hcut := cutUnquoted?_text h.entry hclosed (behind (key.comment?.map String.toList))
          rw [← toList_text_of_empty hoptions] at hcut
          refine ⟨_, _, hcut, ?_⟩
          rw [String.ofList_toList, h.supported hclosed]
      | true => exact hopen hoptions hclosed
  · rw [ofLine?_text_of_options h hoptions]
    constructor
    · rintro ⟨hwords, hcomment, hunknown⟩
      exact ⟨hwords, hcomment, fun _ => hunknown, fun hempty => absurd hempty hoptions⟩
    · rintro ⟨hwords, hcomment, hunknown, -⟩
      exact ⟨hwords, hcomment, hunknown hoptions⟩

/-- An option that is named first and starts with `#` makes a comment of the line, but an ordinary
line comes back. -/
theorem hash_comes_not_back_and_quotes_do :
    (∃ key, ofLine? .empty "a,#b ssh-rsa AAAA" = .ok (some key) ∧
        key.text = "#b,a ssh-rsa AAAA" ∧ ofLine? .empty key.text ≠ .ok (some key)) ∧
      ∃ key, ofLine? .empty "b=\"x, y\",a ssh-rsa AAAA me" = .ok (some key) ∧
        ofLine? .empty key.text = .ok (some key) := by
  constructor
  · have hline : ofLine? .empty "a,#b ssh-rsa AAAA" =
        .ok (some ⟨⟨"ssh-rsa", [0, 0, 0]⟩, ⟨[.flag "#b", .flag "a"]⟩, none⟩) := rfl
    refine ⟨_, hline, rfl, fun hback => ?_⟩
    have hcomment := ((comes_back_iff hline).1 hback).noComment
    exact absurd hcomment (by decide)
  · have hline : ofLine? .empty "b=\"x, y\",a ssh-rsa AAAA me" =
        .ok (some ⟨⟨"ssh-rsa", [0, 0, 0]⟩, ⟨[.flag "a", .setting "b" "x, y"]⟩, some "me"⟩) := rfl
    refine ⟨_, hline, (comes_back_iff hline).2 ⟨by decide, by decide, fun _ => by decide, ?_⟩⟩
    exact fun hempty => absurd hempty (by decide)

end AuthorizedKey

end SshKeys
