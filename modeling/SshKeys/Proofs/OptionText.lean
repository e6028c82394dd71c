/-
**Login options as text.**

An option is read from an item that no comma and no space breaks.  The text of the option always
spells the option, and its quotes are closed.  But a value that has quotes of its own is written
without any mark on them, so that a comma or a space that was quoted may stand outside quotes in the
text and break it.

Main definitions:

* `SshKeys.Unbroken` — no comma and no space stands outside quotes, and the quotes are closed;
* `SshKeys.LoginOption.Normal` — an option as it is read from an unbroken item;
* `SshKeys.LoginOption.IsWord` — an option whose text is unbroken.

Main results:

* `SshKeys.LoginOption.normal_ofItem` — what is read from an unbroken item;
* `SshKeys.LoginOption.Normal.ofItem_text` — **the text of an option spells the option**;
* `SshKeys.LoginOption.Normal.exists_shorter` — **a text that is broken spells another option** of
  the same name in front of the break.
-/

import SshKeys.Proofs.KeyLines

set_option relaxedAutoImplicit false
set_option autoImplicit false

namespace SshKeys

/-! ### Letter case -/

theorem toNat_toLower (c : Char) :
    c.toLower.toNat = if 65 ≤ c.toNat ∧ c.toNat ≤ 90 then c.toNat + 32 else c.toNat := by
  have hval := congrArg UInt32.toNat (val_toLower c)
  simp only [UInt32.le_iff_toNat_le] at hval
  change c.toLower.val.toNat = if 65 ≤ c.val.toNat ∧ c.val.toNat ≤ 90 then _ else _
  split at hval
  · next hupper =>
      change 65 ≤ c.val.toNat ∧ c.val.toNat ≤ 90 at hupper
      rw [if_pos hupper, hval, UInt32.toNat_add]
      change (c.val.toNat + 32) % 2 ^ 32 = c.val.toNat + 32
      omega
  · next hother =>
      change ¬(65 ≤ c.val.toNat ∧ c.val.toNat ≤ 90) at hother
      rw [if_neg hother, hval]
      rfl

/-- A character below the letters is where it was, whatever the case of the others. -/
theorem toLower_eq_iff {d : Char} (hd : d.toNat < 65) {c : Char} : c.toLower = d ↔ c = d := by
  have hlower := toNat_toLower c
  rw [← Char.toNat_inj, ← Char.toNat_inj]
  split at hlower
  · omega
  · rw [hlower]

theorem isBlank_toLower (c : Char) : isBlank c.toLower = isBlank c := by
  have hlower := toNat_toLower c
  split at hlower
  · rw [Bool.eq_iff_iff]
    simp only [isBlank, hlower, Bool.or_eq_true, Bool.and_eq_true, decide_eq_true_eq, beq_iff_eq]
    omega
  · rw [Char.toNat_inj.1 hlower]

theorem quotedAfter_toLower (quoted : Bool) (c : Char) :
    quotedAfter quoted c.toLower = quotedAfter quoted c := by
  simp only [quotedAfter, toLower_eq_iff (d := '"') (by decide)]

theorem quotedThrough_map_toLower (quoted : Bool) (cs : List Char) :
    quotedThrough quoted (cs.map Char.toLower) = quotedThrough quoted cs := by
  induction cs generalizing quoted with
  | nil => rfl
  | cons c cs ih =>
      rw [List.map_cons, quotedThrough_cons, quotedAfter_toLower, ih, quotedThrough_cons]

theorem Hidden.map_toLower {d : Char} (hd : d.toNat < 65) {quoted : Bool} {cs : List Char}
    (h : Hidden d quoted cs) : Hidden d quoted (cs.map Char.toLower) := by
  induction cs generalizing quoted with
  | nil => trivial
  | cons c cs ih =>
      rw [List.map_cons, hidden_cons, quotedAfter_toLower, toLower_eq_iff hd]
      exact ⟨h.1, ih h.2⟩

theorem dropWhile_map_toLower (cs : List Char) :
    (cs.map Char.toLower).dropWhile isBlank = (cs.dropWhile isBlank).map Char.toLower := by
  induction cs with
  | nil => rfl
  | cons c cs ih =>
      rw [List.map_cons, List.dropWhile_cons, List.dropWhile_cons, isBlank_toLower, ih]
      split <;> rfl

theorem trimChars_map_toLower (cs : List Char) :
    trimChars (cs.map Char.toLower) = (trimChars cs).map Char.toLower := by
  rw [trimChars, trimChars, dropWhile_map_toLower, ← List.map_reverse, dropWhile_map_toLower,
    List.map_reverse]

/-! ### Quotes around a value -/

/-- A pair of quotes around a text is taken away, and nothing else. -/
theorem stripQuotes_cases (cs : List Char) :
    cs = '"' :: (stripQuotes cs ++ ['"']) ∨ stripQuotes cs = cs := by
  unfold stripQuotes
  split
  · next rest =>
      split
      · next hlast =>
          left
          obtain ⟨inner, rfl⟩ := List.getLast?_eq_some_iff.1 hlast
          rw [List.dropLast_concat]
      · exact Or.inr rfl
  · exact Or.inr rfl

@[simp] theorem stripQuotes_quoted (cs : List Char) : stripQuotes ('"' :: (cs ++ ['"'])) = cs := by
  simp [stripQuotes]

theorem stripQuotes_sublist (cs : List Char) : (stripQuotes cs).Sublist cs := by
  rcases stripQuotes_cases cs with h | h
  · have hinner : (stripQuotes cs).Sublist ('"' :: (stripQuotes cs ++ ['"'])) :=
      (List.sublist_append_left _ _).trans (List.sublist_cons_self _ _)
    rwa [← h] at hinner
  · generalize stripQuotes cs = inner at h ⊢
    subst h
    exact List.Sublist.refl inner

/-- Characters other than quotes are only lost, and `d` is one of them. -/
theorem stripQuotes_ne {front back : List Char} {d : Char} (hd : d ≠ '"') :
    stripQuotes (trimChars ('"' :: front)) ≠ front ++ d :: back := by
  intro hsame
  have hsub : (stripQuotes (trimChars ('"' :: front))).Sublist ('"' :: front) :=
    (stripQuotes_sublist _).trans (trimChars_sublist _)
  have hcount := hsub.countP_le (p := (· != '"'))
  rw [hsame, List.countP_append, List.countP_cons_of_pos (by simpa using hd),
    List.countP_cons_of_neg (by simp)] at hcount
  omega

/-- New quotes around a value in place of the old ones close what the old ones closed. -/
theorem quotedThrough_requoted (quoted : Bool) (cs : List Char) :
    quotedThrough quoted ('"' :: (stripQuotes cs ++ ['"'])) = quotedThrough quoted cs := by
  rcases stripQuotes_cases cs with h | h
  · rw [← h]
  · rw [h, quotedThrough_cons, quotedThrough_append, quotedAfter_quote, quotedThrough_not,
      quotedThrough_cons, quotedThrough_nil, quotedAfter_quote, Bool.not_not]

/-! ### Unbroken texts -/

/-- Neither a comma nor a space stands outside quotes, and all quotes are closed. -/
def Unbroken (cs : List Char) : Prop :=
  Hidden ',' false cs ∧ Hidden ' ' false cs ∧ quotedThrough false cs = false

instance (cs : List Char) : Decidable (Unbroken cs) :=
  inferInstanceAs (Decidable (_ ∧ _ ∧ _))

/-- A text that is broken somewhere is broken at a first place. -/
theorem exists_first_break {quoted : Bool} {cs : List Char}
    (h : ¬(Hidden ',' quoted cs ∧ Hidden ' ' quoted cs)) :
    ∃ before d after, cs = before ++ d :: after ∧ (d = ',' ∨ d = ' ') ∧
      Hidden ',' quoted before ∧ Hidden ' ' quoted before ∧
        quotedThrough quoted before = false := by
  induction cs generalizing quoted with
  | nil => exact absurd ⟨trivial, trivial⟩ h
  | cons c cs ih =>
      by_cases hbreak : (c = ',' ∨ c = ' ') ∧ quotedAfter quoted c = false
      · obtain ⟨hc, hquoted⟩ := hbreak
        have hquote : c ≠ '"' := by
          rintro rfl
          simp at hc
        rw [quotedAfter_of_ne hquote] at hquoted
        exact ⟨[], c, cs, rfl, hc, trivial, trivial, hquoted⟩
      · have hcomma : ¬(c = ',' ∧ quotedAfter quoted c = false) := fun hc =>
          hbreak ⟨Or.inl hc.1, hc.2⟩
        have hspace : ¬(c = ' ' ∧ quotedAfter quoted c = false) := fun hc =>
          hbreak ⟨Or.inr hc.1, hc.2⟩
        have hrest :
            ¬(Hidden ',' (quotedAfter quoted c) cs ∧ Hidden ' ' (quotedAfter quoted c) cs) :=
          fun hhidden => h ⟨⟨hcomma, hhidden.1⟩, ⟨hspace, hhidden.2⟩⟩
        obtain ⟨before, d, after, rfl, hd, hbefore⟩ := ih hrest
        exact ⟨c :: before, d, after, rfl, hd, ⟨hcomma, hbefore.1⟩, ⟨hspace, hbefore.2.1⟩,
          hbefore.2.2⟩

/-- Items, each one with the comma behind it. -/
def withCommas (items : List (List Char)) : List Char := items.flatMap (· ++ [','])

theorem withCommas_cons (item : List Char) (items : List (List Char)) :
    withCommas (item :: items) = item ++ ',' :: withCommas items := by
  simp [withCommas]

theorem joinOn_append (items : List (List Char)) (item : List Char) (more : List (List Char)) :
    joinOn ',' (items ++ item :: more) = withCommas items ++ joinOn ',' (item :: more) := by
  induction items with
  | nil => rfl
  | cons first items ih =>
      have hstep : joinOn ',' (first :: (items ++ item :: more)) =
          first ++ ',' :: joinOn ',' (items ++ item :: more) := by
        cases items <;> rfl
      rw [List.cons_append, hstep, ih, withCommas_cons, List.append_assoc, List.cons_append]

section WithCommas

variable {items : List (List Char)} (h : ∀ item ∈ items, Unbroken item)

include h

theorem hidden_withCommas :
    Hidden ' ' false (withCommas items) ∧ quotedThrough false (withCommas items) = false := by
  induction items with
  | nil => exact ⟨trivial, rfl⟩
  | cons item items ih =>
      obtain ⟨-, hspace, hclosed⟩ := h item List.mem_cons_self
      obtain ⟨hrest, hrestClosed⟩ := ih fun item hitem => h item (List.mem_cons_of_mem _ hitem)
      have hcomma : quotedAfter false ',' = false := rfl
      rw [withCommas_cons, hidden_append, quotedThrough_append, hclosed, hidden_cons,
        quotedThrough_cons, hcomma]
      exact ⟨⟨hspace, by decide, hrest⟩, hrestClosed⟩

theorem splitFrom_withCommas (cs : List Char) :
    splitFrom ',' false (withCommas items ++ cs) = items ++ splitFrom ',' false cs := by
  induction items with
  | nil => rfl
  | cons item items ih =>
      obtain ⟨hcomma, -, hclosed⟩ := h item List.mem_cons_self
      rw [withCommas_cons, List.append_assoc, List.cons_append,
        splitFrom_append (by decide) _ hcomma hclosed,
        ih fun item hitem => h item (List.mem_cons_of_mem _ hitem), List.cons_append]

end WithCommas

/-- Unbroken items with commas between them are found again, and make one word. -/
theorem splitFrom_joinOn {items : List (List Char)} (hne : items ≠ [])
    (h : ∀ item ∈ items, Unbroken item) :
    splitFrom ',' false (joinOn ',' items) = items ∧ Hidden ' ' false (joinOn ',' items) ∧
      quotedThrough false (joinOn ',' items) = false := by
  obtain ⟨init, last, rfl⟩ : ∃ init last, items = init ++ [last] :=
    ⟨items.dropLast, items.getLast hne, (List.dropLast_concat_getLast hne).symm⟩
  have hinit : ∀ item ∈ init, Unbroken item := fun item hitem =>
    h item (List.mem_append_left _ hitem)
  obtain ⟨hcomma, hspace, hclosed⟩ := h last (by simp)
  obtain ⟨hinitSpace, hinitClosed⟩ := hidden_withCommas hinit
  have hjoin : joinOn ',' (init ++ [last]) = withCommas init ++ last := joinOn_append init last []
  rw [hjoin, splitFrom_withCommas hinit, splitFrom_of_hidden hcomma, hidden_append,
    quotedThrough_append, hinitClosed]
  exact ⟨rfl, ⟨hinitSpace, hspace⟩, hclosed⟩

/-! ### Single options -/

namespace LoginOption

/-- An option as it is read from an item.  Its name is in lower case and has neither blanks around
it nor an `=` in it; what is quoted in the name or in the text is quoted there once and for all,
but the value may have quotes of its own. -/
structure Normal (option : LoginOption) : Prop where
  folded_name : foldCase option.name = option.name
  trimmed_name : trimChars option.name.toList = option.name.toList
  name_plain : '=' ∉ option.name.toList
  name_comma : Hidden ',' false option.name.toList
  name_space : Hidden ' ' false option.name.toList
  closed : quotedThrough false option.text.toList = false
  flag_ne : option.isFlag = true → option.name.toList ≠ []

/-- The text of the option is not broken by a comma or a space. -/
def IsWord (option : LoginOption) : Prop := Unbroken option.text.toList

instance (option : LoginOption) : Decidable option.IsWord :=
  inferInstanceAs (Decidable (Unbroken _))

@[simp] theorem toList_text_flag (name : String) : (flag name).text.toList = name.toList := rfl

@[simp] theorem toList_text_setting (name value : String) :
    (setting name value).text.toList =
      name.toList ++ '=' :: '"' :: (value.toList ++ ['"']) := by
  simp [text]

theorem quotedAfter_equals (quoted : Bool) : quotedAfter quoted '=' = quoted := rfl

/-- In front of a value stand the name, an `=` and a quote. -/
theorem hidden_front {d : Char} (hequals : d ≠ '=') (hquote : d ≠ '"') {name cs : List Char} :
    Hidden d false (name ++ '=' :: '"' :: cs) ↔
      Hidden d false name ∧ Hidden d (!quotedThrough false name) cs := by
  rw [hidden_append, hidden_cons, quotedAfter_equals, hidden_cons, quotedAfter_quote]
  simp [hequals.symm, hquote.symm]

/-- Blanks around an item that sets a value do not matter. -/
theorem ofItem_trimChars {item : List Char} (h : '=' ∈ item) :
    ofItem (trimChars item) = ofItem item := by
  obtain ⟨before, after, hbefore, hafter, hitem⟩ := exists_blanks item
  have hmem : '=' ∈ trimChars item := (mem_trimChars_iff rfl).2 h
  have hbeforePlain : '=' ∉ before := not_mem_of_blanks rfl hbefore
  cases hcut : cutAt? '=' (trimChars item) with
  | none => exact absurd hmem (cutAt?_eq_none_iff.1 hcut)
  | some pair =>
      obtain ⟨name, value⟩ := pair
      obtain ⟨htrim, hname⟩ := cutAt?_eq_some_iff.1 hcut
      have hwhole : cutAt? '=' item = some (before ++ name, value ++ after) := by
        refine cutAt?_eq_some_iff.2 ⟨?_, by simp [hname, hbeforePlain]⟩
        rw [hitem, htrim]
        simp
      have hnameTrim : trimChars (before ++ name) = trimChars name := by
        have htrimmed := trimChars_blanks hbefore (fun c hc => absurd hc List.not_mem_nil) name
        rwa [List.append_nil] at htrimmed
      have hvalueTrim : trimChars (value ++ after) = trimChars value := by
        have htrimmed := trimChars_blanks (fun c hc => absurd hc List.not_mem_nil) hafter value
        rwa [List.nil_append] at htrimmed
      rw [ofItem, ofItem, hcut, hwhole]
      simp only [hnameTrim, hvalueTrim]

/-- **An option that is read from an unbroken item is normal.** -/
theorem normal_ofItem {item : List Char} (htrim : trimChars item = item) (hne : item ≠ [])
    (h : Unbroken item) : (ofItem item).folded.Normal := by
  obtain ⟨hcomma, hspace, hclosed⟩ := h
  have hfold (name : List Char) :
      (foldCase (String.ofList name)).toList = name.map Char.toLower := by
    simp
  have hplain : ∀ name : List Char, '=' ∉ name → '=' ∉ name.map Char.toLower := by
    intro name hname hmem
    obtain ⟨c, hc, hlower⟩ := List.mem_map.1 hmem
    rw [toLower_eq_iff (by decide)] at hlower
    exact hname (hlower ▸ hc)
  cases hcut : cutAt? '=' item with
  | none =>
      have hitem : (ofItem item).folded = flag (foldCase (String.ofList item)) := by
        rw [ofItem, hcut]
        rfl
      rw [hitem]
      refine ⟨foldCase_foldCase _, ?_, ?_, ?_, ?_, ?_, ?_⟩
      · rw [name, hfold, trimChars_map_toLower, htrim]
      · rw [name, hfold]
        exact hplain item (cutAt?_eq_none_iff.1 hcut)
      · rw [name, hfold]
        exact hcomma.map_toLower (by decide)
      · rw [name, hfold]
        exact hspace.map_toLower (by decide)
      · rw [toList_text_flag, hfold, quotedThrough_map_toLower, hclosed]
      · intro _
        rw [name, hfold]
        simpa using hne
  | some pair =>
      obtain ⟨before, after⟩ := pair
      obtain ⟨rfl, hbefore⟩ := cutAt?_eq_some_iff.1 hcut
      have hitem : (ofItem (before ++ '=' :: after)).folded =
          setting (foldCase (String.ofList (trimChars before)))
            (String.ofList (stripQuotes (trimChars after))) := by
        rw [ofItem, hcut]
        rfl
      have hbeforeTrim : '=' ∉ trimChars before := mt (mem_trimChars_iff rfl).1 hbefore
      rw [hitem]
      refine ⟨foldCase_foldCase _, ?_, ?_, ?_, ?_, ?_, nofun⟩
      · rw [name, hfold, trimChars_map_toLower, trimChars_trimChars]
      · rw [name, hfold]
        exact hplain _ hbeforeTrim
      · rw [name, hfold]
        exact (hidden_append.1 hcomma).1.trimChars.map_toLower (by decide)
      · rw [name, hfold]
        exact (hidden_append.1 hspace).1.trimChars.map_toLower (by decide)
      · rw [quotedThrough_append, quotedThrough_cons, quotedAfter_equals] at hclosed
        rw [toList_text_setting, hfold, String.toList_ofList, quotedThrough_append,
          quotedThrough_cons, quotedAfter_equals, quotedThrough_map_toLower,
          quotedThrough_trimChars, quotedThrough_requoted, quotedThrough_trimChars, hclosed]

namespace Normal

variable {option : LoginOption} (h : option.Normal)

include h

theorem folded_eq : option.folded = option := by
  cases option with
  | flag name => exact congrArg flag h.folded_name
  | setting name value => exact congrArg (setting · value) h.folded_name

theorem text_ne : option.text.toList ≠ [] := by
  cases option with
  | flag name => exact h.flag_ne rfl
  | setting name value => simp

theorem trimmed_text : trimChars option.text.toList = option.text.toList := by
  cases option with
  | flag name => exact h.trimmed_name
  | setting name value =>
      rw [toList_text_setting]
      refine trimChars_eq_self ?_ ?_
      · intro c hc
        cases hname : name.toList with
        | nil =>
            simp only [hname, List.nil_append, List.head?_cons, Option.mem_some_iff] at hc
            subst hc
            rfl
        | cons first rest =>
            have htrim : trimChars name.toList = name.toList := h.trimmed_name
            have hhead := head?_trimChars name.toList
            rw [htrim, hname] at hhead
            rw [hname] at hc
            exact hhead c hc
      · intro c hc
        simp only [← List.cons_append, ← List.append_assoc, List.getLast?_append,
          List.getLast?_singleton, Option.some_or, Option.mem_some_iff] at hc
        subst hc
        rfl

/-- The text of a normal option spells the option, whatever quotes its value has. -/
theorem ofItem_text : ofItem option.text.toList = option := by
  cases option with
  | flag name =>
      have hcut : cutAt? '=' name.toList = none := cutAt?_eq_none_iff.2 h.name_plain
      rw [toList_text_flag, ofItem, hcut]
      simp
  | setting name value =>
      have hcut : cutAt? '=' (name.toList ++ '=' :: '"' :: (value.toList ++ ['"'])) =
          some (name.toList, '"' :: (value.toList ++ ['"'])) :=
        cutAt?_eq_some_iff.2 ⟨rfl, h.name_plain⟩
      have hvalue :
          trimChars ('"' :: (value.toList ++ ['"'])) = '"' :: (value.toList ++ ['"']) := by
        refine trimChars_eq_self ?_ ?_
        · simp [isBlank]
        · intro c hc
          simp only [← List.cons_append, List.getLast?_append, List.getLast?_singleton,
            Option.some_or, Option.mem_some_iff] at hc
          subst hc
          rfl
      have hname : trimChars name.toList = name.toList := h.trimmed_name
      rw [toList_text_setting, ofItem, hcut]
      simp [hname, hvalue]

/-- An option is a word if there are no quotes in it but those around its value. -/
theorem isWord_of_plain (hname : '"' ∉ option.name.toList) (hvalue : '"' ∉ option.value.toList) :
    option.IsWord := by
  cases option with
  | flag name => exact ⟨h.name_comma, h.name_space, h.closed⟩
  | setting name value =>
      -- all of the value stands inside the quotes around it
      have hstart : quotedThrough false name.toList = false := quotedThrough_of_not_mem hname false
      refine ⟨?_, ?_, h.closed⟩
      · rw [toList_text_setting, hidden_front (by decide) (by decide), hstart, hidden_append]
        exact ⟨h.name_comma, hidden_in_quotes hvalue, by simp⟩
      · rw [toList_text_setting, hidden_front (by decide) (by decide), hstart, hidden_append]
        exact ⟨h.name_space, hidden_in_quotes hvalue, by simp⟩

/-- What stands in front of the first break in the text of an option spells another option of the
same name, with a shorter value. -/
theorem exists_shorter (hbroken : ¬option.IsWord) :
    ∃ before d after, option.text.toList = before ++ d :: after ∧ (d = ',' ∨ d = ' ') ∧
      Unbroken before ∧ '=' ∈ before ∧ (ofItem before).folded.name = option.name ∧
      (ofItem before).folded ≠ option := by
  cases option with
  | flag name => exact absurd ⟨h.name_comma, h.name_space, h.closed⟩ hbroken
  | setting name value =>
      -- the break is in the value, because neither the name nor the quotes have one
      have hvalue : ¬(Hidden ',' (!quotedThrough false name.toList) value.toList ∧
          Hidden ' ' (!quotedThrough false name.toList) value.toList) := by
        rintro ⟨hcomma, hspace⟩
        refine hbroken ⟨?_, ?_, h.closed⟩
        · rw [toList_text_setting, hidden_front (by decide) (by decide), hidden_append]
          exact ⟨h.name_comma, hcomma, by simp⟩
        · rw [toList_text_setting, hidden_front (by decide) (by decide), hidden_append]
          exact ⟨h.name_space, hspace, by simp⟩
      obtain ⟨front, d, back, hsplit, hd, hcomma, hspace, hclosed⟩ := exists_first_break hvalue
      have hcut : cutAt? '=' (name.toList ++ '=' :: '"' :: front) =
          some (name.toList, '"' :: front) :=
        cutAt?_eq_some_iff.2 ⟨rfl, h.name_plain⟩
      have htrim : trimChars name.toList = name.toList := h.trimmed_name
      have hfold : foldCase name = name := h.folded_name
      have hshort : (ofItem (name.toList ++ '=' :: '"' :: front)).folded =
          setting name (String.ofList (stripQuotes (trimChars ('"' :: front)))) := by
        rw [ofItem, hcut]
        simp [folded, htrim, hfold]
      refine ⟨name.toList ++ '=' :: '"' :: front, d, back ++ ['"'], ?_, hd, ⟨?_, ?_, ?_⟩, by simp,
        ?_, ?_⟩
      · rw [toList_text_setting, hsplit]
        simp
      · exact (hidden_front (by decide) (by decide)).2 ⟨h.name_comma, hcomma⟩
      · exact (hidden_front (by decide) (by decide)).2 ⟨h.name_space, hspace⟩
      · rw [quotedThrough_append, quotedThrough_cons, quotedAfter_equals, quotedThrough_cons,
          quotedAfter_quote, hclosed]
      · rw [hshort]
        rfl
      · intro hsame
        rw [hshort] at hsame
        have hvalueSame := congrArg String.toList (LoginOption.setting.inj hsame).2
        rw [String.toList_ofList, hsplit] at hvalueSame
        have hdquote : d ≠ '"' := by
          rintro rfl
          simp at hd
        exact stripQuotes_ne hdquote hvalueSame

end Normal

end LoginOption

end SshKeys
