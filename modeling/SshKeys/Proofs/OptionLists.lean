/-
**Collections of login options as text.**

Options are read item by item and kept in the order of their names, each name once.  The text of a
collection lists its options in that order.  It is read back if no comma and no space stands
outside quotes in any of them.  If one does, then the first of them is cut there, and what is left
of it spells an option of the same name that is not in the collection.

Main definitions:

* `SshKeys.LoginOptions.Ordered` — names in order, each one once;
* `SshKeys.LoginOptions.SpelledBy` — what a word of a line spells.

Main results:

* `SshKeys.LoginOptions.mem_ofText_iff`, `SshKeys.LoginOptions.ordered_of_ofText` — what is read;
* `SshKeys.LoginOptions.ofText_text` — **options that are words come back from their text**;
* `SshKeys.LoginOptions.isWord_of_ofText` — **from a line, only those come back**.
-/

import SshKeys.Proofs.OptionText

set_option relaxedAutoImplicit false
set_option autoImplicit false

namespace SshKeys

namespace LoginOptions

variable {o : LoginOptions} {option other : LoginOption}

/-! ### Options in order -/

/-- The names are in order, and each one occurs once. -/
def Ordered (o : LoginOptions) : Prop :=
  o.options.Pairwise fun option other => option.name < other.name

theorem Ordered.eq_of_name (h : o.Ordered) (hoption : option ∈ o.options)
    (hother : other ∈ o.options) (hname : option.name = other.name) : option = other := by
  obtain ⟨options⟩ := o
  induction options with
  | nil => exact absurd hoption List.not_mem_nil
  | cons first options ih =>
      obtain ⟨hfirst, hrest⟩ := List.pairwise_cons.1 h
      have hno : ∀ option ∈ options, first.name ≠ option.name := fun option hoption hsame =>
        String.lt_irrefl option.name (hsame ▸ hfirst option hoption)
      rcases List.mem_cons.1 hoption with hsame | hoption'
      · subst hsame
        rcases List.mem_cons.1 hother with hsame | hother'
        · exact hsame.symm
        · exact absurd hname (hno other hother')
      · rcases List.mem_cons.1 hother with hsame | hother'
        · subst hsame
          exact absurd hname.symm (hno option hoption')
        · exact ih hrest hoption' hother'

theorem containsName_eq_false_iff {name : String} :
    o.containsName name = false ↔ ∀ option ∈ o.options, option.name ≠ name := by
  simp [containsName, find?]

@[simp] theorem mem_place {options : List LoginOption} :
    other ∈ place option options ↔ other = option ∨ other ∈ options := by
  induction options with
  | nil => simp [place]
  | cons first options ih =>
      rw [place]
      split
      · rw [List.mem_cons]
      · rw [List.mem_cons, ih, List.mem_cons, or_left_comm]

theorem ordered_place (h : o.Ordered) (hnew : ∀ other ∈ o.options, other.name ≠ option.name) :
    Ordered ⟨place option o.options⟩ := by
  obtain ⟨options⟩ := o
  induction options with
  | nil => exact List.pairwise_singleton _ _
  | cons first options ih =>
      obtain ⟨hfirst, hrest⟩ := List.pairwise_cons.1 h
      rw [place]
      split
      · next hbefore =>
          refine List.pairwise_cons.2 ⟨?_, h⟩
          intro other hother
          rcases List.mem_cons.1 hother with rfl | hother
          · exact hbefore
          · exact String.lt_trans hbefore (hfirst other hother)
      · next hbehind =>
          have hlt : first.name < option.name := by
            refine String.not_le.1 fun hle => hnew first List.mem_cons_self ?_
            exact String.le_antisymm (String.not_lt.1 hbehind) hle
          refine List.pairwise_cons.2 ⟨?_, ih hrest fun other hother =>
            hnew other (List.mem_cons_of_mem _ hother)⟩
          intro other hother
          rcases mem_place.1 hother with rfl | hother
          · exact hlt
          · exact hfirst other hother

/-- An option whose name comes last is placed last. -/
theorem place_of_last {options : List LoginOption}
    (h : ∀ other ∈ options, other.name < option.name) :
    place option options = options ++ [option] := by
  induction options with
  | nil => rfl
  | cons first options ih =>
      have hfirst : ¬option.name < first.name := fun hlt =>
        String.lt_irrefl _ (String.lt_trans hlt (h first List.mem_cons_self))
      rw [place, if_neg hfirst, ih fun other hother => h other (List.mem_cons_of_mem _ hother)]
      rfl

/-! ### One option after the other -/

theorem add_eq_ok_iff {o' : LoginOptions} :
    o.add option = .ok o' ↔
      (∀ other ∈ o.options, other.name ≠ option.folded.name) ∧
        o' = ⟨place option.folded o.options⟩ := by
  rw [add, ← containsName_eq_false_iff]
  cases o.containsName option.folded.name with
  | true => simp
  | false => simp [eq_comm]

/-- **Adding options one after the other** keeps the order, and nothing is added or lost. -/
theorem of_foldlM_add {options : List LoginOption} {o' : LoginOptions}
    (h : options.foldlM add o = .ok o') (hordered : o.Ordered) :
    o'.Ordered ∧ ∀ option, option ∈ o'.options ↔
      option ∈ o.options ∨ ∃ added ∈ options, option = added.folded := by
  induction options generalizing o with
  | nil =>
      obtain rfl := pure_eq_ok_iff.1 h
      exact ⟨hordered, fun option => by simp⟩
  | cons first options ih =>
      rw [List.foldlM_cons] at h
      obtain ⟨next, hnext, h⟩ := bind_eq_ok_iff.1 h
      obtain ⟨hnew, rfl⟩ := add_eq_ok_iff.1 hnext
      obtain ⟨hordered', hmem⟩ := ih h (ordered_place hordered hnew)
      refine ⟨hordered', fun option => ?_⟩
      rw [hmem, mem_place]
      simp only [List.mem_cons, exists_eq_or_imp]
      rw [or_assoc, or_left_comm]

/-- Options that are in order already are added without a change. -/
theorem foldlM_add_of_ordered {added options : List LoginOption} (h : Ordered ⟨added ++ options⟩)
    (hfolded : ∀ option ∈ options, option.folded = option) :
    options.foldlM add ⟨added⟩ = .ok ⟨added ++ options⟩ := by
  induction options generalizing added with
  | nil =>
      rw [List.append_nil]
      rfl
  | cons first options ih =>
      have hlast : ∀ other ∈ added, other.name < first.name := fun other hother =>
        (List.pairwise_append.1 h).2.2 other hother first List.mem_cons_self
      have hadd : add ⟨added⟩ first = .ok ⟨added ++ [first]⟩ := by
        refine add_eq_ok_iff.2 ?_
        rw [hfolded first List.mem_cons_self]
        refine ⟨fun other hother hsame => ?_, congrArg mk (place_of_last hlast).symm⟩
        exact String.lt_irrefl other.name (hsame ▸ hlast other hother)
      have hassoc : added ++ first :: options = added ++ [first] ++ options := by simp
      rw [List.foldlM_cons, hadd, hassoc]
      rw [hassoc] at h
      exact ih h fun option hoption => hfolded option (List.mem_cons_of_mem _ hoption)

/-! ### Reading -/

variable {text : String}

theorem mem_items_iff {item : List Char} :
    item ∈ items text ↔
      item ≠ [] ∧ ∃ part ∈ splitFrom ',' false text.toList, item = trimChars part := by
  simp only [items, splitUnquoted, List.mem_filter, List.mem_map, Bool.not_eq_true',
    List.isEmpty_eq_false_iff, eq_comm (a := item)]
  exact and_comm

/-- The options that are read are those that the items spell. -/
theorem mem_ofText_iff (h : ofText text = .ok o) :
    option ∈ o.options ↔ ∃ item ∈ items text, option = (LoginOption.ofItem item).folded := by
  rw [(of_foldlM_add h List.Pairwise.nil).2]
  simp [empty]

theorem ordered_of_ofText (h : ofText text = .ok o) : o.Ordered :=
  (of_foldlM_add h List.Pairwise.nil).1

/-- Options as they are read from the first word of a line. -/
structure SpelledBy (text : String) (o : LoginOptions) : Prop where
  read : ofText text = .ok o
  space : Hidden ' ' false text.toList
  closed : quotedThrough false text.toList = false

namespace SpelledBy

variable (h : SpelledBy text o)

include h

theorem unbroken_of_mem {item : List Char} (hitem : item ∈ items text) : Unbroken item := by
  obtain ⟨-, part, hpart, rfl⟩ := mem_items_iff.1 hitem
  obtain ⟨hcomma, hkeeps, hcloses⟩ := hidden_of_mem_splitFrom (by decide) hpart
  refine ⟨hcomma.trimChars, (hkeeps ' ' h.space).trimChars, ?_⟩
  rw [quotedThrough_trimChars, hcloses h.closed]

theorem normal_of_mem (hoption : option ∈ o.options) : option.Normal := by
  obtain ⟨item, hitem, rfl⟩ := (mem_ofText_iff h.read).1 hoption
  have htrim : trimChars item = item := by
    obtain ⟨-, part, -, rfl⟩ := mem_items_iff.1 hitem
    exact trimChars_trimChars part
  exact LoginOption.normal_ofItem htrim (mem_items_iff.1 hitem).1 (h.unbroken_of_mem hitem)

end SpelledBy

/-! ### Writing -/

/-- The texts of the options. -/
def texts (o : LoginOptions) : List (List Char) := o.options.map fun option => option.text.toList

theorem toList_text (o : LoginOptions) : o.text.toList = joinOn ',' o.texts := by
  simp [LoginOptions.text, texts]

/-- **Options that are words come back from their text**, which is a word itself. -/
theorem ofText_text (hordered : o.Ordered) (hnormal : ∀ option ∈ o.options, option.Normal)
    (hwords : ∀ option ∈ o.options, option.IsWord) : SpelledBy o.text o := by
  by_cases hne : o.options = []
  · obtain rfl : o = empty := congrArg mk hne
    exact ⟨rfl, by decide, by decide⟩
  · have hunbroken : ∀ item ∈ o.texts, Unbroken item := by
      intro item hitem
      obtain ⟨option, hoption, rfl⟩ := List.mem_map.1 hitem
      exact hwords option hoption
    have htexts : o.texts ≠ [] := by simpa [texts] using hne
    obtain ⟨hsplit, hspace, hclosed⟩ := splitFrom_joinOn htexts hunbroken
    rw [← toList_text] at hsplit hspace hclosed
    refine ⟨?_, hspace, hclosed⟩
    have htrim : ∀ item ∈ o.texts, trimChars item = item ∧ item ≠ [] := by
      intro item hitem
      obtain ⟨option, hoption, rfl⟩ := List.mem_map.1 hitem
      exact ⟨(hnormal option hoption).trimmed_text, (hnormal option hoption).text_ne⟩
    have hitems : items o.text = o.texts := by
      rw [items, splitUnquoted, hsplit]
      have hmap : o.texts.map trimChars = o.texts :=
        (List.map_congr_left fun item hitem => (htrim item hitem).1).trans (List.map_id' _)
      rw [hmap, List.filter_eq_self]
      intro item hitem
      simpa using (htrim item hitem).2
    have hback : o.texts.map LoginOption.ofItem = o.options := by
      rw [texts, List.map_map]
      refine (List.map_congr_left fun option hoption => ?_).trans (List.map_id' _)
      exact (hnormal option hoption).ofItem_text
    rw [ofText, hitems, hback]
    have hfolded : ∀ option ∈ o.options, option.folded = option := fun option hoption =>
      (hnormal option hoption).folded_eq
    exact @foldlM_add_of_ordered [] o.options hordered hfolded

/-- What a text spells that is cut at the first space outside quotes, behind items with commas and a
text that a comma or a space breaks. -/
theorem mem_splitFrom_of_cut {items : List (List Char)} {before after first last : List Char}
    {d : Char} (hitems : ∀ item ∈ items, Unbroken item) (hbefore : Unbroken before)
    (hd : d = ',' ∨ d = ' ')
    (hcut : cutFrom? ' ' false (withCommas items ++ (before ++ d :: after)) = some (first, last)) :
    before ∈ splitFrom ',' false first := by
  obtain ⟨hcomma, hspace, hclosed⟩ := hbefore
  obtain ⟨hitemsSpace, hitemsClosed⟩ := hidden_withCommas hitems
  rw [cutFrom?_append hitemsSpace, hitemsClosed, cutFrom?_append hspace, hclosed] at hcut
  simp only [Option.map_map, Option.map_eq_some_iff, Function.comp_apply, Prod.mk.injEq,
    Prod.exists] at hcut
  obtain ⟨more, last', hmore, rfl, rfl⟩ := hcut
  rw [splitFrom_withCommas hitems]
  refine List.mem_append_right _ ?_
  rcases hd with rfl | rfl
  · -- a comma: the text goes on, but the item ends
    have hstart := eq_of_cutFrom? hmore
    cases more with
    | nil => simp at hstart
    | cons c more =>
        obtain ⟨rfl, -⟩ := List.cons.inj hstart
        rw [splitFrom_append (by decide) more hcomma hclosed]
        exact List.mem_cons_self
  · -- a space: the text ends
    have hnow : more = [] ∧ after = last' := by simpa [cutFrom?, quotedAfter] using hmore
    obtain ⟨rfl, -⟩ := hnow
    rw [List.append_nil, splitFrom_of_hidden hcomma]
    exact List.mem_cons_self

/-- **Only options that are words come back** from a line that starts with their text: the first one
that is broken by a comma or a space comes back with a shorter value. -/
theorem isWord_of_ofText (hordered : o.Ordered) (hnormal : ∀ option ∈ o.options, option.Normal)
    {first after rest : List Char}
    (hcut : cutFrom? ' ' false (o.text.toList ++ rest) = some (first, after))
    (hread : ofText (.ofList first) = .ok o) : ∀ option ∈ o.options, option.IsWord := by
  cases hfind : o.options.find? fun option => !decide option.IsWord with
  | none => simpa using hfind
  | some option =>
      exfalso
      obtain ⟨hbroken, pre, post, hsplit, hpre⟩ := List.find?_eq_some_iff_append.1 hfind
      have hoption : option ∈ o.options := by simp [hsplit]
      obtain ⟨before, d, more, htext, hd, hbefore, hequals, hname, hshorter⟩ :=
        (hnormal option hoption).exists_shorter (by simpa using hbroken)
      have hitems : ∀ item ∈ pre.map fun option => option.text.toList, Unbroken item := by
        intro item hitem
        obtain ⟨option, hoption, rfl⟩ := List.mem_map.1 hitem
        have hword : option.IsWord := by simpa using hpre option hoption
        exact hword
      -- the text up to the break is an item of what is read
      obtain ⟨tail, htail⟩ : ∃ tail, joinOn ',' (option.text.toList ::
          post.map fun option => option.text.toList) = option.text.toList ++ tail := by
        cases post with
        | nil => exact ⟨[], (List.append_nil _).symm⟩
        | cons _ _ => exact ⟨_, rfl⟩
      have hwhole : o.text.toList ++ rest = withCommas (pre.map fun option => option.text.toList) ++
          (before ++ d :: (more ++ tail ++ rest)) := by
        rw [toList_text, texts, hsplit, List.map_append, List.map_cons, joinOn_append, htail, htext]
        simp
      rw [hwhole] at hcut
      have hpart := mem_splitFrom_of_cut hitems hbefore hd hcut
      have hitem : trimChars before ∈ items (.ofList first) := by
        refine mem_items_iff.2 ⟨?_, before, by rwa [String.toList_ofList], rfl⟩
        exact List.ne_nil_of_mem ((mem_trimChars_iff rfl).2 hequals)
      -- and spells an option of the same name
      have hmem := (mem_ofText_iff hread).2 ⟨_, hitem, rfl⟩
      rw [LoginOption.ofItem_trimChars hequals] at hmem
      exact hshorter (hordered.eq_of_name hmem hoption hname)

end LoginOptions

end SshKeys
