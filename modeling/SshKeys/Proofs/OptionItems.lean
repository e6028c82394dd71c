/-
**What becomes of the items of a text.**

A text is split at the commas outside quotes.  Each item spells an option, whose name ends at the
first `=`.  The options are added one after the other, and the text is refused at the first item
whose name has come before, whatever the case of its letters.  If there is none, every item has
become an option, and there are no other options.

Main definitions:

* `SshKeys.LoginOption.itemKey`, `SshKeys.LoginOption.itemValue` — what an item says;
* `SshKeys.FirstRepeat` — the first name that has come before.

Main results:

* `SshKeys.LoginOption.folded_ofItem` — what an item spells;
* `SshKeys.LoginOptions.foldlM_add_cases` — adding options one after the other;
* `SshKeys.LoginOptions.ofText_cases` — **all items become options, or a name comes twice**.
-/

import Mathlib.Data.List.TakeWhile
import SshKeys.Proofs.AssembledKeys
import SshKeys.Proofs.UnquotedItems

set_option relaxedAutoImplicit false
set_option autoImplicit false

namespace SshKeys

/-! ### What an item says -/

namespace LoginOption

variable {item : List Char}

/-- The name of an item in lower case: what stands in front of the first `=`, or all of it, without
the blanks around it. -/
def itemKey (item : List Char) : String :=
  foldCase (String.ofList (trimChars (item.takeWhile (· != '='))))

/-- The value of an item: what stands behind the first `=`, without the blanks and the quotes around
it.  An item without `=` has the value `true`. -/
def itemValue (item : List Char) : String :=
  if '=' ∈ item then String.ofList (stripQuotes (trimChars (item.dropWhile (· != '=')).tail))
  else "true"

/-- What an item spells: a setting if there is a `=` in it, and a flag if there is none. -/
theorem folded_ofItem (htrim : trimChars item = item) :
    (ofItem item).folded =
      if '=' ∈ item then .setting (itemKey item) (itemValue item) else .flag (itemKey item) := by
  rw [ofItem]
  cases hcut : cutAt? '=' item with
  | none =>
      have hnone := cutAt?_eq_none_iff.1 hcut
      have hwhole : item.takeWhile (· != '=') = item := by
        rw [List.takeWhile_eq_self_iff]
        intro c hc
        exact bne_iff_ne.2 (ne_of_mem_of_not_mem hc hnone)
      rw [if_neg hnone, itemKey, hwhole, htrim]
      rfl
  | some pair =>
      obtain ⟨before, after⟩ := pair
      obtain ⟨rfl, hbefore⟩ := cutAt?_eq_some_iff.1 hcut
      have hpass : ∀ c ∈ before, (c != '=') = true := fun c hc =>
        bne_iff_ne.2 (ne_of_mem_of_not_mem hc hbefore)
      have hmem : '=' ∈ before ++ '=' :: after := by simp
      rw [if_pos hmem, itemKey, itemValue, if_pos hmem, List.takeWhile_append_of_pos hpass,
        List.dropWhile_append_of_pos hpass]
      simp [folded]

theorem name_folded_ofItem (htrim : trimChars item = item) :
    (ofItem item).folded.name = itemKey item := by
  rw [folded_ofItem htrim]
  split <;> rfl

theorem value_folded_ofItem (htrim : trimChars item = item) :
    (ofItem item).folded.value = itemValue item := by
  rw [folded_ofItem htrim]
  split
  · rfl
  · next hnone => exact (if_neg hnone).symm

theorem isFlag_folded_ofItem (htrim : trimChars item = item) :
    (ofItem item).folded.isFlag = decide ('=' ∉ item) := by
  rw [folded_ofItem htrim]
  split
  · next hmem => simp [isFlag, hmem]
  · next hnone => simp [isFlag, hnone]

end LoginOption

/-! ### Repeated names -/

/-- The first name that has come before. -/
def FirstRepeat (names : List String) (name : String) : Prop :=
  ∃ front back, names = front ++ name :: back ∧ front.Nodup ∧ name ∈ front

namespace FirstRepeat

variable {names : List String} {name other : String}

theorem not_nodup (h : FirstRepeat names name) : ¬names.Nodup := by
  obtain ⟨front, back, rfl, -, hmem⟩ := h
  intro hnodup
  exact (List.nodup_append.1 hnodup).2.2 name hmem name List.mem_cons_self rfl

/-- No name comes again in front of another one that does so first. -/
theorem eq_of_append {front between back back' : List String} (hmem : name ∈ front)
    (hnodup : (front ++ between).Nodup) (h : name :: back = between ++ other :: back') :
    name = other := by
  cases between with
  | nil => exact (List.cons.inj h).1
  | cons next between =>
      obtain ⟨rfl, -⟩ := List.cons.inj h
      exact absurd rfl ((List.nodup_append.1 hnodup).2.2 name hmem name List.mem_cons_self)

/-- What comes first comes first. -/
theorem unique (h : FirstRepeat names name) (hother : FirstRepeat names other) : name = other := by
  obtain ⟨front, back, rfl, hnodup, hmem⟩ := h
  obtain ⟨front', back', hnames, hnodup', hmem'⟩ := hother
  rcases List.append_eq_append_iff.1 hnames with
    ⟨between, rfl, hrest⟩ | ⟨between, rfl, hrest⟩
  · exact eq_of_append hmem hnodup' hrest
  · exact (eq_of_append hmem' hnodup hrest).symm

end FirstRepeat

namespace LoginOptions

variable {o : LoginOptions} {text : String}

/-! ### One option after the other -/

theorem perm_place (option : LoginOption) (options : List LoginOption) :
    (place option options).Perm (option :: options) := by
  induction options with
  | nil => exact .refl _
  | cons first options ih =>
      rw [place]
      split
      · exact .refl _
      · exact (ih.cons first).trans (.swap option first options)

/-- The names of some options. -/
def names (options : List LoginOption) : List String := options.map LoginOption.name

theorem containsName_iff {name : String} :
    o.containsName name = true ↔ name ∈ names o.options := by
  simp [containsName, find?, names]

theorem add_eq_error_iff {option : LoginOption} {error : Error} :
    o.add option = .error error ↔
      option.folded.name ∈ names o.options ∧ error = .duplicateOption option.folded.name := by
  rw [add, ← containsName_iff]
  cases o.containsName option.folded.name with
  | true => simp [eq_comm]
  | false => simp

/-- **Adding options one after the other**: all of them are added, or the first one is refused whose
name is there already. -/
theorem foldlM_add_cases (options : List LoginOption) (hnodup : (names o.options).Nodup) :
    (∃ o', options.foldlM add o = .ok o' ∧ (names o'.options).Nodup ∧
      o'.options.Perm (o.options ++ options.map LoginOption.folded)) ∨
    ∃ front option back, options = front ++ option :: back ∧
      (names (o.options ++ front.map LoginOption.folded)).Nodup ∧
      option.folded.name ∈ names (o.options ++ front.map LoginOption.folded) ∧
      options.foldlM add o = .error (.duplicateOption option.folded.name) := by
  induction options generalizing o with
  | nil => exact .inl ⟨o, rfl, hnodup, by simp⟩
  | cons first options ih =>
      rw [List.foldlM_cons]
      by_cases hthere : first.folded.name ∈ names o.options
      · refine .inr ⟨[], first, options, rfl, by simpa using hnodup, by simpa using hthere, ?_⟩
        rw [add_eq_error_iff.2 ⟨hthere, rfl⟩]
        rfl
      · have hadd : o.add first = .ok ⟨place first.folded o.options⟩ := by
          refine add_eq_ok_iff.2 ⟨fun other hother hname => hthere ?_, rfl⟩
          exact List.mem_map.2 ⟨other, hother, hname⟩
        -- what has been added so far, in the order in which it came
        have hperm : ∀ added, (place first.folded o.options ++ added).Perm
            (o.options ++ first.folded :: added) := fun added =>
          ((perm_place _ _).append_right added).trans List.perm_middle.symm
        have hnodup' : (names (place first.folded o.options)).Nodup := by
          rw [names, ((perm_place _ _).map _).nodup_iff]
          exact List.nodup_cons.2 ⟨hthere, hnodup⟩
        rw [hadd]
        rcases ih hnodup' with ⟨o', hall, hnodup, hkept⟩ | ⟨front, option, back, rfl, hrest⟩
        · exact .inl ⟨o', hall, hnodup, hkept.trans (hperm _)⟩
        · obtain ⟨hnew, hagain, hrefused⟩ := hrest
          have hnames := (hperm (front.map LoginOption.folded)).map LoginOption.name
          exact .inr ⟨first :: front, option, back, rfl, hnames.nodup_iff.1 hnew,
            hnames.mem_iff.1 hagain, hrefused⟩

/-! ### Reading -/

/-- The names of the items of a text. -/
def itemKeys (text : String) : List String := (items text).map LoginOption.itemKey

theorem trimChars_of_mem_items {item : List Char} (h : item ∈ items text) :
    trimChars item = item := by
  obtain ⟨-, part, -, rfl⟩ := mem_items_iff.1 h
  exact trimChars_trimChars part

/-- The options that the items of a text spell, in the order of the items. -/
def spelled (text : String) : List LoginOption :=
  (items text).map fun item => (LoginOption.ofItem item).folded

theorem names_spelled (text : String) : names (spelled text) = itemKeys text := by
  rw [names, spelled, itemKeys, List.map_map]
  exact List.map_congr_left fun item hitem =>
    LoginOption.name_folded_ofItem (trimChars_of_mem_items hitem)

/-- **All items become options, or a name comes twice.** -/
theorem ofText_cases (text : String) :
    (∃ o, ofText text = .ok o ∧ (itemKeys text).Nodup ∧ o.options.Perm (spelled text)) ∨
      ∃ name, ofText text = .error (.duplicateOption name) ∧
        FirstRepeat (itemKeys text) name := by
  have hspelled : ((items text).map LoginOption.ofItem).map LoginOption.folded = spelled text := by
    rw [List.map_map]
    rfl
  have hempty : (names empty.options).Nodup := List.nodup_nil
  rcases foldlM_add_cases ((items text).map LoginOption.ofItem) hempty with
    ⟨o, hread, hnodup, hkept⟩ | ⟨front, option, back, hitems, hnodup, hagain, hrefused⟩
  · rw [hspelled] at hkept
    refine .inl ⟨o, hread, ?_, hkept⟩
    rw [← names_spelled]
    exact (hkept.map LoginOption.name).nodup_iff.1 hnodup
  · refine .inr ⟨option.folded.name, hrefused, ?_⟩
    refine ⟨names (front.map LoginOption.folded), names (back.map LoginOption.folded), ?_, hnodup,
      hagain⟩
    rw [← names_spelled, ← hspelled, hitems]
    simp [names]

theorem exists_ofText_iff : (∃ o, ofText text = .ok o) ↔ (itemKeys text).Nodup := by
  rcases ofText_cases text with ⟨o, hread, hnodup, -⟩ | ⟨name, hrefused, hrepeat⟩
  · exact iff_of_true ⟨o, hread⟩ hnodup
  · refine iff_of_false ?_ hrepeat.not_nodup
    rintro ⟨o, hread⟩
    rw [hrefused] at hread
    cases hread

theorem ofText_eq_error_iff {error : Error} :
    ofText text = .error error ↔
      ∃ name, FirstRepeat (itemKeys text) name ∧ error = .duplicateOption name := by
  rcases ofText_cases text with ⟨o, hread, hnodup, -⟩ | ⟨name, hrefused, hrepeat⟩
  · rw [hread]
    refine iff_of_false nofun ?_
    rintro ⟨name, hrepeat, -⟩
    exact hrepeat.not_nodup hnodup
  · rw [hrefused]
    constructor
    · intro h
      cases h
      exact ⟨name, hrepeat, rfl⟩
    · rintro ⟨other, hother, rfl⟩
      rw [hrepeat.unique hother]

theorem perm_of_ofText (h : ofText text = .ok o) : o.options.Perm (spelled text) := by
  rcases ofText_cases text with ⟨o', hread, -, hkept⟩ | ⟨name, hrefused, -⟩
  · rw [h] at hread
    cases hread
    exact hkept
  · rw [h] at hrefused
    cases hrefused

end LoginOptions

end SshKeys
