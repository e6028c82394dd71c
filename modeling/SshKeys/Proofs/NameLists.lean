/-
**Lists of names, known and unknown ones apart.**

A list is cut at its commas, and what is left of an item without the blanks around it is a name if
anything is left.  Each name goes to one side, known names in lower case and unknown ones as they
are, and on both sides they stay in order and are as many as they were.  Either side can be written
as a list again, because no name has a comma in it or blanks around it; and written so it goes to
the same side as a whole, because letter case decides about no name.

Main definitions:

* `SshKeys.Registry.ItemsOf` — what stands between the commas of a list;
* `SshKeys.Registry.Partitions` — names that go to one of two sides, one by one;
* `SshKeys.Registry.IsListed` — a name as it stands in a list;
* `SshKeys.Registry.joinNames` — names with commas between them.

Main results:

* `SshKeys.Registry.itemsOf_iff` — there is one way of cutting a list;
* `SshKeys.Registry.partitionNames_eq_iff` — what becomes of a list, told name by name;
* `SshKeys.Registry.listedNames_joinNames` — names are found again in the list of them;
* `SshKeys.Registry.partitionNames_stable` — **no name is lost, and either side is parted again into
  itself and nothing**.
-/

import SshKeys.Proofs.OptionText

set_option relaxedAutoImplicit false
set_option autoImplicit false

namespace SshKeys

/-! ### Cutting at a delimiter -/

section SplitOn

variable {d : Char}

theorem not_mem_of_mem_splitOn {cs item : List Char} (h : item ∈ splitOn d cs) : d ∉ item := by
  induction cs generalizing item with
  | nil =>
      obtain rfl : item = [] := by simpa [splitOn] using h
      exact List.not_mem_nil
  | cons c cs ih =>
      rw [splitOn] at h
      split at h
      · rcases List.mem_cons.1 h with rfl | h
        · exact List.not_mem_nil
        · exact ih h
      · next hc =>
          cases hsplit : splitOn d cs with
          | nil => exact absurd hsplit (splitOn_ne_nil d cs)
          | cons first items =>
              rw [hsplit] at h ih
              rcases List.mem_cons.1 h with rfl | h
              · rw [List.mem_cons, not_or]
                exact ⟨Ne.symm hc, ih List.mem_cons_self⟩
              · exact ih (List.mem_cons_of_mem _ h)

/-- Without a delimiter there is one item. -/
theorem splitOn_of_not_mem {item : List Char} (h : d ∉ item) : splitOn d item = [item] := by
  induction item with
  | nil => rfl
  | cons c item ih =>
      rw [List.mem_cons, not_or] at h
      rw [splitOn, if_neg (Ne.symm h.1), ih h.2]
      rfl

/-- An item ends at the first delimiter. -/
theorem splitOn_append {item : List Char} (h : d ∉ item) (rest : List Char) :
    splitOn d (item ++ d :: rest) = item :: splitOn d rest := by
  induction item with
  | nil => exact if_pos rfl
  | cons c item ih =>
      rw [List.mem_cons, not_or] at h
      rw [List.cons_append, splitOn, if_neg (Ne.symm h.1), ih h.2]
      rfl

/-- Items without the delimiter in them are found again between the delimiters. -/
theorem splitOn_joinOn {items : List (List Char)} (hne : items ≠ [])
    (h : ∀ item ∈ items, d ∉ item) : splitOn d (joinOn d items) = items := by
  induction items with
  | nil => exact absurd rfl hne
  | cons item items ih =>
      rw [List.forall_mem_cons] at h
      cases items with
      | nil => exact splitOn_of_not_mem h.1
      | cons next items =>
          rw [joinOn, splitOn_append h.1, ih (List.cons_ne_nil _ _) h.2]
          exact nofun

end SplitOn

namespace Registry

variable {r : Registry} {list name : String} {names parsed unsupported : List String}

/-! ### The names of a list -/

/-- The items of a list are what stands between its commas. -/
structure ItemsOf (list : String) (items : List (List Char)) : Prop where
  ne_nil : items ≠ []
  no_comma : ∀ item ∈ items, ',' ∉ item
  joined : joinOn ',' items = list.toList

/-- **There is one way of cutting a list.** -/
theorem itemsOf_iff {items : List (List Char)} :
    ItemsOf list items ↔ splitOn ',' list.toList = items := by
  constructor
  · rintro ⟨hne, hcomma, hjoined⟩
    rw [← hjoined, splitOn_joinOn hne hcomma]
  · rintro rfl
    exact ⟨splitOn_ne_nil _ _, fun _ => not_mem_of_mem_splitOn, joinOn_splitOn _ _⟩

/-- A name as it stands in a list: not empty, without a comma in it and without blanks around it. -/
structure IsListed (name : String) : Prop where
  ne_empty : name ≠ ""
  no_comma : ',' ∉ name.toList
  trimmed : trimChars name.toList = name.toList

theorem isListed_of_mem_listedNames (h : name ∈ listedNames list) : IsListed name := by
  rw [listedNames, List.mem_filter, List.mem_map, bne_iff_ne] at h
  obtain ⟨⟨item, hitem, rfl⟩, hne⟩ := h
  refine ⟨hne, ?_, ?_⟩
  · rw [String.toList_ofList]
    exact fun hmem => not_mem_of_mem_splitOn hitem ((trimChars_sublist item).mem hmem)
  · rw [String.toList_ofList, trimChars_trimChars]

/-- Letter case does not matter for that. -/
theorem IsListed.foldCase (h : IsListed name) : IsListed (foldCase name) := by
  refine ⟨?_, ?_, ?_⟩
  · intro hempty
    have hnil : name.toList.map Char.toLower = [] := by
      rw [← toList_foldCase, hempty]
      rfl
    exact h.ne_empty (String.toList_eq_nil_iff.1 (List.map_eq_nil_iff.1 hnil))
  · rw [toList_foldCase]
    intro hmem
    obtain ⟨c, hc, hlower⟩ := List.mem_map.1 hmem
    rw [toLower_eq_iff (by decide)] at hlower
    exact h.no_comma (hlower ▸ hc)
  · rw [toList_foldCase, trimChars_map_toLower, h.trimmed]

/-- Names with commas between them. -/
def joinNames (names : List String) : String :=
  String.ofList (joinOn ',' (names.map String.toList))

/-- **Names are found again** in the list of them. -/
theorem listedNames_joinNames (h : ∀ name ∈ names, IsListed name) :
    listedNames (joinNames names) = names := by
  cases names with
  | nil => rfl
  | cons first names =>
      have hcomma : ∀ item ∈ (first :: names).map String.toList, ',' ∉ item := by
        intro item hitem
        obtain ⟨name, hname, rfl⟩ := List.mem_map.1 hitem
        exact (h name hname).no_comma
      have hne : (first :: names).map String.toList ≠ [] := List.cons_ne_nil _ _
      have htrim : ∀ name ∈ first :: names,
          ((fun item => String.ofList (trimChars item)) ∘ String.toList) name = id name := by
        intro name hname
        rw [Function.comp_apply, (h name hname).trimmed, String.ofList_toList, id]
      rw [listedNames, joinNames, String.toList_ofList, splitOn_joinOn hne hcomma, List.map_map,
        List.map_congr_left htrim, List.map_id, List.filter_eq_self]
      exact fun name hname => bne_iff_ne.2 (h name hname).ne_empty

/-! ### Two sides -/

/-- The decoder of a key type does not depend on letter case. -/
theorem resolve?_foldCase (r : Registry) (name : String) :
    r.resolve? (foldCase name) = r.resolve? name := by
  rw [resolve?, resolve?, foldCase_foldCase]

theorem isSupported_of_some {decoder : KeyDecoder} (h : r.resolve? name = some decoder) :
    r.isSupported name = true := by
  rw [isSupported, h, Option.isSome_some]

theorem isSupported_of_none (h : r.resolve? name = none) : r.isSupported name = false := by
  rw [isSupported, h, Option.isSome_none]

/-- Names go to one of two sides, one by one: to the first in lower case if they can be decoded, and
otherwise to the second as they are. -/
inductive Partitions (r : Registry) : List String → List String → List String → Prop
  | nil : Partitions r [] [] []
  | known {name : String} {names parsed unsupported : List String} {decoder : KeyDecoder}
      (h : r.resolve? name = some decoder) (rest : Partitions r names parsed unsupported) :
      Partitions r (name :: names) (foldCase name :: parsed) unsupported
  | unknown {name : String} {names parsed unsupported : List String}
      (h : r.resolve? name = none) (rest : Partitions r names parsed unsupported) :
      Partitions r (name :: names) parsed (name :: unsupported)

/-- The two sides of some names. -/
theorem partitions_iff :
    r.Partitions names parsed unsupported ↔
      (names.filter r.isSupported).map foldCase = parsed ∧
        (names.filter fun name => !r.isSupported name) = unsupported := by
  constructor
  · intro h
    induction h with
    | nil => exact ⟨rfl, rfl⟩
    | @known name names _ _ decoder hknown _ ih =>
        obtain ⟨rfl, rfl⟩ := ih
        simp [isSupported_of_some hknown]
    | @unknown name names _ _ hunknown _ ih =>
        obtain ⟨rfl, rfl⟩ := ih
        simp [isSupported_of_none hunknown]
  · rintro ⟨rfl, rfl⟩
    induction names with
    | nil => exact .nil
    | cons name names ih =>
        cases hname : r.resolve? name with
        | some decoder =>
            simpa [isSupported_of_some hname] using Partitions.known hname ih
        | none =>
            simpa [isSupported_of_none hname] using Partitions.unknown hname ih

/-- **What becomes of a list**, told name by name. -/
theorem partitionNames_eq_iff :
    r.partitionNames list = (parsed, unsupported) ↔
      r.Partitions (listedNames list) parsed unsupported := by
  rw [partitions_iff, partitionNames, Prod.mk.injEq]

namespace Partitions

variable (h : r.Partitions names parsed unsupported)

include h

/-- The first side goes to the first side. -/
theorem of_parsed : r.Partitions parsed parsed [] := by
  induction h with
  | nil => exact .nil
  | @known name _ _ _ _ hknown _ ih =>
      have hfolded := Partitions.known ((r.resolve?_foldCase name).trans hknown) ih
      rwa [foldCase_foldCase] at hfolded
  | unknown _ _ ih => exact ih

/-- The second side goes to the second side. -/
theorem of_unsupported : r.Partitions unsupported [] unsupported := by
  induction h with
  | nil => exact .nil
  | known _ _ ih => exact ih
  | unknown hunknown _ ih => exact .unknown hunknown ih

theorem isListed (hnames : ∀ name ∈ names, IsListed name) :
    (∀ name ∈ parsed, IsListed name) ∧ ∀ name ∈ unsupported, IsListed name := by
  induction h with
  | nil => exact ⟨hnames, hnames⟩
  | known _ _ ih =>
      rw [List.forall_mem_cons] at hnames
      obtain ⟨hparsed, hunsupported⟩ := ih hnames.2
      exact ⟨List.forall_mem_cons.2 ⟨hnames.1.foldCase, hparsed⟩, hunsupported⟩
  | unknown _ _ ih =>
      rw [List.forall_mem_cons] at hnames
      obtain ⟨hparsed, hunsupported⟩ := ih hnames.2
      exact ⟨hparsed, List.forall_mem_cons.2 ⟨hnames.1, hunsupported⟩⟩

end Partitions

/-- **No name of a list is lost**, each goes to its side in order, and either side written as a list
is parted into itself and nothing. -/
theorem partitionNames_stable (r : Registry) (list : String) :
    ∃ items parsed unsupported, ItemsOf list items ∧
      r.partitionNames list = (parsed, unsupported) ∧
      r.Partitions ((items.map fun item => trim (String.ofList item)).filter (· != ""))
        parsed unsupported ∧
      r.partitionNames (joinNames parsed) = (parsed, []) ∧
      r.partitionNames (joinNames unsupported) = ([], unsupported) := by
  rcases hresult : r.partitionNames list with ⟨parsed, unsupported⟩
  have hpart := partitionNames_eq_iff.1 hresult
  have hnames : ((splitOn ',' list.toList).map fun item => trim (String.ofList item)).filter
      (· != "") = listedNames list := by
    simp [listedNames, trim]
  obtain ⟨hparsed, hunsupported⟩ := hpart.isListed fun _ => isListed_of_mem_listedNames
  refine ⟨splitOn ',' list.toList, parsed, unsupported, itemsOf_iff.2 rfl, rfl, ?_, ?_, ?_⟩
  · rwa [hnames]
  · rw [partitionNames_eq_iff, listedNames_joinNames hparsed]
    exact hpart.of_parsed
  · rw [partitionNames_eq_iff, listedNames_joinNames hunsupported]
    exact hpart.of_unsupported

example : Registry.empty.partitionNames " ssh-RSA,x ,, ,ssh-dss,X,SSH-rsa" =
    (["ssh-rsa", "ssh-dss", "ssh-rsa"], ["x", "X"]) := by decide +kernel

end Registry

end SshKeys
