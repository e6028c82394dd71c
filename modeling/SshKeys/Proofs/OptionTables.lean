/-
**Options in two collections.**

Options may be kept as the values that belong to their names, and the names of those that are flags.
A flag is then put into both collections, one after the other, and an option that is refused has
touched neither of them.  So the two stay in step: they are always the two sides of one list of
options, in which a flag and its value cannot come apart.

Main definitions:

* `SshKeys.OptionTable` — values under names, and the names of flags;
* `SshKeys.OptionTable.insert`, `SshKeys.OptionTable.insertFlag` — one more option;
* `SshKeys.LoginOptions.table` — the two sides of a list of options;
* `SshKeys.OptionTable.Reads` — what becomes of a text;
* `SshKeys.OptionTable.InStep` — what the two collections may be relied on for.

Main results:

* `SshKeys.LoginOptions.outcome_add` — one more option, in one collection and in two;
* `SshKeys.OptionTable.ofText_eq` — texts are read alike;
* `SshKeys.OptionTable.stay_in_step` — **no option is lost, doubled or taken for another**.
-/

import SshKeys.Proofs.OptionItems
import SshKeys.Proofs.Reads

set_option relaxedAutoImplicit false
set_option autoImplicit false

namespace SshKeys

/-! ### Two collections -/

/-- Options in two collections, both in order. -/
structure OptionTable where
  /-- The values under the names. -/
  values : List (String × String)
  /-- The names of the flags. -/
  flags : List String
  deriving DecidableEq

namespace OptionTable

/-- No options. -/
def empty : OptionTable := ⟨[], []⟩

/-- The value of an option, whatever the case of its name. -/
def get? (t : OptionTable) (name : String) : Option String := t.values.lookup (foldCase name)

/-- Whether an option is there as a flag, whatever the case of its name. -/
def isFlag (t : OptionTable) (name : String) : Bool := t.flags.contains (foldCase name)

/-- Puts a value under a name, in place of the one that is there. -/
def putValue (name value : String) : List (String × String) → List (String × String)
  | [] => [(name, value)]
  | entry :: rest =>
    if name < entry.1 then (name, value) :: entry :: rest
    else if name = entry.1 then (name, value) :: rest
    else entry :: putValue name value rest

/-- Puts a name among others, unless it is there. -/
def putName (name : String) : List String → List String
  | [] => [name]
  | first :: rest =>
    if name < first then name :: first :: rest
    else if name = first then first :: rest
    else first :: putName name rest

/-- One more setting, whose name must not be there yet. -/
def insert (name value : String) : EStateM Error OptionTable Unit := do
  let t ← get
  if (t.values.lookup (foldCase name)).isSome then throw (.duplicateOption (foldCase name))
  else set { t with values := putValue (foldCase name) value t.values }

/-- One more flag: its value is put under its name, and then the name among the flags. -/
def insertFlag (name : String) : EStateM Error OptionTable Unit := do
  insert name "true"
  modify fun t => { t with flags := putName (foldCase name) t.flags }

/-- One more option. -/
def add : LoginOption → EStateM Error OptionTable Unit
  | .setting name value => insert name value
  | .flag name => insertFlag name

/-- The options a text spells; if one of them is refused, so are all. -/
def ofText (text : String) : Except Error OptionTable :=
  let (result, t) :=
    outcome (forM ((LoginOptions.items text).map LoginOption.ofItem) add empty)
  (fun _ => t) <$> result

/-- The options after one more; whatever a refused option has done to them stays. -/
def after (t : OptionTable) (option : LoginOption) : OptionTable := (outcome (add option t)).2

/-- The options after some more. -/
def run (t : OptionTable) (options : List LoginOption) : OptionTable := options.foldl after t

/-- What an option that is added becomes in the two collections. -/
def put (t : OptionTable) (option : LoginOption) : OptionTable where
  values := putValue option.name option.value t.values
  flags := if option.isFlag then putName option.name t.flags else t.flags

/-- **One more option** is refused if its name is there, and otherwise put into both
collections. -/
theorem add_apply (option : LoginOption) (t : OptionTable) :
    add option t =
      if (t.values.lookup option.folded.name).isSome then
        .error (.duplicateOption option.folded.name) t
      else .ok () (t.put option.folded) := by
  have hinsert : ∀ name value, insert name value t =
      if (t.values.lookup (foldCase name)).isSome then
        .error (.duplicateOption (foldCase name)) t
      else .ok () { t with values := putValue (foldCase name) value t.values } := by
    intro name value
    change (if _ then _ else _ : EStateM Error OptionTable Unit) t = _
    split <;> rfl
  cases option with
  | setting name value => exact hinsert name value
  | flag name =>
      rw [add, insertFlag, bind_apply, hinsert, LoginOption.folded, LoginOption.name]
      cases (t.values.lookup (foldCase name)).isSome <;> rfl

end OptionTable

/-! ### The two sides of a list -/

namespace LoginOptions

variable {o o' : LoginOptions} {option : LoginOption} {options : List LoginOption} {name : String}

/-- The values of the options under their names, and the names of those that are flags. -/
def table (o : LoginOptions) : OptionTable where
  values := o.options.map fun option => (option.name, option.value)
  flags := names (o.options.filter LoginOption.isFlag)

/-- The options after one more, if it is not refused. -/
def after (o : LoginOptions) (option : LoginOption) : LoginOptions :=
  match o.add option with
  | .ok o' => o'
  | .error _ => o

/-- The options after some more. -/
def run (o : LoginOptions) (options : List LoginOption) : LoginOptions := options.foldl after o

theorem lookup_table (o : LoginOptions) (name : String) :
    o.table.values.lookup name = (o.find? name).map LoginOption.value := by
  obtain ⟨options⟩ := o
  simp only [table, find?]
  induction options with
  | nil => rfl
  | cons first options ih =>
      rw [List.map_cons, List.lookup_cons, List.find?_cons, BEq.comm]
      cases first.name == name with
      | true => rfl
      | false => exact ih

theorem get?_table (o : LoginOptions) (name : String) : o.table.get? name = o.get? name :=
  o.lookup_table (foldCase name)

theorem putValue_table (hnew : ∀ other ∈ options, other.name ≠ option.name) :
    OptionTable.putValue option.name option.value
        (options.map fun option => (option.name, option.value)) =
      (place option options).map fun option => (option.name, option.value) := by
  induction options with
  | nil => rfl
  | cons first options ih =>
      obtain ⟨hfirst, hrest⟩ := List.forall_mem_cons.1 hnew
      rw [List.map_cons, OptionTable.putValue, place]
      split
      · rfl
      · rw [if_neg (Ne.symm hfirst), ih hrest]
        rfl

/-- A name that comes first is put first. -/
theorem putName_of_lt {names : List String} (h : ∀ other ∈ names, name < other) :
    OptionTable.putName name names = name :: names := by
  cases names with
  | nil => rfl
  | cons first rest => rw [OptionTable.putName, if_pos (h first List.mem_cons_self)]

theorem putName_table (h : Ordered ⟨options⟩) (hnew : ∀ other ∈ options, other.name ≠ option.name)
    (hflag : option.isFlag = true) :
    OptionTable.putName option.name (names (options.filter LoginOption.isFlag)) =
      names ((place option options).filter LoginOption.isFlag) := by
  induction options with
  | nil => simp [place, hflag, names, OptionTable.putName]
  | cons first options ih =>
      obtain ⟨hfirst, hrest⟩ := List.forall_mem_cons.1 hnew
      obtain ⟨hbefore, hordered⟩ := List.pairwise_cons.1 h
      rw [place]
      split
      · next hlt =>
          rw [List.filter_cons_of_pos hflag]
          refine putName_of_lt fun other hother => ?_
          obtain ⟨flag, hmem, rfl⟩ := List.mem_map.1 hother
          rcases List.mem_cons.1 (List.mem_filter.1 hmem).1 with rfl | hlater
          · exact hlt
          · exact String.lt_trans hlt (hbefore flag hlater)
      · next hnot =>
          cases hisFlag : first.isFlag with
          | true =>
              rw [List.filter_cons_of_pos hisFlag, List.filter_cons_of_pos hisFlag, names,
                List.map_cons, OptionTable.putName, if_neg hnot, if_neg (Ne.symm hfirst)]
              exact congrArg (List.cons _) (ih hordered hrest)
          | false =>
              have hskip : ¬first.isFlag = true := Bool.eq_false_iff.1 hisFlag
              rw [List.filter_cons_of_neg hskip, List.filter_cons_of_neg hskip]
              exact ih hordered hrest

/-- A setting is none of the flags. -/
theorem filter_place (hflag : option.isFlag = false) :
    (place option options).filter LoginOption.isFlag = options.filter LoginOption.isFlag := by
  have hskip : ¬option.isFlag = true := Bool.eq_false_iff.1 hflag
  induction options with
  | nil => rw [place, List.filter_cons_of_neg hskip]
  | cons first options ih =>
      rw [place]
      split
      · rw [List.filter_cons_of_neg hskip]
      · rw [List.filter_cons, List.filter_cons, ih]

theorem table_place (h : o.Ordered) (hnew : ∀ other ∈ o.options, other.name ≠ option.name) :
    table ⟨place option o.options⟩ = o.table.put option := by
  simp only [table, OptionTable.put, putValue_table hnew]
  cases hflag : option.isFlag with
  | true => rw [if_pos rfl, putName_table h hnew hflag]
  | false => rw [if_neg (by decide), filter_place hflag]

theorem mem_flags_iff : name ∈ o.table.flags ↔ LoginOption.flag name ∈ o.options := by
  constructor
  · intro hname
    obtain ⟨option, hoption, rfl⟩ := List.mem_map.1 hname
    obtain ⟨hmem, hflag⟩ := List.mem_filter.1 hoption
    cases option with
    | flag name => exact hmem
    | setting name value => cases hflag
  · intro hmem
    exact List.mem_map.2 ⟨.flag name, List.mem_filter.2 ⟨hmem, rfl⟩, rfl⟩

/-! ### One more option -/

/-- What becomes of two collections if a list of options has this result. -/
def answer (o : LoginOptions) : Except Error LoginOptions → Except Error Unit × OptionTable
  | .ok o' => (.ok (), o'.table)
  | .error error => (.error error, o.table)

/-- **One more option**, in one collection and in two. -/
theorem outcome_add (h : o.Ordered) (option : LoginOption) :
    outcome (OptionTable.add option o.table) = o.answer (o.add option) := by
  have hthere : (o.table.values.lookup option.folded.name).isSome =
      o.containsName option.folded.name := by
    rw [lookup_table, Option.isSome_map, containsName]
  rw [OptionTable.add_apply, hthere, add]
  cases hnew : o.containsName option.folded.name with
  | true => rfl
  | false =>
      rw [← table_place h (containsName_eq_false_iff.1 hnew)]
      rfl

theorem after_table (h : o.Ordered) (option : LoginOption) :
    (o.after option).table = o.table.after option := by
  rw [OptionTable.after, outcome_add h, after]
  cases o.add option <;> rfl

/-! ### Options in order -/

theorem orderly_of_ofText {text : String} (h : ofText text = .ok o) : o.Orderly := by
  refine ⟨ordered_of_ofText h, fun option hoption => ?_⟩
  obtain ⟨item, -, rfl⟩ := (mem_ofText_iff h).1 hoption
  rw [LoginOption.name_folded, foldCase_foldCase]

namespace Orderly

theorem after (h : o.Orderly) (option : LoginOption) : (o.after option).Orderly := by
  rw [LoginOptions.after]
  cases hadd : o.add option with
  | ok o' => exact h.add hadd
  | error error => exact h

theorem run (h : o.Orderly) (options : List LoginOption) : (o.run options).Orderly := by
  induction options generalizing o with
  | nil => exact h
  | cons option options ih => exact ih (h.after option)

/-- **Options in one collection and in two**, whatever is added. -/
theorem run_table (h : o.Orderly) (options : List LoginOption) :
    (o.run options).table = o.table.run options := by
  induction options generalizing o with
  | nil => rfl
  | cons option options ih =>
      rw [OptionTable.run, List.foldl_cons, ← after_table h.ordered option]
      exact ih (h.after option)

variable (h : o.Orderly)

include h

/-- The option that has a name is the only one. -/
theorem find?_eq_some_iff :
    o.find? name = some option ↔ option ∈ o.options ∧ option.name = name := by
  constructor
  · intro hfound
    exact ⟨List.mem_of_find?_eq_some hfound, by simpa using List.find?_some hfound⟩
  · rintro ⟨hmem, rfl⟩
    cases hfound : o.find? option.name with
    | none => simpa using List.find?_eq_none.1 hfound option hmem
    | some other =>
        have hname : other.name = option.name := by simpa using List.find?_some hfound
        have hother := List.mem_of_find?_eq_some hfound
        exact congrArg some (h.ordered.eq_of_name hother hmem hname)

theorem isFlag_table (name : String) : o.table.isFlag name = o.isFlag name := by
  rw [Bool.eq_iff_iff, OptionTable.isFlag, List.contains_iff_mem, mem_flags_iff, isFlag,
    Option.any_eq_true]
  constructor
  · intro hmem
    exact ⟨.flag (foldCase name), h.find?_eq_some_iff.2 ⟨hmem, rfl⟩, rfl⟩
  · rintro ⟨option, hfound, hflag⟩
    obtain ⟨hmem, hname⟩ := h.find?_eq_some_iff.1 hfound
    cases option with
    | flag other =>
        obtain rfl : other = foldCase name := hname
        exact hmem
    | setting other value => cases hflag

end Orderly

/-! ### Reading -/

/-- Texts are read alike, in one collection and in two. -/
theorem outcome_forM (h : o.Orderly) (options : List LoginOption) :
    match options.foldlM LoginOptions.add o with
    | .ok o' => outcome (forM options OptionTable.add o.table) = (.ok (), o'.table)
    | .error error => (outcome (forM options OptionTable.add o.table)).1 = .error error := by
  induction options generalizing o with
  | nil => rfl
  | cons option options ih =>
      have hadd := outcome_add h.ordered option
      rw [List.foldlM_cons, List.forM_cons, bind_apply]
      cases hnext : o.add option with
      | ok o' =>
          rw [hnext] at hadd
          rw [outcome_eq_ok.1 hadd]
          exact ih (h.add hnext)
      | error error =>
          rw [hnext] at hadd
          rw [outcome_eq_error.1 hadd]
          rfl

end LoginOptions

namespace OptionTable

open LoginOptions

/-- Texts are read alike, in one collection and in two. -/
theorem ofText_eq (text : String) : ofText text = table <$> LoginOptions.ofText text := by
  have hempty : LoginOptions.empty.table = empty := rfl
  have hread := outcome_forM (o := .empty) ⟨List.Pairwise.nil, nofun⟩
    ((items text).map LoginOption.ofItem)
  rw [hempty] at hread
  rw [ofText, LoginOptions.ofText]
  cases hfold : ((items text).map LoginOption.ofItem).foldlM LoginOptions.add .empty with
  | ok o =>
      rw [hfold] at hread
      rw [hread]
      rfl
  | error error =>
      rw [hfold] at hread
      change _ <$> (outcome _).1 = _
      rw [hread]
      rfl

theorem ofText_eq_ok_iff {text : String} {t : OptionTable} :
    ofText text = .ok t ↔ ∃ o, LoginOptions.ofText text = .ok o ∧ o.table = t := by
  rw [ofText_eq, map_eq_ok_iff]

/-- **What becomes of a text.**  It is split in one way, and read unless a name comes twice; then it
is refused for the first name that has come before.  Otherwise each item has become an option, and
those without `=` are flags. -/
structure Reads (text : String) : Prop where
  split : ∀ parts, SplitsInto ',' text.toList parts ↔ splitUnquoted ',' text.toList = parts
  accepted : (∃ t, ofText text = .ok t) ↔ (itemKeys text).Nodup
  refused : ∀ error, ofText text = .error error ↔
    ∃ name, FirstRepeat (itemKeys text) name ∧ error = .duplicateOption name
  values : ∀ t, ofText text = .ok t → t.values.Perm
    ((items text).map fun item => (LoginOption.itemKey item, LoginOption.itemValue item))
  flags : ∀ t, ofText text = .ok t → t.flags.Perm
    (((items text).filter fun item => '=' ∉ item).map LoginOption.itemKey)

/-- What two collections may be relied on for. -/
structure InStep (t : OptionTable) : Prop where
  /-- No name has two values. -/
  ordered : t.values.Pairwise fun entry other => entry.1 < other.1
  lower : ∀ entry ∈ t.values, foldCase entry.1 = entry.1
  /-- A flag has the value `true`. -/
  flag : ∀ name ∈ t.flags, (name, "true") ∈ t.values
  get?_iff : ∀ name value, t.get? name = some value ↔ (foldCase name, value) ∈ t.values
  isFlag_iff : ∀ name, t.isFlag name = true ↔ foldCase name ∈ t.flags
  /-- The case of a name does not matter. -/
  caseless : ∀ name other, foldCase name = foldCase other →
    t.get? name = t.get? other ∧ t.isFlag name = t.isFlag other
  /-- An option that is refused has changed nothing. -/
  refused : ∀ option error t', outcome (add option t) = (.error error, t') →
    t' = t ∧ error = .duplicateOption (foldCase option.name) ∧
      foldCase option.name ∈ t.values.map Prod.fst
  /-- An option that is not refused is added, and nothing else is. -/
  added : ∀ option t', outcome (add option t) = (.ok (), t') →
    t'.values.Perm ((foldCase option.name, option.value) :: t.values) ∧
      t'.flags.Perm (if option.isFlag then foldCase option.name :: t.flags else t.flags)

/-- The two sides of options in order are in step. -/
theorem inStep_table {o : LoginOptions} (h : o.Orderly) : o.table.InStep := by
  constructor
  case ordered => exact List.pairwise_map.2 h.ordered
  case lower =>
    intro entry hentry
    obtain ⟨option, hoption, rfl⟩ := List.mem_map.1 hentry
    exact h.lower option hoption
  case flag =>
    intro name hname
    exact List.mem_map.2 ⟨.flag name, mem_flags_iff.1 hname, rfl⟩
  case get?_iff =>
    intro name value
    rw [get?_table, LoginOptions.get?, Option.map_eq_some_iff]
    simp only [h.find?_eq_some_iff, table, List.mem_map, Prod.mk.injEq, and_assoc]
  case isFlag_iff => exact fun name => List.contains_iff_mem
  case caseless =>
    intro name other hsame
    rw [get?, get?, isFlag, isFlag, hsame]
    exact ⟨rfl, rfl⟩
  case refused =>
    intro option error t' hrefused
    rw [outcome_add h.ordered] at hrefused
    cases hadd : o.add option with
    | ok o' =>
        rw [hadd] at hrefused
        cases hrefused
    | error error =>
        rw [hadd] at hrefused
        cases hrefused
        obtain ⟨hthere, rfl⟩ := add_eq_error_iff.1 hadd
        rw [LoginOption.name_folded] at hthere ⊢
        exact ⟨rfl, rfl, by simpa [table, names] using hthere⟩
  case added =>
    intro option t' hadded
    rw [outcome_add h.ordered] at hadded
    cases hadd : o.add option with
    | error error =>
        rw [hadd] at hadded
        cases hadded
    | ok o' =>
        rw [hadd] at hadded
        cases hadded
        obtain ⟨-, rfl⟩ := add_eq_ok_iff.1 hadd
        have hplaced := perm_place option.folded o.options
        have hvalues := hplaced.map fun option => (option.name, option.value)
        have hflags := (hplaced.filter LoginOption.isFlag).map LoginOption.name
        cases option with
        | flag name => exact ⟨hvalues, hflags⟩
        | setting name value => exact ⟨hvalues, hflags⟩

theorem reads (text : String) : Reads text := by
  have htrim : ∀ item ∈ items text, trimChars item = item := fun _ => trimChars_of_mem_items
  constructor
  case split => exact fun parts => splitsInto_iff (by decide)
  case accepted =>
    rw [← exists_ofText_iff]
    constructor
    · rintro ⟨t, ht⟩
      obtain ⟨o, ho, -⟩ := ofText_eq_ok_iff.1 ht
      exact ⟨o, ho⟩
    · rintro ⟨o, ho⟩
      exact ⟨o.table, ofText_eq_ok_iff.2 ⟨o, ho, rfl⟩⟩
  case refused =>
    intro error
    rw [← ofText_eq_error_iff, ofText_eq]
    cases LoginOptions.ofText text <;> simp
  case values =>
    intro t ht
    obtain ⟨o, ho, rfl⟩ := ofText_eq_ok_iff.1 ht
    have hvalues := (perm_of_ofText ho).map fun option => (option.name, option.value)
    have hspelled : ((spelled text).map fun option => (option.name, option.value)) =
        (items text).map fun item => (LoginOption.itemKey item, LoginOption.itemValue item) := by
      rw [spelled, List.map_map]
      refine List.map_congr_left fun item hitem => Prod.ext ?_ ?_
      · exact LoginOption.name_folded_ofItem (htrim item hitem)
      · exact LoginOption.value_folded_ofItem (htrim item hitem)
    rwa [hspelled] at hvalues
  case flags =>
    intro t ht
    obtain ⟨o, ho, rfl⟩ := ofText_eq_ok_iff.1 ht
    have hflags := ((perm_of_ofText ho).filter LoginOption.isFlag).map LoginOption.name
    have hspelled : ((spelled text).filter LoginOption.isFlag).map LoginOption.name =
        ((items text).filter fun item => '=' ∉ item).map LoginOption.itemKey := by
      have hfilter : (items text).filter (LoginOption.isFlag ∘ fun item =>
          (LoginOption.ofItem item).folded) = (items text).filter fun item => '=' ∉ item :=
        List.filter_congr fun item hitem => LoginOption.isFlag_folded_ofItem (htrim item hitem)
      rw [spelled, List.filter_map, hfilter, List.map_map]
      refine List.map_congr_left fun item hitem => ?_
      exact LoginOption.name_folded_ofItem (htrim item (List.mem_filter.1 hitem).1)
    rwa [hspelled] at hflags

/-- **No option is lost, doubled or taken for another.**  What becomes of a text is what its items
say, and whatever is added to it afterwards, the two collections stay in step.  They are the two
sides of what becomes of the text as a list of options, with the same additions. -/
theorem stay_in_step (text : String) :
    Reads text ∧ (∀ t, ofText text = .ok t → ∀ options, InStep (t.run options)) ∧
      ofText text = table <$> LoginOptions.ofText text ∧
      ∀ o, LoginOptions.ofText text = .ok o → ∀ options,
        (o.run options).table = o.table.run options ∧ ∀ name,
          (o.run options).get? name = (o.table.run options).get? name ∧
          (o.run options).isFlag name = (o.table.run options).isFlag name := by
  refine ⟨reads text, ?_, ofText_eq text, ?_⟩
  · intro t ht options
    obtain ⟨o, ho, rfl⟩ := ofText_eq_ok_iff.1 ht
    have h := orderly_of_ofText ho
    rw [← h.run_table]
    exact inStep_table (h.run options)
  · intro o ho options
    have h := orderly_of_ofText ho
    refine ⟨h.run_table options, fun name => ?_⟩
    rw [← h.run_table]
    exact ⟨(get?_table _ name).symm, ((h.run options).isFlag_table name).symm⟩

/-- A restriction with commas in quotes and a flag; a flag that is there already is refused, and a
setting with the value `true` is no flag. -/
theorem stay_in_step_no_pty :
    let text := "From=\"10.0.0.1,10.0.0.2\", No-Pty ,"
    let added := [.flag "no-pTY", .setting "PermitOpen" "true"]
    ∃ t, ofText text = .ok t ∧ InStep (t.run added) ∧
      t.run added = ⟨[("from", "10.0.0.1,10.0.0.2"), ("no-pty", "true"), ("permitopen", "true")],
        ["no-pty"]⟩ := by
  intro text added
  have hread : ofText text =
      .ok ⟨[("from", "10.0.0.1,10.0.0.2"), ("no-pty", "true")], ["no-pty"]⟩ := by
    decide +kernel
  exact ⟨_, hread, (stay_in_step text).2.1 _ hread added, by decide +kernel⟩

end OptionTable

end SshKeys
