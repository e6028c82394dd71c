/-
**Extensions as a table of names.**

A registry may as well be kept as a table that has a row for each name, with the decoder object that
was registered under it.  Then two objects may be alike and still not be the same: a decoder is
removed by removing all rows with the very object that is found in one of them.  The table and the
list of extensions do the same, because all rows of an object come and go together.

Main definitions:

* `SshKeys.NameTable` — names with the objects they are registered for;
* `SshKeys.NameTable.Lists` — the same objects in a table and in a registry.

Main results:

* `SshKeys.NameTable.Lists.after` — each command keeps the two alike;
* `SshKeys.NameTable.run_agrees` — **a table and a registry answer alike after every run**, and
  each object holds all the names it claims or none.
-/

import SshKeys.Proofs.RegistryRuns

set_option relaxedAutoImplicit false
set_option autoImplicit false

namespace SshKeys

/-- Names in lower case, each with the object that is registered under it. -/
structure NameTable (Object : Type) where
  rows : List (String × Object)

namespace NameTable

variable {Object : Type} (decoderOf : Object → KeyDecoder)

/-! ### The table -/

/-- The table without rows. -/
def empty : NameTable Object := ⟨[]⟩

/-- The object under a name. -/
def find? (t : NameTable Object) (name : String) : Option Object :=
  (t.rows.find? fun row => row.1 == name).map Prod.snd

/-- A row for each name that an object claims. -/
def rowsOf (object : Object) : List (String × Object) :=
  (decoderOf object).claims.map fun name => (name, object)

/-- Registers an object under every name it claims, if it claims none twice and none is taken. -/
def register (t : NameTable Object) (object : Object) : Option (NameTable Object) :=
  if (decoderOf object).claims.Nodup ∧
      ∀ name ∈ (decoderOf object).claims, name ∉ Registry.builtinNames ∧ t.find? name = none then
    some ⟨rowsOf decoderOf object ++ t.rows⟩
  else none

/-- Removes all rows with the very object that a name is registered for. -/
def unregister [DecidableEq Object] (t : NameTable Object) (name : String) :
    Option (Object × NameTable Object) :=
  (t.find? (foldCase name)).map fun object =>
    (object, ⟨t.rows.filter fun row => row.2 ≠ object⟩)

/-- A command to a table. -/
inductive Command (Object : Type) where
  | register (object : Object)
  | unregister (name : String)

/-- The table after a command; one that fails changes nothing. -/
def after [DecidableEq Object] (t : NameTable Object) : Command Object → NameTable Object
  | .register object => (t.register decoderOf object).getD t
  | .unregister name => ((t.unregister name).map Prod.snd).getD t

/-- The table after some commands. -/
def run [DecidableEq Object] (t : NameTable Object) (commands : List (Command Object)) :
    NameTable Object :=
  commands.foldl (after decoderOf) t

/-- The command to a registry. -/
def Command.toRegistry : Command Object → Registry.Command
  | .register object => .register (decoderOf object)
  | .unregister name => .unregister name

/-! ### The same objects -/

/-- The rows of a table are the names of the extensions of a registry, object by object. -/
structure Lists (objects : List Object) (t : NameTable Object) (r : Registry) : Prop where
  rows_eq : t.rows = objects.flatMap (rowsOf decoderOf)
  extensions_eq : r.extensions =
    objects.map fun object => ⟨(decoderOf object).claims, decoderOf object⟩
  disjoint : r.Disjoint

/-- Removing the rows of an object leaves the rows of the others. -/
theorem filter_rows [DecidableEq Object] (objects : List Object) (object : Object) :
    (objects.flatMap (rowsOf decoderOf)).filter (fun row => row.2 ≠ object) =
      (objects.filter fun other => other ≠ object).flatMap (rowsOf decoderOf) := by
  induction objects with
  | nil => rfl
  | cons first objects ih =>
      rw [List.flatMap_cons, List.filter_append, ih]
      by_cases hsame : first = object
      · have hnone : (rowsOf decoderOf first).filter (fun row => row.2 ≠ object) = [] := by
          simp [rowsOf, hsame]
        rw [hnone, List.filter_cons_of_neg (by simpa using hsame), List.nil_append]
      · have hall : (rowsOf decoderOf first).filter (fun row => row.2 ≠ object) =
            rowsOf decoderOf first := by
          simp [rowsOf, hsame]
        rw [hall, List.filter_cons_of_pos (by simpa using hsame), List.flatMap_cons]

namespace Lists

variable {decoderOf} {objects : List Object} {t : NameTable Object} {r : Registry} {name : String}
  {object : Object} (h : Lists decoderOf objects t r)

include h

theorem nodup : (objects.flatMap fun object => (decoderOf object).claims).Nodup := by
  have hnodup := h.disjoint.nodup
  rwa [h.extensions_eq, List.flatMap_map] at hnodup

/-- An object is found under the names it claims. -/
theorem find?_eq_some_iff :
    t.find? name = some object ↔ object ∈ objects ∧ name ∈ (decoderOf object).claims := by
  have hrow : ∀ other, (name, other) ∈ t.rows ↔
      other ∈ objects ∧ name ∈ (decoderOf other).claims := by
    intro other
    rw [h.rows_eq, List.mem_flatMap]
    constructor
    · rintro ⟨holder, hholder, hrow⟩
      obtain ⟨name', hname, hsame⟩ := List.mem_map.1 hrow
      obtain ⟨rfl, rfl⟩ := Prod.mk.inj hsame
      exact ⟨hholder, hname⟩
    · rintro ⟨hother, hname⟩
      exact ⟨other, hother, List.mem_map_of_mem hname⟩
  constructor
  · intro hfound
    obtain ⟨⟨name', other⟩, hrow', rfl⟩ := Option.map_eq_some_iff.1 hfound
    obtain rfl : name' = name := by simpa using List.find?_some hrow'
    exact (hrow other).1 (List.mem_of_find?_eq_some hrow')
  · rintro ⟨hobject, hname⟩
    cases hfound : t.rows.find? fun row => row.1 == name with
    | none =>
        have hnone := List.find?_eq_none.1 hfound (name, object) ((hrow object).2 ⟨hobject, hname⟩)
        simp at hnone
    | some row =>
        obtain ⟨name', other⟩ := row
        obtain rfl : name' = name := by simpa using List.find?_some hfound
        obtain ⟨hother, hheld⟩ := (hrow other).1 (List.mem_of_find?_eq_some hfound)
        -- two objects that claim one name are the same object
        have hfirst := Registry.find?_eq_some_of_nodup h.nodup hobject hname
        rw [Registry.find?_eq_some_of_nodup h.nodup hother hheld] at hfirst
        rw [find?, hfound]
        exact hfirst

/-- The table and the registry give the same decoder for a name. -/
theorem find?_agrees :
    (t.find? name).map decoderOf = (r.extension? name).map Extension.decoder := by
  cases hfound : t.find? name with
  | none =>
      have hnone : r.extension? name = none := by
        rw [Registry.extension?_eq_none_iff, h.extensions_eq]
        intro extension hmem hname
        obtain ⟨object, hobject, rfl⟩ := List.mem_map.1 hmem
        rw [h.find?_eq_some_iff.2 ⟨hobject, hname⟩] at hfound
        exact absurd hfound nofun
      rw [hnone]
      rfl
  | some object =>
      obtain ⟨hobject, hname⟩ := h.find?_eq_some_iff.1 hfound
      have hmem : (⟨(decoderOf object).claims, decoderOf object⟩ : Extension) ∈ r.extensions := by
        rw [h.extensions_eq]
        exact List.mem_map_of_mem hobject
      rw [h.disjoint.extension?_eq_some_iff.2 ⟨hmem, hname⟩]
      rfl

theorem find?_eq_none_iff : t.find? name = none ↔ name ∉ r.extensionNames := by
  rw [← Registry.extension?_eq_none_iff_not_mem, ← Option.map_eq_none_iff (f := decoderOf),
    h.find?_agrees, Option.map_eq_none_iff]

/-! ### The same commands -/

/-- An object is registered in the table exactly if its decoder is registered in the registry. -/
theorem register_agrees (object : Object) :
    (t.register decoderOf object = none ∧ ∃ error, r.register (decoderOf object) = .error error) ∨
      ∃ t' r', t.register decoderOf object = some t' ∧ r.register (decoderOf object) = .ok r' ∧
        Lists decoderOf (object :: objects) t' r' := by
  have hfree : ((decoderOf object).claims.Nodup ∧
      ∀ name ∈ (decoderOf object).claims, name ∉ Registry.builtinNames ∧ t.find? name = none) ↔
        (∀ name ∈ (decoderOf object).claims,
          name ∉ Registry.builtinNames ∧ name ∉ r.extensionNames) ∧
        (decoderOf object).claims.Nodup := by
    simp only [h.find?_eq_none_iff]
    exact and_comm
  rw [register]
  split
  · next hcondition =>
      have hregister := Registry.register_eq_ok_iff.2 ⟨hfree.1 hcondition, rfl⟩
      refine Or.inr ⟨_, _, rfl, hregister, ?_, ?_, h.disjoint.register hregister⟩
      · rw [List.flatMap_cons, h.rows_eq]
      · rw [List.map_cons, h.extensions_eq]
  · next hcondition =>
      refine Or.inl ⟨rfl, ?_⟩
      cases hregister : r.register (decoderOf object) with
      | error error => exact ⟨error, rfl⟩
      | ok r' => exact absurd (hfree.2 (Registry.register_eq_ok_iff.1 hregister).1) hcondition

/-- Removing the very object that is found removes the extension that holds the name. -/
theorem unregister_agrees [DecidableEq Object] (name : String) :
    (t.unregister name = none ∧ r.unregister name = none) ∨
      ∃ object t' r', t.unregister name = some (object, t') ∧
        r.unregister name = some (decoderOf object, r') ∧
        Lists decoderOf (objects.filter fun other => other ≠ object) t' r' := by
  have hagree : (t.find? (foldCase name)).map decoderOf =
      (r.extension? (foldCase name)).map Extension.decoder := h.find?_agrees
  cases hfound : t.find? (foldCase name) with
  | none =>
      left
      rw [hfound] at hagree
      have hnone := Option.map_eq_none_iff.1 hagree.symm
      rw [NameTable.unregister, hfound, Registry.unregister, hnone]
      exact ⟨rfl, rfl⟩
  | some object =>
      right
      obtain ⟨hobject, hname⟩ := h.find?_eq_some_iff.1 hfound
      rw [hfound] at hagree
      obtain ⟨extension, hextension, hdecoder⟩ := Option.map_eq_some_iff.1 hagree.symm
      have hunregister : r.unregister name = some (decoderOf object,
          ⟨r.extensions.filter fun other => !other.names.contains (foldCase name)⟩) :=
        Registry.unregister_eq_some_iff.2 ⟨⟨extension, hextension, hdecoder⟩, rfl⟩
      refine ⟨object, _, _, by rw [NameTable.unregister, hfound]; rfl, hunregister, ?_, ?_,
        h.disjoint.unregister hunregister⟩
      · rw [h.rows_eq, filter_rows]
      · rw [h.extensions_eq, List.filter_map]
        -- only the object itself claims the name
        have hclaims : ∀ other ∈ objects,
            (!(decoderOf other).claims.contains (foldCase name)) = decide (other ≠ object) := by
          intro other hother
          by_cases hsame : other = object
          · simp [hsame, hname]
          · have hnot : foldCase name ∉ (decoderOf other).claims := by
              intro hheld
              have hboth := h.find?_eq_some_iff.2 ⟨hother, hheld⟩
              rw [hfound] at hboth
              exact hsame (Option.some.inj hboth).symm
            simp [hsame, hnot]
        exact congrArg (List.map _) (List.filter_congr hclaims)

/-- **Each command keeps the table and the registry alike.** -/
theorem after [DecidableEq Object] (command : Command Object) :
    ∃ objects', Lists decoderOf objects' (t.after decoderOf command)
      (r.after (command.toRegistry decoderOf)) := by
  cases command with
  | register object =>
      rw [NameTable.after, Command.toRegistry, Registry.after]
      rcases h.register_agrees object with ⟨hnone, error, herror⟩ | ⟨t', r', hsome, hok, h'⟩
      · rw [hnone, herror]
        exact ⟨objects, h⟩
      · rw [hsome, hok]
        exact ⟨_, h'⟩
  | unregister name =>
      rw [NameTable.after, Command.toRegistry, Registry.after]
      rcases h.unregister_agrees name with ⟨hnone, hnone'⟩ | ⟨object, t', r', hsome, hsome', h'⟩
      · rw [hnone, hnone']
        exact ⟨objects, h⟩
      · rw [hsome, hsome']
        exact ⟨_, h'⟩

end Lists

variable {decoderOf} in
/-- And so does every run of commands. -/
theorem Lists.run [DecidableEq Object] {objects : List Object} {t : NameTable Object}
    {r : Registry} (h : Lists decoderOf objects t r) (commands : List (Command Object)) :
    ∃ objects', Lists decoderOf objects' (t.run decoderOf commands)
      (r.run (commands.map (Command.toRegistry decoderOf))) := by
  induction commands generalizing objects t r with
  | nil => exact ⟨objects, h⟩
  | cons command commands ih =>
      obtain ⟨objects', h'⟩ := h.after command
      exact ih h'

/-- **A table and a registry answer alike after every run of commands**: they give the same decoder
for a name, they register the same decoders and remove the same ones.  Each object holds all the
names that it claims or none. -/
theorem run_agrees [DecidableEq Object] (commands : List (Command Object)) {t : NameTable Object}
    {r : Registry} (ht : t = empty.run decoderOf commands)
    (hr : r = Registry.empty.run (commands.map (Command.toRegistry decoderOf))) :
    (∀ name, (t.find? name).map decoderOf = (r.extension? name).map Extension.decoder) ∧
      (∀ object, (t.register decoderOf object).isSome = true ↔
        ∃ r', r.register (decoderOf object) = .ok r') ∧
      (∀ name, (t.unregister name).map (fun pair => decoderOf pair.1) =
        (r.unregister name).map Prod.fst) ∧
      ∀ object, (∀ name, t.find? name ≠ some object) ∨
        ∀ name, t.find? name = some object ↔ name ∈ (decoderOf object).claims := by
  have hstart : Lists decoderOf [] (empty : NameTable Object) Registry.empty :=
    ⟨rfl, rfl, Registry.disjoint_empty⟩
  obtain ⟨objects, h⟩ := hstart.run commands
  rw [← ht, ← hr] at h
  refine ⟨fun name => h.find?_agrees, ?_, ?_, ?_⟩
  · intro object
    rcases h.register_agrees object with ⟨hnone, error, herror⟩ | ⟨t', r', hsome, hok, -⟩
    · simp [hnone, herror]
    · simp [hsome, hok]
  · intro name
    rcases h.unregister_agrees name with ⟨hnone, hnone'⟩ | ⟨object, t', r', hsome, hsome', -⟩
    · rw [hnone, hnone']
      rfl
    · rw [hsome, hsome']
      rfl
  · intro object
    by_cases hobject : object ∈ objects
    · exact Or.inr fun name => h.find?_eq_some_iff.trans (and_iff_right hobject)
    · exact Or.inl fun name hfound => hobject (h.find?_eq_some_iff.1 hfound).1

end NameTable

end SshKeys
