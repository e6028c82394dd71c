/-
**Extensions that come and go.**

Extensions are registered and removed in any order, under any names, and some of these commands
fail.  Whatever has been done to a registry, no name is held twice, no extension holds a built-in
name, and each extension holds exactly the names it claims, in lower case.  Each single command
keeps this, and so every run of commands does.

Main definitions:

* `SshKeys.Registry.Command`, `SshKeys.Registry.run` — commands, and runs of them;
* `SshKeys.Registry.Disjoint` — the invariant;
* `SshKeys.Registry.Orderly` — what a user of a registry may rely on.

Main results:

* `SshKeys.Registry.Disjoint.after` — each command keeps the invariant;
* `SshKeys.Registry.run_orderly` — **whatever has been done, a registry is in order**.
-/

import Mathlib.Data.List.Flatten
import SshKeys.Proofs.KeyPaths

set_option relaxedAutoImplicit false
set_option autoImplicit false

namespace SshKeys

/-- The names a decoder claims, in lower case. -/
def KeyDecoder.claims (decoder : KeyDecoder) : List String := decoder.keyTypes.map foldCase

namespace Registry

variable {r r' : Registry} {decoder : KeyDecoder} {extension : Extension} {name : String}

/-! ### Runs -/

/-- A command to a registry. -/
inductive Command where
  | register (decoder : KeyDecoder)
  | unregister (name : String)

/-- The registry after a command; one that fails changes nothing. -/
def after (r : Registry) : Command → Registry
  | .register decoder =>
    match r.register decoder with
    | .ok r' => r'
    | .error _ => r
  | .unregister name =>
    match r.unregister name with
    | some (_, r') => r'
    | none => r

/-- The registry after some commands. -/
def run (r : Registry) (commands : List Command) : Registry := commands.foldl after r

/-! ### Who holds a name -/

/-- Where no name is held twice, the one that holds a name is found. -/
theorem find?_eq_some_of_nodup {α : Type} {names : α → List String} {holders : List α} {holder : α}
    (hnodup : (holders.flatMap names).Nodup) (hmem : holder ∈ holders)
    (hname : name ∈ names holder) :
    holders.find? (fun holder => (names holder).contains name) = some holder := by
  obtain ⟨before, behind, rfl⟩ := List.append_of_mem hmem
  refine List.find?_eq_some_iff_append.2 ⟨by simpa using hname, before, behind, rfl, ?_⟩
  -- whoever comes earlier does not hold the name
  intro other hother
  rw [List.flatMap_append, List.flatMap_cons, List.nodup_append] at hnodup
  have hnot : name ∉ names other := fun hheld =>
    hnodup.2.2 name (List.mem_flatMap.2 ⟨other, hother, hheld⟩) name
      (List.mem_append_left _ hname) rfl
  simpa using hnot

/-- The built-in decoder that claims a name is found. -/
theorem builtin?_of_mem (hdecoder : decoder ∈ builtins) (hname : name ∈ decoder.claims) :
    builtin? name = some decoder := by
  have hnodup : (builtins.flatMap KeyDecoder.claims).Nodup := by decide
  exact find?_eq_some_of_nodup hnodup hdecoder hname

theorem extension?_eq_none_iff :
    r.extension? name = none ↔ ∀ extension ∈ r.extensions, name ∉ extension.names := by
  simp [extension?]

theorem builtin?_eq_none_iff : builtin? name = none ↔ name ∉ builtinNames := by
  rw [mem_builtinNames, builtin?]
  simp

theorem mem_extensionNames :
    name ∈ r.extensionNames ↔ ∃ extension ∈ r.extensions, name ∈ extension.names := by
  rw [extensionNames, sorted, List.mem_mergeSort, List.mem_flatMap]

theorem extension?_eq_none_iff_not_mem : r.extension? name = none ↔ name ∉ r.extensionNames := by
  rw [extension?_eq_none_iff, mem_extensionNames]
  simp

/-- No name is taken if none is held and none occurs twice. -/
theorem conflict?_eq_none_iff {earlier names : List String} :
    r.conflict? earlier names = none ↔
      (∀ name ∈ names, name ∉ builtinNames ∧ name ∉ r.extensionNames ∧ name ∉ earlier) ∧
        names.Nodup := by
  induction names generalizing earlier with
  | nil => simp [conflict?]
  | cons name names ih =>
      have htaken :
          ((builtin? name).isSome || (r.extension? name).isSome || earlier.contains name) = false ↔
            name ∉ builtinNames ∧ name ∉ r.extensionNames ∧ name ∉ earlier := by
        rw [Bool.or_eq_false_iff, Bool.or_eq_false_iff, Option.isSome_eq_false_iff,
          Option.isSome_eq_false_iff, Option.isNone_iff_eq_none, Option.isNone_iff_eq_none,
          builtin?_eq_none_iff, extension?_eq_none_iff_not_mem, and_assoc]
        simp
      rw [conflict?]
      split
      · next htrue =>
          refine iff_of_false nofun fun h => ?_
          have hfree := htaken.2 (h.1 name List.mem_cons_self)
          rw [htrue] at hfree
          exact Bool.noConfusion hfree
      · next hfalse =>
          have hfree := htaken.1 (Bool.eq_false_iff.2 hfalse)
          rw [ih, List.nodup_cons]
          constructor
          · rintro ⟨hrest, hnodup⟩
            refine ⟨?_, fun hmem => (hrest name hmem).2.2 List.mem_cons_self, hnodup⟩
            intro other hother
            rcases List.mem_cons.1 hother with rfl | hother
            · exact hfree
            · obtain ⟨hbuiltin, hextension, hearlier⟩ := hrest other hother
              exact ⟨hbuiltin, hextension, fun hmem => hearlier (List.mem_cons_of_mem _ hmem)⟩
          · rintro ⟨hall, hnew, hnodup⟩
            refine ⟨fun other hother => ?_, hnodup⟩
            obtain ⟨hbuiltin, hextension, hearlier⟩ := hall other (List.mem_cons_of_mem _ hother)
            refine ⟨hbuiltin, hextension, fun hmem => ?_⟩
            rcases List.mem_cons.1 hmem with rfl | hmem
            · exact hnew hother
            · exact hearlier hmem

/-! ### Single commands -/

/-- **When a decoder is registered**: no name it claims is held, and it claims none twice. -/
theorem register_eq_ok_iff :
    r.register decoder = .ok r' ↔
      ((∀ name ∈ decoder.claims, name ∉ builtinNames ∧ name ∉ r.extensionNames) ∧
        decoder.claims.Nodup) ∧ r' = ⟨⟨decoder.claims, decoder⟩ :: r.extensions⟩ := by
  have hfree : r.conflict? [] decoder.claims = none ↔
      (∀ name ∈ decoder.claims, name ∉ builtinNames ∧ name ∉ r.extensionNames) ∧
        decoder.claims.Nodup := by
    rw [conflict?_eq_none_iff]
    simp
  rw [← hfree, KeyDecoder.claims]
  simp only [register]
  cases r.conflict? [] (decoder.keyTypes.map foldCase) with
  | some name => simp
  | none => simp [eq_comm]

/-- Removing takes away the extension that holds the name, whatever the case of its letters. -/
theorem unregister_eq_some_iff :
    r.unregister name = some (decoder, r') ↔
      (∃ extension, r.extension? (foldCase name) = some extension ∧ extension.decoder = decoder) ∧
        r' = ⟨r.extensions.filter fun other => !other.names.contains (foldCase name)⟩ := by
  rw [unregister]
  cases r.extension? (foldCase name) with
  | none => simp
  | some extension => simp [eq_comm]

theorem unregister_iff_mem :
    (∃ decoder r', r.unregister name = some (decoder, r')) ↔ foldCase name ∈ r.extensionNames := by
  constructor
  · rintro ⟨decoder, r', hunregister⟩
    obtain ⟨⟨extension, hfound, -⟩, -⟩ := unregister_eq_some_iff.1 hunregister
    have hname : foldCase name ∈ extension.names := by simpa using List.find?_some hfound
    exact mem_extensionNames.2 ⟨extension, List.mem_of_find?_eq_some hfound, hname⟩
  · intro hheld
    cases hfound : r.extension? (foldCase name) with
    | none => exact absurd hheld (extension?_eq_none_iff_not_mem.1 hfound)
    | some extension => exact ⟨_, _, unregister_eq_some_iff.2 ⟨⟨extension, hfound, rfl⟩, rfl⟩⟩

/-- A decoder that cannot have all the names it claims gets none of them. -/
theorem after_register_of_not_free (hnot : ¬(decoder.claims.Nodup ∧
    ∀ name ∈ decoder.claims, name ∉ builtinNames ∧ name ∉ r.extensionNames)) :
    r.after (.register decoder) = r := by
  rw [after]
  cases hregister : r.register decoder with
  | ok r' => exact absurd (register_eq_ok_iff.1 hregister).1.symm hnot
  | error error => rfl

theorem after_unregister_of_not_mem (hnot : foldCase name ∉ r.extensionNames) :
    r.after (.unregister name) = r := by
  rw [after]
  cases hunregister : r.unregister name with
  | some pair => exact absurd (unregister_iff_mem.1 ⟨pair.1, pair.2, hunregister⟩) hnot
  | none => rfl

/-! ### The invariant -/

/-- No name is held twice or by a built-in decoder as well, and each extension holds the names that
it claims. -/
structure Disjoint (r : Registry) : Prop where
  names_eq : ∀ extension ∈ r.extensions, extension.names = extension.decoder.claims
  nodup : (r.extensions.flatMap Extension.names).Nodup
  not_builtin : ∀ extension ∈ r.extensions, ∀ name ∈ extension.names, name ∉ builtinNames

theorem disjoint_empty : Disjoint empty := ⟨nofun, List.nodup_nil, nofun⟩

namespace Disjoint

variable (h : Disjoint r)

include h

/-- The extension that holds a name is the only one. -/
theorem extension?_eq_some_iff :
    r.extension? name = some extension ↔ extension ∈ r.extensions ∧ name ∈ extension.names := by
  constructor
  · intro hfound
    exact ⟨List.mem_of_find?_eq_some hfound, by simpa using List.find?_some hfound⟩
  · rintro ⟨hmem, hname⟩
    exact find?_eq_some_of_nodup h.nodup hmem hname

theorem register (hregister : r.register decoder = .ok r') : Disjoint r' := by
  obtain ⟨⟨hfree, hnodup⟩, rfl⟩ := register_eq_ok_iff.1 hregister
  refine ⟨?_, ?_, ?_⟩
  · intro extension hmem
    rcases List.mem_cons.1 hmem with rfl | hmem
    · rfl
    · exact h.names_eq extension hmem
  · rw [List.flatMap_cons, List.nodup_append]
    refine ⟨hnodup, h.nodup, ?_⟩
    rintro name hname _ hheld rfl
    exact (hfree name hname).2 (mem_extensionNames.2 (List.mem_flatMap.1 hheld))
  · intro extension hmem
    rcases List.mem_cons.1 hmem with rfl | hmem
    · exact fun name hname => (hfree name hname).1
    · exact h.not_builtin extension hmem

theorem unregister (hunregister : r.unregister name = some (decoder, r')) : Disjoint r' := by
  obtain ⟨-, rfl⟩ := unregister_eq_some_iff.1 hunregister
  refine ⟨?_, ?_, ?_⟩
  · exact fun extension hmem => h.names_eq extension ((List.mem_filter.1 hmem).1)
  · exact h.nodup.sublist (List.filter_sublist.flatMap _)
  · exact fun extension hmem => h.not_builtin extension (List.mem_filter.1 hmem).1

/-- **Each command keeps the invariant.** -/
theorem after (command : Command) : Disjoint (r.after command) := by
  cases command with
  | register decoder =>
      rw [Registry.after]
      cases hregister : r.register decoder with
      | ok r' => exact h.register hregister
      | error error => exact h
  | unregister name =>
      rw [Registry.after]
      cases hunregister : r.unregister name with
      | some pair => exact h.unregister hunregister
      | none => exact h

/-- And so does every run of commands. -/
theorem run (commands : List Command) : Disjoint (r.run commands) := by
  induction commands generalizing r with
  | nil => exact h
  | cons command commands ih => exact ih (h.after command)

end Disjoint

/-! ### What a registry can be relied on for -/

/-- The rules that a registry keeps, whatever has been done to it. -/
structure Orderly (r : Registry) : Prop where
  /-- A built-in name, in whatever case, belongs to the built-in decoder that claims it. -/
  builtin : ∀ decoder ∈ builtins, ∀ keyType ∈ decoder.keyTypes, ∀ name,
    foldCase name = foldCase keyType → r.resolve? name = some decoder
  /-- An extension holds names in lower case that are not built in. -/
  extension : ∀ name ∈ r.extensionNames, foldCase name = name ∧ name ∉ builtinNames
  /-- A decoder holds no name of an extension, or exactly the names that it claims. -/
  allOrNothing : ∀ decoder,
    (∀ name, (r.extension? name).map Extension.decoder ≠ some decoder) ∨
      ∀ name, (r.extension? name).map Extension.decoder = some decoder ↔ name ∈ decoder.claims
  /-- The case of a name does not matter. -/
  caseless : ∀ name other, foldCase name = foldCase other → r.resolve? name = r.resolve? other
  /-- A decoder is registered exactly if it claims no name twice and none that is held. -/
  register_iff : ∀ decoder, (∃ r', r.register decoder = .ok r') ↔
    decoder.claims.Nodup ∧ ∀ name ∈ decoder.claims, name ∉ builtinNames ∧ name ∉ r.extensionNames
  /-- A decoder that claims a name twice, or one that is held, changes nothing. -/
  refused : ∀ decoder, ¬(decoder.claims.Nodup ∧
      ∀ name ∈ decoder.claims, name ∉ builtinNames ∧ name ∉ r.extensionNames) →
    r.after (.register decoder) = r
  /-- A decoder is removed exactly if an extension holds the name, in whatever case it is given. -/
  unregister_iff : ∀ name, (∃ decoder r', r.unregister name = some (decoder, r')) ↔
    foldCase name ∈ r.extensionNames
  /-- A name that no extension holds removes nothing. -/
  absent : ∀ name, foldCase name ∉ r.extensionNames → r.after (.unregister name) = r
  /-- To register a decoder and remove it under any of its names changes nothing. -/
  restored : ∀ decoder r' name, r.register decoder = .ok r' → foldCase name ∈ decoder.claims →
    r'.unregister name = some (decoder, r)

namespace Disjoint

variable (h : Disjoint r)

include h

/-- The names that a decoder holds, if it holds one. -/
theorem all_or_nothing (decoder : KeyDecoder) :
    (∀ name, (r.extension? name).map Extension.decoder ≠ some decoder) ∨
      ∀ name, (r.extension? name).map Extension.decoder = some decoder ↔ name ∈ decoder.claims := by
  by_cases hsome : ∃ extension ∈ r.extensions, extension.decoder = decoder
  · right
    obtain ⟨extension, hmem, rfl⟩ := hsome
    intro name
    rw [Option.map_eq_some_iff]
    constructor
    · rintro ⟨other, hfound, hsame⟩
      obtain ⟨hother, hname⟩ := h.extension?_eq_some_iff.1 hfound
      rwa [h.names_eq other hother, hsame] at hname
    · intro hname
      rw [← h.names_eq extension hmem] at hname
      exact ⟨extension, h.extension?_eq_some_iff.2 ⟨hmem, hname⟩, rfl⟩
  · left
    intro name hheld
    obtain ⟨extension, hfound, rfl⟩ := Option.map_eq_some_iff.1 hheld
    exact hsome ⟨extension, (h.extension?_eq_some_iff.1 hfound).1, rfl⟩

theorem lower_case (hname : name ∈ r.extensionNames) :
    foldCase name = name ∧ name ∉ builtinNames := by
  obtain ⟨extension, hmem, hname⟩ := mem_extensionNames.1 hname
  refine ⟨?_, h.not_builtin extension hmem name hname⟩
  rw [h.names_eq extension hmem] at hname
  obtain ⟨keyType, -, rfl⟩ := List.mem_map.1 hname
  exact foldCase_foldCase keyType

end Disjoint

/-- Removing what has just been registered restores the registry. -/
theorem unregister_register (hregister : r.register decoder = .ok r')
    (hname : foldCase name ∈ decoder.claims) : r'.unregister name = some (decoder, r) := by
  obtain ⟨⟨hfree, -⟩, rfl⟩ := register_eq_ok_iff.1 hregister
  refine unregister_eq_some_iff.2 ⟨⟨⟨decoder.claims, decoder⟩, ?_, rfl⟩, ?_⟩
  · rw [extension?, List.find?_cons_of_pos (by simpa using hname)]
  · -- the other extensions do not hold the name
    have hothers : r.extensions.filter (fun other => !other.names.contains (foldCase name)) =
        r.extensions := by
      rw [List.filter_eq_self]
      intro other hother
      have hnot : foldCase name ∉ other.names := fun hheld =>
        (hfree _ hname).2 (mem_extensionNames.2 ⟨other, hother, hheld⟩)
      simpa using hnot
    rw [List.filter_cons_of_neg (by simpa using hname), hothers]

/-- **Whatever has been registered and removed**, a registry is in order. -/
theorem run_orderly (commands : List Command) : (empty.run commands).Orderly := by
  have h := disjoint_empty.run commands
  generalize empty.run commands = r at h
  constructor
  case builtin =>
    intro decoder hdecoder keyType hkeyType name hname
    have hclaimed : foldCase keyType ∈ decoder.claims := List.mem_map_of_mem hkeyType
    rw [resolve?, hname, builtin?_of_mem hdecoder hclaimed]
  case extension => exact fun name hname => h.lower_case hname
  case allOrNothing => exact h.all_or_nothing
  case caseless =>
    intro name other hsame
    rw [resolve?, resolve?, hsame]
  case register_iff =>
    intro decoder
    constructor
    · rintro ⟨r', hregister⟩
      exact (register_eq_ok_iff.1 hregister).1.symm
    · intro hfree
      exact ⟨_, register_eq_ok_iff.2 ⟨hfree.symm, rfl⟩⟩
  case refused => exact fun decoder hnot => after_register_of_not_free hnot
  case unregister_iff => exact fun name => unregister_iff_mem
  case absent => exact fun name hnot => after_unregister_of_not_mem hnot
  case restored => exact fun decoder r' name hregister hname => unregister_register hregister hname

end Registry

end SshKeys
