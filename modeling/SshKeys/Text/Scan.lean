/-
**Cutting text at a delimiter.**

A plain cut sees every delimiter.  A quote-aware cut sees only the delimiters that are preceded by
an even number of double quotes; a quote is an ordinary character otherwise, and a quote that is
never closed hides everything after it.

Main definitions:

* `SshKeys.cutAt?` — the text before and after the first delimiter;
* `SshKeys.splitOn` — the items between all delimiters;
* `SshKeys.cutUnquoted?`, `SshKeys.splitUnquoted` — the same for the delimiters outside quotes;
* `SshKeys.joinOn` — items put together again with delimiters between them.

Main results:

* `SshKeys.joinOn_splitOn`, `SshKeys.joinOn_splitFrom` — no character is lost by splitting;
* `SshKeys.eq_of_cutAt?`, `SshKeys.eq_of_cutFrom?` — nor by cutting.
-/

set_option relaxedAutoImplicit false
set_option autoImplicit false

namespace SshKeys

/-! ### Plain cuts -/

/-- The text before and after the first `d`, if there is one. -/
def cutAt? (d : Char) : List Char → Option (List Char × List Char)
  | [] => none
  | c :: cs =>
    if c = d then some ([], cs)
    else (cutAt? d cs).map fun (before, after) => (c :: before, after)

/-- Puts a character in front of the first item. -/
def consHead (c : Char) : List (List Char) → List (List Char)
  | [] => [[c]]
  | item :: items => (c :: item) :: items

/-- The items between all occurrences of `d`; there is always one more item than delimiters. -/
def splitOn (d : Char) : List Char → List (List Char)
  | [] => [[]]
  | c :: cs => if c = d then [] :: splitOn d cs else consHead c (splitOn d cs)

/-- Items with a `d` between each two of them. -/
def joinOn (d : Char) : List (List Char) → List Char
  | [] => []
  | [item] => item
  | item :: items => item ++ d :: joinOn d items

/-! ### Quote-aware cuts -/

/-- Whether the scan is inside double quotes after the character `c`. -/
def quotedAfter (quoted : Bool) (c : Char) : Bool :=
  if c = '"' then !quoted else quoted

/-- The text before and after the first `d` outside quotes, when the scan starts inside quotes or
outside of them as `quoted` says. -/
def cutFrom? (d : Char) (quoted : Bool) : List Char → Option (List Char × List Char)
  | [] => none
  | c :: cs =>
    let quoted := quotedAfter quoted c
    if c = d && !quoted then some ([], cs)
    else (cutFrom? d quoted cs).map fun (before, after) => (c :: before, after)

/-- The text before and after the first `d` outside double quotes, if there is one. -/
def cutUnquoted? (d : Char) (cs : List Char) : Option (List Char × List Char) :=
  cutFrom? d false cs

/-- The items between the `d` outside quotes, when the scan starts inside quotes or outside of
them as `quoted` says. -/
def splitFrom (d : Char) (quoted : Bool) : List Char → List (List Char)
  | [] => [[]]
  | c :: cs =>
    let quoted := quotedAfter quoted c
    if c = d && !quoted then [] :: splitFrom d quoted cs
    else consHead c (splitFrom d quoted cs)

/-- The items between the `d` outside double quotes. -/
def splitUnquoted (d : Char) (cs : List Char) : List (List Char) :=
  splitFrom d false cs

/-! ### Nothing is lost -/

theorem eq_of_cutAt? {d : Char} {cs before after : List Char}
    (h : cutAt? d cs = some (before, after)) : cs = before ++ d :: after := by
  induction cs generalizing before with
  | nil => simp [cutAt?] at h
  | cons c cs ih =>
    by_cases hc : c = d
    · simp only [cutAt?, hc, ↓reduceIte, Option.some.injEq, Prod.mk.injEq] at h
      simp [← h.1, h.2, hc]
    · simp only [cutAt?, hc, ↓reduceIte, Option.map_eq_some_iff, Prod.mk.injEq, Prod.exists] at h
      obtain ⟨before', after', h', rfl, rfl⟩ := h
      simp [ih h']

theorem eq_of_cutFrom? {d : Char} {quoted : Bool} {cs before after : List Char}
    (h : cutFrom? d quoted cs = some (before, after)) : cs = before ++ d :: after := by
  induction cs generalizing quoted before with
  | nil => simp [cutFrom?] at h
  | cons c cs ih =>
    simp only [cutFrom?] at h
    split at h
    · rename_i hc
      simp only [Option.some.injEq, Prod.mk.injEq] at h
      simp only [Bool.and_eq_true, decide_eq_true_eq] at hc
      simp [← h.1, h.2, hc.1]
    · simp only [Option.map_eq_some_iff, Prod.mk.injEq, Prod.exists] at h
      obtain ⟨before', after', h', rfl, rfl⟩ := h
      simp [ih h']

theorem splitOn_ne_nil (d : Char) (cs : List Char) : splitOn d cs ≠ [] := by
  cases cs with
  | nil => simp [splitOn]
  | cons c cs =>
    by_cases hc : c = d
    · simp [splitOn, hc]
    · simp only [splitOn, hc, ↓reduceIte]
      cases splitOn d cs <;> simp [consHead]

theorem splitFrom_ne_nil (d : Char) (quoted : Bool) (cs : List Char) :
    splitFrom d quoted cs ≠ [] := by
  cases cs with
  | nil => simp [splitFrom]
  | cons c cs =>
    simp only [splitFrom]
    split
    · simp
    · cases splitFrom d (quotedAfter quoted c) cs <;> simp [consHead]

@[simp] theorem joinOn_consHead (d c : Char) (items : List (List Char)) :
    joinOn d (consHead c items) = c :: joinOn d items := by
  match items with
  | [] => rfl
  | [_] => rfl
  | _ :: _ :: _ => rfl

theorem joinOn_nil_cons (d : Char) {items : List (List Char)} (h : items ≠ []) :
    joinOn d ([] :: items) = d :: joinOn d items := by
  match items, h with
  | _ :: _, _ => rfl

/-- The items between delimiters, joined by the delimiter, are the text. -/
@[simp] theorem joinOn_splitOn (d : Char) (cs : List Char) : joinOn d (splitOn d cs) = cs := by
  induction cs with
  | nil => rfl
  | cons c cs ih =>
    by_cases hc : c = d
    · simp [splitOn, hc, joinOn_nil_cons d (splitOn_ne_nil d cs), ih]
    · simp [splitOn, hc, ih]

/-- The items between the delimiters outside quotes, joined by the delimiter, are the text. -/
@[simp] theorem joinOn_splitFrom (d : Char) (quoted : Bool) (cs : List Char) :
    joinOn d (splitFrom d quoted cs) = cs := by
  induction cs generalizing quoted with
  | nil => rfl
  | cons c cs ih =>
    simp only [splitFrom]
    split
    · rename_i hc
      simp only [Bool.and_eq_true, decide_eq_true_eq] at hc
      rw [joinOn_nil_cons d (splitFrom_ne_nil d _ cs), ih, hc.1]
    · rw [joinOn_consHead, ih]

/-! ### Quotes around a text -/

/-- A text without the double quotes around it; a quote at one end only stays. -/
def stripQuotes (cs : List Char) : List Char :=
  match cs with
  | '"' :: rest => if rest.getLast? = some '"' then rest.dropLast else cs
  | _ => cs

end SshKeys
