/-
**Items and places outside quotes.**

Two scans look for a delimiter outside quotes.  One splits a text at each of them; the other says at
which byte the first of them starts, so that the text can be taken apart there.  Both carry along
whether the scan is inside quotes, which comes to counting quotes: a place is outside of them if an
even number of quotes stands in front of it.  What has been split off has its quotes closed, so the
count may start anew with each item, and the items are told by the quotes in them alone.

Main definitions:

* `SshKeys.SplitsInto` — how a text is split at the delimiters outside quotes;
* `SshKeys.findUnquoted?` — the byte at which the first delimiter outside quotes starts;
* `SshKeys.UnquotedItems` — items of a text, told by the quotes in each of them;
* `SshKeys.ScansAgree` — the two scans tell the same about a text, and lose nothing of it.

Main results:

* `SshKeys.quotedThrough_eq_false_iff`, `SshKeys.hidden_false_iff` — being inside quotes as a count;
* `SshKeys.splitsInto_iff` — **a text is split in one way only**;
* `SshKeys.unquotedItems_iff` — a text has one list of items, which is what splitting gives;
* `SshKeys.findUnquoted?_eq_some_iff`, `SshKeys.cutUnquoted?_eq_some_iff` — the place as the end of
  the first item, and as where a cut is made;
* `SshKeys.scans_agree` — **the scans agree**, on every text.
-/

import Mathlib.Algebra.Ring.Parity
import SshKeys.Proofs.CharacterBounds
import SshKeys.Proofs.TextScans

set_option relaxedAutoImplicit false
set_option autoImplicit false

namespace SshKeys

variable {d : Char} {quoted : Bool} {cs item first next : List Char} {rest items : List (List Char)}

/-! ### Counting quotes -/

/-- A scan is outside quotes after an even number of them. -/
theorem quotedThrough_eq_false_iff :
    quotedThrough false cs = false ↔ Even (cs.count '"') := by
  induction cs with
  | nil => simp
  | cons c cs ih =>
      by_cases hc : c = '"'
      · rw [hc, quotedThrough_cons, quotedAfter_quote, quotedThrough_not, List.count_cons_self,
          Nat.even_add_one, ← ih, Bool.not_eq_false', Bool.not_eq_false]
      · rw [quotedThrough_cons, quotedAfter_of_ne hc, List.count_cons_of_ne hc, ih]

theorem quotedThrough_eq_true_iff :
    quotedThrough false cs = true ↔ Odd (cs.count '"') := by
  rw [← Nat.not_even_iff_odd, ← quotedThrough_eq_false_iff, Bool.not_eq_false]

/-- A character is hidden if the scan is inside quotes wherever it stands. -/
theorem hidden_iff (hd : d ≠ '"') :
    Hidden d quoted cs ↔
      ∀ before after, cs = before ++ d :: after → quotedThrough quoted before = true := by
  constructor
  · rintro h before after rfl
    have hplace := (hidden_cons.1 (hidden_append.1 h).2).1
    rw [quotedAfter_of_ne hd] at hplace
    simpa using hplace
  · intro h
    rw [← cutFrom?_eq_none_iff]
    cases hcut : cutFrom? d quoted cs with
    | none => rfl
    | some pair =>
        -- a cut would be a place outside quotes
        obtain ⟨hplace, -, hclosed⟩ := (cutFrom?_eq_some_iff hd).1 hcut
        rw [h _ _ hplace] at hclosed
        exact Bool.noConfusion hclosed

/-- In a text that starts outside quotes, it is hidden behind an odd number of them. -/
theorem hidden_false_iff (hd : d ≠ '"') :
    Hidden d false cs ↔
      ∀ before after, cs = before ++ d :: after → Odd (before.count '"') := by
  simp only [hidden_iff hd, quotedThrough_eq_true_iff]

/-! ### Where a text is split -/

/-- How a text is split at the delimiters outside quotes.  What stands in front of such a delimiter
has its quotes closed. -/
inductive SplitsInto (d : Char) : List Char → List (List Char) → Prop
  | last {cs : List Char} (hidden : Hidden d false cs) : SplitsInto d cs [cs]
  | cut {before after : List Char} {parts : List (List Char)} (hidden : Hidden d false before)
      (closed : quotedThrough false before = false) (rest : SplitsInto d after parts) :
      SplitsInto d (before ++ d :: after) (before :: parts)

/-- **A text is split in one way only.** -/
theorem splitsInto_iff (hd : d ≠ '"') {parts : List (List Char)} :
    SplitsInto d cs parts ↔ splitUnquoted d cs = parts := by
  constructor
  · intro h
    induction h with
    | last hidden => exact splitFrom_of_hidden hidden
    | cut hidden closed _ ih =>
        rw [splitUnquoted, splitFrom_append hd _ hidden closed]
        exact congrArg (List.cons _) ih
  · rintro rfl
    -- induction on the number of delimiters that are left, by way of the length
    induction hlength : cs.length using Nat.strongRecOn generalizing cs with
    | ind n ih =>
        rcases splitFrom_cases hd false cs with
          ⟨hhidden, hsplit⟩ | ⟨before, after, rfl, hhidden, hclosed, hsplit⟩
        · rw [splitUnquoted, hsplit]
          exact .last hhidden
        · have hshorter : after.length < n := by
            rw [← hlength, List.length_append, List.length_cons]
            omega
          rw [splitUnquoted, hsplit]
          exact .cut hhidden hclosed (ih after.length hshorter rfl)

/-! ### Items -/

/-- Items of a text: joined by the delimiter they are the text, in all of them the delimiter has an
odd number of quotes in front of it, and all but the last have an even number of quotes. -/
structure UnquotedItems (d : Char) (cs : List Char) (items : List (List Char)) : Prop where
  ne_nil : items ≠ []
  joined : joinOn d items = cs
  hidden : ∀ item ∈ items, ∀ before after, item = before ++ d :: after →
    Odd (before.count '"')
  closed : ∀ item ∈ items.dropLast, Even (item.count '"')

namespace UnquotedItems

theorem singleton_iff (hd : d ≠ '"') :
    UnquotedItems d cs [item] ↔ item = cs ∧ Hidden d false item := by
  rw [hidden_false_iff hd]
  constructor
  · intro h
    exact ⟨h.joined, h.hidden item List.mem_cons_self⟩
  · rintro ⟨rfl, hhidden⟩
    exact ⟨List.cons_ne_nil _ _, rfl, by simpa using hhidden, by simp⟩

/-- The first item ends at a delimiter, and the other ones are the items of what follows it. -/
theorem cons_cons_iff (hd : d ≠ '"') :
    UnquotedItems d cs (first :: next :: rest) ↔
      ∃ after, cs = first ++ d :: after ∧ Hidden d false first ∧
        quotedThrough false first = false ∧ UnquotedItems d after (next :: rest) := by
  rw [hidden_false_iff hd, quotedThrough_eq_false_iff]
  constructor
  · rintro ⟨-, hjoined, hhidden, hclosed⟩
    rw [List.forall_mem_cons] at hhidden
    rw [List.dropLast_cons_cons, List.forall_mem_cons] at hclosed
    exact ⟨joinOn d (next :: rest), hjoined.symm, hhidden.1, hclosed.1,
      List.cons_ne_nil _ _, rfl, hhidden.2, hclosed.2⟩
  · rintro ⟨after, rfl, hhidden, hclosed, h⟩
    refine ⟨List.cons_ne_nil _ _, ?_, List.forall_mem_cons.2 ⟨hhidden, h.hidden⟩, ?_⟩
    · rw [joinOn, h.joined]
      exact List.cons_ne_nil _ _
    · rw [List.dropLast_cons_cons]
      exact List.forall_mem_cons.2 ⟨hclosed, h.closed⟩

end UnquotedItems

/-- **A text has one list of items**, which is what splitting it gives. -/
theorem unquotedItems_iff (hd : d ≠ '"') :
    UnquotedItems d cs items ↔ splitUnquoted d cs = items := by
  rw [← splitsInto_iff hd]
  constructor
  · intro h
    induction items generalizing cs with
    | nil => exact absurd rfl h.ne_nil
    | cons first items ih =>
        cases items with
        | nil =>
            obtain ⟨rfl, hhidden⟩ := (UnquotedItems.singleton_iff hd).1 h
            exact .last hhidden
        | cons next rest =>
            obtain ⟨after, rfl, hhidden, hclosed, hrest⟩ := (UnquotedItems.cons_cons_iff hd).1 h
            exact .cut hhidden hclosed (ih hrest)
  · intro h
    induction h with
    | last hhidden => exact (UnquotedItems.singleton_iff hd).2 ⟨rfl, hhidden⟩
    | @cut before after parts hhidden hclosed _ ih =>
        cases parts with
        | nil => exact absurd rfl ih.ne_nil
        | cons next rest =>
            exact (UnquotedItems.cons_cons_iff hd).2 ⟨after, rfl, hhidden, hclosed, ih⟩

/-! ### Places -/

/-- The byte at which the first `d` outside quotes starts, when the scan has come to the byte
`place`, inside quotes or outside of them as `quoted` says. -/
def findFrom? (d : Char) (quoted : Bool) (place : Nat) : List Char → Option Nat
  | [] => none
  | c :: cs =>
    let quoted := quotedAfter quoted c
    if c = d && !quoted then some place else findFrom? d quoted (place + c.utf8Size) cs

/-- The byte at which the first `d` outside double quotes starts, if there is one. -/
def findUnquoted? (d : Char) (text : String) : Option Nat := findFrom? d false 0 text.toList

/-- The place of a cut is the number of bytes in front of it. -/
theorem findFrom?_eq (place : Nat) :
    findFrom? d quoted place cs =
      (cutFrom? d quoted cs).map
        fun (before, _) => place + (String.ofList before).utf8ByteSize := by
  induction cs generalizing quoted place with
  | nil => rfl
  | cons c cs ih =>
      rw [findFrom?, cutFrom?]
      split
      · rfl
      · rw [ih, Option.map_map]
        refine Option.map_congr fun pair _ => ?_
        simp [String.ofList_cons, Nat.add_assoc]

/-- A text has no delimiter outside quotes, and is a single item; or the first item, the cut and the
place all end in front of the same delimiter. -/
theorem findUnquoted?_cases (hd : d ≠ '"') (text : String) :
    findUnquoted? d text = none ∧ cutUnquoted? d text.toList = none ∧
        splitUnquoted d text.toList = [text.toList] ∨
      ∃ before after, text = before ++ (String.singleton d ++ after) ∧
        findUnquoted? d text = some before.utf8ByteSize ∧
        cutUnquoted? d text.toList = some (before.toList, after.toList) ∧
        splitUnquoted d text.toList = before.toList :: splitUnquoted d after.toList := by
  rw [findUnquoted?, findFrom?_eq, ← cutUnquoted?]
  cases hcut : cutUnquoted? d text.toList with
  | none => exact .inl ⟨rfl, rfl, splitFrom_of_hidden (cutFrom?_eq_none_iff.1 hcut)⟩
  | some pair =>
      obtain ⟨before, after⟩ := pair
      obtain ⟨htext, hhidden, hclosed⟩ := (cutFrom?_eq_some_iff hd).1 hcut
      refine .inr ⟨String.ofList before, String.ofList after, ?_, ?_, ?_, ?_⟩
      · rw [← String.toList_inj, htext]
        simp
      · simp
      · rw [String.toList_ofList, String.toList_ofList]
      · rw [htext, String.toList_ofList, String.toList_ofList]
        exact splitFrom_append hd after hhidden hclosed

/-- There is no place in a text that is a single item. -/
theorem findUnquoted?_eq_none_iff (hd : d ≠ '"') {text : String} :
    findUnquoted? d text = none ↔ splitUnquoted d text.toList = [text.toList] := by
  rcases findUnquoted?_cases hd text with
    ⟨hfind, -, hsingle⟩ | ⟨before, after, -, hfind, -, hitems⟩
  · exact iff_of_true hfind hsingle
  · rw [hfind, hitems]
    refine iff_of_false nofun fun hsame => ?_
    exact splitFrom_ne_nil d false after.toList (List.cons.inj hsame).2

/-- The place is the number of bytes of the first of several items. -/
theorem findUnquoted?_eq_some_iff (hd : d ≠ '"') {text : String} {place : Nat} :
    findUnquoted? d text = some place ↔
      ∃ first next rest, splitUnquoted d text.toList = first :: next :: rest ∧
        place = (String.ofList first).utf8ByteSize := by
  rcases findUnquoted?_cases hd text with
    ⟨hfind, -, hsingle⟩ | ⟨before, after, -, hfind, -, hitems⟩
  · rw [hfind, hsingle]
    simp
  · obtain ⟨next, rest, hrest⟩ : ∃ next rest, splitUnquoted d after.toList = next :: rest :=
      List.exists_cons_of_ne_nil (splitFrom_ne_nil d false after.toList)
    rw [hfind, hitems, hrest]
    constructor
    · rintro ⟨⟩
      exact ⟨before.toList, next, rest, rfl, by rw [String.ofList_toList]⟩
    · rintro ⟨first, _, _, hsame, rfl⟩
      rw [← (List.cons.inj hsame).1, String.ofList_toList]

/-- No character is taken apart at the place. -/
theorem isValid_of_findUnquoted? (hd : d ≠ '"') {text : String} {place : Nat}
    (h : findUnquoted? d text = some place) : String.Pos.Raw.IsValid text ⟨place⟩ := by
  rcases findUnquoted?_cases hd text with
    ⟨hfind, -, -⟩ | ⟨before, after, htext, hfind, -, -⟩
  · rw [hfind] at h
    cases h
  · rw [hfind] at h
    cases h
    exact String.Pos.Raw.isValid_iff_exists_append.2 ⟨before, _, htext, rfl⟩

/-- The bytes in front of a character and those behind it. -/
theorem take_drop_utf8Bytes (before after : String) (d : Char) :
    (utf8Bytes (before ++ (String.singleton d ++ after))).take before.utf8ByteSize =
        utf8Bytes before ∧
      (utf8Bytes (before ++ (String.singleton d ++ after))).drop
        (before.utf8ByteSize + d.utf8Size) = utf8Bytes after := by
  have hfront : before.utf8ByteSize = (utf8Bytes before).length := (length_utf8Bytes before).symm
  have hmiddle : d.utf8Size = (utf8Bytes (String.singleton d)).length := by
    rw [length_utf8Bytes, String.utf8ByteSize_singleton]
  rw [utf8Bytes_append, utf8Bytes_append, hfront, hmiddle, ← List.length_append]
  refine ⟨List.take_left, ?_⟩
  rw [← List.append_assoc, List.drop_left]

/-- A cut takes the bytes in front of the place and those behind the delimiter there. -/
theorem cutUnquoted?_eq_some_iff (hd : d ≠ '"') {text : String} {front back : List Char} :
    cutUnquoted? d text.toList = some (front, back) ↔
      ∃ place, findUnquoted? d text = some place ∧
        utf8Bytes (String.ofList front) = (utf8Bytes text).take place ∧
        utf8Bytes (String.ofList back) = (utf8Bytes text).drop (place + d.utf8Size) := by
  rcases findUnquoted?_cases hd text with
    ⟨hfind, hcut, -⟩ | ⟨before, after, htext, hfind, hcut, -⟩
  · rw [hfind, hcut]
    simp
  · obtain ⟨htake, hdrop⟩ := take_drop_utf8Bytes before after d
    rw [hfind, hcut]
    constructor
    · rintro ⟨⟩
      refine ⟨_, rfl, ?_, ?_⟩
      · rw [String.ofList_toList, htext, htake]
      · rw [String.ofList_toList, htext, hdrop]
    · rintro ⟨_, ⟨⟩, hfront, hback⟩
      rw [htext, htake] at hfront
      rw [htext, hdrop] at hback
      rw [← utf8Bytes_inj hfront, ← utf8Bytes_inj hback, String.toList_ofList,
        String.toList_ofList]

/-! ### Both scans -/

/-- The two scans tell the same about a text, and lose nothing of it. -/
structure ScansAgree (d : Char) (text : String) : Prop where
  split : UnquotedItems d text.toList (splitUnquoted d text.toList)
  /-- There is no other way of splitting the text. -/
  unique : ∀ items, UnquotedItems d text.toList items → items = splitUnquoted d text.toList
  found : ∀ place, findUnquoted? d text = some place ↔
    ∃ first next rest, splitUnquoted d text.toList = first :: next :: rest ∧
      place = (String.ofList first).utf8ByteSize
  notFound : findUnquoted? d text = none ↔ splitUnquoted d text.toList = [text.toList]
  /-- The place is one between two characters. -/
  boundary : ∀ place, findUnquoted? d text = some place →
    String.Pos.Raw.IsValid text ⟨place⟩
  /-- Cutting the text is taking its bytes apart at the place, without the delimiter there. -/
  cut : ∀ front back, cutUnquoted? d text.toList = some (front, back) ↔
    ∃ place, findUnquoted? d text = some place ∧
      utf8Bytes (String.ofList front) = (utf8Bytes text).take place ∧
      utf8Bytes (String.ofList back) = (utf8Bytes text).drop (place + d.utf8Size)

/-- **The scans agree.**  They lose nothing, and each item is told by the quotes in it. -/
theorem scans_agree (hd : d ≠ '"') (text : String) : ScansAgree d text where
  split := (unquotedItems_iff hd).2 rfl
  unique _ hitems := ((unquotedItems_iff hd).1 hitems).symm
  found _ := findUnquoted?_eq_some_iff hd
  notFound := findUnquoted?_eq_none_iff hd
  boundary _ := isValid_of_findUnquoted? hd
  cut _ _ := cutUnquoted?_eq_some_iff hd

/-- A quote that is never closed hides the last comma, and two quotes hide the first one; the place
counts bytes, not characters. -/
theorem scans_agree_open_quote :
    ',' ≠ '"' ∧ ScansAgree ',' "é=\"ü,\",x,\"y,z" ∧
      splitUnquoted ',' "é=\"ü,\",x,\"y,z".toList =
        ["é=\"ü,\"".toList, "x".toList, "\"y,z".toList] ∧
      findUnquoted? ',' "é=\"ü,\",x,\"y,z" = some 8 :=
  ⟨by decide, scans_agree (by decide) _, by decide +kernel, by decide +kernel⟩

end SshKeys
