/-
**Files of authorized keys, line by line.**

A file is cut into lines at its line feeds, and each line is judged on its own.  So a file that is
cut behind a line feed is judged in two parts, and the first line that cannot be read decides about
the whole file, whatever follows it.  Nothing depends on how the lines are drawn: blank lines and
comments may stand between any two of them, a line may end with a carriage return as well, and
blanks may stand at both of its ends.

Main definitions:

* `SshKeys.AuthorizedKeys.Terminated` — a file that may be cut at its end;
* `SshKeys.AuthorizedKeys.EndsLine` — how a line ends, and what follows it;
* `SshKeys.AuthorizedKeys.Retouch` — a change to how the lines of a file are drawn;
* `SshKeys.AuthorizedKeys.withReturns` — a file with a carriage return in front of each line feed.

Main results:

* `SshKeys.AuthorizedKeys.ofBytes_append`, `SshKeys.AuthorizedKeys.ofBytes_line` — a file in two
  parts, and a line with the rest of a file;
* `SshKeys.AuthorizedKeys.Retouch.ofBytes_eq` — each change keeps what a file grants;
* `SshKeys.AuthorizedKeys.ofLines_eq_ok_iff`, `SshKeys.AuthorizedKeys.ofLines_eq_error_iff` — all
  lines are read, or the first one that cannot be read decides;
* `SshKeys.AuthorizedKeys.granted_whole_or_not` — **a file grants the keys of all of its lines, or
  none at all**.
-/

import Mathlib.Data.List.Forall2
import Mathlib.Data.List.Induction
import Mathlib.Data.List.ReduceOption
import Mathlib.Logic.Relation
import SshKeys.Proofs.CharacterBounds
import SshKeys.Proofs.TextScans
import SshKeys.Login.AuthorizedKeys

set_option relaxedAutoImplicit false
set_option autoImplicit false

namespace SshKeys

/-- Blanks at the two ends of a text do not matter. -/
theorem trim_blanks {before after : String} (hbefore : ∀ c ∈ before.toList, isBlank c = true)
    (hafter : ∀ c ∈ after.toList, isBlank c = true) (text : String) :
    trim (before ++ text ++ after) = trim text := by
  rw [trim, trim, String.toList_append, String.toList_append, trimChars_blanks hbefore hafter]

namespace AuthorizedKeys

variable {r : Registry} {front line back rest : Bytes}

/-! ### Where a file may be cut -/

/-- Nothing at all, or bytes that end with a line feed. -/
def Terminated (front : Bytes) : Prop := front = [] ∨ front.getLast? = some 0x0A

instance (front : Bytes) : Decidable (Terminated front) :=
  inferInstanceAs (Decidable (front = [] ∨ front.getLast? = some 0x0A))

/-- How a line ends, and what follows it: the file ends with the line, or a line feed follows, with
or without a carriage return in front. -/
inductive EndsLine : Bytes → Bytes → Prop
  | last : EndsLine [] []
  | lineFeed (rest : Bytes) : EndsLine (0x0A :: rest) rest
  | returned (rest : Bytes) : EndsLine (0x0D :: 0x0A :: rest) rest

/-- In front of any place stands the beginning of a line, and lines that have ended. -/
theorem exists_line (content : Bytes) :
    ∃ front line, content = front ++ line ∧ Terminated front ∧ 0x0A ∉ line := by
  -- induction from the end of the file
  induction content using List.reverseRecOn with
  | nil => exact ⟨[], [], rfl, Or.inl rfl, List.not_mem_nil⟩
  | append_singleton content b ih =>
      by_cases hb : b = 0x0A
      · refine ⟨content ++ [b], [], (List.append_nil _).symm, Or.inr ?_, List.not_mem_nil⟩
        rw [List.getLast?_concat, hb]
      · obtain ⟨front, line, rfl, hfront, hline⟩ := ih
        refine ⟨front, line ++ [b], List.append_assoc _ _ _, hfront, ?_⟩
        rw [List.mem_append, List.mem_singleton]
        rintro (hmem | hsame)
        · exact hline hmem
        · exact hb hsame.symm

/-- The scan for lines starts afresh behind a line feed. -/
theorem linesFrom_append (hfront : front.getLast? = some 0x0A) (start back : Bytes) :
    linesFrom start (front ++ back) = linesFrom start front ++ lines back := by
  induction front generalizing start with
  | nil => simp at hfront
  | cons b front ih =>
      cases front with
      | nil =>
          obtain rfl : b = 0x0A := by simpa using hfront
          rfl
      | cons c front =>
          have hrest : (c :: front).getLast? = some 0x0A := by simpa using hfront
          rw [List.cons_append, linesFrom, linesFrom]
          split
          · rw [ih hrest, List.cons_append]
          · exact ih hrest (b :: start)

/-- The lines of a file in two parts. -/
theorem lines_append (hfront : Terminated front) (back : Bytes) :
    lines (front ++ back) = lines front ++ lines back := by
  rcases hfront with rfl | hfront
  · rfl
  · exact linesFrom_append hfront [] back

theorem linesFrom_lineFeed (hline : 0x0A ∉ line) (start rest : Bytes) :
    linesFrom start (line ++ 0x0A :: rest) = dropReturn (start.reverse ++ line) :: lines rest := by
  induction line generalizing start with
  | nil => simp [linesFrom, lines]
  | cons b line ih =>
      rw [List.mem_cons, not_or] at hline
      rw [List.cons_append, linesFrom, if_neg (Ne.symm hline.1), ih hline.2]
      simp

theorem linesFrom_last (hline : 0x0A ∉ line) (start : Bytes) :
    linesFrom start line = if start.reverse ++ line = [] then [] else [start.reverse ++ line] := by
  induction line generalizing start with
  | nil => simp [linesFrom]
  | cons b line ih =>
      rw [List.mem_cons, not_or] at hline
      rw [linesFrom, if_neg (Ne.symm hline.1), ih hline.2]
      simp

/-! ### Lines one after another -/

/-- The keys of some lines and then of others. -/
theorem ofLines_append (front back : List Bytes) :
    ofLines r (front ++ back) = (do
      let keys ← ofLines r front
      let more ← ofLines r back
      pure (keys ++ more)) := by
  induction front with
  | nil =>
      rw [List.nil_append, ofLines, ok_bind]
      cases ofLines r back <;> rfl
  | cons line front ih =>
      rw [List.cons_append, ofLines, ofLines, ih]
      cases ofRawLine? r line with
      | error fault => rfl
      | ok key? =>
          cases ofLines r front with
          | error fault => rfl
          | ok keys =>
              cases ofLines r back with
              | error fault => rfl
              | ok more => exact congrArg Except.ok (List.append_assoc key?.toList keys more).symm

/-- **A file that is cut behind a line feed is judged in two parts.** -/
theorem ofBytes_append (hfront : Terminated front) (back : Bytes) :
    ofBytes r (front ++ back) = (do
      let keys ← ofBytes r front
      let more ← ofBytes r back
      pure (keys ++ more)) := by
  rw [ofBytes, lines_append hfront, ofLines_append]
  rfl

/-- **All lines are read**, and their keys come in the order of the lines. -/
theorem ofLines_eq_ok_iff {content : List Bytes} {keys : List AuthorizedKey} :
    ofLines r content = .ok keys ↔
      ∃ grants, List.Forall₂ (fun line key? => ofRawLine? r line = .ok key?) content grants ∧
        keys = grants.reduceOption := by
  induction content generalizing keys with
  | nil =>
      rw [ofLines]
      constructor
      · rintro ⟨⟩
        exact ⟨[], .nil, rfl⟩
      · rintro ⟨grants, hgrants, rfl⟩
        cases hgrants
        rfl
  | cons line content ih =>
      rw [ofLines, bind_eq_ok_iff]
      constructor
      · rintro ⟨key?, hkey, h⟩
        obtain ⟨more, hmore, h⟩ := bind_eq_ok_iff.1 h
        obtain ⟨grants, hgrants, rfl⟩ := ih.1 hmore
        refine ⟨key? :: grants, .cons hkey hgrants, ?_⟩
        rw [← pure_eq_ok_iff.1 h]
        cases key? <;> rfl
      · rintro ⟨grants, hgrants, rfl⟩
        cases hgrants with
        | @cons _ key? _ grants hkey hrest =>
            refine ⟨key?, hkey, bind_eq_ok_iff.2 ⟨_, ih.2 ⟨grants, hrest, rfl⟩, ?_⟩⟩
            cases key? <;> rfl

/-- **The first line that cannot be read decides.** -/
theorem ofLines_eq_error_iff {content : List Bytes} {error : Error} :
    ofLines r content = .error error ↔
      ∃ before line after, content = before ++ line :: after ∧
        (∀ earlier ∈ before, ∃ key?, ofRawLine? r earlier = .ok key?) ∧
        ofRawLine? r line = .error error := by
  induction content with
  | nil => simp [ofLines]
  | cons first content ih =>
      rw [ofLines]
      cases hfirst : ofRawLine? r first with
      | error fault =>
          rw [error_bind]
          constructor
          · rintro ⟨⟩
            exact ⟨[], first, content, rfl, nofun, hfirst⟩
          · rintro ⟨before, line, after, hcontent, hbefore, hline⟩
            cases before with
            | nil =>
                obtain ⟨rfl, -⟩ := List.cons.inj hcontent
                rw [hfirst] at hline
                cases hline
                rfl
            | cons earlier before =>
                obtain ⟨rfl, -⟩ := List.cons.inj hcontent
                obtain ⟨key?, hkey⟩ := hbefore _ List.mem_cons_self
                rw [hfirst] at hkey
                cases hkey
      | ok key? =>
          have hmore : ((ofLines r content >>= fun keys => pure (key?.toList ++ keys)) =
              .error error) ↔ ofLines r content = .error error := by
            cases ofLines r content with
            | error fault => rfl
            | ok keys => exact iff_of_false nofun nofun
          rw [ok_bind, hmore, ih]
          constructor
          · rintro ⟨before, line, after, rfl, hbefore, hline⟩
            refine ⟨first :: before, line, after, rfl, ?_, hline⟩
            intro earlier hearlier
            rcases List.mem_cons.1 hearlier with rfl | hearlier
            · exact ⟨key?, hfirst⟩
            · exact hbefore earlier hearlier
          · rintro ⟨before, line, after, hcontent, hbefore, hline⟩
            cases before with
            | nil =>
                obtain ⟨rfl, -⟩ := List.cons.inj hcontent
                rw [hfirst] at hline
                cases hline
            | cons earlier before =>
                obtain ⟨rfl, rfl⟩ := List.cons.inj hcontent
                exact ⟨before, line, after, rfl,
                  fun other hother => hbefore other (List.mem_cons_of_mem _ hother), hline⟩

/-! ### Single lines -/

/-- **Blanks at the two ends of a line do not matter**, also if the line is no text. -/
theorem ofRawLine?_blanks {before after : String} (hbefore : ∀ c ∈ before.toList, isBlank c = true)
    (hafter : ∀ c ∈ after.toList, isBlank c = true) (line : Bytes) :
    ofRawLine? r (utf8Bytes before ++ line ++ utf8Bytes after) = ofRawLine? r line := by
  rw [ofRawLine?, ofRawLine?, ofUtf8?_back, ofUtf8?_front]
  cases ofUtf8? line with
  | none => rfl
  | some text => exact congrArg (AuthorizedKey.ofLine? r) (trim_blanks hbefore hafter text)

/-- A line of text grants what the text grants without the blanks at its ends. -/
theorem ofRawLine?_utf8Bytes (text : String) :
    ofRawLine? r (utf8Bytes text) = AuthorizedKey.ofLine? r (trim text) := by
  rw [ofRawLine?, ofUtf8?_utf8Bytes]

theorem ofRawLine?_dropReturn (line : Bytes) :
    ofRawLine? r (dropReturn line) = ofRawLine? r line := by
  rw [dropReturn]
  split
  · next hlast =>
      have hline : utf8Bytes "" ++ line.dropLast ++ utf8Bytes "\r" = line :=
        List.dropLast_append_getLast? 0x0D hlast
      have hbefore : ∀ c ∈ "".toList, isBlank c = true := by simp
      have hafter : ∀ c ∈ "\r".toList, isBlank c = true := by simp [isBlank]
      have hblanks := ofRawLine?_blanks (r := r) hbefore hafter line.dropLast
      rw [hline] at hblanks
      exact hblanks.symm
  · rfl

/-- A line whose first character other than a blank starts a comment, or that has none. -/
def Skipped (text : String) : Prop :=
  trim text = "" ∨ AuthorizedKey.startsComment (trim text).toList = true

instance (text : String) : Decidable (Skipped text) :=
  inferInstanceAs (Decidable (_ ∨ _))

theorem ofRawLine?_of_skipped {text : String} (h : Skipped text) :
    ofRawLine? r (utf8Bytes text) = .ok none := by
  rw [ofRawLine?_utf8Bytes]
  have hskip : (decide (trim text = "") ||
      AuthorizedKey.startsComment (trim text).toList) = true := by
    simpa [Skipped] using h
  exact if_pos hskip

/-- **A line is judged by itself**, however it ends, and then comes the rest of the file. -/
theorem ofBytes_line (hline : 0x0A ∉ line) (hback : EndsLine back rest) :
    ofBytes r (line ++ back) = (do
      let key? ← ofRawLine? r line
      let keys ← ofBytes r rest
      pure (key?.toList ++ keys)) := by
  cases hback with
  | last =>
      rw [List.append_nil, ofBytes, lines, linesFrom_last hline]
      split
      · next hnil =>
          -- behind the last line feed there is no line, and a blank one grants nothing
          obtain rfl : line = [] := hnil
          have hskipped : Skipped "" := .inl rfl
          have hblank : ofRawLine? r [] = .ok none := ofRawLine?_of_skipped hskipped
          rw [hblank]
          rfl
      · rfl
  | lineFeed =>
      rw [ofBytes, lines, linesFrom_lineFeed hline, ofLines, List.reverse_nil, List.nil_append,
        ofRawLine?_dropReturn]
      rfl
  | returned =>
      have hreturned : 0x0A ∉ line ++ [0x0D] := by simpa using hline
      have hdrop : dropReturn (line ++ [0x0D]) = line := by simp [dropReturn]
      have hsplit : line ++ 0x0D :: 0x0A :: rest = (line ++ [0x0D]) ++ 0x0A :: rest := by simp
      rw [hsplit, ofBytes, lines, linesFrom_lineFeed hreturned, ofLines, List.reverse_nil,
        List.nil_append, hdrop]
      rfl

/-! ### How lines are drawn -/

/-- A change to how the lines of a file are drawn. -/
inductive Retouch : Bytes → Bytes → Prop
  /-- A line that is blank or a comment comes in between two lines. -/
  | skipped {front : Bytes} {text : String} (back : Bytes) (hfront : Terminated front)
      (hline : '\n' ∉ text.toList) (hskipped : Skipped text) :
      Retouch (front ++ back) (front ++ (utf8Bytes text ++ 0x0A :: back))
  /-- A carriage return comes in front of a line feed. -/
  | returned (front back : Bytes) : Retouch (front ++ 0x0A :: back) (front ++ 0x0D :: 0x0A :: back)
  /-- Blanks come at the two ends of a line. -/
  | blanks {front line back rest : Bytes} {before after : String} (hfront : Terminated front)
      (hline : 0x0A ∉ line) (hback : EndsLine back rest)
      (hbefore : ∀ c ∈ before.toList, isBlank c = true ∧ c ≠ '\n')
      (hafter : ∀ c ∈ after.toList, isBlank c = true ∧ c ≠ '\n') :
      Retouch (front ++ (line ++ back))
        (front ++ (utf8Bytes before ++ line ++ utf8Bytes after ++ back))

theorem lineFeed_not_mem {text : String} (h : '\n' ∉ text.toList) : 0x0A ∉ utf8Bytes text :=
  fun hmem => h (mem_of_mem_utf8Bytes (by decide) hmem)

/-- **Each change keeps what a file grants**, and the error if it grants nothing. -/
theorem Retouch.ofBytes_eq {content content' : Bytes} (h : Retouch content content') :
    ofBytes r content' = ofBytes r content := by
  cases h with
  | @skipped front text back hfront hline hskipped =>
      rw [ofBytes_append hfront, ofBytes_append hfront,
        ofBytes_line (lineFeed_not_mem hline) (.lineFeed back), ofRawLine?_of_skipped hskipped,
        ok_bind]
      cases ofBytes r back <;> rfl
  | returned front back =>
      obtain ⟨front, line, rfl, hfront, hline⟩ := exists_line front
      rw [List.append_assoc, List.append_assoc, ofBytes_append hfront, ofBytes_append hfront,
        ofBytes_line hline (.returned back), ofBytes_line hline (.lineFeed back)]
  | @blanks front line back rest before after hfront hline hback hbefore hafter =>
      have hdrawn : 0x0A ∉ utf8Bytes before ++ line ++ utf8Bytes after := by
        have hfree : ∀ text : String, (∀ c ∈ text.toList, isBlank c = true ∧ c ≠ '\n') →
            0x0A ∉ utf8Bytes text := fun text htext =>
          lineFeed_not_mem fun hmem => (htext '\n' hmem).2 rfl
        simp [hfree before hbefore, hline, hfree after hafter]
      rw [ofBytes_append hfront, ofBytes_append hfront, ofBytes_line hdrawn hback,
        ofBytes_line hline hback, ofRawLine?_blanks (fun c hc => (hbefore c hc).1)
          (fun c hc => (hafter c hc).1)]

/-- Any number of changes, in either direction, keep what a file grants. -/
theorem ofBytes_eq_of_eqvGen {content content' : Bytes}
    (h : Relation.EqvGen Retouch content content') : ofBytes r content' = ofBytes r content := by
  induction h with
  | rel _ _ h => exact h.ofBytes_eq
  | refl _ => rfl
  | symm _ _ _ ih => exact ih.symm
  | trans _ _ _ _ _ ih ih' => exact ih'.trans ih

/-- A file with a carriage return in front of each line feed. -/
def withReturns (content : Bytes) : Bytes :=
  content.flatMap fun b => if b = 0x0A then [0x0D, 0x0A] else [b]

/-- The carriage returns come one after another. -/
theorem retouch_withReturns (front content : Bytes) :
    Relation.EqvGen Retouch (front ++ content) (front ++ withReturns content) := by
  induction content generalizing front with
  | nil => exact .refl _
  | cons b content ih =>
      by_cases hb : b = 0x0A
      · subst hb
        have hstep := Relation.EqvGen.rel _ _ (Retouch.returned front content)
        have hrest := ih (front ++ [0x0D, 0x0A])
        rw [List.append_assoc, List.append_assoc] at hrest
        exact hstep.trans _ _ _ hrest
      · have hrest := ih (front ++ [b])
        rw [List.append_assoc, List.append_assoc] at hrest
        rw [withReturns, List.flatMap_cons, if_neg hb]
        exact hrest

/-! ### The whole file -/

/-- **A file grants the keys of all of its lines, or none at all.**  A file in two parts grants what
its parts grant, one after the other; how its lines are drawn does not matter; and the first line
that cannot be read decides, whatever follows it.  A line of text is read as it is without the
blanks at its ends; a line that is no text cannot be read. -/
theorem granted_whole_or_not (r : Registry) :
    (∀ front back, Terminated front →
      ofBytes r (front ++ back) = (do
        let keys ← ofBytes r front
        let more ← ofBytes r back
        pure (keys ++ more))) ∧
    (∀ content content', Relation.EqvGen Retouch content content' →
      ofBytes r content' = ofBytes r content) ∧
    (∀ content, ofBytes r (withReturns content) = ofBytes r content) ∧
    (∀ content keys, ofBytes r content = .ok keys ↔
      ∃ grants,
        List.Forall₂ (fun line key? => ofRawLine? r line = .ok key?) (lines content) grants ∧
          keys = grants.reduceOption) ∧
    (∀ content error, ofBytes r content = .error error ↔
      ∃ before line after, lines content = before ++ line :: after ∧
        (∀ earlier ∈ before, ∃ key?, ofRawLine? r earlier = .ok key?) ∧
        ofRawLine? r line = .error error) ∧
    (∀ front line back rest error, Terminated front → 0x0A ∉ line → EndsLine back rest →
      (∃ keys, ofBytes r front = .ok keys) → ofRawLine? r line = .error error →
      ofBytes r (front ++ (line ++ back)) = .error error) ∧
    (∀ text, ofRawLine? r (utf8Bytes text) = AuthorizedKey.ofLine? r (trim text)) ∧
    ∀ line, ofUtf8? line = none → ofRawLine? r line = .error (.file .invalidData) := by
  refine ⟨?_, ?_, ?_, ?_, ?_, ?_, ?_, ?_⟩
  · intro front back hfront
    exact ofBytes_append hfront back
  · intro content content' h
    exact ofBytes_eq_of_eqvGen h
  · intro content
    exact ofBytes_eq_of_eqvGen (retouch_withReturns [] content)
  · intro content keys
    exact ofLines_eq_ok_iff
  · intro content error
    exact ofLines_eq_error_iff
  · rintro front line back rest error hfront hline hback ⟨keys, hkeys⟩ herror
    rw [ofBytes_append hfront, hkeys, ofBytes_line hline hback, herror]
    rfl
  · intro text
    exact ofRawLine?_utf8Bytes text
  · intro line hline
    rw [ofRawLine?, hline]

/-- Behind a line that grants a key stands one without a delimiter, or one that is no text.  The
file grants nothing, not even the key, whatever comes next, and with a comment in between as well as
without. -/
theorem granted_whole_or_not_bad_line :
    let front := utf8Bytes "no-pty ssh-rsa AAAA me\n"
    Terminated front ∧
    (∃ key, ofBytes .empty front = .ok [key] ∧ key.comment? = some "me") ∧
    (∀ rest, ofBytes .empty (front ++ (utf8Bytes " ssh-rsa " ++ 0x0D :: 0x0A :: rest)) =
      .error (.badFormat .noDelimiter "ssh-rsa")) ∧
    (∀ rest, ofBytes .empty (front ++ ([0xFF] ++ 0x0A :: rest)) = .error (.file .invalidData)) ∧
    (∀ back, ofBytes .empty (front ++ (utf8Bytes " # c" ++ 0x0A :: back)) =
      ofBytes .empty (front ++ back)) ∧
    ∀ back, ofBytes .empty (front ++ back) = (do
      let keys ← ofBytes .empty front
      let more ← ofBytes .empty back
      pure (keys ++ more)) := by
  intro front
  have hfront : Terminated front := by decide
  have hkey : ofBytes .empty front =
      .ok [⟨⟨"ssh-rsa", [0, 0, 0]⟩, ⟨[.flag "no-pty"]⟩, some "me"⟩] := rfl
  obtain ⟨happend, hdrawn, -, -, -, hfirst, htext, hnoText⟩ := granted_whole_or_not .empty
  refine ⟨hfront, ⟨_, hkey, rfl⟩, ?_, ?_, ?_, fun back => happend front back hfront⟩
  · intro rest
    have hbad : ofRawLine? .empty (utf8Bytes " ssh-rsa ") =
        .error (.badFormat .noDelimiter "ssh-rsa") := (htext " ssh-rsa ").trans rfl
    exact hfirst _ _ _ rest _ hfront (by decide) (.returned rest) ⟨_, hkey⟩ hbad
  · intro rest
    exact hfirst _ _ _ rest _ hfront (by decide) (.lineFeed rest) ⟨_, hkey⟩
      (hnoText _ (by decide))
  · intro back
    exact hdrawn _ _ (.rel _ _ (.skipped back hfront (by decide) (by decide)))

end AuthorizedKeys

end SshKeys
