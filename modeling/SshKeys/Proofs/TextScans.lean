/-
**What cuts and scans see.**

A plain cut ends at the first delimiter.  A quote-aware cut ends at the first delimiter that stands
outside quotes, and splitting a text is cutting it again and again.  What is cut off starts and
ends outside quotes, so each item can be scanned on its own.

Main definitions:

* `SshKeys.quotedThrough` — whether the scan is inside quotes after a whole text;
* `SshKeys.Hidden` — every occurrence of a character stands inside quotes.

Main results:

* `SshKeys.trimChars_eq_self`, `SshKeys.exists_blanks` — what trimming takes away;
* `SshKeys.cutAt?_eq_some_iff`, `SshKeys.cutFrom?_eq_some_iff` — where a text is cut;
* `SshKeys.splitFrom_append`, `SshKeys.splitFrom_of_hidden` — splitting is repeated cutting;
* `SshKeys.hidden_of_mem_splitFrom` — **each item is a scan of its own**.
-/

import SshKeys.Text.Ascii
import SshKeys.Text.Scan

set_option relaxedAutoImplicit false
set_option autoImplicit false

namespace SshKeys

/-! ### Trimming -/

/-- A text that neither starts nor ends with a blank stays as it is. -/
theorem trimChars_eq_self {cs : List Char} (hhead : ∀ c ∈ cs.head?, isBlank c = false)
    (hlast : ∀ c ∈ cs.getLast?, isBlank c = false) : trimChars cs = cs := by
  have hdrop : ∀ ds : List Char, (∀ c ∈ ds.head?, isBlank c = false) →
      ds.dropWhile isBlank = ds := by
    intro ds hds
    cases ds with
    | nil => rfl
    | cons c ds => rw [List.dropWhile_cons_of_neg (by simp [hds c (by simp)])]
  rw [trimChars, hdrop cs hhead, hdrop cs.reverse (by simpa using hlast), List.reverse_reverse]

/-- Trimming takes blanks away, and nothing else. -/
theorem exists_blanks (cs : List Char) : ∃ before after,
    (∀ c ∈ before, isBlank c = true) ∧ (∀ c ∈ after, isBlank c = true) ∧
      cs = before ++ trimChars cs ++ after := by
  refine ⟨cs.takeWhile isBlank, (((cs.dropWhile isBlank).reverse).takeWhile isBlank).reverse,
    ?_, ?_, ?_⟩
  · exact List.all_eq_true.1 List.all_takeWhile
  · intro c hc
    exact List.all_eq_true.1 List.all_takeWhile c (List.mem_reverse.1 hc)
  · rw [trimChars, List.append_assoc, ← List.reverse_append, List.takeWhile_append_dropWhile,
      List.reverse_reverse, List.takeWhile_append_dropWhile]

theorem head?_trimChars (cs : List Char) : ∀ c ∈ (trimChars cs).head?, isBlank c = false := by
  intro c hc
  have hprefix : trimChars cs <+: cs.dropWhile isBlank := by
    rw [trimChars, ← List.reverse_suffix, List.reverse_reverse]
    exact List.dropWhile_suffix _
  obtain ⟨rest, hrest⟩ := hprefix
  have hhead : (cs.dropWhile isBlank).head? = some c := by
    rw [← hrest, List.head?_append, Option.mem_def.1 hc]
    rfl
  have hnot := List.head?_dropWhile_not isBlank cs
  rw [hhead] at hnot
  simpa using hnot

theorem getLast?_trimChars (cs : List Char) :
    ∀ c ∈ (trimChars cs).getLast?, isBlank c = false := by
  intro c hc
  rw [trimChars, List.getLast?_reverse] at hc
  have hnot := List.head?_dropWhile_not isBlank (cs.dropWhile isBlank).reverse
  rw [Option.mem_def.1 hc] at hnot
  simpa using hnot

@[simp] theorem trimChars_trimChars (cs : List Char) :
    trimChars (trimChars cs) = trimChars cs :=
  trimChars_eq_self (head?_trimChars cs) (getLast?_trimChars cs)

theorem trimChars_sublist (cs : List Char) : (trimChars cs).Sublist cs := by
  obtain ⟨before, after, -, -, heq⟩ := exists_blanks cs
  conv => rhs; rw [heq]
  exact (List.sublist_append_right _ _).trans (List.sublist_append_left _ _)

/-- A character that is no blank does not stand among blanks. -/
theorem not_mem_of_blanks {c : Char} (hc : isBlank c = false) {blanks : List Char}
    (h : ∀ c ∈ blanks, isBlank c = true) : c ∉ blanks := by
  intro hmem
  rw [h c hmem] at hc
  exact Bool.noConfusion hc

/-- Trimming keeps every character that is no blank. -/
theorem mem_trimChars_iff {c : Char} (hc : isBlank c = false) {cs : List Char} :
    c ∈ trimChars cs ↔ c ∈ cs := by
  obtain ⟨before, after, hbefore, hafter, heq⟩ := exists_blanks cs
  conv => rhs; rw [heq]
  simp [not_mem_of_blanks hc hbefore, not_mem_of_blanks hc hafter]

/-- Blanks around a text do not matter. -/
theorem trimChars_blanks {before after : List Char} (hbefore : ∀ c ∈ before, isBlank c = true)
    (hafter : ∀ c ∈ after, isBlank c = true) (cs : List Char) :
    trimChars (before ++ cs ++ after) = trimChars cs := by
  have hreverse : ∀ c ∈ after.reverse, isBlank c = true := fun c hc =>
    hafter c (List.mem_reverse.1 hc)
  rw [trimChars, List.append_assoc, List.dropWhile_append_of_pos hbefore, List.dropWhile_append]
  split
  · next hblank =>
      -- the text is blank throughout, and nothing is left on either side
      have hnil : cs.dropWhile isBlank = [] := by simpa using hblank
      have hall : (after ++ []).dropWhile isBlank = [] := List.dropWhile_append_of_pos hafter
      rw [List.append_nil] at hall
      rw [hall, trimChars, hnil]
  · rw [List.reverse_append, List.dropWhile_append_of_pos hreverse, trimChars]

/-- Neither the space nor any other blank is printable. -/
theorem isBlank_of_isGraphic {c : Char} (h : isGraphic c = true) : isBlank c = false := by
  simp only [isGraphic, Bool.and_eq_true, decide_eq_true_eq] at h
  simp only [isBlank, Bool.or_eq_false_iff, Bool.and_eq_false_iff, decide_eq_false_iff_not,
    beq_eq_false_iff_ne]
  omega

theorem trimChars_of_isGraphic {cs : List Char} (h : ∀ c ∈ cs, isGraphic c = true) :
    trimChars cs = cs :=
  trimChars_eq_self (fun c hc => isBlank_of_isGraphic (h c (List.mem_of_mem_head? hc)))
    fun c hc => isBlank_of_isGraphic (h c (List.mem_of_mem_getLast? hc))

/-! ### Plain cuts -/

theorem cutAt?_eq_none_iff {d : Char} {cs : List Char} : cutAt? d cs = none ↔ d ∉ cs := by
  induction cs with
  | nil => simp [cutAt?]
  | cons c cs ih =>
      rw [cutAt?]
      split
      · next h => simp [h]
      · next h => simp [ih, Ne.symm h]

/-- A plain cut ends at the first delimiter. -/
theorem cutAt?_eq_some_iff {d : Char} {cs before after : List Char} :
    cutAt? d cs = some (before, after) ↔ cs = before ++ d :: after ∧ d ∉ before := by
  constructor
  · intro h
    refine ⟨eq_of_cutAt? h, ?_⟩
    induction cs generalizing before with
    | nil => simp [cutAt?] at h
    | cons c cs ih =>
        rw [cutAt?] at h
        split at h
        · obtain ⟨rfl, rfl⟩ := Prod.mk.inj (Option.some.inj h)
          simp
        · next hc =>
            obtain ⟨⟨before', after'⟩, hcut, hpair⟩ := Option.map_eq_some_iff.1 h
            obtain ⟨rfl, rfl⟩ := Prod.mk.inj hpair
            simp [ih hcut, Ne.symm hc]
  · rintro ⟨rfl, hd⟩
    induction before with
    | nil => simp [cutAt?]
    | cons c before ih =>
        simp only [List.mem_cons, not_or] at hd
        rw [List.cons_append, cutAt?, if_neg (Ne.symm hd.1), ih hd.2]
        rfl

/-! ### Scans -/

/-- Whether the scan is inside double quotes after a text. -/
def quotedThrough (quoted : Bool) (cs : List Char) : Bool := cs.foldl quotedAfter quoted

@[simp] theorem quotedThrough_nil (quoted : Bool) : quotedThrough quoted [] = quoted := rfl

@[simp] theorem quotedThrough_cons (quoted : Bool) (c : Char) (cs : List Char) :
    quotedThrough quoted (c :: cs) = quotedThrough (quotedAfter quoted c) cs := rfl

@[simp] theorem quotedThrough_append (quoted : Bool) (cs ds : List Char) :
    quotedThrough quoted (cs ++ ds) = quotedThrough (quotedThrough quoted cs) ds := by
  simp [quotedThrough, List.foldl_append]

@[simp] theorem quotedAfter_quote (quoted : Bool) : quotedAfter quoted '"' = !quoted := by
  simp [quotedAfter]

theorem quotedAfter_of_ne {c : Char} (h : c ≠ '"') (quoted : Bool) :
    quotedAfter quoted c = quoted := by
  simp [quotedAfter, h]

/-- A scan that starts on the other side of the quotes ends on the other side. -/
theorem quotedThrough_not (quoted : Bool) (cs : List Char) :
    quotedThrough (!quoted) cs = !quotedThrough quoted cs := by
  induction cs generalizing quoted with
  | nil => rfl
  | cons c cs ih =>
      have hstep : quotedAfter (!quoted) c = !quotedAfter quoted c := by
        rw [quotedAfter, quotedAfter]
        split <;> rfl
      rw [quotedThrough_cons, quotedThrough_cons, hstep, ih]

theorem quotedThrough_of_not_mem {cs : List Char} (h : '"' ∉ cs) (quoted : Bool) :
    quotedThrough quoted cs = quoted := by
  induction cs with
  | nil => rfl
  | cons c cs ih =>
      simp only [List.mem_cons, not_or] at h
      rw [quotedThrough_cons, quotedAfter_of_ne (Ne.symm h.1), ih h.2]

/-- Every `d` in a text stands inside double quotes, when the scan starts inside quotes or outside
of them as `quoted` says. -/
def Hidden (d : Char) (quoted : Bool) : List Char → Prop
  | [] => True
  | c :: cs => ¬(c = d ∧ quotedAfter quoted c = false) ∧ Hidden d (quotedAfter quoted c) cs

instance (d : Char) : (quoted : Bool) → (cs : List Char) → Decidable (Hidden d quoted cs)
  | _, [] => inferInstanceAs (Decidable True)
  | quoted, c :: cs =>
    have := instDecidableHidden d (quotedAfter quoted c) cs
    inferInstanceAs (Decidable (_ ∧ _))

@[simp] theorem hidden_nil (d : Char) (quoted : Bool) : Hidden d quoted [] := trivial

@[simp] theorem hidden_cons {d c : Char} {quoted : Bool} {cs : List Char} :
    Hidden d quoted (c :: cs) ↔
      ¬(c = d ∧ quotedAfter quoted c = false) ∧ Hidden d (quotedAfter quoted c) cs := Iff.rfl

@[simp] theorem hidden_append {d : Char} {quoted : Bool} {cs ds : List Char} :
    Hidden d quoted (cs ++ ds) ↔ Hidden d quoted cs ∧ Hidden d (quotedThrough quoted cs) ds := by
  induction cs generalizing quoted with
  | nil => simp
  | cons c cs ih => simp [ih, and_assoc]

theorem hidden_of_not_mem {d : Char} {cs : List Char} (h : d ∉ cs) (quoted : Bool) :
    Hidden d quoted cs := by
  induction cs generalizing quoted with
  | nil => trivial
  | cons c cs ih =>
      simp only [List.mem_cons, not_or] at h
      exact ⟨fun hc => h.1 hc.1.symm, ih h.2 _⟩

/-- Inside quotes everything is hidden, up to the next quote. -/
theorem hidden_in_quotes {d : Char} {cs : List Char} (h : '"' ∉ cs) : Hidden d true cs := by
  induction cs with
  | nil => trivial
  | cons c cs ih =>
      simp only [List.mem_cons, not_or] at h
      rw [hidden_cons, quotedAfter_of_ne (Ne.symm h.1)]
      exact ⟨by simp, ih h.2⟩

/-- Trimming takes no quote away. -/
theorem quotedThrough_trimChars (quoted : Bool) (cs : List Char) :
    quotedThrough quoted (trimChars cs) = quotedThrough quoted cs := by
  obtain ⟨before, after, hbefore, hafter, heq⟩ := exists_blanks cs
  have hquote : isBlank '"' = false := rfl
  conv => rhs; rw [heq]
  rw [quotedThrough_append, quotedThrough_append,
    quotedThrough_of_not_mem (not_mem_of_blanks hquote hbefore),
    quotedThrough_of_not_mem (not_mem_of_blanks hquote hafter)]

theorem Hidden.trimChars {d : Char} {quoted : Bool} {cs : List Char} (h : Hidden d quoted cs) :
    Hidden d quoted (trimChars cs) := by
  obtain ⟨before, after, hbefore, -, heq⟩ := exists_blanks cs
  have hnone : '"' ∉ before := not_mem_of_blanks rfl hbefore
  rw [heq, hidden_append, hidden_append, quotedThrough_of_not_mem hnone] at h
  exact h.1.2

/-! ### Quote-aware cuts -/

variable {d : Char} {quoted : Bool}

/-- The test that a scan makes at each character. -/
theorem cuts_iff {c : Char} : (decide (c = d) && !quotedAfter quoted c) = true ↔
    c = d ∧ quotedAfter quoted c = false := by
  simp only [Bool.and_eq_true, decide_eq_true_eq, Bool.not_eq_true']

theorem Hidden.not_cuts {c : Char} {cs : List Char} (h : Hidden d quoted (c :: cs)) :
    ¬(decide (c = d) && !quotedAfter quoted c) = true :=
  fun hcuts => h.1 (cuts_iff.1 hcuts)

theorem cutFrom?_eq_none_iff {cs : List Char} :
    cutFrom? d quoted cs = none ↔ Hidden d quoted cs := by
  induction cs generalizing quoted with
  | nil => simp [cutFrom?]
  | cons c cs ih =>
      rw [cutFrom?, hidden_cons, ← ih]
      split
      · next h => exact iff_of_false (by simp) fun hhidden => hhidden.1 (cuts_iff.1 h)
      · next h => simp [mt cuts_iff.2 h]

/-- A quote-aware cut ends at the first delimiter outside quotes. -/
theorem cutFrom?_eq_some_iff (hd : d ≠ '"') {cs before after : List Char} :
    cutFrom? d quoted cs = some (before, after) ↔
      cs = before ++ d :: after ∧ Hidden d quoted before ∧ quotedThrough quoted before = false := by
  constructor
  · intro h
    refine ⟨eq_of_cutFrom? h, ?_⟩
    induction cs generalizing quoted before with
    | nil => simp [cutFrom?] at h
    | cons c cs ih =>
        rw [cutFrom?] at h
        split at h
        · next hc =>
            obtain ⟨rfl, rfl⟩ := Prod.mk.inj (Option.some.inj h)
            obtain ⟨rfl, hquoted⟩ := cuts_iff.1 hc
            rw [quotedAfter_of_ne hd] at hquoted
            exact ⟨trivial, hquoted⟩
        · next hc =>
            obtain ⟨⟨before', after'⟩, hcut, hpair⟩ := Option.map_eq_some_iff.1 h
            obtain ⟨rfl, rfl⟩ := Prod.mk.inj hpair
            obtain ⟨hhidden, hquoted⟩ := ih hcut
            exact ⟨⟨mt cuts_iff.2 hc, hhidden⟩, hquoted⟩
  · rintro ⟨rfl, hhidden, hquoted⟩
    induction before generalizing quoted with
    | nil =>
        rw [quotedThrough_nil] at hquoted
        simp [cutFrom?, quotedAfter_of_ne hd, hquoted]
    | cons c before ih =>
        rw [List.cons_append, cutFrom?, if_neg hhidden.not_cuts, ih hhidden.2 hquoted]
        rfl

/-- A text without a delimiter outside quotes is passed over by a cut. -/
theorem cutFrom?_append {cs : List Char} (h : Hidden d quoted cs) (ds : List Char) :
    cutFrom? d quoted (cs ++ ds) =
      (cutFrom? d (quotedThrough quoted cs) ds).map
        fun (before, after) => (cs ++ before, after) := by
  induction cs generalizing quoted with
  | nil =>
      rw [List.nil_append, quotedThrough_nil]
      cases cutFrom? d quoted ds with
      | none => rfl
      | some pair => rfl
  | cons c cs ih =>
      rw [List.cons_append, cutFrom?, if_neg h.not_cuts, ih h.2, Option.map_map]
      rfl

/-! ### Splitting -/

theorem splitFrom_of_hidden {cs : List Char} (h : Hidden d quoted cs) :
    splitFrom d quoted cs = [cs] := by
  induction cs generalizing quoted with
  | nil => rfl
  | cons c cs ih =>
      rw [splitFrom, if_neg h.not_cuts, ih h.2]
      rfl

/-- Splitting is cutting off the first item and splitting what follows. -/
theorem splitFrom_append (hd : d ≠ '"') {before : List Char} (after : List Char)
    (hhidden : Hidden d quoted before) (hquoted : quotedThrough quoted before = false) :
    splitFrom d quoted (before ++ d :: after) = before :: splitFrom d false after := by
  induction before generalizing quoted with
  | nil =>
      rw [quotedThrough_nil] at hquoted
      simp [splitFrom, quotedAfter_of_ne hd, hquoted]
  | cons c before ih =>
      rw [List.cons_append, splitFrom, if_neg hhidden.not_cuts, ih hhidden.2 hquoted]
      rfl

/-- A text has a delimiter outside quotes, and is cut there, or it is a single item. -/
theorem splitFrom_cases (hd : d ≠ '"') (quoted : Bool) (cs : List Char) :
    Hidden d quoted cs ∧ splitFrom d quoted cs = [cs] ∨
      ∃ before after, cs = before ++ d :: after ∧ Hidden d quoted before ∧
        quotedThrough quoted before = false ∧
        splitFrom d quoted cs = before :: splitFrom d false after := by
  cases hcut : cutFrom? d quoted cs with
  | none =>
      have hhidden := cutFrom?_eq_none_iff.1 hcut
      exact Or.inl ⟨hhidden, splitFrom_of_hidden hhidden⟩
  | some pair =>
      obtain ⟨before, after⟩ := pair
      obtain ⟨rfl, hhidden, hquoted⟩ := (cutFrom?_eq_some_iff hd).1 hcut
      exact Or.inr ⟨before, after, rfl, hhidden, hquoted, splitFrom_append hd after hhidden hquoted⟩

/-- **Each item is a scan of its own.**  It hides the delimiter, it hides what the whole text hides,
and it ends outside quotes if the whole text does. -/
theorem hidden_of_mem_splitFrom (hd : d ≠ '"') {cs item : List Char}
    (hitem : item ∈ splitFrom d false cs) :
    Hidden d false item ∧ (∀ e, Hidden e false cs → Hidden e false item) ∧
      (quotedThrough false cs = false → quotedThrough false item = false) := by
  -- induction on the number of delimiters that are left, by way of the length
  induction hlength : cs.length using Nat.strongRecOn generalizing cs with
  | ind n ih =>
      rcases splitFrom_cases hd false cs with
        ⟨hhidden, hsplit⟩ | ⟨before, after, rfl, hhidden, hquoted, hsplit⟩
      · rw [hsplit, List.mem_singleton] at hitem
        subst hitem
        exact ⟨hhidden, fun _ h => h, id⟩
      · rw [hsplit, List.mem_cons] at hitem
        rcases hitem with rfl | hrest
        · exact ⟨hhidden, fun e he => (hidden_append.1 he).1, fun _ => hquoted⟩
        · have hshorter : after.length < n := by
            rw [← hlength, List.length_append, List.length_cons]
            omega
          obtain ⟨hitem, hkeeps, hcloses⟩ := ih after.length hshorter hrest rfl
          have hafter : quotedThrough false (before ++ d :: after) = quotedThrough false after := by
            rw [quotedThrough_append, hquoted, quotedThrough_cons, quotedAfter_of_ne hd]
          refine ⟨hitem, ?_, ?_⟩
          · intro e he
            have hright := (hidden_append.1 he).2
            rw [hquoted, hidden_cons, quotedAfter_of_ne hd] at hright
            exact hkeeps e hright.2
          · intro hclosed
            exact hcloses (hafter.symm.trans hclosed)

end SshKeys
