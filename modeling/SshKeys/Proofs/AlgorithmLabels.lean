/-
**Which byte strings are read as algorithms.**

An algorithm is written as its name, and a name is read in three steps: there has to be room for its
bytes, they have to be a text, and the text has to be a name.  What is left is told by the step that
failed, and is the same whatever is read from.  A byte string comes through exactly if it has from
one to 64 bytes, each of them a printable ASCII character other than the space and the comma.

Main definitions:

* `SshKeys.Decoder.EndsAfter` — how a decoder ends, and how many bytes it has taken then;
* `SshKeys.NamesAlgorithm` — the byte strings that are the name of an algorithm.

Main results:

* `SshKeys.Decoder.Settled.endsAfter` — a settled decoder is judged on a byte string alone;
* `SshKeys.Decoder.label_endsAfter_parse` — where there is room for a text, it is all that is taken;
* `SshKeys.namesAlgorithm_iff` — the names among the byte strings and among the texts;
* `SshKeys.Algorithm.label_ends_by_grammar` — **a byte string is read as an algorithm exactly if it
  is a name**.
-/

import Mathlib.Data.List.Basic
import SshKeys.Proofs.CharacterBounds
import SshKeys.Proofs.NamesOnWire
import SshKeys.Proofs.SettledReads

set_option relaxedAutoImplicit false
set_option autoImplicit false

namespace SshKeys

/-! ### How decoders end -/

namespace Decoder

variable {α : Type}

/-- A decoder ends with a result once it has taken so many bytes, off a byte string and out of a
buffer alike. -/
def EndsAfter (d : Decoder α) (bs : Bytes) (count : Nat) (result : Except Error α) : Prop :=
  outcome (d.run bs) = (result, bs.drop count) ∧
    ∀ b : Buffer, b.WellFormed → b.unread = bs → outcome (d.run b) = (result, b.advance count)

/-- What is left of a byte string tells where a settled decoder leaves a buffer. -/
theorem Settled.endsAfter {d : Decoder α} (hd : d.Settled) {bs : Bytes} {count : Nat}
    {result : Except Error α} (hcount : count ≤ bs.length)
    (h : outcome (d.run bs) = (result, bs.drop count)) : d.EndsAfter bs count result := by
  refine ⟨h, ?_⟩
  rintro b hb rfl
  rw [Buffer.length_unread hb] at hcount
  have hsettled := hd b hb
  rcases Buffer.run_cases d hb with
    ⟨a, taken, htaken, hbuffer, hbytes⟩ | ⟨error, taken, left, htaken, hbuffer, hbytes⟩
  · rw [hbytes] at h
    obtain ⟨rfl, hleft⟩ := Prod.mk.inj h
    have hsame : taken = count := Buffer.unread_advance_eq hb htaken hcount (by simpa using hleft)
    rw [hbuffer, hsame]
    rfl
  · rw [hbytes] at h
    obtain ⟨rfl, hleft⟩ := Prod.mk.inj h
    rw [hbuffer, hbytes] at hsettled
    have hview : (b.advance taken).unread = left := (EStateM.Result.error.inj hsettled).2
    have hsame : taken = count := Buffer.unread_advance_eq hb htaken hcount (hview.trans hleft)
    rw [hbuffer, hsame]
    rfl

theorem EndsAfter.unique {d : Decoder α} {bs : Bytes} {m n : Nat} {result result' : Except Error α}
    (h : d.EndsAfter bs m result) (h' : d.EndsAfter bs n result') : result = result' :=
  congrArg Prod.fst (h.1.symm.trans h'.1)

/-! ### Names behind their length -/

/-- A stretch in which a decoder fails is left as it was, behind its length. -/
theorem run_framed_of_error {body : Decoder α} {s left : Bytes} {error : Error} (hfit : Fits s)
    (h : body.run s = .error error left) (rest : Bytes) :
    body.framed.run (prefixed s ++ rest) = .error error (s ++ rest) := by
  have hlength : length.Reads (prefixed s ++ rest) s.length (s ++ rest) :=
    reads_length.2 ⟨hfit, by rw [prefixed, List.append_assoc]⟩
  have hstretch : ¬(s ++ rest).length < s.length := by simp
  rw [framed, hlength.run_bind, run, bind_apply, Source.confine]
  simp only [instSourceBytes, ByteSource.confine, if_neg hstretch, List.take_left' rfl, h]

/-- The room is compared with the length before anything behind the length is taken. -/
theorem run_stringWithin {s : Bytes} (hfit : Fits s) (capacity : Nat) (rest : Bytes) :
    (stringWithin capacity).run (prefixed s ++ rest) =
      if s.length ≤ capacity then .ok s rest else .error (.wire .length) (s ++ rest) := by
  split
  · next hroom =>
      exact reads_stringWithin.2 ⟨hroom, hfit, rfl⟩
  · next hroom =>
      have hcount : countLeft.Reads s s.length s := reads_countLeft.2 ⟨rfl, rfl⟩
      have hbody : (countLeft >>= fun count =>
          if count ≤ capacity then bytes count else failWire .length).run s =
            .error (.wire .length) s := by
        rw [hcount.run_bind, if_neg hroom]
        rfl
      exact run_framed_of_error hfit hbody rest

theorem drop_length_prefixed (s rest : Bytes) : (prefixed s ++ rest).drop 4 = s ++ rest := by
  rw [prefixed, List.append_assoc, List.drop_left' (length_bigEndian 4 s.length)]

theorem drop_prefixed (s rest : Bytes) : (prefixed s ++ rest).drop (4 + s.length) = rest :=
  List.drop_left' (length_prefixed s)

section

variable [Label α] {s : Bytes} (hfit : Fits s) (rest : Bytes)

include hfit

/-- Without room for a name, nothing behind its length is taken. -/
theorem label_endsAfter_of_lt (hroom : labelCapacity < s.length) :
    (label : Decoder α).EndsAfter (prefixed s ++ rest) 4 (.error (.wire .length)) := by
  refine settled_label.endsAfter (by simp; omega) ?_
  rw [drop_length_prefixed, outcome_eq_error, label, run_bind, bind_apply, textWithin, run_bind,
    bind_apply, run_stringWithin hfit, if_neg (Nat.not_le_of_lt hroom)]

variable (hroom : s.length ≤ labelCapacity)

include hroom

theorem label_endsAfter_of_none (htext : ofUtf8? s = none) :
    (label : Decoder α).EndsAfter (prefixed s ++ rest) (4 + s.length)
      (.error (.wire .characterEncoding)) := by
  have hread : (stringWithin labelCapacity).Reads (prefixed s ++ rest) s rest :=
    reads_stringWithin.2 ⟨hroom, hfit, rfl⟩
  refine settled_label.endsAfter (by simp) ?_
  rw [drop_prefixed, outcome_eq_error, label, run_bind, bind_apply, textWithin, hread.run_bind,
    ofUtf8, htext]
  rfl

theorem label_endsAfter_parse {text : String} (htext : utf8Bytes text = s) :
    (label : Decoder α).EndsAfter (prefixed s ++ rest) (4 + s.length) (Label.parse text) := by
  have hread : (textWithin labelCapacity).Reads (prefixed s ++ rest) text rest :=
    reads_bind.2 ⟨s, rest, reads_stringWithin.2 ⟨hroom, hfit, rfl⟩, reads_ofUtf8.2 ⟨htext, rfl⟩⟩
  refine settled_label.endsAfter (by simp) ?_
  rw [drop_prefixed, label, hread.run_bind]
  cases Label.parse (α := α) text <;> rfl

end

end Decoder

/-- A value that is written as its name is written behind the length of it. -/
theorem Encoding.toBytes_label {α : Type} [Label α] [LawfulLabel α] (a : α) :
    (Encoding.label a).toBytes = .ok (prefixed (utf8Bytes (Label.name a))) := by
  have hfew : [utf8Bytes (Label.name a)].length < 2 ^ 32 := by
    rw [List.length_singleton]
    decide
  have hwritten := (Encoding.spells_label a).toBytes_eq (by simpa using fits_label a) hfew
  rw [hwritten.1, prefixedAll_cons, prefixedAll_nil, List.append_nil]

/-! ### Names among the byte strings -/

/-- A byte that may stand in the name of an algorithm: a printable ASCII character other than the
space and the comma. -/
def IsNameByte (b : UInt8) : Prop := 0x21 ≤ b ∧ b ≤ 0x7E ∧ b ≠ 0x2C

instance (b : UInt8) : Decidable (IsNameByte b) :=
  inferInstanceAs (Decidable (0x21 ≤ b ∧ b ≤ 0x7E ∧ b ≠ 0x2C))

/-- A byte string that is the name of an algorithm. -/
def NamesAlgorithm (s : Bytes) : Prop := 1 ≤ s.length ∧ s.length ≤ 64 ∧ ∀ b ∈ s, IsNameByte b

instance (s : Bytes) : Decidable (NamesAlgorithm s) :=
  inferInstanceAs (Decidable (1 ≤ s.length ∧ s.length ≤ 64 ∧ ∀ b ∈ s, IsNameByte b))

theorem isNameByte_iff {b : UInt8} :
    IsNameByte b ↔ isGraphic (Char.ofUInt8 b) = true ∧ Char.ofUInt8 b ≠ ',' := by
  have hnumber : (Char.ofUInt8 b).toNat = b.toNat := rfl
  have hcomma : Char.ofUInt8 b = ',' ↔ b = 0x2C := by
    rw [Char.ext_iff, ← UInt32.toNat_inj, ← UInt8.toNat_inj]
    exact Iff.rfl
  rw [IsNameByte, isGraphic, hnumber, Bool.and_eq_true, decide_eq_true_eq, decide_eq_true_eq, ne_eq,
    ne_eq, hcomma, and_assoc]
  exact Iff.rfl

theorem toUInt8_ofUInt8 (b : UInt8) : (Char.toUInt8 ∘ Char.ofUInt8) b = b :=
  UInt8.toUInt8_toUInt32 b

/-- A printable character is the only one of its byte. -/
theorem ofUInt8_toUInt8 {c : Char} (h : isGraphic c = true) : Char.ofUInt8 c.toUInt8 = c := by
  rw [isGraphic, Bool.and_eq_true, decide_eq_true_eq, decide_eq_true_eq] at h
  rw [Char.ext_iff, ← UInt32.toNat_inj]
  change c.toNat % 2 ^ 8 = c.toNat
  omega

/-- A text of printable ASCII characters has one byte for each of them. -/
theorem utf8Bytes_of_isGraphic {text : String} (h : ∀ c ∈ text.toList, isGraphic c = true) :
    utf8Bytes text = text.toList.map Char.toUInt8 := by
  rw [utf8Bytes_eq_flatMap, List.map_eq_flatMap, List.flatMap_def, List.flatMap_def]
  refine congrArg List.flatten (List.map_congr_left fun c hc => ?_)
  exact String.utf8EncodeChar_eq_singleton (utf8Size_of_isGraphic (h c hc))

/-- **The names among the byte strings** are those of the names among the texts. -/
theorem namesAlgorithm_iff {s : Bytes} :
    NamesAlgorithm s ↔ ∃ text, utf8Bytes text = s ∧ isAlgorithmName text = true := by
  simp only [isAlgorithmName, Bool.and_eq_true, decide_eq_true_eq, List.all_eq_true, bne_iff_ne]
  constructor
  · rintro ⟨hnonempty, hshort, hbytes⟩
    have hchars : ∀ c ∈ s.map Char.ofUInt8, isGraphic c = true ∧ c ≠ ',' := by
      intro c hc
      obtain ⟨b, hb, rfl⟩ := List.mem_map.1 hc
      exact isNameByte_iff.1 (hbytes b hb)
    refine ⟨String.ofList (s.map Char.ofUInt8), ?_, ?_⟩
    · rw [utf8Bytes_of_isGraphic fun c hc => (hchars c (by rwa [String.toList_ofList] at hc)).1,
        String.toList_ofList, List.map_map, List.map_congr_left fun b _ => toUInt8_ofUInt8 b,
        List.map_id']
    · rw [String.toList_ofList, List.length_map]
      exact ⟨⟨hnonempty, hshort⟩, hchars⟩
  · rintro ⟨text, rfl, ⟨hnonempty, hshort⟩, hchars⟩
    have hbytes := utf8Bytes_of_isGraphic fun c hc => (hchars c hc).1
    rw [NamesAlgorithm, hbytes, List.length_map]
    refine ⟨hnonempty, hshort, ?_⟩
    intro b hb
    obtain ⟨c, hc, rfl⟩ := List.mem_map.1 hb
    rw [isNameByte_iff, ofUInt8_toUInt8 (hchars c hc).1]
    exact hchars c hc

/-! ### Names that belong to an algorithm -/

namespace Algorithm

theorem isAlgorithmName_name (a : Algorithm) : isAlgorithmName a.name = true := by
  cases a with
  | dsa => decide
  | ecdsa curve => cases curve <;> decide
  | rsa => decide
  | other name => exact name.wellFormed

/-- Every well-formed name belongs to an algorithm, and no other text does. -/
theorem exists_ofName?_iff {text : String} :
    (∃ a, ofName? text = some a) ↔ isAlgorithmName text = true := by
  constructor
  · rintro ⟨a, ha⟩
    rw [← name_of_ofName? ha]
    exact isAlgorithmName_name a
  · intro hname
    unfold ofName?
    split
    · next a _ => exact ⟨a, rfl⟩
    · exact ⟨other ⟨text, hname⟩, by rw [AlgorithmName.ofText?, dif_pos hname]; rfl⟩

theorem parse_of_ofName? {text : String} {a : Algorithm} (h : ofName? text = some a) :
    (Label.parse text : Except Error Algorithm) = .ok a := by
  have hlabel : Label.ofName? text = some a := h
  rw [Label.parse, hlabel]

theorem parse_of_not_isAlgorithmName {text : String} (h : ¬isAlgorithmName text = true) :
    (Label.parse text : Except Error Algorithm) = .error (.wire (.label text)) := by
  have hnone : ofName? text = none := by
    rw [Option.eq_none_iff_forall_ne_some]
    intro a ha
    exact h (exists_ofName?_iff.1 ⟨a, ha⟩)
  have hlabel : (Label.ofName? text : Option Algorithm) = none := hnone
  rw [Label.parse, hlabel]

/-- What is found by a name is built in if the name is, letter case included. -/
theorem isBuiltin_of_ofName? {text : String} {a : Algorithm} (h : ofName? text = some a) :
    a.isBuiltin = true ↔ text ∈ builtins.map name := by
  obtain rfl := name_of_ofName? h
  constructor
  · intro hbuiltin
    exact List.mem_map_of_mem (mem_builtins hbuiltin)
  · intro hmem
    obtain ⟨builtin, hbuiltin, hsame⟩ := List.mem_map.1 hmem
    have howns := ofName?_name_iff.1 h
    cases a with
    | other name => exact absurd hsame (howns builtin hbuiltin)
    | _ => rfl

variable {s : Bytes}

/-- A name is read as an algorithm, and is written for it. -/
theorem exists_label_of_namesAlgorithm (hname : NamesAlgorithm s) (rest : Bytes) :
    ∃ a : Algorithm,
      Decoder.label.EndsAfter (prefixed s ++ rest) (4 + s.length) (.ok a) ∧
      utf8Bytes a.name = s ∧ (Encoding.label a).toBytes = .ok (prefixed s) ∧
      (a.isBuiltin = true ↔ s ∈ ["ssh-dss", "ecdsa-sha2-nistp256", "ecdsa-sha2-nistp384",
        "ecdsa-sha2-nistp521", "ssh-rsa"].map utf8Bytes) := by
  obtain ⟨text, htext, hwell⟩ := namesAlgorithm_iff.1 hname
  obtain ⟨a, ha⟩ := exists_ofName?_iff.2 hwell
  have hsame : utf8Bytes a.name = s := by rw [name_of_ofName? ha, htext]
  refine ⟨a, ?_, hsame, ?_, ?_⟩
  · rw [← parse_of_ofName? ha]
    exact Decoder.label_endsAfter_parse (fits_of_length_le hname.2.1) rest hname.2.1 htext
  · rw [← hsame]
    exact Encoding.toBytes_label a
  · rw [isBuiltin_of_ofName? ha, ← htext, List.mem_map_of_injective fun _ _ => utf8Bytes_inj]
    exact Iff.rfl

/-- A text that is no name is taken and refused. -/
theorem label_endsAfter_of_not_namesAlgorithm {text : String} (htext : utf8Bytes text = s)
    (hroom : s.length ≤ 64) (hnot : ¬NamesAlgorithm s) (rest : Bytes) :
    (Decoder.label : Decoder Algorithm).EndsAfter (prefixed s ++ rest) (4 + s.length)
      (.error (.wire (.label text))) := by
  have hill : ¬isAlgorithmName text = true := fun hname =>
    hnot (namesAlgorithm_iff.2 ⟨text, htext, hname⟩)
  rw [← parse_of_not_isAlgorithmName hill]
  exact Decoder.label_endsAfter_parse (fits_of_length_le hroom) rest hroom htext

/-- What is no name is refused, for its length, its encoding or its characters. -/
theorem exists_label_error (hfit : Fits s) (hnot : ¬NamesAlgorithm s) (rest : Bytes) :
    ∃ count error,
      (Decoder.label : Decoder Algorithm).EndsAfter (prefixed s ++ rest) count (.error error) := by
  rcases Nat.lt_or_ge 64 s.length with hlong | hroom
  · exact ⟨_, _, Decoder.label_endsAfter_of_lt hfit rest hlong⟩
  · cases htext : ofUtf8? s with
    | none => exact ⟨_, _, Decoder.label_endsAfter_of_none hfit rest hroom htext⟩
    | some text =>
        have hbytes : utf8Bytes text = s := ofUtf8?_eq_some.1 htext
        exact ⟨_, _, label_endsAfter_of_not_namesAlgorithm hbytes hroom hnot rest⟩

/-- **A byte string is read as an algorithm exactly if it is a name**, and then it is all that is
taken, the name of the algorithm, and what is written for it.  Otherwise too many bytes are left
where they are; other bytes are taken, and are refused for being no text or no name. -/
theorem label_ends_by_grammar {s : Bytes} (hs : s.length < 2 ^ 31) (rest : Bytes) :
    ((∃ (a : Algorithm) (count : Nat),
        Decoder.label.EndsAfter (prefixed s ++ rest) count (.ok a)) ↔ NamesAlgorithm s) ∧
    (NamesAlgorithm s → ∃ a : Algorithm,
      Decoder.label.EndsAfter (prefixed s ++ rest) (4 + s.length) (.ok a) ∧
      utf8Bytes a.name = s ∧ (Encoding.label a).toBytes = .ok (prefixed s) ∧
      (a.isBuiltin = true ↔ s ∈ ["ssh-dss", "ecdsa-sha2-nistp256", "ecdsa-sha2-nistp384",
        "ecdsa-sha2-nistp521", "ssh-rsa"].map utf8Bytes)) ∧
    (64 < s.length → (Decoder.label : Decoder Algorithm).EndsAfter (prefixed s ++ rest) 4
      (.error (.wire .length))) ∧
    (s.length ≤ 64 → (∀ text, utf8Bytes text ≠ s) →
      (Decoder.label : Decoder Algorithm).EndsAfter (prefixed s ++ rest) (4 + s.length)
        (.error (.wire .characterEncoding))) ∧
    ∀ text, utf8Bytes text = s → s.length ≤ 64 → ¬NamesAlgorithm s →
      (Decoder.label : Decoder Algorithm).EndsAfter (prefixed s ++ rest) (4 + s.length)
        (.error (.wire (.label text))) := by
  have hfit : Fits s := Nat.le_of_lt_succ hs
  refine ⟨⟨?_, ?_⟩, ?_, ?_, ?_, ?_⟩
  · rintro ⟨a, count, hends⟩
    by_contra hnot
    obtain ⟨count', error, herror⟩ := exists_label_error hfit hnot rest
    cases hends.unique herror
  · intro hname
    obtain ⟨a, hends, -⟩ := exists_label_of_namesAlgorithm hname rest
    exact ⟨a, _, hends⟩
  · intro hname
    exact exists_label_of_namesAlgorithm hname rest
  · intro hlong
    exact Decoder.label_endsAfter_of_lt hfit rest hlong
  · intro hroom htext
    exact Decoder.label_endsAfter_of_none hfit rest hroom (ofUtf8?_eq_none_iff.2 htext)
  · intro text htext hroom hnot
    exact label_endsAfter_of_not_namesAlgorithm htext hroom hnot rest

/-- A built-in name, the same in capital letters, a name that is too long, bytes that are no text,
and a text that is no name, with two more bytes behind each of them. -/
theorem label_ends_by_grammar_cases :
    (∃ a : Algorithm,
      Decoder.label.EndsAfter (prefixed (utf8Bytes "ssh-rsa") ++ [1, 2]) 11 (.ok a) ∧
        a.isBuiltin = true) ∧
    (∃ a : Algorithm,
      Decoder.label.EndsAfter (prefixed (utf8Bytes "SSH-RSA") ++ [1, 2]) 11 (.ok a) ∧
        ¬a.isBuiltin = true) ∧
    (Decoder.label : Decoder Algorithm).EndsAfter (prefixed (List.replicate 65 0x61) ++ [1, 2]) 4
      (.error (.wire .length)) ∧
    (Decoder.label : Decoder Algorithm).EndsAfter (prefixed [0x61, 0xFF] ++ [1, 2]) 6
      (.error (.wire .characterEncoding)) ∧
    (Decoder.label : Decoder Algorithm).EndsAfter (prefixed (utf8Bytes "a,b") ++ [1, 2]) 7
      (.error (.wire (.label "a,b"))) := by
  refine ⟨?_, ?_, ?_, ?_, ?_⟩
  · have hs : (utf8Bytes "ssh-rsa").length < 2 ^ 31 := by decide
    have hname : NamesAlgorithm (utf8Bytes "ssh-rsa") := by decide +kernel
    obtain ⟨a, hends, -, -, hbuiltin⟩ := (label_ends_by_grammar hs [1, 2]).2.1 hname
    exact ⟨a, hends, hbuiltin.2 (by decide)⟩
  · have hs : (utf8Bytes "SSH-RSA").length < 2 ^ 31 := by decide
    have hname : NamesAlgorithm (utf8Bytes "SSH-RSA") := by decide +kernel
    obtain ⟨a, hends, -, -, hbuiltin⟩ := (label_ends_by_grammar hs [1, 2]).2.1 hname
    exact ⟨a, hends, fun h => absurd (hbuiltin.1 h) (by decide)⟩
  · have hs : (List.replicate 65 (0x61 : UInt8)).length < 2 ^ 31 := by decide
    exact (label_ends_by_grammar hs [1, 2]).2.2.1 (by decide)
  · have hs : ([0x61, 0xFF] : Bytes).length < 2 ^ 31 := by decide
    exact (label_ends_by_grammar hs [1, 2]).2.2.2.1 (by decide) (ofUtf8?_eq_none_iff.1 (by decide))
  · have hs : (utf8Bytes "a,b").length < 2 ^ 31 := by decide
    exact (label_ends_by_grammar hs [1, 2]).2.2.2.2 "a,b" rfl (by decide) (by decide)

end Algorithm

end SshKeys
