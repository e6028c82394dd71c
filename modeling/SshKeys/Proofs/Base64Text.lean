/-
**Base64 read back.**

Every symbol stands for its number, every group for its bytes, and no symbol is the padding or a
blank.  So the text of a byte string is read as that byte string, and a text of Base64 is a single
word wherever it stands in a line.  Nor is a byte string spelled in two ways: the unused bits of the
last symbol are zero, and a symbol has one number.

Main results:

* `SshKeys.Base64.value?_eq_some_iff` — a symbol stands for one number;
* `SshKeys.Base64.decode?_encode` — **a byte string is read back from its padded text**;
* `SshKeys.Base64.isGraphic_of_mem_encode` — the text has printable characters only;
* `SshKeys.Base64.decodeBare?_encodeBare`, `SshKeys.Base64.eq_encodeBare_of_decodeBare?` — **a byte
  string is read back from its text without padding, and from no other text**.
-/

import SshKeys.Text.Base64
import SshKeys.Text.Ascii

set_option relaxedAutoImplicit false
set_option autoImplicit false

namespace SshKeys.Base64

/-! ### Symbols -/

theorem value?_symbol {n : Nat} (h : n < 64) : value? (symbol n) = some n := by
  have hall : ∀ k : Fin 64, value? (symbol k) = some k.val := by decide
  exact hall ⟨n, h⟩

theorem symbol_of_le {n : Nat} (h : 63 ≤ n) : symbol n = '/' := by
  rw [symbol, if_neg (by omega), if_neg (by omega), if_neg (by omega), if_neg (by omega)]

/-- A symbol is printable, and it is not the padding. -/
theorem isGraphic_symbol (n : Nat) : isGraphic (symbol n) = true ∧ symbol n ≠ '=' := by
  have hall : ∀ k : Fin 64, isGraphic (symbol k) = true ∧ symbol k ≠ '=' := by decide
  rcases Nat.lt_or_ge n 64 with h | h
  · exact hall ⟨n, h⟩
  · rw [symbol_of_le (by omega)]
    decide

/-- Only ASCII characters are symbols. -/
theorem toNat_lt_of_value? {c : Char} {n : Nat} (h : value? c = some n) : c.toNat < 128 := by
  simp only [value?, Bool.and_eq_true, decide_eq_true_eq, Char.le_def, UInt32.le_iff_toNat_le] at h
  change c.val.toNat < 128
  split at h
  · next hc => exact Nat.lt_of_le_of_lt hc.2 (by decide)
  · split at h
    · next hc => exact Nat.lt_of_le_of_lt hc.2 (by decide)
    · split at h
      · next hc => exact Nat.lt_of_le_of_lt hc.2 (by decide)
      · split at h
        · next hc => rw [hc]; decide
        · split at h
          · next hc => rw [hc]; decide
          · cases h

/-- **A symbol stands for one number below 64**, and is the symbol of it. -/
theorem value?_eq_some_iff {c : Char} {n : Nat} : value? c = some n ↔ n < 64 ∧ symbol n = c := by
  constructor
  · intro h
    have hall : ∀ k : Fin 128, ∀ n ∈ value? (Char.ofNat k), n < 64 ∧ symbol n = Char.ofNat k := by
      decide
    have hc := hall ⟨c.toNat, toNat_lt_of_value? h⟩ n
    rw [Char.ofNat_toNat] at hc
    exact hc h
  · rintro ⟨hn, rfl⟩
    exact value?_symbol hn

/-! ### Groups -/

variable {a b c : UInt8}

theorem ungroup1?_group1 :
    ungroup1? (symbol (a.toNat / 4)) (symbol (16 * (a.toNat % 4))) = some [a] := by
  have ha := a.toNat_lt
  have hn : 64 * (a.toNat / 4) + 16 * (a.toNat % 4) = 16 * a.toNat := by omega
  rw [ungroup1?, value?_symbol (by omega), value?_symbol (by omega)]
  simp only [Option.bind_eq_bind, Option.bind_some, hn]
  rw [if_pos (by omega), Nat.mul_div_cancel_left _ (by decide), UInt8.ofNat_toNat]

theorem ungroup2?_group2 (n : Nat) (hn : n = 256 * a.toNat + b.toNat) :
    ungroup2? (symbol (n / 1024)) (symbol (n / 16 % 64)) (symbol (4 * (n % 16))) =
      some [a, b] := by
  have ha := a.toNat_lt
  have hb := b.toNat_lt
  have hsum : 4096 * (n / 1024) + 64 * (n / 16 % 64) + 4 * (n % 16) = 4 * n := by omega
  have hfirst : 4 * n / 1024 = a.toNat := by omega
  have hsecond : 4 * n / 4 % 256 = b.toNat := by omega
  rw [ungroup2?, value?_symbol (by omega), value?_symbol (by omega), value?_symbol (by omega)]
  simp only [Option.bind_eq_bind, Option.bind_some, hsum]
  rw [if_pos (by omega), hfirst, hsecond, UInt8.ofNat_toNat, UInt8.ofNat_toNat]

theorem ungroup3?_group3 (n : Nat) (hn : n = 65536 * a.toNat + 256 * b.toNat + c.toNat) :
    ungroup3? (symbol (n / 262144)) (symbol (n / 4096 % 64)) (symbol (n / 64 % 64))
      (symbol (n % 64)) = some [a, b, c] := by
  have ha := a.toNat_lt
  have hb := b.toNat_lt
  have hc := c.toNat_lt
  have hsum : 262144 * (n / 262144) + 4096 * (n / 4096 % 64) + 64 * (n / 64 % 64) + n % 64 = n := by
    omega
  have hfirst : n / 65536 = a.toNat := by omega
  have hsecond : n / 256 % 256 = b.toNat := by omega
  have hthird : n % 256 = c.toNat := by omega
  rw [ungroup3?, value?_symbol (by omega), value?_symbol (by omega), value?_symbol (by omega),
    value?_symbol (by omega)]
  simp only [Option.bind_eq_bind, Option.bind_some, hsum]
  rw [hfirst, hsecond, hthird, UInt8.ofNat_toNat, UInt8.ofNat_toNat, UInt8.ofNat_toNat]

/-- Two symbols are read as a byte exactly if they are the symbols of it. -/
theorem ungroup1?_eq_some_iff {x y : Char} {bs : Bytes} :
    ungroup1? x y = some bs ↔ ∃ a, bs = [a] ∧ [x, y] = group1 a := by
  constructor
  · intro h
    simp only [ungroup1?, Option.bind_eq_bind, Option.bind_eq_some_iff, value?_eq_some_iff] at h
    obtain ⟨m, ⟨hm, rfl⟩, n, ⟨hn, rfl⟩, h⟩ := h
    split at h
    · next hunused =>
        have ha : (UInt8.ofNat ((64 * m + n) / 16)).toNat = (64 * m + n) / 16 := by
          rw [UInt8.toNat_ofNat_of_lt' (show _ < 256 by omega)]
        refine ⟨_, (Option.some.inj h).symm, ?_⟩
        have hhigh : (64 * m + n) / 16 / 4 = m := by omega
        have hlow : 16 * ((64 * m + n) / 16 % 4) = n := by omega
        rw [group1, ha, hhigh, hlow]
    · cases h
  · rintro ⟨a, rfl, h⟩
    obtain ⟨rfl, rfl⟩ : x = _ ∧ y = _ := by simpa [group1] using h
    exact ungroup1?_group1

/-- Three symbols are read as two bytes exactly if they are the symbols of them. -/
theorem ungroup2?_eq_some_iff {x y z : Char} {bs : Bytes} :
    ungroup2? x y z = some bs ↔ ∃ a b, bs = [a, b] ∧ [x, y, z] = group2 a b := by
  constructor
  · intro h
    simp only [ungroup2?, Option.bind_eq_bind, Option.bind_eq_some_iff, value?_eq_some_iff] at h
    obtain ⟨l, ⟨hl, rfl⟩, m, ⟨hm, rfl⟩, n, ⟨hn, rfl⟩, h⟩ := h
    split at h
    · next hunused =>
        generalize hsum : 4096 * l + 64 * m + n = sum at h hunused
        have ha : (UInt8.ofNat (sum / 1024)).toNat = sum / 1024 :=
          UInt8.toNat_ofNat_of_lt' (show _ < 256 by omega)
        have hb : (UInt8.ofNat (sum / 4 % 256)).toNat = sum / 4 % 256 :=
          UInt8.toNat_ofNat_of_lt' (show _ < 256 by omega)
        refine ⟨_, _, (Option.some.inj h).symm, ?_⟩
        have hnumber : 256 * (sum / 1024) + sum / 4 % 256 = sum / 4 := by omega
        have hfirst : sum / 4 / 1024 = l := by omega
        have hsecond : sum / 4 / 16 % 64 = m := by omega
        have hthird : 4 * (sum / 4 % 16) = n := by omega
        simp only [group2, ha, hb, hnumber, hfirst, hsecond, hthird]
    · cases h
  · rintro ⟨a, b, rfl, h⟩
    obtain ⟨rfl, rfl, rfl⟩ : x = _ ∧ y = _ ∧ z = _ := by simpa [group2] using h
    exact ungroup2?_group2 _ rfl

/-- Four symbols are read as three bytes exactly if they are the symbols of them. -/
theorem ungroup3?_eq_some_iff {w x y z : Char} {bs : Bytes} :
    ungroup3? w x y z = some bs ↔ ∃ a b c, bs = [a, b, c] ∧ [w, x, y, z] = group3 a b c := by
  constructor
  · intro h
    simp only [ungroup3?, Option.bind_eq_bind, Option.bind_eq_some_iff, value?_eq_some_iff] at h
    obtain ⟨k, ⟨hk, rfl⟩, l, ⟨hl, rfl⟩, m, ⟨hm, rfl⟩, n, ⟨hn, rfl⟩, h⟩ := h
    generalize hsum : 262144 * k + 4096 * l + 64 * m + n = sum at h
    have ha : (UInt8.ofNat (sum / 65536)).toNat = sum / 65536 :=
      UInt8.toNat_ofNat_of_lt' (show _ < 256 by omega)
    have hb : (UInt8.ofNat (sum / 256 % 256)).toNat = sum / 256 % 256 :=
      UInt8.toNat_ofNat_of_lt' (show _ < 256 by omega)
    have hc : (UInt8.ofNat (sum % 256)).toNat = sum % 256 :=
      UInt8.toNat_ofNat_of_lt' (show _ < 256 by omega)
    refine ⟨_, _, _, (Option.some.inj h).symm, ?_⟩
    have hnumber : 65536 * (sum / 65536) + 256 * (sum / 256 % 256) + sum % 256 = sum := by omega
    have hfirst : sum / 262144 = k := by omega
    have hsecond : sum / 4096 % 64 = l := by omega
    have hthird : sum / 64 % 64 = m := by omega
    have hfourth : sum % 64 = n := by omega
    simp only [group3, ha, hb, hc, hnumber, hfirst, hsecond, hthird, hfourth]
  · rintro ⟨a, b, c, rfl, h⟩
    obtain ⟨rfl, rfl, rfl, rfl⟩ : w = _ ∧ x = _ ∧ y = _ ∧ z = _ := by simpa [group3] using h
    exact ungroup3?_group3 _ rfl

/-! ### The padded form -/

/-- Four symbols in front are a full group unless the last one is the padding. -/
theorem decode?_cons {w x y z : Char} (rest : List Char) (hz : z ≠ '=') :
    decode? (w :: x :: y :: z :: rest) =
      (ungroup3? w x y z).bind fun group => (decode? rest).bind fun bs => some (group ++ bs) := by
  rw [decode?.eq_def]
  split
  · next h => simp at h
  · next h => simp only [List.cons.injEq] at h; exact absurd h.2.2.2.1 hz
  · next h => simp only [List.cons.injEq] at h; exact absurd h.2.2.2.1 hz
  · next h =>
      simp only [List.cons.injEq] at h
      obtain ⟨rfl, rfl, rfl, rfl, rfl⟩ := h
      rfl
  · next h => exact absurd rfl (h w x y z rest)

/-- **A byte string is read back from its padded text.** -/
theorem decode?_encode (bs : Bytes) : decode? (encode bs) = some bs := by
  -- the recursion of the writer, three bytes at a time
  fun_induction encode bs with
  | case1 => rfl
  | case2 a =>
      change ungroup1? _ _ = _
      exact ungroup1?_group1
  | case3 a b =>
      have hpad := (isGraphic_symbol (4 * ((256 * a.toNat + b.toNat) % 16))).2
      rw [group2, List.cons_append, List.cons_append, List.cons_append, List.nil_append, decode?]
      · exact ungroup2?_group2 _ rfl
      · intro h
        exact absurd h hpad
  | case4 a b c rest ih =>
      have hpad := (isGraphic_symbol ((65536 * a.toNat + 256 * b.toNat + c.toNat) % 64)).2
      rw [group3, List.cons_append, List.cons_append, List.cons_append, List.cons_append,
        List.nil_append, decode?_cons _ hpad, ungroup3?_group3 _ rfl, ih]
      rfl

/-- The text of a byte string has printable characters only. -/
theorem isGraphic_of_mem_encode {bs : Bytes} {x : Char} (h : x ∈ encode bs) :
    isGraphic x = true := by
  fun_induction encode bs with
  | case1 => simp at h
  | case2 a =>
      simp only [group1, List.cons_append, List.nil_append, List.mem_cons, List.not_mem_nil,
        or_false] at h
      rcases h with rfl | rfl | rfl | rfl
      · exact (isGraphic_symbol _).1
      · exact (isGraphic_symbol _).1
      · decide
      · decide
  | case3 a b =>
      simp only [group2, List.cons_append, List.nil_append, List.mem_cons, List.not_mem_nil,
        or_false] at h
      rcases h with rfl | rfl | rfl | rfl
      · exact (isGraphic_symbol _).1
      · exact (isGraphic_symbol _).1
      · exact (isGraphic_symbol _).1
      · decide
  | case4 a b c rest ih =>
      rcases List.mem_append.1 h with hgroup | hrest
      · simp only [group3, List.mem_cons, List.not_mem_nil, or_false] at hgroup
        rcases hgroup with rfl | rfl | rfl | rfl <;> exact (isGraphic_symbol _).1
      · exact ih hrest

theorem encode_ne_nil {bs : Bytes} (h : bs ≠ []) : encode bs ≠ [] := by
  match bs with
  | [] => exact absurd rfl h
  | [a] => simp [encode, group1]
  | [a, b] => simp [encode, group2]
  | a :: b :: c :: rest => simp [encode, group3]

/-! ### The bare form -/

/-- **A byte string is read back from its text without padding.** -/
theorem decodeBare?_encodeBare (bs : Bytes) : decodeBare? (encodeBare bs) = some bs := by
  fun_induction encodeBare bs with
  | case1 => rfl
  | case2 a => exact ungroup1?_eq_some_iff.2 ⟨a, rfl, rfl⟩
  | case3 a b => exact ungroup2?_eq_some_iff.2 ⟨a, b, rfl, rfl⟩
  | case4 a b c rest ih =>
      rw [group3, List.cons_append, List.cons_append, List.cons_append, List.cons_append,
        List.nil_append, decodeBare?, ungroup3?_group3 _ rfl, ih]
      rfl

/-- **No other text is read** as a byte string than the text of it. -/
theorem eq_encodeBare_of_decodeBare? {cs : List Char} {bs : Bytes}
    (h : decodeBare? cs = some bs) : cs = encodeBare bs := by
  fun_induction decodeBare? cs generalizing bs with
  | case1 =>
      cases h
      rfl
  | case2 x y =>
      obtain ⟨a, rfl, hsymbols⟩ := ungroup1?_eq_some_iff.1 h
      exact hsymbols
  | case3 x y z =>
      obtain ⟨a, b, rfl, hsymbols⟩ := ungroup2?_eq_some_iff.1 h
      exact hsymbols
  | case4 w x y z rest ih =>
      simp only [Option.bind_eq_bind, Option.bind_eq_some_iff] at h
      obtain ⟨group, hgroup, back, hback, h⟩ := h
      obtain ⟨a, b, c, rfl, hsymbols⟩ := ungroup3?_eq_some_iff.1 hgroup
      cases h
      rw [ih hback]
      exact congrArg (· ++ encodeBare back) hsymbols
  | case5 => cases h

/-- Four symbols for three bytes, and one symbol more than there are bytes left at the end. -/
theorem length_encodeBare (bs : Bytes) : (encodeBare bs).length = (4 * bs.length + 2) / 3 := by
  fun_induction encodeBare bs with
  | case1 => rfl
  | case2 a => simp [group1]
  | case3 a b => simp [group2]
  | case4 a b c rest ih =>
      simp only [group3, List.length_append, List.length_cons, List.length_nil, ih]
      omega

/-- The padding stands behind the text without it. -/
theorem encodeBare_prefix_encode (bs : Bytes) : encodeBare bs <+: encode bs := by
  fun_induction encodeBare bs with
  | case1 => exact List.nil_prefix
  | case2 a => exact List.prefix_append _ _
  | case3 a b => exact List.prefix_append _ _
  | case4 a b c rest ih => exact (List.prefix_append_right_inj _).2 ih

theorem isGraphic_of_mem_encodeBare {bs : Bytes} {x : Char} (h : x ∈ encodeBare bs) :
    isGraphic x = true :=
  isGraphic_of_mem_encode ((encodeBare_prefix_encode bs).subset h)

end SshKeys.Base64
