/-
**Sums of lengths in 64 bits.**

Lengths are added up one after another, and the sum is given up at the first partial sum that does
not fit in 64 bits.  As lengths are not negative, no later one brings a sum back into range: it is
given up exactly if the whole sum does not fit.  So neither the order of the lengths matters nor the
way in which they are grouped.  Words of the machine wrap around instead of leaving the range, and a
sum that has wrapped around is smaller than what it started from; told by that, sums of words are
the same sums.

Main definitions:

* `SshKeys.addWord`, `SshKeys.sumWords` — sums of words that are given up when they wrap around;
* `SshKeys.SumsExactly` — what may be relied on for the sum of some lengths.

Main results:

* `SshKeys.checkedSum_eq_ok_iff`, `SshKeys.checkedSum_eq_error_iff` — the two ways a sum ends;
* `SshKeys.exists_stop_iff` — where a sum is given up;
* `SshKeys.checkedSum_flatten` — lengths in groups are added up group by group;
* `SshKeys.map_sumWords` — sums of words are sums of lengths;
* `SshKeys.checkedSum_exact` — **a sum is exact up to the limit**, in any order and any grouping.
-/

import Mathlib.Data.List.Induction
import SshKeys.Proofs.Writes

set_option relaxedAutoImplicit false
set_option autoImplicit false

namespace SshKeys

variable {lengths other : List Nat} {total : Nat} {error : Error}

/-! ### The two ends -/

theorem checkedSum_eq_ok_iff :
    checkedSum lengths = .ok total ↔ total = lengths.sum ∧ lengths.sum ≤ 2 ^ 64 - 1 := by
  by_cases hfits : lengths.sum < 2 ^ 64
  · have hlimit : lengths.sum ≤ 2 ^ 64 - 1 := Nat.le_sub_one_of_lt hfits
    rw [checkedSum_of_lt hfits, Except.ok.injEq, and_iff_left hlimit, eq_comm]
  · have hlimit : ¬lengths.sum ≤ 2 ^ 64 - 1 := by omega
    rw [checkedSum_of_not_lt hfits]
    exact iff_of_false nofun fun h => hlimit h.2

theorem checkedSum_eq_error_iff :
    checkedSum lengths = .error error ↔ error = .wire .length ∧ 2 ^ 64 - 1 < lengths.sum := by
  by_cases hfits : lengths.sum < 2 ^ 64
  · have hlimit : ¬2 ^ 64 - 1 < lengths.sum := by omega
    rw [checkedSum_of_lt hfits]
    exact iff_of_false nofun fun h => hlimit h.2
  · have hlimit : 2 ^ 64 - 1 < lengths.sum := by omega
    rw [checkedSum_of_not_lt hfits, Except.error.injEq, and_iff_left hlimit, eq_comm]

/-- A sum that is given up is given up at one of the lengths: what stands in front of it fits, and
with it the sum does not. -/
theorem exists_stop_iff :
    2 ^ 64 - 1 < lengths.sum ↔
      ∃ front count back, lengths = front ++ count :: back ∧
        checkedSum front = .ok front.sum ∧
        addLength front.sum count = .error (.wire .length) := by
  constructor
  · -- induction from the end: the last length is the place, or the sum is given up before it
    induction lengths using List.reverseRecOn with
    | nil => exact fun h => absurd h (by decide)
    | append_singleton front count ih =>
        intro h
        by_cases hfits : front.sum < 2 ^ 64
        · refine ⟨front, count, [], rfl, checkedSum_of_lt hfits, if_neg ?_⟩
          rw [List.sum_append, List.sum_singleton] at h
          omega
        · obtain ⟨front, stop, back, rfl, hfront, hstop⟩ := ih (by omega)
          exact ⟨front, stop, back ++ [count], by simp, hfront, hstop⟩
  · rintro ⟨front, count, back, rfl, -, hstop⟩
    have hlong : ¬front.sum + count < 2 ^ 64 := by
      intro hfits
      rw [addLength, if_pos hfits] at hstop
      cases hstop
    rw [List.sum_append, List.sum_cons]
    omega

/-! ### Order and grouping -/

theorem checkedSum_perm (h : other.Perm lengths) : checkedSum other = checkedSum lengths :=
  checkedSum_congr h.sum_nat

/-- Lengths in groups are added up group by group. -/
theorem checkedSum_flatten (groups : List (List Nat)) :
    checkedSum groups.flatten = groups.mapM checkedSum >>= checkedSum := by
  induction groups with
  | nil => rfl
  | cons group groups ih =>
      rw [List.flatten_cons, checkedSum_append, ih, List.mapM_cons]
      cases checkedSum group with
      | error error => rfl
      | ok count =>
          cases groups.mapM checkedSum with
          | error error => rfl
          | ok totals => exact (checkedSum_cons count totals).symm

/-! ### Words of the machine -/

/-- The sum of two words.  If it does not fit, it wraps around and is smaller than `total`. -/
def addWord (total count : UInt64) : Except Error UInt64 :=
  if total + count < total then .error (.wire .length) else .ok (total + count)

/-- The sum of words, which fails at the first partial sum that wraps around. -/
def sumWords (words : List UInt64) : Except Error UInt64 := words.foldlM addWord 0

theorem map_addWord (total count : UInt64) :
    UInt64.toNat <$> addWord total count = addLength total.toNat count.toNat := by
  have hsum : (total + count).toNat = (total.toNat + count.toNat) % 2 ^ 64 :=
    UInt64.toNat_add total count
  have hcount : count.toNat < 2 ^ 64 := count.toNat_lt
  by_cases hfits : total.toNat + count.toNat < 2 ^ 64
  · rw [Nat.mod_eq_of_lt hfits] at hsum
    have hstays : ¬total + count < total := by
      rw [UInt64.lt_iff_toNat_lt, hsum]
      omega
    rw [addWord, if_neg hstays, addLength, if_pos hfits]
    exact congrArg Except.ok hsum
  · have hwraps : total + count < total := by
      rw [UInt64.lt_iff_toNat_lt, hsum]
      omega
    rw [addWord, if_pos hwraps, addLength, if_neg hfits]
    rfl

theorem map_foldlM_addWord (words : List UInt64) (total : UInt64) :
    UInt64.toNat <$> words.foldlM addWord total =
      (words.map UInt64.toNat).foldlM addLength total.toNat := by
  induction words generalizing total with
  | nil => rfl
  | cons count words ih =>
      rw [List.map_cons, List.foldlM_cons, List.foldlM_cons, ← map_addWord]
      cases addWord total count with
      | ok sum => exact ih sum
      | error error => rfl

/-- **Sums of words are sums of lengths.** -/
theorem map_sumWords (words : List UInt64) :
    UInt64.toNat <$> sumWords words = checkedSum (words.map UInt64.toNat) :=
  map_foldlM_addWord words 0

/-! ### What may be relied on -/

/-- What may be relied on for the sum of some lengths. -/
structure SumsExactly (lengths : List Nat) : Prop where
  ok_iff : ∀ total, checkedSum lengths = .ok total ↔
    total = lengths.sum ∧ lengths.sum ≤ 2 ^ 64 - 1
  error_iff : ∀ error, checkedSum lengths = .error error ↔
    error = .wire .length ∧ 2 ^ 64 - 1 < lengths.sum
  /-- The sum is given up at a length with which it does not fit any more. -/
  stop : 2 ^ 64 - 1 < lengths.sum ↔ ∃ front count back, lengths = front ++ count :: back ∧
    checkedSum front = .ok front.sum ∧ addLength front.sum count = .error (.wire .length)
  /-- The order does not matter. -/
  order : ∀ other, other.Perm lengths → checkedSum other = checkedSum lengths
  /-- Two parts are added up on their own, and then the two sums. -/
  parts : ∀ front back, lengths = front ++ back →
    checkedSum lengths = do
      let count ← checkedSum front
      let total ← checkedSum back
      checkedSum [count, total]
  /-- So are any number of parts. -/
  groups : ∀ groups : List (List Nat), lengths = groups.flatten →
    checkedSum lengths = groups.mapM checkedSum >>= checkedSum
  /-- Words of 64 bits have the same sum. -/
  words : ∀ words : List UInt64, lengths = words.map UInt64.toNat →
    UInt64.toNat <$> sumWords words = checkedSum lengths

/-- **A sum is exact up to the limit**, and refused above it, in any order and any grouping. -/
theorem checkedSum_exact (lengths : List Nat) : SumsExactly lengths where
  ok_iff _ := checkedSum_eq_ok_iff
  error_iff _ := checkedSum_eq_error_iff
  stop := exists_stop_iff
  order _ := checkedSum_perm
  parts front back h := by rw [h, checkedSum_append]
  groups groups h := by rw [h, checkedSum_flatten]
  words words h := by rw [h, map_sumWords]

example : checkedSum [2 ^ 64 - 2, 0, 1] = .ok (2 ^ 64 - 1) ∧
    checkedSum [2 ^ 64 - 2, 1, 1, 0] = .error (.wire .length) := ⟨rfl, rfl⟩

end SshKeys
