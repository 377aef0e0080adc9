import Mathlib.Algebra.BigOperators.Group.Finset.Basic
import Mathlib.Algebra.BigOperators.Group.Finset.Piecewise
import Mathlib.Algebra.Order.BigOperators.Group.Finset
import Mathlib.Algebra.Order.Ring.Nat
import Mathlib.Tactic.Common

/-! # Counting and adding up the entries of a table

What one changed entry does to a sum over a table, and to the number of entries with a
property.
-/

namespace LocalSend.Tally

variable {count index : ℕ}

/-- The sum of the entries. -/
def total (count : ℕ) (entries : ℕ → ℕ) : ℕ := ∑ index ∈ Finset.range count, entries index

/-- The number of entries with a property. -/
def tally (count : ℕ) (has : ℕ → Bool) : ℕ := total count fun index => (has index).toNat

theorem total_succ (count : ℕ) (entries : ℕ → ℕ) :
    total (count + 1) entries = total count entries + entries count :=
  Finset.sum_range_succ ..

/-- One entry is exchanged for another. -/
theorem total_update {entries entries' : ℕ → ℕ} (hindex : index < count)
    (hothers : ∀ other, other ≠ index → entries' other = entries other) :
    total count entries' + entries index = total count entries + entries' index := by
  have hmem := Finset.mem_range.mpr hindex
  have hrest : ∑ other ∈ (Finset.range count).erase index, entries' other =
      ∑ other ∈ (Finset.range count).erase index, entries other :=
    Finset.sum_congr rfl fun other hother => hothers other (Finset.ne_of_mem_erase hother)
  rw [total, total, ← Finset.add_sum_erase _ entries' hmem, ← Finset.add_sum_erase _ entries hmem,
    hrest]
  omega

theorem tally_update {has has' : ℕ → Bool} (hindex : index < count)
    (hothers : ∀ other, other ≠ index → has' other = has other) :
    tally count has' + (has index).toNat = tally count has + (has' index).toNat :=
  total_update hindex fun other hother => congrArg Bool.toNat (hothers other hother)

theorem total_zero (count : ℕ) : total count (fun _ => 0) = 0 := Finset.sum_const_zero

/-- An entry is part of the sum. -/
theorem le_total (entries : ℕ → ℕ) (hindex : index < count) :
    entries index ≤ total count entries :=
  Finset.single_le_sum (fun _ _ => Nat.zero_le _) (Finset.mem_range.mpr hindex)

theorem total_le {entries entries' : ℕ → ℕ} (h : ∀ index, entries index ≤ entries' index) :
    total count entries ≤ total count entries' :=
  Finset.sum_le_sum fun index _ => h index

theorem tally_pos {has : ℕ → Bool} (hindex : index < count) (h : has index = true) :
    0 < tally count has := by
  have hle := le_total (fun index => (has index).toNat) hindex
  simp only [h, Bool.toNat_true] at hle
  exact hle

end LocalSend.Tally
