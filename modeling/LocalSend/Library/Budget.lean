import Mathlib.Algebra.BigOperators.Group.Finset.Basic
import Mathlib.Algebra.Order.BigOperators.Group.Finset
import Mathlib.Tactic.Common

/-! # Claims on a budget

Several parties hold claims on one budget. The claims are covered when no finite set of
parties claims more than there is, however many parties there are.
-/

namespace LocalSend.Budget

open Finset

variable {ι : Type*} {claim : ι → ℕ} {budget budget' : ℕ}

/-- The claims of any parties together are within the budget. -/
def Covered (claim : ι → ℕ) (budget : ℕ) : Prop :=
  ∀ parties : Finset ι, ∑ i ∈ parties, claim i ≤ budget

theorem Covered.single (h : Covered claim budget) (i : ι) : claim i ≤ budget := by
  simpa using h {i}

theorem Covered.zero (budget : ℕ) : Covered (fun _ : ι => 0) budget := by
  intro parties
  simp

/-- A party draws on the budget, or a new claim is covered by what the others leave. -/
theorem Covered.update [DecidableEq ι] (h : Covered claim budget) (i : ι) {rest : ℕ}
    (hrest : budget + rest ≤ budget' + claim i) :
    Covered (Function.update claim i rest) budget' := by
  intro parties
  have hothers : ∑ j ∈ parties.erase i, Function.update claim i rest j =
      ∑ j ∈ parties.erase i, claim j := by
    apply sum_congr rfl
    intro j hj
    exact Function.update_of_ne (ne_of_mem_erase hj) ..
  have hall := h (insert i (parties.erase i))
  rw [sum_insert (notMem_erase i parties)] at hall
  have hle : ∑ j ∈ parties, Function.update claim i rest j ≤
      rest + ∑ j ∈ parties.erase i, claim j := by
    by_cases hi : i ∈ parties
    · rw [← add_sum_erase _ _ hi, hothers, Function.update_self]
    · rw [erase_eq_of_notMem hi] at hothers ⊢
      omega
  omega

end LocalSend.Budget
