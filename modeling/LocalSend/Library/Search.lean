import Mathlib.Data.List.Basic
import Mathlib.Tactic.Common

/-! # The first occurrence of a pattern -/

namespace LocalSend.Text

variable {α : Type*} [DecidableEq α] {pattern text : List α} {position : ℕ}

/-- Where a pattern first stands in a text. -/
def search (pattern : List α) : List α → Option ℕ
  | [] => none
  | symbol :: text =>
      if pattern.isPrefixOf (symbol :: text) then some 0
      else (search pattern text).map (· + 1)

theorem search_split (h : search pattern text = some position) :
    ∃ before after, text = before ++ (pattern ++ after) ∧ before.length = position := by
  induction text generalizing position with
  | nil => cases h
  | cons symbol text ih =>
      rw [search] at h
      split at h
      · rename_i hprefix
        cases h
        obtain ⟨after, hafter⟩ := List.isPrefixOf_iff_prefix.mp hprefix
        exact ⟨[], after, hafter.symm, rfl⟩
      · obtain ⟨before, hbefore, rfl⟩ := Option.map_eq_some_iff.mp h
        obtain ⟨front, after, rfl, hlength⟩ := ih hbefore
        exact ⟨symbol :: front, after, rfl, by rw [List.length_cons, hlength]⟩

/-- The pattern ends inside the text. -/
theorem search_le (h : search pattern text = some position) :
    position + pattern.length ≤ text.length := by
  obtain ⟨before, after, rfl, rfl⟩ := search_split h
  simp only [List.length_append]
  omega

/-- More text behind an occurrence does not move it. -/
theorem search_append (h : search pattern text = some position) (rest : List α) :
    search pattern (text ++ rest) = some position := by
  induction text generalizing position with
  | nil => cases h
  | cons symbol text ih =>
      rw [search] at h
      rw [List.cons_append, search]
      split at h
      · rename_i hprefix
        have hlonger : pattern <+: symbol :: (text ++ rest) :=
          (List.isPrefixOf_iff_prefix.mp hprefix).trans (List.prefix_append (symbol :: text) rest)
        rw [if_pos (List.isPrefixOf_iff_prefix.mpr hlonger), h]
      · rename_i hprefix
        obtain ⟨before, hbefore, rfl⟩ := Option.map_eq_some_iff.mp h
        have hsearch := ih hbefore
        have hfits := search_le hbefore
        rw [if_neg, hsearch]
        · rfl
        · intro hlonger
          apply hprefix
          rw [List.isPrefixOf_iff_prefix] at hlonger ⊢
          exact List.prefix_of_prefix_length_le hlonger (List.prefix_append (symbol :: text) rest)
            (by rw [List.length_cons]; omega)

/-- A text that ends with the first occurrence has none in a shorter part. -/
theorem search_short (h : search pattern text = some position)
    (hend : position + pattern.length = text.length) {part : List α} (hpart : part <+: text)
    (hshort : part.length < text.length) : search pattern part = none := by
  cases hsearch : search pattern part with
  | none => rfl
  | some earlier =>
      have hfits := search_le hsearch
      obtain ⟨rest, rfl⟩ := hpart
      rw [search_append hsearch rest] at h
      cases h
      omega

end LocalSend.Text
