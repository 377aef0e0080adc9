import Mathlib.Data.List.Basic
import Mathlib.Tactic.Common

/-! # Cutting a stream into blocks

A block-iterated function consumes its input `n` entries at a time and carries the
unfinished block between calls. Nothing here depends on what is computed per block.
-/

namespace LocalSend.Blocks

variable {α σ : Type*}

/-- The complete `n`-entry blocks at the front of a list, in order. -/
def blocks (n : ℕ) (xs : List α) : List (List α) :=
  if 0 < n ∧ n ≤ xs.length then xs.take n :: blocks n (xs.drop n) else []
termination_by xs.length
decreasing_by simp only [List.length_drop]; omega

/-- What is left behind the last complete block. -/
def remainder (n : ℕ) (xs : List α) : List α :=
  xs.drop (n * (xs.length / n))

/-- Iterate a compression function over the complete blocks. -/
def absorb (n : ℕ) (compress : σ → List α → σ) (s : σ) (xs : List α) : σ :=
  (blocks n xs).foldl compress s

/-! ## Short and full inputs -/

theorem blocks_of_lt {n : ℕ} {xs : List α} (h : xs.length < n) : blocks n xs = [] := by
  rw [blocks, if_neg (by omega)]

theorem blocks_of_le {n : ℕ} {xs : List α} (hn : 0 < n) (h : n ≤ xs.length) :
    blocks n xs = xs.take n :: blocks n (xs.drop n) := by
  rw [blocks, if_pos ⟨hn, h⟩]

theorem remainder_of_lt {n : ℕ} {xs : List α} (h : xs.length < n) : remainder n xs = xs := by
  rw [remainder, Nat.div_eq_of_lt h, Nat.mul_zero, List.drop_zero]

theorem remainder_of_le {n : ℕ} {xs : List α} (hn : 0 < n) (h : n ≤ xs.length) :
    remainder n xs = remainder n (xs.drop n) := by
  have hdiv : xs.length / n = (xs.length - n) / n + 1 := Nat.div_eq_sub_div hn h
  rw [remainder, remainder, List.drop_drop, List.length_drop, hdiv, Nat.mul_add, Nat.mul_one,
    Nat.add_comm]

/-- The unfinished block has exactly the entries a division leaves over. -/
theorem remainder_length (n : ℕ) (xs : List α) :
    (remainder n xs).length = xs.length % n := by
  have hsplit := Nat.div_add_mod xs.length n
  rw [remainder, List.length_drop]
  omega

/-! ## Appending input -/

/-- Blocks cut from a longer input are those of its front, followed by those of the
carried remainder and the new entries. -/
theorem blocks_append {n : ℕ} (hn : 0 < n) (xs ys : List α) :
    blocks n (xs ++ ys) = blocks n xs ++ blocks n (remainder n xs ++ ys) := by
  fun_induction blocks n xs with
  | case1 xs h ih =>
      have hle : n ≤ (xs ++ ys).length := by
        rw [List.length_append]
        omega
      rw [blocks_of_le hn hle, List.take_append_of_le_length h.2,
        List.drop_append_of_le_length h.2, ih, ← remainder_of_le hn h.2, List.cons_append]
  | case2 xs h =>
      rw [remainder_of_lt (by omega), List.nil_append]

theorem remainder_append {n : ℕ} (hn : 0 < n) (xs ys : List α) :
    remainder n (xs ++ ys) = remainder n (remainder n xs ++ ys) := by
  fun_induction blocks n xs with
  | case1 xs h ih =>
      have hle : n ≤ (xs ++ ys).length := by
        rw [List.length_append]
        omega
      rw [remainder_of_le hn hle, List.drop_append_of_le_length h.2, ih,
        ← remainder_of_le hn h.2]
  | case2 xs h =>
      have hlt : xs.length < n := by omega
      rw [remainder_of_lt hlt]

/-- Absorbing a concatenation resumes from the carried state and remainder. -/
theorem absorb_append {n : ℕ} (hn : 0 < n) (compress : σ → List α → σ) (s : σ)
    (xs ys : List α) :
    absorb n compress s (xs ++ ys) =
      absorb n compress (absorb n compress s xs) (remainder n xs ++ ys) := by
  simp only [absorb, blocks_append hn xs ys, List.foldl_append]

theorem absorb_of_lt {n : ℕ} {xs : List α} (h : xs.length < n) (compress : σ → List α → σ)
    (s : σ) : absorb n compress s xs = s := by
  simp [absorb, blocks_of_lt h]

theorem absorb_of_le {n : ℕ} {xs : List α} (hn : 0 < n) (h : n ≤ xs.length)
    (compress : σ → List α → σ) (s : σ) :
    absorb n compress s xs = absorb n compress (compress s (xs.take n)) (xs.drop n) := by
  simp [absorb, blocks_of_le hn h]

/-- A list of exactly one block is one application of the compression function. -/
theorem absorb_of_length_eq {n : ℕ} {xs : List α} (hn : 0 < n) (h : xs.length = n)
    (compress : σ → List α → σ) (s : σ) : absorb n compress s xs = compress s xs := by
  have hdrop : xs.drop n = [] := List.drop_eq_nil_of_le (by omega)
  rw [absorb_of_le hn (by omega), hdrop, List.take_of_length_le (by omega),
    absorb_of_lt (by simpa using hn)]

end LocalSend.Blocks
