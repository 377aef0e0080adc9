import Mathlib.Data.List.Basic
import Mathlib.Tactic.Common

/-! # Copying into a buffer

A buffer is the list of its entries; a copy overwrites the entries it covers and
keeps the others. What has been filled so far is a prefix of the buffer.
-/

namespace LocalSend.Buffer

variable {α : Type*}

/-- Overwrite `buffer` with `data` from position `offset` on. -/
def splice (buffer : List α) (offset : ℕ) (data : List α) : List α :=
  buffer.take offset ++ data ++ buffer.drop (offset + data.length)

@[simp] theorem splice_length {buffer data : List α} {offset : ℕ}
    (h : offset + data.length ≤ buffer.length) :
    (splice buffer offset data).length = buffer.length := by
  simp only [splice, List.length_append, List.length_take, List.length_drop]
  omega

/-- A copy behind the filled prefix extends that prefix by the copied entries. -/
theorem prefix_splice {buffer xs : List α} (h : xs <+: buffer) (data : List α) :
    xs ++ data <+: splice buffer xs.length data := by
  rw [splice, ← List.prefix_iff_eq_take.mp h]
  exact List.prefix_append _ _

theorem eq_of_prefix_of_length {buffer xs : List α} (h : xs <+: buffer)
    (hlen : xs.length = buffer.length) : buffer = xs :=
  (List.IsPrefix.eq_of_length h hlen).symm

end LocalSend.Buffer
