import Mathlib.Data.List.Range
import Mathlib.Data.Nat.ModEq
import Mathlib.Logic.Function.Basic
import Mathlib.Tactic.Common

/-! # Ring buffers

A ring of `depth` slots holds `count` entries from slot `head` on. Its entries are read as
a list, the oldest first; slots outside the ring may hold anything.
-/

namespace LocalSend.RingBuffer

variable {β : Type*} {slot slot' : ℕ → β} {depth head count : ℕ}

/-- The slot of entry `i`; entry `count` is where the next one goes. -/
def index (depth head i : ℕ) : ℕ := (head + i) % depth

/-- The entries, the oldest first. -/
def entries (slot : ℕ → β) (depth head count : ℕ) : List β :=
  (List.range count).map fun i => slot (index depth head i)

@[simp] theorem entries_length : (entries slot depth head count).length = count := by
  simp [entries]

@[simp] theorem entries_zero : entries slot depth head 0 = [] := rfl

theorem index_lt (hdepth : 0 < depth) (head i : ℕ) : index depth head i < depth :=
  Nat.mod_lt _ hdepth

theorem index_zero (hhead : head < depth) : index depth head 0 = head :=
  Nat.mod_eq_of_lt hhead

/-- The ring advanced by one slot. -/
theorem index_succ (depth head i : ℕ) :
    index depth (index depth head 1) i = index depth head (i + 1) := by
  simp only [index, Nat.mod_add_mod]
  rw [Nat.add_assoc, Nat.add_comm 1 i]

/-- Two entries less than one round apart lie in different slots. -/
theorem index_ne {i j : ℕ} (hlt : i < j) (hround : j < i + depth) :
    index depth head i ≠ index depth head j := by
  intro h
  have hmod : j ≡ i [MOD depth] := (Nat.ModEq.add_left_cancel' head h).symm
  have hdvd : depth ∣ j - i := (Nat.modEq_iff_dvd' hlt.le).mp hmod.symm
  have hle := Nat.le_of_dvd (by omega) hdvd
  omega

theorem entries_congr (h : ∀ i < count, slot (index depth head i) = slot' (index depth head i)) :
    entries slot depth head count = entries slot' depth head count := by
  apply List.map_congr_left
  intro i hi
  exact h i (List.mem_range.mp hi)

/-- Adding the slot behind the last entry. -/
theorem entries_push (slot : ℕ → β) (depth head count : ℕ) :
    entries slot depth head (count + 1) =
      entries slot depth head count ++ [slot (index depth head count)] := by
  simp [entries, List.range_succ]

/-- Dropping the oldest entry. -/
theorem entries_pop (slot : ℕ → β) (depth head count : ℕ) :
    entries slot depth head (count + 1) =
      slot (index depth head 0) :: entries slot depth (index depth head 1) count := by
  simp only [entries, List.range_succ_eq_map, List.map_cons, List.map_map]
  congr 1
  apply List.map_congr_left
  intro i _
  simp only [Function.comp_apply, index_succ]

/-- Writing to the slot of an entry that has been dropped. -/
theorem entries_update_dropped (hcount : count < depth) (x : β) :
    entries (Function.update slot (index depth head 0) x) depth (index depth head 1) count =
      entries slot depth (index depth head 1) count := by
  apply entries_congr
  intro i hi
  rw [index_succ]
  exact Function.update_of_ne (index_ne (Nat.succ_pos i) (by omega)).symm ..

end LocalSend.RingBuffer
