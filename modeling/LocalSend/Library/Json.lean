import LocalSend.Library.Object

/-! # JSON punctuation

The marks of a JSON object over bytes, an entry of one, and plain string literals.
-/

namespace LocalSend.Json

open Braced

/-- Space, tab, line feed and carriage return. -/
def isBlank (byte : UInt8) : Bool := byte = 32 ∨ byte = 9 ∨ byte = 10 ∨ byte = 13

/-- Braces and commas. -/
def marks : Marks UInt8 := ⟨isBlank, 123, 44, 125, rfl, rfl, rfl, by decide⟩

/-- A text in quotes. -/
def quoted (text : List UInt8) : List UInt8 := 34 :: (text ++ [34])

/-- `key : value`, with blanks on both sides of the colon. -/
inductive Entry (key value : List UInt8) : List UInt8 → Prop where
  | mk {before after} (hbefore : marks.Blank before) (hafter : marks.Blank after) :
      Entry key value (key ++ before ++ 58 :: after ++ value)

/-- Bytes that stand for themselves in a string: no control byte, quote or backslash. -/
def Plain (text : List UInt8) : Prop := ∀ byte ∈ text, 0x20 ≤ byte ∧ byte ≠ 34 ∧ byte ≠ 92

variable {key value text rest : List UInt8}

/-- The colon behind a key, and behind it the value. -/
theorem skip_colon {before after : List UInt8} (hbefore : marks.Blank before)
    (hafter : marks.Blank after) (rest : List UInt8) :
    marks.skip (before ++ 58 :: (after ++ rest)) = 58 :: (after ++ rest) ∧
      marks.skip (after ++ rest) = marks.skip rest := by
  constructor
  · rw [skip_blank hbefore]
    exact skip_symbol rfl _
  · exact skip_blank hafter rest

/-- A quote is no blank. -/
@[simp] theorem skip_quoted (text rest : List UInt8) :
    marks.skip (quoted text ++ rest) = quoted text ++ rest :=
  skip_symbol rfl _

/-- An entry whose key is a string starts with a quote. -/
theorem Entry.first (h : Entry (quoted key) value text) : ∃ symbol after,
    text = symbol :: after ∧ marks.blank symbol = false ∧ symbol ≠ marks.closing := by
  cases h with
  | mk hbefore hafter => exact ⟨34, _, rfl, rfl, by decide⟩

/-- No blank, comma or brace is a digit, so a number in an object is followed by none. -/
theorem stops_head (h : marks.Stops rest) : ∃ symbol after, rest = symbol :: after ∧
    (symbol = 32 ∨ symbol = 9 ∨ symbol = 10 ∨ symbol = 13 ∨ symbol = 44 ∨ symbol = 125) := by
  obtain ⟨symbol, hhead, hsymbol⟩ := h
  obtain ⟨after, rfl⟩ := List.head?_eq_some_iff.mp hhead
  refine ⟨symbol, after, rfl, ?_⟩
  rcases hsymbol with hblank | hcomma | hclosing
  · have hbyte : symbol = 32 ∨ symbol = 9 ∨ symbol = 10 ∨ symbol = 13 := by
      simpa [marks, isBlank] using hblank
    tauto
  · have hbyte : symbol = 44 := hcomma
    tauto
  · have hbyte : symbol = 125 := hclosing
    tauto

end LocalSend.Json
