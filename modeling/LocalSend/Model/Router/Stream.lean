import LocalSend.Model.Router.Request

/-! # The stream requests

How `router.c` reads the extent of a chunk from its `Content-Range`.
-/

namespace LocalSend.Routing

open Config SafePath
open Upload (isDigit)

/-- `parse_range_number`: the value, and the cursor behind it. `strtoull` reports what does not
fit into 64 bits. -/
def parseRangeNumber (cursor : CString) : Option (ℕ × CString) :=
  if ¬isDigit (peek cursor) then none
  else
    let parsed := digitsValue (cursor.takeWhile isDigit)
    if 2 ^ 64 ≤ parsed then none else some (parsed, cursor.dropWhile isDigit)

/-- What `parse_content_range` stores. -/
structure ContentRange where
  offset : ℕ
  length : ℕ
  total : ℕ
  deriving DecidableEq

/-- `"bytes "`. -/
def rangeUnit : CString := ascii "bytes "

def parseContentRange (value : CString) : Option ContentRange :=
  if value.take rangeUnit.length ≠ rangeUnit then none
  else match parseRangeNumber (value.drop rangeUnit.length) with
  | none => none
  | some (offset, cursor) =>
      if peek cursor ≠ 45 then none
      else match parseRangeNumber cursor.tail with
      | none => none
      | some (stop, cursor) =>
          if peek cursor ≠ 47 then none
          else match parseRangeNumber cursor.tail with
          | none => none
          | some (parsedTotal, cursor) =>
              if cursor ≠ [] ∨ stop < offset ∨ parsedTotal = 0 ∨ parsedTotal ≤ stop then none
              else some ⟨offset, stop - offset + 1, parsedTotal⟩

end LocalSend.Routing
