import Mathlib.Data.List.Basic

/-! # Bytes and strings -/

namespace LocalSend

abbrev Bytes := List UInt8

/-- A C string, without its terminator. -/
abbrev CString := List UInt8

/-- A digit of `"0123456789abcdef"`. -/
def hexDigit (value : UInt8) : UInt8 :=
  if value < 10 then 48 + value else 87 + value

/-- Two lower-case digits a byte. -/
def hexBytes (bytes : Bytes) : CString :=
  bytes.flatMap fun (byte : UInt8) => [hexDigit (byte >>> 4), hexDigit (byte &&& 15)]

theorem hexBytes_length (bytes : Bytes) : (hexBytes bytes).length = 2 * bytes.length := by
  induction bytes with
  | nil => rfl
  | cons byte bytes ih =>
      simp only [hexBytes, List.flatMap_cons, List.length_append] at ih ⊢
      rw [ih]
      simp only [List.length_cons, List.length_nil]
      omega

end LocalSend
