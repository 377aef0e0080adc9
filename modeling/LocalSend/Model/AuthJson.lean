import LocalSend.Library.Json
import LocalSend.Model.Auth
import LocalSend.Model.Upload.Metadata

/-! # The verify request's body

`auth_parse_verify_json` and the scanners below it. A cursor is the rest of the input.
-/

namespace LocalSend.Auth

open Braced
open Upload (isDigit)

def skipSpace (input : Bytes) : Bytes := Json.marks.skip input

/-- The loop of `parse_literal_string` up to and with the closing quote, `output` in
reverse. -/
def literalLoop (capacity : ℕ) : CString → Bytes → Option (CString × Bytes)
  | _, [] => none
  | output, byte :: rest =>
      if byte = 34 then some (output.reverse, rest)
      else if byte < 0x20 ∨ byte = 92 ∨ capacity ≤ output.length + 1 then none
      else literalLoop capacity (byte :: output) rest

def parseLiteralString (capacity : ℕ) : Bytes → Option (CString × Bytes)
  | [] => none
  | byte :: rest => if byte = 34 then literalLoop capacity [] rest else none

/-- The outputs filled so far; `none` is a bit of `seen` that is not set. -/
structure VerifyFields where
  challengeId : Option CString
  pin : Option CString
  deriving DecidableEq

/-- The keys `challengeId` and `pin`. -/
def challengeIdKey : CString := [99, 104, 97, 108, 108, 101, 110, 103, 101, 73, 100]
def pinKey : CString := [112, 105, 110]

/-- What becomes of a key and its value. -/
def storeMember (fields : VerifyFields) (key value : CString) : Option VerifyFields :=
  if key = challengeIdKey ∧ fields.challengeId.isNone ∧
      value.length = AUTH_CHALLENGE_ID_HEX_BYTES then
    some { fields with challengeId := some value }
  else if key = pinKey ∧ fields.pin.isNone ∧ value.length = AUTH_PIN_DIGITS then
    if value.all isDigit then some { fields with pin := some value } else none
  else none

/-- One round of the member loop: key, colon, value. -/
def verifyMember (fields : VerifyFields) (input : Bytes) : Option (VerifyFields × Bytes) :=
  match parseLiteralString 16 input with
  | none => none
  | some (key, rest) =>
      match skipSpace rest with
      | 58 :: rest =>
          match parseLiteralString (AUTH_CHALLENGE_ID_HEX_BYTES + 1) (skipSpace rest) with
          | none => none
          | some (value, rest) => (storeMember fields key value).map fun fields => (fields, rest)
      | _ => none

/-- The challenge id and the PIN of a body, when the call returns 0. The loop over the
members is that of `Braced.readMembers`. -/
def authParseVerifyJson (body : Bytes) : Option (CString × CString) :=
  match readObject Json.marks verifyMember ⟨none, none⟩ body with
  | some ⟨some challengeId, some pin⟩ => some (challengeId, pin)
  | _ => none

end LocalSend.Auth
