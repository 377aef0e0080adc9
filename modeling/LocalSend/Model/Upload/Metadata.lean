import LocalSend.Model.SafePath
import Mathlib.Algebra.Group.Nat.Defs

/-! # The prepare request's body

`parse_metadata` and the scanners below it. A cursor is the rest of the input.
-/

namespace LocalSend.Upload

open SafePath

def UPLOAD_ID_HEX_BYTES : ℕ := 32
def UPLOAD_METADATA_BYTES : ℕ := 1024
def SHA256_HEX_BYTES : ℕ := 64

/-- `".ps5localsend-"`. -/
def partMarker : CString := [46, 112, 115, 53, 108, 111, 99, 97, 108, 115, 101, 110, 100, 45]

/-- `".part"`. -/
def partSuffix : CString := [46, 112, 97, 114, 116]

def isDigit (byte : UInt8) : Bool := 48 ≤ byte ∧ byte ≤ 57

def isLowerHex (byte : UInt8) : Bool := isDigit byte ∨ (97 ≤ byte ∧ byte ≤ 102)

def managedPartName (name : CString) : Bool :=
  name.length = partMarker.length + UPLOAD_ID_HEX_BYTES + partSuffix.length ∧
    name.take partMarker.length = partMarker ∧
    ((name.drop partMarker.length).take UPLOAD_ID_HEX_BYTES).all isLowerHex ∧
    name.drop (partMarker.length + UPLOAD_ID_HEX_BYTES) = partSuffix

/-! ## Scanners -/

def skipWs : Bytes → Bytes
  | [] => []
  | byte :: rest =>
      if byte = 32 ∨ byte = 9 ∨ byte = 10 ∨ byte = 13 then skipWs rest else byte :: rest

/-- The loop of `json_string` up to and with the closing quote, `output` in reverse. -/
def jsonStringLoop (capacity : ℕ) : CString → Bytes → Option (CString × Bytes)
  | _, [] => none
  | output, 34 :: rest => some (output.reverse, rest)
  | _, [92] => none
  | output, 92 :: byte :: rest =>
      if (byte ≠ 34 ∧ byte ≠ 92 ∧ byte ≠ 47) ∨ capacity ≤ output.length + 1 then none
      else jsonStringLoop capacity (byte :: output) rest
  | output, byte :: rest =>
      if byte < 0x20 ∨ capacity ≤ output.length + 1 then none
      else jsonStringLoop capacity (byte :: output) rest

def jsonString (capacity : ℕ) : Bytes → Option (CString × Bytes)
  | 34 :: rest => jsonStringLoop capacity [] rest
  | _ => none

/-- The digits of `json_u64`; the value stays below `2 ^ 64`. -/
def jsonDigits : ℕ → Bytes → Option (ℕ × Bytes)
  | number, [] => some (number, [])
  | number, byte :: rest =>
      if isDigit byte then
        let digit := byte.toNat - 48
        if (2 ^ 64 - 1 - digit) / 10 < number then none
        else jsonDigits (number * 10 + digit) rest
      else some (number, byte :: rest)

def jsonU64 (input : Bytes) : Option (ℕ × Bytes) :=
  match jsonDigits 0 input with
  | none => none
  | some (number, rest) =>
      let digits := input.length - rest.length
      if digits = 0 then none
      else if 1 < digits ∧ peek input = 48 then none
      else some (number, rest)

/-! ## `parse_metadata` -/

/-- The members read so far; `none` is a key that has not been seen. -/
structure Members where
  name : Option CString
  size : Option ℕ
  type : Option CString
  sha256 : Option CString
  deriving DecidableEq

/-- What `parse_metadata` hands back; an absent hash is the empty string. -/
structure Metadata where
  name : CString
  size : ℕ
  expectedHash : CString
  deriving DecidableEq

/-- The keys `name`, `size`, `type` and `sha256`. -/
def nameKey : CString := [110, 97, 109, 101]
def sizeKey : CString := [115, 105, 122, 101]
def typeKey : CString := [116, 121, 112, 101]
def sha256Key : CString := [115, 104, 97, 50, 53, 54]

/-- The value of one member, stored under its key. -/
def parseValue (members : Members) (key : CString) (input : Bytes) : Option (Members × Bytes) :=
  if key = nameKey ∧ members.name.isNone then
    (jsonString (SAFE_PATH_NAME_BYTES + 1) input).map fun (value, rest) =>
      ({ members with name := some value }, rest)
  else if key = sizeKey ∧ members.size.isNone then
    (jsonU64 input).map fun (value, rest) => ({ members with size := some value }, rest)
  else if key = typeKey ∧ members.type.isNone then
    (jsonString 128 input).map fun (value, rest) => ({ members with type := some value }, rest)
  else if key = sha256Key ∧ members.sha256.isNone then
    match jsonString (SHA256_HEX_BYTES + 1) input with
    | none => none
    | some (value, rest) =>
        if value.length ≠ SHA256_HEX_BYTES ∨ ¬value.all isLowerHex then none
        else some ({ members with sha256 := some value }, rest)
  else none

/-- One member: key, colon, value. -/
def parseMember (members : Members) (input : Bytes) : Option (Members × Bytes) :=
  match jsonString 16 input with
  | none => none
  | some (key, rest) =>
      match skipWs rest with
      | 58 :: rest => parseValue members key (skipWs rest)
      | _ => none

/-- The member loop; every round consumes input, which bounds the fuel it needs. -/
def parseMembers : ℕ → Members → Bytes → Option (Members × Bytes)
  | 0, _, _ => none
  | fuel + 1, members, input =>
      match skipWs input with
      | 125 :: rest => some (members, rest)
      | input =>
          match parseMember members input with
          | none => none
          | some (members, rest) =>
              match skipWs rest with
              | 44 :: rest =>
                  match skipWs rest with
                  | [] => none
                  | 125 :: _ => none
                  | rest => parseMembers fuel members rest
              | 125 :: rest => some (members, rest)
              | _ => none

def parseMetadata (json : Bytes) : Option Metadata :=
  match skipWs json with
  | 123 :: rest =>
      match parseMembers (rest.length + 1) ⟨none, none, none, none⟩ rest with
      | some (⟨some name, some size, some type, sha256⟩, rest) =>
          if skipWs rest = [] ∧ safePathValidateFilename name ∧ ¬managedPartName name ∧ type ≠ []
          then some ⟨name, size, sha256.getD []⟩
          else none
      | _ => none
  | _ => none

end LocalSend.Upload
