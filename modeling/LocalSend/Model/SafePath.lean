import LocalSend.Model.Basic

/-! # File names

The checks and constructions of `safe_path.c`. A string is the bytes before its
terminator; a buffer that a failed call has written is part of its result.
-/

namespace LocalSend.SafePath

def SAFE_PATH_NAME_BYTES : ℕ := 255
def SAFE_PATH_FULL_BYTES : ℕ := 1400

/-- The byte at a cursor; at the end of the string the terminator. -/
def peek : CString → UInt8
  | [] => 0
  | byte :: _ => byte

/-- The inner loop of `valid_utf8`: `remaining` continuation bytes added to `code`. -/
def continuation : ℕ → ℕ → CString → Option (ℕ × CString)
  | 0, code, text => some (code, text)
  | remaining + 1, code, text =>
      if peek text &&& 0xc0 ≠ 0x80 then none
      else continuation remaining (code * 64 + (peek text &&& 0x3f).toNat) text.tail

/-- What the first byte of a sequence announces: the bytes that follow and the bits it
carries. -/
def leadByte (byte : UInt8) : Option (ℕ × ℕ) :=
  if byte &&& 0xe0 = 0xc0 then
    let code := (byte &&& 0x1f).toNat
    if code < 2 then none else some (1, code)
  else if byte &&& 0xf0 = 0xe0 then some (2, (byte &&& 0x0f).toNat)
  else if byte &&& 0xf8 = 0xf0 then
    let code := (byte &&& 0x07).toNat
    if 4 < code then none else some (3, code)
  else none

/-- The range checks on a decoded sequence. -/
def codeRefused (sequenceBytes code : ℕ) : Bool :=
  (sequenceBytes = 2 ∧ code < 0x80) ∨ (sequenceBytes = 3 ∧ code < 0x800) ∨
    (sequenceBytes = 4 ∧ code < 0x10000) ∨ (0xd800 ≤ code ∧ code ≤ 0xdfff) ∨ 0x10ffff < code

/-- `valid_utf8`, with one unit of fuel for each sequence. -/
def validUtf8Loop : ℕ → CString → Bool
  | 0, text => text.isEmpty
  | _ + 1, [] => true
  | fuel + 1, byte :: text =>
      if byte < 0x80 then validUtf8Loop fuel text
      else match leadByte byte with
      | none => false
      | some (remaining, code) =>
          match continuation remaining code text with
          | none => false
          | some (code, text) =>
              if codeRefused (remaining + 1) code then false else validUtf8Loop fuel text

def validUtf8 (text : CString) : Bool := validUtf8Loop text.length text

/-- The inner loop of `valid_utf8` on an array of bytes; the outer `none` is a read past its
end. -/
def continuationIn : ℕ → ℕ → Bytes → Option (Option (ℕ × Bytes))
  | 0, code, memory => some (some (code, memory))
  | _ + 1, _, [] => none
  | remaining + 1, code, byte :: memory =>
      if byte &&& 0xc0 ≠ 0x80 then some none
      else continuationIn remaining (code * 64 + (byte &&& 0x3f).toNat) memory

/-- `valid_utf8` on an array of bytes, as far as it reads; `none` is a read past the end. -/
def validUtf8In : ℕ → Bytes → Option Bool
  | 0, _ => none
  | _ + 1, [] => none
  | fuel + 1, byte :: memory =>
      if byte = 0 then some true
      else if byte < 0x80 then validUtf8In fuel memory
      else match leadByte byte with
      | none => some false
      | some (remaining, code) =>
          match continuationIn remaining code memory with
          | none => none
          | some none => some false
          | some (some (code, memory)) =>
              if codeRefused (remaining + 1) code then some false else validUtf8In fuel memory

/-- A byte no file name may contain: a control byte, DEL, `/`, `\` or `%`. -/
def forbiddenByte (byte : UInt8) : Bool :=
  byte < 0x20 ∨ byte = 0x7f ∨ byte = 47 ∨ byte = 92 ∨ byte = 37

def safePathValidateFilename (name : CString) : Bool :=
  ¬(name.length = 0 ∨ SAFE_PATH_NAME_BYTES < name.length ∨ name = [46] ∨ name = [46, 46]) ∧
    validUtf8 name ∧ name.all (¬forbiddenByte ·)

/-- `snprintf` into a buffer: what it stores, and whether the text fitted. -/
def printInto (outputSize : ℕ) (text : CString) : CString × Bool :=
  (text.take (outputSize - 1), decide (text.length < outputSize))

/-- `safe_path_join` into `output`. -/
def safePathJoin (directory name output : CString) (outputSize : ℕ) : CString × Bool :=
  if ¬safePathValidateFilename name then (output, false)
  else printInto outputSize (directory ++ 47 :: name)

/-- The extension from the last `.` on, empty when there is none or it leads the name. -/
def splitExtension (requested : CString) : CString × CString :=
  let position := requested.reverse.idxOf 46
  let stemSize := requested.length - 1 - position
  if position = requested.length ∨ stemSize = 0 then (requested, [])
  else (requested.take stemSize, requested.drop stemSize)

/-- The loop that moves a cut inside the stem back to a character boundary. -/
def boundary (requested : CString) (stemSize : ℕ) : ℕ → ℕ
  | 0 => 0
  | keep + 1 =>
      if keep + 1 < stemSize ∧ requested.getD (keep + 1) 0 &&& 0xc0 = 0x80 then
        boundary requested stemSize keep
      else keep + 1

/-- The decimal digits of `value`. -/
def decimal (value : ℕ) : CString :=
  (Nat.toDigits 10 value).map fun digit => UInt8.ofNat digit.toNat

/-- `" (%u)"`. -/
def suffixText (suffix : ℕ) : CString := [32, 40] ++ decimal suffix ++ [41]

/-- The candidate for one suffix; `none` when suffix and extension leave no room. -/
def candidate (requested : CString) (suffix : ℕ) : Option CString :=
  let (stem, extension) := splitExtension requested
  let text := suffixText suffix
  if SAFE_PATH_NAME_BYTES ≤ text.length + extension.length then none
  else
    let keep := min (SAFE_PATH_NAME_BYTES - text.length - extension.length) stem.length
    some (requested.take (boundary requested stem.length keep) ++ text ++ extension)

/-- The loop over the suffixes, from `suffix` on with `count` of them left. -/
def uniqueSuffix (directory requested : CString) (absent : CString → Bool) :
    ℕ → ℕ → CString → CString × Bool
  | 0, _, output => (output, false)
  | count + 1, suffix, output =>
      match candidate requested suffix with
      | none => (output, false)
      | some name =>
          if ¬safePathValidateFilename name then (name, false)
          else
            let (path, fits) := safePathJoin directory name [] SAFE_PATH_FULL_BYTES
            if ¬fits then (name, false)
            else if absent path then (name, true)
            else uniqueSuffix directory requested absent count (suffix + 1) name

/-- `safe_path_unique_name` into `output`; `absent` tells for which paths `access` fails
with `ENOENT`. -/
def safePathUniqueName (directory requested output : CString) (absent : CString → Bool) :
    CString × Bool :=
  if ¬safePathValidateFilename requested then (output, false)
  else
    let (path, fits) := safePathJoin directory requested [] SAFE_PATH_FULL_BYTES
    if ¬fits then (output, false)
    else if absent path then (requested, true)
    else uniqueSuffix directory requested absent 9999 1 output

end LocalSend.SafePath
