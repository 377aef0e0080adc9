import LocalSend.Library.Search
import LocalSend.Model.Config
import LocalSend.Model.Upload.State

/-! # Requests of the fast upload server

How `fast_upload_server.c` reads a request out of its buffer, and the check of its origin. The
parser cuts the buffer up in place: a string is what stands in it from a place on up to the
next zero byte.
-/

namespace LocalSend.FastUpload

open Config SafePath Text
open Upload (UPLOAD_AUTH_BYTES)

def FAST_UPLOAD_HEADER_BYTES : ℕ := 16 * 1024
def FAST_UPLOAD_READ_BYTES : ℕ := 1024 * 1024
def ROUTER_MAX_PATH_BYTES : ℕ := 2048

/-- A string in a `char` array, with room for its terminator. -/
structure Field (capacity : ℕ) where
  text : CString
  fits : text.length < capacity
  deriving DecidableEq

/-- An array of zeros. -/
def Field.zero (capacity : ℕ) : Field (capacity + 1) := ⟨[], Nat.zero_lt_succ capacity⟩

/-- `fast_request_t`. -/
structure Request where
  method : Field 8
  path : Field (ROUTER_MAX_PATH_BYTES + 1)
  host : Field 264
  origin : Field 264
  authorization : Field UPLOAD_AUTH_BYTES
  contentType : Field 64
  contentRange : Field 128
  contentLength : UInt64
  hasContentLength : Bool
  bodyOffset : ℕ
  bufferedBytes : ℕ
  deriving DecidableEq

/-- `parse_u64`; `strtoull` skips the blanks in front of a number and takes a sign. -/
def parseU64 (value : CString) : Option UInt64 :=
  if value = [] ∨ peek value = 45 ∨ peek value = 43 then none
  else match strtoull value with
  | some (parsed, []) => some (.ofNat parsed)
  | _ => none

/-- `copy_header_value`. -/
def copyHeaderValue (capacity : ℕ) (value : CString) : Option (Field capacity) :=
  if h : value.length ≠ 0 ∧ value.length < capacity then some ⟨value, h.2⟩ else none

/-! ## The buffer -/

/-- The string at a place of the buffer. -/
def textAt (buffer : Bytes) (position : ℕ) : CString :=
  (buffer.drop position).takeWhile (· ≠ 0)

/-- Zeros from `position` on. -/
def terminate (buffer : Bytes) (position : ℕ) : ℕ → Bytes
  | 0 => buffer
  | count + 1 => (terminate buffer position count).set (position + count) 0

/-- `trim` of the string at a place: the blanks behind it are overwritten, and its first byte
that is no blank is where it starts. -/
def trimAt (buffer : Bytes) (position : ℕ) : Bytes × ℕ :=
  let text := textAt buffer position
  let start := position + (text.takeWhile isSpace).length
  let stop := start + (trim isSpace text).length
  (terminate buffer stop (position + text.length - stop), start)

/-- `"\r\n"`. -/
def lineBreak : Bytes := [13, 10]

/-- The first end of a line. -/
def lineEnd (text : CString) : Option ℕ := search lineBreak text

/-- The first empty line, from the end of the line before it. -/
def headerEnd (buffer : Bytes) : Option ℕ := search (lineBreak ++ lineBreak) buffer

/-! ## The request line and the headers -/

/-- `%s` with a width: a word behind its blanks, cut off at the width. -/
def scanWord (width : ℕ) (text : CString) : Option (Field (width + 1) × CString) :=
  let text := text.dropWhile isSpace
  let word := (text.takeWhile (¬isSpace ·)).take width
  if word = [] then none
  else some (⟨word, Nat.lt_succ_of_le (List.length_take_le ..)⟩, text.drop word.length)

/-- `sscanf` with `"%7s %2048s HTTP/1.1"`; what follows the path does not count. -/
def scanRequestLine (line : CString) :
    Option (Field 8 × Field (ROUTER_MAX_PATH_BYTES + 1)) :=
  match scanWord 7 line with
  | none => none
  | some (method, rest) => (scanWord ROUTER_MAX_PATH_BYTES rest).map fun path => (method, path.1)

/-- `tolower` of the C locale. -/
def toLower (byte : UInt8) : UInt8 := if 65 ≤ byte ∧ byte ≤ 90 then byte + 32 else byte

/-- `strcasecmp` finds no difference. -/
def sameIgnoringCase (first second : CString) : Bool := first.map toLower = second.map toLower

/-- A header that is stored once. -/
def storeOnce {capacity : ℕ} (field : Field capacity) (value : CString) :
    Option (Field capacity) :=
  if field.text ≠ [] then none else copyHeaderValue capacity value

/-- What a header line adds to the request; a header that is not known is skipped. -/
def storeHeader (request : Request) (name value : CString) : Option Request :=
  if sameIgnoringCase name (ascii "Host") then
    (storeOnce request.host value).map fun host => { request with host }
  else if sameIgnoringCase name (ascii "Origin") then
    (storeOnce request.origin value).map fun origin => { request with origin }
  else if sameIgnoringCase name (ascii "Authorization") then
    (storeOnce request.authorization value).map fun authorization =>
      { request with authorization }
  else if sameIgnoringCase name (ascii "Content-Type") then
    (storeOnce request.contentType value).map fun contentType => { request with contentType }
  else if sameIgnoringCase name (ascii "Content-Range") then
    (storeOnce request.contentRange value).map fun contentRange =>
      { request with contentRange }
  else if sameIgnoringCase name (ascii "Content-Length") then
    if request.hasContentLength then none
    else (parseU64 value).map fun contentLength =>
      { request with contentLength, hasContentLength := true }
  else some request

/-- One header line, terminated at its end: name and value are cut out of it and stored. -/
def storeLine (buffer : Bytes) (line : ℕ) (request : Request) : Option Request × Bytes :=
  let text := textAt buffer line
  if 58 ∉ text then (none, buffer)
  else
    let colon := line + text.idxOf 58
    let name := trimAt (buffer.set colon 0) line
    let value := trimAt name.1 (colon + 1)
    (storeHeader request (textAt value.1 name.2) (textAt value.1 value.2), value.1)

/-- The loop of `parse_request` over the header lines, from the one at `line` on. -/
def parseLines : ℕ → Bytes → ℕ → Request → Option Request × Bytes
  | 0, buffer, _, _ => (none, buffer)
  | fuel + 1, buffer, line, request =>
      if textAt buffer line = [] then (some request, buffer)
      else
        let next := (lineEnd (textAt buffer line)).map (line + ·)
        match storeLine (next.elim buffer (buffer.set · 0)) line request with
        | (none, buffer) => (none, buffer)
        | (some request, buffer) =>
            match next with
            | none => (some request, buffer)
            | some next => parseLines fuel buffer (next + 2) request

/-- The answers of `parse_request`: 1, -1 and 0. -/
inductive ParseResult where
  | more
  | refused
  | parsed (request : Request)
  deriving DecidableEq

def ParseResult.ofOption : Option Request → ParseResult
  | none => .refused
  | some request => .parsed request

/-- The zeroed request with what is known before the headers are read. -/
def startRequest (method : Field 8) (path : Field (ROUTER_MAX_PATH_BYTES + 1))
    (bodyOffset bufferedBytes : ℕ) : Request where
  method := method
  path := path
  host := .zero 263
  origin := .zero 263
  authorization := .zero 79
  contentType := .zero 63
  contentRange := .zero 127
  contentLength := 0
  hasContentLength := false
  bodyOffset := bodyOffset
  bufferedBytes := bufferedBytes

/-- `parse_request` on the bytes received so far, and what it leaves of them. Every line has a
byte, so there are not more of them than the header block is long. -/
def parseRequest (buffer : Bytes) : ParseResult × Bytes :=
  match headerEnd buffer with
  | none => (.more, buffer)
  | some stop =>
      let size := buffer.length
      let buffer := buffer.set stop 0
      match lineEnd (textAt buffer 0) with
      | none => (.refused, buffer)
      | some next =>
          let buffer := buffer.set next 0
          match scanRequestLine (textAt buffer 0) with
          | none => (.refused, buffer)
          | some (method, path) =>
              let request := startRequest method path (stop + 4) (size - (stop + 4))
              let (parsed, buffer) := parseLines stop buffer (next + 2) request
              (.ofOption parsed, buffer)

/-! ## The origin -/

/-- `split_authority` for a host array of this size: the host and the port. -/
def splitAuthority (authority : CString) (hostCapacity : ℕ) : Option (CString × UInt64) :=
  let split : Option (CString × CString) :=
    if peek authority = 91 then
      let host := authority.takeWhile (· ≠ 93)
      match authority.drop host.length with
      | 93 :: 58 :: portText => some (host ++ [93], portText)
      | _ => none
    else
      match cut 58 authority with
      | some (host, portText) => if 58 ∈ portText then none else some (host, portText)
      | none => none
  match split with
  | none => none
  | some (host, portText) =>
      if host.length = 0 ∨ hostCapacity ≤ host.length then none
      else match parseU64 portText with
      | none => none
      | some port => if 65535 < port then none else some (host, port)

/-- `"http://"`. -/
def originPrefix : CString := ascii "http://"

/-- `validate_origin`: the authority it copies when it returns 0. -/
def validateOrigin (uiPort boundPort : UInt16) (request : Request) : Option (Field 264) :=
  let origin := request.origin.text
  if origin.take originPrefix.length ≠ originPrefix then none
  else
    let authority := origin.drop originPrefix.length
    if 47 ∈ authority then none
    else match splitAuthority authority 256, splitAuthority request.host.text 256 with
    | some (originHost, originPort), some (requestHost, requestPort) =>
        if originPort ≠ uiPort.toUInt64 ∨ requestPort ≠ boundPort.toUInt64 ∨
            ¬sameIgnoringCase originHost requestHost then none
        else if h : authority.length < 264 then some ⟨authority, h⟩
        else none
    | _, _ => none

end LocalSend.FastUpload
