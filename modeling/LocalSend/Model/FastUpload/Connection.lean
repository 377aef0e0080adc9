import LocalSend.Model.FastUpload.Request
import LocalSend.Model.Router.Request

/-! # A connection of the fast upload server

`receive_headers` and `connection_main`. What the peer has sent comes in arrivals; the calls to
the router are recorded, and its answers are given.
-/

namespace LocalSend.FastUpload

open Config

/-! ## Receiving -/

/-- What the next `recv` meets: `EINTR`, or bytes that have come in; none of them is the end of
the stream. -/
inductive Arrival where
  | interrupted
  | bytes (data : Bytes)
  deriving DecidableEq

inductive Received where
  | interrupted
  | failed
  | bytes (data : Bytes)
  deriving DecidableEq

/-- `recv` of at most `requested` bytes; what does not fit stays behind. -/
def recv (requested : ℕ) : List Arrival → Received × List Arrival
  | [] => (.failed, [])
  | .interrupted :: arrivals => (.interrupted, arrivals)
  | .bytes data :: arrivals =>
      if data = [] then (.failed, arrivals)
      else if data.length ≤ requested then (.bytes data, arrivals)
      else (.bytes (data.take requested), .bytes (data.drop requested) :: arrivals)

/-- How often `recv` can be called before the arrivals are used up. -/
def pending : List Arrival → ℕ
  | [] => 0
  | .interrupted :: arrivals => pending arrivals + 1
  | .bytes data :: arrivals => pending arrivals + data.length + 1

/-- The loop of `receive_headers` with `buffer` received; `none` is -1. -/
def headersLoop : ℕ → Bytes → List Arrival → Option (Request × Bytes × List Arrival)
  | 0, _, _ => none
  | fuel + 1, buffer, arrivals =>
      if FAST_UPLOAD_HEADER_BYTES ≤ buffer.length then none
      else match recv (FAST_UPLOAD_HEADER_BYTES - buffer.length) arrivals with
      | (.interrupted, arrivals) => headersLoop fuel buffer arrivals
      | (.failed, _) => none
      | (.bytes data, arrivals) =>
          match parseRequest (buffer ++ data) with
          | (.more, buffer) => headersLoop fuel buffer arrivals
          | (.refused, _) => none
          | (.parsed request, buffer) => some (request, buffer, arrivals)

def receiveHeaders (arrivals : List Arrival) : Option (Request × Bytes × List Arrival) :=
  headersLoop (pending arrivals + 1) [] arrivals

/-! ## The router -/

/-- What `router_upload_stream_begin_ex` hands back: a chunk's offset and size, or none for the
whole file. -/
structure Begun where
  uploadId : CString
  chunk : Option (UInt64 × UInt64)
  deriving DecidableEq

/-- A call to the router. -/
inductive Call where
  | begin_ (request : Routing.Request) (hasContentLength : Bool) (contentLength : UInt64)
  | enableDirect (uploadId : CString)
  | writeChunk (uploadId : CString) (offset : UInt64) (data : Bytes)
  | writeDirect (uploadId : CString) (data : Bytes)
  | finishChunk (uploadId : CString) (offset size : UInt64)
  | finish (uploadId : CString)
  | abortChunk (uploadId : CString) (offset size : UInt64)
  | abort (uploadId : CString)
  deriving DecidableEq

/-- The router as a connection sees it: its answers, by the calls so far, newest first. -/
structure Answers where
  begin_ : Call → Option Begun
  succeeds : List Call → Bool

/-- What is sent back: an error of the server itself, the answer to a preflight request, or what
the router answered to its last call. -/
inductive Reply where
  | simpleError (status : ℕ) (code message : String) (origin : Option CString)
  | preflight (origin : CString)
  | router (origin : CString)
  deriving DecidableEq

/-- The calls a connection has made, newest first, and its reply if there is one. -/
structure Outcome where
  calls : List Call
  reply : Option Reply
  deriving DecidableEq

/-! ## The connection -/

/-- The call that hands over `data`, `received` bytes into the body. -/
def writeCall (begun : Begun) (received : ℕ) (data : Bytes) : Call :=
  match begun.chunk with
  | some (offset, _) => .writeChunk begun.uploadId (offset + .ofNat received) data
  | none => .writeDirect begun.uploadId data

/-- `stream_error`. -/
def streamError (begun : Begun) (calls : List Call) : Outcome :=
  match begun.chunk with
  | some (offset, size) => ⟨.abortChunk begun.uploadId offset size :: calls, none⟩
  | none => ⟨.abort begun.uploadId :: calls, none⟩

/-- The end of a stream whose writes all succeeded. -/
def finishStream (answers : Answers) (begun : Begun) (origin : CString) (calls : List Call) :
    Outcome :=
  match begun.chunk with
  | some (offset, size) =>
      let calls := .finishChunk begun.uploadId offset size :: calls
      if answers.succeeds calls then ⟨calls, some (.router origin)⟩
      else ⟨.abortChunk begun.uploadId offset size :: calls, some (.router origin)⟩
  | none => ⟨.finish begun.uploadId :: calls, some (.router origin)⟩

/-- The loop over the body: each `recv` fills the buffer from its start. -/
def bodyLoop (answers : Answers) (begun : Begun) (origin : CString) (contentLength : ℕ) :
    ℕ → ℕ → Bytes → List Arrival → List Call → Outcome
  | 0, _, _, _, calls => streamError begun calls
  | fuel + 1, received, buffer, arrivals, calls =>
      if contentLength ≤ received then finishStream answers begun origin calls
      else match recv (min (contentLength - received) FAST_UPLOAD_READ_BYTES) arrivals with
      | (.interrupted, arrivals) =>
          bodyLoop answers begun origin contentLength fuel received buffer arrivals calls
      | (.failed, _) => streamError begun calls
      | (.bytes data, arrivals) =>
          let buffer := data ++ buffer.drop data.length
          let calls := writeCall begun received (buffer.take data.length) :: calls
          if answers.succeeds calls then
            bodyLoop answers begun origin contentLength fuel (received + data.length) buffer
              arrivals calls
          else streamError begun calls

/-- `connection_main` once the stream has begun: first the bytes that came with the headers. -/
def streamBody (answers : Answers) (begun : Begun) (request : Request) (buffer : Bytes)
    (arrivals : List Arrival) (calls : List Call) : Outcome :=
  let contentLength := request.contentLength.toNat
  if contentLength < request.bufferedBytes then streamError begun calls
  else if 0 < request.bufferedBytes then
    let data := (buffer.drop request.bodyOffset).take request.bufferedBytes
    let calls := writeCall begun 0 data :: calls
    if answers.succeeds calls then
      bodyLoop answers begun request.origin.text contentLength (pending arrivals + 1)
        request.bufferedBytes buffer arrivals calls
    else streamError begun calls
  else
    bodyLoop answers begun request.origin.text contentLength (pending arrivals + 1) 0 buffer
      arrivals calls

/-- The request as the router gets it. -/
def routerRequest (request : Request) (uiAuthority address : CString) : Routing.Request where
  method := request.method.text
  path := request.path.text
  body := none
  clientAddress := address
  host := some uiAuthority
  origin := some request.origin.text
  contentType := some request.contentType.text
  authorization := some request.authorization.text
  contentRange := if request.contentRange.text ≠ [] then some request.contentRange.text else none

/-- `connection_main` behind the checks of the headers. -/
def streamMain (answers : Answers) (uiAuthority address : CString) (request : Request)
    (buffer : Bytes) (arrivals : List Arrival) : Outcome :=
  let origin := request.origin.text
  let call := Call.begin_ (routerRequest request uiAuthority address) request.hasContentLength
    request.contentLength
  match answers.begin_ call with
  | none => ⟨[call], some (.router origin)⟩
  | some begun =>
      if begun.chunk = none then
        let calls := [.enableDirect begun.uploadId, call]
        if answers.succeeds calls then streamBody answers begun request buffer arrivals calls
        else ⟨calls, some (.router origin)⟩
      else streamBody answers begun request buffer arrivals [call]

/-- `connection_main` behind its `malloc`, on what arrives at the socket of a peer at `address`. -/
def connectionMain (answers : Answers) (uiPort boundPort : UInt16) (address : CString)
    (arrivals : List Arrival) : Outcome :=
  match receiveHeaders arrivals with
  | none => ⟨[], some (.simpleError 400 "bad_request" "Malformed HTTP request" none)⟩
  | some (request, buffer, arrivals) =>
      let origin := request.origin.text
      match validateOrigin uiPort boundPort request with
      | none => ⟨[], some (.simpleError 403 "origin_forbidden"
          "Origin does not match the PS5 receiver" none)⟩
      | some uiAuthority =>
          if request.method.text = ascii "OPTIONS" then ⟨[], some (.preflight origin)⟩
          else if request.method.text ≠ ascii "PUT" then
            ⟨[], some (.simpleError 405 "method_not_allowed" "Only PUT is allowed" (some origin))⟩
          else streamMain answers uiAuthority.text address request buffer arrivals

end LocalSend.FastUpload
