import LocalSend.Model.Router.Transfer

/-! # The fast listener's programs

`connection_main` again, with the router's own functions in place of its recorded calls.
-/

namespace LocalSend.FastUpload

open Config Routing

/-- What a connection comes to: a reply of the server itself, or what the router answered. -/
inductive Served where
  | dropped
  | replied (reply : Reply)
  | answered (response : Response) (origin : CString)

/-- `stream_error`. -/
def abortStream (begun : Begun) : Handler Served :=
  (match begun.chunk with
    | some (offset, size) => routerUploadStreamAbortChunk begun.uploadId offset size
    | none => routerUploadStreamAbort begun.uploadId).bind fun () => .done .dropped

/-- The end of a stream whose writes all succeeded. -/
def completeStream (begun : Begun) (origin : CString) : Handler Served :=
  match begun.chunk with
  | some (offset, size) =>
      (routerUploadStreamFinishChunk begun.uploadId offset size).bind fun (response, finished) =>
        if finished then .done (.answered response origin)
        else
          (routerUploadStreamAbortChunk begun.uploadId offset size).bind fun () =>
            .done (.answered response origin)
  | none =>
      (routerUploadStreamFinish begun.uploadId).bind fun response =>
        .done (.answered response origin)

/-- The call that hands over `data`, `received` bytes into the body. -/
def writePart (begun : Begun) (received : ℕ) (data : Bytes) : Handler (Except Response Unit) :=
  match begun.chunk with
  | some (offset, _) =>
      routerUploadStreamWriteChunk begun.uploadId (offset + .ofNat received) data
  | none => routerUploadStreamWriteDirect begun.uploadId data

/-- A write, and what follows a failed one. -/
def orAbortStream (begun : Begun) (received : ℕ) (data : Bytes) (next : Handler Served) :
    Handler Served :=
  (writePart begun received data).bind fun
    | .ok () => next
    | .error _ => abortStream begun

/-- The loop over the body. -/
def receiveBody (begun : Begun) (origin : CString) (contentLength : ℕ) :
    ℕ → ℕ → Bytes → List Arrival → Handler Served
  | 0, _, _, _ => abortStream begun
  | fuel + 1, received, buffer, arrivals =>
      if contentLength ≤ received then completeStream begun origin
      else match recv (min (contentLength - received) FAST_UPLOAD_READ_BYTES) arrivals with
      | (.interrupted, arrivals) =>
          receiveBody begun origin contentLength fuel received buffer arrivals
      | (.failed, _) => abortStream begun
      | (.bytes data, arrivals) =>
          let buffer := data ++ buffer.drop data.length
          orAbortStream begun received (buffer.take data.length)
            (receiveBody begun origin contentLength fuel (received + data.length) buffer arrivals)

/-- `connection_main` once the stream has begun. -/
def receiveStream (begun : Begun) (request : Request) (buffer : Bytes)
    (arrivals : List Arrival) : Handler Served :=
  let contentLength := request.contentLength.toNat
  if contentLength < request.bufferedBytes then abortStream begun
  else if 0 < request.bufferedBytes then
    orAbortStream begun 0 ((buffer.drop request.bodyOffset).take request.bufferedBytes)
      (receiveBody begun request.origin.text contentLength (pending arrivals + 1)
        request.bufferedBytes buffer arrivals)
  else
    receiveBody begun request.origin.text contentLength (pending arrivals + 1) 0 buffer arrivals

/-- `connection_main` behind the checks of the headers. -/
def serveStream (authMode : AuthMode) (uiAuthority address : CString) (request : Request)
    (buffer : Bytes) (arrivals : List Arrival) : Handler Served :=
  let origin := request.origin.text
  (routerUploadStreamBeginEx authMode (routerRequest request uiAuthority address)
    request.hasContentLength request.contentLength.toNat).bind fun
    | .error response => .done (.answered response origin)
    | .ok begun =>
        if begun.chunk = none then
          (routerUploadStreamEnableDirect begun.uploadId).bind fun
            | .ok () => receiveStream begun request buffer arrivals
            | .error response => .done (.answered response origin)
        else receiveStream begun request buffer arrivals

/-- `connection_main` behind its `malloc`, on what arrives at the socket of a peer at `address`. -/
def serveConnection (authMode : AuthMode) (uiPort boundPort : UInt16) (address : CString)
    (arrivals : List Arrival) : Handler Served :=
  match receiveHeaders arrivals with
  | none => .done (.replied (.simpleError 400 "bad_request" "Malformed HTTP request" none))
  | some (request, buffer, arrivals) =>
      match validateOrigin uiPort boundPort request with
      | none => .done (.replied (.simpleError 403 "origin_forbidden"
          "Origin does not match the PS5 receiver" none))
      | some uiAuthority =>
          if request.method.text = ascii "OPTIONS" then
            .done (.replied (.preflight request.origin.text))
          else if request.method.text ≠ ascii "PUT" then
            .done (.replied (.simpleError 405 "method_not_allowed" "Only PUT is allowed"
              (some request.origin.text)))
          else serveStream authMode uiAuthority.text address request buffer arrivals

end LocalSend.FastUpload
