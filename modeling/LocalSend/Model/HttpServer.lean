import LocalSend.Model.Router.Transfer

/-! # The requests of the main listener

`handle_request` and `request_completed`, as libmicrohttpd calls them: once for the headers,
once for each part of the body, once for its end, and at last when the request is over.
-/

namespace LocalSend.Http

open Config SafePath Routing

/-- What libmicrohttpd knows of a request, `MHD_lookup_connection_value` included. -/
structure Connection where
  method : CString
  url : CString
  clientAddress : CString
  contentLength : Option CString
  host : Option CString
  origin : Option CString
  contentType : Option CString
  authorization : Option CString
  contentRange : Option CString
  deriving DecidableEq

/-- `request_state_t`; the bytes in `body` are the first `body_size` of the array. -/
structure RequestState where
  bodyLimit : ℕ
  body : Bytes
  bodyTooLarge : Bool
  streaming : Bool
  streamStarted : Bool
  streamFinished : Bool
  streamFailed : Bool
  chunk : Option (UInt64 × UInt64)
  chunkReceived : UInt64
  uploadId : CString
  streamError : Option Response
  fits : body.length ≤ bodyLimit
  bounded : bodyLimit ≤ ROUTER_MAX_METADATA_BODY_BYTES

/-- What a call of the handler tells libmicrohttpd. -/
inductive Verdict where
  | refused
  | proceed
  | answered (response : Option Response)
  deriving DecidableEq

def parseContentLength : Option CString → Option ℕ
  | none => none
  | some value =>
      if value = [] ∨ peek value = 45 ∨ peek value = 43 then none
      else match strtoull value with
      | some (parsed, []) => some parsed
      | _ => none

def bodyLimitForRequest (method url : CString) : ℕ :=
  if method = ascii "POST" ∧ url = ascii "/api/v1/auth/verify" then ROUTER_MAX_AUTH_BODY_BYTES
  else if method = ascii "POST" ∧ url = ascii "/api/v1/uploads" then
    ROUTER_MAX_METADATA_BODY_BYTES
  else if method = ascii "POST" ∧ url = ascii "/api/v1/storage" then
    ROUTER_MAX_METADATA_BODY_BYTES
  else 0

theorem bodyLimitForRequest_le (method url : CString) :
    bodyLimitForRequest method url ≤ ROUTER_MAX_METADATA_BODY_BYTES := by
  have hauth : ROUTER_MAX_AUTH_BODY_BYTES ≤ ROUTER_MAX_METADATA_BODY_BYTES := by decide
  simp only [bodyLimitForRequest]
  split_ifs <;> omega

/-- The state `calloc` makes, with its limit. -/
def RequestState.fresh (connection : Connection) : RequestState where
  bodyLimit := bodyLimitForRequest connection.method connection.url
  body := []
  bodyTooLarge := false
  streaming := false
  streamStarted := false
  streamFinished := false
  streamFailed := false
  chunk := none
  chunkReceived := 0
  uploadId := []
  streamError := none
  fits := Nat.zero_le _
  bounded := bodyLimitForRequest_le ..

/-- A part of a body that fits. -/
def RequestState.append (state : RequestState) (data : Bytes)
    (h : data.length ≤ state.bodyLimit - state.body.length) : RequestState :=
  { state with
    body := state.body ++ data
    fits := by
      have hfits := state.fits
      rw [List.length_append]
      omega }

def Connection.streams (connection : Connection) : Bool :=
  connection.method = ascii "PUT" ∧ connection.url.take uploadsPrefix.length = uploadsPrefix

/-- The request as `router_upload_stream_begin_ex` gets it. -/
def Connection.streamRequest (connection : Connection) : Request where
  method := connection.method
  path := connection.url
  body := none
  clientAddress := connection.clientAddress
  host := connection.host
  origin := connection.origin
  contentType := connection.contentType
  authorization := connection.authorization
  contentRange := connection.contentRange

/-- The request as `router_dispatch` gets it. The `body_size` of too large a body is one more
than the limit, whatever stands in the array. -/
def RequestState.request (state : RequestState) (connection : Connection) : Request where
  method := connection.method
  path := connection.url
  body := some
    (if state.bodyTooLarge then
      state.body ++ .replicate (state.bodyLimit + 1 - state.body.length) 0
    else state.body)
  clientAddress := connection.clientAddress
  host := connection.host
  origin := connection.origin
  contentType := connection.contentType
  authorization := connection.authorization
  contentRange := none

/-- The stream of `handle_request` as `router_upload_stream_begin_ex` has begun it, or its
error answer. -/
def RequestState.begun (state : RequestState) :
    Except Response FastUpload.Begun → RequestState × Verdict
  | .error response =>
      ({ state with streaming := true, streamFailed := true, streamError := some response },
        .answered (some response))
  | .ok begun =>
      ({ state with
          streaming := true
          streamStarted := true
          chunk := begun.chunk
          uploadId := begun.uploadId },
        .proceed)

/-- `handle_request` at the headers. -/
def handleHeaders (authMode : AuthMode) (connection : Connection) :
    Handler (RequestState × Verdict) :=
  let state := RequestState.fresh connection
  let declared := parseContentLength connection.contentLength
  if connection.streams then
    (routerUploadStreamBeginEx authMode connection.streamRequest declared.isSome
      (declared.getD 0)).bind fun answer => .done (state.begun answer)
  else if connection.contentLength.isSome ∧
      (declared.isNone ∨ state.bodyLimit < declared.getD 0) then
    .done ({ state with bodyTooLarge := true }, .proceed)
  else .done (state, .proceed)

/-- The call that hands `data` on. -/
def RequestState.write (state : RequestState) (data : Bytes) : Handler (Except Response Unit) :=
  match state.chunk with
  | some (offset, _) =>
      routerUploadStreamWriteChunk state.uploadId (offset + state.chunkReceived) data
  | none => routerUploadStreamWrite state.uploadId data

/-- The state behind a write of `data`. -/
def RequestState.written (state : RequestState) (data : Bytes) :
    Except Response Unit → RequestState × Verdict
  | .error response =>
      ({ state with streamFailed := true, streamError := some response }, .refused)
  | .ok () =>
      (if state.chunk.isSome then
        { state with chunkReceived := state.chunkReceived + .ofNat data.length }
      else state, .proceed)

/-- `handle_request` at a part of the body. -/
def handleData (state : RequestState) (data : Bytes) : Handler (RequestState × Verdict) :=
  if state.streaming then
    if state.streamFailed then .done (state, .proceed)
    else (state.write data).bind fun answer => .done (state.written data answer)
  else if h : state.bodyTooLarge = false ∧
      data.length ≤ state.bodyLimit - state.body.length then
    .done (state.append data h.2, .proceed)
  else .done ({ state with bodyTooLarge := true }, .proceed)

/-- The end of a stream. -/
def RequestState.finish (state : RequestState) : Handler (Response × Bool) :=
  match state.chunk with
  | some (offset, size) => routerUploadStreamFinishChunk state.uploadId offset size
  | none =>
      (routerUploadStreamFinish state.uploadId).bind fun response => .done (response, true)

/-- `handle_request` at the end of the body. -/
def handleEnd (assetsFind : CString → Option Asset) (authMode : AuthMode)
    (connection : Connection) (state : RequestState) : Handler (RequestState × Verdict) :=
  if state.streaming then
    if state.streamFailed then .done (state, .answered state.streamError)
    else state.finish.bind fun (response, finished) =>
      .done ({ state with streamFailed := !finished, streamFinished := true },
        .answered (some response))
  else (dispatch assetsFind authMode (state.request connection)).bind fun response =>
    .done (state, .answered (some response))

/-- `request_completed`, for a request with a state. -/
def requestCompleted (state : RequestState) : Handler Unit :=
  if state.streamStarted ∧ ¬state.streamFinished then
    match state.chunk with
    | some (offset, size) => routerUploadStreamAbortChunk state.uploadId offset size
    | none => routerUploadStreamAbort state.uploadId
  else .done ()

/-! ## A request -/

def Verdict.response : Verdict → Option Response
  | .answered response => response
  | _ => none

/-- The handler is called again unless it has refused the request or answered it. -/
def goOn (next : RequestState → Handler (RequestState × Verdict)) :
    RequestState × Verdict → Handler (RequestState × Verdict)
  | (state, .proceed) => next state
  | (state, verdict) => .done (state, verdict)

/-- The parts of a body, one after the other. -/
def handleBody : List Bytes → RequestState → Handler (RequestState × Verdict)
  | [], state => .done (state, .proceed)
  | data :: parts, state => (handleData state data).bind (goOn (handleBody parts))

/-- A request whose body comes in `parts`, none of them empty, and is `complete` or breaks off;
the result is what is sent back, if anything. -/
def serveRequest (assetsFind : CString → Option Asset) (authMode : AuthMode)
    (connection : Connection) (parts : List Bytes) (complete : Bool) :
    Handler (Option Response) :=
  (handleHeaders authMode connection).bind fun begun =>
    (goOn (handleBody parts) begun).bind fun received =>
      (goOn (fun state =>
        if complete then handleEnd assetsFind authMode connection state
        else .done (state, .refused)) received).bind fun served =>
          (requestCompleted served.1).bind fun () => .done served.2.response

end LocalSend.Http
