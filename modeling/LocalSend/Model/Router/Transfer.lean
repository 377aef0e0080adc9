import LocalSend.Model.FastUpload.Connection
import LocalSend.Model.Router.Dispatch

/-! # The stream functions of the router

`router_upload_stream_begin_ex` and what the two listeners call behind it, as programs over the
upload manager. A failed call of theirs hands back its error answer.
-/

namespace LocalSend.Routing

open Config SafePath
open FastUpload (Begun)
open Upload (UploadResult)

def uploadNotFound : Response :=
  setJsonError 404 "upload_not_found" "Upload does not exist"

def onlyOctets : Response :=
  setJsonError 415 "unsupported_media_type" "Content-Type must be application/octet-stream"

def invalidRange : Response :=
  setJsonError 400 "invalid_range" "Content-Range must be bytes start-end/total"

def lengthRequired : Response :=
  setJsonError 411 "length_required" "Content-Length is required"

def rangeMismatch : Response :=
  setJsonError 400 "size_mismatch" "Content-Length does not match Content-Range"

/-- A failed call's error answer. -/
def failWith {A : Type} (result : UploadResult) : Handler (Except Response A) :=
  (askUploadError result).bind fun response => .done (.error response)

/-- The `upload_cancel` of a stream that is not begun; its result does not matter. -/
def cancelFirst {A : Type} (authMode : AuthMode) (request : Request) (uploadId : CString)
    (next : Handler A) : Handler A :=
  askUploads (.cancel uploadId request.clientAddress (authorizationOf authMode request))
    fun _ => next

/-- The end of `router_upload_stream_begin_ex` for a chunk. -/
def beginChunk (authMode : AuthMode) (request : Request) (uploadId : CString)
    (range : ContentRange) (contentLength : ℕ) : Handler (Except Response Begun) :=
  if contentLength ≠ range.length then .done (.error rangeMismatch)
  else
    askUploads (.chunkBegin uploadId request.clientAddress (authorizationOf authMode request)
      range.total range.offset range.length) fun reply =>
        if reply.result = .ok then
          .done (.ok ⟨uploadId, some (.ofNat range.offset, .ofNat range.length)⟩)
        else failWith reply.result

/-- The same for the whole file; a wrong length cancels the upload. -/
def beginWhole (authMode : AuthMode) (request : Request) (uploadId : CString)
    (contentLength : ℕ) : Handler (Except Response Begun) :=
  askUploads (.begin uploadId request.clientAddress (authorizationOf authMode request)
    contentLength) fun reply =>
      if reply.result = .ok then .done (.ok ⟨uploadId, none⟩)
      else if reply.result = .sizeMismatch then
        cancelFirst authMode request uploadId (failWith reply.result)
      else failWith reply.result

/-- The `Content-Range` of a chunk; an empty one counts as none. -/
def Request.chunkRange (request : Request) : Option CString :=
  request.contentRange.filter fun range => range ≠ []

/-- `router_upload_stream_begin_ex` behind its checks of the request. -/
def beginStream (authMode : AuthMode) (request : Request) (uploadId : CString)
    (hasContentLength : Bool) (contentLength : ℕ) : Handler (Except Response Begun) :=
  match request.chunkRange with
  | none =>
      if hasContentLength then beginWhole authMode request uploadId contentLength
      else cancelFirst authMode request uploadId (.done (.error lengthRequired))
  | some text =>
      match parseContentRange text with
      | none => .done (.error invalidRange)
      | some range =>
          beginChunk authMode request uploadId range
            (if hasContentLength then contentLength else range.length)

/-- `router_upload_stream_begin_ex`. -/
def routerUploadStreamBeginEx (authMode : AuthMode) (request : Request)
    (hasContentLength : Bool) (contentLength : ℕ) : Handler (Except Response Begun) :=
  if request.method ≠ ascii "PUT" then .done (.error uploadNotFound)
  else match uploadIdFromPath request.path with
  | none => .done (.error uploadNotFound)
  | some uploadId =>
      if ¬sameOrigin request then .done (.error originForbidden)
      else (askAuthorized authMode request).bind fun ok =>
        if ¬ok then .done (.error unauthorized)
        else if request.contentType ≠ some (ascii "application/octet-stream") then
          .done (.error onlyOctets)
        else beginStream authMode request uploadId hasContentLength contentLength

/-- A call whose failure aborts the upload. -/
def orAbort (uploadId : CString) (call : Upload.Call) : Handler (Except Response Unit) :=
  askUploads call fun reply =>
    if reply.result = .ok then .done (.ok ())
    else (askUploadError reply.result).bind fun response =>
      askUploads (.abort uploadId) fun _ => .done (.error response)

def routerUploadStreamWrite (uploadId : CString) (data : Bytes) :
    Handler (Except Response Unit) :=
  orAbort uploadId (.write uploadId data)

def routerUploadStreamEnableDirect (uploadId : CString) : Handler (Except Response Unit) :=
  orAbort uploadId (.enableDirectStream uploadId)

def routerUploadStreamWriteDirect (uploadId : CString) (data : Bytes) :
    Handler (Except Response Unit) :=
  orAbort uploadId (.writeDirect uploadId data)

def routerUploadStreamWriteChunk (uploadId : CString) (offset : UInt64) (data : Bytes) :
    Handler (Except Response Unit) :=
  orAbort uploadId (.chunkWrite uploadId offset.toNat data)

def routerUploadStreamFinish (uploadId : CString) : Handler Response :=
  askUploads (.finish uploadId) fun reply =>
    if reply.result ≠ .ok then askUploadError reply.result
    else .done (setUploadCompletedResponse (reply.digest.getD [])
      (reply.metrics.getD Upload.Metrics.zero))

/-- The answer to a complete chunk. -/
def chunkText (offset size : UInt64) : CString :=
  [ascii "\x7b\"chunk\":true,\"offset\":", decimal offset.toNat, ascii ",\"size\":",
    decimal size.toNat, ascii "\x7d\n"].flatten

/-- `router_upload_stream_finish_chunk`; the second part of the result is its return value. -/
def routerUploadStreamFinishChunk (uploadId : CString) (offset size : UInt64) :
    Handler (Response × Bool) :=
  askUploads (.chunkFinish uploadId offset.toNat size.toNat) fun reply =>
    if reply.result ≠ .ok then
      (askUploadError reply.result).bind fun response => .done (response, false)
    else .done (jsonAnswer 201 (chunkText offset size),
      (chunkText offset size).length < RESPONSE_STORAGE_BYTES)

def routerUploadStreamAbortChunk (uploadId : CString) (offset size : UInt64) : Handler Unit :=
  askUploads (.chunkAbort uploadId offset.toNat size.toNat) fun _ => .done ()

def routerUploadStreamAbort (uploadId : CString) : Handler Unit :=
  askUploads (.abort uploadId) fun _ => .done ()

end LocalSend.Routing
