import LocalSend.Library.Program
import LocalSend.Model.AuthJson
import LocalSend.Model.Router.Status
import LocalSend.Model.Router.Stream

/-! # The request handlers

`router_dispatch` with its handlers, as programs over the authentication manager, the upload
manager and the platform: what they return is the reply to a call, the handlers' own code is
all that is between two calls. What `dispatch_storage` does behind its checks is one call here.
-/

namespace LocalSend.Routing

open Config SafePath
open Upload (UPLOAD_CHUNK_BYTES UPLOAD_CHUNK_PARALLELISM UPLOAD_ID_HEX_BYTES UploadResult Metrics
  Snapshot)

def ROUTER_MAX_AUTH_BODY_BYTES : ℕ := 512
def NOTIFICATION_BYTES : ℕ := 192
def STORAGE_ERROR_BYTES : ℕ := 256

/-- A call of a handler. `lastError` reads `errno` behind a failed call of the upload manager,
`configuration` is the copy under the router's mutex. -/
inductive Effect where
  | validateBearer (clientAddress authorization : CString)
  | createChallenge (clientAddress : CString)
  | verifyChallenge (clientAddress challengeId pin : CString)
  | notify (message : CString)
  | uploads (call : Upload.Call)
  | lastError
  | configuration
  | changeStorage (target : CString)
  deriving DecidableEq

/-- What a call returns: `notify` whether it succeeded, `lastError` a positive `errno` with its
`strerror`, `configuration` the fast upload port as well. -/
abbrev Effect.Reply : Effect → Type
  | .validateBearer _ _ => Auth.AuthResult
  | .createChallenge _ => Auth.AuthResult × Option Auth.ChallengeResult
  | .verifyChallenge _ _ _ => Auth.AuthResult × Option Auth.SessionResult
  | .notify _ => Bool
  | .uploads _ => Upload.Reply
  | .lastError => Option (ℕ × CString)
  | .configuration => AppConfig × ℕ
  | .changeStorage _ => Response

abbrev Handler (A : Type) : Type := Program Effect.Reply A

/-! ## Answers -/

/-- `set_json_error` with a message made at run time. -/
def setJsonErrorText (status : ℕ) (code : String) (message : CString) : Response :=
  let text := ascii "\x7b\"error\":\x7b\"code\":\"" ++ ascii code ++ ascii "\",\"message\":\"" ++
    message ++ ascii "\"\x7d\x7d\n"
  { status
    contentType := some jsonContentType
    cacheControl := some (ascii "no-store")
    allow := none
    body := if RESPONSE_STORAGE_BYTES ≤ text.length then [] else text }

/-- An answer of the handler's own, if it fits. -/
def jsonAnswer (status : ℕ) (text : CString) : Response :=
  if RESPONSE_STORAGE_BYTES ≤ text.length then
    setJsonError 500 "internal_error" "Unable to create response"
  else
    { status
      contentType := some jsonContentType
      cacheControl := some (ascii "no-store")
      allow := none
      body := text }

/-- The message for `UPLOAD_IO_ERROR`, if it fits. -/
def storageErrorText (error : ℕ × CString) : CString :=
  ascii "Unable to write destination storage (errno " ++ decimal error.1 ++ ascii ": " ++
    error.2 ++ ascii ")"

/-- `set_upload_error`. -/
def setUploadError (result : UploadResult) (error : Option (ℕ × CString)) : Response :=
  match result with
  | .invalid => setJsonError 400 "invalid_upload" "Upload request is malformed"
  | .notFound => setJsonError 404 "upload_not_found" "Upload does not exist"
  | .forbidden => setJsonError 403 "upload_forbidden" "Upload belongs to another session"
  | .busy => setJsonError 409 "upload_busy" "Another upload is active"
  | .tooLarge => setJsonError 413 "file_too_large" "File exceeds the configured limit"
  | .storageFull =>
      setJsonError 507 "insufficient_storage" "Destination does not have enough space"
  | .sizeMismatch =>
      setJsonError 400 "size_mismatch"
        "Content-Length or received size does not match metadata"
  | .hashMismatch => setJsonError 422 "hash_mismatch" "SHA-256 does not match metadata"
  | .limitReached => setJsonError 429 "file_limit_reached" "Session file limit reached"
  | .backpressure =>
      setJsonError 429 "upload_backpressure" "Upload staging window is full; retry this chunk"
  | .ioError =>
      match error with
      | none => setJsonError 500 "storage_error" "Unable to write destination storage"
      | some error =>
          if STORAGE_ERROR_BYTES ≤ (storageErrorText error).length then
            setJsonError 500 "storage_error" "Unable to write destination storage"
          else setJsonErrorText 500 "storage_error" (storageErrorText error)
  | .ok => setJsonError 500 "internal_error" "Upload failed"

/-- `set_upload_completed_response`. -/
def setUploadCompletedResponse (digest : CString) (metrics : Metrics) : Response :=
  jsonAnswer 201 <| [ascii "\x7b\"completed\":true,\"sha256\":\"", digest,
    ascii "\",\"timing\":\x7b\"preparationMs\":", decimal metrics.preparationMs,
    ascii ",\"transferMs\":", decimal metrics.transferMs,
    ascii ",\"writeMs\":", decimal metrics.writeMs,
    ascii ",\"directIO\":", boolText metrics.directIo, ascii "\x7d\x7d\n"].flatten

def onlyAllowed (method message : String) : Response :=
  { setJsonError 405 "method_not_allowed" message with allow := some (ascii method) }

def onlyPost : Response := onlyAllowed "POST" "Only POST is allowed for this resource"

def originForbidden : Response :=
  setJsonError 403 "origin_forbidden" "Origin and Host must match this server"

def unauthorized : Response :=
  setJsonError 401 "unauthorized" "A valid bearer session is required"

def noBody : Response :=
  setJsonError 413 "body_too_large" "This resource does not accept a request body"

def onlyJson : Response :=
  setJsonError 415 "unsupported_media_type" "Content-Type must be application/json"

def Request.bodySize (request : Request) : ℕ := (request.body.getD []).length

/-! ## Shared code -/

/-- The calls' side of `authorized`. -/
def askAuthorized (authMode : AuthMode) (request : Request) : Handler Bool :=
  match authMode, request.authorization with
  | .none, _ => .done true
  | .pin, none => .done false
  | .pin, some authorization =>
      .call (.validateBearer request.clientAddress authorization) fun (result : Auth.AuthResult) =>
        .done (result = .ok)

/-- What follows `authorized`. -/
def ifAuthorized (authMode : AuthMode) (request : Request) (next : Handler Response) :
    Handler Response :=
  (askAuthorized authMode request).bind fun ok => if ok then next else .done unauthorized

/-- `request_authorization`; behind `authorized` it is not `NULL`. -/
def authorizationOf (authMode : AuthMode) (request : Request) : CString :=
  match authMode with
  | .none => ascii "NoAuth"
  | .pin => request.authorization.getD []

/-- A call of the upload manager. -/
def askUploads {A : Type} (call : Upload.Call) (next : Upload.Reply → Handler A) : Handler A :=
  .call (.uploads call) next

/-- The error answer for a result, with `errno` as it is now. -/
def askUploadError (result : UploadResult) : Handler Response :=
  .call .lastError fun (error : Option (ℕ × CString)) => .done (setUploadError result error)

/-- `upload_id_from_path`. -/
def uploadIdFromPath (path : CString) : Option CString :=
  let id := path.drop uploadsPrefix.length
  if path.take uploadsPrefix.length = uploadsPrefix ∧ isUploadId id then some id else none

/-- `upload_complete_from_path`. -/
def uploadCompleteFromPath (path : CString) : Option CString :=
  let rest := path.drop uploadsPrefix.length
  let id := rest.take UPLOAD_ID_HEX_BYTES
  if path.take uploadsPrefix.length = uploadsPrefix ∧
      rest.drop UPLOAD_ID_HEX_BYTES = ascii "/complete" ∧ isUploadId id then some id
  else none

/-! ## The uploads -/

def preparedText (prepared : Upload.Prepared) (escapedName : CString) (fastUploadPort : ℕ) :
    CString :=
  [ascii "\x7b\"uploadId\":\"", prepared.uploadId, ascii "\",\"name\":\"", escapedName,
    ascii "\",\"size\":", decimal prepared.size, ascii ",\"chunkSize\":",
    decimal UPLOAD_CHUNK_BYTES, ascii ",\"chunkParallelism\":", decimal UPLOAD_CHUNK_PARALLELISM,
    ascii ",\"fastUploadPort\":", decimal fastUploadPort,
    ascii ",\"fastUploadMode\":\"direct\"\x7d\n"].flatten

/-- The answer to a prepared upload, if it can be made. -/
def preparedAnswer (prepared : Upload.Prepared) (fastUploadPort : ℕ) : Option Response :=
  (jsonEscapeString prepared.finalName RESPONSE_STORAGE_BYTES).bind fun escapedName =>
    let text := preparedText prepared escapedName fastUploadPort
    if RESPONSE_STORAGE_BYTES ≤ text.length then none
    else some
      { status := 201
        contentType := some jsonContentType
        cacheControl := some (ascii "no-store")
        allow := none
        body := text }

/-- `dispatch_upload_prepare` with the reply of `upload_prepare`; an upload that can not be
announced is cancelled. -/
def answerPrepare (authMode : AuthMode) (request : Request) (reply : Upload.Reply)
    (fastUploadPort : ℕ) : Handler Response :=
  match reply.result, reply.prepared with
  | .ok, some prepared =>
      match preparedAnswer prepared fastUploadPort with
      | some response => .done response
      | none =>
          askUploads (.cancel prepared.uploadId request.clientAddress
            (authorizationOf authMode request)) fun _ =>
              .done (setJsonError 500 "internal_error" "Unable to create response")
  | result, _ => askUploadError result

def dispatchUploadPrepare (authMode : AuthMode) (request : Request) : Handler Response :=
  if request.method ≠ ascii "POST" then .done onlyPost
  else if ¬sameOrigin request then .done originForbidden
  else ifAuthorized authMode request <|
    if ROUTER_MAX_METADATA_BODY_BYTES < request.bodySize then
      .done (setJsonError 413 "body_too_large" "Upload metadata is too large")
    else if ¬isJsonContentType request.contentType then .done onlyJson
    else
      askUploads (.prepare request.clientAddress (authorizationOf authMode request)
        (request.body.getD [])) fun reply =>
          .call .configuration fun (configuration : AppConfig × ℕ) =>
            answerPrepare authMode request reply configuration.2

/-- The checks `dispatch_upload_delete` and `dispatch_upload_complete` share behind that of the
method. -/
def ifWithoutBody (authMode : AuthMode) (request : Request) (next : Handler Response) :
    Handler Response :=
  if request.bodySize ≠ 0 then .done noBody
  else if ¬sameOrigin request then .done originForbidden
  else ifAuthorized authMode request next

def dispatchUploadDelete (authMode : AuthMode) (request : Request) (uploadId : CString) :
    Handler Response :=
  if request.method ≠ ascii "DELETE" then
    .done (onlyAllowed "PUT, DELETE" "Only PUT and DELETE are allowed for this resource")
  else ifWithoutBody authMode request <|
    askUploads (.cancel uploadId request.clientAddress (authorizationOf authMode request))
      fun reply =>
        if reply.result ≠ .ok then askUploadError reply.result
        else .done (jsonAnswer 200 (ascii "\x7b\"cancelled\":true\x7d\n"))

def dispatchUploadComplete (authMode : AuthMode) (request : Request) (uploadId : CString) :
    Handler Response :=
  if request.method ≠ ascii "POST" then .done onlyPost
  else ifWithoutBody authMode request <|
    askUploads (.finishChunks uploadId request.clientAddress (authorizationOf authMode request))
      fun reply =>
        if reply.result ≠ .ok then askUploadError reply.result
        else .done (setUploadCompletedResponse (reply.digest.getD [])
          (reply.metrics.getD Metrics.zero))

/-! ## The storage target and the sessions -/

def dispatchStorage (authMode : AuthMode) (request : Request) : Handler Response :=
  if request.method ≠ ascii "POST" then .done onlyPost
  else if ¬sameOrigin request then .done originForbidden
  else ifAuthorized authMode request <|
    if ROUTER_MAX_METADATA_BODY_BYTES < request.bodySize then
      .done (setJsonError 413 "body_too_large" "Storage settings are too large")
    else if ¬isJsonContentType request.contentType then .done onlyJson
    else match parseStorageTarget request.body with
    | none =>
        .done (setJsonError 400 "invalid_storage" "Expected a configured storage target ID")
    | some target => .call (.changeStorage target) fun (response : Response) => .done response

def authDisabled : Response :=
  setJsonError 409 "auth_disabled" "PIN authentication is disabled by configuration"

def notificationText (pin clientAddress : CString) : CString :=
  ascii "PS5 LocalSend PIN " ++ pin ++ ascii " for " ++ clientAddress

def notificationFailed : Response :=
  setJsonError 500 "notification_failed" "Unable to show the PIN on PS5"

def challengeText (challenge : Auth.ChallengeResult) : CString :=
  [ascii "\x7b\"challengeId\":\"", challenge.challengeId, ascii "\",\"expiresIn\":",
    decimal challenge.expiresInSeconds.toNat, ascii "\x7d\n"].flatten

/-- `dispatch_challenge` with a challenge: its PIN goes to the console only. -/
def showChallenge (request : Request) (challenge : Auth.ChallengeResult) : Handler Response :=
  let notification := notificationText challenge.pin request.clientAddress
  if NOTIFICATION_BYTES ≤ notification.length then .done notificationFailed
  else
    .call (.notify notification) fun (shown : Bool) =>
      if shown then .done (jsonAnswer 201 (challengeText challenge)) else .done notificationFailed

/-- `dispatch_challenge` with what `auth_create_challenge` came to. -/
def answerChallenge (request : Request) :
    Auth.AuthResult × Option Auth.ChallengeResult → Handler Response
  | (.capacity, _) =>
      .done (setJsonError 429 "too_many_challenges"
        "Too many authentication challenges are active")
  | (.rateLimited, _) =>
      .done (setJsonError 429 "challenge_rate_limited" "Wait before requesting another PIN")
  | (.ok, some challenge) => showChallenge request challenge
  | _ =>
      .done (setJsonError 500 "auth_unavailable" "Unable to create an authentication challenge")

def dispatchChallenge (authMode : AuthMode) (request : Request) : Handler Response :=
  if authMode ≠ .pin then .done authDisabled
  else if request.method ≠ ascii "POST" then .done onlyPost
  else if request.bodySize ≠ 0 then .done noBody
  else if ¬sameOrigin request then .done originForbidden
  else .call (.createChallenge request.clientAddress) (answerChallenge request)

def sessionText (session : Auth.SessionResult) : CString :=
  [ascii "\x7b\"token\":\"", session.token, ascii "\",\"tokenType\":\"Bearer\",\"expiresIn\":",
    decimal session.expiresInSeconds.toNat, ascii "\x7d\n"].flatten

/-- The answer to what `auth_verify_challenge` came to. -/
def verifyAnswer : Auth.AuthResult × Option Auth.SessionResult → Response
  | (.rateLimited, _) =>
      setJsonError 429 "too_many_attempts" "This challenge has reached its attempt limit"
  | (.expired, _) =>
      setJsonError 401 "challenge_expired" "This authentication challenge has expired"
  | (.used, _) =>
      setJsonError 401 "challenge_used" "This authentication challenge was already used"
  | (.ok, some session) => jsonAnswer 200 (sessionText session)
  | _ => setJsonError 401 "invalid_credentials" "The challenge or PIN is invalid"

def dispatchVerify (authMode : AuthMode) (request : Request) : Handler Response :=
  if authMode ≠ .pin then .done authDisabled
  else if request.method ≠ ascii "POST" then .done onlyPost
  else if ROUTER_MAX_AUTH_BODY_BYTES < request.bodySize then
    .done (setJsonError 413 "body_too_large" "Authentication JSON is too large")
  else if ¬sameOrigin request then .done originForbidden
  else if ¬isJsonContentType request.contentType then .done onlyJson
  else match Auth.authParseVerifyJson (request.body.getD []) with
  | none =>
      .done (setJsonError 400 "invalid_json" "Expected exactly challengeId and a six-digit pin")
  | some (challengeId, pin) =>
      .call (.verifyChallenge request.clientAddress challengeId pin)
        fun (answer : Auth.AuthResult × Option Auth.SessionResult) => .done (verifyAnswer answer)

/-! ## `router_dispatch` -/

/-- The handler of a path that has one of its own. -/
def handlerFor (authMode : AuthMode) (request : Request) : Option (Handler Response) :=
  if request.path = ascii "/api/v1/auth/challenge" then some (dispatchChallenge authMode request)
  else if request.path = ascii "/api/v1/auth/verify" then some (dispatchVerify authMode request)
  else if request.path = ascii "/api/v1/uploads" then some (dispatchUploadPrepare authMode request)
  else if request.path = ascii "/api/v1/storage" then some (dispatchStorage authMode request)
  else match uploadCompleteFromPath request.path, uploadIdFromPath request.path with
  | some uploadId, _ => some (dispatchUploadComplete authMode request uploadId)
  | none, some uploadId =>
      if request.method = ascii "PUT" then
        some (.done (setJsonError 400 "stream_required" "PUT must use the streaming transport"))
      else some (dispatchUploadDelete authMode request uploadId)
  | none, none => none

/-- The answer to `GET /api/v1/status`. -/
def askStatus : Handler Response :=
  .call .configuration fun (configuration : AppConfig × ℕ) =>
    askUploads .snapshot fun reply =>
      match reply.snapshot with
      | some snapshot => .done (statusAnswer configuration.1 configuration.2 snapshot)
      | none => .done (setJsonError 500 "internal_error" "Unable to read transfer status")

/-- What `router_dispatch` answers itself, behind its handlers. -/
def dispatchRest (assetsFind : CString → Option Asset) (request : Request) : Handler Response :=
  if assetsFind request.path = none ∧ request.path ≠ statusPath then
    .done (setJsonError 404 "not_found" "Resource not found")
  else if request.method ≠ ascii "GET" then
    .done (onlyAllowed "GET" "Only GET is allowed for this resource")
  else if 0 < request.bodySize then .done noBody
  else match assetsFind request.path with
  | some asset => .done (assetAnswer request.path asset)
  | none => askStatus

/-- `router_dispatch`. -/
def dispatch (assetsFind : CString → Option Asset) (authMode : AuthMode) (request : Request) :
    Handler Response :=
  if ROUTER_MAX_METHOD_BYTES < request.method.length ∨
      ROUTER_MAX_PATH_BYTES < request.path.length then
    .done (setJsonError 400 "bad_request" "Malformed request")
  else (handlerFor authMode request).getD (dispatchRest assetsFind request)

end LocalSend.Routing
