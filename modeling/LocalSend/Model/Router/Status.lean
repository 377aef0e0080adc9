import LocalSend.Model.Router.Request
import LocalSend.Model.Upload.State

/-! # The status answer

`router_dispatch` where no handler of its own answers, with the answer to
`GET /api/v1/status`, and the two escapers of names. The embedded assets are generated and the
other handlers are modelled elsewhere; both are arguments here.
-/

namespace LocalSend.Routing

open Config SafePath
open Upload (UPLOAD_CHUNK_BYTES UPLOAD_CHUNK_PARALLELISM UPLOAD_ID_HEX_BYTES Snapshot Metrics
  isDigit)

def ROUTER_MAX_METHOD_BYTES : ℕ := 16
def ROUTER_MAX_PATH_BYTES : ℕ := 2048
def PS5LOCALSEND_VERSION : String := "1.0"

/-! ## Escaping -/

/-- The loop of `json_escape_filename` behind this output. -/
def escapeFilenameLoop (outputSize : ℕ) : CString → CString → Option CString
  | output, [] => some output
  | output, character :: input =>
      let slashed :=
        if character = 34 ∨ character = 92 then
          if outputSize ≤ output.length + 1 then none else some (output ++ [92])
        else some output
      slashed.bind fun output =>
        if outputSize ≤ output.length + 1 then none
        else escapeFilenameLoop outputSize (output ++ [character]) input

/-- `json_escape_filename`. -/
def jsonEscapeFilename (input : CString) (outputSize : ℕ) : Option CString :=
  if outputSize = 0 then none else escapeFilenameLoop outputSize [] input

/-- A digit of `"0123456789abcdef"`. -/
def hexDigit (value : UInt8) : UInt8 := (ascii "0123456789abcdef").getD value.toNat 0

/-- The loop of `json_escape_string` behind this output. -/
def escapeStringLoop (outputSize : ℕ) : CString → CString → Option CString
  | used, [] => some used
  | used, cursor :: input =>
      if cursor = 34 ∨ cursor = 92 then
        if outputSize ≤ used.length + 2 then none
        else escapeStringLoop outputSize (used ++ [92, cursor]) input
      else if cursor < 0x20 then
        if outputSize ≤ used.length + 6 then none
        else escapeStringLoop outputSize
          (used ++ [92, 117, 48, 48, hexDigit (cursor >>> 4), hexDigit (cursor &&& 0x0f)]) input
      else if outputSize ≤ used.length + 1 then none
      else escapeStringLoop outputSize (used ++ [cursor]) input

/-- `json_escape_string`. -/
def jsonEscapeString (input : CString) (outputSize : ℕ) : Option CString :=
  if outputSize = 0 then none else escapeStringLoop outputSize [] input

/-! ## The status -/

def STORAGE_TARGETS_BYTES : ℕ := 12288
def LAST_UPLOAD_BYTES : ℕ := 256

/-- `storage_target_for_path`. -/
def storageTargetForPath (config : AppConfig) (path : CString) : CString :=
  match configStorageByPath config path, config.storageTargets with
  | some target, _ => target.id
  | none, target :: _ => target.id
  | none, [] => ascii "internal"

/-- One target as the loop prints it. -/
def storageTargetText (first : Bool) (target : StorageTarget) : CString :=
  [if first then [] else [44], ascii "\x7b\"id\":\"", target.id, ascii "\",\"label\":\"",
    target.label, ascii "\",\"path\":\"", target.path, ascii "\"\x7d"].flatten

/-- The loop over the targets behind this text. -/
def storageTargetsLoop : Bool → CString → List StorageTarget → Option CString
  | _, text, [] => some text
  | first, text, target :: targets =>
      let piece := storageTargetText first target
      if STORAGE_TARGETS_BYTES - text.length ≤ piece.length then none
      else storageTargetsLoop false (text ++ piece) targets

/-- `storage_targets`, if its buffer is large enough. -/
def storageTargetsText (config : AppConfig) : Option CString :=
  (storageTargetsLoop true [91] config.storageTargets).bind fun text =>
    if STORAGE_TARGETS_BYTES < text.length + 2 then none else some (text ++ [93])

def boolText (value : Bool) : CString := if value then ascii "true" else ascii "false"

/-- `last_upload`, if its buffer is large enough. -/
def lastUploadText (snapshot : Snapshot) : Option CString :=
  if snapshot.hasLastMetrics then
    let text := [ascii "\x7b\"bytes\":", decimal snapshot.lastCompletedSize,
      ascii ",\"timing\":\x7b\"preparationMs\":", decimal snapshot.lastMetrics.preparationMs,
      ascii ",\"transferMs\":", decimal snapshot.lastMetrics.transferMs,
      ascii ",\"writeMs\":", decimal snapshot.lastMetrics.writeMs,
      ascii ",\"directIO\":", boolText snapshot.lastMetrics.directIo, ascii "\x7d\x7d"].flatten
    if LAST_UPLOAD_BYTES ≤ text.length then none else some text
  else some (ascii "null")

def transferState (snapshot : Snapshot) : CString :=
  if snapshot.active = false then ascii "idle"
  else if snapshot.started = false then ascii "preparing"
  else ascii "receiving"

def statusText (config : AppConfig) (fastUploadPort : ℕ) (snapshot : Snapshot)
    (escapedName storageTargets lastUpload : CString) : CString :=
  [ascii "\x7b\"version\":\"", ascii PS5LOCALSEND_VERSION,
    ascii "\",\"authMode\":\"", configAuthModeName config.authMode,
    ascii "\",\"language\":\"", configLanguageName config.language,
    ascii "\",\"ready\":true,\"limits\":\x7b\"maxFileBytes\":", decimal config.maxFileBytes,
    ascii ",\"maxFilesPerSession\":", decimal config.maxFilesPerSession,
    ascii "\x7d,\"transfer\":\x7b\"state\":\"", transferState snapshot,
    ascii "\",\"active\":", boolText snapshot.active,
    ascii ",\"name\":\"", escapedName,
    ascii "\",\"receivedBytes\":", decimal snapshot.received,
    ascii ",\"expectedBytes\":", decimal snapshot.expected,
    ascii "\x7d,\"capabilities\":\x7b\"chunkUpload\":true,\"chunkSize\":",
    decimal UPLOAD_CHUNK_BYTES,
    ascii ",\"chunkParallelism\":", decimal UPLOAD_CHUNK_PARALLELISM,
    ascii ",\"fastUploadPort\":", decimal fastUploadPort,
    ascii ",\"fastUploadMode\":\"direct\"\x7d,\"storage\":\x7b\"target\":\"",
    storageTargetForPath config config.destination,
    ascii "\",\"path\":\"", config.destination,
    ascii "\",\"targets\":", storageTargets,
    ascii "\x7d,\"lastUpload\":", lastUpload, ascii "\x7d\n"].flatten

/-- The answer to `GET /api/v1/status`. -/
def statusAnswer (config : AppConfig) (fastUploadPort : ℕ) (snapshot : Snapshot) : Response :=
  match storageTargetsText config with
  | none => setJsonError 500 "internal_error" "Configured storage list is too large"
  | some storageTargets =>
      match jsonEscapeFilename snapshot.name (SAFE_PATH_NAME_BYTES * 2 + 1) with
      | none => setJsonError 500 "internal_error" "Unable to read transfer status"
      | some escapedName =>
          match lastUploadText snapshot with
          | none => setJsonError 500 "internal_error" "Unable to create transfer diagnostics"
          | some lastUpload =>
              let text := statusText config fastUploadPort snapshot escapedName storageTargets
                lastUpload
              if RESPONSE_STORAGE_BYTES ≤ text.length then
                setJsonError 500 "internal_error" "Unable to create response"
              else
                { status := 200
                  contentType := some jsonContentType
                  cacheControl := some (ascii "no-store")
                  allow := none
                  body := text }

/-! ## `router_dispatch` -/

/-- `embedded_asset_t` without its path. -/
structure Asset where
  contentType : CString
  data : Bytes
  deriving DecidableEq

def uploadsPrefix : CString := ascii "/api/v1/uploads/"

def isUploadId (id : CString) : Bool :=
  id.length = UPLOAD_ID_HEX_BYTES ∧ id.all fun byte => isDigit byte ∨ (97 ≤ byte ∧ byte ≤ 102)

/-- The path has a handler of its own. -/
def hasHandler (path : CString) : Bool :=
  path = ascii "/api/v1/auth/challenge" ∨ path = ascii "/api/v1/auth/verify" ∨
    path = ascii "/api/v1/uploads" ∨ path = ascii "/api/v1/storage" ∨
    path.take uploadsPrefix.length = uploadsPrefix ∧
      (isUploadId (path.drop uploadsPrefix.length) ∨
        (path.drop uploadsPrefix.length).drop UPLOAD_ID_HEX_BYTES = ascii "/complete" ∧
          isUploadId ((path.drop uploadsPrefix.length).take UPLOAD_ID_HEX_BYTES))

def statusPath : CString := ascii "/api/v1/status"

def assetAnswer (path : CString) (asset : Asset) : Response where
  status := 200
  contentType := some asset.contentType
  cacheControl := some
    (if path = ascii "/" then ascii "no-cache"
    else if path = ascii "/assets/app.css" ∨ path = ascii "/assets/app.js" then ascii "no-store"
    else ascii "public, max-age=3600")
  allow := none
  body := asset.data

/-- `router_dispatch` with a snapshot of the uploads. -/
def routerDispatch (handlers : Request → Response) (assetsFind : CString → Option Asset)
    (router : Router) (request : Request) (snapshot : Snapshot) : Response :=
  if ROUTER_MAX_METHOD_BYTES < request.method.length ∨
      ROUTER_MAX_PATH_BYTES < request.path.length then
    setJsonError 400 "bad_request" "Malformed request"
  else if hasHandler request.path then handlers request
  else if assetsFind request.path = none ∧ request.path ≠ statusPath then
    setJsonError 404 "not_found" "Resource not found"
  else if request.method ≠ ascii "GET" then
    { setJsonError 405 "method_not_allowed" "Only GET is allowed for this resource" with
      allow := some (ascii "GET") }
  else if 0 < (request.body.getD []).length then
    setJsonError 413 "body_too_large" "This resource does not accept a request body"
  else match assetsFind request.path with
  | some asset => assetAnswer request.path asset
  | none => statusAnswer router.config router.fastUploadPort snapshot

end LocalSend.Routing
