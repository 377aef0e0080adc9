import LocalSend.Model.Auth
import LocalSend.Model.Config

/-! # Requests, answers and their checks

The parts of `router.c` the request handlers share: the error answers, the checks of host,
origin, content type and authorization, and the body of a storage request.
-/

namespace LocalSend.Routing

open Config SafePath

/-- The body capacity of an answer. -/
def RESPONSE_STORAGE_BYTES : ℕ := 16384

def ROUTER_MAX_METADATA_BODY_BYTES : ℕ := Upload.UPLOAD_METADATA_BYTES

/-- `router_request_t`; what may be `NULL` is an option. -/
structure Request where
  method : CString
  path : CString
  body : Option Bytes
  clientAddress : CString
  host : Option CString
  origin : Option CString
  contentType : Option CString
  authorization : Option CString
  contentRange : Option CString
  deriving DecidableEq

/-- `router_response_t`. -/
structure Response where
  status : ℕ
  contentType : Option CString
  cacheControl : Option CString
  allow : Option CString
  body : CString
  deriving DecidableEq

/-- `struct router` without its upload manager. -/
structure Router where
  config : AppConfig
  authMode : AuthMode
  fastUploadPort : ℕ
  configPath : CString
  auth : Auth.Manager

def jsonContentType : CString := ascii "application/json; charset=utf-8"

/-- `set_json_error` on an answer that has just been zeroed. -/
def setJsonError (status : ℕ) (code message : String) : Response :=
  let text := ascii "\x7b\"error\":\x7b\"code\":\"" ++ ascii code ++ ascii "\",\"message\":\"" ++
    ascii message ++ ascii "\"\x7d\x7d\n"
  { status
    contentType := some jsonContentType
    cacheControl := some (ascii "no-store")
    allow := none
    body := if RESPONSE_STORAGE_BYTES ≤ text.length then [] else text }

/-! ## Checks -/

def validHost : Option CString → Bool
  | none => false
  | some host =>
      host.length ≠ 0 ∧ host.length ≤ 255 ∧ host.all fun byte =>
        ¬(byte ≤ 0x20 ∨ byte = 0x7f ∨ byte = 47 ∨ byte = 92 ∨ byte = 64 ∨ byte = 35)

def sameOrigin (request : Request) : Bool :=
  validHost request.host ∧ request.origin = request.host.map (ascii "http://" ++ ·)

def isJsonContentType : Option CString → Bool
  | none => false
  | some contentType =>
      let base := ascii "application/json"
      let suffix := contentType.drop base.length
      let charset := suffix.dropWhile isSpace
      contentType.take base.length = base ∧
        (suffix = [] ∨ charset = ascii "; charset=utf-8" ∨ charset = ascii ";charset=utf-8")

/-- `authorized`; a look at the sessions erases the expired ones. -/
def authorized (router : Router) (request : Request) (now : UInt64) : Router × Bool :=
  match router.authMode, request.authorization with
  | .none, _ => (router, true)
  | .pin, none => (router, false)
  | .pin, some authorization =>
      let (auth, result) :=
        Auth.authValidateBearerAt router.auth request.clientAddress authorization now
      ({ router with auth }, result = .ok)

/-! ## `parse_storage_target` -/

def skipJsonWhitespace (input : Bytes) : Bytes := input.dropWhile isSpace

/-- The loop of `parse_json_string_token` up to and with the closing quote, `output` in
reverse. -/
def jsonTokenLoop (capacity : ℕ) : CString → Bytes → Option (CString × Bytes)
  | _, [] => none
  | output, 34 :: rest => some (output.reverse, rest)
  | output, byte :: rest =>
      if byte = 92 ∨ byte < 0x20 ∨ capacity ≤ output.length + 1 then none
      else jsonTokenLoop capacity (byte :: output) rest

def parseJsonStringToken (capacity : ℕ) : Bytes → Option (CString × Bytes)
  | 34 :: rest => jsonTokenLoop capacity [] rest
  | _ => none

/-- `parse_storage_target` behind the opening brace. -/
def parseTargetMember (input : Bytes) : Option CString :=
  match parseJsonStringToken 16 (skipJsonWhitespace input) with
  | none => none
  | some (key, rest) =>
      if key ≠ ascii "target" then none
      else match skipJsonWhitespace rest with
      | 58 :: rest =>
          match parseJsonStringToken CONFIG_STORAGE_ID_CAPACITY (skipJsonWhitespace rest) with
          | none => none
          | some (target, rest) =>
              match skipJsonWhitespace rest with
              | 125 :: rest =>
                  if skipJsonWhitespace rest ≠ [] ∨ target = [] then none
                  else if target.all fun byte => isAlnum byte ∨ byte = 95 ∨ byte = 45 then
                    some target
                  else none
              | _ => none
      | _ => none

def parseStorageTarget : Option Bytes → Option CString
  | none => none
  | some body =>
      match skipJsonWhitespace body with
      | 123 :: rest => parseTargetMember rest
      | _ => none

def storagePathForTarget (config : AppConfig) (target : CString) : Option CString :=
  (configStorageById config target).map StorageTarget.path

end LocalSend.Routing
