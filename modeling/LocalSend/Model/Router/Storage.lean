import LocalSend.Model.Router.Request
import LocalSend.Model.Upload.Directory
import LocalSend.Model.Upload.System

/-! # Changing the destination

`dispatch_storage` and the start of the server, over the upload manager with all its
callers. The handler holds the router's mutex from its look at the targets to its answer,
and `dispatch_upload_prepare` holds it around `upload_prepare`; all other calls of the upload
manager run beside them. A step is a stretch of a handler between two calls, or a step of the
upload manager.
-/

namespace LocalSend.Routing

open Config SafePath
open Upload (CONFIG_DESTINATION_CAPACITY DirectoryIo Tree UploadResult ensureDestinationDirectory)

/-! ## The handler -/

/-- `set_storage_error`. -/
def setStorageError (result : UploadResult) : Response :=
  if result = .busy then
    setJsonError 409 "storage_busy" "Finish or cancel the active upload before changing storage"
  else if result = .storageFull then
    setJsonError 507 "storage_unavailable" "The selected storage does not have enough space"
  else
    setJsonError 503 "storage_unavailable"
      "The selected storage is not mounted or cannot be created"

/-- `dispatch_storage` before it takes the mutex: the target it parsed, or its answer. -/
def checkStorage (router : Router) (request : Request) (now : UInt64) :
    Router × Except Response CString :=
  if request.method ≠ ascii "POST" then
    (router, .error { setJsonError 405 "method_not_allowed"
      "Only POST is allowed for this resource" with allow := some (ascii "POST") })
  else if ¬sameOrigin request then
    (router, .error (setJsonError 403 "origin_forbidden"
      "Origin and Host must match this server"))
  else
    let (router, ok) := authorized router request now
    if ¬ok then
      (router, .error (setJsonError 401 "unauthorized" "A valid bearer session is required"))
    else if ROUTER_MAX_METADATA_BODY_BYTES < (request.body.getD []).length then
      (router, .error (setJsonError 413 "body_too_large" "Storage settings are too large"))
    else if ¬isJsonContentType request.contentType then
      (router, .error (setJsonError 415 "unsupported_media_type"
        "Content-Type must be application/json"))
    else match parseStorageTarget request.body with
    | none =>
        (router, .error (setJsonError 400 "invalid_storage"
          "Expected a configured storage target ID"))
    | some target => (router, .ok target)

/-- The answer of a change that has been saved. -/
def storageChanged (target destination : CString) : Response :=
  let text := ascii "\x7b\"target\":\"" ++ target ++ ascii "\",\"path\":\"" ++ destination ++
    ascii "\"\x7d\n"
  if RESPONSE_STORAGE_BYTES ≤ text.length then
    setJsonError 500 "internal_error" "Unable to create response"
  else
    { status := 200
      contentType := some jsonContentType
      cacheControl := some (ascii "no-store")
      allow := none
      body := text }

/-! ## The server -/

/-- Where a storage request stands: in its first `upload_manager_set_destination`, about to
save, about to undo, or in the call that undoes. -/
inductive StoragePhase where
  | selecting
  | selected
  | unsaved
  | restoring
  deriving DecidableEq, Repr

/-- The destination of the router and that of the upload manager. -/
structure Destinations where
  router : CString
  uploads : CString
  deriving DecidableEq

/-- A storage request with the mutex, and the destinations it has found. -/
structure Selection where
  tid : ℕ
  target : CString
  destination : CString
  previousDestination : CString
  phase : StoragePhase
  found : Destinations
  deriving DecidableEq

/-- Who holds the router's mutex. -/
inductive Holder where
  | preparing (tid : ℕ)
  | storing (selection : Selection)
  deriving DecidableEq

/-- An answered storage request: the target's path if it was looked up, the destinations
before and after it, and the configuration file by then. Nothing in the code reads it. -/
structure Answer where
  response : Response
  destination : Option CString
  before : Destinations
  after : Destinations
  saved : Option Bytes
  deriving DecidableEq

structure Server where
  router : Router
  uploads : Upload.Sys
  files : Files
  tree : Tree
  holder : Option Holder
  answers : List Answer

def Server.destinations (server : Server) : Destinations :=
  ⟨server.router.config.destination, server.uploads.world.mgr.settings.destination⟩

/-- An answer given without the mutex. -/
def Server.refuse (server : Server) (response : Response) : Server :=
  { server with
    answers := ⟨response, none, server.destinations, server.destinations,
      server.files server.router.configPath⟩ :: server.answers }

/-- The answer is sent and the mutex is free. -/
def Server.answer (server : Server) (response : Response) (destination : Option CString)
    (before : Destinations) : Server :=
  { server with
    holder := none
    answers := ⟨response, destination, before, server.destinations,
      server.files server.router.configPath⟩ :: server.answers }

/-! ## `upload_manager_set_destination` as the handler calls it -/

/-- The surroundings of the call, with what `ensure_destination_directory` comes to. -/
def directoryEnv (tree : Tree) (destination : CString) (io : DirectoryIo) (env : Upload.Env) :
    Upload.Env :=
  { env with
    ensureError :=
      (ensureDestinationDirectory tree destination CONFIG_DESTINATION_CAPACITY io).2 }

/-- A refused call has not come to `ensure_destination_directory`, a sleeping one not yet. -/
def ensuredTree (tree : Tree) (destination : CString) (io : DirectoryIo) :
    Upload.Outcome → Tree
  | .park _ => tree
  | .done reply =>
      if reply.result = .busy ∨ reply.result = .invalid then tree
      else (ensureDestinationDirectory tree destination CONFIG_DESTINATION_CAPACITY io).1

/-- The destination the handler's call asks for. -/
def Selection.asked (selection : Selection) : CString :=
  if selection.phase = .restoring then selection.previousDestination else selection.destination

/-- The surroundings of the handler's call. -/
def Server.env (server : Server) (selection : Selection) (io : DirectoryIo) (env : Upload.Env) :
    Upload.Env :=
  directoryEnv server.tree selection.asked io env

/-- The handler behind its call: a refused change is answered, an accepted one goes on to be
saved; what the call that undoes returned does not matter. -/
def Server.returned (server : Server) (selection : Selection) (result : UploadResult) : Server :=
  if selection.phase = .restoring then
    server.answer
      (setJsonError 500 "storage_config_error" "Unable to persist the storage setting")
      (some selection.destination) selection.found
  else if result ≠ .ok then
    server.answer (setStorageError result) (some selection.destination) selection.found
  else { server with holder := some (.storing { selection with phase := .selected }) }

/-- The server behind a stretch of the handler's call, as which its thread may sleep. -/
def Server.called (server : Server) (selection : Selection) (io : DirectoryIo)
    (stretch : Upload.World × Upload.Outcome) : Server :=
  let server := { server with
    uploads := server.uploads.settle selection.tid (.setDestination selection.asked) stretch
    tree := ensuredTree server.tree selection.asked io stretch.2
    holder := some (.storing selection) }
  match stretch.2 with
  | .park _ => server
  | .done reply => server.returned selection reply.result

/-- The handler enters its call. -/
def Server.call (server : Server) (selection : Selection) (io : DirectoryIo)
    (env : Upload.Env) : Server :=
  server.called selection io (Upload.enterCall server.uploads.world
    (.setDestination selection.asked) (server.env selection io env))

/-- The save; a saved change is taken over and answered. -/
def Server.save (server : Server) (selection : Selection) (io : SaveIo) : Server :=
  let nextConfig := { server.router.config with destination := selection.destination }
  match configSaveFile server.files server.router.configPath nextConfig io with
  | (files, some _) =>
      { server with files, holder := some (.storing { selection with phase := .unsaved }) }
  | (files, none) =>
      ({ server with files, router := { server.router with config := nextConfig } }).answer
        (storageChanged selection.target selection.destination) (some selection.destination)
        selection.found

/-! ## Steps -/

inductive Action where
  | uploads (action : Upload.Action)
  | prepare (tid : ℕ) (client authorization : CString) (json : Bytes) (env : Upload.Env)
  | storage (tid : ℕ) (request : Request) (now : UInt64) (io : DirectoryIo) (env : Upload.Env)
  | wake (io : DirectoryIo) (env : Upload.Env)
  | save (io : SaveIo)
  | restore (io : DirectoryIo) (env : Upload.Env)

/-- The mutex is released once the `upload_prepare` under it has returned. -/
def Server.release (server : Server) : Server :=
  match server.holder with
  | some (.preparing tid) =>
      if (server.uploads.threads tid).isNone then { server with holder := none } else server
  | _ => server

/-- A step of the upload manager that is not made by the storage request's own thread. -/
def Server.uploadStep (server : Server) (action : Upload.Action) : Option Server :=
  match server.holder with
  | some (.storing selection) =>
      if action.tid = some selection.tid then none
      else (Upload.step server.uploads action).map fun uploads => { server with uploads }
  | _ => (Upload.step server.uploads action).map fun uploads => { server with uploads }.release

def step (server : Server) : Action → Option Server
  | .uploads action =>
      match action with
      -- the calls made only with the router's mutex
      | .call _ call _ => if call.setup ≠ .nothing then none else server.uploadStep action
      | _ => server.uploadStep action
  | .prepare tid client authorization json env =>
      if server.holder.isSome then none
      else (Upload.step server.uploads (.call tid (.prepare client authorization json) env)).map
        fun uploads => { server with uploads, holder := some (.preparing tid) }.release
  | .storage tid request now io env =>
      let (router, checked) := checkStorage server.router request now
      let server := { server with router }
      match checked with
      | .error response => some (server.refuse response)
      | .ok target =>
          if server.holder.isSome ∨ (server.uploads.threads tid).isSome then none
          else match storagePathForTarget server.router.config target with
          | none =>
              some (server.answer
                (setJsonError 400 "invalid_storage" "Unknown configured storage target") none
                server.destinations)
          | some destination =>
              some (server.call
                ⟨tid, target, destination, server.router.config.destination, .selecting,
                  server.destinations⟩ io env)
  | .wake io env =>
      match server.holder with
      | some (.storing selection) =>
          (server.uploads.threads selection.tid).bind fun thread =>
            (Upload.resume server.uploads.world thread.pc (server.env selection io env)).map
              fun stretch => server.called selection io stretch
      | _ => none
  | .save io =>
      match server.holder with
      | some (.storing selection) =>
          if selection.phase = .selected then some (server.save selection io) else none
      | _ => none
  | .restore io env =>
      match server.holder with
      | some (.storing selection) =>
          if selection.phase = .unsaved then
            some (server.call { selection with phase := .restoring } io env)
          else none
      | _ => none

/-! ## Starting the server -/

/-- `load_configuration` on what `config_load_file` came to; a missing file is allowed. -/
def loadConfiguration : LoadResult → Option AppConfig
  | .ok config => some config
  | .notFound config _ => some config
  | _ => none

/-- The argument of `--port`. -/
def parsePort (argument : CString) : Option ℕ :=
  match strtoull argument with
  | some (parsed, []) => if 65535 < parsed then none else some parsed
  | _ => none

/-- The configuration `main` starts the server with, unless it refuses its arguments. -/
def startConfig (config : AppConfig) (portArgument : Option CString) : Option AppConfig :=
  match portArgument with
  | none => some config
  | some argument => (parsePort argument).map fun port => { config with port }

/-- The port the server is bound to; the system chooses one when it is asked for port 0. -/
def boundPort (port chosen : ℕ) : ℕ := if port = 0 then chosen else port

/-- `router_set_port`. -/
def routerSetPort (router : Router) (port : ℕ) : Router :=
  { router with config := { router.config with port } }

/-- `router_init` and the rest of `server_start`, on the console. -/
def serverStart (config : AppConfig) (configPath : CString) (chosenPort fastUploadPort : ℕ)
    (files : Files) (tree : Tree) (fs : Upload.Fs) : Option Server :=
  (Auth.authManagerCreate (.ofNat config.pinTtlSeconds) (.ofNat config.sessionTtlSeconds)).map
    fun auth =>
      { router := routerSetPort ⟨config, config.authMode, fastUploadPort, configPath, auth⟩
          (boundPort config.port chosenPort)
        uploads := .initial false config.destination config.maxFileBytes
          config.maxFilesPerSession Upload.UPLOAD_LEASE_SECONDS none fs
        files
        tree
        holder := none
        answers := [] }

end LocalSend.Routing
