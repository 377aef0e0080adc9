import LocalSend.Library.Transition
import LocalSend.Model.Web
import Mathlib.Logic.Function.Basic

/-! # The event handlers of `uploadChunks`

Each handler of `app.js` runs to its end before the next event. A request is known by the index
of its chunk, and the progress display is left out.
-/

namespace LocalSend.Web

open Config SafePath

/-- What `uploadChunks` is called with; the page rounds the parallelism down to a whole number. -/
structure Settings where
  total : ℚ
  chunkSize : ℚ
  parallelism : ℕ

/-- `count`. -/
def Settings.count (settings : Settings) : ℕ := ⌈divide settings.total settings.chunkSize⌉₊

/-- What the promise is rejected with. -/
inductive Failure where
  | error (code : CString) (apiMessage : Option CString) (status : Option ℕ)
  | rangeError
  deriving DecidableEq

/-- What happens to the outside: requests, their ends, back-off timers, exceptions out of their
handlers, and the promise. -/
inductive Entry where
  | put (index : ℕ) (request : ChunkRequest)
  | loaded (index status : ℕ) (code : CString)
  | errored (index : ℕ)
  | aborted (index : ℕ)
  | backoff (index delay : ℕ)
  | threw (index : ℕ)
  | complete
  | resolved
  | rejected (failure : Failure)
  deriving DecidableEq

/-- The variables of a call, the requests and timers that are pending, and all that has happened,
newest first. -/
structure ChunkUpload where
  retries : ℕ → ℕ
  nextIndex : ℕ
  completed : ℕ
  active : ℤ
  settled : Bool
  cancelRequested : Bool
  activeXhrs : List ℕ
  timers : List ℕ
  /-- The number of `/complete` requests without an answer. -/
  completing : ℕ
  log : List Entry

/-- How `/complete` is answered. -/
inductive Reply where
  | payload
  | notObject
  | failed (failure : Failure)

inductive Event where
  | load (index status : ℕ) (code apiMessage : Option CString)
  | error (index : ℕ)
  | abort (index : ℕ)
  | timer (index : ℕ)
  | answer (reply : Reply)
  | cancel

def failureOf (code : String) : Failure := .error (ascii code) none none

namespace ChunkUpload

def record (upload : ChunkUpload) (entry : Entry) : ChunkUpload :=
  { upload with log := entry :: upload.log }

def untrackUploadXhr (upload : ChunkUpload) (index : ℕ) : ChunkUpload :=
  { upload with activeXhrs := upload.activeXhrs.erase index }

/-- The `onabort` of a request up to its `fail`. -/
def aborted (upload : ChunkUpload) (index : ℕ) : ChunkUpload :=
  let upload := upload.untrackUploadXhr index
  { upload with active := max 0 (upload.active - 1) }

def fail (upload : ChunkUpload) (failure : Failure) : ChunkUpload :=
  if upload.settled then upload
  else
    let upload := { upload with settled := true }
    -- `abort` calls each `onabort` at once, whose `fail` then finds `settled`
    (upload.activeXhrs.foldl (fun upload index => (upload.record (.aborted index)).aborted index)
      upload).record (.rejected failure)

def onabort (upload : ChunkUpload) (index : ℕ) : ChunkUpload :=
  (upload.aborted index).fail (failureOf "cancelled")

def onerror (upload : ChunkUpload) (index : ℕ) : ChunkUpload :=
  let upload := upload.untrackUploadXhr index
  { upload with active := upload.active - 1 }.fail (failureOf "network_error")

def finish (upload : ChunkUpload) : ChunkUpload :=
  if upload.settled then upload
  else { upload.record .complete with completing := upload.completing + 1 }

/-- The answer to `/complete`. -/
def answered (upload : ChunkUpload) : Reply → ChunkUpload
  | .payload => { upload with settled := true }.record .resolved
  | .notObject => upload.fail (failureOf "invalid_response")
  | .failed failure => upload.fail failure

def ontimer (upload : ChunkUpload) (index : ℕ) : ChunkUpload :=
  let upload := { upload with timers := upload.timers.erase index }
  if upload.settled then upload
  else if upload.cancelRequested then
    { upload with active := max 0 (upload.active - 1) }.fail (failureOf "cancelled")
  -- `start(chunkIndex, true)`: the name is the number `var start` inside `start`, a `TypeError`
  else upload.record (.threw index)

variable (settings : Settings)

def start (upload : ChunkUpload) (chunkIndex : ℕ) (replacingActiveRequest : Bool) :
    ChunkUpload :=
  let upload :=
    if replacingActiveRequest then upload else { upload with active := upload.active + 1 }
  { upload with activeXhrs := upload.activeXhrs ++ [chunkIndex] }.record
    (.put chunkIndex (startChunk settings.total settings.chunkSize chunkIndex))

/-- The loop of `schedule`; at most `fuel` rounds, which is how many chunks are left. -/
def startAll : ℕ → ChunkUpload → ChunkUpload
  | 0, upload => upload
  | fuel + 1, upload =>
      if upload.active < settings.parallelism ∧ upload.nextIndex < settings.count then
        let upload := upload.start settings upload.nextIndex false
        startAll fuel { upload with nextIndex := upload.nextIndex + 1 }
      else upload

def schedule (upload : ChunkUpload) : ChunkUpload :=
  if upload.settled then upload
  else
    let upload := startAll settings (settings.count - upload.nextIndex) upload
    if upload.completed = settings.count ∧ upload.active = 0 then upload.finish else upload

/-- `"upload_backpressure"`. -/
def uploadBackpressure : CString := ascii "upload_backpressure"

/-- The `code` of an answer's payload. -/
def codeOf (code : Option CString) : CString := code.getD (ascii "request_failed")

def onload (upload : ChunkUpload) (index status : ℕ) (code apiMessage : Option CString) :
    ChunkUpload :=
  let code := codeOf code
  let upload := upload.untrackUploadXhr index
  if status < 200 ∨ 300 ≤ status then
    if code = uploadBackpressure ∧ upload.cancelRequested = false then
      let delay := min 500 (40 * 2 ^ upload.retries index)
      { upload with
        retries := Function.update upload.retries index (upload.retries index + 1)
        timers := index :: upload.timers }.record (.backoff index delay)
    else
      { upload with active := upload.active - 1 }.fail (.error code apiMessage status)
  else
    { upload with
      active := upload.active - 1
      completed := upload.completed + 1 }.schedule settings

/-- `cancelUpload`, less the request it sends itself. -/
def cancelUpload (upload : ChunkUpload) : ChunkUpload :=
  if upload.cancelRequested then upload
  else
    let upload := { upload with cancelRequested := true }
    upload.activeXhrs.foldl (fun upload index =>
      -- nothing happens on a request that has ended meanwhile
      if index ∈ upload.activeXhrs then (upload.record (.aborted index)).onabort index else upload)
      upload

/-- An event is recorded as it comes, whatever its handler does. -/
def step (upload : ChunkUpload) : Event → Option ChunkUpload
  | .load index status code apiMessage =>
      if index ∈ upload.activeXhrs then
        some ((upload.record (.loaded index status (codeOf code))).onload settings index status
          code apiMessage)
      else none
  | .error index =>
      if index ∈ upload.activeXhrs then some ((upload.record (.errored index)).onerror index)
      else none
  | .abort index =>
      if index ∈ upload.activeXhrs then some ((upload.record (.aborted index)).onabort index)
      else none
  | .timer index => if index ∈ upload.timers then some (upload.ontimer index) else none
  | .answer reply =>
      if 0 < upload.completing then
        some ({ upload with completing := upload.completing - 1 }.answered reply)
      else none
  | .cancel => some upload.cancelUpload

def initial (cancelRequested : Bool) : ChunkUpload where
  retries _ := 0
  nextIndex := 0
  completed := 0
  active := 0
  settled := false
  cancelRequested
  activeXhrs := []
  timers := []
  completing := 0
  log := []

/-- The call of `uploadChunks`. No array has `2 ^ 32` places, and where one cannot be made nothing
of the call runs any more. -/
def begin (cancelRequested : Bool) : ChunkUpload :=
  let upload := initial cancelRequested
  if 2 ^ 32 ≤ settings.count then { upload with settled := true }.record (.rejected .rangeError)
  else if settings.total ≤ 0 ∨ settings.chunkSize ≤ 0 ∨ settings.parallelism < 2 then
    upload.fail (failureOf "invalid_response")
  else upload.schedule settings

end ChunkUpload

end LocalSend.Web
