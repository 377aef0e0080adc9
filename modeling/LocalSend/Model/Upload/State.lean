import LocalSend.Model.Sha256
import LocalSend.Model.Upload.FileSystem
import LocalSend.Model.Upload.Metadata

/-! # The state of the upload manager

The fields of `struct upload_manager`, in four groups: what outlives an upload, the upload
in the slot, the queue to the writer thread, and the chunks. A pointer that may be `NULL`,
a descriptor that may be `-1` and an error number that may be zero are options.
-/

namespace LocalSend.Upload

open Sha256

def UPLOAD_AUTH_BYTES : ℕ := 80
def UPLOAD_CLIENT_BYTES : ℕ := 64
def CONFIG_DESTINATION_CAPACITY : ℕ := 1024
def UPLOAD_LEASE_SECONDS : ℕ := 60
def UPLOAD_WRITE_BUFFER_BYTES : ℕ := 4 * 1024 * 1024
def UPLOAD_WRITE_QUEUE_DEPTH : ℕ := 4
def UPLOAD_CHUNK_BYTES : ℕ := 8 * 1024 * 1024
def UPLOAD_CHUNK_PARALLELISM : ℕ := 6
def UPLOAD_CHUNK_BUFFER_SLOTS : ℕ := UPLOAD_CHUNK_PARALLELISM * 2

/-- `upload_result_t`. -/
inductive UploadResult where
  | ok
  | invalid
  | notFound
  | forbidden
  | busy
  | tooLarge
  | storageFull
  | ioError
  | sizeMismatch
  | hashMismatch
  | limitReached
  | backpressure
  deriving DecidableEq, Repr

/-- The result for a failed write or file-system call. -/
def Errno.result (error : Errno) : UploadResult :=
  if error = .enospc then .storageFull else .ioError

/-- `upload_metrics_t`. -/
structure Metrics where
  preparationMs : ℕ
  transferMs : ℕ
  writeMs : ℕ
  directIo : Bool
  deriving DecidableEq

/-- A `memset` metrics record. -/
def Metrics.zero : Metrics := ⟨0, 0, 0, false⟩

/-- The fields no `clear_slot` touches. -/
structure Settings where
  destination : CString
  maxFileBytes : ℕ
  maxFiles : ℕ
  leaseSeconds : ℕ
  completedFiles : ℕ
  completedAuthorization : CString
  hasLastMetrics : Bool
  lastCompletedSize : ℕ
  lastMetrics : Metrics
  deriving DecidableEq

/-- The upload in the slot. -/
structure Slot where
  occupied : Bool
  started : Bool
  fd : Option ℕ
  expectedSize : ℕ
  received : ℕ
  lastActivity : ℕ
  uploadId : CString
  client : CString
  authorization : CString
  finalName : CString
  finalPath : CString
  partPath : CString
  expectedHash : CString
  sha256 : Context
  fastDirectStream : Bool
  directIo : Bool
  preparationStartNs : ℕ
  preparationElapsedNs : ℕ
  transferStartNs : ℕ
  writeElapsedNs : ℕ

/-- The slot after `clear_slot`. -/
def Slot.empty : Slot :=
  ⟨false, false, none, 0, 0, 0, [], [], [], [], [], [], [], Context.zero, false, false, 0, 0, 0, 0⟩

/-- The writer's flags and the ring of write buffers. A buffer is the memory written to it
so far. -/
structure Queue where
  writerShutdown : Bool
  writerDiscard : Bool
  writerActive : Bool
  writerError : Option Errno
  writeHead : ℕ
  writeTail : ℕ
  writeQueued : ℕ
  writeSizes : ℕ → ℕ
  writeBuffer : ℕ → Bytes
  buffered : ℕ

/-- The states 0 to 3 of `chunk_states`. -/
inductive ChunkState where
  | absent
  | receiving
  | ready
  | stored
  deriving DecidableEq, Repr

/-- A buffer from `malloc`, with its address. -/
structure ChunkBuffer where
  address : ℕ
  bytes : Bytes
  deriving DecidableEq

/-- The chunk tables; `chunkArrays` says whether the three arrays are allocated. -/
structure Chunks where
  chunkCount : ℕ
  chunksCompleted : ℕ
  chunkArrays : Bool
  chunkStates : ℕ → ChunkState
  chunkProgress : ℕ → ℕ
  chunkBuffers : ℕ → Option ChunkBuffer
  nextChunkToWrite : ℕ
  activeChunkBuffers : ℕ
  chunkTransport : Bool
  finalizingChunks : Bool
  activeChunkWrites : ℕ

/-- The chunk fields after `clear_slot`. -/
def Chunks.empty : Chunks :=
  ⟨0, 0, false, fun _ => .absent, fun _ => 0, fun _ => none, 0, 0, false, false, 0⟩

/-- `struct upload_manager`. -/
structure Manager where
  settings : Settings
  slot : Slot
  queue : Queue
  chunks : Chunks

/-- `upload_prepared_t`. -/
structure Prepared where
  uploadId : CString
  finalName : CString
  size : ℕ
  deriving DecidableEq

/-- `upload_snapshot_t`. -/
structure Snapshot where
  active : Bool
  started : Bool
  name : CString
  received : ℕ
  expected : ℕ
  hasLastMetrics : Bool
  lastCompletedSize : ℕ
  lastMetrics : Metrics
  deriving DecidableEq

/-- The calls of `upload.h`. Pointers are not `NULL`. -/
inductive Call where
  | setDestination (destination : CString)
  | prepare (client authorization : CString) (json : Bytes)
  | begin (id client authorization : CString) (length : ℕ)
  | write (id : CString) (data : Bytes)
  | enableDirectStream (id : CString)
  | writeDirect (id : CString) (data : Bytes)
  | chunkBegin (id client authorization : CString) (total offset length : ℕ)
  | chunkWrite (id : CString) (offset : ℕ) (data : Bytes)
  | chunkFinish (id : CString) (offset length : ℕ)
  | chunkAbort (id : CString) (offset length : ℕ)
  | finish (id : CString)
  | finishChunks (id client authorization : CString)
  | cancel (id client authorization : CString)
  | abort (id : CString)
  | snapshot
  | reapAt (now : ℕ)
  deriving DecidableEq

/-- What a call may set. -/
inductive Setup where
  | nothing
  | destination
  | slot
  deriving DecidableEq, Repr

/-- The calls that choose the destination or fill the slot. -/
def Call.setup : Call → Setup
  | .setDestination _ => .destination
  | .prepare _ _ _ => .slot
  | _ => .nothing

/-- What a call hands back; a `void` call hands back `ok`. -/
structure Reply where
  result : UploadResult
  prepared : Option Prepared
  digest : Option CString
  metrics : Option Metrics
  snapshot : Option Snapshot
  deriving DecidableEq

/-- A reply that is only a result. -/
def Reply.of (result : UploadResult) : Reply := ⟨result, none, none, none, none⟩

/-- What a `publish_part` finds, recorded when it is reached. -/
structure Publish where
  requested : CString
  uploadId : CString
  occupied : Bool
  received : ℕ
  expectedSize : ℕ
  writerError : Option Errno
  partFile : Bytes
  digest : CString
  directStream : Bool
  deriving DecidableEq

/-- What a `clear_slot` was started by. -/
inductive Origin where
  | lease
  | superseded
  | prepareFailed
  | published
  | finishFailed
  | cancelled
  | aborted
  deriving DecidableEq, Repr

/-- A `clear_slot` behind its wait: the identifier it was started for and what it finds. -/
structure Clearing where
  origin : Origin
  target : CString
  uploadId : CString
  occupied : Bool
  fd : Option ℕ
  deriving DecidableEq

/-- A copy of `upload_write` into buffer `index`, with the slot and the ring it finds. -/
structure Copy where
  requested : CString
  data : Bytes
  uploadId : CString
  occupied : Bool
  index : ℕ
  writeHead : ℕ
  writeQueued : ℕ
  deriving DecidableEq

/-- What runs are judged by; the code never reads these. -/
inductive Event where
  | returned (call : Call) (reply : Reply)
  | opened (id : CString)
  | copied (copy : Copy)
  | cleared (clearing : Clearing)
  | publishing (publish : Publish)
  | published (requested finalPath : CString) (content : Bytes) (digest : CString)
  | writeFailed
  | drained (index : ℕ)
  deriving DecidableEq

/-- The manager, the file system and the events so far, the latest first. `host` is the
`PS5LOCALSEND_HOST` build, `override` its `PS5LOCALSEND_UPLOAD_DIR`. -/
structure World where
  host : Bool
  override : Option CString
  mgr : Manager
  fs : Fs
  trace : List Event

def World.note (world : World) (event : Event) : World :=
  { world with trace := event :: world.trace }

/-- `uint64_t` subtraction of two such numbers. -/
def sub64 (a b : ℕ) : ℕ := if b ≤ a then a - b else 2 ^ 64 - (b - a) % 2 ^ 64

def elapsedNanoseconds (start stop : ℕ) : ℕ :=
  if start ≤ stop ∧ start ≠ 0 then stop - start else 0

def nanosecondsToMilliseconds (nanoseconds : ℕ) : ℕ := (nanoseconds + 999999) / 1000000

/-- `upload_manager_create`, with the destination it settled on. -/
def uploadManagerCreate (destination : CString) (maxFileBytes maxFiles leaseSeconds : ℕ) :
    Manager :=
  ⟨⟨destination, maxFileBytes, maxFiles, leaseSeconds, 0, [], false, 0, .zero⟩, .empty,
    ⟨false, false, false, none, 0, 0, 0, fun _ => 0, fun _ => [], 0⟩, .empty⟩

end LocalSend.Upload
