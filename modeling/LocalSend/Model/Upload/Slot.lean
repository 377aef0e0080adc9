import LocalSend.Library.Buffer
import LocalSend.Model.Upload.State

/-! # Clearing, queueing and publishing

The static functions of `upload.c` that the calls share. `clear_slot` is in two parts: what
it does before its wait for the writer, and what it does behind it.
-/

namespace LocalSend.Upload

open Buffer SafePath Sha256

/-- What `close` and `unlink` report to one `clear_slot`. -/
structure ClearIo where
  closeFails : Bool
  unlinkError : Option Errno

/-- What one stretch of code under the mutex gets from its surroundings: `current_seconds`
for the lease and for `last_activity`, `monotonic_nanoseconds`, the random bytes, and what
each system call reports. `statvfs` is `f_frsize` and `f_bavail`, `malloc` an address. -/
structure Env where
  now : ℕ
  activity : ℕ
  startNs : ℕ
  endNs : ℕ
  random : Option Bytes
  statvfs : Option (ℕ × ℕ)
  accessError : CString → Option Errno
  openError : Option Errno
  reopenError : Option Errno
  reserveError : Option Errno
  callocOk : Bool
  malloc : Option ℕ
  syncErrors : List Errno
  closeFails : Bool
  linkError : Option Errno
  lstatError : Option Errno
  renameError : Option Errno
  unlinkError : Option Errno
  reapIo : ClearIo
  clearIo : ClearIo
  ensureError : Option Errno
  staleNames : List CString

/-- Surroundings in which every call succeeds. -/
def Env.calm (now : ℕ) (random : Bytes) : Env :=
  ⟨now, now, 1, 1, some random, some (4096, 2 ^ 40), fun _ => none, none, none, none, true,
    some 0, [], false, none, none, none, none, ⟨false, none⟩, ⟨false, none⟩, none, []⟩

/-! ## `clear_slot` -/

/-- `clear_slot` up to its wait. -/
def clearStart (world : World) : World :=
  { world with mgr.queue.writerDiscard := true }

/-- The ring after `clear_slot`; only what was buffered in the tail buffer is zeroed. -/
def Queue.cleared (queue : Queue) : Queue :=
  { queue with
    writerDiscard := false
    writerError := none
    writeHead := 0
    writeTail := 0
    writeQueued := 0
    writeSizes := fun _ => 0
    writeBuffer :=
      if 0 < queue.buffered then
        Function.update queue.writeBuffer queue.writeTail
          (splice (queue.writeBuffer queue.writeTail) 0 (.replicate queue.buffered 0))
      else queue.writeBuffer
    buffered := 0 }

/-- The `remove_part` argument: only a published file's part is left alone. -/
def Origin.removePart (origin : Origin) : Bool := origin ≠ .published

/-- `clear_slot` behind its wait, and whether it failed. -/
def clearRest (world : World) (origin : Origin) (target : CString) (io : ClearIo) :
    World × Bool :=
  let slot := world.mgr.slot
  let closeFailed := slot.fd.isSome && io.closeFails
  let (unlinkError, fs) :=
    if origin.removePart ∧ slot.partPath ≠ [] then world.fs.unlink slot.partPath io.unlinkError
    else (none, world.fs)
  let unlinkFailed := unlinkError.isSome && unlinkError != some .enoent
  ({ world with
      mgr := ⟨world.mgr.settings, .empty, world.mgr.queue.cleared, .empty⟩
      fs
      trace :=
        .cleared ⟨origin, target, slot.uploadId, slot.occupied, slot.fd⟩ :: world.trace },
    closeFailed || unlinkFailed)

/-! ## The write queue -/

/-- What `enqueue_write_buffer_locked` comes to before it sleeps or returns. -/
inductive Enqueued where
  | wait
  | failed (error : Errno)
  | ok (queue : Queue)

def enqueueWriteBufferLocked (queue : Queue) : Enqueued :=
  if queue.buffered = 0 then .ok queue
  else if queue.writeQueued = UPLOAD_WRITE_QUEUE_DEPTH ∧ queue.writerError = none ∧
      queue.writerDiscard = false then .wait
  else match queue.writerError with
  | some error => .failed error
  | none =>
      if queue.writerDiscard ∨ queue.writerShutdown then .failed .ecanceled
      else .ok { queue with
        writeSizes := Function.update queue.writeSizes queue.writeTail queue.buffered
        writeTail := (queue.writeTail + 1) % UPLOAD_WRITE_QUEUE_DEPTH
        writeQueued := queue.writeQueued + 1
        buffered := 0 }

/-- The loop condition of `wait_for_write_queue_locked`. -/
def Queue.draining (queue : Queue) : Bool :=
  queue.writerError = none ∧ (queue.writeQueued ≠ 0 ∨ queue.writerActive)

/-! ## Chunks -/

def chunkLengthFor (expectedSize index : ℕ) : ℕ :=
  let offset := index * UPLOAD_CHUNK_BYTES
  if expectedSize ≤ offset then 0
  else
    let remaining := expectedSize - offset
    if remaining < UPLOAD_CHUNK_BYTES then remaining else UPLOAD_CHUNK_BYTES

def chunkReadyForWriterLocked (chunks : Chunks) : Bool :=
  chunks.chunkTransport ∧ chunks.nextChunkToWrite < chunks.chunkCount ∧ chunks.chunkArrays ∧
    chunks.chunkStates chunks.nextChunkToWrite = .ready ∧
    (chunks.chunkBuffers chunks.nextChunkToWrite).isSome

/-! ## Lease and binding -/

/-- The condition of `reap_locked`. -/
def leaseExpired (manager : Manager) (now : ℕ) : Bool :=
  manager.chunks.finalizingChunks = false ∧ manager.chunks.activeChunkWrites = 0 ∧
    manager.slot.occupied ∧ manager.slot.lastActivity ≠ 0 ∧ manager.slot.lastActivity ≤ now ∧
    manager.settings.leaseSeconds ≤ now - manager.slot.lastActivity

def bindingMatches (slot : Slot) (client authorization : CString) : Bool :=
  slot.client = client ∧ slot.authorization = authorization

def randomId (random : Option Bytes) : Option CString :=
  random.map fun bytes => hexBytes (bytes.take (UPLOAD_ID_HEX_BYTES / 2))

/-! ## Opening and publishing -/

/-- The errors after which a file or a link is tried another way. -/
def Errno.unsupported (error : Errno) : Bool :=
  error = .eperm ∨ error = .enosys ∨ error = .eopnotsupp

def linkUnsupportedErrno (error : Errno) : Bool :=
  error.unsupported ∨ error = .exdev

def syncUnsupportedErrno (error : Errno) : Bool :=
  error.unsupported ∨ error = .einval

/-- `open_part_file`: the host retries without `O_NOFOLLOW`, the PS5 build with `O_TRUNC`
in place of `O_EXCL`. -/
def openPartFile (world : World) (path : CString) (env : Env) : Except Errno (ℕ × Fs) :=
  match world.fs.create path true env.openError with
  | .ok opened => .ok opened
  | .error error =>
      if error.unsupported ∨ error = .einval then world.fs.create path world.host env.reopenError
      else .error error

/-- `reserve_upload_space`; an error that says the call is not there counts as success. -/
def reserveUploadSpace (world : World) (file size : ℕ) (error : Option Errno) : Except Errno Fs :=
  if world.host then .ok world.fs
  else if 2 ^ 63 - 1 < size then .error .efbig
  else match error with
  | none => .ok (world.fs.reserve file size)
  | some error =>
      if error = .einval ∨ error = .enosys ∨ error = .eopnotsupp then .ok world.fs
      else .error error

/-- The loop of `sync_for_publication` on the results of its `fsync` calls. -/
def syncLoop : List Errno → Option Errno
  | [] => none
  | error :: errors =>
      if error = .eintr then syncLoop errors
      else if syncUnsupportedErrno error then none
      else some error

def syncForPublication (host : Bool) (descriptor : Option ℕ) (errors : List Errno) :
    Option Errno :=
  if host then (if descriptor.isNone then some .ebadf else syncLoop errors) else none

/-- The guarded rename of `publish_part`. -/
def renamePart (fs : Fs) (partPath finalPath : CString) (env : Env) : Except Errno (Bool × Fs) :=
  match fs.lookup finalPath env.lstatError with
  | none => .error .eexist
  | some .enoent =>
      match fs.rename partPath finalPath env.renameError with
      | (none, fs) => .ok (false, fs)
      | (some error, _) => .error error
  | some error => .error error

/-- `publish_part`, and whether it published by a hard link. -/
def publishPart (host : Bool) (fs : Fs) (partPath finalPath : CString) (env : Env) :
    Except Errno (Bool × Fs) :=
  if host then
    match fs.link partPath finalPath env.linkError with
    | (none, fs) => .ok (true, fs)
    | (some error, _) =>
        if error = .eexist ∨ ¬linkUnsupportedErrno error then .error error
        else renamePart fs partPath finalPath env
  else renamePart fs partPath finalPath env

/-- What `publish_part` finds in the slot. -/
def publishRecord (world : World) (id digest : CString) : Publish :=
  let slot := world.mgr.slot
  ⟨id, slot.uploadId, slot.occupied, slot.received, slot.expectedSize,
    world.mgr.queue.writerError,
    ((world.fs.entries slot.partPath).map fun file => (world.fs.files file).written).getD [],
    digest, slot.fastDirectStream⟩

/-- The slot without its descriptor. -/
def closeFd (world : World) : World := { world with mgr.slot.fd := none }

def completedMetrics (slot : Slot) (transferElapsedNs : ℕ) : Metrics :=
  ⟨nanosecondsToMilliseconds slot.preparationElapsedNs,
    nanosecondsToMilliseconds transferElapsedNs,
    nanosecondsToMilliseconds slot.writeElapsedNs, slot.directIo⟩

/-- The metrics and the count of a published file. -/
def Settings.published (settings : Settings) (metrics : Metrics) (size : ℕ) : Settings :=
  { settings with
    lastMetrics := metrics
    hasLastMetrics := true
    lastCompletedSize := size
    completedFiles := settings.completedFiles + 1 }

/-- The world once `publish_part` has succeeded; a part linked to its final name is
unlinked, whatever comes of that. -/
def recordPublished (world : World) (id digest : CString) (metrics : Metrics) (linked : Bool)
    (fs : Fs) (env : Env) : World :=
  let slot := world.mgr.slot
  { world with
    mgr.settings := world.mgr.settings.published metrics slot.expectedSize
    fs := if linked then (fs.unlink slot.partPath env.unlinkError).2 else fs
    trace := .published id slot.finalPath ((fs.contents slot.finalPath).getD []) digest ::
      world.trace }

/-- What both finish calls do once the digest is known: compare it, sync, close, publish
and count. -/
def publishSlot (world : World) (id digest : CString) (transferElapsedNs : ℕ) (env : Env) :
    World × Except UploadResult Metrics :=
  let slot := world.mgr.slot
  if slot.expectedHash ≠ [] ∧ slot.expectedHash ≠ digest then (world, .error .hashMismatch)
  else match syncForPublication world.host slot.fd env.syncErrors with
  | some error => (world, .error error.result)
  | none =>
      if slot.fd.isNone ∨ env.closeFails then (closeFd world, .error .ioError)
      else
        let reached := (closeFd world).note (.publishing (publishRecord world id digest))
        match publishPart world.host world.fs slot.partPath slot.finalPath env with
        | .error error => (reached, .error (if error = .eexist then .busy else .ioError))
        | .ok (linked, fs) =>
            let metrics := completedMetrics slot transferElapsedNs
            (recordPublished reached id digest metrics linked fs env, .ok metrics)

/-- `cleanup_stale_parts` over the directory entries that are old regular files. -/
def cleanupStaleParts (fs : Fs) (directory : CString) (names : List CString) : Fs :=
  names.foldl (fun fs name =>
    let (path, fits) := safePathJoin directory name [] SAFE_PATH_FULL_BYTES
    if managedPartName name ∧ fits then (fs.unlink path none).2 else fs) fs

end LocalSend.Upload
