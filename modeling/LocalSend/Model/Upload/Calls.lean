import LocalSend.Model.Upload.Slot

/-! # The calls of the upload manager

Each definition is one stretch of a call's code between two points where it does not hold
the mutex. A stretch ends with the reply, or with the point at which the call sleeps or
goes on without the mutex.
-/

namespace LocalSend.Upload

open SafePath Sha256

/-- A `clear_slot` that ends its call, with the result that call has by then. -/
inductive Closing where
  | prepareFailed (result : UploadResult)
  | finished (reply : Reply)
  | finishFailed (reply : Reply)
  | chunksFailed (reply : Reply)
  | cancel
  | abort
  deriving DecidableEq

def Closing.origin : Closing → Origin
  | .prepareFailed _ => .prepareFailed
  | .finished _ => .published
  | .finishFailed _ => .finishFailed
  | .chunksFailed _ => .finishFailed
  | .cancel => .cancelled
  | .abort => .aborted

/-- The reply once `clear_slot` has returned. -/
def Closing.reply : Closing → Bool → Reply
  | .prepareFailed result, _ => .of result
  | .finished reply, _ => reply
  | .finishFailed reply, failed => if failed then { reply with result := .ioError } else reply
  | .chunksFailed reply, failed => if failed then { reply with result := .ioError } else reply
  | .cancel, failed => .of (if failed then .ioError else .ok)
  | .abort, _ => .of .ok

/-- The points at which a call has released the mutex. A `clear_slot` remembers the
identifier it found in the slot. -/
inductive Pc where
  | reaping (call : Call) (target : CString)
  | superseding (client authorization : CString) (meta_ : Metadata) (target : CString)
  | clearing (closing : Closing) (target : CString)
  | waitingWrites (call : Call)
  | writeFull (id : CString) (rest : Bytes)
  | writeEnqueue (id : CString) (rest : Bytes)
  | finishEnqueue (id : CString)
  | finishDrain (id : CString)
  | finishHash (id partPath : CString) (transferElapsedNs : ℕ)
  | finishHashed (id : CString) (transferElapsedNs : ℕ) (hash : Except Errno CString)
  | chunksDrain (id : CString)
  | chunksHash (id partPath : CString)
  | chunksHashed (id : CString) (hash : Except Errno CString)
  | directWriting (data : Bytes) (done : ℕ) (error : Option Errno)
  deriving DecidableEq

/-- How a stretch ends. -/
inductive Outcome where
  | park (pc : Pc)
  | done (reply : Reply)
  deriving DecidableEq

/-- End with a bare result. -/
def Outcome.of (result : UploadResult) : Outcome := .done (.of result)

def World.setQueue (world : World) (queue : Queue) : World := { world with mgr.queue := queue }

def World.setFinalizing (world : World) (finalizing : Bool) : World :=
  { world with mgr.chunks.finalizingChunks := finalizing }

/-! ## Clearing at the end of a call -/

def finishClosing (world : World) (closing : Closing) (target : CString) (io : ClearIo) :
    World × Outcome :=
  let (world, failed) := clearRest world closing.origin target io
  (world, .done (closing.reply failed))

/-- The wait of `clear_slot`, entered or woken up in. -/
def awaitClosing (world : World) (closing : Closing) (target : CString) (io : ClearIo) :
    World × Outcome :=
  if world.mgr.queue.writerActive then (world, .park (.clearing closing target))
  else finishClosing world closing target io

def closeSlot (world : World) (closing : Closing) (io : ClearIo) : World × Outcome :=
  awaitClosing (clearStart world) closing world.mgr.slot.uploadId io

/-! ## `upload_manager_set_destination` and `upload_prepare` -/

/-- The destination after the environment override of the host build. -/
def effectiveDestination (world : World) (destination : CString) : CString :=
  match world.host, world.override with
  | true, some path => if peek path = 47 then path else destination
  | _, _ => destination

/-- The new destination, cleaned of old part files. -/
def changeDestination (world : World) (effective : CString) (env : Env) : World :=
  { world with
    mgr.settings.destination := effective
    fs := cleanupStaleParts world.fs effective env.staleNames }

def uploadManagerSetDestination (world : World) (effective : CString) (env : Env) :
    World × Outcome :=
  if world.mgr.slot.occupied then (world, .of .busy)
  else match env.ensureError with
  | some error => (world, .of error.result)
  | none =>
      if world.mgr.settings.destination ≠ effective then
        (changeDestination world effective env, .of .ok)
      else (world, .of .ok)

/-- The `statvfs` check: too few free blocks for the file, or none to be read. -/
def storageFull (statvfs : Option (ℕ × ℕ)) (size : ℕ) : Bool :=
  match statvfs with
  | none => true
  | some (blockSize, available) => blockSize ≠ 0 ∧ available < (size + blockSize - 1) / blockSize

/-- The length of the chunk tables. -/
def chunkCountFor (size : ℕ) : ℕ := if size = 0 then 0 else (size - 1) / UPLOAD_CHUNK_BYTES + 1

/-- The count of published files starts anew with another authorization. -/
def Settings.forAuthorization (settings : Settings) (authorization : CString) : Settings :=
  if settings.completedAuthorization ≠ authorization then
    { settings with completedFiles := 0, completedAuthorization := authorization }
  else settings

/-- The final name and path `upload_prepare` chooses, and whether both were found. -/
def chooseNames (world : World) (metadata : Metadata) (env : Env) : World × Bool :=
  let settings := world.mgr.settings
  let absent (path : CString) : Bool :=
    world.fs.lookup path (env.accessError path) = some .enoent
  let (finalName, named) := safePathUniqueName settings.destination metadata.name
    world.mgr.slot.finalName absent
  let world := { world with mgr.slot.finalName := finalName }
  if ¬named then (world, false)
  else
    let (finalPath, joined) := safePathJoin settings.destination finalName
      world.mgr.slot.finalPath SAFE_PATH_FULL_BYTES
    ({ world with mgr.slot.finalPath := finalPath }, joined)

/-- The identifier and the part file's path, and whether the path fitted. -/
def choosePart (world : World) (uploadId : CString) : World × Bool :=
  let (partPath, fits) := printInto SAFE_PATH_FULL_BYTES
    (world.mgr.settings.destination ++ [47] ++ partMarker ++ uploadId ++ partSuffix)
  ({ world with mgr.slot.uploadId := uploadId, mgr.slot.partPath := partPath }, fits)

/-- `upload_prepare` on a free slot up to the name of the part file. -/
def prepareNames (world : World) (authorization : CString) (metadata : Metadata) (env : Env) :
    World × UploadResult :=
  let settings := world.mgr.settings.forAuthorization authorization
  let world := { world with mgr.settings := settings }
  if settings.maxFiles ≤ settings.completedFiles then (world, .limitReached)
  else if storageFull env.statvfs metadata.size then (world, .storageFull)
  else
    match chooseNames world metadata env with
    | (world, false) => (world, .ioError)
    | (world, true) =>
        match randomId env.random with
        | none => (world, .ioError)
        | some uploadId =>
            match choosePart world uploadId with
            | (world, false) => (world, .ioError)
            | (world, true) => (world, .ok)

/-- The world as the part file is about to be opened. -/
def startPreparation (world : World) (env : Env) : World :=
  { world with
    mgr.slot.preparationStartNs := env.startNs
    mgr.slot.directIo := false }

/-- The world once the part file is open. -/
def openedPart (world : World) (file : ℕ) (fs : Fs) : World :=
  { world with
    mgr.slot.fd := some file
    fs
    trace := .opened world.mgr.slot.uploadId :: world.trace }

/-- The slot and the chunk tables of a prepared upload. -/
def occupySlot (world : World) (client authorization : CString) (metadata : Metadata)
    (env : Env) : World :=
  let chunkCount := chunkCountFor metadata.size
  let chunks := { world.mgr.chunks with
    chunkCount
    chunksCompleted := 0
    nextChunkToWrite := 0
    activeChunkBuffers := 0 }
  { world with
    mgr.slot := { world.mgr.slot with
      preparationElapsedNs := elapsedNanoseconds env.startNs env.endNs
      occupied := true
      expectedSize := metadata.size
      lastActivity := env.activity
      client
      authorization
      expectedHash := metadata.expectedHash }
    mgr.chunks :=
      if 0 < chunkCount then
        { chunks with
          chunkArrays := true
          chunkStates := fun _ => .absent
          chunkProgress := fun _ => 0
          chunkBuffers := fun _ => none }
      else chunks }

/-- `upload_prepare` from the opening of the part file on. -/
def prepareOpen (world : World) (client authorization : CString) (metadata : Metadata) (env : Env) :
    World × UploadResult :=
  let world := startPreparation world env
  match openPartFile world world.mgr.slot.partPath env with
  | .error error => (closeFd world, error.result)
  | .ok (file, fs) =>
      let world := openedPart world file fs
      match reserveUploadSpace world file metadata.size env.reserveError with
      | .error error => (world, error.result)
      | .ok fs =>
          let world := { world with fs }
          if 0 < chunkCountFor metadata.size ∧ ¬env.callocOk then (world, .ioError)
          else (occupySlot world client authorization metadata env, .ok)

/-- The tail of `upload_prepare`: with a descriptor open, a result other than `UPLOAD_OK`
clears the slot. -/
def prepareFailed (world : World) (result : UploadResult) (env : Env) : World × Outcome :=
  if world.mgr.slot.fd.isSome then closeSlot world (.prepareFailed result) env.clearIo
  else (world, .of result)

/-- `upload_prepare` behind `reap_locked` and the superseding of an idle upload. -/
def prepareSlot (world : World) (client authorization : CString) (metadata : Metadata)
    (env : Env) : World × Outcome :=
  if world.mgr.slot.occupied then prepareFailed world .busy env
  else
    match prepareNames world authorization metadata env with
    | (world, .ok) =>
        match prepareOpen world client authorization metadata env with
        | (world, .ok) =>
            let slot := world.mgr.slot
            (world, .done { Reply.of .ok with
              prepared := some ⟨slot.uploadId, slot.finalName, metadata.size⟩ })
        | (world, result) => prepareFailed world result env
    | (world, result) => prepareFailed world result env

/-- `upload_prepare` behind `reap_locked`. -/
def uploadPrepare (world : World) (client authorization : CString) (metadata : Metadata)
    (env : Env) : World × Outcome :=
  let slot := world.mgr.slot
  if slot.occupied ∧ ¬slot.started ∧ slot.authorization ≠ authorization then
    let world := clearStart world
    if world.mgr.queue.writerActive then
      (world, .park (.superseding client authorization metadata slot.uploadId))
    else
      prepareSlot (clearRest world .superseded slot.uploadId env.reapIo).1 client authorization
        metadata env
  else prepareSlot world client authorization metadata env

/-! ## The queued stream -/

/-- The slot once its stream has begun. -/
def beginStream (world : World) (env : Env) : World :=
  { world with
    mgr.chunks.chunkTransport := false
    mgr.slot := { world.mgr.slot with
      started := true
      lastActivity := env.activity
      transferStartNs := env.startNs
      writeElapsedNs := 0
      sha256 := sha256Init } }

def uploadBegin (world : World) (id client authorization : CString) (length : ℕ) (env : Env) :
    World × Outcome :=
  let slot := world.mgr.slot
  if ¬slot.occupied ∨ slot.uploadId ≠ id then (world, .of .notFound)
  else if ¬bindingMatches slot client authorization then (world, .of .forbidden)
  else if slot.started ∨ world.mgr.chunks.chunkTransport then (world, .of .busy)
  else if length ≠ slot.expectedSize then (world, .of .sizeMismatch)
  else (beginStream world env, .of .ok)

/-- The copy of `upload_write` into the tail buffer. -/
def copyToBuffer (world : World) (id : CString) (data : Bytes) (activity : ℕ) : World :=
  let slot := world.mgr.slot
  let queue := world.mgr.queue
  { world with
    mgr.queue := { queue with
      writeBuffer := Function.update queue.writeBuffer queue.writeTail
        (Buffer.splice (queue.writeBuffer queue.writeTail) queue.buffered data)
      buffered := queue.buffered + data.length }
    mgr.slot := { slot with
      sha256 := sha256Update slot.sha256 data
      received := slot.received + data.length
      lastActivity := activity }
    trace := .copied ⟨id, data, slot.uploadId, slot.occupied, queue.writeTail, queue.writeHead,
      queue.writeQueued⟩ :: world.trace }

/-- How many bytes one round of `upload_write` copies. -/
def Queue.roundCount (queue : Queue) (rest : Bytes) : ℕ :=
  min rest.length (sub64 UPLOAD_WRITE_BUFFER_BYTES queue.buffered)

theorem Queue.roundCount_le (queue : Queue) (rest : Bytes) :
    queue.roundCount rest ≤ rest.length := by
  simp only [roundCount]
  omega

/-- A round copies something unless the tail buffer is full. -/
theorem Queue.roundCount_pos {queue : Queue} {rest : Bytes} (hrest : rest ≠ [])
    (hspace : queue.buffered ≠ UPLOAD_WRITE_BUFFER_BYTES) : 0 < queue.roundCount rest := by
  have hpos := List.length_pos_iff.mpr hrest
  simp only [roundCount, sub64]
  split <;> omega

theorem enqueueWriteBufferLocked_buffered {queue queue' : Queue}
    (h : enqueueWriteBufferLocked queue = .ok queue') : queue'.buffered = 0 := by
  unfold enqueueWriteBufferLocked at h
  split at h
  · cases h
    assumption
  · grind

-- the linter does not look into `decreasing_by`
set_option linter.unusedVariables false in
/-- The loop of `upload_write` on the bytes still to be copied. -/
def writeLoop (world : World) (id : CString) (rest : Bytes) (activity : ℕ) : World × Outcome :=
  if hdone : rest = [] then (world, .of .ok)
  else if world.mgr.queue.writeQueued = UPLOAD_WRITE_QUEUE_DEPTH ∧
      world.mgr.queue.writerError = none then
    (world, .park (.writeFull id rest))
  else match world.mgr.queue.writerError with
  | some error => (world, .of error.result)
  | none =>
      let count := world.mgr.queue.roundCount rest
      let copied := copyToBuffer world id (rest.take count) activity
      if hfull : copied.mgr.queue.buffered = UPLOAD_WRITE_BUFFER_BYTES then
        match henqueue : enqueueWriteBufferLocked copied.mgr.queue with
        | .wait => (copied, .park (.writeEnqueue id (rest.drop count)))
        | .failed error => (copied, .of error.result)
        | .ok queue => writeLoop (copied.setQueue queue) id (rest.drop count) activity
      else writeLoop copied id (rest.drop count) activity
termination_by 2 * rest.length +
  (if world.mgr.queue.buffered = UPLOAD_WRITE_BUFFER_BYTES then 1 else 0)
decreasing_by
  · have hempty : ¬queue.buffered = UPLOAD_WRITE_BUFFER_BYTES := by
      rw [enqueueWriteBufferLocked_buffered henqueue]
      decide
    have hle := world.mgr.queue.roundCount_le rest
    have hpos := List.length_pos_iff.mpr hdone
    rw [List.length_drop, World.setQueue, if_neg hempty]
    by_cases hspace : world.mgr.queue.buffered = UPLOAD_WRITE_BUFFER_BYTES
    · rw [if_pos hspace]
      omega
    · have hround := Queue.roundCount_pos hdone hspace
      rw [if_neg hspace]
      omega
  · have hle := world.mgr.queue.roundCount_le rest
    have hpos := List.length_pos_iff.mpr hdone
    rw [List.length_drop, if_neg hfull]
    by_cases hspace : world.mgr.queue.buffered = UPLOAD_WRITE_BUFFER_BYTES
    · rw [if_pos hspace]
      omega
    · have hround := Queue.roundCount_pos hdone hspace
      rw [if_neg hspace]
      omega

def uploadWrite (world : World) (id : CString) (data : Bytes) (env : Env) : World × Outcome :=
  let slot := world.mgr.slot
  if ¬slot.occupied ∨ ¬slot.started ∨ slot.uploadId ≠ id then (world, .of .notFound)
  else if sub64 slot.expectedSize slot.received < data.length then (world, .of .sizeMismatch)
  else writeLoop world id data env.activity

/-- `upload_write` in the wait of `enqueue_write_buffer_locked`. -/
def awaitWriteEnqueue (world : World) (id : CString) (rest : Bytes) (env : Env) :
    World × Outcome :=
  match enqueueWriteBufferLocked world.mgr.queue with
  | .wait => (world, .park (.writeEnqueue id rest))
  | .failed error => (world, .of error.result)
  | .ok queue => writeLoop (world.setQueue queue) id rest env.activity

/-! ## The direct stream -/

def enableDirect (world : World) : World := { world with mgr.slot.fastDirectStream := true }

def uploadEnableDirectStream (world : World) (id : CString) : World × Outcome :=
  let slot := world.mgr.slot
  let queue := world.mgr.queue
  if ¬slot.occupied ∨ ¬slot.started ∨ slot.uploadId ≠ id then (world, .of .notFound)
  else if world.mgr.chunks.chunkTransport ∨ slot.received ≠ 0 ∨ queue.buffered ≠ 0 ∨
      queue.writeQueued ≠ 0 ∨ queue.writerActive then (world, .of .busy)
  else (enableDirect world, .of .ok)

/-- The slot with a direct write in flight. -/
def startDirectWrite (world : World) (env : Env) : World :=
  { world with
    mgr.chunks.activeChunkWrites := world.mgr.chunks.activeChunkWrites + 1
    mgr.slot.lastActivity := env.activity }

/-- The first locked stretch of `upload_write_direct`. -/
def uploadWriteDirect (world : World) (id : CString) (data : Bytes) (env : Env) :
    World × Outcome :=
  let slot := world.mgr.slot
  if ¬slot.occupied ∨ ¬slot.started ∨ slot.uploadId ≠ id then (world, .of .notFound)
  else if ¬slot.fastDirectStream then (world, .of .busy)
  else if sub64 slot.expectedSize slot.received < data.length then (world, .of .sizeMismatch)
  else if world.mgr.chunks.activeChunkWrites ≠ 0 then (world, .of .busy)
  else (startDirectWrite world env, .park (.directWriting data 0 none))

/-- The slot once the direct write is over. -/
def endDirectWrite (world : World) (env : Env) : World :=
  { world with
    mgr.slot.writeElapsedNs :=
      world.mgr.slot.writeElapsedNs + elapsedNanoseconds env.startNs env.endNs
    mgr.chunks.activeChunkWrites := world.mgr.chunks.activeChunkWrites - 1 }

/-- The second locked stretch of `upload_write_direct`. -/
def directWritten (world : World) (data : Bytes) (error : Option Errno) (env : Env) :
    World × Outcome :=
  let world := endDirectWrite world env
  match error with
  | some error => ({ world with mgr.queue.writerError := some error }, .of error.result)
  | none =>
      ({ world with
          mgr.slot.received := world.mgr.slot.received + data.length
          mgr.slot.lastActivity := env.activity }, .of .ok)

/-! ## The chunks -/

/-- The geometry checks of `upload_chunk_begin`. -/
def chunkRangeRefused (expectedSize total offset length : ℕ) : Bool :=
  total ≠ expectedSize ∨ total ≤ offset ∨ total - offset < length ∨
    offset % UPLOAD_CHUNK_BYTES ≠ 0 ∨ (length ≠ UPLOAD_CHUNK_BYTES ∧ offset + length ≠ total)

/-- The tables with a fresh buffer for chunk `index`. -/
def Chunks.accept (chunks : Chunks) (index address : ℕ) (transport : Bool) : Chunks :=
  { chunks with
    chunkBuffers := Function.update chunks.chunkBuffers index (some ⟨address, []⟩)
    activeChunkBuffers := chunks.activeChunkBuffers + 1
    chunkStates := Function.update chunks.chunkStates index .receiving
    chunkProgress := Function.update chunks.chunkProgress index 0
    chunkTransport := transport }

/-- The slot with chunk `index` begun; the first chunk starts the transfer. -/
def acceptChunk (world : World) (index address : ℕ) (env : Env) : World :=
  let slot := world.mgr.slot
  let chunks := world.mgr.chunks
  { world with
    mgr.chunks := chunks.accept index address (chunks.chunkTransport || !slot.started)
    mgr.slot := { slot with
      started := true
      transferStartNs := if slot.started then slot.transferStartNs else env.startNs
      writeElapsedNs := if slot.started then slot.writeElapsedNs else 0
      lastActivity := env.activity } }

def uploadChunkBegin (world : World) (id client authorization : CString)
    (total offset length : ℕ) (env : Env) : World × Outcome :=
  let slot := world.mgr.slot
  let chunks := world.mgr.chunks
  let index := offset / UPLOAD_CHUNK_BYTES
  if ¬slot.occupied ∨ slot.uploadId ≠ id then (world, .of .notFound)
  else if ¬bindingMatches slot client authorization then (world, .of .forbidden)
  else if chunks.finalizingChunks then (world, .of .busy)
  else if slot.started ∧ ¬chunks.chunkTransport then (world, .of .busy)
  else if chunkRangeRefused slot.expectedSize total offset length then (world, .of .sizeMismatch)
  else if chunks.chunkCount ≤ index ∨ chunkLengthFor slot.expectedSize index ≠ length then
    (world, .of .sizeMismatch)
  else if ¬chunks.chunkArrays then (world, .of .invalid)
  else if chunks.chunkStates index ≠ .absent then (world, .of .busy)
  else if UPLOAD_CHUNK_BUFFER_SLOTS ≤ chunks.activeChunkBuffers then (world, .of .backpressure)
  else match env.malloc with
  | none => (world, .of .ioError)
  | some address => (acceptChunk world index address env, .of .ok)

/-- The check that chunk `index` is being received. -/
def Chunks.receives (chunks : Chunks) (index : ℕ) : Bool :=
  index < chunks.chunkCount ∧ chunks.chunkArrays ∧ (chunks.chunkBuffers index).isSome ∧
    chunks.chunkStates index = .receiving

/-- The tables with `data` in the buffer of chunk `index`, at its progress. -/
def Chunks.store (chunks : Chunks) (index relative : ℕ) (data : Bytes) : Chunks :=
  { chunks with
    chunkBuffers := Function.update chunks.chunkBuffers index
      ((chunks.chunkBuffers index).map fun buffer =>
        { buffer with bytes := Buffer.splice buffer.bytes relative data })
    chunkProgress := Function.update chunks.chunkProgress index
      (chunks.chunkProgress index + data.length) }

def storeChunk (world : World) (index relative : ℕ) (data : Bytes) (env : Env) : World :=
  { world with
    mgr.chunks := world.mgr.chunks.store index relative data
    mgr.slot.received := world.mgr.slot.received + data.length
    mgr.slot.lastActivity := env.activity }

def uploadChunkWrite (world : World) (id : CString) (offset : ℕ) (data : Bytes) (env : Env) :
    World × Outcome :=
  let slot := world.mgr.slot
  let chunks := world.mgr.chunks
  let index := offset / UPLOAD_CHUNK_BYTES
  let relative := offset - index * UPLOAD_CHUNK_BYTES
  let chunkLength := chunkLengthFor slot.expectedSize index
  if ¬slot.occupied ∨ ¬slot.started ∨ slot.uploadId ≠ id then (world, .of .notFound)
  else if slot.expectedSize ≤ offset ∨ slot.expectedSize - offset < data.length then
    (world, .of .sizeMismatch)
  else if ¬chunks.receives index then (world, .of .busy)
  else if relative ≠ chunks.chunkProgress index ∨ chunkLength < relative ∨
      chunkLength - relative < data.length then (world, .of .sizeMismatch)
  else (storeChunk world index relative data env, .of .ok)

/-- The tables with the buffer of chunk `index` freed. -/
def Chunks.drop (chunks : Chunks) (index : ℕ) : Chunks :=
  { chunks with
    chunkBuffers := Function.update chunks.chunkBuffers index none
    activeChunkBuffers := chunks.activeChunkBuffers - 1
    chunkProgress := Function.update chunks.chunkProgress index 0
    chunkStates := Function.update chunks.chunkStates index .absent }

/-- The discarding of chunk `index` that `upload_chunk_finish` and `upload_chunk_abort`
share: its bytes are taken off `received`, its buffer is freed. -/
def dropChunk (world : World) (index : ℕ) : World :=
  let progress := world.mgr.chunks.chunkProgress index
  { world with
    mgr.slot.received :=
      if progress ≤ world.mgr.slot.received then world.mgr.slot.received - progress else 0
    mgr.chunks := world.mgr.chunks.drop index }

/-- The tables with chunk `index` complete. -/
def Chunks.makeReady (chunks : Chunks) (index : ℕ) : Chunks :=
  { chunks with
    chunkStates := Function.update chunks.chunkStates index .ready
    chunksCompleted := chunks.chunksCompleted + 1 }

def readyChunk (world : World) (index : ℕ) (env : Env) : World :=
  { world with
    mgr.chunks := world.mgr.chunks.makeReady index
    mgr.slot.lastActivity := env.activity }

def uploadChunkFinish (world : World) (id : CString) (offset length : ℕ) (env : Env) :
    World × Outcome :=
  let slot := world.mgr.slot
  let chunks := world.mgr.chunks
  let index := offset / UPLOAD_CHUNK_BYTES
  if ¬slot.occupied ∨ ¬slot.started ∨ slot.uploadId ≠ id then (world, .of .notFound)
  else if slot.expectedSize ≤ offset ∨ offset % UPLOAD_CHUNK_BYTES ≠ 0 then
    (world, .of .sizeMismatch)
  else if ¬chunks.receives index then (world, .of .busy)
  else if chunkLengthFor slot.expectedSize index ≠ length ∨
      chunks.chunkProgress index ≠ length then (dropChunk world index, .of .sizeMismatch)
  else (readyChunk world index env, .of .ok)

/-- The discarding of chunk `index` by `upload_chunk_abort`. -/
def abortChunk (world : World) (index : ℕ) (env : Env) : World :=
  { dropChunk world index with mgr.slot.lastActivity := env.activity }

def uploadChunkAbort (world : World) (id : CString) (offset : ℕ) (env : Env) :
    World × Outcome :=
  let slot := world.mgr.slot
  let chunks := world.mgr.chunks
  let index := offset / UPLOAD_CHUNK_BYTES
  if slot.occupied ∧ slot.started ∧ slot.uploadId = id ∧ offset < slot.expectedSize ∧
      offset % UPLOAD_CHUNK_BYTES = 0 ∧ index < chunks.chunkCount ∧ chunks.chunkArrays ∧
      chunks.chunkStates index = .receiving then
    (abortChunk world index env, .of .ok)
  else (world, .of .ok)

end LocalSend.Upload
