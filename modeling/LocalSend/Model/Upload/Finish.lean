import LocalSend.Model.Upload.Calls

/-! # Finishing, cancelling and the entry of a call

The two finish calls, `upload_cancel`, `upload_abort` and `upload_snapshot`, and how every
call gets from its arguments through `reap_locked` to its own code.
-/

namespace LocalSend.Upload

open SafePath Sha256

/-! ## `upload_finish_with_metrics` -/

/-- The failing end of `upload_finish_with_metrics`. -/
def finishFailed (world : World) (result : UploadResult) (digest : Option CString) (env : Env) :
    World × Outcome :=
  closeSlot world (.finishFailed { Reply.of result with digest }) env.clearIo

def finishPublish (world : World) (id digest : CString) (transferElapsedNs : ℕ) (env : Env) :
    World × Outcome :=
  match publishSlot world id digest transferElapsedNs env with
  | (world, .error result) => finishFailed world result (some digest) env
  | (world, .ok metrics) =>
      closeSlot world
        (.finished { Reply.of .ok with digest := some digest, metrics := some metrics }) env.clearIo

def World.setSha256 (world : World) (context : Context) : World :=
  { world with mgr.slot.sha256 := context }

/-- Behind the drained queue: close the streaming digest and publish. -/
def finishQueued (world : World) (id : CString) (env : Env) : World × Outcome :=
  let (raw, context) := sha256Final world.mgr.slot.sha256
  finishPublish (world.setSha256 context) id (sha256Hex raw)
    (elapsedNanoseconds world.mgr.slot.transferStartNs env.endNs) env

/-- The wait of `wait_for_write_queue_locked`, entered or woken up in. -/
def awaitDrain (world : World) (id : CString) (env : Env) : World × Outcome :=
  if world.mgr.queue.draining then (world, .park (.finishDrain id))
  else match world.mgr.queue.writerError with
  | some error => finishFailed world error.result none env
  | none => finishQueued world id env

/-- The wait of `enqueue_write_buffer_locked`, entered or woken up in. -/
def awaitFinishEnqueue (world : World) (id : CString) (env : Env) : World × Outcome :=
  match enqueueWriteBufferLocked world.mgr.queue with
  | .wait => (world, .park (.finishEnqueue id))
  | .failed error => finishFailed world error.result none env
  | .ok queue => awaitDrain (world.setQueue queue) id env

def uploadFinishWithMetrics (world : World) (id : CString) (env : Env) : World × Outcome :=
  let slot := world.mgr.slot
  if ¬slot.occupied ∨ ¬slot.started ∨ slot.uploadId ≠ id then finishFailed world .notFound none env
  else if slot.received ≠ slot.expectedSize then finishFailed world .sizeMismatch none env
  else match world.mgr.queue.writerError with
  | some error => finishFailed world error.result none env
  | none =>
      if slot.fastDirectStream then
        (world.setFinalizing true,
          .park (.finishHash id slot.partPath
            (elapsedNanoseconds slot.transferStartNs env.endNs)))
      else awaitFinishEnqueue world id env

/-- `upload_finish_with_metrics` with the mutex back after its hash pass. -/
def finishHashed (world : World) (id : CString) (transferElapsedNs : ℕ)
    (hash : Except Errno CString) (env : Env) : World × Outcome :=
  let slot := world.mgr.slot
  if ¬slot.occupied ∨ slot.uploadId ≠ id ∨ ¬world.mgr.chunks.finalizingChunks then
    finishFailed world .notFound hash.toOption env
  else match hash with
  | .error _ => finishFailed world .ioError none env
  | .ok digest => finishPublish world id digest transferElapsedNs env

/-! ## `upload_finish_chunks_with_metrics` -/

/-- The failing end of `upload_finish_chunks_with_metrics` for the call that owns the
finalization. -/
def chunksFailed (world : World) (id : CString) (result : UploadResult) (digest : Option CString)
    (env : Env) : World × Outcome :=
  let reply := { Reply.of result with digest }
  if world.mgr.slot.occupied ∧ world.mgr.slot.uploadId = id then
    closeSlot world (.chunksFailed reply) env.clearIo
  else (world, .done reply)

/-- The wait for the sequential writer, entered or woken up in. -/
def awaitChunks (world : World) (id : CString) (env : Env) : World × Outcome :=
  match world.mgr.queue.writerError with
  | some error => chunksFailed world id error.result none env
  | none =>
      if world.mgr.chunks.nextChunkToWrite ≠ world.mgr.chunks.chunkCount then
        (world, .park (.chunksDrain id))
      else (world, .park (.chunksHash id world.mgr.slot.partPath))

def uploadFinishChunksWithMetrics (world : World) (id client authorization : CString)
    (env : Env) : World × Outcome :=
  let slot := world.mgr.slot
  let chunks := world.mgr.chunks
  if ¬slot.occupied ∨ slot.uploadId ≠ id then (world, .of .notFound)
  else if ¬bindingMatches slot client authorization then (world, .of .forbidden)
  else if chunks.finalizingChunks then (world, .of .busy)
  else if ¬slot.started then (world, .of .sizeMismatch)
  else if chunks.chunksCompleted ≠ chunks.chunkCount ∨ slot.received ≠ slot.expectedSize then
    (world, .of .sizeMismatch)
  else awaitChunks (world.setFinalizing true) id env

/-- The end of the stretch behind the hash pass: the marker is reset whatever came out. -/
def chunksUnpublished (world : World) (id : CString) (result : UploadResult)
    (digest : Option CString) (env : Env) : World × Outcome :=
  chunksFailed (world.setFinalizing false) id result digest env

/-- `upload_finish_chunks_with_metrics` with the mutex back after its hash pass. -/
def chunksHashed (world : World) (id : CString) (hash : Except Errno CString) (env : Env) :
    World × Outcome :=
  let slot := world.mgr.slot
  if ¬slot.occupied ∨ slot.uploadId ≠ id ∨ ¬world.mgr.chunks.finalizingChunks then
    chunksUnpublished world id .notFound hash.toOption env
  else match hash with
  | .error _ => chunksUnpublished world id .ioError none env
  | .ok digest =>
      match publishSlot world id digest
        (elapsedNanoseconds slot.transferStartNs env.endNs) env with
      | (world, .error result) => chunksUnpublished world id result (some digest) env
      | (world, .ok metrics) =>
          closeSlot world
            (.finished { Reply.of .ok with digest := some digest, metrics := some metrics })
            env.clearIo

/-! ## `upload_cancel`, `upload_abort` and `upload_snapshot` -/

def uploadCancel (world : World) (id client authorization : CString) (env : Env) :
    World × Outcome :=
  let slot := world.mgr.slot
  if ¬slot.occupied ∨ slot.uploadId ≠ id then (world, .of .notFound)
  else if ¬bindingMatches slot client authorization then (world, .of .forbidden)
  else if world.mgr.chunks.finalizingChunks then (world, .of .busy)
  else closeSlot world .cancel env.clearIo

def uploadAbort (world : World) (id : CString) (env : Env) : World × Outcome :=
  let slot := world.mgr.slot
  if ¬world.mgr.chunks.finalizingChunks ∧ slot.occupied ∧ slot.started ∧ slot.uploadId = id then
    closeSlot world .abort env.clearIo
  else (world, .of .ok)

def uploadSnapshot (world : World) : World × Outcome :=
  let slot := world.mgr.slot
  let settings := world.mgr.settings
  let snapshot : Snapshot :=
    ⟨slot.occupied, slot.started, if slot.occupied then slot.finalName else [], slot.received,
      slot.expectedSize, settings.hasLastMetrics, settings.lastCompletedSize,
      settings.lastMetrics⟩
  (world, .done { Reply.of .ok with snapshot := some snapshot })

/-! ## From the arguments to the call's own code -/

/-- The result a call returns on its arguments alone, before it takes the mutex. -/
def Call.refused (world : World) : Call → Option UploadResult
  | .setDestination destination =>
      let effective := effectiveDestination world destination
      if peek effective ≠ 47 ∨ CONFIG_DESTINATION_CAPACITY ≤ effective.length then some .invalid
      else none
  | .prepare client authorization json =>
      if UPLOAD_CLIENT_BYTES ≤ client.length ∨ UPLOAD_AUTH_BYTES ≤ authorization.length ∨
          UPLOAD_METADATA_BYTES < json.length then some .invalid
      else match parseMetadata json with
      | none => some .invalid
      | some metadata =>
          if world.mgr.settings.maxFileBytes < metadata.size then some .tooLarge else none
  | .writeDirect _ data => if data = [] then some .ok else none
  | .chunkBegin _ _ _ _ _ length => if length = 0 then some .invalid else none
  | .chunkWrite _ _ data => if data = [] then some .ok else none
  | .chunkFinish _ _ length => if length = 0 then some .invalid else none
  | _ => none

/-- The code of a call behind its `reap_locked`. -/
def afterReap (world : World) (call : Call) (env : Env) : World × Outcome :=
  match call with
  | .setDestination destination =>
      uploadManagerSetDestination world (effectiveDestination world destination) env
  | .prepare client authorization json =>
      match parseMetadata json with
      | none => (world, .of .invalid)
      | some metadata => uploadPrepare world client authorization metadata env
  | .begin id client authorization length => uploadBegin world id client authorization length env
  | .write id data => uploadWrite world id data env
  | .enableDirectStream id => uploadEnableDirectStream world id
  | .writeDirect id data => uploadWriteDirect world id data env
  | .chunkBegin id client authorization total offset length =>
      uploadChunkBegin world id client authorization total offset length env
  | .chunkWrite id offset data => uploadChunkWrite world id offset data env
  | .chunkFinish id offset length => uploadChunkFinish world id offset length env
  | .chunkAbort id offset _ => uploadChunkAbort world id offset env
  | .finish id => uploadFinishWithMetrics world id env
  | .finishChunks id client authorization =>
      uploadFinishChunksWithMetrics world id client authorization env
  | .cancel id client authorization => uploadCancel world id client authorization env
  | .abort id => uploadAbort world id env
  | .snapshot => uploadSnapshot world
  | .reapAt _ => (world, .of .ok)

/-- `reap_locked`, and the call's own code behind it. -/
def reapLocked (world : World) (call : Call) (now : ℕ) (env : Env) : World × Outcome :=
  if leaseExpired world.mgr now then
    let target := world.mgr.slot.uploadId
    let world := clearStart world
    if world.mgr.queue.writerActive then (world, .park (.reaping call target))
    else afterReap (clearRest world .lease target env.reapIo).1 call env
  else afterReap world call env

/-- The wait of `upload_cancel` and `upload_abort` for a direct write, entered or woken up
in; `upload_abort` does not look at the lease. -/
def awaitWrites (world : World) (call : Call) (env : Env) : World × Outcome :=
  if world.mgr.chunks.activeChunkWrites ≠ 0 then (world, .park (.waitingWrites call))
  else match call with
  | .abort _ => afterReap world call env
  | _ => reapLocked world call env.now env

/-- The first stretch of a call. -/
def enterCall (world : World) (call : Call) (env : Env) : World × Outcome :=
  match call.refused world with
  | some result => (world, .of result)
  | none =>
      match call with
      | .enableDirectStream _ => afterReap world call env
      | .chunkAbort _ _ _ => afterReap world call env
      | .cancel _ _ _ => awaitWrites world call env
      | .abort _ => awaitWrites world call env
      | .reapAt now => reapLocked world call now env
      | _ => reapLocked world call env.now env

/-- The stretch of a call that sleeps or is back from work without the mutex; `none` while
that work is not done. A call woken up too early goes back to sleep. -/
def resume (world : World) (pc : Pc) (env : Env) : Option (World × Outcome) :=
  match pc with
  | .reaping call target =>
      if world.mgr.queue.writerActive then some (world, .park pc)
      else some (afterReap (clearRest world .lease target env.reapIo).1 call env)
  | .superseding client authorization metadata target =>
      if world.mgr.queue.writerActive then some (world, .park pc)
      else some (prepareSlot (clearRest world .superseded target env.reapIo).1 client
        authorization metadata env)
  | .clearing closing target => some (awaitClosing world closing target env.clearIo)
  | .waitingWrites call => some (awaitWrites world call env)
  | .writeFull id rest => some (writeLoop world id rest env.activity)
  | .writeEnqueue id rest => some (awaitWriteEnqueue world id rest env)
  | .finishEnqueue id => some (awaitFinishEnqueue world id env)
  | .finishDrain id => some (awaitDrain world id env)
  | .finishHash _ _ _ => none
  | .finishHashed id transferElapsedNs hash =>
      some (finishHashed world id transferElapsedNs hash env)
  | .chunksDrain id => some (awaitChunks world id env)
  | .chunksHash _ _ => none
  | .chunksHashed id hash => some (chunksHashed world id hash env)
  | .directWriting data done error =>
      if error.isSome ∨ done = data.length then some (directWritten world data error env) else none

end LocalSend.Upload
