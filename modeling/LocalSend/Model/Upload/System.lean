import LocalSend.Library.Transition
import LocalSend.Model.Upload.Finish

/-! # The manager with its writer thread and its callers

A step is one stretch of a caller or of the writer under the mutex, one `write` of a
`write_all`, or one hash pass. Any thread may take the next step, and a sleeping one may
wake up at any time.
-/

namespace LocalSend.Upload

open Sha256

/-- What the writer has picked: a buffer of the ring, or the buffer of a chunk. -/
inductive Job where
  | queue (index size : ℕ)
  | chunk (index address size : ℕ)
  deriving DecidableEq

/-- The writer waits for work, or is in `write_all` with `done` bytes written. -/
inductive WriterPc where
  | waiting
  | writing (job : Job) (done : ℕ) (error : Option Errno)
  deriving DecidableEq

/-- A call that has not returned. -/
structure Thread where
  call : Call
  pc : Pc

structure Sys where
  world : World
  writer : WriterPc
  threads : ℕ → Option Thread

/-! ## `write_all` -/

/-- What one `write` reports. -/
inductive IoResult where
  | wrote (count : ℕ)
  | nothing
  | failed (error : Errno)
  deriving DecidableEq

/-- One round of `write_all` on the bytes it has left: the file system, how many bytes it
took, and the error `write_all` ends with. -/
def writeOnce (fs : Fs) (fd : Option ℕ) (rest : Bytes) (result : IoResult) :
    Option (Fs × ℕ × Option Errno) :=
  match result, fd with
  | .wrote count, some file =>
      if 0 < count ∧ count ≤ rest.length then some (fs.append file (rest.take count), count, none)
      else none
  | .nothing, some _ => some (fs, 0, some .eio)
  | .failed error, some _ => some (fs, 0, if error = .eintr then none else some error)
  | .failed .ebadf, none => some (fs, 0, some .ebadf)
  | _, none => none

/-! ## `upload_writer_main` -/

def pickJob (manager : Manager) : Option Job :=
  let queue := manager.queue
  let chunks := manager.chunks
  if queue.writerShutdown ∨ queue.writerDiscard ∨ queue.writerError ≠ none then none
  else if queue.writeQueued ≠ 0 then
    some (.queue queue.writeHead (queue.writeSizes queue.writeHead))
  else if chunkReadyForWriterLocked chunks then
    (chunks.chunkBuffers chunks.nextChunkToWrite).map fun buffer =>
      .chunk chunks.nextChunkToWrite buffer.address
        (chunkLengthFor manager.slot.expectedSize chunks.nextChunkToWrite)
  else none

def Job.size : Job → ℕ
  | .queue _ size => size
  | .chunk _ _ size => size

/-- The memory a job reads; a chunk buffer that has been freed can not be read. -/
def Job.bytes (manager : Manager) : Job → Option Bytes
  | .queue index size => some ((manager.queue.writeBuffer index).take size)
  | .chunk index address size =>
      match manager.chunks.chunkBuffers index with
      | some buffer => if buffer.address = address then some (buffer.bytes.take size) else none
      | none => none

/-- The ring without its head entry. -/
def Queue.popped (queue : Queue) (index : ℕ) : Queue :=
  { queue with
    writeSizes := Function.update queue.writeSizes index 0
    writeHead := (queue.writeHead + 1) % UPLOAD_WRITE_QUEUE_DEPTH
    writeQueued := queue.writeQueued - 1 }

/-- The tables once chunk `index` is on disk, if the buffer is still the one written. -/
def Chunks.stored (chunks : Chunks) (index address : ℕ) : Chunks :=
  if chunks.chunkArrays ∧ index = chunks.nextChunkToWrite ∧
      (chunks.chunkBuffers index).map ChunkBuffer.address = some address then
    { chunks with
      chunkBuffers := Function.update chunks.chunkBuffers index none
      chunkStates := Function.update chunks.chunkStates index .stored
      nextChunkToWrite := chunks.nextChunkToWrite + 1
      activeChunkBuffers := chunks.activeChunkBuffers - 1 }
  else chunks

/-- The writer's locked stretch behind `write_all`. -/
def completeJob (world : World) (job : Job) (error : Option Errno) (elapsedNs : ℕ) : World :=
  let world := { world with mgr.slot.writeElapsedNs := world.mgr.slot.writeElapsedNs + elapsedNs }
  let world :=
    match job, error with
    | .chunk index address _, none =>
        { world with
          mgr.chunks := world.mgr.chunks.stored index address
          trace := .drained index :: world.trace }
    | .chunk _ _ _, some _ => world
    | .queue index _, _ => { world with mgr.queue := world.mgr.queue.popped index }
  { world with
    mgr.queue.writerActive := false
    mgr.queue.writerError :=
      if world.mgr.queue.writerError = none then error else world.mgr.queue.writerError }

/-! ## `hash_part_file` -/

/-- The digest `hash_part_file` computes from what its reads delivered. -/
def hashReads (reads : List Bytes) : CString :=
  sha256Hex (sha256Final (reads.foldl sha256Update sha256Init)).1

/-- A hash pass over a path: its reads deliver the bytes of the file, or a call fails. -/
def hashPartFile (fs : Fs) (path : CString) (outcome : Except Errno (List Bytes)) :
    Option (Except Errno CString) :=
  match outcome with
  | .error error => some (.error error)
  | .ok reads =>
      if fs.contents path = some reads.flatten then some (.ok (hashReads reads)) else none

/-! ## Steps -/

inductive Action where
  | call (tid : ℕ) (call : Call) (env : Env)
  | resume (tid : ℕ) (env : Env)
  | directIo (tid : ℕ) (result : IoResult)
  | hash (tid : ℕ) (outcome : Except Errno (List Bytes))
  | pick
  | writerIo (result : IoResult)
  | complete (elapsedNs : ℕ)

/-- The thread that acts. -/
def Action.tid : Action → Option ℕ
  | .call tid _ _ => some tid
  | .resume tid _ => some tid
  | .directIo tid _ => some tid
  | .hash tid _ => some tid
  | _ => none

def Sys.setPc (sys : Sys) (tid : ℕ) (call : Call) (pc : Pc) : Sys :=
  { sys with threads := Function.update sys.threads tid (some ⟨call, pc⟩) }

/-- The system after a stretch of a call. -/
def Sys.settle (sys : Sys) (tid : ℕ) (call : Call) : World × Outcome → Sys
  | (world, .park pc) => { sys with world }.setPc tid call pc
  | (world, .done reply) =>
      { sys with
        world := world.note (.returned call reply)
        threads := Function.update sys.threads tid none }

def step (sys : Sys) : Action → Option Sys
  | .call tid call env =>
      match sys.threads tid with
      | some _ => none
      | none => some (sys.settle tid call (enterCall sys.world call env))
  | .resume tid env =>
      match sys.threads tid with
      | none => none
      | some thread =>
          (resume sys.world thread.pc env).map fun stretch => sys.settle tid thread.call stretch
  | .directIo tid result =>
      match sys.threads tid with
      | some ⟨call, .directWriting data done none⟩ =>
          (writeOnce sys.world.fs sys.world.mgr.slot.fd (data.drop done) result).map
            fun (fs, count, error) =>
              { sys with world := { sys.world with fs } }.setPc tid call
                (.directWriting data (done + count) error)
      | _ => none
  | .hash tid outcome =>
      match sys.threads tid with
      | some ⟨call, .finishHash id partPath transferElapsedNs⟩ =>
          (hashPartFile sys.world.fs partPath outcome).map fun hash =>
            sys.setPc tid call (.finishHashed id transferElapsedNs hash)
      | some ⟨call, .chunksHash id partPath⟩ =>
          (hashPartFile sys.world.fs partPath outcome).map fun hash =>
            sys.setPc tid call (.chunksHashed id hash)
      | _ => none
  | .pick =>
      match sys.writer with
      | .writing _ _ _ => none
      | .waiting =>
          (pickJob sys.world.mgr).map fun job =>
            { sys with
              world := { sys.world with mgr.queue.writerActive := true }
              writer := .writing job 0 none }
  | .writerIo result =>
      match sys.writer with
      | .writing job done none =>
          (job.bytes sys.world.mgr).bind fun bytes =>
            (writeOnce sys.world.fs sys.world.mgr.slot.fd (bytes.drop done) result).map
              fun (fs, count, error) =>
                let world := { sys.world with fs }
                { sys with
                  world := if error.isSome then world.note .writeFailed else world
                  writer := .writing job (done + count) error }
      | _ => none
  | .complete elapsedNs =>
      match sys.writer with
      | .writing job done error =>
          if error.isSome ∨ done = job.size then
            some { sys with
              world := completeJob sys.world job error elapsedNs
              writer := .waiting }
          else none
      | .waiting => none

/-- The manager as created, no call in it. -/
def Sys.initial (host : Bool) (destination : CString) (maxFileBytes maxFiles leaseSeconds : ℕ)
    (override : Option CString) (fs : Fs) : Sys :=
  ⟨⟨host, override, uploadManagerCreate destination maxFileBytes maxFiles leaseSeconds, fs, []⟩,
    .waiting, fun _ => none⟩

end LocalSend.Upload
