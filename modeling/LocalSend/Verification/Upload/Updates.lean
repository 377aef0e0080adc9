import LocalSend.Verification.Upload.Prepare
import Mathlib.Logic.Relation

/-! # What a stretch can do

Every stretch of every call is a sequence of a few updates of the manager, and parks at a
point about which something is known. Every step of the system is such a stretch or a step
of the writer, of a direct write or of a hash pass. Invariants are proved against these.
-/

namespace LocalSend.Upload

open Transition

/-- Started by `upload_cancel`, `upload_abort` or a lease expiry. -/
def Origin.owned : Origin → Bool
  | .lease => true
  | .cancelled => true
  | .aborted => true
  | _ => false

/-- The code a stretch runs, and its surroundings: that of a call from its start, with the
time it compares the lease with, that of a call behind its `reap_locked`, or what is behind
the point a call was parked at. -/
inductive Code where
  | entry (call : Call) (now : ℕ) (env : Env)
  | body (call : Call) (env : Env)
  | behind (pc : Pc) (env : Env)

/-- The call whose own code this is. -/
def Code.call : Code → Option Call
  | .entry call _ _ => some call
  | .body call _ => some call
  | .behind _ _ => none

def Code.env : Code → Env
  | .entry _ _ env => env
  | .body _ env => env
  | .behind _ env => env

/-- What the code may set. -/
def Code.setup : Code → Setup
  | .entry call _ _ => call.setup
  | .body call _ => call.setup
  | .behind (.superseding _ _ _ _) _ => .slot
  | .behind _ _ => .nothing

theorem Code.setup_eq {code : Code} {call : Call} (h : code.call = some call) :
    code.setup = call.setup := by
  cases code with
  | entry | body =>
      cases h
      rfl
  | behind => cases h

/-- The metadata of the upload a call may put into the slot. -/
def Call.metadata : Call → Option Metadata
  | .prepare _ _ json => parseMetadata json
  | _ => none

/-- The same for the code. -/
def Code.metadata : Code → Option Metadata
  | .entry call _ _ => call.metadata
  | .body call _ => call.metadata
  | .behind (.superseding _ _ metadata _) _ => some metadata
  | _ => none

/-- The authorization a call prepares an upload for. -/
def Call.authorization : Call → Option CString
  | .prepare _ authorization _ => some authorization
  | _ => none

/-- The same for the code. -/
def Code.authorization : Code → Option CString
  | .entry call _ _ => call.authorization
  | .body call _ => call.authorization
  | .behind (.superseding _ authorization _ _) _ => some authorization
  | _ => none

/-- The calls that receive or finish a queued stream. -/
def Call.streams : Call → Bool
  | .write _ _ => true
  | .finish _ => true
  | _ => false

/-- The points at which these sleep or hash. -/
def Pc.streams : Pc → Bool
  | .writeFull _ _ => true
  | .writeEnqueue _ _ => true
  | .finishEnqueue _ => true
  | .finishDrain _ => true
  | .finishHash _ _ _ => true
  | .finishHashed _ _ _ => true
  | _ => false

/-- The same for the code. -/
def Code.streams : Code → Bool
  | .entry call _ _ => call.streams
  | .body call _ => call.streams
  | .behind pc _ => pc.streams

theorem Code.setup_of_streams {code : Code} (h : code.streams = true) :
    code.setup = .nothing := by
  cases code with
  | entry call | body call => cases call <;> first | rfl | cases h
  | behind pc => cases pc <;> first | rfl | cases h

/-- The time a call that starts compares the lease with. -/
def Call.clock (env : Env) : Call → ℕ
  | .reapAt now => now
  | _ => env.now

/-- One update of the manager under the mutex, with the code that makes it and what that has
checked before. -/
inductive Update (code : Code) (world : World) : World → Prop
  | discard : Update code world (clearStart world)
  | reap {call : Call} {now : ℕ} {env : Env} (io : ClearIo) (hcode : code = .entry call now env)
      (hlease : leaseExpired world.mgr now = true)
      (hidle : world.mgr.queue.writerActive = false) :
      Update code world (clearRest world .lease world.mgr.slot.uploadId io).1
  | clear (origin : Origin) (io : ClearIo) (hlease : origin ≠ .lease)
      (hidle : world.mgr.queue.writerActive = false)
      (howned : origin.owned = true → world.mgr.slot.occupied = true) :
      Update code world (clearRest world origin world.mgr.slot.uploadId io).1
  | destination {destination : CString} (env : Env)
      (hcode : code.call = some (.setDestination destination))
      (hfree : world.mgr.slot.occupied = false) :
      Update code world (changeDestination world (effectiveDestination world destination) env)
  | names (authorization : CString) {metadata : Metadata} (hcode : code.setup = .slot)
      (hmetadata : code.metadata = some metadata) (hfree : world.mgr.slot.occupied = false)
      (hauthorization : code.authorization = some authorization) :
      Update code world (prepareNames world authorization metadata code.env).1
  | open_ (client authorization : CString) {metadata : Metadata} (hcode : code.setup = .slot)
      (hmetadata : code.metadata = some metadata) (hfree : world.mgr.slot.occupied = false)
      (hid : randomId code.env.random = some world.mgr.slot.uploadId)
      (hpaths : world.mgr.slot.Located world.mgr.settings.destination metadata)
      (hauthorization : code.authorization = some authorization)
      (hsettings : world.mgr.settings.Admits authorization) :
      Update code world (prepareOpen world client authorization metadata code.env).1
  | begin (env : Env) (hoccupied : world.mgr.slot.occupied = true)
      (hidle : world.mgr.slot.started = false) : Update code world (beginStream world env)
  | copy (id : CString) {rest : Bytes} (activity : ℕ) (hrest : rest ≠ [])
      (hspace : world.mgr.queue.writeQueued ≠ UPLOAD_WRITE_QUEUE_DEPTH)
      (herror : world.mgr.queue.writerError = none) (hcode : code.streams = true) :
      Update code world
        (copyToBuffer world id (rest.take (world.mgr.queue.roundCount rest)) activity)
  | enqueue {queue : Queue} (hqueue : enqueueWriteBufferLocked world.mgr.queue = .ok queue) :
      Update code world (world.setQueue queue)
  | enable : Update code world (enableDirect world)
  | startDirect {id : CString} {data : Bytes} (env : Env)
      (hcode : code.call = some (.writeDirect id data))
      (hoccupied : world.mgr.slot.occupied = true) (hid : world.mgr.slot.uploadId = id)
      (hactive : world.mgr.chunks.activeChunkWrites = 0) :
      Update code world (startDirectWrite world env)
  | endDirect {data : Bytes} {done : ℕ} {error : Option Errno} {env : Env}
      (hcode : code = .behind (.directWriting data done error) env) :
      Update code world (directWritten world data error env).1
  | accept {id client authorization : CString} {total offset length : ℕ} (address : ℕ)
      (env : Env)
      (hcode : code.call = some (.chunkBegin id client authorization total offset length))
      (hoccupied : world.mgr.slot.occupied = true) (hid : world.mgr.slot.uploadId = id)
      (hbinding : bindingMatches world.mgr.slot client authorization = true)
      (hindex : offset / UPLOAD_CHUNK_BYTES < world.mgr.chunks.chunkCount)
      (habsent : world.mgr.chunks.chunkStates (offset / UPLOAD_CHUNK_BYTES) = .absent)
      (hspace : world.mgr.chunks.activeChunkBuffers < UPLOAD_CHUNK_BUFFER_SLOTS) :
      Update code world (acceptChunk world (offset / UPLOAD_CHUNK_BYTES) address env)
  | store (index relative : ℕ) (data : Bytes) (env : Env)
      (hreceives : world.mgr.chunks.receives index = true)
      (hrelative : relative = world.mgr.chunks.chunkProgress index)
      (hfits : relative + data.length ≤ chunkLengthFor world.mgr.slot.expectedSize index) :
      Update code world (storeChunk world index relative data env)
  | drop {id : CString} {offset length : ℕ}
      (hcode : code.call = some (.chunkFinish id offset length))
      (hoccupied : world.mgr.slot.occupied = true) (hid : world.mgr.slot.uploadId = id)
      (hreceiving : world.mgr.chunks.chunkStates (offset / UPLOAD_CHUNK_BYTES) = .receiving) :
      Update code world (dropChunk world (offset / UPLOAD_CHUNK_BYTES))
  | abort {id : CString} {offset length : ℕ} (env : Env)
      (hcode : code.call = some (.chunkAbort id offset length))
      (hoccupied : world.mgr.slot.occupied = true) (hid : world.mgr.slot.uploadId = id)
      (hreceiving : world.mgr.chunks.chunkStates (offset / UPLOAD_CHUNK_BYTES) = .receiving) :
      Update code world (abortChunk world (offset / UPLOAD_CHUNK_BYTES) env)
  | ready {id : CString} {offset length : ℕ} (env : Env)
      (hcode : code.call = some (.chunkFinish id offset length))
      (hoccupied : world.mgr.slot.occupied = true) (hid : world.mgr.slot.uploadId = id)
      (hreceives : world.mgr.chunks.receives (offset / UPLOAD_CHUNK_BYTES) = true)
      (hcomplete : world.mgr.chunks.chunkProgress (offset / UPLOAD_CHUNK_BYTES) =
        chunkLengthFor world.mgr.slot.expectedSize (offset / UPLOAD_CHUNK_BYTES)) :
      Update code world (readyChunk world (offset / UPLOAD_CHUNK_BYTES) env)
  | finalize : Update code world (world.setFinalizing true)
  | unfinalize {id : CString} {hash : Except Errno CString} {env : Env}
      (hcode : code = .behind (.chunksHashed id hash) env) :
      Update code world (world.setFinalizing false)
  | digest (context : Sha256.Context) : Update code world (world.setSha256 context)
  | publish (id digest : CString) (transferElapsedNs : ℕ) (env : Env)
      (hcode : code.setup = .nothing) :
      Update code world (publishSlot world id digest transferElapsedNs env).1

/-- The updates of a stretch, one after the other. -/
abbrev Updates (code : Code) : World → World → Prop := Relation.ReflTransGen (Update code)

/-- The chunk finish has set its marker, or had slept behind it. -/
def Code.Finalizing (code : Code) (id : CString) (world : World) : Prop :=
  (∃ env, code = .behind (.chunksDrain id) env) ∨ world.mgr.chunks.finalizingChunks = true

/-- What is known where a stretch parks. -/
inductive Parks (code : Code) (world : World) : Pc → Prop
  | reaping {call : Call} {now : ℕ} {env : Env} (hcode : code = .entry call now env)
      (hlease : leaseExpired world.mgr now = true) :
      Parks code world (.reaping call world.mgr.slot.uploadId)
  | superseding (client authorization : CString) {metadata : Metadata}
      (hcode : code.setup = .slot) (hmetadata : code.metadata = some metadata)
      (hoccupied : world.mgr.slot.occupied = true) :
      Parks code world (.superseding client authorization metadata world.mgr.slot.uploadId)
  | clearing (closing : Closing)
      (howned : closing.origin.owned = true → world.mgr.slot.occupied = true) :
      Parks code world (.clearing closing world.mgr.slot.uploadId)
  | waitingWrites {call : Call} {now : ℕ} {env : Env} (hcode : code = .entry call now env) :
      Parks code world (.waitingWrites call)
  | writeFull (id : CString) {rest : Bytes} (hrest : rest ≠ []) (hcode : code.streams = true) :
      Parks code world (.writeFull id rest)
  | writeEnqueue (id : CString) (rest : Bytes)
      (hwait : enqueueWriteBufferLocked world.mgr.queue = .wait) (hcode : code.streams = true) :
      Parks code world (.writeEnqueue id rest)
  | finishEnqueue (id : CString) (hwait : enqueueWriteBufferLocked world.mgr.queue = .wait)
      (hcode : code.streams = true) : Parks code world (.finishEnqueue id)
  | finishDrain (id : CString) (hdraining : world.mgr.queue.draining = true)
      (hcode : code.streams = true) :
      Parks code world (.finishDrain id)
  | finishHash {id : CString} (transferElapsedNs : ℕ)
      (hoccupied : world.mgr.slot.occupied = true) (hid : world.mgr.slot.uploadId = id)
      (hfinalizing : world.mgr.chunks.finalizingChunks = true) (hcode : code.streams = true) :
      Parks code world (.finishHash id world.mgr.slot.partPath transferElapsedNs)
  | chunksDrain {id : CString} (hfinalizing : code.Finalizing id world) :
      Parks code world (.chunksDrain id)
  | chunksHash {id : CString} (hfinalizing : code.Finalizing id world)
      (hdrained : world.mgr.chunks.nextChunkToWrite = world.mgr.chunks.chunkCount) :
      Parks code world (.chunksHash id world.mgr.slot.partPath)
  | directWriting {id : CString} {data : Bytes}
      (hcode : code.call = some (.writeDirect id data))
      (hactive : world.mgr.chunks.activeChunkWrites = 1) :
      Parks code world (.directWriting data 0 none)

/-- A stretch of this code from `world`. -/
structure Stretch (code : Code) (world : World) (stretch : World × Outcome) : Prop where
  updates : Updates code world stretch.1
  parks : ∀ pc, stretch.2 = .park pc → Parks code stretch.1 pc

variable {code : Code} {call : Call} {world middle next : World}

theorem Stretch.trans {stretch : World × Outcome} (hfirst : Updates code world middle)
    (hsecond : Stretch code middle stretch) : Stretch code world stretch :=
  ⟨hfirst.trans hsecond.updates, hsecond.parks⟩

theorem Stretch.cons {stretch : World × Outcome} (hfirst : Update code world middle)
    (hsecond : Stretch code middle stretch) : Stretch code world stretch :=
  .trans (.single hfirst) hsecond

theorem stretch_same (code : Code) (world : World) (reply : Reply) :
    Stretch code world (world, .done reply) := by
  refine ⟨.refl, ?_⟩
  intro pc hpark
  cases hpark

theorem stretch_done (h : Update code world next) (reply : Reply) :
    Stretch code world (next, .done reply) :=
  .cons h (stretch_same code next reply)

theorem stretch_park {pc : Pc} (h : Parks code world pc) :
    Stretch code world (world, .park pc) := by
  refine ⟨.refl, ?_⟩
  rintro _ ⟨⟩
  exact h

/-! ## Clearing and preparing -/

theorem Closing.origin_ne_lease (closing : Closing) : closing.origin ≠ .lease := by
  cases closing <;> simp [origin]

theorem closeSlot_stretch {closing : Closing} {io : ClearIo}
    (howned : closing.origin.owned = true → world.mgr.slot.occupied = true) :
    Stretch code world (closeSlot world closing io) := by
  unfold closeSlot
  refine .cons .discard ?_
  unfold awaitClosing
  split
  · exact stretch_park (.clearing closing howned)
  · rename_i hidle
    have hidle : (clearStart world).mgr.queue.writerActive = false := by simpa using hidle
    exact stretch_done (.clear closing.origin io closing.origin_ne_lease hidle howned) _

theorem finishFailed_stretch (code : Code) (world : World) (result : UploadResult)
    (digest : Option CString) (env : Env) :
    Stretch code world (finishFailed world result digest env) :=
  closeSlot_stretch fun h => by cases h

theorem prepareFailed_stretch (code : Code) (world : World) (result : UploadResult) (env : Env) :
    Stretch code world (prepareFailed world result env) := by
  unfold prepareFailed
  split
  · exact closeSlot_stretch fun h => by cases h
  · exact stretch_same ..

theorem prepareNames_occupied (world : World) (authorization : CString) (metadata : Metadata)
    (env : Env) :
    (prepareNames world authorization metadata env).1.mgr.slot.occupied =
      world.mgr.slot.occupied := by
  obtain ⟨_, _, _, _, hnames⟩ := prepareNames_eq world authorization metadata env
  rw [hnames]
  rfl

theorem prepareSlot_stretch {authorization : CString} {metadata : Metadata}
    (hcode : code.setup = .slot) (hmetadata : code.metadata = some metadata)
    (hauthorization : code.authorization = some authorization) (world : World)
    (client : CString) :
    Stretch code world (prepareSlot world client authorization metadata code.env) := by
  unfold prepareSlot
  split
  · exact prepareFailed_stretch ..
  · rename_i hfree
    have hfree : world.mgr.slot.occupied = false := by simpa using hfree
    have hnames : Update code world (prepareNames world authorization metadata code.env).1 :=
      .names authorization hcode hmetadata hfree hauthorization
    have hfree' := (prepareNames_occupied world authorization metadata code.env).trans hfree
    split
    · rename_i middle heq
      rw [heq] at hnames hfree'
      obtain ⟨hid, hpaths, hsettings⟩ := prepareNames_ok heq
      have hopen : Update code middle
          (prepareOpen middle client authorization metadata code.env).1 :=
        .open_ client authorization hcode hmetadata hfree' hid hpaths hauthorization hsettings
      split
      · rename_i next heq'
        rw [heq'] at hopen
        exact .cons hnames (stretch_done hopen _)
      · rename_i next result _ heq'
        rw [heq'] at hopen
        exact .cons hnames (.cons hopen (prepareFailed_stretch ..))
    · rename_i next result _ heq
      rw [heq] at hnames
      exact .cons hnames (prepareFailed_stretch ..)

theorem uploadPrepare_stretch {authorization : CString} {metadata : Metadata}
    (hcode : code.setup = .slot) (hmetadata : code.metadata = some metadata)
    (hauthorization : code.authorization = some authorization) (world : World)
    (client : CString) :
    Stretch code world (uploadPrepare world client authorization metadata code.env) := by
  unfold uploadPrepare
  dsimp only
  split
  · rename_i hidle
    refine .cons .discard ?_
    split
    · exact stretch_park (.superseding client authorization hcode hmetadata hidle.1)
    · rename_i hwriter
      exact .cons (.clear .superseded code.env.reapIo nofun (by simpa using hwriter) nofun)
        (prepareSlot_stretch hcode hmetadata hauthorization ..)
  · exact prepareSlot_stretch hcode hmetadata hauthorization ..

theorem uploadManagerSetDestination_stretch {destination : CString}
    (hcode : code.call = some (.setDestination destination)) (world : World) (env : Env) :
    Stretch code world
      (uploadManagerSetDestination world (effectiveDestination world destination) env) := by
  unfold uploadManagerSetDestination
  split
  · exact stretch_same ..
  rename_i hfree
  split
  · exact stretch_same ..
  split
  · exact stretch_done (.destination env hcode (by simpa using hfree)) _
  · exact stretch_same ..

/-! ## The queued stream -/

theorem uploadBegin_stretch (code : Code) (world : World) (id client authorization : CString)
    (length : ℕ) (env : Env) :
    Stretch code world (uploadBegin world id client authorization length env) := by
  unfold uploadBegin
  dsimp only
  split
  · exact stretch_same ..
  rename_i hfound
  split
  · exact stretch_same ..
  split
  · exact stretch_same ..
  rename_i hidle
  split
  · exact stretch_same ..
  · simp only [not_or, Bool.not_eq_true] at hfound hidle
    exact stretch_done (.begin env (by simpa using hfound.1) hidle.1) _

/-- The copy of a round of `upload_write` that has found space and no error. -/
theorem update_copy {rest : Bytes} (hcode : code.streams = true) (id : CString) (activity : ℕ)
    (hrest : ¬rest = [])
    (hfull : ¬(world.mgr.queue.writeQueued = UPLOAD_WRITE_QUEUE_DEPTH ∧
      world.mgr.queue.writerError = none))
    (herror : world.mgr.queue.writerError = none) :
    Update code world
      (copyToBuffer world id (rest.take (world.mgr.queue.roundCount rest)) activity) :=
  .copy id activity hrest (fun h => hfull ⟨h, herror⟩) herror hcode

theorem writeLoop_stretch (hcode : code.streams = true) (world : World) (id : CString)
    (rest : Bytes) (activity : ℕ) : Stretch code world (writeLoop world id rest activity) := by
  fun_induction writeLoop world id rest activity with
  | case1 => exact stretch_same ..
  | case2 world rest hrest hfull => exact stretch_park (.writeFull id hrest hcode)
  | case3 => exact stretch_same ..
  | case4 =>
      rename_i world rest hrest hfull herror count copied hbuffered hwait
      have hcopy := update_copy hcode id activity hrest hfull herror
      exact .cons hcopy (stretch_park (.writeEnqueue id _ hwait hcode))
  | case5 =>
      rename_i world rest hrest hfull herror count copied hbuffered error hfailed
      exact stretch_done (update_copy hcode id activity hrest hfull herror) _
  | case6 =>
      rename_i world rest hrest hfull herror count copied hbuffered queue hqueue ih
      have hcopy := update_copy hcode id activity hrest hfull herror
      exact .cons hcopy (.cons (.enqueue hqueue) ih)
  | case7 =>
      rename_i world rest hrest hfull herror count copied hbuffered ih
      exact .cons (update_copy hcode id activity hrest hfull herror) ih

theorem uploadWrite_stretch (hcode : code.streams = true) (world : World) (id : CString)
    (data : Bytes) (env : Env) : Stretch code world (uploadWrite world id data env) := by
  unfold uploadWrite
  dsimp only
  split
  · exact stretch_same ..
  split
  · exact stretch_same ..
  · exact writeLoop_stretch hcode ..

theorem awaitWriteEnqueue_stretch (hcode : code.streams = true) (world : World) (id : CString)
    (rest : Bytes) (env : Env) : Stretch code world (awaitWriteEnqueue world id rest env) := by
  unfold awaitWriteEnqueue
  split
  · rename_i hwait
    exact stretch_park (.writeEnqueue id rest hwait hcode)
  · exact stretch_same ..
  · rename_i queue hqueue
    exact .cons (.enqueue hqueue) (writeLoop_stretch hcode ..)

/-! ## The direct stream -/

theorem uploadEnableDirectStream_stretch (code : Code) (world : World) (id : CString) :
    Stretch code world (uploadEnableDirectStream world id) := by
  unfold uploadEnableDirectStream
  dsimp only
  split
  · exact stretch_same ..
  split
  · exact stretch_same ..
  · exact stretch_done .enable _

theorem uploadWriteDirect_stretch {id : CString} {data : Bytes}
    (hcode : code.call = some (.writeDirect id data)) (world : World) (env : Env) :
    Stretch code world (uploadWriteDirect world id data env) := by
  unfold uploadWriteDirect
  dsimp only
  split
  · exact stretch_same ..
  rename_i hfound
  split
  · exact stretch_same ..
  split
  · exact stretch_same ..
  split
  · exact stretch_same ..
  · rename_i hactive
    simp only [not_or, ne_eq, not_not] at hfound hactive
    have hnext : (startDirectWrite world env).mgr.chunks.activeChunkWrites = 1 := by
      simp [startDirectWrite, hactive]
    exact .cons (.startDirect env hcode hfound.1 hfound.2.2 hactive)
      (stretch_park (.directWriting hcode hnext))

theorem directWritten_stretch {data : Bytes} {done : ℕ} {error : Option Errno}
    {env : Env} (hcode : code = .behind (.directWriting data done error) env) (world : World) :
    Stretch code world (directWritten world data error env) := by
  have hend : Update code world (directWritten world data error env).1 := .endDirect hcode
  cases error with
  | none => exact stretch_done hend _
  | some error => exact stretch_done hend _

/-! ## The chunks -/

theorem uploadChunkBegin_stretch {id client authorization : CString} {total offset length : ℕ}
    (hcode : code.call = some (.chunkBegin id client authorization total offset length))
    (world : World) (env : Env) :
    Stretch code world
      (uploadChunkBegin world id client authorization total offset length env) := by
  unfold uploadChunkBegin
  dsimp only
  split
  · exact stretch_same ..
  rename_i hfound
  split
  · exact stretch_same ..
  rename_i hbinding
  split
  · exact stretch_same ..
  split
  · exact stretch_same ..
  split
  · exact stretch_same ..
  split
  · exact stretch_same ..
  rename_i hindex
  split
  · exact stretch_same ..
  split
  · exact stretch_same ..
  rename_i habsent
  split
  · exact stretch_same ..
  rename_i hspace
  split
  · exact stretch_same ..
  · rename_i address _
    simp only [not_or, not_le, ne_eq, not_not] at hfound hbinding hindex habsent hspace
    exact stretch_done (.accept address env hcode hfound.1 hfound.2 hbinding hindex.1 habsent
      hspace) _

theorem uploadChunkWrite_stretch (code : Code) (world : World) (id : CString) (offset : ℕ)
    (data : Bytes) (env : Env) :
    Stretch code world (uploadChunkWrite world id offset data env) := by
  unfold uploadChunkWrite
  dsimp only
  split
  · exact stretch_same ..
  split
  · exact stretch_same ..
  split
  · exact stretch_same ..
  rename_i hreceives
  split
  · exact stretch_same ..
  · rename_i hfits
    simp only [not_or, ne_eq, not_not, Nat.not_lt] at hfits
    have hend := Nat.add_le_of_le_sub' hfits.2.1 hfits.2.2
    exact stretch_done (.store _ _ data env (by simpa using hreceives) hfits.1 hend) _

theorem Chunks.receiving_of_receives {chunks : Chunks} {index : ℕ}
    (h : chunks.receives index = true) : chunks.chunkStates index = .receiving := by
  simp only [Chunks.receives, decide_eq_true_eq] at h
  exact h.2.2.2

theorem uploadChunkFinish_stretch {id : CString} {offset length : ℕ}
    (hcode : code.call = some (.chunkFinish id offset length)) (world : World) (env : Env) :
    Stretch code world (uploadChunkFinish world id offset length env) := by
  unfold uploadChunkFinish
  dsimp only
  split
  · exact stretch_same ..
  rename_i hfound
  split
  · exact stretch_same ..
  split
  · exact stretch_same ..
  rename_i hreceives
  simp only [not_or, ne_eq, not_not] at hfound
  have hreceives : world.mgr.chunks.receives (offset / UPLOAD_CHUNK_BYTES) = true := by
    simpa using hreceives
  split
  · exact stretch_done
      (.drop hcode hfound.1 hfound.2.2 (Chunks.receiving_of_receives hreceives)) _
  · rename_i hlength
    simp only [not_or, ne_eq, not_not] at hlength
    exact stretch_done (.ready env hcode hfound.1 hfound.2.2 hreceives
      (hlength.2.trans hlength.1.symm)) _

theorem uploadChunkAbort_stretch {id : CString} {offset length : ℕ}
    (hcode : code.call = some (.chunkAbort id offset length)) (world : World) (env : Env) :
    Stretch code world (uploadChunkAbort world id offset env) := by
  unfold uploadChunkAbort
  dsimp only
  split
  · rename_i hreceiving
    exact stretch_done (.abort env hcode hreceiving.1 hreceiving.2.2.1
      hreceiving.2.2.2.2.2.2.2) _
  · exact stretch_same ..

/-! ## Finishing -/

theorem finishPublish_stretch (hcode : code.setup = .nothing) (world : World)
    (id digest : CString) (transferElapsedNs : ℕ) (env : Env) :
    Stretch code world (finishPublish world id digest transferElapsedNs env) := by
  have hpublish : Update code world (publishSlot world id digest transferElapsedNs env).1 :=
    .publish id digest transferElapsedNs env hcode
  unfold finishPublish
  split
  · rename_i next result heq
    rw [heq] at hpublish
    exact .cons hpublish (finishFailed_stretch ..)
  · rename_i next metrics heq
    rw [heq] at hpublish
    exact .cons hpublish (closeSlot_stretch fun h => by cases h)

theorem awaitDrain_stretch (hcode : code.streams = true) (world : World) (id : CString)
    (env : Env) : Stretch code world (awaitDrain world id env) := by
  unfold awaitDrain
  split
  · rename_i hdraining
    exact stretch_park (.finishDrain id hdraining hcode)
  split
  · exact finishFailed_stretch ..
  · exact .cons (.digest _) (finishPublish_stretch (Code.setup_of_streams hcode) ..)

theorem awaitFinishEnqueue_stretch (hcode : code.streams = true) (world : World)
    (id : CString) (env : Env) :
    Stretch code world (awaitFinishEnqueue world id env) := by
  unfold awaitFinishEnqueue
  split
  · rename_i hwait
    exact stretch_park (.finishEnqueue id hwait hcode)
  · exact finishFailed_stretch ..
  · rename_i queue hqueue
    exact .cons (.enqueue hqueue) (awaitDrain_stretch hcode ..)

theorem uploadFinishWithMetrics_stretch (hcode : code.streams = true) (world : World) (id : CString)
    (env : Env) : Stretch code world (uploadFinishWithMetrics world id env) := by
  unfold uploadFinishWithMetrics
  dsimp only
  split
  · exact finishFailed_stretch ..
  rename_i hfound
  split
  · exact finishFailed_stretch ..
  split
  · exact finishFailed_stretch ..
  split
  · simp only [not_or, ne_eq, not_not] at hfound
    exact .cons .finalize (stretch_park (.finishHash _ hfound.1 hfound.2.2 rfl hcode))
  · exact awaitFinishEnqueue_stretch hcode ..

theorem finishHashed_stretch (hcode : code.setup = .nothing) (world : World) (id : CString)
    (transferElapsedNs : ℕ) (hash : Except Errno CString) (env : Env) :
    Stretch code world (finishHashed world id transferElapsedNs hash env) := by
  unfold finishHashed
  dsimp only
  split
  · exact finishFailed_stretch ..
  split
  · exact finishFailed_stretch ..
  · exact finishPublish_stretch hcode ..

theorem chunksFailed_stretch (code : Code) (world : World) (id : CString)
    (result : UploadResult) (digest : Option CString) (env : Env) :
    Stretch code world (chunksFailed world id result digest env) := by
  unfold chunksFailed
  dsimp only
  split
  · exact closeSlot_stretch fun h => by cases h
  · exact stretch_same ..

theorem awaitChunks_stretch {id : CString} (hfinalizing : code.Finalizing id world) (env : Env) :
    Stretch code world (awaitChunks world id env) := by
  unfold awaitChunks
  split
  · exact chunksFailed_stretch ..
  split
  · exact stretch_park (.chunksDrain hfinalizing)
  · rename_i hdrained
    exact stretch_park (.chunksHash hfinalizing (by simpa using hdrained))

theorem uploadFinishChunksWithMetrics_stretch (code : Code) (world : World)
    (id client authorization : CString) (env : Env) :
    Stretch code world (uploadFinishChunksWithMetrics world id client authorization env) := by
  unfold uploadFinishChunksWithMetrics
  dsimp only
  repeat (split; · exact stretch_same ..)
  exact .cons .finalize (awaitChunks_stretch (.inr rfl) env)

theorem chunksUnpublished_stretch {id : CString} {hash : Except Errno CString} {env : Env}
    (hcode : code = .behind (.chunksHashed id hash) env) (world : World) (result : UploadResult)
    (digest : Option CString) :
    Stretch code world (chunksUnpublished world id result digest env) :=
  .cons (.unfinalize hcode) (chunksFailed_stretch ..)

theorem chunksHashed_stretch {id : CString} {hash : Except Errno CString} {env : Env}
    (hcode : code = .behind (.chunksHashed id hash) env) (world : World) :
    Stretch code world (chunksHashed world id hash env) := by
  unfold chunksHashed
  dsimp only
  split
  · exact chunksUnpublished_stretch hcode ..
  split
  · exact chunksUnpublished_stretch hcode ..
  · rename_i digest
    have hpublish : Update code world (publishSlot world id digest
        (elapsedNanoseconds world.mgr.slot.transferStartNs env.endNs) env).1 :=
      .publish id digest _ env (hcode ▸ rfl)
    split
    · rename_i next result heq
      rw [heq] at hpublish
      exact .cons hpublish (chunksUnpublished_stretch hcode ..)
    · rename_i next metrics heq
      rw [heq] at hpublish
      exact .cons hpublish (closeSlot_stretch fun h => by cases h)

/-! ## Cancelling -/

theorem uploadCancel_stretch (code : Code) (world : World) (id client authorization : CString)
    (env : Env) : Stretch code world (uploadCancel world id client authorization env) := by
  unfold uploadCancel
  dsimp only
  split
  · exact stretch_same ..
  rename_i hfound
  split
  · exact stretch_same ..
  split
  · exact stretch_same ..
  · refine closeSlot_stretch fun _ => ?_
    simpa using (not_or.mp hfound).1

theorem uploadAbort_stretch (code : Code) (world : World) (id : CString) (env : Env) :
    Stretch code world (uploadAbort world id env) := by
  unfold uploadAbort
  dsimp only
  split
  · rename_i hfound
    exact closeSlot_stretch fun _ => hfound.2.1
  · exact stretch_same ..

/-! ## Every stretch -/

/-- The code of a call behind its `reap_locked`. -/
theorem afterReap_stretch (world : World) (call : Call) (env : Env) :
    Stretch (.body call env) world (afterReap world call env) := by
  cases call with
  | setDestination destination =>
      have hcode : (Code.body (.setDestination destination) env).call =
          some (.setDestination destination) := rfl
      exact uploadManagerSetDestination_stretch hcode ..
  | prepare client authorization json =>
      simp only [afterReap]
      split
      · exact stretch_same ..
      · rename_i metadata hparsed
        have hmetadata : (Code.body (.prepare client authorization json) env).metadata =
            some metadata := hparsed
        exact uploadPrepare_stretch rfl hmetadata rfl ..
  | begin id client authorization length => exact uploadBegin_stretch ..
  | write id data => exact uploadWrite_stretch rfl ..
  | enableDirectStream id => exact uploadEnableDirectStream_stretch ..
  | writeDirect id data => exact uploadWriteDirect_stretch rfl ..
  | chunkBegin id client authorization total offset length =>
      exact uploadChunkBegin_stretch rfl ..
  | chunkWrite id offset data => exact uploadChunkWrite_stretch ..
  | chunkFinish id offset length => exact uploadChunkFinish_stretch rfl ..
  | chunkAbort id offset length =>
      have hcode : (Code.body (.chunkAbort id offset length) env).call =
          some (.chunkAbort id offset length) := rfl
      exact uploadChunkAbort_stretch hcode ..
  | finish id => exact uploadFinishWithMetrics_stretch rfl ..
  | finishChunks id client authorization => exact uploadFinishChunksWithMetrics_stretch ..
  | cancel id client authorization => exact uploadCancel_stretch ..
  | abort id => exact uploadAbort_stretch ..
  | snapshot => exact stretch_same ..
  | reapAt now => exact stretch_same ..

/-- What a call does behind its `reap_locked`, it does as part of the whole call. -/
theorem Update.entry {env : Env} (now : ℕ) (h : Update (.body call env) world next) :
    Update (.entry call now env) world next := by
  cases h with
  | reap io hcode => cases hcode
  | endDirect hcode => cases hcode
  | unfinalize hcode => cases hcode
  | discard => exact .discard
  | clear origin io hlease hidle howned => exact .clear origin io hlease hidle howned
  | destination env hcode hfree => exact .destination env hcode hfree
  | names authorization hcode hmetadata hfree hauthorization =>
      exact .names authorization hcode hmetadata hfree hauthorization
  | open_ client authorization hcode hmetadata hfree hid hpaths hauthorization hsettings =>
      exact .open_ client authorization hcode hmetadata hfree hid hpaths hauthorization hsettings
  | begin env hoccupied hidle => exact .begin env hoccupied hidle
  | copy id activity hrest hspace herror hcode =>
      exact .copy id activity hrest hspace herror hcode
  | enqueue hqueue => exact .enqueue hqueue
  | enable => exact .enable
  | startDirect env hcode hoccupied hid hactive =>
      exact .startDirect env hcode hoccupied hid hactive
  | accept address env hcode hoccupied hid hbinding hindex habsent hspace =>
      exact .accept address env hcode hoccupied hid hbinding hindex habsent hspace
  | store index relative data env hreceives hrelative hfits =>
      exact .store index relative data env hreceives hrelative hfits
  | drop hcode hoccupied hid hreceiving => exact .drop hcode hoccupied hid hreceiving
  | abort env hcode hoccupied hid hreceiving => exact .abort env hcode hoccupied hid hreceiving
  | ready env hcode hoccupied hid hreceives hcomplete =>
      exact .ready env hcode hoccupied hid hreceives hcomplete
  | finalize => exact .finalize
  | digest context => exact .digest context
  | publish id digest elapsed env hcode => exact .publish id digest elapsed env hcode

/-- The body of a call is not the end of a wait. -/
theorem Code.Finalizing.entry {id : CString} {env : Env} (now : ℕ)
    (h : (Code.body call env).Finalizing id world) :
    (Code.entry call now env).Finalizing id world := by
  obtain ⟨_, hcode⟩ | hfinalizing := h
  · cases hcode
  · exact .inr hfinalizing

theorem Parks.entry {env : Env} {pc : Pc} (now : ℕ) (h : Parks (.body call env) world pc) :
    Parks (.entry call now env) world pc := by
  cases h with
  | reaping hcode => cases hcode
  | waitingWrites hcode => cases hcode
  | superseding client authorization hcode hmetadata hoccupied =>
      exact .superseding client authorization hcode hmetadata hoccupied
  | clearing closing howned => exact .clearing closing howned
  | writeFull id hrest hcode => exact .writeFull id hrest hcode
  | writeEnqueue id rest hwait hcode => exact .writeEnqueue id rest hwait hcode
  | finishEnqueue id hwait hcode => exact .finishEnqueue id hwait hcode
  | finishDrain id hdraining hcode => exact .finishDrain id hdraining hcode
  | finishHash elapsed hoccupied hid hfinalizing hcode =>
      exact .finishHash elapsed hoccupied hid hfinalizing hcode
  | chunksDrain hfinalizing => exact .chunksDrain (hfinalizing.entry now)
  | chunksHash hfinalizing hdrained => exact .chunksHash (hfinalizing.entry now) hdrained
  | directWriting hcode hactive => exact .directWriting hcode hactive

theorem Stretch.entry {env : Env} {stretch : World × Outcome} (now : ℕ)
    (h : Stretch (.body call env) world stretch) : Stretch (.entry call now env) world stretch :=
  ⟨h.updates.lift id fun _ _ => Update.entry now, fun pc hpark => (h.parks pc hpark).entry now⟩

theorem leaseExpired_occupied {manager : Manager} {now : ℕ}
    (h : leaseExpired manager now = true) : manager.slot.occupied = true := by
  simp only [leaseExpired, decide_eq_true_eq] at h
  exact h.2.2.1

theorem reapLocked_stretch (world : World) (call : Call) (now : ℕ) (env : Env) :
    Stretch (.entry call now env) world (reapLocked world call now env) := by
  unfold reapLocked
  split
  · rename_i hlease
    refine .cons .discard ?_
    have hlease' : leaseExpired (clearStart world).mgr now = true := hlease
    dsimp only
    split
    · exact stretch_park (.reaping rfl hlease')
    · rename_i hwriter
      exact .cons (.reap env.reapIo rfl hlease' (by simpa using hwriter))
        ((afterReap_stretch ..).entry now)
  · exact (afterReap_stretch ..).entry now

theorem awaitWrites_stretch (world : World) (call : Call) (env : Env) :
    Stretch (.entry call env.now env) world (awaitWrites world call env) := by
  unfold awaitWrites
  split
  · exact stretch_park (.waitingWrites rfl)
  split
  · exact (afterReap_stretch ..).entry env.now
  · exact reapLocked_stretch world call env.now env

theorem enterCall_stretch (world : World) (call : Call) (env : Env) :
    Stretch (.entry call (call.clock env) env) world (enterCall world call env) := by
  unfold enterCall
  split
  · exact stretch_same ..
  split
  · exact (afterReap_stretch ..).entry _
  · exact (afterReap_stretch ..).entry _
  · exact awaitWrites_stretch world _ env
  · exact awaitWrites_stretch world _ env
  · exact reapLocked_stretch world _ _ env
  · rename_i hreapAt
    have hclock : call.clock env = env.now := by
      cases call with
      | reapAt now => exact absurd rfl (hreapAt now)
      | _ => rfl
    rw [hclock]
    exact reapLocked_stretch world call env.now env

/-- The code a parked call goes on with. -/
def Pc.resumes (env : Env) : Pc → Code
  | .reaping call _ => .body call env
  | .waitingWrites call => .entry call env.now env
  | pc => .behind pc env

/-- The `clear_slot` a call is parked in. -/
def Pc.clears : Pc → Option (Origin × CString)
  | .reaping _ target => some (.lease, target)
  | .superseding _ _ _ target => some (.superseded, target)
  | .clearing closing target => some (closing.origin, target)
  | _ => none

/-- What a call does that wakes up: it sleeps again, or clears the slot as it is by now, or
goes on. -/
inductive Resumed (world : World) (pc : Pc) (env : Env) : World × Outcome → Prop
  | asleep {origin : Origin} {target : CString} (hpc : pc.clears = some (origin, target)) :
      Resumed world pc env (world, .park pc)
  | clears {origin : Origin} {target : CString} {stretch : World × Outcome} (io : ClearIo)
      (hpc : pc.clears = some (origin, target))
      (hidle : world.mgr.queue.writerActive = false)
      (hrest : Stretch (pc.resumes env) (clearRest world origin target io).1 stretch) :
      Resumed world pc env stretch
  | continues {stretch : World × Outcome} (hrest : Stretch (pc.resumes env) world stretch) :
      Resumed world pc env stretch

theorem resume_resumed {pc : Pc} {env : Env} {stretch : World × Outcome}
    (hresume : resume world pc env = some stretch) : Resumed world pc env stretch := by
  cases pc with
  | reaping inner target =>
      simp only [resume] at hresume
      split at hresume
      · cases hresume
        exact .asleep rfl
      · rename_i hidle
        cases hresume
        exact .clears env.reapIo rfl (by simpa using hidle) (afterReap_stretch ..)
  | superseding client authorization metadata target =>
      simp only [resume] at hresume
      split at hresume
      · cases hresume
        exact .asleep rfl
      · rename_i hidle
        cases hresume
        exact .clears env.reapIo rfl (by simpa using hidle) (prepareSlot_stretch rfl rfl rfl ..)
  | clearing closing target =>
      cases hresume
      unfold awaitClosing
      split
      · exact .asleep rfl
      · rename_i hidle
        exact .clears env.clearIo rfl (by simpa using hidle) (stretch_same ..)
  | waitingWrites inner =>
      cases hresume
      exact .continues (awaitWrites_stretch ..)
  | writeFull id rest =>
      cases hresume
      exact .continues (writeLoop_stretch rfl ..)
  | writeEnqueue id rest =>
      cases hresume
      exact .continues (awaitWriteEnqueue_stretch rfl ..)
  | finishEnqueue id =>
      cases hresume
      exact .continues (awaitFinishEnqueue_stretch rfl ..)
  | finishDrain id =>
      cases hresume
      exact .continues (awaitDrain_stretch rfl ..)
  | finishHash id partPath transferElapsedNs => cases hresume
  | finishHashed id transferElapsedNs hash =>
      cases hresume
      exact .continues (finishHashed_stretch rfl ..)
  | chunksDrain id =>
      cases hresume
      exact .continues (awaitChunks_stretch (.inl ⟨env, rfl⟩) env)
  | chunksHash id partPath => cases hresume
  | chunksHashed id hash =>
      cases hresume
      exact .continues (chunksHashed_stretch rfl ..)
  | directWriting data done error =>
      simp only [resume] at hresume
      split at hresume
      · cases hresume
        exact .continues (directWritten_stretch rfl ..)
      · cases hresume

/-! ## Every step -/

/-- The surroundings of a stretch. -/
def Action.env : Action → Option Env
  | .call _ _ env => some env
  | .resume _ env => some env
  | _ => none

/-- The thread that took a stretch, behind it. -/
def Outcome.thread (call : Call) : Outcome → Option Thread
  | .park pc => some ⟨call, pc⟩
  | .done _ => none

/-- The world behind a stretch. -/
def settled (call : Call) : World × Outcome → World
  | (world, .park _) => world
  | (world, .done reply) => world.note (.returned call reply)

theorem settle_eq (sys : Sys) (tid : ℕ) (call : Call) (stretch : World × Outcome) :
    sys.settle tid call stretch =
      { sys with
        world := settled call stretch
        threads := Function.update sys.threads tid (stretch.2.thread call) } := by
  obtain ⟨next, outcome⟩ := stretch
  cases outcome <;> rfl

/-- The steps of the system, with what has enabled them. -/
inductive Stepped (sys : Sys) : Action → Sys → Prop
  | call {tid : ℕ} {call : Call} {env : Env} (hfree : sys.threads tid = none) :
      Stepped sys (.call tid call env) (sys.settle tid call (enterCall sys.world call env))
  | resume {tid : ℕ} {env : Env} {thread : Thread} {stretch : World × Outcome}
      (hthread : sys.threads tid = some thread)
      (hresume : resume sys.world thread.pc env = some stretch) :
      Stepped sys (.resume tid env) (sys.settle tid thread.call stretch)
  | directIo {tid : ℕ} {result : IoResult} {call : Call} {data : Bytes} {done : ℕ} {fs : Fs}
      {count : ℕ} {error : Option Errno}
      (hthread : sys.threads tid = some ⟨call, .directWriting data done none⟩)
      (hio : writeOnce sys.world.fs sys.world.mgr.slot.fd (data.drop done) result =
        some (fs, count, error)) :
      Stepped sys (.directIo tid result)
        (({ sys with world := { sys.world with fs } } : Sys).setPc tid call
          (.directWriting data (done + count) error))
  | hashFinish {tid : ℕ} {outcome : Except Errno (List Bytes)} {call : Call}
      {id partPath : CString} {transferElapsedNs : ℕ} {hash : Except Errno CString}
      (hthread : sys.threads tid = some ⟨call, .finishHash id partPath transferElapsedNs⟩)
      (hhash : hashPartFile sys.world.fs partPath outcome = some hash) :
      Stepped sys (.hash tid outcome)
        (sys.setPc tid call (.finishHashed id transferElapsedNs hash))
  | hashChunks {tid : ℕ} {outcome : Except Errno (List Bytes)} {call : Call}
      {id partPath : CString} {hash : Except Errno CString}
      (hthread : sys.threads tid = some ⟨call, .chunksHash id partPath⟩)
      (hhash : hashPartFile sys.world.fs partPath outcome = some hash) :
      Stepped sys (.hash tid outcome) (sys.setPc tid call (.chunksHashed id hash))
  | pick {job : Job} (hwriter : sys.writer = .waiting) (hjob : pickJob sys.world.mgr = some job) :
      Stepped sys .pick
        { sys with
          world := { sys.world with mgr.queue.writerActive := true }
          writer := .writing job 0 none }
  | writerIo {result : IoResult} {job : Job} {done : ℕ} {bytes : Bytes} {fs : Fs} {count : ℕ}
      {error : Option Errno} (hwriter : sys.writer = .writing job done none)
      (hbytes : job.bytes sys.world.mgr = some bytes)
      (hio : writeOnce sys.world.fs sys.world.mgr.slot.fd (bytes.drop done) result =
        some (fs, count, error)) :
      Stepped sys (.writerIo result)
        { sys with
          world := if error.isSome then ({ sys.world with fs } : World).note .writeFailed
            else { sys.world with fs }
          writer := .writing job (done + count) error }
  | complete {elapsedNs : ℕ} {job : Job} {done : ℕ} {error : Option Errno}
      (hwriter : sys.writer = .writing job done error)
      (hdone : error.isSome ∨ done = job.size) :
      Stepped sys (.complete elapsedNs)
        { sys with world := completeJob sys.world job error elapsedNs, writer := .waiting }

theorem step_stepped {sys next : Sys} {action : Action} (h : step sys action = some next) :
    Stepped sys action next := by
  cases action with
  | call tid call env =>
      simp only [step] at h
      split at h
      · cases h
      · rename_i hfree
        cases h
        exact .call hfree
  | resume tid env =>
      simp only [step] at h
      split at h
      · cases h
      · rename_i thread hthread
        obtain ⟨stretch, hresume, rfl⟩ := Option.map_eq_some_iff.mp h
        exact .resume hthread hresume
  | directIo tid result =>
      simp only [step] at h
      split at h
      · rename_i hthread
        obtain ⟨⟨fs, count, error⟩, hio, rfl⟩ := Option.map_eq_some_iff.mp h
        exact .directIo hthread hio
      · cases h
  | hash tid outcome =>
      simp only [step] at h
      split at h
      · rename_i hthread
        obtain ⟨hash, hhash, rfl⟩ := Option.map_eq_some_iff.mp h
        exact .hashFinish hthread hhash
      · rename_i hthread
        obtain ⟨hash, hhash, rfl⟩ := Option.map_eq_some_iff.mp h
        exact .hashChunks hthread hhash
      · cases h
  | pick =>
      simp only [step] at h
      split at h
      · cases h
      · rename_i hwriter
        obtain ⟨job, hjob, rfl⟩ := Option.map_eq_some_iff.mp h
        exact .pick hwriter hjob
  | writerIo result =>
      simp only [step] at h
      split at h
      · rename_i hwriter
        obtain ⟨bytes, hbytes, h⟩ := Option.bind_eq_some_iff.mp h
        obtain ⟨⟨fs, count, error⟩, hio, rfl⟩ := Option.map_eq_some_iff.mp h
        exact .writerIo hwriter hbytes hio
      · cases h
  | complete elapsedNs =>
      simp only [step] at h
      split at h
      · rename_i hwriter
        split at h
        · rename_i hdone
          cases h
          exact .complete hwriter hdone
        · cases h
      · cases h

/-- Only the acting thread changes. -/
theorem threads_of_step {sys next : Sys} {action : Action} {tid : ℕ}
    (hstep : step sys action = some next) (htid : action.tid ≠ some tid) :
    next.threads tid = sys.threads tid := by
  have hother : ∀ acting, action.tid = some acting → tid ≠ acting := by
    rintro acting hacts rfl
    exact htid hacts
  cases step_stepped hstep with
  | call hfree =>
      rw [settle_eq]
      exact Function.update_of_ne (hother _ rfl) ..
  | resume hthread hresume =>
      rw [settle_eq]
      exact Function.update_of_ne (hother _ rfl) ..
  | directIo hthread hio => exact Function.update_of_ne (hother _ rfl) ..
  | hashFinish hthread hhash => exact Function.update_of_ne (hother _ rfl) ..
  | hashChunks hthread hhash => exact Function.update_of_ne (hother _ rfl) ..
  | pick hwriter hjob => rfl
  | writerIo hwriter hbytes hio => rfl
  | complete hwriter hdone => rfl

/-! ## Runs of a few threads -/

/-- No call of a thread from `bound` on is under way. -/
def Sys.Below (bound : ℕ) (sys : Sys) : Prop :=
  ∀ tid, bound ≤ tid → sys.threads tid = none

/-- The calls under way, with their threads. -/
def Sys.under (sys : Sys) (bound : ℕ) : List (ℕ × Thread) :=
  (List.range bound).filterMap fun tid => (sys.threads tid).map fun thread => (tid, thread)

theorem Sys.Below.mem_under {sys : Sys} {bound tid : ℕ} {thread : Thread} (h : sys.Below bound)
    (hthread : sys.threads tid = some thread) : (tid, thread) ∈ sys.under bound := by
  have htid : tid < bound := by
    by_contra hge
    simp [h tid (by omega)] at hthread
  exact List.mem_filterMap.mpr ⟨tid, List.mem_range.mpr htid, by rw [hthread, Option.map_some]⟩

/-- The check, and that the thread that acts is below `bound`. -/
def below (bound : ℕ) (check : Sys → Action → Bool) (sys : Sys) (action : Action) : Bool :=
  action.tid.all (· < bound) && check sys action

theorem Sys.Below.step {sys next : Sys} {action : Action} {bound : ℕ} (h : sys.Below bound)
    (hacts : action.tid.all (· < bound) = true) (hstep : step sys action = some next) :
    next.Below bound := by
  intro tid htid
  refine (threads_of_step hstep fun hacting => ?_).trans (h tid htid)
  rw [hacting, Option.all_some, decide_eq_true_eq] at hacts
  omega

/-- Nothing is under way behind an evaluated run of threads below `bound`. -/
theorem idle_of_exec {sys next : Sys} {actions : List Action} {bound : ℕ} (h : sys.Below bound)
    (hacts : ∀ action ∈ actions, action.tid.all (· < bound) = true)
    (hexec : exec step sys actions = some next) (hunder : next.under bound = []) (tid : ℕ) :
    next.threads tid = none := by
  have hrun : Run step (fun _ action => action.tid.all (· < bound) = true) sys actions next :=
    Run.of_exec (fun action hmem _ => hacts action hmem) hexec
  have hbelow : next.Below bound :=
    hrun.invariant (fun _ _ _ hbefore hacting hstep => hbefore.step hacting hstep) h
  cases hthread : next.threads tid with
  | none => rfl
  | some thread =>
      have hmem := hbelow.mem_under hthread
      rw [hunder] at hmem
      cases hmem

/-- A run of threads below `bound` found by evaluation, whose steps meet what is checked. -/
theorem run_of_exec_below {ok : Sys → Action → Prop} {check : Sys → Action → Bool} {bound : ℕ}
    {sys next : Sys} {actions : List Action}
    (hok : ∀ sys action, sys.Below bound → action.tid.all (· < bound) = true →
      check sys action = true → ok sys action)
    (h : sys.Below bound)
    (hexec : exec (checked (below bound check) step) sys actions = some next) :
    Run step ok sys actions next := by
  refine Run.of_exec_checked ?_ ?_ h hexec
  · intro before action after hbelow hcheck hstep
    exact hbelow.step (Bool.and_eq_true_iff.mp hcheck).1 hstep
  · intro before action hbelow hcheck
    obtain ⟨hacts, hcheck⟩ := Bool.and_eq_true_iff.mp hcheck
    exact hok before action hbelow hacts hcheck

end LocalSend.Upload
