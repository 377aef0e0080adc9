import LocalSend.Verification.Upload.Frame
import LocalSend.Verification.Upload.Updates

/-! # The window of staged chunks

The writer drains the chunks in order of their index, and a chunk keeps its buffer until it
is drained. A free buffer must be left for the chunk the writer waits for, or no buffer is
ever freed again. The code keeps none, so the callers must.
-/

namespace LocalSend.Upload

open Transition

/-- The begin of chunk `index` of the upload in the slot, with its exact range. -/
def Slot.beginCall (slot : Slot) (index : ℕ) : Call :=
  .chunkBegin slot.uploadId slot.client slot.authorization slot.expectedSize
    (index * UPLOAD_CHUNK_BYTES) (chunkLengthFor slot.expectedSize index)

/-- Chunk `index` is one of the upload's and no request has begun it. -/
def Chunks.Missing (chunks : Chunks) (index : ℕ) : Prop :=
  index < chunks.chunkCount ∧ chunks.chunkStates index = .absent

/-- The slot holds an upload that takes chunks. -/
def Manager.TakesChunks (manager : Manager) : Prop :=
  manager.slot.occupied = true ∧ manager.chunks.finalizingChunks = false ∧
    (manager.slot.started = true → manager.chunks.chunkTransport = true)

/-- The chunk the writer waits for is not refused for want of a buffer. -/
def AwaitedFits (world : World) : Prop :=
  world.mgr.queue.writerError = none →
    world.mgr.chunks.chunkStates world.mgr.chunks.nextChunkToWrite = .absent →
    ∀ env, (enterCall world (world.mgr.slot.beginCall world.mgr.chunks.nextChunkToWrite) env).2 ≠
      .of .backpressure

/-- No other chunk is begun with the last buffer while the chunk the writer waits for is
missing. -/
def LeavesRoom (sys : Sys) : Action → Prop
  | .call _ call env =>
      let manager := sys.world.mgr
      let chunks := manager.chunks
      leaseExpired manager env.now = false → manager.TakesChunks →
        ∀ index, call = manager.slot.beginCall index → chunks.Missing index →
          index ≠ chunks.nextChunkToWrite → chunks.Missing chunks.nextChunkToWrite →
          chunks.activeChunkBuffers + 1 < UPLOAD_CHUNK_BUFFER_SLOTS
  | _ => True

/-! ## The invariant -/

/-- There is a buffer for the chunk the writer waits for. -/
structure HasRoom (chunks : Chunks) : Prop where
  within : chunks.activeChunkBuffers ≤ UPLOAD_CHUNK_BUFFER_SLOTS
  awaited : chunks.Missing chunks.nextChunkToWrite →
    chunks.activeChunkBuffers < UPLOAD_CHUNK_BUFFER_SLOTS

theorem hasRoom_empty : HasRoom .empty :=
  ⟨by decide, fun _ => by decide⟩

/-- A buffer is free, whatever the writer waits for. -/
theorem HasRoom.of_lt {chunks : Chunks}
    (h : chunks.activeChunkBuffers < UPLOAD_CHUNK_BUFFER_SLOTS) : HasRoom chunks :=
  ⟨h.le, fun _ => h⟩

/-- The begin of a chunk is refused, or it is exact and gets a buffer. -/
inductive ChunkBegun (world : World) (call : Call) (env : Env) : World × Outcome → Prop
  | refused (result : UploadResult) : ChunkBegun world call env (world, .of result)
  | accepted {index : ℕ} (address : ℕ) (htakes : world.mgr.TakesChunks)
      (hcall : call = world.mgr.slot.beginCall index) (hmissing : world.mgr.chunks.Missing index)
      (hspace : world.mgr.chunks.activeChunkBuffers < UPLOAD_CHUNK_BUFFER_SLOTS) :
      ChunkBegun world call env (acceptChunk world index address env, .of .ok)

theorem uploadChunkBegin_spec (world : World) (id client authorization : CString)
    (total offset length : ℕ) (env : Env) :
    ChunkBegun world (.chunkBegin id client authorization total offset length) env
      (uploadChunkBegin world id client authorization total offset length env) := by
  unfold uploadChunkBegin
  dsimp only
  repeat (split; · exact .refused _)
  rename_i hfound hbinding hfinalizing htransport hrange hindex harrays habsent hspace _ address _
  simp only [not_or, ne_eq, not_not] at hfound habsent hindex
  simp only [bindingMatches, not_not, decide_eq_true_eq] at hbinding
  simp only [chunkRangeRefused, decide_eq_true_eq, not_or, ne_eq, not_not] at hrange
  have hoffset : offset / UPLOAD_CHUNK_BYTES * UPLOAD_CHUNK_BYTES = offset :=
    Nat.div_mul_cancel (Nat.dvd_of_mod_eq_zero hrange.2.2.2.1)
  refine .accepted address ⟨hfound.1, by simpa using hfinalizing, by simpa using htransport⟩ ?_
    ⟨Nat.not_le.mp hindex.1, habsent⟩ (Nat.not_le.mp hspace)
  rw [Slot.beginCall, hoffset, hfound.2, hbinding.1, hbinding.2, hindex.2, hrange.1]

/-- With room kept, the begin of the awaited chunk is not refused for want of a buffer. -/
theorem uploadChunkBegin_awaited {world : World} (hroom : HasRoom world.mgr.chunks)
    (habsent : world.mgr.chunks.chunkStates world.mgr.chunks.nextChunkToWrite = .absent)
    (id client authorization : CString) (total length : ℕ) (env : Env) :
    (uploadChunkBegin world id client authorization total
      (world.mgr.chunks.nextChunkToWrite * UPLOAD_CHUNK_BYTES) length env).2 ≠
        .of .backpressure := by
  unfold uploadChunkBegin
  have hdiv : world.mgr.chunks.nextChunkToWrite * UPLOAD_CHUNK_BYTES / UPLOAD_CHUNK_BYTES =
      world.mgr.chunks.nextChunkToWrite := Nat.mul_div_cancel _ (by decide)
  simp only [hdiv]
  repeat (split; · simp [Outcome.of, Reply.of])
  rename_i hindex _ _
  split
  · rename_i hfull
    have hlt := hroom.awaited ⟨by simpa using (not_or.mp hindex).1, habsent⟩
    exact absurd hfull (Nat.not_le.mpr hlt)
  · split <;> simp [Outcome.of, Reply.of]

/-! ## What a stretch does to the window -/

/-- The window is kept, or cleared. -/
theorem HasRoom.of_same {chunks chunks' : Chunks} (hroom : HasRoom chunks)
    (hcount : chunks'.chunkCount = chunks.chunkCount)
    (hnext : chunks'.nextChunkToWrite = chunks.nextChunkToWrite)
    (hstates : chunks'.chunkStates = chunks.chunkStates)
    (hactive : chunks'.activeChunkBuffers = chunks.activeChunkBuffers) : HasRoom chunks' := by
  refine ⟨hactive ▸ hroom.within, ?_⟩
  rintro ⟨hlt, habsent⟩
  rw [hnext] at hlt habsent
  rw [hactive]
  exact hroom.awaited ⟨hcount ▸ hlt, hstates ▸ habsent⟩

/-- Freeing a buffer leaves room. -/
theorem HasRoom.drop {chunks : Chunks} (hroom : HasRoom chunks) (index : ℕ) :
    HasRoom (chunks.drop index) := by
  have hwithin := hroom.within
  have hslots : 0 < UPLOAD_CHUNK_BUFFER_SLOTS := by decide
  refine .of_lt ?_
  simp only [Chunks.drop]
  omega

theorem HasRoom.makeReady {chunks : Chunks} (hroom : HasRoom chunks) (index : ℕ) :
    HasRoom (chunks.makeReady index) := by
  refine ⟨hroom.within, ?_⟩
  rintro ⟨hlt, habsent⟩
  refine hroom.awaited ⟨hlt, ?_⟩
  simp only [Chunks.makeReady, Function.update_apply] at habsent
  split at habsent
  · cases habsent
  · exact habsent

/-- The chunk accepted is the awaited one, or another buffer is left. -/
theorem HasRoom.accept {chunks : Chunks} {index address : ℕ} {transport : Bool}
    (hspace : chunks.activeChunkBuffers < UPLOAD_CHUNK_BUFFER_SLOTS)
    (hleaves : index ≠ chunks.nextChunkToWrite → chunks.Missing chunks.nextChunkToWrite →
      chunks.activeChunkBuffers + 1 < UPLOAD_CHUNK_BUFFER_SLOTS) :
    HasRoom (chunks.accept index address transport) := by
  refine ⟨hspace, ?_⟩
  rintro ⟨hlt, habsent⟩
  simp only [Chunks.accept, Function.update_apply] at hlt habsent ⊢
  split at habsent
  · cases habsent
  · rename_i hother
    exact hleaves (fun h => hother h.symm) ⟨hlt, habsent⟩

theorem HasRoom.stored {chunks : Chunks} (hroom : HasRoom chunks) (index address : ℕ) :
    HasRoom (chunks.stored index address) := by
  have hwithin := hroom.within
  have hslots : 0 < UPLOAD_CHUNK_BUFFER_SLOTS := by decide
  unfold Chunks.stored
  split
  · refine .of_lt ?_
    dsimp only
    omega
  · exact hroom

theorem prepareOpen_hasRoom {world : World} (hroom : HasRoom world.mgr.chunks)
    (client authorization : CString) (metadata : Metadata) (env : Env) :
    HasRoom (prepareOpen world client authorization metadata env).1.mgr.chunks := by
  have hspec := prepareOpen_spec world client authorization metadata env
  generalize prepareOpen world client authorization metadata env = opened at hspec
  cases hspec with
  | refused hresult => exact hroom
  | failed hresult hopen hfs => exact hroom
  | occupied hopen hreserve =>
      have hslots : 0 < UPLOAD_CHUNK_BUFFER_SLOTS := by decide
      refine .of_lt ?_
      simp only [occupySlot]
      split <;> exact hslots

/-- The call begins a chunk. -/
def Call.beginsChunk : Call → Bool
  | .chunkBegin _ _ _ _ _ _ => true
  | _ => false

/-- Code in which no chunk is begun. -/
def Code.BeginsNone (code : Code) : Prop :=
  ∀ call, code.call = some call → call.beginsChunk = false

theorem hasRoom_update {code : Code} {world next : World} (hcode : code.BeginsNone)
    (hroom : HasRoom world.mgr.chunks) (h : Update code world next) : HasRoom next.mgr.chunks := by
  cases h with
  | reap => exact hasRoom_empty
  | clear => exact hasRoom_empty
  | @names authorization metadata =>
      obtain ⟨finalName, finalPath, uploadId, partPath, hnames⟩ :=
        prepareNames_eq world authorization metadata code.env
      rw [hnames]
      exact hroom
  | open_ client authorization => exact prepareOpen_hasRoom hroom ..
  | @endDirect data done error => cases error <;> exact hroom.of_same rfl rfl rfl rfl
  | accept address env heq => cases hcode _ heq
  | drop => exact hroom.drop _
  | abort => exact hroom.drop _
  | ready => exact hroom.makeReady _
  | publish id digest elapsed env =>
      unfold publishSlot
      dsimp only
      repeat' split
      all_goals exact hroom
  | discard | destination | begin | copy | enqueue | enable | startDirect | store | finalize
  | unfinalize | digest => exact hroom.of_same rfl rfl rfl rfl

theorem hasRoom_updates {code : Code} {world next : World} (hcode : code.BeginsNone)
    (hroom : HasRoom world.mgr.chunks) (h : Updates code world next) :
    HasRoom next.mgr.chunks := by
  induction h with
  | refl => exact hroom
  | tail _ hupdate ih => exact hasRoom_update hcode ih hupdate

/-- The call that waits for a direct write to end. -/
def Pc.waitsAs : Pc → Option Call
  | .waitingWrites call => some call
  | _ => none

/-- A stretch keeps the room, and no begin of a chunk waits for a direct write. -/
structure StretchRoom (stretch : World × Outcome) : Prop where
  room : HasRoom stretch.1.mgr.chunks
  waits : ∀ pc call, stretch.2 = .park pc → pc.waitsAs = some call → call.beginsChunk = false

theorem stretchRoom_done {world : World} (hroom : HasRoom world.mgr.chunks) (reply : Reply) :
    StretchRoom (world, .done reply) := by
  refine ⟨hroom, ?_⟩
  intro pc call hpark
  cases hpark

theorem Stretch.room {code : Code} {world : World} {stretch : World × Outcome}
    (h : Stretch code world stretch) (hcode : code.BeginsNone)
    (hroom : HasRoom world.mgr.chunks) : StretchRoom stretch := by
  refine ⟨hasRoom_updates hcode hroom h.updates, ?_⟩
  intro pc waiting hpark hwaits
  cases h.parks pc hpark <;> cases hwaits
  rename_i hentry
  exact hcode _ (congrArg Code.call hentry)

/-- Behind a clearing the begin of a chunk finds no upload. -/
theorem afterReap_chunkBegin_cleared {call : Call} (hcall : call.beginsChunk = true)
    (world : World) (origin : Origin) (target : CString) (io : ClearIo) (env : Env) :
    afterReap (clearRest world origin target io).1 call env =
      ((clearRest world origin target io).1, .of .notFound) := by
  cases call <;> cases hcall
  simp [afterReap, uploadChunkBegin, clearRest, Slot.empty]

theorem afterReap_chunkBegin_room {world : World} {call : Call} {env : Env}
    (hcall : call.beginsChunk = true) (hroom : HasRoom world.mgr.chunks)
    (hleaves : world.mgr.TakesChunks → ∀ index, call = world.mgr.slot.beginCall index →
      world.mgr.chunks.Missing index → index ≠ world.mgr.chunks.nextChunkToWrite →
      world.mgr.chunks.Missing world.mgr.chunks.nextChunkToWrite →
      world.mgr.chunks.activeChunkBuffers + 1 < UPLOAD_CHUNK_BUFFER_SLOTS) :
    StretchRoom (afterReap world call env) := by
  have hspec : ChunkBegun world call env (afterReap world call env) := by
    cases call <;> cases hcall
    exact uploadChunkBegin_spec ..
  generalize afterReap world call env = stretch at hspec
  cases hspec with
  | refused result => exact stretchRoom_done hroom _
  | accepted address htakes hbegin hmissing hspace =>
      refine stretchRoom_done ?_ _
      exact .accept hspace (hleaves htakes _ hbegin hmissing)

theorem enterCall_room {sys : Sys} {tid : ℕ} {call : Call} {env : Env}
    (hroom : HasRoom sys.world.mgr.chunks) (hleaves : LeavesRoom sys (.call tid call env)) :
    StretchRoom (enterCall sys.world call env) := by
  cases hcall : call.beginsChunk with
  | false =>
      have hcode : (Code.entry call (call.clock env) env).BeginsNone := by
        rintro _ ⟨⟩
        exact hcall
      exact (enterCall_stretch sys.world call env).room hcode hroom
  | true =>
      unfold enterCall
      split
      · exact stretchRoom_done hroom _
      have hreap : StretchRoom (reapLocked sys.world call env.now env) := by
        unfold reapLocked
        split
        · dsimp only
          split
          · refine ⟨hroom, ?_⟩
            rintro _ waiting ⟨⟩ hwaits
            cases hwaits
          · rw [afterReap_chunkBegin_cleared hcall]
            exact stretchRoom_done hasRoom_empty _
        · rename_i hlease
          exact afterReap_chunkBegin_room hcall hroom (hleaves (by simpa using hlease))
      cases call <;> cases hcall
      exact hreap

/-- Only a lease expiry can put the begin of a chunk to sleep, and it clears the slot. -/
theorem resume_room {world : World} {pc : Pc} {env : Env} {stretch : World × Outcome}
    (hroom : HasRoom world.mgr.chunks)
    (hwaits : ∀ call, pc.waitsAs = some call → call.beginsChunk = false)
    (hresume : resume world pc env = some stretch) : StretchRoom stretch := by
  have hresumed := resume_resumed hresume
  by_cases hcode : (pc.resumes env).BeginsNone
  · cases hresumed with
    | asleep =>
        refine ⟨hroom, ?_⟩
        rintro _ call ⟨⟩ hpc
        exact hwaits call hpc
    | clears io hpc hidle hrest => exact hrest.room hcode hasRoom_empty
    | continues hrest => exact hrest.room hcode hroom
  · cases pc with
    | reaping call target =>
        simp only [resume] at hresume
        split at hresume
        · cases hresume
          refine ⟨hroom, ?_⟩
          rintro _ waiting ⟨⟩ hpc
          cases hpc
        · cases hresume
          have hbegins : call.beginsChunk = true := by
            by_contra hnot
            refine hcode ?_
            rintro _ ⟨⟩
            simpa using hnot
          rw [afterReap_chunkBegin_cleared hbegins]
          exact stretchRoom_done hasRoom_empty _
    | waitingWrites call =>
        refine absurd ?_ hcode
        rintro _ ⟨⟩
        exact hwaits call rfl
    | _ =>
        refine absurd ?_ hcode
        rintro _ ⟨⟩

/-! ## Runs -/

/-- Room is kept, and no begin of a chunk waits for a direct write. -/
structure RoomInv (sys : Sys) : Prop where
  room : HasRoom sys.world.mgr.chunks
  waits : ∀ tid thread call, sys.threads tid = some thread → thread.pc.waitsAs = some call →
    call.beginsChunk = false

theorem roomInv_initial (host : Bool) (destination : CString)
    (maxFileBytes maxFiles leaseSeconds : ℕ) (override : Option CString) (fs : Fs) :
    RoomInv (.initial host destination maxFileBytes maxFiles leaseSeconds override fs) := by
  refine ⟨hasRoom_empty, ?_⟩
  intro tid thread call hthread
  cases hthread

theorem RoomInv.setPc {sys : Sys} {tid : ℕ} {call : Call} {pc : Pc} (hinv : RoomInv sys)
    (hpc : pc.waitsAs = none) : RoomInv (sys.setPc tid call pc) := by
  refine ⟨hinv.room, ?_⟩
  intro other thread waiting hthread hwaits
  simp only [Sys.setPc, Function.update_apply] at hthread
  split at hthread
  · cases hthread
    rw [hpc] at hwaits
    cases hwaits
  · exact hinv.waits other thread waiting hthread hwaits

theorem RoomInv.settle {sys : Sys} {tid : ℕ} {call : Call} {stretch : World × Outcome}
    (hinv : RoomInv sys) (h : StretchRoom stretch) : RoomInv (sys.settle tid call stretch) := by
  obtain ⟨world, outcome⟩ := stretch
  cases outcome with
  | park pc =>
      refine ⟨h.room, ?_⟩
      intro other thread waiting hthread hwaits
      simp only [Sys.settle, Sys.setPc, Function.update_apply] at hthread
      split at hthread
      · cases hthread
        exact h.waits pc waiting rfl hwaits
      · exact hinv.waits other thread waiting hthread hwaits
  | done reply =>
      refine ⟨h.room, ?_⟩
      intro other thread waiting hthread hwaits
      simp only [Sys.settle, Function.update_apply] at hthread
      split at hthread
      · cases hthread
      · exact hinv.waits other thread waiting hthread hwaits

theorem completeJob_hasRoom {world : World} (hroom : HasRoom world.mgr.chunks) (job : Job)
    (error : Option Errno) (elapsedNs : ℕ) :
    HasRoom (completeJob world job error elapsedNs).mgr.chunks := by
  cases job with
  | queue index size => exact hroom
  | chunk index address size =>
      cases error with
      | none => exact hroom.stored index address
      | some error => exact hroom

theorem roomInv_step {sys next : Sys} {action : Action} (hinv : RoomInv sys)
    (hleaves : LeavesRoom sys action) (hstep : step sys action = some next) : RoomInv next := by
  cases step_stepped hstep with
  | call hfree => exact hinv.settle (enterCall_room hinv.room hleaves)
  | resume hthread hresume =>
      exact hinv.settle (resume_room hinv.room (hinv.waits _ _ · hthread) hresume)
  | directIo hthread hio => exact RoomInv.setPc ⟨hinv.room, hinv.waits⟩ rfl
  | hashFinish hthread hhash => exact hinv.setPc rfl
  | hashChunks hthread hhash => exact hinv.setPc rfl
  | pick hwriter hjob => exact ⟨hinv.room, hinv.waits⟩
  | writerIo hwriter hbytes hio =>
      refine ⟨?_, hinv.waits⟩
      dsimp only
      split <;> exact hinv.room
  | complete hwriter hdone => exact ⟨completeJob_hasRoom hinv.room .., hinv.waits⟩

/-! ## Requests for full chunks -/

theorem chunkLengthFor_of_lt {size index : ℕ} (h : (index + 1) * UPLOAD_CHUNK_BYTES ≤ size) :
    chunkLengthFor size index = UPLOAD_CHUNK_BYTES := by
  have hpos : 0 < UPLOAD_CHUNK_BYTES := by decide
  rw [Nat.succ_mul] at h
  unfold chunkLengthFor
  dsimp only
  rw [if_neg (by omega), if_neg (by omega)]

/-- The slot takes the full chunk `index` from its beginning. -/
structure TakesFull (world : World) (index now : ℕ) : Prop where
  lease : leaseExpired world.mgr now = false
  takes : world.mgr.TakesChunks
  missing : world.mgr.chunks.Missing index
  arrays : world.mgr.chunks.chunkArrays = true
  full : (index + 1) * UPLOAD_CHUNK_BYTES ≤ world.mgr.slot.expectedSize

/-- Its begin is decided by the buffers alone. -/
theorem enterCall_beginCall {world : World} {index : ℕ} {env : Env}
    (h : TakesFull world index env.now) :
    enterCall world (world.mgr.slot.beginCall index) env =
      if UPLOAD_CHUNK_BUFFER_SLOTS ≤ world.mgr.chunks.activeChunkBuffers then
        (world, .of .backpressure)
      else env.malloc.elim (world, .of .ioError) fun address =>
        (acceptChunk world index address env, .of .ok) := by
  have hpos : 0 < UPLOAD_CHUNK_BYTES := by decide
  have hdiv : index * UPLOAD_CHUNK_BYTES / UPLOAD_CHUNK_BYTES = index :=
    Nat.mul_div_cancel _ hpos
  have hfull := h.full
  rw [Nat.succ_mul] at hfull
  have hrange : chunkRangeRefused world.mgr.slot.expectedSize world.mgr.slot.expectedSize
      (index * UPLOAD_CHUNK_BYTES) UPLOAD_CHUNK_BYTES = false := by
    have hmod := Nat.mul_mod_left index UPLOAD_CHUNK_BYTES
    simp only [chunkRangeRefused, hmod, decide_eq_false_iff_not]
    omega
  obtain ⟨hoccupied, hfinalizing, htransport⟩ := h.takes
  obtain ⟨hindex, habsent⟩ := h.missing
  have hbinding : bindingMatches world.mgr.slot world.mgr.slot.client
      world.mgr.slot.authorization = true := by simp [bindingMatches]
  simp only [enterCall, Slot.beginCall, Call.refused, chunkLengthFor_of_lt h.full, hpos.ne',
    if_false, reapLocked_of_lease h.lease, afterReap, uploadChunkBegin, hdiv, hoccupied, hbinding,
    hfinalizing, hrange, h.arrays, habsent]
  rw [if_neg (by simp), if_neg (by simp), if_neg (by simp), if_neg (by simpa using htransport),
    if_neg (by simp), if_neg (by simpa using hindex), if_neg (by simp), if_neg (by simp)]
  cases env.malloc <;> rfl

/-- Chunk `index` is being received and nothing of it has arrived. -/
structure ReceivesFull (world : World) (index now : ℕ) : Prop where
  lease : leaseExpired world.mgr now = false
  occupied : world.mgr.slot.occupied = true
  started : world.mgr.slot.started = true
  receives : world.mgr.chunks.receives index = true
  full : (index + 1) * UPLOAD_CHUNK_BYTES ≤ world.mgr.slot.expectedSize

theorem enterCall_chunkWrite_full {world : World} {index : ℕ} {data : Bytes} {env : Env}
    (h : ReceivesFull world index env.now) (hprogress : world.mgr.chunks.chunkProgress index = 0)
    (hdata : data.length = UPLOAD_CHUNK_BYTES) :
    enterCall world (.chunkWrite world.mgr.slot.uploadId (index * UPLOAD_CHUNK_BYTES) data) env =
      (storeChunk world index 0 data env, .of .ok) := by
  have hpos : 0 < UPLOAD_CHUNK_BYTES := by decide
  have hdiv : index * UPLOAD_CHUNK_BYTES / UPLOAD_CHUNK_BYTES = index :=
    Nat.mul_div_cancel _ hpos
  have hfull := h.full
  rw [Nat.succ_mul] at hfull
  have hne : data ≠ [] := by
    rintro rfl
    simp at hdata
    omega
  simp only [enterCall, Call.refused, hne, if_false, reapLocked_of_lease h.lease, afterReap,
    uploadChunkWrite, hdiv, h.occupied, h.started, h.receives, hprogress, Nat.sub_self,
    chunkLengthFor_of_lt h.full, hdata]
  rw [if_neg (by simp), if_neg (by omega), if_neg (by simp), if_neg (by omega)]

theorem enterCall_chunkFinish_full {world : World} {index : ℕ} {env : Env}
    (h : ReceivesFull world index env.now)
    (hprogress : world.mgr.chunks.chunkProgress index = UPLOAD_CHUNK_BYTES) :
    enterCall world (.chunkFinish world.mgr.slot.uploadId (index * UPLOAD_CHUNK_BYTES)
      UPLOAD_CHUNK_BYTES) env = (readyChunk world index env, .of .ok) := by
  have hpos : 0 < UPLOAD_CHUNK_BYTES := by decide
  have hdiv : index * UPLOAD_CHUNK_BYTES / UPLOAD_CHUNK_BYTES = index :=
    Nat.mul_div_cancel _ hpos
  have hmod := Nat.mul_mod_left index UPLOAD_CHUNK_BYTES
  have hfull := h.full
  rw [Nat.succ_mul] at hfull
  simp only [enterCall, Call.refused, hpos.ne', if_false, reapLocked_of_lease h.lease, afterReap,
    uploadChunkFinish, hdiv, h.occupied, h.started, h.receives, hprogress,
    chunkLengthFor_of_lt h.full]
  rw [if_neg (by simp), if_neg (by omega), if_neg (by simp), if_neg (by simp)]

/-- Once begun, the chunk is being received. -/
theorem TakesFull.begun {world : World} {index now : ℕ} (h : TakesFull world index now)
    (address : ℕ) (env : Env) (event : Event)
    (hlease : leaseExpired (acceptChunk world index address env).mgr now = false) :
    ReceivesFull ((acceptChunk world index address env).note event) index now := by
  refine ⟨hlease, h.takes.1, rfl, ?_, h.full⟩
  simp [acceptChunk, World.note, Chunks.receives, Chunks.accept, h.missing.1, h.arrays]

/-- A write to the chunk leaves it being received. -/
theorem ReceivesFull.written {world : World} {index now : ℕ} (h : ReceivesFull world index now)
    (relative : ℕ) (data : Bytes) (env : Env) (event : Event)
    (hlease : leaseExpired (storeChunk world index relative data env).mgr now = false) :
    ReceivesFull ((storeChunk world index relative data env).note event) index now := by
  refine ⟨hlease, h.occupied, h.started, ?_, h.full⟩
  simpa [storeChunk, World.note, Chunks.receives, Chunks.store] using h.receives

theorem exec_call_done {sys next : Sys} {tid : ℕ} {call : Call} {env : Env} {world : World}
    {reply : Reply} {actions : List Action} (hfree : sys.threads tid = none)
    (henter : enterCall sys.world call env = (world, .done reply))
    (hrest : exec step { sys with
      world := world.note (.returned call reply)
      threads := Function.update sys.threads tid none } actions = some next) :
    exec step sys (.call tid call env :: actions) = some next := by
  have hstep : step sys (.call tid call env) = some { sys with
      world := world.note (.returned call reply)
      threads := Function.update sys.threads tid none } := by
    simp only [step, hfree, henter, Sys.settle]
  rw [exec_cons hstep]
  exact hrest

namespace Sample

/-- The three calls of one request for a full chunk of the upload in the slot. -/
def sendChunk (slot : Slot) (index : ℕ) : List Action :=
  let offset := index * UPLOAD_CHUNK_BYTES
  [.call 0 (slot.beginCall index) (env 0),
    .call 0 (.chunkWrite slot.uploadId offset (.replicate UPLOAD_CHUNK_BYTES 0)) (env 0),
    .call 0 (.chunkFinish slot.uploadId offset UPLOAD_CHUNK_BYTES) (env 0)]

/-- Chunk 0 has not been begun, and the chunks 1 to `filled` wait for it. -/
structure Filling (sys : Sys) (filled : ℕ) : Prop where
  free : sys.threads 0 = none
  activity : sys.world.mgr.slot.lastActivity = 5
  lease : sys.world.mgr.settings.leaseSeconds = 60
  takes : sys.world.mgr.TakesChunks
  arrays : sys.world.mgr.chunks.chunkArrays = true
  size : 13 * UPLOAD_CHUNK_BYTES ≤ sys.world.mgr.slot.expectedSize
  count : 13 ≤ sys.world.mgr.chunks.chunkCount
  cursor : sys.world.mgr.chunks.nextChunkToWrite = 0
  active : sys.world.mgr.chunks.activeChunkBuffers = filled
  absent : ∀ index < 13, index = 0 ∨ filled < index →
    sys.world.mgr.chunks.chunkStates index = .absent
  error : sys.world.mgr.queue.writerError = none

theorem leaseExpired_env {manager : Manager} (hactivity : manager.slot.lastActivity = 5)
    (hlease : manager.settings.leaseSeconds = 60) : leaseExpired manager (env 0).now = false := by
  simp [leaseExpired, hactivity, hlease, env, Env.calm]

/-- One more request for a full chunk is served while chunk 0 stays out. -/
theorem exec_sendChunk {sys : Sys} {filled : ℕ} (h : Filling sys filled) (hfilled : filled < 12) :
    ∃ next, exec step sys (sendChunk sys.world.mgr.slot (filled + 1)) = some next ∧
      Filling next (filled + 1) ∧
      sendChunk next.world.mgr.slot = sendChunk sys.world.mgr.slot := by
  have htakes : TakesFull sys.world (filled + 1) (env 0).now := by
    have hcount := h.count
    exact ⟨leaseExpired_env h.activity h.lease, h.takes,
      ⟨by omega, h.absent _ (by omega) (.inr (by omega))⟩, h.arrays,
      (Nat.mul_le_mul_right _ (by omega)).trans h.size⟩
  have hspace : sys.world.mgr.chunks.activeChunkBuffers < UPLOAD_CHUNK_BUFFER_SLOTS := by
    rw [h.active]
    exact hfilled
  have hbegin : enterCall sys.world (sys.world.mgr.slot.beginCall (filled + 1)) (env 0) =
      (acceptChunk sys.world (filled + 1) 0 (env 0), .of .ok) := by
    rw [enterCall_beginCall htakes, if_neg (Nat.not_le.mpr hspace)]
    rfl
  have hlease : leaseExpired (acceptChunk sys.world (filled + 1) 0 (env 0)).mgr (env 0).now =
      false := leaseExpired_env rfl h.lease
  have hbegun := htakes.begun 0 (env 0)
    (.returned (sys.world.mgr.slot.beginCall (filled + 1)) (.of .ok)) hlease
  have hdata : (List.replicate UPLOAD_CHUNK_BYTES (0 : UInt8)).length = UPLOAD_CHUNK_BYTES :=
    List.length_replicate
  have hwrite := enterCall_chunkWrite_full hbegun
    (by simp [acceptChunk, World.note, Chunks.accept]) hdata
  have hwritten := hbegun.written 0 (List.replicate UPLOAD_CHUNK_BYTES 0) (env 0)
    (.returned (.chunkWrite sys.world.mgr.slot.uploadId ((filled + 1) * UPLOAD_CHUNK_BYTES)
      (List.replicate UPLOAD_CHUNK_BYTES 0)) (.of .ok)) (leaseExpired_env rfl h.lease)
  have hfinish := enterCall_chunkFinish_full hwritten
    (by simp [acceptChunk, storeChunk, World.note, Chunks.accept, Chunks.store, hdata])
  refine ⟨_, exec_call_done h.free hbegin (exec_call_done (by simp) hwrite
    (exec_call_done (by simp) hfinish rfl)), ?_, rfl⟩
  refine ⟨by simp, rfl, h.lease, ⟨h.takes.1, h.takes.2.1, ?_⟩, h.arrays, h.size, h.count,
    h.cursor, ?_, ?_, h.error⟩
  · intro _
    have htransport := h.takes.2.2
    cases hstarted : sys.world.mgr.slot.started with
    | false => simp [readyChunk, World.note, storeChunk, Chunks.store, acceptChunk, Chunks.accept,
        Chunks.makeReady, hstarted]
    | true => simp [readyChunk, World.note, storeChunk, Chunks.store, acceptChunk, Chunks.accept,
        Chunks.makeReady, htransport hstarted]
  · simp [readyChunk, World.note, storeChunk, Chunks.store, acceptChunk, Chunks.accept,
      Chunks.makeReady, h.active]
  · intro index hlt hindex
    have hother : index ≠ filled + 1 := by omega
    have hold := h.absent index hlt (by omega)
    simpa [readyChunk, World.note, storeChunk, Chunks.store, acceptChunk, Chunks.accept,
      Chunks.makeReady, hother] using hold

theorem exec_sendChunks {sys : Sys} (h : Filling sys 0) {count : ℕ} (hcount : count ≤ 12) :
    ∃ next, exec step sys ((List.range count).flatMap fun index =>
        sendChunk sys.world.mgr.slot (index + 1)) = some next ∧
      Filling next count ∧ sendChunk next.world.mgr.slot = sendChunk sys.world.mgr.slot := by
  induction count with
  | zero => exact ⟨sys, rfl, h, rfl⟩
  | succ count ih =>
      obtain ⟨middle, hexec, hfilling, hsame⟩ := ih (by omega)
      obtain ⟨next, hexec', hfilling', hsame'⟩ := exec_sendChunk hfilling (by omega)
      refine ⟨next, ?_, hfilling', hsame'.trans hsame⟩
      rw [hsame] at hexec'
      simp [List.range_succ, exec_append, hexec, hexec']

/-- Upload 1 of thirteen full chunks is in the slot. -/
def waiting : Sys :=
  (step (start 60) (prepare 0 1 (13 * UPLOAD_CHUNK_BYTES))).get (by decide +kernel)

/-- Chunk 1 of that upload has been begun. -/
def staged : Sys :=
  (step waiting (.call 0 (waiting.world.mgr.slot.beginCall 1) (env 0))).get (by decide +kernel)

/-- The request for chunk 0 is on its way while those for the chunks 1 to 12 are served. -/
def lateFirst : List Action :=
  (List.range 12).flatMap fun index => sendChunk waiting.world.mgr.slot (index + 1)

theorem filling_waiting : Filling waiting 0 := by
  refine ⟨?_, ?_, ?_, ⟨?_, ?_, ?_⟩, ?_, ?_, ?_, ?_, ?_, ?_, ?_⟩ <;> decide +kernel

end Sample

/-! ## The window in every run -/

/-- In a run in which no other chunk takes the last buffer while the awaited one is missing,
the awaited chunk always finds a buffer. -/
theorem awaitedFits_of_leavesRoom {host : Bool} {destination : CString}
    {maxFileBytes maxFiles leaseSeconds : ℕ} {override : Option CString} {fs : Fs}
    {actions : List Action} {sys : Sys}
    (hrun : Run step LeavesRoom
      (.initial host destination maxFileBytes maxFiles leaseSeconds override fs) actions sys) :
    AwaitedFits sys.world := by
  have hinv : RoomInv sys := hrun.invariant (fun _ _ _ => roomInv_step) (roomInv_initial ..)
  intro _ habsent env
  unfold enterCall
  split
  · rename_i result hrefused
    simp only [Slot.beginCall, Call.refused] at hrefused
    split at hrefused <;> cases hrefused
    simp [Outcome.of, Reply.of]
  simp only [Slot.beginCall, reapLocked]
  split
  · split
    · simp [Outcome.of]
    · rw [afterReap_chunkBegin_cleared rfl]
      simp [Outcome.of, Reply.of]
  · rw [afterReap]
    exact uploadChunkBegin_awaited hinv.room habsent _ _ _ _ _ _

open Sample in
/-- With every buffer held by the chunks behind it, chunk 0 is refused. -/
theorem lateFirst_refuses_awaited :
    ∃ sys, exec step (start 60) (prepare 0 1 (13 * UPLOAD_CHUNK_BYTES) :: lateFirst) = some sys ∧
      ¬AwaitedFits sys.world := by
  obtain ⟨sys, hexec, hfilling, -⟩ := exec_sendChunks filling_waiting le_rfl
  have hprepare : step (start 60) (prepare 0 1 (13 * UPLOAD_CHUNK_BYTES)) = some waiting :=
    (Option.some_get _).symm
  refine ⟨sys, ?_, fun hfits => ?_⟩
  · rw [exec_cons hprepare]
    exact hexec
  have habsent := hfilling.absent 0 (by omega) (.inl rfl)
  have hsize := hfilling.size
  have hcount := hfilling.count
  have htakes : TakesFull sys.world 0 (env 0).now :=
    ⟨leaseExpired_env hfilling.activity hfilling.lease, hfilling.takes, ⟨by omega, habsent⟩,
      hfilling.arrays, by omega⟩
  have hfull : UPLOAD_CHUNK_BUFFER_SLOTS ≤ sys.world.mgr.chunks.activeChunkBuffers :=
    hfilling.active.ge
  refine hfits hfilling.error (by rw [hfilling.cursor]; exact habsent) (env 0) ?_
  rw [hfilling.cursor, enterCall_beginCall htakes, if_pos hfull]

open Sample in
/-- Behind the begin of chunk 1 there is a buffer for chunk 0. -/
theorem awaitedFits_staged : AwaitedFits staged.world := by
  have hprepare : step (start 60) (prepare 0 1 (13 * UPLOAD_CHUNK_BYTES)) = some waiting :=
    (Option.some_get _).symm
  have hbegin : step waiting (.call 0 (waiting.world.mgr.slot.beginCall 1) (env 0)) =
      some staged := (Option.some_get _).symm
  have hleaves : LeavesRoom (start 60) (prepare 0 1 (13 * UPLOAD_CHUNK_BYTES)) := by
    intro _ _ index hcall
    cases hcall
  have hleaves' : LeavesRoom waiting (.call 0 (waiting.world.mgr.slot.beginCall 1) (env 0)) := by
    intro _ _ index _ _ _ _
    decide +kernel
  exact awaitedFits_of_leavesRoom (.snoc (.snoc .nil hleaves hprepare) hleaves' hbegin)

end LocalSend.Upload
