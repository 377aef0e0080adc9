import LocalSend.Verification.Upload.Publish
import LocalSend.Verification.Upload.Stream
import LocalSend.Verification.Upload.Updates

/-! # What the writer is at

In every reachable state the ring is in order, and the writer is at the head of the ring or
at the chunk it waits for: nothing that runs while it writes touches either.
-/

namespace LocalSend.Upload

open Transition

/-- The head of the ring, or the complete chunk the writer waits for. -/
inductive JobFits (manager : Manager) : Job → Prop
  | queue (hqueued : manager.queue.writeQueued ≠ 0) :
      JobFits manager
        (.queue manager.queue.writeHead (manager.queue.writeSizes manager.queue.writeHead))
  | chunk {buffer : ChunkBuffer} (hoccupied : manager.slot.occupied = true)
      (hready : chunkReadyForWriterLocked manager.chunks = true)
      (hbuffer : manager.chunks.chunkBuffers manager.chunks.nextChunkToWrite = some buffer) :
      JobFits manager
        (.chunk manager.chunks.nextChunkToWrite buffer.address
          (chunkLengthFor manager.slot.expectedSize manager.chunks.nextChunkToWrite))

/-- The writer waits, or is within a job of its. -/
def Working (manager : Manager) : WriterPc → Prop
  | .waiting => manager.queue.writerActive = false
  | .writing job done _ =>
      manager.queue.writerActive = true ∧ JobFits manager job ∧ done ≤ job.size

/-- The ring is in order, chunks are taken only by an upload that has started, and the writer
is at a job of its. -/
structure WriterInv (manager : Manager) (writer : WriterPc) : Prop where
  queue : manager.queue.InOrder
  transport : manager.chunks.chunkTransport = true →
    manager.slot.occupied = true ∧ manager.slot.started = true
  working : Working manager writer

variable {manager manager' : Manager} {writer : WriterPc}

theorem WriterInv.waiting (h : WriterInv manager writer)
    (hidle : manager.queue.writerActive = false) : writer = .waiting := by
  have hworking := h.working
  cases writer with
  | waiting => rfl
  | writing job done error => simp [hworking.1] at hidle

/-! ## What keeps a job -/

/-- The head entry stays. -/
structure HeadKept (queue queue' : Queue) : Prop where
  active_eq : queue'.writerActive = queue.writerActive
  head : queue.writeQueued ≠ 0 → queue'.writeQueued ≠ 0 ∧
    queue'.writeHead = queue.writeHead ∧
    queue'.writeSizes queue.writeHead = queue.writeSizes queue.writeHead

theorem HeadKept.refl (queue : Queue) : HeadKept queue queue :=
  ⟨rfl, fun h => ⟨h, rfl, rfl⟩⟩

theorem Queued.headKept {queue queue' : Queue} (h : Queued queue queue') :
    HeadKept queue queue' := by
  have hle := h.queued_le
  exact ⟨h.active_eq, fun hqueued => ⟨by omega, h.head_eq, h.size_eq hqueued⟩⟩

/-- The chunk the writer waits for stays ready, in the same buffer. -/
structure ReadyKept (chunks chunks' : Chunks) : Prop where
  next_eq : chunks'.nextChunkToWrite = chunks.nextChunkToWrite
  ready : chunkReadyForWriterLocked chunks = true → chunkReadyForWriterLocked chunks' = true ∧
    chunks'.chunkBuffers chunks.nextChunkToWrite = chunks.chunkBuffers chunks.nextChunkToWrite

theorem ReadyKept.refl (chunks : Chunks) : ReadyKept chunks chunks := ⟨rfl, fun h => ⟨h, rfl⟩⟩

/-- Only a chunk that is not ready is changed. -/
theorem ReadyKept.of_other {chunks chunks' : Chunks} {index : ℕ}
    (hindex : chunks.chunkStates index ≠ .ready)
    (htransport : chunks.chunkTransport = true → chunks'.chunkTransport = true)
    (hcount : chunks'.chunkCount = chunks.chunkCount)
    (harrays : chunks'.chunkArrays = chunks.chunkArrays)
    (hnext : chunks'.nextChunkToWrite = chunks.nextChunkToWrite)
    (hothers : ∀ other, other ≠ index → chunks'.chunkStates other = chunks.chunkStates other ∧
      chunks'.chunkBuffers other = chunks.chunkBuffers other) : ReadyKept chunks chunks' := by
  refine ⟨hnext, fun hready => ?_⟩
  simp only [chunkReadyForWriterLocked, decide_eq_true_eq] at hready ⊢
  obtain ⟨htaken, hlt, hallocated, hstate, hbuffer⟩ := hready
  have hother : chunks.nextChunkToWrite ≠ index := by
    rintro rfl
    exact hindex hstate
  obtain ⟨hstates, hbuffers⟩ := hothers _ hother
  rw [hnext, hcount, harrays, hstates, hbuffers]
  exact ⟨⟨htransport htaken, hlt, hallocated, hstate, hbuffer⟩, rfl⟩

theorem readyKept_accept {chunks : Chunks} {index : ℕ} (h : chunks.chunkStates index = .absent)
    (address : ℕ) (started : Bool) :
    ReadyKept chunks (chunks.accept index address (chunks.chunkTransport || started)) := by
  have hindex : chunks.chunkStates index ≠ .ready := by simp [h]
  refine .of_other hindex (fun htaken => by simp [Chunks.accept, htaken]) rfl rfl rfl ?_
  intro other hother
  simp [Chunks.accept, hother]

theorem readyKept_store {chunks : Chunks} {index : ℕ}
    (h : chunks.chunkStates index = .receiving) (relative : ℕ) (data : Bytes) :
    ReadyKept chunks (chunks.store index relative data) := by
  have hindex : chunks.chunkStates index ≠ .ready := by simp [h]
  refine .of_other hindex id rfl rfl rfl ?_
  intro other hother
  simp [Chunks.store, hother]

theorem readyKept_drop {chunks : Chunks} {index : ℕ}
    (h : chunks.chunkStates index = .receiving) : ReadyKept chunks (chunks.drop index) := by
  have hindex : chunks.chunkStates index ≠ .ready := by simp [h]
  refine .of_other hindex id rfl rfl rfl ?_
  intro other hother
  simp [Chunks.drop, hother]

theorem readyKept_makeReady {chunks : Chunks} {index : ℕ}
    (h : chunks.chunkStates index = .receiving) : ReadyKept chunks (chunks.makeReady index) := by
  have hindex : chunks.chunkStates index ≠ .ready := by simp [h]
  refine .of_other hindex id rfl rfl rfl ?_
  intro other hother
  simp [Chunks.makeReady, hother]

theorem JobFits.kept {job : Job} (h : JobFits manager job)
    (hqueue : HeadKept manager.queue manager'.queue)
    (hchunks : ReadyKept manager.chunks manager'.chunks)
    (hslot : manager'.slot.occupied = manager.slot.occupied ∧
      manager'.slot.expectedSize = manager.slot.expectedSize) : JobFits manager' job := by
  cases h with
  | queue hqueued =>
      obtain ⟨hqueued', hhead, hsize⟩ := hqueue.head hqueued
      rw [← hsize, ← hhead]
      exact .queue hqueued'
  | @chunk buffer hoccupied hready hbuffer =>
      obtain ⟨hready', hbuffer'⟩ := hchunks.ready hready
      rw [← hslot.2, ← hchunks.next_eq]
      refine .chunk (hslot.1.trans hoccupied) hready' ?_
      rw [hchunks.next_eq]
      exact hbuffer'.trans hbuffer

theorem Working.kept (h : Working manager writer)
    (hqueue : HeadKept manager.queue manager'.queue)
    (hchunks : ReadyKept manager.chunks manager'.chunks)
    (hslot : manager'.slot.occupied = manager.slot.occupied ∧
      manager'.slot.expectedSize = manager.slot.expectedSize) : Working manager' writer := by
  cases writer with
  | waiting => exact hqueue.active_eq.trans h
  | writing job done error =>
      exact ⟨hqueue.active_eq.trans h.1, h.2.1.kept hqueue hchunks hslot, h.2.2⟩

/-! ## Every run -/

theorem WriterInv.kept (h : WriterInv manager writer) (horder : manager'.queue.InOrder)
    (hqueue : HeadKept manager.queue manager'.queue)
    (hchunks : ReadyKept manager.chunks manager'.chunks)
    (htransport : manager'.chunks.chunkTransport = manager.chunks.chunkTransport)
    (hslot : manager'.slot.occupied = manager.slot.occupied ∧
      manager'.slot.started = manager.slot.started ∧
      manager'.slot.expectedSize = manager.slot.expectedSize) : WriterInv manager' writer := by
  refine ⟨horder, fun htaken => ?_, h.working.kept hqueue hchunks ⟨hslot.1, hslot.2.2⟩⟩
  obtain ⟨hoccupied, hstarted⟩ := h.transport (htransport.symm.trans htaken)
  exact ⟨hslot.1.trans hoccupied, hslot.2.1.trans hstarted⟩

/-- Neither the queue nor the chunks are changed. -/
theorem WriterInv.of_same (h : WriterInv manager writer) (hqueue : manager'.queue = manager.queue)
    (hchunks : ReadyKept manager.chunks manager'.chunks)
    (htransport : manager'.chunks.chunkTransport = manager.chunks.chunkTransport)
    (hslot : manager'.slot.occupied = manager.slot.occupied ∧
      manager'.slot.started = manager.slot.started ∧
      manager'.slot.expectedSize = manager.slot.expectedSize) : WriterInv manager' writer := by
  refine h.kept (by rw [hqueue]; exact h.queue) ?_ hchunks htransport hslot
  rw [hqueue]
  exact .refl _

variable {code : Code} {world next : World}

/-- A cleared slot finds the writer waiting. -/
theorem writerInv_clearRest (h : WriterInv world.mgr writer)
    (hidle : world.mgr.queue.writerActive = false) (origin : Origin) (target : CString)
    (io : ClearIo) : WriterInv (clearRest world origin target io).1.mgr writer := by
  rw [h.waiting hidle]
  refine ⟨.cleared _, fun htaken => ?_, hidle⟩
  cases htaken

/-- Preparing a free slot leaves the writer at a job of the ring. -/
theorem writerInv_prepareOpen (h : WriterInv world.mgr writer)
    (hfree : world.mgr.slot.occupied = false) (client authorization : CString)
    (metadata : Metadata) (env : Env) :
    WriterInv (prepareOpen world client authorization metadata env).1.mgr writer := by
  have hspec := prepareOpen_spec world client authorization metadata env
  generalize prepareOpen world client authorization metadata env = opened at hspec
  cases hspec with
  | refused => exact h.of_same rfl (.refl _) rfl ⟨rfl, rfl, rfl⟩
  | failed => exact h.of_same rfl (.refl _) rfl ⟨rfl, rfl, rfl⟩
  | occupied =>
      refine ⟨h.queue, fun htaken => ?_, ?_⟩
      · have hbefore : world.mgr.chunks.chunkTransport = true := by
          simp only [occupySlot] at htaken
          split at htaken <;> exact htaken
        have hoccupied := (h.transport hbefore).1
        rw [hfree] at hoccupied
        cases hoccupied
      · have hworking := h.working
        cases writer with
        | waiting => exact hworking
        | writing job done error =>
            refine ⟨hworking.1, ?_, hworking.2.2⟩
            cases hworking.2.1 with
            | queue hqueued => exact .queue hqueued
            | chunk hoccupied =>
                rw [hfree] at hoccupied
                cases hoccupied

/-- An upload that has not started has no chunk the writer could be at. -/
theorem writerInv_beginStream (h : WriterInv world.mgr writer)
    (hidle : world.mgr.slot.started = false) (env : Env) :
    WriterInv (beginStream world env).mgr writer := by
  have hnone : chunkReadyForWriterLocked world.mgr.chunks = false := by
    by_contra hready
    simp only [chunkReadyForWriterLocked, Bool.not_eq_false, decide_eq_true_eq] at hready
    have hstarted := (h.transport hready.1).2
    rw [hidle] at hstarted
    cases hstarted
  refine ⟨h.queue, ?_, h.working.kept (.refl _) ⟨rfl, fun hready => ?_⟩ ⟨rfl, rfl⟩⟩
  · intro htransport
    cases htransport
  · rw [hnone] at hready
    cases hready

/-- A round of `upload_write` never overfills the tail buffer. -/
theorem roundCount_fits {queue : Queue} (h : queue.InOrder) (rest : Bytes) :
    queue.buffered + (rest.take (queue.roundCount rest)).length ≤ UPLOAD_WRITE_BUFFER_BYTES := by
  have hle := h.buffered_le
  have hround : queue.roundCount rest ≤ UPLOAD_WRITE_BUFFER_BYTES - queue.buffered := by
    simp only [Queue.roundCount, sub64, if_pos hle]
    exact Nat.min_le_right ..
  have hlength := List.length_take_le (queue.roundCount rest) rest
  omega

theorem writerInv_publishSlot (h : WriterInv world.mgr writer) (id digest : CString)
    (elapsed : ℕ) (env : Env) :
    WriterInv (publishSlot world id digest elapsed env).1.mgr writer := by
  have hspec := publishSlot_spec world id digest elapsed env
  generalize publishSlot world id digest elapsed env = published at hspec
  cases hspec <;> exact h.of_same rfl (.refl _) rfl ⟨rfl, rfl, rfl⟩

theorem writerInv_update (h : WriterInv world.mgr writer) (hupdate : Update code world next) :
    WriterInv next.mgr writer := by
  cases hupdate with
  | discard =>
      exact h.kept (h.queue.setFlags ..) ⟨rfl, fun h => ⟨h, rfl, rfl⟩⟩ (.refl _) rfl
        ⟨rfl, rfl, rfl⟩
  | reap io hcode hlease hidle => exact writerInv_clearRest h hidle ..
  | clear origin io horigin hidle => exact writerInv_clearRest h hidle ..
  | @names authorization metadata =>
      obtain ⟨_, _, _, _, hnames⟩ := prepareNames_eq world authorization metadata code.env
      rw [hnames]
      exact h.of_same rfl (.refl _) rfl ⟨rfl, rfl, rfl⟩
  | open_ client authorization hcode hmetadata hfree => exact writerInv_prepareOpen h hfree ..
  | begin env hoccupied hidle => exact writerInv_beginStream h hidle env
  | @copy id rest activity hrest hspace =>
      exact h.kept (h.queue.copied hspace (roundCount_fits h.queue rest))
        ⟨rfl, fun hqueued => ⟨hqueued, rfl, rfl⟩⟩ (.refl _) rfl ⟨rfl, rfl, rfl⟩
  | @enqueue queue hqueue =>
      have hqueued := queued_of_enqueue h.queue hqueue
      exact h.kept hqueued.inOrder hqueued.headKept (.refl _) rfl ⟨rfl, rfl, rfl⟩
  | accept address env hcode hoccupied hid hbinding hindex habsent =>
      refine ⟨h.queue, fun _ => ⟨hoccupied, rfl⟩, ?_⟩
      exact h.working.kept (.refl _) (readyKept_accept habsent ..) ⟨rfl, rfl⟩
  | store index relative data env hreceives =>
      exact h.of_same rfl (readyKept_store (Chunks.receiving_of_receives hreceives) ..) rfl
        ⟨rfl, rfl, rfl⟩
  | drop hcode hoccupied hid hreceiving =>
      exact h.of_same rfl (readyKept_drop hreceiving) rfl ⟨rfl, rfl, rfl⟩
  | abort env hcode hoccupied hid hreceiving =>
      exact h.of_same rfl (readyKept_drop hreceiving) rfl ⟨rfl, rfl, rfl⟩
  | ready env hcode hoccupied hid hreceives =>
      exact h.of_same rfl (readyKept_makeReady (Chunks.receiving_of_receives hreceives)) rfl
        ⟨rfl, rfl, rfl⟩
  | @endDirect data done error env =>
      cases error with
      | none => exact h.of_same rfl ⟨rfl, fun h => ⟨h, rfl⟩⟩ rfl ⟨rfl, rfl, rfl⟩
      | some error =>
          exact h.kept (h.queue.setFlags ..) ⟨rfl, fun h => ⟨h, rfl, rfl⟩⟩
            ⟨rfl, fun h => ⟨h, rfl⟩⟩ rfl ⟨rfl, rfl, rfl⟩
  | publish id digest elapsed env => exact writerInv_publishSlot h ..
  | destination | enable | startDirect | finalize | unfinalize | digest =>
      exact h.of_same rfl ⟨rfl, fun h => ⟨h, rfl⟩⟩ rfl ⟨rfl, rfl, rfl⟩

theorem writerInv_updates (h : WriterInv world.mgr writer) (hupdates : Updates code world next) :
    WriterInv next.mgr writer := by
  induction hupdates with
  | refl => exact h
  | tail _ hlast ih => exact writerInv_update ih hlast

theorem writerInv_resume {pc : Pc} {env : Env} {stretch : World × Outcome}
    (h : WriterInv world.mgr writer) (hresume : resume world pc env = some stretch) :
    WriterInv stretch.1.mgr writer := by
  cases resume_resumed hresume with
  | asleep => exact h
  | clears io hpc hidle hrest =>
      exact writerInv_updates (writerInv_clearRest h hidle ..) hrest.updates
  | continues hrest => exact writerInv_updates h hrest.updates

/-- The writer picks a job of its. -/
theorem writerInv_pick {job : Job} (h : WriterInv manager .waiting)
    (hjob : pickJob manager = some job) :
    WriterInv { manager with queue.writerActive := true } (.writing job 0 none) := by
  refine ⟨h.queue.setFlags .., h.transport, rfl, ?_, Nat.zero_le _⟩
  simp only [pickJob] at hjob
  split at hjob
  · cases hjob
  split at hjob
  · rename_i hqueued
    cases hjob
    exact .queue hqueued
  split at hjob
  · rename_i hready
    obtain ⟨buffer, hbuffer, rfl⟩ := Option.map_eq_some_iff.mp hjob
    have htaken : manager.chunks.chunkTransport = true := by
      simp only [chunkReadyForWriterLocked, decide_eq_true_eq] at hready
      exact hready.1
    exact .chunk (h.transport htaken).1 hready hbuffer
  · cases hjob

theorem Job.bytes_length_le {job : Job} {bytes : Bytes} (h : job.bytes manager = some bytes) :
    bytes.length ≤ job.size := by
  cases job with
  | queue index size =>
      obtain rfl := Option.some.inj h
      exact List.length_take_le ..
  | chunk index address size =>
      simp only [Job.bytes] at h
      split at h
      · split at h
        · obtain rfl := Option.some.inj h
          exact List.length_take_le ..
        · cases h
      · cases h

theorem writerInv_writerIo {job : Job} {done count : ℕ} {bytes : Bytes} {fs fs' : Fs}
    {fd : Option ℕ} {result : IoResult} {error : Option Errno}
    (h : WriterInv manager (.writing job done none)) (hbytes : job.bytes manager = some bytes)
    (hio : writeOnce fs fd (bytes.drop done) result = some (fs', count, error)) :
    WriterInv manager (.writing job (done + count) error) := by
  have hlength := Job.bytes_length_le hbytes
  have hdone := h.working.2.2
  refine ⟨h.queue, h.transport, h.working.1, h.working.2.1, ?_⟩
  rcases writeOnce_cases hio with ⟨file, -, -, -, hcount, -⟩ | ⟨-, hzero⟩
  · rw [List.length_drop] at hcount
    omega
  · omega

theorem writerInv_completeJob {job : Job} {done : ℕ} {error : Option Errno}
    (h : WriterInv world.mgr (.writing job done error)) (elapsedNs : ℕ) :
    WriterInv (completeJob world job error elapsedNs).mgr .waiting := by
  cases h.working.2.1 with
  | queue hqueued =>
      exact ⟨(h.queue.popped hqueued).setFlags .., h.transport, rfl⟩
  | chunk =>
      cases error with
      | some error => exact ⟨h.queue.setFlags .., h.transport, rfl⟩
      | none =>
          refine ⟨h.queue.setFlags .., fun htaken => h.transport ?_, rfl⟩
          simp only [completeJob, Chunks.stored] at htaken
          split at htaken <;> exact htaken

theorem writerInv_settled (h : WriterInv world.mgr writer) (call : Call) (outcome : Outcome) :
    WriterInv (settled call (world, outcome)).mgr writer := by
  cases outcome <;> exact h

theorem writerInv_step {sys next : Sys} {action : Action}
    (h : WriterInv sys.world.mgr sys.writer) (hstep : step sys action = some next) :
    WriterInv next.world.mgr next.writer := by
  cases step_stepped hstep with
  | @call tid call env hfree =>
      rw [settle_eq]
      exact writerInv_settled (writerInv_updates h (enterCall_stretch ..).updates) ..
  | resume hthread hresume =>
      rw [settle_eq]
      exact writerInv_settled (writerInv_resume h hresume) ..
  | directIo => exact h
  | hashFinish => exact h
  | hashChunks => exact h
  | pick hwriter hjob => exact writerInv_pick (hwriter ▸ h) hjob
  | @writerIo result job done bytes fs count error hwriter hbytes hio =>
      have hnext := writerInv_writerIo (hwriter ▸ h) hbytes hio
      cases error <;> exact hnext
  | complete hwriter hdone => exact writerInv_completeJob (hwriter ▸ h) _

theorem writerInv_initial (host : Bool) (destination : CString)
    (maxFileBytes maxFiles leaseSeconds : ℕ) (override : Option CString) (fs : Fs) :
    WriterInv
      (Sys.initial host destination maxFileBytes maxFiles leaseSeconds override fs).world.mgr
      .waiting :=
  ⟨.empty rfl rfl rfl rfl, nofun, rfl⟩

/-- In every reachable state the writer is at a job of its. -/
theorem writerInv_run {ok : Sys → Action → Prop} {host : Bool} {destination : CString}
    {maxFileBytes maxFiles leaseSeconds : ℕ} {override : Option CString} {fs : Fs}
    {actions : List Action} {sys : Sys}
    (hrun : Run step ok
      (.initial host destination maxFileBytes maxFiles leaseSeconds override fs) actions sys) :
    WriterInv sys.world.mgr sys.writer :=
  hrun.invariant (I := fun sys => WriterInv sys.world.mgr sys.writer)
    (fun _ _ _ h _ hstep => writerInv_step h hstep) (writerInv_initial ..)

end LocalSend.Upload
