import LocalSend.Verification.Sha256.Correctness
import LocalSend.Verification.Upload.Prepare
import LocalSend.Verification.Upload.Queue

/-! # The queued stream

What an upload has taken is on disk, on the writer's way there, or in the ring, in this
order. The invariant ties the slot, the ring, the writer and the part file together; the
lemmas say how each stretch of a queued upload moves them.
-/

namespace LocalSend.Upload

open Sha256

/-- The bytes taken since the slot was last cleared. -/
def accepted : List Event → Bytes
  | [] => []
  | .copied copy :: trace => accepted trace ++ copy.data
  | .cleared _ :: _ => []
  | _ :: trace => accepted trace

/-- How often the slot has been cleared. -/
def clearings (trace : List Event) : ℕ :=
  trace.countP fun event => match event with
    | .cleared _ => true
    | _ => false

/-- How much of its job the writer has written. -/
def WriterPc.done : WriterPc → ℕ
  | .waiting => 0
  | .writing _ done _ => done

/-- The writer waits, or is within the head entry of the ring. -/
def WriterFits (queue : Queue) : WriterPc → Prop
  | .waiting => queue.writerActive = false
  | .writing job done _ =>
      queue.writerActive = true ∧ queue.writeQueued ≠ 0 ∧
        job = .queue queue.writeHead (queue.writeSizes queue.writeHead) ∧
        done ≤ queue.writeSizes queue.writeHead

/-- Neither chunks nor a hash pass nor a direct write. -/
structure Plain (chunks : Chunks) : Prop where
  transport : chunks.chunkTransport = false
  finalizing : chunks.finalizingChunks = false
  writes : chunks.activeChunkWrites = 0

/-- Nothing has been taken yet. -/
structure Unused (manager : Manager) : Prop where
  received : manager.slot.received = 0
  buffered : manager.queue.buffered = 0
  queued : manager.queue.writeQueued = 0
  error : manager.queue.writerError = none

/-- The part file is open, and together with the ring holds what was taken. -/
structure Backed (world : World) (writer : WriterPc) (file : ℕ) : Prop where
  fd_eq : world.mgr.slot.fd = some file
  entry : world.fs.entries world.mgr.slot.partPath = some file
  reserved : (world.fs.files file).reserved ≤ world.mgr.slot.expectedSize
  bytes : world.mgr.queue.writerError = none →
    (world.fs.files file).written ++ world.mgr.queue.content.drop writer.done =
      accepted world.trace

/-- The manager and the writer between the stretches of a queued upload. -/
structure Stream (world : World) (writer : WriterPc) : Prop where
  queue : world.mgr.queue.InOrder
  fits : WriterFits world.mgr.queue writer
  plain : Plain world.mgr.chunks
  direct : world.mgr.slot.fastDirectStream = false
  counted : world.mgr.slot.received = (accepted world.trace).length
  free : world.mgr.slot.occupied = false → world.mgr.slot.expectedSize = 0
  unused : world.mgr.slot.started = false → Unused world.mgr
  occupied : world.mgr.slot.started = true → world.mgr.slot.occupied = true
  backed : world.mgr.slot.occupied = true → ∃ file, Backed world writer file
  digest : world.mgr.slot.started = true → Absorbed world.mgr.slot.sha256 (accepted world.trace)

variable {world next : World} {writer : WriterPc}

theorem Stream.backed_same {writer' : WriterPc} (h : Stream world writer)
    (hslot : next.mgr.slot.fd = world.mgr.slot.fd ∧
      next.mgr.slot.partPath = world.mgr.slot.partPath ∧
      next.mgr.slot.expectedSize = world.mgr.slot.expectedSize)
    (hqueue : next.mgr.queue.writerError = world.mgr.queue.writerError ∧
      next.mgr.queue.content = world.mgr.queue.content)
    (hfs : next.fs = world.fs) (htrace : next.trace = world.trace)
    (hdone : writer'.done = writer.done) (hoccupied : world.mgr.slot.occupied = true) :
    ∃ file, Backed next writer' file := by
  obtain ⟨file, hbacked⟩ := h.backed hoccupied
  refine ⟨file, hslot.1.trans hbacked.fd_eq, ?_, ?_, fun herror => ?_⟩
  · rw [hfs, hslot.2.1]
    exact hbacked.entry
  · rw [hfs, hslot.2.2]
    exact hbacked.reserved
  · rw [hfs, hqueue.2, hdone, htrace]
    exact hbacked.bytes (hqueue.1.symm.trans herror)

theorem Stream.unstarted (h : Stream world writer) (hfree : world.mgr.slot.occupied = false) :
    world.mgr.slot.started = false := by
  cases hstarted : world.mgr.slot.started with
  | false => rfl
  | true => simp [h.occupied hstarted] at hfree

theorem Stream.accepted_of_unstarted (h : Stream world writer)
    (hstarted : world.mgr.slot.started = false) : accepted world.trace = [] := by
  rw [← List.length_eq_zero_iff, ← h.counted]
  exact (h.unused hstarted).received

theorem Stream.waiting (h : Stream world writer) (hidle : world.mgr.queue.writerActive = false) :
    writer = .waiting := by
  have hfits := h.fits
  cases writer with
  | waiting => rfl
  | writing job done error => simp [hfits.1] at hidle

/-- With nothing queued the writer waits. -/
theorem Stream.waiting_of_unused (h : Stream world writer)
    (hqueued : world.mgr.queue.writeQueued = 0) : writer = .waiting := by
  have hfits := h.fits
  cases writer with
  | waiting => rfl
  | writing job done error => exact absurd hqueued hfits.2.1

theorem WriterFits.idle {queue : Queue} (h : WriterFits queue .waiting) :
    queue.writerActive = false := h

/-- What the writer has written is part of the ring's content. -/
theorem Stream.done_le (h : Stream world writer) :
    writer.done ≤ world.mgr.queue.content.length := by
  have hfits := h.fits
  cases writer with
  | waiting => exact Nat.zero_le _
  | writing job done error =>
      obtain ⟨later, hcontent, -⟩ := Queue.content_head h.queue hfits.2.1
      have hhead := Queue.slot_head_length h.queue hfits.2.1
      rw [hcontent, List.length_append, hhead]
      exact hfits.2.2.2.trans (Nat.le_add_right ..)

/-- Once nothing is left in the ring, the part file holds all that was taken. -/
theorem Stream.drained (h : Stream world writer) (hoccupied : world.mgr.slot.occupied = true)
    (hdrained : world.mgr.queue.draining = false) (herror : world.mgr.queue.writerError = none)
    (hbuffered : world.mgr.queue.buffered = 0) :
    ∃ file, Backed world writer file ∧
      (world.fs.files file).written = accepted world.trace := by
  have hqueued : world.mgr.queue.writeQueued = 0 := by
    simp only [Queue.draining, herror, decide_eq_false_iff_not] at hdrained
    grind
  obtain ⟨file, hbacked⟩ := h.backed hoccupied
  have hcontent := Queue.content_of_empty hqueued hbuffered
  refine ⟨file, hbacked, ?_⟩
  rw [← hbacked.bytes herror, hcontent, List.drop_nil, List.append_nil]

/-! ## Clearing -/

theorem stream_clearStart (h : Stream world writer) : Stream (clearStart world) writer := by
  have hqueue := h.queue
  refine ⟨⟨hqueue.head_lt, hqueue.tail_eq, hqueue.queued_le, hqueue.full, hqueue.buffered_le,
    hqueue.filled, hqueue.sizes, hqueue.sizes_le⟩, ?_, h.plain, h.direct, h.counted, h.free, ?_,
    h.occupied, h.backed_same ⟨rfl, rfl, rfl⟩ ⟨rfl, rfl⟩ rfl rfl rfl, h.digest⟩
  · have hfits := h.fits
    cases writer with
    | waiting => exact hfits
    | writing job done error => exact hfits
  · intro hstarted
    have hunused := h.unused hstarted
    exact ⟨hunused.received, hunused.buffered, hunused.queued, hunused.error⟩

/-- A cleared slot is a fresh one, whatever was in it. -/
theorem stream_clearRest (hidle : world.mgr.queue.writerActive = false) (origin : Origin)
    (target : CString) (io : ClearIo) : Stream (clearRest world origin target io).1 .waiting := by
  refine ⟨.cleared _, hidle, ⟨rfl, rfl, rfl⟩, rfl, rfl, fun _ => rfl,
    fun _ => ⟨rfl, rfl, rfl, rfl⟩, ?_, ?_, ?_⟩
  all_goals
    intro h
    cases h

theorem clearRest_clearings (world : World) (origin : Origin) (target : CString) (io : ClearIo) :
    clearings (clearRest world origin target io).1.trace = clearings world.trace + 1 := by
  simp [clearRest, clearings]

/-! ## Preparing -/

/-- In a free slot nothing but the stream's own fields matters. -/
theorem Stream.of_free (h : Stream world writer) (hfree : world.mgr.slot.occupied = false)
    (hoccupied : next.mgr.slot.occupied = false)
    (hslot : next.mgr.slot.started = world.mgr.slot.started ∧
      next.mgr.slot.received = world.mgr.slot.received ∧
      next.mgr.slot.expectedSize = world.mgr.slot.expectedSize ∧
      next.mgr.slot.fastDirectStream = world.mgr.slot.fastDirectStream)
    (hqueue : next.mgr.queue = world.mgr.queue) (hchunks : next.mgr.chunks = world.mgr.chunks)
    (haccepted : accepted next.trace = accepted world.trace) : Stream next writer := by
  have hstarted := hslot.1.trans (h.unstarted hfree)
  refine ⟨hqueue ▸ h.queue, hqueue ▸ h.fits, hchunks ▸ h.plain, hslot.2.2.2.trans h.direct, ?_,
    fun _ => hslot.2.2.1.trans (h.free hfree), fun _ => ?_, ?_, ?_, ?_⟩
  · rw [hslot.2.1, haccepted, h.counted]
  · have hunused := h.unused (h.unstarted hfree)
    refine ⟨hslot.2.1.trans hunused.received, ?_, ?_, ?_⟩
    · rw [hqueue]
      exact hunused.buffered
    · rw [hqueue]
      exact hunused.queued
    · rw [hqueue]
      exact hunused.error
  · intro h
    cases hstarted.symm.trans h
  · intro h
    cases hoccupied.symm.trans h
  · intro h
    cases hstarted.symm.trans h

theorem stream_prepareNames (h : Stream world writer) (hfree : world.mgr.slot.occupied = false)
    (authorization : CString) (metadata : Metadata) (env : Env) :
    Stream (prepareNames world authorization metadata env).1 writer := by
  obtain ⟨finalName, finalPath, uploadId, partPath, hnames⟩ :=
    prepareNames_eq world authorization metadata env
  rw [hnames]
  exact h.of_free hfree hfree ⟨rfl, rfl, rfl, rfl⟩ rfl rfl rfl

/-- An upload enters a free slot with an empty part file. -/
theorem stream_occupySlot (h : Stream world writer) (hfree : world.mgr.slot.occupied = false)
    {file : ℕ} (hfd : world.mgr.slot.fd = some file)
    (hentry : world.fs.entries world.mgr.slot.partPath = some file)
    {metadata : Metadata} (hreserved : (world.fs.files file).reserved ≤ metadata.size)
    (hwritten : (world.fs.files file).written = []) (client authorization : CString) (env : Env) :
    Stream (occupySlot world client authorization metadata env) writer := by
  have hstarted := h.unstarted hfree
  have hunused := h.unused hstarted
  have hplain : Plain (occupySlot world client authorization metadata env).mgr.chunks := by
    simp only [occupySlot]
    split <;> exact ⟨h.plain.transport, h.plain.finalizing, h.plain.writes⟩
  refine ⟨h.queue, h.fits, hplain, h.direct, h.counted, ?_,
    fun _ => ⟨hunused.received, hunused.buffered, hunused.queued, hunused.error⟩,
    fun _ => rfl, fun _ => ⟨file, hfd, hentry, hreserved, fun _ => ?_⟩, ?_⟩
  · intro hfree
    cases hfree
  · have hcontent := Queue.content_of_empty hunused.queued hunused.buffered
    rw [show (occupySlot world client authorization metadata env).fs = world.fs from rfl, hwritten,
      show (occupySlot world client authorization metadata env).mgr.queue = world.mgr.queue from
        rfl, hcontent, List.drop_nil]
    exact (h.accepted_of_unstarted hstarted).symm
  · intro h
    cases hstarted.symm.trans h

/-- Opening the part file fails in a slot that stays free, or fills the slot. -/
theorem stream_prepareOpen (h : Stream world writer) (hfree : world.mgr.slot.occupied = false)
    (client authorization : CString) (metadata : Metadata) (env : Env) :
    Stream (prepareOpen world client authorization metadata env).1 writer ∧
      ((prepareOpen world client authorization metadata env).2 ≠ .ok →
        (prepareOpen world client authorization metadata env).1.mgr.slot.occupied = false) := by
  have hstart : Stream (startPreparation world env) writer :=
    h.of_free hfree hfree ⟨rfl, rfl, rfl, rfl⟩ rfl rfl rfl
  have hspec := prepareOpen_spec world client authorization metadata env
  generalize prepareOpen world client authorization metadata env = opened at hspec
  cases hspec with
  | refused hresult =>
      exact ⟨hstart.of_free hfree hfree ⟨rfl, rfl, rfl, rfl⟩ rfl rfl rfl, fun _ => hfree⟩
  | failed hresult hopen hfs =>
      exact ⟨hstart.of_free hfree hfree ⟨rfl, rfl, rfl, rfl⟩ rfl rfl rfl, fun _ => hfree⟩
  | @occupied file fs fs' hopen hreserve =>
      obtain ⟨hentry, hfile⟩ := openPartFile_spec hopen
      obtain ⟨hwritten, hreserved⟩ := reserveUploadSpace_file hreserve
      have hopened : (openedPart (startPreparation world env) file fs).fs.files file = ⟨[], 0⟩ :=
        hfile
      rw [hopened] at hwritten hreserved
      have hentries := reserveUploadSpace_entries hreserve
      rw [show (openedPart (startPreparation world env) file fs).fs = fs from rfl] at hentries
      have hready : Stream { openedPart (startPreparation world env) file fs with fs := fs' }
          writer := hstart.of_free hfree hfree ⟨rfl, rfl, rfl, rfl⟩ rfl rfl rfl
      refine ⟨stream_occupySlot hready hfree rfl (hentries ▸ hentry) (by simpa using hreserved)
        hwritten client authorization env, fun hne => absurd rfl hne⟩

/-! ## Beginning and copying -/

theorem stream_beginStream (h : Stream world writer) (hoccupied : world.mgr.slot.occupied = true)
    (hstarted : world.mgr.slot.started = false) (env : Env) :
    Stream (beginStream world env) writer := by
  refine ⟨h.queue, h.fits, ⟨rfl, h.plain.finalizing, h.plain.writes⟩, h.direct, h.counted,
    h.free, ?_, fun _ => hoccupied, h.backed_same ⟨rfl, rfl, rfl⟩ ⟨rfl, rfl⟩ rfl rfl rfl,
    fun _ => ?_⟩
  · intro hunstarted
    cases hunstarted
  have hnone : accepted (beginStream world env).trace = [] := h.accepted_of_unstarted hstarted
  rw [hnone]
  exact absorbed_init

/-- The slot holds the started upload `id`. -/
structure Holds (world : World) (id : CString) : Prop where
  occupied : world.mgr.slot.occupied = true
  started : world.mgr.slot.started = true
  uploadId_eq : world.mgr.slot.uploadId = id

theorem stream_copyToBuffer {id : CString} (h : Stream world writer) (hholds : Holds world id)
    (hspace : world.mgr.queue.writeQueued ≠ UPLOAD_WRITE_QUEUE_DEPTH) {data : Bytes}
    (hdata : world.mgr.queue.buffered + data.length ≤ UPLOAD_WRITE_BUFFER_BYTES) (activity : ℕ) :
    Stream (copyToBuffer world id data activity) writer := by
  have hstarted : (copyToBuffer world id data activity).mgr.slot.started = true := hholds.started
  refine ⟨h.queue.copied hspace hdata, ?_, h.plain, h.direct, ?_, h.free, ?_, h.occupied, ?_, ?_⟩
  · have hfits := h.fits
    cases writer with
    | waiting => exact hfits
    | writing job done error => exact hfits
  · simp only [copyToBuffer, accepted, List.length_append, h.counted]
  · intro hunstarted
    cases hstarted.symm.trans hunstarted
  · intro hoccupied
    obtain ⟨file, hbacked⟩ := h.backed hoccupied
    refine ⟨file, hbacked.fd_eq, hbacked.entry, hbacked.reserved, fun herror => ?_⟩
    have hbefore := hbacked.bytes herror
    rw [copyToBuffer_queue, Queue.copied_content h.queue hspace,
      List.drop_append_of_le_length h.done_le, ← List.append_assoc]
    exact congrArg (· ++ data) hbefore
  · intro _
    exact absorbed_update (h.digest hholds.started) data

/-- Queueing the tail keeps head, flags and content. -/
structure Queued (queue queue' : Queue) : Prop where
  inOrder : queue'.InOrder
  content_eq : queue'.content = queue.content
  head_eq : queue'.writeHead = queue.writeHead
  size_eq : queue.writeQueued ≠ 0 →
    queue'.writeSizes queue.writeHead = queue.writeSizes queue.writeHead
  queued_le : queue.writeQueued ≤ queue'.writeQueued
  queued_eq : queue.buffered = 0 → queue'.writeQueued = queue.writeQueued
  buffered_eq : queue'.buffered = 0
  active_eq : queue'.writerActive = queue.writerActive
  error_eq : queue'.writerError = queue.writerError
  discard_eq : queue'.writerDiscard = queue.writerDiscard
  shutdown_eq : queue'.writerShutdown = queue.writerShutdown

theorem queued_of_enqueue {queue queue' : Queue} (h : queue.InOrder)
    (henqueue : enqueueWriteBufferLocked queue = .ok queue') : Queued queue queue' := by
  obtain ⟨hinOrder, hcontent⟩ := enqueueWriteBufferLocked_content h henqueue
  rcases enqueueWriteBufferLocked_cases queue with
    ⟨hwait, -⟩ | ⟨error, hfailed, -⟩ | ⟨hok, hempty⟩ | ⟨hok, hbuffered, hspace, -⟩
  · cases henqueue.symm.trans hwait
  · cases henqueue.symm.trans hfailed
  · cases henqueue.symm.trans hok
    exact ⟨h, rfl, rfl, fun _ => rfl, le_rfl, fun _ => rfl, hempty, rfl, rfl, rfl, rfl⟩
  · cases henqueue.symm.trans hok
    refine ⟨hinOrder, hcontent, rfl, fun hqueued => ?_, Nat.le_succ _,
      fun hempty => absurd hempty hbuffered, rfl, rfl, rfl, rfl, rfl⟩
    have hne := h.tail_ne hspace (Nat.pos_of_ne_zero hqueued)
    rw [RingBuffer.index_zero h.head_lt] at hne
    exact Function.update_of_ne hne ..

theorem stream_setQueue {queue : Queue} (h : Stream world writer)
    (hqueued : Queued world.mgr.queue queue) : Stream (world.setQueue queue) writer := by
  have hle := hqueued.queued_le
  refine ⟨hqueued.inOrder, ?_, h.plain, h.direct, h.counted, h.free, ?_, h.occupied, ?_, h.digest⟩
  · have hfits := h.fits
    cases writer with
    | waiting => exact hqueued.active_eq.trans hfits
    | writing job done error =>
        obtain ⟨hactive, hnonempty, hjob, hdone⟩ := hfits
        refine ⟨hqueued.active_eq.trans hactive, ?_, ?_, ?_⟩
        · simp only [World.setQueue]
          omega
        · simp only [World.setQueue, hqueued.head_eq, hqueued.size_eq hnonempty, hjob]
        · simpa only [World.setQueue, hqueued.head_eq, hqueued.size_eq hnonempty] using hdone
  · intro hunstarted
    have hunused := h.unused hunstarted
    exact ⟨hunused.received, hqueued.buffered_eq,
      (hqueued.queued_eq hunused.buffered).trans hunused.queued,
      hqueued.error_eq.trans hunused.error⟩
  · exact h.backed_same ⟨rfl, rfl, rfl⟩ ⟨hqueued.error_eq, hqueued.content_eq⟩ rfl rfl rfl

/-! ## The writer -/

theorem stream_pick {job : Job} (h : Stream world .waiting)
    (hjob : pickJob world.mgr = some job) :
    Stream { world with mgr.queue.writerActive := true } (.writing job 0 none) := by
  have hqueue := h.queue
  have hready : chunkReadyForWriterLocked world.mgr.chunks = false := by
    simp [chunkReadyForWriterLocked, h.plain.transport]
  simp only [pickJob] at hjob
  split at hjob
  · cases hjob
  split at hjob
  · rename_i hqueued
    cases hjob
    refine ⟨⟨hqueue.head_lt, hqueue.tail_eq, hqueue.queued_le, hqueue.full, hqueue.buffered_le,
      hqueue.filled, hqueue.sizes, hqueue.sizes_le⟩, ⟨rfl, hqueued, rfl, Nat.zero_le _⟩, h.plain,
      h.direct, h.counted, h.free, ?_, h.occupied,
      h.backed_same ⟨rfl, rfl, rfl⟩ ⟨rfl, rfl⟩ rfl rfl rfl, h.digest⟩
    intro hstarted
    exact absurd (h.unused hstarted).queued hqueued
  · rw [if_neg (by simp [hready])] at hjob
    cases hjob

/-- The head entry's bytes come first on the writer's way to the disk. -/
theorem content_drop_head {queue : Queue} {bytes : Bytes} {done count : ℕ} (h : queue.InOrder)
    (hqueued : queue.writeQueued ≠ 0) (hbytes : bytes = queue.slot queue.writeHead)
    (hcount : count ≤ (bytes.drop done).length) :
    (bytes.drop done).take count ++ queue.content.drop (done + count) =
      queue.content.drop done := by
  obtain ⟨later, hcontent, -⟩ := Queue.content_head h hqueued
  rw [List.length_drop] at hcount
  rw [hcontent, ← hbytes]
  by_cases hzero : count = 0
  · simp [hzero]
  · rw [List.drop_append_of_le_length (by omega), List.drop_append_of_le_length (by omega),
      ← List.append_assoc, ← List.drop_drop, List.take_append_drop]

/-- One `write` appends the bytes it reports, or leaves the files as they are. -/
theorem writeOnce_cases {fs fs' : Fs} {fd : Option ℕ} {rest : Bytes} {result : IoResult}
    {count : ℕ} {error : Option Errno}
    (h : writeOnce fs fd rest result = some (fs', count, error)) :
    (∃ file, fd = some file ∧ fs' = fs.append file (rest.take count) ∧ 0 < count ∧
      count ≤ rest.length ∧ error = none) ∨ (fs' = fs ∧ count = 0) := by
  unfold writeOnce at h
  split at h
  · rename_i file
    split at h
    · rename_i hcount
      cases h
      exact .inl ⟨file, rfl, rfl, hcount.1, hcount.2, rfl⟩
    · cases h
  all_goals
    cases h
  all_goals exact .inr ⟨rfl, rfl⟩

theorem writeOnce_entries {fs fs' : Fs} {fd : Option ℕ} {rest : Bytes} {result : IoResult}
    {count : ℕ} {error : Option Errno}
    (h : writeOnce fs fd rest result = some (fs', count, error)) : fs'.entries = fs.entries := by
  rcases writeOnce_cases h with ⟨file, -, rfl, -⟩ | ⟨rfl, -⟩ <;> rfl

theorem writeOnce_reserved {fs fs' : Fs} {fd : Option ℕ} {rest : Bytes} {result : IoResult}
    {count : ℕ} {error : Option Errno}
    (h : writeOnce fs fd rest result = some (fs', count, error)) (file : ℕ) :
    (fs'.files file).reserved = (fs.files file).reserved := by
  rcases writeOnce_cases h with ⟨file', -, rfl, -⟩ | ⟨rfl, -⟩
  · simp only [Fs.append, Function.update_apply]
    split
    · rename_i heq
      rw [heq]
    · rfl
  · rfl

/-- One `write` of the writer moves bytes from the ring to the part file. -/
theorem stream_writerIo {result : IoResult} {job : Job} {done count : ℕ} {bytes : Bytes} {fs : Fs}
    {error : Option Errno} (h : Stream world (.writing job done none))
    (hbytes : job.bytes world.mgr = some bytes)
    (hio : writeOnce world.fs world.mgr.slot.fd (bytes.drop done) result =
      some (fs, count, error)) :
    Stream { world with fs } (.writing job (done + count) error) := by
  obtain ⟨hactive, hqueued, rfl, hdone⟩ := h.fits
  have hslot : bytes = world.mgr.queue.slot world.mgr.queue.writeHead :=
    (Option.some.inj hbytes).symm
  have hlength := Queue.slot_head_length h.queue hqueued
  rw [← hslot] at hlength
  have hcount : count ≤ (bytes.drop done).length := by
    rcases writeOnce_cases hio with ⟨file, -, -, -, hcount, -⟩ | ⟨-, hzero⟩
    · exact hcount
    · omega
  refine ⟨h.queue, ⟨hactive, hqueued, rfl, ?_⟩, h.plain, h.direct, h.counted, h.free, h.unused,
    h.occupied, ?_, h.digest⟩
  · rw [List.length_drop] at hcount
    change done + count ≤ world.mgr.queue.writeSizes world.mgr.queue.writeHead
    omega
  · intro hoccupied
    obtain ⟨file, hbacked⟩ := h.backed hoccupied
    refine ⟨file, hbacked.fd_eq, ?_, ?_, fun herror => ?_⟩
    · rw [writeOnce_entries hio]
      exact hbacked.entry
    · rw [writeOnce_reserved hio]
      exact hbacked.reserved
    · have hsplit := content_drop_head h.queue hqueued hslot hcount
      rw [← hbacked.bytes herror]
      simp only [WriterPc.done] at hsplit ⊢
      rw [← hsplit, ← List.append_assoc]
      congr 1
      rcases writeOnce_cases hio with ⟨file', hfile, rfl, -⟩ | ⟨rfl, rfl⟩
      · cases hbacked.fd_eq.symm.trans hfile
        simp [Fs.append]
      · simp

theorem completeJob_queue (world : World) (index size : ℕ) (error : Option Errno)
    (elapsedNs : ℕ) :
    (completeJob world (.queue index size) error elapsedNs).mgr.queue =
      { world.mgr.queue.popped index with
        writerActive := false
        writerError := if world.mgr.queue.writerError = none then error
          else world.mgr.queue.writerError } := rfl

/-- The writer gives its entry back; the bytes of a failed job are lost. -/
theorem stream_completeJob {job : Job} {done : ℕ} {error : Option Errno}
    (h : Stream world (.writing job done error)) (hdone : error.isSome ∨ done = job.size)
    (elapsedNs : ℕ) : Stream (completeJob world job error elapsedNs) .waiting := by
  obtain ⟨hactive, hqueued, rfl, hle⟩ := h.fits
  have hpopped := h.queue.popped hqueued
  have hstarted : world.mgr.slot.started ≠ false := fun hfalse =>
    hqueued (h.unused hfalse).queued
  refine ⟨⟨hpopped.head_lt, hpopped.tail_eq, hpopped.queued_le, hpopped.full, hpopped.buffered_le,
    hpopped.filled, hpopped.sizes, hpopped.sizes_le⟩, rfl, h.plain, h.direct, h.counted, h.free,
    fun hfalse => absurd hfalse hstarted, h.occupied, ?_, h.digest⟩
  intro hoccupied
  obtain ⟨file, hbacked⟩ := h.backed hoccupied
  refine ⟨file, hbacked.fd_eq, hbacked.entry, hbacked.reserved, fun herror => ?_⟩
  rw [completeJob_queue] at herror ⊢
  dsimp only at herror
  split at herror
  · rename_i hnone
    obtain rfl : done = world.mgr.queue.writeSizes world.mgr.queue.writeHead := by
      simpa [herror, Job.size] using hdone
    obtain ⟨later, hcontent, hlater⟩ := Queue.content_head h.queue hqueued
    have hlength := Queue.slot_head_length h.queue hqueued
    have hold := hbacked.bytes hnone
    rw [hcontent] at hold
    simp only [WriterPc.done, ← hlength, List.drop_left] at hold
    rw [show accepted (completeJob world _ error elapsedNs).trace = accepted world.trace from rfl,
      ← hold, ← hlater]
    rfl
  · rename_i hsome
    exact absurd herror hsome

/-! ## The loop of `upload_write` -/

/-- The copy went into the upload it was meant for. -/
def Copy.Own (copy : Copy) : Prop := copy.occupied = true ∧ copy.uploadId = copy.requested

/-- The copy went into no buffer that was queued or being written. -/
def Copy.Apart (copy : Copy) : Prop :=
  ∀ i < copy.writeQueued,
    copy.index ≠ RingBuffer.index UPLOAD_WRITE_QUEUE_DEPTH copy.writeHead i

/-- From `world` to `next` the bytes `copied` have been taken for upload `id`. -/
structure Fills (writer : WriterPc) (id : CString) (world : World) (copied : Bytes)
    (next : World) : Prop where
  stream : Stream next writer
  holds : Holds next id
  accepted_eq : accepted next.trace = accepted world.trace ++ copied
  copies : ∃ copies : List Copy, next.trace = copies.map Event.copied ++ world.trace ∧
    ∀ copy ∈ copies, copy.Own ∧ copy.Apart
  slot_eq : ∃ received sha256 activity, next.mgr.slot =
    { world.mgr.slot with received, sha256, lastActivity := activity }
  settings_eq : next.mgr.settings = world.mgr.settings
  fs_eq : next.fs = world.fs
  host_eq : next.host = world.host
  error_eq : next.mgr.queue.writerError = world.mgr.queue.writerError
  discard_eq : next.mgr.queue.writerDiscard = world.mgr.queue.writerDiscard
  shutdown_eq : next.mgr.queue.writerShutdown = world.mgr.queue.writerShutdown

theorem Fills.refl {id : CString} (h : Stream world writer) (hholds : Holds world id) :
    Fills writer id world [] world :=
  ⟨h, hholds, (List.append_nil _).symm, ⟨[], rfl, by simp⟩, ⟨_, _, _, rfl⟩, rfl, rfl, rfl, rfl,
    rfl, rfl⟩

theorem Fills.trans {id : CString} {middle : World} {copied copied' : Bytes}
    (hfirst : Fills writer id world copied middle)
    (hsecond : Fills writer id middle copied' next) :
    Fills writer id world (copied ++ copied') next := by
  refine ⟨hsecond.stream, hsecond.holds, ?_, ?_, ?_, hsecond.settings_eq.trans hfirst.settings_eq,
    hsecond.fs_eq.trans hfirst.fs_eq, hsecond.host_eq.trans hfirst.host_eq,
    hsecond.error_eq.trans hfirst.error_eq, hsecond.discard_eq.trans hfirst.discard_eq,
    hsecond.shutdown_eq.trans hfirst.shutdown_eq⟩
  · rw [hsecond.accepted_eq, hfirst.accepted_eq, List.append_assoc]
  · obtain ⟨copies, htrace, hcopies⟩ := hfirst.copies
    obtain ⟨copies', htrace', hcopies'⟩ := hsecond.copies
    refine ⟨copies' ++ copies, by simp [htrace', htrace], ?_⟩
    intro copy hmem
    rcases List.mem_append.mp hmem with hmem | hmem
    · exact hcopies' copy hmem
    · exact hcopies copy hmem
  · obtain ⟨_, _, _, hslot⟩ := hfirst.slot_eq
    obtain ⟨_, _, _, hslot'⟩ := hsecond.slot_eq
    exact ⟨_, _, _, by rw [hslot', hslot]⟩

theorem fills_copyToBuffer {id : CString} (h : Stream world writer) (hholds : Holds world id)
    (hspace : world.mgr.queue.writeQueued ≠ UPLOAD_WRITE_QUEUE_DEPTH) (rest : Bytes)
    (activity : ℕ) :
    Fills writer id world (rest.take (world.mgr.queue.roundCount rest))
      (copyToBuffer world id (rest.take (world.mgr.queue.roundCount rest)) activity) := by
  have hle := h.queue.buffered_le
  have hdata : world.mgr.queue.buffered +
      (rest.take (world.mgr.queue.roundCount rest)).length ≤ UPLOAD_WRITE_BUFFER_BYTES := by
    rw [List.length_take]
    simp only [Queue.roundCount, sub64, if_pos hle]
    omega
  refine ⟨stream_copyToBuffer h hholds hspace hdata activity,
    ⟨hholds.occupied, hholds.started, hholds.uploadId_eq⟩, rfl, ⟨[_], rfl, ?_⟩,
    ⟨_, _, _, rfl⟩, rfl, rfl, rfl, rfl, rfl, rfl⟩
  intro copy hmem
  obtain rfl := List.mem_singleton.mp hmem
  exact ⟨⟨hholds.occupied, hholds.uploadId_eq⟩, fun i hi => (h.queue.tail_ne hspace hi).symm⟩

theorem fills_setQueue {id : CString} {queue : Queue} (h : Stream world writer)
    (hholds : Holds world id) (henqueue : enqueueWriteBufferLocked world.mgr.queue = .ok queue) :
    Fills writer id world [] (world.setQueue queue) := by
  have hqueued := queued_of_enqueue h.queue henqueue
  exact ⟨stream_setQueue h hqueued, ⟨hholds.occupied, hholds.started, hholds.uploadId_eq⟩,
    (List.append_nil _).symm, ⟨[], rfl, by simp⟩, ⟨_, _, _, rfl⟩, rfl, rfl, rfl,
    hqueued.error_eq, hqueued.discard_eq, hqueued.shutdown_eq⟩

/-- How the loop ends with `rest` left to copy. -/
inductive WriteEnds (world : World) (id : CString) (rest : Bytes) : Outcome → Prop
  | done (hrest : rest = []) : WriteEnds world id rest (.of .ok)
  | full (hrest : rest ≠ []) (hfull : world.mgr.queue.writeQueued = UPLOAD_WRITE_QUEUE_DEPTH) :
      WriteEnds world id rest (.park (.writeFull id rest))
  | failed (error : Errno) (hstopped : world.mgr.queue.writerError = some error ∨
      world.mgr.queue.writerDiscard = true ∨ world.mgr.queue.writerShutdown = true) :
      WriteEnds world id rest (.of error.result)

/-- The loop takes a prefix of its bytes, in order, and ends for one of three reasons. -/
theorem writeLoop_spec {id : CString} {rest : Bytes} (h : Stream world writer)
    (hholds : Holds world id) (activity : ℕ) :
    ∃ copied rest', rest = copied ++ rest' ∧
      Fills writer id world copied (writeLoop world id rest activity).1 ∧
      WriteEnds (writeLoop world id rest activity).1 id rest'
        (writeLoop world id rest activity).2 := by
  fun_induction writeLoop world id rest activity with
  | case1 world => exact ⟨[], [], rfl, .refl h hholds, .done rfl⟩
  | case2 world rest hrest hfull =>
      exact ⟨[], rest, rfl, .refl h hholds, .full hrest hfull.1⟩
  | case3 =>
      rename_i error herror
      exact ⟨[], _, rfl, .refl h hholds, .failed error (.inl herror)⟩
  | case4 =>
      rename_i world rest hrest hfull herror count copied hbuffered hwait
      have hspace := fun hqueued => hfull ⟨hqueued, herror⟩
      have hfills := fills_copyToBuffer h hholds hspace rest activity
      exact absurd hwait (enqueueWriteBufferLocked_ne_wait hfills.stream.queue)
  | case5 =>
      rename_i world rest hrest hfull herror count copied hbuffered error hfailed
      have hspace := fun hqueued => hfull ⟨hqueued, herror⟩
      have hfills := fills_copyToBuffer h hholds hspace rest activity
      refine ⟨_, _, (List.take_append_drop count rest).symm, hfills, ?_⟩
      rcases enqueueWriteBufferLocked_cases copied.mgr.queue with
        ⟨hwait, -⟩ | ⟨error', hfailed', hstopped⟩ | ⟨hok, -⟩ | ⟨hok, -⟩
      · cases hfailed.symm.trans hwait
      · cases hfailed.symm.trans hfailed'
        exact .failed error hstopped
      · cases hfailed.symm.trans hok
      · cases hfailed.symm.trans hok
  | case6 =>
      rename_i world rest hrest hfull herror count copied hbuffered queue hqueue ih
      have hspace := fun hqueued => hfull ⟨hqueued, herror⟩
      have hfills := fills_copyToBuffer h hholds hspace rest activity
      have hpushed := fills_setQueue hfills.stream hfills.holds hqueue
      obtain ⟨copied', rest', hrest', hfills', hends⟩ := ih hpushed.stream hpushed.holds
      refine ⟨rest.take count ++ copied', rest', ?_, ?_, hends⟩
      · rw [List.append_assoc, ← hrest', List.take_append_drop]
      · simpa using hfills.trans (hpushed.trans hfills')
  | case7 =>
      rename_i world rest hrest hfull herror count copied hbuffered ih
      have hspace := fun hqueued => hfull ⟨hqueued, herror⟩
      have hfills := fills_copyToBuffer h hholds hspace rest activity
      obtain ⟨copied', rest', hrest', hfills', hends⟩ := ih hfills.stream hfills.holds
      refine ⟨rest.take count ++ copied', rest', ?_, hfills.trans hfills', hends⟩
      rw [List.append_assoc, ← hrest', List.take_append_drop]

end LocalSend.Upload
