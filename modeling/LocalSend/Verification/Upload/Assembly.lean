import LocalSend.Verification.Sha256.Correctness
import LocalSend.Verification.Upload.Chunks

/-! # The file made of chunks

Chunks come in any order and may be begun anew. The part file holds those behind the
writer's cursor, in order, each with the bytes written to it since it was last begun.
-/

namespace LocalSend.Upload

open Sha256 Transition

/-! ## What the events say -/

/-- The calls of a chunk transfer. -/
def Call.chunked : Call → Bool
  | .chunkBegin _ _ _ _ _ _ => true
  | .chunkWrite _ _ _ => true
  | .chunkFinish _ _ _ => true
  | .chunkAbort _ _ _ => true
  | .finishChunks _ _ _ => true
  | _ => false

/-- The bytes written to chunk `index` since it was last begun. -/
def chunkData (index : ℕ) : List Event → Bytes
  | [] => []
  | .returned (.chunkBegin _ _ _ _ offset _) reply :: events =>
      if reply.result = .ok ∧ offset / UPLOAD_CHUNK_BYTES = index then []
      else chunkData index events
  | .returned (.chunkWrite _ offset data) reply :: events =>
      if reply.result = .ok ∧ offset / UPLOAD_CHUNK_BYTES = index then
        chunkData index events ++ data
      else chunkData index events
  | _ :: events => chunkData index events

/-- The chunks in front of `count`, one behind the other. -/
def assembled (events : List Event) (count : ℕ) : Bytes :=
  (List.range count).flatMap fun index => chunkData index events

/-- The chunks the writer has written, in order. -/
def drainedChunks : List Event → List ℕ
  | [] => []
  | .drained index :: events => drainedChunks events ++ [index]
  | _ :: events => drainedChunks events

/-- The reply hands back the digest of a file published. -/
def Reported (reply : Reply) (events : List Event) : Prop :=
  ∃ requested path content digest,
    .published requested path content digest ∈ events ∧ reply.digest = some digest

/-- The file published is made of all chunks of an upload of `size` bytes, each written once
and none in vain, and the digest is its own. -/
structure Assembled (size : ℕ) (expectedHash content digest : Bytes) (events : List Event) :
    Prop where
  lengths : ∀ index < chunkCountFor size,
    (chunkData index events).length = chunkLengthFor size index
  content_eq : content = assembled events (chunkCountFor size)
  length_eq : content.length = size
  once : drainedChunks events = List.range (chunkCountFor size)
  digest_eq : digest = sha256Hex (Fips.sha256 content)
  hash : expectedHash = [] ∨ expectedHash = digest
  written : .writeFailed ∉ events

/-- Every file published was assembled when it was, and every finish that succeeds reports
one. -/
def Assembles (size : ℕ) (expectedHash : CString) : List Event → Prop
  | [] => True
  | .published _ _ content digest :: events =>
      Assembled size expectedHash content digest events ∧ Assembles size expectedHash events
  | .returned (.finishChunks _ _ _) reply :: events =>
      (reply.result = .ok → Reported reply events) ∧ Assembles size expectedHash events
  | _ :: events => Assembles size expectedHash events

/-- The event neither begins a chunk nor adds to one, and the writer has no part in it. -/
structure Event.Silent (event : Event) : Prop where
  data : ∀ index events, chunkData index (event :: events) = chunkData index events
  drained : ∀ events, drainedChunks (event :: events) = drainedChunks events
  written : event ≠ .writeFailed

variable {size : ℕ} {hash : CString} {events : List Event} {world next : World}
  {writer : WriterPc}

theorem silent_refused {call : Call} {reply : Reply} (h : reply.result ≠ .ok) :
    (Event.returned call reply).Silent := by
  refine ⟨fun index events => ?_, fun events => rfl, by simp⟩
  cases call <;> simp [chunkData, h]

/-- Writing nothing adds nothing. -/
theorem silent_writeNothing (id : CString) (offset : ℕ) (reply : Reply) :
    (Event.returned (.chunkWrite id offset []) reply).Silent := by
  refine ⟨fun index events => ?_, fun events => rfl, by simp⟩
  simp [chunkData]

/-- Only a begin and a write change what a chunk is made of. -/
theorem silent_other {call : Call} (hbegin : ∀ id client authorization total offset length,
      call ≠ .chunkBegin id client authorization total offset length)
    (hwrite : ∀ id offset data, call ≠ .chunkWrite id offset data) (reply : Reply) :
    (Event.returned call reply).Silent := by
  refine ⟨fun index events => ?_, fun events => rfl, by simp⟩
  cases call with
  | chunkBegin id client authorization total offset length =>
      exact absurd rfl (hbegin id client authorization total offset length)
  | chunkWrite id offset data => exact absurd rfl (hwrite id offset data)
  | _ => rfl

theorem assembled_congr {events' : List Event} {count : ℕ}
    (h : ∀ index < count, chunkData index events' = chunkData index events) :
    assembled events' count = assembled events count := by
  apply List.flatMap_congr
  intro index hindex
  exact h index (List.mem_range.mp hindex)

theorem assembled_succ (events : List Event) (count : ℕ) :
    assembled events (count + 1) = assembled events count ++ chunkData count events := by
  rw [assembled, List.range_succ, List.flatMap_append, List.flatMap_singleton]
  rfl

/-- Chunks of the right lengths make a file of the right length. -/
theorem length_assembled {count : ℕ}
    (h : ∀ index < count, (chunkData index events).length = chunkLengthFor size index) :
    (assembled events count).length = Tally.total count (chunkLengthFor size) := by
  induction count with
  | zero => rfl
  | succ count ih =>
      rw [assembled_succ, List.length_append, ih fun index hindex => h index (by omega),
        h count (by omega), Tally.total_succ]

/-- All chunks of an upload are together as long as it. -/
theorem length_assembled_all
    (h : ∀ index < chunkCountFor size,
      (chunkData index events).length = chunkLengthFor size index) :
    (assembled events (chunkCountFor size)).length = size := by
  rw [length_assembled h, total_chunkLengthFor]
  refine min_eq_left (not_lt.mp fun hlt => ?_)
  exact absurd (lt_chunkCountFor.mpr hlt) (lt_irrefl _)

/-! ## The upload between two steps -/

/-- What the writer has written of the chunk it is at. -/
def WriterPc.underway (events : List Event) : WriterPc → Bytes
  | .writing (.chunk index _ _) done _ => (chunkData index events).take done
  | _ => []

/-- The part file is open, and holds the chunks behind the cursor and what the writer has
written of the next, unless a write has failed. -/
structure Filed (size : ℕ) (world : World) (writer : WriterPc) (events : List Event) (file : ℕ) :
    Prop where
  fd_eq : world.mgr.slot.fd = some file
  entry : world.fs.entries world.mgr.slot.partPath = some file
  reserved : (world.fs.files file).reserved ≤ size
  written : world.mgr.queue.writerError = none → (world.fs.files file).written =
    assembled events world.mgr.chunks.nextChunkToWrite ++ writer.underway events

/-- An upload of `size` bytes in the slot that comes in chunks. -/
structure Transfer (size : ℕ) (hash : CString) (world : World) (writer : WriterPc)
    (events : List Event) : Prop where
  size_eq : world.mgr.slot.expectedSize = size
  hash_eq : world.mgr.slot.expectedHash = hash
  tables : Tables size world.mgr.slot.received world.mgr.chunks
  unqueued : world.mgr.queue.writeQueued = 0
  part : ∃ file, Filed size world writer events file
  data : ∀ index buffer, world.mgr.chunks.chunkBuffers index = some buffer →
    buffer.bytes = chunkData index events
  stored : ∀ index < world.mgr.chunks.nextChunkToWrite,
    (chunkData index events).length = chunkLengthFor size index
  drained : drainedChunks events = List.range world.mgr.chunks.nextChunkToWrite
  failed : .writeFailed ∈ events → world.mgr.queue.writerError ≠ none ∨
    ∃ job done error, writer = .writing job done (some error)

/-- The parts of the manager a chunk call leaves alone. -/
structure SameFile (world next : World) : Prop where
  size_eq : next.mgr.slot.expectedSize = world.mgr.slot.expectedSize
  hash_eq : next.mgr.slot.expectedHash = world.mgr.slot.expectedHash
  fd_eq : next.mgr.slot.fd = world.mgr.slot.fd
  partPath_eq : next.mgr.slot.partPath = world.mgr.slot.partPath
  queued_eq : next.mgr.queue.writeQueued = world.mgr.queue.writeQueued
  error_eq : next.mgr.queue.writerError = world.mgr.queue.writerError
  fs_eq : next.fs = world.fs
  next_eq : next.mgr.chunks.nextChunkToWrite = world.mgr.chunks.nextChunkToWrite

/-- The chunk the writer is at is complete. -/
theorem WriterInv.complete {index address size' done : ℕ} {error : Option Errno}
    (h : WriterInv world.mgr (.writing (.chunk index address size') done error)) :
    index = world.mgr.chunks.nextChunkToWrite ∧
      (world.mgr.chunks.chunkStates index).complete = true := by
  cases h.working.2.1 with
  | chunk _ hready =>
      simp only [chunkReadyForWriterLocked, decide_eq_true_eq] at hready
      exact ⟨rfl, by rw [hready.2.2.2.1]; rfl⟩

/-- A call changes the tables, and what is recorded agrees with that: what is complete stays
as it is. -/
theorem Transfer.change (h : Transfer size hash world writer events)
    (hwriter : WriterInv world.mgr writer) (hsame : SameFile world next) {events' : List Event}
    (htables : Tables size next.mgr.slot.received next.mgr.chunks)
    (hdata : ∀ index buffer, next.mgr.chunks.chunkBuffers index = some buffer →
      buffer.bytes = chunkData index events')
    (hkept : ∀ index, (world.mgr.chunks.chunkStates index).complete = true →
      chunkData index events' = chunkData index events)
    (hdrained : drainedChunks events' = drainedChunks events)
    (hfailed : .writeFailed ∈ events' → .writeFailed ∈ events) :
    Transfer size hash next writer events' := by
  have hstored : ∀ index < world.mgr.chunks.nextChunkToWrite,
      chunkData index events' = chunkData index events := by
    intro index hindex
    refine hkept index ?_
    rw [((h.tables.entry index).stored_iff).mpr hindex]
    rfl
  have hunderway : writer.underway events' = writer.underway events := by
    cases writer with
    | waiting => rfl
    | writing job done error =>
        cases job with
        | queue => rfl
        | chunk index address size' =>
            rw [WriterPc.underway, WriterPc.underway, hkept index hwriter.complete.2]
  obtain ⟨file, hfiled⟩ := h.part
  refine ⟨hsame.size_eq.trans h.size_eq, hsame.hash_eq.trans h.hash_eq, htables,
    hsame.queued_eq.trans h.unqueued, ⟨file, ?_, ?_, ?_, ?_⟩, hdata, ?_, ?_, ?_⟩
  · exact hsame.fd_eq.trans hfiled.fd_eq
  · rw [hsame.fs_eq, hsame.partPath_eq]
    exact hfiled.entry
  · rw [hsame.fs_eq]
    exact hfiled.reserved
  · rw [hsame.fs_eq, hsame.error_eq, hsame.next_eq, assembled_congr hstored, hunderway]
    exact hfiled.written
  · rw [hsame.next_eq]
    intro index hindex
    rw [hstored index hindex]
    exact h.stored index hindex
  · rw [hsame.next_eq, hdrained]
    exact h.drained
  · intro hmem
    rw [hsame.error_eq]
    exact h.failed (hfailed hmem)

/-- Flags are changed, or a buffer is freed, and nothing is recorded. -/
theorem Transfer.same (h : Transfer size hash world writer events)
    (hwriter : WriterInv world.mgr writer) (hsame : SameFile world next)
    (htables : Tables size next.mgr.slot.received next.mgr.chunks)
    (hbuffers : ∀ index buffer, next.mgr.chunks.chunkBuffers index = some buffer →
      world.mgr.chunks.chunkBuffers index = some buffer) :
    Transfer size hash next writer events :=
  h.change hwriter hsame htables
    (fun index buffer hbuffer => h.data index buffer (hbuffers index buffer hbuffer))
    (fun _ _ => rfl) rfl id

/-- An event that says nothing is recorded. -/
theorem Transfer.note (h : Transfer size hash world writer events)
    (hwriter : WriterInv world.mgr writer) {event : Event} (hsilent : event.Silent) :
    Transfer size hash (world.note event) writer (event :: events) := by
  have hsame : SameFile world (world.note event) := ⟨rfl, rfl, rfl, rfl, rfl, rfl, rfl, rfl⟩
  refine h.change hwriter hsame h.tables (fun index buffer hbuffer => ?_)
    (fun index _ => hsilent.data index events) (hsilent.drained events) fun hmem => ?_
  · rw [hsilent.data]
    exact h.data index buffer hbuffer
  · exact (List.mem_cons.mp hmem).resolve_left hsilent.written.symm

/-! ## The chunk calls -/

/-- A chunk begun is empty, whatever it was before. -/
theorem Transfer.accept (h : Transfer size hash world writer events)
    (hwriter : WriterInv world.mgr writer) {id client authorization : CString}
    {total offset length : ℕ}
    (hindex : offset / UPLOAD_CHUNK_BYTES < world.mgr.chunks.chunkCount)
    (habsent : world.mgr.chunks.chunkStates (offset / UPLOAD_CHUNK_BYTES) = .absent)
    (hspace : world.mgr.chunks.activeChunkBuffers < UPLOAD_CHUNK_BUFFER_SLOTS) (address : ℕ)
    (env : Env) :
    Transfer size hash
      ((acceptChunk world (offset / UPLOAD_CHUNK_BYTES) address env).note
        (.returned (.chunkBegin id client authorization total offset length) (.of .ok))) writer
      (.returned (.chunkBegin id client authorization total offset length) (.of .ok) ::
        events) := by
  have hsame : SameFile world
      ((acceptChunk world (offset / UPLOAD_CHUNK_BYTES) address env).note
        (.returned (.chunkBegin id client authorization total offset length) (.of .ok))) :=
    ⟨rfl, rfl, rfl, rfl, rfl, rfl, rfl, rfl⟩
  refine h.change hwriter hsame (h.tables.accept hindex habsent hspace address _) ?_ ?_ rfl ?_
  · intro index buffer hbuffer
    simp only [World.note, acceptChunk, Chunks.accept, Function.update_apply] at hbuffer
    simp only [chunkData, Reply.of, true_and]
    by_cases hthis : index = offset / UPLOAD_CHUNK_BYTES
    · rw [if_pos hthis] at hbuffer
      cases hbuffer
      rw [if_pos hthis.symm]
    · rw [if_neg hthis] at hbuffer
      rw [if_neg (Ne.symm hthis)]
      exact h.data index buffer hbuffer
  · intro index hcomplete
    have hother : offset / UPLOAD_CHUNK_BYTES ≠ index := by
      rintro rfl
      rw [habsent] at hcomplete
      cases hcomplete
    simp [chunkData, hother]
  · simp

/-- What is written goes behind what the chunk has. -/
theorem Transfer.store (h : Transfer size hash world writer events)
    (hwriter : WriterInv world.mgr writer) {id : CString} {offset : ℕ} {data : Bytes}
    (hreceives : world.mgr.chunks.receives (offset / UPLOAD_CHUNK_BYTES) = true)
    (hfits : world.mgr.chunks.chunkProgress (offset / UPLOAD_CHUNK_BYTES) + data.length ≤
      chunkLengthFor size (offset / UPLOAD_CHUNK_BYTES)) (env : Env) :
    Transfer size hash
      ((storeChunk world (offset / UPLOAD_CHUNK_BYTES)
        (world.mgr.chunks.chunkProgress (offset / UPLOAD_CHUNK_BYTES)) data env).note
        (.returned (.chunkWrite id offset data) (.of .ok))) writer
      (.returned (.chunkWrite id offset data) (.of .ok) :: events) := by
  have hsame : SameFile world
      ((storeChunk world (offset / UPLOAD_CHUNK_BYTES)
        (world.mgr.chunks.chunkProgress (offset / UPLOAD_CHUNK_BYTES)) data env).note
        (.returned (.chunkWrite id offset data) (.of .ok))) :=
    ⟨rfl, rfl, rfl, rfl, rfl, rfl, rfl, rfl⟩
  refine h.change hwriter hsame (h.tables.store hreceives hfits) ?_ ?_ rfl ?_
  · intro index buffer hbuffer
    simp only [World.note, storeChunk, Chunks.store, Function.update_apply] at hbuffer
    simp only [chunkData, Reply.of, true_and]
    by_cases hthis : index = offset / UPLOAD_CHUNK_BYTES
    · rw [if_pos hthis, Option.map_eq_some_iff] at hbuffer
      obtain ⟨before, hbefore, rfl⟩ := hbuffer
      have hlength := (h.tables.entry _).contents before hbefore
      rw [if_pos hthis.symm, hthis, ← h.data _ before hbefore, ← hlength]
      simp [Buffer.splice]
    · rw [if_neg hthis] at hbuffer
      rw [if_neg (Ne.symm hthis)]
      exact h.data index buffer hbuffer
  · intro index hcomplete
    have hother : offset / UPLOAD_CHUNK_BYTES ≠ index := by
      rintro rfl
      rw [Chunks.receiving_of_receives hreceives] at hcomplete
      cases hcomplete
    simp [chunkData, hother]
  · simp

/-- A chunk given up has no buffer any more. -/
theorem Transfer.drop (h : Transfer size hash world writer events)
    (hwriter : WriterInv world.mgr writer) {index : ℕ}
    (hreceiving : world.mgr.chunks.chunkStates index = .receiving) :
    Transfer size hash (dropChunk world index) writer events := by
  have hsame : SameFile world (dropChunk world index) := ⟨rfl, rfl, rfl, rfl, rfl, rfl, rfl, rfl⟩
  refine h.same hwriter hsame ?_ fun other buffer hbuffer => ?_
  · rw [dropChunk_received (h.size_eq ▸ h.tables) hreceiving]
    exact h.tables.drop hreceiving
  · simp only [dropChunk, Chunks.drop, Function.update_apply] at hbuffer
    by_cases hthis : other = index
    · rw [if_pos hthis] at hbuffer
      cases hbuffer
    · rwa [if_neg hthis] at hbuffer

theorem Transfer.abort (h : Transfer size hash world writer events)
    (hwriter : WriterInv world.mgr writer) {index : ℕ}
    (hreceiving : world.mgr.chunks.chunkStates index = .receiving) (env : Env) :
    Transfer size hash (abortChunk world index env) writer events := by
  have hdropped := h.drop hwriter hreceiving
  obtain ⟨file, hfiled⟩ := hdropped.part
  exact ⟨hdropped.size_eq, hdropped.hash_eq, hdropped.tables, hdropped.unqueued,
    ⟨file, hfiled.fd_eq, hfiled.entry, hfiled.reserved, hfiled.written⟩, hdropped.data,
    hdropped.stored, hdropped.drained, hdropped.failed⟩

theorem Transfer.ready (h : Transfer size hash world writer events)
    (hwriter : WriterInv world.mgr writer) {index : ℕ}
    (hreceives : world.mgr.chunks.receives index = true)
    (hcomplete : world.mgr.chunks.chunkProgress index = chunkLengthFor size index) (env : Env) :
    Transfer size hash (readyChunk world index env) writer events := by
  have hsame : SameFile world (readyChunk world index env) :=
    ⟨rfl, rfl, rfl, rfl, rfl, rfl, rfl, rfl⟩
  exact h.same hwriter hsame
    (h.tables.makeReady (Chunks.receiving_of_receives hreceives) hcomplete)
    fun _ _ hbuffer => hbuffer

theorem Transfer.setFinalizing (h : Transfer size hash world writer events)
    (hwriter : WriterInv world.mgr writer) (finalizing : Bool) :
    Transfer size hash (world.setFinalizing finalizing) writer events := by
  have hsame : SameFile world (world.setFinalizing finalizing) :=
    ⟨rfl, rfl, rfl, rfl, rfl, rfl, rfl, rfl⟩
  exact h.same hwriter hsame (h.tables.setFlags ..) fun _ _ hbuffer => hbuffer

theorem Transfer.clearStart (h : Transfer size hash world writer events)
    (hwriter : WriterInv world.mgr writer) :
    Transfer size hash (clearStart world) writer events := by
  have hsame : SameFile world (Upload.clearStart world) := ⟨rfl, rfl, rfl, rfl, rfl, rfl, rfl, rfl⟩
  exact h.same hwriter hsame h.tables fun _ _ hbuffer => hbuffer

/-! ## The writer -/

/-- The writer is at the chunk behind the cursor. -/
theorem Transfer.chunkJob (h : Transfer size hash world writer events) {job : Job} {done : ℕ}
    {error : Option Errno} (hwriter : WriterInv world.mgr (.writing job done error)) :
    ∃ buffer, world.mgr.chunks.chunkBuffers world.mgr.chunks.nextChunkToWrite = some buffer ∧
      world.mgr.chunks.chunkStates world.mgr.chunks.nextChunkToWrite = .ready ∧
      world.mgr.chunks.chunkArrays = true ∧
      job = .chunk world.mgr.chunks.nextChunkToWrite buffer.address
        (chunkLengthFor size world.mgr.chunks.nextChunkToWrite) := by
  cases hwriter.working.2.1 with
  | queue hqueued => exact absurd h.unqueued hqueued
  | @chunk buffer _ hready hbuffer =>
      simp only [chunkReadyForWriterLocked, decide_eq_true_eq] at hready
      exact ⟨buffer, hbuffer, hready.2.2.2.1, hready.2.2.1, by rw [h.size_eq]⟩

theorem Transfer.pick (h : Transfer size hash world .waiting events) {job : Job}
    (hjob : pickJob world.mgr = some job) :
    Transfer size hash { world with mgr.queue.writerActive := true } (.writing job 0 none)
      events := by
  have hunderway : (WriterPc.writing job 0 none).underway events = [] := by
    cases job with
    | queue => rfl
    | chunk => rfl
  obtain ⟨file, hfiled⟩ := h.part
  refine ⟨h.size_eq, h.hash_eq, h.tables, h.unqueued,
    ⟨file, hfiled.fd_eq, hfiled.entry, hfiled.reserved, ?_⟩, h.data, h.stored, h.drained, ?_⟩
  · rw [hunderway]
    exact hfiled.written
  · intro hmem
    rcases h.failed hmem with herror | ⟨_, _, _, hwriting⟩
    · exact .inl herror
    · cases hwriting

/-- A complete chunk is as long as it should be. -/
theorem Transfer.length_ready (h : Transfer size hash world writer events) {index : ℕ}
    (hready : world.mgr.chunks.chunkStates index = .ready) {buffer : ChunkBuffer}
    (hbuffer : world.mgr.chunks.chunkBuffers index = some buffer) :
    (chunkData index events).length = chunkLengthFor size index := by
  have hentry := h.tables.entry index
  rw [← h.data index buffer hbuffer, hentry.contents buffer hbuffer]
  exact hentry.complete (by rw [hready]; rfl)

/-- One `write` of the writer takes the next bytes of its chunk to the part file. -/
theorem Transfer.writerIo {result : IoResult} {job : Job} {done count : ℕ} {bytes : Bytes}
    {fs : Fs} {error : Option Errno} (h : Transfer size hash world (.writing job done none) events)
    (hwriter : WriterInv world.mgr (.writing job done none))
    (hbytes : job.bytes world.mgr = some bytes)
    (hio : writeOnce world.fs world.mgr.slot.fd (bytes.drop done) result =
      some (fs, count, error)) :
    Transfer size hash { world with fs } (.writing job (done + count) error) events := by
  obtain ⟨buffer, hbuffer, hready, -, rfl⟩ := h.chunkJob hwriter
  have hdata := h.data _ buffer hbuffer
  have hlength := h.length_ready hready hbuffer
  obtain ⟨file, hfiled⟩ := h.part
  have hwritten : world.mgr.queue.writerError = none → (fs.files file).written =
      assembled events world.mgr.chunks.nextChunkToWrite ++
        (chunkData world.mgr.chunks.nextChunkToWrite events).take (done + count) := by
    intro herror
    have hbefore := hfiled.written herror
    simp only [WriterPc.underway] at hbefore
    simp only [Job.bytes, hbuffer, if_true, hdata, Option.some.injEq, ← hlength,
      List.take_length] at hbytes
    subst hbytes
    rcases writeOnce_cases hio with ⟨other, hfd, rfl, -, -, -⟩ | ⟨rfl, rfl⟩
    · cases hfd.symm.trans hfiled.fd_eq
      simp only [Fs.append, Function.update_self]
      rw [hbefore, List.append_assoc, List.take_add]
    · exact hbefore
  refine ⟨h.size_eq, h.hash_eq, h.tables, h.unqueued, ⟨file, hfiled.fd_eq, ?_, ?_, hwritten⟩,
    h.data, h.stored, h.drained, fun hmem => ?_⟩
  · exact (congrFun (writeOnce_entries hio) _).trans hfiled.entry
  · exact (writeOnce_reserved hio file).trans_le hfiled.reserved
  · rcases h.failed hmem with herror | ⟨_, _, _, hwriting⟩
    · exact .inl herror
    · cases hwriting

/-- A `write` has failed, and its writer knows. -/
theorem Transfer.writeFailed {job : Job} {done : ℕ} {error : Errno}
    (h : Transfer size hash world (.writing job done (some error)) events) :
    Transfer size hash (world.note .writeFailed) (.writing job done (some error))
      (.writeFailed :: events) := by
  obtain ⟨file, hfiled⟩ := h.part
  exact ⟨h.size_eq, h.hash_eq, h.tables, h.unqueued,
    ⟨file, hfiled.fd_eq, hfiled.entry, hfiled.reserved, hfiled.written⟩, h.data, h.stored,
    h.drained, fun _ => .inr ⟨job, done, error, rfl⟩⟩

/-- A chunk is on disk: the cursor moves behind it. -/
theorem Transfer.drain {index address size' done : ℕ}
    (h : Transfer size hash world (.writing (.chunk index address size') done none) events)
    (hwriter : WriterInv world.mgr (.writing (.chunk index address size') done none))
    (hdone : done = size') (elapsedNs : ℕ) :
    Transfer size hash (completeJob world (.chunk index address size') none elapsedNs) .waiting
      (.drained index :: events) := by
  obtain ⟨buffer, hbuffer, hready, harrays, hjob⟩ := h.chunkJob hwriter
  have hlength := h.length_ready hready hbuffer
  obtain ⟨rfl, rfl, rfl⟩ := Job.chunk.inj hjob
  have hstored : world.mgr.chunks.stored world.mgr.chunks.nextChunkToWrite buffer.address =
      { world.mgr.chunks with
        chunkBuffers := Function.update world.mgr.chunks.chunkBuffers
          world.mgr.chunks.nextChunkToWrite none
        chunkStates := Function.update world.mgr.chunks.chunkStates
          world.mgr.chunks.nextChunkToWrite .stored
        nextChunkToWrite := world.mgr.chunks.nextChunkToWrite + 1
        activeChunkBuffers := world.mgr.chunks.activeChunkBuffers - 1 } := by
    rw [Chunks.stored, if_pos ⟨harrays, rfl, by rw [hbuffer]; rfl⟩]
  have hnext : (completeJob world (.chunk world.mgr.chunks.nextChunkToWrite buffer.address
      (chunkLengthFor size world.mgr.chunks.nextChunkToWrite)) none
        elapsedNs).mgr.chunks.nextChunkToWrite = world.mgr.chunks.nextChunkToWrite + 1 :=
    congrArg Chunks.nextChunkToWrite hstored
  obtain ⟨file, hfiled⟩ := h.part
  refine ⟨h.size_eq, h.hash_eq, h.tables.stored hready _, h.unqueued,
    ⟨file, hfiled.fd_eq, hfiled.entry, hfiled.reserved, ?_⟩, ?_, ?_, ?_, ?_⟩
  · intro herror
    have hnone : world.mgr.queue.writerError = none := by
      simpa [completeJob] using herror
    have hwritten := hfiled.written hnone
    simp only [WriterPc.underway, hdone, ← hlength, List.take_length] at hwritten
    rw [hnext, assembled_succ]
    change (world.fs.files file).written = _
    simpa [assembled, chunkData, WriterPc.underway] using hwritten
  · intro other held hheld
    have hheld : Function.update world.mgr.chunks.chunkBuffers
        world.mgr.chunks.nextChunkToWrite none other = some held := by
      rw [← hheld]
      exact congrFun (congrArg Chunks.chunkBuffers hstored).symm other
    by_cases hthis : other = world.mgr.chunks.nextChunkToWrite
    · rw [hthis, Function.update_self] at hheld
      cases hheld
    · rw [Function.update_of_ne hthis] at hheld
      exact h.data other held hheld
  · rw [hnext]
    intro other hother
    rcases Nat.lt_succ_iff_lt_or_eq.mp hother with hlt | rfl
    · exact h.stored other hlt
    · exact hlength
  · rw [hnext, drainedChunks, h.drained, List.range_succ]
  · intro hmem
    have hbefore : .writeFailed ∈ events := by simpa using hmem
    rcases h.failed hbefore with herror | ⟨_, _, _, hwriting⟩
    · exact .inl (by simpa [completeJob] using herror)
    · cases hwriting

/-- A job that failed leaves its error behind. -/
theorem Transfer.giveUp {index address size' done : ℕ} {error : Errno}
    (h : Transfer size hash world (.writing (.chunk index address size') done (some error)) events)
    (elapsedNs : ℕ) :
    Transfer size hash (completeJob world (.chunk index address size') (some error) elapsedNs)
      .waiting events := by
  have hfailed : (completeJob world (.chunk index address size') (some error)
      elapsedNs).mgr.queue.writerError ≠ none := by
    simp only [completeJob]
    split
    · simp
    · assumption
  obtain ⟨file, hfiled⟩ := h.part
  exact ⟨h.size_eq, h.hash_eq, h.tables, h.unqueued, ⟨file, hfiled.fd_eq, hfiled.entry,
    hfiled.reserved, fun hnone => absurd hnone hfailed⟩, h.data, h.stored, h.drained,
    fun _ => .inl hfailed⟩

/-! ## What callers rely on -/

/-- A reply that says nothing of a chunk, and reports a file if it comes from a finish that
succeeds. -/
structure Reports (call : Call) (reply : Reply) (events : List Event) : Prop where
  silent : (Event.returned call reply).Silent
  reported : ∀ id client authorization, call = .finishChunks id client authorization →
    reply.result = .ok → Reported reply events

/-- The cursor has passed the last chunk of the upload whose part file is at `path`, and no
write has failed. -/
structure AllStored (world : World) (path : CString) : Prop where
  error : world.mgr.queue.writerError = none
  next_eq : world.mgr.chunks.nextChunkToWrite = world.mgr.chunks.chunkCount
  path_eq : path = world.mgr.slot.partPath

/-- Where a chunk call has released the mutex, and what it goes on with. -/
inductive Relies (world : World) (events : List Event) : Call → Pc → Prop
  | reaping {call : Call} (hcall : call.chunked = true) (target : CString) :
      Relies world events call (.reaping call target)
  | failed (call : Call) {reply : Reply} (hresult : reply.result ≠ .ok) (target : CString) :
      Relies world events call (.clearing (.chunksFailed reply) target)
  | published (id client authorization : CString) {reply : Reply}
      (hreported : Reported reply events) (target : CString) :
      Relies world events (.finishChunks id client authorization)
        (.clearing (.finished reply) target)
  | drain (id client authorization target : CString) :
      Relies world events (.finishChunks id client authorization) (.chunksDrain target)
  | hash (id client authorization target : CString) {path : CString}
      (hstored : world.mgr.slot.occupied = true → AllStored world path) :
      Relies world events (.finishChunks id client authorization) (.chunksHash target path)
  | hashed (id client authorization target : CString) {path : CString}
      {hash : Except Errno CString}
      (hstored : world.mgr.slot.occupied = true → AllStored world path)
      (hdigest : ∀ digest, hash = .ok digest → world.mgr.slot.occupied = true →
        ∃ content, world.fs.contents path = some content ∧
          digest = sha256Hex (Fips.sha256 content)) :
      Relies world events (.finishChunks id client authorization) (.chunksHashed target hash)

/-- An upload that is still in the slot has its files and its cursor where they were. -/
structure Leaves (world next : World) : Prop where
  occupied : next.mgr.slot.occupied = true → world.mgr.slot.occupied = true
  fs_eq : next.mgr.slot.occupied = true → next.fs = world.fs
  partPath_eq : next.mgr.slot.occupied = true →
    next.mgr.slot.partPath = world.mgr.slot.partPath
  error_eq : next.mgr.slot.occupied = true →
    next.mgr.queue.writerError = world.mgr.queue.writerError
  next_eq : next.mgr.slot.occupied = true →
    next.mgr.chunks.nextChunkToWrite = world.mgr.chunks.nextChunkToWrite
  count_eq : next.mgr.slot.occupied = true →
    next.mgr.chunks.chunkCount = world.mgr.chunks.chunkCount

/-- A free slot keeps nothing. -/
theorem Leaves.of_free (hfree : next.mgr.slot.occupied = false) : Leaves world next := by
  have hnot : next.mgr.slot.occupied ≠ true := by simp [hfree]
  exact ⟨fun h => absurd h hnot, fun h => absurd h hnot, fun h => absurd h hnot,
    fun h => absurd h hnot, fun h => absurd h hnot, fun h => absurd h hnot⟩

theorem Leaves.of_same (hsame : SameFile world next)
    (hoccupied : next.mgr.slot.occupied = world.mgr.slot.occupied)
    (hcount : next.mgr.chunks.chunkCount = world.mgr.chunks.chunkCount) : Leaves world next :=
  ⟨fun h => hoccupied ▸ h, fun _ => hsame.fs_eq, fun _ => hsame.partPath_eq,
    fun _ => hsame.error_eq, fun _ => hsame.next_eq, fun _ => hcount⟩

theorem Leaves.trans {middle : World} (hfirst : Leaves world middle)
    (hsecond : Leaves middle next) : Leaves world next where
  occupied := fun h => hfirst.occupied (hsecond.occupied h)
  fs_eq := fun h => (hsecond.fs_eq h).trans (hfirst.fs_eq (hsecond.occupied h))
  partPath_eq := fun h => (hsecond.partPath_eq h).trans (hfirst.partPath_eq (hsecond.occupied h))
  error_eq := fun h => (hsecond.error_eq h).trans (hfirst.error_eq (hsecond.occupied h))
  next_eq := fun h => (hsecond.next_eq h).trans (hfirst.next_eq (hsecond.occupied h))
  count_eq := fun h => (hsecond.count_eq h).trans (hfirst.count_eq (hsecond.occupied h))

theorem AllStored.kept {path : CString} (hleaves : Leaves world next)
    (h : world.mgr.slot.occupied = true → AllStored world path)
    (hoccupied : next.mgr.slot.occupied = true) : AllStored next path := by
  have hbefore := h (hleaves.occupied hoccupied)
  refine ⟨(hleaves.error_eq hoccupied).trans hbefore.error, ?_,
    hbefore.path_eq.trans (hleaves.partPath_eq hoccupied).symm⟩
  rw [hleaves.next_eq hoccupied, hleaves.count_eq hoccupied]
  exact hbefore.next_eq

theorem Reported.mono {reply : Reply} {events' : List Event} (h : Reported reply events)
    (hevents : ∀ event ∈ events, event ∈ events') : Reported reply events' := by
  obtain ⟨requested, path, content, digest, hmem, hdigest⟩ := h
  exact ⟨requested, path, content, digest, hevents _ hmem, hdigest⟩

/-- What others do takes nothing away. -/
theorem Relies.kept {call : Call} {pc : Pc} {events' : List Event}
    (h : Relies world events call pc) (hleaves : Leaves world next)
    (hevents : ∀ event ∈ events, event ∈ events') : Relies next events' call pc := by
  cases h with
  | reaping hcall target => exact .reaping hcall target
  | failed _ hresult target => exact .failed call hresult target
  | published id client authorization hreported target =>
      exact .published id client authorization (hreported.mono hevents) target
  | drain id client authorization target => exact .drain id client authorization target
  | hash id client authorization target hstored =>
      exact .hash id client authorization target (AllStored.kept hleaves hstored)
  | hashed id client authorization target hstored hdigest =>
      refine .hashed id client authorization target (AllStored.kept hleaves hstored) ?_
      intro digest hhash hoccupied
      rw [hleaves.fs_eq hoccupied]
      exact hdigest digest hhash (hleaves.occupied hoccupied)

/-! ## Stretches -/

/-- An upload in the slot is one that comes in chunks. -/
def Carried (size : ℕ) (hash : CString) (world : World) (writer : WriterPc)
    (events : List Event) : Prop :=
  world.mgr.slot.occupied = true → Transfer size hash world writer events

/-- A stretch of a chunk call, with the events `new` it adds. -/
structure Advances (size : ℕ) (hash : CString) (writer : WriterPc) (events : List Event)
    (world : World) (call : Call) (stretch : World × Outcome) (new : List Event) : Prop where
  trace_eq : (settled call stretch).trace = new ++ world.trace
  carried : Carried size hash (settled call stretch) writer (new ++ events)
  assembles : Assembles size hash events → Assembles size hash (new ++ events)
  relies : ∀ pc, stretch.2 = .park pc →
    Relies (settled call stretch) (new ++ events) call pc
  leaves : Leaves world (settled call stretch)

/-- The same, whatever it adds. -/
def AdvancesTo (size : ℕ) (hash : CString) (writer : WriterPc) (events : List Event)
    (world : World) (call : Call) (stretch : World × Outcome) : Prop :=
  ∃ new, Advances size hash writer events world call stretch new

variable {call : Call} {stretch : World × Outcome}

theorem Reports.assembles {reply : Reply} (h : Reports call reply events)
    (hassembles : Assembles size hash events) :
    Assembles size hash (.returned call reply :: events) := by
  cases call with
  | finishChunks id client authorization =>
      exact ⟨h.reported id client authorization rfl, hassembles⟩
  | _ => exact hassembles

theorem reports_refused (call : Call) {reply : Reply} (h : reply.result ≠ .ok)
    (events : List Event) : Reports call reply events :=
  ⟨silent_refused h, fun _ _ _ _ hok => absurd hok h⟩

/-- The call returns and has changed nothing. -/
theorem advances_quiet (h : Carried size hash world writer events)
    (hwriter : WriterInv world.mgr writer) {reply : Reply} (hreports : Reports call reply events) :
    AdvancesTo size hash writer events world call (world, .done reply) :=
  ⟨[.returned call reply], rfl, fun hoccupied => (h hoccupied).note hwriter hreports.silent,
    hreports.assembles, fun _ hpark => by simp at hpark, .of_same
      ⟨rfl, rfl, rfl, rfl, rfl, rfl, rfl, rfl⟩ rfl rfl⟩

theorem advances_refused (h : Carried size hash world writer events)
    (hwriter : WriterInv world.mgr writer) {result : UploadResult} (hresult : result ≠ .ok) :
    AdvancesTo size hash writer events world call (world, .of result) :=
  advances_quiet h hwriter (reports_refused call hresult events)

/-- The call returns and leaves the slot free. -/
theorem advances_free (hfree : next.mgr.slot.occupied = false) {front : List Event}
    (htrace : next.trace = front ++ world.trace)
    (hassembles : Assembles size hash events → Assembles size hash (front ++ events))
    {reply : Reply} (hreports : Reports call reply (front ++ events)) :
    AdvancesTo size hash writer events world call (next, .done reply) := by
  have hnot : ¬next.mgr.slot.occupied = true := by simp [hfree]
  exact ⟨.returned call reply :: front, congrArg (Event.returned call reply :: ·) htrace,
    fun hoccupied => absurd hoccupied hnot, fun hevents => hreports.assembles (hassembles hevents),
    fun _ hpark => by simp at hpark, .of_free hfree⟩

/-- The call goes to sleep with nothing recorded. -/
theorem advances_park {pc : Pc} (h : Carried size hash next writer events)
    (htrace : next.trace = world.trace) (hrelies : Relies next events call pc)
    (hleaves : Leaves world next) :
    AdvancesTo size hash writer events world call (next, .park pc) := by
  refine ⟨[], htrace, h, id, fun pc' hpark => ?_, hleaves⟩
  cases hpark
  exact hrelies

/-- A stretch with something before it. -/
theorem AdvancesTo.behind {middle : World} {front : List Event}
    (h : AdvancesTo size hash writer (front ++ events) middle call stretch)
    (htrace : middle.trace = front ++ world.trace)
    (hassembles : Assembles size hash events → Assembles size hash (front ++ events))
    (hleaves : Leaves world middle) :
    AdvancesTo size hash writer events world call stretch := by
  obtain ⟨new, hadvances⟩ := h
  refine ⟨new ++ front, ?_, ?_, fun hevents => ?_, fun pc hpark => ?_,
    hleaves.trans hadvances.leaves⟩
  · rw [hadvances.trace_eq, htrace, List.append_assoc]
  · rw [List.append_assoc]
    exact hadvances.carried
  · rw [List.append_assoc]
    exact hadvances.assembles (hassembles hevents)
  · rw [List.append_assoc]
    exact hadvances.relies pc hpark

/-- What a `clear_slot` behind its wait leaves: a free slot, and the record of it. -/
theorem AdvancesTo.cleared {origin : Origin} {target : CString} {io : ClearIo}
    (h : AdvancesTo size hash writer
      (.cleared ⟨origin, target, world.mgr.slot.uploadId, world.mgr.slot.occupied,
        world.mgr.slot.fd⟩ :: events) (clearRest world origin target io).1 call stretch) :
    AdvancesTo size hash writer events world call stretch := by
  have hrest : AdvancesTo size hash writer
      ([.cleared ⟨origin, target, world.mgr.slot.uploadId, world.mgr.slot.occupied,
        world.mgr.slot.fd⟩] ++ events) (clearRest world origin target io).1 call stretch := h
  have hfree : (clearRest world origin target io).1.mgr.slot.occupied = false := rfl
  exact hrest.behind rfl id (.of_free hfree)

/-- The reply a `clear_slot` that ends a call hands back. -/
theorem Relies.reports {closing : Closing} {target : CString}
    (h : Relies world events call (.clearing closing target)) (failed : Bool) :
    Reports call (closing.reply failed) events := by
  cases h with
  | failed _ hresult =>
      refine reports_refused call ?_ events
      cases failed
      · exact hresult
      · simp [Closing.reply]
  | published id client authorization hreported =>
      exact ⟨silent_other (by simp) (by simp) _, fun _ _ _ _ _ => hreported⟩

theorem Reports.mono {reply : Reply} {events' : List Event} (h : Reports call reply events)
    (hevents : ∀ event ∈ events, event ∈ events') : Reports call reply events' :=
  ⟨h.silent, fun id client authorization hcall hok =>
    (h.reported id client authorization hcall hok).mono hevents⟩

/-- A `clear_slot` behind its wait ends the call. -/
theorem finishClosing_advances {middle : World} {front : List Event}
    (htrace : middle.trace = front ++ world.trace)
    (hassembles : Assembles size hash events → Assembles size hash (front ++ events))
    {closing : Closing} (h : ∀ failed, Reports call (closing.reply failed) (front ++ events))
    (target : CString) (io : ClearIo) :
    AdvancesTo size hash writer events world call (finishClosing middle closing target io) := by
  have hcleared : (clearRest middle closing.origin target io).1.trace =
      .cleared ⟨closing.origin, target, middle.mgr.slot.uploadId, middle.mgr.slot.occupied,
        middle.mgr.slot.fd⟩ :: front ++ world.trace := by
    rw [List.cons_append, ← htrace]
    rfl
  exact advances_free rfl hcleared hassembles ((h _).mono fun _ => List.mem_cons_of_mem _)

theorem awaitClosing_advances {closing : Closing} {target : CString}
    (hcarried : Carried size hash world writer events)
    (h : Relies world events call (.clearing closing target)) (io : ClearIo) :
    AdvancesTo size hash writer events world call (awaitClosing world closing target io) := by
  unfold awaitClosing
  split
  · exact advances_park hcarried rfl h (.of_same ⟨rfl, rfl, rfl, rfl, rfl, rfl, rfl, rfl⟩ rfl rfl)
  · have hnothing : world.trace = [] ++ world.trace := rfl
    exact finishClosing_advances hnothing id h.reports target io

/-- A `clear_slot` that finds the writer idle. -/
theorem closeSlot_advances_idle {middle : World} {front : List Event}
    (htrace : middle.trace = front ++ world.trace) (hidle : middle.mgr.queue.writerActive = false)
    (hassembles : Assembles size hash events → Assembles size hash (front ++ events))
    {closing : Closing} (h : ∀ failed, Reports call (closing.reply failed) (front ++ events))
    (io : ClearIo) :
    AdvancesTo size hash writer events world call (closeSlot middle closing io) := by
  have hidle : ¬(clearStart middle).mgr.queue.writerActive = true := by
    simpa [clearStart] using hidle
  rw [closeSlot, awaitClosing, if_neg hidle]
  exact finishClosing_advances htrace hassembles h _ io

theorem chunksFailed_advances (hcarried : Carried size hash world writer events)
    (hwriter : WriterInv world.mgr writer) {result : UploadResult} (hresult : result ≠ .ok)
    (id : CString) (digest : Option CString) (env : Env) :
    AdvancesTo size hash writer events world call
      (chunksFailed world id result digest env) := by
  unfold chunksFailed
  dsimp only
  split
  · have hnothing : (clearStart world).trace = [] ++ world.trace := rfl
    have hstart : Carried size hash (clearStart world) writer ([] ++ events) :=
      fun hoccupied => (hcarried hoccupied).clearStart hwriter
    have hrest := awaitClosing_advances hstart
      (.failed call (hresult : { Reply.of result with digest }.result ≠ .ok)
        world.mgr.slot.uploadId) env.clearIo
    exact hrest.behind hnothing (fun hevents => hevents)
      (.of_same ⟨rfl, rfl, rfl, rfl, rfl, rfl, rfl, rfl⟩ rfl rfl)
  · exact advances_quiet hcarried hwriter (reports_refused call hresult events)

/-! ## The calls -/

theorem uploadChunkBegin_advances (hcarried : Carried size hash world writer events)
    (hwriter : WriterInv world.mgr writer) (id client authorization : CString)
    (total offset length : ℕ) (env : Env) :
    AdvancesTo size hash writer events world
      (.chunkBegin id client authorization total offset length)
      (uploadChunkBegin world id client authorization total offset length env) := by
  unfold uploadChunkBegin
  dsimp only
  split
  · exact advances_refused hcarried hwriter (by simp)
  rename_i hfound
  split
  · exact advances_refused hcarried hwriter (by simp)
  split
  · exact advances_refused hcarried hwriter (by simp)
  split
  · exact advances_refused hcarried hwriter (by simp)
  split
  · exact advances_refused hcarried hwriter (by simp)
  split
  · exact advances_refused hcarried hwriter (by simp)
  rename_i hindex
  split
  · exact advances_refused hcarried hwriter (by simp)
  split
  · exact advances_refused hcarried hwriter (by simp)
  rename_i habsent
  split
  · exact advances_refused hcarried hwriter (by simp)
  rename_i hspace
  split
  · exact advances_refused hcarried hwriter (by simp)
  · rename_i address _
    simp only [not_or, not_le, ne_eq, not_not] at hfound hindex habsent hspace
    exact ⟨[_], rfl,
      fun _ => (hcarried hfound.1).accept hwriter hindex.1 habsent hspace address env,
      fun hevents => hevents, fun _ hpark => by simp [Outcome.of] at hpark,
      .of_same ⟨rfl, rfl, rfl, rfl, rfl, rfl, rfl, rfl⟩ rfl rfl⟩

theorem uploadChunkWrite_advances (hcarried : Carried size hash world writer events)
    (hwriter : WriterInv world.mgr writer) (id : CString) (offset : ℕ) (data : Bytes)
    (env : Env) :
    AdvancesTo size hash writer events world (.chunkWrite id offset data)
      (uploadChunkWrite world id offset data env) := by
  unfold uploadChunkWrite
  dsimp only
  split
  · exact advances_refused hcarried hwriter (by simp)
  rename_i hfound
  split
  · exact advances_refused hcarried hwriter (by simp)
  split
  · exact advances_refused hcarried hwriter (by simp)
  rename_i hreceives
  split
  · exact advances_refused hcarried hwriter (by simp)
  · rename_i hfits
    simp only [not_or, ne_eq, not_not, Nat.not_lt] at hfound hfits
    have htransfer := hcarried hfound.1
    have hend := Nat.add_le_of_le_sub' hfits.2.1 hfits.2.2
    rw [htransfer.size_eq] at hend
    rw [hfits.1] at hend ⊢
    exact ⟨[_], rfl, fun _ => htransfer.store hwriter (by simpa using hreceives) hend env,
      fun hevents => hevents, fun _ hpark => by simp [Outcome.of] at hpark,
      .of_same ⟨rfl, rfl, rfl, rfl, rfl, rfl, rfl, rfl⟩ rfl rfl⟩

theorem reports_published (id client authorization : CString) {reply : Reply}
    (h : Reported reply events) : Reports (.finishChunks id client authorization) reply events :=
  ⟨silent_other (by simp) (by simp) reply, fun _ _ _ _ _ => h⟩

theorem reports_chunkFinish (id : CString) (offset length : ℕ) (reply : Reply)
    (events : List Event) : Reports (.chunkFinish id offset length) reply events :=
  ⟨silent_other (by simp) (by simp) reply, fun _ _ _ hcall => by cases hcall⟩

theorem reports_chunkAbort (id : CString) (offset length : ℕ) (reply : Reply)
    (events : List Event) : Reports (.chunkAbort id offset length) reply events :=
  ⟨silent_other (by simp) (by simp) reply, fun _ _ _ hcall => by cases hcall⟩

/-- The call has changed the tables and returns. -/
theorem advances_done (hleaves : Leaves world next)
    (hcarried : Carried size hash next writer events) (hwriter : WriterInv next.mgr writer)
    (htrace : next.trace = world.trace) {reply : Reply} (hreports : Reports call reply events) :
    AdvancesTo size hash writer events world call (next, .done reply) := by
  have hrest : AdvancesTo size hash writer ([] ++ events) next call (next, .done reply) :=
    advances_quiet hcarried hwriter hreports
  exact hrest.behind htrace (fun hevents => hevents) hleaves

theorem uploadChunkFinish_advances (hcarried : Carried size hash world writer events)
    (hwriter : WriterInv world.mgr writer) (id : CString) (offset length : ℕ) (env : Env) :
    AdvancesTo size hash writer events world (.chunkFinish id offset length)
      (uploadChunkFinish world id offset length env) := by
  have hstretch : Stretch (.body (.chunkFinish id offset length) env) world
      (uploadChunkFinish world id offset length env) := uploadChunkFinish_stretch rfl ..
  have hafter := writerInv_updates hwriter hstretch.updates
  revert hafter
  unfold uploadChunkFinish
  dsimp only
  split
  · exact fun _ => advances_refused hcarried hwriter (by simp)
  rename_i hfound
  split
  · exact fun _ => advances_refused hcarried hwriter (by simp)
  split
  · exact fun _ => advances_refused hcarried hwriter (by simp)
  rename_i hreceives
  simp only [not_or, ne_eq, not_not] at hfound
  have htransfer := hcarried hfound.1
  have hreceives : world.mgr.chunks.receives (offset / UPLOAD_CHUNK_BYTES) = true := by
    simpa using hreceives
  split
  · intro hafter
    have hsame : SameFile world (dropChunk world (offset / UPLOAD_CHUNK_BYTES)) :=
      ⟨rfl, rfl, rfl, rfl, rfl, rfl, rfl, rfl⟩
    exact advances_done (.of_same hsame rfl rfl)
      (fun _ => htransfer.drop hwriter (Chunks.receiving_of_receives hreceives)) hafter rfl
      (reports_chunkFinish ..)
  · rename_i hlength
    simp only [not_or, ne_eq, not_not, htransfer.size_eq] at hlength
    intro hafter
    have hsame : SameFile world (readyChunk world (offset / UPLOAD_CHUNK_BYTES) env) :=
      ⟨rfl, rfl, rfl, rfl, rfl, rfl, rfl, rfl⟩
    exact advances_done (.of_same hsame rfl rfl)
      (fun _ => htransfer.ready hwriter hreceives (hlength.2.trans hlength.1.symm) env) hafter rfl
      (reports_chunkFinish ..)

theorem uploadChunkAbort_advances (hcarried : Carried size hash world writer events)
    (hwriter : WriterInv world.mgr writer) (id : CString) (offset length : ℕ) (env : Env) :
    AdvancesTo size hash writer events world (.chunkAbort id offset length)
      (uploadChunkAbort world id offset env) := by
  have hstretch : Stretch (.body (.chunkAbort id offset length) env) world
      (uploadChunkAbort world id offset env) := afterReap_stretch world (.chunkAbort ..) env
  have hafter := writerInv_updates hwriter hstretch.updates
  revert hafter
  unfold uploadChunkAbort
  dsimp only
  split
  · rename_i hreceiving
    intro hafter
    have hsame : SameFile world (abortChunk world (offset / UPLOAD_CHUNK_BYTES) env) :=
      ⟨rfl, rfl, rfl, rfl, rfl, rfl, rfl, rfl⟩
    exact advances_done (.of_same hsame rfl rfl)
      (fun _ => (hcarried hreceiving.1).abort hwriter hreceiving.2.2.2.2.2.2.2 env) hafter rfl
      (reports_chunkAbort ..)
  · exact fun _ => advances_quiet hcarried hwriter
      (reports_chunkAbort ..)

theorem awaitChunks_advances (hcarried : Carried size hash world writer events)
    (hwriter : WriterInv world.mgr writer) (id client authorization target : CString)
    (env : Env) :
    AdvancesTo size hash writer events world (.finishChunks id client authorization)
      (awaitChunks world target env) := by
  have hsame : SameFile world world := ⟨rfl, rfl, rfl, rfl, rfl, rfl, rfl, rfl⟩
  unfold awaitChunks
  split
  · rename_i error _
    exact chunksFailed_advances hcarried hwriter error.result_ne_ok target none env
  · rename_i herror
    split
    · exact advances_park hcarried rfl (.drain id client authorization target)
        (.of_same hsame rfl rfl)
    · rename_i hnext
      refine advances_park hcarried rfl (.hash id client authorization target fun _ => ?_)
        (.of_same hsame rfl rfl)
      exact ⟨herror, not_not.mp hnext, rfl⟩

theorem setFinalizing_advances {finalizing : Bool} (h : AdvancesTo size hash writer events
    (world.setFinalizing finalizing) call stretch) :
    AdvancesTo size hash writer events world call stretch := by
  have hrest : AdvancesTo size hash writer ([] ++ events) (world.setFinalizing finalizing) call
      stretch := h
  have hsame : SameFile world (world.setFinalizing finalizing) :=
    ⟨rfl, rfl, rfl, rfl, rfl, rfl, rfl, rfl⟩
  exact hrest.behind rfl (fun hevents => hevents) (.of_same hsame rfl rfl)

theorem uploadFinishChunksWithMetrics_advances (hcarried : Carried size hash world writer events)
    (hwriter : WriterInv world.mgr writer) (id client authorization : CString) (env : Env) :
    AdvancesTo size hash writer events world (.finishChunks id client authorization)
      (uploadFinishChunksWithMetrics world id client authorization env) := by
  unfold uploadFinishChunksWithMetrics
  dsimp only
  split
  · exact advances_refused hcarried hwriter (by simp)
  split
  · exact advances_refused hcarried hwriter (by simp)
  split
  · exact advances_refused hcarried hwriter (by simp)
  split
  · exact advances_refused hcarried hwriter (by simp)
  split
  · exact advances_refused hcarried hwriter (by simp)
  · have hfinalizing : Carried size hash (world.setFinalizing true) writer events :=
      fun hoccupied => (hcarried hoccupied).setFinalizing hwriter true
    have hkept : WriterInv (world.setFinalizing true).mgr writer :=
      writerInv_update hwriter (.finalize : Update (.body .snapshot env) world _)
    exact setFinalizing_advances
      (awaitChunks_advances hfinalizing hkept id client authorization id env)

theorem chunksUnpublished_advances (hcarried : Carried size hash world writer events)
    (hwriter : WriterInv world.mgr writer) {result : UploadResult} (hresult : result ≠ .ok)
    (id : CString) (digest : Option CString) (env : Env) :
    AdvancesTo size hash writer events world call
      (chunksUnpublished world id result digest env) := by
  have hfinalizing : Carried size hash (world.setFinalizing false) writer events :=
    fun hoccupied => (hcarried hoccupied).setFinalizing hwriter false
  have hkept : WriterInv (world.setFinalizing false).mgr writer :=
    writerInv_update hwriter
      (.unfinalize rfl : Update (.behind (.chunksHashed id (.error .eio)) env) world _)
  exact setFinalizing_advances (chunksFailed_advances hfinalizing hkept hresult id digest env)

/-- The same of the upload the finish is for, with the writer idle. -/
theorem chunksUnpublished_advances_idle {middle : World} {front : List Event}
    (htrace : middle.trace = front ++ world.trace) (hidle : middle.mgr.queue.writerActive = false)
    (hassembles : Assembles size hash events → Assembles size hash (front ++ events))
    (hoccupied : middle.mgr.slot.occupied = true) {id : CString}
    (hid : middle.mgr.slot.uploadId = id) {result : UploadResult} (hresult : result ≠ .ok)
    (digest : Option CString) (env : Env) :
    AdvancesTo size hash writer events world call
      (chunksUnpublished middle id result digest env) := by
  have hmine : (middle.setFinalizing false).mgr.slot.occupied = true ∧
      (middle.setFinalizing false).mgr.slot.uploadId = id := ⟨hoccupied, hid⟩
  have htrace : (middle.setFinalizing false).trace = front ++ world.trace := htrace
  unfold chunksUnpublished chunksFailed
  dsimp only
  rw [if_pos hmine]
  refine closeSlot_advances_idle htrace hidle hassembles
    (fun failed => reports_refused call ?_ _) env.clearIo
  cases failed
  · exact hresult
  · simp [Closing.reply]

/-- With all chunks stored the writer has nothing to do. -/
theorem Transfer.idle (h : Transfer size hash world writer events)
    (hwriter : WriterInv world.mgr writer) {path : CString} (hstored : AllStored world path) :
    writer = .waiting ∧ world.mgr.queue.writerActive = false := by
  cases writer with
  | waiting => exact ⟨rfl, hwriter.working⟩
  | writing job done error =>
      obtain ⟨buffer, -, hready, -, -⟩ := h.chunkJob hwriter
      have hlt := h.tables.lt_count _ (by rw [hready]; simp)
      exact absurd hstored.next_eq hlt.ne

/-- The part file of an upload whose chunks are all stored is made of them. -/
theorem Transfer.contents (h : Transfer size hash world writer events)
    (hwriter : WriterInv world.mgr writer) {path : CString} (hstored : AllStored world path) :
    ∃ file, world.mgr.slot.fd = some file ∧ world.fs.entries path = some file ∧
      (world.fs.files file).bytes = assembled events (chunkCountFor size) ∧
      (assembled events (chunkCountFor size)).length = size := by
  have hcount : world.mgr.chunks.nextChunkToWrite = chunkCountFor size :=
    hstored.next_eq.trans h.tables.count_eq
  have hlengths := h.stored
  rw [hcount] at hlengths
  have hlength := length_assembled_all hlengths
  obtain ⟨rfl, -⟩ := h.idle hwriter hstored
  obtain ⟨file, hfiled⟩ := h.part
  have hwritten := hfiled.written hstored.error
  have hreserved := hfiled.reserved
  have hnothing : WriterPc.waiting.underway events = [] := rfl
  rw [hcount, hnothing, List.append_nil] at hwritten
  refine ⟨file, hfiled.fd_eq, hstored.path_eq ▸ hfiled.entry, ?_, hlength⟩
  rw [File.bytes, hwritten, hlength, Nat.sub_eq_zero_of_le hreserved, List.replicate_zero,
    List.append_nil]

theorem Transfer.assembled (h : Transfer size hash world writer events)
    (hwriter : WriterInv world.mgr writer) {path : CString} (hstored : AllStored world path)
    {digest : CString} (hhash : hash = [] ∨ hash = digest)
    (hdigest : digest = sha256Hex (Fips.sha256 (Upload.assembled events (chunkCountFor size)))) :
    Assembled size hash (Upload.assembled events (chunkCountFor size)) digest events := by
  have hcount : world.mgr.chunks.nextChunkToWrite = chunkCountFor size :=
    hstored.next_eq.trans h.tables.count_eq
  obtain ⟨-, -, -, -, hlength⟩ := h.contents hwriter hstored
  refine ⟨?_, rfl, hlength, ?_, hdigest, hhash, fun hmem => ?_⟩
  · rw [← hcount]
    exact h.stored
  · rw [← hcount]
    exact h.drained
  · obtain ⟨rfl, -⟩ := h.idle hwriter hstored
    rcases h.failed hmem with herror | ⟨_, _, _, hwriting⟩
    · exact herror hstored.error
    · cases hwriting

/-- The stretch behind the hash pass publishes the file of all chunks, or clears the slot. -/
theorem chunksHashed_advances (hcarried : Carried size hash world writer events)
    (hwriter : WriterInv world.mgr writer) {id client authorization target : CString}
    {pass : Except Errno CString}
    (h : Relies world events (.finishChunks id client authorization) (.chunksHashed target pass))
    (env : Env) :
    AdvancesTo size hash writer events world (.finishChunks id client authorization)
      (chunksHashed world target pass env) := by
  cases h with
  | @hashed _ _ _ _ path _ hstored hdigest =>
  unfold chunksHashed
  dsimp only
  split
  · exact chunksUnpublished_advances hcarried hwriter (by simp) ..
  rename_i hfound
  simp only [not_or, not_not] at hfound
  have htransfer := hcarried hfound.1
  have hstored := hstored hfound.1
  obtain ⟨hwaiting, hidle⟩ := htransfer.idle hwriter hstored
  obtain ⟨file, hfd, hentry, hbytes, -⟩ := htransfer.contents hwriter hstored
  split
  · exact chunksUnpublished_advances hcarried hwriter (by simp) ..
  rename_i digest
  obtain ⟨content, hcontent, hdigest⟩ := hdigest digest rfl hfound.1
  have hhashed : digest = sha256Hex (Fips.sha256 (assembled events (chunkCountFor size))) := by
    rw [hdigest, ← hbytes]
    simp only [Fs.contents, hentry, Option.map_some, Option.some.injEq] at hcontent
    rw [hcontent]
  have hspec := publishSlot_spec world target digest
    (elapsedNanoseconds world.mgr.slot.transferStartNs env.endNs) env
  generalize publishSlot world target digest
    (elapsedNanoseconds world.mgr.slot.transferStartNs env.endNs) env = published at hspec
  cases hspec with
  | refused hresult => exact chunksUnpublished_advances hcarried hwriter hresult ..
  | unclosed =>
      have hclosed : (closeFd world).trace = [] ++ world.trace := rfl
      exact chunksUnpublished_advances_idle hclosed hidle (fun hevents => hevents) hfound.1
        hfound.2.1 (by simp) ..
  | failed hresult =>
      have hreached : (publishReached world target digest).trace =
          [.publishing (publishRecord world target digest)] ++ world.trace := rfl
      exact chunksUnpublished_advances_idle hreached hidle (fun hevents => hevents) hfound.1
        hfound.2.1 hresult ..
  | @published _ linked fs _ hhash hpublish =>
      obtain ⟨hfinal, hfiles⟩ := publishPart_spec (hstored.path_eq ▸ hentry) hpublish
      have hpublished : (fs.contents world.mgr.slot.finalPath).getD [] =
          assembled events (chunkCountFor size) := by
        simp only [Fs.contents, hfinal, Option.map_some, Option.getD_some, hfiles]
        exact hbytes
      have hassembled := htransfer.assembled hwriter hstored (htransfer.hash_eq ▸ hhash) hhashed
      rw [← hpublished] at hassembled
      have hrecorded : (recordPublished (publishReached world target digest) target digest
          (completedMetrics world.mgr.slot
            (elapsedNanoseconds world.mgr.slot.transferStartNs env.endNs)) linked fs env).trace =
          [.published target world.mgr.slot.finalPath
            ((fs.contents world.mgr.slot.finalPath).getD []) digest,
            .publishing (publishRecord world target digest)] ++ world.trace := rfl
      refine closeSlot_advances_idle hrecorded hidle (fun hevents => ⟨?_, hevents⟩)
        (fun failed => reports_published id client authorization ?_) env.clearIo
      · exact ⟨hassembled.lengths, hassembled.content_eq, hassembled.length_eq,
          hassembled.once, hassembled.digest_eq, hassembled.hash,
          by simpa using hassembled.written⟩
      · exact ⟨target, world.mgr.slot.finalPath, _, digest, List.mem_cons_self .., rfl⟩

/-! ## Every stretch -/

theorem afterReap_advances (hcarried : Carried size hash world writer events)
    (hwriter : WriterInv world.mgr writer) (hcall : call.chunked = true) (env : Env) :
    AdvancesTo size hash writer events world call (afterReap world call env) := by
  cases call with
  | chunkBegin id client authorization total offset length =>
      exact uploadChunkBegin_advances hcarried hwriter ..
  | chunkWrite id offset data => exact uploadChunkWrite_advances hcarried hwriter ..
  | chunkFinish id offset length => exact uploadChunkFinish_advances hcarried hwriter ..
  | chunkAbort id offset length => exact uploadChunkAbort_advances hcarried hwriter ..
  | finishChunks id client authorization =>
      exact uploadFinishChunksWithMetrics_advances hcarried hwriter ..
  | _ => cases hcall

/-- Behind a `clear_slot` a chunk call finds no upload. -/
theorem afterReap_cleared_advances (hwriter : WriterInv world.mgr writer)
    (hidle : world.mgr.queue.writerActive = false) (hcall : call.chunked = true)
    (origin : Origin) (target : CString) (io : ClearIo) (env : Env) :
    AdvancesTo size hash writer events world call
      (afterReap (clearRest world origin target io).1 call env) := by
  refine .cleared (afterReap_advances (fun hoccupied => ?_)
    (writerInv_clearRest hwriter hidle origin target io) hcall env)
  cases hoccupied

theorem reapLocked_advances (hcarried : Carried size hash world writer events)
    (hwriter : WriterInv world.mgr writer) (hcall : call.chunked = true) (now : ℕ) (env : Env) :
    AdvancesTo size hash writer events world call (reapLocked world call now env) := by
  unfold reapLocked
  split
  · have hsame : SameFile world (clearStart world) := ⟨rfl, rfl, rfl, rfl, rfl, rfl, rfl, rfl⟩
    dsimp only
    split
    · exact advances_park (fun hoccupied => (hcarried hoccupied).clearStart hwriter) rfl
        (.reaping hcall _) (.of_same hsame rfl rfl)
    · rename_i hidle
      have hstarted : WriterInv (clearStart world).mgr writer :=
        writerInv_update hwriter (.discard : Update (.body .snapshot env) world _)
      have hrest : AdvancesTo size hash writer ([] ++ events) (clearStart world) call
          (afterReap (clearRest (clearStart world) .lease world.mgr.slot.uploadId env.reapIo).1 call
            env) :=
        afterReap_cleared_advances hstarted (by simpa using hidle) hcall ..
      exact hrest.behind rfl (fun hevents => hevents) (.of_same hsame rfl rfl)
  · exact afterReap_advances hcarried hwriter hcall env

/-- What a chunk call is refused with on its arguments says nothing. -/
theorem refused_reports {result : UploadResult} (hcall : call.chunked = true)
    (hrefused : call.refused world = some result) (events : List Event) :
    Reports call (.of result) events := by
  cases call with
  | chunkBegin =>
      simp only [Call.refused, Option.ite_none_right_eq_some, Option.some.injEq] at hrefused
      exact reports_refused _ (by simp [Reply.of, ← hrefused.2]) events
  | chunkWrite id offset data =>
      simp only [Call.refused, Option.ite_none_right_eq_some, Option.some.injEq] at hrefused
      rw [hrefused.1]
      exact ⟨silent_writeNothing id offset _, fun _ _ _ hwrite => by cases hwrite⟩
  | chunkFinish => exact reports_chunkFinish ..
  | chunkAbort => exact reports_chunkAbort ..
  | finishChunks => cases hrefused
  | _ => cases hcall

theorem enterCall_advances (hcarried : Carried size hash world writer events)
    (hwriter : WriterInv world.mgr writer) (hcall : call.chunked = true) (env : Env) :
    AdvancesTo size hash writer events world call (enterCall world call env) := by
  unfold enterCall
  split
  · rename_i hrefused
    exact advances_quiet hcarried hwriter (refused_reports hcall hrefused events)
  · cases call with
    | chunkBegin | chunkWrite | chunkFinish | finishChunks =>
        exact reapLocked_advances hcarried hwriter hcall env.now env
    | chunkAbort => exact afterReap_advances hcarried hwriter hcall env
    | _ => cases hcall

theorem resume_advances (hcarried : Carried size hash world writer events)
    (hwriter : WriterInv world.mgr writer) {pc : Pc} (h : Relies world events call pc) {env : Env}
    (hresume : resume world pc env = some stretch) :
    AdvancesTo size hash writer events world call stretch := by
  cases h with
  | reaping hcall target =>
      simp only [resume] at hresume
      split at hresume
      · cases hresume
        exact advances_park hcarried rfl (.reaping hcall target)
          (.of_same ⟨rfl, rfl, rfl, rfl, rfl, rfl, rfl, rfl⟩ rfl rfl)
      · rename_i hidle
        cases hresume
        exact afterReap_cleared_advances hwriter (by simpa using hidle) hcall ..
  | failed _ hresult target =>
      cases hresume
      exact awaitClosing_advances hcarried (.failed call hresult target) env.clearIo
  | published id client authorization hreported target =>
      cases hresume
      exact awaitClosing_advances hcarried
        (.published id client authorization hreported target) env.clearIo
  | drain id client authorization target =>
      cases hresume
      exact awaitChunks_advances hcarried hwriter ..
  | hash => cases hresume
  | hashed id client authorization target hstored hdigest =>
      cases hresume
      exact chunksHashed_advances hcarried hwriter
        (.hashed id client authorization target hstored hdigest) env

/-! ## Runs -/

/-- The system `events` behind a prepared upload, in chunk calls only. -/
structure Transferring (size : ℕ) (hash : CString) (before events : List Event) (sys : Sys) :
    Prop where
  trace_eq : sys.world.trace = events ++ before
  writer : WriterInv sys.world.mgr sys.writer
  carried : Carried size hash sys.world sys.writer events
  assembles : Assembles size hash events
  relies : ∀ tid thread, sys.threads tid = some thread →
    Relies sys.world events thread.call thread.pc

variable {before : List Event} {sys : Sys}

/-- The thread `tid` takes a stretch. -/
theorem Transferring.settle {tid : ℕ} (h : Transferring size hash before events sys)
    (hwriter : WriterInv (sys.settle tid call stretch).world.mgr
      (sys.settle tid call stretch).writer)
    (hadvances : AdvancesTo size hash sys.writer events sys.world call stretch) :
    ∃ events', Transferring size hash before events' (sys.settle tid call stretch) := by
  obtain ⟨new, hnew⟩ := hadvances
  rw [settle_eq] at hwriter ⊢
  refine ⟨new ++ events, ?_, hwriter, hnew.carried, hnew.assembles h.assembles, ?_⟩
  · rw [List.append_assoc, ← h.trace_eq]
    exact hnew.trace_eq
  · intro other thread hthread
    dsimp only at hthread
    by_cases hother : other = tid
    · subst hother
      rw [Function.update_self] at hthread
      have hpark := pc_of_thread hthread
      have hcall : thread.call = call := by
        rw [hpark] at hthread
        exact congrArg Thread.call (Option.some.inj hthread).symm
      rw [hcall]
      exact hnew.relies thread.pc hpark
    · rw [Function.update_of_ne hother] at hthread
      exact (h.relies other thread hthread).kept hnew.leaves
        fun event => List.mem_append_right new

/-- The writer does something, and leaves the callers and the tables they rely on alone. -/
theorem Transferring.ofWriter {new : List Event} {writer : WriterPc}
    (h : Transferring size hash before events sys) (htrace : next.trace = new ++ sys.world.trace)
    (hwriter : WriterInv next.mgr writer) (hcarried : Carried size hash next writer (new ++ events))
    (hassembles : Assembles size hash (new ++ events))
    (hrelies : ∀ tid thread, sys.threads tid = some thread →
      Relies next (new ++ events) thread.call thread.pc) :
    ∃ events', Transferring size hash before events' { sys with world := next, writer } := by
  refine ⟨new ++ events, ?_, hwriter, hcarried, hassembles, hrelies⟩
  rw [List.append_assoc, ← h.trace_eq]
  exact htrace

/-- While the writer is at a chunk nobody relies on all of them being stored. -/
theorem Transferring.reliesOn (h : Transferring size hash before events sys) {job : Job}
    {done : ℕ} {error : Option Errno} (hwriting : sys.writer = .writing job done error)
    (hoccupied : next.mgr.slot.occupied = sys.world.mgr.slot.occupied) {events' : List Event}
    (hevents : ∀ event ∈ events, event ∈ events') (tid : ℕ) (thread : Thread)
    (hthread : sys.threads tid = some thread) : Relies next events' thread.call thread.pc := by
  have hrelies := h.relies tid thread hthread
  have hnot : ∀ path, (sys.world.mgr.slot.occupied = true → AllStored sys.world path) →
      ¬next.mgr.slot.occupied = true := by
    intro path hstored hoccupied'
    rw [hoccupied] at hoccupied'
    have hidle := ((h.carried hoccupied').idle h.writer (hstored hoccupied')).1
    rw [hwriting] at hidle
    cases hidle
  generalize thread.call = call at hrelies ⊢
  generalize thread.pc = pc at hrelies ⊢
  cases hrelies with
  | reaping hcall target => exact .reaping hcall target
  | failed _ hresult target => exact .failed call hresult target
  | published id client authorization hreported target =>
      exact .published id client authorization (hreported.mono hevents) target
  | drain id client authorization target => exact .drain id client authorization target
  | @hash id client authorization target path hstored =>
      exact .hash id client authorization target
        fun hoccupied' => absurd hoccupied' (hnot path hstored)
  | @hashed id client authorization target path _ hstored =>
      exact @Relies.hashed next events' id client authorization target path _
        (fun hoccupied' => absurd hoccupied' (hnot path hstored))
        fun _ _ hoccupied' => absurd hoccupied' (hnot path hstored)

/-- The same for a writer that is in the middle of a job. -/
theorem Transferring.writing {new : List Event} {writer : WriterPc} {job : Job} {done : ℕ}
    {error : Option Errno} (h : Transferring size hash before events sys)
    (hwriting : sys.writer = .writing job done error)
    (htrace : next.trace = new ++ sys.world.trace)
    (hoccupied : next.mgr.slot.occupied = sys.world.mgr.slot.occupied)
    (hwriter : WriterInv next.mgr writer) (hcarried : Carried size hash next writer (new ++ events))
    (hassembles : Assembles size hash (new ++ events)) :
    ∃ events', Transferring size hash before events' { sys with world := next, writer } :=
  h.ofWriter htrace hwriter hcarried hassembles
    (h.reliesOn hwriting hoccupied fun _ => List.mem_append_right new)

theorem hashPartFile_digest {fs : Fs} {path : CString} {outcome : Except Errno (List Bytes)}
    {pass : Except Errno CString} (h : hashPartFile fs path outcome = some pass) {digest : CString}
    (hpass : pass = .ok digest) :
    ∃ content, fs.contents path = some content ∧ digest = sha256Hex (Fips.sha256 content) := by
  unfold hashPartFile at h
  split at h
  · cases h
    cases hpass
  · rename_i reads
    split at h
    · rename_i hcontents
      cases h
      cases hpass
      refine ⟨reads.flatten, hcontents, ?_⟩
      have habsorbed := final_of_absorbed (absorbed_foldl absorbed_init reads)
      rw [List.nil_append] at habsorbed
      rw [hashReads, habsorbed]
    · cases h

theorem transferring_step {action : Action} {next : Sys}
    (h : Transferring size hash before events sys)
    (hallowed : ∀ tid call env, action = .call tid call env → call.chunked = true)
    (hstep : step sys action = some next) :
    ∃ events', Transferring size hash before events' next := by
  have hwriter := writerInv_step h.writer hstep
  cases step_stepped hstep with
  | @call tid call env =>
      exact h.settle hwriter
        (enterCall_advances h.carried h.writer (hallowed tid call env rfl) env)
  | @resume tid env thread stretch hthread hresume =>
      exact h.settle hwriter
        (resume_advances h.carried h.writer (h.relies tid thread hthread) hresume)
  | directIo hthread => cases h.relies _ _ hthread
  | hashFinish hthread => cases h.relies _ _ hthread
  | @hashChunks tid outcome call id partPath pass hthread hhash =>
      refine ⟨events, h.trace_eq, hwriter, h.carried, h.assembles, fun other thread hother => ?_⟩
      simp only [Sys.setPc] at hother
      by_cases hthis : other = tid
      · subst hthis
        rw [Function.update_self] at hother
        cases hother
        have hrelies := h.relies other _ hthread
        cases hrelies with
        | hash id' client authorization target hstored =>
            exact .hashed id' client authorization id hstored
              fun digest hpass _ => hashPartFile_digest hhash hpass
      · rw [Function.update_of_ne hthis] at hother
        exact h.relies other thread hother
  | @pick job hwaiting hjob =>
      have hcarried := h.carried
      rw [hwaiting] at hcarried
      have hsame : SameFile sys.world { sys.world with mgr.queue.writerActive := true } :=
        ⟨rfl, rfl, rfl, rfl, rfl, rfl, rfl, rfl⟩
      have hnothing : sys.world.trace = [] ++ sys.world.trace := rfl
      exact h.ofWriter hnothing hwriter (fun hoccupied => (hcarried hoccupied).pick hjob)
        h.assembles fun tid thread hthread =>
          (h.relies tid thread hthread).kept (.of_same hsame rfl rfl) fun _ hmem => hmem
  | @writerIo result job done bytes fs count error hwriting hbytes hio =>
      have hcarried := h.carried
      have hinv := h.writer
      rw [hwriting] at hcarried hinv
      cases error with
      | none =>
          have hnothing : ({ sys.world with fs } : World).trace = [] ++ sys.world.trace := rfl
          exact h.writing hwriting hnothing rfl hwriter
            (fun hoccupied => (hcarried hoccupied).writerIo hinv hbytes hio) h.assembles
      | some error =>
          have hfailed : (({ sys.world with fs } : World).note .writeFailed).trace =
              [.writeFailed] ++ sys.world.trace := rfl
          exact h.writing hwriting hfailed rfl hwriter
            (fun hoccupied => ((hcarried hoccupied).writerIo hinv hbytes hio).writeFailed)
            h.assembles
  | @complete elapsedNs job done error hwriting hdone =>
      have hcarried := h.carried
      have hinv := h.writer
      rw [hwriting] at hcarried hinv
      cases job with
      | queue index size' =>
          have hnothing : (completeJob sys.world (.queue index size') error elapsedNs).trace =
              [] ++ sys.world.trace := by cases error <;> rfl
          refine h.writing hwriting hnothing (by cases error <;> rfl) hwriter
            (fun hoccupied => ?_) h.assembles
          obtain ⟨_, _, _, _, hjob⟩ :=
            (hcarried (by cases error <;> exact hoccupied)).chunkJob hinv
          cases hjob
      | chunk index address size' =>
          cases error with
          | none =>
              have hdone : done = size' := by simpa [Job.size] using hdone
              have hdrained : (completeJob sys.world (.chunk index address size') none
                  elapsedNs).trace = [.drained index] ++ sys.world.trace := rfl
              exact h.writing hwriting hdrained rfl hwriter
                (fun hoccupied => (hcarried hoccupied).drain hinv hdone elapsedNs) h.assembles
          | some error =>
              have hnothing : (completeJob sys.world (.chunk index address size') (some error)
                  elapsedNs).trace = [] ++ sys.world.trace := rfl
              exact h.writing hwriting hnothing rfl hwriter
                (fun hoccupied => (hcarried hoccupied).giveUp elapsedNs) h.assembles

/-! ## From the preparation on -/

/-- While a transfer has not started and nothing has been received, nothing is in the ring. -/
structure Unfilled (world : World) : Prop extends Unbegun world where
  empty : world.mgr.slot.started = false → world.mgr.slot.received = 0 →
    world.mgr.queue.writeQueued = 0 ∧ world.mgr.queue.buffered = 0

/-- Nothing is said of a ring once the transfer has started. -/
theorem Unfilled.of_started (h : Unbegun world) (hstarted : world.mgr.slot.started = true) :
    Unfilled world :=
  ⟨h, fun hfresh => by simp [hstarted] at hfresh⟩

theorem unfilled_update {code : Code} (h : Unfilled world) (hupdate : Update code world next) :
    Unfilled next := by
  have hunbegun := unbegun_update h.toUnbegun hupdate
  cases hupdate with
  | reap | clear => exact ⟨hunbegun, fun _ _ => ⟨rfl, rfl⟩⟩
  | @names authorization metadata =>
      obtain ⟨_, _, _, _, hnames⟩ := prepareNames_eq world authorization metadata code.env
      rw [hnames] at hunbegun ⊢
      exact ⟨hunbegun, h.empty⟩
  | @open_ client authorization metadata =>
      have hspec := prepareOpen_spec world client authorization metadata code.env
      generalize prepareOpen world client authorization metadata code.env = opened
        at hspec hunbegun
      cases hspec <;> exact ⟨hunbegun, h.empty⟩
  | begin => exact .of_started hunbegun rfl
  | @copy id rest activity hrest =>
      refine ⟨hunbegun, fun hfresh hreceived => ?_⟩
      have hpositive : world.mgr.slot.received +
          (rest.take (world.mgr.queue.roundCount rest)).length = 0 := hreceived
      obtain ⟨-, hbuffered⟩ := h.empty hfresh (by omega)
      have hspace : world.mgr.queue.buffered ≠ UPLOAD_WRITE_BUFFER_BYTES := by
        rw [hbuffered]
        decide
      have hround := Queue.roundCount_pos hrest hspace
      rw [List.length_take, Nat.min_eq_left (Queue.roundCount_le ..)] at hpositive
      omega
  | enqueue hqueue =>
      refine ⟨hunbegun, fun hfresh hreceived => ?_⟩
      obtain ⟨hqueued, hbuffered⟩ := h.empty hfresh hreceived
      rw [enqueueWriteBufferLocked, if_pos hbuffered] at hqueue
      cases hqueue
      exact ⟨hqueued, hbuffered⟩
  | accept => exact .of_started hunbegun rfl
  | store index relative data env hreceives =>
      exact .of_started hunbegun (h.started (Chunks.receiving_of_receives hreceives)).1
  | drop _ _ _ hreceiving | abort env _ _ _ hreceiving =>
      exact .of_started hunbegun (h.started hreceiving).1
  | @endDirect data _ error =>
      refine ⟨hunbegun, fun hfresh hreceived => ?_⟩
      cases error with
      | none =>
          have hreceived : world.mgr.slot.received + data.length = 0 := hreceived
          exact h.empty hfresh (by omega)
      | some error => exact h.empty hfresh hreceived
  | publish id digest elapsed env =>
      have hspec := publishSlot_spec world id digest elapsed env
      generalize publishSlot world id digest elapsed env = published at hspec hunbegun
      cases hspec <;> exact ⟨hunbegun, h.empty⟩
  | discard | destination | enable | startDirect | ready | finalize | unfinalize | digest =>
      exact ⟨hunbegun, h.empty⟩

theorem unfilled_completeJob {job : Job} {done : ℕ} {error : Option Errno} (elapsedNs : ℕ)
    (hwriter : WriterInv world.mgr (.writing job done error)) (h : Unfilled world) :
    Unfilled (completeJob world job error elapsedNs) := by
  refine ⟨unbegun_completeJob elapsedNs hwriter h.toUnbegun, fun hfresh hreceived => ?_⟩
  cases job with
  | queue index size' =>
      have hempty := h.empty (by cases error <;> exact hfresh) (by cases error <;> exact hreceived)
      rw [completeJob_queue]
      simp [Queue.popped, hempty]
  | chunk index address size' =>
      cases error with
      | none => exact h.empty hfresh hreceived
      | some error => exact h.empty hfresh hreceived

theorem unfilled_keptBySteps : KeptBySteps (fun _ => True) Unfilled where
  update := fun _ => unfilled_update
  clear := fun _ _ _ _ _ => ⟨unbegun_clearRest .., fun _ _ => ⟨rfl, rfl⟩⟩
  returned := fun _ _ h => ⟨⟨h.fresh, h.vacant⟩, h.empty⟩
  write := fun h _ => ⟨⟨h.fresh, h.vacant⟩, h.empty⟩
  writeFailed := fun h => ⟨⟨h.fresh, h.vacant⟩, h.empty⟩
  pick := fun h => ⟨⟨h.fresh, h.vacant⟩, h.empty⟩
  complete := fun elapsedNs hwriter _ h => unfilled_completeJob elapsedNs hwriter h

/-- What a successful `upload_prepare` leaves where nothing has been received, which it takes
over: the slot is taken, and the part file is open and empty. -/
structure FreshUpload (world : World) (file : ℕ) : Prop where
  occupied : world.mgr.slot.occupied = true
  unstarted : world.mgr.slot.started = false
  received : world.mgr.slot.received = 0
  fd_eq : world.mgr.slot.fd = some file
  entry : world.fs.entries world.mgr.slot.partPath = some file
  reserved : (world.fs.files file).reserved ≤ world.mgr.slot.expectedSize
  written : (world.fs.files file).written = []

/-- A prepare that opens its part file leaves all of that, but for what has been received. -/
theorem freshUpload_prepareOpen (h : Unbegun world) (hfree : world.mgr.slot.occupied = false)
    {client authorization : CString} {metadata : Metadata} {env : Env}
    (hopen : prepareOpen world client authorization metadata env = (next, .ok))
    (hreceived : next.mgr.slot.received = 0) : ∃ file, FreshUpload next file := by
  have hspec := prepareOpen_spec world client authorization metadata env
  rw [hopen] at hspec
  cases hspec with
  | refused hresult => exact absurd rfl hresult
  | failed hresult => exact absurd rfl hresult
  | @occupied file fs fs' hopened hreserve =>
      obtain ⟨hentry, hfile⟩ := openPartFile_spec hopened
      obtain ⟨hwritten, hreserved⟩ := reserveUploadSpace_file hreserve
      have hentries := reserveUploadSpace_entries hreserve
      have hempty : (fs.files file).written = [] ∧ (fs.files file).reserved = 0 := by simp [hfile]
      refine ⟨file, rfl, (h.vacant hfree).1, hreceived, rfl, ?_, ?_, ?_⟩
      · exact (congrFun hentries _).trans hentry
      · refine hreserved.trans ?_
        simp only [openedPart, hempty.2]
        exact (Nat.zero_max _).le
      · exact hwritten.trans hempty.1

/-- A prepare that fails answers why. -/
theorem prepareFailed_result {result : UploadResult} {env : Env} {reply : Reply}
    (h : prepareFailed world result env = (next, .done reply)) : reply.result = result := by
  unfold prepareFailed at h
  split at h
  · unfold closeSlot awaitClosing at h
    split at h
    · cases h
    · cases h
      rfl
  · cases h
    rfl

theorem freshUpload_prepareSlot (h : Unbegun world) {client authorization : CString}
    {metadata : Metadata} {env : Env} {reply : Reply}
    (hdone : prepareSlot world client authorization metadata env = (next, .done reply))
    (hok : reply.result = .ok) (hreceived : next.mgr.slot.received = 0) :
    ∃ file, FreshUpload next file := by
  have hfailed : ∀ {world : World} {result : UploadResult}, result ≠ .ok →
      prepareFailed world result env ≠ (next, .done reply) :=
    fun hresult hfailed => hresult ((prepareFailed_result hfailed).symm.trans hok)
  obtain ⟨finalName, finalPath, uploadId, partPath, hnames⟩ :=
    prepareNames_eq world authorization metadata env
  rw [prepareSlot] at hdone
  split at hdone
  · exact absurd hdone (hfailed (by simp))
  rename_i hfree
  split at hdone
  · rename_i named heq
    obtain rfl := (congrArg Prod.fst heq).symm.trans hnames
    have hnamed : Unbegun (world.named (world.mgr.settings.forAuthorization authorization)
        finalName finalPath uploadId partPath) := ⟨h.fresh, h.vacant⟩
    split at hdone
    · rename_i hopen
      cases hdone
      exact freshUpload_prepareOpen hnamed (by simpa [World.named] using hfree) hopen hreceived
    · exact absurd hdone (hfailed ‹_›)
  · exact absurd hdone (hfailed ‹_›)

theorem prepare_refused_ne (world : World) (client authorization : CString) (json : Bytes) :
    (Call.prepare client authorization json).refused world ≠ some .ok := by
  simp only [Call.refused]
  split
  · simp
  split
  · simp
  split <;> simp

/-- In every run an `upload_prepare` that succeeds at once leaves a fresh upload, where nothing
has been received. -/
theorem freshUpload_prepare {host : Bool} {destination : CString}
    {maxFileBytes maxFiles leaseSeconds : ℕ} {override : Option CString} {fs : Fs}
    {actions : List Action} {after : Sys}
    (hrun : Run step anyStep
      (.initial host destination maxFileBytes maxFiles leaseSeconds override fs) actions sys)
    {tid : ℕ} {client authorization : CString} {json : Bytes} {env : Env} {reply : Reply}
    (hstep : step sys (.call tid (.prepare client authorization json) env) = some after)
    (hdone : (enterCall sys.world (.prepare client authorization json) env).2 = .done reply)
    (hok : reply.result = .ok) (hreceived : after.world.mgr.slot.received = 0) :
    ∃ file, FreshUpload after.world file := by
  have hunbegun := (unbegun_keptBySteps.run admission_all (fun _ action _ => action.allowed_all)
    ⟨fun _ => ⟨rfl, fun _ => rfl, fun _ => rfl, fun _ => rfl, rfl, rfl, rfl⟩,
      fun _ => ⟨rfl, rfl⟩⟩ hrun).1
  have hworld : after.world = settled (.prepare client authorization json)
      (enterCall sys.world (.prepare client authorization json) env) := by
    cases step_stepped hstep with
    | call => rw [settle_eq]
  obtain ⟨next, hentered⟩ : ∃ next, enterCall sys.world (.prepare client authorization json) env =
      (next, .done reply) := ⟨_, Prod.ext rfl hdone⟩
  rw [hworld, hentered] at hreceived ⊢
  have hafter : ∀ {world : World}, Unbegun world →
      afterReap world (.prepare client authorization json) env = (next, .done reply) →
      ∃ file, FreshUpload next file := by
    intro world h hprepared
    simp only [afterReap] at hprepared
    split at hprepared
    · cases hprepared
      cases hok
    rw [uploadPrepare] at hprepared
    split at hprepared
    · dsimp only at hprepared
      split at hprepared
      · cases hprepared
      · exact freshUpload_prepareSlot (unbegun_clearRest ..) hprepared hok hreceived
    · exact freshUpload_prepareSlot h hprepared hok hreceived
  have hfresh : ∃ file, FreshUpload next file := by
    simp only [enterCall] at hentered
    split at hentered
    · rename_i result hrefused
      cases hentered
      cases hok
      exact (prepare_refused_ne _ _ _ _ hrefused).elim
    simp only [reapLocked] at hentered
    split at hentered
    · split at hentered
      · cases hentered
      · exact hafter (unbegun_clearRest ..) hentered
    · exact hafter hunbegun hentered
  obtain ⟨file, h⟩ := hfresh
  exact ⟨file, { h with }⟩

/-- An upload is prepared and nobody is in a call: the chunk transfer may begin. -/
theorem transferring_freshUpload {file : ℕ} (h : FreshUpload sys.world file)
    (hunfilled : Unfilled sys.world) (hwriter : WriterInv sys.world.mgr sys.writer)
    (hidle : ∀ tid, sys.threads tid = none) :
    Transferring sys.world.mgr.slot.expectedSize sys.world.mgr.slot.expectedHash sys.world.trace
      [] sys := by
  have htabled := hunfilled.toUnbegun.tabled h.unstarted h.received
  obtain ⟨-, -, -, hbuffers, hnext, -, -⟩ := hunfilled.fresh h.unstarted
  have hqueued := (hunfilled.empty h.unstarted h.received).1
  have hwaiting : sys.writer = .waiting := by
    generalize sys.writer = writer at hwriter
    cases writer with
    | waiting => rfl
    | writing job done error =>
        cases hwriter.working.2.1 with
        | queue hnonempty => exact absurd hqueued hnonempty
        | chunk _ hready =>
            simp only [chunkReadyForWriterLocked, decide_eq_true_eq] at hready
            have hstarted := (hwriter.transport hready.1).2
            rw [h.unstarted] at hstarted
            cases hstarted
  refine ⟨rfl, hwriter, fun _ => ?_, trivial, fun tid thread hthread => ?_⟩
  · rw [hwaiting]
    refine ⟨rfl, rfl, htabled.tables, hqueued, ⟨file, h.fd_eq, h.entry, h.reserved, ?_⟩, ?_, ?_,
      ?_, ?_⟩
    · intro _
      rw [h.written, hnext]
      rfl
    · intro index buffer hbuffer
      rw [hbuffers index] at hbuffer
      cases hbuffer
    · rw [hnext]
      intro index hindex
      omega
    · rw [hnext]
      rfl
    · simp
  · rw [hidle tid] at hthread
    cases hthread

namespace Sample

/-- The only chunk of upload 1 is begun, written in two pieces and finished; the writer stores
it, and the upload is finished. -/
def sendFive : List Action :=
  [.call 0 (.chunkBegin (uploadId 1) client authorization 5 0 5) (env 0),
    .call 1 (.chunkWrite (uploadId 1) 0 [7, 8, 9]) (env 0),
    .call 1 (.chunkWrite (uploadId 1) 3 [10, 11]) (env 0),
    .call 0 (.chunkFinish (uploadId 1) 0 5) (env 0), .pick, .writerIo (.wrote 2),
    .writerIo (.wrote 3), .complete 0,
    .call 2 (.finishChunks (uploadId 1) client authorization) (env 0),
    .hash 2 (.ok [[7, 8, 9, 10, 11]]), .resume 2 (env 0)]

end Sample

/-- From an upload prepared in any run with nothing received, whatever chunk calls follow in
whatever order, with any writer steps, failing ones included: a file that is published is made of
all chunks, each as it was written since it was last begun, and each written once. -/
theorem assembles_run {host : Bool} {destination : CString}
    {maxFileBytes maxFiles leaseSeconds : ℕ} {override : Option CString} {fs : Fs}
    {earlier actions : List Action} {prepared sys : Sys} {file : ℕ}
    (hearlier : Run step anyStep
      (.initial host destination maxFileBytes maxFiles leaseSeconds override fs) earlier prepared)
    (hidle : ∀ tid, prepared.threads tid = none) (hprepared : FreshUpload prepared.world file)
    (hrun : Run step (fun _ action =>
      ∀ tid call env, action = .call tid call env → call.chunked = true) prepared actions sys) :
    ∃ events, sys.world.trace = events ++ prepared.world.trace ∧
      Assembles prepared.world.mgr.slot.expectedSize prepared.world.mgr.slot.expectedHash
        events := by
  have hunfilled := (unfilled_keptBySteps.run admission_all (fun _ action _ => action.allowed_all)
    ⟨⟨fun _ => ⟨rfl, fun _ => rfl, fun _ => rfl, fun _ => rfl, rfl, rfl, rfl⟩,
      fun _ => ⟨rfl, rfl⟩⟩, fun _ _ => ⟨rfl, rfl⟩⟩ hearlier).1
  have hstart := transferring_freshUpload hprepared hunfilled (writerInv_run hearlier) hidle
  have hend := hrun.invariant
    (I := fun sys => ∃ events, Transferring prepared.world.mgr.slot.expectedSize
      prepared.world.mgr.slot.expectedHash prepared.world.trace events sys)
    (fun _ _ _ ⟨_, hbefore⟩ hallowed hstep => transferring_step hbefore hallowed hstep)
    ⟨[], hstart⟩
  obtain ⟨events, h⟩ := hend
  exact ⟨events, h.trace_eq, h.assembles⟩

open Sample in
/-- Five bytes come in as one chunk and are published. -/
theorem assembles_sendFive :
    ∃ sys events, exec step prepared sendFive = some sys ∧
      sys.world.trace = events ++ prepared.world.trace ∧ Assembles 5 [] events ∧
      sys.world.fs.contents [47, 100, 47, 102] = some [7, 8, 9, 10, 11] := by
  have hprepare : step (start 60) (prepare 0 1 5) = some prepared := (Option.some_get _).symm
  have hexec : ∃ sys, exec step prepared sendFive = some sys ∧
      sys.world.fs.contents [47, 100, 47, 102] = some [7, 8, 9, 10, 11] :=
    exists_of_exec (by decide +kernel)
  obtain ⟨sys, hsys, hcontents⟩ := hexec
  have hearlier : Run step anyStep (start 60) [prepare 0 1 5] prepared :=
    .snoc .nil trivial hprepare
  have hunder : prepared.under 1 = [] := by decide +kernel
  have hidle : ∀ tid, prepared.threads tid = none :=
    idle_of_exec (fun _ _ => rfl) (by simp [prepare, Action.tid]) (exec_of_run hearlier) hunder
  have hdone : (enterCall (start 60).world (.prepare client authorization (body 5)) (env 1)).2 =
      .done { Reply.of .ok with prepared := some ⟨uploadId 1, [102], 5⟩ } := by decide +kernel
  obtain ⟨file, hfresh⟩ := freshUpload_prepare (.nil : Run step anyStep (start 60) [] _) hprepare
    hdone rfl (by decide +kernel)
  have hchunked : ∀ action ∈ sendFive, ∀ tid call env, action = .call tid call env →
      call.chunked = true := by
    simp [sendFive, Call.chunked]
  have hsize : prepared.world.mgr.slot.expectedSize = 5 ∧
      prepared.world.mgr.slot.expectedHash = [] := by decide +kernel
  obtain ⟨events, htrace, hassembles⟩ := assembles_run hearlier hidle hfresh
    (Run.of_exec (fun action hmem _ => hchunked action hmem) hsys)
  rw [hsize.1, hsize.2] at hassembles
  exact ⟨sys, events, hsys, htrace, hassembles, hcontents⟩

end LocalSend.Upload
