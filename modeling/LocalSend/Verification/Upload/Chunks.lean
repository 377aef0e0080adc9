import LocalSend.Library.Tally
import LocalSend.Verification.Upload.Clear
import LocalSend.Verification.Upload.Geometry
import LocalSend.Verification.Upload.Invariant

/-! # The chunk tables

The states, the progress and the buffers of the chunks agree with one another and with the
four counters. Each operation on a chunk keeps that, and so does the writer.
-/

namespace LocalSend.Upload

open Tally Transition

/-- The states in which a chunk has a buffer. -/
def ChunkState.buffered : ChunkState → Bool
  | .receiving => true
  | .ready => true
  | _ => false

/-- The states in which all of a chunk is in. -/
def ChunkState.complete : ChunkState → Bool
  | .ready => true
  | .stored => true
  | _ => false

/-- The entries of one chunk. -/
structure Entry (expectedSize : ℕ) (chunks : Chunks) (index : ℕ) : Prop where
  buffered : (chunks.chunkBuffers index).isSome = (chunks.chunkStates index).buffered
  progress_le : chunks.chunkProgress index ≤ chunkLengthFor expectedSize index
  absent : chunks.chunkStates index = .absent → chunks.chunkProgress index = 0
  complete : (chunks.chunkStates index).complete = true →
    chunks.chunkProgress index = chunkLengthFor expectedSize index
  contents : ∀ buffer, chunks.chunkBuffers index = some buffer →
    buffer.bytes.length = chunks.chunkProgress index
  stored_iff : chunks.chunkStates index = .stored ↔ index < chunks.nextChunkToWrite

/-- The tables of an upload of `expectedSize` bytes, `received` of them in. -/
structure Tables (expectedSize received : ℕ) (chunks : Chunks) : Prop where
  count_eq : chunks.chunkCount = chunkCountFor expectedSize
  outside : ∀ index, chunks.chunkCount ≤ index → chunks.chunkStates index = .absent
  entry : ∀ index, Entry expectedSize chunks index
  received_eq : received = total chunks.chunkCount chunks.chunkProgress
  active_eq : chunks.activeChunkBuffers =
    tally chunks.chunkCount fun index => (chunks.chunkBuffers index).isSome
  completed_eq : chunks.chunksCompleted =
    tally chunks.chunkCount fun index => (chunks.chunkStates index).complete
  active_le : chunks.activeChunkBuffers ≤ UPLOAD_CHUNK_BUFFER_SLOTS

variable {expectedSize received index : ℕ} {chunks chunks' : Chunks}

/-- The first chunks are together as long as the file reaches. -/
theorem total_chunkLengthFor (size count : ℕ) :
    total count (chunkLengthFor size) = min size (count * UPLOAD_CHUNK_BYTES) := by
  induction count with
  | zero => simp [total]
  | succ count ih =>
      have hlength := chunkLengthFor_eq size count
      rw [total_succ, Nat.succ_mul]
      omega

theorem total_chunkLengthFor_le (size count : ℕ) : total count (chunkLengthFor size) ≤ size :=
  (total_chunkLengthFor size count).trans_le (min_le_left ..)

namespace Tables

theorem lt_count (h : Tables expectedSize received chunks) (index : ℕ)
    (hstate : chunks.chunkStates index ≠ .absent) : index < chunks.chunkCount := by
  by_contra hindex
  exact hstate (h.outside index (not_lt.mp hindex))

theorem received_le (h : Tables expectedSize received chunks) : received ≤ expectedSize := by
  calc received = total chunks.chunkCount chunks.chunkProgress := h.received_eq
    _ ≤ total chunks.chunkCount (chunkLengthFor expectedSize) :=
        total_le fun index => (h.entry index).progress_le
    _ ≤ expectedSize := total_chunkLengthFor_le ..

/-- What a chunk has got is part of what has been received. -/
theorem progress_le_received (h : Tables expectedSize received chunks)
    (hindex : index < chunks.chunkCount) : chunks.chunkProgress index ≤ received :=
  h.received_eq ▸ le_total chunks.chunkProgress hindex

/-- A chunk with a buffer is counted. -/
theorem active_pos (h : Tables expectedSize received chunks) (index : ℕ)
    (hstate : (chunks.chunkStates index).buffered = true) : 0 < chunks.activeChunkBuffers := by
  have hindex : index < chunks.chunkCount := by
    apply h.lt_count index
    intro habsent
    simp [habsent, ChunkState.buffered] at hstate
  rw [h.active_eq]
  exact tally_pos hindex ((h.entry index).buffered.trans hstate)

/-- No chunk has been begun. -/
theorem fresh (hcount : chunks.chunkCount = chunkCountFor expectedSize)
    (hstates : ∀ index, chunks.chunkStates index = .absent)
    (hprogress : ∀ index, chunks.chunkProgress index = 0)
    (hbuffers : ∀ index, chunks.chunkBuffers index = none) (hnext : chunks.nextChunkToWrite = 0)
    (hactive : chunks.activeChunkBuffers = 0) (hcompleted : chunks.chunksCompleted = 0) :
    Tables expectedSize 0 chunks := by
  refine ⟨hcount, fun index _ => hstates index, fun index => ?_, ?_, ?_, ?_, ?_⟩
  · refine ⟨?_, ?_, ?_, ?_, ?_, ?_⟩ <;>
      simp [hstates, hprogress, hbuffers, hnext, ChunkState.buffered, ChunkState.complete]
  · simp [total, hprogress]
  · simp [tally, total, hbuffers, hactive]
  · simp [tally, total, hstates, hcompleted, ChunkState.complete]
  · simp [hactive]

theorem empty : Tables 0 0 .empty :=
  .fresh rfl (fun _ => rfl) (fun _ => rfl) (fun _ => rfl) rfl rfl rfl

/-- Without a chunk there is nothing in the tables. -/
theorem received_eq_zero (h : Tables 0 received chunks) : received = 0 :=
  Nat.le_zero.mp h.received_le

theorem occupied (h : Tables 0 received chunks) {world : World}
    (hchunks : world.mgr.chunks = chunks) (client authorization : CString)
    (metadata : Metadata) (env : Env) :
    Tables metadata.size 0 (occupySlot world client authorization metadata env).mgr.chunks := by
  have hstates : ∀ index, chunks.chunkStates index = .absent := by
    intro index
    have hcount : chunks.chunkCount = 0 := h.count_eq
    exact h.outside index (by omega)
  have hprogress : ∀ index, chunks.chunkProgress index = 0 :=
    fun index => (h.entry index).absent (hstates index)
  have hbuffers : ∀ index, chunks.chunkBuffers index = none := by
    intro index
    have hbuffer := (h.entry index).buffered
    simpa [hstates, ChunkState.buffered] using hbuffer
  unfold occupySlot
  dsimp only
  by_cases hcount : 0 < chunkCountFor metadata.size
  · rw [if_pos hcount]
    exact .fresh rfl (fun _ => rfl) (fun _ => rfl) (fun _ => rfl) rfl rfl rfl
  · rw [if_neg hcount, hchunks]
    exact .fresh rfl hstates hprogress hbuffers rfl rfl rfl

/-- The chunk flags have no part in it. -/
theorem setFlags (h : Tables expectedSize received chunks) (transport finalizing : Bool)
    (writes : ℕ) :
    Tables expectedSize received
      { chunks with
        chunkTransport := transport
        finalizingChunks := finalizing
        activeChunkWrites := writes } := by
  refine ⟨h.count_eq, h.outside, fun index => ?_, h.received_eq, h.active_eq, h.completed_eq,
    h.active_le⟩
  have hentry := h.entry index
  exact ⟨hentry.buffered, hentry.progress_le, hentry.absent, hentry.complete, hentry.contents,
    hentry.stored_iff⟩

/-- Only the entries of one chunk change, and the counters with them. -/
theorem update (h : Tables expectedSize received chunks) {received' : ℕ}
    (hindex : index < chunks.chunkCount) (hcount : chunks'.chunkCount = chunks.chunkCount)
    (hothers : ∀ other, other ≠ index → chunks'.chunkStates other = chunks.chunkStates other ∧
      chunks'.chunkProgress other = chunks.chunkProgress other ∧
      chunks'.chunkBuffers other = chunks.chunkBuffers other ∧
      (other < chunks'.nextChunkToWrite ↔ other < chunks.nextChunkToWrite))
    (hentry : Entry expectedSize chunks' index)
    (hreceived : received' + chunks.chunkProgress index =
      received + chunks'.chunkProgress index)
    (hactive : chunks'.activeChunkBuffers + (chunks.chunkBuffers index).isSome.toNat =
      chunks.activeChunkBuffers + (chunks'.chunkBuffers index).isSome.toNat)
    (hcompleted : chunks'.chunksCompleted + (chunks.chunkStates index).complete.toNat =
      chunks.chunksCompleted + (chunks'.chunkStates index).complete.toNat)
    (hle : chunks'.activeChunkBuffers ≤ UPLOAD_CHUNK_BUFFER_SLOTS) :
    Tables expectedSize received' chunks' := by
  have hprogress := total_update hindex fun other hother => (hothers other hother).2.1
  have hbuffer : ∀ other, other ≠ index →
      (chunks'.chunkBuffers other).isSome = (chunks.chunkBuffers other).isSome :=
    fun other hother => congrArg Option.isSome (hothers other hother).2.2.1
  have hstate : ∀ other, other ≠ index →
      (chunks'.chunkStates other).complete = (chunks.chunkStates other).complete :=
    fun other hother => congrArg ChunkState.complete (hothers other hother).1
  have hbuffers := tally_update hindex hbuffer
  have hstates := tally_update hindex hstate
  refine ⟨hcount.trans h.count_eq, fun other hother => ?_, fun other => ?_, ?_, ?_, ?_, hle⟩
  · rw [hcount] at hother
    rw [(hothers other (by omega)).1]
    exact h.outside other hother
  · by_cases hother : other = index
    · exact hother ▸ hentry
    obtain ⟨hstate, hprogress, hbuffer, hnext⟩ := hothers other hother
    have hold := h.entry other
    exact ⟨by rw [hbuffer, hstate, hold.buffered], by rw [hprogress]; exact hold.progress_le,
      by rw [hstate, hprogress]; exact hold.absent,
      by rw [hstate, hprogress]; exact hold.complete,
      by rw [hbuffer, hprogress]; exact hold.contents,
      by rw [hstate, hnext]; exact hold.stored_iff⟩
  · have hold := h.received_eq
    rw [hcount]
    omega
  · have hold := h.active_eq
    rw [hcount]
    omega
  · have hold := h.completed_eq
    rw [hcount]
    omega

/-! ## The operations on a chunk -/

/-- An absent chunk is not behind the writer. -/
theorem next_le (h : Tables expectedSize received chunks) (index : ℕ)
    (hstate : chunks.chunkStates index ≠ .stored) : chunks.nextChunkToWrite ≤ index := by
  by_contra hnext
  exact hstate ((h.entry index).stored_iff.mpr (not_le.mp hnext))

theorem accept (h : Tables expectedSize received chunks) (hindex : index < chunks.chunkCount)
    (habsent : chunks.chunkStates index = .absent)
    (hspace : chunks.activeChunkBuffers < UPLOAD_CHUNK_BUFFER_SLOTS) (address : ℕ)
    (transport : Bool) :
    Tables expectedSize received (chunks.accept index address transport) := by
  have hold := h.entry index
  have hbuffer := hold.buffered
  have hprogress := hold.absent habsent
  have hnext := h.next_le index (by simp [habsent])
  simp only [habsent, ChunkState.buffered] at hbuffer
  refine h.update hindex rfl ?_ ?_ ?_ ?_ ?_ hspace
  · intro other hother
    simp [Chunks.accept, hother]
  · refine ⟨?_, ?_, ?_, ?_, ?_, ?_⟩ <;>
      simp [Chunks.accept, ChunkState.buffered, ChunkState.complete, hnext]
  · simp [Chunks.accept, hprogress]
  · simp [Chunks.accept, hbuffer]
  · simp [Chunks.accept, habsent, ChunkState.complete]

theorem store (h : Tables expectedSize received chunks)
    (hreceives : chunks.receives index = true) {data : Bytes}
    (hfits : chunks.chunkProgress index + data.length ≤ chunkLengthFor expectedSize index) :
    Tables expectedSize (received + data.length)
      (chunks.store index (chunks.chunkProgress index) data) := by
  simp only [Chunks.receives, decide_eq_true_eq] at hreceives
  obtain ⟨hindex, -, hbuffer, hstate⟩ := hreceives
  have hold := h.entry index
  have hnext := h.next_le index (by simp [hstate])
  refine h.update hindex rfl ?_ ?_ ?_ ?_ rfl h.active_le
  · intro other hother
    simp [Chunks.store, hother]
  · refine ⟨?_, ?_, ?_, ?_, ?_, ?_⟩
    · simpa [Chunks.store] using hold.buffered
    · simpa [Chunks.store] using hfits
    · simp [Chunks.store, hstate]
    · simp [Chunks.store, hstate, ChunkState.complete]
    · intro buffer hstored
      simp only [Chunks.store, Function.update_self, Option.map_eq_some_iff] at hstored ⊢
      obtain ⟨before, hbefore, rfl⟩ := hstored
      have hlength := hold.contents before hbefore
      rw [← hlength]
      simp [Buffer.splice]
    · simpa [Chunks.store] using hold.stored_iff
  · simp only [Chunks.store, Function.update_self]
    omega
  · simp [Chunks.store]

theorem drop (h : Tables expectedSize received chunks)
    (hstate : chunks.chunkStates index = .receiving) :
    Tables expectedSize (received - chunks.chunkProgress index) (chunks.drop index) := by
  have hindex := h.lt_count index (by simp [hstate])
  have hold := h.entry index
  have hbuffer := hold.buffered
  have hreceived := h.progress_le_received hindex
  have hactive := h.active_pos index (by simp [hstate, ChunkState.buffered])
  have hactive_le := h.active_le
  have hnext := h.next_le index (by simp [hstate])
  simp only [hstate, ChunkState.buffered] at hbuffer
  refine h.update hindex rfl ?_ ?_ ?_ ?_ ?_ ((Nat.sub_le ..).trans hactive_le)
  · intro other hother
    simp [Chunks.drop, hother]
  · refine ⟨?_, ?_, ?_, ?_, ?_, ?_⟩ <;>
      simp [Chunks.drop, ChunkState.buffered, ChunkState.complete, hnext]
  · simp only [Chunks.drop, Function.update_self]
    omega
  · simp only [Chunks.drop, Function.update_self, hbuffer, Bool.toNat_true, Option.isSome_none,
      Bool.toNat_false]
    omega
  · simp [Chunks.drop, hstate, ChunkState.complete]

theorem makeReady (h : Tables expectedSize received chunks)
    (hstate : chunks.chunkStates index = .receiving)
    (hcomplete : chunks.chunkProgress index = chunkLengthFor expectedSize index) :
    Tables expectedSize received (chunks.makeReady index) := by
  have hold := h.entry index
  have hbuffer := hold.buffered
  have hnext := h.next_le index (by simp [hstate])
  refine h.update (h.lt_count index (by simp [hstate])) rfl ?_ ?_ rfl rfl ?_ h.active_le
  · intro other hother
    simp [Chunks.makeReady, hother]
  · refine ⟨?_, hold.progress_le, ?_, fun _ => hcomplete, hold.contents, ?_⟩
    · simpa [Chunks.makeReady, hstate, ChunkState.buffered] using hbuffer
    · simp [Chunks.makeReady]
    · simp [Chunks.makeReady, hnext]
  · simp [Chunks.makeReady, hstate, ChunkState.complete]

/-- The writer has drained the chunk it was waiting for. -/
theorem stored (h : Tables expectedSize received chunks)
    (hstate : chunks.chunkStates chunks.nextChunkToWrite = .ready) (address : ℕ) :
    Tables expectedSize received (chunks.stored chunks.nextChunkToWrite address) := by
  unfold Chunks.stored
  split
  swap
  · exact h
  have hold := h.entry chunks.nextChunkToWrite
  have hbuffer := hold.buffered
  have hactive := h.active_pos chunks.nextChunkToWrite
    (by simp [hstate, ChunkState.buffered])
  have hactive_le := h.active_le
  have hindex := h.lt_count chunks.nextChunkToWrite (by simp [hstate])
  simp only [hstate, ChunkState.buffered] at hbuffer
  refine h.update hindex rfl ?_ ?_ rfl ?_ ?_ ((Nat.sub_le ..).trans hactive_le)
  · intro other hother
    simp only [Function.update_of_ne hother, true_and]
    omega
  · refine ⟨?_, hold.progress_le, ?_, ?_, ?_, ?_⟩
    · simp [ChunkState.buffered]
    · simp
    · intro _
      exact hold.complete (by simp [hstate, ChunkState.complete])
    · simp
    · simp
  · simp only [Function.update_self, hbuffer, Bool.toNat_true, Option.isSome_none,
      Bool.toNat_false]
    omega
  · simp [hstate, ChunkState.complete]

end Tables

/-! ## The manager -/

/-- The tables are those of the slot; nothing is expected in a free one, and nothing has been
begun before a transfer starts. -/
structure Tabled (world : World) : Prop where
  tables : Tables world.mgr.slot.expectedSize world.mgr.slot.received world.mgr.chunks
  vacant : world.mgr.slot.occupied = false → world.mgr.slot.expectedSize = 0

/-- The calls that neither receive nor finish a stream. -/
def Call.onChunks : Call → Bool
  | .writeDirect _ _ => false
  | call => !call.streams

/-- The points at which such a call can be. -/
def Pc.onChunks : Pc → Bool
  | .directWriting _ _ _ => false
  | pc => !pc.streams

/-- The same for the code. -/
def Code.onChunks : Code → Bool
  | .entry call _ _ => call.onChunks
  | .body call _ => call.onChunks
  | .behind pc _ => pc.onChunks

theorem Code.onChunks_streams {code : Code} (h : code.onChunks = true) : code.streams = false := by
  cases code with
  | entry call | body call => cases call <;> first | rfl | cases h
  | behind pc => cases pc <;> first | rfl | cases h

theorem Code.onChunks_direct {code : Code} (h : code.onChunks = true) (id : CString)
    (data : Bytes) : code.call ≠ some (.writeDirect id data) := by
  intro heq
  cases code with
  | entry | body =>
      cases heq
      cases h
  | behind => cases heq

theorem onChunks_admission :
    Admission (·.onChunks = true) (fun _ => True) (·.onChunks = true) where
  entry := fun _ _ _ hcall _ => hcall
  parks := by
    intro code world pc hcode hparks env _
    have hstreams := Code.onChunks_streams hcode
    cases hparks with
    | reaping heq | waitingWrites heq =>
        subst heq
        exact hcode
    | writeFull _ _ h | writeEnqueue _ _ _ h | finishEnqueue _ _ h | finishDrain _ _ h
      | finishHash _ _ _ _ h => exact absurd h (by simp [hstreams])
    | directWriting hcall => exact absurd hcall (Code.onChunks_direct hcode _ _)
    | superseding | clearing | chunksDrain | chunksHash => rfl
  written := fun _ _ h => by cases h
  hashed := fun _ _ h => by cases h
  chunksHashed := fun _ _ _ => rfl

/-- The guard against a smaller `received` is never needed. -/
theorem dropChunk_received {world : World} {index : ℕ}
    (h : Tables world.mgr.slot.expectedSize world.mgr.slot.received world.mgr.chunks)
    (hstate : world.mgr.chunks.chunkStates index = .receiving) :
    (dropChunk world index).mgr.slot.received =
      world.mgr.slot.received - world.mgr.chunks.chunkProgress index :=
  if_pos (h.progress_le_received (h.lt_count index (by simp [hstate])))

/-- An upload fills the slot: its tables are as `calloc` leaves them. -/
theorem tabled_prepareOpen {world : World} (h : Tabled world)
    (hfree : world.mgr.slot.occupied = false) (client authorization : CString)
    (metadata : Metadata) (env : Env) :
    Tabled (prepareOpen world client authorization metadata env).1 := by
  have hspec := prepareOpen_spec world client authorization metadata env
  generalize prepareOpen world client authorization metadata env = opened at hspec
  cases hspec with
  | refused => exact ⟨h.tables, h.vacant⟩
  | failed => exact ⟨h.tables, h.vacant⟩
  | occupied =>
      have htables := h.tables
      rw [h.vacant hfree] at htables
      refine ⟨?_, nofun⟩
      have hreceived : world.mgr.slot.received = 0 := htables.received_eq_zero
      change Tables metadata.size world.mgr.slot.received _
      rw [hreceived]
      exact htables.occupied rfl client authorization metadata env

theorem tabled_update {code : Code} {world next : World} (hcode : code.onChunks = true)
    (h : Tabled world) (hupdate : Update code world next) : Tabled next := by
  cases hupdate with
  | discard => exact ⟨h.tables, h.vacant⟩
  | reap => exact ⟨.empty, fun _ => rfl⟩
  | clear => exact ⟨.empty, fun _ => rfl⟩
  | destination => exact ⟨h.tables, h.vacant⟩
  | @names authorization metadata =>
      obtain ⟨_, _, _, _, hnames⟩ := prepareNames_eq world authorization metadata code.env
      rw [hnames]
      exact ⟨h.tables, h.vacant⟩
  | open_ client authorization _ _ hfree => exact tabled_prepareOpen h hfree ..
  | begin => exact ⟨h.tables.setFlags .., h.vacant⟩
  | copy _ _ _ _ _ hstreams => exact absurd hstreams (by simp [Code.onChunks_streams hcode])
  | enqueue => exact ⟨h.tables, h.vacant⟩
  | enable => exact ⟨h.tables, h.vacant⟩
  | startDirect env hcall => exact absurd hcall (Code.onChunks_direct hcode _ _)
  | endDirect heq =>
      subst heq
      cases hcode
  | accept address env _ hoccupied _ _ hindex habsent hspace =>
      exact ⟨h.tables.accept hindex habsent hspace .., h.vacant⟩
  | store index relative data env hreceives hrelative hfits =>
      subst hrelative
      exact ⟨h.tables.store hreceives hfits, h.vacant⟩
  | @drop _ offset _ _ _ _ hreceiving =>
      exact ⟨dropChunk_received h.tables hreceiving ▸ h.tables.drop hreceiving, h.vacant⟩
  | @abort _ offset _ env _ _ _ hreceiving =>
      exact ⟨dropChunk_received h.tables hreceiving ▸ h.tables.drop hreceiving, h.vacant⟩
  | ready env _ _ _ hreceives hcomplete =>
      exact ⟨h.tables.makeReady (Chunks.receiving_of_receives hreceives) hcomplete, h.vacant⟩
  | finalize => exact ⟨h.tables.setFlags .., h.vacant⟩
  | unfinalize => exact ⟨h.tables.setFlags .., h.vacant⟩
  | digest => exact ⟨h.tables, h.vacant⟩
  | publish id digest elapsed env =>
      have hspec := publishSlot_spec world id digest elapsed env
      generalize publishSlot world id digest elapsed env = published at hspec
      cases hspec <;> exact ⟨h.tables, h.vacant⟩

/-- The writer has drained the chunk it was at. -/
theorem tabled_completeJob {world : World} {job : Job} {done : ℕ} {error : Option Errno}
    (elapsedNs : ℕ) (hwriter : WriterInv world.mgr (.writing job done error)) (h : Tabled world) :
    Tabled (completeJob world job error elapsedNs) := by
  cases hwriter.working.2.1 with
  | queue => exact ⟨h.tables, h.vacant⟩
  | chunk _ hready =>
      simp only [chunkReadyForWriterLocked, decide_eq_true_eq] at hready
      cases error with
      | some error => exact ⟨h.tables, h.vacant⟩
      | none => exact ⟨h.tables.stored hready.2.2.2.1 _, h.vacant⟩

theorem tabled_keptBySteps : KeptBySteps (·.onChunks = true) Tabled where
  update := tabled_update
  clear := fun _ _ _ _ _ => ⟨.empty, fun _ => rfl⟩
  returned := fun _ _ h => ⟨h.tables, h.vacant⟩
  write := fun h _ => ⟨h.tables, h.vacant⟩
  writeFailed := fun h => ⟨h.tables, h.vacant⟩
  pick := fun h => ⟨h.tables, h.vacant⟩
  complete := fun elapsedNs hwriter _ h => tabled_completeJob elapsedNs hwriter h

/-! ## What has not been begun -/

/-- Before a transfer starts the tables are as they were allocated, and a free slot expects
nothing. -/
structure Unbegun (world : World) : Prop where
  fresh : world.mgr.slot.started = false →
    world.mgr.chunks.chunkCount = chunkCountFor world.mgr.slot.expectedSize ∧
      (∀ index, world.mgr.chunks.chunkStates index = .absent) ∧
      (∀ index, world.mgr.chunks.chunkProgress index = 0) ∧
      (∀ index, world.mgr.chunks.chunkBuffers index = none) ∧
      world.mgr.chunks.nextChunkToWrite = 0 ∧ world.mgr.chunks.activeChunkBuffers = 0 ∧
      world.mgr.chunks.chunksCompleted = 0
  vacant : world.mgr.slot.occupied = false →
    world.mgr.slot.started = false ∧ world.mgr.slot.expectedSize = 0

theorem Unbegun.tabled {world : World} (h : Unbegun world)
    (hstarted : world.mgr.slot.started = false) (hreceived : world.mgr.slot.received = 0) :
    Tabled world := by
  obtain ⟨hcount, hstates, hprogress, hbuffers, hnext, hactive, hcompleted⟩ := h.fresh hstarted
  refine ⟨?_, fun hfree => (h.vacant hfree).2⟩
  rw [hreceived]
  exact .fresh hcount hstates hprogress hbuffers hnext hactive hcompleted

/-- Nothing is said of an upload that has started. -/
theorem unbegun_of_started {world : World} (hstarted : world.mgr.slot.started = true)
    (hoccupied : world.mgr.slot.occupied = true) : Unbegun world :=
  ⟨fun hfresh => by simp [hstarted] at hfresh, fun hfree => by simp [hoccupied] at hfree⟩

/-- A chunk that has been begun belongs to an upload that has started. -/
theorem Unbegun.started {world : World} (h : Unbegun world) {index : ℕ}
    (hstate : world.mgr.chunks.chunkStates index = .receiving) :
    world.mgr.slot.started = true ∧ world.mgr.slot.occupied = true := by
  have hstarted : world.mgr.slot.started = true := by
    by_contra hfresh
    have habsent := (h.fresh (by simpa using hfresh)).2.1 index
    simp [hstate] at habsent
  refine ⟨hstarted, ?_⟩
  by_contra hfree
  have hunstarted := (h.vacant (by simpa using hfree)).1
  simp [hstarted] at hunstarted

theorem unbegun_prepareOpen {world : World} (h : Unbegun world)
    (hfree : world.mgr.slot.occupied = false) (client authorization : CString)
    (metadata : Metadata) (env : Env) :
    Unbegun (prepareOpen world client authorization metadata env).1 := by
  have hspec := prepareOpen_spec world client authorization metadata env
  generalize prepareOpen world client authorization metadata env = opened at hspec
  cases hspec with
  | refused => exact ⟨h.fresh, h.vacant⟩
  | failed => exact ⟨h.fresh, h.vacant⟩
  | occupied =>
      obtain ⟨hstarted, hsize⟩ := h.vacant hfree
      obtain ⟨hcount, hstates, hprogress, hbuffers, -⟩ := h.fresh hstarted
      refine ⟨fun _ => ?_, nofun⟩
      simp only [occupySlot]
      by_cases hpositive : 0 < chunkCountFor metadata.size
      · simp [hpositive]
      · rw [if_neg hpositive]
        exact ⟨rfl, hstates, hprogress, hbuffers, rfl, rfl, rfl⟩

theorem unbegun_clearRest (world : World) (origin : Origin) (target : CString) (io : ClearIo) :
    Unbegun (clearRest world origin target io).1 :=
  ⟨fun _ => ⟨rfl, fun _ => rfl, fun _ => rfl, fun _ => rfl, rfl, rfl, rfl⟩, fun _ => ⟨rfl, rfl⟩⟩

theorem unbegun_update {code : Code} {world next : World} (h : Unbegun world)
    (hupdate : Update code world next) : Unbegun next := by
  cases hupdate with
  | reap | clear => exact unbegun_clearRest ..
  | @names authorization metadata =>
      obtain ⟨_, _, _, _, hnames⟩ := prepareNames_eq world authorization metadata code.env
      rw [hnames]
      exact ⟨h.fresh, h.vacant⟩
  | open_ client authorization _ _ hfree => exact unbegun_prepareOpen h hfree ..
  | begin env hoccupied => exact unbegun_of_started rfl hoccupied
  | accept address env _ hoccupied => exact unbegun_of_started rfl hoccupied
  | store index relative data env hreceives =>
      obtain ⟨hstarted, hoccupied⟩ := h.started (Chunks.receiving_of_receives hreceives)
      exact unbegun_of_started hstarted hoccupied
  | drop _ _ _ hreceiving | abort env _ _ _ hreceiving =>
      obtain ⟨hstarted, hoccupied⟩ := h.started hreceiving
      exact unbegun_of_started hstarted hoccupied
  | ready env _ _ _ hreceives =>
      obtain ⟨hstarted, hoccupied⟩ := h.started (Chunks.receiving_of_receives hreceives)
      exact unbegun_of_started hstarted hoccupied
  | publish id digest elapsed env =>
      have hspec := publishSlot_spec world id digest elapsed env
      generalize publishSlot world id digest elapsed env = published at hspec
      cases hspec <;> exact ⟨h.fresh, h.vacant⟩
  | @endDirect _ _ error => cases error <;> exact ⟨h.fresh, h.vacant⟩
  | discard | destination | copy | enqueue | enable | startDirect | finalize | unfinalize
    | digest => exact ⟨h.fresh, h.vacant⟩

theorem unbegun_completeJob {world : World} {job : Job} {done : ℕ} {error : Option Errno}
    (elapsedNs : ℕ) (hwriter : WriterInv world.mgr (.writing job done error)) (h : Unbegun world) :
    Unbegun (completeJob world job error elapsedNs) := by
  cases hwriter.working.2.1 with
  | queue => exact ⟨h.fresh, h.vacant⟩
  | chunk hoccupied hready =>
      simp only [chunkReadyForWriterLocked, decide_eq_true_eq] at hready
      have hstarted := (hwriter.transport hready.1).2
      cases error <;> exact unbegun_of_started hstarted hoccupied

theorem unbegun_keptBySteps : KeptBySteps (fun _ => True) Unbegun where
  update := fun _ => unbegun_update
  clear := fun _ _ _ _ _ => unbegun_clearRest ..
  returned := fun _ _ h => ⟨h.fresh, h.vacant⟩
  write := fun h _ => ⟨h.fresh, h.vacant⟩
  writeFailed := fun h => ⟨h.fresh, h.vacant⟩
  pick := fun h => ⟨h.fresh, h.vacant⟩
  complete := fun elapsedNs hwriter _ h => unbegun_completeJob elapsedNs hwriter h

/-! ## Every run -/

/-- The guards against counters that are too small are never needed, and every copy stays
inside the buffer allocated for its chunk. -/
structure Unclamped (sys : Sys) : Prop where
  dropped : ∀ index, sys.world.mgr.chunks.chunkStates index = .receiving →
    sys.world.mgr.chunks.chunkProgress index ≤ sys.world.mgr.slot.received ∧
      0 < sys.world.mgr.chunks.activeChunkBuffers
  drained : ∀ index address size done error,
    sys.writer = .writing (.chunk index address size) done error →
    index = sys.world.mgr.chunks.nextChunkToWrite ∧ 0 < sys.world.mgr.chunks.activeChunkBuffers
  allocated : ∀ id client authorization total offset length env next,
    uploadChunkBegin sys.world id client authorization total offset length env =
      (next, .of .ok) →
    length = chunkLengthFor sys.world.mgr.slot.expectedSize (offset / UPLOAD_CHUNK_BYTES)
  copied : ∀ id offset data env next,
    uploadChunkWrite sys.world id offset data env = (next, .of .ok) →
    ∃ buffer, sys.world.mgr.chunks.chunkBuffers (offset / UPLOAD_CHUNK_BYTES) = some buffer ∧
      buffer.bytes.length = offset % UPLOAD_CHUNK_BYTES ∧
      offset % UPLOAD_CHUNK_BYTES + data.length ≤
        chunkLengthFor sys.world.mgr.slot.expectedSize (offset / UPLOAD_CHUNK_BYTES)

theorem uploadChunkBegin_length {world next : World} {id client authorization : CString}
    {total offset length : ℕ} {env : Env}
    (h : uploadChunkBegin world id client authorization total offset length env =
      (next, .of .ok)) :
    length = chunkLengthFor world.mgr.slot.expectedSize (offset / UPLOAD_CHUNK_BYTES) := by
  simp only [uploadChunkBegin] at h
  split at h
  · cases h
  split at h
  · cases h
  split at h
  · cases h
  split at h
  · cases h
  split at h
  · cases h
  split at h
  · cases h
  · rename_i hgeometry
    simp only [not_or, not_not] at hgeometry
    exact hgeometry.2.symm

/-- A copy begins where the last one has ended. -/
theorem uploadChunkWrite_inside {world next : World} (h : Tabled world) {id : CString}
    {offset : ℕ} {data : Bytes} {env : Env}
    (hwrite : uploadChunkWrite world id offset data env = (next, .of .ok)) :
    ∃ buffer, world.mgr.chunks.chunkBuffers (offset / UPLOAD_CHUNK_BYTES) = some buffer ∧
      buffer.bytes.length = offset % UPLOAD_CHUNK_BYTES ∧
      offset % UPLOAD_CHUNK_BYTES + data.length ≤
        chunkLengthFor world.mgr.slot.expectedSize (offset / UPLOAD_CHUNK_BYTES) := by
  simp only [uploadChunkWrite] at hwrite
  split at hwrite
  · cases hwrite
  split at hwrite
  · cases hwrite
  split at hwrite
  · cases hwrite
  rename_i hreceives
  split at hwrite
  · cases hwrite
  rename_i hfits
  have hrelative : offset % UPLOAD_CHUNK_BYTES =
      offset - offset / UPLOAD_CHUNK_BYTES * UPLOAD_CHUNK_BYTES := Nat.mod_eq_sub_div_mul
  simp only [not_or, not_not, ← hrelative] at hfits
  simp only [Chunks.receives, not_not, decide_eq_true_eq] at hreceives
  obtain ⟨buffer, hbuffer⟩ := Option.isSome_iff_exists.mp hreceives.2.2.1
  have hcontents := (h.tables.entry _).contents buffer hbuffer
  refine ⟨buffer, hbuffer, hcontents.trans hfits.1.symm, ?_⟩
  omega

theorem unclamped_of_tabled {sys : Sys} (h : Tabled sys.world)
    (hwriter : WriterInv sys.world.mgr sys.writer) : Unclamped sys := by
  refine ⟨fun index hstate => ?_, ?_, ?_, ?_⟩
  · have hindex := h.tables.lt_count index (by simp [hstate])
    exact ⟨h.tables.progress_le_received hindex,
      h.tables.active_pos index (by simp [hstate, ChunkState.buffered])⟩
  · intro index address size done error hwriting
    rw [hwriting] at hwriter
    cases hwriter.working.2.1 with
    | chunk _ hready =>
        simp only [chunkReadyForWriterLocked, decide_eq_true_eq] at hready
        refine ⟨rfl, h.tables.active_pos sys.world.mgr.chunks.nextChunkToWrite ?_⟩
        simp [hready.2.2.2.1, ChunkState.buffered]
  · intro id client authorization total offset length env next hbegin
    exact uploadChunkBegin_length hbegin
  · intro id offset data env next hwrite
    exact uploadChunkWrite_inside h hwrite

/-- The tables agree with one another and with the counters, and no guard is needed. -/
structure Agrees (sys : Sys) : Prop where
  tables : Tables sys.world.mgr.slot.expectedSize sys.world.mgr.slot.received sys.world.mgr.chunks
  received_le : sys.world.mgr.slot.received ≤ sys.world.mgr.slot.expectedSize
  unclamped : Unclamped sys

theorem Unbegun.received_eq_zero {world : World} (h : Unbegun world)
    (hstarted : world.mgr.slot.started = false)
    (htables : Tables world.mgr.slot.expectedSize world.mgr.slot.received world.mgr.chunks) :
    world.mgr.slot.received = 0 := by
  obtain ⟨-, -, hprogress, -⟩ := h.fresh hstarted
  have hnone : world.mgr.chunks.chunkProgress = fun _ => 0 := funext hprogress
  rw [htables.received_eq, hnone, total_zero]

/-- From an upload that has been prepared and not begun: whatever chunk calls, cancels, aborts
and reaps follow, everything agrees, exactly if the prepare has found nothing received; it leaves
`received` as it is. -/
theorem agrees_iff_unreceived {host : Bool} {destination : CString}
    {maxFileBytes maxFiles leaseSeconds : ℕ} {override : Option CString} {fs : Fs}
    {before : List Action} {prepared : Sys}
    (hbefore : Run step anyStep
      (.initial host destination maxFileBytes maxFiles leaseSeconds override fs) before prepared)
    (hcalls : prepared.Admitted (fun _ => True) (·.onChunks = true))
    (hstarted : prepared.world.mgr.slot.started = false) :
    (∀ actions sys, Run step (fun _ action => action.Allowed (·.onChunks = true) (fun _ => True))
      prepared actions sys → Agrees sys) ↔ prepared.world.mgr.slot.received = 0 := by
  have hunbegun := (unbegun_keptBySteps.run admission_all
    (fun _ action _ => action.allowed_all)
    ⟨fun _ => ⟨rfl, fun _ => rfl, fun _ => rfl, fun _ => rfl, rfl, rfl, rfl⟩,
      fun _ => ⟨rfl, rfl⟩⟩ hbefore).1
  constructor
  · intro hagrees
    exact hunbegun.received_eq_zero hstarted (hagrees [] prepared .nil).tables
  · intro hreceived actions sys hrun
    obtain ⟨hwriter, htabled, -⟩ := tabled_keptBySteps.run_from onChunks_admission
      (fun _ _ hok => hok) (writerInv_run hbefore) (hunbegun.tabled hstarted hreceived) hcalls hrun
    exact ⟨htabled.tables, htabled.tables.received_le, unclamped_of_tabled htabled hwriter⟩

namespace Sample

/-- Three bytes of upload 1 are received as its only chunk. -/
def sendThree : List Action :=
  [.call 0 (.chunkBegin (uploadId 1) client authorization 5 0 5) (env 0),
    .call 0 (.chunkWrite (uploadId 1) 0 [7, 8, 9]) (env 0)]

/-- The byte of upload 1 is on the disk when a prepare answers `UPLOAD_BUSY` and clears the slot.
Its direct write goes on and counts the byte, and upload 2 of five bytes is prepared. -/
def strayByte : List Action :=
  [prepare 0 1 1, .call 0 (.begin (uploadId 1) client authorization 1) (env 0),
    .call 0 (.enableDirectStream (uploadId 1)) (env 0),
    .call 0 (.writeDirect (uploadId 1) [7]) (env 0), .directIo 0 (.wrote 1), prepare 1 2 5,
    .resume 0 (env 0), prepare 1 2 5]

end Sample

open Sample in
/-- Three of five bytes in the only chunk. -/
theorem agrees_sendThree :
    ∃ prepared sys, exec step (start 60) [prepare 0 1 5] = some prepared ∧
      exec step prepared sendThree = some sys ∧ Agrees sys ∧
      sys.world.mgr.slot.received = 3 ∧ sys.world.mgr.chunks.activeChunkBuffers = 1 := by
  have hprepared : ∃ prepared, exec step (start 60) [prepare 0 1 5] = some prepared ∧
      prepared.under 1 = [] ∧ prepared.world.mgr.slot.started = false ∧
      prepared.world.mgr.slot.received = 0 ∧
      ∃ sys ∈ exec step prepared sendThree, sys.world.mgr.slot.received = 3 ∧
        sys.world.mgr.chunks.activeChunkBuffers = 1 := exists_of_exec (by decide +kernel)
  obtain ⟨prepared, hexec, hunder, hstarted, hreceived, sys, hsys, hthree, hactive⟩ := hprepared
  have hbefore : Run step anyStep (start 60) [prepare 0 1 5] prepared :=
    Run.of_exec (fun _ _ _ => trivial) hexec
  have hcalls : prepared.Admitted (fun _ => True) (·.onChunks = true) :=
    Sys.admitted_of_idle (idle_of_exec (fun _ _ => rfl) (by simp [prepare, Action.tid]) hexec
      hunder)
  have hallowed : ∀ action ∈ sendThree,
      action.Allowed (·.onChunks = true) (fun _ => True) := by
    simp only [sendThree, List.forall_mem_cons, List.not_mem_nil, false_imp_iff, implies_true,
      and_true]
    refine ⟨⟨?_, fun _ _ => trivial⟩, ⟨?_, fun _ _ => trivial⟩⟩ <;> rintro _ _ _ ⟨⟩ <;> rfl
  have hrun := Run.of_exec (fun action hmem _ => hallowed action hmem) hsys
  exact ⟨prepared, sys, hexec, hsys,
    (agrees_iff_unreceived hbefore hcalls hstarted).mpr hreceived _ _ hrun, hthree, hactive⟩

open Sample in
/-- Upload 2 is prepared with a byte received that none of its chunks has. -/
theorem strayByte_disagrees :
    ∃ sys, exec step (start 60) strayByte = some sys ∧ (∀ tid, sys.threads tid = none) ∧
      sys.world.mgr.slot.occupied = true ∧ sys.world.mgr.slot.started = false ∧
      sys.world.mgr.slot.uploadId = uploadId 2 ∧ sys.world.mgr.slot.received = 1 ∧
      ¬Agrees sys := by
  have hstray : ∃ sys, exec step (start 60) strayByte = some sys ∧ sys.under 2 = [] ∧
      sys.world.mgr.slot.occupied = true ∧ sys.world.mgr.slot.started = false ∧
      sys.world.mgr.slot.uploadId = uploadId 2 ∧ sys.world.mgr.slot.received = 1 ∧
      total sys.world.mgr.chunks.chunkCount sys.world.mgr.chunks.chunkProgress = 0 :=
    exists_of_exec (by decide +kernel)
  obtain ⟨sys, hexec, hunder, hoccupied, hstarted, hid, hreceived, hnone⟩ := hstray
  have hacts : ∀ action ∈ strayByte, action.tid.all (· < 2) = true := by
    simp [strayByte, prepare, Action.tid]
  refine ⟨sys, hexec, idle_of_exec (fun _ _ => rfl) hacts hexec hunder, hoccupied, hstarted, hid,
    hreceived, fun hagrees => ?_⟩
  rw [hagrees.tables.received_eq, hnone] at hreceived
  cases hreceived

end LocalSend.Upload
