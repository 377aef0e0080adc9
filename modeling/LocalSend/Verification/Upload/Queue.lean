import LocalSend.Library.RingBuffer
import LocalSend.Model.Upload.System
import Mathlib.Algebra.Order.BigOperators.Group.List
import Mathlib.Algebra.Order.Ring.Nat

/-! # The ring of write buffers

The write queue as a first-in first-out list of byte strings, with the partly filled tail
buffer behind it. The producer fills the tail, which is no entry while the ring has space;
the writer takes the head, and gives it back once it is on disk.
-/

namespace LocalSend.Upload

open RingBuffer

/-- The bytes queued in buffer `index`. -/
def Queue.slot (queue : Queue) (index : ℕ) : Bytes :=
  (queue.writeBuffer index).take (queue.writeSizes index)

/-- The queued buffers, the oldest first. -/
def Queue.entries (queue : Queue) : List Bytes :=
  RingBuffer.entries queue.slot UPLOAD_WRITE_QUEUE_DEPTH queue.writeHead queue.writeQueued

/-- What has been copied into the tail buffer. -/
def Queue.tail (queue : Queue) : Bytes := (queue.writeBuffer queue.writeTail).take queue.buffered

/-- All bytes between the producer and the disk. -/
def Queue.content (queue : Queue) : Bytes := queue.entries.flatten ++ queue.tail

/-- The ring is in order: the tail lies behind the last entry, a full ring has nothing in
it, and every buffer holds what its size says. -/
structure Queue.InOrder (queue : Queue) : Prop where
  head_lt : queue.writeHead < UPLOAD_WRITE_QUEUE_DEPTH
  tail_eq : queue.writeTail = index UPLOAD_WRITE_QUEUE_DEPTH queue.writeHead queue.writeQueued
  queued_le : queue.writeQueued ≤ UPLOAD_WRITE_QUEUE_DEPTH
  full : queue.writeQueued = UPLOAD_WRITE_QUEUE_DEPTH → queue.buffered = 0
  buffered_le : queue.buffered ≤ UPLOAD_WRITE_BUFFER_BYTES
  filled : queue.buffered ≤ (queue.writeBuffer queue.writeTail).length
  sizes : ∀ i < queue.writeQueued,
    queue.writeSizes (index UPLOAD_WRITE_QUEUE_DEPTH queue.writeHead i) ≤
      (queue.writeBuffer (index UPLOAD_WRITE_QUEUE_DEPTH queue.writeHead i)).length
  sizes_le : ∀ i < queue.writeQueued,
    queue.writeSizes (index UPLOAD_WRITE_QUEUE_DEPTH queue.writeHead i) ≤ UPLOAD_WRITE_BUFFER_BYTES

variable {queue : Queue}

theorem Queue.tail_length (h : queue.InOrder) : queue.tail.length = queue.buffered := by
  rw [Queue.tail, List.length_take]
  have hfilled := h.filled
  omega

theorem Queue.tail_of_buffered (h : queue.buffered = 0) : queue.tail = [] := by
  rw [Queue.tail, h, List.take_zero]

theorem Queue.entries_of_queued (h : queue.writeQueued = 0) : queue.entries = [] := by
  rw [Queue.entries, h, entries_zero]

theorem Queue.content_of_empty (hqueued : queue.writeQueued = 0) (hbuffered : queue.buffered = 0) :
    queue.content = [] := by
  rw [Queue.content, entries_of_queued hqueued, tail_of_buffered hbuffered]
  rfl

/-- The writer's flags do not matter. -/
theorem Queue.InOrder.setFlags (h : queue.InOrder) (shutdown discard active : Bool)
    (error : Option Errno) :
    Queue.InOrder { queue with
      writerShutdown := shutdown
      writerDiscard := discard
      writerActive := active
      writerError := error } :=
  ⟨h.head_lt, h.tail_eq, h.queued_le, h.full, h.buffered_le, h.filled, h.sizes, h.sizes_le⟩

/-- The tail buffer is no entry while the ring has space. -/
theorem Queue.InOrder.tail_ne (h : queue.InOrder)
    (hspace : queue.writeQueued ≠ UPLOAD_WRITE_QUEUE_DEPTH) {i : ℕ} (hi : i < queue.writeQueued) :
    index UPLOAD_WRITE_QUEUE_DEPTH queue.writeHead i ≠ queue.writeTail := by
  have hle := h.queued_le
  rw [h.tail_eq]
  exact index_ne hi (by omega)

/-! ## Copying into the tail buffer -/

/-- The queue after `data` has been copied behind what the tail buffer holds. -/
def Queue.copied (queue : Queue) (data : Bytes) : Queue :=
  { queue with
    writeBuffer := Function.update queue.writeBuffer queue.writeTail
      (Buffer.splice (queue.writeBuffer queue.writeTail) queue.buffered data)
    buffered := queue.buffered + data.length }

theorem copyToBuffer_queue (world : World) (id : CString) (data : Bytes) (activity : ℕ) :
    (copyToBuffer world id data activity).mgr.queue = world.mgr.queue.copied data := rfl

/-- The tail buffer is extended by the copied bytes. -/
theorem Queue.copied_tail (h : queue.InOrder) (data : Bytes) :
    (queue.copied data).tail = queue.tail ++ data := by
  have hfilled := h.filled
  have hlength : (queue.tail ++ data).length = queue.buffered + data.length := by
    rw [List.length_append, tail_length h]
  have hprefix := Buffer.prefix_splice (List.take_prefix queue.buffered
    (queue.writeBuffer queue.writeTail)) data
  rw [List.length_take, Nat.min_eq_left hfilled] at hprefix
  simp only [Queue.tail, Queue.copied, Function.update_self]
  rw [← hlength]
  exact (List.prefix_iff_eq_take.mp hprefix).symm

theorem Queue.copied_slot (h : queue.InOrder)
    (hspace : queue.writeQueued ≠ UPLOAD_WRITE_QUEUE_DEPTH) (data : Bytes) {i : ℕ}
    (hi : i < queue.writeQueued) :
    (queue.copied data).writeBuffer (index UPLOAD_WRITE_QUEUE_DEPTH queue.writeHead i) =
      queue.writeBuffer (index UPLOAD_WRITE_QUEUE_DEPTH queue.writeHead i) :=
  Function.update_of_ne (h.tail_ne hspace hi) ..

theorem Queue.copied_entries (h : queue.InOrder)
    (hspace : queue.writeQueued ≠ UPLOAD_WRITE_QUEUE_DEPTH) (data : Bytes) :
    (queue.copied data).entries = queue.entries := by
  apply entries_congr
  intro i hi
  exact congrArg (List.take _) (copied_slot h hspace data hi)

theorem Queue.copied_content (h : queue.InOrder)
    (hspace : queue.writeQueued ≠ UPLOAD_WRITE_QUEUE_DEPTH) (data : Bytes) :
    (queue.copied data).content = queue.content ++ data := by
  rw [Queue.content, copied_entries h hspace, copied_tail h, Queue.content, List.append_assoc]

theorem Queue.InOrder.copied (h : queue.InOrder)
    (hspace : queue.writeQueued ≠ UPLOAD_WRITE_QUEUE_DEPTH) {data : Bytes}
    (hdata : queue.buffered + data.length ≤ UPLOAD_WRITE_BUFFER_BYTES) :
    (queue.copied data).InOrder := by
  refine ⟨h.head_lt, h.tail_eq, h.queued_le, fun hfull => absurd hfull hspace, hdata, ?_, ?_,
    h.sizes_le⟩
  · have htail := congrArg List.length (copied_tail h data)
    rw [List.length_append, tail_length h] at htail
    have hle := List.length_take_le' (queue.copied data).buffered
      ((queue.copied data).writeBuffer queue.writeTail)
    exact htail.ge.trans hle
  · intro i hi
    exact (h.sizes i hi).trans_eq (congrArg List.length (copied_slot h hspace data hi).symm)

/-! ## Queueing the tail buffer -/

/-- The queue after the tail buffer has been queued. -/
def Queue.pushed (queue : Queue) : Queue :=
  { queue with
    writeSizes := Function.update queue.writeSizes queue.writeTail queue.buffered
    writeTail := (queue.writeTail + 1) % UPLOAD_WRITE_QUEUE_DEPTH
    writeQueued := queue.writeQueued + 1
    buffered := 0 }

theorem Queue.pushed_slot (h : queue.InOrder)
    (hspace : queue.writeQueued ≠ UPLOAD_WRITE_QUEUE_DEPTH) {i : ℕ} (hi : i < queue.writeQueued) :
    queue.pushed.slot (index UPLOAD_WRITE_QUEUE_DEPTH queue.writeHead i) =
      queue.slot (index UPLOAD_WRITE_QUEUE_DEPTH queue.writeHead i) := by
  simp only [Queue.slot, Queue.pushed]
  rw [Function.update_of_ne (h.tail_ne hspace hi)]

theorem Queue.pushed_entries (h : queue.InOrder)
    (hspace : queue.writeQueued ≠ UPLOAD_WRITE_QUEUE_DEPTH) :
    queue.pushed.entries = queue.entries ++ [queue.tail] := by
  have hlast : queue.pushed.slot
      (index UPLOAD_WRITE_QUEUE_DEPTH queue.writeHead queue.writeQueued) = queue.tail := by
    simp only [Queue.slot, Queue.pushed, Queue.tail, ← h.tail_eq, Function.update_self]
  have hothers : RingBuffer.entries queue.pushed.slot UPLOAD_WRITE_QUEUE_DEPTH queue.writeHead
      queue.writeQueued = queue.entries :=
    entries_congr fun i hi => pushed_slot h hspace hi
  rw [← hlast, ← hothers]
  exact entries_push ..

theorem Queue.pushed_content (h : queue.InOrder)
    (hspace : queue.writeQueued ≠ UPLOAD_WRITE_QUEUE_DEPTH) :
    queue.pushed.content = queue.content := by
  have htail : queue.pushed.tail = [] := tail_of_buffered rfl
  rw [Queue.content, pushed_entries h hspace, htail, Queue.content]
  simp

theorem Queue.InOrder.pushed (h : queue.InOrder)
    (hspace : queue.writeQueued ≠ UPLOAD_WRITE_QUEUE_DEPTH) : queue.pushed.InOrder := by
  have hle := h.queued_le
  refine ⟨h.head_lt, ?_, ?_, fun _ => rfl, Nat.zero_le _, Nat.zero_le _, ?_, ?_⟩
  · simp only [Queue.pushed, h.tail_eq, index, Nat.mod_add_mod, Nat.add_assoc]
  · simp only [Queue.pushed]
    omega
  · intro i hi
    simp only [Queue.pushed] at hi ⊢
    by_cases hlast : i = queue.writeQueued
    · rw [hlast, ← h.tail_eq, Function.update_self]
      exact h.filled
    · have hold : i < queue.writeQueued := by omega
      rw [Function.update_of_ne (h.tail_ne hspace hold)]
      exact h.sizes i hold
  · intro i hi
    simp only [Queue.pushed] at hi ⊢
    by_cases hlast : i = queue.writeQueued
    · rw [hlast, ← h.tail_eq, Function.update_self]
      exact h.buffered_le
    · have hold : i < queue.writeQueued := by omega
      rw [Function.update_of_ne (h.tail_ne hspace hold)]
      exact h.sizes_le i hold

/-- What `enqueue_write_buffer_locked` comes to: it waits on a full ring with bytes in the
tail, fails, has nothing to do, or queues the tail. -/
theorem enqueueWriteBufferLocked_cases (queue : Queue) :
    (enqueueWriteBufferLocked queue = .wait ∧ queue.writeQueued = UPLOAD_WRITE_QUEUE_DEPTH ∧
      queue.buffered ≠ 0) ∨
    (∃ error, enqueueWriteBufferLocked queue = .failed error ∧
      (queue.writerError = some error ∨ queue.writerDiscard = true ∨
        queue.writerShutdown = true)) ∨
    (enqueueWriteBufferLocked queue = .ok queue ∧ queue.buffered = 0) ∨
    (enqueueWriteBufferLocked queue = .ok queue.pushed ∧ queue.buffered ≠ 0 ∧
      queue.writeQueued ≠ UPLOAD_WRITE_QUEUE_DEPTH ∧ queue.writerError = none) := by
  unfold enqueueWriteBufferLocked
  split
  · rename_i hempty
    exact .inr (.inr (.inl ⟨rfl, hempty⟩))
  rename_i hbuffered
  split
  · rename_i hfull
    exact .inl ⟨rfl, hfull.1, hbuffered⟩
  rename_i hwait
  split
  · rename_i error herror
    exact .inr (.inl ⟨error, rfl, .inl herror⟩)
  · rename_i herror
    split
    · rename_i hstopped
      exact .inr (.inl ⟨_, rfl, .inr hstopped⟩)
    · rename_i hgoes
      refine .inr (.inr (.inr ⟨rfl, hbuffered, fun hfull => hwait ⟨hfull, herror, ?_⟩, herror⟩))
      simpa using (not_or.mp hgoes).1

/-- A ring in order never has to wait for space, and keeps its bytes. -/
theorem enqueueWriteBufferLocked_content {queue' : Queue} (h : queue.InOrder)
    (henqueue : enqueueWriteBufferLocked queue = .ok queue') :
    queue'.InOrder ∧ queue'.content = queue.content := by
  rcases enqueueWriteBufferLocked_cases queue with
    ⟨hwait, -⟩ | ⟨error, hfailed, -⟩ | ⟨hok, -⟩ | ⟨hok, -, hspace, -⟩
  · cases henqueue.symm.trans hwait
  · cases henqueue.symm.trans hfailed
  · cases henqueue.symm.trans hok
    exact ⟨h, rfl⟩
  · cases henqueue.symm.trans hok
    exact ⟨h.pushed hspace, Queue.pushed_content h hspace⟩

theorem enqueueWriteBufferLocked_ne_wait (h : queue.InOrder) :
    enqueueWriteBufferLocked queue ≠ .wait := by
  intro hwait
  rcases enqueueWriteBufferLocked_cases queue with
    ⟨-, hfull, hbuffered⟩ | ⟨error, hfailed, -⟩ | ⟨hok, -⟩ | ⟨hok, -⟩
  · exact hbuffered (h.full hfull)
  · cases hwait.symm.trans hfailed
  · cases hwait.symm.trans hok
  · cases hwait.symm.trans hok

/-! ## Taking the head -/

theorem Queue.entries_head (h : queue.InOrder) (hqueued : queue.writeQueued ≠ 0) :
    queue.entries = queue.slot queue.writeHead ::
      RingBuffer.entries queue.slot UPLOAD_WRITE_QUEUE_DEPTH
        (index UPLOAD_WRITE_QUEUE_DEPTH queue.writeHead 1) (queue.writeQueued - 1) := by
  obtain ⟨count, hcount⟩ := Nat.exists_eq_succ_of_ne_zero hqueued
  rw [Queue.entries, hcount, entries_pop, index_zero h.head_lt]
  rfl

/-- The head comes first on the way to the disk. -/
theorem Queue.content_head (h : queue.InOrder) (hqueued : queue.writeQueued ≠ 0) :
    ∃ later, queue.content = queue.slot queue.writeHead ++ later ∧
      (queue.popped queue.writeHead).content = later := by
  have hle := h.queued_le
  refine ⟨_, ?_, rfl⟩
  have hslot : (queue.popped queue.writeHead).slot =
      Function.update queue.slot (index UPLOAD_WRITE_QUEUE_DEPTH queue.writeHead 0) [] := by
    funext i
    simp only [Queue.slot, Queue.popped, index_zero h.head_lt, Function.update_apply]
    split <;> simp
  have hentries : (queue.popped queue.writeHead).entries =
      RingBuffer.entries queue.slot UPLOAD_WRITE_QUEUE_DEPTH
        (index UPLOAD_WRITE_QUEUE_DEPTH queue.writeHead 1) (queue.writeQueued - 1) := by
    have hcount : (queue.popped queue.writeHead).writeQueued = queue.writeQueued - 1 := rfl
    rw [Queue.entries, hslot]
    exact entries_update_dropped (by omega) []
  have htail : (queue.popped queue.writeHead).tail = queue.tail := rfl
  rw [Queue.content, entries_head h hqueued, Queue.content, hentries, htail]
  simp

theorem Queue.slot_head_length (h : queue.InOrder) (hqueued : queue.writeQueued ≠ 0) :
    (queue.slot queue.writeHead).length = queue.writeSizes queue.writeHead := by
  have hsize := h.sizes 0 (Nat.pos_of_ne_zero hqueued)
  rw [index_zero h.head_lt] at hsize
  rw [Queue.slot, List.length_take]
  omega

/-- The sizes behind the head are kept when it is taken. -/
theorem Queue.popped_sizes (h : queue.InOrder) {i : ℕ} (hi : i + 1 < queue.writeQueued) :
    (queue.popped queue.writeHead).writeSizes
        (index UPLOAD_WRITE_QUEUE_DEPTH (queue.popped queue.writeHead).writeHead i) =
      queue.writeSizes (index UPLOAD_WRITE_QUEUE_DEPTH queue.writeHead (i + 1)) := by
  have hle := h.queued_le
  have hne : index UPLOAD_WRITE_QUEUE_DEPTH queue.writeHead 0 ≠
      index UPLOAD_WRITE_QUEUE_DEPTH queue.writeHead (i + 1) :=
    index_ne (Nat.succ_pos i) (by omega)
  rw [index_zero h.head_lt] at hne
  rw [← index_succ] at hne ⊢
  exact Function.update_of_ne hne.symm ..

theorem Queue.InOrder.popped (h : queue.InOrder) (hqueued : queue.writeQueued ≠ 0) :
    (queue.popped queue.writeHead).InOrder := by
  have hle := h.queued_le
  have hdepth : 0 < UPLOAD_WRITE_QUEUE_DEPTH := by decide
  have hcount : queue.writeQueued - 1 + 1 = queue.writeQueued := by omega
  refine ⟨index_lt hdepth .., ?_, ?_, ?_, h.buffered_le, h.filled, ?_, ?_⟩
  · rw [show (queue.popped queue.writeHead).writeTail = queue.writeTail from rfl, h.tail_eq]
    exact (congrArg _ hcount.symm).trans (index_succ ..).symm
  · simp only [Queue.popped]
    omega
  · simp only [Queue.popped]
    omega
  · intro i hi
    have hlater : i + 1 < queue.writeQueued := Nat.add_lt_of_lt_sub hi
    have hsize := h.sizes (i + 1) hlater
    rw [← index_succ] at hsize
    rw [popped_sizes h hlater, ← index_succ]
    exact hsize
  · intro i hi
    have hlater : i + 1 < queue.writeQueued := Nat.add_lt_of_lt_sub hi
    rw [popped_sizes h hlater]
    exact h.sizes_le (i + 1) hlater

/-! ## Capacity -/

/-- What the ring and the tail hold together. -/
theorem Queue.content_length_le (h : queue.InOrder) :
    queue.content.length ≤ UPLOAD_WRITE_QUEUE_DEPTH * UPLOAD_WRITE_BUFFER_BYTES := by
  have hentries : queue.entries.flatten.length ≤
      queue.writeQueued * UPLOAD_WRITE_BUFFER_BYTES := by
    have hbound : ∀ size ∈ queue.entries.map List.length, size ≤ UPLOAD_WRITE_BUFFER_BYTES := by
      simp only [Queue.entries, RingBuffer.entries, List.map_map, List.mem_map, List.mem_range]
      rintro _ ⟨i, hi, rfl⟩
      have hsize := h.sizes_le i hi
      simp only [Function.comp_apply, Queue.slot, List.length_take]
      omega
    have hsum := List.sum_le_card_nsmul _ _ hbound
    rw [List.length_map, Queue.entries, entries_length] at hsum
    rwa [List.length_flatten]
  rw [Queue.content, List.length_append, tail_length h]
  have hbuffered := h.buffered_le
  have hle := h.queued_le
  by_cases hfull : queue.writeQueued = UPLOAD_WRITE_QUEUE_DEPTH
  · rw [h.full hfull]
    rw [hfull] at hentries
    exact hentries
  · have hroom : (queue.writeQueued + 1) * UPLOAD_WRITE_BUFFER_BYTES ≤
        UPLOAD_WRITE_QUEUE_DEPTH * UPLOAD_WRITE_BUFFER_BYTES :=
      Nat.mul_le_mul_right _ (by omega)
    rw [Nat.succ_mul] at hroom
    omega

/-! ## Emptying the ring -/

theorem Queue.InOrder.empty {queue : Queue} (hhead : queue.writeHead = 0)
    (htail : queue.writeTail = 0) (hqueued : queue.writeQueued = 0)
    (hbuffered : queue.buffered = 0) : queue.InOrder := by
  refine ⟨?_, ?_, ?_, fun _ => hbuffered, ?_, ?_, ?_, ?_⟩
  · rw [hhead]
    decide
  · rw [htail, hhead, hqueued]
    rfl
  · rw [hqueued]
    exact Nat.zero_le _
  · rw [hbuffered]
    exact Nat.zero_le _
  · rw [hbuffered]
    exact Nat.zero_le _
  · intro i hi
    omega
  · intro i hi
    omega

theorem Queue.InOrder.cleared (queue : Queue) : queue.cleared.InOrder :=
  .empty rfl rfl rfl rfl

end LocalSend.Upload
