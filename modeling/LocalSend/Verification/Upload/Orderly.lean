import LocalSend.Library.Budget
import LocalSend.Verification.Upload.Frame
import LocalSend.Verification.Upload.Publish
import LocalSend.Verification.Upload.Stream
import LocalSend.Verification.Upload.Updates

/-! # Queued uploads with many callers

`upload_write` and `upload_finish_with_metrics` check the slot once and then sleep, and do
not look at it again. Callers are orderly when nobody clears the slot behind a sleeper and
two writes of one upload never ask for more than it has left. Then nothing is copied into
or published from another upload.
-/

namespace LocalSend.Upload

open Transition Budget

/-- The calls of a queued upload. -/
def Call.queued : Call → Bool
  | .prepare _ _ _ => true
  | .begin _ _ _ _ => true
  | .write _ _ => true
  | .finish _ => true
  | .cancel _ _ _ => true
  | .abort _ => true
  | .reapAt _ => true
  | _ => false

/-- Every copy went into the upload it was meant for. -/
def CopiesOwn (trace : List Event) : Prop := ∀ copy, .copied copy ∈ trace → copy.Own

/-- The publication reached is of the upload named, complete, and on disk with every byte
received. -/
structure Publish.Whole (publish : Publish) (received : Bytes) : Prop where
  own : publish.uploadId = publish.requested
  occupied : publish.occupied = true
  complete : publish.received = publish.expectedSize
  counted : publish.received = received.length
  written : publish.partFile = received
  error : publish.writerError = none

/-- Every publication that was reached was whole when it was. -/
def PublishesOwn : List Event → Prop
  | [] => True
  | .publishing publish :: trace => publish.Whole (accepted trace) ∧ PublishesOwn trace
  | _ :: trace => PublishesOwn trace

/-- Received bytes are accounted for: never more than expected, and none in a slot that is
free or holds an upload that has not begun. -/
structure Accounted (manager : Manager) : Prop where
  within : manager.slot.received ≤ manager.slot.expectedSize
  fresh : manager.slot.occupied = false ∨ manager.slot.started = false →
    manager.slot.received = 0 ∧ manager.queue.buffered = 0

/-- Asleep in `upload_write` or `upload_finish_with_metrics` until the queue moves. -/
def Pc.queueWait : Pc → Bool
  | .writeFull _ _ => true
  | .writeEnqueue _ _ => true
  | .finishEnqueue _ => true
  | .finishDrain _ => true
  | _ => false

/-- How many bytes a sleeping `upload_write` still has to copy. -/
def Pc.left : Pc → ℕ
  | .writeFull _ rest => rest.length
  | .writeEnqueue _ rest => rest.length
  | _ => 0

/-- The same of a caller. -/
def Sys.left (sys : Sys) (tid : ℕ) : ℕ :=
  ((sys.threads tid).map fun thread => thread.pc.left).getD 0

/-- How many bytes the upload in the slot has not received yet. -/
def Manager.missing (manager : Manager) : ℕ := manager.slot.expectedSize - manager.slot.received

/-- A step of a queued upload that does not clear the slot behind a sleeping write or
finish, and admits no write that asks for bytes others have already been granted. -/
structure Orderly (sys : Sys) (action : Action) : Prop where
  queued : ∀ tid call env, action = .call tid call env → call.queued = true
  undisturbed : ∀ next, step sys action = some next →
    clearings next.world.trace ≠ clearings sys.world.trace →
    ∀ tid thread, next.threads tid = some thread → thread.pc.queueWait = false
  fits : ∀ tid id data env, action = .call tid (.write id data) env →
    sys.world.mgr.slot.occupied = true → sys.world.mgr.slot.uploadId = id →
    data.length ≤ sys.world.mgr.missing →
    Covered sys.left (sys.world.mgr.missing - data.length)

/-! ## What a stretch may do -/

/-- What a parked call relies on. -/
def Attends (world : World) : Pc → Prop
  | .reaping call _ => call.queued = true
  | .superseding _ _ _ _ => True
  | .clearing _ _ => True
  | .writeFull id rest => Holds world id ∧ rest ≠ []
  | .finishDrain id => Holds world id ∧ world.mgr.missing = 0 ∧ world.mgr.queue.buffered = 0
  | _ => False

/-- The slot is kept, for the uploads it holds, by a caller that had `before` bytes left and
has `after` left now. -/
structure Kept (world next : World) (before after : ℕ) : Prop where
  holds : ∀ id, Holds world id → Holds next id
  budget : world.mgr.missing + after ≤ next.mgr.missing + before
  drained : before = 0 → ∀ id, Holds world id → world.mgr.missing = 0 →
    world.mgr.queue.buffered = 0 → next.mgr.missing = 0 ∧ next.mgr.queue.buffered = 0

/-- The events between two worlds are in order. -/
structure Follows (world next : World) : Prop where
  copies : CopiesOwn world.trace → CopiesOwn next.trace
  publishes : PublishesOwn world.trace → PublishesOwn next.trace
  clearings_le : clearings world.trace ≤ clearings next.trace

/-- The call does not end up asleep on the queue. -/
structure Outcome.Awake (outcome : Outcome) : Prop where
  parked : ∀ pc, outcome = .park pc → pc.queueWait = false

/-- A stretch keeps the stream, and either clears the slot or keeps it. -/
structure Serves (world : World) (writer : WriterPc) (before : ℕ) (stretch : World × Outcome) :
    Prop where
  stream : Stream stretch.1 writer
  within : stretch.1.mgr.slot.received ≤ stretch.1.mgr.slot.expectedSize
  parked : ∀ pc, stretch.2 = .park pc → Attends stretch.1 pc
  follows : Follows world stretch.1
  awake : clearings world.trace ≠ clearings stretch.1.trace → stretch.2.Awake
  moves : clearings world.trace ≠ clearings stretch.1.trace ∨
    ∃ after, Kept world stretch.1 before after ∧ ∀ pc, stretch.2 = .park pc → pc.left ≤ after

variable {world middle next : World} {writer : WriterPc} {before : ℕ}

theorem Follows.refl (world : World) : Follows world world := ⟨fun h => h, fun h => h, le_rfl⟩

theorem Follows.trans (hfirst : Follows world middle) (hsecond : Follows middle next) :
    Follows world next :=
  ⟨fun h => hsecond.copies (hfirst.copies h), fun h => hsecond.publishes (hfirst.publishes h),
    hfirst.clearings_le.trans hsecond.clearings_le⟩

/-- An event that is neither a copy nor a publication. -/
theorem Follows.note {event : Event} (hcopy : ∀ copy, event ≠ .copied copy)
    (hpublish : ∀ publish, event ≠ .publishing publish) : Follows world (world.note event) := by
  refine ⟨?_, ?_, ?_⟩
  · intro h copy hmem
    rcases List.mem_cons.mp hmem with heq | hmem
    · exact absurd heq.symm (hcopy copy)
    · exact h copy hmem
  · intro h
    cases event <;> first | exact h | exact absurd rfl (hpublish _)
  · simp [World.note, clearings, List.countP_cons]

theorem Follows.of_trace (h : next.trace = world.trace) : Follows world next := by
  refine ⟨?_, ?_, ?_⟩ <;> rw [h]
  · exact fun h => h
  · exact fun h => h

theorem follows_clearRest (world : World) (origin : Origin) (target : CString) (io : ClearIo) :
    Follows world (clearRest world origin target io).1 := by
  have hnote : Follows world (world.note (.cleared ⟨origin, target, world.mgr.slot.uploadId,
      world.mgr.slot.occupied, world.mgr.slot.fd⟩)) :=
    .note (fun _ h => by cases h) fun _ h => by cases h
  exact hnote.trans (.of_trace rfl)

/-- The slot as it is, for any caller. -/
theorem Kept.of_same (before : ℕ) (hslot : next.mgr.slot = world.mgr.slot)
    (hbuffered : next.mgr.queue.buffered = world.mgr.queue.buffered) :
    Kept world next before 0 := by
  have hmissing : next.mgr.missing = world.mgr.missing := by
    simp only [Manager.missing, hslot]
  refine ⟨?_, by omega, ?_⟩
  · intro id h
    exact ⟨hslot ▸ h.occupied, hslot ▸ h.started, hslot ▸ h.uploadId_eq⟩
  · intro _ id _ hzero hempty
    exact ⟨hmissing.trans hzero, hbuffered.trans hempty⟩

theorem awake_done (reply : Reply) : (Outcome.done reply).Awake := by
  refine ⟨?_⟩
  intro pc hpark
  cases hpark

theorem awake_park {pc : Pc} (h : pc.queueWait = false) : (Outcome.park pc).Awake := by
  refine ⟨?_⟩
  rintro _ ⟨⟩
  exact h

/-- A stretch that ends where it began. -/
theorem serves_same (h : Stream world writer)
    (hle : world.mgr.slot.received ≤ world.mgr.slot.expectedSize) (before : ℕ) (reply : Reply) :
    Serves world writer before (world, .done reply) := by
  refine ⟨h, hle, ?_, .refl world, fun _ => awake_done reply,
    .inr ⟨0, .of_same before rfl rfl, ?_⟩⟩
  · intro pc hpark
    cases hpark
  · intro pc hpark
    cases hpark

/-- A clearing without a wait, by whoever has done `world` to `middle`. -/
theorem serves_closeSlot_idle (hwaiting : writer = .waiting)
    (hidle : middle.mgr.queue.writerActive = false) (hfollows : Follows world middle)
    (closing : Closing) (io : ClearIo) (before : ℕ) :
    Serves world writer before (closeSlot middle closing io) := by
  subst hwaiting
  have hidle' : (clearStart middle).mgr.queue.writerActive = false := hidle
  have hclose : closeSlot middle closing io =
      finishClosing (clearStart middle) closing middle.mgr.slot.uploadId io := by
    unfold closeSlot awaitClosing
    rw [if_neg (by simp [hidle'])]
  have hfollows' : Follows world (clearRest (clearStart middle) closing.origin
      middle.mgr.slot.uploadId io).1 :=
    (hfollows.trans (.of_trace rfl)).trans (follows_clearRest ..)
  have hcount := clearRest_clearings (clearStart middle) closing.origin middle.mgr.slot.uploadId io
  have hle : clearings world.trace ≤ clearings (clearStart middle).trace := hfollows.clearings_le
  rw [hclose]
  refine ⟨stream_clearRest hidle' .., le_rfl, ?_, hfollows', fun _ => awake_done _, .inl ?_⟩
  · intro pc hpark
    cases hpark
  · simp only [finishClosing]
    omega

/-- A stretch that sleeps where it is. -/
theorem serves_park (h : Stream world writer)
    (hle : world.mgr.slot.received ≤ world.mgr.slot.expectedSize) (before : ℕ) {pc : Pc}
    (hattends : Attends world pc) (hleft : pc.left = 0) :
    Serves world writer before (world, .park pc) := by
  refine ⟨h, hle, ?_, .refl world, fun hne => absurd rfl hne,
    .inr ⟨0, .of_same before rfl rfl, ?_⟩⟩
  · rintro _ ⟨⟩
    exact hattends
  · rintro _ ⟨⟩
    exact hleft.le

/-- A `clear_slot` that waits for the writer has only told it to discard. -/
theorem serves_clearStart (h : Stream world writer)
    (hle : world.mgr.slot.received ≤ world.mgr.slot.expectedSize) (before : ℕ) (pc : Pc)
    (hattends : Attends (clearStart world) pc) (hleft : pc.left = 0) :
    Serves world writer before (clearStart world, .park pc) := by
  have hkept : Kept world (clearStart world) before 0 := .of_same before (by rfl) (by rfl)
  refine ⟨stream_clearStart h, hle, ?_, .of_trace rfl, fun hne => absurd rfl hne,
    .inr ⟨0, hkept, ?_⟩⟩
  · rintro _ ⟨⟩
    exact hattends
  · rintro _ ⟨⟩
    exact hleft.le

theorem closeSlot_serves (h : Stream world writer)
    (hle : world.mgr.slot.received ≤ world.mgr.slot.expectedSize) (closing : Closing)
    (io : ClearIo) (before : ℕ) : Serves world writer before (closeSlot world closing io) := by
  cases hactive : world.mgr.queue.writerActive with
  | false => exact serves_closeSlot_idle (h.waiting hactive) hactive (.refl world) ..
  | true =>
      have hclose : closeSlot world closing io =
          (clearStart world, .park (.clearing closing world.mgr.slot.uploadId)) := by
        unfold closeSlot awaitClosing
        rw [if_pos]
        exact hactive
      rw [hclose]
      exact serves_clearStart h hle before (.clearing closing world.mgr.slot.uploadId) trivial rfl

/-- What follows a clearing clears. -/
theorem serves_behind_clearRest {stretch : World × Outcome} {origin : Origin} {target : CString}
    {io : ClearIo} {before' : ℕ} (hfollows : Follows world middle)
    (h : Serves (clearRest middle origin target io).1 writer before' stretch)
    (hawake : stretch.2.Awake) (before : ℕ) : Serves world writer before stretch := by
  have hcount := clearRest_clearings middle origin target io
  have hle := hfollows.clearings_le
  have hle' := h.follows.clearings_le
  exact ⟨h.stream, h.within, h.parked, (hfollows.trans (follows_clearRest ..)).trans h.follows,
    fun _ => hawake, .inl (by omega)⟩

/-! ## `upload_finish_with_metrics` -/

theorem publishRecord_whole {id : CString} (h : Stream world writer) (hholds : Holds world id)
    (hle : world.mgr.slot.received ≤ world.mgr.slot.expectedSize)
    (hmissing : world.mgr.missing = 0) (hbuffered : world.mgr.queue.buffered = 0)
    (hdrained : world.mgr.queue.draining = false) (herror : world.mgr.queue.writerError = none)
    (digest : CString) : (publishRecord world id digest).Whole (accepted world.trace) := by
  obtain ⟨file, hbacked, hwritten⟩ := h.drained hholds.occupied hdrained herror hbuffered
  refine ⟨hholds.uploadId_eq, hholds.occupied, ?_, h.counted, ?_, herror⟩
  · simp only [Manager.missing] at hmissing
    simp only [publishRecord]
    omega
  · simp only [publishRecord, hbacked.entry, Option.map_some, Option.getD_some, hwritten]

theorem Publication.follows {id digest : CString} {transferElapsedNs : ℕ} {env : Env}
    {published : World × Except UploadResult Metrics}
    (h : Publication world id digest transferElapsedNs env published)
    (hwhole : (publishRecord world id digest).Whole (accepted world.trace)) :
    Follows world published.1 := by
  have hreached : Follows world (publishReached world id digest) := by
    refine ⟨?_, fun h => ⟨hwhole, h⟩, ?_⟩
    · intro h copy hmem
      rcases List.mem_cons.mp hmem with heq | hmem
      · cases heq
      · exact h copy hmem
    · simp [publishReached, World.note, closeFd, clearings]
  cases h with
  | refused => exact .refl world
  | unclosed => exact .of_trace rfl
  | failed => exact hreached
  | @published file linked fs hfd hhash hpublish =>
      have hnote : Follows (publishReached world id digest)
          ((publishReached world id digest).note (.published id world.mgr.slot.finalPath
            ((fs.contents world.mgr.slot.finalPath).getD []) digest)) :=
        .note (fun _ h => by cases h) fun _ h => by cases h
      exact (hreached.trans hnote).trans (.of_trace rfl)

theorem finishPublish_serves {id : CString} (hfollows : Follows world middle)
    (hwaiting : writer = .waiting) (hidle : middle.mgr.queue.writerActive = false)
    (digest : CString) (hwhole : (publishRecord middle id digest).Whole (accepted middle.trace))
    (elapsed : ℕ) (env : Env) (before : ℕ) :
    Serves world writer before (finishPublish middle id digest elapsed env) := by
  have hspec := publishSlot_spec middle id digest elapsed env
  have hnext := hspec.follows hwhole
  have hactive : (publishSlot middle id digest elapsed env).1.mgr.queue.writerActive = false := by
    rw [hspec.queue_eq]
    exact hidle
  unfold finishPublish
  split
  · rename_i next result heq
    rw [heq] at hnext hactive
    exact serves_closeSlot_idle hwaiting hactive (hfollows.trans hnext) ..
  · rename_i next metrics heq
    rw [heq] at hnext hactive
    exact serves_closeSlot_idle hwaiting hactive (hfollows.trans hnext) ..

/-- Everything the upload has received is in the ring or behind it. -/
structure AllQueued (world : World) (id : CString) : Prop where
  holds : Holds world id
  missing : world.mgr.missing = 0
  buffered : world.mgr.queue.buffered = 0

theorem awaitDrain_serves {id : CString} (h : Stream world writer)
    (hle : world.mgr.slot.received ≤ world.mgr.slot.expectedSize) (hall : AllQueued world id)
    (env : Env) (before : ℕ) : Serves world writer before (awaitDrain world id env) := by
  unfold awaitDrain
  split
  · exact serves_park h hle before ⟨hall.holds, hall.missing, hall.buffered⟩ rfl
  rename_i hdraining
  have hdrained : world.mgr.queue.draining = false := by simpa using hdraining
  split
  · exact closeSlot_serves h hle ..
  · rename_i herror
    have hidle : world.mgr.queue.writerActive = false := by
      simp only [Queue.draining, herror, decide_eq_false_iff_not] at hdrained
      grind
    have hclosed : Follows world (world.setSha256 (Sha256.sha256Final world.mgr.slot.sha256).2) :=
      .of_trace rfl
    have hwhole := publishRecord_whole h hall.holds hle hall.missing hall.buffered hdrained herror
      (Sha256.sha256Hex (Sha256.sha256Final world.mgr.slot.sha256).1)
    unfold finishQueued
    exact finishPublish_serves hclosed (h.waiting hidle) hidle _ hwhole _ env before

/-- Queueing the tail changes nothing a caller can see. -/
theorem kept_setQueue {queue : Queue} (hqueued : Queued world.mgr.queue queue) (before : ℕ) :
    Kept world (world.setQueue queue) before 0 := by
  refine ⟨fun id h => ⟨h.occupied, h.started, h.uploadId_eq⟩, Nat.le_add_right .., ?_⟩
  intro _ id _ hzero _
  exact ⟨hzero, hqueued.buffered_eq⟩

theorem Kept.trans {after : ℕ} (hfirst : Kept world middle before before)
    (hsecond : Kept middle next before after) : Kept world next before after := by
  have hbudget := hfirst.budget
  have hbudget' := hsecond.budget
  refine ⟨fun id h => hsecond.holds id (hfirst.holds id h), by omega, ?_⟩
  intro hzero id hholds hmissing hbuffered
  obtain ⟨hmissing', hbuffered'⟩ := hfirst.drained hzero id hholds hmissing hbuffered
  exact hsecond.drained hzero id (hfirst.holds id hholds) hmissing' hbuffered'

/-- A stretch that starts with a step nobody can see. -/
theorem Serves.start {stretch : World × Outcome} (h : Serves middle writer before stretch)
    (hfollows : Follows world middle) (hsame : clearings middle.trace = clearings world.trace)
    (hkept : Kept world middle before before) :
    Serves world writer before stretch := by
  refine ⟨h.stream, h.within, h.parked, hfollows.trans h.follows, hsame ▸ h.awake, ?_⟩
  rcases h.moves with hcleared | ⟨after, hmoves, hleft⟩
  · exact .inl (hsame ▸ hcleared)
  · exact .inr ⟨after, hkept.trans hmoves, hleft⟩

theorem uploadFinishWithMetrics_serves (h : Stream world writer)
    (hle : world.mgr.slot.received ≤ world.mgr.slot.expectedSize) (id : CString) (env : Env) :
    Serves world writer 0 (uploadFinishWithMetrics world id env) := by
  unfold uploadFinishWithMetrics
  dsimp only
  split
  · exact closeSlot_serves h hle ..
  rename_i hfound
  split
  · exact closeSlot_serves h hle ..
  rename_i hreceived
  split
  · exact closeSlot_serves h hle ..
  split
  · rename_i hdirect
    simp [h.direct] at hdirect
  have hholds : Holds world id := by
    simp only [not_or, ne_eq, not_not] at hfound
    exact ⟨hfound.1, hfound.2.1, hfound.2.2⟩
  have hmissing : world.mgr.missing = 0 := by
    simp only [Manager.missing]
    omega
  unfold awaitFinishEnqueue
  split
  · rename_i hwait
    exact absurd hwait (enqueueWriteBufferLocked_ne_wait h.queue)
  · exact closeSlot_serves h hle ..
  · rename_i queue hqueue
    have hqueued := queued_of_enqueue h.queue hqueue
    have hstart : Follows world (world.setQueue queue) := .of_trace rfl
    have hall : AllQueued (world.setQueue queue) id :=
      ⟨⟨hholds.occupied, hholds.started, hholds.uploadId_eq⟩, hmissing, hqueued.buffered_eq⟩
    exact (awaitDrain_serves (stream_setQueue h hqueued) hle hall env 0).start hstart rfl
      (kept_setQueue hqueued 0)

/-! ## `upload_write` -/

theorem clearings_copies (copies : List Copy) (trace : List Event) :
    clearings (copies.map Event.copied ++ trace) = clearings trace := by
  induction copies with
  | nil => rfl
  | cons copy copies ih => exact ih

theorem Fills.clearings_eq {id : CString} {copied : Bytes}
    (h : Fills writer id world copied next) : clearings next.trace = clearings world.trace := by
  obtain ⟨copies, htrace, -⟩ := h.copies
  rw [htrace, clearings_copies]

theorem Fills.follows {id : CString} {copied : Bytes} (h : Fills writer id world copied next) :
    Follows world next := by
  obtain ⟨copies, htrace, hcopies⟩ := h.copies
  refine ⟨?_, ?_, ?_⟩
  · intro hown copy hmem
    rw [htrace] at hmem
    rcases List.mem_append.mp hmem with hmem | hmem
    · obtain ⟨copy', hmem', heq⟩ := List.mem_map.mp hmem
      cases heq
      exact (hcopies copy hmem').1
    · exact hown copy hmem
  · rw [htrace]
    intro hown
    clear htrace hcopies
    induction copies with
    | nil => exact hown
    | cons copy copies ih => exact ih
  · exact h.clearings_eq.ge

theorem writeLoop_serves {id : CString} {rest : Bytes} (h : Stream world writer)
    (hle : world.mgr.slot.received ≤ world.mgr.slot.expectedSize) (hholds : Holds world id)
    (hfits : rest.length ≤ world.mgr.missing) (activity : ℕ) :
    Serves world writer rest.length (writeLoop world id rest activity) := by
  by_cases hrest : rest = []
  · subst hrest
    rw [writeLoop, dif_pos rfl]
    exact serves_same h hle _ _
  have hspec : ∃ copied rest', rest = copied ++ rest' ∧
      Fills writer id world copied (writeLoop world id rest activity).1 ∧
      WriteEnds (writeLoop world id rest activity).1 id rest'
        (writeLoop world id rest activity).2 := writeLoop_spec h hholds activity
  obtain ⟨copied, rest', hsplit, hfills, hends⟩ := hspec
  generalize writeLoop world id rest activity = stretch at hfills hends
  obtain ⟨next, outcome⟩ := stretch
  have hlength : rest.length = copied.length + rest'.length := by
    rw [hsplit, List.length_append]
  obtain ⟨received, sha256, lastActivity, hslot⟩ := hfills.slot_eq
  have hexpected : next.mgr.slot.expectedSize = world.mgr.slot.expectedSize := by rw [hslot]
  have hreceived : next.mgr.slot.received = world.mgr.slot.received + copied.length := by
    rw [hfills.stream.counted, hfills.accepted_eq, List.length_append, h.counted]
  simp only [Manager.missing] at hfits
  have hkept : Kept world next rest.length rest'.length := by
    refine ⟨?_, ?_, ?_⟩
    · intro other hother
      have hsame : id = other := hholds.uploadId_eq.symm.trans hother.uploadId_eq
      exact hsame ▸ hfills.holds
    · simp only [Manager.missing, hexpected, hreceived]
      omega
    · intro hzero
      exact absurd (List.length_eq_zero_iff.mp hzero) hrest
  refine ⟨hfills.stream, ?_, ?_, hfills.follows, fun hne => absurd hfills.clearings_eq.symm hne,
    .inr ⟨_, hkept, ?_⟩⟩
  · simp only [hexpected, hreceived]
    omega
  · intro pc hpark
    cases hends with
    | full hrest' hfull =>
        cases hpark
        exact ⟨hfills.holds, hrest'⟩
    | done | failed => cases hpark
  · intro pc hpark
    cases hends with
    | full hrest' hfull =>
        cases hpark
        exact le_rfl
    | done | failed => cases hpark

/-! ## `upload_prepare` -/

/-- Nobody relies on a free slot. -/
theorem Kept.of_free (h : Stream world writer) (hfree : world.mgr.slot.occupied = false)
    (next : World) (before : ℕ) : Kept world next before 0 := by
  have hmissing : world.mgr.missing = 0 := by
    simp only [Manager.missing, h.free hfree, Nat.zero_sub]
  refine ⟨?_, by omega, ?_⟩
  · intro id hholds
    cases hfree.symm.trans hholds.occupied
  · intro _ id hholds
    cases hfree.symm.trans hholds.occupied

/-- From a free slot to another world, without sleeping. -/
theorem serves_of_free (h : Stream world writer) (hfree : world.mgr.slot.occupied = false)
    (hnext : Stream next writer) (hreceived : next.mgr.slot.received = world.mgr.slot.received)
    (hfollows : Follows world next) (reply : Reply) (before : ℕ) :
    Serves world writer before (next, .done reply) := by
  refine ⟨hnext, ?_, ?_, hfollows, fun _ => awake_done reply,
    .inr ⟨0, .of_free h hfree next before, ?_⟩⟩
  · rw [hreceived, (h.unused (h.unstarted hfree)).received]
    exact Nat.zero_le _
  · intro pc hpark
    cases hpark
  · intro pc hpark
    cases hpark

theorem prepareFailed_serves (h : Stream world writer) (hfree : world.mgr.slot.occupied = false)
    (hnext : Stream next writer) (hfree' : next.mgr.slot.occupied = false)
    (hreceived : next.mgr.slot.received = world.mgr.slot.received)
    (hfollows : Follows world next) (result : UploadResult) (env : Env) (before : ℕ) :
    Serves world writer before (prepareFailed next result env) := by
  have hwaiting := hnext.waiting_of_unused (hnext.unused (hnext.unstarted hfree')).queued
  unfold prepareFailed
  split
  · subst hwaiting
    exact serves_closeSlot_idle rfl hnext.fits hfollows ..
  · exact serves_of_free h hfree hnext hreceived hfollows _ before

theorem prepareOpen_kept (world : World) (client authorization : CString) (metadata : Metadata)
    (env : Env) :
    Follows world (prepareOpen world client authorization metadata env).1 ∧
      (prepareOpen world client authorization metadata env).1.mgr.slot.received =
        world.mgr.slot.received := by
  have hspec := prepareOpen_spec world client authorization metadata env
  have hnote : Follows world (world.note (.opened world.mgr.slot.uploadId)) :=
    .note (fun _ h => by cases h) fun _ h => by cases h
  generalize prepareOpen world client authorization metadata env = opened at hspec
  cases hspec with
  | refused hresult => exact ⟨.of_trace rfl, rfl⟩
  | failed hresult hopen hfs => exact ⟨hnote.trans (.of_trace rfl), rfl⟩
  | occupied hopen hreserve => exact ⟨hnote.trans (.of_trace rfl), rfl⟩

theorem prepareSlot_serves (h : Stream world writer)
    (hle : world.mgr.slot.received ≤ world.mgr.slot.expectedSize) (client authorization : CString)
    (metadata : Metadata) (env : Env) (before : ℕ) :
    Serves world writer before (prepareSlot world client authorization metadata env) := by
  unfold prepareSlot
  split
  · unfold prepareFailed
    split
    · exact closeSlot_serves h hle ..
    · exact serves_same h hle ..
  rename_i hoccupied
  have hfree : world.mgr.slot.occupied = false := by simpa using hoccupied
  have hnames := stream_prepareNames h hfree authorization metadata env
  have hfree' := (prepareNames_occupied world authorization metadata env).trans hfree
  have hkept : (prepareNames world authorization metadata env).1.mgr.slot.received =
      world.mgr.slot.received ∧
      (prepareNames world authorization metadata env).1.trace = world.trace := by
    obtain ⟨_, _, _, _, hnamed⟩ := prepareNames_eq world authorization metadata env
    rw [hnamed]
    exact ⟨rfl, rfl⟩
  split
  · rename_i middle heq
    rw [heq] at hnames hfree' hkept
    have hopen := stream_prepareOpen hnames hfree' client authorization metadata env
    obtain ⟨hfollows, hreceived⟩ := prepareOpen_kept middle client authorization metadata env
    have hfollows' : Follows world _ := (Follows.of_trace hkept.2).trans hfollows
    split
    · rename_i next heq'
      rw [heq'] at hopen hfollows' hreceived
      exact serves_of_free h hfree hopen.1 (hreceived.trans hkept.1) hfollows' _ before
    · rename_i next result hresult heq'
      rw [heq'] at hopen hfollows' hreceived
      have hnext : next.mgr.slot.occupied = false := hopen.2 hresult
      exact prepareFailed_serves h hfree hopen.1 hnext (hreceived.trans hkept.1) hfollows' ..
  · rename_i next result _ heq
    rw [heq] at hnames hfree' hkept
    exact prepareFailed_serves h hfree hnames hfree' hkept.1 (.of_trace hkept.2) ..

theorem closeSlot_awake (world : World) (closing : Closing) (io : ClearIo) :
    (closeSlot world closing io).2.Awake := by
  unfold closeSlot awaitClosing
  split
  · exact awake_park rfl
  · exact awake_done _

theorem prepareFailed_awake (world : World) (result : UploadResult) (env : Env) :
    (prepareFailed world result env).2.Awake := by
  unfold prepareFailed
  split
  · exact closeSlot_awake ..
  · exact awake_done _

theorem prepareSlot_awake (world : World) (client authorization : CString) (metadata : Metadata)
    (env : Env) : (prepareSlot world client authorization metadata env).2.Awake := by
  unfold prepareSlot
  split
  · exact prepareFailed_awake ..
  split
  · split
    · exact awake_done _
    · exact prepareFailed_awake ..
  · exact prepareFailed_awake ..

theorem uploadPrepare_serves (h : Stream world writer)
    (hle : world.mgr.slot.received ≤ world.mgr.slot.expectedSize) (client authorization : CString)
    (metadata : Metadata) (env : Env) (before : ℕ) :
    Serves world writer before (uploadPrepare world client authorization metadata env) := by
  unfold uploadPrepare
  dsimp only
  split
  · have hstart : Follows world (clearStart world) := .of_trace rfl
    split
    · exact serves_clearStart h hle before
        (.superseding client authorization metadata world.mgr.slot.uploadId) trivial rfl
    · rename_i hwriter
      have hidle : (clearStart world).mgr.queue.writerActive = false := by simpa using hwriter
      obtain rfl := h.waiting hidle
      exact serves_behind_clearRest hstart
        (prepareSlot_serves (stream_clearRest hidle ..) le_rfl client authorization metadata env 0)
        (prepareSlot_awake ..) before
  · exact prepareSlot_serves h hle ..

/-! ## Every call -/

theorem uploadBegin_serves (h : Stream world writer)
    (hle : world.mgr.slot.received ≤ world.mgr.slot.expectedSize)
    (id client authorization : CString) (length : ℕ) (env : Env) (before : ℕ) :
    Serves world writer before (uploadBegin world id client authorization length env) := by
  unfold uploadBegin
  dsimp only
  repeat (split; · exact serves_same h hle ..)
  rename_i hfound _ hidle _
  simp only [not_or, Bool.not_eq_true] at hfound hidle
  have hstream : Stream (beginStream world env) writer :=
    stream_beginStream h (by simpa using hfound.1) hidle.1 env
  have hkept : Kept world (beginStream world env) before 0 := by
    refine ⟨?_, Nat.le_add_right .., ?_⟩
    · intro other hholds
      cases hidle.1.symm.trans hholds.started
    · intro _ other hholds
      cases hidle.1.symm.trans hholds.started
  refine ⟨hstream, hle, ?_, .of_trace rfl, fun _ => awake_done _, .inr ⟨0, hkept, ?_⟩⟩
  · intro pc hpark
    cases hpark
  · intro pc hpark
    cases hpark

/-- How many bytes a call asks for that passes the checks of `upload_write`. -/
def Call.asks (manager : Manager) : Call → ℕ
  | .write id data =>
      if manager.slot.occupied = true ∧ manager.slot.uploadId = id ∧
          data.length ≤ manager.missing then data.length
      else 0
  | _ => 0

theorem uploadWrite_serves (h : Stream world writer)
    (hle : world.mgr.slot.received ≤ world.mgr.slot.expectedSize) (id : CString) (data : Bytes)
    (env : Env) :
    Serves world writer ((Call.write id data).asks world.mgr) (uploadWrite world id data env) := by
  unfold uploadWrite
  dsimp only
  split
  · exact serves_same h hle ..
  rename_i hfound
  split
  · exact serves_same h hle ..
  rename_i hlength
  simp only [not_or, ne_eq, not_not] at hfound
  have hfits : data.length ≤ world.mgr.missing := by
    rw [sub64, if_pos hle] at hlength
    exact Nat.not_lt.mp hlength
  have hasks : (Call.write id data).asks world.mgr = data.length :=
    if_pos ⟨hfound.1, hfound.2.2, hfits⟩
  rw [hasks]
  exact writeLoop_serves h hle ⟨hfound.1, hfound.2.1, hfound.2.2⟩ hfits env.activity

theorem afterReap_serves (h : Stream world writer)
    (hle : world.mgr.slot.received ≤ world.mgr.slot.expectedSize) {call : Call}
    (hqueued : call.queued = true) (env : Env) :
    Serves world writer (call.asks world.mgr) (afterReap world call env) := by
  cases call with
  | prepare client authorization json =>
      simp only [afterReap]
      split
      · exact serves_same h hle ..
      · exact uploadPrepare_serves h hle ..
  | begin id client authorization length => exact uploadBegin_serves h hle ..
  | write id data => exact uploadWrite_serves h hle ..
  | finish id => exact uploadFinishWithMetrics_serves h hle ..
  | cancel id client authorization =>
      simp only [afterReap, uploadCancel]
      repeat (split; · exact serves_same h hle ..)
      exact closeSlot_serves h hle ..
  | abort id =>
      simp only [afterReap, uploadAbort]
      split
      · exact closeSlot_serves h hle ..
      · exact serves_same h hle ..
  | reapAt now => exact serves_same h hle ..
  | _ => cases hqueued

/-- With the slot free no call goes to sleep on the queue. -/
theorem afterReap_awake (hfree : world.mgr.slot.occupied = false) {call : Call}
    (hqueued : call.queued = true) (env : Env) : (afterReap world call env).2.Awake := by
  cases call with
  | prepare client authorization json =>
      simp only [afterReap]
      split
      · exact awake_done _
      · unfold uploadPrepare
        dsimp only
        rw [if_neg (by simp [hfree])]
        exact prepareSlot_awake ..
  | begin id client authorization length =>
      simp only [afterReap, uploadBegin]
      repeat (split; · exact awake_done _)
      exact awake_done _
  | write id data =>
      simp only [afterReap, uploadWrite]
      rw [if_pos (by simp [hfree])]
      exact awake_done _
  | finish id =>
      simp only [afterReap, uploadFinishWithMetrics]
      rw [if_pos (by simp [hfree])]
      exact closeSlot_awake ..
  | cancel id client authorization =>
      simp only [afterReap, uploadCancel]
      rw [if_pos (by simp [hfree])]
      exact awake_done _
  | abort id =>
      simp only [afterReap, uploadAbort]
      split
      · exact closeSlot_awake ..
      · exact awake_done _
  | reapAt now => exact awake_done _
  | _ => cases hqueued

theorem reapLocked_serves (h : Stream world writer)
    (hle : world.mgr.slot.received ≤ world.mgr.slot.expectedSize) {call : Call}
    (hqueued : call.queued = true) (now : ℕ) (env : Env) :
    Serves world writer (call.asks world.mgr) (reapLocked world call now env) := by
  unfold reapLocked
  split
  · have hstart : Follows world (clearStart world) := .of_trace rfl
    dsimp only
    split
    · exact serves_clearStart h hle _ (.reaping call world.mgr.slot.uploadId) hqueued rfl
    · rename_i hwriter
      have hidle : (clearStart world).mgr.queue.writerActive = false := by simpa using hwriter
      obtain rfl := h.waiting hidle
      exact serves_behind_clearRest hstart
        (afterReap_serves (stream_clearRest hidle ..) le_rfl hqueued env)
        (afterReap_awake rfl hqueued env) _
  · exact afterReap_serves h hle hqueued env

theorem awaitWrites_serves (h : Stream world writer)
    (hle : world.mgr.slot.received ≤ world.mgr.slot.expectedSize) {call : Call}
    (hqueued : call.queued = true) (env : Env) :
    Serves world writer (call.asks world.mgr) (awaitWrites world call env) := by
  unfold awaitWrites
  rw [if_neg (by simp [h.plain.writes])]
  split
  · exact afterReap_serves h hle hqueued env
  · exact reapLocked_serves h hle hqueued env.now env

theorem enterCall_serves (h : Stream world writer)
    (hle : world.mgr.slot.received ≤ world.mgr.slot.expectedSize) {call : Call}
    (hqueued : call.queued = true) (env : Env) :
    Serves world writer (call.asks world.mgr) (enterCall world call env) := by
  unfold enterCall
  split
  · exact serves_same h hle ..
  split
  · exact afterReap_serves h hle hqueued env
  · exact afterReap_serves h hle hqueued env
  · exact awaitWrites_serves h hle hqueued env
  · exact awaitWrites_serves h hle hqueued env
  · exact reapLocked_serves h hle hqueued _ env
  · exact reapLocked_serves h hle hqueued _ env

theorem resume_serves {pc : Pc} {env : Env} {stretch : World × Outcome} (h : Stream world writer)
    (hle : world.mgr.slot.received ≤ world.mgr.slot.expectedSize) (hattends : Attends world pc)
    (hfits : pc.left ≤ world.mgr.missing) (hresume : resume world pc env = some stretch) :
    Serves world writer pc.left stretch := by
  cases pc with
  | reaping call target =>
      simp only [resume] at hresume
      split at hresume
      · cases hresume
        exact serves_park h hle _ hattends rfl
      · rename_i hwriter
        cases hresume
        have hidle : world.mgr.queue.writerActive = false := by simpa using hwriter
        obtain rfl := h.waiting hidle
        exact serves_behind_clearRest (.refl world)
          (afterReap_serves (stream_clearRest hidle ..) le_rfl hattends env)
          (afterReap_awake rfl hattends env) _
  | superseding client authorization metadata target =>
      simp only [resume] at hresume
      split at hresume
      · cases hresume
        exact serves_park h hle _ hattends rfl
      · rename_i hwriter
        cases hresume
        have hidle : world.mgr.queue.writerActive = false := by simpa using hwriter
        obtain rfl := h.waiting hidle
        exact serves_behind_clearRest (.refl world)
          (prepareSlot_serves (stream_clearRest hidle ..) le_rfl client authorization metadata env
            0)
          (prepareSlot_awake ..) _
  | clearing closing target =>
      cases hresume
      unfold awaitClosing
      split
      · exact serves_park h hle _ hattends rfl
      · rename_i hwriter
        have hidle : world.mgr.queue.writerActive = false := by simpa using hwriter
        obtain rfl := h.waiting hidle
        exact serves_behind_clearRest (.refl world)
          (serves_same (stream_clearRest hidle ..) le_rfl 0 _) (awake_done _) _
  | writeFull id rest =>
      cases hresume
      exact writeLoop_serves h hle hattends.1 hfits env.activity
  | finishDrain id =>
      cases hresume
      exact awaitDrain_serves h hle ⟨hattends.1, hattends.2.1, hattends.2.2⟩ env _
  | _ => exact hattends.elim

/-! ## Runs -/

/-- What every step of an orderly run keeps. -/
structure QueueInv (sys : Sys) : Prop where
  stream : Stream sys.world sys.writer
  within : sys.world.mgr.slot.received ≤ sys.world.mgr.slot.expectedSize
  attends : ∀ tid thread, sys.threads tid = some thread → Attends sys.world thread.pc
  covered : Covered sys.left sys.world.mgr.missing
  copies : CopiesOwn sys.world.trace
  publishes : PublishesOwn sys.world.trace

theorem queueInv_initial (host : Bool) (destination : CString)
    (maxFileBytes maxFiles leaseSeconds : ℕ) (override : Option CString) (fs : Fs) :
    QueueInv (.initial host destination maxFileBytes maxFiles leaseSeconds override fs) := by
  refine ⟨⟨.empty rfl rfl rfl rfl, rfl, ⟨rfl, rfl, rfl⟩, rfl, rfl, fun _ => rfl,
    fun _ => ⟨rfl, rfl, rfl, rfl⟩, ?_, ?_, ?_⟩, le_rfl, ?_, .zero _, ?_, trivial⟩
  · intro h
    cases h
  · intro h
    cases h
  · intro h
    cases h
  · intro tid thread hthread
    cases hthread
  · intro copy hmem
    cases hmem

theorem stream_note (h : Stream world writer) {event : Event}
    (haccepted : accepted (world.note event).trace = accepted world.trace) :
    Stream (world.note event) writer := by
  refine ⟨h.queue, h.fits, h.plain, h.direct, ?_, h.free, h.unused, h.occupied, ?_, ?_⟩
  · rw [haccepted]
    exact h.counted
  · intro hoccupied
    obtain ⟨file, hbacked⟩ := h.backed hoccupied
    refine ⟨file, hbacked.fd_eq, hbacked.entry, hbacked.reserved, fun herror => ?_⟩
    rw [haccepted]
    exact hbacked.bytes herror
  · intro hstarted
    rw [haccepted]
    exact h.digest hstarted

theorem Pc.left_of_queueWait {pc : Pc} (h : pc.queueWait = false) : pc.left = 0 := by
  cases pc <;> first | rfl | cases h

/-- A call that does not sleep on the queue relies on nothing. -/
theorem Attends.of_queueWait {pc : Pc} (h : Attends world pc) (hwait : pc.queueWait = false)
    (next : World) : Attends next pc := by
  cases pc <;> first | exact h | cases hwait

/-- The sleepers on the queue still find what they rely on. -/
theorem Attends.kept {pc : Pc} {after : ℕ} (h : Attends world pc)
    (hkept : Kept world next before after) (hzero : world.mgr.missing = 0 → before = 0) :
    Attends next pc := by
  cases pc with
  | writeFull id rest => exact ⟨hkept.holds id h.1, h.2⟩
  | finishDrain id =>
      obtain ⟨hholds, hmissing, hbuffered⟩ := h
      exact ⟨hkept.holds id hholds,
        hkept.drained (hzero hmissing) id hholds hmissing hbuffered⟩
  | _ => exact h

theorem Sys.left_thread {sys : Sys} {tid : ℕ} {thread : Thread}
    (h : sys.threads tid = some thread) : sys.left tid = thread.pc.left := by
  simp [Sys.left, h]

theorem Sys.left_update (sys : Sys) (tid : ℕ) (thread : Option Thread) (world : World) :
    ({ sys with world, threads := Function.update sys.threads tid thread } : Sys).left =
      Function.update sys.left tid ((thread.map fun thread => thread.pc.left).getD 0) := by
  funext other
  simp only [Sys.left, Function.update_apply]
  split <;> rfl

/-- A reply is recorded. -/
theorem Serves.settled {stretch : World × Outcome} (h : Serves world writer before stretch)
    (call : Call) :
    Stream (settled call stretch) writer ∧ (settled call stretch).mgr = stretch.1.mgr ∧
      Follows stretch.1 (settled call stretch) ∧
      clearings (settled call stretch).trace = clearings stretch.1.trace := by
  have hstream := h.stream
  obtain ⟨next, outcome⟩ := stretch
  cases outcome with
  | park pc => exact ⟨hstream, rfl, .refl next, rfl⟩
  | done reply =>
      have hnote : Follows next (next.note (.returned call reply)) :=
        .note (fun _ h => by cases h) fun _ h => by cases h
      exact ⟨stream_note hstream rfl, rfl, hnote, rfl⟩

theorem Holds.of_mgr {id : CString} (h : Holds world id) (hmgr : next.mgr = world.mgr) :
    Holds next id := by
  refine ⟨?_, ?_, ?_⟩ <;> rw [hmgr]
  · exact h.occupied
  · exact h.started
  · exact h.uploadId_eq

theorem Attends.of_mgr {pc : Pc} (h : Attends world pc) (hmgr : next.mgr = world.mgr) :
    Attends next pc := by
  cases pc with
  | writeFull id rest => exact ⟨h.1.of_mgr hmgr, h.2⟩
  | finishDrain id =>
      refine ⟨h.1.of_mgr hmgr, ?_, ?_⟩ <;> rw [hmgr]
      · exact h.2.1
      · exact h.2.2
  | _ => exact h

theorem QueueInv.settle {sys : Sys} {tid : ℕ} {call : Call} {stretch : World × Outcome}
    (hinv : QueueInv sys) (hserves : Serves sys.world sys.writer before stretch)
    (hcovered : Covered (Function.update sys.left tid before) sys.world.mgr.missing)
    (hundisturbed : clearings (sys.settle tid call stretch).world.trace ≠
      clearings sys.world.trace → ∀ other thread,
        (sys.settle tid call stretch).threads other = some thread →
        thread.pc.queueWait = false) :
    QueueInv (sys.settle tid call stretch) := by
  obtain ⟨hstream, hmgr, hfollows, hclearings⟩ := hserves.settled call
  have hfollows := hserves.follows.trans hfollows
  rw [settle_eq] at hundisturbed ⊢
  have hwithin : (settled call stretch).mgr.slot.received ≤
      (settled call stretch).mgr.slot.expectedSize := by
    rw [hmgr]
    exact hserves.within
  have hown : ∀ thread, stretch.2.thread call = some thread →
      Attends (settled call stretch) thread.pc := by
    intro thread hthread
    have hparked := hserves.parked
    obtain ⟨next, outcome⟩ := stretch
    cases outcome with
    | park pc =>
        cases hthread
        exact hparked pc rfl
    | done reply => cases hthread
  have hattends : ∀ other thread,
      Function.update sys.threads tid (stretch.2.thread call) other = some thread →
      (∀ pc, Attends sys.world pc → pc = thread.pc → Attends (settled call stretch) pc) →
      Attends (settled call stretch) thread.pc := by
    intro other thread hthread hkeeps
    simp only [Function.update_apply] at hthread
    split at hthread
    · exact hown thread hthread
    · exact hkeeps _ (hinv.attends other thread hthread) rfl
  rcases hserves.moves with hcleared | ⟨after, hkept, hleft⟩
  · have hquiet := hundisturbed (hclearings.trans_ne hcleared.symm)
    refine ⟨hstream, hwithin, ?_, ?_, hfollows.copies hinv.copies,
      hfollows.publishes hinv.publishes⟩
    · intro other thread hthread
      refine hattends other thread hthread ?_
      rintro _ hold rfl
      exact hold.of_queueWait (hquiet other thread hthread) _
    · have hnone : ({ sys with
          world := settled call stretch
          threads := Function.update sys.threads tid (stretch.2.thread call) } : Sys).left =
          fun _ => 0 := by
        funext other
        simp only [Sys.left]
        cases hthread : Function.update sys.threads tid (stretch.2.thread call) other with
        | none => rfl
        | some thread => exact Pc.left_of_queueWait (hquiet other thread hthread)
      rw [hnone]
      exact .zero _
  · have hzero : sys.world.mgr.missing = 0 → before = 0 := by
      intro hmissing
      have hle := hcovered.single tid
      rw [Function.update_self] at hle
      omega
    refine ⟨hstream, hwithin, ?_, ?_, hfollows.copies hinv.copies,
      hfollows.publishes hinv.publishes⟩
    · intro other thread hthread
      refine hattends other thread hthread ?_
      rintro _ hold rfl
      exact (hold.kept hkept hzero).of_mgr hmgr
    · rw [Sys.left_update]
      dsimp only
      rw [hmgr, ← Function.update_idem before]
      refine hcovered.update tid ?_
      have hbudget := hkept.budget
      rw [Function.update_self]
      obtain ⟨next, outcome⟩ := stretch
      cases outcome with
      | park pc =>
          have hle := hleft pc rfl
          simp only [Outcome.thread, Option.map_some, Option.getD_some] at hbudget ⊢
          omega
      | done reply =>
          simp only [Outcome.thread, Option.map_none, Option.getD_none] at hbudget ⊢
          omega

/-- The writer and its `write` calls leave the callers alone. -/
theorem QueueInv.of_writer {sys : Sys} {next : World} {writer : WriterPc} (hinv : QueueInv sys)
    (hstream : Stream next writer) {elapsedNs : ℕ}
    (hslot : next.mgr.slot = { sys.world.mgr.slot with writeElapsedNs := elapsedNs })
    (hbuffered : next.mgr.queue.buffered = sys.world.mgr.queue.buffered)
    (hfollows : Follows sys.world next) : QueueInv { sys with world := next, writer } := by
  have hmissing : next.mgr.missing = sys.world.mgr.missing := by
    simp only [Manager.missing, hslot]
  have hkept : Kept sys.world next 0 0 := by
    refine ⟨?_, hmissing.ge, ?_⟩
    · intro id hholds
      refine ⟨?_, ?_, ?_⟩ <;> rw [hslot]
      · exact hholds.occupied
      · exact hholds.started
      · exact hholds.uploadId_eq
    · intro _ _ _ hzero hempty
      exact ⟨hmissing.trans hzero, hbuffered.trans hempty⟩
  refine ⟨hstream, ?_, ?_, ?_, hfollows.copies hinv.copies, hfollows.publishes hinv.publishes⟩
  · rw [hslot]
    exact hinv.within
  · intro tid thread hthread
    exact (hinv.attends tid thread hthread).kept hkept fun _ => rfl
  · exact hmissing ▸ hinv.covered

theorem queueInv_step {sys next : Sys} {action : Action} (hinv : QueueInv sys)
    (horderly : Orderly sys action) (hstep : step sys action = some next) : QueueInv next := by
  have hundisturbed := horderly.undisturbed next hstep
  cases step_stepped hstep with
  | @call tid call env hfree =>
      have hqueued := horderly.queued tid call env rfl
      have hserves := enterCall_serves hinv.stream hinv.within hqueued env
      refine hinv.settle hserves ?_ hundisturbed
      cases call with
      | write id data =>
          by_cases hasks : sys.world.mgr.slot.occupied = true ∧
              sys.world.mgr.slot.uploadId = id ∧ data.length ≤ sys.world.mgr.missing
          · have hcovered := horderly.fits tid id data env rfl hasks.1 hasks.2.1 hasks.2.2
            have hle := hasks.2.2
            refine hcovered.update tid ?_
            simp only [Call.asks, if_pos hasks]
            omega
          · simp only [Call.asks, if_neg hasks]
            exact hinv.covered.update tid (Nat.le_add_right ..)
      | _ => exact hinv.covered.update tid (Nat.le_add_right ..)
  | @resume tid env thread stretch hthread hresume =>
      have hleft := Sys.left_thread hthread
      have hle := hinv.covered.single tid
      have hattends := hinv.attends tid thread hthread
      have hserves := resume_serves hinv.stream hinv.within hattends (hleft ▸ hle) hresume
      refine hinv.settle hserves ?_ hundisturbed
      rw [← hleft, Function.update_eq_self]
      exact hinv.covered
  | @directIo tid _ _ _ _ _ _ _ hthread hio => exact (hinv.attends tid _ hthread).elim
  | @hashFinish tid _ _ _ _ _ _ hthread hhash => exact (hinv.attends tid _ hthread).elim
  | @hashChunks tid _ _ _ _ _ hthread hhash => exact (hinv.attends tid _ hthread).elim
  | pick hwriter hjob =>
      exact hinv.of_writer (stream_pick (hwriter ▸ hinv.stream) hjob) rfl rfl (.of_trace rfl)
  | @writerIo result job done bytes fs count error hwriter hbytes hio =>
      have hstream := stream_writerIo (hwriter ▸ hinv.stream) hbytes hio
      cases error with
      | none => exact hinv.of_writer hstream rfl rfl (.of_trace rfl)
      | some error =>
          refine hinv.of_writer (stream_note hstream rfl) rfl rfl ?_
          have hnote : Follows sys.world (sys.world.note .writeFailed) :=
            .note (fun _ h => by cases h) fun _ h => by cases h
          exact hnote.trans (.of_trace rfl)
  | @complete elapsedNs job done error hwriter hdone =>
      have hstream := hwriter ▸ hinv.stream
      obtain ⟨-, -, rfl, -⟩ := hstream.fits
      exact hinv.of_writer (stream_completeJob hstream hdone elapsedNs) rfl rfl (.of_trace rfl)

theorem queueInv_run {host : Bool} {destination : CString}
    {maxFileBytes maxFiles leaseSeconds : ℕ} {override : Option CString} {fs : Fs}
    {actions : List Action} {sys : Sys}
    (hrun : Run step Orderly
      (.initial host destination maxFileBytes maxFiles leaseSeconds override fs) actions sys) :
    QueueInv sys :=
  hrun.invariant (fun _ _ _ => queueInv_step) (queueInv_initial ..)

/-! ## A single caller -/

/-- Only `tid` calls, and only for a queued upload. -/
def Solo (tid : ℕ) (_ : Sys) : Action → Prop
  | .call caller call _ => caller = tid ∧ call.queued = true
  | _ => True

/-- Nobody but `tid` is in a call. -/
def Sys.Alone (sys : Sys) (tid : ℕ) : Prop := ∀ other, other ≠ tid → sys.threads other = none

theorem Sys.Alone.settle {sys : Sys} {tid : ℕ} (h : sys.Alone tid) (call : Call)
    (stretch : World × Outcome) : (sys.settle tid call stretch).Alone tid := by
  intro other hother
  rw [settle_eq]
  exact (Function.update_of_ne hother ..).trans (h other hother)

theorem Sys.Alone.tid_eq {sys : Sys} {tid other : ℕ} {thread : Thread} (h : sys.Alone tid)
    (hthread : sys.threads other = some thread) : other = tid := by
  by_contra hother
  cases (h other hother).symm.trans hthread

/-- A call that clears the slot does not sleep on the queue behind it. -/
theorem Serves.undisturbed {sys : Sys} {tid : ℕ} {call : Call} {stretch : World × Outcome}
    (hserves : Serves sys.world sys.writer before stretch) (halone : sys.Alone tid)
    (hcleared : clearings (sys.settle tid call stretch).world.trace ≠ clearings sys.world.trace)
    {other : ℕ} {thread : Thread}
    (hthread : (sys.settle tid call stretch).threads other = some thread) :
    thread.pc.queueWait = false := by
  obtain rfl := (halone.settle call stretch).tid_eq hthread
  obtain ⟨-, -, -, hclearings⟩ := hserves.settled call
  rw [settle_eq] at hthread hcleared
  have hawake := hserves.awake (hclearings.symm.trans_ne hcleared).symm
  dsimp only at hthread
  rw [Function.update_self] at hthread
  obtain ⟨next, outcome⟩ := stretch
  cases outcome with
  | park pc =>
      cases hthread
      exact hawake.parked pc rfl
  | done reply => cases hthread

theorem orderly_of_solo {sys next : Sys} {tid : ℕ} {action : Action} (hinv : QueueInv sys)
    (halone : sys.Alone tid) (hsolo : Solo tid sys action) (hstep : step sys action = some next) :
    Orderly sys action ∧ next.Alone tid := by
  have hnoCall : (∀ caller call env, action ≠ .call caller call env) →
      (∀ next', step sys action = some next' →
        clearings next'.world.trace ≠ clearings sys.world.trace →
        ∀ other thread, next'.threads other = some thread → thread.pc.queueWait = false) →
      Orderly sys action := by
    intro hne hundisturbed
    refine ⟨?_, hundisturbed, ?_⟩
    · intro caller call env h
      exact absurd h (hne caller call env)
    · intro caller id data env h
      exact absurd h (hne caller _ env)
  cases step_stepped hstep with
  | @call caller call env hfree =>
      obtain ⟨rfl, hqueued⟩ := hsolo
      refine ⟨⟨?_, ?_, ?_⟩, halone.settle _ _⟩
      · rintro _ _ _ ⟨⟩
        exact hqueued
      · intro next' hstep' hcleared other thread hthread
        cases hstep.symm.trans hstep'
        exact (enterCall_serves hinv.stream hinv.within hqueued env).undisturbed halone hcleared
          hthread
      · rintro _ id data env ⟨⟩ _ _ _
        have hnone : sys.left = fun _ => 0 := by
          funext other
          by_cases hother : other = caller
          · simp [Sys.left, hother, hfree]
          · simp [Sys.left, halone other hother]
        rw [hnone]
        exact .zero _
  | @resume other env thread stretch hthread hresume =>
      obtain rfl := halone.tid_eq hthread
      refine ⟨hnoCall (fun _ _ _ h => by cases h) ?_, halone.settle _ _⟩
      intro next' hstep' hcleared other' thread' hthread'
      cases hstep.symm.trans hstep'
      have hle := hinv.covered.single other
      rw [Sys.left_thread hthread] at hle
      exact (resume_serves hinv.stream hinv.within (hinv.attends _ _ hthread) hle
        hresume).undisturbed halone hcleared hthread'
  | @directIo other _ _ _ _ _ _ _ hthread hio => exact (hinv.attends other _ hthread).elim
  | @hashFinish other _ _ _ _ _ _ hthread hhash => exact (hinv.attends other _ hthread).elim
  | @hashChunks other _ _ _ _ _ hthread hhash => exact (hinv.attends other _ hthread).elim
  | pick hwriter hjob =>
      refine ⟨hnoCall (fun _ _ _ h => by cases h) ?_, halone⟩
      intro next' hstep' hcleared
      cases hstep.symm.trans hstep'
      exact absurd rfl hcleared
  | @writerIo result job done bytes fs count error hwriter hbytes hio =>
      refine ⟨hnoCall (fun _ _ _ h => by cases h) ?_, halone⟩
      intro next' hstep' hcleared
      cases hstep.symm.trans hstep'
      refine absurd ?_ hcleared
      dsimp only
      split <;> rfl
  | @complete elapsedNs job done error hwriter hdone =>
      refine ⟨hnoCall (fun _ _ _ h => by cases h) ?_, halone⟩
      intro next' hstep' hcleared
      cases hstep.symm.trans hstep'
      have hstream := hwriter ▸ hinv.stream
      obtain ⟨-, -, rfl, -⟩ := hstream.fits
      exact absurd rfl hcleared

/-- With one caller every run is orderly. -/
theorem orderly_run_of_solo {host : Bool} {destination : CString}
    {maxFileBytes maxFiles leaseSeconds : ℕ} {override : Option CString} {fs : Fs}
    {actions : List Action} {sys : Sys} {tid : ℕ}
    (hrun : Run step (Solo tid)
      (.initial host destination maxFileBytes maxFiles leaseSeconds override fs) actions sys) :
    Run step Orderly
      (.initial host destination maxFileBytes maxFiles leaseSeconds override fs) actions sys ∧
      sys.Alone tid := by
  induction hrun with
  | nil => exact ⟨.nil, fun _ _ => rfl⟩
  | snoc _ hsolo hstep ih =>
      obtain ⟨horderly, halone⟩ := ih
      obtain ⟨hok, halone'⟩ := orderly_of_solo (queueInv_run horderly) halone hsolo hstep
      exact ⟨.snoc horderly hok hstep, halone'⟩

/-! ## A write behind a cleared slot -/

/-- Nothing keeps the writer or a write from going on. -/
structure Queue.Flows (queue : Queue) : Prop where
  error : queue.writerError = none
  discard : queue.writerDiscard = false
  shutdown : queue.writerShutdown = false

/-- A write of more than the ring has room for goes to sleep on it. -/
theorem writeLoop_parks {id : CString} {rest : Bytes} (h : Stream world writer)
    (hholds : Holds world id) (hflows : world.mgr.queue.Flows)
    (hempty : world.mgr.queue.content = [])
    (hlong : UPLOAD_WRITE_QUEUE_DEPTH * UPLOAD_WRITE_BUFFER_BYTES < rest.length)
    (activity : ℕ) :
    ∃ copied rest', rest' ≠ [] ∧ Fills writer id world copied (writeLoop world id rest activity).1 ∧
      (writeLoop world id rest activity).2 = .park (.writeFull id rest') := by
  have hspec : ∃ copied rest', rest = copied ++ rest' ∧
      Fills writer id world copied (writeLoop world id rest activity).1 ∧
      WriteEnds (writeLoop world id rest activity).1 id rest'
        (writeLoop world id rest activity).2 := writeLoop_spec h hholds activity
  obtain ⟨copied, rest', hsplit, hfills, hends⟩ := hspec
  generalize writeLoop world id rest activity = stretch at hfills hends
  obtain ⟨next, outcome⟩ := stretch
  have hrest : rest' ≠ [] := by
    -- what has been copied is in the ring, which is too small for all of it
    rintro rfl
    obtain ⟨file, hbacked⟩ := h.backed hholds.occupied
    obtain ⟨file', hbacked'⟩ := hfills.stream.backed hfills.holds.occupied
    obtain ⟨_, _, _, hslot⟩ := hfills.slot_eq
    have hfd : next.mgr.slot.fd = world.mgr.slot.fd := by rw [hslot]
    obtain rfl : file' = file := Option.some.inj (hbacked'.fd_eq.symm.trans
      (hfd.trans hbacked.fd_eq))
    have hbytes := hbacked.bytes hflows.error
    have hbytes' := hbacked'.bytes (hfills.error_eq.trans hflows.error)
    rw [hempty, List.drop_nil, List.append_nil] at hbytes
    rw [hfills.fs_eq, hfills.accepted_eq, hbytes] at hbytes'
    have hcontent := List.append_cancel_left hbytes'
    have hroom := Queue.content_length_le hfills.stream.queue
    rw [List.append_nil] at hsplit
    have hdrop := List.length_drop (i := writer.done) (l := next.mgr.queue.content)
    rw [hcontent, ← hsplit] at hdrop
    dsimp only at hroom
    omega
  refine ⟨copied, rest', hrest, hfills, ?_⟩
  cases hends with
  | full _ hfull => rfl
  | done hdone => exact absurd hdone hrest
  | failed error hstopped =>
      rcases hstopped with herror | hdiscard | hshutdown
      · cases hflows.error.symm.trans (hfills.error_eq.symm.trans herror)
      · cases hflows.discard.symm.trans (hfills.discard_eq.symm.trans hdiscard)
      · cases hflows.shutdown.symm.trans (hfills.shutdown_eq.symm.trans hshutdown)

theorem mem_trace_writeLoop {event : Event} (hmem : event ∈ world.trace) (id : CString)
    (rest : Bytes) (activity : ℕ) :
    event ∈ (writeLoop world id rest activity).1.trace := by
  fun_induction writeLoop world id rest activity with
  | case1 | case2 | case3 => exact hmem
  | case4 | case5 => exact List.mem_cons_of_mem _ hmem
  | case6 =>
      rename_i ih
      exact ih (List.mem_cons_of_mem _ hmem)
  | case7 =>
      rename_i ih
      exact ih (List.mem_cons_of_mem _ hmem)

/-- With room in the ring the loop copies, whatever upload the slot holds. -/
theorem writeLoop_copies {id : CString} {rest : Bytes} (hrest : rest ≠ [])
    (hspace : world.mgr.queue.writeQueued ≠ UPLOAD_WRITE_QUEUE_DEPTH)
    (herror : world.mgr.queue.writerError = none) (activity : ℕ) :
    ∃ copy : Copy, copy.occupied = world.mgr.slot.occupied ∧
      .copied copy ∈ (writeLoop world id rest activity).1.trace := by
  rw [writeLoop, dif_neg hrest, if_neg fun hfull => hspace hfull.1]
  split
  · rename_i error hfailed
    cases herror.symm.trans hfailed
  let copy : Copy := ⟨id, rest.take (world.mgr.queue.roundCount rest), world.mgr.slot.uploadId,
    world.mgr.slot.occupied, world.mgr.queue.writeTail, world.mgr.queue.writeHead,
    world.mgr.queue.writeQueued⟩
  have hcopied : .copied copy ∈ Event.copied copy :: world.trace := List.mem_cons_self ..
  refine ⟨copy, rfl, ?_⟩
  dsimp only
  split
  · split
    · exact hcopied
    · exact hcopied
    · exact mem_trace_writeLoop hcopied ..
  · exact mem_trace_writeLoop hcopied ..

theorem enterCall_write {id : CString} {data : Bytes} {env : Env}
    (hlease : leaseExpired world.mgr env.now = false) (hholds : Holds world id)
    (hle : world.mgr.slot.received ≤ world.mgr.slot.expectedSize)
    (hfits : data.length ≤ world.mgr.missing) :
    enterCall world (.write id data) env = writeLoop world id data env.activity := by
  have hlength : ¬sub64 world.mgr.slot.expectedSize world.mgr.slot.received < data.length := by
    rw [sub64, if_pos hle]
    exact Nat.not_lt.mpr hfits
  simp [enterCall, Call.refused, reapLocked, hlease, afterReap, uploadWrite, hholds.occupied,
    hholds.started, hholds.uploadId_eq, hlength]

/-- An abort looks at no lease and no binding; with the writer idle it clears at once. -/
theorem step_abort {sys : Sys} {tid : ℕ} {id : CString} (hstream : Stream sys.world .waiting)
    (hholds : Holds sys.world id) (hfree : sys.threads tid = none) (env : Env) :
    ∃ next, step sys (.call tid (.abort id) env) = some next ∧
      next.world.mgr.slot.occupied = false ∧ next.world.mgr.queue = sys.world.mgr.queue.cleared ∧
      ∀ other, other ≠ tid → next.threads other = sys.threads other := by
  have hidle : (clearStart sys.world).mgr.queue.writerActive = false := hstream.fits
  have henter : enterCall sys.world (.abort id) env =
      finishClosing (clearStart sys.world) .abort id env.clearIo := by
    simp [enterCall, Call.refused, awaitWrites, hstream.plain.writes, afterReap, uploadAbort,
      hstream.plain.finalizing, hholds.occupied, hholds.started, hholds.uploadId_eq, closeSlot,
      awaitClosing, hidle]
  refine ⟨sys.settle tid (.abort id) (finishClosing (clearStart sys.world) .abort id env.clearIo),
    ?_, rfl, rfl, ?_⟩
  · simp only [step, hfree, henter]
  · intro other hother
    exact Function.update_of_ne hother ..

theorem mem_trace_settle {sys : Sys} {tid : ℕ} {call : Call} {stretch : World × Outcome}
    {event : Event} (hmem : event ∈ stretch.1.trace) :
    event ∈ (sys.settle tid call stretch).world.trace := by
  obtain ⟨next, outcome⟩ := stretch
  cases outcome with
  | park pc => exact hmem
  | done reply => exact List.mem_cons_of_mem _ hmem

/-! ## Publications and copies in every orderly run -/

namespace Sample

/-- Upload 1 is prepared and begun. -/
def begun (length : ℕ) : List Action :=
  [prepare 0 1 length, .call 0 (.begin (uploadId 1) client authorization length) (env 0)]

def write (tid : ℕ) (data : Bytes) : Action := .call tid (.write (uploadId 1) data) (env 0)

def finish (tid : ℕ) : Action := .call tid (.finish (uploadId 1)) (env 0)

/-- The writer writes the one byte that is queued. -/
def drainByte : List Action := [.pick, .writerIo (.wrote 1), .complete 0]

/-- An upload of one byte by a single caller. -/
def oneByte : List Action := begun 1 ++ [write 0 [7], finish 0] ++ drainByte ++ [.resume 0 (env 0)]

/-- The finish of upload 1 sleeps until its byte is on disk; before it wakes up, upload 1 is
cancelled and upload 2 of five bytes prepared. -/
def lateFinish : List Action :=
  begun 1 ++ [write 0 [7], finish 1] ++ drainByte ++
    [cancel 2 1, prepare 2 2 5, .resume 1 (env 0)]

/-- One byte more than the ring holds. -/
def overfull : ℕ := UPLOAD_WRITE_QUEUE_DEPTH * UPLOAD_WRITE_BUFFER_BYTES + 1

/-- A write of upload 1 fills the ring and sleeps; upload 1 is aborted, and the write wakes
up. -/
def lateWrite : List Action :=
  [write 1 (.replicate overfull 7), .call 2 (.abort (uploadId 1)) (env 0), .resume 1 (env 0)]

/-- The system with upload 1 begun. -/
def opened : Sys := (exec step (start 60) (begun overfull)).get (by decide +kernel)

end Sample

/-- In an orderly run every publication that is reached is of the upload named, which is
complete, error-free and on disk. -/
theorem publishesOwn_of_orderly {host : Bool} {destination : CString}
    {maxFileBytes maxFiles leaseSeconds : ℕ} {override : Option CString} {fs : Fs}
    {actions : List Action} {sys : Sys}
    (hrun : Run step Orderly
      (.initial host destination maxFileBytes maxFiles leaseSeconds override fs) actions sys) :
    PublishesOwn sys.world.trace :=
  (queueInv_run hrun).publishes

open Sample in
/-- The upload of one byte is published whole. -/
theorem publishesOwn_oneByte :
    ∃ sys, exec step (start 60) oneByte = some sys ∧
      sys.world.fs.contents [47, 100, 47, 102] = some [7] ∧ PublishesOwn sys.world.trace := by
  have hrun : ∃ sys, exec step (start 60) oneByte = some sys ∧
      sys.world.fs.contents [47, 100, 47, 102] = some [7] :=
    exists_of_exec (by decide +kernel)
  obtain ⟨sys, hexec, hcontents⟩ := hrun
  have hsolo : ∀ action ∈ oneByte, ∀ sys, Solo 0 sys action := by
    simp [oneByte, begun, drainByte, prepare, write, finish, Solo, Call.queued]
  have horderly := (orderly_run_of_solo (Run.of_exec hsolo hexec)).1
  exact ⟨sys, hexec, hcontents, publishesOwn_of_orderly horderly⟩

/-- Every publication reached was of the upload named. -/
theorem PublishesOwn.own {trace : List Event} (h : PublishesOwn trace) {publish : Publish}
    (hmem : .publishing publish ∈ trace) : publish.uploadId = publish.requested := by
  induction trace with
  | nil => cases hmem
  | cons event trace ih =>
      rcases List.mem_cons.mp hmem with rfl | hlater
      · exact h.1.own
      · cases event with
        | publishing other => exact ih h.2 hlater
        | _ => exact ih h hlater

open Sample in
/-- The finish that slept publishes the upload prepared in the meantime. -/
theorem lateFinish_publishes_other :
    ∃ sys, exec step (start 60) lateFinish = some sys ∧ ¬PublishesOwn sys.world.trace := by
  have hrun : ∃ sys, exec step (start 60) lateFinish = some sys ∧
      sys.world.trace.any (fun event => match event with
        | .publishing publish => publish.uploadId != publish.requested
        | _ => false) = true :=
    exists_of_exec (by decide +kernel)
  obtain ⟨sys, hexec, hany⟩ := hrun
  refine ⟨sys, hexec, fun hown => ?_⟩
  obtain ⟨event, hmem, hother⟩ := List.any_eq_true.mp hany
  cases event with
  | publishing publish =>
      have hsame := hown.own hmem
      simp [hsame] at hother
  | _ => cases hother

/-- In an orderly run every byte goes into the upload it was sent for, and what a slot has
received is accounted for. -/
theorem copiesOwn_of_orderly {host : Bool} {destination : CString}
    {maxFileBytes maxFiles leaseSeconds : ℕ} {override : Option CString} {fs : Fs}
    {actions : List Action} {sys : Sys}
    (hrun : Run step Orderly
      (.initial host destination maxFileBytes maxFiles leaseSeconds override fs) actions sys) :
    CopiesOwn sys.world.trace ∧ Accounted sys.world.mgr := by
  have hinv := queueInv_run hrun
  refine ⟨hinv.copies, hinv.within, ?_⟩
  intro hfresh
  have hstarted : sys.world.mgr.slot.started = false := by
    rcases hfresh with hfree | hstarted
    · exact hinv.stream.unstarted hfree
    · exact hstarted
  have hunused := hinv.stream.unused hstarted
  exact ⟨hunused.received, hunused.buffered⟩

open Sample in
/-- A write of one byte is accounted for. -/
theorem copiesOwn_oneByte :
    ∃ sys, exec step (start 60) (begun 1 ++ [write 0 [7]]) = some sys ∧
      sys.world.mgr.slot.received = 1 ∧ CopiesOwn sys.world.trace ∧ Accounted sys.world.mgr := by
  have hrun : ∃ sys, exec step (start 60) (begun 1 ++ [write 0 [7]]) = some sys ∧
      sys.world.mgr.slot.received = 1 :=
    exists_of_exec (by decide +kernel)
  obtain ⟨sys, hexec, hreceived⟩ := hrun
  have hsolo : ∀ action ∈ begun 1 ++ [write 0 [7]], ∀ sys, Solo 0 sys action := by
    simp [begun, prepare, write, Solo, Call.queued]
  have horderly := (orderly_run_of_solo (Run.of_exec hsolo hexec)).1
  exact ⟨sys, hexec, hreceived, copiesOwn_of_orderly horderly⟩

open Sample in
/-- The write that slept copies the rest of its bytes into a free slot. -/
theorem lateWrite_copies_stray :
    ∃ sys, exec step (start 60) (begun overfull ++ lateWrite) = some sys ∧
      ¬CopiesOwn sys.world.trace := by
  have hbegun : exec step (start 60) (begun overfull) = some opened := (Option.some_get _).symm
  have hsolo : ∀ action ∈ begun overfull, ∀ sys, Solo 0 sys action := by
    simp [begun, prepare, Solo, Call.queued]
  have hinv := queueInv_run (orderly_run_of_solo (Run.of_exec hsolo hbegun)).1
  have hwriter : opened.writer = .waiting := by decide +kernel
  have hstream : Stream opened.world .waiting := hwriter ▸ hinv.stream
  have hholds : Holds opened.world (uploadId 1) :=
    ⟨by decide +kernel, by decide +kernel, by decide +kernel⟩
  have hempty : opened.world.mgr.queue.content = [] :=
    Queue.content_of_empty (by decide +kernel) (by decide +kernel)
  have hmissing : opened.world.mgr.missing = overfull := by decide +kernel
  obtain ⟨data, hdata⟩ : ∃ data, data = List.replicate overfull (7 : UInt8) := ⟨_, rfl⟩
  have hlength : data.length = overfull := by rw [hdata, List.length_replicate]
  have henter : enterCall opened.world (.write (uploadId 1) data) (env 0) =
      writeLoop opened.world (uploadId 1) data (env 0).activity :=
    enterCall_write (by decide +kernel) hholds hinv.within (hlength.trans hmissing.symm).le
  have hlong : UPLOAD_WRITE_QUEUE_DEPTH * UPLOAD_WRITE_BUFFER_BYTES < data.length := by
    rw [hlength]
    exact Nat.lt_succ_self _
  obtain ⟨copied, rest, hrest, hfills, hpark⟩ := writeLoop_parks hstream hholds
    ⟨by decide +kernel, by decide +kernel, by decide +kernel⟩ hempty hlong (env 0).activity
  rw [← henter] at hfills hpark
  have hfree : ∀ tid < 3, opened.threads tid = none := by
    simp only [← Option.isNone_iff_eq_none]
    decide +kernel
  have hwrite : step opened (write 1 data) = some (opened.settle 1 (.write (uploadId 1) data)
      (enterCall opened.world (.write (uploadId 1) data) (env 0))) := by
    simp only [step, write, hfree 1 (by decide)]
  generalize enterCall opened.world (.write (uploadId 1) data) (env 0) = stretch
    at hfills hpark hwrite
  obtain ⟨full, outcome⟩ := stretch
  cases hpark
  let parked := opened.settle 1 (.write (uploadId 1) data)
    (full, .park (.writeFull (uploadId 1) rest))
  have hstream' : Stream parked.world .waiting := hfills.stream
  have hfree' : parked.threads 2 = none := hfree 2 (by decide)
  obtain ⟨cleared, habort, hoccupied, hqueue, hothers⟩ := step_abort hstream' hfills.holds hfree'
    (env 0)
  have hthread : cleared.threads 1 = some ⟨.write (uploadId 1) data,
      .writeFull (uploadId 1) rest⟩ := hothers 1 (by decide)
  have hresume : step cleared (.resume 1 (env 0)) =
      some (cleared.settle 1 (.write (uploadId 1) data)
        (writeLoop cleared.world (uploadId 1) rest (env 0).activity)) := by
    simp only [step, hthread, resume, Option.map_some]
  have hspace : cleared.world.mgr.queue.writeQueued ≠ UPLOAD_WRITE_QUEUE_DEPTH := by
    rw [hqueue]
    change 0 ≠ UPLOAD_WRITE_QUEUE_DEPTH
    decide
  have herror : cleared.world.mgr.queue.writerError = none := by
    rw [hqueue]
    rfl
  have hcopies : ∃ copy : Copy, copy.occupied = cleared.world.mgr.slot.occupied ∧
      .copied copy ∈ (writeLoop cleared.world (uploadId 1) rest (env 0).activity).1.trace :=
    writeLoop_copies hrest hspace herror _
  obtain ⟨copy, hcopy, hmem⟩ := hcopies
  refine ⟨cleared.settle 1 (.write (uploadId 1) data)
    (writeLoop cleared.world (uploadId 1) rest (env 0).activity), ?_, fun hown => ?_⟩
  · rw [exec_append, hbegun, Option.bind_some, lateWrite, ← hdata, exec_cons hwrite,
      exec_cons habort, exec_cons hresume]
    rfl
  · have howned := (hown copy (mem_trace_settle hmem)).1
    rw [hcopy, hoccupied] at howned
    cases howned

end LocalSend.Upload
