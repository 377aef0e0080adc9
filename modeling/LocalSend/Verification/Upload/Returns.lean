import LocalSend.Verification.Upload.Destination
import LocalSend.Verification.Upload.Geometry

/-! # What a call leaves behind

An upload that is being received, or finished, or has a chunk being received, is something a
caller has to see to. Each call is classed by what it leaves of that: only the begin calls add to
it, and the calls that end a stream leave nothing of it.
-/

namespace LocalSend.Upload

/-! ## What is under way -/

/-- The whole file of this upload is being received. -/
def Manager.Streams (manager : Manager) (id : CString) : Prop :=
  manager.slot.occupied = true ∧ manager.slot.uploadId = id ∧ manager.slot.started = true ∧
    manager.chunks.chunkTransport = false

/-- A finish of this upload has set its marker. -/
def Manager.Finalizes (manager : Manager) (id : CString) : Prop :=
  manager.slot.occupied = true ∧ manager.slot.uploadId = id ∧
    manager.chunks.finalizingChunks = true

/-- A chunk of this upload is being received. -/
def Manager.Receives (manager : Manager) (id : CString) (index : ℕ) : Prop :=
  manager.slot.occupied = true ∧ manager.slot.uploadId = id ∧
    manager.chunks.chunkStates index = .receiving

/-- The upload in the slot belongs to this client and authorization. -/
def Manager.Owned (manager : Manager) (client authorization : CString) : Prop :=
  manager.slot.occupied = true ∧ manager.slot.client = client ∧
    manager.slot.authorization = authorization

/-- A free slot has nothing under way, and a chunk that is being received has its buffer. -/
structure Sound (manager : Manager) : Prop where
  vacant : manager.slot.occupied = false →
    manager.slot.started = false ∧ manager.chunks.finalizingChunks = false
  tables : manager.slot.occupied = true →
    manager.chunks.chunkCount = chunkCountFor manager.slot.expectedSize ∧
      (0 < manager.chunks.chunkCount → manager.chunks.chunkArrays = true)
  receiving : ∀ index, manager.chunks.chunkStates index = .receiving →
    manager.slot.occupied = true ∧ manager.slot.started = true ∧
      index < manager.chunks.chunkCount ∧ (manager.chunks.chunkBuffers index).isSome = true

/-- Nothing new is under way. -/
structure Quiet (manager next : Manager) : Prop where
  sound : Sound manager → Sound next
  discards : next.queue.writerDiscard = true → manager.queue.writerDiscard = true
  streams : ∀ id, next.Streams id → manager.Streams id
  finalizes : ∀ id, next.Finalizes id → manager.Finalizes id
  receives : ∀ id index, next.Receives id index → manager.Receives id index
  owned : ∀ client authorization, next.Owned client authorization →
    manager.Owned client authorization

/-- All of a manager that `Quiet` looks at, but for the single chunks. -/
def Manager.flags (manager : Manager) :=
  (manager.slot.occupied, manager.slot.uploadId, manager.slot.client, manager.slot.authorization,
    manager.slot.started, manager.slot.expectedSize, manager.queue.writerDiscard,
    manager.chunks.chunkTransport, manager.chunks.finalizingChunks, manager.chunks.chunkCount,
    manager.chunks.chunkArrays)

variable {manager middle next : Manager}

theorem Quiet.refl (manager : Manager) : Quiet manager manager :=
  ⟨fun h => h, fun h => h, fun _ h => h, fun _ h => h, fun _ _ h => h, fun _ _ h => h⟩

theorem Quiet.trans (hfirst : Quiet manager middle) (hsecond : Quiet middle next) :
    Quiet manager next where
  sound h := hsecond.sound (hfirst.sound h)
  discards h := hfirst.discards (hsecond.discards h)
  streams id h := hfirst.streams id (hsecond.streams id h)
  finalizes id h := hfirst.finalizes id (hsecond.finalizes id h)
  receives id index h := hfirst.receives id index (hsecond.receives id index h)
  owned client authorization h := hfirst.owned client authorization (hsecond.owned _ _ h)

/-- Only chunks are changed that are not being received behind it, and none loses its buffer
that is. -/
theorem Quiet.of_flags (hflags : next.flags = manager.flags)
    (hchunks : ∀ index, next.chunks.chunkStates index = .receiving →
      manager.chunks.chunkStates index = .receiving ∧
        ((manager.chunks.chunkBuffers index).isSome = true →
          (next.chunks.chunkBuffers index).isSome = true)) : Quiet manager next := by
  simp only [Manager.flags, Prod.mk.injEq] at hflags
  obtain ⟨hoccupied, hid, hclient, hauthorization, hstarted, hexpected, hdiscard, htransport,
    hfinalizing, hcount, harrays⟩ := hflags
  constructor
  · intro h
    constructor
    · rw [hoccupied, hstarted, hfinalizing]
      exact h.vacant
    · rw [hoccupied, hcount, hexpected, harrays]
      exact h.tables
    · intro index hindex
      obtain ⟨hbefore, hbuffer⟩ := hchunks index hindex
      rw [hoccupied, hstarted, hcount]
      obtain ⟨hoccupied, hstarted, hlt, hsome⟩ := h.receiving index hbefore
      exact ⟨hoccupied, hstarted, hlt, hbuffer hsome⟩
  · exact fun h => hdiscard.symm.trans h
  · intro id
    simp only [Manager.Streams, hoccupied, hid, hstarted, htransport]
    exact fun h => h
  · intro id
    simp only [Manager.Finalizes, hoccupied, hid, hfinalizing]
    exact fun h => h
  · rintro id index ⟨h, rfl, hindex⟩
    exact ⟨hoccupied ▸ h, hid.symm, (hchunks index hindex).1⟩
  · intro client authorization
    simp only [Manager.Owned, hoccupied, hclient, hauthorization]
    exact fun h => h

theorem Quiet.of_same (hflags : next.flags = manager.flags)
    (hchunks : next.chunks.chunkStates = manager.chunks.chunkStates ∧
      next.chunks.chunkBuffers = manager.chunks.chunkBuffers) : Quiet manager next := by
  refine .of_flags hflags fun index hindex => ?_
  rw [hchunks.1] at hindex
  rw [hchunks.2]
  exact ⟨hindex, fun h => h⟩

/-- A free slot in which no chunk is being received. -/
theorem Quiet.of_vacant (hvacant : next.slot.occupied = false)
    (hdiscards : next.queue.writerDiscard = true → manager.queue.writerDiscard = true)
    (hsound : Sound manager → next.slot.started = false ∧ next.chunks.finalizingChunks = false ∧
      ∀ index, next.chunks.chunkStates index ≠ .receiving) : Quiet manager next where
  sound h := by
    obtain ⟨hstarted, hfinalizing, hchunks⟩ := hsound h
    exact ⟨fun _ => ⟨hstarted, hfinalizing⟩, fun h => absurd (hvacant.symm.trans h) (by decide),
      fun index h => absurd h (hchunks index)⟩
  discards := hdiscards
  streams id h := absurd (hvacant.symm.trans h.1) (by decide)
  finalizes id h := absurd (hvacant.symm.trans h.1) (by decide)
  receives id index h := absurd (hvacant.symm.trans h.1) (by decide)
  owned client authorization h := absurd (hvacant.symm.trans h.1) (by decide)

variable {world : World} {call : Call} {stretch : World × Outcome}

/-! ## Updates -/

/-- Whatever the slot was, it is empty behind a `clear_slot`. -/
theorem quiet_clearRest (manager : Manager) (world : World) (origin : Origin) (target : CString)
    (io : ClearIo) : Quiet manager (clearRest world origin target io).1.mgr :=
  .of_vacant rfl (fun h => by cases h) fun _ => ⟨rfl, rfl, fun _ h => by cases h⟩

theorem quiet_setQueue {queue : Queue} (h : queue.writerDiscard = world.mgr.queue.writerDiscard) :
    Quiet world.mgr (world.setQueue queue).mgr := by
  refine .of_same ?_ ⟨rfl, rfl⟩
  simp only [Manager.flags, World.setQueue, h]

theorem quiet_enqueue {queue : Queue}
    (h : enqueueWriteBufferLocked world.mgr.queue = .ok queue) :
    Quiet world.mgr (world.setQueue queue).mgr := by
  refine quiet_setQueue ?_
  unfold enqueueWriteBufferLocked at h
  split at h
  · cases h
    rfl
  · grind

theorem quiet_drop (h : world.mgr.chunks.chunkStates = manager.chunks.chunkStates)
    (hbuffers : world.mgr.chunks.chunkBuffers = manager.chunks.chunkBuffers) (index : ℕ)
    (hflags : world.mgr.flags = manager.flags) :
    Quiet manager (dropChunk world index).mgr := by
  refine .of_flags (Eq.trans rfl hflags) fun other hother => ?_
  simp only [dropChunk, Chunks.drop] at hother ⊢
  by_cases heq : other = index
  · subst heq
    rw [Function.update_self] at hother
    cases hother
  · rw [Function.update_of_ne heq] at hother ⊢
    exact ⟨h ▸ hother, fun hsome => hbuffers ▸ hsome⟩

theorem quiet_publishSlot (world : World) (id digest : CString) (elapsed : ℕ) (env : Env) :
    Quiet world.mgr (publishSlot world id digest elapsed env).1.mgr := by
  simp only [publishSlot]
  split
  · exact .refl _
  split
  · exact .refl _
  split
  · exact .of_same rfl ⟨rfl, rfl⟩
  split <;> exact .of_same rfl ⟨rfl, rfl⟩

/-! ## Calls and the points they park at -/

/-- The finish that has set its marker for this upload. -/
def Pc.finishes : Pc → Option CString
  | .finishHash id _ _ => some id
  | .finishHashed id _ _ => some id
  | .chunksDrain id => some id
  | .chunksHash id _ => some id
  | .chunksHashed id _ => some id
  | _ => none

/-- The call will see to the end of this upload: it has set the marker, or clears the slot. -/
def Pc.Settles (pc : Pc) (id : CString) : Prop :=
  pc.finishes = some id ∨ pc.clears.map Prod.snd = some id

/-- The points a call can park at. -/
def Pc.Fits (call : Call) : Pc → Prop
  | .reaping parked _ => parked = call
  | .superseding client authorization _ _ => ∃ json, call = .prepare client authorization json
  | .clearing _ _ => True
  | .waitingWrites parked => parked = call
  | .writeFull _ _ => ∃ id data, call = .write id data
  | .writeEnqueue _ _ => ∃ id data, call = .write id data
  | .directWriting _ _ _ => ∃ id data, call = .writeDirect id data
  | .finishEnqueue id => call = .finish id
  | .finishDrain id => call = .finish id
  | .finishHash id _ _ => call = .finish id
  | .finishHashed id _ _ => call = .finish id
  | .chunksDrain id => ∃ client authorization, call = .finishChunks id client authorization
  | .chunksHash id _ => ∃ client authorization, call = .finishChunks id client authorization
  | .chunksHashed id _ => ∃ client authorization, call = .finishChunks id client authorization

/-- What a call that ends a stream leaves: nothing of it, or a finish that has its marker set. A
chunk ends at its own offset. -/
def Call.Closes (manager : Manager) : Call → Prop
  | .finish id => ¬manager.Streams id
  | .abort id => manager.Streams id → manager.Finalizes id
  | .chunkFinish id offset length =>
      length ≠ 0 → offset % UPLOAD_CHUNK_BYTES = 0 →
        ¬manager.Receives id (offset / UPLOAD_CHUNK_BYTES)
  | .chunkAbort id offset _ =>
      offset % UPLOAD_CHUNK_BYTES = 0 → ¬manager.Receives id (offset / UPLOAD_CHUNK_BYTES)
  | _ => True

/-- The call has parked where it will see to the end of this upload. -/
def Outcome.Settling (outcome : Outcome) (id : CString) : Prop :=
  ∃ pc, outcome = .park pc ∧ pc.Settles id

/-- The call has parked in a `clear_slot`. -/
def Outcome.Clearing (outcome : Outcome) : Prop :=
  ∃ pc, outcome = .park pc ∧ pc.clears ≠ none

/-- What a stretch of a call leaves under way that was not before. -/
structure Fulfils (call : Call) (world : World) (stretch : World × Outcome) : Prop where
  sound : Sound stretch.1.mgr
  discards : stretch.1.mgr.queue.writerDiscard = true →
    world.mgr.queue.writerDiscard = true ∨ stretch.2.Clearing
  streams : ∀ id, stretch.1.mgr.Streams id → world.mgr.Streams id ∨
    ∃ client authorization length, call = .begin id client authorization length ∧
      stretch.2 = .of .ok
  finalizes : ∀ id, stretch.1.mgr.Finalizes id →
    world.mgr.Finalizes id ∨ stretch.2.Settling id
  receives : ∀ id index, stretch.1.mgr.Receives id index → world.mgr.Receives id index ∨
    ∃ client authorization total offset length,
      call = .chunkBegin id client authorization total offset length ∧ stretch.2 = .of .ok ∧
        offset % UPLOAD_CHUNK_BYTES = 0 ∧ offset / UPLOAD_CHUNK_BYTES = index ∧ length ≠ 0
  owned : ∀ client authorization, stretch.1.mgr.Owned client authorization →
    world.mgr.Owned client authorization ∨ ∃ json, call = .prepare client authorization json
  closes : ∀ reply, stretch.2 = .done reply → call.Closes stretch.1.mgr
  fits : ∀ pc, stretch.2 = .park pc → pc.Fits call

/-- Behind this the call still sees to the upload, or the upload is no longer under way. -/
def Relinquishes (id : CString) (stretch : World × Outcome) : Prop :=
  stretch.2.Settling id ∨ ¬stretch.1.mgr.Streams id ∧ ¬stretch.1.mgr.Finalizes id

/-- A stretch that adds nothing. -/
theorem Quiet.fulfils (hquiet : Quiet world.mgr stretch.1.mgr) (hsound : Sound world.mgr)
    (hcloses : ∀ reply, stretch.2 = .done reply → call.Closes stretch.1.mgr)
    (hfits : ∀ pc, stretch.2 = .park pc → pc.Fits call) : Fulfils call world stretch where
  sound := hquiet.sound hsound
  discards h := .inl (hquiet.discards h)
  streams id h := .inl (hquiet.streams id h)
  finalizes id h := .inl (hquiet.finalizes id h)
  receives id index h := .inl (hquiet.receives id index h)
  owned client authorization h := .inl (hquiet.owned client authorization h)
  closes := hcloses
  fits := hfits

theorem Fulfils.after {middle : World} (hquiet : Quiet world.mgr middle.mgr)
    (h : Fulfils call middle stretch) : Fulfils call world stretch where
  sound := h.sound
  discards hdiscard := (h.discards hdiscard).imp_left hquiet.discards
  streams id hid := (h.streams id hid).imp_left (hquiet.streams id)
  finalizes id hid := (h.finalizes id hid).imp_left (hquiet.finalizes id)
  receives id index hid := (h.receives id index hid).imp_left (hquiet.receives id index)
  owned client authorization howned :=
    (h.owned client authorization howned).imp_left (hquiet.owned client authorization)
  closes := h.closes
  fits := h.fits

/-- A call that returns where it began. -/
theorem fulfils_same (hsound : Sound world.mgr) {reply : Reply}
    (hcloses : call.Closes world.mgr) : Fulfils call world (world, .done reply) := by
  refine Quiet.fulfils (.refl _) hsound (fun _ _ => hcloses) ?_
  intro pc hpark
  cases hpark

theorem fulfils_park {pc : Pc} (hsound : Sound world.mgr) (hfits : pc.Fits call) :
    Fulfils call world (world, .park pc) := by
  refine Quiet.fulfils (.refl _) hsound ?_ ?_
  · intro reply hdone
    cases hdone
  · rintro _ ⟨⟩
    exact hfits

/-- A quiet change that ends the stretch of a call that ends no stream. -/
theorem Quiet.fulfils_done {next : World} (hquiet : Quiet world.mgr next.mgr)
    (hsound : Sound world.mgr) {reply : Reply} (hcloses : call.Closes next.mgr) :
    Fulfils call world (next, .done reply) := by
  refine Quiet.fulfils hquiet hsound (fun _ _ => hcloses) ?_
  intro pc hpark
  cases hpark

/-! ## Clearing -/

/-- In an empty slot every stream has ended. -/
theorem closes_of_vacant (h : manager.slot.occupied = false) (call : Call) :
    call.Closes manager := by
  have hne : manager.slot.occupied ≠ true := by simp [h]
  cases call with
  | finish id => exact fun hstreams => hne hstreams.1
  | abort id => exact fun hstreams => absurd hstreams.1 hne
  | chunkFinish id offset length => exact fun _ _ hreceives => hne hreceives.1
  | chunkAbort id offset length => exact fun _ hreceives => hne hreceives.1
  | _ => trivial

/-- A call that parks in a `clear_slot` it has started. -/
theorem fulfils_clearing {pc : Pc} (hsound : Sound world.mgr) (hclears : pc.clears ≠ none)
    (hfits : pc.Fits call) :
    Fulfils call world (clearStart world, .park pc) where
  sound := ⟨hsound.vacant, hsound.tables, hsound.receiving⟩
  discards _ := .inr ⟨pc, rfl, hclears⟩
  streams _ h := .inl h
  finalizes _ h := .inl h
  receives _ _ h := .inl h
  owned _ _ h := .inl h
  closes reply h := by cases h
  fits := by
    rintro _ ⟨⟩
    exact hfits

/-- A `clear_slot` at the end of a call empties the slot, or waits to do so. -/
theorem finishClosing_fulfils (hsound : Sound world.mgr) (middle : World) (closing : Closing)
    (target : CString) (io : ClearIo) :
    Fulfils call world (finishClosing middle closing target io) :=
  (quiet_clearRest ..).fulfils_done hsound (closes_of_vacant rfl call)

theorem closeSlot_fulfils (hsound : Sound world.mgr) (closing : Closing) (io : ClearIo) :
    Fulfils call world (closeSlot world closing io) := by
  unfold closeSlot awaitClosing
  split
  · exact fulfils_clearing hsound (by simp [Pc.clears]) trivial
  · exact finishClosing_fulfils hsound ..

theorem vacant_relinquishes {outcome : Outcome} (h : world.mgr.slot.occupied = false)
    (id : CString) : Relinquishes id (world, outcome) :=
  .inr ⟨fun hstreams => absurd (h.symm.trans hstreams.1) (by decide),
    fun hfinalizes => absurd (h.symm.trans hfinalizes.1) (by decide)⟩

/-- The call waits on to clear what it has found in the slot, or nothing is under way. -/
theorem closeSlot_relinquishes (world : World) (closing : Closing) (io : ClearIo) (id : CString) :
    Relinquishes id (closeSlot world closing io) := by
  unfold closeSlot awaitClosing
  split
  · by_cases hid : world.mgr.slot.uploadId = id
    · exact .inl ⟨_, rfl, .inr (congrArg some hid)⟩
    · exact .inr ⟨fun h => hid h.2.1, fun h => hid h.2.1⟩
  · exact vacant_relinquishes rfl id

/-! ## The destination and `upload_prepare` -/

theorem uploadManagerSetDestination_fulfils (hsound : Sound world.mgr) (destination : CString)
    (effective : CString) (env : Env) :
    Fulfils (.setDestination destination) world
      (uploadManagerSetDestination world effective env) := by
  unfold uploadManagerSetDestination
  split
  · exact fulfils_same hsound trivial
  · split
    · exact fulfils_same hsound trivial
    · split
      · refine Quiet.fulfils_done ?_ hsound trivial
        exact .of_same rfl ⟨rfl, rfl⟩
      · exact fulfils_same hsound trivial

variable {client authorization : CString} {json : Bytes} {metadata : Metadata} {env : Env}

theorem prepareFailed_fulfils (hsound : Sound world.mgr) (result : UploadResult) :
    Fulfils (.prepare client authorization json) world (prepareFailed world result env) := by
  unfold prepareFailed
  split
  · exact closeSlot_fulfils hsound ..
  · exact fulfils_same hsound trivial

/-- Names are chosen in a free slot. -/
theorem quiet_prepareNames (hfree : world.mgr.slot.occupied = false) (authorization : CString)
    (metadata : Metadata) (env : Env) :
    Quiet world.mgr (prepareNames world authorization metadata env).1.mgr := by
  obtain ⟨_, _, _, _, hnames⟩ := prepareNames_eq world authorization metadata env
  rw [hnames]
  refine .of_vacant hfree (fun h => h) fun h => ⟨(h.vacant hfree).1, (h.vacant hfree).2, ?_⟩
  intro index hindex
  exact absurd (hfree.symm.trans (h.receiving index hindex).1) (by decide)

/-- An upload that has just been prepared has nothing under way. -/
theorem prepareOpen_fulfils (hsound : Sound world.mgr) (hfree : world.mgr.slot.occupied = false)
    (reply : World → Reply) :
    Fulfils (.prepare client authorization json) world
      ((prepareOpen world client authorization metadata env).1,
        .done (reply (prepareOpen world client authorization metadata env).1)) ∧
    ((prepareOpen world client authorization metadata env).2 ≠ .ok →
      Quiet world.mgr (prepareOpen world client authorization metadata env).1.mgr) := by
  have hreceiving : ∀ index, world.mgr.chunks.chunkStates index ≠ .receiving := fun index h =>
    absurd (hfree.symm.trans (hsound.receiving index h).1) (by decide)
  have hvacant : ∀ next : Manager, next.slot.occupied = world.mgr.slot.occupied →
      next.slot.started = world.mgr.slot.started → next.chunks = world.mgr.chunks →
      next.queue = world.mgr.queue → Quiet world.mgr next := by
    intro next hoccupied hstarted hchunks hqueue
    refine .of_vacant (hoccupied.trans hfree) (fun h => hqueue ▸ h) fun h => ?_
    rw [hstarted, hchunks]
    exact ⟨(h.vacant hfree).1, (h.vacant hfree).2, hreceiving⟩
  have hspec := prepareOpen_spec world client authorization metadata env
  generalize prepareOpen world client authorization metadata env = opened at hspec
  cases hspec with
  | refused =>
      refine ⟨Quiet.fulfils_done ?_ hsound trivial, fun _ => ?_⟩ <;> exact hvacant _ rfl rfl rfl rfl
  | failed =>
      refine ⟨Quiet.fulfils_done ?_ hsound trivial, fun _ => ?_⟩ <;> exact hvacant _ rfl rfl rfl rfl
  | @occupied file fs fs' =>
      refine ⟨?_, fun h => absurd rfl h⟩
      obtain ⟨hstarted, hfinalizing⟩ := hsound.vacant hfree
      have hstates : ∀ index,
          (occupySlot { openedPart (startPreparation world env) file fs with fs := fs' } client
            authorization metadata env).mgr.chunks.chunkStates index ≠ .receiving := by
        intro index
        simp only [occupySlot]
        split
        · simp
        · exact hreceiving index
      have hmarker : (occupySlot { openedPart (startPreparation world env) file fs with fs := fs' }
          client authorization metadata env).mgr.chunks.finalizingChunks = false := by
        simp only [occupySlot]
        split <;> exact hfinalizing
      constructor
      · refine ⟨fun h => absurd h (by simp [occupySlot]), fun _ => ?_, fun index h =>
          absurd h (hstates index)⟩
        simp only [occupySlot]
        split
        · exact ⟨rfl, fun _ => rfl⟩
        · rename_i hzero
          exact ⟨rfl, fun h => absurd h hzero⟩
      · exact .inl
      · intro id h
        exact absurd (hstarted.symm.trans h.2.2.1) (by decide)
      · intro id h
        exact absurd (hmarker.symm.trans h.2.2) (by decide)
      · intro id index h
        exact absurd h.2.2 (hstates index)
      · rintro owner authorization' ⟨-, rfl, rfl⟩
        exact .inr ⟨json, rfl⟩
      · exact fun _ _ => trivial
      · intro pc h
        cases h

theorem prepareSlot_fulfils (hsound : Sound world.mgr) :
    Fulfils (.prepare client authorization json) world
      (prepareSlot world client authorization metadata env) := by
  unfold prepareSlot
  split
  · exact prepareFailed_fulfils hsound _
  · rename_i hfree
    have hfree : world.mgr.slot.occupied = false := by simpa using hfree
    have hquiet := quiet_prepareNames hfree authorization metadata env
    have hfree' := (prepareNames_occupied world authorization metadata env).trans hfree
    split
    · rename_i named hnames
      rw [hnames] at hquiet hfree'
      have hopen := @prepareOpen_fulfils named client authorization json metadata env
        (hquiet.sound hsound) hfree' fun world => { Reply.of .ok with
          prepared := some ⟨world.mgr.slot.uploadId, world.mgr.slot.finalName, metadata.size⟩ }
      refine .after hquiet ?_
      split
      · rename_i opened hopened
        rw [hopened] at hopen
        exact hopen.1
      · rename_i opened result hresult hopened
        rw [hopened] at hopen
        have hquiet' := hopen.2 fun h => hresult (h ▸ rfl)
        exact .after hquiet' (prepareFailed_fulfils (hquiet'.sound (hquiet.sound hsound)) _)
    · rename_i named result hresult hnames
      rw [hnames] at hquiet
      exact .after hquiet (prepareFailed_fulfils (hquiet.sound hsound) _)

theorem uploadPrepare_fulfils (hsound : Sound world.mgr) :
    Fulfils (.prepare client authorization json) world
      (uploadPrepare world client authorization metadata env) := by
  unfold uploadPrepare
  dsimp only
  split
  · split
    · exact fulfils_clearing hsound (by simp [Pc.clears]) ⟨json, rfl⟩
    · have hquiet := quiet_clearRest world.mgr (clearStart world) .superseded
        world.mgr.slot.uploadId env.reapIo
      exact .after hquiet (prepareSlot_fulfils (hquiet.sound hsound))
  · exact prepareSlot_fulfils hsound

/-! ## The streams -/

theorem uploadBegin_fulfils (hsound : Sound world.mgr) (id : CString) (length : ℕ) :
    Fulfils (.begin id client authorization length) world
      (uploadBegin world id client authorization length env) := by
  unfold uploadBegin
  dsimp only
  split
  · exact fulfils_same hsound trivial
  split
  · exact fulfils_same hsound trivial
  split
  · exact fulfils_same hsound trivial
  split
  · exact fulfils_same hsound trivial
  · rename_i hmine _ hidle _
    have hoccupied : world.mgr.slot.occupied = true := by
      by_contra h
      exact hmine (.inl h)
    have hid : world.mgr.slot.uploadId = id := by
      by_contra h
      exact hmine (.inr h)
    have hstarted : world.mgr.slot.started = false := by
      by_contra h
      exact hidle (.inl (by simpa using h))
    constructor
    · refine ⟨fun h => absurd (hoccupied.symm.trans h) (by decide), hsound.tables, ?_⟩
      intro index hindex
      exact absurd (hstarted.symm.trans (hsound.receiving index hindex).2.1) (by decide)
    · exact .inl
    · rintro _ ⟨-, rfl, -⟩
      exact .inr ⟨client, authorization, length, by rw [← hid]; rfl, rfl⟩
    · exact fun _ h => .inl h
    · exact fun _ _ h => .inl h
    · exact fun _ _ h => .inl h
    · exact fun _ _ => trivial
    · intro pc hpark
      cases hpark

theorem quiet_copyToBuffer (world : World) (id : CString) (data : Bytes) (activity : ℕ) :
    Quiet world.mgr (copyToBuffer world id data activity).mgr :=
  .of_same rfl ⟨rfl, rfl⟩

theorem writeLoop_fulfils (hcall : ∃ id data, call = .write id data) (hsound : Sound world.mgr)
    (id : CString) (rest : Bytes) (activity : ℕ) :
    Fulfils call world (writeLoop world id rest activity) := by
  have hcloses : ∀ manager, call.Closes manager := by
    obtain ⟨id, data, rfl⟩ := hcall
    exact fun _ => trivial
  fun_induction writeLoop world id rest activity with
  | case1 => exact fulfils_same hsound (hcloses _)
  | case2 => exact fulfils_park hsound hcall
  | case3 => exact fulfils_same hsound (hcloses _)
  | case4 =>
      rename_i world rest _ _ _ count copied _ _
      have hquiet := quiet_copyToBuffer world id (rest.take count) activity
      exact .after hquiet (fulfils_park (hquiet.sound hsound) hcall)
  | case5 =>
      exact (quiet_copyToBuffer ..).fulfils_done hsound (hcloses _)
  | case6 =>
      rename_i world rest _ _ _ count copied _ queue hqueue ih
      have hqueued := (quiet_copyToBuffer world id (rest.take count) activity).trans
        (quiet_enqueue hqueue)
      exact .after hqueued (ih (hqueued.sound hsound))
  | case7 =>
      rename_i world rest _ _ _ count copied _ ih
      have hquiet := quiet_copyToBuffer world id (rest.take count) activity
      exact .after hquiet (ih (hquiet.sound hsound))

theorem uploadWrite_fulfils (hsound : Sound world.mgr) (id : CString) (data : Bytes) :
    Fulfils (.write id data) world (uploadWrite world id data env) := by
  unfold uploadWrite
  dsimp only
  split
  · exact fulfils_same hsound trivial
  split
  · exact fulfils_same hsound trivial
  · exact writeLoop_fulfils ⟨id, data, rfl⟩ hsound ..

theorem awaitWriteEnqueue_fulfils (hcall : ∃ id data, call = .write id data)
    (hsound : Sound world.mgr) (id : CString) (rest : Bytes) :
    Fulfils call world (awaitWriteEnqueue world id rest env) := by
  unfold awaitWriteEnqueue
  split
  · exact fulfils_park hsound hcall
  · refine fulfils_same hsound ?_
    obtain ⟨id, data, rfl⟩ := hcall
    trivial
  · rename_i queue hqueue
    have hquiet := quiet_enqueue hqueue
    exact .after hquiet (writeLoop_fulfils hcall (hquiet.sound hsound) ..)

theorem uploadEnableDirectStream_fulfils (hsound : Sound world.mgr) (id : CString) :
    Fulfils (.enableDirectStream id) world (uploadEnableDirectStream world id) := by
  unfold uploadEnableDirectStream
  dsimp only
  split
  · exact fulfils_same hsound trivial
  split
  · exact fulfils_same hsound trivial
  · refine Quiet.fulfils_done ?_ hsound trivial
    exact .of_same rfl ⟨rfl, rfl⟩

theorem uploadWriteDirect_fulfils (hsound : Sound world.mgr) (id : CString) (data : Bytes) :
    Fulfils (.writeDirect id data) world (uploadWriteDirect world id data env) := by
  unfold uploadWriteDirect
  dsimp only
  split
  · exact fulfils_same hsound trivial
  split
  · exact fulfils_same hsound trivial
  split
  · exact fulfils_same hsound trivial
  split
  · exact fulfils_same hsound trivial
  · have hquiet : Quiet world.mgr (startDirectWrite world env).mgr := .of_same rfl ⟨rfl, rfl⟩
    exact .after hquiet (fulfils_park (hquiet.sound hsound) ⟨id, data, rfl⟩)

theorem directWritten_fulfils (hcall : ∃ id data, call = .writeDirect id data)
    (hsound : Sound world.mgr) (data : Bytes) (error : Option Errno) :
    Fulfils call world (directWritten world data error env) := by
  have hcloses : ∀ manager, call.Closes manager := by
    obtain ⟨id, data, rfl⟩ := hcall
    exact fun _ => trivial
  unfold directWritten
  cases error with
  | none =>
      refine Quiet.fulfils_done ?_ hsound (hcloses _)
      exact .of_same rfl ⟨rfl, rfl⟩
  | some error =>
      refine Quiet.fulfils_done ?_ hsound (hcloses _)
      exact .of_same rfl ⟨rfl, rfl⟩

/-! ## The chunks -/

theorem uploadChunkBegin_fulfils (hsound : Sound world.mgr) (id : CString)
    (total offset length : ℕ) :
    Fulfils (.chunkBegin id client authorization total offset length) world
      (uploadChunkBegin world id client authorization total offset length env) := by
  unfold uploadChunkBegin
  dsimp only
  split
  · exact fulfils_same hsound trivial
  split
  · exact fulfils_same hsound trivial
  split
  · exact fulfils_same hsound trivial
  split
  · exact fulfils_same hsound trivial
  split
  · exact fulfils_same hsound trivial
  split
  · exact fulfils_same hsound trivial
  split
  · exact fulfils_same hsound trivial
  split
  · exact fulfils_same hsound trivial
  split
  · exact fulfils_same hsound trivial
  split
  · exact fulfils_same hsound trivial
  · rename_i hmine _ _ _ hrange hindex _ _ _ _ address _
    have hoccupied : world.mgr.slot.occupied = true := by
      by_contra h
      exact hmine (.inl h)
    have hid : world.mgr.slot.uploadId = id := by
      by_contra h
      exact hmine (.inr h)
    have haligned : offset % UPLOAD_CHUNK_BYTES = 0 := by
      by_contra h
      exact hrange (by simp [chunkRangeRefused, h])
    have hcount : offset / UPLOAD_CHUNK_BYTES < world.mgr.chunks.chunkCount := by
      by_contra h
      exact hindex (.inl (by omega))
    have hlength : length ≠ 0 := by
      have hinside := (chunkExtent_inside ((hsound.tables hoccupied).1 ▸ hcount)).1
      have heq : chunkLengthFor world.mgr.slot.expectedSize (offset / UPLOAD_CHUNK_BYTES) =
          length := by
        by_contra h
        exact hindex (.inr h)
      omega
    constructor
    · refine ⟨fun h => absurd (hoccupied.symm.trans h) (by decide), hsound.tables, ?_⟩
      intro index hreceiving
      simp only [acceptChunk, Chunks.accept] at hreceiving ⊢
      by_cases heq : index = offset / UPLOAD_CHUNK_BYTES
      · subst heq
        exact ⟨hoccupied, trivial, hcount, by rw [Function.update_self]; rfl⟩
      · rw [Function.update_of_ne heq] at hreceiving ⊢
        obtain ⟨-, -, hlt, hsome⟩ := hsound.receiving index hreceiving
        exact ⟨hoccupied, trivial, hlt, hsome⟩
    · exact .inl
    · rintro _ ⟨-, rfl, -, htransport⟩
      refine .inl ⟨hoccupied, rfl, ?_⟩
      simp only [acceptChunk, Chunks.accept, Bool.or_eq_false_iff] at htransport
      simpa [and_comm] using htransport
    · exact fun _ h => .inl h
    · rintro _ index ⟨-, rfl, hreceiving⟩
      by_cases heq : index = offset / UPLOAD_CHUNK_BYTES
      · exact .inr ⟨client, authorization, total, offset, length, by rw [← hid]; rfl, rfl,
          haligned, heq.symm, hlength⟩
      · simp only [acceptChunk, Chunks.accept] at hreceiving
        rw [Function.update_of_ne heq] at hreceiving
        exact .inl ⟨hoccupied, rfl, hreceiving⟩
    · exact fun _ _ h => .inl h
    · exact fun _ _ => trivial
    · intro pc hpark
      cases hpark

theorem uploadChunkWrite_fulfils (hsound : Sound world.mgr) (id : CString) (offset : ℕ)
    (data : Bytes) :
    Fulfils (.chunkWrite id offset data) world (uploadChunkWrite world id offset data env) := by
  unfold uploadChunkWrite
  dsimp only
  split
  · exact fulfils_same hsound trivial
  split
  · exact fulfils_same hsound trivial
  split
  · exact fulfils_same hsound trivial
  split
  · exact fulfils_same hsound trivial
  · refine Quiet.fulfils_done ?_ hsound trivial
    refine .of_flags rfl fun index hindex => ⟨hindex, fun hsome => ?_⟩
    simp only [storeChunk, Chunks.store]
    by_cases heq : index = offset / UPLOAD_CHUNK_BYTES
    · subst heq
      rw [Function.update_self, Option.isSome_map]
      exact hsome
    · rw [Function.update_of_ne heq]
      exact hsome

/-- A chunk that is being received is one the finish and the abort find. -/
theorem Sound.receives (h : Sound world.mgr) {id : CString} {offset : ℕ}
    (hreceives : world.mgr.Receives id (offset / UPLOAD_CHUNK_BYTES)) :
    world.mgr.slot.started = true ∧ world.mgr.chunks.receives (offset / UPLOAD_CHUNK_BYTES) = true ∧
      (offset % UPLOAD_CHUNK_BYTES = 0 → offset < world.mgr.slot.expectedSize) := by
  obtain ⟨hoccupied, -, hstate⟩ := hreceives
  obtain ⟨-, hstarted, hlt, hsome⟩ := h.receiving _ hstate
  obtain ⟨hcount, harrays⟩ := h.tables hoccupied
  have hreceives : world.mgr.chunks.receives (offset / UPLOAD_CHUNK_BYTES) = true := by
    simp [Chunks.receives, hlt, harrays (Nat.zero_lt_of_lt hlt), hsome, hstate]
  have hsize : 0 < UPLOAD_CHUNK_BYTES := by decide
  have hdivide := Nat.div_add_mod offset UPLOAD_CHUNK_BYTES
  rw [hcount, chunkCountFor] at hlt
  split at hlt
  · exact absurd hlt (Nat.not_lt_zero _)
  · rename_i hnonempty
    have hle : offset / UPLOAD_CHUNK_BYTES * UPLOAD_CHUNK_BYTES ≤ world.mgr.slot.expectedSize - 1 :=
      (Nat.le_div_iff_mul_le hsize).mp (Nat.lt_succ_iff.mp hlt)
    rw [Nat.mul_comm] at hle
    exact ⟨hstarted, hreceives, fun haligned => by omega⟩

/-- A chunk that is not being received is not of this upload, or has ended. -/
theorem dropChunk_closes (world : World) (id : CString) (index : ℕ) :
    ¬(dropChunk world index).mgr.Receives id index := by
  rintro ⟨-, -, hstate⟩
  simp only [dropChunk, Chunks.drop, Function.update_self] at hstate
  cases hstate

theorem uploadChunkFinish_fulfils (hsound : Sound world.mgr) (id : CString)
    (offset length : ℕ) :
    Fulfils (.chunkFinish id offset length) world
      (uploadChunkFinish world id offset length env) := by
  unfold uploadChunkFinish
  dsimp only
  split
  · rename_i hforeign
    refine fulfils_same hsound fun _ _ hreceives => ?_
    rcases hforeign with h | h | h
    · exact h hreceives.1
    · exact h (hsound.receives hreceives).1
    · exact h hreceives.2.1
  split
  · rename_i hrange
    refine fulfils_same hsound fun _ haligned hreceives => ?_
    rcases hrange with h | h
    · exact absurd ((hsound.receives hreceives).2.2 haligned) (by omega)
    · exact h haligned
  split
  · rename_i hreceiving
    exact fulfils_same hsound fun _ _ hreceives => hreceiving (hsound.receives hreceives).2.1
  split
  · refine Quiet.fulfils_done (quiet_drop rfl rfl _ rfl) hsound ?_
    exact fun _ _ => dropChunk_closes world id (offset / UPLOAD_CHUNK_BYTES)
  · refine Quiet.fulfils_done ?_ hsound ?_
    · refine .of_flags rfl fun index hindex => ?_
      simp only [readyChunk, Chunks.makeReady] at hindex ⊢
      by_cases heq : index = offset / UPLOAD_CHUNK_BYTES
      · subst heq
        rw [Function.update_self] at hindex
        cases hindex
      · rw [Function.update_of_ne heq] at hindex
        exact ⟨hindex, fun hsome => hsome⟩
    · rintro - - ⟨-, -, hstate⟩
      simp only [readyChunk, Chunks.makeReady, Function.update_self] at hstate
      cases hstate

theorem uploadChunkAbort_fulfils (hsound : Sound world.mgr) (id : CString)
    (offset length : ℕ) :
    Fulfils (.chunkAbort id offset length) world (uploadChunkAbort world id offset env) := by
  unfold uploadChunkAbort
  dsimp only
  split
  · refine Quiet.fulfils_done ?_ hsound ?_
    · exact (quiet_drop rfl rfl _ rfl).trans (.of_same rfl ⟨rfl, rfl⟩)
    · exact fun _ => dropChunk_closes world id (offset / UPLOAD_CHUNK_BYTES)
  · rename_i habsent
    refine fulfils_same hsound fun haligned hreceives => habsent ?_
    obtain ⟨hstarted, hchunk, hoffset⟩ := hsound.receives hreceives
    simp only [Chunks.receives, Bool.decide_and, Bool.and_eq_true, decide_eq_true_eq] at hchunk
    exact ⟨hreceives.1, hstarted, hreceives.2.1, hoffset haligned, haligned, hchunk.1,
      hchunk.2.1, hreceives.2.2⟩

/-! ## The finishes -/

/-- A finish that clears the slot at its end, whatever it has found. -/
structure Ends (call : Call) (id : CString) (world : World) (stretch : World × Outcome) :
    Prop where
  fulfils : Fulfils call world stretch
  relinquishes : Relinquishes id stretch

theorem Ends.after {id : CString} {middle : World} (hquiet : Quiet world.mgr middle.mgr)
    (h : Ends call id middle stretch) : Ends call id world stretch :=
  ⟨.after hquiet h.fulfils, h.relinquishes⟩

theorem closeSlot_ends (hsound : Sound world.mgr) (closing : Closing) (io : ClearIo)
    (id : CString) : Ends call id world (closeSlot world closing io) :=
  ⟨closeSlot_fulfils hsound closing io, closeSlot_relinquishes world closing io id⟩

theorem finishPublish_ends (hsound : Sound world.mgr) (id digest : CString) (elapsed : ℕ)
    (named : CString) : Ends call named world (finishPublish world id digest elapsed env) := by
  unfold finishPublish
  have hquiet := quiet_publishSlot world id digest elapsed env
  split
  · rename_i next result hpublish
    rw [hpublish] at hquiet
    exact .after hquiet (closeSlot_ends (hquiet.sound hsound) ..)
  · rename_i next metrics hpublish
    rw [hpublish] at hquiet
    exact .after hquiet (closeSlot_ends (hquiet.sound hsound) ..)

theorem finishQueued_fulfils (hsound : Sound world.mgr) (id : CString) :
    Fulfils call world (finishQueued world id env) := by
  have hquiet : Quiet world.mgr
      (world.setSha256 (Sha256.sha256Final world.mgr.slot.sha256).2).mgr := .of_same rfl ⟨rfl, rfl⟩
  exact .after hquiet (finishPublish_ends (hquiet.sound hsound) id _ _ id).fulfils

theorem awaitDrain_fulfils (hsound : Sound world.mgr) (id : CString) :
    Fulfils (.finish id) world (awaitDrain world id env) := by
  unfold awaitDrain
  split
  · exact fulfils_park hsound rfl
  · split
    · exact closeSlot_fulfils hsound ..
    · exact finishQueued_fulfils hsound id

theorem awaitFinishEnqueue_fulfils (hsound : Sound world.mgr) (id : CString) :
    Fulfils (.finish id) world (awaitFinishEnqueue world id env) := by
  unfold awaitFinishEnqueue
  split
  · exact fulfils_park hsound rfl
  · exact closeSlot_fulfils hsound ..
  · rename_i queue hqueue
    have hquiet := quiet_enqueue hqueue
    exact .after hquiet (awaitDrain_fulfils (hquiet.sound hsound) id)

/-- A call that sets the marker of the upload in the slot and parks. -/
theorem fulfils_finalizing {pc : Pc} {id : CString} (hsound : Sound world.mgr)
    (hoccupied : world.mgr.slot.occupied = true) (hid : world.mgr.slot.uploadId = id)
    (hfinishes : pc.finishes = some id) (hfits : pc.Fits call) :
    Fulfils call world (world.setFinalizing true, .park pc) where
  sound := ⟨fun h => absurd (hoccupied.symm.trans h) (by decide), hsound.tables, hsound.receiving⟩
  discards := .inl
  streams _ h := .inl h
  finalizes other h :=
    .inr ⟨pc, rfl, .inl (hfinishes.trans (congrArg some (hid.symm.trans h.2.1)))⟩
  receives _ _ h := .inl h
  owned _ _ h := .inl h
  closes reply h := by cases h
  fits := by
    rintro _ ⟨⟩
    exact hfits

theorem uploadFinishWithMetrics_fulfils (hsound : Sound world.mgr) (id : CString) :
    Fulfils (.finish id) world (uploadFinishWithMetrics world id env) := by
  unfold uploadFinishWithMetrics
  dsimp only
  split
  · exact closeSlot_fulfils hsound ..
  split
  · exact closeSlot_fulfils hsound ..
  split
  · exact closeSlot_fulfils hsound ..
  split
  · rename_i hmine _ _ _ _
    refine fulfils_finalizing hsound ?_ ?_ rfl rfl
    · by_contra h
      exact hmine (.inl h)
    · by_contra h
      exact hmine (.inr (.inr h))
  · exact awaitFinishEnqueue_fulfils hsound id

theorem finishHashed_ends (hsound : Sound world.mgr) (id : CString) (elapsed : ℕ)
    (hash : Except Errno CString) :
    Ends (.finish id) id world (finishHashed world id elapsed hash env) := by
  unfold finishHashed
  dsimp only
  split
  · exact closeSlot_ends hsound ..
  split
  · exact closeSlot_ends hsound ..
  · exact finishPublish_ends hsound ..

/-- The marker taken back. -/
theorem quiet_unfinalize (world : World) : Quiet world.mgr (world.setFinalizing false).mgr where
  sound h := ⟨fun hfree => ⟨(h.vacant hfree).1, rfl⟩, h.tables, h.receiving⟩
  discards h := h
  streams _ h := h
  finalizes _ h := by
    obtain ⟨-, -, hmarker⟩ := h
    cases hmarker
  receives _ _ h := h
  owned _ _ h := h

theorem chunksFailed_ends (hcall : ∃ id client authorization,
    call = .finishChunks id client authorization) (hsound : Sound world.mgr) (id : CString)
    (result : UploadResult) (digest : Option CString) :
    Ends call id world (chunksFailed world id result digest env) := by
  unfold chunksFailed
  dsimp only
  split
  · exact closeSlot_ends hsound ..
  · rename_i hother
    refine ⟨fulfils_same hsound ?_, .inr ⟨fun h => hother ⟨h.1, h.2.1⟩, fun h =>
      hother ⟨h.1, h.2.1⟩⟩⟩
    obtain ⟨id, client, authorization, rfl⟩ := hcall
    trivial

theorem chunksUnpublished_ends (hcall : ∃ id client authorization,
    call = .finishChunks id client authorization) (hsound : Sound world.mgr) (id : CString)
    (result : UploadResult) (digest : Option CString) :
    Ends call id world (chunksUnpublished world id result digest env) :=
  .after (quiet_unfinalize world)
    (chunksFailed_ends hcall ((quiet_unfinalize world).sound hsound) ..)

theorem chunksHashed_ends {id : CString} (hcall : ∃ client authorization,
    call = .finishChunks id client authorization) (hsound : Sound world.mgr)
    (hash : Except Errno CString) :
    Ends call id world (chunksHashed world id hash env) := by
  obtain ⟨client, authorization, hcall⟩ := hcall
  have hcall : ∃ id client authorization, call = .finishChunks id client authorization :=
    ⟨id, client, authorization, hcall⟩
  unfold chunksHashed
  dsimp only
  split
  · exact chunksUnpublished_ends hcall hsound ..
  split
  · exact chunksUnpublished_ends hcall hsound ..
  · rename_i digest
    have hquiet := quiet_publishSlot world id digest
      (elapsedNanoseconds world.mgr.slot.transferStartNs env.endNs) env
    split
    · rename_i next result hpublish
      rw [hpublish] at hquiet
      exact .after hquiet (chunksUnpublished_ends hcall (hquiet.sound hsound) ..)
    · rename_i next metrics hpublish
      rw [hpublish] at hquiet
      exact .after hquiet (closeSlot_ends (hquiet.sound hsound) ..)

/-- The wait of the chunk finish: it parks again, with the marker as it is, or ends. -/
theorem awaitChunks_ends {id : CString} (hcall : ∃ client authorization,
    call = .finishChunks id client authorization) (hsound : Sound world.mgr) :
    Ends call id world (awaitChunks world id env) := by
  unfold awaitChunks
  split
  · obtain ⟨client, authorization, rfl⟩ := hcall
    exact chunksFailed_ends ⟨id, client, authorization, rfl⟩ hsound ..
  · split
    · exact ⟨fulfils_park hsound hcall, .inl ⟨_, rfl, .inl rfl⟩⟩
    · exact ⟨fulfils_park hsound hcall, .inl ⟨_, rfl, .inl rfl⟩⟩

theorem uploadFinishChunksWithMetrics_fulfils (hsound : Sound world.mgr) (id : CString) :
    Fulfils (.finishChunks id client authorization) world
      (uploadFinishChunksWithMetrics world id client authorization env) := by
  unfold uploadFinishChunksWithMetrics
  dsimp only
  split
  · exact fulfils_same hsound trivial
  split
  · exact fulfils_same hsound trivial
  split
  · exact fulfils_same hsound trivial
  split
  · exact fulfils_same hsound trivial
  split
  · exact fulfils_same hsound trivial
  · rename_i hmine _ _ _ _
    have hoccupied : world.mgr.slot.occupied = true := by
      by_contra h
      exact hmine (.inl h)
    have hid : world.mgr.slot.uploadId = id := by
      by_contra h
      exact hmine (.inr h)
    have hsound' : Sound (world.setFinalizing true).mgr :=
      ⟨fun h => absurd (hoccupied.symm.trans h) (by decide), hsound.tables, hsound.receiving⟩
    have hends : Ends (.finishChunks id client authorization) id (world.setFinalizing true)
        (awaitChunks (world.setFinalizing true) id env) :=
      awaitChunks_ends ⟨client, authorization, rfl⟩ hsound'
    -- either it parks to see to the upload, or nothing of it is under way any more
    have hfinalizes : ∀ other,
        (awaitChunks (world.setFinalizing true) id env).1.mgr.Finalizes other →
        (awaitChunks (world.setFinalizing true) id env).2.Settling other := by
      intro other hother
      rcases hends.fulfils.finalizes other hother with hbefore | hsettling
      · obtain rfl : id = other := hid.symm.trans hbefore.2.1
        rcases hends.relinquishes with hsettling | hnothing
        · exact hsettling
        · exact absurd hother hnothing.2
      · exact hsettling
    exact ⟨hends.fulfils.sound, hends.fulfils.discards,
      fun other h => hends.fulfils.streams other h, fun other h => .inr (hfinalizes other h),
      hends.fulfils.receives, hends.fulfils.owned, hends.fulfils.closes, hends.fulfils.fits⟩

/-! ## From the entry to the end -/

theorem uploadCancel_fulfils (hsound : Sound world.mgr) (id : CString) :
    Fulfils (.cancel id client authorization) world
      (uploadCancel world id client authorization env) := by
  unfold uploadCancel
  dsimp only
  split
  · exact fulfils_same hsound trivial
  split
  · exact fulfils_same hsound trivial
  split
  · exact fulfils_same hsound trivial
  · exact closeSlot_fulfils hsound ..

/-- An abort that clears nothing has found another upload, or one that is being finished. -/
theorem uploadAbort_fulfils (hsound : Sound world.mgr) (id : CString) :
    Fulfils (.abort id) world (uploadAbort world id env) := by
  unfold uploadAbort
  dsimp only
  split
  · exact closeSlot_fulfils hsound ..
  · rename_i hkept
    refine fulfils_same hsound fun hstreams => ?_
    obtain ⟨hoccupied, hid, hstarted, -⟩ := hstreams
    refine ⟨hoccupied, hid, ?_⟩
    by_contra hmarker
    exact hkept ⟨hmarker, hoccupied, hstarted, hid⟩

theorem afterReap_fulfils (hsound : Sound world.mgr) (call : Call) (env : Env) :
    Fulfils call world (afterReap world call env) := by
  cases call with
  | setDestination destination => exact uploadManagerSetDestination_fulfils hsound ..
  | prepare client authorization json =>
      simp only [afterReap]
      split
      · exact fulfils_same hsound trivial
      · exact uploadPrepare_fulfils hsound
  | begin id client authorization length => exact uploadBegin_fulfils hsound id length
  | write id data => exact uploadWrite_fulfils hsound id data
  | enableDirectStream id => exact uploadEnableDirectStream_fulfils hsound id
  | writeDirect id data => exact uploadWriteDirect_fulfils hsound id data
  | chunkBegin id client authorization total offset length =>
      exact uploadChunkBegin_fulfils hsound id total offset length
  | chunkWrite id offset data => exact uploadChunkWrite_fulfils hsound id offset data
  | chunkFinish id offset length => exact uploadChunkFinish_fulfils hsound id offset length
  | chunkAbort id offset length => exact uploadChunkAbort_fulfils hsound id offset length
  | finish id => exact uploadFinishWithMetrics_fulfils hsound id
  | finishChunks id client authorization => exact uploadFinishChunksWithMetrics_fulfils hsound id
  | cancel id client authorization => exact uploadCancel_fulfils hsound id
  | abort id => exact uploadAbort_fulfils hsound id
  | snapshot => exact fulfils_same hsound trivial
  | reapAt now => exact fulfils_same hsound trivial

theorem reapLocked_fulfils (hsound : Sound world.mgr) (call : Call) (now : ℕ) (env : Env) :
    Fulfils call world (reapLocked world call now env) := by
  unfold reapLocked
  split
  · dsimp only
    split
    · exact fulfils_clearing hsound (by simp [Pc.clears]) rfl
    · have hquiet := quiet_clearRest world.mgr (clearStart world) .lease world.mgr.slot.uploadId
        env.reapIo
      exact .after hquiet (afterReap_fulfils (hquiet.sound hsound) call env)
  · exact afterReap_fulfils hsound call env

theorem awaitWrites_fulfils (hsound : Sound world.mgr) (call : Call) (env : Env) :
    Fulfils call world (awaitWrites world call env) := by
  unfold awaitWrites
  split
  · exact fulfils_park hsound rfl
  · split
    · exact afterReap_fulfils hsound ..
    · exact reapLocked_fulfils hsound ..

/-- A call that is refused on its arguments ends no stream, unless they are of no chunk. -/
theorem closes_of_refused {result : UploadResult} (h : call.refused world = some result) :
    call.Closes manager := by
  cases call with
  | chunkFinish id offset length =>
      intro hlength
      simp only [Call.refused] at h
      split at h
      · exact absurd ‹length = 0› hlength
      · cases h
  | finish id | abort id | chunkAbort id offset length => cases h
  | _ => trivial

theorem enterCall_fulfils (hsound : Sound world.mgr) (call : Call) (env : Env) :
    Fulfils call world (enterCall world call env) := by
  unfold enterCall
  split
  · rename_i result hrefused
    exact fulfils_same hsound (closes_of_refused hrefused)
  · split
    · exact afterReap_fulfils hsound ..
    · exact afterReap_fulfils hsound ..
    · exact awaitWrites_fulfils hsound ..
    · exact awaitWrites_fulfils hsound ..
    · exact reapLocked_fulfils hsound ..
    · exact reapLocked_fulfils hsound ..

/-- In an empty slot a call can only prepare an upload. -/
theorem afterReap_relinquishes (hsound : Sound world.mgr)
    (hvacant : world.mgr.slot.occupied = false) (call : Call) (env : Env) (id : CString) :
    Relinquishes id (afterReap world call env) := by
  have hfulfils := afterReap_fulfils hsound call env
  by_cases hsettling : (afterReap world call env).2.Settling id
  · exact .inl hsettling
  · refine .inr ⟨fun h => ?_, fun h => ?_⟩
    · rcases hfulfils.streams id h with hbefore | ⟨client, authorization, length, rfl, hok⟩
      · exact absurd (hvacant.symm.trans hbefore.1) (by decide)
      · simp [afterReap, uploadBegin, hvacant, Outcome.of, Reply.of] at hok
    · rcases hfulfils.finalizes id h with hbefore | hparked
      · exact absurd (hvacant.symm.trans hbefore.1) (by decide)
      · exact hsettling hparked

theorem prepareSlot_relinquishes (hsound : Sound world.mgr)
    (hvacant : world.mgr.slot.occupied = false) (id : CString) :
    Relinquishes id (prepareSlot world client authorization metadata env) := by
  have hfulfils := @prepareSlot_fulfils world client authorization [] metadata env hsound
  by_cases hsettling : (prepareSlot world client authorization metadata env).2.Settling id
  · exact .inl hsettling
  · refine .inr ⟨fun h => ?_, fun h => ?_⟩
    · rcases hfulfils.streams id h with hbefore | ⟨client, authorization, length, hcall, -⟩
      · exact absurd (hvacant.symm.trans hbefore.1) (by decide)
      · cases hcall
    · rcases hfulfils.finalizes id h with hbefore | hparked
      · exact absurd (hvacant.symm.trans hbefore.1) (by decide)
      · exact hsettling hparked

/-- What a call that wakes up leaves under way: it still sees to what it has parked for, or
nothing is left of it. -/
structure Resumes (call : Call) (pc : Pc) (world : World) (stretch : World × Outcome) :
    Prop where
  fulfils : Fulfils call world stretch
  relinquishes : ∀ id, pc.Settles id → Relinquishes id stretch
  clears : pc.clears ≠ none → stretch.1.mgr.queue.writerDiscard = true → stretch.2.Clearing

/-- A call that had nothing to see to. -/
theorem Fulfils.resumes {pc : Pc} (h : Fulfils call world stretch) (hfinishes : pc.finishes = none)
    (hclears : pc.clears = none) : Resumes call pc world stretch := by
  refine ⟨h, fun id hsettles => ?_, fun hsome => absurd hclears hsome⟩
  rcases hsettles with hsome | hsome
  · rw [hfinishes] at hsome
    cases hsome
  · rw [hclears] at hsome
    cases hsome

/-- A finish that has set the marker of this upload. -/
theorem Ends.resumes {id : CString} {pc : Pc} (h : Ends call id world stretch)
    (hfinishes : pc.finishes = some id) (hclears : pc.clears = none) :
    Resumes call pc world stretch := by
  refine ⟨h.fulfils, fun other hsettles => ?_, fun hsome => absurd hclears hsome⟩
  rcases hsettles with hsome | hsome
  · obtain rfl := Option.some.inj (hfinishes.symm.trans hsome)
    exact h.relinquishes
  · rw [hclears] at hsome
    cases hsome

/-- A `clear_slot` goes on waiting. -/
theorem resumes_waiting {pc : Pc} (hsound : Sound world.mgr) (hfits : pc.Fits call)
    (hclears : pc.clears ≠ none) : Resumes call pc world (world, .park pc) := by
  exact ⟨fulfils_park hsound hfits, fun id hsettles => .inl ⟨pc, rfl, hsettles⟩,
    fun _ _ => ⟨pc, rfl, hclears⟩⟩

/-- A `clear_slot` has emptied the slot, and the call goes on. -/
theorem resumes_cleared {pc : Pc} {cleared : World}
    (hquiet : Quiet world.mgr cleared.mgr) (hdiscard : cleared.mgr.queue.writerDiscard = false)
    (hfulfils : Fulfils call cleared stretch) (hrelinquishes : ∀ id, Relinquishes id stretch) :
    Resumes call pc world stretch := by
  refine ⟨.after hquiet hfulfils, fun id _ => hrelinquishes id, fun _ hset => ?_⟩
  rcases hfulfils.discards hset with hbefore | hclearing
  · exact absurd (hdiscard.symm.trans hbefore) (by decide)
  · exact hclearing

theorem resume_resumes {pc : Pc} (hsound : Sound world.mgr) (hfits : pc.Fits call)
    (hresume : resume world pc env = some stretch) : Resumes call pc world stretch := by
  cases pc with
  | reaping parked target =>
      obtain rfl := hfits
      simp only [resume] at hresume
      split at hresume
      · cases hresume
        exact resumes_waiting hsound rfl (by simp [Pc.clears])
      · cases hresume
        have hquiet := quiet_clearRest world.mgr world .lease target env.reapIo
        exact resumes_cleared hquiet rfl (afterReap_fulfils (hquiet.sound hsound) ..)
          (afterReap_relinquishes (hquiet.sound hsound) rfl _ _)
  | superseding client authorization metadata target =>
      obtain ⟨json, rfl⟩ := hfits
      simp only [resume] at hresume
      split at hresume
      · cases hresume
        exact resumes_waiting hsound ⟨json, rfl⟩ (by simp [Pc.clears])
      · cases hresume
        have hquiet := quiet_clearRest world.mgr world .superseded target env.reapIo
        exact resumes_cleared hquiet rfl (prepareSlot_fulfils (hquiet.sound hsound))
          (prepareSlot_relinquishes (hquiet.sound hsound) rfl)
  | clearing closing target =>
      cases hresume
      unfold awaitClosing
      split
      · exact resumes_waiting hsound trivial (by simp [Pc.clears])
      · have hquiet := quiet_clearRest world.mgr world closing.origin target env.clearIo
        exact resumes_cleared hquiet rfl
          ((Quiet.refl _).fulfils_done (hquiet.sound hsound) (closes_of_vacant rfl call))
          (vacant_relinquishes rfl)
  | waitingWrites parked =>
      obtain rfl := hfits
      cases hresume
      exact (awaitWrites_fulfils hsound ..).resumes rfl rfl
  | writeFull id rest =>
      cases hresume
      exact (writeLoop_fulfils hfits hsound ..).resumes rfl rfl
  | writeEnqueue id rest =>
      cases hresume
      exact (awaitWriteEnqueue_fulfils hfits hsound ..).resumes rfl rfl
  | finishEnqueue id =>
      obtain rfl := hfits
      cases hresume
      exact (awaitFinishEnqueue_fulfils hsound id).resumes rfl rfl
  | finishDrain id =>
      obtain rfl := hfits
      cases hresume
      exact (awaitDrain_fulfils hsound id).resumes rfl rfl
  | finishHash => cases hresume
  | finishHashed id elapsed hash =>
      obtain rfl := hfits
      cases hresume
      exact (finishHashed_ends hsound id elapsed hash).resumes rfl rfl
  | chunksDrain id =>
      cases hresume
      exact (awaitChunks_ends hfits hsound).resumes rfl rfl
  | chunksHash => cases hresume
  | chunksHashed id hash =>
      cases hresume
      exact (chunksHashed_ends hfits hsound hash).resumes rfl rfl
  | directWriting data done error =>
      simp only [resume] at hresume
      split at hresume
      · cases hresume
        exact (directWritten_fulfils hfits hsound ..).resumes rfl rfl
      · cases hresume

/-! ## Steps -/

/-- The writer's locked stretch only takes a chunk off the list of those that are ready. -/
theorem quiet_completeJob (world : World) (job : Job) (error : Option Errno) (elapsedNs : ℕ) :
    Quiet world.mgr (completeJob world job error elapsedNs).mgr := by
  have hstored : ∀ index address, Quiet world.mgr
      { world.mgr with chunks := world.mgr.chunks.stored index address } := by
    intro index address
    unfold Chunks.stored
    split
    · refine .of_flags rfl fun other hother => ?_
      dsimp only at hother ⊢
      by_cases heq : other = index
      · subst heq
        rw [Function.update_self] at hother
        cases hother
      · rw [Function.update_of_ne heq] at hother ⊢
        exact ⟨hother, fun hsome => hsome⟩
    · exact .refl _
  cases job with
  | queue index size => exact .of_same rfl ⟨rfl, rfl⟩
  | chunk index address size =>
      cases error with
      | some error => exact .of_same rfl ⟨rfl, rfl⟩
      | none => exact (hstored index address).trans (.of_same rfl ⟨rfl, rfl⟩)

/-- Every thread is at a point its call can park at. -/
def Fitting (sys : Sys) : Prop :=
  ∀ tid thread, sys.threads tid = some thread → thread.pc.Fits thread.call

/-- The same call, at a point that fits it as well and has the same marker. -/
structure Stays (thread after : Thread) : Prop where
  call_eq : after.call = thread.call
  finishes_eq : after.pc.finishes = thread.pc.finishes
  clears_eq : after.pc.clears = thread.pc.clears
  fits : thread.pc.Fits thread.call → after.pc.Fits after.call

/-- A step in which no call runs code of its own. -/
structure Idles (sys next : Sys) : Prop where
  quiet : Quiet sys.world.mgr next.world.mgr
  stays : ∀ tid thread, sys.threads tid = some thread →
    ∃ after, next.threads tid = some after ∧ Stays thread after
  free : ∀ tid, sys.threads tid = none → next.threads tid = none

variable {sys next : Sys} {tid : ℕ}

theorem Stays.refl (thread : Thread) : Stays thread thread := ⟨rfl, rfl, rfl, fun h => h⟩

theorem Idles.of_threads (hquiet : Quiet sys.world.mgr next.world.mgr)
    (hthreads : next.threads = sys.threads) : Idles sys next where
  quiet := hquiet
  stays tid thread hthread := ⟨thread, by rw [hthreads, hthread], .refl thread⟩
  free tid h := by rw [hthreads, h]

theorem Idles.of_setPc (sys : Sys) {thread : Thread} (pc : Pc)
    (hthread : sys.threads tid = some thread)
    (hstays : Stays thread ⟨thread.call, pc⟩) : Idles sys (sys.setPc tid thread.call pc) where
  quiet := .refl _
  stays other thread' hthread' := by
    by_cases heq : other = tid
    · subst heq
      obtain rfl := Option.some.inj (hthread.symm.trans hthread')
      exact ⟨_, Function.update_self .., hstays⟩
    · exact ⟨thread', (Function.update_of_ne heq ..).trans hthread', .refl thread'⟩
  free other h := by
    have heq : other ≠ tid := by
      rintro rfl
      exact absurd (h.symm.trans hthread) (by simp)
    exact (Function.update_of_ne heq ..).trans h

/-- The steps of the writer, and those of a call outside the mutex. -/
theorem idles_step {action : Action} (h : Stepped sys action next)
    (hcall : ∀ tid call env, action ≠ .call tid call env)
    (hresume : ∀ tid env, action ≠ .resume tid env) : Idles sys next := by
  cases h with
  | @call tid call env => exact absurd rfl (hcall tid call env)
  | @resume tid env => exact absurd rfl (hresume tid env)
  | @directIo tid result call data done fs count error hthread hio =>
      have hfs : Quiet sys.world.mgr ({ sys.world with fs } : World).mgr := .refl _
      have hpc := Idles.of_setPc { sys with world := { sys.world with fs } }
        (.directWriting data (done + count) error) hthread ⟨rfl, rfl, rfl, fun h => h⟩
      exact ⟨hfs.trans hpc.quiet, hpc.stays, hpc.free⟩
  | hashFinish hthread => exact .of_setPc sys _ hthread ⟨rfl, rfl, rfl, fun h => h⟩
  | hashChunks hthread => exact .of_setPc sys _ hthread ⟨rfl, rfl, rfl, fun h => h⟩
  | pick =>
      refine .of_threads ?_ rfl
      exact .of_same rfl ⟨rfl, rfl⟩
  | @writerIo result job done bytes fs count error =>
      refine .of_threads ?_ rfl
      cases error <;> exact .refl _
  | complete => exact .of_threads (quiet_completeJob ..) rfl

/-! ## What a stretch leaves of its thread -/

theorem settle_of_ne {call : Call} {stretch : World × Outcome} {other : ℕ} (h : other ≠ tid) :
    (sys.settle tid call stretch).threads other = sys.threads other := by
  rw [settle_eq]
  exact Function.update_of_ne h ..

theorem settle_self {call : Call} {stretch : World × Outcome} :
    (sys.settle tid call stretch).threads tid = stretch.2.thread call := by
  rw [settle_eq]
  exact Function.update_self ..

theorem settle_mgr (sys : Sys) (tid : ℕ) (call : Call) (stretch : World × Outcome) :
    (sys.settle tid call stretch).world.mgr = stretch.1.mgr := by
  obtain ⟨world, outcome⟩ := stretch
  cases outcome <;> rfl

/-- A thread that a stretch leaves parked is at a point that fits its call. -/
theorem Fitting.settle {call : Call} {stretch : World × Outcome} (h : Fitting sys)
    (hfits : ∀ pc, stretch.2 = .park pc → pc.Fits call) :
    Fitting (sys.settle tid call stretch) := by
  intro other thread hthread
  by_cases heq : other = tid
  · subst heq
    rw [settle_self] at hthread
    cases houtcome : stretch.2 with
    | park pc =>
        rw [houtcome] at hthread
        cases hthread
        exact hfits pc houtcome
    | done reply =>
        rw [houtcome] at hthread
        cases hthread
  · rw [settle_of_ne heq] at hthread
    exact h other thread hthread

theorem Idles.fitting (h : Idles sys next) (hfitting : Fitting sys) : Fitting next := by
  intro tid after hafter
  cases hbefore : sys.threads tid with
  | none => exact absurd ((h.free tid hbefore).symm.trans hafter) (by simp)
  | some thread =>
      obtain ⟨after', hafter', hstays⟩ := h.stays tid thread hbefore
      obtain rfl := Option.some.inj (hafter'.symm.trans hafter)
      exact hstays.fits (hfitting tid thread hbefore)

end LocalSend.Upload
