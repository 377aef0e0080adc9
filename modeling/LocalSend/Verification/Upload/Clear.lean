import LocalSend.Verification.Upload.Frame
import LocalSend.Verification.Upload.Updates

/-! # What a cancel, an abort or a lease expiry clears

`clear_slot` looks at the slot again after its wait without asking whose upload it is by
then. The invariant is that the slot is still the one the clearing was started for, or has
been emptied by someone else; only a prepare that opens a part file can break it.
-/

namespace LocalSend.Upload

open Transition

/-- The clearing finds the upload it was started for, or an empty slot. -/
def Clearing.OnTarget (clearing : Clearing) : Prop :=
  clearing.uploadId = clearing.target ∨ (clearing.occupied = false ∧ clearing.fd = none)

/-- No cancel, abort or lease expiry has cleared the upload of another identifier. -/
def ClearsOwn (trace : List Event) : Prop :=
  ∀ clearing, .cleared clearing ∈ trace → clearing.origin.owned = true → clearing.OnTarget

/-- The identifier a call parked in such a `clear_slot` was started for. -/
def Pc.ownedTarget : Pc → Option CString
  | .reaping _ target => some target
  | .clearing closing target => if closing.origin.owned then some target else none
  | _ => none

/-- The slot holds the target's upload, or nothing. -/
def Aimed (slot : Slot) (target : CString) : Prop :=
  (slot.occupied = true ∧ slot.uploadId = target) ∨ (slot.occupied = false ∧ slot.fd = none)

/-- The part files opened so far. -/
def openings (trace : List Event) : ℕ :=
  trace.countP fun event => match event with
    | .opened _ => true
    | _ => false

/-- A step that opens a part file is not taken while a call is parked in the `clear_slot` of
a cancel, an abort or a lease expiry. -/
def OpensAlone (sys : Sys) (action : Action) : Prop :=
  ∀ next, step sys action = some next →
    openings next.world.trace ≠ openings sys.world.trace →
    ∀ tid thread, next.threads tid = some thread → thread.pc.ownedTarget = none

/-! ## What a stretch does to the slot -/

/-- From one world to the next part files are only added, and without a new one the slot
stays what parked clearings take it for. -/
structure Advance (world next : World) : Prop where
  openings_le : openings world.trace ≤ openings next.trace
  aimed : openings world.trace = openings next.trace →
    ∀ target, Aimed world.mgr.slot target → Aimed next.mgr.slot target
  clearsOwn : ClearsOwn world.trace → ClearsOwn next.trace

theorem Advance.refl (world : World) : Advance world world :=
  ⟨le_rfl, fun _ _ => id, id⟩

theorem Advance.trans {world middle next : World} (hfirst : Advance world middle)
    (hsecond : Advance middle next) : Advance world next := by
  have hle := hfirst.openings_le
  have hle' := hsecond.openings_le
  refine ⟨hle.trans hle', ?_, fun h => hsecond.clearsOwn (hfirst.clearsOwn h)⟩
  intro hsame target haimed
  exact hsecond.aimed (by omega) target (hfirst.aimed (by omega) target haimed)

/-- The upload, its descriptor if there was none, and the trace are kept. -/
theorem Advance.of_kept {world next : World}
    (hoccupied : next.mgr.slot.occupied = world.mgr.slot.occupied)
    (hid : next.mgr.slot.uploadId = world.mgr.slot.uploadId)
    (hfd : world.mgr.slot.fd = none → next.mgr.slot.fd = none)
    (htrace : next.trace = world.trace) : Advance world next := by
  refine ⟨by rw [htrace], ?_, by rw [htrace]; exact id⟩
  rintro - target (⟨h, ht⟩ | ⟨h, hnone⟩)
  · exact .inl ⟨hoccupied.trans h, hid.trans ht⟩
  · exact .inr ⟨hoccupied.trans h, hfd hnone⟩

/-- An event that is neither an opening nor a clearing. -/
theorem Advance.note {world : World} {event : Event} (hopen : ∀ id, event ≠ .opened id)
    (hclear : ∀ clearing, event ≠ .cleared clearing) : Advance world (world.note event) := by
  have hcount : openings (world.note event).trace = openings world.trace := by
    cases event <;> simp_all [World.note, openings]
  refine ⟨hcount.ge, fun _ _ => id, ?_⟩
  intro h clearing hmem
  rcases List.mem_cons.mp hmem with heq | hmem
  · exact absurd heq.symm (hclear clearing)
  · exact h clearing hmem

theorem advance_clearStart (world : World) : Advance world (clearStart world) :=
  .of_kept rfl rfl id rfl

/-- Clearing empties the slot; its record is in order when the slot is the target's. -/
theorem advance_clearRest {world : World} {origin : Origin} {target : CString} (io : ClearIo)
    (haimed : origin.owned = true → Aimed world.mgr.slot target) :
    Advance world (clearRest world origin target io).1 := by
  refine ⟨by simp [clearRest, openings], fun _ _ _ => .inr ⟨rfl, rfl⟩, ?_⟩
  intro h clearing hmem howned
  rcases List.mem_cons.mp hmem with heq | hmem
  · cases heq
    rcases haimed howned with ⟨-, ht⟩ | hempty
    · exact .inl ht
    · exact .inr hempty
  · exact h clearing hmem howned

/-- While the slot is free, choosing names leaves it free. -/
theorem advance_prepareNames {world : World} (hfree : world.mgr.slot.occupied = false)
    (authorization : CString) (metadata : Metadata) (env : Env) :
    Advance world (prepareNames world authorization metadata env).1 := by
  obtain ⟨finalName, finalPath, uploadId, partPath, hnames⟩ :=
    prepareNames_eq world authorization metadata env
  rw [hnames]
  refine ⟨le_rfl, ?_, fun h => h⟩
  rintro - target (⟨h, -⟩ | hempty)
  · simp [hfree] at h
  · exact .inr hempty

theorem advance_opened {world next : World} {id : CString}
    (htrace : next.trace = .opened id :: world.trace) : Advance world next := by
  have hcount : openings next.trace = openings world.trace + 1 := by
    rw [htrace]
    simp [openings]
  refine ⟨by omega, fun h => by omega, ?_⟩
  intro h clearing hmem
  rw [htrace] at hmem
  rcases List.mem_cons.mp hmem with heq | hmem
  · cases heq
  · exact h clearing hmem

/-- Opening the part file either fails, and keeps the slot, or is recorded. -/
theorem advance_prepareOpen (world : World) (client authorization : CString)
    (metadata : Metadata) (env : Env) :
    Advance world (prepareOpen world client authorization metadata env).1 := by
  have hstart : Advance world (startPreparation world env) := .of_kept rfl rfl (fun h => h) rfl
  have hspec := prepareOpen_spec world client authorization metadata env
  generalize prepareOpen world client authorization metadata env = opened at hspec
  cases hspec with
  | refused hresult => exact hstart.trans (.of_kept rfl rfl (fun _ => rfl) rfl)
  | failed hresult hopen hfs => exact hstart.trans (advance_opened rfl)
  | occupied hopen hreserve => exact hstart.trans (advance_opened rfl)

theorem advance_copyToBuffer (world : World) (id : CString) (data : Bytes) (activity : ℕ) :
    Advance world (copyToBuffer world id data activity) := by
  have hnote : Advance world (world.note (.copied ⟨id, data, world.mgr.slot.uploadId,
      world.mgr.slot.occupied, world.mgr.queue.writeTail, world.mgr.queue.writeHead,
      world.mgr.queue.writeQueued⟩)) :=
    .note (fun _ h => by cases h) fun _ h => by cases h
  exact hnote.trans (.of_kept rfl rfl (fun h => h) rfl)

theorem advance_recordPublished (world : World) (id digest : CString) (metrics : Metrics)
    (linked : Bool) (fs : Fs) (env : Env) :
    Advance world (recordPublished world id digest metrics linked fs env) := by
  have hnote : Advance world (world.note (.published id world.mgr.slot.finalPath
      ((fs.contents world.mgr.slot.finalPath).getD []) digest)) :=
    .note (fun _ h => by cases h) fun _ h => by cases h
  exact hnote.trans (.of_kept rfl rfl (fun h => h) rfl)

theorem advance_publishSlot (world : World) (id digest : CString) (elapsed : ℕ) (env : Env) :
    Advance world (publishSlot world id digest elapsed env).1 := by
  unfold publishSlot
  dsimp only
  split
  · exact .refl world
  split
  · exact .refl world
  have hclosed : Advance world (closeFd world) := .of_kept rfl rfl (fun _ => rfl) rfl
  split
  · exact hclosed
  have hreached : Advance world
      ((closeFd world).note (.publishing (publishRecord world id digest))) :=
    hclosed.trans (.note (fun _ h => by cases h) fun _ h => by cases h)
  split
  · exact hreached
  · exact hreached.trans (advance_recordPublished ..)

theorem advance_directWritten (world : World) (data : Bytes) (error : Option Errno) (env : Env) :
    Advance world (directWritten world data error env).1 := by
  cases error with
  | none => exact .of_kept rfl rfl (fun h => h) rfl
  | some error => exact .of_kept rfl rfl (fun h => h) rfl

theorem advance_update {code : Code} {world next : World} (h : Update code world next) :
    Advance world next := by
  cases h with
  | discard => exact advance_clearStart world
  | reap io _ hlease =>
      exact advance_clearRest io fun _ => .inl ⟨leaseExpired_occupied hlease, rfl⟩
  | clear origin io _ hidle howned => exact advance_clearRest io fun h => .inl ⟨howned h, rfl⟩
  | names authorization _ _ hfree => exact advance_prepareNames hfree ..
  | open_ client authorization => exact advance_prepareOpen ..
  | copy id activity => exact advance_copyToBuffer ..
  | endDirect => exact advance_directWritten ..
  | publish id digest elapsed env => exact advance_publishSlot ..
  | destination | begin | enqueue | enable | startDirect | accept | store | drop | abort | ready
  | finalize | unfinalize | digest => exact .of_kept rfl rfl (fun h => h) rfl

theorem advance_updates {code : Code} {world next : World} (h : Updates code world next) :
    Advance world next := by
  induction h with
  | refl => exact .refl world
  | tail _ hupdate ih => exact ih.trans (advance_update hupdate)

/-- A clearing that a stretch parks in is aimed at the slot. -/
theorem aimed_of_parks {code : Code} {world : World} {pc : Pc} {target : CString}
    (h : Parks code world pc) (htarget : pc.ownedTarget = some target) :
    Aimed world.mgr.slot target := by
  cases h with
  | reaping _ hlease =>
      obtain rfl := Option.some.inj htarget
      exact .inl ⟨leaseExpired_occupied hlease, rfl⟩
  | clearing closing howned =>
      simp only [Pc.ownedTarget] at htarget
      split at htarget
      · rename_i hown
        obtain rfl := Option.some.inj htarget
        exact .inl ⟨howned hown, rfl⟩
      · cases htarget
  | _ => cases htarget

/-- A stretch advances, and what it parks in is aimed at the slot it leaves. -/
structure StretchAims (world : World) (stretch : World × Outcome) : Prop where
  advance : Advance world stretch.1
  parked : ∀ pc target, stretch.2 = .park pc → pc.ownedTarget = some target →
    Aimed stretch.1.mgr.slot target

theorem Stretch.aims {code : Code} {world : World} {stretch : World × Outcome}
    (h : Stretch code world stretch) : StretchAims world stretch :=
  ⟨advance_updates h.updates, fun pc _ hpark => aimed_of_parks (h.parks pc hpark)⟩

theorem StretchAims.trans {world middle : World} {stretch : World × Outcome}
    (hfirst : Advance world middle) (hsecond : StretchAims middle stretch) :
    StretchAims world stretch :=
  ⟨hfirst.trans hsecond.advance, hsecond.parked⟩

theorem Pc.ownedTarget_of_clears {pc : Pc} {origin : Origin} {target : CString}
    (h : pc.clears = some (origin, target)) (howned : origin.owned = true) :
    pc.ownedTarget = some target := by
  cases pc <;> simp only [Pc.clears, Option.some.injEq, Prod.mk.injEq, reduceCtorEq] at h <;>
    obtain ⟨rfl, rfl⟩ := h
  · rfl
  · cases howned
  · exact if_pos howned

/-- A stretch that goes on behind a clearing keeps to the slot the clearing is aimed at. -/
theorem Resumed.aims {world : World} {pc : Pc} {env : Env} {stretch : World × Outcome}
    (h : Resumed world pc env stretch)
    (haimed : ∀ target, pc.ownedTarget = some target → Aimed world.mgr.slot target) :
    StretchAims world stretch := by
  cases h with
  | asleep =>
      refine ⟨.refl world, ?_⟩
      rintro _ target ⟨⟩ htarget
      exact haimed target htarget
  | clears io hpc hidle hrest =>
      refine .trans (advance_clearRest io fun howned => ?_) hrest.aims
      exact haimed _ (Pc.ownedTarget_of_clears hpc howned)
  | continues hrest => exact hrest.aims

/-! ## Runs -/

/-- Every parked clearing of a cancel, an abort or a lease expiry is aimed at the slot. -/
structure ClearInv (sys : Sys) : Prop where
  clearsOwn : ClearsOwn sys.world.trace
  aimed : ∀ tid thread target, sys.threads tid = some thread →
    thread.pc.ownedTarget = some target → Aimed sys.world.mgr.slot target

theorem clearInv_initial (host : Bool) (destination : CString)
    (maxFileBytes maxFiles leaseSeconds : ℕ) (override : Option CString) (fs : Fs) :
    ClearInv (.initial host destination maxFileBytes maxFiles leaseSeconds override fs) := by
  refine ⟨?_, ?_⟩
  · intro clearing hmem
    simp [Sys.initial] at hmem
  · intro tid thread target hthread
    simp [Sys.initial] at hthread

theorem openings_note_returned (world : World) (call : Call) (reply : Reply) :
    openings (world.note (.returned call reply)).trace = openings world.trace := by
  simp [World.note, openings]

/-- A change of the world that opens no part file. -/
theorem ClearInv.advance {sys : Sys} {world : World} {writer : WriterPc} (hinv : ClearInv sys)
    (h : Advance sys.world world) (hsame : openings sys.world.trace = openings world.trace) :
    ClearInv { sys with world, writer } :=
  ⟨h.clearsOwn hinv.clearsOwn, fun tid thread target hthread htarget =>
    h.aimed hsame target (hinv.aimed tid thread target hthread htarget)⟩

/-- A call that goes to a point outside these clearings. -/
theorem ClearInv.setPc {sys : Sys} {tid : ℕ} {call : Call} {pc : Pc} (hinv : ClearInv sys)
    (hpc : pc.ownedTarget = none) : ClearInv (sys.setPc tid call pc) := by
  refine ⟨hinv.clearsOwn, ?_⟩
  intro other thread target hthread htarget
  simp only [Sys.setPc, Function.update_apply] at hthread
  split at hthread
  · obtain rfl := Option.some.inj hthread
    simp [hpc] at htarget
  · exact hinv.aimed other thread target hthread htarget

/-- The end of a stretch, when a part file it opened finds no clearing parked. -/
theorem ClearInv.settle {sys : Sys} {tid : ℕ} {call : Call} {stretch : World × Outcome}
    (hinv : ClearInv sys) (h : StretchAims sys.world stretch)
    (halone : openings (sys.settle tid call stretch).world.trace ≠ openings sys.world.trace →
      ∀ other thread, (sys.settle tid call stretch).threads other = some thread →
        thread.pc.ownedTarget = none) :
    ClearInv (sys.settle tid call stretch) := by
  obtain ⟨next, outcome⟩ := stretch
  cases outcome with
  | park pc =>
      refine ⟨h.advance.clearsOwn hinv.clearsOwn, ?_⟩
      intro other thread target hthread htarget
      by_cases hsame : openings next.trace = openings sys.world.trace
      · simp only [Sys.settle, Sys.setPc, Function.update_apply] at hthread
        split at hthread
        · obtain rfl := Option.some.inj hthread
          exact h.parked pc target rfl htarget
        · exact h.advance.aimed hsame.symm target (hinv.aimed other thread target hthread htarget)
      · simp [halone hsame other thread hthread] at htarget
  | done reply =>
      have hnote := openings_note_returned next call reply
      have hreturned : Advance next (next.note (.returned call reply)) :=
        .note (fun _ h => by cases h) fun _ h => by cases h
      refine ⟨hreturned.clearsOwn (h.advance.clearsOwn hinv.clearsOwn), ?_⟩
      intro other thread target hthread htarget
      by_cases hsame : openings next.trace = openings sys.world.trace
      · simp only [Sys.settle, Function.update_apply] at hthread
        split at hthread
        · cases hthread
        · exact h.advance.aimed hsame.symm target (hinv.aimed other thread target hthread htarget)
      · simp [halone (by simpa [Sys.settle, hnote] using hsame) other thread hthread] at htarget

theorem advance_completeJob (world : World) (job : Job) (error : Option Errno) (elapsedNs : ℕ) :
    Advance world (completeJob world job error elapsedNs) ∧
      openings world.trace = openings (completeJob world job error elapsedNs).trace := by
  cases job with
  | queue index size => exact ⟨.of_kept rfl rfl (fun h => h) rfl, rfl⟩
  | chunk index address size =>
      cases error with
      | some error => exact ⟨.of_kept rfl rfl (fun h => h) rfl, rfl⟩
      | none =>
          have hnote : Advance world (world.note (.drained index)) :=
            .note (fun _ h => by cases h) fun _ h => by cases h
          refine ⟨hnote.trans (.of_kept rfl rfl (fun h => h) rfl), ?_⟩
          simp [completeJob, openings]

theorem clearInv_step {sys next : Sys} {action : Action} (hinv : ClearInv sys)
    (halone : OpensAlone sys action) (hstep : step sys action = some next) : ClearInv next := by
  have hopens := halone next hstep
  cases step_stepped hstep with
  | call hfree => exact hinv.settle (enterCall_stretch ..).aims hopens
  | @resume tid env thread stretch hthread hresume =>
      refine hinv.settle ((resume_resumed hresume).aims ?_) hopens
      intro target htarget
      exact hinv.aimed _ _ target hthread htarget
  | directIo hthread hio =>
      exact ClearInv.setPc (hinv.advance (.of_kept rfl rfl (fun h => h) rfl) rfl) rfl
  | hashFinish hthread hhash => exact hinv.setPc rfl
  | hashChunks hthread hhash => exact hinv.setPc rfl
  | pick hwriter hjob => exact hinv.advance (.of_kept rfl rfl (fun h => h) rfl) rfl
  | @writerIo result job done bytes fs count error hwriter hbytes hio =>
      have hfs : Advance sys.world { sys.world with fs } := .of_kept rfl rfl (fun h => h) rfl
      cases error with
      | none => exact hinv.advance hfs rfl
      | some error =>
          refine hinv.advance (hfs.trans (.note (fun _ h => by cases h) fun _ h => by cases h)) ?_
          simp [World.note, openings]
  | complete hwriter hdone =>
      obtain ⟨h, hsame⟩ := advance_completeJob sys.world _ _ _
      exact hinv.advance h hsame

/-- In a run in which no part file is opened while a cancel, an abort or a lease expiry is
parked in `clear_slot`, none of these ever clears another upload. -/
theorem clearsOwn_of_opensAlone {host : Bool} {destination : CString}
    {maxFileBytes maxFiles leaseSeconds : ℕ} {override : Option CString} {fs : Fs}
    {actions : List Action} {sys : Sys}
    (hrun : Run step OpensAlone
      (.initial host destination maxFileBytes maxFiles leaseSeconds override fs) actions sys) :
    ClearsOwn sys.world.trace :=
  (hrun.invariant (fun _ _ _ => clearInv_step) (clearInv_initial ..)).clearsOwn

/-- `OpensAlone`, decided where all threads are below `bound`. -/
def opensAlone (bound : ℕ) (sys : Sys) (action : Action) : Bool :=
  (step sys action).all fun next =>
    openings next.world.trace = openings sys.world.trace ∨
      (next.under bound).all fun (_, thread) => thread.pc.ownedTarget = none

theorem opensAlone_of_check {sys : Sys} {action : Action} {bound : ℕ} (h : sys.Below bound)
    (hacts : action.tid.all (· < bound) = true) (hcheck : opensAlone bound sys action = true) :
    OpensAlone sys action := by
  intro next hstep hopens tid thread hthread
  simp only [opensAlone, hstep, Option.all_some, decide_eq_true_eq, List.all_eq_true] at hcheck
  exact hcheck.resolve_left hopens _ ((h.step hacts hstep).mem_under hthread)

namespace Sample

/-- The system with upload 1 of five bytes in the slot. -/
def prepared : Sys :=
  (step (start 60) (prepare 0 1 5)).get (by decide +kernel)

/-- A chunk of upload 1 is being written when the upload is cancelled. The cancel waits for the
writer and clears the slot, and upload 2 is prepared. -/
def cancelWriting : List Action :=
  [prepare 0 1 1, .call 0 (.chunkBegin (uploadId 1) client authorization 1 0 1) (env 0),
    .call 0 (.chunkWrite (uploadId 1) 0 [7]) (env 0),
    .call 0 (.chunkFinish (uploadId 1) 0 1) (env 0), .pick, cancel 1 1, .writerIo (.wrote 1),
    .complete 0, .resume 1 (env 0), prepare 3 2 5]

/-- A chunk of upload 1 is being written when two calls cancel it. The first clears the
slot, upload 2 is prepared, and the second wakes up. -/
def twoCancels : List Action :=
  [prepare 0 1 1, .call 0 (.chunkBegin (uploadId 1) client authorization 1 0 1) (env 0),
    .call 0 (.chunkWrite (uploadId 1) 0 [7]) (env 0),
    .call 0 (.chunkFinish (uploadId 1) 0 1) (env 0), .pick, cancel 1 1, cancel 2 1,
    .writerIo (.wrote 1), .complete 0, .resume 1 (env 0), prepare 3 2 5, .resume 2 (env 0)]

end Sample

open Sample in
/-- A cancel that has waited for the writer clears its own upload, before the next one. -/
theorem clearsOwn_cancelWriting :
    ∃ sys, exec step (start 60) cancelWriting = some sys ∧
      .cleared ⟨.cancelled, uploadId 1, uploadId 1, true, some 0⟩ ∈ sys.world.trace ∧
      sys.world.mgr.slot.uploadId = uploadId 2 ∧ ClearsOwn sys.world.trace := by
  have hexec : ∃ sys, exec (checked (below 4 (opensAlone 4)) step) (start 60) cancelWriting =
      some sys ∧ .cleared ⟨.cancelled, uploadId 1, uploadId 1, true, some 0⟩ ∈ sys.world.trace ∧
      sys.world.mgr.slot.uploadId = uploadId 2 := exists_of_exec (by decide +kernel)
  obtain ⟨sys, hexec, hcleared, hsecond⟩ := hexec
  have hrun := run_of_exec_below (fun _ _ => opensAlone_of_check) (fun _ _ => rfl) hexec
  exact ⟨sys, exec_of_run hrun, hcleared, hsecond, clearsOwn_of_opensAlone hrun⟩

open Sample in
/-- The second cancel closes and resets the upload prepared after the first. -/
theorem twoCancels_clears_other :
    ∃ sys, exec step (start 60) twoCancels = some sys ∧ ¬ClearsOwn sys.world.trace := by
  have hrun : ∃ sys, exec step (start 60) twoCancels = some sys ∧
      .cleared ⟨.cancelled, uploadId 1, uploadId 2, true, some 1⟩ ∈ sys.world.trace :=
    exists_of_exec (by decide +kernel)
  obtain ⟨sys, hexec, hmem⟩ := hrun
  refine ⟨sys, hexec, fun hown => ?_⟩
  rcases hown _ hmem rfl with hid | ⟨hfree, -⟩
  · exact absurd hid (by decide +kernel)
  · cases hfree

end LocalSend.Upload
