import LocalSend.Verification.Upload.Clear
import LocalSend.Verification.Upload.Invariant

/-! # How many files a session may publish

The count of published files is that of the session in the slot, and stays within the limit:
a part file is opened only when there is room for one more, and it is published at most once.
-/

namespace LocalSend.Upload

open Transition

def Event.isPublished : Event → Bool
  | .published _ _ _ _ => true
  | _ => false

/-- The number of files published so far. -/
def publications (trace : List Event) : ℕ := trace.countP Event.isPublished

/-- The upload in the slot is that of the session the count is for, and while a part file is
open there is room for one more file. -/
structure Quota (maxFiles : ℕ) (world : World) : Prop where
  maxFiles_eq : world.mgr.settings.maxFiles = maxFiles
  session : world.mgr.slot.occupied = true →
    world.mgr.settings.completedAuthorization = world.mgr.slot.authorization
  room : world.mgr.slot.fd.isSome = true → world.mgr.settings.completedFiles < maxFiles
  limit : world.mgr.settings.completedFiles ≤ maxFiles

variable {maxFiles : ℕ} {code : Code} {world next last : World}

theorem Settings.forAuthorization_maxFiles (settings : Settings) (authorization : CString) :
    (settings.forAuthorization authorization).maxFiles = settings.maxFiles := by
  unfold forAuthorization
  split <;> rfl

theorem Settings.forAuthorization_completed_le (settings : Settings) (authorization : CString) :
    (settings.forAuthorization authorization).completedFiles ≤ settings.completedFiles := by
  unfold forAuthorization
  split
  · exact Nat.zero_le _
  · exact le_rfl

theorem quota_prepareNames (h : Quota maxFiles world) (hfree : world.mgr.slot.occupied = false)
    (authorization : CString) (metadata : Metadata) (env : Env) :
    Quota maxFiles (prepareNames world authorization metadata env).1 := by
  obtain ⟨_, _, _, _, hnames⟩ := prepareNames_eq world authorization metadata env
  have hle := world.mgr.settings.forAuthorization_completed_le authorization
  rw [hnames]
  refine ⟨?_, fun htaken => ?_, fun hfd => ?_, hle.trans h.limit⟩
  · exact (world.mgr.settings.forAuthorization_maxFiles authorization).trans h.maxFiles_eq
  · exact absurd (hfree.symm.trans htaken) (by simp)
  · exact hle.trans_lt (h.room hfd)

theorem quota_prepareOpen {authorization : CString} (h : Quota maxFiles world)
    (hsettings : world.mgr.settings.Admits authorization) (client : CString)
    (metadata : Metadata) (env : Env) :
    Quota maxFiles (prepareOpen world client authorization metadata env).1 := by
  have hroom := hsettings.room
  rw [h.maxFiles_eq] at hroom
  have hspec := prepareOpen_spec world client authorization metadata env
  generalize prepareOpen world client authorization metadata env = opened at hspec
  cases hspec with
  | refused => exact ⟨h.maxFiles_eq, h.session, nofun, h.limit⟩
  | failed => exact ⟨h.maxFiles_eq, h.session, fun _ => hroom, h.limit⟩
  | occupied => exact ⟨h.maxFiles_eq, fun _ => hsettings.session, fun _ => hroom, h.limit⟩

theorem quota_publishSlot (h : Quota maxFiles world) (id digest : CString) (elapsed : ℕ)
    (env : Env) : Quota maxFiles (publishSlot world id digest elapsed env).1 := by
  have hspec := publishSlot_spec world id digest elapsed env
  generalize publishSlot world id digest elapsed env = published at hspec
  cases hspec with
  | refused => exact h
  | unclosed | failed => exact ⟨h.maxFiles_eq, h.session, nofun, h.limit⟩
  | published hfd => exact ⟨h.maxFiles_eq, h.session, nofun, h.room (by simp [hfd])⟩

theorem quota_update (h : Quota maxFiles world) (hupdate : Update code world next) :
    Quota maxFiles next := by
  cases hupdate with
  | reap | clear => exact ⟨h.maxFiles_eq, nofun, nofun, h.limit⟩
  | names authorization _ _ hfree => exact quota_prepareNames h hfree ..
  | open_ client authorization _ _ _ _ _ _ hsettings => exact quota_prepareOpen h hsettings ..
  | publish id digest elapsed env => exact quota_publishSlot h ..
  | @endDirect _ _ error => cases error <;> exact ⟨h.maxFiles_eq, h.session, h.room, h.limit⟩
  | discard | destination | begin | copy | enqueue | enable | startDirect | accept | store | drop
    | abort | ready | finalize | unfinalize | digest =>
      exact ⟨h.maxFiles_eq, h.session, h.room, h.limit⟩

theorem quota_completeJob (h : Quota maxFiles world) (job : Job) (error : Option Errno)
    (elapsedNs : ℕ) : Quota maxFiles (completeJob world job error elapsedNs) := by
  cases job with
  | queue => exact ⟨h.maxFiles_eq, h.session, h.room, h.limit⟩
  | chunk => cases error <;> exact ⟨h.maxFiles_eq, h.session, h.room, h.limit⟩

theorem quota_keptBySteps (maxFiles : ℕ) : KeptBySteps (fun _ => True) (Quota maxFiles) where
  update := fun _ h hupdate => quota_update h hupdate
  clear := fun _ _ _ _ h => ⟨h.maxFiles_eq, nofun, nofun, h.limit⟩
  returned := fun _ _ h => ⟨h.maxFiles_eq, h.session, h.room, h.limit⟩
  write := fun h _ => ⟨h.maxFiles_eq, h.session, h.room, h.limit⟩
  writeFailed := fun h => ⟨h.maxFiles_eq, h.session, h.room, h.limit⟩
  pick := fun h => ⟨h.maxFiles_eq, h.session, h.room, h.limit⟩
  complete := fun elapsedNs _ _ h => quota_completeJob h _ _ elapsedNs

/-! ## What is counted -/

/-- Each publication is counted, unless the count starts anew for the session that prepares. -/
structure Counted (code : Code) (world next : World) : Prop where
  quiet : code.setup = .slot → publications next.trace = publications world.trace
  counts : (next.mgr.settings.completedAuthorization =
      world.mgr.settings.completedAuthorization ∧
      next.mgr.settings.completedFiles + publications world.trace =
        world.mgr.settings.completedFiles + publications next.trace) ∨
    (code.setup = .slot ∧
      code.authorization = some next.mgr.settings.completedAuthorization ∧
      next.mgr.settings.completedAuthorization ≠ world.mgr.settings.completedAuthorization)

theorem Counted.of_same (hsettings : next.mgr.settings.completedAuthorization =
      world.mgr.settings.completedAuthorization ∧
      next.mgr.settings.completedFiles = world.mgr.settings.completedFiles)
    (htrace : publications next.trace = publications world.trace) : Counted code world next :=
  ⟨fun _ => htrace, .inl ⟨hsettings.1, by rw [hsettings.2, htrace]⟩⟩

theorem Counted.refl (code : Code) (world : World) : Counted code world world :=
  .of_same ⟨rfl, rfl⟩ rfl

theorem Counted.trans (h : Counted code world next) (h' : Counted code next last) :
    Counted code world last := by
  refine ⟨fun hcode => (h'.quiet hcode).trans (h.quiet hcode), ?_⟩
  rcases h.counts with ⟨hsame, hcount⟩ | ⟨hcode, hauthorization, hother⟩
  · rcases h'.counts with ⟨hsame', hcount'⟩ | ⟨hcode', hauthorization', hother'⟩
    · exact .inl ⟨hsame'.trans hsame, by omega⟩
    · exact .inr ⟨hcode', hauthorization', hsame ▸ hother'⟩
  · rcases h'.counts with ⟨hsame', -⟩ | ⟨-, hauthorization', hother'⟩
    · exact .inr ⟨hcode, hsame' ▸ hauthorization, hsame' ▸ hother⟩
    · -- Both times the count has started anew for the session of the one prepare.
      exact absurd (Option.some.inj (hauthorization'.symm.trans hauthorization)) hother'

theorem counted_prepareNames {authorization : CString} {metadata : Metadata}
    (hcode : code.setup = .slot) (hauthorization : code.authorization = some authorization)
    (world : World) (env : Env) :
    Counted code world (prepareNames world authorization metadata env).1 := by
  obtain ⟨_, _, _, _, hnames⟩ := prepareNames_eq world authorization metadata env
  rw [hnames]
  by_cases hsame : world.mgr.settings.completedAuthorization = authorization
  · have hsettings : world.mgr.settings.forAuthorization authorization = world.mgr.settings := by
      simp [Settings.forAuthorization, hsame]
    refine .of_same ?_ rfl
    rw [hsettings]
    exact ⟨rfl, rfl⟩
  · have hsession := world.mgr.settings.forAuthorization_session authorization
    refine ⟨fun _ => rfl, .inr ⟨hcode, ?_, ?_⟩⟩
    · exact hauthorization.trans (congrArg some hsession.symm)
    · exact fun heq => hsame (heq.symm.trans hsession)

theorem counted_prepareOpen (world : World) (client authorization : CString) (metadata : Metadata)
    (env : Env) : Counted code world (prepareOpen world client authorization metadata env).1 := by
  have hspec := prepareOpen_spec world client authorization metadata env
  generalize prepareOpen world client authorization metadata env = opened at hspec
  cases hspec with
  | refused => exact .of_same ⟨rfl, rfl⟩ rfl
  | failed | occupied =>
      exact .of_same ⟨rfl, rfl⟩
        (by simp [publications, openedPart, occupySlot, startPreparation, Event.isPublished])

theorem counted_publishSlot (hcode : code.setup = .nothing) (world : World) (id digest : CString)
    (elapsed : ℕ) (env : Env) :
    Counted code world (publishSlot world id digest elapsed env).1 := by
  have hspec := publishSlot_spec world id digest elapsed env
  generalize publishSlot world id digest elapsed env = published at hspec
  cases hspec with
  | refused => exact .refl code world
  | unclosed => exact .of_same ⟨rfl, rfl⟩ rfl
  | failed =>
      exact .of_same ⟨rfl, rfl⟩
        (by simp [publications, publishReached, closeFd, World.note, Event.isPublished])
  | published hfd =>
      refine ⟨fun hslot => by simp [hcode] at hslot, .inl ⟨rfl, ?_⟩⟩
      simp only [publications, recordPublished, publishReached, closeFd, World.note,
        Settings.published, Event.isPublished, List.countP_cons, if_true, Bool.false_eq_true,
        if_false]
      omega

theorem counted_update (hupdate : Update code world next) : Counted code world next := by
  cases hupdate with
  | reap | clear =>
      exact .of_same ⟨rfl, rfl⟩ (by simp [publications, clearRest, Event.isPublished])
  | names authorization hcode _ _ hauthorization =>
      exact counted_prepareNames hcode hauthorization ..
  | open_ => exact counted_prepareOpen ..
  | copy => exact .of_same ⟨rfl, rfl⟩ (by simp [publications, copyToBuffer, Event.isPublished])
  | publish id digest elapsed env hcode => exact counted_publishSlot hcode ..
  | @endDirect _ _ error => cases error <;> exact .of_same ⟨rfl, rfl⟩ rfl
  | discard | destination | begin | enqueue | enable | startDirect | accept | store | drop
    | abort | ready | finalize | unfinalize | digest => exact .of_same ⟨rfl, rfl⟩ rfl

theorem counted_updates (hupdates : Updates code world next) : Counted code world next := by
  induction hupdates with
  | refl => exact .refl code world
  | tail _ hlast ih => exact ih.trans (counted_update hlast)

/-- A step counts what it publishes; when it starts the count anew, it publishes nothing. -/
structure CountedStep (world next : World) : Prop where
  counts : next.mgr.settings.completedAuthorization =
      world.mgr.settings.completedAuthorization →
    next.mgr.settings.completedFiles + publications world.trace =
      world.mgr.settings.completedFiles + publications next.trace
  published : publications next.trace ≠ publications world.trace →
    next.mgr.settings.completedAuthorization = world.mgr.settings.completedAuthorization

theorem Counted.step (h : Counted code world next) : CountedStep world next := by
  rcases h.counts with ⟨hsame, hcount⟩ | ⟨hcode, -, hother⟩
  · exact ⟨fun _ => hcount, fun _ => hsame⟩
  · exact ⟨fun hsame => absurd hsame hother, fun hne => absurd (h.quiet hcode) hne⟩

theorem counted_settled {stretch : World × Outcome} (h : Counted code world stretch.1)
    (call : Call) : Counted code world (settled call stretch) := by
  refine h.trans ?_
  obtain ⟨next, outcome⟩ := stretch
  cases outcome with
  | park => exact .refl code next
  | done =>
      exact .of_same ⟨rfl, rfl⟩
        (by simp [settled, World.note, publications, Event.isPublished])

theorem counted_resume {pc : Pc} {env : Env} {stretch : World × Outcome}
    (hresume : resume world pc env = some stretch) :
    Counted (pc.resumes env) world stretch.1 := by
  cases resume_resumed hresume with
  | asleep => exact .refl _ world
  | @clears origin target _ io _ _ hrest =>
      have hclear : Counted (pc.resumes env) world (clearRest world origin target io).1 :=
        .of_same ⟨rfl, rfl⟩ (by simp [publications, clearRest, Event.isPublished])
      exact hclear.trans (counted_updates hrest.updates)
  | continues hrest => exact counted_updates hrest.updates

theorem countedStep_completeJob (world : World) (job : Job) (error : Option Errno)
    (elapsedNs : ℕ) : CountedStep world (completeJob world job error elapsedNs) := by
  have hsame : (completeJob world job error elapsedNs).mgr.settings = world.mgr.settings ∧
      publications (completeJob world job error elapsedNs).trace = publications world.trace := by
    cases job with
    | queue => exact ⟨rfl, rfl⟩
    | chunk => cases error <;> simp [completeJob, publications, Event.isPublished]
  exact ⟨fun _ => by rw [hsame.1, hsame.2], fun hne => absurd hsame.2 hne⟩

theorem countedStep_step {sys sys' : Sys} {action : Action} (hstep : step sys action = some sys') :
    CountedStep sys.world sys'.world := by
  cases step_stepped hstep with
  | call =>
      rw [settle_eq]
      exact (counted_settled (counted_updates (enterCall_stretch ..).updates) _).step
  | resume _ hresume =>
      rw [settle_eq]
      exact (counted_settled (counted_resume hresume) _).step
  | @writerIo _ _ _ _ _ _ error =>
      cases error with
      | none => exact ⟨fun _ => rfl, fun hne => absurd rfl hne⟩
      | some error =>
          have hsame : publications (.writeFailed :: sys.world.trace) =
              publications sys.world.trace := by simp [publications, Event.isPublished]
          exact ⟨fun _ => congrArg _ hsame.symm, fun hne => absurd hsame hne⟩
  | complete => exact countedStep_completeJob ..
  | directIo | hashFinish | hashChunks | pick => exact ⟨fun _ => rfl, fun hne => absurd rfl hne⟩

/-! ## A writer that is at work when the file is published -/

/-- One write that fills the tail buffer hands it to the writer. -/
theorem writeLoop_fills {id : CString} {rest : Bytes} {activity : ℕ}
    (hrest : rest.length = UPLOAD_WRITE_BUFFER_BYTES)
    (hempty : world.mgr.queue.buffered = 0) (hqueued : world.mgr.queue.writeQueued = 0)
    (herror : world.mgr.queue.writerError = none)
    (hopen : world.mgr.queue.writerDiscard = false ∧ world.mgr.queue.writerShutdown = false) :
    writeLoop world id rest activity =
      ((copyToBuffer world id rest activity).setQueue
        (copyToBuffer world id rest activity).mgr.queue.pushed, .of .ok) := by
  have hround : world.mgr.queue.roundCount rest = rest.length := by
    simp [Queue.roundCount, sub64, hempty, hrest]
  have hfull : (copyToBuffer world id rest activity).mgr.queue.buffered =
      UPLOAD_WRITE_BUFFER_BYTES := by simp [copyToBuffer, hempty, hrest]
  have hne : rest ≠ [] := by
    rintro rfl
    cases hrest
  have hpush : enqueueWriteBufferLocked (copyToBuffer world id rest activity).mgr.queue =
      .ok (copyToBuffer world id rest activity).mgr.queue.pushed := by
    unfold enqueueWriteBufferLocked
    rw [hfull, if_neg (by decide)]
    simp [copyToBuffer, Queue.pushed, hqueued, herror, hopen, hempty, hrest,
      UPLOAD_WRITE_QUEUE_DEPTH]
  have htake : rest.take (world.mgr.queue.roundCount rest) = rest := by
    rw [hround, List.take_length]
  have hdrop : rest.drop (world.mgr.queue.roundCount rest) = [] := by
    rw [hround, List.drop_length]
  rw [writeLoop, dif_neg hne, if_neg (by simp [hqueued, UPLOAD_WRITE_QUEUE_DEPTH])]
  split
  · rename_i error hfailed
    simp [herror] at hfailed
  rw [dif_pos (by rw [htake]; exact hfull)]
  split
  · rename_i hwait
    rw [htake, hpush] at hwait
    cases hwait
  · rename_i error hfailed
    rw [htake, hpush] at hfailed
    cases hfailed
  · rename_i queue henqueued
    rw [htake, hpush] at henqueued
    cases henqueued
    rw [hdrop, writeLoop, dif_pos rfl, htake]

namespace Sample

/-- A manager that lets a session publish one file. -/
def single : Sys :=
  .initial true [47, 100] (2 ^ 30) 1 60 none ⟨fun _ => none, fun _ => ⟨[], 0⟩, 0⟩

/-- An upload of one full write buffer is begun as a direct stream. -/
def beginDirect : List Action :=
  [prepare 0 1 UPLOAD_WRITE_BUFFER_BYTES,
    .call 0 (.begin (uploadId 1) client authorization UPLOAD_WRITE_BUFFER_BYTES) (env 0),
    .call 0 (.enableDirectStream (uploadId 1)) (env 0)]

def direct : Sys := (exec step single beginDirect).get (by decide +kernel)

def fullBuffer : Bytes := .replicate UPLOAD_WRITE_BUFFER_BYTES 0

/-- All its bytes are in the queue. -/
def queuedDirect : Sys :=
  { direct with
    world := { direct.world with
      mgr.slot := { direct.world.mgr.slot with
        received := UPLOAD_WRITE_BUFFER_BYTES
        sha256 := Sha256.sha256Update direct.world.mgr.slot.sha256 fullBuffer }
      mgr.queue := { direct.world.mgr.queue with
        writeBuffer := Function.update direct.world.mgr.queue.writeBuffer 0
          (Buffer.splice (direct.world.mgr.queue.writeBuffer 0) 0 fullBuffer)
        writeSizes := Function.update direct.world.mgr.queue.writeSizes 0
          UPLOAD_WRITE_BUFFER_BYTES
        writeTail := 1
        writeQueued := 1 }
      trace := [.returned (.write (uploadId 1) fullBuffer) (.of .ok),
        .copied ⟨uploadId 1, fullBuffer, uploadId 1, true, 0, 0, 0⟩] ++ direct.world.trace } }

theorem step_fullBuffer :
    step direct (.call 0 (.write (uploadId 1) fullBuffer) (env 0)) = some queuedDirect := by
  have hlength : fullBuffer.length = UPLOAD_WRITE_BUFFER_BYTES := List.length_replicate
  have hthread : direct.threads 0 = none :=
    Option.isNone_iff_eq_none.mp (by decide +kernel)
  have hlease : leaseExpired direct.world.mgr (env 0).now = false := by decide +kernel
  have hfound : direct.world.mgr.slot.occupied = true ∧ direct.world.mgr.slot.started = true ∧
      direct.world.mgr.slot.uploadId = uploadId 1 := by decide +kernel
  have hempty : direct.world.mgr.slot.received = 0 ∧
      direct.world.mgr.slot.expectedSize = UPLOAD_WRITE_BUFFER_BYTES := by decide +kernel
  have hqueue : direct.world.mgr.queue.buffered = 0 ∧ direct.world.mgr.queue.writeQueued = 0 ∧
      direct.world.mgr.queue.writerError = none ∧ direct.world.mgr.queue.writeTail = 0 ∧
      direct.world.mgr.queue.writeHead = 0 ∧
      direct.world.mgr.queue.writerDiscard = false ∧
      direct.world.mgr.queue.writerShutdown = false := by decide +kernel
  obtain ⟨hoccupied, hstarted, hid⟩ := hfound
  obtain ⟨hbuffered, hqueued, herror, htail, hhead, hopen⟩ := hqueue
  have hloop := @writeLoop_fills direct.world (uploadId 1) fullBuffer (env 0).activity hlength
    hbuffered hqueued herror hopen
  have hcall : enterCall direct.world (.write (uploadId 1) fullBuffer) (env 0) =
      writeLoop direct.world (uploadId 1) fullBuffer (env 0).activity := by
    simp only [enterCall, Call.refused, reapLocked, hlease, afterReap, uploadWrite]
    simp [hoccupied, hstarted, hid, hempty, hlength, sub64]
  have hactivity : (env 0).activity = direct.world.mgr.slot.lastActivity := by decide +kernel
  simp only [step, hthread, hcall, hloop]
  simp [Sys.settle, Outcome.of, copyToBuffer, World.setQueue, World.note, Queue.pushed,
    queuedDirect, UPLOAD_WRITE_QUEUE_DEPTH, hlength, hbuffered, hqueued, htail, hhead, hid,
    hoccupied, hempty, hactivity, ← hthread]

/-- The bytes of the direct stream come through the queue. The writer is at them when the
finish publishes the file. -/
def passWriter : List Action :=
  [.pick, .call 0 (.finish (uploadId 1)) (env 0), .hash 0 (.ok []), .resume 0 (env 0)]

end Sample

/-! ## Every run -/

/-- The count stays with the session it is for. -/
def KeepsSession (sys : Sys) (action : Action) : Prop :=
  ∀ next, step sys action = some next →
    next.world.mgr.settings.completedAuthorization =
      sys.world.mgr.settings.completedAuthorization

/-- While the count stays with one session, it is the number of files published for it. -/
theorem counts_run {sys later : Sys} {actions : List Action}
    (hrun : Run step KeepsSession sys actions later) :
    later.world.mgr.settings.completedFiles + publications sys.world.trace =
      sys.world.mgr.settings.completedFiles + publications later.world.trace := by
  refine hrun.invariant (I := fun later =>
    later.world.mgr.settings.completedFiles + publications sys.world.trace =
      sys.world.mgr.settings.completedFiles + publications later.world.trace) ?_ rfl
  intro middle action next hcount hkeeps hstep
  have hnext := (countedStep_step hstep).counts (hkeeps next hstep)
  omega

/-- In every reachable state the upload in the slot is that of the session the count is for,
which may publish one more file until a finish has closed the part file. No more than
`maxFiles` are published while the count stays with a session, and what is published from
the slot is counted for the session that prepared it. -/
theorem quota_run {host : Bool} {destination : CString} {maxFileBytes maxFiles leaseSeconds : ℕ}
    {override : Option CString} {fs : Fs} {actions : List Action} {sys : Sys}
    (hrun : Run step anyStep
      (.initial host destination maxFileBytes maxFiles leaseSeconds override fs) actions sys) :
    Quota maxFiles sys.world ∧
      (∀ more later, Run step KeepsSession sys more later →
        publications later.world.trace ≤ publications sys.world.trace + maxFiles) ∧
      ∀ action next, step sys action = some next →
        publications next.world.trace ≠ publications sys.world.trace →
        next.world.mgr.settings.completedFiles + publications sys.world.trace =
            sys.world.mgr.settings.completedFiles + publications next.world.trace ∧
          (sys.world.mgr.slot.occupied = true →
            next.world.mgr.settings.completedAuthorization =
              sys.world.mgr.slot.authorization) := by
  have hinitial : Quota maxFiles (Sys.initial host destination maxFileBytes maxFiles leaseSeconds
      override fs).world := ⟨rfl, nofun, nofun, Nat.zero_le _⟩
  obtain ⟨hwriter, hquota, -⟩ := (quota_keptBySteps maxFiles).run_from admission_all
    (fun _ action _ => action.allowed_all) (writerInv_initial ..) hinitial
    (Sys.admitted_of_idle fun _ => rfl) hrun
  refine ⟨hquota, fun more later hmore => ?_, fun action next hstep hpublished => ?_⟩
  · have hcount := counts_run hmore
    have hlater := ((quota_keptBySteps maxFiles).run_from admission_all
      (fun _ action _ => action.allowed_all) hwriter hquota
      (fun _ _ _ _ _ => trivial) hmore).2.1.limit
    omega
  · have hcounted := countedStep_step hstep
    have hsame := hcounted.published hpublished
    exact ⟨hcounted.counts hsame, fun htaken => hsame.trans (hquota.session htaken)⟩

open Sample in
/-- The finish sleeps in `clear_slot`, its upload in the slot, and the one file is counted. -/
theorem passWriter_reaches_limit :
    ∃ sys, exec step single
        (beginDirect ++ .call 0 (.write (uploadId 1) fullBuffer) (env 0) :: passWriter) =
          some sys ∧
      sys.world.mgr.slot.occupied = true ∧
      ¬sys.world.mgr.settings.completedFiles < sys.world.mgr.settings.maxFiles := by
  have hdirect : exec step single beginDirect = some direct := (Option.some_get _).symm
  have hpass : ∃ sys, exec step queuedDirect passWriter = some sys ∧
      sys.world.mgr.slot.occupied = true ∧
      ¬sys.world.mgr.settings.completedFiles < sys.world.mgr.settings.maxFiles :=
    exists_of_exec (by decide +kernel)
  obtain ⟨sys, hexec, hreached⟩ := hpass
  refine ⟨sys, ?_, hreached⟩
  rw [exec_append, hdirect, Option.bind_some, exec_cons step_fullBuffer]
  exact hexec

open Sample in
/-- An upload of the only session there is. -/
theorem quota_prepared : Quota 10 prepared.world ∧ prepared.world.mgr.slot.occupied = true := by
  have hprepare : step (start 60) (prepare 0 1 5) = some prepared := (Option.some_get _).symm
  have hrun : Run step anyStep (start 60) [prepare 0 1 5] prepared :=
    .snoc .nil trivial hprepare
  exact ⟨(quota_run hrun).1, by decide +kernel⟩

end LocalSend.Upload
