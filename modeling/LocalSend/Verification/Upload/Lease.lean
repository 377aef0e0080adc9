import LocalSend.Verification.Upload.Clear
import LocalSend.Verification.Upload.Destination

/-! # What a lease expiry takes for idle

`reap_locked` looks at two markers, a direct write in flight and a finalization. A call that
sleeps on the write queue or in a `clear_slot` has neither, so its upload can expire under it.
The invariant is that every other call on the upload in the slot has its marker set, and that
nobody else works on an upload a `reap_locked` is about to clear.
-/

namespace LocalSend.Upload

open Transition

/-- The upload a write or a finish is for. -/
def Call.worksOn : Call → Option CString
  | .write id _ => some id
  | .writeDirect id _ => some id
  | .finish id => some id
  | .finishChunks id _ _ => some id
  | _ => none

/-- The step clears no slot for an expired lease while another caller's write or finish for
the upload in it has started and not returned. -/
def ReapsIdle (sys : Sys) (action : Action) (next : Sys) : Prop :=
  ∀ later clearing, next.world.trace = later ++ sys.world.trace → .cleared clearing ∈ later →
    clearing.origin = .lease → clearing.occupied = true →
    ∀ tid thread, sys.threads tid = some thread → action.tid ≠ some tid →
      thread.call.worksOn ≠ some clearing.uploadId

/-! ## The markers -/

/-- What `reap_locked` takes for a request in progress. -/
inductive Marker where
  | write
  | finalization
  deriving DecidableEq

def Marker.Set (chunks : Chunks) : Marker → Prop
  | .write => chunks.activeChunkWrites ≠ 0
  | .finalization => chunks.finalizingChunks = true

/-- The marker a call has set before it parked. -/
def Pc.marker : Pc → Option Marker
  | .directWriting _ _ _ => some .write
  | .finishHash _ _ _ => some .finalization
  | .finishHashed _ _ _ => some .finalization
  | .chunksDrain _ => some .finalization
  | .chunksHash _ _ => some .finalization
  | .chunksHashed _ _ => some .finalization
  | _ => none

/-- The marker a parked call takes back, whoever has set it. -/
def Pc.resets : Pc → Option Marker
  | .directWriting _ _ _ => some .write
  | .chunksHashed _ _ => some .finalization
  | _ => none

/-- Parked in the `clear_slot` of its `reap_locked`. -/
def Pc.reaps : Pc → Bool
  | .reaping _ _ => true
  | _ => false

theorem leaseExpired_marker {manager : Manager} {now : ℕ}
    (h : leaseExpired manager now = true) (marker : Marker) : ¬marker.Set manager.chunks := by
  simp only [leaseExpired, decide_eq_true_eq] at h
  cases marker with
  | write => simp [Marker.Set, h.2.1]
  | finalization => simp [Marker.Set, h.1]

/-! ## The condition -/

/-- The time a call compares the lease with as it starts, if it runs `reap_locked`. -/
def Call.reapClock (world : World) (env : Env) : Call → Option ℕ
  | .enableDirectStream _ => none
  | .chunkAbort _ _ _ => none
  | .abort _ => none
  | call => if call.refused world = none then some (call.clock env) else none

/-- The same for a call that has waited for a direct write. -/
def Pc.reapClock (env : Env) : Pc → Option ℕ
  | .waitingWrites (.abort _) => none
  | .waitingWrites _ => some env.now
  | _ => none

/-- The same for a step. -/
def Sys.reapClock (sys : Sys) : Action → Option ℕ
  | .call _ call env => call.reapClock sys.world env
  | .resume tid env => (sys.threads tid).bind fun thread => thread.pc.reapClock env
  | _ => none

/-- The marker a step takes back. -/
def Sys.resets (sys : Sys) : Action → Option Marker
  | .resume tid _ => (sys.threads tid).bind fun thread => thread.pc.resets
  | _ => none

/-- A write or a finish for the upload in the slot that has not returned. -/
structure Sys.Works (sys : Sys) (tid : ℕ) (thread : Thread) : Prop where
  started : sys.threads tid = some thread
  occupied : sys.world.mgr.slot.occupied = true
  names : thread.call.worksOn = some sys.world.mgr.slot.uploadId

/-- A step whose lease has not run out under an unmarked call, that takes no marker from
another call, starts nothing on an upload that is being reaped, and reuses no identifier. -/
structure Attended (sys : Sys) (action : Action) : Prop where
  lease : ∀ now tid thread, sys.reapClock action = some now → sys.Works tid thread →
    action.tid ≠ some tid → thread.pc.marker = none → leaseExpired sys.world.mgr now = false
  resets : ∀ marker tid thread, sys.resets action = some marker → sys.Works tid thread →
    action.tid ≠ some tid → thread.pc.marker ≠ some marker
  starts : ∀ tid call env, action = .call tid call env → sys.world.mgr.slot.occupied = true →
    call.worksOn = some sys.world.mgr.slot.uploadId →
    ∀ other thread, sys.threads other = some thread → thread.pc.reaps = false
  fresh : ∀ env call id, action.env = some env → stepCall sys action = some call →
    call.setup = .slot → randomId env.random = some id →
    ∀ tid thread, sys.threads tid = some thread → thread.call.worksOn ≠ some id

/-! ## What a stretch leaves of the markers -/

section

/-- The marker the code takes back. -/
def Code.resets : Code → Option Marker
  | .behind pc _ => pc.resets
  | _ => none

/-- An upload in the slot is the one that was there, with every marker the code does not take
back, or has just been given the identifier drawn. -/
structure Minds (code : Code) (world next : World) : Prop where
  upload : next.mgr.slot.occupied = true →
    (world.mgr.slot.occupied = true ∧ next.mgr.slot.uploadId = world.mgr.slot.uploadId ∧
      ∀ marker : Marker, marker.Set world.mgr.chunks → code.resets ≠ some marker →
        marker.Set next.mgr.chunks) ∨
    (code.setup = .slot ∧ randomId code.env.random = some next.mgr.slot.uploadId)

variable {code : Code} {call : Call} {world middle next : World}

theorem Minds.refl (code : Code) (world : World) : Minds code world world :=
  ⟨fun h => .inl ⟨h, rfl, fun _ hset _ => hset⟩⟩

theorem Minds.trans (hfirst : Minds code world middle) (hsecond : Minds code middle next) :
    Minds code world next := by
  refine ⟨fun hoccupied => ?_⟩
  rcases hsecond.upload hoccupied with ⟨hmiddle, hid, hset⟩ | hdrawn
  · rcases hfirst.upload hmiddle with ⟨hworld, hid', hset'⟩ | ⟨hsetup, hdrawn⟩
    · exact .inl ⟨hworld, hid.trans hid', fun marker h hkept =>
        hset marker (hset' marker h hkept) hkept⟩
    · exact .inr ⟨hsetup, hid ▸ hdrawn⟩
  · exact .inr hdrawn

/-- The upload and the markers are kept. -/
theorem Minds.of_same (hoccupied : next.mgr.slot.occupied = world.mgr.slot.occupied)
    (hid : next.mgr.slot.uploadId = world.mgr.slot.uploadId)
    (hset : ∀ marker : Marker, marker.Set world.mgr.chunks → code.resets ≠ some marker →
      marker.Set next.mgr.chunks) : Minds code world next :=
  ⟨fun h => .inl ⟨hoccupied.symm.trans h, hid, hset⟩⟩

theorem Minds.of_free (hfree : next.mgr.slot.occupied = false) : Minds code world next := by
  refine ⟨fun hoccupied => ?_⟩
  rw [hfree] at hoccupied
  cases hoccupied

theorem minds_prepareOpen (hcode : code.setup = .slot)
    (hfree : world.mgr.slot.occupied = false)
    (hid : randomId code.env.random = some world.mgr.slot.uploadId)
    (client authorization : CString) (metadata : Metadata) (env : Env) :
    Minds code world (prepareOpen world client authorization metadata env).1 := by
  have hspec := prepareOpen_spec world client authorization metadata env
  generalize prepareOpen world client authorization metadata env = opened at hspec
  cases hspec with
  | refused => exact .of_free hfree
  | failed => exact .of_free hfree
  | occupied => exact ⟨fun _ => .inr ⟨hcode, hid⟩⟩

theorem minds_publishSlot (code : Code) (world : World) (id digest : CString) (elapsed : ℕ)
    (env : Env) : Minds code world (publishSlot world id digest elapsed env).1 := by
  simp only [publishSlot]
  split
  · exact .refl ..
  split
  · exact .refl ..
  split
  · exact .of_same rfl rfl fun _ h _ => h
  split <;> exact .of_same rfl rfl fun _ h _ => h

theorem minds_update (h : Update code world next) : Minds code world next := by
  cases h with
  | reap => exact .of_free rfl
  | clear => exact .of_free rfl
  | @names authorization metadata hcode hmetadata hfree =>
      exact .of_free ((prepareNames_occupied ..).trans hfree)
  | open_ client authorization hcode hmetadata hfree hid =>
      exact minds_prepareOpen hcode hfree hid ..
  | startDirect =>
      refine .of_same rfl rfl fun marker hset _ => ?_
      cases marker with
      | write => exact Nat.succ_ne_zero _
      | finalization => exact hset
  | @endDirect data done error env hcode =>
      subst hcode
      have hset : ∀ marker : Marker, marker.Set world.mgr.chunks → marker ≠ .write →
          marker.Set (directWritten world data error env).1.mgr.chunks := by
        intro marker hset hother
        cases marker with
        | write => exact absurd rfl hother
        | finalization => cases error <;> exact hset
      have hkept : ∀ marker : Marker, marker.Set world.mgr.chunks →
          (Code.behind (.directWriting data done error) env).resets ≠ some marker →
          marker.Set (directWritten world data error env).1.mgr.chunks := by
        intro marker h hother
        exact hset marker h fun heq => hother (congrArg some heq.symm)
      cases error <;> exact .of_same rfl rfl hkept
  | finalize =>
      refine .of_same rfl rfl fun marker hset _ => ?_
      cases marker with
      | write => exact hset
      | finalization => rfl
  | @unfinalize id hash env hcode =>
      subst hcode
      refine .of_same rfl rfl fun marker hset hkept => ?_
      cases marker with
      | write => exact hset
      | finalization => exact absurd rfl hkept
  | publish id digest elapsed env => exact minds_publishSlot ..
  | discard | destination | begin | copy | enqueue | enable | accept | store | drop | abort
  | ready | digest =>
      refine .of_same rfl rfl fun marker hset _ => ?_
      cases marker <;> exact hset

theorem minds_updates (h : Updates code world next) : Minds code world next := by
  induction h with
  | refl => exact .refl ..
  | tail _ hlast ih => exact ih.trans (minds_update hlast)

/-! ## Expiries -/

/-- The clearings for an expired lease, the latest first. -/
def leases (trace : List Event) : List Clearing :=
  trace.filterMap fun event => match event with
    | .cleared clearing => if clearing.origin = .lease then some clearing else none
    | _ => none

/-- Code that does not begin with `reap_locked`. -/
def Code.Inner (code : Code) : Prop := ∀ call now env, code ≠ .entry call now env

theorem leases_clearRest {origin : Origin} (h : origin ≠ .lease) (world : World)
    (target : CString) (io : ClearIo) :
    leases (clearRest world origin target io).1.trace = leases world.trace := by
  simp [leases, clearRest, h]

theorem leases_prepareOpen (world : World) (client authorization : CString)
    (metadata : Metadata) (env : Env) :
    leases (prepareOpen world client authorization metadata env).1.trace =
      leases world.trace := by
  have hspec := prepareOpen_spec world client authorization metadata env
  generalize prepareOpen world client authorization metadata env = opened at hspec
  cases hspec <;> rfl

theorem leases_publishSlot (world : World) (id digest : CString) (elapsed : ℕ) (env : Env) :
    leases (publishSlot world id digest elapsed env).1.trace = leases world.trace := by
  simp only [publishSlot]
  split
  · rfl
  split
  · rfl
  split
  · rfl
  split <;> rfl

theorem leases_update (hcode : code.Inner) (h : Update code world next) :
    leases next.trace = leases world.trace := by
  cases h with
  | reap io hentry => exact absurd hentry (hcode _ _ _)
  | clear origin io hlease => exact leases_clearRest hlease ..
  | @names authorization metadata =>
      obtain ⟨_, _, _, _, hnames⟩ := prepareNames_eq world authorization metadata code.env
      rw [hnames]
      rfl
  | open_ client authorization => exact leases_prepareOpen ..
  | @endDirect data done error => cases error <;> rfl
  | publish id digest elapsed env => exact leases_publishSlot ..
  | _ => rfl

theorem leases_updates (hcode : code.Inner) (h : Updates code world next) :
    leases next.trace = leases world.trace := by
  induction h with
  | refl => rfl
  | tail _ hlast ih => exact (leases_update hcode hlast).trans ih

theorem inner_body (call : Call) (env : Env) : (Code.body call env).Inner := by
  intro _ _ _ hentry
  cases hentry

/-- How a call gets to its own code, with the time it looks at the lease, if it does. -/
inductive Entered (world : World) (call : Call) (clock : Option ℕ) (env : Env) :
    World × Outcome → Prop
  | refused (result : UploadResult) : Entered world call clock env (world, .of result)
  | waits : Entered world call clock env (world, .park (.waitingWrites call))
  | parked {now : ℕ} (hclock : clock = some now) (hlease : leaseExpired world.mgr now = true) :
      Entered world call clock env
        (clearStart world, .park (.reaping call world.mgr.slot.uploadId))
  | reaped {now : ℕ} (hclock : clock = some now) (hlease : leaseExpired world.mgr now = true) :
      Entered world call clock env
        (afterReap (clearRest (clearStart world) .lease world.mgr.slot.uploadId env.reapIo).1
          call env)
  | passed : Entered world call clock env (afterReap world call env)

variable {clock : Option ℕ} {env : Env} {stretch : World × Outcome}

theorem reapLocked_entered {now : ℕ} (hclock : clock = some now) (world : World) (call : Call)
    (env : Env) : Entered world call clock env (reapLocked world call now env) := by
  unfold reapLocked
  split
  · rename_i hlease
    dsimp only
    split
    · exact .parked hclock hlease
    · exact .reaped hclock hlease
  · exact .passed

theorem awaitWrites_entered (world : World) (call : Call) (env : Env) :
    Entered world call ((Pc.waitingWrites call).reapClock env) env
      (awaitWrites world call env) := by
  unfold awaitWrites
  split
  · exact .waits
  split
  · exact .passed
  · rename_i habort
    refine reapLocked_entered ?_ world call env
    cases call with
    | abort id => exact absurd rfl (habort id)
    | _ => rfl

theorem enterCall_entered (world : World) (call : Call) (env : Env) :
    Entered world call (call.reapClock world env) env (enterCall world call env) := by
  unfold enterCall
  split
  · exact .refused _
  rename_i hrefused
  split
  · exact .passed
  · exact .passed
  · exact awaitWrites_entered world _ env
  · exact awaitWrites_entered world _ env
  · refine reapLocked_entered ?_ world _ env
    simp [Call.reapClock, Call.clock, hrefused]
  · rename_i henable hchunk hcancel habort hreapAt
    refine reapLocked_entered ?_ world call env
    cases call with
    | enableDirectStream id => exact absurd rfl (henable id)
    | chunkAbort id offset length => exact absurd rfl (hchunk id offset length)
    | abort id => exact absurd rfl (habort id)
    | reapAt now => exact absurd rfl (hreapAt now)
    | _ => simp [Call.reapClock, Call.clock, hrefused]

/-- Only a call that finds the lease run out parks in its `reap_locked`. -/
theorem Entered.reaps (h : Entered world call clock env stretch) {pc : Pc}
    (hpark : stretch.2 = .park pc) (hreaps : pc.reaps = true) :
    ∃ now, clock = some now ∧ leaseExpired world.mgr now = true := by
  have hbody : ∀ middle, (afterReap middle call env).2 = .park pc → False := by
    intro middle hpark
    cases (afterReap_stretch middle call env).parks pc hpark with
    | reaping hcode => cases hcode
    | _ => cases hreaps
  cases h with
  | refused result => cases hpark
  | waits =>
      cases hpark
      cases hreaps
  | parked hclock hlease => exact ⟨_, hclock, hlease⟩
  | reaped => exact (hbody _ hpark).elim
  | passed => exact (hbody _ hpark).elim

/-- The record of a clearing that finds this slot. -/
structure Clearing.Finds (clearing : Clearing) (slot : Slot) : Prop where
  uploadId_eq : clearing.uploadId = slot.uploadId
  occupied_eq : clearing.occupied = slot.occupied

/-- Only such a call clears the slot for its lease. -/
theorem Entered.clears (h : Entered world call clock env stretch) :
    leases stretch.1.trace = leases world.trace ∨
      ∃ clearing, leases stretch.1.trace = clearing :: leases world.trace ∧
        clearing.Finds world.mgr.slot ∧
        ∃ now, clock = some now ∧ leaseExpired world.mgr now = true := by
  have hbody : ∀ middle, leases (afterReap middle call env).1.trace = leases middle.trace :=
    fun middle => leases_updates (inner_body call env) (afterReap_stretch middle call env).updates
  cases h with
  | refused result => exact .inl rfl
  | waits => exact .inl rfl
  | parked hclock hlease => exact .inl rfl
  | reaped hclock hlease => exact .inr ⟨_, hbody _, ⟨rfl, rfl⟩, _, hclock, hlease⟩
  | passed => exact .inl (hbody world)

/-! ## Steps -/

theorem settled_mgr (call : Call) (stretch : World × Outcome) :
    (settled call stretch).mgr = stretch.1.mgr := by
  obtain ⟨next, outcome⟩ := stretch
  cases outcome <;> rfl

theorem leases_settled (call : Call) (stretch : World × Outcome) :
    leases (settled call stretch).trace = leases stretch.1.trace := by
  obtain ⟨next, outcome⟩ := stretch
  cases outcome <;> rfl

theorem Pc.resumes_resets (env : Env) (pc : Pc) : (pc.resumes env).resets = pc.resets := by
  cases pc <;> rfl

theorem Pc.resumes_env (env : Env) (pc : Pc) : (pc.resumes env).env = env := by
  cases pc <;> rfl

theorem resume_minds {pc : Pc} (hresume : resume world pc env = some stretch) :
    Minds (pc.resumes env) world stretch.1 := by
  cases resume_resumed hresume with
  | asleep => exact .refl ..
  | clears io hpc hidle hrest => exact .trans (.of_free rfl) (minds_updates hrest.updates)
  | continues hrest => exact minds_updates hrest.updates

/-- An upload in the slot behind a step is the one before it, with every marker the step does
not take back, or has been given the identifier the step has drawn. -/
structure MindsStep (sys : Sys) (action : Action) (next : Sys) : Prop where
  upload : next.world.mgr.slot.occupied = true →
    (sys.world.mgr.slot.occupied = true ∧
      next.world.mgr.slot.uploadId = sys.world.mgr.slot.uploadId ∧
      ∀ marker : Marker, marker.Set sys.world.mgr.chunks → sys.resets action ≠ some marker →
        marker.Set next.world.mgr.chunks) ∨
    ∃ env call, action.env = some env ∧ stepCall sys action = some call ∧ call.setup = .slot ∧
      randomId env.random = some next.world.mgr.slot.uploadId

theorem MindsStep.of_chunks {sys next : Sys} {action : Action}
    (hslot : next.world.mgr.slot.occupied = sys.world.mgr.slot.occupied)
    (hid : next.world.mgr.slot.uploadId = sys.world.mgr.slot.uploadId)
    (hset : ∀ marker : Marker, marker.Set sys.world.mgr.chunks →
      marker.Set next.world.mgr.chunks) : MindsStep sys action next :=
  ⟨fun h => .inl ⟨hslot.symm.trans h, hid, fun marker h _ => hset marker h⟩⟩

theorem minds_completeJob (world : World) (job : Job) (error : Option Errno) (elapsedNs : ℕ)
    (marker : Marker) (hset : marker.Set world.mgr.chunks) :
    marker.Set (completeJob world job error elapsedNs).mgr.chunks := by
  cases job with
  | queue index size => exact hset
  | chunk index address size =>
      cases error with
      | some error => exact hset
      | none =>
          simp only [completeJob, Chunks.stored]
          split <;> cases marker <;> exact hset

theorem slot_completeJob (world : World) (job : Job) (error : Option Errno) (elapsedNs : ℕ) :
    (completeJob world job error elapsedNs).mgr.slot.occupied = world.mgr.slot.occupied ∧
      (completeJob world job error elapsedNs).mgr.slot.uploadId = world.mgr.slot.uploadId := by
  cases job <;> cases error <;> exact ⟨rfl, rfl⟩

theorem minds_step {sys next : Sys} {action : Action} (hcontinuing : Continuing sys)
    (hstep : step sys action = some next) : MindsStep sys action next := by
  cases step_stepped hstep with
  | @call tid call env hfree =>
      have hminds := minds_updates (enterCall_stretch sys.world call env).updates
      rw [settle_eq]
      refine ⟨fun hoccupied => ?_⟩
      simp only [settled_mgr] at hoccupied ⊢
      rcases hminds.upload hoccupied with ⟨hworld, hid, hset⟩ | ⟨hsetup, hdrawn⟩
      · exact .inl ⟨hworld, hid, fun marker h _ => hset marker h nofun⟩
      · exact .inr ⟨env, call, rfl, rfl, hsetup, hdrawn⟩
  | @resume tid env thread stretch hthread hresume =>
      have hcall : stepCall sys (.resume tid env) = some thread.call := by
        simp [stepCall, Action.tid, hthread]
      have hresets : sys.resets (.resume tid env) = thread.pc.resets := by
        simp [Sys.resets, hthread]
      rw [settle_eq]
      refine ⟨fun hoccupied => ?_⟩
      simp only [settled_mgr, hresets] at hoccupied ⊢
      rcases (resume_minds hresume).upload hoccupied with ⟨hworld, hid, hset⟩ | ⟨hsetup, hdrawn⟩
      · rw [Pc.resumes_resets] at hset
        exact .inl ⟨hworld, hid, hset⟩
      · rw [Pc.resumes_env] at hdrawn
        refine .inr ⟨env, thread.call, rfl, hcall, ?_, hdrawn⟩
        rcases hcontinuing tid thread hthread env with hnothing | hsame
        · rw [hsetup] at hnothing
          cases hnothing
        · exact hsame.symm.trans hsetup
  | directIo => exact .of_chunks rfl rfl fun _ h => h
  | hashFinish => exact .of_chunks rfl rfl fun _ h => h
  | hashChunks => exact .of_chunks rfl rfl fun _ h => h
  | pick => exact .of_chunks rfl rfl fun _ h => h
  | @writerIo result job done bytes fs count error =>
      cases error <;> exact .of_chunks rfl rfl fun _ h => h
  | complete =>
      exact .of_chunks (slot_completeJob ..).1 (slot_completeJob ..).2 (minds_completeJob _ _ _ _)

theorem Parks.marker {pc : Pc} {marker : Marker} (h : Parks code world pc)
    (hmarker : pc.marker = some marker) :
    marker.Set world.mgr.chunks ∨
      (marker = .finalization ∧ ∃ id env, code = .behind (.chunksDrain id) env) := by
  cases h with
  | directWriting hcode hactive =>
      obtain rfl := Option.some.inj hmarker
      exact .inl (by simp [Marker.Set, hactive])
  | finishHash elapsed hoccupied hid hfinalizing =>
      obtain rfl := Option.some.inj hmarker
      exact .inl hfinalizing
  | chunksDrain hfinalizing =>
      obtain rfl := Option.some.inj hmarker
      exact hfinalizing.symm.imp id fun ⟨env, hcode⟩ => ⟨rfl, _, env, hcode⟩
  | chunksHash hfinalizing =>
      obtain rfl := Option.some.inj hmarker
      exact hfinalizing.symm.imp id fun ⟨env, hcode⟩ => ⟨rfl, _, env, hcode⟩
  | _ => cases hmarker

theorem Pc.marker_of_resumes {pc : Pc} {id : CString} {env env' : Env}
    (h : pc.resumes env = .behind (.chunksDrain id) env') :
    pc.marker = some .finalization ∧ pc.resets = none := by
  cases pc <;> cases h
  exact ⟨rfl, rfl⟩

theorem Pc.clears_of_marker {pc : Pc} {marker : Marker} (h : pc.marker = some marker) :
    pc.clears = none := by
  cases pc <;> first | rfl | cases h

theorem resume_marker {pc parked : Pc} {marker : Marker}
    (hresume : resume world pc env = some stretch) (hpark : stretch.2 = .park parked)
    (hmarker : parked.marker = some marker) :
    marker.Set stretch.1.mgr.chunks ∨ (pc.marker = some marker ∧ pc.resets = none) := by
  have hparks : ∀ {middle}, Stretch (pc.resumes env) middle stretch →
      marker.Set stretch.1.mgr.chunks ∨ (pc.marker = some marker ∧ pc.resets = none) := by
    intro middle hstretch
    rcases (hstretch.parks _ hpark).marker hmarker with hset | ⟨rfl, id, env', hcode⟩
    · exact .inl hset
    · exact .inr (Pc.marker_of_resumes hcode)
  cases resume_resumed hresume with
  | asleep hpc =>
      cases hpark
      rw [Pc.clears_of_marker hmarker] at hpc
      cases hpc
  | clears io hpc hidle hrest => exact hparks hrest
  | continues hrest => exact hparks hrest

/-- The marker of the acting call behind a step: it is set, or the call had it before and the
step takes none back. -/
theorem acting_marker {sys next : Sys} {action : Action} {tid : ℕ} {thread : Thread}
    {marker : Marker} (hstep : step sys action = some next) (hacts : action.tid = some tid)
    (hthread : next.threads tid = some thread) (hmarker : thread.pc.marker = some marker) :
    marker.Set next.world.mgr.chunks ∨
      ∃ before, sys.threads tid = some before ∧ before.pc.marker = some marker ∧
        sys.resets action = none := by
  cases step_stepped hstep with
  | @call _ call env hfree =>
      obtain rfl := Option.some.inj hacts
      rw [settle_eq] at hthread ⊢
      simp only [Function.update_self, settled_mgr] at hthread ⊢
      obtain ⟨-, hpark⟩ := thread_parked hthread
      rcases ((enterCall_stretch sys.world call env).parks _ hpark).marker hmarker with
        hset | ⟨-, id, env', hcode⟩
      · exact .inl hset
      · cases hcode
  | @resume _ env before stretch hbefore hresume =>
      obtain rfl := Option.some.inj hacts
      rw [settle_eq] at hthread ⊢
      simp only [Function.update_self, settled_mgr] at hthread ⊢
      obtain ⟨-, hpark⟩ := thread_parked hthread
      rcases resume_marker hresume hpark hmarker with hset | ⟨hbeforeMarker, hresets⟩
      · exact .inl hset
      · exact .inr ⟨before, hbefore, hbeforeMarker, by simp [Sys.resets, hbefore, hresets]⟩
  | @directIo _ result call data done fs count error hbefore hio =>
      obtain rfl := Option.some.inj hacts
      simp only [Sys.setPc, Function.update_self] at hthread
      cases hthread
      exact .inr ⟨_, hbefore, hmarker, rfl⟩
  | @hashFinish _ outcome call id partPath elapsed hash hbefore hhash =>
      obtain rfl := Option.some.inj hacts
      simp only [Sys.setPc, Function.update_self] at hthread
      cases hthread
      exact .inr ⟨_, hbefore, hmarker, rfl⟩
  | @hashChunks _ outcome call id partPath hash hbefore hhash =>
      obtain rfl := Option.some.inj hacts
      simp only [Sys.setPc, Function.update_self] at hthread
      cases hthread
      exact .inr ⟨_, hbefore, hmarker, rfl⟩
  | pick => cases hacts
  | writerIo => cases hacts
  | complete => cases hacts

/-- A step whose `reap_locked` finds the lease run out, or goes on behind its wait. -/
def Sys.Reaping (sys : Sys) (action : Action) : Prop :=
  (∃ now, sys.reapClock action = some now ∧ leaseExpired sys.world.mgr now = true) ∨
    ∃ tid thread, action.tid = some tid ∧ sys.threads tid = some thread ∧
      thread.pc.reaps = true

/-- Behind every wait but the one for a direct write, `reap_locked` has been left behind. -/
theorem Pc.resumes_inner {pc : Pc} (env : Env) (h : ∀ call, pc ≠ .waitingWrites call) :
    (pc.resumes env).Inner := by
  intro call now env' hentry
  cases pc with
  | waitingWrites call => exact h call rfl
  | _ => cases hentry

theorem Parks.reaps {pc : Pc} (hcode : code.Inner) (h : Parks code world pc) :
    pc.reaps = false := by
  cases h with
  | reaping hentry => exact absurd hentry (hcode _ _ _)
  | _ => rfl

theorem resume_reaps {pc parked : Pc} (hresume : resume world pc env = some stretch)
    (hpark : stretch.2 = .park parked) (hreaps : parked.reaps = true) :
    pc.reaps = true ∨
      ∃ now, pc.reapClock env = some now ∧ leaseExpired world.mgr now = true := by
  by_cases hwaits : ∃ call, pc = .waitingWrites call
  · obtain ⟨call, rfl⟩ := hwaits
    cases hresume
    exact .inr ((awaitWrites_entered world call env).reaps hpark hreaps)
  · have hinner := Pc.resumes_inner env fun call heq => hwaits ⟨call, heq⟩
    cases resume_resumed hresume with
    | asleep =>
        cases hpark
        exact .inl hreaps
    | clears io hpc hidle hrest => simp [(hrest.parks _ hpark).reaps hinner] at hreaps
    | continues hrest => simp [(hrest.parks _ hpark).reaps hinner] at hreaps

theorem resume_leases {pc : Pc} (hresume : resume world pc env = some stretch) :
    leases stretch.1.trace = leases world.trace ∨
      ∃ clearing, leases stretch.1.trace = clearing :: leases world.trace ∧
        clearing.Finds world.mgr.slot ∧
        (pc.reaps = true ∨
          ∃ now, pc.reapClock env = some now ∧ leaseExpired world.mgr now = true) := by
  by_cases hwaits : ∃ call, pc = .waitingWrites call
  · obtain ⟨call, rfl⟩ := hwaits
    cases hresume
    refine (awaitWrites_entered world call env).clears.imp_right ?_
    rintro ⟨clearing, htrace, hfinds, hexpired⟩
    exact ⟨clearing, htrace, hfinds, .inr hexpired⟩
  have hinner := Pc.resumes_inner env fun call heq => hwaits ⟨call, heq⟩
  cases resume_resumed hresume with
  | asleep => exact .inl rfl
  | @clears origin target _ io hpc hidle hrest =>
      have hkept := leases_updates hinner hrest.updates
      by_cases horigin : origin = .lease
      · subst horigin
        have hreaps : pc.reaps = true := by
          cases pc with
          | clearing closing target =>
              have heq := (Prod.mk.inj (Option.some.inj hpc)).1
              exact absurd heq closing.origin_ne_lease
          | _ => first | rfl | cases hpc
        exact .inr ⟨_, hkept, ⟨rfl, rfl⟩, .inl hreaps⟩
      · exact .inl (hkept.trans (leases_clearRest horigin ..))
  | continues hrest => exact .inl (leases_updates hinner hrest.updates)

/-- A step clears the slot for its lease only as the end of a `reap_locked`. -/
theorem leases_step {sys next : Sys} {action : Action} (hstep : step sys action = some next) :
    leases next.world.trace = leases sys.world.trace ∨
      ∃ clearing, leases next.world.trace = clearing :: leases sys.world.trace ∧
        clearing.Finds sys.world.mgr.slot ∧ sys.Reaping action := by
  cases step_stepped hstep with
  | @call tid call env hfree =>
      rw [settle_eq]
      simp only [leases_settled]
      refine (enterCall_entered sys.world call env).clears.imp_right ?_
      rintro ⟨clearing, htrace, hfinds, hexpired⟩
      exact ⟨clearing, htrace, hfinds, .inl hexpired⟩
  | @resume tid env thread stretch hthread hresume =>
      rw [settle_eq]
      simp only [leases_settled]
      refine (resume_leases hresume).imp_right ?_
      rintro ⟨clearing, htrace, hfinds, hreaps | ⟨now, hclock, hexpired⟩⟩
      · exact ⟨clearing, htrace, hfinds, .inr ⟨tid, thread, rfl, hthread, hreaps⟩⟩
      · refine ⟨clearing, htrace, hfinds, .inl ⟨now, ?_, hexpired⟩⟩
        simp [Sys.reapClock, hthread, hclock]
  | directIo => exact .inl rfl
  | hashFinish => exact .inl rfl
  | hashChunks => exact .inl rfl
  | pick => exact .inl rfl
  | @writerIo result job done bytes fs count error => cases error <;> exact .inl rfl
  | @complete elapsedNs job done error =>
      cases job with
      | queue index size => exact .inl rfl
      | chunk index address size => cases error <;> exact .inl rfl

/-- A call parks in its `reap_locked` only in such a step. -/
theorem reaping_step {sys next : Sys} {action : Action} {tid : ℕ} {thread : Thread}
    (hstep : step sys action = some next) (hacts : action.tid = some tid)
    (hthread : next.threads tid = some thread) (hreaps : thread.pc.reaps = true) :
    sys.Reaping action := by
  cases step_stepped hstep with
  | @call _ call env hfree =>
      obtain rfl := Option.some.inj hacts
      rw [settle_eq] at hthread
      simp only [Function.update_self] at hthread
      obtain ⟨-, hpark⟩ := thread_parked hthread
      exact .inl ((enterCall_entered sys.world call env).reaps hpark hreaps)
  | @resume _ env before stretch hbefore hresume =>
      obtain rfl := Option.some.inj hacts
      rw [settle_eq] at hthread
      simp only [Function.update_self] at hthread
      obtain ⟨-, hpark⟩ := thread_parked hthread
      rcases resume_reaps hresume hpark hreaps with hbeforeReaps | ⟨now, hclock, hexpired⟩
      · exact .inr ⟨_, before, rfl, hbefore, hbeforeReaps⟩
      · exact .inl ⟨now, by simp [Sys.reapClock, hbefore, hclock], hexpired⟩
  | directIo hbefore hio =>
      obtain rfl := Option.some.inj hacts
      simp only [Sys.setPc, Function.update_self] at hthread
      cases hthread
      cases hreaps
  | hashFinish hbefore hhash =>
      obtain rfl := Option.some.inj hacts
      simp only [Sys.setPc, Function.update_self] at hthread
      cases hthread
      cases hreaps
  | hashChunks hbefore hhash =>
      obtain rfl := Option.some.inj hacts
      simp only [Sys.setPc, Function.update_self] at hthread
      cases hthread
      cases hreaps
  | pick => cases hacts
  | writerIo => cases hacts
  | complete => cases hacts

end

/-! ## Runs -/

/-- Every call on the upload in the slot has its marker set, and no other call is about to
clear that upload for its lease. -/
structure Marked (sys : Sys) : Prop where
  set : ∀ tid thread marker, sys.Works tid thread → thread.pc.marker = some marker →
    marker.Set sys.world.mgr.chunks
  alone : ∀ tid thread other reaping, sys.Works tid thread → sys.threads other = some reaping →
    reaping.pc.reaps = true → other = tid
  continuing : Continuing sys

/-- Nobody else works on the upload in the slot when a step reaps. -/
theorem Marked.acts_of_reaping {sys : Sys} {action : Action} {tid : ℕ} {thread : Thread}
    (hmarked : Marked sys) (hattended : Attended sys action) (hreaping : sys.Reaping action)
    (hworks : sys.Works tid thread) : action.tid = some tid := by
  rcases hreaping with ⟨now, hclock, hexpired⟩ | ⟨other, reaping, hacts, hother, hreaps⟩
  · by_contra hidle
    cases hmarker : thread.pc.marker with
    | none =>
        rw [hattended.lease now tid thread hclock hworks hidle hmarker] at hexpired
        cases hexpired
    | some marker =>
        exact leaseExpired_marker hexpired marker (hmarked.set tid thread marker hworks hmarker)
  · rw [hacts, hmarked.alone tid thread other reaping hworks hother hreaps]

theorem reapsIdle_step {sys next : Sys} {action : Action} (hmarked : Marked sys)
    (hattended : Attended sys action) (hstep : step sys action = some next) :
    ReapsIdle sys action next := by
  intro later clearing htrace hmem horigin hoccupied tid thread hthread hother hnames
  have hlater : clearing ∈ leases later := by
    refine List.mem_filterMap.mpr ⟨_, hmem, ?_⟩
    simp [horigin]
  have happend : leases next.world.trace = leases later ++ leases sys.world.trace := by
    rw [htrace, leases, List.filterMap_append]
    rfl
  rcases leases_step hstep with hsame | ⟨found, hfound, ⟨hid, hslot⟩, hreaping⟩
  · rw [hsame] at happend
    simp [List.self_eq_append_left.mp happend] at hlater
  · rw [hfound] at happend
    have hone : leases later = [found] :=
      (List.append_left_inj (leases sys.world.trace)).mp happend.symm
    rw [hone, List.mem_singleton] at hlater
    subst hlater
    exact hother (hmarked.acts_of_reaping hattended hreaping
      ⟨hthread, hslot.symm.trans hoccupied, hnames.trans (congrArg some hid)⟩)

theorem Call.worksOn_of_setup {call : Call} (h : call.setup = .slot) : call.worksOn = none := by
  cases call <;> first | rfl | cases h

/-- Where a thread comes from: it was under way, as the same one unless it has acted, or its
call has just started. -/
theorem thread_before {sys next : Sys} {action : Action} {tid : ℕ} {thread : Thread}
    (hcontinuing : Continuing sys) (hstep : step sys action = some next)
    (hthread : next.threads tid = some thread) :
    (∃ before, sys.threads tid = some before ∧ before.call = thread.call ∧
        (action.tid ≠ some tid → before = thread)) ∨
      (sys.threads tid = none ∧ ∃ env, action = .call tid thread.call env) := by
  have hsettled := settled_step hcontinuing hstep
  by_cases hacts : action.tid = some tid
  · have hcall := hsettled.acting tid thread hacts hthread
    cases step_stepped hstep with
    | @call _ call env hfree =>
        obtain rfl := Option.some.inj hacts
        obtain rfl := Option.some.inj hcall
        exact .inr ⟨hfree, env, rfl⟩
    | resume hbefore | directIo hbefore | hashFinish hbefore | hashChunks hbefore =>
        obtain rfl := Option.some.inj hacts
        simp only [stepCall, Action.tid, Option.bind_some, hbefore, Option.map_some,
          Option.some.injEq] at hcall
        exact .inl ⟨_, hbefore, hcall, fun h => absurd rfl h⟩
    | pick => cases hacts
    | writerIo => cases hacts
    | complete => cases hacts
  · exact .inl ⟨thread, (hsettled.other tid hacts).symm.trans hthread, rfl, fun _ => rfl⟩

/-- A call on the upload in the slot behind a step is on the upload that was there before,
whose markers are kept unless the step takes one back. -/
theorem works_kept {sys next : Sys} {action : Action} {tid : ℕ} {thread : Thread}
    (hmarked : Marked sys) (hattended : Attended sys action)
    (hstep : step sys action = some next) (hworks : next.Works tid thread) :
    sys.world.mgr.slot.occupied = true ∧
      next.world.mgr.slot.uploadId = sys.world.mgr.slot.uploadId ∧
      ∀ marker : Marker, marker.Set sys.world.mgr.chunks → sys.resets action ≠ some marker →
        marker.Set next.world.mgr.chunks := by
  refine ((minds_step hmarked.continuing hstep).upload hworks.occupied).resolve_right ?_
  rintro ⟨env, call, henv, hcall, hsetup, hdrawn⟩
  have hdrawing : ∀ before, sys.threads tid = some before → before.call = thread.call →
      False := by
    intro before hbefore hsame
    refine hattended.fresh env call _ henv hcall hsetup hdrawn tid before hbefore ?_
    rw [hsame]
    exact hworks.names
  rcases thread_before hmarked.continuing hstep hworks.started with
    ⟨before, hbefore, hsame, -⟩ | ⟨-, env', rfl⟩
  · exact hdrawing before hbefore hsame
  · obtain rfl := Option.some.inj hcall
    have hnames := hworks.names
    rw [Call.worksOn_of_setup hsetup] at hnames
    cases hnames

theorem marked_step {sys next : Sys} {action : Action} (hmarked : Marked sys)
    (hattended : Attended sys action) (hstep : step sys action = some next) : Marked next := by
  have hsettled := settled_step hmarked.continuing hstep
  -- a thread that was under way, seen on the upload that was in the slot
  have hbefore : ∀ {tid thread before}, next.Works tid thread → sys.threads tid = some before →
      before.call = thread.call → sys.Works tid before := by
    intro tid thread before hworks hthread hsame
    obtain ⟨hoccupied, hid, -⟩ := works_kept hmarked hattended hstep hworks
    exact ⟨hthread, hoccupied, by rw [hsame, hworks.names, hid]⟩
  refine ⟨?_, ?_, hsettled.continuing⟩
  · intro tid thread marker hworks hmarker
    obtain ⟨-, -, hset⟩ := works_kept hmarked hattended hstep hworks
    by_cases hacts : action.tid = some tid
    · rcases acting_marker hstep hacts hworks.started hmarker with
        hnext | ⟨before, hthread, hbeforeMarker, hresets⟩
      · exact hnext
      rcases thread_before hmarked.continuing hstep hworks.started with
        ⟨before', hthread', hsame, -⟩ | ⟨hfree, -⟩
      · obtain rfl : before = before' := Option.some.inj (hthread.symm.trans hthread')
        have hworks' := hbefore hworks hthread hsame
        exact hset marker (hmarked.set tid before marker hworks' hbeforeMarker) (by simp [hresets])
      · rw [hfree] at hthread
        cases hthread
    · have hthread := (hsettled.other tid hacts).symm.trans hworks.started
      have hworks' := hbefore hworks hthread rfl
      exact hset marker (hmarked.set tid thread marker hworks' hmarker) fun hresets =>
        hattended.resets marker tid thread hresets hworks' hacts hmarker
  · intro tid thread other reaping hworks hother hreaps
    by_cases hacts : action.tid = some other
    · have hreaping := reaping_step hstep hacts hother hreaps
      rcases thread_before hmarked.continuing hstep hworks.started with
        ⟨before, hthread, hsame, -⟩ | ⟨-, env, rfl⟩
      · have hacts' := hmarked.acts_of_reaping hattended hreaping (hbefore hworks hthread hsame)
        exact Option.some.inj (hacts.symm.trans hacts')
      · exact (Option.some.inj hacts).symm
    · have hother' := (hsettled.other other hacts).symm.trans hother
      rcases thread_before hmarked.continuing hstep hworks.started with
        ⟨before, hthread, hsame, -⟩ | ⟨-, env, rfl⟩
      · exact hmarked.alone tid before other reaping (hbefore hworks hthread hsame) hother' hreaps
      · obtain ⟨hoccupied, hid, -⟩ := works_kept hmarked hattended hstep hworks
        have hnames := hworks.names.trans (congrArg some hid)
        rw [hattended.starts tid _ env rfl hoccupied hnames other reaping hother'] at hreaps
        cases hreaps

theorem marked_initial (host : Bool) (destination : CString)
    (maxFileBytes maxFiles leaseSeconds : ℕ) (override : Option CString) (fs : Fs) :
    Marked (.initial host destination maxFileBytes maxFiles leaseSeconds override fs) := by
  refine ⟨?_, ?_, ?_⟩
  · intro tid thread marker hworks
    cases hworks.occupied
  · intro tid thread other reaping hworks
    cases hworks.occupied
  · intro tid thread hthread
    simp [Sys.initial] at hthread

/-- In a run whose steps are all attended, no step clears the slot for its lease while
another caller's write or finish for the upload in it is under way. -/
theorem reapsIdle_of_attended {host : Bool} {destination : CString}
    {maxFileBytes maxFiles leaseSeconds : ℕ} {override : Option CString} {fs : Fs}
    {actions : List Action} {sys next : Sys} {action : Action}
    (hrun : Run step Attended
      (.initial host destination maxFileBytes maxFiles leaseSeconds override fs) actions sys)
    (hattended : Attended sys action) (hstep : step sys action = some next) :
    ReapsIdle sys action next :=
  reapsIdle_step (hrun.invariant (fun _ _ _ => marked_step) (marked_initial ..)) hattended hstep

/-- The call a step starts. -/
def Action.starts : Action → Option Call
  | .call _ started _ => some started
  | _ => none

/-- `Attended` for one call under way. -/
def Sys.minds (sys : Sys) (action : Action) (tid : ℕ) (thread : Thread) : Bool :=
  let slot := sys.world.mgr.slot
  let works := slot.occupied = true ∧ thread.call.worksOn = some slot.uploadId ∧
    action.tid ≠ some tid
  (∀ now ∈ sys.reapClock action, works → thread.pc.marker = none →
    leaseExpired sys.world.mgr now = false) ∧
  (∀ marker ∈ sys.resets action, works → thread.pc.marker ≠ some marker) ∧
  (∀ call ∈ action.starts, slot.occupied = true → call.worksOn = some slot.uploadId →
    thread.pc.reaps = false) ∧
  ∀ env ∈ action.env, ∀ call ∈ stepCall sys action, call.setup = .slot →
    ∀ id ∈ randomId env.random, thread.call.worksOn ≠ some id

/-- `Attended`, decided where all threads are below `bound`. -/
def attended (bound : ℕ) (sys : Sys) (action : Action) : Bool :=
  (sys.under bound).all fun (tid, thread) => sys.minds action tid thread

theorem attended_of_check {sys : Sys} {action : Action} {bound : ℕ} (h : sys.Below bound)
    (hcheck : attended bound sys action = true) : Attended sys action := by
  have hminds : ∀ tid thread, sys.threads tid = some thread →
      sys.minds action tid thread = true := fun tid thread hthread =>
    List.all_eq_true.mp hcheck _ (h.mem_under hthread)
  simp only [Sys.minds, decide_eq_true_eq] at hminds
  constructor
  · intro now tid thread hclock hworks hother hunmarked
    obtain ⟨hlease, -⟩ := hminds tid thread hworks.started
    exact hlease now hclock ⟨hworks.occupied, hworks.names, hother⟩ hunmarked
  · intro marker tid thread hresets hworks hother
    obtain ⟨-, hkept, -⟩ := hminds tid thread hworks.started
    exact hkept marker hresets ⟨hworks.occupied, hworks.names, hother⟩
  · rintro tid call env rfl hoccupied hnames other thread hthread
    obtain ⟨-, -, hstarts, -⟩ := hminds other thread hthread
    exact hstarts call rfl hoccupied hnames
  · intro env call id henv hcall hsetup hid tid thread hthread
    obtain ⟨-, -, -, hfresh⟩ := hminds tid thread hthread
    exact hfresh env henv call hcall hsetup id hid

namespace Sample

/-- `upload_reap_at` forty seconds behind the lease. -/
def reapLate (tid : ℕ) : Action := .call tid (.reapAt 105) (env 0)

/-- Upload 1 of one byte is begun with direct writes, and its only write stalls. -/
def stalledWrite : List Action :=
  [prepare 0 1 1, .call 0 (.begin (uploadId 1) client authorization 1) (env 0),
    .call 0 (.enableDirectStream (uploadId 1)) (env 0),
    .call 0 (.writeDirect (uploadId 1) [7]) (env 0)]

/-- A reap looks, the byte is written, and the finish is in its hash pass. -/
def stalledHash : List Action :=
  [reapLate 1, .directIo 0 (.wrote 1), .resume 0 (env 0), .call 0 (.finish (uploadId 1)) (env 0)]

/-- Upload 1 of one byte is begun and its byte written; the finish sleeps until the byte is
on the disk, and the write of that byte stalls. The lease runs out, and a reap is parked
until the writer is back. -/
def stalledFinish : List Action :=
  [prepare 0 1 1, .call 0 (.begin (uploadId 1) client authorization 1) (env 0),
    .call 0 (.write (uploadId 1) [7]) (env 0), .call 0 (.finish (uploadId 1)) (env 0), .pick,
    reapLate 1, .writerIo (.wrote 1), .complete 0]

def stalled : Sys := (exec step (start 60) stalledFinish).get (by decide +kernel)

def reaped : Sys := (step stalled (.resume 1 (env 0))).get (by decide +kernel)

end Sample

open Sample in
/-- A reap behind the lease leaves upload 1 alone while its direct write is in flight, and again
while its hash pass is. -/
theorem reapsIdle_stalled :
    (∃ sys next thread, exec step (start 60) stalledWrite = some sys ∧
      step sys (reapLate 1) = some next ∧ sys.Works 0 thread ∧
      thread.pc.marker = some .write ∧ ReapsIdle sys (reapLate 1) next ∧
      next.world.mgr.slot.occupied = true) ∧
    ∃ sys next thread, exec step (start 60) (stalledWrite ++ stalledHash) = some sys ∧
      step sys (reapLate 1) = some next ∧ sys.Works 0 thread ∧
      thread.pc.marker = some .finalization ∧ ReapsIdle sys (reapLate 1) next ∧
      next.world.mgr.slot.occupied = true := by
  have hreap : ∀ actions marker,
      (∃ next, exec (checked (below 2 (attended 2)) step) (start 60) (actions ++ [reapLate 1]) =
        some next ∧ next.world.mgr.slot.occupied = true) →
      (∃ sys, exec step (start 60) actions = some sys ∧ sys.world.mgr.slot.occupied = true ∧
        ∃ thread ∈ sys.threads 0, thread.call.worksOn = some sys.world.mgr.slot.uploadId ∧
          thread.pc.marker = some marker) →
      ∃ sys next thread, exec step (start 60) actions = some sys ∧
        step sys (reapLate 1) = some next ∧ sys.Works 0 thread ∧
        thread.pc.marker = some marker ∧ ReapsIdle sys (reapLate 1) next ∧
        next.world.mgr.slot.occupied = true := by
    rintro actions marker ⟨next, hchecked, hkept⟩
      ⟨sys, hexec, hoccupied, thread, hthread, hnames, hmarker⟩
    obtain ⟨before, hrun, hattended, hstep⟩ := (run_of_exec_below
      (fun _ _ h _ => attended_of_check h) (fun _ _ => rfl) hchecked).last
    obtain rfl : before = sys := Option.some.inj ((exec_of_run hrun).symm.trans hexec)
    exact ⟨before, next, thread, hexec, hstep, ⟨hthread, hoccupied, hnames⟩, hmarker,
      reapsIdle_of_attended hrun hattended hstep, hkept⟩
  exact ⟨hreap _ _ (exists_of_exec (by decide +kernel)) (exists_of_exec (by decide +kernel)),
    hreap _ _ (exists_of_exec (by decide +kernel)) (exists_of_exec (by decide +kernel))⟩

open Sample in
/-- The reap clears the upload that the finish is still waiting to publish. -/
theorem stalledFinish_reaped :
    exec step (start 60) stalledFinish = some stalled ∧
      step stalled (.resume 1 (env 0)) = some reaped ∧
      ¬ReapsIdle stalled (.resume 1 (env 0)) reaped := by
  refine ⟨(Option.some_get _).symm, (Option.some_get _).symm, fun hidle => ?_⟩
  have htrace : reaped.world.trace =
      [.returned (.reapAt 105) (.of .ok),
        .cleared ⟨.lease, uploadId 1, uploadId 1, true, some 0⟩] ++ stalled.world.trace := by
    decide +kernel
  have hfinish : (stalled.threads 0).map Thread.call = some (.finish (uploadId 1)) := by
    decide +kernel
  obtain ⟨thread, hthread, hcall⟩ := Option.map_eq_some_iff.mp hfinish
  refine hidle _ ⟨.lease, uploadId 1, uploadId 1, true, some 0⟩ htrace (by simp) rfl rfl 0 thread
    hthread (by simp [Action.tid]) ?_
  rw [hcall]
  rfl

end LocalSend.Upload
