import LocalSend.Verification.Upload.Writer

/-! # Invariants of the manager

What a fact about the manager has to be kept by so that it holds wherever a run leads: each
update of a stretch, with what is known of the code that makes it, and each step of the
writer, of a direct write and of a hash pass.
-/

namespace LocalSend.Upload

open Transition

/-- Code that is admitted when its call starts stays so when it parks and goes on. -/
structure Admission (calls : Call → Prop) (surroundings : Env → Prop) (admits : Code → Prop) :
    Prop where
  entry : ∀ call now env, calls call → surroundings env → admits (.entry call now env)
  parks : ∀ {code world pc}, admits code → Parks code world pc →
    ∀ env, surroundings env → admits (pc.resumes env)
  written : ∀ {data done done' error} env, surroundings env →
    admits (.behind (.directWriting data done none) env) →
    admits (.behind (.directWriting data done' error) env)
  hashed : ∀ {id partPath elapsed hash} env, surroundings env →
    admits (.behind (.finishHash id partPath elapsed) env) →
    admits (.behind (.finishHashed id elapsed hash) env)
  chunksHashed : ∀ {id partPath hash} env, surroundings env →
    admits (.behind (.chunksHash id partPath) env) → admits (.behind (.chunksHashed id hash) env)

/-- Kept by all that a stretch does, when its code is admitted. -/
structure KeptByCalls (admits : Code → Prop) (invariant : World → Prop) : Prop where
  update : ∀ {code world next}, admits code → invariant world → Update code world next →
    invariant next
  clear : ∀ {world} origin target io, world.mgr.queue.writerActive = false → invariant world →
    invariant (clearRest world origin target io).1
  returned : ∀ {world} call reply, invariant world → invariant (world.note (.returned call reply))

/-- Kept by all that can happen to the world. -/
structure KeptBySteps (admits : Code → Prop) (invariant : World → Prop) : Prop
    extends KeptByCalls admits invariant where
  write : ∀ {world rest result fs count error}, invariant world →
    writeOnce world.fs world.mgr.slot.fd rest result = some (fs, count, error) →
    invariant { world with fs }
  writeFailed : ∀ {world}, invariant world → invariant (world.note .writeFailed)
  pick : ∀ {world}, invariant world → invariant { world with mgr.queue.writerActive := true }
  complete : ∀ {world job done error} elapsedNs,
    WriterInv world.mgr (.writing job done error) → error.isSome ∨ done = job.size →
    invariant world → invariant (completeJob world job error elapsedNs)

/-- The call an action starts is one of `calls`, in one of the surroundings. -/
structure Action.Allowed (calls : Call → Prop) (surroundings : Env → Prop) (action : Action) :
    Prop where
  call : ∀ tid call env, action = .call tid call env → calls call
  env : ∀ env, action.env = some env → surroundings env

/-- What the threads go on with is admitted. -/
def Sys.Admitted (surroundings : Env → Prop) (admits : Code → Prop) (sys : Sys) : Prop :=
  ∀ tid thread, sys.threads tid = some thread →
    ∀ env, surroundings env → admits (thread.pc.resumes env)

variable {calls : Call → Prop} {surroundings : Env → Prop} {admits : Code → Prop}
  {invariant : World → Prop} {code : Code} {world next : World} {sys : Sys}

theorem KeptByCalls.updates (h : KeptByCalls admits invariant) (hcode : admits code)
    (hworld : invariant world) (hupdates : Updates code world next) : invariant next := by
  induction hupdates with
  | refl => exact hworld
  | tail _ hlast ih => exact h.update hcode ih hlast

theorem KeptByCalls.settled (h : KeptByCalls admits invariant) {stretch : World × Outcome}
    (hworld : invariant stretch.1) (call : Call) : invariant (settled call stretch) := by
  obtain ⟨next, outcome⟩ := stretch
  cases outcome with
  | park pc => exact hworld
  | done reply => exact h.returned call reply hworld

theorem KeptByCalls.resume (h : KeptByCalls admits invariant) {pc : Pc} {env : Env}
    {stretch : World × Outcome} (hcode : admits (pc.resumes env)) (hworld : invariant world)
    (hresume : resume world pc env = some stretch) : invariant stretch.1 := by
  cases resume_resumed hresume with
  | asleep => exact hworld
  | clears io hpc hidle hrest =>
      exact h.updates hcode (h.clear _ _ _ hidle hworld) hrest.updates
  | continues hrest => exact h.updates hcode hworld hrest.updates

theorem Admission.resume (h : Admission calls surroundings admits) {pc : Pc} {env : Env}
    {stretch : World × Outcome} (hpc : ∀ env, surroundings env → admits (pc.resumes env))
    (henv : surroundings env) (hresume : resume world pc env = some stretch) {pc' : Pc}
    (hpark : stretch.2 = .park pc') : ∀ env, surroundings env → admits (pc'.resumes env) := by
  cases resume_resumed hresume with
  | asleep =>
      cases hpark
      exact hpc
  | clears io hclears hidle hrest => exact h.parks (hpc env henv) (hrest.parks pc' hpark)
  | continues hrest => exact h.parks (hpc env henv) (hrest.parks pc' hpark)

/-- A step that moves one thread to a point it may go on from. -/
theorem Sys.Admitted.update (h : sys.Admitted surroundings admits) {sys' : Sys} {tid : ℕ}
    {moved : Option Thread} (hthreads : sys'.threads = Function.update sys.threads tid moved)
    (hmoved : ∀ thread, moved = some thread →
      ∀ env, surroundings env → admits (thread.pc.resumes env)) :
    sys'.Admitted surroundings admits := by
  intro other thread hother
  rw [hthreads, Function.update_apply] at hother
  split at hother
  · exact hmoved thread hother
  · exact h other thread hother

theorem pc_of_thread {call : Call} {outcome : Outcome} {thread : Thread}
    (h : outcome.thread call = some thread) : outcome = .park thread.pc := by
  cases outcome with
  | park pc =>
      cases h
      rfl
  | done reply => cases h

theorem Admission.step (h : Admission calls surroundings admits) {action : Action} {sys' : Sys}
    (hsys : sys.Admitted surroundings admits)
    (hallowed : action.Allowed calls surroundings)
    (hstep : step sys action = some sys') : sys'.Admitted surroundings admits := by
  cases step_stepped hstep with
  | @call tid call env hfree =>
      refine hsys.update (congrArg Sys.threads (settle_eq ..)) fun thread hthread => ?_
      exact h.parks (h.entry call _ env (hallowed.call tid call env rfl) (hallowed.env env rfl))
        ((enterCall_stretch ..).parks _ (pc_of_thread hthread))
  | @resume tid env thread stretch hthread hresume =>
      refine hsys.update (congrArg Sys.threads (settle_eq ..)) fun moved hmoved => ?_
      exact h.resume (hsys tid thread hthread) (hallowed.env env rfl) hresume (pc_of_thread hmoved)
  | directIo hthread hio =>
      refine hsys.update rfl ?_
      rintro _ ⟨⟩ env henv
      exact h.written env henv (hsys _ _ hthread env henv)
  | hashFinish hthread hhash =>
      refine hsys.update rfl ?_
      rintro _ ⟨⟩ env henv
      exact h.hashed env henv (hsys _ _ hthread env henv)
  | hashChunks hthread hhash =>
      refine hsys.update rfl ?_
      rintro _ ⟨⟩ env henv
      exact h.chunksHashed env henv (hsys _ _ hthread env henv)
  | pick => exact hsys
  | writerIo => exact hsys
  | complete => exact hsys

/-- What a step of a call leaves behind. -/
theorem KeptByCalls.call (h : KeptByCalls admits invariant)
    (hadmission : Admission calls surroundings admits) {call : Call} {env : Env}
    (hcall : calls call) (henv : surroundings env) (hworld : invariant world) :
    invariant (Upload.settled call (enterCall world call env)) :=
  h.settled (h.updates (hadmission.entry call (call.clock env) env hcall henv) hworld
    (enterCall_stretch ..).updates) call

theorem KeptBySteps.step (h : KeptBySteps admits invariant)
    (hadmission : Admission calls surroundings admits) {action : Action} {sys' : Sys}
    (hwriter : WriterInv sys.world.mgr sys.writer) (hsys : sys.Admitted surroundings admits)
    (hallowed : action.Allowed calls surroundings) (hworld : invariant sys.world)
    (hstep : step sys action = some sys') : invariant sys'.world := by
  cases step_stepped hstep with
  | @call tid call env hfree =>
      rw [settle_eq]
      exact h.call hadmission (hallowed.call tid call env rfl) (hallowed.env env rfl) hworld
  | @resume tid env thread stretch hthread hresume =>
      rw [settle_eq]
      exact h.settled
        (h.resume (hsys tid thread hthread env (hallowed.env env rfl)) hworld hresume) _
  | directIo hthread hio => exact h.write hworld hio
  | hashFinish => exact hworld
  | hashChunks => exact hworld
  | pick => exact h.pick hworld
  | @writerIo result job done bytes fs count error hwriting hbytes hio =>
      have hwritten := h.write hworld hio
      cases error with
      | none => exact hwritten
      | some error => exact h.writeFailed hwritten
  | @complete elapsedNs job done error hwriting hdone =>
      rw [hwriting] at hwriter
      exact h.complete elapsedNs hwriter hdone hworld

/-- An invariant holds in all that is reached from a state it holds in. -/
theorem KeptBySteps.run_from (h : KeptBySteps admits invariant)
    (hadmission : Admission calls surroundings admits) {ok : Sys → Action → Prop} {sys' : Sys}
    {actions : List Action}
    (hok : ∀ sys action, ok sys action → action.Allowed calls surroundings)
    (hwriter : WriterInv sys.world.mgr sys.writer) (hworld : invariant sys.world)
    (hsys : sys.Admitted surroundings admits)
    (hrun : Run LocalSend.Upload.step ok sys actions sys') :
    WriterInv sys'.world.mgr sys'.writer ∧ invariant sys'.world ∧
      sys'.Admitted surroundings admits :=
  hrun.invariant
    (I := fun sys => WriterInv sys.world.mgr sys.writer ∧ invariant sys.world ∧
      sys.Admitted surroundings admits)
    (fun sys action _ ⟨hwriter, hworld, hsys⟩ haction hstep =>
      ⟨writerInv_step hwriter hstep,
        h.step hadmission hwriter hsys (hok sys action haction) hworld hstep,
        hadmission.step hsys (hok sys action haction) hstep⟩)
    ⟨hwriter, hworld, hsys⟩

/-- All code is admitted. -/
theorem admission_all : Admission (fun _ => True) (fun _ => True) (fun _ => True) where
  entry := fun _ _ _ _ _ => trivial
  parks := fun _ _ _ _ => trivial
  written := fun _ _ _ => trivial
  hashed := fun _ _ _ => trivial
  chunksHashed := fun _ _ _ => trivial

theorem Action.allowed_all (action : Action) : action.Allowed (fun _ => True) (fun _ => True) :=
  ⟨fun _ _ _ _ => trivial, fun _ _ => trivial⟩

theorem Sys.admitted_of_idle (h : ∀ tid, sys.threads tid = none) :
    sys.Admitted surroundings admits := by
  intro tid thread hthread
  rw [h tid] at hthread
  cases hthread

/-- An invariant of the manager as created holds in every reachable state. -/
theorem KeptBySteps.run (h : KeptBySteps admits invariant)
    (hadmission : Admission calls surroundings admits) {ok : Sys → Action → Prop} {host : Bool}
    {destination : CString} {maxFileBytes maxFiles leaseSeconds : ℕ} {override : Option CString}
    {fs : Fs} {actions : List Action}
    (hok : ∀ sys action, ok sys action → action.Allowed calls surroundings)
    (hinitial : invariant (Sys.initial host destination maxFileBytes maxFiles leaseSeconds
      override fs).world)
    (hrun : Run LocalSend.Upload.step ok
      (.initial host destination maxFileBytes maxFiles leaseSeconds override fs) actions sys) :
    invariant sys.world ∧ sys.Admitted surroundings admits :=
  (h.run_from hadmission hok (writerInv_initial ..) hinitial
    (Sys.admitted_of_idle fun _ => rfl) hrun).2

end LocalSend.Upload
