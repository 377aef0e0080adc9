import LocalSend.Model.Receiver
import LocalSend.Verification.FastUpload.Listener
import LocalSend.Verification.HttpServer
import LocalSend.Verification.Upload.Returns

/-! # The requests under way

Every task follows the protocol of its request, and every call of the upload manager that is under
way is one its task waits for.
-/

namespace LocalSend.Receiver

open Config Routing
open Program (Obeys)
open Upload (Fitting Fulfils Idles Pc Resumes Sound World Outcome enterCall resume)

/-! ## Steps -/

/-- The stage a task has come to. -/
def Task.stage (authMode : AuthMode) (task : Task) : Stage :=
  task.exchanges.foldr (fun exchange stage => stage.after exchange.1 exchange.2) (.start authMode)

/-- A call takes a step of its own code. -/
inductive Acts (sys : Upload.Sys) : Upload.Action → ℕ → Upload.Call → World × Outcome → Prop
  | call {tid : ℕ} {call : Upload.Call} {env : Upload.Env} (hfree : sys.threads tid = none) :
      Acts sys (.call tid call env) tid call (enterCall sys.world call env)
  | resume {tid : ℕ} {env : Upload.Env} {thread : Upload.Thread} {stretch : World × Outcome}
      (hthread : sys.threads tid = some thread)
      (hresume : resume sys.world thread.pc env = some stretch) :
      Acts sys (.resume tid env) tid thread.call stretch

/-- The task of a call behind one of its stretches. -/
def Task.behind (task : Task) : Outcome → Task
  | .park _ => task
  | .done reply => task.resumed reply

/-- The steps, with what has enabled them. -/
inductive Stepped (site : Site) (state : State) : Action → State → Prop
  | accept {tid : ℕ} {incoming : Incoming} (hfree : state.tasks tid = none)
      (hthread : state.uploads.threads tid = none) :
      Stepped site state (.accept tid incoming)
        (state.setTask tid (some ⟨[], incoming.program site⟩))
  | leave {tid : ℕ} {exchanges : List (Program.Exchange Effect.Reply)}
      (htask : state.tasks tid = some ⟨exchanges, .done ()⟩) :
      Stepped site state (.leave tid) (state.setTask tid none)
  | authenticate {tid : ℕ} {now : UInt64} {random : Auth.Random} {effect : Effect}
      {exchanges : List (Program.Exchange Effect.Reply)} {next : effect.Reply → Handler Unit}
      {call : Auth.Call} {reply : effect.Reply} {auth : Auth.State}
      (htask : state.tasks tid = some ⟨exchanges, .call effect next⟩)
      (hreply : Receiver.authenticate state.auth.manager now random effect = some (call, reply))
      (hauth : Auth.step state.auth call = some auth) :
      Stepped site state (.authenticate tid now random)
        ({ state with auth, authCalls := state.authCalls ++ [call] }.advance tid exchanges effect
          next reply)
  | answer {tid : ℕ} {answers : (effect : Effect) → effect.Reply} {effect : Effect}
      {exchanges : List (Program.Exchange Effect.Reply)} {next : effect.Reply → Handler Unit}
      (htask : state.tasks tid = some ⟨exchanges, .call effect next⟩)
      (hthread : state.uploads.threads tid = none) (hanswered : answered effect = true) :
      Stepped site state (.answer tid answers)
        (state.advance tid exchanges effect next (answers effect))
  | stretch {action : Upload.Action} {tid : ℕ} {call : Upload.Call} {stretch : World × Outcome}
      (hadmits : state.admits action = true) (hacts : Acts state.uploads action tid call stretch) :
      Stepped site state (.uploads action)
        ({ state with uploads := state.uploads.settle tid call stretch }.setTask tid
          ((state.tasks tid).map (Task.behind · stretch.2)))
  | idle {action : Upload.Action} {uploads : Upload.Sys} (hidles : Idles state.uploads uploads) :
      Stepped site state (.uploads action) { state with uploads }

variable {site : Site} {state next : State} {action : Action}

/-- A task set to itself. -/
theorem setTask_self (state : State) (uploads : Upload.Sys) (tid : ℕ) :
    { state with uploads }.setTask tid (state.tasks tid) = { state with uploads } := by
  simp [State.setTask]

theorem stepped_uploads {action : Upload.Action} {uploads : Upload.Sys}
    (hadmits : state.admits action = true)
    (hstep : Upload.step state.uploads action = some uploads) :
    Stepped site state (.uploads action)
      (match returned state.uploads action with
        | none => { state with uploads }
        | some (tid, reply) =>
            { state with uploads }.setTask tid ((state.tasks tid).map (Task.resumed · reply))) := by
  have hidle (hcall : ∀ tid call env, action ≠ .call tid call env)
      (hresume : ∀ tid env, action ≠ .resume tid env) :
      Idles state.uploads uploads :=
    Upload.idles_step (Upload.step_stepped hstep) hcall hresume
  have hacts {tid : ℕ} {call : Upload.Call} {stretch : World × Outcome}
      (hacts : Acts state.uploads action tid call stretch) :
      Stepped site state (.uploads action)
        ({ state with uploads := state.uploads.settle tid call stretch }.setTask tid
          ((state.tasks tid).map (Task.behind · stretch.2))) :=
    .stretch hadmits hacts
  cases Upload.step_stepped hstep with
  | @call tid call env hfree =>
      have h := hacts (.call hfree)
      simp only [returned]
      generalize enterCall state.uploads.world call env = stretch at h ⊢
      obtain ⟨world, outcome⟩ := stretch
      cases outcome with
      | park pc =>
          rw [show (state.tasks tid).map (Task.behind · (.park pc)) = state.tasks tid from
            Option.map_id' .., setTask_self] at h
          exact h
      | done reply => exact h
  | @resume tid env thread stretch hthread hresume =>
      have h := hacts (.resume hthread hresume)
      simp only [returned, hthread, Option.bind_some, hresume]
      obtain ⟨world, outcome⟩ := stretch
      cases outcome with
      | park pc =>
          rw [show (state.tasks tid).map (Task.behind · (.park pc)) = state.tasks tid from
            Option.map_id' .., setTask_self] at h
          exact h
      | done reply => exact h
  | directIo | hashFinish | hashChunks | pick | writerIo | complete =>
      exact .idle (hidle (fun _ _ _ h => by cases h) fun _ _ h => by cases h)

theorem step_stepped (h : step site state action = some next) : Stepped site state action next := by
  cases action with
  | accept tid incoming =>
      simp only [step] at h
      split at h
      · rename_i hfree hthread
        cases h
        exact .accept hfree hthread
      · cases h
  | leave tid =>
      simp only [step] at h
      split at h
      · rename_i htask
        cases h
        exact .leave htask
      · cases h
  | authenticate tid now random =>
      simp only [step] at h
      split at h
      · rename_i htask
        obtain ⟨⟨call, reply⟩, hreply, h⟩ := Option.bind_eq_some_iff.mp h
        obtain ⟨auth, hauth, rfl⟩ := Option.map_eq_some_iff.mp h
        exact .authenticate htask hreply hauth
      · cases h
  | answer tid answers =>
      simp only [step] at h
      split at h
      · rename_i htask hthread
        split at h
        · rename_i hanswered
          cases h
          exact .answer htask hthread hanswered
        · cases h
      · cases h
  | uploads action =>
      simp only [step] at h
      split at h
      · rename_i hadmits
        obtain ⟨uploads, hstep, rfl⟩ := Option.map_eq_some_iff.mp h
        exact stepped_uploads hadmits hstep
      · cases h

/-! ## The task of a call -/

/-- A task waits for the call, or changes the destination. -/
inductive Waits (call : Upload.Call) : Task → Prop
  | uploads (exchanges : List (Program.Exchange Effect.Reply))
      (next : Upload.Reply → Handler Unit) : Waits call ⟨exchanges, .call (.uploads call) next⟩
  | storage (exchanges : List (Program.Exchange Effect.Reply)) (target destination : CString)
      (next : Response → Handler Unit) (hcall : call = .setDestination destination) :
      Waits call ⟨exchanges, .call (.changeStorage target) next⟩

theorem Task.calls_waits {task : Task} {call : Upload.Call} (h : task.calls call = true) :
    Waits call task := by
  obtain ⟨exchanges, rest⟩ := task
  unfold Task.calls at h
  split at h
  · rename_i asked next hrest
    obtain rfl := of_decide_eq_true h
    cases hrest
    exact .uploads exchanges next
  · rename_i target next destination hrest
    cases hrest
    exact .storage exchanges target destination next rfl
  · cases h

theorem Waits.calls {task : Task} {call : Upload.Call} (h : Waits call task) :
    task.calls call = true := by
  cases h with
  | uploads exchanges next => exact decide_eq_true rfl
  | storage exchanges target destination next hcall =>
      subst hcall
      rfl

/-- The task follows the protocol of the request with this body. -/
def Task.Follows (authMode : AuthMode) (request : Request) (body : Body) (task : Task) : Prop :=
  Obeys (requestProtocol authMode request body) (fun _ stage => stage.Closed) task.rest
    (task.stage authMode)

theorem follows_program (site : Site) (incoming : Incoming) :
    ∃ request body, Task.Follows site.authMode request body ⟨[], incoming.program site⟩ := by
  cases incoming with
  | http connection parts complete =>
      have hserve := Http.obeys_serveRequest site.assetsFind site.authMode connection parts complete
      exact ⟨connection.streamRequest, Http.bodyOf parts complete, hserve.bind fun _ _ h => h⟩
  | fast address arrivals =>
      have hserve := FastUpload.serves_serveConnection site.authMode site.uiPort site.fastPort
        address arrivals
      split at hserve
      · obtain ⟨served, hdone⟩ := hserve
        refine ⟨⟨[], [], none, address, none, none, none, none, none⟩, ⟨[], True⟩, ?_⟩
        simp only [Task.Follows, Incoming.program, hdone, Program.bind]
        exact closed_start site.authMode
      · rename_i request body _
        exact ⟨request, body, hserve.bind fun _ _ h => h⟩

section

variable {authMode : AuthMode} {request : Request} {body : Body}

theorem Task.Follows.advance (effect : Effect)
    {exchanges : List (Program.Exchange Effect.Reply)} {next : effect.Reply → Handler Unit}
    (h : Task.Follows authMode request body ⟨exchanges, .call effect next⟩)
    (reply : effect.Reply) :
    Task.Follows authMode request body ⟨⟨effect, reply⟩ :: exchanges, next reply⟩ := h.2 reply

theorem Task.Follows.behind {task : Task} {call : Upload.Call}
    (h : task.Follows authMode request body) (hwaits : Waits call task) (outcome : Outcome) :
    (task.behind outcome).Follows authMode request body := by
  cases outcome with
  | park pc => exact h
  | done reply =>
      cases hwaits with
      | uploads exchanges next => exact h.advance (.uploads call) reply
      | storage => exact h

end

/-! ## Runs -/

/-- What holds in front of every step. -/
structure Serving (site : Site) (state : State) : Prop where
  follows : ∀ tid task, state.tasks tid = some task →
    ∃ request body, task.Follows site.authMode request body
  waits : ∀ tid thread, state.uploads.threads tid = some thread →
    ∃ task, state.tasks tid = some task ∧ Waits thread.call task
  fitting : Fitting state.uploads
  sound : Sound state.uploads.world.mgr

/-- What a stretch of a call does, and the task that waits for it. -/
structure Worked (site : Site) (state : State) (tid : ℕ) (call : Upload.Call)
    (stretch : World × Outcome) (task : Task) : Prop where
  task_eq : state.tasks tid = some task
  waits : Waits call task
  fulfils : Fulfils call state.uploads.world stretch
  resumes : ∀ thread, state.uploads.threads tid = some thread →
    Resumes call thread.pc state.uploads.world stretch

theorem Serving.worked {action : Upload.Action} {tid : ℕ} {call : Upload.Call}
    {stretch : World × Outcome} (h : Serving site state) (hadmits : state.admits action = true)
    (hacts : Acts state.uploads action tid call stretch) :
    ∃ task, Worked site state tid call stretch task := by
  cases hacts with
  | @call tid call env hfree =>
      obtain ⟨task, htask, hcalls⟩ := (Option.any_eq_true ..).mp hadmits
      exact ⟨task, htask, Task.calls_waits hcalls, Upload.enterCall_fulfils h.sound call env,
        fun thread hthread => absurd (hfree.symm.trans hthread) (by simp)⟩
  | @resume tid env thread stretch hthread hresume =>
      obtain ⟨task, htask, hwaits⟩ := h.waits tid thread hthread
      have hresumes := Upload.resume_resumes h.sound (h.fitting tid thread hthread) hresume
      refine ⟨task, htask, hwaits, hresumes.fulfils, fun thread' hthread' => ?_⟩
      obtain rfl := Option.some.inj (hthread.symm.trans hthread')
      exact hresumes

theorem setTask_of_ne {tid other : ℕ} {task : Option Task} (h : other ≠ tid) :
    (state.setTask tid task).tasks other = state.tasks other :=
  Function.update_of_ne h ..

theorem setTask_at {tid : ℕ} {task : Option Task} : (state.setTask tid task).tasks tid = task :=
  Function.update_self ..

/-- A task is replaced by one that follows its protocol, and no call of its thread is under way. -/
theorem Serving.setTask {tid : ℕ} {task : Option Task} (h : Serving site state)
    (hfollows : ∀ task', task = some task' →
      ∃ request body, task'.Follows site.authMode request body)
    (hthread : state.uploads.threads tid = none) : Serving site (state.setTask tid task) where
  follows other task' htask' := by
    by_cases heq : other = tid
    · subst heq
      exact hfollows task' (setTask_at.symm.trans htask')
    · exact h.follows other task' ((setTask_of_ne heq).symm.trans htask')
  waits other thread hother := by
    have heq : other ≠ tid := by
      rintro rfl
      exact absurd (hthread.symm.trans hother) (by simp)
    rw [setTask_of_ne heq]
    exact h.waits other thread hother
  fitting := h.fitting
  sound := h.sound

/-- Where a task waits for no call of the upload manager, none of its thread is under way. -/
theorem Serving.thread_free {tid : ℕ} {task : Task} (h : Serving site state)
    (htask : state.tasks tid = some task) (hnot : ∀ call, ¬Waits call task) :
    state.uploads.threads tid = none := by
  by_contra hsome
  obtain ⟨thread, hthread⟩ := Option.ne_none_iff_exists'.mp hsome
  obtain ⟨task', htask', hwaits⟩ := h.waits tid thread hthread
  obtain rfl := Option.some.inj (htask.symm.trans htask')
  exact hnot thread.call hwaits

/-- The task of a stretch goes on, and that of another call stays. -/
theorem Serving.stretch {tid : ℕ} {call : Upload.Call} {stretch : World × Outcome} {task : Task}
    (h : Serving site state) (hworked : Worked site state tid call stretch task) :
    Serving site ({ state with uploads := state.uploads.settle tid call stretch }.setTask tid
      ((state.tasks tid).map (Task.behind · stretch.2))) where
  follows other task' htask' := by
    by_cases heq : other = tid
    · subst heq
      rw [setTask_at, hworked.task_eq] at htask'
      cases htask'
      obtain ⟨request, body, hfollows⟩ := h.follows other task hworked.task_eq
      exact ⟨request, body, hfollows.behind hworked.waits stretch.2⟩
    · exact h.follows other task' ((setTask_of_ne heq).symm.trans htask')
  waits other thread hthread := by
    by_cases heq : other = tid
    · subst heq
      have hthread : stretch.2.thread call = some thread := Upload.settle_self.symm.trans hthread
      rw [setTask_at, hworked.task_eq]
      cases houtcome : stretch.2 with
      | park pc =>
          rw [houtcome] at hthread
          cases hthread
          exact ⟨task, rfl, hworked.waits⟩
      | done reply =>
          rw [houtcome] at hthread
          cases hthread
    · rw [setTask_of_ne heq]
      exact h.waits other thread ((Upload.settle_of_ne heq).symm.trans hthread)
  fitting := h.fitting.settle hworked.fulfils.fits
  sound := by
    have hsound := hworked.fulfils.sound
    rwa [← Upload.settle_mgr state.uploads tid call stretch] at hsound

theorem Serving.idle {uploads : Upload.Sys} (h : Serving site state)
    (hidles : Idles state.uploads uploads) : Serving site { state with uploads } where
  follows := h.follows
  waits tid after hafter := by
    cases hbefore : state.uploads.threads tid with
    | none => exact absurd ((hidles.free tid hbefore).symm.trans hafter) (by simp)
    | some thread =>
        obtain ⟨after', hafter', hstays⟩ := hidles.stays tid thread hbefore
        obtain rfl := Option.some.inj (hafter'.symm.trans hafter)
        rw [hstays.call_eq]
        exact h.waits tid thread hbefore
  fitting := hidles.fitting h.fitting
  sound := hidles.quiet.sound h.sound

/-- A call that the authentication manager answers is none of the upload manager's. -/
theorem authenticate_not_waits {manager : Auth.Manager} {now : UInt64} {random : Auth.Random}
    {effect : Effect} {exchanges : List (Program.Exchange Effect.Reply)}
    {next : effect.Reply → Handler Unit} {answer : Auth.Call × effect.Reply}
    (h : authenticate manager now random effect = some answer) (call : Upload.Call) :
    ¬Waits call ⟨exchanges, .call effect next⟩ := by
  intro hwaits
  cases hwaits <;> cases h

theorem serving_step (h : Serving site state) (hstep : step site state action = some next) :
    Serving site next := by
  cases step_stepped hstep with
  | @accept tid incoming hfree hthread =>
      refine h.setTask ?_ hthread
      rintro _ ⟨⟩
      exact follows_program site incoming
  | @leave tid exchanges htask =>
      refine h.setTask (fun _ hnone => by cases hnone) (h.thread_free htask ?_)
      intro call hwaits
      cases hwaits
  | @authenticate tid now random effect exchanges rest call reply auth htask hreply hauth =>
      have hserving : Serving site { state with auth, authCalls := state.authCalls ++ [call] } :=
        ⟨h.follows, h.waits, h.fitting, h.sound⟩
      refine hserving.setTask ?_ (h.thread_free htask (authenticate_not_waits hreply))
      rintro _ ⟨⟩
      obtain ⟨request, body, hfollows⟩ := h.follows tid _ htask
      exact ⟨request, body, hfollows.advance effect reply⟩
  | @answer tid answers effect exchanges rest htask hthread hanswered =>
      refine h.setTask ?_ hthread
      rintro _ ⟨⟩
      obtain ⟨request, body, hfollows⟩ := h.follows tid _ htask
      exact ⟨request, body, hfollows.advance effect (answers effect)⟩
  | stretch hadmits hacts =>
      obtain ⟨task, hworked⟩ := h.worked hadmits hacts
      exact h.stretch hworked
  | idle hidles => exact h.idle hidles

/-- The managers as created. -/
theorem serving_initial {auth : Auth.Manager} {clock : UInt64} {host : Bool}
    {destination : CString} {maxFileBytes maxFiles leaseSeconds : ℕ} {override : Option CString}
    {fs : Upload.Fs} :
    Serving site (.initial auth clock
      (.initial host destination maxFileBytes maxFiles leaseSeconds override fs)) where
  follows tid task h := by cases h
  waits tid thread h := by cases h
  fitting tid thread h := by cases h
  sound := ⟨fun _ => ⟨rfl, rfl⟩, fun h => absurd h Bool.false_ne_true, fun _ h => by cases h⟩

end LocalSend.Receiver
