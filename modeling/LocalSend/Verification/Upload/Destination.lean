import LocalSend.Verification.Upload.Updates

/-! # Who sets the destination and who fills the slot

Only `upload_manager_set_destination` changes the destination and only `upload_prepare` fills
an empty slot, so a step of the system can do either only as part of such a call.
-/

namespace LocalSend.Upload

open SafePath

/-- What is left alone by a call that may set `setup`. -/
structure Settled (setup : Setup) (world next : World) : Prop where
  host_eq : next.host = world.host
  destination_eq : setup ≠ .destination →
    next.mgr.settings.destination = world.mgr.settings.destination
  free : setup ≠ .slot → world.mgr.slot.occupied = false → next.mgr.slot.occupied = false

variable {setup : Setup} {code : Code} {call : Call} {world middle next : World}

theorem Settled.of_same (hhost : next.host = world.host)
    (hdestination : next.mgr.settings.destination = world.mgr.settings.destination)
    (hfree : next.mgr.slot.occupied = world.mgr.slot.occupied) : Settled setup world next :=
  ⟨hhost, fun _ => hdestination, fun _ h => hfree.trans h⟩

theorem Settled.refl (setup : Setup) (world : World) : Settled setup world world :=
  .of_same rfl rfl rfl

theorem Settled.trans (hfirst : Settled setup world middle) (hsecond : Settled setup middle next) :
    Settled setup world next :=
  ⟨hsecond.host_eq.trans hfirst.host_eq,
    fun hsetup => (hsecond.destination_eq hsetup).trans (hfirst.destination_eq hsetup),
    fun hsetup hfree => hsecond.free hsetup (hfirst.free hsetup hfree)⟩

/-! ## Updates -/

theorem Settings.forAuthorization_destination (settings : Settings) (authorization : CString) :
    (settings.forAuthorization authorization).destination = settings.destination := by
  unfold forAuthorization
  split <;> rfl

theorem prepareNames_destination (world : World) (authorization : CString) (metadata : Metadata)
    (env : Env) :
    (prepareNames world authorization metadata env).1.mgr.settings.destination =
      world.mgr.settings.destination := by
  obtain ⟨_, _, _, _, hnames⟩ := prepareNames_eq world authorization metadata env
  rw [hnames]
  exact world.mgr.settings.forAuthorization_destination authorization

theorem settled_prepareNames (world : World) (authorization : CString) (metadata : Metadata)
    (env : Env) : Settled setup world (prepareNames world authorization metadata env).1 := by
  have hdestination := prepareNames_destination world authorization metadata env
  obtain ⟨_, _, _, _, hnames⟩ := prepareNames_eq world authorization metadata env
  rw [hnames] at hdestination ⊢
  exact .of_same rfl hdestination rfl

theorem settled_prepareOpen (world : World) (client authorization : CString)
    (metadata : Metadata) (env : Env) :
    Settled .slot world (prepareOpen world client authorization metadata env).1 := by
  have hspec := prepareOpen_spec world client authorization metadata env
  generalize prepareOpen world client authorization metadata env = opened at hspec
  cases hspec with
  | refused => exact .of_same rfl rfl rfl
  | failed => exact .of_same rfl rfl rfl
  | occupied => exact ⟨rfl, fun _ => rfl, fun hsetup => absurd rfl hsetup⟩

theorem settled_clearRest (world : World) (origin : Origin) (target : CString) (io : ClearIo) :
    Settled setup world (clearRest world origin target io).1 :=
  ⟨rfl, fun _ => rfl, fun _ _ => rfl⟩

theorem settled_publishSlot (world : World) (id digest : CString) (elapsed : ℕ) (env : Env) :
    Settled setup world (publishSlot world id digest elapsed env).1 := by
  simp only [publishSlot]
  split
  · exact .refl ..
  split
  · exact .refl ..
  split
  · exact .of_same rfl rfl rfl
  split <;> exact .of_same rfl rfl rfl

theorem settled_update (h : Update code world next) : Settled code.setup world next := by
  cases h with
  | reap io => exact settled_clearRest ..
  | clear origin io => exact settled_clearRest ..
  | destination env hcode hfree =>
      exact ⟨rfl, fun hsetup => absurd (code.setup_eq hcode) hsetup, fun _ h => h⟩
  | @names authorization metadata => exact settled_prepareNames ..
  | open_ client authorization hcode =>
      rw [hcode]
      exact settled_prepareOpen ..
  | @endDirect data done error => cases error <;> exact .of_same rfl rfl rfl
  | publish id digest elapsed env => exact settled_publishSlot ..
  | _ => exact .of_same rfl rfl rfl

theorem settled_updates (h : Updates code world next) : Settled code.setup world next := by
  induction h with
  | refl => exact .refl ..
  | tail _ hlast ih => exact ih.trans (settled_update hlast)

/-! ## Steps -/

/-- A parked call goes on with code that sets the same. -/
def Pc.Continues (call : Call) (pc : Pc) : Prop :=
  ∀ env, (pc.resumes env).setup = .nothing ∨ (pc.resumes env).setup = call.setup

theorem continues_of_parks {pc : Pc} (h : Parks code world pc) (env : Env) :
    (pc.resumes env).setup = .nothing ∨ (pc.resumes env).setup = code.setup := by
  cases h with
  | reaping hcode =>
      subst hcode
      exact .inr rfl
  | waitingWrites hcode =>
      subst hcode
      exact .inr rfl
  | superseding client authorization hcode => exact .inr hcode.symm
  | _ => exact .inl rfl

theorem Settled.of_nothing (h : Settled .nothing world next) : Settled setup world next :=
  ⟨h.host_eq, fun _ => h.destination_eq nofun, fun _ => h.free nofun⟩

theorem settled_resume {pc : Pc} {env : Env} {stretch : World × Outcome}
    (hpc : pc.Continues call) (hresume : resume world pc env = some stretch) :
    Settled call.setup world stretch.1 ∧
      ∀ pc', stretch.2 = .park pc' → pc'.Continues call := by
  have hparked : ∀ pc', Parks (pc.resumes env) stretch.1 pc' → pc'.Continues call := by
    intro pc' hparks env'
    rcases continues_of_parks hparks env' with hnothing | hsame
    · exact .inl hnothing
    · rw [hsame]
      exact hpc env
  have hupdates : ∀ {middle}, Updates (pc.resumes env) middle stretch.1 →
      Settled call.setup middle stretch.1 := by
    intro middle h
    have hsettled := settled_updates h
    rcases hpc env with hnothing | hsame
    · rw [hnothing] at hsettled
      exact hsettled.of_nothing
    · rwa [hsame] at hsettled
  cases resume_resumed hresume with
  | asleep =>
      refine ⟨.refl .., ?_⟩
      rintro _ ⟨⟩
      exact hpc
  | clears io hclears hidle hrest =>
      exact ⟨(settled_clearRest ..).trans (hupdates hrest.updates),
        fun pc' hpark => hparked pc' (hrest.parks pc' hpark)⟩
  | continues hrest =>
      exact ⟨hupdates hrest.updates, fun pc' hpark => hparked pc' (hrest.parks pc' hpark)⟩

/-- The threads of the system go on as what they are. -/
def Continuing (sys : Sys) : Prop :=
  ∀ tid thread, sys.threads tid = some thread → thread.pc.Continues thread.call

/-- The call an action belongs to. -/
def stepCall (sys : Sys) : Action → Option Call
  | .call _ call _ => some call
  | action => (action.tid.bind sys.threads).map Thread.call

theorem setup_of_tid_none {sys : Sys} {action : Action} (htid : action.tid = none) :
    (stepCall sys action).elim .nothing Call.setup = .nothing := by
  cases action with
  | pick => rfl
  | writerIo result => rfl
  | complete elapsedNs => rfl
  | _ => cases htid

/-- What a step does: at most the acting thread changes, and its call keeps to what it may
set. -/
structure SettledStep (sys : Sys) (action : Action) (next : Sys) : Prop where
  settled : Settled ((stepCall sys action).elim .nothing Call.setup) sys.world next.world
  continuing : Continuing next
  other : ∀ tid, action.tid ≠ some tid → next.threads tid = sys.threads tid
  acting : ∀ tid thread, action.tid = some tid → next.threads tid = some thread →
    stepCall sys action = some thread.call

/-- The thread behind a stretch that has parked. -/
theorem thread_parked {outcome : Outcome} {thread : Thread}
    (h : outcome.thread call = some thread) :
    thread.call = call ∧ outcome = .park thread.pc := by
  cases outcome with
  | park pc =>
      cases h
      exact ⟨rfl, rfl⟩
  | done reply => cases h

theorem settled_settle {sys : Sys} {tid : ℕ} {stretch : World × Outcome}
    (h : Settled setup sys.world stretch.1) :
    Settled setup sys.world (sys.settle tid call stretch).world := by
  rw [settle_eq]
  obtain ⟨next, outcome⟩ := stretch
  cases outcome with
  | park pc => exact h
  | done reply => exact h.trans (.of_same rfl rfl rfl)

/-- A step that moves one thread. -/
theorem SettledStep.of_update {sys next : Sys} {action : Action} {tid : ℕ}
    {thread : Option Thread} (hcontinuing : Continuing sys)
    (htid : action.tid = some tid)
    (hthreads : next.threads = Function.update sys.threads tid thread)
    (hthread : ∀ moved, thread = some moved → moved.pc.Continues moved.call ∧
      stepCall sys action = some moved.call)
    (hsettled : Settled ((stepCall sys action).elim .nothing Call.setup) sys.world next.world) :
    SettledStep sys action next := by
  refine ⟨hsettled, ?_, ?_, ?_⟩
  · intro other moved hmoved
    rw [hthreads, Function.update_apply] at hmoved
    split at hmoved
    · exact (hthread moved hmoved).1
    · exact hcontinuing other moved hmoved
  · intro other hother
    rw [hthreads, Function.update_of_ne]
    rintro rfl
    exact hother htid
  · intro other moved hother hmoved
    obtain rfl : tid = other := Option.some.inj (htid.symm.trans hother)
    rw [hthreads, Function.update_self] at hmoved
    exact (hthread moved hmoved).2

/-- A step of the writer. -/
theorem SettledStep.of_writer {sys next : Sys} {action : Action} (hcontinuing : Continuing sys)
    (htid : action.tid = none) (hthreads : next.threads = sys.threads)
    (hsettled : Settled .nothing sys.world next.world)
    (hcall : stepCall sys action = none) : SettledStep sys action next := by
  refine ⟨?_, ?_, fun tid _ => by rw [hthreads], fun tid moved hother => ?_⟩
  · rw [hcall]
    exact hsettled
  · rw [Continuing, hthreads]
    exact hcontinuing
  · rw [htid] at hother
    cases hother

theorem settled_completeJob (world : World) (job : Job) (error : Option Errno)
    (elapsedNs : ℕ) : Settled setup world (completeJob world job error elapsedNs) := by
  cases job with
  | queue index size => exact .of_same rfl rfl rfl
  | chunk index address size => cases error <;> exact .of_same rfl rfl rfl

theorem settled_step {sys next : Sys} {action : Action} (hcontinuing : Continuing sys)
    (hstep : step sys action = some next) : SettledStep sys action next := by
  cases step_stepped hstep with
  | @call tid call env hfree =>
      have hstretch := enterCall_stretch sys.world call env
      refine .of_update hcontinuing rfl (congrArg Sys.threads (settle_eq ..)) ?_ ?_
      · intro moved hmoved
        obtain ⟨rfl, hpark⟩ := thread_parked hmoved
        exact ⟨continues_of_parks (hstretch.parks _ hpark), rfl⟩
      · exact settled_settle (settled_updates hstretch.updates)
  | @resume tid env thread stretch hthread hresume =>
      have hcall : stepCall sys (.resume tid env) = some thread.call := by
        simp [stepCall, Action.tid, hthread]
      obtain ⟨hsettled, hparks⟩ := settled_resume (hcontinuing tid thread hthread) hresume
      refine .of_update hcontinuing rfl (congrArg Sys.threads (settle_eq ..)) ?_ ?_
      · intro moved hmoved
        obtain ⟨hmovedCall, hpark⟩ := thread_parked hmoved
        rw [hmovedCall]
        exact ⟨hparks _ hpark, hcall⟩
      · rw [hcall]
        exact settled_settle hsettled
  | @directIo tid result call data done fs count error hthread hio =>
      have hcall : stepCall sys (.directIo tid result) = some call := by
        simp [stepCall, Action.tid, hthread]
      refine .of_update hcontinuing rfl rfl ?_ (.of_same rfl rfl rfl)
      rintro _ ⟨⟩
      exact ⟨fun _ => .inl rfl, hcall⟩
  | @hashFinish tid outcome call id partPath transferElapsedNs hash hthread hhash =>
      have hcall : stepCall sys (.hash tid outcome) = some call := by
        simp [stepCall, Action.tid, hthread]
      refine .of_update hcontinuing rfl rfl ?_ (.of_same rfl rfl rfl)
      rintro _ ⟨⟩
      exact ⟨fun _ => .inl rfl, hcall⟩
  | @hashChunks tid outcome call id partPath hash hthread hhash =>
      have hcall : stepCall sys (.hash tid outcome) = some call := by
        simp [stepCall, Action.tid, hthread]
      refine .of_update hcontinuing rfl rfl ?_ (.of_same rfl rfl rfl)
      rintro _ ⟨⟩
      exact ⟨fun _ => .inl rfl, hcall⟩
  | pick => exact .of_writer hcontinuing rfl rfl (.of_same rfl rfl rfl) rfl
  | @writerIo result job done bytes fs count error =>
      refine .of_writer hcontinuing rfl rfl ?_ rfl
      cases error <;> exact .of_same rfl rfl rfl
  | complete => exact .of_writer hcontinuing rfl rfl (settled_completeJob ..) rfl

/-! ## `upload_manager_set_destination` on the console -/

/-- The ends of a stretch of the call: asleep or refused, with the destination as it was, or
done, with the new one and a free slot. -/
inductive DestinationSet (world : World) (destination : CString) : World × Outcome → Prop
  | parked {middle : World} (target : CString)
      (hsame : middle.mgr.settings.destination = world.mgr.settings.destination) :
      DestinationSet world destination
        (middle, .park (.reaping (.setDestination destination) target))
  | refused {middle : World} {reply : Reply} (hresult : reply.result ≠ .ok)
      (hsame : middle.mgr.settings.destination = world.mgr.settings.destination) :
      DestinationSet world destination (middle, .done reply)
  | set {middle : World} {reply : Reply} (hresult : reply.result = .ok)
      (hset : middle.mgr.settings.destination = destination)
      (hfree : middle.mgr.slot.occupied = false) :
      DestinationSet world destination (middle, .done reply)

variable {destination : CString} {env : Env}

theorem effectiveDestination_console (hhost : world.host = false) (destination : CString) :
    effectiveDestination world destination = destination := by
  simp [effectiveDestination, hhost]

theorem afterReap_setDestination (hhost : world.host = false) (destination : CString)
    (env : Env) :
    DestinationSet world destination (afterReap world (.setDestination destination) env) := by
  simp only [afterReap, effectiveDestination_console hhost, uploadManagerSetDestination]
  split
  · exact .refused (by simp [Reply.of]) rfl
  rename_i hfree
  have hfree : world.mgr.slot.occupied = false := by simpa using hfree
  split
  · exact .refused (Errno.result_ne_ok _) rfl
  split
  · exact .set rfl rfl hfree
  · rename_i hsame
    exact .set rfl (by simpa using hsame) hfree

theorem DestinationSet.of_same {stretch : World × Outcome}
    (hsame : middle.mgr.settings.destination = world.mgr.settings.destination)
    (h : DestinationSet middle destination stretch) : DestinationSet world destination stretch := by
  cases h with
  | parked target hparked => exact .parked target (hparked.trans hsame)
  | refused hresult hrefused => exact .refused hresult (hrefused.trans hsame)
  | set hresult hset hfree => exact .set hresult hset hfree

/-- The call behind a `clear_slot` of its own. -/
theorem clearRest_setDestination (hhost : world.host = false) (origin : Origin)
    (target : CString) (io : ClearIo) (destination : CString) (env : Env) :
    DestinationSet world destination
      (afterReap (clearRest world origin target io).1 (.setDestination destination) env) := by
  have hcleared : (clearRest world origin target io).1.host = false := hhost
  have hsame : (clearRest world origin target io).1.mgr.settings.destination =
      world.mgr.settings.destination := rfl
  exact .of_same hsame (afterReap_setDestination hcleared destination env)

theorem enterCall_setDestination (hhost : world.host = false) (destination : CString)
    (env : Env) :
    DestinationSet world destination (enterCall world (.setDestination destination) env) := by
  unfold enterCall
  split
  · rename_i result hrefused
    refine .refused ?_ rfl
    simp only [Call.refused] at hrefused
    split at hrefused
    · cases hrefused
      simp [Reply.of]
    · cases hrefused
  · simp only [reapLocked]
    split
    · split
      · exact .parked _ rfl
      · exact clearRest_setDestination (by exact hhost) ..
    · exact afterReap_setDestination hhost destination env

theorem resume_setDestination (hhost : world.host = false) {target : CString}
    {stretch : World × Outcome}
    (hresume : resume world (.reaping (.setDestination destination) target) env = some stretch) :
    DestinationSet world destination stretch := by
  simp only [resume] at hresume
  split at hresume
  · cases hresume
    exact .parked target rfl
  · cases hresume
    exact clearRest_setDestination hhost ..

/-- On a free slot the call neither sleeps nor is busy: it can only fail to make sure of the
directory, and that matters only if the directory is another one. -/
theorem enterCall_setDestination_free (hhost : world.host = false)
    (hfree : world.mgr.slot.occupied = false)
    (hpath : peek destination = 47 ∧ destination.length < CONFIG_DESTINATION_CAPACITY)
    (hundo : world.mgr.settings.destination = destination ∨ env.ensureError = none) :
    ∃ next reply, enterCall world (.setDestination destination) env = (next, .done reply) ∧
      next.mgr.settings.destination = destination ∧ next.mgr.slot.occupied = false := by
  have heffective := effectiveDestination_console hhost destination
  have hrefused : Call.refused world (.setDestination destination) = none := by
    simp [Call.refused, heffective, hpath.1, hpath.2]
  have hlease : leaseExpired world.mgr env.now = false := by
    simp [leaseExpired, hfree]
  simp only [enterCall, hrefused, reapLocked, hlease, afterReap, heffective,
    uploadManagerSetDestination, hfree]
  cases herror : env.ensureError with
  | some error =>
      rcases hundo with hsame | hnone
      · exact ⟨world, _, rfl, hsame, hfree⟩
      · rw [hnone] at herror
        cases herror
  | none =>
      by_cases hsame : world.mgr.settings.destination = destination
      · exact ⟨world, .of .ok, by simp [hsame, Outcome.of], hsame, hfree⟩
      · exact ⟨changeDestination world destination env, .of .ok, by simp [hsame, Outcome.of],
          rfl, hfree⟩

end LocalSend.Upload
