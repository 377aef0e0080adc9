import LocalSend.Verification.Receiver.Requests
import LocalSend.Verification.Upload.Frame

/-! # No upload is left half received

While a whole file, or a chunk, is being received, the request that sends it is still served, or
a call sees to the end of the upload; while an upload is being finished or cleared, such a call is
under way. A request that is over leaves nothing of its stream behind.
-/

namespace LocalSend.Receiver

open Config Routing Transition
open Upload (Fulfils Idles Outcome UPLOAD_CHUNK_BYTES World)

/-- A request that is served has begun this stream and not closed it. -/
def State.Sends (site : Site) (state : State) (uploadId : CString) (chunk : Option (ℕ × ℕ)) :
    Prop :=
  ∃ tid task, state.tasks tid = some task ∧
    (task.stage site.authMode).underWay = some (uploadId, chunk)

/-- A call is under way that will see to the end of the upload: a finish that has set its
marker, or a `clear_slot` that was started for it. -/
def State.Settles (state : State) (uploadId : CString) : Prop :=
  ∃ tid thread, state.uploads.threads tid = some thread ∧ thread.pc.Settles uploadId

/-- A call waits in `clear_slot` for the writer. -/
def State.Clears (state : State) : Prop :=
  ∃ tid thread, state.uploads.threads tid = some thread ∧ thread.pc.clears ≠ none

/-- What is being received, finished or cleared is seen to by somebody. -/
structure Accounted (site : Site) (state : State) : Prop where
  streams : ∀ id, state.uploads.world.mgr.Streams id →
    state.Sends site id none ∨ state.Settles id
  finalizes : ∀ id, state.uploads.world.mgr.Finalizes id → state.Settles id
  discards : state.uploads.world.mgr.queue.writerDiscard = true → state.Clears
  receives : ∀ id index, state.uploads.world.mgr.Receives id index →
    ∃ offset length, state.Sends site id (some (offset, length)) ∧
      offset % UPLOAD_CHUNK_BYTES = 0 ∧ offset / UPLOAD_CHUNK_BYTES = index ∧ length ≠ 0

variable {site : Site} {state next : State} {tid : ℕ} {uploadId : CString}
  {chunk : Option (ℕ × ℕ)}

/-! ## The requests -/

theorem State.Sends.setTask {task : Option Task} (h : state.Sends site uploadId chunk)
    (hkeeps : ∀ before, state.tasks tid = some before →
      (before.stage site.authMode).underWay = some (uploadId, chunk) →
      ∃ after, task = some after ∧
        (after.stage site.authMode).underWay = some (uploadId, chunk)) :
    (state.setTask tid task).Sends site uploadId chunk := by
  obtain ⟨other, before, hbefore, hstage⟩ := h
  by_cases heq : other = tid
  · subst heq
    obtain ⟨after, rfl, hafter⟩ := hkeeps before hbefore hstage
    exact ⟨other, after, setTask_at, hafter⟩
  · exact ⟨other, before, (setTask_of_ne heq).trans hbefore, hstage⟩

/-- A stream stays open behind a stretch of a call that does not end it. -/
theorem State.Sends.stretch {call : Upload.Call} {stretch : World × Outcome} {task : Task}
    (hserving : Serving site state) (h : state.Sends site uploadId chunk)
    (hworked : Worked site state tid call stretch task) :
    (state.setTask tid ((state.tasks tid).map (Task.behind · stretch.2))).Sends site uploadId
        chunk ∨
      ∃ reply, stretch.2 = .done reply ∧ EndsStream uploadId chunk call := by
  by_contra hnot
  obtain ⟨hsends, hends⟩ := not_or.mp hnot
  refine hsends (h.setTask fun before hbefore hstage => ?_)
  obtain rfl := Option.some.inj (hworked.task_eq.symm.trans hbefore)
  refine ⟨task.behind stretch.2, by rw [hworked.task_eq, Option.map_some], ?_⟩
  cases houtcome : stretch.2 with
  | park pc => exact hstage
  | done reply =>
      cases hworked.waits with
      | uploads exchanges rest =>
          obtain ⟨request, body, hobeys⟩ := hserving.follows tid _ hworked.task_eq
          rcases underWay_afterCall hobeys.1 hstage reply.result with hopen | hcall
          · exact hopen
          · exact absurd ⟨reply, houtcome, hcall⟩ hends
      | storage => exact hstage

/-! ## The calls that see to an upload -/

theorem State.Settles.of_outcome {call : Upload.Call} {stretch : World × Outcome}
    (h : stretch.2.Settling uploadId) :
    ({ state with uploads := state.uploads.settle tid call stretch } : State).Settles
      uploadId := by
  obtain ⟨pc, houtcome, hpc⟩ := h
  exact ⟨tid, ⟨call, pc⟩, by rw [Upload.settle_self, houtcome]; rfl, hpc⟩

/-- The call goes on to see to its upload, or nothing of it is under way any more. -/
theorem State.Settles.stretch {call : Upload.Call} {stretch : World × Outcome} {task : Task}
    (h : state.Settles uploadId) (hworked : Worked site state tid call stretch task) :
    ({ state with uploads := state.uploads.settle tid call stretch } : State).Settles uploadId ∨
      ¬stretch.1.mgr.Streams uploadId ∧ ¬stretch.1.mgr.Finalizes uploadId := by
  obtain ⟨other, thread, hthread, hpc⟩ := h
  by_cases heq : other = tid
  · subst heq
    exact ((hworked.resumes thread hthread).relinquishes uploadId hpc).imp_left .of_outcome
  · exact .inl ⟨other, thread, (Upload.settle_of_ne heq).trans hthread, hpc⟩

theorem State.Settles.idle {uploads : Upload.Sys} (h : state.Settles uploadId)
    (hidles : Idles state.uploads uploads) :
    ({ state with uploads } : State).Settles uploadId := by
  obtain ⟨tid, thread, hthread, hpc⟩ := h
  obtain ⟨after, hafter, hstays⟩ := hidles.stays tid thread hthread
  refine ⟨tid, after, hafter, ?_⟩
  rw [Upload.Pc.Settles, hstays.finishes_eq, hstays.clears_eq]
  exact hpc

theorem State.Clears.of_outcome {call : Upload.Call} {stretch : World × Outcome}
    (h : stretch.2.Clearing) :
    ({ state with uploads := state.uploads.settle tid call stretch } : State).Clears := by
  obtain ⟨pc, houtcome, hpc⟩ := h
  exact ⟨tid, ⟨call, pc⟩, by rw [Upload.settle_self, houtcome]; rfl, hpc⟩

/-- Nothing is discarded any more once the call has cleared the slot. -/
theorem State.Clears.stretch {call : Upload.Call} {stretch : World × Outcome} {task : Task}
    (h : state.Clears) (hworked : Worked site state tid call stretch task)
    (hdiscards : stretch.1.mgr.queue.writerDiscard = true) :
    ({ state with uploads := state.uploads.settle tid call stretch } : State).Clears := by
  obtain ⟨other, thread, hthread, hpc⟩ := h
  by_cases heq : other = tid
  · subst heq
    exact .of_outcome ((hworked.resumes thread hthread).clears hpc hdiscards)
  · exact ⟨other, thread, (Upload.settle_of_ne heq).trans hthread, hpc⟩

theorem State.Clears.idle {uploads : Upload.Sys} (h : state.Clears)
    (hidles : Idles state.uploads uploads) : ({ state with uploads } : State).Clears := by
  obtain ⟨tid, thread, hthread, hpc⟩ := h
  obtain ⟨after, hafter, hstays⟩ := hidles.stays tid thread hthread
  exact ⟨tid, after, hafter, hstays.clears_eq ▸ hpc⟩

/-! ## Steps -/

/-- A task changes, and no stream is lost. -/
theorem Accounted.setTask {task : Option Task} (h : Accounted site state)
    (hkeeps : ∀ uploadId chunk before, state.tasks tid = some before →
      (before.stage site.authMode).underWay = some (uploadId, chunk) →
      ∃ after, task = some after ∧
        (after.stage site.authMode).underWay = some (uploadId, chunk)) :
    Accounted site (state.setTask tid task) where
  streams id hstreams := (h.streams id hstreams).imp_left (·.setTask (hkeeps id none))
  finalizes id hfinalizes := h.finalizes id hfinalizes
  discards hdiscards := h.discards hdiscards
  receives id index hreceives := by
    obtain ⟨offset, length, hsends, hplace⟩ := h.receives id index hreceives
    exact ⟨offset, length, hsends.setTask (hkeeps id _), hplace⟩

theorem Accounted.idle {uploads : Upload.Sys} (h : Accounted site state)
    (hidles : Idles state.uploads uploads) : Accounted site { state with uploads } where
  streams id hstreams := (h.streams id (hidles.quiet.streams id hstreams)).imp_right (·.idle hidles)
  finalizes id hfinalizes := (h.finalizes id (hidles.quiet.finalizes id hfinalizes)).idle hidles
  discards hdiscards := (h.discards (hidles.quiet.discards hdiscards)).idle hidles
  receives id index hreceives := h.receives id index (hidles.quiet.receives id index hreceives)

/-- A stream that a call has begun is that of its task. -/
theorem Worked.begins {call : Upload.Call} {stretch : World × Outcome} {task : Task}
    (hworked : Worked site state tid call stretch task)
    (hdone : stretch.2 = .of .ok) (hstorage : ∀ destination, call ≠ .setDestination destination)
    (hbegins : ∀ stage : Stage, (stage.afterCall call .ok).underWay = some (uploadId, chunk)) :
    (state.setTask tid ((state.tasks tid).map (Task.behind · stretch.2))).Sends site uploadId
      chunk := by
  refine ⟨tid, task.behind stretch.2, by rw [setTask_at, hworked.task_eq, Option.map_some], ?_⟩
  rw [hdone]
  cases hworked.waits with
  | uploads exchanges rest => exact hbegins _
  | storage _ _ destination _ hcall => exact absurd hcall (hstorage destination)

theorem Accounted.stretch {call : Upload.Call} {stretch : World × Outcome} {task : Task}
    (h : Accounted site state) (hserving : Serving site state)
    (hworked : Worked site state tid call stretch task) :
    Accounted site ({ state with uploads := state.uploads.settle tid call stretch }.setTask tid
      ((state.tasks tid).map (Task.behind · stretch.2))) := by
  have hmgr : (state.uploads.settle tid call stretch).world.mgr = stretch.1.mgr :=
    Upload.settle_mgr state.uploads tid call stretch
  have hfinalizes (id : CString) (hid : stretch.1.mgr.Finalizes id) :
      ({ state with uploads := state.uploads.settle tid call stretch } : State).Settles id := by
    rcases hworked.fulfils.finalizes id hid with hbefore | hsettling
    · exact ((h.finalizes id hbefore).stretch hworked).resolve_right fun hnot => hnot.2 hid
    · exact .of_outcome hsettling
  constructor
  · intro id hid
    replace hid : stretch.1.mgr.Streams id := hmgr ▸ hid
    rcases hworked.fulfils.streams id hid with hbefore | ⟨client, authorization, length, rfl, hok⟩
    · rcases h.streams id hbefore with hsends | hsettles
      · rcases hsends.stretch hserving hworked with hsends | ⟨reply, houtcome, hcall⟩
        · exact .inl hsends
        -- the request ends its stream, and an abort may leave it to a finish
        · have hcloses := hworked.fulfils.closes reply houtcome
          cases hcall with
          | finish => exact absurd hid hcloses
          | abort => exact .inr (hfinalizes id (hcloses hid))
      · exact .inr ((hsettles.stretch hworked).resolve_right fun hnot => hnot.1 hid)
    · exact .inl (hworked.begins hok (fun _ h => by cases h) fun _ => rfl)
  · intro id hid
    exact hfinalizes id (hmgr ▸ hid)
  · intro hdiscards
    replace hdiscards : stretch.1.mgr.queue.writerDiscard = true := hmgr ▸ hdiscards
    rcases hworked.fulfils.discards hdiscards with hbefore | hclearing
    · exact (h.discards hbefore).stretch hworked hdiscards
    · exact .of_outcome hclearing
  · intro id index hid
    replace hid : stretch.1.mgr.Receives id index := hmgr ▸ hid
    rcases hworked.fulfils.receives id index hid with
      hbefore | ⟨client, authorization, total, offset, length, rfl, hok, haligned, hindex, hlength⟩
    · obtain ⟨offset, length, hsends, haligned, hindex, hlength⟩ := h.receives id index hbefore
      rcases hsends.stretch hserving hworked with hsends | ⟨reply, houtcome, hcall⟩
      · exact ⟨offset, length, hsends, haligned, hindex, hlength⟩
      · have hcloses := hworked.fulfils.closes reply houtcome
        subst hindex
        cases hcall with
        | chunkFinish => exact absurd hid (hcloses hlength haligned)
        | chunkAbort => exact absurd hid (hcloses haligned)
    · exact ⟨offset, length, hworked.begins hok (fun _ h => by cases h) fun _ => rfl, haligned,
        hindex, hlength⟩

theorem accounted_step {action : Action} (hserving : Serving site state)
    (h : Accounted site state) (hstep : step site state action = some next) :
    Accounted site next := by
  -- a call of anything but the upload manager leaves every stream as it is
  have hadvance {effect : Effect} {exchanges : List (Program.Exchange Effect.Reply)}
      {rest : effect.Reply → Handler Unit} {tid : ℕ}
      (htask : state.tasks tid = some ⟨exchanges, .call effect rest⟩)
      (hother : ∀ call, effect ≠ .uploads call) (reply : effect.Reply) :
      Accounted site (state.advance tid exchanges effect rest reply) := by
    refine h.setTask fun uploadId chunk before hbefore hstage => ⟨_, rfl, ?_⟩
    obtain rfl := Option.some.inj (htask.symm.trans hbefore)
    obtain ⟨request, body, hobeys⟩ := hserving.follows tid _ htask
    exact (underWay_after hother hobeys.1 reply).trans hstage
  cases step_stepped hstep with
  | accept hfree =>
      exact h.setTask fun _ _ before hbefore => absurd (hfree.symm.trans hbefore) (by simp)
  | @leave tid exchanges htask =>
      -- a task that is over has closed its stream
      refine h.setTask fun uploadId chunk before hbefore hstage => ?_
      obtain rfl := Option.some.inj (htask.symm.trans hbefore)
      obtain ⟨request, body, hclosed⟩ := hserving.follows tid _ htask
      exact absurd (closed_iff_underWay.mp hclosed ▸ hstage) (by simp)
  | @authenticate tid now random effect exchanges rest call reply auth htask hreply hauth =>
      have hother (call : Upload.Call) : effect ≠ .uploads call := by
        rintro rfl
        cases hreply
      exact ⟨(hadvance htask hother reply).streams, h.finalizes, h.discards,
        (hadvance htask hother reply).receives⟩
  | @answer tid answers effect exchanges rest htask hthread hanswered =>
      have hother (call : Upload.Call) : effect ≠ .uploads call := by
        rintro rfl
        cases hanswered
      exact hadvance htask hother (answers effect)
  | stretch hadmits hacts =>
      obtain ⟨task, hworked⟩ := hserving.worked hadmits hacts
      exact h.stretch hserving hworked
  | idle hidles => exact h.idle hidles

/-! ## Runs -/

/-- In every run of the receiver, with any requests on either listener, cut off wherever it may
be, a whole file or a chunk that is being received is sent by a request that is still served, or
seen to by a call that is under way; and when no request is left, no file or chunk is half
received, nothing is being finished and nothing is to be discarded. -/
theorem accounted_run {auth : Auth.Manager} {clock : UInt64} {host : Bool}
    {destination : CString} {maxFileBytes maxFiles leaseSeconds : ℕ} {override : Option CString}
    {fs : Upload.Fs} {actions : List Action}
    (hrun : Run (step site) anyStep (.initial auth clock
      (.initial host destination maxFileBytes maxFiles leaseSeconds override fs)) actions state) :
    Accounted site state ∧
      ((∀ tid, state.tasks tid = none) → state.uploads.world.mgr.queue.writerDiscard = false ∧
        ∀ id, ¬state.uploads.world.mgr.Streams id ∧ ¬state.uploads.world.mgr.Finalizes id ∧
          ∀ index, ¬state.uploads.world.mgr.Receives id index) := by
  have h : Serving site state ∧ Accounted site state := by
    refine hrun.invariant (I := fun state => Serving site state ∧ Accounted site state) ?_ ?_
    · rintro before action after ⟨hserving, haccounted⟩ - hstep
      exact ⟨serving_step hserving hstep, accounted_step hserving haccounted hstep⟩
    · exact ⟨serving_initial, fun id h => absurd h.1 Bool.false_ne_true,
        fun id h => absurd h.1 Bool.false_ne_true, fun h => absurd h Bool.false_ne_true,
        fun id index h => absurd h.1 Bool.false_ne_true⟩
  obtain ⟨hserving, haccounted⟩ := h
  refine ⟨haccounted, fun hnone => ?_⟩
  have hthreads (tid : ℕ) : state.uploads.threads tid = none := by
    by_contra hsome
    obtain ⟨thread, hthread⟩ := Option.ne_none_iff_exists'.mp hsome
    obtain ⟨task, htask, -⟩ := hserving.waits tid thread hthread
    exact absurd ((hnone tid).symm.trans htask) (by simp)
  have hsends (id : CString) (chunk : Option (ℕ × ℕ)) : ¬state.Sends site id chunk := by
    rintro ⟨tid, task, htask, -⟩
    exact absurd ((hnone tid).symm.trans htask) (by simp)
  have hsettles (id : CString) : ¬state.Settles id := by
    rintro ⟨tid, thread, hthread, -⟩
    exact absurd ((hthreads tid).symm.trans hthread) (by simp)
  have hclears : ¬state.Clears := by
    rintro ⟨tid, thread, hthread, -⟩
    exact absurd ((hthreads tid).symm.trans hthread) (by simp)
  refine ⟨Bool.eq_false_iff.mpr fun h => hclears (haccounted.discards h), fun id =>
    ⟨fun h => (haccounted.streams id h).elim (hsends id none) (hsettles id),
      fun h => hsettles id (haccounted.finalizes id h), fun index h => ?_⟩⟩
  obtain ⟨offset, length, hsent, -⟩ := haccounted.receives id index h
  exact hsends id _ hsent

namespace Sample

/-- No PIN, and no page. -/
def openSite : Site := ⟨fun _ => none, .none, 8080, 8081⟩

/-- A request of the page at `10.0.0.2`. -/
def pageRequest (method url contentType : String) (length : ℕ) : Http.Connection where
  method := ascii method
  url := ascii url
  clientAddress := ascii "10.0.0.2"
  contentLength := some (SafePath.decimal length)
  host := some (ascii "ps5:8080")
  origin := some (ascii "http://ps5:8080")
  contentType := some (ascii contentType)
  authorization := none
  contentRange := none

/-- The platform shows what it is asked to and has nothing to report. -/
def calm : (effect : Effect) → effect.Reply
  | .notify _ => true
  | .lastError => none
  | .configuration => (configSetDefaults, 8081)
  | .changeStorage _ => noBody
  | .validateBearer _ _ => .invalid
  | .createChallenge _ => (.invalid, none)
  | .verifyChallenge _ _ _ => (.invalid, none)
  | .uploads _ => .of .ok

/-- A file of five bytes is prepared, its request comes to the first part and no further. -/
def cutOff : List Action :=
  let body := Upload.Sample.body 5
  let id := Upload.Sample.uploadId 1
  let client := ascii "10.0.0.2"
  [.accept 0 (.http (pageRequest "POST" "/api/v1/uploads" "application/json" body.length) [body]
      true),
    .uploads (.call 0 (.prepare client (ascii "NoAuth") body) (Upload.Sample.env 1)),
    .answer 0 calm,
    .leave 0,
    .accept 1 (.http { pageRequest "PUT" "" "application/octet-stream" 5 with
      url := ascii "/api/v1/uploads/" ++ id } [[7, 8, 9]] false),
    .uploads (.call 1 (.begin id client (ascii "NoAuth") 5) (Upload.Sample.env 0))]

/-- The managers at the start. -/
def start : State :=
  .initial ⟨300, 1800, .replicate 8 .cleared, .replicate 4 .cleared⟩ 0 (Upload.Sample.start 60)

end Sample

open Sample in
/-- The file is being received, and its request is still served. -/
theorem accounted_cutOff :
    ∃ state, exec (step openSite) start cutOff = some state ∧
      state.uploads.world.mgr.Streams (Upload.Sample.uploadId 1) ∧ Accounted openSite state := by
  have hexec : ∃ state, exec (step openSite) start cutOff = some state ∧
      state.uploads.world.mgr.slot.occupied = true ∧
        state.uploads.world.mgr.slot.uploadId = Upload.Sample.uploadId 1 ∧
        state.uploads.world.mgr.slot.started = true ∧
        state.uploads.world.mgr.chunks.chunkTransport = false :=
    exists_of_exec (by decide +kernel)
  obtain ⟨state, hstate, hstreams⟩ := hexec
  exact ⟨state, hstate, hstreams, (accounted_run (Run.of_exec (fun _ _ _ => trivial) hstate)).1⟩

end LocalSend.Receiver
