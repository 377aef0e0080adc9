import LocalSend.Verification.Router.Restart
import LocalSend.Verification.Upload.Destination

/-! # The destinations of the router and of the upload manager

Both change under the router's mutex only. While a storage request holds it, they may
differ; its answer finds them equal again, provided a change that could not be saved can be
undone.
-/

namespace LocalSend.Routing

open Config SafePath Transition
open Upload (CONFIG_DESTINATION_CAPACITY DirectoryIo Setup Tree ensureDestinationDirectory)

/-- A success has moved everything to the destination asked for, any other answer has left
the destinations as they were. -/
structure Answer.Consistent (answer : Answer) : Prop where
  success : answer.response.status = 200 → ∃ destination config,
    answer.destination = some destination ∧ answer.after = ⟨destination, destination⟩ ∧
      answer.saved = some (configText config) ∧ config.destination = destination
  failure : answer.response.status ≠ 200 → answer.after = answer.before

/-- The roll-back of a change finds the directory it goes back to, or has nothing to do. -/
def Undoes (server : Server) : Action → Prop
  | .restore io _ => ∀ selection, server.holder = some (.storing selection) →
      selection.destination = selection.previousDestination ∨
        (ensureDestinationDirectory server.tree selection.previousDestination
          CONFIG_DESTINATION_CAPACITY io).2 = none
  | _ => True

/-! ## The invariant -/

/-- The destination of the upload manager. -/
def Server.uploadDestination (server : Server) : CString :=
  server.uploads.world.mgr.settings.destination

/-- What the point the handler has come to says of the upload manager. -/
def Selection.InPhase (selection : Selection) (uploads : Upload.Sys) : Prop :=
  match selection.phase with
  | .selecting =>
      uploads.world.mgr.settings.destination = selection.previousDestination ∧
        ∃ target, uploads.threads selection.tid =
          some ⟨.setDestination selection.destination,
            .reaping (.setDestination selection.destination) target⟩
  | .restoring => False
  | _ =>
      uploads.world.mgr.settings.destination = selection.destination ∧
        uploads.world.mgr.slot.occupied = false ∧ uploads.threads selection.tid = none

/-- What a handler that holds the mutex has found, and how far it has come. -/
structure Selection.Handled (selection : Selection) (server : Server) : Prop where
  previous : server.router.config.destination = selection.previousDestination
  found : selection.found = ⟨selection.previousDestination, selection.previousDestination⟩
  inPhase : selection.InPhase server.uploads

/-- Who may be in a call that sets something: the one who holds the mutex for it. -/
def Server.Allows (server : Server) (tid : ℕ) : Setup → Prop
  | .nothing => True
  | .slot => server.holder = some (.preparing tid)
  | .destination => ∃ selection, server.holder = some (.storing selection) ∧ selection.tid = tid

/-- No storage request holds the mutex. -/
def Server.Settled (server : Server) : Prop :=
  ∀ selection, server.holder ≠ some (.storing selection)

structure Agreeing (base : AppConfig) (configPath : CString) (server : Server) : Prop where
  kept : Kept base configPath server
  host : server.uploads.world.host = false
  safe : SafeDirectory server.router.config.destination
  continuing : Upload.Continuing server.uploads
  callers : ∀ tid thread, server.uploads.threads tid = some thread →
    server.Allows tid thread.call.setup
  handled : ∀ selection, server.holder = some (.storing selection) → selection.Handled server
  agrees : server.Settled → server.router.config.destination = server.uploadDestination
  answers : ∀ answer ∈ server.answers, answer.Consistent

variable {base : AppConfig} {configPath : CString} {server next : Server}

theorem Agreeing.release (h : Agreeing base configPath server) :
    Agreeing base configPath server.release := by
  have hkept := h.kept.release
  revert hkept
  unfold Server.release
  split
  · rename_i tid hholder
    split
    · rename_i hthread
      intro hkept
      refine ⟨hkept, h.host, h.safe, h.continuing, ?_, nofun, ?_, h.answers⟩
      · intro other thread hother
        have hother : server.uploads.threads other = some thread := hother
        have hallows := h.callers other thread hother
        cases hsetup : thread.call.setup with
        | nothing => trivial
        | slot =>
            rw [hsetup, Server.Allows, hholder] at hallows
            obtain rfl : tid = other := by simpa using hallows
            simp [hother] at hthread
        | destination =>
            rw [hsetup, Server.Allows, hholder] at hallows
            obtain ⟨selection, hselection, -⟩ := hallows
            cases hselection
      · intro _
        exact h.agrees fun selection hselection => by simp [hholder] at hselection
    · exact fun _ => h
  · exact fun _ => h

/-- What a step may set is allowed to the thread that takes it. -/
theorem Agreeing.allows (h : Agreeing base configPath server) {action : Upload.Action}
    (hcall : ∀ tid call env, action = .call tid call env → call.setup = .nothing) {tid : ℕ}
    (htid : action.tid = some tid) :
    server.Allows tid
      ((Upload.stepCall server.uploads action).elim .nothing Upload.Call.setup) := by
  have hthread : ∀ tid, server.Allows tid
      (((server.uploads.threads tid).map Upload.Thread.call).elim .nothing Upload.Call.setup) := by
    intro tid
    cases hthread : server.uploads.threads tid with
    | none => trivial
    | some thread => exact h.callers tid thread hthread
  cases action with
  | call tid call env =>
      have hsetup := hcall tid call env rfl
      simp [Upload.stepCall, hsetup, Server.Allows]
  | resume other env =>
      obtain rfl : other = tid := Option.some.inj htid
      exact hthread other
  | directIo other result =>
      obtain rfl : other = tid := Option.some.inj htid
      exact hthread other
  | hash other outcome =>
      obtain rfl : other = tid := Option.some.inj htid
      exact hthread other
  | pick => cases htid
  | writerIo result => cases htid
  | complete elapsedNs => cases htid

/-- A step of the upload manager that no storage request takes. -/
theorem Agreeing.uploads (h : Agreeing base configPath server) {action : Upload.Action}
    {uploads : Upload.Sys}
    (hcall : ∀ tid call env, action = .call tid call env → call.setup = .nothing)
    (hother : ∀ selection, server.holder = some (.storing selection) →
      action.tid ≠ some selection.tid)
    (hstep : Upload.step server.uploads action = some uploads) :
    Agreeing base configPath { server with uploads } := by
  have hsettled := Upload.settled_step h.continuing hstep
  generalize hsetup : (Upload.stepCall server.uploads action).elim .nothing Upload.Call.setup =
    setup
  have hworld := hsettled.settled
  rw [hsetup] at hworld
  have hallows : ∀ tid, action.tid = some tid → server.Allows tid setup := by
    intro tid htid
    rw [← hsetup]
    exact h.allows hcall htid
  have hnothing : action.tid = none → setup = .nothing := by
    intro htid
    rw [← hsetup]
    exact Upload.setup_of_tid_none htid
  have hdestination : setup ≠ .destination := by
    rintro rfl
    cases htid : action.tid with
    | none => cases hnothing htid
    | some tid =>
        obtain ⟨selection, hselection, rfl⟩ := hallows tid htid
        exact hother selection hselection htid
  have hsame : uploads.world.mgr.settings.destination = server.uploadDestination :=
    hworld.destination_eq hdestination
  refine ⟨⟨h.kept.config_eq, h.kept.path_eq, h.kept.selection, h.kept.answers⟩,
    hworld.host_eq.trans h.host, h.safe, hsettled.continuing, ?_, ?_, ?_, h.answers⟩
  · intro tid thread hthread
    by_cases htid : action.tid = some tid
    · have hcallSetup : thread.call.setup = setup := by
        rw [← hsetup, hsettled.acting tid thread htid hthread, Option.elim_some]
      rw [hcallSetup]
      exact hallows tid htid
    · exact h.callers tid thread ((hsettled.other tid htid).symm.trans hthread)
  · intro selection hselection
    have hselection : server.holder = some (.storing selection) := hselection
    obtain ⟨hprevious, hfound, hphase⟩ := h.handled selection hselection
    have hslot : setup ≠ .slot := by
      rintro rfl
      cases htid : action.tid with
      | none => cases hnothing htid
      | some tid =>
          have hpreparing : server.holder = some (.preparing tid) := hallows tid htid
          simp [hselection] at hpreparing
    have hthread := hsettled.other selection.tid (hother selection hselection)
    refine ⟨hprevious, hfound, ?_⟩
    cases hpoint : selection.phase with
    | selecting =>
        simp only [Selection.InPhase, hpoint] at hphase ⊢
        obtain ⟨hold, target, hasleep⟩ := hphase
        exact ⟨hsame.trans hold, target, hthread.trans hasleep⟩
    | restoring => simp only [Selection.InPhase, hpoint] at hphase
    | _ =>
        simp only [Selection.InPhase, hpoint] at hphase ⊢
        obtain ⟨hnew, hfree, hawake⟩ := hphase
        exact ⟨hsame.trans hnew, hworld.free hslot hfree, hthread.trans hawake⟩
  · intro hholder
    exact (h.agrees hholder).trans hsame.symm

/-- An `upload_prepare` that takes the mutex. -/
theorem Agreeing.prepare (h : Agreeing base configPath server) {tid : ℕ}
    {client authorization : CString} {json : Bytes} {env : Upload.Env} {uploads : Upload.Sys}
    (hholder : server.holder = none)
    (hstep : Upload.step server.uploads (.call tid (.prepare client authorization json) env) =
      some uploads) :
    Agreeing base configPath { server with uploads, holder := some (.preparing tid) } := by
  have hsettled := Upload.settled_step h.continuing hstep
  have hworld : Upload.Settled .slot server.uploads.world uploads.world := hsettled.settled
  have hsame : uploads.world.mgr.settings.destination = server.uploadDestination :=
    hworld.destination_eq (by decide)
  refine ⟨⟨h.kept.config_eq, h.kept.path_eq, nofun, h.kept.answers⟩,
    hworld.host_eq.trans h.host, h.safe, hsettled.continuing, ?_, nofun, ?_, h.answers⟩
  · intro other thread hthread
    by_cases htid : tid = other
    · subst htid
      have hcall : Upload.Call.prepare client authorization json = thread.call :=
        Option.some.inj (hsettled.acting tid thread rfl hthread)
      rw [← hcall]
      rfl
    · have hold := (hsettled.other other (by simpa [Upload.Action.tid] using htid)).symm.trans
        hthread
      have hallows := h.callers other thread hold
      cases hsetup : thread.call.setup with
      | nothing => trivial
      | slot => simp [hsetup, Server.Allows, hholder] at hallows
      | destination => simp [hsetup, Server.Allows, hholder] at hallows
  · intro _
    exact (h.agrees (by simp [Server.Settled, hholder])).trans hsame.symm

/-! ## The handler's call -/

/-- While a storage request holds the mutex, or nobody, no other thread sets anything. -/
theorem Agreeing.others (h : Agreeing base configPath server) {tid : ℕ}
    (hholder : ∀ holder, server.holder = some holder →
      ∃ selection, holder = .storing selection ∧ selection.tid = tid) :
    ∀ other thread, other ≠ tid → server.uploads.threads other = some thread →
      thread.call.setup = .nothing := by
  intro other thread hother hthread
  have hallows := h.callers other thread hthread
  cases hsetup : thread.call.setup with
  | nothing => rfl
  | slot =>
      rw [hsetup] at hallows
      obtain ⟨selection, hselection, -⟩ := hholder _ hallows
      cases hselection
  | destination =>
      rw [hsetup] at hallows
      obtain ⟨selection, hselection, rfl⟩ := hallows
      obtain ⟨held, hheld, rfl⟩ := hholder _ hselection
      cases hheld
      exact absurd rfl hother

/-- A handler that goes on with the mutex. -/
structure Calling (base : AppConfig) (server : Server) (selection : Selection) : Prop where
  of : selection.Of base
  holder : ∀ holder, server.holder = some holder →
    ∃ held : Selection, holder = .storing held ∧ held.tid = selection.tid
  previous : server.router.config.destination = selection.previousDestination
  found : selection.found = ⟨selection.previousDestination, selection.previousDestination⟩

/-- The handler's thread has returned, and it still holds the mutex. -/
theorem Agreeing.hold (h : Agreeing base configPath server) {selection : Selection}
    (hcalling : Calling base server selection) {uploads : Upload.Sys} {tree : Tree}
    {action : Upload.Action} (hsettled : Upload.SettledStep server.uploads action uploads)
    (htid : action.tid = some selection.tid)
    (hcall : ∀ thread, uploads.threads selection.tid = some thread →
      thread.call.setup = .destination)
    (hphase : selection.InPhase uploads) :
    Agreeing base configPath
      { server with uploads, tree, holder := some (.storing selection) } := by
  refine ⟨⟨h.kept.config_eq, h.kept.path_eq, ?_, h.kept.answers⟩,
    hsettled.settled.host_eq.trans h.host, h.safe, hsettled.continuing, ?_, ?_, ?_, h.answers⟩
  · rintro _ ⟨⟩
    exact hcalling.of
  · intro other thread hthread
    by_cases hother : other = selection.tid
    · subst hother
      rw [hcall thread hthread]
      exact ⟨selection, rfl, rfl⟩
    · have hold := (hsettled.other other (by rw [htid]; simpa using Ne.symm hother)).symm.trans
        hthread
      rw [h.others hcalling.holder other thread hother hold]
      trivial
  · rintro _ ⟨⟩
    exact ⟨hcalling.previous, hcalling.found, hphase⟩
  · intro hsettledHolder
    exact absurd rfl (hsettledHolder selection)

/-- The handler answers, and both destinations are equal again. -/
theorem Agreeing.answer (h : Agreeing base configPath server) {selection : Selection}
    (hcalling : Calling base server selection) {uploads : Upload.Sys} {tree : Tree}
    {action : Upload.Action} (hsettled : Upload.SettledStep server.uploads action uploads)
    (htid : action.tid = some selection.tid)
    (hthread : uploads.threads selection.tid = none)
    (hsame : uploads.world.mgr.settings.destination = selection.previousDestination)
    {response : Response} (hstatus : response.status ≠ 200) :
    Agreeing base configPath
      (({ server with uploads, tree, holder := some (.storing selection) } : Server).answer
        response (some selection.destination) selection.found) := by
  have hkept : Kept base configPath
      { server with uploads, tree, holder := some (.storing selection) } := by
    refine ⟨h.kept.config_eq, h.kept.path_eq, ?_, h.kept.answers⟩
    rintro _ ⟨⟩
    exact hcalling.of
  refine ⟨hkept.answer fun hsuccess => absurd hsuccess hstatus,
    hsettled.settled.host_eq.trans h.host, h.safe, hsettled.continuing, ?_, nofun, ?_, ?_⟩
  · intro other thread hother
    have hne : other ≠ selection.tid := by
      rintro rfl
      exact absurd (hthread.symm.trans hother) nofun
    have hold := (hsettled.other other (by rw [htid]; simpa using Ne.symm hne)).symm.trans hother
    rw [h.others hcalling.holder other thread hne hold]
    trivial
  · intro _
    exact hcalling.previous.trans hsame.symm
  · intro answer hanswer
    rcases List.mem_cons.mp hanswer with rfl | hanswer
    · refine ⟨fun hsuccess => absurd hsuccess hstatus, fun _ => ?_⟩
      rw [hcalling.found]
      exact congrArg₂ Destinations.mk hcalling.previous hsame
    · exact h.answers answer hanswer

theorem Server.returned_refused {selection : Selection} {result : Upload.UploadResult}
    (hphase : selection.phase ≠ .restoring) (hresult : result ≠ .ok) :
    server.returned selection result =
      server.answer (setStorageError result) (some selection.destination) selection.found := by
  rw [Server.returned, if_neg hphase, if_pos hresult]

theorem Server.returned_ok {selection : Selection} {result : Upload.UploadResult}
    (hphase : selection.phase ≠ .restoring) (hresult : result = .ok) :
    server.returned selection result =
      { server with holder := some (.storing { selection with phase := .selected }) } := by
  rw [Server.returned, if_neg hphase, if_neg (not_not.mpr hresult)]

theorem Server.returned_restoring {selection : Selection} (result : Upload.UploadResult)
    (hphase : selection.phase = .restoring) :
    server.returned selection result =
      server.answer
        (setJsonError 500 "storage_config_error" "Unable to persist the storage setting")
        (some selection.destination) selection.found := by
  rw [Server.returned, if_pos hphase]

/-- A stretch of the call that selects. -/
theorem Agreeing.called (h : Agreeing base configPath server) {selection : Selection}
    (hcalling : Calling base server selection) (hphase : selection.phase = .selecting)
    (hsame : server.uploadDestination = selection.previousDestination)
    {action : Upload.Action} (htid : action.tid = some selection.tid)
    {stretch : Upload.World × Upload.Outcome}
    (hstep : Upload.step server.uploads action =
      some (server.uploads.settle selection.tid (.setDestination selection.destination) stretch))
    (hset : Upload.DestinationSet server.uploads.world selection.destination stretch)
    (io : DirectoryIo) :
    Agreeing base configPath (server.called selection io stretch) := by
  have hasked : selection.asked = selection.destination := by simp [Selection.asked, hphase]
  have hsettled := Upload.settled_step h.continuing hstep
  unfold Server.called
  rw [hasked]
  cases hset with
  | @parked middle target hold =>
      refine h.hold hcalling hsettled htid ?_ ?_
      · intro thread hthread
        simp only [Upload.Sys.settle, Upload.Sys.setPc, Function.update_self] at hthread
        cases hthread
        rfl
      · simp only [Selection.InPhase, hphase]
        exact ⟨hold.trans hsame, target, Function.update_self ..⟩
  | @refused middle reply hresult hold =>
      dsimp only
      rw [Server.returned_refused (by simp [hphase]) hresult]
      exact h.answer hcalling hsettled htid (Function.update_self ..) (hold.trans hsame)
        (setStorageError_status _)
  | @set middle reply hresult hnew hfree =>
      dsimp only
      rw [Server.returned_ok (by simp [hphase]) hresult]
      have hselected : Calling base server { selection with phase := .selected } :=
        ⟨hcalling.of, hcalling.holder, hcalling.previous, hcalling.found⟩
      refine h.hold hselected hsettled htid ?_ ⟨hnew, hfree, Function.update_self ..⟩
      intro thread hthread
      exact absurd ((Function.update_self ..).symm.trans hthread) nofun

/-! ## The other steps of a storage request -/

theorem Agreeing.checked (h : Agreeing base configPath server) {router : Router}
    {request : Request} {now : UInt64} {result : Except Response CString}
    (hcheck : checkStorage server.router request now = (router, result)) :
    Agreeing base configPath { server with router } := by
  obtain ⟨hconfig, -, -⟩ := checkStorage_spec hcheck
  refine ⟨h.kept.checked hcheck, h.host, hconfig ▸ h.safe, h.continuing, h.callers, ?_, ?_,
    h.answers⟩
  · intro selection hselection
    obtain ⟨hprevious, hfound, hphase⟩ := h.handled selection hselection
    exact ⟨by rw [hconfig]; exact hprevious, hfound, hphase⟩
  · intro hholder
    rw [hconfig]
    exact h.agrees hholder

theorem Agreeing.refuse (h : Agreeing base configPath server) {response : Response}
    (hstatus : response.status ≠ 200) : Agreeing base configPath (server.refuse response) := by
  refine ⟨⟨h.kept.config_eq, h.kept.path_eq, h.kept.selection, ?_⟩, h.host, h.safe, h.continuing,
    h.callers, fun selection hselection => ?_, h.agrees, ?_⟩
  · intro answer hanswer hsuccess
    rcases List.mem_cons.mp hanswer with rfl | hanswer
    · exact absurd hsuccess hstatus
    · exact h.kept.answers answer hanswer hsuccess
  · obtain ⟨hprevious, hfound, hphase⟩ := h.handled selection hselection
    exact ⟨hprevious, hfound, hphase⟩
  · intro answer hanswer
    rcases List.mem_cons.mp hanswer with rfl | hanswer
    · exact ⟨fun hsuccess => absurd hsuccess hstatus, fun _ => rfl⟩
    · exact h.answers answer hanswer

theorem unknownTarget_status :
    (setJsonError 400 "invalid_storage" "Unknown configured storage target").status ≠ 200 := by
  decide

/-- An unknown target is refused under the mutex. -/
theorem Agreeing.unknown (h : Agreeing base configPath server) (hholder : server.holder = none)
    {response : Response} (hstatus : response.status ≠ 200) :
    Agreeing base configPath (server.answer response none server.destinations) := by
  refine ⟨h.kept.answer fun hsuccess => absurd hsuccess hstatus, h.host, h.safe, h.continuing,
    ?_, nofun, fun _ => h.agrees fun selection hselection => ?_, ?_⟩
  · intro tid thread hthread
    have hallows := h.callers tid thread hthread
    cases hsetup : thread.call.setup with
    | nothing => trivial
    | slot => simp [hsetup, Server.Allows, hholder] at hallows
    | destination => simp [hsetup, Server.Allows, hholder] at hallows
  · rw [hholder] at hselection
    cases hselection
  · intro answer hanswer
    rcases List.mem_cons.mp hanswer with rfl | hanswer
    · exact ⟨fun hsuccess => absurd hsuccess hstatus, fun _ => rfl⟩
    · exact h.answers answer hanswer

theorem Agreeing.call (h : Agreeing base configPath server) (hholder : server.holder = none)
    {tid : ℕ} {target destination : CString}
    (hthread : server.uploads.threads tid = none)
    (hpath : storagePathForTarget server.router.config target = some destination)
    (io : DirectoryIo) (env : Upload.Env) :
    Agreeing base configPath (server.call
      ⟨tid, target, destination, server.router.config.destination, .selecting,
        server.destinations⟩ io env) := by
  have hagrees := h.agrees fun selection hselection => by simp [hholder] at hselection
  have hcalling : Calling base server ⟨tid, target, destination, server.router.config.destination,
      .selecting, server.destinations⟩ := by
    refine ⟨?_, ?_, rfl, congrArg (Destinations.mk _) hagrees.symm⟩
    · obtain ⟨entry, hmem, hid, hentry⟩ := storagePathForTarget_mem hpath
      rw [h.kept.config_eq] at hmem
      exact ⟨entry, hmem, hid, hentry⟩
    · intro holder hheld
      simp [hholder] at hheld
  refine h.called hcalling rfl hagrees.symm (rfl : Upload.Action.tid (.call tid
    (.setDestination destination) (directoryEnv server.tree destination io env)) = some tid) ?_
    (Upload.enterCall_setDestination h.host ..) io
  simp only [Upload.step, hthread]
  rfl

theorem Agreeing.wake (h : Agreeing base configPath server) {selection : Selection}
    (hholder : server.holder = some (.storing selection)) {thread : Upload.Thread}
    (hthread : server.uploads.threads selection.tid = some thread) {io : DirectoryIo}
    {env : Upload.Env} {stretch : Upload.World × Upload.Outcome}
    (hresume : Upload.resume server.uploads.world thread.pc env = some stretch) :
    Agreeing base configPath (server.called selection io stretch) := by
  obtain ⟨hprevious, hfound, hphase⟩ := h.handled selection hholder
  have hcalling : Calling base server selection := by
    refine ⟨h.kept.selection selection hholder, ?_, hprevious, hfound⟩
    intro holder hheld
    exact ⟨selection, Option.some.inj (hheld.symm.trans hholder), rfl⟩
  cases hpoint : selection.phase with
  | selecting =>
      simp only [Selection.InPhase, hpoint] at hphase
      obtain ⟨hold, target, hasleep⟩ := hphase
      cases hthread.symm.trans hasleep
      refine h.called hcalling hpoint hold (rfl : Upload.Action.tid (.resume selection.tid env) =
        some selection.tid) ?_ (Upload.resume_setDestination h.host hresume) io
      simp only [Upload.step, hthread, hresume, Option.map_some]
  | restoring => simp only [Selection.InPhase, hpoint] at hphase
  | _ =>
      simp only [Selection.InPhase, hpoint] at hphase
      cases hthread.symm.trans hphase.2.2

theorem storageChanged_status {target destination : CString}
    (htarget : target.length < CONFIG_STORAGE_ID_CAPACITY)
    (hdestination : destination.length < CONFIG_DESTINATION_CAPACITY) :
    (storageChanged target destination).status = 200 := by
  have hfront : (ascii "\x7b\"target\":\"").length = 11 := by decide
  have hmiddle : (ascii "\",\"path\":\"").length = 10 := by decide
  have hback : (ascii "\"\x7d\n").length = 3 := by decide
  simp only [CONFIG_STORAGE_ID_CAPACITY, CONFIG_DESTINATION_CAPACITY] at htarget hdestination
  simp only [storageChanged]
  rw [if_neg]
  simp only [List.length_append, hfront, hmiddle, hback, RESPONSE_STORAGE_BYTES]
  omega

/-- The save keeps what the handler has selected, or undoes nothing yet. -/
theorem Agreeing.save (h : Agreeing base configPath server)
    (htargets : SoundTargets base.storageTargets) {selection : Selection}
    (hholder : server.holder = some (.storing selection)) (hphase : selection.phase = .selected)
    (io : SaveIo) : Agreeing base configPath (server.save selection io) := by
  have hof := h.kept.selection selection hholder
  have hkept := h.kept.save hof io
  obtain ⟨hprevious, hfound, hpoint⟩ := h.handled selection hholder
  simp only [Selection.InPhase, hphase] at hpoint
  obtain ⟨hnew, hfree, hawake⟩ := hpoint
  revert hkept
  unfold Server.save
  dsimp only
  split
  · intro hkept
    refine ⟨hkept, h.host, h.safe, h.continuing, ?_, ?_, ?_, h.answers⟩
    · intro tid thread hthread
      have hallows := h.callers tid thread hthread
      cases hsetup : thread.call.setup with
      | nothing => trivial
      | slot => simp [hsetup, Server.Allows, hholder] at hallows
      | destination =>
          rw [hsetup] at hallows
          obtain ⟨held, hheld, htid⟩ := hallows
          obtain rfl : selection = held := by simpa [hholder] using hheld
          exact ⟨_, rfl, htid⟩
    · rintro _ ⟨⟩
      exact ⟨hprevious, hfound, hnew, hfree, hawake⟩
    · intro hsettled
      exact absurd rfl (hsettled _)
  · rename_i files hsave
    intro hkept
    obtain ⟨entry, hmem, hid, hpath⟩ := hof
    have hsound := htargets.sound entry hmem
    have hsuccess : (storageChanged selection.target selection.destination).status = 200 := by
      refine storageChanged_status ?_ (hpath ▸ hsound.path.length_lt)
      have hlength := hsound.id
      simp only [storageIdIsSafe, decide_eq_true_eq, hid] at hlength
      omega
    have hcallers := h.others fun holder hheld =>
      ⟨selection, Option.some.inj (hheld.symm.trans hholder), rfl⟩
    refine ⟨hkept, h.host, hpath ▸ hsound.path, h.continuing, ?_, ?_, fun _ => hnew.symm, ?_⟩
    · intro tid thread hthread
      have hother : tid ≠ selection.tid := by
        rintro rfl
        cases hawake.symm.trans hthread
      rw [hcallers tid thread hother hthread]
      trivial
    · intro other hstoring
      cases hstoring
    · intro answer hanswer
      rcases List.mem_cons.mp hanswer with rfl | hanswer
      · refine ⟨fun _ => ⟨selection.destination, _, rfl, ?_, configSaveFile_ok hsave, rfl⟩,
          fun hfailed => absurd hsuccess hfailed⟩
        exact congrArg (Destinations.mk _) hnew
      · exact h.answers answer hanswer

/-- The roll-back, where it finds the directory it goes back to. -/
theorem Agreeing.restore (h : Agreeing base configPath server) {selection : Selection}
    (hholder : server.holder = some (.storing selection)) (hphase : selection.phase = .unsaved)
    {io : DirectoryIo} (env : Upload.Env) (hundo : Undoes server (.restore io env)) :
    Agreeing base configPath (server.call { selection with phase := .restoring } io env) := by
  obtain ⟨hprevious, hfound, hpoint⟩ := h.handled selection hholder
  simp only [Selection.InPhase, hphase] at hpoint
  obtain ⟨hnew, hfree, hawake⟩ := hpoint
  have hcalling : Calling base server { selection with phase := .restoring } := by
    refine ⟨h.kept.selection selection hholder, ?_, hprevious, hfound⟩
    intro holder hheld
    exact ⟨selection, Option.some.inj (hheld.symm.trans hholder), rfl⟩
  have hsafe : SafeDirectory selection.previousDestination := hprevious ▸ h.safe
  have hback : server.uploads.world.mgr.settings.destination = selection.previousDestination ∨
      (directoryEnv server.tree selection.previousDestination io env).ensureError = none :=
    (hundo selection hholder).imp_left hnew.trans
  obtain ⟨next, reply, hcall, hold, -⟩ := Upload.enterCall_setDestination_free h.host hfree
    ⟨hsafe.absolute, hsafe.length_lt⟩ hback
  have hstep : Upload.step server.uploads (.call selection.tid
      (.setDestination selection.previousDestination)
      (directoryEnv server.tree selection.previousDestination io env)) =
        some (server.uploads.settle selection.tid (.setDestination selection.previousDestination)
          (next, .done reply)) := by
    simp only [Upload.step, hawake, hcall]
  have hsettled := Upload.settled_step h.continuing hstep
  have hasked : Selection.asked { selection with phase := .restoring } =
      selection.previousDestination := if_pos rfl
  rw [Server.call, Server.called, Server.env, hasked, hcall]
  dsimp only
  rw [Server.returned_restoring _ rfl]
  exact h.answer hcalling hsettled rfl (Function.update_self ..) hold (by decide)

theorem agreeing_step (htargets : SoundTargets base.storageTargets)
    (h : Agreeing base configPath server) {action : Action} (hundo : Undoes server action)
    (hstep : step server action = some next) : Agreeing base configPath next := by
  cases step_stepped hstep with
  | uploads hcall hother hupload => exact (h.uploads hcall hother hupload).release
  | prepare hholder hupload => exact (h.prepare hholder hupload).release
  | refused hcheck => exact (h.checked hcheck).refuse ((checkStorage_spec hcheck).2.2 _ rfl)
  | unknown hcheck hholder => exact (h.checked hcheck).unknown hholder unknownTarget_status
  | select hcheck hholder hthread hpath => exact (h.checked hcheck).call hholder hthread hpath ..
  | wake hholder hthread hresume => exact h.wake hholder hthread hresume
  | save hholder hphase => exact h.save htargets hholder hphase _
  | restore hholder hphase => exact h.restore hholder hphase _ hundo

/-! ## Runs -/

theorem loadConfiguration_valid {loaded : Files} {source : CString} {io : LoadIo}
    {config : AppConfig} (h : loadConfiguration (configLoadFile loaded source io) = some config) :
    Valid config := by
  cases hload : configLoadFile loaded source io with
  | ok found =>
      rw [hload] at h
      obtain rfl := Option.some.inj h
      exact configLoadFile_valid hload
  | notFound found error =>
      rw [hload] at h
      obtain rfl := Option.some.inj h
      exact configLoadFile_notFound hload
  | invalid error => simp [hload, loadConfiguration] at h
  | ioError error => simp [hload, loadConfiguration] at h

theorem agreeing_serverStart {config started : AppConfig} {portArgument : Option CString}
    {chosenPort fastUploadPort : ℕ} {files : Files} {tree : Tree} {fs : Upload.Fs}
    (hvalid : Valid config) (hargument : startConfig config portArgument = some started)
    (h : serverStart started configPath chosenPort fastUploadPort files tree fs = some server) :
    Agreeing { started with port := boundPort started.port chosenPort } configPath server := by
  have hkept := kept_serverStart h
  obtain ⟨hstarted, -⟩ := startConfig_spec hvalid hargument
  have hsafe : SafeDirectory started.destination := by
    rw [hstarted]
    exact hvalid.destination_safe
  obtain ⟨auth, -, rfl⟩ := Option.map_eq_some_iff.mp h
  refine ⟨hkept, rfl, hsafe, ?_, ?_, ?_, fun _ => rfl, ?_⟩
  · intro tid thread hthread
    simp [Upload.Sys.initial] at hthread
  · intro tid thread hthread
    simp [Upload.Sys.initial] at hthread
  · intro selection hselection
    simp at hselection
  · intro answer hanswer
    simp at hanswer

/-- In every run in which a roll-back finds the directory it goes back to, every storage
request is answered consistently, and the two destinations are equal whenever no storage
request holds the mutex. -/
theorem storage_consistent_of_undoes {loaded files : Files} {source : CString} {io : LoadIo}
    {config started : AppConfig} {portArgument : Option CString} {chosenPort fastUploadPort : ℕ}
    {tree : Tree} {fs : Upload.Fs} {actions : List Action} {first : Server}
    (hload : loadConfiguration (configLoadFile loaded source io) = some config)
    (hargument : startConfig config portArgument = some started)
    (hstart : serverStart started configPath chosenPort fastUploadPort files tree fs = some first)
    (hrun : Run step Undoes first actions server) :
    (∀ answer ∈ server.answers, answer.Consistent) ∧
      (server.Settled → server.router.config.destination = server.uploadDestination) := by
  have hvalid := loadConfiguration_valid hload
  obtain ⟨hstarted, -⟩ := startConfig_spec hvalid hargument
  have htargets : SoundTargets started.storageTargets := by
    rw [hstarted]
    exact hvalid.targets
  have hbase : SoundTargets
      { started with port := boundPort started.port chosenPort }.storageTargets := htargets
  have hagreeing := hrun.invariant (fun _ _ _ h hundo hstep => agreeing_step hbase h hundo hstep)
    (agreeing_serverStart hvalid hargument hstart)
  exact ⟨hagreeing.answers, hagreeing.agrees⟩

namespace Sample

/-- A configuration whose destination is on the USB drive. -/
def driveFile : Bytes := ascii "auth_mode=none\ndestination=/mnt/usb0/ps5localsend/inbox\n"

/-- What it is loaded as. -/
def driveConfig : AppConfig :=
  { openConfig with destination := ascii "/mnt/usb0/ps5localsend/inbox" }

/-- The configuration file alone. -/
def driveFiles : Files := Function.update (fun _ => none) iniPath (some driveFile)

/-- The request of the page for the internal storage. -/
def selectInternal : Request :=
  { selectUsb with body := some (ascii "\x7b\"target\":\"internal\"\x7d") }

/-- The new file can not be renamed. -/
def saveFails : SaveIo := ⟨none, none, some .eio, false⟩

/-- The drive has been pulled out. -/
def pulled : DirectoryIo :=
  ⟨fun _ => none, fun path => if path = ascii "/mnt/usb0" then some .enoent else none⟩

/-- The receiver with its destination on the drive. -/
def driveReceiver : Option Server := serverStart driveConfig iniPath 0 0 driveFiles mounted noFiles

/-- The internal storage is selected and the setting can not be saved. -/
def unsaved : List Action :=
  [.storage 0 selectInternal 5 .calm (.calm 5 []), .save saveFails]

end Sample

open Sample

theorem driveFile_loads : loadConfiguration (configLoadFile driveFiles iniPath .calm) =
    some driveConfig := by
  decide +kernel

/-- A change that could not be saved is undone while the drive is still there. -/
theorem unsaved_undone :
    ∃ server, driveReceiver.bind (exec step · (unsaved ++ [.restore .calm (.calm 6 [])])) =
        some server ∧ server.answers ≠ [] ∧ (∀ answer ∈ server.answers, answer.Consistent) ∧
      server.router.config.destination = server.uploadDestination := by
  have hstart : driveReceiver = some (driveReceiver.get (by decide +kernel)) :=
    (Option.some_get _).symm
  have hunsaved : ∃ middle, exec step (driveReceiver.get (by decide +kernel)) unsaved =
      some middle ∧ (middle.holder = some (.storing ⟨0, ascii "internal",
        ascii "/data/ps5localsend/inbox", ascii "/mnt/usb0/ps5localsend/inbox", .unsaved,
        ⟨ascii "/mnt/usb0/ps5localsend/inbox", ascii "/mnt/usb0/ps5localsend/inbox"⟩⟩) ∧
      (ensureDestinationDirectory middle.tree (ascii "/mnt/usb0/ps5localsend/inbox")
        CONFIG_DESTINATION_CAPACITY .calm).2 = none) ∧
      (step middle (.restore .calm (.calm 6 []))).any fun server =>
        decide (server.holder = none ∧ server.answers ≠ []) :=
    exists_of_exec (by decide +kernel)
  obtain ⟨middle, hexec, ⟨hholder, hensured⟩, hrestored⟩ := hunsaved
  obtain ⟨server, hstep, hanswered⟩ := (Option.any_eq_true ..).mp hrestored
  obtain ⟨hfree, hanswers⟩ := of_decide_eq_true hanswered
  have hundo : Undoes middle (.restore .calm (.calm 6 [])) := by
    intro selection hselection
    obtain rfl : _ = selection := by simpa [hholder] using hselection
    exact .inr hensured
  have hrun : Run step Undoes (driveReceiver.get (by decide +kernel))
      (unsaved ++ [.restore .calm (.calm 6 [])]) server := by
    refine .snoc (.of_exec ?_ hexec) hundo hstep
    intro action haction state
    simp only [unsaved, List.mem_cons, List.not_mem_nil, or_false] at haction
    rcases haction with rfl | rfl <;> trivial
  obtain ⟨hconsistent, hagrees⟩ := storage_consistent_of_undoes driveFile_loads
    (rfl : startConfig driveConfig none = some driveConfig) hstart hrun
  refine ⟨server, ?_, hanswers, hconsistent, hagrees fun selection => by simp [hfree]⟩
  rw [hstart, Option.bind_some, exec_append, hexec, Option.bind_some, exec, hstep]
  rfl

/-- With the drive pulled out, the change that could not be saved can not be undone. -/
theorem pulledDrive_diverges :
    loadConfiguration (configLoadFile driveFiles iniPath .calm) = some driveConfig ∧
      ∃ server, driveReceiver.bind (exec step · (unsaved ++ [.restore pulled (.calm 6 [])])) =
          some server ∧
        (∃ answer ∈ server.answers, answer.response.status = 500 ∧ answer.after ≠ answer.before) ∧
        server.holder = none ∧ server.router.config.destination ≠ server.uploadDestination := by
  refine ⟨driveFile_loads, ?_⟩
  have hstart : driveReceiver = some (driveReceiver.get (by decide +kernel)) :=
    (Option.some_get _).symm
  rw [hstart]
  exact exists_of_exec (by decide +kernel)

end LocalSend.Routing
