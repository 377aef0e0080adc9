import LocalSend.Model.Router.Storage
import LocalSend.Verification.Config.RoundTrip

/-! # Steps of the server

What enables each step, and the configuration of the router over whole runs: it is the one
the server was started with, but for the destination, which is the path of a target.
-/

namespace LocalSend.Routing

open Config SafePath Transition
open Upload (DirectoryIo Tree)

/-! ## Every step -/

/-- The steps of the server, with what has enabled them. -/
inductive Stepped (server : Server) : Action → Server → Prop
  | uploads {action : Upload.Action} {uploads : Upload.Sys}
      (hcall : ∀ tid call env, action = .call tid call env → call.setup = .nothing)
      (hother : ∀ selection, server.holder = some (.storing selection) →
        action.tid ≠ some selection.tid)
      (hstep : Upload.step server.uploads action = some uploads) :
      Stepped server (.uploads action) ({ server with uploads } : Server).release
  | prepare {tid : ℕ} {client authorization : CString} {json : Bytes} {env : Upload.Env}
      {uploads : Upload.Sys} (hholder : server.holder = none)
      (hstep : Upload.step server.uploads (.call tid (.prepare client authorization json) env) =
        some uploads) :
      Stepped server (.prepare tid client authorization json env)
        ({ server with uploads, holder := some (.preparing tid) } : Server).release
  | refused {tid : ℕ} {request : Request} {now : UInt64} {io : DirectoryIo} {env : Upload.Env}
      {router : Router} {response : Response}
      (hcheck : checkStorage server.router request now = (router, .error response)) :
      Stepped server (.storage tid request now io env)
        (({ server with router } : Server).refuse response)
  | unknown {tid : ℕ} {request : Request} {now : UInt64} {io : DirectoryIo} {env : Upload.Env}
      {router : Router} {target : CString}
      (hcheck : checkStorage server.router request now = (router, .ok target))
      (hholder : server.holder = none) :
      Stepped server (.storage tid request now io env)
        (({ server with router } : Server).answer
          (setJsonError 400 "invalid_storage" "Unknown configured storage target") none
          ({ server with router } : Server).destinations)
  | select {tid : ℕ} {request : Request} {now : UInt64} {io : DirectoryIo} {env : Upload.Env}
      {router : Router} {target destination : CString}
      (hcheck : checkStorage server.router request now = (router, .ok target))
      (hholder : server.holder = none) (hthread : server.uploads.threads tid = none)
      (hpath : storagePathForTarget router.config target = some destination) :
      Stepped server (.storage tid request now io env)
        (({ server with router } : Server).call
          ⟨tid, target, destination, router.config.destination, .selecting,
            ({ server with router } : Server).destinations⟩ io env)
  | wake {io : DirectoryIo} {env : Upload.Env} {selection : Selection}
      {thread : Upload.Thread} {stretch : Upload.World × Upload.Outcome}
      (hholder : server.holder = some (.storing selection))
      (hthread : server.uploads.threads selection.tid = some thread)
      (hresume : Upload.resume server.uploads.world thread.pc (server.env selection io env) =
        some stretch) :
      Stepped server (.wake io env) (server.called selection io stretch)
  | save {io : SaveIo} {selection : Selection}
      (hholder : server.holder = some (.storing selection))
      (hphase : selection.phase = .selected) :
      Stepped server (.save io) (server.save selection io)
  | restore {io : DirectoryIo} {env : Upload.Env} {selection : Selection}
      (hholder : server.holder = some (.storing selection))
      (hphase : selection.phase = .unsaved) :
      Stepped server (.restore io env) (server.call { selection with phase := .restoring } io env)

theorem uploadStep_some {server next : Server} {action : Upload.Action}
    (h : server.uploadStep action = some next) :
    ∃ uploads, Upload.step server.uploads action = some uploads ∧
      (∀ selection, server.holder = some (.storing selection) →
        action.tid ≠ some selection.tid) ∧
      next = ({ server with uploads } : Server).release := by
  unfold Server.uploadStep at h
  split at h
  · rename_i selection hholder
    split at h
    · cases h
    · rename_i hother
      obtain ⟨uploads, hstep, rfl⟩ := Option.map_eq_some_iff.mp h
      refine ⟨uploads, hstep, ?_, by simp [Server.release, hholder]⟩
      intro other heq
      obtain rfl : selection = other := by simpa [hholder] using heq
      exact hother
  · rename_i hholder
    obtain ⟨uploads, hstep, rfl⟩ := Option.map_eq_some_iff.mp h
    exact ⟨uploads, hstep, fun selection heq => absurd heq (hholder selection), rfl⟩

theorem step_stepped {server next : Server} {action : Action}
    (h : step server action = some next) : Stepped server action next := by
  cases action with
  | uploads action =>
      have hstep : server.uploadStep action = some next ∧
          ∀ tid call env, action = .call tid call env → call.setup = .nothing := by
        cases action with
        | call tid call env =>
            simp only [step, ne_eq, ite_not] at h
            split at h
            · rename_i hcall
              refine ⟨h, ?_⟩
              rintro _ _ _ ⟨⟩
              exact hcall
            · cases h
        | _ => exact ⟨h, by rintro _ _ _ ⟨⟩⟩
      obtain ⟨uploads, hupload, hother, rfl⟩ := uploadStep_some hstep.1
      exact .uploads hstep.2 hother hupload
  | prepare tid client authorization json env =>
      simp only [step] at h
      split at h
      · cases h
      · rename_i hholder
        obtain ⟨uploads, hstep, rfl⟩ := Option.map_eq_some_iff.mp h
        exact .prepare (by simpa using hholder) hstep
  | storage tid request now io env =>
      simp only [step] at h
      generalize hcheck : checkStorage server.router request now = checking at h
      obtain ⟨router, checked⟩ := checking
      cases checked with
      | error response =>
          cases h
          exact .refused hcheck
      | ok target =>
          dsimp only at h
          split at h
          · cases h
          rename_i hfree
          have hfree : server.holder = none ∧ server.uploads.threads tid = none := by
            simpa using hfree
          split at h
          · cases h
            exact .unknown hcheck hfree.1
          · rename_i destination hpath
            cases h
            exact .select hcheck hfree.1 hfree.2 hpath
  | wake io env =>
      simp only [step] at h
      split at h
      · rename_i selection hholder
        obtain ⟨thread, hthread, h⟩ := Option.bind_eq_some_iff.mp h
        obtain ⟨stretch, hresume, rfl⟩ := Option.map_eq_some_iff.mp h
        exact .wake hholder hthread hresume
      · cases h
  | save io =>
      simp only [step] at h
      split at h
      · rename_i selection hholder
        split at h
        · rename_i hphase
          cases h
          exact .save hholder hphase
        · cases h
      · cases h
  | restore io env =>
      simp only [step] at h
      split at h
      · rename_i selection hholder
        split at h
        · rename_i hphase
          cases h
          exact .restore hholder hphase
        · cases h
      · cases h

/-! ## The checks -/

theorem authorized_router (router : Router) (request : Request) (now : UInt64) :
    (authorized router request now).1.config = router.config ∧
      (authorized router request now).1.configPath = router.configPath := by
  unfold authorized
  split <;> exact ⟨rfl, rfl⟩

/-- The checks leave the configuration alone, and a refusal is no success. -/
theorem checkStorage_spec {router checked : Router} {request : Request} {now : UInt64}
    {result : Except Response CString} (h : checkStorage router request now = (checked, result)) :
    checked.config = router.config ∧ checked.configPath = router.configPath ∧
      ∀ response, result = .error response → response.status ≠ 200 := by
  obtain ⟨hconfig, hpath⟩ := authorized_router router request now
  unfold checkStorage at h
  split at h
  · cases h
    exact ⟨rfl, rfl, by rintro _ ⟨⟩; decide⟩
  split at h
  · cases h
    exact ⟨rfl, rfl, by rintro _ ⟨⟩; decide⟩
  dsimp only at h
  split at h
  · cases h
    exact ⟨hconfig, hpath, by rintro _ ⟨⟩; decide⟩
  split at h
  · cases h
    exact ⟨hconfig, hpath, by rintro _ ⟨⟩; decide⟩
  split at h
  · cases h
    exact ⟨hconfig, hpath, by rintro _ ⟨⟩; decide⟩
  split at h
  · cases h
    exact ⟨hconfig, hpath, by rintro _ ⟨⟩; decide⟩
  · cases h
    exact ⟨hconfig, hpath, by rintro _ ⟨⟩⟩

theorem setStorageError_status (result : Upload.UploadResult) :
    (setStorageError result).status ≠ 200 := by
  unfold setStorageError
  split
  · decide
  split <;> decide

/-- The target of an identifier is one of the configuration. -/
theorem storagePathForTarget_mem {config : AppConfig} {target path : CString}
    (h : storagePathForTarget config target = some path) :
    ∃ entry ∈ config.storageTargets, entry.id = target ∧ entry.path = path := by
  obtain ⟨entry, hentry, rfl⟩ := Option.map_eq_some_iff.mp h
  exact ⟨entry, List.mem_of_find?_eq_some hentry,
    by simpa using List.find?_some hentry, rfl⟩

/-! ## The configuration over a run -/

/-- The request's destination is the path of its target. -/
def Selection.Of (selection : Selection) (base : AppConfig) : Prop :=
  ∃ entry ∈ base.storageTargets, entry.id = selection.target ∧ entry.path = selection.destination

/-- A success has saved `base` with the path of a target. -/
def Answer.SavesTarget (answer : Answer) (base : AppConfig) : Prop :=
  ∃ entry ∈ base.storageTargets, answer.destination = some entry.path ∧
    answer.saved = some (configText { base with destination := entry.path })

/-- The router keeps the configuration `base`, whose destination alone changes. -/
structure Kept (base : AppConfig) (configPath : CString) (server : Server) : Prop where
  config_eq : server.router.config =
    { base with destination := server.router.config.destination }
  path_eq : server.router.configPath = configPath
  selection : ∀ selection, server.holder = some (.storing selection) → selection.Of base
  answers : ∀ answer ∈ server.answers, answer.response.status = 200 → answer.SavesTarget base

variable {base : AppConfig} {configPath : CString} {server next : Server}

theorem Kept.answer (h : Kept base configPath server) {response : Response}
    {destination : Option CString} {before : Destinations}
    (hstatus : response.status = 200 → ∃ entry ∈ base.storageTargets,
      destination = some entry.path ∧ server.files configPath =
        some (configText { base with destination := entry.path })) :
    Kept base configPath (server.answer response destination before) := by
  refine ⟨h.config_eq, h.path_eq, nofun, ?_⟩
  intro answer hanswer hsuccess
  rcases List.mem_cons.mp hanswer with rfl | hanswer
  · obtain ⟨entry, hmem, hdestination, hfile⟩ := hstatus hsuccess
    refine ⟨entry, hmem, hdestination, ?_⟩
    exact (congrArg server.files h.path_eq).trans hfile
  · exact h.answers answer hanswer hsuccess

theorem Kept.release (h : Kept base configPath server) :
    Kept base configPath server.release := by
  unfold Server.release
  split
  · split
    · exact ⟨h.config_eq, h.path_eq, nofun, h.answers⟩
    · exact h
  · exact h

theorem Kept.called (h : Kept base configPath server) {selection : Selection}
    (hselection : selection.Of base) (io : DirectoryIo)
    (stretch : Upload.World × Upload.Outcome) :
    Kept base configPath (server.called selection io stretch) := by
  have hholding : ∀ held : Selection, held.Of base → ∀ uploads tree,
      Kept base configPath { server with uploads, tree, holder := some (.storing held) } := by
    intro held hheld uploads tree
    refine ⟨h.config_eq, h.path_eq, ?_, h.answers⟩
    rintro _ ⟨⟩
    exact hheld
  unfold Server.called
  dsimp only
  split
  · exact hholding selection hselection _ _
  · unfold Server.returned
    split
    · exact (hholding selection hselection _ _).answer fun hstatus => by cases hstatus
    split
    · exact (hholding selection hselection _ _).answer fun hstatus =>
        absurd hstatus (setStorageError_status _)
    · exact hholding { selection with phase := .selected } hselection _ _

theorem Kept.save (h : Kept base configPath server) {selection : Selection}
    (hselection : selection.Of base) (io : SaveIo) :
    Kept base configPath (server.save selection io) := by
  have hnext : { server.router.config with destination := selection.destination } =
      { base with destination := selection.destination } := by
    rw [h.config_eq]
  unfold Server.save
  dsimp only
  split
  · refine ⟨h.config_eq, h.path_eq, ?_, h.answers⟩
    rintro _ ⟨⟩
    exact hselection
  · rename_i files hsave
    rw [hnext] at hsave ⊢
    have hfile := configSaveFile_ok hsave
    obtain ⟨entry, hmem, -, hpath⟩ := hselection
    rw [← hpath] at hfile ⊢
    have hsaved : Kept base configPath { server with
        files
        router := { server.router with config := { base with destination := entry.path } } } :=
      ⟨rfl, h.path_eq, h.selection, h.answers⟩
    refine hsaved.answer fun _ => ⟨entry, hmem, rfl, ?_⟩
    rw [← h.path_eq]
    exact hfile

theorem Kept.checked (h : Kept base configPath server) {router : Router} {request : Request}
    {now : UInt64} {result : Except Response CString}
    (hcheck : checkStorage server.router request now = (router, result)) :
    Kept base configPath { server with router } := by
  obtain ⟨hconfig, hpath, -⟩ := checkStorage_spec hcheck
  exact ⟨by rw [hconfig]; exact h.config_eq, hpath.trans h.path_eq, h.selection, h.answers⟩

theorem kept_step (h : Kept base configPath server) {action : Action}
    (hstep : step server action = some next) : Kept base configPath next := by
  cases step_stepped hstep with
  | uploads hcall hother hupload =>
      exact Kept.release ⟨h.config_eq, h.path_eq, h.selection, h.answers⟩
  | prepare hholder hupload =>
      exact Kept.release ⟨h.config_eq, h.path_eq, nofun, h.answers⟩
  | refused hcheck =>
      have hchecked := h.checked hcheck
      refine ⟨hchecked.config_eq, hchecked.path_eq, hchecked.selection, ?_⟩
      intro answer hanswer hsuccess
      rcases List.mem_cons.mp hanswer with rfl | hanswer
      · exact absurd hsuccess ((checkStorage_spec hcheck).2.2 _ rfl)
      · exact h.answers answer hanswer hsuccess
  | unknown hcheck hholder =>
      exact (h.checked hcheck).answer fun hsuccess => by cases hsuccess
  | select hcheck hholder hthread hpath =>
      have hchecked := h.checked hcheck
      refine hchecked.called ?_ ..
      obtain ⟨entry, hmem, hid, hentry⟩ := storagePathForTarget_mem hpath
      rw [(checkStorage_spec hcheck).1, h.config_eq] at hmem
      exact ⟨entry, hmem, hid, hentry⟩
  | wake hholder hthread hresume => exact h.called (h.selection _ hholder) _ _
  | save hholder hphase => exact h.save (h.selection _ hholder) _
  | @restore io env selection hholder hphase =>
      have hselection : Selection.Of { selection with phase := .restoring } base :=
        h.selection selection hholder
      exact h.called hselection ..

end LocalSend.Routing
