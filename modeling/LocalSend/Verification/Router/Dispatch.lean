import LocalSend.Model.Router.Dispatch

/-! # The two forms of `router_dispatch`

The program that asks for its answer, and the function that is given a snapshot of the uploads and
the handlers' answers.
-/

namespace LocalSend.Routing

open Config SafePath
open Upload (Snapshot)

/-- The paths with a handler of their own are those the status answer leaves to the handlers. -/
theorem isSome_handlerFor (authMode : AuthMode) (request : Request) :
    (handlerFor authMode request).isSome = hasHandler request.path := by
  rw [Bool.eq_iff_iff]
  simp only [handlerFor, hasHandler, uploadCompleteFromPath, uploadIdFromPath]
  grind

variable {assetsFind : CString → Option Asset} {authMode : AuthMode} {router : Router}
  {request : Request} {snapshot : Snapshot} {trace : List (Program.Exchange Effect.Reply)}
  {response : Response}

/-- A call for the configuration or for a snapshot is answered with these. -/
def Reports (router : Router) (snapshot : Snapshot) : Program.Exchange Effect.Reply → Prop
  | ⟨.configuration, configuration⟩ => configuration = (router.config, router.fastUploadPort)
  | ⟨.uploads .snapshot, reply⟩ => reply.snapshot = some snapshot
  | _ => True

theorem askStatus_answer (hpath : Program.Path askStatus trace response)
    (hreports : ∀ exchange ∈ trace, Reports router snapshot exchange) :
    response = statusAnswer router.config router.fastUploadPort snapshot := by
  cases hpath with
  | call hpath =>
      cases hpath with
      | call hpath =>
          obtain ⟨hconfiguration, hsnapshot⟩ := List.forall_mem_cons.mp hreports
          have hreply := (List.forall_mem_cons.mp hsnapshot).1
          simp only [Reports] at hconfiguration hreply
          subst hconfiguration
          dsimp only at hpath
          split at hpath
          · rename_i shown hshown
            obtain rfl := Option.some.inj (hreply.symm.trans hshown)
            cases hpath
            rfl
          · rename_i hnone
            cases hreply.symm.trans hnone

theorem dispatchRest_answer (hpath : Program.Path (dispatchRest assetsFind request) trace response)
    (hreports : ∀ exchange ∈ trace, Reports router snapshot exchange)
    (hown : hasHandler request.path = false)
    (hsizes : ¬(ROUTER_MAX_METHOD_BYTES < request.method.length ∨
      ROUTER_MAX_PATH_BYTES < request.path.length)) (handlers : Request → Response) :
    response = routerDispatch handlers assetsFind router request snapshot := by
  rw [routerDispatch, if_neg hsizes, if_neg (by simp [hown])]
  rw [dispatchRest] at hpath
  split at hpath
  · rw [if_pos ‹_›]
    cases hpath
    rfl
  rw [if_neg ‹_›]
  split at hpath
  · rw [if_pos ‹_›]
    cases hpath
    rfl
  rw [if_neg ‹_›]
  split at hpath
  · rename_i hbody
    rw [Request.bodySize] at hbody
    rw [if_pos hbody]
    cases hpath
    rfl
  rename_i hbody
  rw [Request.bodySize] at hbody
  rw [if_neg hbody]
  cases hasset : assetsFind request.path with
  | some asset =>
      rw [hasset] at hpath
      cases hpath
      rfl
  | none =>
      rw [hasset] at hpath
      exact askStatus_answer hpath hreports

/-- Whatever `router_dispatch` answers while the configuration and the uploads are as given, the
function answers, where its handlers answer the same. -/
theorem routerDispatch_of_path
    (hpath : Program.Path (dispatch assetsFind authMode request) trace response)
    (hreports : ∀ exchange ∈ trace, Reports router snapshot exchange)
    {handlers : Request → Response}
    (hhandlers : hasHandler request.path = true → handlers request = response) :
    response = routerDispatch handlers assetsFind router request snapshot := by
  have hhandler := isSome_handlerFor authMode request
  rw [dispatch] at hpath
  split at hpath
  · rw [routerDispatch, if_pos ‹_›]
    cases hpath
    rfl
  rename_i hsizes
  cases hfound : handlerFor authMode request with
  | none =>
      rw [hfound] at hpath hhandler
      exact dispatchRest_answer hpath hreports hhandler.symm hsizes handlers
  | some handler =>
      rw [hfound, Option.isSome_some] at hhandler
      rw [routerDispatch, if_neg hsizes, if_pos hhandler.symm, hhandlers hhandler.symm]

end LocalSend.Routing
