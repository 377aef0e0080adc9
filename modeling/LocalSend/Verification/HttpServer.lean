import LocalSend.Model.HttpServer
import LocalSend.Verification.Router.Protocol

/-! # The main listener follows the protocol

However libmicrohttpd cuts up a body and wherever the connection breaks off, a request hands its
body over in order, and `request_completed` closes what it has begun.
-/

namespace LocalSend.Http

open Config SafePath Routing
open Program (Obeys)

variable {authMode : AuthMode} {connection : Connection} {state : RequestState} {stage : Stage}
  {body : Body} {received data : Bytes}

/-- Where a request stands that goes on: it has only gathered its body, or its stream is open. -/
inductive Stands (authMode : AuthMode) (received : Bytes) : RequestState → Stage → Prop
  | gathering {state : RequestState} (hstreaming : state.streaming = false)
      (hstarted : state.streamStarted = false) :
      Stands authMode received state (.start authMode)
  | streaming {state : RequestState} (hstreaming : state.streaming = true)
      (hstarted : state.streamStarted = true) (hfinished : state.streamFinished = false)
      (hfailed : state.streamFailed = false)
      (hreceived : state.chunk.isSome = true → state.chunkReceived = .ofNat received.length) :
      Stands authMode received state
        (.receiving state.uploadId (chunkOf state.chunk) received)

/-- What `request_completed` relies on. -/
structure Leaves (state : RequestState) (stage : Stage) : Prop where
  open_ : state.streamStarted = true → state.streamFinished = false →
    stage.stream = some (state.uploadId, chunkOf state.chunk)
  closed : state.streamStarted = false ∨ state.streamFinished = true → stage.Closed

/-- Behind a call of the handler the request goes on, or will be completed. -/
def Handled (authMode : AuthMode) (received : Bytes) : RequestState × Verdict → Stage → Prop
  | (state, .proceed), stage => Stands authMode received state stage
  | (state, _), stage => Leaves state stage

theorem Stands.leaves (h : Stands authMode received state stage) : Leaves state stage := by
  cases h with
  | gathering _ hstarted =>
      exact ⟨fun h => absurd (hstarted.symm.trans h) (by decide), fun _ => closed_start authMode⟩
  | streaming _ hstarted hfinished =>
      refine ⟨fun _ _ => rfl, fun h => ?_⟩
      rw [hstarted, hfinished] at h
      simp at h

/-- A request that does not go on is left to `request_completed`. -/
theorem Leaves.handled {verdict : Verdict} (h : Leaves state stage)
    (hverdict : verdict ≠ .proceed) : Handled authMode received (state, verdict) stage := by
  cases verdict with
  | proceed => exact absurd rfl hverdict
  | refused | answered => exact h

/-- A stream is closed unless its end has been answered. -/
theorem obeys_requestCompleted (h : Leaves state stage) :
    Obeys (requestProtocol authMode connection.streamRequest body) (fun _ stage => stage.Closed)
      (requestCompleted state) stage := by
  unfold requestCompleted
  by_cases hopen : state.streamStarted = true ∧ ¬state.streamFinished = true
  · rw [if_pos hopen]
    have hstream := h.open_ hopen.1 (by simpa using hopen.2)
    cases hchunk : state.chunk with
    | none =>
        rw [hchunk] at hstream
        exact obeys_routerUploadStreamAbort hstream
    | some chunk =>
        rw [hchunk] at hstream
        exact obeys_routerUploadStreamAbortChunk hstream
  · rw [if_neg hopen]
    refine h.closed ?_
    by_cases hstarted : state.streamStarted = true
    · exact .inr (not_not.mp fun hfinished => hopen ⟨hstarted, hfinished⟩)
    · exact .inl (by simpa using hstarted)

theorem obeys_handleHeaders :
    Obeys (requestProtocol authMode connection.streamRequest body) (Handled authMode [])
      (handleHeaders authMode connection) (.start authMode) := by
  unfold handleHeaders
  dsimp only
  split
  · refine (obeys_routerUploadStreamBeginEx _ _).bind ?_
    rintro answer stage hbegins
    cases answer with
    | error response => exact ⟨fun h => absurd h Bool.false_ne_true, fun _ => hbegins⟩
    | ok begun =>
        obtain rfl := hbegins
        exact Stands.streaming rfl rfl rfl rfl fun _ => rfl
  · split <;> exact Stands.gathering rfl rfl

/-- A part of the body is gathered, or handed over. -/
theorem obeys_handleData (h : Stands authMode received state stage)
    (hpart : received ++ data <+: body.bytes) :
    Obeys (requestProtocol authMode connection.streamRequest body)
      (Handled authMode (received ++ data)) (handleData state data) stage := by
  unfold handleData
  cases h with
  | gathering hstreaming hstarted =>
      rw [if_neg (by simp [hstreaming])]
      split <;> exact Stands.gathering hstreaming hstarted
  | streaming hstreaming hstarted hfinished hfailed hreceived =>
      rw [if_pos hstreaming, if_neg (by simp [hfailed])]
      have hwrites : Obeys (requestProtocol authMode connection.streamRequest body)
          (Writes state.uploadId (chunkOf state.chunk) (received ++ data)) (state.write data)
          (.receiving state.uploadId (chunkOf state.chunk) received) := by
        unfold RequestState.write
        cases hchunk : state.chunk with
        | none => exact obeys_routerUploadStreamWrite hpart
        | some chunk =>
            exact obeys_routerUploadStreamWriteChunk hpart
              (by rw [hreceived (by rw [hchunk]; rfl)])
      refine hwrites.bind ?_
      rintro answer stage hwritten
      cases answer with
      | error response =>
          obtain rfl := hwritten
          refine ⟨fun _ _ => ?_, fun hclosed => ?_⟩
          · show (Stage.abort _).stream = some (state.uploadId, chunkOf state.chunk)
            cases chunkOf state.chunk <;> rfl
          · simp [hstarted, hfinished] at hclosed
      | ok =>
          obtain rfl := hwritten
          cases hchunk : state.chunk with
          | none =>
              simp only [RequestState.written, hchunk, Option.isSome_none, Bool.false_eq_true,
                if_false]
              rw [← hchunk]
              exact Stands.streaming hstreaming hstarted hfinished hfailed
                fun h => by simp [hchunk] at h
          | some chunk =>
              simp only [RequestState.written, hchunk, Option.isSome_some, if_true]
              rw [← hchunk]
              refine Stands.streaming hstreaming hstarted hfinished hfailed fun _ => ?_
              rw [hreceived (by rw [hchunk]; rfl), List.length_append, UInt64.ofNat_add]

theorem obeys_goOn {handled : RequestState × Verdict}
    {next : RequestState → Handler (RequestState × Verdict)}
    {ends : RequestState × Verdict → Stage → Prop}
    (h : Handled authMode received handled stage)
    (hstops : ∀ state verdict, verdict ≠ .proceed → Leaves state stage →
      ends (state, verdict) stage)
    (hnext : ∀ state, Stands authMode received state stage →
      Obeys (requestProtocol authMode connection.streamRequest body) ends (next state) stage) :
    Obeys (requestProtocol authMode connection.streamRequest body) ends (goOn next handled)
      stage := by
  obtain ⟨state, verdict⟩ := handled
  cases verdict with
  | proceed => exact hnext state h
  | refused => exact hstops state _ (by decide) h
  | answered response => exact hstops state _ (by simp) h

/-- The whole body is gathered, or handed over. -/
theorem obeys_handleBody {parts : List Bytes} (h : Stands authMode received state stage)
    (hpart : received ++ parts.flatten <+: body.bytes) :
    Obeys (requestProtocol authMode connection.streamRequest body)
      (Handled authMode (received ++ parts.flatten)) (handleBody parts state) stage := by
  induction parts generalizing received state stage with
  | nil =>
      rw [List.flatten_nil, List.append_nil]
      exact h
  | cons data parts ih =>
      rw [List.flatten_cons, ← List.append_assoc] at hpart ⊢
      refine (obeys_handleData h ((List.prefix_append ..).trans hpart)).bind ?_
      rintro handled stage hhandled
      exact obeys_goOn hhandled (fun _ _ hverdict hleaves => hleaves.handled hverdict)
        fun state hstands => ih hstands hpart

/-- The end of the body ends a stream, or has the request answered. -/
theorem obeys_handleEnd (assetsFind : CString → Option Asset)
    (h : Stands authMode body.bytes state stage) (hcomplete : body.complete) :
    Obeys (requestProtocol authMode connection.streamRequest body)
      (fun handled stage => Leaves handled.1 stage)
      (handleEnd assetsFind authMode connection state) stage := by
  unfold handleEnd
  cases h with
  | gathering hstreaming hstarted =>
      rw [if_neg (by simp [hstreaming])]
      have hdispatch : Handles authMode (state.request connection) body
          (dispatch assetsFind authMode (state.request connection)) (.start authMode) :=
        handles_dispatch assetsFind
      refine Program.Obeys.bind hdispatch ?_
      rintro response stage hclosed
      exact ⟨fun h => absurd (hstarted.symm.trans h) (by decide), fun _ => hclosed⟩
  | streaming hstreaming hstarted hfinished hfailed =>
      rw [if_pos hstreaming, if_neg (by simp [hfailed])]
      have hfinish : Obeys (requestProtocol authMode connection.streamRequest body)
          (fun _ stage => stage = .ended state.uploadId (chunkOf state.chunk)) state.finish
          (.receiving state.uploadId (chunkOf state.chunk) body.bytes) := by
        unfold RequestState.finish
        cases state.chunk with
        | none =>
            refine Program.Obeys.bind (obeys_routerUploadStreamFinish hcomplete) ?_
            rintro response _ rfl
            exact obeys_done rfl
        | some chunk => exact obeys_routerUploadStreamFinishChunk hcomplete
      refine hfinish.bind ?_
      rintro ⟨response, finished⟩ _ rfl
      exact ⟨fun _ h => absurd h (by simp), fun _ => trivial⟩

/-- The parts of a body put together; they are all of it unless the request has broken off. -/
abbrev bodyOf (parts : List Bytes) (complete : Bool) : Body := ⟨parts.flatten, complete = true⟩

/-- Every request follows the protocol, with the parts of its body put together. -/
theorem obeys_serveRequest (assetsFind : CString → Option Asset) (authMode : AuthMode)
    (connection : Connection) (parts : List Bytes) (complete : Bool) :
    Obeys (requestProtocol authMode connection.streamRequest (bodyOf parts complete))
      (fun _ stage => stage.Closed)
      (serveRequest assetsFind authMode connection parts complete) (.start authMode) := by
  unfold serveRequest
  refine obeys_handleHeaders.bind ?_
  rintro begun stage hbegun
  have hbody : Obeys (requestProtocol authMode connection.streamRequest (bodyOf parts complete))
      (Handled authMode parts.flatten) (goOn (handleBody parts) begun) stage := by
    exact obeys_goOn hbegun (fun _ _ hverdict hleaves => hleaves.handled hverdict)
      fun state hstands => obeys_handleBody hstands List.prefix_rfl
  refine hbody.bind ?_
  rintro received stage hreceived
  have hend : Obeys (requestProtocol authMode connection.streamRequest (bodyOf parts complete))
      (fun handled stage => Leaves handled.1 stage)
      (goOn (fun state =>
        if complete then handleEnd assetsFind authMode connection state
        else .done (state, .refused)) received) stage := by
    refine obeys_goOn hreceived (fun _ _ _ hleaves => hleaves) fun state hstands => ?_
    cases complete with
    | true => exact obeys_handleEnd assetsFind hstands rfl
    | false => exact hstands.leaves
  refine hend.bind ?_
  rintro served stage hleaves
  refine (obeys_requestCompleted hleaves).bind ?_
  rintro _ stage hclosed
  exact hclosed

/-- Whatever the managers and the platform reply, the calls of a request are in the order of the
protocol: none for a session before the check of its own, the parts of the body one after the
other, a finish only behind the last part of a body that is complete, and a stream that has begun
is ended. -/
theorem permitted_serveRequest {assetsFind : CString → Option Asset} {parts : List Bytes}
    {complete : Bool} {trace : List (Program.Exchange Effect.Reply)} {response : Option Response}
    (hpath : Program.Path (serveRequest assetsFind authMode connection parts complete) trace
      response) :
    ∃ last, Program.Permitted
      (requestProtocol authMode connection.streamRequest (bodyOf parts complete)) (.start authMode)
      trace last ∧ last.Closed :=
  (obeys_serveRequest assetsFind authMode connection parts complete).path hpath

namespace Sample

/-- Five bytes for an upload, without a PIN. -/
def putFive : Connection where
  method := ascii "PUT"
  url := ascii "/api/v1/uploads/" ++ .replicate 32 97
  clientAddress := ascii "10.0.0.2"
  contentLength := some (ascii "5")
  host := some (ascii "ps5:8080")
  origin := some (ascii "http://ps5:8080")
  contentType := some (ascii "application/octet-stream")
  authorization := none
  contentRange := none

/-- The connection breaks off behind the second part. -/
def brokenOff : List (Program.Exchange Effect.Reply) :=
  let id : CString := .replicate 32 97
  let reply : Upload.Reply := .of .ok
  [⟨.uploads (.begin id (ascii "10.0.0.2") (ascii "NoAuth") 5), reply⟩,
    ⟨.uploads (.write id [1, 2]), reply⟩, ⟨.uploads (.write id [3]), reply⟩,
    ⟨.uploads (.abort id), reply⟩]

/-- The rest comes as well. -/
def wholeFile : List (Program.Exchange Effect.Reply) :=
  let id : CString := .replicate 32 97
  let reply : Upload.Reply := .of .ok
  [⟨.uploads (.begin id (ascii "10.0.0.2") (ascii "NoAuth") 5), reply⟩,
    ⟨.uploads (.write id [1, 2]), reply⟩, ⟨.uploads (.write id [3, 4, 5]), reply⟩,
    ⟨.uploads (.finish id), reply⟩]

end Sample

open Sample in
/-- The same upload aborted where its body breaks off, and finished where it is complete. -/
theorem permitted_brokenOff :
    (∃ last, Program.Permitted
      (requestProtocol .none putFive.streamRequest (bodyOf [[1, 2], [3]] false)) .authorized
      brokenOff last ∧ last.Closed) ∧
    ∃ last, Program.Permitted
      (requestProtocol .none putFive.streamRequest (bodyOf [[1, 2], [3, 4, 5]] true)) .authorized
      wholeFile last ∧ last.Closed := by
  have hbroken : (serveRequest (fun _ => none) .none putFive [[1, 2], [3]] false).replay
      brokenOff = some none := by decide +kernel
  have hwhole : ((serveRequest (fun _ => none) .none putFive [[1, 2], [3, 4, 5]] true).replay
      wholeFile).isSome = true := by decide +kernel
  obtain ⟨response, hresponse⟩ := Option.isSome_iff_exists.mp hwhole
  exact ⟨permitted_serveRequest (Program.path_of_replay hbroken),
    permitted_serveRequest (Program.path_of_replay hresponse)⟩

end LocalSend.Http
