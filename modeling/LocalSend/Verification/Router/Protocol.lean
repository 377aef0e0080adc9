import LocalSend.Model.Router.Transfer

/-! # What a request may do to the uploads

The calls a request makes follow a protocol: none that changes anything in front of the check of
its session, each with the request's own binding, the body in order and from the start, and a
stream that has begun is closed.
-/

namespace LocalSend.Routing

open Config SafePath
open Program (Protocol Obeys)
open Upload (UploadResult)

/-! ## The protocol -/

/-- How far a request has come: `received` is what a stream has handed over. A chunk is its
offset and its length. -/
inductive Stage where
  | unchecked
  | authorized
  | receiving (uploadId : CString) (chunk : Option (ℕ × ℕ)) (received : Bytes)
  | failed (uploadId : CString) (chunk : Option (ℕ × ℕ))
  | ended (uploadId : CString) (chunk : Option (ℕ × ℕ))
  deriving DecidableEq

namespace Stage

/-- A request begins authorized where no PIN is asked for. -/
def start : AuthMode → Stage
  | .none => authorized
  | .pin => unchecked

/-- The upload and the chunk a stream is at. -/
def stream : Stage → Option (CString × Option (ℕ × ℕ))
  | receiving uploadId chunk _ => some (uploadId, chunk)
  | failed uploadId chunk => some (uploadId, chunk)
  | ended uploadId chunk => some (uploadId, chunk)
  | _ => none

/-- No stream is open. -/
def Closed : Stage → Prop
  | receiving _ _ _ => False
  | failed _ _ => False
  | _ => True

def receive (stage : Stage) (data : Bytes) : Stage :=
  match stage with
  | receiving uploadId chunk received => receiving uploadId chunk (received ++ data)
  | stage => stage

def fail : Stage → Stage
  | receiving uploadId chunk _ => failed uploadId chunk
  | stage => stage

def close : Stage → Stage
  | receiving uploadId chunk _ => ended uploadId chunk
  | failed uploadId chunk => ended uploadId chunk
  | stage => stage

/-- Behind `upload_abort` the stream of a whole file is over; that of a chunk has failed. -/
def abort : Stage → Stage
  | receiving uploadId none _ => ended uploadId none
  | failed uploadId none => ended uploadId none
  | stage => stage.fail

/-- The stage behind a call of the upload manager. -/
def afterCall (stage : Stage) (call : Upload.Call) (result : UploadResult) : Stage :=
  match call with
  | .begin uploadId _ _ _ => if result = .ok then receiving uploadId none [] else stage
  | .chunkBegin uploadId _ _ _ offset length =>
      if result = .ok then receiving uploadId (some (offset, length)) [] else stage
  | .write _ data => if result = .ok then stage.receive data else stage.fail
  | .writeDirect _ data => if result = .ok then stage.receive data else stage.fail
  | .chunkWrite _ _ data => if result = .ok then stage.receive data else stage.fail
  | .enableDirectStream _ => if result = .ok then stage else stage.fail
  | .finish _ => stage.close
  | .chunkFinish _ _ _ => stage.close
  | .chunkAbort _ _ _ => stage.close
  | .abort _ => stage.abort
  | _ => stage

def after (stage : Stage) : (effect : Effect) → effect.Reply → Stage
  | .validateBearer _ _, (result : Auth.AuthResult) =>
      if result = .ok then authorized else stage
  | .uploads call, (reply : Upload.Reply) => stage.afterCall call reply.result
  | _, _ => stage

end Stage

/-- Who makes a request: its address and `Authorization`, what its uploads are bound to, and
whether its origin is this server. -/
structure Caller where
  address : CString
  authorization : Option CString
  binding : CString
  sameOrigin : Bool

def Request.caller (authMode : AuthMode) (request : Request) : Caller :=
  ⟨request.clientAddress, request.authorization, authorizationOf authMode request,
    sameOrigin request⟩

/-- A call that needs a session, made for the caller. -/
structure Bound (caller : Caller) (stage : Stage) (client authorization : CString) : Prop where
  checked : stage = .authorized
  origin : caller.sameOrigin = true
  client_eq : client = caller.address
  authorization_eq : authorization = caller.binding

/-- The body of a request as far as it arrives, and when that is all of it. -/
structure Body where
  bytes : Bytes
  complete : Prop

/-- The next part of the body. -/
structure Delivers (body : Body) (stage : Stage) (uploadId : CString)
    (chunk : Option (ℕ × ℕ)) (received data : Bytes) : Prop where
  stage_eq : stage = .receiving uploadId chunk received
  part : received ++ data <+: body.bytes

/-- A stream is finished once the whole body has been handed over. -/
structure Finishes (body : Body) (stage : Stage) (uploadId : CString) (chunk : Option (ℕ × ℕ)) :
    Prop where
  stage_eq : stage = .receiving uploadId chunk body.bytes
  complete : body.complete

/-- The calls of the upload manager a request with this body may make. -/
def MayCall (caller : Caller) (body : Body) (stage : Stage) : Upload.Call → Prop
  | .snapshot => True
  | .prepare client authorization _ => Bound caller stage client authorization
  | .begin _ client authorization _ => Bound caller stage client authorization
  | .chunkBegin _ client authorization _ offset length =>
      Bound caller stage client authorization ∧ offset < 2 ^ 64 ∧ length < 2 ^ 64
  | .cancel _ client authorization => Bound caller stage client authorization
  | .finishChunks _ client authorization => Bound caller stage client authorization
  | .enableDirectStream uploadId => stage = .receiving uploadId none []
  | .write uploadId data => ∃ received, Delivers body stage uploadId none received data
  | .writeDirect uploadId data => ∃ received, Delivers body stage uploadId none received data
  | .chunkWrite uploadId offset data => ∃ start length received,
      Delivers body stage uploadId (some (start, length)) received data ∧
        offset = (start + received.length) % 2 ^ 64
  | .finish uploadId => Finishes body stage uploadId none
  | .chunkFinish uploadId offset length => Finishes body stage uploadId (some (offset, length))
  | .abort uploadId => ∃ chunk, stage.stream = some (uploadId, chunk)
  | .chunkAbort uploadId offset length => stage.stream = some (uploadId, some (offset, length))
  | .setDestination _ => False
  | .reapAt _ => False

/-- The effects a request with this body may have. -/
def May (authMode : AuthMode) (caller : Caller) (body : Body) (stage : Stage) : Effect → Prop
  | .validateBearer client authorization =>
      stage = .unchecked ∧ caller.sameOrigin = true ∧ client = caller.address ∧
        caller.authorization = some authorization
  | .createChallenge client =>
      authMode = .pin ∧ caller.sameOrigin = true ∧ client = caller.address
  | .verifyChallenge client _ _ =>
      authMode = .pin ∧ caller.sameOrigin = true ∧ client = caller.address
  | .notify _ => authMode = .pin ∧ caller.sameOrigin = true
  | .uploads call => MayCall caller body stage call
  | .lastError => True
  | .configuration => True
  | .changeStorage _ => stage = .authorized ∧ caller.sameOrigin = true

/-- The protocol of a caller's request with this body. -/
def callerProtocol (authMode : AuthMode) (caller : Caller) (body : Body) :
    Protocol Effect.Reply Stage :=
  ⟨May authMode caller body, Stage.after⟩

abbrev requestProtocol (authMode : AuthMode) (request : Request) (body : Body) :
    Protocol Effect.Reply Stage :=
  callerProtocol authMode (request.caller authMode) body

variable {authMode : AuthMode} {request : Request} {body : Body} {stage : Stage} {A : Type}

theorem closed_start (authMode : AuthMode) : (Stage.start authMode).Closed := by
  cases authMode <;> trivial

/-! ## Open streams -/

/-- The stream a request has begun and not closed. -/
def Stage.underWay : Stage → Option (CString × Option (ℕ × ℕ))
  | .receiving uploadId chunk _ => some (uploadId, chunk)
  | .failed uploadId chunk => some (uploadId, chunk)
  | _ => none

/-- The calls that end a stream. -/
inductive EndsStream (uploadId : CString) : Option (ℕ × ℕ) → Upload.Call → Prop
  | finish : EndsStream uploadId none (.finish uploadId)
  | abort : EndsStream uploadId none (.abort uploadId)
  | chunkFinish (offset length : ℕ) :
      EndsStream uploadId (some (offset, length)) (.chunkFinish uploadId offset length)
  | chunkAbort (offset length : ℕ) :
      EndsStream uploadId (some (offset, length)) (.chunkAbort uploadId offset length)

theorem underWay_cases {uploadId : CString} {chunk : Option (ℕ × ℕ)}
    (h : stage.underWay = some (uploadId, chunk)) :
    (∃ received, stage = .receiving uploadId chunk received) ∨
      stage = .failed uploadId chunk := by
  cases stage with
  | receiving uploadId' chunk' received =>
      cases h
      exact .inl ⟨received, rfl⟩
  | failed uploadId' chunk' =>
      cases h
      exact .inr rfl
  | unchecked | authorized | ended => cases h

theorem stream_of_underWay {stream : CString × Option (ℕ × ℕ)}
    (h : stage.underWay = some stream) : stage.stream = some stream := by
  rcases underWay_cases h with ⟨received, rfl⟩ | rfl <;> rfl

theorem closed_iff_underWay : stage.Closed ↔ stage.underWay = none := by
  cases stage <;> simp [Stage.Closed, Stage.underWay]

/-- A call that needs a session is made with no stream open. -/
theorem Bound.closed {caller : Caller} {client authorization : CString}
    (h : Bound caller stage client authorization) : stage.underWay = none := by
  rw [h.checked]
  rfl

/-- A stream stays open behind every call the protocol allows, but for those that end it. -/
theorem underWay_afterCall {caller : Caller} {uploadId : CString} {chunk : Option (ℕ × ℕ)}
    {call : Upload.Call} (hmay : MayCall caller body stage call)
    (h : stage.underWay = some (uploadId, chunk)) (result : UploadResult) :
    (stage.afterCall call result).underWay = some (uploadId, chunk) ∨
      EndsStream uploadId chunk call := by
  have hopen {client authorization : CString} (hbound : Bound caller stage client authorization) :
      False := by
    have hclosed := hbound.closed
    rw [h] at hclosed
    cases hclosed
  have hgoes (data : Bytes) :
      (if result = .ok then stage.receive data else stage.fail).underWay =
        some (uploadId, chunk) := by
    rcases underWay_cases h with ⟨received, rfl⟩ | rfl <;> split <;> rfl
  cases call with
  | begin => exact (hopen hmay).elim
  | chunkBegin => exact (hopen hmay.1).elim
  | write id data | writeDirect id data | chunkWrite id offset data => exact .inl (hgoes data)
  | enableDirectStream id =>
      obtain rfl : stage = .receiving id none [] := hmay
      refine .inl ?_
      simp only [Stage.afterCall]
      split
      · exact h
      · exact h
  | finish id =>
      obtain rfl := hmay.stage_eq
      cases h
      exact .inr .finish
  | chunkFinish id offset length =>
      obtain rfl := hmay.stage_eq
      cases h
      exact .inr (.chunkFinish offset length)
  | chunkAbort id offset length =>
      have hstream : stage.stream = some (id, some (offset, length)) := hmay
      cases (stream_of_underWay h).symm.trans hstream
      exact .inr (.chunkAbort offset length)
  | abort id =>
      obtain ⟨chunk', hstream⟩ : ∃ chunk, stage.stream = some (id, chunk) := hmay
      cases (stream_of_underWay h).symm.trans hstream
      cases chunk with
      | none => exact .inr .abort
      | some chunk => rcases underWay_cases h with ⟨received, rfl⟩ | rfl <;> exact .inl rfl
  | setDestination | prepare | finishChunks | cancel | snapshot | reapAt => exact .inl h

/-- The calls that are none of the upload manager's leave the streams alone. -/
theorem underWay_after {caller : Caller} {effect : Effect} (hother : ∀ call, effect ≠ .uploads call)
    (hmay : May authMode caller body stage effect) (reply : effect.Reply) :
    (stage.after effect reply).underWay = stage.underWay := by
  cases effect with
  | validateBearer client authorization =>
      obtain rfl := hmay.1
      show (if reply = .ok then Stage.authorized else .unchecked).underWay = _
      split <;> rfl
  | uploads call => exact absurd rfl (hother call)
  | _ => rfl

/-- Nothing but a check of the session leads on from an unchecked request. -/
theorem unchecked_after {caller : Caller} {effect : Effect}
    (hother : ∀ client authorization, effect ≠ .validateBearer client authorization)
    (hmay : May authMode caller body .unchecked effect) (reply : effect.Reply) :
    Stage.unchecked.after effect reply = .unchecked := by
  cases effect with
  | validateBearer client authorization => exact absurd rfl (hother client authorization)
  | uploads call =>
      cases call with
      | prepare | begin | cancel | finishChunks => cases hmay.checked
      | chunkBegin => cases hmay.1.checked
      | write | writeDirect =>
          obtain ⟨received, hdelivers⟩ := hmay
          cases hdelivers.stage_eq
      | chunkWrite =>
          obtain ⟨start, length, received, hdelivers, -⟩ := hmay
          cases hdelivers.stage_eq
      | finish | chunkFinish => cases hmay.stage_eq
      | enableDirectStream | chunkAbort => cases hmay
      | abort =>
          obtain ⟨chunk, hstream⟩ := hmay
          cases hstream
      | setDestination | snapshot | reapAt => rfl
  | _ => rfl

/-! ## One call -/

theorem obeys_done {ends : A → Stage → Prop} {result : A} (h : ends result stage) :
    Obeys (requestProtocol authMode request body) ends (.done result) stage := h

theorem obeys_askUploads {call : Upload.Call} {next : Upload.Reply → Handler A}
    {ends : A → Stage → Prop} (hmay : MayCall (request.caller authMode) body stage call)
    (hnext : ∀ reply, Obeys (requestProtocol authMode request body) ends (next reply)
      (stage.afterCall call reply.result)) :
    Obeys (requestProtocol authMode request body) ends (askUploads call next) stage :=
  ⟨hmay, hnext⟩

/-- Reading `errno` leaves the stage as it is. -/
theorem obeys_askUploadError {ends : Response → Stage → Prop} {result : UploadResult}
    (h : ∀ response, ends response stage) :
    Obeys (requestProtocol authMode request body) ends (askUploadError result) stage :=
  ⟨trivial, fun _ => h _⟩

theorem obeys_failWith {ends : Except Response A → Stage → Prop} {result : UploadResult}
    (h : ∀ response, ends (.error response) stage) :
    Obeys (requestProtocol authMode request body) ends (failWith result) stage :=
  ⟨trivial, fun _ => h _⟩

/-- The session is checked, with the request's own address and header. -/
theorem obeys_askAuthorized (horigin : sameOrigin request = true) :
    Obeys (requestProtocol authMode request body)
      (fun ok stage => stage.Closed ∧ (ok = true → stage = .authorized))
      (askAuthorized authMode request) (.start authMode) := by
  unfold askAuthorized
  split
  · exact ⟨trivial, fun _ => rfl⟩
  · exact ⟨trivial, fun h => by cases h⟩
  · rename_i authorization hauthorization
    refine ⟨⟨rfl, horigin, rfl, hauthorization⟩, ?_⟩
    intro (result : Auth.AuthResult)
    generalize hstage : Stage.after .unchecked (.validateBearer request.clientAddress authorization)
      result = stage
    have hafter : stage = if result = .ok then .authorized else .unchecked := hstage.symm
    suffices hends : stage.Closed ∧ (decide (result = .ok) = true → stage = .authorized) by
      rw [← hstage] at hends
      exact hends
    by_cases hok : result = .ok
    · rw [hafter, if_pos hok]
      exact ⟨trivial, fun _ => rfl⟩
    · rw [hafter, if_neg hok]
      exact ⟨trivial, fun h => absurd (of_decide_eq_true h) hok⟩

theorem obeys_ifAuthorized {next : Handler Response} (horigin : sameOrigin request = true)
    (hnext : Obeys (requestProtocol authMode request body) (fun _ stage => stage.Closed) next
      .authorized) :
    Obeys (requestProtocol authMode request body) (fun _ stage => stage.Closed)
      (ifAuthorized authMode request next) (.start authMode) := by
  refine (obeys_askAuthorized horigin).bind ?_
  rintro ok stage ⟨hclosed, hok⟩
  cases ok with
  | true =>
      rw [hok rfl]
      exact hnext
  | false => exact hclosed

/-! ## Stream functions -/

/-- A chunk as `router_upload_stream_begin_ex` hands it back. -/
def chunkOf (chunk : Option (UInt64 × UInt64)) : Option (ℕ × ℕ) :=
  chunk.map fun (offset, size) => (offset.toNat, size.toNat)

/-- A stream has begun, or has not. -/
def Begins : Except Response FastUpload.Begun → Stage → Prop
  | .error _, stage => stage.Closed
  | .ok begun, stage => stage = .receiving begun.uploadId (chunkOf begun.chunk) []

/-- A write succeeded, or an upload that is not in chunks is aborted. -/
def Writes (uploadId : CString) (chunk : Option (ℕ × ℕ)) (received : Bytes) :
    Except Response Unit → Stage → Prop
  | .ok (), stage => stage = .receiving uploadId chunk received
  | .error _, stage => stage = (Stage.failed uploadId chunk).abort

theorem parseContentRange_bounds {text : CString} {range : ContentRange}
    (h : parseContentRange text = some range) : range.offset < 2 ^ 64 ∧ range.length < 2 ^ 64 := by
  have hnumber {cursor rest : CString} {number : ℕ}
      (h : parseRangeNumber cursor = some (number, rest)) : number < 2 ^ 64 := by
    unfold parseRangeNumber at h
    grind
  unfold parseContentRange at h
  split at h
  · cases h
  · split at h
    · cases h
    · rename_i offset cursor hoffset
      split at h
      · cases h
      · split at h
        · cases h
        · rename_i stop cursor hstop
          split at h
          · cases h
          · split at h
            · cases h
            · rename_i total cursor htotal
              split at h
              · cases h
              · cases h
                have hoffset := hnumber hoffset
                have htotal := hnumber htotal
                constructor <;> dsimp only <;> omega

theorem obeys_beginChunk {uploadId : CString} {range : ContentRange} {contentLength : ℕ}
    (horigin : sameOrigin request = true) (hoffset : range.offset < 2 ^ 64)
    (hlength : range.length < 2 ^ 64) :
    Obeys (requestProtocol authMode request body) Begins
      (beginChunk authMode request uploadId range contentLength) .authorized := by
  unfold beginChunk
  split
  · exact obeys_done trivial
  · refine obeys_askUploads ⟨⟨rfl, horigin, rfl, rfl⟩, hoffset, hlength⟩ ?_
    intro reply
    simp only [Stage.afterCall]
    split
    · refine obeys_done ?_
      simp [Begins, chunkOf, UInt64.toNat_ofNat_of_lt' hoffset, UInt64.toNat_ofNat_of_lt' hlength]
    · exact obeys_failWith fun _ => trivial

theorem obeys_cancelFirst {uploadId : CString} {next : Handler (Except Response FastUpload.Begun)}
    (horigin : sameOrigin request = true)
    (hnext : Obeys (requestProtocol authMode request body) Begins next .authorized) :
    Obeys (requestProtocol authMode request body) Begins
      (cancelFirst authMode request uploadId next) .authorized :=
  obeys_askUploads ⟨rfl, horigin, rfl, rfl⟩ fun _ => hnext

theorem obeys_beginWhole {uploadId : CString} {contentLength : ℕ}
    (horigin : sameOrigin request = true) :
    Obeys (requestProtocol authMode request body) Begins
      (beginWhole authMode request uploadId contentLength) .authorized := by
  refine obeys_askUploads ⟨rfl, horigin, rfl, rfl⟩ ?_
  intro reply
  simp only [Stage.afterCall]
  split
  · exact obeys_done rfl
  · split
    · exact obeys_cancelFirst horigin (obeys_failWith fun _ => trivial)
    · exact obeys_failWith fun _ => trivial

theorem obeys_beginStream {uploadId : CString} {hasContentLength : Bool} {contentLength : ℕ}
    (horigin : sameOrigin request = true) :
    Obeys (requestProtocol authMode request body) Begins
      (beginStream authMode request uploadId hasContentLength contentLength) .authorized := by
  unfold beginStream
  split
  · split
    · exact obeys_beginWhole horigin
    · exact obeys_cancelFirst horigin (obeys_done trivial)
  · split
    · exact obeys_done trivial
    · rename_i range hrange
      obtain ⟨hoffset, hlength⟩ := parseContentRange_bounds hrange
      exact obeys_beginChunk horigin hoffset hlength

theorem obeys_routerUploadStreamBeginEx (hasContentLength : Bool) (contentLength : ℕ) :
    Obeys (requestProtocol authMode request body) Begins
      (routerUploadStreamBeginEx authMode request hasContentLength contentLength)
      (.start authMode) := by
  unfold routerUploadStreamBeginEx
  split
  · exact obeys_done (closed_start authMode)
  · split
    · exact obeys_done (closed_start authMode)
    · by_cases horigin : sameOrigin request = true
      · rw [if_neg (not_not.mpr horigin)]
        refine (obeys_askAuthorized horigin).bind ?_
        rintro ok stage ⟨hclosed, hok⟩
        cases ok with
        | false => exact obeys_done hclosed
        | true =>
            rw [hok rfl, if_neg (not_not.mpr rfl)]
            split
            · exact obeys_done trivial
            · exact obeys_beginStream horigin
      · rw [if_pos horigin]
        exact obeys_done (closed_start authMode)

/-- A call that hands over a part of the body, or none. -/
theorem obeys_orAbort {uploadId : CString} {chunk : Option (ℕ × ℕ)} {received : Bytes}
    (data : Bytes) {call : Upload.Call}
    (hmay : MayCall (request.caller authMode) body (.receiving uploadId chunk received) call)
    (hafter : ∀ result, (Stage.receiving uploadId chunk received).afterCall call result =
      if result = .ok then .receiving uploadId chunk (received ++ data)
      else .failed uploadId chunk) :
    Obeys (requestProtocol authMode request body) (Writes uploadId chunk (received ++ data))
      (orAbort uploadId call) (.receiving uploadId chunk received) := by
  refine obeys_askUploads hmay ?_
  intro reply
  rw [hafter]
  split
  · exact obeys_done rfl
  · refine Program.Obeys.bind (obeys_askUploadError fun _ => rfl) ?_
    rintro response _ rfl
    exact obeys_askUploads ⟨chunk, rfl⟩ fun _ => obeys_done rfl

theorem obeys_routerUploadStreamWrite {uploadId : CString} {received data : Bytes}
    (hpart : received ++ data <+: body.bytes) :
    Obeys (requestProtocol authMode request body) (Writes uploadId none (received ++ data))
      (routerUploadStreamWrite uploadId data) (.receiving uploadId none received) :=
  obeys_orAbort data ⟨received, rfl, hpart⟩ fun _ => rfl

theorem obeys_routerUploadStreamWriteDirect {uploadId : CString} {received data : Bytes}
    (hpart : received ++ data <+: body.bytes) :
    Obeys (requestProtocol authMode request body) (Writes uploadId none (received ++ data))
      (routerUploadStreamWriteDirect uploadId data) (.receiving uploadId none received) :=
  obeys_orAbort data ⟨received, rfl, hpart⟩ fun _ => rfl

theorem obeys_routerUploadStreamEnableDirect {uploadId : CString} :
    Obeys (requestProtocol authMode request body) (Writes uploadId none [])
      (routerUploadStreamEnableDirect uploadId) (.receiving uploadId none []) :=
  obeys_orAbort [] rfl fun _ => rfl

theorem obeys_routerUploadStreamWriteChunk {uploadId : CString} {offset size position : UInt64}
    {received data : Bytes} (hpart : received ++ data <+: body.bytes)
    (hposition : position = offset + .ofNat received.length) :
    Obeys (requestProtocol authMode request body)
      (Writes uploadId (chunkOf (some (offset, size))) (received ++ data))
      (routerUploadStreamWriteChunk uploadId position data)
      (.receiving uploadId (chunkOf (some (offset, size))) received) := by
  refine obeys_orAbort data ⟨offset.toNat, size.toNat, received, ⟨rfl, hpart⟩, ?_⟩ fun _ => rfl
  rw [hposition, UInt64.toNat_add, UInt64.toNat_ofNat', Nat.add_mod_mod]

theorem obeys_routerUploadStreamFinish {uploadId : CString} (hcomplete : body.complete) :
    Obeys (requestProtocol authMode request body) (fun _ stage => stage = .ended uploadId none)
      (routerUploadStreamFinish uploadId) (.receiving uploadId none body.bytes) := by
  refine obeys_askUploads ⟨rfl, hcomplete⟩ ?_
  intro reply
  split
  · exact obeys_askUploadError fun _ => rfl
  · exact obeys_done rfl

theorem obeys_routerUploadStreamFinishChunk {uploadId : CString} {offset size : UInt64}
    (hcomplete : body.complete) :
    Obeys (requestProtocol authMode request body)
      (fun _ stage => stage = .ended uploadId (chunkOf (some (offset, size))))
      (routerUploadStreamFinishChunk uploadId offset size)
      (.receiving uploadId (chunkOf (some (offset, size))) body.bytes) := by
  refine obeys_askUploads ⟨rfl, hcomplete⟩ ?_
  intro reply
  split
  · refine Program.Obeys.bind (obeys_askUploadError fun _ => rfl) ?_
    rintro response _ rfl
    exact obeys_done rfl
  · exact obeys_done rfl

/-- An abort of its stream closes it, whatever has become of it. -/
theorem obeys_routerUploadStreamAbort {uploadId : CString}
    (hstream : stage.stream = some (uploadId, none)) :
    Obeys (requestProtocol authMode request body) (fun _ stage => stage.Closed)
      (routerUploadStreamAbort uploadId) stage := by
  refine obeys_askUploads ⟨none, hstream⟩ fun _ => obeys_done ?_
  cases stage <;> simp_all [Stage.stream, Stage.afterCall, Stage.abort, Stage.Closed, Stage.fail]

theorem obeys_routerUploadStreamAbortChunk {uploadId : CString} {offset size : UInt64}
    (hstream : stage.stream = some (uploadId, chunkOf (some (offset, size)))) :
    Obeys (requestProtocol authMode request body) (fun _ stage => stage.Closed)
      (routerUploadStreamAbortChunk uploadId offset size) stage := by
  refine obeys_askUploads hstream fun _ => obeys_done ?_
  cases stage <;> simp_all [Stage.stream, Stage.afterCall, Stage.close, Stage.Closed]

/-! ## Handlers -/

/-- What a handler of `router_dispatch` keeps: no stream is ever open. -/
abbrev Handles (authMode : AuthMode) (request : Request) (body : Body)
    (handler : Handler Response) (stage : Stage) : Prop :=
  Obeys (requestProtocol authMode request body) (fun _ stage => stage.Closed) handler stage

theorem handles_dispatchUploadPrepare :
    Handles authMode request body (dispatchUploadPrepare authMode request) (.start authMode) := by
  unfold dispatchUploadPrepare
  split
  · exact closed_start authMode
  · by_cases horigin : sameOrigin request = true
    · rw [if_neg (not_not.mpr horigin)]
      refine obeys_ifAuthorized horigin ?_
      split
      · trivial
      · split
        · trivial
        · refine obeys_askUploads ⟨rfl, horigin, rfl, rfl⟩ fun reply => ⟨trivial, ?_⟩
          intro configuration
          show Handles authMode request body
            (answerPrepare authMode request reply configuration.2) .authorized
          unfold answerPrepare
          split
          · split
            · trivial
            · exact obeys_askUploads ⟨rfl, horigin, rfl, rfl⟩ fun _ => trivial
          · exact obeys_askUploadError fun _ => trivial
    · rw [if_pos horigin]
      exact closed_start authMode

theorem handles_ifWithoutBody {next : Handler Response}
    (hnext : sameOrigin request = true → Handles authMode request body next .authorized) :
    Handles authMode request body (ifWithoutBody authMode request next) (.start authMode) := by
  unfold ifWithoutBody
  split
  · exact closed_start authMode
  · by_cases horigin : sameOrigin request = true
    · rw [if_neg (not_not.mpr horigin)]
      exact obeys_ifAuthorized horigin (hnext horigin)
    · rw [if_pos horigin]
      exact closed_start authMode

theorem handles_dispatchUploadDelete (uploadId : CString) :
    Handles authMode request body (dispatchUploadDelete authMode request uploadId)
      (.start authMode) := by
  unfold dispatchUploadDelete
  split
  · exact closed_start authMode
  · refine handles_ifWithoutBody fun horigin => obeys_askUploads ⟨rfl, horigin, rfl, rfl⟩ ?_
    intro reply
    split
    · exact obeys_askUploadError fun _ => trivial
    · trivial

theorem handles_dispatchUploadComplete (uploadId : CString) :
    Handles authMode request body (dispatchUploadComplete authMode request uploadId)
      (.start authMode) := by
  unfold dispatchUploadComplete
  split
  · exact closed_start authMode
  · refine handles_ifWithoutBody fun horigin => obeys_askUploads ⟨rfl, horigin, rfl, rfl⟩ ?_
    intro reply
    split
    · exact obeys_askUploadError fun _ => trivial
    · trivial

theorem handles_dispatchStorage :
    Handles authMode request body (dispatchStorage authMode request) (.start authMode) := by
  unfold dispatchStorage
  split
  · exact closed_start authMode
  · by_cases horigin : sameOrigin request = true
    · rw [if_neg (not_not.mpr horigin)]
      refine obeys_ifAuthorized horigin ?_
      split
      · trivial
      · split
        · trivial
        · split
          · trivial
          · exact ⟨⟨rfl, horigin⟩, fun _ => trivial⟩
    · rw [if_pos horigin]
      exact closed_start authMode

theorem handles_answerChallenge (hpin : authMode = .pin) (horigin : sameOrigin request = true)
    (answer : Auth.AuthResult × Option Auth.ChallengeResult) :
    Handles authMode request body (answerChallenge request answer) (.start authMode) := by
  unfold answerChallenge
  split
  · exact closed_start authMode
  · exact closed_start authMode
  · unfold showChallenge
    dsimp only
    split
    · exact closed_start authMode
    · refine ⟨⟨hpin, horigin⟩, fun shown => ?_⟩
      cases shown <;> exact closed_start authMode
  · exact closed_start authMode

theorem handles_dispatchChallenge :
    Handles authMode request body (dispatchChallenge authMode request) (.start authMode) := by
  unfold dispatchChallenge
  split
  · exact closed_start authMode
  · rename_i hpin
    have hpin := not_not.mp hpin
    split
    · exact closed_start authMode
    · split
      · exact closed_start authMode
      · by_cases horigin : sameOrigin request = true
        · rw [if_neg (not_not.mpr horigin)]
          exact ⟨⟨hpin, horigin, rfl⟩, handles_answerChallenge hpin horigin⟩
        · rw [if_pos horigin]
          exact closed_start authMode

theorem handles_dispatchVerify :
    Handles authMode request body (dispatchVerify authMode request) (.start authMode) := by
  unfold dispatchVerify
  split
  · exact closed_start authMode
  · rename_i hpin
    have hpin := not_not.mp hpin
    split
    · exact closed_start authMode
    · split
      · exact closed_start authMode
      · by_cases horigin : sameOrigin request = true
        · rw [if_neg (not_not.mpr horigin)]
          split
          · exact closed_start authMode
          · split
            · exact closed_start authMode
            · exact ⟨⟨hpin, horigin, rfl⟩, fun _ => closed_start authMode⟩
        · rw [if_pos horigin]
          exact closed_start authMode

theorem handles_dispatchRest (assetsFind : CString → Option Asset) :
    Handles authMode request body (dispatchRest assetsFind request) (.start authMode) := by
  unfold dispatchRest
  split
  · exact closed_start authMode
  · split
    · exact closed_start authMode
    · split
      · exact closed_start authMode
      · split
        · exact closed_start authMode
        · refine ⟨trivial, fun configuration => obeys_askUploads trivial fun reply => ?_⟩
          split <;> exact closed_start authMode

theorem handles_handlerFor {handler : Handler Response}
    (h : handlerFor authMode request = some handler) :
    Handles authMode request body handler (.start authMode) := by
  unfold handlerFor at h
  split at h
  · cases h
    exact handles_dispatchChallenge
  · split at h
    · cases h
      exact handles_dispatchVerify
    · split at h
      · cases h
        exact handles_dispatchUploadPrepare
      · split at h
        · cases h
          exact handles_dispatchStorage
        · split at h
          · cases h
            exact handles_dispatchUploadComplete _
          · split at h
            · cases h
              exact closed_start authMode
            · cases h
              exact handles_dispatchUploadDelete _
          · cases h

/-- Every handler of `router_dispatch` follows the protocol. -/
theorem handles_dispatch (assetsFind : CString → Option Asset) :
    Handles authMode request body (dispatch assetsFind authMode request) (.start authMode) := by
  unfold dispatch
  split
  · exact closed_start authMode
  · cases hhandler : handlerFor authMode request with
    | none => exact handles_dispatchRest assetsFind
    | some handler => exact handles_handlerFor hhandler

end LocalSend.Routing
