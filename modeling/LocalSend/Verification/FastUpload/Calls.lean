import LocalSend.Model.FastUpload.Listener

/-! # The two forms of a connection

The program with the router's own functions, and the function that records its calls and is given
their answers. The answers are read off what the program's calls return.
-/

namespace LocalSend.FastUpload

open Config Routing
open Program (Exchange Path path_bind consume_bind)

/-! ## The recorded calls -/

/-- A call as the router runs it: whether it succeeds. -/
def Call.program (authMode : AuthMode) : Call → Handler Bool
  | .begin_ request hasContentLength contentLength =>
      (routerUploadStreamBeginEx authMode request hasContentLength contentLength.toNat).bind
        fun answer => .done answer.isOk
  | .enableDirect uploadId =>
      (routerUploadStreamEnableDirect uploadId).bind fun answer => .done answer.isOk
  | .writeChunk uploadId offset data =>
      (routerUploadStreamWriteChunk uploadId offset data).bind fun answer => .done answer.isOk
  | .writeDirect uploadId data =>
      (routerUploadStreamWriteDirect uploadId data).bind fun answer => .done answer.isOk
  | .finishChunk uploadId offset size =>
      (routerUploadStreamFinishChunk uploadId offset size).bind fun answer => .done answer.2
  | .finish uploadId => (routerUploadStreamFinish uploadId).bind fun _ => .done true
  | .abortChunk uploadId offset size =>
      (routerUploadStreamAbortChunk uploadId offset size).bind fun _ => .done true
  | .abort uploadId => (routerUploadStreamAbort uploadId).bind fun _ => .done true

/-- The stream that begins. -/
def Call.begun (authMode : AuthMode) : Call → Handler (Option Begun)
  | .begin_ request hasContentLength contentLength =>
      (routerUploadStreamBeginEx authMode request hasContentLength contentLength.toNat).bind
        fun answer => .done answer.toOption
  | _ => .done none

/-- The calls, newest first, on the replies of a trace: whether the newest one succeeds, and what
is left of the trace. -/
def ran (authMode : AuthMode) (trace : List (Exchange Effect.Reply)) :
    List Call → Option (Bool × List (Exchange Effect.Reply))
  | [] => some (true, trace)
  | call :: calls =>
      (ran authMode trace calls).bind fun rest => (call.program authMode).consume rest.2

/-- The router's answers in a trace. -/
def answersOf (authMode : AuthMode) (trace : List (Exchange Effect.Reply)) : Answers where
  begin_ call := ((call.begun authMode).consume trace).bind Prod.fst
  succeeds calls := (ran authMode trace calls).elim false Prod.fst

/-- What is recorded of what a connection comes to. -/
def Served.reply : Served → Option Reply
  | .dropped => none
  | .replied reply => some reply
  | .answered _ origin => some (.router origin)

/-- The recorded calls are those of the trace, and no others, and the reply is the same. -/
structure Records (authMode : AuthMode) (trace : List (Exchange Effect.Reply)) (served : Served)
    (outcome : Outcome) : Prop where
  reply : outcome.reply = served.reply
  calls : ∃ succeeded, ran authMode trace outcome.calls = some (succeeded, [])

variable {authMode : AuthMode} {trace rest first second : List (Exchange Effect.Reply)}
  {calls : List Call} {succeeded : Bool} {served : Served} {begun : Begun} {origin : CString}

/-- The newest call, run on what the earlier ones have left of the trace. -/
theorem ran_cons {A : Type} {call : Call} {program : Handler A} {result : A} (succeeds : A → Bool)
    (h : ran authMode trace calls = some (succeeded, first ++ second))
    (hpath : Path program first result)
    (hprogram : call.program authMode = program.bind fun answer => .done (succeeds answer)) :
    ran authMode trace (call :: calls) = some (succeeds result, second) := by
  rw [ran, h, Option.bind_some, hprogram, consume_bind, hpath.consume]
  rfl

theorem answersOf_succeeds (h : ran authMode trace calls = some (succeeded, rest)) :
    (answersOf authMode trace).succeeds calls = succeeded := by
  simp only [answersOf, h, Option.elim_some]

/-! ## The connection -/

theorem records_abortStream (h : ran authMode trace calls = some (succeeded, rest))
    (hpath : Path (abortStream begun) rest served) :
    Records authMode trace served (streamError begun calls) := by
  rw [abortStream] at hpath
  obtain ⟨first, ⟨⟩, second, rfl, hfirst, hdone⟩ := path_bind hpath
  cases hdone
  rw [streamError]
  cases hchunk : begun.chunk with
  | some extent =>
      rw [hchunk] at hfirst
      exact ⟨rfl, _, ran_cons (fun _ => true) h hfirst rfl⟩
  | none =>
      rw [hchunk] at hfirst
      exact ⟨rfl, _, ran_cons (fun _ => true) h hfirst rfl⟩

theorem records_completeStream (h : ran authMode trace calls = some (succeeded, rest))
    (hpath : Path (completeStream begun origin) rest served) :
    Records authMode trace served
      (finishStream (answersOf authMode trace) begun origin calls) := by
  rw [completeStream] at hpath
  rw [finishStream]
  cases hchunk : begun.chunk with
  | some extent =>
      obtain ⟨offset, size⟩ := extent
      rw [hchunk] at hpath
      obtain ⟨first, ⟨response, finished⟩, second, rfl, hfirst, hrest⟩ := path_bind hpath
      have hran := ran_cons Prod.snd h hfirst
        (rfl : (Call.finishChunk begun.uploadId offset size).program authMode = _)
      dsimp only at hrest ⊢
      rw [answersOf_succeeds hran]
      cases finished with
      | true =>
          cases hrest
          exact ⟨rfl, _, hran⟩
      | false =>
          obtain ⟨abort, ⟨⟩, last, rfl, habort, hdone⟩ := path_bind hrest
          cases hdone
          exact ⟨rfl, _, ran_cons (fun _ => true) hran habort rfl⟩
  | none =>
      rw [hchunk] at hpath
      obtain ⟨first, response, second, rfl, hfirst, hdone⟩ := path_bind hpath
      cases hdone
      exact ⟨rfl, _, ran_cons (fun _ => true) h hfirst rfl⟩

theorem program_writeCall (begun : Begun) (received : ℕ) (data : Bytes) :
    (writeCall begun received data).program authMode =
      (writePart begun received data).bind fun answer => .done answer.isOk := by
  unfold writeCall writePart
  cases begun.chunk <;> rfl

/-- A write, and what follows it in both forms. -/
theorem records_orAbortStream {next : Handler Served} {outcome : Outcome} {received : ℕ}
    {data : Bytes} (h : ran authMode trace calls = some (succeeded, rest))
    (hpath : Path (orAbortStream begun received data next) rest served)
    (hnext : ∀ later, ran authMode trace (writeCall begun received data :: calls) =
      some (true, later) → Path next later served → Records authMode trace served outcome) :
    Records authMode trace served
      (if (answersOf authMode trace).succeeds (writeCall begun received data :: calls) then outcome
      else streamError begun (writeCall begun received data :: calls)) := by
  rw [orAbortStream] at hpath
  obtain ⟨first, answer, second, rfl, hfirst, hrest⟩ := path_bind hpath
  have hran := ran_cons Except.isOk h hfirst (program_writeCall ..)
  rw [answersOf_succeeds hran]
  cases answer with
  | ok answer =>
      have hok : (Except.ok answer : Except Response Unit).isOk = true := rfl
      rw [if_pos hok]
      exact hnext second hran hrest
  | error response =>
      have herror : (Except.error response : Except Response Unit).isOk = false := rfl
      rw [if_neg (by simp [herror])]
      exact records_abortStream hran hrest

theorem records_receiveBody {contentLength fuel received : ℕ} {buffer : Bytes}
    {arrivals : List Arrival} (h : ran authMode trace calls = some (succeeded, rest))
    (hpath : Path (receiveBody begun origin contentLength fuel received buffer arrivals) rest
      served) :
    Records authMode trace served (bodyLoop (answersOf authMode trace) begun origin contentLength
      fuel received buffer arrivals calls) := by
  induction fuel generalizing received buffer arrivals calls succeeded rest with
  | zero => exact records_abortStream h hpath
  | succ fuel ih =>
      rw [receiveBody] at hpath
      rw [bodyLoop]
      by_cases hall : contentLength ≤ received
      · rw [if_pos hall] at hpath ⊢
        exact records_completeStream h hpath
      rw [if_neg hall] at hpath ⊢
      generalize recv (min (contentLength - received) FAST_UPLOAD_READ_BYTES) arrivals = next
        at hpath ⊢
      obtain ⟨event, later⟩ := next
      cases event with
      | interrupted => exact ih h hpath
      | failed => exact records_abortStream h hpath
      | bytes data => exact records_orAbortStream h hpath fun _ hran hnext => ih hran hnext

theorem records_receiveStream {request : Request} {buffer : Bytes} {arrivals : List Arrival}
    (h : ran authMode trace calls = some (succeeded, rest))
    (hpath : Path (receiveStream begun request buffer arrivals) rest served) :
    Records authMode trace served
      (streamBody (answersOf authMode trace) begun request buffer arrivals calls) := by
  rw [receiveStream] at hpath
  rw [streamBody]
  dsimp only at hpath ⊢
  split at hpath
  · rw [if_pos ‹_›]
    exact records_abortStream h hpath
  rw [if_neg ‹_›]
  split at hpath
  · rw [if_pos ‹_›]
    exact records_orAbortStream h hpath fun _ hran hnext => records_receiveBody hran hnext
  · rw [if_neg ‹_›]
    exact records_receiveBody h hpath

theorem records_serveStream {uiAuthority address : CString} {request : Request} {buffer : Bytes}
    {arrivals : List Arrival}
    (hpath : Path (serveStream authMode uiAuthority address request buffer arrivals) trace
      served) :
    Records authMode trace served
      (streamMain (answersOf authMode trace) uiAuthority address request buffer arrivals) := by
  rw [serveStream] at hpath
  obtain ⟨first, answer, second, rfl, hfirst, hrest⟩ := path_bind hpath
  have hstart : ran authMode (first ++ second) [] = some (true, first ++ second) := rfl
  have hran := ran_cons Except.isOk hstart hfirst
    (rfl : (Call.begin_ (routerRequest request uiAuthority address) request.hasContentLength
      request.contentLength).program authMode = _)
  have hbegin : (answersOf authMode (first ++ second)).begin_
      (.begin_ (routerRequest request uiAuthority address) request.hasContentLength
        request.contentLength) = answer.toOption := by
    simp only [answersOf, Call.begun, consume_bind, hfirst.consume, Option.bind_some]
    rfl
  rw [streamMain]
  dsimp only
  rw [hbegin]
  cases answer with
  | error response =>
      cases hrest
      exact ⟨rfl, _, hran⟩
  | ok begun =>
      dsimp only [Except.toOption] at hrest ⊢
      by_cases hchunk : begun.chunk = none
      · rw [if_pos hchunk] at hrest ⊢
        obtain ⟨enable, enabled, later, rfl, henable, hlater⟩ := path_bind hrest
        have hdirect := ran_cons Except.isOk hran henable
          (rfl : (Call.enableDirect begun.uploadId).program authMode = _)
        rw [answersOf_succeeds hdirect]
        cases enabled with
        | ok => exact records_receiveStream hdirect hlater
        | error response =>
            cases hlater
            exact ⟨rfl, _, hdirect⟩
      · rw [if_neg hchunk] at hrest ⊢
        exact records_receiveStream hran hrest

/-- Whatever a connection makes of its requests to the router, the function makes of the answers
to them: the same calls, and the same reply. -/
theorem connectionMain_of_path {uiPort boundPort : UInt16} {address : CString}
    {arrivals : List Arrival}
    (hpath : Path (serveConnection authMode uiPort boundPort address arrivals) trace served) :
    Records authMode trace served
      (connectionMain (answersOf authMode trace) uiPort boundPort address arrivals) := by
  rw [serveConnection] at hpath
  rw [connectionMain]
  cases hheaders : receiveHeaders arrivals with
  | none =>
      rw [hheaders] at hpath
      cases hpath
      exact ⟨rfl, _, rfl⟩
  | some received =>
      obtain ⟨request, buffer, later⟩ := received
      rw [hheaders] at hpath
      dsimp only at hpath ⊢
      cases horigin : validateOrigin uiPort boundPort request with
      | none =>
          rw [horigin] at hpath
          cases hpath
          exact ⟨rfl, _, rfl⟩
      | some uiAuthority =>
          rw [horigin] at hpath
          dsimp only at hpath ⊢
          split at hpath
          · rw [if_pos ‹_›]
            cases hpath
            exact ⟨rfl, _, rfl⟩
          rw [if_neg ‹_›]
          split at hpath
          · rw [if_pos ‹_›]
            cases hpath
            exact ⟨rfl, _, rfl⟩
          · rw [if_neg ‹_›]
            exact records_serveStream hpath

end LocalSend.FastUpload
