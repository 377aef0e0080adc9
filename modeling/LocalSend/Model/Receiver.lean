import LocalSend.Model.FastUpload.Listener
import LocalSend.Model.HttpServer
import LocalSend.Model.Upload.System

/-! # The receiver

The requests of both listeners, each on a thread of its own, over one authentication manager and
one upload manager. A step is one call of a request, one stretch of a call that is under way, or
a step of the writer; what the platform and `dispatch_storage` answer is open.
-/

namespace LocalSend.Receiver

open Config Routing

/-- What the listeners are set up with. -/
structure Site where
  assetsFind : CString → Option Asset
  authMode : AuthMode
  uiPort : UInt16
  fastPort : UInt16

/-- What arrives at one of the listeners. -/
inductive Incoming where
  | http (connection : Http.Connection) (parts : List Bytes) (complete : Bool)
  | fast (address : CString) (arrivals : List FastUpload.Arrival)

/-- The calls it makes, as the thread of its connection does. -/
def Incoming.program (site : Site) : Incoming → Handler Unit
  | .http connection parts complete =>
      (Http.serveRequest site.assetsFind site.authMode connection parts complete).bind
        fun _ => .done ()
  | .fast address arrivals =>
      (FastUpload.serveConnection site.authMode site.uiPort site.fastPort address arrivals).bind
        fun _ => .done ()

/-- A request that is being served: the calls it has made, the latest first, and its rest. -/
structure Task where
  exchanges : List (Program.Exchange Effect.Reply)
  rest : Handler Unit

/-- The task is at this call of the upload manager, or at one that changes its destination. -/
def Task.calls (task : Task) (call : Upload.Call) : Bool :=
  match task.rest, call with
  | .call (.uploads asked) _, call => asked = call
  | .call (.changeStorage _) _, .setDestination _ => true
  | _, _ => false

/-- The task goes on with the reply of the upload manager. -/
def Task.resumed (task : Task) (reply : Upload.Reply) : Task :=
  match task.rest with
  | .call (.uploads call) next => ⟨⟨.uploads call, reply⟩ :: task.exchanges, next reply⟩
  | _ => task

/-- `authCalls` are the calls of the authentication manager so far. -/
structure State where
  auth : Auth.State
  authCalls : List Auth.Call
  uploads : Upload.Sys
  tasks : ℕ → Option Task

/-- A task's thread is named by the task's number. -/
inductive Action where
  | accept (tid : ℕ) (incoming : Incoming)
  | leave (tid : ℕ)
  | authenticate (tid : ℕ) (now : UInt64) (random : Auth.Random)
  | answer (tid : ℕ) (answers : (effect : Effect) → effect.Reply)
  | uploads (action : Upload.Action)

/-- A call of the authentication manager, as it is recorded, and its reply. -/
def authenticate (manager : Auth.Manager) (now : UInt64) (random : Auth.Random) :
    (effect : Effect) → Option (Auth.Call × effect.Reply)
  | .validateBearer client authorization =>
      some (.validate client authorization now,
        (Auth.authValidateBearerAt manager client authorization now).2)
  | .createChallenge client =>
      some (.create client now random, (Auth.authCreateChallengeAt manager client now random).2)
  | .verifyChallenge client challengeId pin =>
      some (.verify client challengeId pin now random,
        (Auth.authVerifyChallengeAt manager client challengeId pin now random).2)
  | _ => none

/-- What neither manager answers. -/
def answered : Effect → Bool
  | .notify _ | .lastError | .configuration | .changeStorage _ => true
  | _ => false

/-- The reply with which the call of a thread returns in this step. -/
def returned (sys : Upload.Sys) (action : Upload.Action) : Option (ℕ × Upload.Reply) :=
  let reply (tid : ℕ) : Upload.World × Upload.Outcome → Option (ℕ × Upload.Reply)
    | (_, .done reply) => some (tid, reply)
    | (_, .park _) => none
  match action with
  | .call tid call env => reply tid (Upload.enterCall sys.world call env)
  | .resume tid env =>
      (sys.threads tid).bind fun thread =>
        (Upload.resume sys.world thread.pc env).bind (reply tid)
  | _ => none

/-- A call starts where the task of its thread makes it. -/
def State.admits (state : State) : Upload.Action → Bool
  | .call tid call _ => (state.tasks tid).any (·.calls call)
  | _ => true

def State.setTask (state : State) (tid : ℕ) (task : Option Task) : State :=
  { state with tasks := Function.update state.tasks tid task }

/-- A task that has made `exchanges` goes on behind one more call. -/
def State.advance (state : State) (tid : ℕ) (exchanges : List (Program.Exchange Effect.Reply))
    (effect : Effect) (next : effect.Reply → Handler Unit) (reply : effect.Reply) : State :=
  state.setTask tid (some ⟨⟨effect, reply⟩ :: exchanges, next reply⟩)

def step (site : Site) (state : State) : Action → Option State
  | .accept tid incoming =>
      match state.tasks tid, state.uploads.threads tid with
      | none, none => some (state.setTask tid (some ⟨[], incoming.program site⟩))
      | _, _ => none
  | .leave tid =>
      match state.tasks tid with
      | some ⟨_, .done ()⟩ => some (state.setTask tid none)
      | _ => none
  | .authenticate tid now random =>
      match state.tasks tid with
      | some ⟨exchanges, .call effect next⟩ =>
          (authenticate state.auth.manager now random effect).bind fun (call, reply) =>
            (Auth.step state.auth call).map fun auth =>
              { state with auth, authCalls := state.authCalls ++ [call] }.advance tid exchanges
                effect next reply
      | _ => none
  | .answer tid answers =>
      match state.tasks tid, state.uploads.threads tid with
      | some ⟨exchanges, .call effect next⟩, none =>
          if answered effect then
            some (state.advance tid exchanges effect next (answers effect))
          else none
      | _, _ => none
  | .uploads action =>
      if state.admits action then
        (Upload.step state.uploads action).map fun uploads =>
          match returned state.uploads action with
          | none => { state with uploads }
          | some (tid, reply) =>
              { state with uploads }.setTask tid ((state.tasks tid).map (Task.resumed · reply))
      else none

/-- The managers as created, and no request. -/
def State.initial (auth : Auth.Manager) (clock : UInt64) (uploads : Upload.Sys) : State :=
  ⟨⟨auth, clock⟩, [], uploads, fun _ => none⟩

end LocalSend.Receiver
