import LocalSend.Verification.Auth.Sessions
import LocalSend.Verification.Receiver.Orphans

/-! # The PIN gate

Where a PIN is asked for, the upload in the slot was prepared with a session that its own address
was granted for confirming the PIN of the last challenge issued to it.
-/

namespace LocalSend.Receiver

open Auth Config Routing Transition
open Upload (Outcome World)

variable {pinTtlSeconds sessionTtlSeconds : UInt32} {log : List Entry} {logged : Logged}
  {clientAddress authorization : CString}

/-! ## The log -/

/-- By the log, the address was granted the session this authorization names, and before that
could confirm a challenge. -/
def Granted (pinTtlSeconds : UInt32) (log : List Entry) (clientAddress authorization : CString) :
    Prop :=
  ∃ newer entry older grant challengeId pin, log = newer ++ entry :: older ∧
    entry.grant = some grant ∧ grant.clientAddress = clientAddress ∧
    authorization = bearerPrefix ++ grant.token ∧
    Confirmable wrongPin pinTtlSeconds older clientAddress challengeId pin grant.grantedAt

/-- No session was granted but for the confirmation of a challenge. -/
def Confirmed (pinTtlSeconds : UInt32) (log : List Entry) : Prop :=
  ∀ newer entry older grant, log = newer ++ entry :: older → entry.grant = some grant →
    ∃ challengeId pin,
      Confirmable wrongPin pinTtlSeconds older grant.clientAddress challengeId pin grant.grantedAt

theorem Granted.cons {entry : Entry} (h : Granted pinTtlSeconds log clientAddress authorization) :
    Granted pinTtlSeconds (entry :: log) clientAddress authorization := by
  obtain ⟨newer, granting, older, grant, challengeId, pin, rfl, hgrant⟩ := h
  exact ⟨entry :: newer, granting, older, grant, challengeId, pin, rfl, hgrant⟩

/-- Only a verify that succeeds grants a session. -/
theorem grant_confirmable {call : Auth.Call} {next : Logged} {grant : Grant}
    (h : Ledger pinTtlSeconds logged) (hrecord : record logged call = some next)
    (hgrant : Entry.grant ⟨call, logged.state.manager.reply call,
      logged.state.manager.misses call⟩ = some grant) :
    ∃ challengeId pin, Confirmable wrongPin pinTtlSeconds logged.log grant.clientAddress
      challengeId pin grant.grantedAt := by
  obtain ⟨hclock, -⟩ := record_eq hrecord
  cases call with
  | create | validate => cases hgrant
  | verify clientAddress challengeId pin now random =>
      refine ⟨challengeId, pin, ?_⟩
      simp only [Entry.grant] at hgrant
      split at hgrant
      · rename_i hcall hok hsession
        cases hcall
        cases hgrant
        have htoken : random.tokenBytes.isSome = true := by
          have hspec := authVerifyChallengeAt_spec logged.state.manager clientAddress challengeId
            pin now random
          simp only [Manager.reply] at hok
          generalize logged.state.manager.misses (.verify clientAddress challengeId pin now random)
            = missed at hspec
          generalize authVerifyChallengeAt logged.state.manager clientAddress challengeId pin now
            random = stretch at hspec hok
          cases hspec with
          | unmatched result hresult | spent result hresult | missed result hresult =>
              exact absurd hok hresult
          | expired | unissued => cases hok
          | confirmed token slot challenge hformed hfinds hlive hright htoken =>
              obtain ⟨bytes, hbytes, -⟩ := Option.map_eq_some_iff.mp htoken
              rw [hbytes]
              rfl
        exact (h.verify_ok_iff hclock htoken).mp hok
      · cases hgrant

theorem Confirmed.record {call : Auth.Call} {next : Logged} (h : Confirmed pinTtlSeconds logged.log)
    (hledger : Ledger pinTtlSeconds logged) (hrecord : record logged call = some next) :
    Confirmed pinTtlSeconds next.log := by
  obtain ⟨-, hnext⟩ := record_eq hrecord
  rintro newer entry older grant hlog hgrant
  rw [hnext] at hlog
  cases newer with
  | nil =>
      obtain ⟨rfl, rfl⟩ := List.cons.inj hlog
      exact grant_confirmable hledger hrecord hgrant
  | cons first newer =>
      obtain ⟨-, hlog⟩ := List.cons.inj hlog
      exact h newer entry older grant hlog hgrant

/-- A task whose session has been checked has one that was granted. -/
def Task.Admitted (pinTtlSeconds : UInt32) (log : List Entry) (request : Request) (task : Task) :
    Prop :=
  task.stage .pin ≠ .unchecked →
    Granted pinTtlSeconds log request.clientAddress (authorizationOf .pin request)

/-- What the calls of the authentication manager, the tasks and the slot have to do with each
other. -/
structure Gated (pinTtlSeconds sessionTtlSeconds : UInt32) (manager : Auth.Manager)
    (clock : UInt64) (state : State) (logged : Logged) : Prop where
  recorded : exec record (.start manager clock) state.authCalls = some logged
  auth_eq : logged.state = state.auth
  ledger : Ledger pinTtlSeconds logged
  sessions : SingleSession sessionTtlSeconds logged
  confirmed : Confirmed pinTtlSeconds logged.log
  tasks : ∀ tid task, state.tasks tid = some task → ∃ request body,
    task.Follows .pin request body ∧ task.Admitted pinTtlSeconds logged.log request
  owned : ∀ clientAddress authorization,
    state.uploads.world.mgr.Owned clientAddress authorization →
    Granted pinTtlSeconds logged.log clientAddress authorization

variable {site : Site} {manager : Auth.Manager} {clock : UInt64} {state next : State} {tid : ℕ}

theorem Gated.setTask {task : Option Task}
    (h : Gated pinTtlSeconds sessionTtlSeconds manager clock state logged)
    (htask : ∀ task', task = some task' → ∃ request body,
      task'.Follows .pin request body ∧ task'.Admitted pinTtlSeconds logged.log request) :
    Gated pinTtlSeconds sessionTtlSeconds manager clock (state.setTask tid task) logged :=
  { h with
    tasks := fun other task' htask' => by
      by_cases heq : other = tid
      · subst heq
        exact htask task' (setTask_at.symm.trans htask')
      · exact h.tasks other task' ((setTask_of_ne heq).symm.trans htask') }

/-- A task goes on behind a call that checks no session. -/
theorem Gated.advance (effect : Effect) {exchanges : List (Program.Exchange Effect.Reply)}
    {rest : effect.Reply → Handler Unit}
    (h : Gated pinTtlSeconds sessionTtlSeconds manager clock state logged)
    (htask : state.tasks tid = some ⟨exchanges, .call effect rest⟩)
    (hother : ∀ client authorization, effect ≠ .validateBearer client authorization)
    (reply : effect.Reply) : ∃ request body,
      Task.Follows .pin request body ⟨⟨effect, reply⟩ :: exchanges, rest reply⟩ ∧
        Task.Admitted pinTtlSeconds logged.log request
          ⟨⟨effect, reply⟩ :: exchanges, rest reply⟩ := by
  obtain ⟨request, body, hfollows, hadmitted⟩ := h.tasks tid _ htask
  refine ⟨request, body, hfollows.advance effect reply,
    fun hchecked => hadmitted fun hunchecked => ?_⟩
  have hmay := hfollows.1
  rw [hunchecked] at hmay
  refine hchecked ?_
  show Stage.after (Task.stage .pin ⟨exchanges, .call effect rest⟩) effect reply = _
  rw [hunchecked]
  exact unchecked_after hother hmay reply

namespace Sample

end Sample

end LocalSend.Receiver
