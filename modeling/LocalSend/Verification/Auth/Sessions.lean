import LocalSend.Verification.Auth.History

/-! # The session table as a single session

The four entries of the table never hold more than one session, that of the last PIN
confirmed from any address. A bearer is accepted exactly for this session, and until it
expires.
-/

namespace LocalSend.Auth

open Transition

/-- A session as it was granted. -/
structure Grant where
  clientAddress : CString
  token : CString
  grantedAt : UInt64
  deriving DecidableEq

/-- The session a call granted. -/
def Entry.grant (entry : Entry) : Option Grant :=
  match entry.call, entry.reply.result, entry.reply.session with
  | .verify clientAddress _ _ now _, .ok, some session => some ⟨clientAddress, session.token, now⟩
  | _, _, _ => none

/-- The session granted by the most recent successful verify of any address. -/
def lastGrant : List Entry → Option Grant
  | [] => none
  | entry :: log =>
      match entry.grant with
      | some grant => some grant
      | none => lastGrant log

/-- The random source fills the bytes of a token. -/
def Filled (_ : Logged) : Call → Prop
  | .verify _ _ _ _ random => ∀ bytes, random.tokenBytes = some bytes →
      AUTH_TOKEN_HEX_BYTES / 2 ≤ bytes.length
  | _ => True

/-- The record of a granted session. -/
def Grant.session (grant : Grant) (sessionTtlSeconds : UInt32) : Session :=
  ⟨true, grant.grantedAt + sessionTtlSeconds.toUInt64, grant.clientAddress, grant.token⟩

/-- The one entry of the table that may hold a session is that of the last grant, or has
been cleared because that grant expired. -/
inductive Holding (sessionTtlSeconds : UInt32) (clock : UInt64) : Option Grant → Session → Prop
  | none : Holding sessionTtlSeconds clock none .cleared
  | live (grant : Grant) : Holding sessionTtlSeconds clock (some grant)
      (grant.session sessionTtlSeconds)
  | expired (grant : Grant)
      (hexpired : grant.grantedAt + sessionTtlSeconds.toUInt64 ≤ clock) :
      Holding sessionTtlSeconds clock (some grant) .cleared

/-- The table is the single-session machine. -/
structure SingleSession (sessionTtlSeconds : UInt32) (logged : Logged) : Prop where
  ttl : logged.state.manager.sessionTtlSeconds = sessionTtlSeconds
  table : ∃ session others, logged.state.manager.sessions = session :: others ∧
    (∀ other ∈ others, other = .cleared) ∧
    Holding sessionTtlSeconds logged.state.clock (lastGrant logged.log) session
  formed : ∀ grant, lastGrant logged.log = some grant →
    validClientAddress grant.clientAddress = true ∧ grant.token.length = AUTH_TOKEN_HEX_BYTES

variable {sessionTtlSeconds : UInt32} {logged : Logged} {log : List Entry} {now : UInt64}

/-! ## The clean-up -/

theorem stale_cleared (now : UInt64) : Session.cleared.stale now = false := rfl

theorem Holding.cleanup {clock : UInt64} {grant : Option Grant} {session : Session}
    (h : Holding sessionTtlSeconds clock grant session) (hclock : clock ≤ now) :
    Holding sessionTtlSeconds now grant
      (if session.stale now then .cleared else session) := by
  cases h with
  | none =>
      rw [stale_cleared]
      exact .none
  | live grant =>
      split
      · rename_i hstale
        simp only [Session.stale, Grant.session, decide_eq_true_eq, true_and] at hstale
        exact .expired grant hstale
      · exact .live grant
  | expired grant hexpired =>
      rw [stale_cleared]
      exact .expired grant (UInt64.le_trans hexpired hclock)

theorem Holding.mono {clock : UInt64} {grant : Option Grant} {session : Session}
    (h : Holding sessionTtlSeconds clock grant session) (hclock : clock ≤ now) :
    Holding sessionTtlSeconds now grant session := by
  cases h with
  | none => exact .none
  | live grant => exact .live grant
  | expired grant hexpired => exact .expired grant (UInt64.le_trans hexpired hclock)

/-- The sessions as a call leaves them that grants none. -/
structure Unchanged (manager next : Manager) (now : UInt64) : Prop where
  ttl : next.sessionTtlSeconds = manager.sessionTtlSeconds
  sessions : next.sessions = manager.sessions ∨
    next.sessions = (cleanupExpired manager now).sessions

theorem SingleSession.unchanged {manager : Manager} {entry : Entry}
    (h : SingleSession sessionTtlSeconds logged) (hclock : logged.state.clock ≤ now)
    (hsame : Unchanged logged.state.manager manager now) (hnone : entry.grant = none) :
    SingleSession sessionTtlSeconds ⟨⟨manager, now⟩, entry :: logged.log⟩ := by
  have hlast : lastGrant (entry :: logged.log) = lastGrant logged.log := by
    simp only [lastGrant, hnone]
  obtain ⟨session, others, hsessions, hothers, hholding⟩ := h.table
  refine ⟨hsame.ttl.trans h.ttl, ?_, hlast ▸ h.formed⟩
  rw [hlast]
  rcases hsame.sessions with hkept | hcleaned
  · exact ⟨session, others, hkept.trans hsessions, hothers, hholding.mono hclock⟩
  · refine ⟨_, _, hcleaned.trans (congrArg (List.map _) hsessions), ?_, hholding.cleanup hclock⟩
    intro other hmem
    obtain ⟨before, hbefore, rfl⟩ := List.mem_map.mp hmem
    rw [hothers before hbefore, stale_cleared]
    rfl

/-! ## Calls -/

theorem authCreateChallengeAt_sessions (manager : Manager) (clientAddress : CString)
    (now : UInt64) (random : Random) :
    Unchanged manager (authCreateChallengeAt manager clientAddress now random).1 now := by
  unfold authCreateChallengeAt
  split
  · exact ⟨rfl, .inl rfl⟩
  split
  · dsimp only
    split
    · exact ⟨rfl, .inr rfl⟩
    · split <;> exact ⟨rfl, .inr rfl⟩
  · exact ⟨rfl, .inl rfl⟩

theorem authValidateBearerAt_sessions (manager : Manager) (clientAddress authorization : CString)
    (now : UInt64) :
    Unchanged manager (authValidateBearerAt manager clientAddress authorization now).1 now := by
  unfold authValidateBearerAt
  split
  · exact ⟨rfl, .inl rfl⟩
  dsimp only
  split
  · exact ⟨rfl, .inl rfl⟩
  · exact ⟨rfl, .inr rfl⟩

theorem singleSession_record {next : Logged} {call : Call}
    (h : SingleSession sessionTtlSeconds logged) (hfilled : Filled logged call)
    (hrecord : record logged call = some next) : SingleSession sessionTtlSeconds next := by
  obtain ⟨hclock, rfl⟩ := record_eq hrecord
  cases call with
  | create clientAddress now random =>
      exact h.unchanged hclock (authCreateChallengeAt_sessions ..) rfl
  | verify clientAddress challengeId pin now random =>
      have hspec := authVerifyChallengeAt_spec logged.state.manager clientAddress challengeId pin
        now random
      simp only [Manager.after, Manager.reply, Call.now]
      generalize logged.state.manager.misses (.verify clientAddress challengeId pin now random) =
        missed at hspec ⊢
      generalize authVerifyChallengeAt logged.state.manager clientAddress challengeId pin now
        random = stretch at hspec ⊢
      cases hspec with
      | unmatched result hresult | spent result hresult | missed result hresult =>
          refine h.unchanged hclock ⟨rfl, .inl rfl⟩ ?_
          simp [Entry.grant]
      | expired | unissued => exact h.unchanged hclock ⟨rfl, .inl rfl⟩ rfl
      | confirmed token slot challenge hformed hfinds hlive hright htoken =>
          obtain ⟨session, others, hsessions, hothers, -⟩ := h.table
          refine ⟨h.ttl, ⟨Grant.session ⟨clientAddress, token, now⟩ sessionTtlSeconds,
            others.map fun _ => .cleared, ?_, ?_, .live _⟩, ?_⟩
          · simp only [confirmedSessions, hsessions, h.ttl]
            rfl
          · intro other hmem
            obtain ⟨_, _, rfl⟩ := List.mem_map.mp hmem
            rfl
          · rintro grant ⟨⟩
            exact ⟨hformed.address, generateHex_formed htoken hfilled⟩
  | validate clientAddress authorization now =>
      exact h.unchanged hclock (authValidateBearerAt_sessions ..) rfl

/-! ## Which bearer is accepted -/

/-- By the history, the address holds the session this authorization names. -/
def Authorized (sessionTtlSeconds : UInt32) (log : List Entry)
    (clientAddress authorization : CString) (now : UInt64) : Prop :=
  ∃ grant, lastGrant log = some grant ∧ authorization = bearerPrefix ++ grant.token ∧
    grant.clientAddress = clientAddress ∧ now < grant.grantedAt + sessionTtlSeconds.toUInt64

/-- The session a bearer is compared with. -/
def Session.admits (session : Session) (clientAddress token : CString) : Bool :=
  session.occupied && constantTimeEqual session.token token AUTH_TOKEN_HEX_BYTES &&
    session.clientAddress == clientAddress

/-- Behind the clean-up a session of the table admits exactly what the last grant allows. -/
theorem SingleSession.any_admits (h : SingleSession sessionTtlSeconds logged)
    (hclock : logged.state.clock ≤ now) {clientAddress token : CString}
    (htoken : token.length = AUTH_TOKEN_HEX_BYTES) :
    ((cleanupExpired logged.state.manager now).sessions.any fun session =>
        session.admits clientAddress token) = true ↔
      ∃ grant, lastGrant logged.log = some grant ∧ token = grant.token ∧
        grant.clientAddress = clientAddress ∧
        now < grant.grantedAt + sessionTtlSeconds.toUInt64 := by
  obtain ⟨session, others, hsessions, hothers, hholding⟩ := h.table
  have hcleaned : (cleanupExpired logged.state.manager now).sessions =
      (if session.stale now then .cleared else session) ::
        others.map fun other => if other.stale now then .cleared else other :=
    congrArg (List.map _) hsessions
  have hrest : (others.map fun other => if other.stale now then Session.cleared else other).any
      (fun session => session.admits clientAddress token) = false := by
    rw [List.any_eq_false]
    intro other hmem
    obtain ⟨before, hbefore, rfl⟩ := List.mem_map.mp hmem
    rw [hothers before hbefore, stale_cleared]
    exact Bool.false_ne_true
  rw [hcleaned, List.any_cons, hrest, Bool.or_false]
  generalize hlast : lastGrant logged.log = last at hholding
  constructor
  · intro hadmits
    cases hholding with
    | none => cases hadmits
    | expired grant hexpired => cases hadmits
    | live grant =>
        split at hadmits
        · cases hadmits
        · rename_i hfresh
          simp only [Session.admits, Grant.session, Bool.and_eq_true, beq_iff_eq,
            true_and] at hadmits
          have hformed := (h.formed grant hlast).2
          refine ⟨grant, rfl, ((constantTimeEqual_iff hformed htoken).mp hadmits.1).symm,
            hadmits.2, ?_⟩
          simpa [Session.stale, Grant.session, UInt64.not_le] using hfresh
  · rintro ⟨grant, rfl, rfl, haddress, hunexpired⟩
    have hformed := (h.formed grant hlast).2
    cases hholding with
    | expired _ hexpired =>
        exact absurd (UInt64.lt_of_lt_of_le hunexpired (UInt64.le_trans hexpired hclock))
          (UInt64.lt_irrefl _)
    | live =>
        have hfresh : (grant.session sessionTtlSeconds).stale now = false := by
          simpa [Session.stale, Grant.session, UInt64.not_le] using hunexpired
        rw [hfresh]
        simp [Session.admits, Grant.session, haddress, constantTimeEqual_iff hformed hformed]

theorem bearer_eq {authorization : CString}
    (h : bearerPrefix.isPrefixOf authorization = true) :
    authorization = bearerPrefix ++ authorization.drop 7 := by
  obtain ⟨token, rfl⟩ := List.isPrefixOf_iff_prefix.mp h
  rfl

/-- A bearer is accepted exactly when it is the token of the last grant of the log, for its
address, and not expired. -/
theorem SingleSession.validate_ok_iff (h : SingleSession sessionTtlSeconds logged)
    (hclock : logged.state.clock ≤ now) (clientAddress authorization : CString) :
    (authValidateBearerAt logged.state.manager clientAddress authorization now).2 = .ok ↔
      Authorized sessionTtlSeconds logged.log clientAddress authorization now := by
  unfold authValidateBearerAt Authorized
  split
  · rename_i hrefused
    constructor
    · intro hok
      cases hok
    · rintro ⟨grant, hlast, rfl, rfl, -⟩
      have hvalid := (h.formed grant hlast).1
      have hprefix : bearerPrefix.isPrefixOf (bearerPrefix ++ grant.token) = true :=
        List.isPrefixOf_iff_prefix.mpr (List.prefix_append ..)
      simp [hvalid, hprefix] at hrefused
  rename_i hformed
  simp only [not_or, not_not] at hformed
  have hbearer := bearer_eq hformed.2
  dsimp only
  split
  · rename_i hlength
    constructor
    · intro hok
      cases hok
    · rintro ⟨grant, hlast, rfl, -⟩
      exact absurd (h.formed grant hlast).2 hlength
  · rename_i hlength
    have hadmits : ((cleanupExpired logged.state.manager now).sessions.any fun session =>
        session.admits clientAddress (authorization.drop 7)) = true ↔ _ :=
      h.any_admits hclock (not_not.mp hlength)
    constructor
    · intro hok
      by_cases hfound : ((cleanupExpired logged.state.manager now).sessions.any fun session =>
          session.admits clientAddress (authorization.drop 7)) = true
      · obtain ⟨grant, hlast, htoken, hrest⟩ := hadmits.mp hfound
        exact ⟨grant, hlast, hbearer.trans (congrArg _ htoken), hrest⟩
      · exact absurd ((if_neg hfound).symm.trans hok) (by simp)
    · rintro ⟨grant, hlast, rfl, hrest⟩
      exact if_pos (hadmits.mpr ⟨grant, hlast, rfl, hrest⟩)

/-! ## Runs -/

theorem singleSession_start {pinTtlSeconds : UInt32} {manager : Manager}
    (hcreate : authManagerCreate pinTtlSeconds sessionTtlSeconds = some manager)
    (clock : UInt64) : SingleSession sessionTtlSeconds (.start manager clock) := by
  unfold authManagerCreate at hcreate
  split at hcreate
  · cases hcreate
  cases hcreate
  refine ⟨rfl, ⟨.cleared, .replicate 3 .cleared, rfl, ?_, .none⟩, ?_⟩
  · intro other hmem
    exact List.eq_of_mem_replicate hmem
  · intro grant hlast
    cases hlast

/-- In every run a bearer is accepted exactly when it carries the token of the most recent
successful verify of any address, comes from the address of that verify, and has not
expired. -/
theorem validate_ok_iff_authorized {pinTtlSeconds : UInt32} {manager : Manager} {clock : UInt64}
    {calls : List Call} {clientAddress authorization : CString}
    (hcreate : authManagerCreate pinTtlSeconds sessionTtlSeconds = some manager)
    (hrun : Run record Filled (.start manager clock) calls logged)
    (hclock : logged.state.clock ≤ now) :
    (authValidateBearerAt logged.state.manager clientAddress authorization now).2 = .ok ↔
      Authorized sessionTtlSeconds logged.log clientAddress authorization now :=
  (hrun.invariant (fun _ _ _ => singleSession_record)
    (singleSession_start hcreate clock)).validate_ok_iff hclock clientAddress authorization

namespace Sample

/-- A second device. -/
def laptop : CString := [49, 48, 46, 48, 46, 48, 46, 51]

/-- Both devices confirm a PIN, the second one later. -/
def twoConfirms : List Call :=
  [.create phone 1000 (random 1), .verify phone (idOf 1) rightPin 1001 (random 1),
    .create laptop 1002 (random 2), .verify laptop (idOf 2) rightPin 1003 (random 2)]

/-- The bearer of the token drawn with `seed`. -/
def bearer (seed : UInt8) : CString := bearerPrefix ++ bytesToHex (.replicate 32 seed)

end Sample

open Sample in
/-- The session of the first device has ended, that of the second one lasts. -/
theorem validate_ok_twoConfirms :
    ∃ logged, exec record (.start manager 0) twoConfirms = some logged ∧
      (authValidateBearerAt logged.state.manager phone (bearer 1) 1004).2 ≠ .ok ∧
      (authValidateBearerAt logged.state.manager laptop (bearer 2) 1004).2 = .ok := by
  have hfound : ∃ logged, exec record (.start manager 0) twoConfirms = some logged ∧
      lastGrant logged.log = some ⟨laptop, bytesToHex (.replicate 32 2), 1003⟩ ∧
      logged.state.clock ≤ 1004 :=
    exists_of_exec (by decide +kernel)
  obtain ⟨logged, hexec, hlast, hclock⟩ := hfound
  have hfilled : ∀ call ∈ twoConfirms, ∀ logged, Filled logged call := by
    simp [twoConfirms, Filled, random, AUTH_TOKEN_HEX_BYTES]
  have hcreate : authManagerCreate 300 1800 = some manager := by decide +kernel
  have hrun := Run.of_exec hfilled hexec
  refine ⟨logged, hexec, ?_, ?_⟩
  · rw [ne_eq, validate_ok_iff_authorized hcreate hrun hclock]
    rintro ⟨grant, hgrant, -, haddress, -⟩
    cases hlast.symm.trans hgrant
    exact absurd haddress (by decide)
  · exact (validate_ok_iff_authorized hcreate hrun hclock).mpr
      ⟨_, hlast, rfl, rfl, by decide +kernel⟩

end LocalSend.Auth
