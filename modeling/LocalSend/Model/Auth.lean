import LocalSend.Model.Basic

/-! # The authentication manager

The challenge and session tables of `auth.c`, and the calls on them. Times are the
64-bit seconds of the source. The bytes `platform_secure_random` delivers to a call are
given with it; `none` is a failed read.
-/

namespace LocalSend.Auth

def AUTH_CHALLENGE_ID_HEX_BYTES : ℕ := 32
def AUTH_PIN_DIGITS : ℕ := 6
def AUTH_TOKEN_HEX_BYTES : ℕ := 64
def AUTH_CLIENT_ADDRESS_BYTES : ℕ := 64
def AUTH_MAX_ATTEMPTS : ℕ := 5
def AUTH_MAX_CHALLENGES : ℕ := 8
def AUTH_MAX_SESSIONS : ℕ := 4
def AUTH_RATE_LIMIT_SECONDS : UInt64 := 30

/-- `auth_result_t`. -/
inductive AuthResult where
  | ok
  | invalid
  | expired
  | used
  | rateLimited
  | capacity
  | randomFailure
  deriving DecidableEq, Repr

/-- `auth_challenge_t`. -/
structure Challenge where
  occupied : Bool
  used : Bool
  attempts : ℕ
  expiresAt : UInt64
  rateLimitedUntil : UInt64
  clientAddress : CString
  challengeId : CString
  pin : CString
  deriving DecidableEq

/-- `auth_session_t`. -/
structure Session where
  occupied : Bool
  expiresAt : UInt64
  clientAddress : CString
  token : CString
  deriving DecidableEq

/-- A record after `clear_challenge`. -/
def Challenge.cleared : Challenge := ⟨false, false, 0, 0, 0, [], [], []⟩

/-- A record after `clear_session`. -/
def Session.cleared : Session := ⟨false, 0, [], []⟩

/-- `struct auth_manager`. -/
structure Manager where
  pinTtlSeconds : UInt32
  sessionTtlSeconds : UInt32
  challenges : List Challenge
  sessions : List Session
  deriving DecidableEq

/-- `auth_challenge_result_t`. -/
structure ChallengeResult where
  challengeId : CString
  pin : CString
  expiresInSeconds : UInt32
  deriving DecidableEq

/-- `auth_session_result_t`. -/
structure SessionResult where
  token : CString
  expiresInSeconds : UInt32
  deriving DecidableEq

/-- `auth_manager_create`. -/
def authManagerCreate (pinTtlSeconds sessionTtlSeconds : UInt32) : Option Manager :=
  if pinTtlSeconds = 0 ∨ sessionTtlSeconds = 0 then none
  else some ⟨pinTtlSeconds, sessionTtlSeconds, .replicate AUTH_MAX_CHALLENGES .cleared,
    .replicate AUTH_MAX_SESSIONS .cleared⟩

/-! ## Helpers -/

/-- Two character arrays compared over `size` positions; a terminator reads as zero. -/
def constantTimeEqual (left right : CString) (size : ℕ) : Bool :=
  (List.range size).all fun index => left.getD index 0 == right.getD index 0

def validClientAddress (address : CString) : Bool :=
  0 < address.length ∧ address.length < AUTH_CLIENT_ADDRESS_BYTES

def bytesToHex (bytes : Bytes) : CString := hexBytes bytes

/-- `generate_hex`, from the bytes the random source delivered. -/
def generateHex (random : Option Bytes) (randomBytes : ℕ) : Option CString :=
  random.map fun bytes => bytesToHex (bytes.take randomBytes)

/-- The greatest multiple of a million the rejection loop accepts values below. -/
def pinLimit : ℕ := 4294967295 - 4294967295 % 1000000

def pinDigits (value : ℕ) : CString :=
  [100000, 10000, 1000, 100, 10, 1].map fun place => UInt8.ofNat (48 + value / place % 10)

/-- `generate_pin`: draw until a value falls below the limit, or a draw fails. -/
def generatePin : List (Option UInt32) → Option CString
  | [] => none
  | none :: _ => none
  | some value :: draws =>
      if pinLimit ≤ value.toNat then generatePin draws
      else some (pinDigits (value.toNat % 1000000))

/-- What `platform_secure_random` delivers during one call. -/
structure Random where
  idBytes : Option Bytes
  pinDraws : List (Option UInt32)
  tokenBytes : Option Bytes
  deriving DecidableEq

/-! ## Expiry clean-up -/

/-- A record `cleanup_expired` erases: past its expiry and not rate limited. -/
def Challenge.stale (challenge : Challenge) (now : UInt64) : Bool :=
  challenge.occupied ∧ challenge.expiresAt ≤ now ∧ challenge.rateLimitedUntil ≤ now

def Session.stale (session : Session) (now : UInt64) : Bool :=
  session.occupied ∧ session.expiresAt ≤ now

def cleanupExpired (manager : Manager) (now : UInt64) : Manager :=
  { manager with
    challenges := manager.challenges.map fun challenge =>
      if challenge.stale now then .cleared else challenge
    sessions := manager.sessions.map fun session =>
      if session.stale now then .cleared else session }

/-! ## `auth_create_challenge_at` -/

/-- What the loop over the table found: the table as it left it, whether it stopped at a
rate limited record of the address, and otherwise the first free position. -/
structure Scan where
  challenges : List Challenge
  limited : Bool
  slot : Option ℕ
  deriving DecidableEq

/-- The loop of `auth_create_challenge_at`: records of the address are erased on the
way, until one that is still rate limited ends the call. -/
def scanChallenges (clientAddress : CString) (now : UInt64) : List Challenge → Scan
  | [] => ⟨[], false, none⟩
  | candidate :: rest =>
      let own := candidate.occupied && candidate.clientAddress == clientAddress
      if own && decide (now < candidate.rateLimitedUntil) then
        ⟨candidate :: rest, true, none⟩
      else
        let candidate := if own then .cleared else candidate
        let scan := scanChallenges clientAddress now rest
        ⟨candidate :: scan.challenges, scan.limited,
          if candidate.occupied then scan.slot.map (· + 1) else some 0⟩

def authCreateChallengeAt (manager : Manager) (clientAddress : CString) (now : UInt64)
    (random : Random) : Manager × AuthResult × Option ChallengeResult :=
  if ¬validClientAddress clientAddress then
    (manager, .invalid, none)
  else match generateHex random.idBytes (AUTH_CHALLENGE_ID_HEX_BYTES / 2),
      generatePin random.pinDraws with
  | some challengeId, some pin =>
      let manager := cleanupExpired manager now
      let scan := scanChallenges clientAddress now manager.challenges
      let manager := { manager with challenges := scan.challenges }
      if scan.limited then
        (manager, .rateLimited, none)
      else match scan.slot with
      | none => (manager, .capacity, none)
      | some slot =>
          let challenges := manager.challenges.modify slot fun challenge =>
            { challenge with
              occupied := true
              expiresAt := now + manager.pinTtlSeconds.toUInt64
              clientAddress
              challengeId
              pin }
          ({ manager with challenges }, .ok, some ⟨challengeId, pin, manager.pinTtlSeconds⟩)
  | _, _ => (manager, .randomFailure, none)

/-! ## `auth_verify_challenge_at` -/

/-- The position of the first occupied record with this identifier. -/
def findChallenge (challenges : List Challenge) (challengeId : CString) : Option ℕ :=
  challenges.findIdx? fun candidate =>
    candidate.occupied && constantTimeEqual candidate.challengeId challengeId
      AUTH_CHALLENGE_ID_HEX_BYTES

/-- The part of `auth_verify_challenge_at` behind the look-up, for the record at `slot`. -/
def verifyFound (manager : Manager) (slot : ℕ) (challenge : Challenge)
    (clientAddress pin : CString) (now : UInt64) (random : Random) :
    Manager × AuthResult × Option SessionResult :=
  let store (challenge : Challenge) : Manager :=
    { manager with challenges := manager.challenges.set slot challenge }
  if challenge.clientAddress ≠ clientAddress then
    (manager, .invalid, none)
  else if challenge.used then
    (manager, .used, none)
  else if challenge.expiresAt ≤ now then
    (store .cleared, .expired, none)
  else if AUTH_MAX_ATTEMPTS ≤ challenge.attempts then
    (manager, .rateLimited, none)
  else if ¬constantTimeEqual challenge.pin pin AUTH_PIN_DIGITS then
    let challenge := { challenge with attempts := challenge.attempts + 1 }
    if AUTH_MAX_ATTEMPTS ≤ challenge.attempts then
      (store { challenge with
        pin := []
        rateLimitedUntil := now + AUTH_RATE_LIMIT_SECONDS }, .rateLimited, none)
    else
      (store challenge, .invalid, none)
  else match generateHex random.tokenBytes (AUTH_TOKEN_HEX_BYTES / 2) with
  | none => (manager, .randomFailure, none)
  | some token =>
      let expiresAt := now + manager.sessionTtlSeconds.toUInt64
      let session : Session := ⟨true, expiresAt, clientAddress, token⟩
      let manager := { store { challenge with used := true, pin := [] } with
        sessions := (manager.sessions.map fun _ => Session.cleared).set 0 session }
      (manager, .ok, some ⟨token, manager.sessionTtlSeconds⟩)

def authVerifyChallengeAt (manager : Manager) (clientAddress challengeId pin : CString)
    (now : UInt64) (random : Random) : Manager × AuthResult × Option SessionResult :=
  if ¬validClientAddress clientAddress ∨ challengeId.length ≠ AUTH_CHALLENGE_ID_HEX_BYTES ∨
      pin.length ≠ AUTH_PIN_DIGITS then
    (manager, .invalid, none)
  else match findChallenge manager.challenges challengeId with
  | none => (manager, .invalid, none)
  | some slot =>
      verifyFound manager slot (manager.challenges.getD slot .cleared) clientAddress pin now random

/-! ## `auth_validate_bearer_at` -/

/-- The prefix `"Bearer "`. -/
def bearerPrefix : CString := [66, 101, 97, 114, 101, 114, 32]

def authValidateBearerAt (manager : Manager) (clientAddress authorization : CString)
    (now : UInt64) : Manager × AuthResult :=
  if ¬validClientAddress clientAddress ∨ ¬bearerPrefix.isPrefixOf authorization then
    (manager, .invalid)
  else
    let token := authorization.drop 7
    if token.length ≠ AUTH_TOKEN_HEX_BYTES then
      (manager, .invalid)
    else
      let manager := cleanupExpired manager now
      let found := manager.sessions.any fun session =>
        session.occupied && constantTimeEqual session.token token AUTH_TOKEN_HEX_BYTES &&
          session.clientAddress == clientAddress
      (manager, if found then .ok else .invalid)

/-! ## Runs -/

/-- One call on the manager, with the clock reading it is made at. -/
inductive Call where
  | create (clientAddress : CString) (now : UInt64) (random : Random)
  | verify (clientAddress challengeId pin : CString) (now : UInt64) (random : Random)
  | validate (clientAddress authorization : CString) (now : UInt64)
  deriving DecidableEq

def Call.now : Call → UInt64
  | .create _ now _ => now
  | .verify _ _ _ now _ => now
  | .validate _ _ now => now

/-- The manager and the clock reading of its last call. -/
structure State where
  manager : Manager
  clock : UInt64
  deriving DecidableEq

/-- The manager after a call. -/
def Manager.after (manager : Manager) : Call → Manager
  | .create clientAddress now random => (authCreateChallengeAt manager clientAddress now random).1
  | .verify clientAddress challengeId pin now random =>
      (authVerifyChallengeAt manager clientAddress challengeId pin now random).1
  | .validate clientAddress authorization now =>
      (authValidateBearerAt manager clientAddress authorization now).1

/-- What a call hands back. -/
structure Reply where
  result : AuthResult
  challenge : Option ChallengeResult
  session : Option SessionResult
  deriving DecidableEq

/-- What the manager answers a call. -/
def Manager.reply (manager : Manager) : Call → Reply
  | .create clientAddress now random =>
      let answer := (authCreateChallengeAt manager clientAddress now random).2
      ⟨answer.1, answer.2, none⟩
  | .verify clientAddress challengeId pin now random =>
      let answer := (authVerifyChallengeAt manager clientAddress challengeId pin now random).2
      ⟨answer.1, none, answer.2⟩
  | .validate clientAddress authorization now =>
      ⟨(authValidateBearerAt manager clientAddress authorization now).2, none, none⟩

/-- One call of a run; the clock never goes back. -/
def step (state : State) (call : Call) : Option State :=
  if state.clock ≤ call.now then some ⟨state.manager.after call, call.now⟩ else none

end LocalSend.Auth
